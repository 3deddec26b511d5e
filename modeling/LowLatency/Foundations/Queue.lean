import LowLatency.Foundations.Linearizability
import Mathlib.Data.ENat.Basic

/-!
# First-in first-out queues

The sequential object the concurrent queues are compared with: a list, oldest
element first, of at most `cap` elements, with the two kinds of operation such a
queue is given. `tryPush` and `tryPop` never block and say whether they
succeeded; `push` and `pop` have no result in a state in which they would have to
wait. An unbounded queue is one of capacity `⊤`.
-/

/-- The operations of a queue of values of type `V`. -/
inductive QueueOp (V : Type*) where
  /-- Append a value, or say that the queue is full. -/
  | tryPush (v : V) : QueueOp V
  /-- Append a value, waiting for room. -/
  | push (v : V) : QueueOp V
  /-- Take the oldest value, or say that the queue is empty. -/
  | tryPop : QueueOp V
  /-- Take the oldest value, waiting for one. -/
  | pop : QueueOp V

/-- The results of the operations of a queue. -/
inductive QueueRes (V : Type*) where
  /-- Whether the value was appended. -/
  | tryPush (ok : Bool) : QueueRes V
  /-- The value was appended. -/
  | push : QueueRes V
  /-- The value taken, if there was one. -/
  | tryPop (v : Option V) : QueueRes V
  /-- The value taken. -/
  | pop (v : V) : QueueRes V

variable {V : Type*}

/-- The results an operation may have on a queue of capacity `cap`. -/
inductive QueueStep (cap : ℕ∞) : List V → QueueOp V → QueueRes V → List V → Prop
  /-- There is room. -/
  | tryPush {q : List V} (v : V) : (q.length : ℕ∞) < cap →
      QueueStep cap q (.tryPush v) (.tryPush true) (q ++ [v])
  /-- The queue is full. -/
  | tryPushFull {q : List V} (v : V) : cap ≤ q.length →
      QueueStep cap q (.tryPush v) (.tryPush false) q
  /-- There is room. -/
  | push {q : List V} (v : V) : (q.length : ℕ∞) < cap →
      QueueStep cap q (.push v) .push (q ++ [v])
  /-- There is a value. -/
  | tryPop (v : V) (q : List V) : QueueStep cap (v :: q) .tryPop (.tryPop (some v)) q
  /-- The queue is empty. -/
  | tryPopEmpty : QueueStep cap [] .tryPop (.tryPop none) []
  /-- There is a value. -/
  | pop (v : V) (q : List V) : QueueStep cap (v :: q) .pop (.pop v) q

/-- **The first-in first-out queue of capacity `cap`**, initially empty. -/
def fifo (V : Type*) (cap : ℕ∞) : SequentialObject (List V) (QueueOp V) (QueueRes V) where
  init := []
  Step := QueueStep cap

/-! ### Traces

A program that uses a queue is recorded by its actions. Only the calls and the
returns are visible to a client; of the other steps, those by which a value goes in
and comes out are recorded with the value, so that what has gone in and come out can
be read off the trace. -/

/-- An action of a thread that uses a queue. -/
inductive QueueAction (τ V : Type*) where
  | call (t : τ) (op : QueueOp V) : QueueAction τ V
  | ret (t : τ) (res : QueueRes V) : QueueAction τ V
  /-- The step that adds a value. -/
  | publish (t : τ) (v : V) : QueueAction τ V
  /-- The step that removes a value. -/
  | consume (t : τ) (v : V) : QueueAction τ V
  /-- Any other step. -/
  | access (t : τ) : QueueAction τ V

/-- The value an operation hands out, if it does. -/
def QueueRes.value? : QueueRes V → Option V
  | .tryPop v => v
  | .pop v => some v
  | _ => none

namespace QueueAction

variable {τ : Type*}

/-- The event a client sees. -/
def event? : QueueAction τ V → Option (Event τ (QueueOp V) (QueueRes V))
  | .call t op => some (.call t op)
  | .ret t res => some (.ret t res)
  | _ => none

/-- The value added by an action. -/
def published? : QueueAction τ V → Option V
  | .publish _ v => some v
  | _ => none

/-- The value removed by an action. -/
def popped? : QueueAction τ V → Option V
  | .consume _ v => some v
  | _ => none

/-- **The history** of a run: its calls and returns. -/
def history (tr : List (QueueAction τ V)) : List (Event τ (QueueOp V) (QueueRes V)) :=
  tr.filterMap event?

/-- **The values published** in a run, oldest first. -/
def published (tr : List (QueueAction τ V)) : List V := tr.filterMap published?

/-- **The values popped** in a run, oldest first. -/
def popped (tr : List (QueueAction τ V)) : List V := tr.filterMap popped?

@[simp] theorem published_nil : published ([] : List (QueueAction τ V)) = [] := rfl

@[simp] theorem popped_nil : popped ([] : List (QueueAction τ V)) = [] := rfl

@[simp] theorem published_snoc (tr : List (QueueAction τ V)) (a : QueueAction τ V) :
    published (tr ++ [a]) = published tr ++ a.published?.toList := by
  rw [published, List.filterMap_append]
  cases h : a.published? <;> simp [published, h]

@[simp] theorem popped_snoc (tr : List (QueueAction τ V)) (a : QueueAction τ V) :
    popped (tr ++ [a]) = popped tr ++ a.popped?.toList := by
  rw [popped, List.filterMap_append]
  cases h : a.popped? <;> simp [popped, h]

/-! The values of one thread, from the step that removes them to the return. -/

section Thread

variable [DecidableEq τ] (t : τ)

/-- The value an action removes for the thread `t`. -/
def taken? : QueueAction τ V → Option V
  | .consume u v => if u = t then some v else none
  | _ => none

/-- The value an action returns to the caller of the thread `t`. -/
def returned? : QueueAction τ V → Option V
  | .ret u res => if u = t then res.value? else none
  | _ => none

/-- The values popped by the thread `t`, oldest first. -/
def taken (tr : List (QueueAction τ V)) : List V := tr.filterMap (taken? t)

/-- **The values returned** by the successful pops of the thread `t`, oldest first. -/
def returned (tr : List (QueueAction τ V)) : List V := tr.filterMap (returned? t)

@[simp] theorem taken_nil : taken t ([] : List (QueueAction τ V)) = [] := rfl

@[simp] theorem returned_nil : returned t ([] : List (QueueAction τ V)) = [] := rfl

@[simp] theorem taken_snoc (tr : List (QueueAction τ V)) (a : QueueAction τ V) :
    taken t (tr ++ [a]) = taken t tr ++ (a.taken? t).toList := by
  rw [taken, List.filterMap_append]
  cases h : a.taken? t <;> simp [taken, h]

@[simp] theorem returned_snoc (tr : List (QueueAction τ V)) (a : QueueAction τ V) :
    returned t (tr ++ [a]) = returned t tr ++ (a.returned? t).toList := by
  rw [returned, List.filterMap_append]
  cases h : a.returned? t <;> simp [returned, h]

/-- **What has come out has been returned or is in hand**, if every step hands on what the
thread `t` holds. Which values come out for it is read off the actions by `out?`. -/
theorem filterMap_eq_returned {σ : Type*} {M : TransitionSystem σ (QueueAction τ V)}
    {out? : QueueAction τ V → Option V} (inHand : σ → List V)
    (hinit : ∀ s, M.Init s → inHand s = [])
    (hstep : ∀ s a s', M.Step s a s' →
      inHand s ++ (out? a).toList = (a.returned? t).toList ++ inHand s')
    {tr : List (QueueAction τ V)} {s : σ} (h : M.Run tr s) :
    tr.filterMap out? = returned t tr ++ inHand s := by
  refine h.invariant (I := fun tr s => tr.filterMap out? = returned t tr ++ inHand s) ?_ ?_
  · intro s hs
    rw [hinit s hs]
    rfl
  · intro tr s a s' _ ih hs
    have hlast : [a].filterMap out? = (out? a).toList := by
      cases ha : out? a <;> simp [ha]
    rw [List.filterMap_append, hlast, ih, returned_snoc, List.append_assoc, List.append_assoc,
      hstep s a s' hs]

end Thread

/-! ### Matching a step of an implementation

A step of a program that implements a queue is *matched* if marks of the atomic
queue that show the same call or return lead from the queue before to the queue
after. -/

section Matching

variable [DecidableEq τ] {cap : ℕ∞} {a : QueueAction τ V} {t : τ} {op : QueueOp V}
  {res : QueueRes V} {q q' : AtomicState τ (List V) (QueueOp V) (QueueRes V)}

/-- The step from `q` to `q'` with the action `a` is one of the atomic queue. -/
def Matches (cap : ℕ∞) (q : AtomicState τ (List V) (QueueOp V) (QueueRes V))
    (a : QueueAction τ V) (q' : AtomicState τ (List V) (QueueOp V) (QueueRes V)) : Prop :=
  ∃ marks, ((fifo V cap).atomic τ).Steps q marks q' ∧
    marks.filterMap Mark.event? = a.event?.toList

/-- A step that changes nothing a client knows of. -/
theorem Matches.quiet (ha : a.event? = none) (hobj : q'.object = q.object)
    (hstatus : ∀ u, q'.status u = q.status u) : Matches cap q a q' := by
  obtain ⟨object, status⟩ := q
  obtain ⟨object', status'⟩ := q'
  obtain rfl : object' = object := hobj
  obtain rfl : status' = status := funext hstatus
  exact ⟨[], .refl _, by rw [ha]; rfl⟩

/-- A step by which an operation takes effect. -/
theorem Matches.point (t : τ) (op : QueueOp V) (res : QueueRes V) (ha : a.event? = none)
    (ht : q.status t = .called op)
    (ht' : q'.status t = .done res) (hobj : QueueStep cap q.object op res q'.object)
    (hother : ∀ u, u ≠ t → q'.status u = q.status u) : Matches cap q a q' :=
  ⟨[.point t op res], .single (SequentialObject.atomic_step_point ht ht' hobj hother),
    by rw [ha]; rfl⟩

/-- A call. -/
theorem Matches.call (ht : q.status t = .idle) (ht' : q'.status t = .called op)
    (hobj : q'.object = q.object) (hother : ∀ u, u ≠ t → q'.status u = q.status u) :
    Matches cap q (.call t op) q' :=
  ⟨[.call t op], .single (SequentialObject.atomic_step_call ht ht' hobj hother), rfl⟩

/-- A return. -/
theorem Matches.ret (ht : q.status t = .done res) (ht' : q'.status t = .idle)
    (hobj : q'.object = q.object) (hother : ∀ u, u ≠ t → q'.status u = q.status u) :
    Matches cap q (.ret t res) q' :=
  ⟨[.ret t res], .single (SequentialObject.atomic_step_ret ht ht' hobj hother), rfl⟩

/-- **A program whose every step is matched** is linearizable to the queue. What a
state stands for is read off the state and the values published and popped. -/
theorem linearizable_of_matches {σ : Type*} {M : TransitionSystem σ (QueueAction τ V)}
    (view : List V → List V → σ → AtomicState τ (List V) (QueueOp V) (QueueRes V))
    (hinit : ∀ s, M.Init s → view [] [] s = ⟨[], fun _ => .idle⟩)
    (hstep : ∀ tr s a s', M.Run tr s → M.Step s a s' →
      Matches cap (view (published tr) (popped tr) s) a
        (view (published tr ++ a.published?.toList) (popped tr ++ a.popped?.toList) s'))
    {tr : List (QueueAction τ V)} {s : σ} (h : M.Run tr s) :
    (fifo V cap).Linearizable (history tr) := by
  refine SequentialObject.linearizable_of_simulation event?
    (fun tr s q => q = view (published tr) (popped tr) s) (fun s hs => (hinit s hs).symm) ?_ h
  rintro tr s a s' q hrun rfl hs
  obtain ⟨marks, hmarks, hevent⟩ := hstep tr s a s' hrun hs
  refine ⟨marks, _, hmarks, hevent, ?_⟩
  rw [published_snoc, popped_snoc]

end Matching

end QueueAction
