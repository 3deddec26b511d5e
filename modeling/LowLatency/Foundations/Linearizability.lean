import LowLatency.Foundations.Transition
import Mathlib.Logic.Function.Basic

/-!
# Linearizability by serialization points

A concurrent object is *linearizable* to a sequential one when every history of
its calls and returns can be decorated with one *serialization point* for each
completed operation – and for some of the pending ones – lying between the call
and the return, such that performing the operations atomically at their points,
in the order the points occur, is a run of the sequential object that gives every
operation the result it returned.

The decorated histories are the runs of a transition system of their own
(`SequentialObject.atomic`): a thread is idle, has called an operation, or has
been given its result, and the object changes at serialization points only. So
linearizability is an inclusion of histories, and it is proved like any other
inclusion, by a simulation (`linearizable_of_simulation`): every step of the
concrete system is matched by marks of the decorated one showing the same call or
return, if any.
-/

/-- **A sequential object**: its initial state, and which result an operation may
have in which state. The relation is partial where an operation blocks. -/
structure SequentialObject (S Op Res : Type*) where
  /-- The initial state. -/
  init : S
  /-- The state, the operation, its result, and the state after. -/
  Step : S → Op → Res → S → Prop

/-- **An event of a history**: a call, or a return with its result. -/
inductive Event (τ Op Res : Type*) where
  /-- Thread `t` calls `op`. -/
  | call (t : τ) (op : Op) : Event τ Op Res
  /-- The operation of thread `t` returns `res`. -/
  | ret (t : τ) (res : Res) : Event τ Op Res

/-- **A mark of a decorated history**: an event, or a serialization point. -/
inductive Mark (τ Op Res : Type*) where
  /-- Thread `t` calls `op`. -/
  | call (t : τ) (op : Op) : Mark τ Op Res
  /-- The operation of thread `t` takes effect, with result `res`. -/
  | point (t : τ) (op : Op) (res : Res) : Mark τ Op Res
  /-- The operation of thread `t` returns `res`. -/
  | ret (t : τ) (res : Res) : Mark τ Op Res

/-- The event a mark shows; a serialization point shows none. -/
def Mark.event? {τ Op Res : Type*} : Mark τ Op Res → Option (Event τ Op Res)
  | .call t op => some (.call t op)
  | .point _ _ _ => none
  | .ret t res => some (.ret t res)

/-- **Where a thread stands** with respect to the atomic object. -/
inductive Status (Op Res : Type*) where
  /-- Between two operations. -/
  | idle : Status Op Res
  /-- It has called the operation, which has not taken effect. -/
  | called (op : Op) : Status Op Res
  /-- Its operation has taken effect, and will return `res`. -/
  | done (res : Res) : Status Op Res

/-- A state of the atomic object: the object, and where every thread stands. -/
structure AtomicState (τ S Op Res : Type*) where
  /-- The state of the sequential object. -/
  object : S
  /-- Where each thread stands. -/
  status : τ → Status Op Res

namespace SequentialObject

variable {τ S Op Res : Type*} [DecidableEq τ]

/-- The steps of the atomic object. -/
inductive AtomicStep (O : SequentialObject S Op Res) :
    AtomicState τ S Op Res → Mark τ Op Res → AtomicState τ S Op Res → Prop
  /-- An idle thread calls an operation. -/
  | call {q : AtomicState τ S Op Res} {t : τ} (op : Op) : q.status t = .idle →
      AtomicStep O q (.call t op) ⟨q.object, Function.update q.status t (.called op)⟩
  /-- A called operation takes effect. -/
  | point {q : AtomicState τ S Op Res} {t : τ} {op : Op} {res : Res} {s' : S} :
      q.status t = .called op → O.Step q.object op res s' →
      AtomicStep O q (.point t op res) ⟨s', Function.update q.status t (.done res)⟩
  /-- An operation that has taken effect returns its result. -/
  | ret {q : AtomicState τ S Op Res} {t : τ} {res : Res} : q.status t = .done res →
      AtomicStep O q (.ret t res) ⟨q.object, Function.update q.status t .idle⟩

/-- **The atomic object**: the transition system of the decorated histories. -/
def atomic (O : SequentialObject S Op Res) (τ : Type*) [DecidableEq τ] :
    TransitionSystem (AtomicState τ S Op Res) (Mark τ Op Res) where
  Init q := q = ⟨O.init, fun _ => .idle⟩
  Step := O.AtomicStep

/-- **Linearizability of a history**: it is a decorated history with its
serialization points left out. -/
def Linearizable (O : SequentialObject S Op Res) (h : List (Event τ Op Res)) : Prop :=
  ∃ (marks : List (Mark τ Op Res)) (q : AtomicState τ S Op Res),
    (O.atomic τ).Run marks q ∧ marks.filterMap Mark.event? = h

/-! ### The marks between two states

A state of the atomic object differs from the next one at the thread that moved,
and at the object if the mark is a serialization point. -/

section Marks

variable {O : SequentialObject S Op Res} {q q' : AtomicState τ S Op Res} {t : τ} {op : Op}
  {res : Res}

theorem update_status (hother : ∀ u, u ≠ t → q'.status u = q.status u) :
    Function.update q.status t (q'.status t) = q'.status := by
  funext u
  rcases eq_or_ne u t with rfl | hu
  · exact Function.update_self _ _ _
  · rw [Function.update_of_ne hu, hother u hu]

/-- The states on the two sides of a call. -/
theorem atomic_step_call (ht : q.status t = .idle) (ht' : q'.status t = .called op)
    (hobj : q'.object = q.object) (hother : ∀ u, u ≠ t → q'.status u = q.status u) :
    (O.atomic τ).Step q (.call t op) q' := by
  have h := AtomicStep.call (O := O) op ht
  rwa [← ht', update_status hother, ← hobj] at h

/-- The states on the two sides of a serialization point. -/
theorem atomic_step_point (ht : q.status t = .called op) (ht' : q'.status t = .done res)
    (hobj : O.Step q.object op res q'.object)
    (hother : ∀ u, u ≠ t → q'.status u = q.status u) :
    (O.atomic τ).Step q (.point t op res) q' := by
  have h := AtomicStep.point (O := O) ht hobj
  rwa [← ht', update_status hother] at h

/-- The states on the two sides of a return. -/
theorem atomic_step_ret (ht : q.status t = .done res) (ht' : q'.status t = .idle)
    (hobj : q'.object = q.object) (hother : ∀ u, u ≠ t → q'.status u = q.status u) :
    (O.atomic τ).Step q (.ret t res) q' := by
  have h := AtomicStep.ret (O := O) ht
  rwa [← ht', update_status hother, ← hobj] at h

end Marks

/-! ### Simulation -/

/-- **The simulation rule**: a system whose every step can be matched by marks
that show the same event has linearizable histories only. The relation sees the
trace, so that it may contain an invariant of the system. -/
theorem linearizable_of_simulation {σ α : Type*} {O : SequentialObject S Op Res}
    {M : TransitionSystem σ α} (event? : α → Option (Event τ Op Res))
    (R : List α → σ → AtomicState τ S Op Res → Prop)
    (hinit : ∀ s, M.Init s → R [] s ⟨O.init, fun _ => .idle⟩)
    (hstep : ∀ tr s a s' q, M.Run tr s → R tr s q → M.Step s a s' →
      ∃ marks q', (O.atomic τ).Steps q marks q' ∧
        marks.filterMap Mark.event? = (event? a).toList ∧ R (tr ++ [a]) s' q')
    {tr : List α} {s : σ} (h : M.Run tr s) : O.Linearizable (tr.filterMap event?) := by
  have key : ∃ marks q, (O.atomic τ).Run marks q ∧
      marks.filterMap Mark.event? = tr.filterMap event? ∧ R tr s q := by
    refine h.invariant (I := fun tr s => ∃ marks q, (O.atomic τ).Run marks q ∧
      marks.filterMap Mark.event? = tr.filterMap event? ∧ R tr s q) ?_ ?_
    · exact fun s hs => ⟨[], _, .start rfl, rfl, hinit s hs⟩
    · rintro tr s a s' hrun ⟨marks, q, hq, herase, hR⟩ ha
      obtain ⟨marks', q', hsteps, herase', hR'⟩ := hstep tr s a s' q hrun hR ha
      refine ⟨marks ++ marks', q', hq.append hsteps, ?_, hR'⟩
      rw [List.filterMap_append, List.filterMap_append, herase, herase']
      cases h : event? a <;> simp [h]
  obtain ⟨marks, q, hq, herase, -⟩ := key
  exact ⟨marks, q, hq, herase⟩

end SequentialObject
