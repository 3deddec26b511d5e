import LowLatency.Mpmc.FineGrainedMemory

/-!
# The queue with two locks is an unbounded queue

For any number of threads, the class `QueueMPMC` with two locks is linearizable to the
unbounded first-in first-out queue. An `enqueue` takes effect when it links its node
to the chain, whether or not `tail` has been moved before the value is taken; a
`dequeue` when it moves `head`, or, if it returns `false`, when it reads the null
pointer in the last node.
-/

namespace LowLatency

namespace Mpmc

namespace FineGrained

open QueueAction

variable {τ α : Type*} {P C : List α} {l : List Addr} {s s' : State τ α} {t : τ}

/-! ### What a client knows of a thread -/

/-- Where a thread stands, seen from outside. -/
def Pc.status : Pc α → Status (QueueOp α) (QueueRes α)
  | .idle => .idle
  | .newNode v => .called (.push v)
  | .fill v _ => .called (.push v)
  | .lockTail v _ => .called (.push v)
  | .link v _ => .called (.push v)
  | .setTail _ => .done .push
  | .unlockTail => .done .push
  | .lockHead => .called .tryPop
  | .readHead => .called .tryPop
  | .readNext _ => .called .tryPop
  | .unlockEmpty => .done (.tryPop none)
  | .copyData _ _ => .called .tryPop
  | .setHead _ _ _ => .called .tryPop
  | .unlockHead _ v => .done (.tryPop (some v))
  | .delete _ v => .done (.tryPop (some v))
  | .returning res => .done res

/-- The queue a state stands for, with the threads where they stand. -/
def view (P C : List α) (s : State τ α) : AtomicState τ (List α) (QueueOp α) (QueueRes α) where
  object := P.drop C.length
  status := fun t => (s.pc t).status

/-! ### The queue in the chain -/

/-- **What has been taken, then what the chain holds, is what has been linked.** -/
theorem Inv.prefix_published (h : Inv P C l s) : C <+: P := by
  have hvalues : C.map some <+: P.map some := ⟨_, h.values⟩
  have htake := List.prefix_iff_eq_take.mp hvalues
  rw [List.length_map, ← List.map_take] at htake
  rw [List.map_injective_iff.mpr (Option.some_injective α) htake]
  exact List.take_prefix _ _

/-- The values on the chain are those linked and not taken. -/
theorem Inv.chain_values (h : Inv P C l s) :
    l.map (data? s.heap) = (P.drop C.length).map some := by
  rw [List.map_drop, ← h.values, List.drop_left' (by rw [List.length_map])]

/-- **The value about to be taken is the oldest in the queue.** -/
theorem Inv.drop_eq_cons (h : Inv P C l s) {cur new : Addr} {v : α}
    (hpc : s.pc t = .setHead cur new v) : P.drop C.length = v :: P.drop (C.length + 1) := by
  have hhead := h.headSide t
  rw [hpc] at hhead
  obtain ⟨-, hnew, hv⟩ := hhead
  have hvalues := h.chain_values
  cases l with
  | nil => cases hnew
  | cons b l' =>
    rw [List.map_cons, Option.some_inj.mp hnew, hv] at hvalues
    rw [← List.tail_drop]
    cases hq : P.drop C.length with
    | nil => rw [hq] at hvalues; cases hvalues
    | cons w q =>
      rw [hq, List.map_cons] at hvalues
      rw [Option.some_inj.mp (List.cons.inj hvalues).1, List.tail_cons]

/-- **A null pointer is read in the dummy of an empty queue only.** -/
theorem Inv.drop_eq_nil (h : Inv P C l s) {cur : Addr} {d : α}
    (hpc : s.pc t = .readNext cur) (hcur : s.heap cur = some ⟨d, none⟩) :
    P.drop C.length = [] := by
  have hhead := h.headSide t
  rw [hpc] at hhead
  have hfirst := h.chain.succ_first
  rw [← show cur = s.head from hhead, succ, hcur] at hfirst
  have hl : l = [] := List.head?_eq_none_iff.mp (Option.some_inj.mp hfirst).symm
  have hvalues := h.chain_values
  rw [hl, List.map_nil] at hvalues
  exact List.map_eq_nil_iff.mp hvalues.symm

/-! ### The simulation -/

section Step

variable [DecidableEq τ]

/-- The threads that do not move stay where they stand. -/
theorem status_of_ne {p : Pc α} (s : State τ α) (u : τ) (hu : u ≠ t) :
    (Function.update s.pc t p u).status = (s.pc u).status := by
  rw [Function.update_of_ne hu]

/-- A step of one thread that a client does not see. -/
theorem matches_quiet {p : Pc α} (hpc : s'.pc = Function.update s.pc t p)
    (hstatus : p.status = (s.pc t).status) :
    Matches ⊤ (view P C s) (.access t) (view (P ++ []) (C ++ []) s') := by
  rw [List.append_nil, List.append_nil]
  refine Matches.quiet rfl rfl fun u => ?_
  show (s'.pc u).status = (s.pc u).status
  rw [hpc]
  rcases eq_or_ne u t with rfl | hu
  · rw [Function.update_self, hstatus]
  · exact status_of_ne s u hu

/-- **Every step of a thread is matched.** -/
theorem Inv.matches_threadStep (h : Inv P C l s) {fresh : Addr} {junk : α}
    {a : QueueAction τ α} (hs : FineGrained.threadStep fresh junk t s = some (a, s')) :
    Matches ⊤ (view P C s) a
      (view (P ++ a.published?.toList) (C ++ a.popped?.toList) s') := by
  cases threadStep_cases hs with
  | link v n node hpc hlast =>
    -- an `enqueue` takes effect when its node is linked
    refine Matches.point t (.push v) .push rfl ?_ ?_ ?_
      fun u hu => status_of_ne s u hu
    · simp [view, hpc, Pc.status]
    · simp [view, Pc.status]
    · have hdrop : (P ++ [v]).drop (C ++ []).length = P.drop C.length ++ [v] := by
        rw [List.append_nil, List.drop_append_of_le_length h.prefix_published.length_le]
      show QueueStep ⊤ _ _ _ ((P ++ [v]).drop (C ++ []).length)
      rw [hdrop]
      exact .push v (ENat.natCast_lt_top _)
  | setHead cur new v hpc =>
    -- a `dequeue` takes effect when `head` moves
    refine Matches.point t .tryPop (.tryPop (some v)) rfl ?_ ?_ ?_
      fun u hu => status_of_ne s u hu
    · simp [view, hpc, Pc.status]
    · simp [view, Pc.status]
    · show QueueStep ⊤ (P.drop C.length) _ _ ((P ++ []).drop (C ++ [v]).length)
      rw [h.drop_eq_cons hpc, List.append_nil, List.length_append]
      exact .tryPop v _
  | readNull cur d hpc hcur =>
    -- and one that finds nothing when it reads the null pointer
    refine Matches.point t .tryPop (.tryPop none) rfl ?_ ?_ ?_
      fun u hu => status_of_ne s u hu
    · simp [view, hpc, Pc.status]
    · simp [view, Pc.status]
    · show QueueStep ⊤ (P.drop C.length) _ _ ((P ++ []).drop (C ++ []).length)
      rw [List.append_nil, List.append_nil, h.drop_eq_nil hpc hcur]
      exact .tryPopEmpty
  | ret res hpc =>
    refine Matches.ret ?_ ?_ ?_ fun u hu => status_of_ne s u hu
    · simp [view, hpc, Pc.status]
    · simp [view, Pc.status]
    · simp [view, published?, popped?]
  | newNode _ _ _ hpc | fill _ _ _ hpc | lockTail _ _ hpc | setTail _ hpc | unlockTail hpc
  | lockHead hpc | readHead hpc | readNext _ _ _ hpc | unlockEmpty hpc | copyData _ _ _ hpc
  | unlockHead _ _ hpc | delete _ _ hpc => exact matches_quiet rfl (by rw [hpc]; rfl)

/-- **Every step is matched.** -/
theorem Inv.matches (h : Inv P C l s) {a : QueueAction τ α} (hs : Step s a s') :
    Matches ⊤ (view P C s) a
      (view (P ++ a.published?.toList) (C ++ a.popped?.toList) s') := by
  rcases hs with ⟨t, c, hidle⟩ | ⟨fresh, junk, t, hs⟩
  · refine Matches.call ?_ ?_ ?_ fun u hu => status_of_ne s u hu
    · simp [view, hidle, Pc.status]
    · cases c <;> simp [view, Pc.status, Call.entry, Call.op]
    · simp [view, published?, popped?]
  · exact h.matches_threadStep hs

/-! ### From the takes to the returns -/

/-- The value a thread has taken and not returned yet. -/
def Pc.inHand : Pc α → List α
  | .unlockHead _ v => [v]
  | .delete _ v => [v]
  | .returning res => res.value?.toList
  | _ => []

/-- A step of the thread `t` hands on what `t` holds. -/
theorem threadStep_inHand {fresh : Addr} {junk : α} {a : QueueAction τ α}
    (hs : threadStep fresh junk t s = some (a, s')) :
    (s.pc t).inHand ++ (a.taken? t).toList = (a.returned? t).toList ++ (s'.pc t).inHand := by
  cases threadStep_cases hs <;> simp [*, Pc.inHand, taken?, returned?, QueueRes.value?]

/-- A step of another thread leaves it alone. -/
theorem threadStep_other {u : τ} (hu : u ≠ t) {fresh : Addr} {junk : α} {a : QueueAction τ α}
    (hs : threadStep fresh junk t s = some (a, s')) :
    a.taken? u = none ∧ a.returned? u = none ∧ s'.pc u = s.pc u := by
  cases threadStep_cases hs <;> simp [taken?, returned?, hu, hu.symm]

/-- **What a thread has taken is what it has returned**, and what it is about to. -/
theorem taken_eq_returned {tr : List (QueueAction τ α)} (h : (system τ α).Run tr s) (t : τ) :
    taken t tr = returned t tr ++ (s.pc t).inHand := by
  refine filterMap_eq_returned t (fun s => (s.pc t).inHand) ?_ ?_ h
  · rintro s ⟨-, -, -, -, hpc⟩
    rw [hpc]
    rfl
  · intro s a s' hs
    rcases hs with ⟨u, c, hidle⟩ | ⟨fresh, junk, u, hs⟩
    · rcases eq_or_ne t u with rfl | hu
      · cases c <;> simp [hidle, Pc.inHand, Call.entry, taken?, returned?]
      · simp [Function.update_of_ne hu, taken?, returned?]
    · rcases eq_or_ne t u with rfl | hu
      · exact threadStep_inHand hs
      · obtain ⟨htaken, hret, hpc⟩ := threadStep_other hu hs
        simp [htaken, hret, hpc]

/-! ### The main result -/

/-- The step is the read of a null pointer by the thread `t`, after which its
`dequeue` gives up. -/
def ReadsNull (t : τ) (s s' : State τ α) : Prop :=
  ∃ cur, s.pc t = .readNext cur ∧ s'.pc t = .unlockEmpty

/-- A step is one of the thread `t`, a call of it, or leaves it where it stands. -/
theorem Step.of_thread {a : QueueAction τ α} (hs : Step s a s') (t : τ) :
    (∃ fresh junk, threadStep fresh junk t s = some (a, s')) ∨
      (∃ c : Call α, s.pc t = .idle ∧ s'.pc t = c.entry) ∨ s'.pc t = s.pc t := by
  rcases hs with ⟨u, c, hidle⟩ | ⟨fresh, junk, u, hs⟩
  · rcases eq_or_ne t u with rfl | hu
    · exact .inr (.inl ⟨c, hidle, Function.update_self _ _ _⟩)
    · exact .inr (.inr (Function.update_of_ne hu _ _))
  · rcases eq_or_ne t u with rfl | hu
    · exact .inl ⟨fresh, junk, hs⟩
    · exact .inr (.inr (threadStep_other hu hs).2.2)

/-- A `dequeue` gives up at a null pointer. -/
theorem Step.null_of_readsNull {a : QueueAction τ α} (hs : Step s a s') (h : ReadsNull t s s') :
    ∃ cur d, s.pc t = .readNext cur ∧ s.heap cur = some ⟨d, none⟩ := by
  obtain ⟨cur, hpc, hpc'⟩ := h
  rcases hs.of_thread t with ⟨fresh, junk, hs⟩ | ⟨c, hidle, -⟩ | hsame
  · cases threadStep_cases hs with
    | readNull cur' d hp hcur => exact ⟨cur', d, hp, hcur⟩
    | _ => simp_all
  · rw [hpc] at hidle
    cases hidle
  · rw [hsame, hpc] at hpc'
    cases hpc'

/-- A `dequeue` comes to return `false` by reading a null pointer, and in no other
way. -/
theorem Step.readsNull {a : QueueAction τ α} (hs : Step s a s') (hpc : s.pc t ≠ .unlockEmpty)
    (hpc' : s'.pc t = .unlockEmpty) : ReadsNull t s s' := by
  rcases hs.of_thread t with ⟨fresh, junk, hs⟩ | ⟨c, -, hentry⟩ | hsame
  · cases threadStep_cases hs with
    | readNull cur d hp hcur => exact ⟨cur, hp, hpc'⟩
    | _ => simp at hpc'
  · rw [hentry] at hpc'
    cases c <;> cases hpc'
  · exact absurd (hsame ▸ hpc') hpc

/-- `false` is returned by a `dequeue` that has given up. -/
theorem Step.unlockEmpty {a : QueueAction τ α} (hs : Step s a s')
    (hpc : s.pc t ≠ .returning (.tryPop none)) (hpc' : s'.pc t = .returning (.tryPop none)) :
    s.pc t = .unlockEmpty := by
  rcases hs.of_thread t with ⟨fresh, junk, hs⟩ | ⟨c, -, hentry⟩ | hsame
  · cases threadStep_cases hs with
    | unlockEmpty hp => exact hp
    | _ => simp at hpc'
  · rw [hentry] at hpc'
    cases c <;> cases hpc'
  · exact absurd (hsame ▸ hpc') hpc

/-- **The queue with two locks is an unbounded first-in first-out queue**, for any
number of threads: its histories are linearizable to that queue; the values taken, in
the order of the writes of `head`, are a prefix of the values linked; every thread
returns what it has taken, once; and a `dequeue` that returns `false` has read a null
pointer, at a moment at which the queue was empty. -/
theorem two_lock_queue_is_fifo {tr : List (QueueAction τ α)} (h : (system τ α).Run tr s) :
    (fifo α ⊤).Linearizable (history tr) ∧
    popped tr <+: published tr ∧
    (∀ t, taken t tr = returned t tr ++ (s.pc t).inHand) ∧
    ∀ t a s', Step s a s' →
      (ReadsNull t s s' → popped tr = published tr) ∧
      (s.pc t ≠ .unlockEmpty → s'.pc t = .unlockEmpty → ReadsNull t s s') ∧
      (s.pc t ≠ .returning (.tryPop none) → s'.pc t = .returning (.tryPop none) →
        s.pc t = .unlockEmpty) := by
  obtain ⟨l, hinv, -⟩ := inv_of_run h
  refine ⟨?_, hinv.prefix_published, taken_eq_returned h,
    fun t a s' hs => ⟨fun hr => ?_, hs.readsNull, hs.unlockEmpty⟩⟩
  · refine linearizable_of_matches (M := system τ α) view ?_ (fun tr s a s' hrun hs => ?_) h
    · rintro s ⟨-, -, -, -, hpc⟩
      exact congrArg (AtomicState.mk []) (funext fun t => by rw [hpc]; rfl)
    · obtain ⟨l, hinv, -⟩ := inv_of_run hrun
      exact hinv.matches hs
  · obtain ⟨cur, d, hpc, hcur⟩ := hs.null_of_readsNull hr
    have hlen := List.drop_eq_nil_iff.mp (hinv.drop_eq_nil hpc hcur)
    exact hinv.prefix_published.eq_of_length_le hlen

/-- A value is taken while the `enqueue` that linked it has not moved `tail` yet. -/
theorem two_lock_queue_taken_early :
    ∃ (tr : List (QueueAction Bool ℕ)) (s : State Bool ℕ), (system Bool ℕ).Run tr s ∧
      s.heap s.tail = none ∧ popped tr = [7] ∧ popped tr <+: published tr := by
  obtain ⟨tr, s, h, hnone, hpopped⟩ := run_dangling
  exact ⟨tr, s, h, hnone, hpopped, (two_lock_queue_is_fifo h).2.1⟩

end Step

end FineGrained

end Mpmc

end LowLatency
