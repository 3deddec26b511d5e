import LowLatency.Foundations.Queue

/-!
# Queues whose attempts may fail

A program that learns late what the others have done may take a queue for full that has room, or
for empty that has a value. It still implements a queue, of which less is promised: `tryPush` and
`tryPop` may fail in any state. What they do when they succeed, and what `push` and `pop` do, is the
same (`hesitant`).

A step that is one of the queue that promises more is one of the other as well
(`SequentialObject.steps_mono`), so only the failures have to be looked at again.
-/

variable {V : Type*}

/-- The results an operation may have on a queue of capacity `cap`, if attempts may fail. -/
inductive HesitantStep (cap : ℕ∞) : List V → QueueOp V → QueueRes V → List V → Prop
  /-- The queue does what it should. -/
  | regular {q q' : List V} {op : QueueOp V} {res : QueueRes V} : QueueStep cap q op res q' →
      HesitantStep cap q op res q'
  /-- The queue seems to be full. -/
  | tryPush (q : List V) (v : V) : HesitantStep cap q (.tryPush v) (.tryPush false) q
  /-- The queue seems to be empty. -/
  | tryPop (q : List V) : HesitantStep cap q .tryPop (.tryPop none) q

/-- **The first-in first-out queue of capacity `cap` whose attempts may fail**, initially empty. -/
def hesitant (V : Type*) (cap : ℕ∞) : SequentialObject (List V) (QueueOp V) (QueueRes V) where
  init := []
  Step := HesitantStep cap

namespace SequentialObject

variable {τ S Op Res : Type*} [DecidableEq τ] {O O' : SequentialObject S Op Res}

/-- An object that allows more has the steps of the other one. -/
theorem atomicStep_mono (h : ∀ s op res s', O.Step s op res s' → O'.Step s op res s')
    {q q' : AtomicState τ S Op Res} {m : Mark τ Op Res} (hs : (O.atomic τ).Step q m q') :
    (O'.atomic τ).Step q m q' := by
  cases hs with
  | call op ht => exact .call op ht
  | point ht hobj => exact .point ht (h _ _ _ _ hobj)
  | ret ht => exact .ret ht

/-- **An object that allows more** has the runs of the other one. -/
theorem steps_mono (h : ∀ s op res s', O.Step s op res s' → O'.Step s op res s')
    {q q' : AtomicState τ S Op Res} {marks : List (Mark τ Op Res)}
    (hs : (O.atomic τ).Steps q marks q') : (O'.atomic τ).Steps q marks q' := by
  induction hs with
  | refl => exact .refl _
  | head hm _ ih => exact .head (atomicStep_mono h hm) ih

/-- **The simulation rule for a part of the runs**: for those whose traces meet a condition that
every beginning of such a trace meets. -/
theorem linearizable_of_simulation_while {σ α : Type*} {M : TransitionSystem σ α}
    (event? : α → Option (Event τ Op Res)) (K : List α → Prop)
    (hK : ∀ tr a, K (tr ++ [a]) → K tr) (R : List α → σ → AtomicState τ S Op Res → Prop)
    (hinit : ∀ s, M.Init s → R [] s ⟨O.init, fun _ => .idle⟩)
    (hstep : ∀ tr s a s' q, M.Run tr s → K (tr ++ [a]) → R tr s q → M.Step s a s' →
      ∃ marks q', (O.atomic τ).Steps q marks q' ∧
        marks.filterMap Mark.event? = (event? a).toList ∧ R (tr ++ [a]) s' q')
    {tr : List α} {s : σ} (h : M.Run tr s) (htr : K tr) : O.Linearizable (tr.filterMap event?) := by
  have key : K tr → ∃ marks q, (O.atomic τ).Run marks q ∧
      marks.filterMap Mark.event? = tr.filterMap event? ∧ R tr s q := by
    refine h.invariant (I := fun tr s => K tr → ∃ marks q, (O.atomic τ).Run marks q ∧
      marks.filterMap Mark.event? = tr.filterMap event? ∧ R tr s q) ?_ ?_
    · exact fun s hs _ => ⟨[], _, .start rfl, rfl, hinit s hs⟩
    · intro tr s a s' hrun ih ha htr
      obtain ⟨marks, q, hq, herase, hR⟩ := ih (hK tr a htr)
      obtain ⟨marks', q', hsteps, herase', hR'⟩ := hstep tr s a s' q hrun htr hR ha
      refine ⟨marks ++ marks', q', hq.append hsteps, ?_, hR'⟩
      rw [List.filterMap_append, List.filterMap_append, herase, herase']
      cases h : event? a <;> simp [h]
  obtain ⟨marks, q, hq, herase, -⟩ := key htr
  exact ⟨marks, q, hq, herase⟩

end SequentialObject
