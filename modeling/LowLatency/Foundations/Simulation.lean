import LowLatency.Foundations.Transition

/-!
# Simulations

A concrete system *simulates* in an abstract one if each of its steps either shows nothing of the
abstract system, and the states stay related, or shows one of its labels, and the abstract system
makes a step with this label. Then what a run of the concrete system shows is a run of the abstract
one (`TransitionSystem.Run.simulate`).
-/

namespace TransitionSystem

variable {σ α ρ β : Type*} {M : TransitionSystem σ α} {N : TransitionSystem ρ β} {tr : List α}
  {s : σ}

/-- **The simulation rule**, for what each label of the concrete system shows, and for the relation
between the states. -/
theorem Run.simulate (shows : α → Option β) (R : σ → ρ → Prop)
    (hinit : ∀ s, M.Init s → ∃ r, N.Init r ∧ R s r)
    (hstep : ∀ s a s' r, R s r → M.Step s a s' →
      shows a = none ∧ R s' r ∨ ∃ b r', shows a = some b ∧ N.Step r b r' ∧ R s' r')
    (h : M.Run tr s) : ∃ r, N.Run (tr.filterMap shows) r ∧ R s r := by
  refine h.invariant (I := fun tr s => ∃ r, N.Run (tr.filterMap shows) r ∧ R s r) ?_ ?_
  · intro s hs
    obtain ⟨r, hr, hrel⟩ := hinit s hs
    exact ⟨r, .start hr, hrel⟩
  · rintro tr s a s' - ⟨r, hrun, hrel⟩ hs
    rw [List.filterMap_append]
    rcases hstep s a s' r hrel hs with ⟨ha, hrel'⟩ | ⟨b, r', ha, hr, hrel'⟩
    · refine ⟨r, ?_, hrel'⟩
      rw [List.filterMap_cons_none ha, List.filterMap_nil, List.append_nil]
      exact hrun
    · refine ⟨r', ?_, hrel'⟩
      rw [List.filterMap_cons_some ha, List.filterMap_nil]
      exact hrun.snoc hr

end TransitionSystem
