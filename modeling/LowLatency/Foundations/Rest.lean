import LowLatency.Foundations.Transition

/-!
# Coming to rest

A component left alone: its environment does nothing more, so that only the steps with some
labels are taken. If each of these decreases a number, a state of rest can be reached
(`TransitionSystem.exists_rest`), and what the component has achieved can then be read off the
states that none of its steps leaves. That it does *not* achieve something is shown by a
property which its steps preserve (`TransitionSystem.Steps.preserves`).
-/

namespace TransitionSystem

variable {σ α : Type*} {M : TransitionSystem σ α} {A : α → Prop} {P : σ → Prop} {μ : σ → ℕ}
  {s s' : σ} {tr : List α}

/-- What the steps of the component preserve holds of every state it reaches by itself. -/
theorem Steps.preserves (hstep : ∀ s a s', A a → P s → M.Step s a s' → P s')
    (h : M.Steps s tr s') (hA : ∀ a ∈ tr, A a) (hs : P s) : P s' := by
  induction h with
  | refl => exact hs
  | head hfirst _ ih =>
    refine ih (fun a ha => hA a (List.mem_cons_of_mem _ ha)) ?_
    exact hstep _ _ _ (hA _ List.mem_cons_self) hs hfirst

/-- The component is at rest. -/
def AtRest (M : TransitionSystem σ α) (A : α → Prop) (s : σ) : Prop :=
  ∀ a s', A a → ¬M.Step s a s'

/-- **The component can come to rest** if each of its steps decreases a number. -/
theorem exists_rest (hstep : ∀ s a s', A a → P s → M.Step s a s' → P s')
    (hlt : ∀ s a s', A a → P s → M.Step s a s' → μ s' < μ s) (hs : P s) :
    ∃ tr s', M.Steps s tr s' ∧ (∀ a ∈ tr, A a) ∧ P s' ∧ M.AtRest A s' := by
  -- by strong induction on the number
  induction hn : μ s using Nat.strongRecOn generalizing s with
  | ind n ih =>
    by_cases hrest : M.AtRest A s
    · exact ⟨[], s, .refl s, fun a ha => absurd ha List.not_mem_nil, hs, hrest⟩
    · simp only [AtRest, not_forall, not_not] at hrest
      obtain ⟨a, s₁, ha, hfirst⟩ := hrest
      obtain ⟨tr, s', hsteps, hA, hs', hrest⟩ :=
        ih (μ s₁) (hn ▸ hlt s a s₁ ha hs hfirst) (hstep s a s₁ ha hs hfirst) rfl
      refine ⟨a :: tr, s', .head hfirst hsteps, fun b hb => ?_, hs', hrest⟩
      rcases List.mem_cons.mp hb with rfl | hb
      · exact ha
      · exact hA b hb

end TransitionSystem
