import LowLatency.Foundations.Transition

/-!
# One system that follows another

A component is often easier to speak about with a second, smaller system beside it that
records what matters of it: some steps of the component are steps of the second system as
well, others are none, and the second system may have steps of its own, those of a partner
outside the component. `TransitionSystem.observe` puts the two together. A property proved
of the runs of the small system then holds of it beside any component
(`TransitionSystem.restrict_observe`), and what remains to be shown of the component is that
the small system can follow it, that is, has the steps that are observed.
-/

namespace TransitionSystem

variable {σ ρ α β : Type*} {M : TransitionSystem σ α} {N : TransitionSystem ρ β}
  {obs : σ → ρ → α → Option β} {Free : β → Prop}

/-- The steps of `M` followed by `N`. -/
inductive ObservedStep (M : TransitionSystem σ α) (N : TransitionSystem ρ β)
    (obs : σ → ρ → α → Option β) (Free : β → Prop) : σ × ρ → α ⊕ β → σ × ρ → Prop
  /-- A step of `M` that is none of `N`. -/
  | silent {s s' : σ} {r : ρ} (a : α) : M.Step s a s' → obs s r a = none →
      ObservedStep M N obs Free (s, r) (.inl a) (s', r)
  /-- A step of `M` that is one of `N`. -/
  | joint {s s' : σ} {r r' : ρ} (a : α) (b : β) : M.Step s a s' → obs s r a = some b →
      N.Step r b r' → ObservedStep M N obs Free (s, r) (.inl a) (s', r')
  /-- A step of the partner. -/
  | own {s : σ} {r r' : ρ} (b : β) : N.Step r b r' → Free b →
      ObservedStep M N obs Free (s, r) (.inr b) (s, r')

/-- **The system `M` followed by `N`**: with a step of `M` goes the step of `N` that `obs`
names, if it names one, and `N` takes the steps in `Free` by itself. -/
def observe (M : TransitionSystem σ α) (N : TransitionSystem ρ β) (obs : σ → ρ → α → Option β)
    (Free : β → Prop) : TransitionSystem (σ × ρ) (α ⊕ β) where
  Init x := M.Init x.1 ∧ N.Init x.2
  Step := ObservedStep M N obs Free

/-- A condition on the steps of `N`, as one on the steps of the two. -/
def Along (obs : σ → ρ → α → Option β) (C : ρ → β → Prop) (x : σ × ρ) : α ⊕ β → Prop
  | .inl a => ∀ b, obs x.1 x.2 a = some b → C x.2 b
  | .inr b => C x.2 b

/-- The first component is reached by `M`. -/
theorem reachable_fst {tr : List (α ⊕ β)} {x : σ × ρ} (h : (M.observe N obs Free).Run tr x) :
    M.Reachable x.1 := by
  refine h.invariant (I := fun _ x => M.Reachable x.1) ?_ ?_
  · exact fun x hx => ⟨[], .start hx.1⟩
  · rintro tr x a x' - ⟨tr₁, h₁⟩ hs
    rcases hs with ⟨a, hs, -⟩ | ⟨a, b, hs, -, -⟩ | ⟨b, -, -⟩
    · exact ⟨_, h₁.snoc hs⟩
    · exact ⟨_, h₁.snoc hs⟩
    · exact ⟨tr₁, h₁⟩

/-- The second component is reached by `N`. -/
theorem reachable_snd {tr : List (α ⊕ β)} {x : σ × ρ} (h : (M.observe N obs Free).Run tr x) :
    N.Reachable x.2 := by
  refine h.invariant (I := fun _ x => N.Reachable x.2) ?_ ?_
  · exact fun x hx => ⟨[], .start hx.2⟩
  · rintro tr x a x' - ⟨tr₁, h₁⟩ hs
    rcases hs with ⟨a, -, -⟩ | ⟨a, b, -, -, hs⟩ | ⟨b, hs, -⟩
    · exact ⟨tr₁, h₁⟩
    · exact ⟨_, h₁.snoc hs⟩
    · exact ⟨_, h₁.snoc hs⟩

/-- **The second component is reached by `N`**, with steps that meet the condition if the
steps of the two do. -/
theorem reachable_snd_restrict {C : ρ → β → Prop} {tr : List (α ⊕ β)} {x : σ × ρ}
    (h : ((M.observe N obs Free).restrict (Along obs C)).Run tr x) :
    (N.restrict C).Reachable x.2 := by
  refine h.invariant (I := fun _ x => (N.restrict C).Reachable x.2) ?_ ?_
  · exact fun x hx => ⟨[], .start hx.2⟩
  · rintro tr x a x' - ⟨tr₁, h₁⟩ ⟨hs, hc⟩
    rcases hs with ⟨a, -, -⟩ | ⟨a, b, -, hobs, hs⟩ | ⟨b, hs, -⟩
    · exact ⟨tr₁, h₁⟩
    · exact ⟨_, h₁.snoc ⟨hs, hc b hobs⟩⟩
    · exact ⟨_, h₁.snoc ⟨hs, hc⟩⟩

/-- **What holds of `N` as long as its steps meet a condition** holds of it when it follows
another system, as long as the steps of the two do. -/
theorem restrict_observe {C : ρ → β → Prop} {Q : ρ → Prop}
    (hN : ∀ tr r, (N.restrict C).Run tr r →
      Q r ∧ ∀ b r', N.Step r b r' → (Q r' ↔ C r b))
    {tr : List (α ⊕ β)} {x : σ × ρ}
    (h : ((M.observe N obs Free).restrict (Along obs C)).Run tr x) :
    Q x.2 ∧ ∀ a x', (M.observe N obs Free).Step x a x' → (Q x'.2 ↔ Along obs C x a) := by
  obtain ⟨tr', h'⟩ := reachable_snd_restrict h
  obtain ⟨hQ, hstep⟩ := hN tr' x.2 h'
  refine ⟨hQ, fun a x' hs => ?_⟩
  rcases hs with ⟨a, -, hnone⟩ | ⟨a, b, -, hobs, hs⟩ | ⟨b, hs, -⟩
  · refine iff_of_true hQ fun b hb => ?_
    rw [hnone] at hb
    cases hb
  · rw [hstep b _ hs]
    refine ⟨fun hc b' hb' => ?_, fun hc => hc b hobs⟩
    rw [hobs] at hb'
    exact Option.some.inj hb' ▸ hc
  · exact hstep b _ hs

end TransitionSystem
