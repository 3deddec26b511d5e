import Mathlib.Logic.Relation
import Mathlib.Tactic.Common

/-!
# What every execution comes to

Of a program whose next state need not be determined, `Eventually step Q s` says that every
execution from `s` reaches a state in which `Q` holds, and that it does not get stuck before. So it
is a statement of total correctness. Straight-line code is followed step by step
(`Eventually.next`), pieces of code are put together by `Eventually.trans`, and a loop has a rule of
its own (`Eventually.loop`).
-/

variable {σ : Type*} {step : σ → σ → Prop} {Q R : σ → Prop} {s s' : σ}

/-- **Every execution reaches `Q`.** -/
inductive Eventually (step : σ → σ → Prop) (Q : σ → Prop) : σ → Prop
  | here {s : σ} : Q s → Eventually step Q s
  | step {s : σ} : (∃ s', step s s') → (∀ s', step s s' → Eventually step Q s') →
      Eventually step Q s

namespace Eventually

/-- The next state is determined. -/
theorem next (hs : step s s') (hdet : ∀ s'', step s s'' → s'' = s') (h : Eventually step Q s') :
    Eventually step Q s :=
  .step ⟨s', hs⟩ fun s'' hs'' => hdet s'' hs'' ▸ h

/-- **From one piece of code to the next.** -/
theorem trans (h : Eventually step Q s) (hQ : ∀ s', Q s' → Eventually step R s') :
    Eventually step R s := by
  induction h with
  | here hs => exact hQ _ hs
  | step hex _ ih => exact .step hex ih

theorem mono (h : Eventually step Q s) (hQ : ∀ s', Q s' → R s') : Eventually step R s :=
  h.trans fun s' hs' => .here (hQ s' hs')

/-- **The rule of a loop** that counts down: each round leads from an invariant to the same one with
a smaller number of rounds left. -/
theorem loop {I : ℕ → σ → Prop} (hround : ∀ n s, I (n + 1) s → Eventually step (I n) s) {n : ℕ}
    (h : I n s) : Eventually step (I 0) s := by
  induction n generalizing s with
  | zero => exact .here h
  | succ n ih => exact (hround n s h).trans fun s' hs' => ih hs'

end Eventually
