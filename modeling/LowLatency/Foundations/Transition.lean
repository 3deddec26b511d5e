import Mathlib.Logic.Relation
import Mathlib.Tactic.Common

/-!
# Labelled transition systems and their runs

The semantics every concurrent component below is given: a set of initial states
and a labelled step relation. A *run* is recorded together with the list of
labels it took, oldest first, so that a property of the history – which values
were handed out, in which order – is a property of the pair of a trace and the
state it leads to, and no ghost field has to be carried in the state.

Three things are needed of a run and proved here once:

* the induction that carries an invariant along it
  (`TransitionSystem.Run.invariant`), which relates the state to the trace that
  led there;
* its prolongation by further steps, read from the front
  (`TransitionSystem.Run.append`): runs are taken apart at their last step, but a
  concrete scenario is written down from its first one;
* the restriction of a system to the steps that meet a condition on the state
  they are taken from (`TransitionSystem.restrict`), whose runs are the runs all
  of whose steps meet it.
-/

/-- **A labelled transition system**: the initial states, and the steps between
states with the label each of them shows. -/
structure TransitionSystem (σ α : Type*) where
  /-- The states a run may start in. -/
  Init : σ → Prop
  /-- The steps, with their labels. -/
  Step : σ → α → σ → Prop

namespace TransitionSystem

variable {σ α : Type*} {M : TransitionSystem σ α}

/-! ### Runs -/

/-- **A run**: from some initial state, the labels taken so far and the state
reached. -/
inductive Run (M : TransitionSystem σ α) : List α → σ → Prop
  /-- Nothing has happened yet. -/
  | start {s : σ} : M.Init s → Run M [] s
  /-- One more step. -/
  | snoc {tr : List α} {s s' : σ} {a : α} : Run M tr s → M.Step s a s' → Run M (tr ++ [a]) s'

/-- A state some run leads to. -/
def Reachable (M : TransitionSystem σ α) (s : σ) : Prop := ∃ tr, M.Run tr s

/-- **The invariant rule**: what holds initially of the empty trace, and is kept
by every step taken from a reachable state, holds along every run. -/
theorem Run.invariant {I : List α → σ → Prop} (hinit : ∀ s, M.Init s → I [] s)
    (hstep : ∀ tr s a s', M.Run tr s → I tr s → M.Step s a s' → I (tr ++ [a]) s')
    {tr : List α} {s : σ} (h : M.Run tr s) : I tr s := by
  induction h with
  | start hs => exact hinit _ hs
  | snoc hrun hs ih => exact hstep _ _ _ _ hrun ih hs

/-- The last step of a run. -/
theorem Run.last_step {tr : List α} {a : α} {s' : σ} (h : M.Run (tr ++ [a]) s') :
    ∃ s, M.Run tr s ∧ M.Step s a s' := by
  generalize htr : tr ++ [a] = tr' at h
  rcases h with hs | ⟨hrun, hs⟩
  · exact absurd htr (List.append_ne_nil_of_right_ne_nil tr (List.cons_ne_nil a []))
  · obtain ⟨rfl, ha⟩ := List.append_inj' htr rfl
    obtain rfl := List.singleton_inj.mp ha
    exact ⟨_, hrun, hs⟩

/-! ### Going on from a state -/

/-- **The continuations of a state**: the labels and the state some further steps
lead to, read from the front. -/
inductive Steps (M : TransitionSystem σ α) : σ → List α → σ → Prop
  /-- No step. -/
  | refl (s : σ) : Steps M s [] s
  /-- A first step, and the others. -/
  | head {s s₁ s' : σ} {a : α} {tr : List α} :
      M.Step s a s₁ → Steps M s₁ tr s' → Steps M s (a :: tr) s'

/-- A single step is a continuation. -/
theorem Steps.single {s s' : σ} {a : α} (h : M.Step s a s') : M.Steps s [a] s' :=
  .head h (.refl s')

/-- A continuation may be continued. -/
theorem Steps.trans {s₁ s₂ s₃ : σ} {tr₁ tr₂ : List α} (h₁ : M.Steps s₁ tr₁ s₂)
    (h₂ : M.Steps s₂ tr₂ s₃) : M.Steps s₁ (tr₁ ++ tr₂) s₃ := by
  induction h₁ with
  | refl => exact h₂
  | head hs _ ih => exact .head hs (ih h₂)

/-- **A run goes on along every continuation of the state it reached.** -/
theorem Run.append {s s' : σ} {tr tr' : List α} (h : M.Run tr s) (hp : M.Steps s tr' s') :
    M.Run (tr ++ tr') s' := by
  induction hp generalizing tr with
  | refl => simpa using h
  | head hs _ ih => simpa using ih (h.snoc hs)

/-! ### Restricting the steps -/

/-- **The runs all of whose steps meet a condition** on the state they are taken
from and the label they show. -/
def restrict (M : TransitionSystem σ α) (C : σ → α → Prop) : TransitionSystem σ α where
  Init := M.Init
  Step s a s' := M.Step s a s' ∧ C s a

/-- A run of the restricted system is a run of the system. -/
theorem Run.of_restrict {C : σ → α → Prop} {tr : List α} {s : σ}
    (h : (M.restrict C).Run tr s) : M.Run tr s := by
  induction h with
  | start hs => exact .start hs
  | snoc _ hs ih => exact ih.snoc hs.1

end TransitionSystem
