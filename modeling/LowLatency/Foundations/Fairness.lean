import LowLatency.Foundations.Transition
import Mathlib.Order.OrderIsoNat

/-!
# Executions that go on for ever

What a system may do is read off its runs, what it must do off its executions without end
(`TransitionSystem.Execution`). A component that spins, waiting for another one, has such
executions, in which the other one is never given a turn; they are excluded by *weak fairness*: a
component that has something to do all the time does something
(`TransitionSystem.Execution.WeaklyFair`).

That a program comes to its end is then said in two parts (`TransitionSystem.Terminates`): no fair
execution goes on for ever, and a run that cannot go on has done what it should. Both parts are
about numbers that decrease. One that never increases is constant in the end, so that the steps that
decrease it stop (`TransitionSystem.Execution.not_infinitelyOften`); one that all steps decrease
but those of some kind lets these happen again and again
(`TransitionSystem.Execution.infinitelyOften_of_decreasing`).
-/

namespace TransitionSystem

variable {σ α : Type*} {M : TransitionSystem σ α}

/-- **An execution that goes on for ever.** -/
structure Execution (M : TransitionSystem σ α) where
  state : ℕ → σ
  action : ℕ → α
  init : M.Init (state 0)
  step : ∀ n, M.Step (state n) (action n) (state (n + 1))

/-- **The program terminates**: no fair execution goes on for ever, and a run that cannot go on
is done. -/
structure Terminates (M : TransitionSystem σ α) (Fair : M.Execution → Prop)
    (Done : List α → σ → Prop) : Prop where
  not_fair : ∀ e, ¬Fair e
  done : ∀ tr s, M.Run tr s → (∀ a s', ¬M.Step s a s') → Done tr s

/-- A program that terminates under a condition on the executions does so under a stronger one. -/
theorem Terminates.mono {Fair Fair' : M.Execution → Prop} {Done : List α → σ → Prop}
    (h : M.Terminates Fair Done) (himp : ∀ e, Fair' e → Fair e) : M.Terminates Fair' Done where
  not_fair e he := h.not_fair e (himp e he)
  done := h.done

namespace Execution

variable (e : M.Execution) {C : σ → α → Prop} {r : σ → ℕ} {n : ℕ}

/-- The labels of the first `n` steps. -/
def trace (n : ℕ) : List α := (List.range n).map e.action

@[simp] theorem trace_succ (n : ℕ) : e.trace (n + 1) = e.trace n ++ [e.action n] := by
  rw [trace, trace, List.range_succ, List.map_append, List.map_singleton]

/-- **Each state is reached by a run.** -/
theorem run (n : ℕ) : M.Run (e.trace n) (e.state n) := by
  induction n with
  | zero => exact .start e.init
  | succ n ih =>
    rw [trace_succ]
    exact ih.snoc (e.step n)

/-- Steps of some kind are taken again and again. -/
def InfinitelyOften (C : σ → α → Prop) : Prop :=
  ∀ n, ∃ m, n ≤ m ∧ C (e.state m) (e.action m)

/-- **Weak fairness** towards a component: if it has something to do all the time, it does
something. -/
def WeaklyFair (busy : σ → Prop) (own : α → Prop) : Prop :=
  ∀ n, (∀ m, n ≤ m → busy (e.state m)) → ∃ m, n ≤ m ∧ own (e.action m)

theorem not_infinitelyOften_iff :
    ¬e.InfinitelyOften C ↔ ∃ n, ∀ m, n ≤ m → ¬C (e.state m) (e.action m) := by
  simp [InfinitelyOften]

/-- What is kept by the steps from some point on holds from there on. -/
theorem forall_ge {P : σ → Prop} (hn : P (e.state n))
    (hstep : ∀ m, n ≤ m → P (e.state m) → P (e.state (m + 1))) :
    ∀ m, n ≤ m → P (e.state m) :=
  fun m hm => Nat.le_induction hn hstep m hm

/-- **Steps that decrease a number stop**, if no step increases it. -/
theorem not_infinitelyOften
    (hle : ∀ m, n ≤ m → r (e.state (m + 1)) ≤ r (e.state m))
    (hlt : ∀ m, n ≤ m → C (e.state m) (e.action m) → r (e.state (m + 1)) < r (e.state m)) :
    ¬e.InfinitelyOften C := by
  have hanti : Antitone fun k => r (e.state (n + k)) :=
    antitone_nat_of_succ_le fun k => hle (n + k) (Nat.le_add_right n k)
  obtain ⟨k, hk⟩ := WellFoundedLT.antitone_chain_condition hanti
  rw [not_infinitelyOften_iff]
  refine ⟨n + k, fun m hm hC => ?_⟩
  obtain ⟨j, rfl⟩ : ∃ j, m = n + (k + j) := ⟨m - n - k, by omega⟩
  -- from `n + k` on the number is constant
  have hdec : r (e.state (n + (k + j + 1))) < r (e.state (n + (k + j))) :=
    hlt _ (Nat.le_add_right _ _) hC
  rw [← hk (k + j) (Nat.le_add_right k j), ← hk (k + j + 1) (by omega)] at hdec
  exact absurd hdec (lt_irrefl _)

/-- **Steps of some kind happen again and again** if all others decrease a number. -/
theorem infinitelyOften_of_decreasing
    (hlt : ∀ s a s', M.Reachable s → M.Step s a s' → ¬C s a → r s' < r s) :
    e.InfinitelyOften C := by
  by_contra hfinite
  obtain ⟨n, hn⟩ := e.not_infinitelyOften_iff.mp hfinite
  have hdec : ∀ m, n ≤ m → r (e.state (m + 1)) < r (e.state m) := fun m hm =>
    hlt _ _ _ ⟨_, e.run m⟩ (e.step m) (hn m hm)
  exact e.not_infinitelyOften (C := fun _ _ => True) (fun m hm => (hdec m hm).le)
    (fun m hm _ => hdec m hm) fun m => ⟨m, le_rfl, trivial⟩

/-- **A component that is always at work** and is treated fairly suffers setbacks, if its other
steps bring it nearer to some end. -/
theorem WeaklyFair.exists_setback {e : M.Execution} {busy : σ → Prop} {own : α → Prop}
    (h : e.WeaklyFair busy own) (Setback : σ → σ → Prop) (r : σ → ℕ)
    (hbusy : ∀ m, n ≤ m → busy (e.state m))
    (hstep : ∀ m, n ≤ m → ¬Setback (e.state m) (e.state (m + 1)) →
      r (e.state (m + 1)) ≤ r (e.state m) ∧
        (own (e.action m) → r (e.state (m + 1)) < r (e.state m))) :
    ∃ m, n ≤ m ∧ Setback (e.state m) (e.state (m + 1)) := by
  by_contra hnone
  simp only [not_exists, not_and] at hnone
  refine e.not_infinitelyOften (n := n) (r := r) (C := fun _ a => own a)
    (fun m hm => (hstep m hm (hnone m hm)).1) (fun m hm => (hstep m hm (hnone m hm)).2) fun k => ?_
  obtain ⟨m, hm, hown⟩ := h (max n k) fun m hm => hbusy m ((le_max_left n k).trans hm)
  exact ⟨m, (le_max_right n k).trans hm, hown⟩

end Execution

end TransitionSystem
