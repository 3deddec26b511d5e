import Mathlib.Algebra.BigOperators.Group.List.Basic
import Mathlib.Algebra.Order.Ring.Nat
import Mathlib.Tactic.Common

/-!
# Deterministic machines

An object used by one caller at a time is a function from an operation and a state to a
result and the next state. What can be observed of it is the list of the results it gives
to a list of operations (`Machine.results`), and two objects are the same to their callers
if these lists are (`Machine.results_eq_of_simulation`).

A simulation need not hold for ever. In the programs below it breaks down once a counter
has been advanced too often, so the rule takes a *budget*: each result has a cost, the
relation may depend on what has been spent, and it has to be kept only while the budget
lasts. A simulation that does hold for ever is one whose results cost nothing.
-/

namespace Machine

variable {ι ρ σ σ' : Type*}

/-- The results of the operations, from the state `s` on. -/
def results (exec : ι → σ → ρ × σ) : List ι → σ → List ρ
  | [], _ => []
  | op :: ops, s => (exec op s).1 :: results exec ops (exec op s).2

/-- What a list of results costs. -/
def total (cost : ρ → ℕ) (l : List ρ) : ℕ := (l.map cost).sum

@[simp] theorem total_cons (cost : ρ → ℕ) (r : ρ) (l : List ρ) :
    total cost (r :: l) = cost r + total cost l :=
  List.sum_cons

/-- **Two machines related within a budget** return the same results while it lasts. -/
theorem results_eq_of_simulation {exec : ι → σ → ρ × σ} {exec' : ι → σ' → ρ × σ'}
    (cost : ρ → ℕ) (budget : ℕ) {R : ℕ → σ → σ' → Prop}
    (hstep : ∀ n s s' op, R n s s' → n + cost (exec op s).1 < budget →
      (exec op s).1 = (exec' op s').1 ∧
        R (n + cost (exec op s).1) (exec op s).2 (exec' op s').2)
    {n : ℕ} {s : σ} {s' : σ'} (hR : R n s s') {ops : List ι}
    (hcost : n + total cost (results exec ops s) < budget) :
    results exec ops s = results exec' ops s' := by
  induction ops generalizing n s s' with
  | nil => rfl
  | cons op ops ih =>
    rw [results, total_cons, ← Nat.add_assoc] at hcost
    obtain ⟨heq, hR'⟩ := hstep n s s' op hR (Nat.lt_of_le_of_lt (Nat.le_add_right _ _) hcost)
    rw [results, results, heq, ih hR' hcost]

end Machine
