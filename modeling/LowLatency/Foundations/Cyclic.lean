import Mathlib.Data.Nat.Count
import Mathlib.Data.Nat.ModEq

/-!
# Positions in a cyclic array

Positions `0, 1, 2, …` are placed in the slots of an array of length `n` by their
remainders. Two facts are needed of this placement: that the positions of a window
of length `n` fall into different slots (`Nat.mod_ne_mod_of_lt`), and how often a
slot has been used by the positions below a bound (`Nat.visits`), which numbers the
successive uses of one slot.
-/

namespace Nat

variable {n : ℕ}

/-- **Two positions less than `n` apart are in different slots.** -/
theorem mod_ne_mod_of_lt {i j : ℕ} (hij : i < j) (hj : j < i + n) : i % n ≠ j % n := by
  intro h
  have hdvd : n ∣ j - i := (Nat.modEq_iff_dvd' hij.le).mp h
  exact absurd (Nat.le_of_dvd (by omega) hdvd) (by omega)

/-- How many of the positions below `m` are in slot `j`. -/
def visits (n j m : ℕ) : ℕ := Nat.count (fun i => i % n = j) m

@[simp] theorem visits_zero (j : ℕ) : visits n j 0 = 0 := Nat.count_zero _

theorem visits_mono {j m m' : ℕ} (h : m ≤ m') : visits n j m ≤ visits n j m' :=
  Nat.count_monotone _ h

/-- A position is one more visit to its slot. -/
theorem visits_succ_self (m : ℕ) : visits n (m % n) (m + 1) = visits n (m % n) m + 1 := by
  rw [visits, Nat.count_succ, if_pos rfl, visits]

/-- A position is no visit to another slot. -/
theorem visits_succ_of_ne {j m : ℕ} (h : m % n ≠ j) : visits n j (m + 1) = visits n j m := by
  rw [visits, Nat.count_succ, if_neg h, visits, Nat.add_zero]

/-- **A slot is visited once in a round**: between a position and the next one in
the same slot, nothing happens to it. -/
theorem visits_round {m m' : ℕ} (h : m < m') (h' : m' ≤ m + n) :
    visits n (m % n) m' = visits n (m % n) m + 1 := by
  induction m', h using Nat.le_induction with
  | base => exact visits_succ_self m
  | succ k hk ih =>
    rw [visits_succ_of_ne (mod_ne_mod_of_lt hk (by omega)).symm, ih (by omega)]

end Nat
