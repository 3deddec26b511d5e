import Mathlib.Algebra.BigOperators.Group.Finset.Basic
import Mathlib.Algebra.Order.BigOperators.Group.Finset
import Mathlib.Data.Fintype.BigOperators

/-!
# Counting the threads of a program

Finitely many threads, each in some place `ρ` of its code. An invariant that weighs
the threads by their places (`Counting.total`), or counts those whose place has a
property (`Counting.count`), is kept by a step if the weights of the thread that
moved agree; the lemmas of this file say so without subtraction.
-/

namespace Counting

variable {τ ρ : Type*} [Fintype τ]

/-- The sum of the weights of the threads. -/
def total (w : ρ → ℕ) (pc : τ → ρ) : ℕ := ∑ t, w (pc t)

/-- **The number of threads** in a place with a property. -/
def count (b : ρ → Bool) (pc : τ → ρ) : ℕ := (Finset.univ.filter fun t => b (pc t)).card

theorem count_eq_total (b : ρ → Bool) (pc : τ → ρ) :
    count b pc = total (fun p => (b p).toNat) pc := by
  rw [count, total, Finset.card_filter]
  refine Finset.sum_congr rfl fun t _ => ?_
  cases b (pc t) <;> rfl

/-- A thread weighs at most as much as all of them. -/
theorem le_total (w : ρ → ℕ) (pc : τ → ρ) (t : τ) : w (pc t) ≤ total w pc :=
  Finset.single_le_sum (f := fun t => w (pc t)) (fun _ _ => Nat.zero_le _) (Finset.mem_univ t)

/-- Where all threads are in the same place. -/
theorem total_const (w : ρ → ℕ) (p : ρ) :
    total w (fun _ : τ => p) = Fintype.card τ * w p :=
  Finset.sum_const_nat fun _ _ => rfl

theorem count_pos_iff {b : ρ → Bool} {pc : τ → ρ} : 0 < count b pc ↔ ∃ t, b (pc t) = true := by
  simp [count, Finset.card_pos, Finset.Nonempty]

/-- Where one property implies another, no more threads have the first. -/
theorem count_le_count {b b' : ρ → Bool} (h : ∀ p, b p = true → b' p = true) (pc : τ → ρ) :
    count b pc ≤ count b' pc :=
  Finset.card_le_card fun t ht => by simpa using h _ (by simpa using ht)

variable [DecidableEq τ]

/-- **When one thread moves**, only its weight changes. -/
theorem total_update (w : ρ → ℕ) (pc : τ → ρ) (t : τ) (p : ρ) :
    total w (Function.update pc t p) + w (pc t) = total w pc + w p := by
  have hrest : ∑ u ∈ Finset.univ.erase t, w (Function.update pc t p u) =
      ∑ u ∈ Finset.univ.erase t, w (pc u) :=
    Finset.sum_congr rfl fun u hu => by rw [Function.update_of_ne (Finset.ne_of_mem_erase hu)]
  have hafter := Finset.add_sum_erase Finset.univ (fun u => w (Function.update pc t p u))
    (Finset.mem_univ t)
  have hbefore := Finset.add_sum_erase Finset.univ (fun u => w (pc u)) (Finset.mem_univ t)
  simp only [Function.update_self] at hafter
  rw [total, total]
  omega

/-- **When one thread moves**, the number of threads in a place changes by it. -/
theorem count_update (b : ρ → Bool) (pc : τ → ρ) (t : τ) (p : ρ) :
    count b (Function.update pc t p) + (b (pc t)).toNat = count b pc + (b p).toNat := by
  rw [count_eq_total, count_eq_total]
  exact total_update _ pc t p

/-- **When two threads move.** -/
theorem total_update_update (w : ρ → ℕ) (pc : τ → ρ) {t u : τ} (hu : u ≠ t) (p q : ρ) :
    total w (Function.update (Function.update pc t p) u q) + w (pc t) + w (pc u) =
      total w pc + w p + w q := by
  have hfirst := total_update w pc t p
  have hsecond := total_update w (Function.update pc t p) u q
  rw [Function.update_of_ne hu] at hsecond
  omega

theorem count_update_update (b : ρ → Bool) (pc : τ → ρ) {t u : τ} (hu : u ≠ t) (p q : ρ) :
    count b (Function.update (Function.update pc t p) u q) + (b (pc t)).toNat + (b (pc u)).toNat =
      count b pc + (b p).toNat + (b q).toNat := by
  rw [count_eq_total, count_eq_total]
  exact total_update_update _ pc hu p q

/-- **When one of some threads moves**, only its weight changes. -/
theorem sum_of_moved {ι : Type*} [DecidableEq ι] {S : Finset ι} {f g : ι → ℕ} {i : ι} (hi : i ∈ S)
    (h : ∀ j, j ≠ i → g j = f j) : ∑ j ∈ S, g j + f i = ∑ j ∈ S, f j + g i := by
  have hrest : ∑ j ∈ S.erase i, g j = ∑ j ∈ S.erase i, f j :=
    Finset.sum_congr rfl fun j hj => h j (Finset.ne_of_mem_erase hj)
  have hafter := Finset.add_sum_erase S g hi
  have hbefore := Finset.add_sum_erase S f hi
  omega

end Counting
