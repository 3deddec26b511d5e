import Mathlib.Data.Finset.Card
import Mathlib.Order.Interval.Set.Basic
import Mathlib.Tactic.Common

/-!
# Numbers handed out without gaps

A table that prefers an entry already there to a new one hands out the number of a new
entry only if all smaller numbers have been handed out before (`Nat.Gapless`). The `k`-th
number is then `k` itself exactly if no number has been handed out twice so far
(`Nat.Gapless.eq_self_iff`).
-/

namespace Nat

variable {f g : ℕ → ℕ} {n k r : ℕ}

/-- **The first `n` numbers are without gaps**: what is less than one of them is an earlier
one. -/
def Gapless (f : ℕ → ℕ) (n : ℕ) : Prop := ∀ k < n, ∀ v < f k, ∃ i < k, f i = v

theorem gapless_zero : Gapless f 0 := fun _ hk => absurd hk (Nat.not_lt_zero _)

/-- One more number, below which there is no gap. -/
theorem Gapless.snoc (h : Gapless f n) (hr : ∀ v < r, ∃ i < n, f i = v) :
    Gapless (Function.update f n r) (n + 1) := by
  intro k hk v hv
  rcases Nat.lt_succ_iff_lt_or_eq.mp hk with hlt | rfl
  · rw [Function.update_of_ne hlt.ne] at hv
    obtain ⟨i, hi, rfl⟩ := h k hlt v hv
    exact ⟨i, hi, Function.update_of_ne (hi.trans hlt).ne ..⟩
  · rw [Function.update_self] at hv
    obtain ⟨i, hi, rfl⟩ := hr v hv
    exact ⟨i, hi, Function.update_of_ne hi.ne ..⟩

/-- Numbers without gaps and without repetitions are `0, 1, 2, …`. -/
theorem Gapless.eq_self_of_injOn (h : Gapless f n) (hk : k < n) (hinj : Set.InjOn f (Set.Iic k)) :
    f k = k := by
  induction k using Nat.strong_induction_on with
  | _ k ih =>
    have hbefore : ∀ i < k, f i = i := fun i hi =>
      ih i hi (hi.trans hk) (hinj.mono (Set.Iic_subset_Iic.2 hi.le))
    rcases lt_trichotomy (f k) k with hlt | heq | hgt
    · -- the number has been handed out before
      exact absurd (hinj (Set.mem_Iic.mpr hlt.le) Set.self_mem_Iic (hbefore _ hlt)) hlt.ne
    · exact heq
    · obtain ⟨i, hi, hik⟩ := h k hk k hgt
      rw [hbefore i hi] at hik
      exact absurd hik hi.ne

/-- The numbers below the `k`-th are some of those handed out before it. -/
theorem Gapless.range_subset (h : Gapless f n) (hk : k < n) :
    Finset.range (f k) ⊆ (Finset.range k).image f := by
  intro v hv
  obtain ⟨i, hi, rfl⟩ := h k hk v (Finset.mem_range.mp hv)
  exact Finset.mem_image_of_mem f (Finset.mem_range.mpr hi)

/-- The `k`-th number is at most `k`. -/
theorem Gapless.le_self (h : Gapless f n) (hk : k < n) : f k ≤ k := by
  simpa using (Finset.card_le_card (h.range_subset hk)).trans Finset.card_image_le

/-- If the `k`-th number is `k`, the `k` numbers before it are those below `k`. -/
theorem Gapless.injOn_of_eq_self (h : Gapless f n) (hk : k < n) (heq : f k = k) :
    Set.InjOn f (Set.Iic k) := by
  have hcover : Finset.range k ⊆ (Finset.range k).image f := by
    have hsubset := h.range_subset hk
    rwa [heq] at hsubset
  have hcard : ((Finset.range k).image f).card = (Finset.range k).card :=
    le_antisymm Finset.card_image_le (Finset.card_le_card hcover)
  have himage : (Finset.range k).image f = Finset.range k :=
    (Finset.eq_of_subset_of_card_le hcover hcard.le).symm
  have hinj : Set.InjOn f (Finset.range k) := Finset.card_image_iff.mp hcard
  have hlt : ∀ i < k, f i < k := fun i hi =>
    Finset.mem_range.mp (himage ▸ Finset.mem_image_of_mem f (Finset.mem_range.mpr hi))
  intro i hi j hj hij
  rcases Nat.lt_or_eq_of_le hi with hik | rfl
  · rcases Nat.lt_or_eq_of_le hj with hjk | rfl
    · exact hinj (Finset.mem_coe.mpr (Finset.mem_range.mpr hik))
        (Finset.mem_coe.mpr (Finset.mem_range.mpr hjk)) hij
    · exact absurd (hij.trans heq) (hlt i hik).ne
  · rcases Nat.lt_or_eq_of_le hj with hji | rfl
    · exact absurd (hij.symm.trans heq) (hlt j hji).ne
    · rfl

/-- **The `k`-th number is `k`** exactly if none has been handed out twice so far. -/
theorem Gapless.eq_self_iff (h : Gapless f n) (hk : k < n) :
    f k = k ↔ Set.InjOn f (Set.Iic k) :=
  ⟨h.injOn_of_eq_self hk, h.eq_self_of_injOn hk⟩

end Nat
