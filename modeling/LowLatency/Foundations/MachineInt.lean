import Mathlib.Data.Int.ModEq
import Mathlib.Tactic.Common

/-!
# Fixed-width integers holding small naturals

The C++ programs below count with `int64_t` and pass the counts through an `int`.
Their arithmetic is modelled by Lean's own `Int64` and `Int32`, which wrap around,
truncate on narrowing and round quotients towards zero as the compiled code does.
A value that is a small natural number is written `Int64.ofNat k`, and the lemmas
of this file say that the operations then compute on `k`.
-/

namespace Int64

/-- Distinct naturals below `2 ^ 63` have distinct 64-bit representations. -/
theorem ofNat_inj_of_lt {j k : ℕ} (hj : j < 2 ^ 63) (hk : k < 2 ^ 63) :
    ofNat j = ofNat k ↔ j = k := by
  rw [← toInt_inj, toInt_ofNat_of_lt hj, toInt_ofNat_of_lt hk, Int.natCast_inj]

/-- **Narrowing to `int`** keeps a natural below `2 ^ 31`. -/
theorem toInt_toInt32_ofNat {k : ℕ} (h : k < 2 ^ 31) : (ofNat k).toInt32.toInt = k := by
  rw [toInt_toInt32, toInt_ofNat_of_lt (by omega)]
  exact Int.bmod_eq_of_le (by omega) (by omega)

/-- **The difference** of two naturals below `2 ^ 62`, as an integer. -/
theorem toInt_ofNat_sub {j k : ℕ} (hj : j < 2 ^ 62) (hk : k < 2 ^ 62) :
    (ofNat j - ofNat k).toInt = (j : ℤ) - k := by
  rw [toInt_sub, toInt_ofNat_of_lt (by omega), toInt_ofNat_of_lt (by omega)]
  exact Int.bmod_eq_of_le (by omega) (by omega)

/-- **One more than an `int`**, when that does not overflow. -/
theorem toInt64_add_one {k : ℕ} (h : k + 1 < 2 ^ 31) :
    ((ofNat k).toInt32 + 1).toInt64 = ofNat (k + 1) := by
  rw [← toInt_inj, Int32.toInt_toInt64, Int32.toInt_add, toInt_toInt32_ofNat (by omega),
    toInt_ofNat_of_lt (by omega)]
  change ((k : ℤ) + 1).bmod (2 ^ 32) = ((k + 1 : ℕ) : ℤ)
  rw [Int.bmod_eq_of_le (by omega) (by omega)]
  omega

end Int64

namespace Int32

/-- An `int` where a `size_t` is expected. -/
def toSize (n : Int32) : ℕ := n.toInt64.toUInt64.toNat

/-- **An index that fits an `int`** survives the way there and back. -/
theorem toSize_ofNat {k : ℕ} (h : k < 2 ^ 31) : (ofNat k).toSize = k := by
  have hwide : (ofNat k).toInt64 = Int64.ofNat k := by
    rw [← Int64.toInt_inj, toInt_toInt64, toInt_ofNat_of_lt h, Int64.toInt_ofNat_of_lt (by omega)]
  rw [toSize, hwide, Int64.toUInt64_ofNat', UInt64.toNat_ofNat_of_lt']
  exact h.trans (by decide)

/-- **Adding up** natural numbers is exact as long as the sum is an `int`. -/
theorem toInt_foldl_add {l : List Int32} {ks : List ℕ} {a : Int32} {k : ℕ} (ha : a.toInt = k)
    (hl : l.map toInt = ks.map Nat.cast) (hsum : k + ks.sum < 2 ^ 31) :
    (l.foldl (fun a n => a + n) a).toInt = (k + ks.sum : ℕ) := by
  induction ks generalizing l a k with
  | nil =>
    obtain rfl := List.map_eq_nil_iff.mp hl
    exact ha
  | cons b ks ih =>
    obtain ⟨n, l, rfl, hn, hl⟩ := List.map_eq_cons_iff.mp hl
    rw [List.sum_cons, ← Nat.add_assoc] at hsum ⊢
    have hadd : (a + n).toInt = (k + b : ℕ) := by
      rw [toInt_add, ha, hn, Int.bmod_eq_of_le (by omega) (by omega), Nat.cast_add]
    rw [List.foldl_cons]
    exact ih hadd hl hsum

/-- Such an index is not the `-1` that stands for none. -/
theorem ofNat_ne_neg_one {k : ℕ} (h : k < 2 ^ 31) : ofNat k ≠ -1 := by
  intro hc
  have hk := toInt_ofNat_of_lt h
  rw [hc, show (-1 : Int32).toInt = -1 by decide] at hk
  omega

end Int32
