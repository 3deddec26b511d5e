import LowLatency.Foundations.ByteMemory
import Mathlib.Data.Fintype.Defs
import Mathlib.Data.Finset.Insert

/-!
# The struct that three threads share

The struct `dummy` of `false_sharing.cpp`, with and without `CACHE_LINE_ALIGNED`. Its members are
put one behind the other, each at the next multiple of its alignment, and `data` stands at a
multiple of the alignment of the struct. No two members have a byte in common
(`LowLatency.FalseSharing.apart`). With `CACHE_LINE_ALIGNED` no two of them have a cache line in
common either, and without it some two of them have, wherever `data` stands
(`LowLatency.FalseSharing.exists_shares_iff`).
-/

namespace LowLatency

namespace FalseSharing

open Address

/-- The members of `dummy`. -/
inductive Member where
  | d1 : Member
  | d2 : Member
  | d3 : Member
  deriving DecidableEq

instance : Fintype Member where
  elems := {.d1, .d2, .d3}
  complete m := by cases m <;> decide

/-- The position of a member in the declaration. -/
def Member.index : Member → ℕ
  | .d1 => 0
  | .d2 => 1
  | .d3 => 2

/-- The size of a cache line. -/
def CACHE_LINE_SIZE : ℕ := 64

/-- The alignment of a member: that of `alignas(CACHE_LINE_SIZE)`, or of `uint32_t`. -/
def alignment (CACHE_LINE_ALIGNED : Bool) : ℕ :=
  if CACHE_LINE_ALIGNED then CACHE_LINE_SIZE else 4

/-- The next multiple of an alignment. -/
def alignUp (offset alignment : ℕ) : ℕ := (offset + alignment - 1) / alignment * alignment

/-- The offset of the member at a position, behind the four bytes of the one before. -/
def offsetAt (CACHE_LINE_ALIGNED : Bool) : ℕ → ℕ
  | 0 => 0
  | k + 1 => alignUp (offsetAt CACHE_LINE_ALIGNED k + 4) (alignment CACHE_LINE_ALIGNED)

/-- `sizeof(dummy)`. -/
def size (CACHE_LINE_ALIGNED : Bool) : ℕ := offsetAt CACHE_LINE_ALIGNED 3

/-- The address of a member of `data`. -/
def address (CACHE_LINE_ALIGNED : Bool) (data : Address) (m : Member) : Address :=
  data + BitVec.ofNat 64 (offsetAt CACHE_LINE_ALIGNED m.index)

/-- **Where `data` may stand.** -/
structure Placed (CACHE_LINE_ALIGNED : Bool) (data : Address) : Prop where
  aligned : data.toNat % alignment CACHE_LINE_ALIGNED = 0
  fits : data.toNat + size CACHE_LINE_ALIGNED ≤ 2 ^ 64

variable {CACHE_LINE_ALIGNED : Bool} {data x : Address} {m n : Member}

/-- The members are four bytes at least from each other, and from the end. -/
theorem offsetAt_add_le (CACHE_LINE_ALIGNED : Bool) (m : Member) :
    offsetAt CACHE_LINE_ALIGNED m.index + 4 ≤ size CACHE_LINE_ALIGNED := by
  cases CACHE_LINE_ALIGNED <;> cases m <;> decide

theorem offsetAt_apart (CACHE_LINE_ALIGNED : Bool) (h : m ≠ n) :
    offsetAt CACHE_LINE_ALIGNED m.index + 4 ≤ offsetAt CACHE_LINE_ALIGNED n.index ∨
      offsetAt CACHE_LINE_ALIGNED n.index + 4 ≤ offsetAt CACHE_LINE_ALIGNED m.index := by
  revert h
  cases CACHE_LINE_ALIGNED <;> cases m <;> cases n <;> decide

example : offsetAt true 2 = 128 ∧ offsetAt false 2 = 8 := by decide

/-- The addresses do not wrap around. -/
theorem toNat_address (h : Placed CACHE_LINE_ALIGNED data) (m : Member) :
    (address CACHE_LINE_ALIGNED data m).toNat =
      data.toNat + offsetAt CACHE_LINE_ALIGNED m.index := by
  have hle := offsetAt_add_le CACHE_LINE_ALIGNED m
  have hfits := h.fits
  rw [address, BitVec.toNat_add, BitVec.toNat_ofNat]
  omega

/-- The bytes of a member. -/
theorem toNat_within (h : Placed CACHE_LINE_ALIGNED data)
    (hx : Within x (address CACHE_LINE_ALIGNED data m) 4) :
    ∃ i < 4, x.toNat = data.toNat + offsetAt CACHE_LINE_ALIGNED m.index + i := by
  have hle := offsetAt_add_le CACHE_LINE_ALIGNED m
  have hfits := h.fits
  have haddress := toNat_address h m
  refine ⟨(x - address CACHE_LINE_ALIGNED data m).toNat, hx, ?_⟩
  rw [Within] at hx
  bv_omega

/-- **No two members have a byte in common.** -/
theorem apart (h : Placed CACHE_LINE_ALIGNED data) (hne : m ≠ n) :
    Apart (address CACHE_LINE_ALIGNED data m) 4 (address CACHE_LINE_ALIGNED data n) 4 := by
  intro x hm hn
  obtain ⟨i, hi, hx⟩ := toNat_within h hm
  obtain ⟨j, hj, hx'⟩ := toNat_within h hn
  have hoffsets := offsetAt_apart CACHE_LINE_ALIGNED hne
  omega

/-! ### The cache lines -/

/-- The cache line of a byte. -/
def line (x : Address) : ℕ := x.toNat / CACHE_LINE_SIZE

/-- **Two members share a cache line**: each has a byte on it. -/
def Shares (CACHE_LINE_ALIGNED : Bool) (data : Address) (m n : Member) : Prop :=
  ∃ x y, Within x (address CACHE_LINE_ALIGNED data m) 4 ∧
    Within y (address CACHE_LINE_ALIGNED data n) 4 ∧ line x = line y

/-- A member is on one line only. -/
theorem line_of_within (h : Placed CACHE_LINE_ALIGNED data)
    (hx : Within x (address CACHE_LINE_ALIGNED data m) 4) :
    line x = (data.toNat + offsetAt CACHE_LINE_ALIGNED m.index) / CACHE_LINE_SIZE := by
  obtain ⟨i, hi, hx⟩ := toNat_within h hx
  have hdata : data.toNat % 4 = 0 := by
    have haligned := h.aligned
    cases CACHE_LINE_ALIGNED with
    | false => exact haligned
    | true =>
      have hline : data.toNat % 64 = 0 := haligned
      omega
  have hoffset : offsetAt CACHE_LINE_ALIGNED m.index % 4 = 0 := by
    cases CACHE_LINE_ALIGNED <;> cases m <;> decide
  rw [line, hx, CACHE_LINE_SIZE]
  omega

theorem within_self (a : Address) : Within a a 4 := by
  rw [Within, BitVec.sub_self]
  decide

theorem shares_iff (h : Placed CACHE_LINE_ALIGNED data) :
    Shares CACHE_LINE_ALIGNED data m n ↔
      (data.toNat + offsetAt CACHE_LINE_ALIGNED m.index) / CACHE_LINE_SIZE =
        (data.toNat + offsetAt CACHE_LINE_ALIGNED n.index) / CACHE_LINE_SIZE := by
  constructor
  · rintro ⟨x, y, hx, hy, hline⟩
    rw [line_of_within h hx, line_of_within h hy] at hline
    exact hline
  · intro hline
    refine ⟨_, _, within_self _, within_self _, ?_⟩
    rw [line_of_within h (within_self _), line_of_within h (within_self _)]
    exact hline

/-- **Threads share a cache line exactly without `CACHE_LINE_ALIGNED`**, wherever `data`
stands: twelve bytes are on two lines at most. -/
theorem exists_shares_iff (h : Placed CACHE_LINE_ALIGNED data) :
    (∃ m n, m ≠ n ∧ Shares CACHE_LINE_ALIGNED data m n) ↔ CACHE_LINE_ALIGNED = false := by
  constructor
  · rintro ⟨m, n, hne, hshares⟩
    rw [shares_iff h] at hshares
    cases CACHE_LINE_ALIGNED with
    | false => rfl
    | true =>
      exfalso
      have hfar : offsetAt true m.index + 64 ≤ offsetAt true n.index ∨
          offsetAt true n.index + 64 ≤ offsetAt true m.index := by
        revert hne
        cases m <;> cases n <;> decide
      rw [CACHE_LINE_SIZE] at hshares
      omega
  · rintro rfl
    by_cases hfirst : data.toNat / 64 = (data.toNat + 4) / 64
    · exact ⟨.d1, .d2, by decide, (shares_iff h).mpr hfirst⟩
    · refine ⟨.d2, .d3, by decide, (shares_iff h).mpr ?_⟩
      have hsecond : (data.toNat + 4) / 64 = (data.toNat + 8) / 64 := by omega
      exact hsecond

end FalseSharing

end LowLatency
