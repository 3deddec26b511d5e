import Mathlib.Algebra.Ring.Nat
import Mathlib.Tactic.Common

/-!
# A memory of bytes

A memory gives a byte to every address of 64 bits. What is loaded from an address is put together
from the bytes there and behind, the lowest first, and a store takes a value apart again; addresses
wrap around. What has been stored is loaded again (`ByteMemory.load_store_self`), and a store leaves
alone what is apart from it (`ByteMemory.load_store_of_apart`).
-/

/-- An address. -/
abbrev Address := BitVec 64

/-- The byte at each address. -/
abbrev ByteMemory := Address → BitVec 8

/-- `x` is one of the `n` addresses from `a` on. -/
def Address.Within (x a : Address) (n : ℕ) : Prop := (x - a).toNat < n

instance (x a : Address) (n : ℕ) : Decidable (Address.Within x a n) :=
  inferInstanceAs (Decidable (_ < _))

/-- **Two ranges are apart**, of `n` bytes from `a` on and of `k` bytes from `b` on. -/
def Address.Apart (a : Address) (n : ℕ) (b : Address) (k : ℕ) : Prop :=
  ∀ x, Within x a n → ¬Within x b k

/-- What lies behind an address is not before it. -/
theorem Address.not_within_sub {x a : Address} {n k : ℕ} (hx : Within x a n)
    (h : n + k ≤ 2 ^ 64) : ¬Within x (a - BitVec.ofNat 64 k) k := by
  unfold Within at *
  bv_omega

namespace ByteMemory

open Address

/-- The `n` bytes from `a` on. -/
def bytes (m : ByteMemory) (a : Address) : (n : ℕ) → BitVec (8 * n)
  | 0 => 0#0
  | n + 1 => bytes m (a + 1) n ++ m a

/-- The `w` bits from `a` on. -/
def load (m : ByteMemory) (a : Address) (w : ℕ) : BitVec w :=
  (bytes m a ((w + 7) / 8)).setWidth w

/-- The bits of `v` are stored from `a` on. -/
def store {w : ℕ} (m : ByteMemory) (a : Address) (v : BitVec w) : ByteMemory := fun x =>
  if 8 * (x - a).toNat < w then v.extractLsb' (8 * (x - a).toNat) 8 else m x

variable {m m' : ByteMemory} {a b x : Address} {w w' n k : ℕ}

theorem getLsbD_bytes (m : ByteMemory) (a : Address) {n i : ℕ} (hi : i < 8 * n) :
    (bytes m a n).getLsbD i = (m (a + BitVec.ofNat 64 (i / 8))).getLsbD (i % 8) := by
  induction n generalizing a i with
  | zero => omega
  | succ n ih =>
    rw [bytes, BitVec.getLsbD_append]
    split_ifs with h
    · rw [Nat.div_eq_of_lt h, Nat.mod_eq_of_lt h, BitVec.add_zero]
    · have hdiv : i / 8 = (i - 8) / 8 + 1 := by omega
      have hmod : i % 8 = (i - 8) % 8 := by omega
      rw [ih (a + 1) (by omega), hdiv, hmod, ← BitVec.ofNat_add_ofNat, BitVec.add_assoc,
        BitVec.add_comm 1]
      rfl

/-- The bits of what is loaded. -/
theorem getLsbD_load (m : ByteMemory) (a : Address) {i : ℕ} (hi : i < w) :
    (load m a w).getLsbD i = (m (a + BitVec.ofNat 64 (i / 8))).getLsbD (i % 8) := by
  rw [load, BitVec.getLsbD_setWidth, decide_eq_true hi, Bool.true_and, getLsbD_bytes]
  omega

/-- What is loaded depends on the bytes there only. -/
theorem load_congr (hn : w ≤ 8 * n) (h : ∀ x, Within x a n → m' x = m x) :
    load m' a w = load m a w := by
  refine BitVec.eq_of_getLsbD_eq fun i hi => ?_
  have hwithin : Within (a + BitVec.ofNat 64 (i / 8)) a n := by
    have hle : (BitVec.ofNat 64 (i / 8)).toNat ≤ i / 8 := by
      rw [BitVec.toNat_ofNat]
      exact Nat.mod_le _ _
    rw [Within, BitVec.add_comm, BitVec.add_sub_cancel]
    omega
  rw [getLsbD_load _ _ hi, getLsbD_load _ _ hi, h _ hwithin]

/-- **What has been stored is loaded.** -/
theorem load_store_self (v : BitVec w) (hw : w < 2 ^ 64) : load (store m a v) a w = v := by
  refine BitVec.eq_of_getLsbD_eq fun i hi => ?_
  have hoffset : (a + BitVec.ofNat 64 (i / 8) - a).toNat = i / 8 := by
    rw [BitVec.add_comm, BitVec.add_sub_cancel, BitVec.toNat_ofNat, Nat.mod_eq_of_lt (by omega)]
  rw [getLsbD_load _ _ hi, store, hoffset, if_pos (by omega), BitVec.getLsbD_extractLsb',
    decide_eq_true (Nat.mod_lt _ (by decide)), Bool.true_and, Nat.div_add_mod]

/-- A store leaves alone the bytes it does not reach. -/
theorem store_of_not_within (hk : w ≤ 8 * k) (h : ¬Within x b k) (v : BitVec w) :
    store m b v x = m x := by
  rw [store, if_neg]
  rw [Within] at h
  omega

/-- **A store leaves alone what is apart from it.** -/
theorem load_store_of_apart (hn : w ≤ 8 * n) (hk : w' ≤ 8 * k) (h : Apart a n b k)
    (v : BitVec w') : load (store m b v) a w = load m a w :=
  load_congr hn fun x hx => store_of_not_within hk (h x hx) v

/-! ### A stack

Its words are below an address `a`.
-/

/-- A word is taken from a stack. -/
theorem sub_add (a b c : Address) : a - b + c = a - (b - c) := by
  bv_omega

/-- Two words of a stack are apart. -/
theorem load_store_sub {i j : BitVec 64} (h : 8 ≤ (i - j).toNat ∧ 8 ≤ (j - i).toNat)
    (v : BitVec 64) : load (store m (a - j) v) (a - i) 64 = load m (a - i) 64 := by
  refine load_store_of_apart (n := 8) (k := 8) (by decide) (by decide) (fun x hx hx' => ?_) v
  unfold Within at *
  bv_omega

/-- A word of a stack is not behind it. -/
theorem store_sub {i : BitVec 64} (hx : ¬Within x (a - BitVec.ofNat 64 n) n)
    (h : 8 ≤ i.toNat ∧ i.toNat ≤ n ∧ n < 2 ^ 64) (v : BitVec 64) : store m (a - i) v x = m x := by
  refine store_of_not_within (k := 8) (by decide) (fun hx' => hx ?_) v
  unfold Within at *
  bv_omega

end ByteMemory
