import LowLatency.Foundations.NestedLoops
import Mathlib.Algebra.BigOperators.Intervals
import Mathlib.Algebra.BigOperators.Ring.Finset
import Mathlib.Algebra.Order.BigOperators.Group.Finset
import Mathlib.Tactic.Ring

/-!
# The two benchmarks of `tick`

`tick` adds its argument to an `int`. One benchmark reaches it through the template `CRTPBase`,
the other one through the virtual method of `VirtualBase`; both call it from the same two nested
loops, which count to the argument of the program. The sum of the arguments of `tick` is cubic in
that number, and `m_counter` holds it exactly as long as the number is at most 1625
(`LowLatency.Dispatch.ticks_withinInt_iff`).
-/

namespace LowLatency

namespace Dispatch

open NestedLoops

/-! ### Static dispatch -/

/-- What the template `CRTPBase` asks of its argument: a method `tick`, which changes the object
and returns an `int`. -/
class HasTick (T : Type) where
  tick : T → Int32 → Int32 × T

/-- An object of a class that is derived from `CRTPBase<T>`, seen as its base: `impl` is the object
as a `T` again. -/
structure CRTPBase (T : Type) where
  impl : T

/-- `CRTPBase<T>::tick`. -/
def CRTPBase.tick {T : Type} [HasTick T] (obj : CRTPBase T) (n : Int32) : Int32 × CRTPBase T :=
  let (result, impl) := HasTick.tick obj.impl n
  (result, ⟨impl⟩)

/-- The class `CRTPDerived`. -/
structure CRTPDerived where
  m_counter : Int32

namespace CRTPDerived

/-- The constructor. -/
def construct : CRTPDerived := { m_counter := 0 }

/-- `CRTPDerived::tick`. -/
def tick (obj : CRTPDerived) (n : Int32) : Int32 × CRTPDerived :=
  (obj.m_counter + n, { m_counter := obj.m_counter + n })

instance : HasTick CRTPDerived := ⟨tick⟩

end CRTPDerived

/-- **`test_crtp`**: what `tick` returns is dropped. -/
def test_crtp (test_run : Int32) : TransitionSystem (State (CRTPBase CRTPDerived)) (Option Int32) :=
  system test_run (fun j pObj => (pObj.tick j).2) ⟨CRTPDerived.construct⟩

/-! ### Dynamic dispatch -/

/-- The class `VirtualDerived`. -/
structure VirtualDerived where
  m_counter : Int32

namespace VirtualDerived

/-- The constructor. -/
def construct : VirtualDerived := { m_counter := 0 }

/-- `VirtualDerived::tick`. -/
def tick (obj : VirtualDerived) (n : Int32) : Int32 × VirtualDerived :=
  (obj.m_counter + n, { m_counter := obj.m_counter + n })

end VirtualDerived

/-- An object seen as a `VirtualBase`: its dynamic class is one that overrides the pure virtual
`tick`. -/
inductive VirtualBase where
  | derived (obj : VirtualDerived) : VirtualBase

namespace VirtualBase

/-- The call of the virtual method, decided by the dynamic class. -/
def tick (obj : VirtualBase) (n : Int32) : Int32 × VirtualBase :=
  match obj with
  | .derived obj =>
    let (result, obj) := obj.tick n
    (result, .derived obj)

/-- The counter of the object. -/
def m_counter : VirtualBase → Int32
  | .derived obj => obj.m_counter

end VirtualBase

/-- **`test_virtual_methods`**: what `tick` returns is dropped. -/
def test_virtual_methods (test_run : Int32) : TransitionSystem (State VirtualBase) (Option Int32) :=
  system test_run (fun j pObj => (pObj.tick j).2) (.derived .construct)

/-! ### What is expected of the counter -/

variable {ω : Type*} {test_run : Int32} {m_counter : ω → Int32} {body : Int32 → ω → ω} {o : ω}
  {tr : List (Option Int32)} {s : State ω}

/-- The exact sum of the arguments of `tick`. -/
def ticked (tr : List (Option Int32)) : ℤ := ((arguments tr).map Int32.toInt).sum

theorem ticked_concat_some (n : Int32) :
    ticked (tr ++ [some n]) = ticked tr + n.toInt := by
  simp [ticked]

/-- **The test stays within `int`.** -/
structure WithinInt (test : TransitionSystem (State ω) (Option Int32)) (m_counter : ω → Int32)
    (test_run : Int32) : Prop where
  /-- The counter is the exact sum, in every state. -/
  exact : ∀ tr s, test.Run tr s → (m_counter s.obj).toInt = ticked tr
  /-- No `m_counter += n` overflows. -/
  no_overflow : ∀ tr s n s', test.Run tr s → test.Step s (some n) s' →
    -2 ^ 31 ≤ (m_counter s.obj).toInt + n.toInt ∧ (m_counter s.obj).toInt + n.toInt < 2 ^ 31
  /-- The loops end. -/
  finishes : ∀ tr s, test.Run tr s → ∃ tr' s', test.Steps s tr' s' ∧ s'.pc = .done
  /-- The counter after the loops. -/
  final : ∀ tr s, test.Run tr s → s.pc = .done → ∀ n : ℤ, n = max test_run.toInt 0 →
    (m_counter s.obj).toInt = n * n * (n - 1) / 2

/-! ### The sum of the arguments -/

/-- The sum of the numbers below `N`. -/
def triangle (N : ℕ) : ℕ := ∑ i ∈ Finset.range N, i

theorem triangle_mono {N N' : ℕ} (h : N ≤ N') : triangle N ≤ triangle N' :=
  Finset.sum_le_sum_of_subset (Finset.range_mono h)

theorem sum_range (N : ℕ) : (List.range N).sum = triangle N := by
  induction N with
  | zero => rfl
  | succ N ih =>
    rw [List.range_succ, List.sum_append, ih, triangle, triangle, Finset.sum_range_succ]
    simp

theorem sum_rounds (N a b : ℕ) : (rounds N a b).sum = a * triangle N + triangle b := by
  simp [rounds, List.sum_flatten, sum_range]

/-- **The sum of all arguments.** -/
theorem mul_triangle (N : ℕ) : ((N * triangle N : ℕ) : ℤ) = (N : ℤ) * N * (N - 1) / 2 := by
  have htwo : triangle N * 2 = N * (N - 1) := Finset.sum_range_id_mul_two N
  rcases N with _ | N
  · rfl
  · rw [Nat.add_sub_cancel] at htwo
    have hcube : ((N + 1 : ℕ) : ℤ) * (N + 1 : ℕ) * ((N + 1 : ℕ) - 1) =
        ((N + 1) * triangle (N + 1) : ℕ) * 2 := by
      calc ((N + 1 : ℕ) : ℤ) * (N + 1 : ℕ) * ((N + 1 : ℕ) - 1)
          = (N + 1 : ℕ) * ((N + 1) * N : ℕ) := by push_cast; ring
        _ = ((N + 1) * triangle (N + 1) : ℕ) * 2 := by rw [← htwo]; push_cast; ring
    rw [hcube, Int.mul_ediv_cancel _ (by decide)]

/-- **Where the sum exceeds an `int`.** -/
theorem mul_triangle_lt_iff (N : ℕ) : N * triangle N < 2 ^ 31 ↔ N ≤ 1625 := by
  constructor
  · intro h
    by_contra hN
    have hle := Nat.mul_le_mul (show 1626 ≤ N by omega) (triangle_mono (show 1626 ≤ N by omega))
    rw [show triangle 1626 = 1321125 by rw [triangle, Finset.sum_range_id]] at hle
    omega
  · intro h
    have hle := Nat.mul_le_mul h (triangle_mono h)
    rw [show triangle 1625 = 1319500 by rw [triangle, Finset.sum_range_id]] at hle
    omega

theorem bound_le_iff : bound test_run ≤ 1625 ↔ test_run ≤ 1625 := by
  rw [Int32.le_iff_toInt_le, show (1625 : Int32).toInt = 1625 by decide, bound]
  omega

/-- The sum along a run, by the rounds that are over. -/
theorem ticked_of_run (h : (system test_run body o).Run tr s) :
    ∃ a b, At (bound test_run) a b s.pc ∧
      ticked tr = (a * triangle (bound test_run) + triangle b : ℕ) := by
  obtain ⟨a, b, hat, hargs⟩ := inv_of_run h
  refine ⟨a, b, hat, ?_⟩
  rw [ticked, hargs, ← sum_rounds, Nat.cast_list_sum]

/-- The sum only grows, up to that of all arguments. -/
theorem ticked_le (h : (system test_run body o).Run tr s) :
    0 ≤ ticked tr ∧ ticked tr ≤ (bound test_run * triangle (bound test_run) : ℕ) := by
  obtain ⟨a, b, hat, hsum⟩ := ticked_of_run h
  refine ⟨by omega, ?_⟩
  rw [hsum, Int.ofNat_le]
  rcases hpc : s.pc with i | ⟨i, j⟩ | _
  · rw [hpc] at hat
    obtain ⟨-, ha, rfl⟩ := hat
    exact Nat.mul_le_mul_right _ ha
  · rw [hpc] at hat
    obtain ⟨-, ha, -, hb⟩ := hat
    calc a * triangle (bound test_run) + triangle b
        ≤ a * triangle (bound test_run) + triangle (bound test_run) :=
          Nat.add_le_add_left (triangle_mono hb) _
      _ = (a + 1) * triangle (bound test_run) := (Nat.succ_mul _ _).symm
      _ ≤ bound test_run * triangle (bound test_run) := Nat.mul_le_mul_right _ ha
  · rw [hpc] at hat
    obtain ⟨rfl, rfl⟩ := hat
    exact le_refl _

theorem ticked_of_done (h : (system test_run body o).Run tr s) (hd : s.pc = .done) :
    ticked tr = (bound test_run * triangle (bound test_run) : ℕ) := by
  obtain ⟨a, b, hat, hsum⟩ := ticked_of_run h
  rw [hd] at hat
  obtain ⟨rfl, rfl⟩ := hat
  exact hsum

/-! ### When the counter is exact -/

/-- The counter has added the arguments up. -/
theorem counter_foldl (hbody : ∀ j o, m_counter (body j o) = m_counter o + j) (l : List Int32)
    (o : ω) : m_counter (l.foldl (fun o j => body j o) o) =
      l.foldl (fun m n => m + n) (m_counter o) := by
  induction l generalizing o with
  | nil => rfl
  | cons j l ih => rw [List.foldl_cons, List.foldl_cons, ih, hbody]

/-- **As long as the sum of all arguments fits**, every addition is exact. -/
theorem counter_of_run (hinit : m_counter o = 0)
    (hbody : ∀ j o, m_counter (body j o) = m_counter o + j) (hle : test_run ≤ 1625)
    (h : (system test_run body o).Run tr s) : (m_counter s.obj).toInt = ticked tr := by
  have hfits := (mul_triangle_lt_iff _).mpr (bound_le_iff.mpr hle)
  have hsum := (ticked_le h).2
  obtain ⟨a, b, -, hargs⟩ := inv_of_run h
  have hticked : ticked tr = ((rounds (bound test_run) a b).sum : ℕ) := by
    rw [ticked, hargs, ← Nat.cast_list_sum]
  have hzero : (0 : Int32).toInt = (0 : ℕ) := rfl
  rw [obj_of_run h, counter_foldl hbody, hinit, Int32.toInt_foldl_add hzero hargs (by omega),
    hticked, Nat.zero_add]

/-- **A test that adds the arguments up** stays within `int` exactly up to 1625. -/
theorem withinInt_iff (hinit : m_counter o = 0)
    (hbody : ∀ j o, m_counter (body j o) = m_counter o + j) :
    WithinInt (system test_run body o) m_counter test_run ↔ test_run ≤ 1625 := by
  constructor
  · intro h
    -- a complete run has a sum that is an `int`
    obtain ⟨tr, s, hsteps, hd⟩ := h.finishes [] _ (.start rfl)
    have hrun := TransitionSystem.Run.append (.start rfl) hsteps
    have hexact := h.exact _ _ hrun
    rw [ticked_of_done hrun hd] at hexact
    have hlt := (m_counter s.obj).toInt_lt
    rw [← bound_le_iff, ← mul_triangle_lt_iff]
    omega
  · intro hle
    have hfits := (mul_triangle_lt_iff _).mpr (bound_le_iff.mpr hle)
    refine ⟨fun tr s h => counter_of_run hinit hbody hle h, ?_, fun tr s h => finishes h, ?_⟩
    · intro tr s n s' h hs
      have hsum := ticked_le (h.snoc hs)
      rw [ticked_concat_some, ← counter_of_run hinit hbody hle h] at hsum
      omega
    · rintro tr s h hd n rfl
      rw [counter_of_run hinit hbody hle h, ticked_of_done h hd, mul_triangle, bound,
        Int.toNat_eq_max]

/-! ### The two benchmarks -/

theorem test_crtp_withinInt_iff :
    WithinInt (test_crtp test_run) (fun pObj => pObj.impl.m_counter) test_run ↔
      test_run ≤ 1625 :=
  withinInt_iff rfl fun _ _ => rfl

theorem test_virtual_methods_withinInt_iff :
    WithinInt (test_virtual_methods test_run) VirtualBase.m_counter test_run ↔ test_run ≤ 1625 :=
  withinInt_iff rfl fun _ ⟨_⟩ => rfl

/-- **Ticks within `int`**: with each of the two ways of dispatch, the counter is exact in every
state of every run, and in the end, if and only if the number of iterations is at most 1625. -/
theorem ticks_withinInt_iff (test_run : Int32) :
    (WithinInt (test_crtp test_run) (fun pObj => pObj.impl.m_counter) test_run ∧
      WithinInt (test_virtual_methods test_run) VirtualBase.m_counter test_run) ↔
      test_run ≤ 1625 := by
  rw [test_crtp_withinInt_iff, test_virtual_methods_withinInt_iff, and_self]

/-- With 1626 iterations neither of the counters is exact. -/
theorem not_withinInt_1626 :
    ¬WithinInt (test_crtp 1626) (fun pObj => pObj.impl.m_counter) 1626 ∧
      ¬WithinInt (test_virtual_methods 1626) VirtualBase.m_counter 1626 := by
  rw [test_crtp_withinInt_iff, test_virtual_methods_withinInt_iff]
  decide

end Dispatch

end LowLatency
