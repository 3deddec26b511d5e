import LowLatency.Foundations.MachineInt
import LowLatency.Foundations.Rest

/-!
# Two nested loops that count to the same bound

The loops `for (int i = 0; i < n; i++) for (int j = 0; j < n; j++) body(j);` over an object that
the body changes. They are a transition system: the test at which the control is decides the next
step, and an execution of the body shows its argument, so that the trace of a run holds the
arguments of the body so far. Three facts say what the loops do, whatever the body is:

* the object is what the body makes of it with these arguments, one after the other
  (`NestedLoops.obj_of_run`);
* the arguments are `0, 1, …` up to the bound, again and again (`NestedLoops.inv_of_run`);
* the loops end (`NestedLoops.finishes`).
-/

namespace NestedLoops

/-- Where the control is. -/
inductive Pc where
  /-- At the test of the outer loop. -/
  | outer (i : Int32) : Pc
  /-- At the test of the inner loop. -/
  | inner (i j : Int32) : Pc
  | done : Pc
  deriving DecidableEq

/-- The control, and the object. -/
structure State (ω : Type*) where
  pc : Pc
  obj : ω

variable {ω : Type*} {n : Int32} {body : Int32 → ω → ω} {o : ω} {s s' : State ω}
  {a : Option Int32} {tr : List (Option Int32)}

/-- The next step, with the argument of the body if that is executed. -/
def step (n : Int32) (body : Int32 → ω → ω) (s : State ω) : Option (Option Int32 × State ω) :=
  match s.pc with
  | .outer i => some (none, { s with pc := if i < n then .inner i 0 else .done })
  | .inner i j =>
    if j < n then some (some j, { pc := .inner i (j + 1), obj := body j s.obj })
    else some (none, { s with pc := .outer (i + 1) })
  | .done => none

/-- **The two loops**, around an object that is `o` at first. -/
def system (n : Int32) (body : Int32 → ω → ω) (o : ω) :
    TransitionSystem (State ω) (Option Int32) where
  Init s := s = { pc := .outer 0, obj := o }
  Step s a s' := step n body s = some (a, s')

/-- What a step can be. -/
inductive Cases (n : Int32) (body : Int32 → ω → ω) (s : State ω) :
    Option Int32 → State ω → Prop
  | enter (i : Int32) : s.pc = .outer i → i < n → Cases n body s none { s with pc := .inner i 0 }
  | leave (i : Int32) : s.pc = .outer i → ¬i < n → Cases n body s none { s with pc := .done }
  | body (i j : Int32) : s.pc = .inner i j → j < n →
      Cases n body s (some j) { pc := .inner i (j + 1), obj := body j s.obj }
  | next (i j : Int32) : s.pc = .inner i j → ¬j < n →
      Cases n body s none { s with pc := .outer (i + 1) }

theorem step_cases (h : step n body s = some (a, s')) : Cases n body s a s' := by
  rcases s with ⟨pc, o⟩
  rcases pc with i | ⟨i, j⟩ | _
  · obtain ⟨rfl, rfl⟩ := Prod.mk.inj (Option.some.inj h)
    by_cases hi : i < n
    · rw [if_pos hi]
      exact .enter i rfl hi
    · rw [if_neg hi]
      exact .leave i rfl hi
  · by_cases hj : j < n
    · simp only [step, if_pos hj] at h
      obtain ⟨rfl, rfl⟩ := Prod.mk.inj (Option.some.inj h)
      exact .body i j rfl hj
    · simp only [step, if_neg hj] at h
      obtain ⟨rfl, rfl⟩ := Prod.mk.inj (Option.some.inj h)
      exact .next i j rfl hj
  · cases h

theorem Cases.step (h : Cases n body s a s') : step n body s = some (a, s') := by
  rcases h with ⟨i, hpc, hi⟩ | ⟨i, hpc, hi⟩ | ⟨i, j, hpc, hj⟩ | ⟨i, j, hpc, hj⟩
  · rw [NestedLoops.step, hpc]
    simp only [if_pos hi]
  · rw [NestedLoops.step, hpc]
    simp only [if_neg hi]
  · rw [NestedLoops.step, hpc]
    simp only [if_pos hj]
  · rw [NestedLoops.step, hpc]
    simp only [if_neg hj]

/-! ### What becomes of the object -/

/-- The arguments that the body has had. -/
def arguments (tr : List (Option Int32)) : List Int32 := tr.filterMap id

@[simp] theorem arguments_concat_none : arguments (tr ++ [none]) = arguments tr := by
  simp [arguments]

@[simp] theorem arguments_concat_some (j : Int32) :
    arguments (tr ++ [some j]) = arguments tr ++ [j] := by
  simp [arguments]

/-- **The object** is what the body has made of it. -/
theorem obj_of_run (h : (system n body o).Run tr s) :
    s.obj = (arguments tr).foldl (fun o j => body j o) o := by
  refine h.invariant (I := fun tr s => s.obj = (arguments tr).foldl (fun o j => body j o) o) ?_ ?_
  · rintro s rfl
    rfl
  · intro tr s a s' _ hobj hs
    rcases step_cases hs with ⟨i, _, _⟩ | ⟨i, _, _⟩ | ⟨i, j, _, _⟩ | ⟨i, j, _, _⟩
    · simpa using hobj
    · simpa using hobj
    · simp [hobj]
    · simpa using hobj

/-! ### The arguments -/

/-- The bound of the loops: none of them is entered if it is negative. -/
def bound (n : Int32) : ℕ := n.toInt.toNat

/-- The arguments of `a` rounds of the inner loop, and of another one up to `b`. -/
def rounds (N a b : ℕ) : List ℕ :=
  (List.replicate a (List.range N)).flatten ++ List.range b

theorem rounds_succ (N a b : ℕ) : rounds N a (b + 1) = rounds N a b ++ [b] := by
  rw [rounds, rounds, List.range_succ, List.append_assoc]

/-- A round is complete. -/
theorem rounds_bound (N a : ℕ) : rounds N a N = rounds N (a + 1) 0 := by
  simp [rounds, List.replicate_succ']

/-- `a` rounds of the inner loop are over, and in the next one it is at `b`. -/
def At (N a b : ℕ) : Pc → Prop
  | .outer i => i.toInt = a ∧ a ≤ N ∧ b = 0
  | .inner i j => i.toInt = a ∧ a < N ∧ j.toInt = b ∧ b ≤ N
  | .done => a = N ∧ b = 0

/-- **The arguments so far**, by the place where the control is. -/
def Inv (n : Int32) (tr : List (Option Int32)) (s : State ω) : Prop :=
  ∃ a b, At (bound n) a b s.pc ∧
    (arguments tr).map Int32.toInt = (rounds (bound n) a b).map Nat.cast

theorem lt_bound_iff {i : Int32} {a : ℕ} (hi : i.toInt = a) : i < n ↔ a < bound n := by
  rw [Int32.lt_iff_toInt_lt, hi, bound]
  omega

theorem bound_lt (n : Int32) : bound n < 2 ^ 31 := by
  have hn := n.toInt_lt
  rw [bound]
  omega

/-- Counting up to the bound does not overflow. -/
theorem toInt_add_one {i : Int32} {a : ℕ} (hi : i.toInt = a) (ha : a < bound n) :
    (i + 1).toInt = (a + 1 : ℕ) := by
  have hn := bound_lt n
  rw [Int32.toInt_add, hi, show (1 : Int32).toInt = 1 by decide,
    Int.bmod_eq_of_le (by omega) (by omega), Nat.cast_succ]

theorem Inv.step (h : Inv n tr s) (hs : step n body s = some (a, s')) :
    Inv n (tr ++ [a]) s' := by
  obtain ⟨p, q, hat, hargs⟩ := h
  rcases step_cases hs with ⟨i, hpc, hi⟩ | ⟨i, hpc, hi⟩ | ⟨i, j, hpc, hj⟩ | ⟨i, j, hpc, hj⟩
  · rw [hpc] at hat
    obtain ⟨hp, -, rfl⟩ := hat
    refine ⟨p, 0, ⟨hp, (lt_bound_iff hp).mp hi, by decide, Nat.zero_le _⟩, ?_⟩
    simpa using hargs
  · rw [hpc] at hat
    obtain ⟨hp, hle, rfl⟩ := hat
    refine ⟨p, 0, ⟨?_, rfl⟩, by simpa using hargs⟩
    rw [lt_bound_iff hp] at hi
    omega
  · rw [hpc] at hat
    obtain ⟨hp, hlt, hq, -⟩ := hat
    have hqlt := (lt_bound_iff hq).mp hj
    refine ⟨p, q + 1, ⟨hp, hlt, toInt_add_one hq hqlt, hqlt⟩, ?_⟩
    simp [hargs, rounds_succ, hq]
  · rw [hpc] at hat
    obtain ⟨hp, hlt, hq, hle⟩ := hat
    rw [lt_bound_iff hq] at hj
    obtain rfl : q = bound n := by omega
    refine ⟨p + 1, 0, ⟨toInt_add_one hp hlt, hlt, rfl⟩, ?_⟩
    rw [arguments_concat_none, hargs, rounds_bound]

/-- **The arguments of a run**: the numbers below the bound in order, again and again. -/
theorem inv_of_run (h : (system n body o).Run tr s) : Inv n tr s := by
  refine h.invariant (I := Inv n) ?_ ?_
  · rintro s rfl
    exact ⟨0, 0, ⟨by decide, Nat.zero_le _, rfl⟩, rfl⟩
  · intro tr s a s' _ hinv hs
    exact hinv.step hs

/-! ### The loops end -/

/-- How far the loops are from their end. -/
def remaining (n : Int32) (s : State ω) : ℕ :=
  match s.pc with
  | .outer i => (bound n - i.toInt.toNat) * (bound n + 2) + 1
  | .inner i j => (bound n - (i.toInt.toNat + 1)) * (bound n + 2) + (bound n - j.toInt.toNat) + 2
  | .done => 0

theorem remaining_lt (h : ∃ a b, At (bound n) a b s.pc) (hs : step n body s = some (a, s')) :
    remaining n s' < remaining n s := by
  obtain ⟨p, q, hat⟩ := h
  rcases step_cases hs with ⟨i, hpc, hi⟩ | ⟨i, hpc, hi⟩ | ⟨i, j, hpc, hj⟩ | ⟨i, j, hpc, hj⟩
  · rw [hpc] at hat
    obtain ⟨hp, -, rfl⟩ := hat
    rw [lt_bound_iff hp] at hi
    have hround : bound n - p = bound n - (p + 1) + 1 := by omega
    simp only [remaining, hpc, hp, Int.toNat_natCast, hround, Nat.succ_mul]
    have hzero : (0 : Int32).toInt.toNat = 0 := by decide
    omega
  · simp only [remaining, hpc]
    omega
  · rw [hpc] at hat
    obtain ⟨hp, hlt, hq, -⟩ := hat
    have hqlt := (lt_bound_iff hq).mp hj
    simp only [remaining, hpc, hq, toInt_add_one hq hqlt, Int.toNat_natCast]
    omega
  · rw [hpc] at hat
    obtain ⟨hp, hlt, -, -⟩ := hat
    simp only [remaining, hpc, hp, toInt_add_one hp hlt, Int.toNat_natCast]
    omega

/-- **The loops end**, from wherever they are. -/
theorem finishes (h : (system n body o).Run tr s) :
    ∃ tr' s', (system n body o).Steps s tr' s' ∧ s'.pc = .done := by
  obtain ⟨tr', s', hsteps, -, -, hrest⟩ := TransitionSystem.exists_rest
    (M := system n body o) (A := fun _ => True) (P := fun s => ∃ tr, Inv n tr s)
    (μ := remaining n)
    (fun s a s' _ ⟨tr, hinv⟩ hs => ⟨tr ++ [a], hinv.step hs⟩)
    (fun s a s' _ ⟨tr, a', b, hat, _⟩ hs => remaining_lt ⟨a', b, hat⟩ hs)
    ⟨tr, inv_of_run h⟩
  refine ⟨tr', s', hsteps, ?_⟩
  rcases hpc : s'.pc with i | ⟨i, j⟩ | _
  · exact absurd (by simp [system, step, hpc]; rfl) (hrest none _ trivial)
  · by_cases hj : j < n
    · exact absurd (by simp [system, step, hpc, hj]; rfl) (hrest (some j) _ trivial)
    · exact absurd (by simp [system, step, hpc, hj]; rfl) (hrest none _ trivial)
  · rfl

end NestedLoops
