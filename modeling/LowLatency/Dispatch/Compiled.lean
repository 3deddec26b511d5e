import LowLatency.Dispatch.Tick
import LowLatency.Foundations.X86

/-!
# What the compiled benchmarks call

Both listings were made of the optimised programs. Each benchmark takes its object from
`operator new`, which the listings do not contain: it is a parameter here, with what its callers
rely on. It keeps to the calling convention, it writes to its own memory and to the stack below its
caller's, and the block it returns is part of its own memory.
-/

namespace LowLatency

namespace Dispatch

open X86 Address NestedLoops

/-! ### Words and the numbers they stand for -/

theorem word_toNat {a : ℕ} (ha : a < 2 ^ 31) : (BitVec.ofNat 32 a).toNat = a := by
  rw [BitVec.toNat_ofNat, Nat.mod_eq_of_lt (by omega)]

theorem word_toInt {a : ℕ} (ha : a < 2 ^ 31) : (BitVec.ofNat 32 a).toInt = a := by
  rw [BitVec.toInt_eq_toNat_of_lt, word_toNat ha]
  rw [word_toNat ha]
  omega

theorem word_slt {a b : ℕ} (ha : a < 2 ^ 31) (hb : b < 2 ^ 31) :
    (BitVec.ofNat 32 a).slt (BitVec.ofNat 32 b) = decide (a < b) := by
  rw [BitVec.slt_eq_decide, word_toInt ha, word_toInt hb, decide_eq_decide,
    Int.ofNat_lt]

theorem word_sle {a b : ℕ} (ha : a < 2 ^ 31) (hb : b < 2 ^ 31) :
    (BitVec.ofNat 32 a).sle (BitVec.ofNat 32 b) = decide (a ≤ b) := by
  rw [BitVec.sle_eq_decide, word_toInt ha, word_toInt hb, decide_eq_decide,
    Int.ofNat_le]

theorem word_ule {a b : ℕ} (ha : a < 2 ^ 31) (hb : b < 2 ^ 31) :
    (BitVec.ofNat 32 a).ule (BitVec.ofNat 32 b) = decide (a ≤ b) := by
  rw [BitVec.ule_eq_decide, word_toNat ha, word_toNat hb]

theorem word_inj {a b : ℕ} (ha : a < 2 ^ 31) (hb : b < 2 ^ 31) :
    BitVec.ofNat 32 a = BitVec.ofNat 32 b ↔ a = b := by
  rw [BitVec.toNat_eq, word_toNat ha, word_toNat hb]

theorem triangle_succ (j : ℕ) : triangle (j + 1) = triangle j + j :=
  Finset.sum_range_succ _ _

/-! ### `operator new` -/

/-- A block of memory. -/
structure Block where
  addr : Address
  size : ℕ

/-- What a call of `operator new` in the state `s` has led to. -/
structure Allocated (owns : Address → Prop) (depth : ℕ) (s s' : State) (block : Block) :
    Prop where
  addr : block.addr = s'.reg .rax
  size : block.size = (s.reg .rdi).toNat
  owned : ∀ x, Within x block.addr block.size → owns x
  returned : Returned (fun x => owns x ∨ Within x (s.reg .rsp - BitVec.ofNat 64 depth) depth) s s'

/-- **`operator new`**, at its address. The blocks that it has handed out are recorded. -/
structure OperatorNew (entry : Address) where
  /-- The memory it manages. -/
  owns : Address → Prop
  /-- How much of the stack it needs. -/
  depth : ℕ
  depth_le : depth ≤ 2 ^ 32
  call : State × List Block → State × List Block → Prop
  /-- It does not throw when it is asked for one of the objects. -/
  returns : ∀ s blocks, s.rip = entry → (s.reg .rdi).toNat ≤ 16 → ∃ c, call (s, blocks) c
  allocated : ∀ {s s' blocks blocks'}, call (s, blocks) (s', blocks') →
    ∃ block, blocks' = blocks ++ [block] ∧ Allocated owns depth s s' block

/-- An `operator new` that hands out the same block again and again. -/
def OperatorNew.single (entry : Address) : OperatorNew entry where
  owns x := Within x 0x1000000 16
  depth := 0
  depth_le := by decide
  call c c' := (c.1.reg .rdi).toNat ≤ 16 ∧
    c' = ({ c.1.drop.setReg .rax 0x1000000 with rip := c.1.top },
      c.2 ++ [⟨0x1000000, (c.1.reg .rdi).toNat⟩])
  returns s blocks _ hsize := ⟨_, hsize, rfl⟩
  allocated := by
    rintro s _ blocks _ ⟨hsize, heq⟩
    obtain ⟨rfl, rfl⟩ := Prod.mk.inj heq
    refine ⟨_, rfl, ?_, rfl, fun x hx => lt_of_lt_of_le hx hsize, ?_, ?_, ?_, fun _ _ => rfl⟩
    · simp
    · rfl
    · simp
    · simp +contextual [calleeSaved]

/-- What a benchmark that needs `room` bytes of the stack may write to, together with what it
calls. -/
def OperatorNew.Writes {entry : Address} (new : OperatorNew entry) (room : ℕ) (s : State)
    (x : Address) : Prop :=
  new.owns x ∨ Within x (s.reg .rsp - BitVec.ofNat 64 (room + new.depth)) (room + new.depth)

/-- **A benchmark is entered**, with the number of its iterations. Its part of the stack, with the
address to return to, does not belong to `operator new`. -/
structure Entry {entry : Address} (new : OperatorNew entry) (rip : Address) (room : ℕ)
    (test_run : Int32) (s : State) : Prop where
  rip : s.rip = rip
  argument : (s.reg .rdi).setWidth 32 = test_run.toBitVec
  stack : ∀ x, Within x (s.reg .rsp - BitVec.ofNat 64 room) (room + 8) → ¬new.owns x

section Frame

variable {entry rip : Address} {new : OperatorNew entry} {room n w : ℕ} {test_run : Int32}
  {s₀ s₁ s : X86.State} {block : Block} {p k : Address}

/-- The stack of the caller is what it was before `operator new`. -/
theorem Entry.stack_of_allocated (h : Entry new rip room test_run s₀) (hroom : room ≤ 2 ^ 32)
    (hrsp : s₁.reg .rsp = s₀.reg .rsp - BitVec.ofNat 64 room)
    (hs : Allocated new.owns new.depth s₁ s block) {x : Address}
    (hx : Within x (s₀.reg .rsp - BitVec.ofNat 64 room) room) : s.mem x = s₁.mem x := by
  refine hs.returned.mem x ?_
  have hdepth := new.depth_le
  rintro (howns | hbelow)
  · exact h.stack x (lt_of_lt_of_le hx (by omega)) howns
  · rw [hrsp] at hbelow
    exact not_within_sub hx (by omega) hbelow

/-- The rest of the memory, too. -/
theorem mem_of_allocated (hroom : room ≤ 2 ^ 32)
    (hrsp : s₁.reg .rsp = s₀.reg .rsp - BitVec.ofNat 64 room)
    (hmem : ∀ x, ¬Within x (s₀.reg .rsp - BitVec.ofNat 64 room) room → s₁.mem x = s₀.mem x)
    (hs : Allocated new.owns new.depth s₁ s block) {x : Address} (hx : ¬new.Writes room s₀ x) :
    s.mem x = s₀.mem x := by
  have hdepth := new.depth_le
  rw [hs.returned.mem x ?_, hmem x ?_]
  · intro hx'
    refine hx (.inr ?_)
    unfold Within at *
    bv_omega
  · rintro (howns | hbelow)
    · exact hx (.inl howns)
    · refine hx (.inr ?_)
      rw [hrsp] at hbelow
      unfold Within at *
      bv_omega

/-- The address to return to is still on the stack. -/
theorem Entry.top_eq (h : Entry new rip room test_run s₀) (hroom : room ≤ 2 ^ 32)
    (hmem : ∀ x, ¬new.Writes room s₀ x → s.mem x = s₀.mem x) :
    s.mem.load (s₀.reg .rsp) 64 = s₀.top := by
  refine ByteMemory.load_congr (n := 8) (by decide) fun x hx => hmem x ?_
  have hdepth := new.depth_le
  rintro (howns | hbelow)
  · refine h.stack x ?_ howns
    unfold Within at *
    bv_omega
  · exact not_within_sub hx (by omega) hbelow

/-- A word of the stack is apart from what belongs to `operator new`. -/
theorem Entry.load_store (h : Entry new rip room test_run s₀)
    (hp : ∀ x, Within x p n → new.owns x) (hn : w ≤ 8 * n)
    (hk : 8 ≤ k.toNat ∧ k.toNat ≤ room) (m : ByteMemory) (v : BitVec w) :
    (m.store p v).load (s₀.reg .rsp - k) 64 = m.load (s₀.reg .rsp - k) 64 := by
  refine ByteMemory.load_store_of_apart (n := 8) (by decide) hn ?_ v
  intro x hx hx'
  refine h.stack x ?_ (hp x hx')
  unfold Within at *
  bv_omega

end Frame

/-- The number of iterations, as a word that is not positive. -/
theorem bound_of_sle {test_run : Int32} (h : test_run.toBitVec.sle 0#32 = true) :
    bound test_run = 0 := by
  have hle : test_run.toInt ≤ 0 := of_decide_eq_true h
  rw [bound]
  omega

/-- The number of iterations, as a word that is positive. -/
theorem bound_of_not_sle {test_run : Int32} (h : test_run.toBitVec.sle 0#32 = false) :
    0 < bound test_run ∧ test_run.toBitVec = BitVec.ofNat 32 (bound test_run) := by
  have hpos : ¬test_run.toInt ≤ 0 := of_decide_eq_false h
  have hbound : test_run.toInt = bound test_run := by
    rw [bound]
    omega
  refine ⟨by omega, ?_⟩
  rw [← BitVec.ofInt_natCast, ← hbound]
  exact (BitVec.ofInt_toInt (x := test_run.toBitVec)).symm

/-- **The counter after the loops**, as a word. -/
theorem toBitVec_counter_of_done {ω : Type*} {test_run : Int32} (m_counter : ω → Int32)
    {body : Int32 → ω → ω} {o : ω} {tr : List (Option Int32)} {s : NestedLoops.State ω}
    (hinit : m_counter o = 0) (hbody : ∀ j o, m_counter (body j o) = m_counter o + j)
    (h : (system test_run body o).Run tr s) (hd : s.pc = .done) :
    (m_counter s.obj).toBitVec =
      BitVec.ofNat 32 (bound test_run * triangle (bound test_run)) := by
  have hfoldl : ∀ (l : List Int32) (a : Int32), (l.foldl (fun m n => m + n) a).toBitVec =
      a.toBitVec + BitVec.ofInt 32 (l.map Int32.toInt).sum := by
    intro l
    induction l with
    | nil => simp
    | cons j l ih =>
      intro a
      rw [List.foldl_cons, ih, List.map_cons, List.sum_cons, BitVec.ofInt_add, Int32.toBitVec_add,
        BitVec.add_assoc, ← Int32.toBitVec_ofInt j.toInt, Int32.ofInt_toInt]
  have hticked : ((arguments tr).map Int32.toInt).sum = _ := ticked_of_done h hd
  rw [obj_of_run h, counter_foldl hbody, hinit, hfoldl, hticked, BitVec.ofInt_natCast]
  exact BitVec.zero_add _

/-- **The compiled benchmark has done what the source does**: it has returned, it has taken one
block from `operator new`, and the counter in there is that of the source after its loops. -/
structure Agrees {ω : Type*} {entry : Address} (new : OperatorNew entry) (room size : ℕ)
    (m_counter : Address) (test : TransitionSystem (NestedLoops.State ω) (Option Int32))
    (counter : ω → Int32) (s₀ : X86.State) (blocks : List Block) (c : X86.State × List Block) :
    Prop where
  returned : Returned (new.Writes room s₀) s₀ c.1
  complete : ∃ tr s, test.Run tr s ∧ s.pc = .done
  block : ∃ block, c.2 = blocks ++ [block] ∧ block.size = size ∧
    ∀ tr s, test.Run tr s → s.pc = .done →
      c.1.mem.load (block.addr + m_counter) 32 = (counter s.obj).toBitVec

end Dispatch

end LowLatency
