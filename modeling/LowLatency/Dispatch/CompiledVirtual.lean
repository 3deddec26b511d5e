import LowLatency.Dispatch.Compiled
import Mathlib.Data.BitVec

/-!
# The compiled benchmark of dynamic dispatch

The listing of `_Z20test_virtual_methodsi`, with that of the method `VirtualDerived::tick`. Each
iteration loads the address of the virtual table from the object, and that of the method from the
table, which is not part of the listing (`Vtable`). Nothing but the method changes the counter, and
the counter stays in memory all the time.

The registers hold the two numbers that the loops count, so an iteration is the same for each of
them (`leads_call`), and the loops add up what the loops of the source add up
(`test_virtual_methods_agrees`).
-/

namespace LowLatency

namespace Dispatch

namespace CompiledVirtual

open X86 X86.Instr X86.Operand NestedLoops Address

/-! ### The listing -/

/-- From the entry to the call of `operator new`. -/
def prologue : List Line := [
  ⟨0x400c40, 2, push .r13⟩,
  ⟨0x400c42, 2, push .r12⟩,
  ⟨0x400c44, 3, movl (reg .rdi) (reg .r12)⟩,
  ⟨0x400c47, 5, movl (imm 0x10) (reg .rdi)⟩,
  ⟨0x400c4c, 1, push .rbp⟩,
  ⟨0x400c4d, 1, push .rbx⟩,
  ⟨0x400c4e, 4, aluq .sub (imm 0x8) (reg .rsp)⟩,
  ⟨0x400c52, 5, call 0x400a30⟩]

/-- The constructor, and the test before the loops. -/
def construct : List Line := [
  ⟨0x400c57, 3, alul .test (reg .r12) (reg .r12)⟩,
  ⟨0x400c5a, 3, movq (reg .rax) (reg .rbp)⟩,
  ⟨0x400c5d, 7, movq (imm 0x400df0) (mem (.base 0 .rax))⟩,
  ⟨0x400c64, 7, movl (imm 0x0) (mem (.base 0x8 .rax))⟩,
  ⟨0x400c6b, 2, jcc .le 0x400ca2⟩]

/-- The first round. -/
def first : List Line := [
  ⟨0x400c6d, 5, movl (imm 0x400df0) (reg .rax)⟩,
  ⟨0x400c72, 3, alul .xor (reg .r13) (reg .r13)⟩,
  ⟨0x400c75, 3, nop⟩]

/-- A round begins. -/
def round : List Line := [
  ⟨0x400c78, 2, alul .xor (reg .rbx) (reg .rbx)⟩,
  ⟨0x400c7a, 2, jmp 0x400c84⟩,
  ⟨0x400c7c, 4, nop⟩]

/-- The address of the virtual table. -/
def reload : List Line := [
  ⟨0x400c80, 4, movq (mem (.base 0x0 .rbp)) (reg .rax)⟩]

/-- The call of the virtual method. -/
def callTick : List Line := [
  ⟨0x400c84, 2, movl (reg .rbx) (reg .rsi)⟩,
  ⟨0x400c86, 3, alul .add (imm 0x1) (reg .rbx)⟩,
  ⟨0x400c89, 3, movq (reg .rbp) (reg .rdi)⟩,
  ⟨0x400c8c, 2, callMem (.base 0 .rax)⟩]

/-- The test of the inner loop. -/
def test : List Line := [
  ⟨0x400c8e, 3, alul .cmp (reg .r12) (reg .rbx)⟩,
  ⟨0x400c91, 2, jcc .ne 0x400c80⟩]

/-- The next round. -/
def next : List Line := [
  ⟨0x400c93, 4, alul .add (imm 0x1) (reg .r13)⟩,
  ⟨0x400c97, 3, alul .cmp (reg .r12) (reg .r13)⟩,
  ⟨0x400c9a, 2, jcc .e 0x400ca2⟩,
  ⟨0x400c9c, 4, movq (mem (.base 0x0 .rbp)) (reg .rax)⟩,
  ⟨0x400ca0, 2, jmp 0x400c78⟩]

/-- The return. -/
def epilogue : List Line := [
  ⟨0x400ca2, 4, aluq .add (imm 0x8) (reg .rsp)⟩,
  ⟨0x400ca6, 1, pop .rbx⟩,
  ⟨0x400ca7, 1, pop .rbp⟩,
  ⟨0x400ca8, 2, pop .r12⟩,
  ⟨0x400caa, 2, pop .r13⟩,
  ⟨0x400cac, 1, ret⟩,
  ⟨0x400cad, 3, nop⟩]

/-- **The code of `_ZN14VirtualDerived4tickEi`**. -/
def tick : List Line := [
  ⟨0x400cb0, 3, movl (mem (.base 0x8 .rdi)) (reg .rax)⟩,
  ⟨0x400cb3, 2, alul .add (reg .rsi) (reg .rax)⟩,
  ⟨0x400cb5, 3, movl (reg .rax) (mem (.base 0x8 .rdi))⟩,
  ⟨0x400cb8, 1, ret⟩]

/-- **The code of `_Z20test_virtual_methodsi`**, and of the method that it calls. -/
def code : List Line :=
  prologue ++ construct ++ first ++ round ++ reload ++ callTick ++ test ++ next ++ epilogue ++ tick

/-- The virtual table, which is not part of the listing. -/
structure Vtable (new : OperatorNew 0x400a30) (s : X86.State) : Prop where
  tick : s.mem.load 0x400df0#64 64 = 0x400cb0#64
  apart : ∀ x, Within x 0x400df0 8 → ¬new.Writes 48 s x

theorem nodup_addr : (code.map Line.addr).Nodup := by decide

/-! ### The loops -/

/-- What the loops rely on, for `N` rounds and the object at `p`. -/
structure Ready (N : ℕ) (p : Address) (s : X86.State) : Prop where
  pos : 0 < N
  lt : N < 2 ^ 31
  r12 : (s.reg .r12).setWidth 32 = BitVec.ofNat 32 N
  rbp : s.reg .rbp = p
  vptr : s.mem.load p 64 = 0x400df0#64
  tick : s.mem.load 0x400df0#64 64 = 0x400cb0#64
  vtable_stack : Apart 0x400df0#64 8 (s.reg .rsp - 8) 8
  vtable_object : Apart 0x400df0#64 8 p 16
  object_stack : Apart p 16 (s.reg .rsp - 8) 8

/-- The registers that the loops change. -/
def scratch : List Reg := [.rax, .rbx, .rsi, .rdi, .r13]

/-- **In the loops**: the control is at `rip`, in round `i` and at the number `j`, and the counter
is `sum`. The calls write to a word of the stack. -/
structure Loop (s₁ : X86.State) (p rip : Address) (i j sum : ℕ) (s : X86.State) : Prop where
  rip : s.rip = rip
  reg : ∀ r, r ∉ scratch → s.reg r = s₁.reg r
  mem : ∀ x, ¬Within x (p + 8) 4 → ¬Within x (s₁.reg .rsp - 8) 8 → s.mem x = s₁.mem x
  r13 : (s.reg .r13).setWidth 32 = BitVec.ofNat 32 i
  rbx : (s.reg .rbx).setWidth 32 = BitVec.ofNat 32 j
  counter : s.mem.load (p + 8) 32 = BitVec.ofNat 32 sum

section Loops

variable {N i i' j j' sum : ℕ} {s s' s₁ : X86.State} {p rip rip' : Address}

/-- **A piece of the loops that does not call.** -/
theorem Loop.next (hs : Loop s₁ p rip i j sum s) (hrip : s'.rip = rip')
    (hreg : ∀ r, r ∉ scratch → s'.reg r = s.reg r) (hmem : s'.mem = s.mem)
    (hr13 : (s'.reg .r13).setWidth 32 = BitVec.ofNat 32 i')
    (hrbx : (s'.reg .rbx).setWidth 32 = BitVec.ofNat 32 j') : Loop s₁ p rip' i' j' sum s' where
  rip := hrip
  reg r hr := (hreg r hr).trans (hs.reg r hr)
  mem x hx hx' := (congrFun hmem x).trans (hs.mem x hx hx')
  r13 := hr13
  rbx := hrbx
  counter := hmem ▸ hs.counter

/-- The object still has its virtual table. -/
theorem Loop.vptr (hs₁ : Ready N p s₁) (hs : Loop s₁ p rip i j sum s) :
    s.mem.load p 64 = 0x400df0#64 := by
  rw [← hs₁.vptr]
  refine ByteMemory.load_congr (n := 8) (by decide) fun x hx => hs.mem x ?_ ?_
  · unfold Within at *
    bv_omega
  · refine hs₁.object_stack x ?_
    unfold Within at *
    omega

/-- The table is still there. -/
theorem Loop.vtable (hs₁ : Ready N p s₁) (hs : Loop s₁ p rip i j sum s) :
    s.mem.load 0x400df0#64 64 = 0x400cb0#64 := by
  rw [← hs₁.tick]
  refine ByteMemory.load_congr (n := 8) (by decide) fun x hx =>
    hs.mem x (fun hx' => hs₁.vtable_object x hx ?_) (hs₁.vtable_stack x hx)
  unfold Within at *
  bv_omega

theorem run_round (hs : Loop s₁ p 0x400c78 i j sum s) :
    ∃ s', runLines round s = some s' ∧ Loop s₁ p 0x400c84 i 0 sum s' ∧
      s'.reg .rax = s.reg .rax := by
  simp [round, hs.rip]
  exact hs.next rfl (by simp +contextual [scratch]) rfl (by simp [hs.r13]) (by simp)

theorem run_reload (hs₁ : Ready N p s₁) (hs : Loop s₁ p 0x400c80 i j sum s) :
    ∃ s', runLines reload s = some s' ∧ Loop s₁ p 0x400c84 i j sum s' ∧
      s'.reg .rax = 0x400df0#64 := by
  have hrbp : s.reg .rbp = p := (hs.reg _ (by decide)).trans hs₁.rbp
  simp [reload, hs.rip, hrbp, hs.vptr hs₁]
  exact hs.next rfl (by simp +contextual [scratch]) rfl (by simp [hs.r13]) (by simp [hs.rbx])

/-- **The virtual method is called**, and returns. -/
theorem run_tick (hs₁ : Ready N p s₁) (hs : Loop s₁ p 0x400c84 i j sum s)
    (hrax : s.reg .rax = 0x400df0#64) :
    ∃ s', runLines (callTick ++ tick) s = some s' ∧
      Loop s₁ p 0x400c8e i (j + 1) (sum + j) s' := by
  have hrbp : s.reg .rbp = p := (hs.reg _ (by decide)).trans hs₁.rbp
  have hrsp : s.reg .rsp = s₁.reg .rsp := hs.reg _ (by decide)
  have hobject : Apart (p + 8#64) 4 (s₁.reg .rsp - 8#64) 8 := by
    intro x hx
    refine hs₁.object_stack x ?_
    unfold Within at *
    bv_omega
  have hload : (s.mem.store (s₁.reg .rsp - 8#64) 0x400c8e#64).load (p + 8#64) 32 =
      BitVec.ofNat 32 sum :=
    (ByteMemory.load_store_of_apart (by decide) (by decide) hobject _).trans hs.counter
  have htop : ∀ v : BitVec 32, ((s.mem.store (s₁.reg .rsp - 8#64) 0x400c8e#64).store
      (p + 8#64) v).load (s₁.reg .rsp - 8#64) 64 = 0x400c8e#64 := fun v =>
    (ByteMemory.load_store_of_apart (by decide) (by decide) (fun x hx hx' => hobject x hx' hx)
      v).trans (ByteMemory.load_store_self _ (by decide))
  simp [callTick, tick, hs.rip, hrax, hrbp, hrsp, hs.rbx, hs.vtable hs₁, hload, htop,
    BitVec.ofNat_add_ofNat]
  refine ⟨rfl, ?_, ?_, by simp [hs.r13], by simp, ByteMemory.load_store_self _ (by decide)⟩
  · intro r hr
    by_cases hne : r = .rsp
    · simp [hne]
    · simp [scratch] at hr
      simp [hr, hne, hs.reg r (by simp [scratch, hr])]
  · intro x hx hx'
    rw [← hs.mem x hx hx']
    exact (ByteMemory.store_of_not_within (by decide) hx _).trans
      (ByteMemory.store_of_not_within (by decide) hx' _)

theorem run_test_more (hs₁ : Ready N p s₁) (hs : Loop s₁ p 0x400c8e i j sum s) (hN : j < N) :
    ∃ s', runLines test s = some s' ∧ Loop s₁ p 0x400c80 i j sum s' := by
  have hlt := hs₁.lt
  have hr12 := hs₁.r12
  rw [← hs.reg _ (by decide)] at hr12
  have hne : ¬BitVec.ofNat 32 j = BitVec.ofNat 32 N :=
    (word_inj (by omega) hlt).not.mpr (by omega)
  simp [test, hs.rip, hr12, hs.rbx, hne]
  exact hs.next rfl (by simp +contextual [scratch]) rfl (by simp [hs.r13]) (by simp [hs.rbx])

theorem run_test_done (hs₁ : Ready N p s₁) (hs : Loop s₁ p 0x400c8e i N sum s) :
    ∃ s', runLines test s = some s' ∧ Loop s₁ p 0x400c93 i N sum s' := by
  have hr12 := hs₁.r12
  rw [← hs.reg _ (by decide)] at hr12
  simp [test, hs.rip, hr12, hs.rbx]
  exact hs.next rfl (by simp +contextual [scratch]) rfl (by simp [hs.r13]) (by simp [hs.rbx])

theorem run_next_more (hs₁ : Ready N p s₁) (hs : Loop s₁ p 0x400c93 i j sum s) (hN : i + 1 < N) :
    ∃ s', runLines next s = some s' ∧ Loop s₁ p 0x400c78 (i + 1) j sum s' ∧
      s'.reg .rax = 0x400df0#64 := by
  have hlt := hs₁.lt
  have hr12 := hs₁.r12
  have hrbp : s.reg .rbp = p := (hs.reg _ (by decide)).trans hs₁.rbp
  rw [← hs.reg _ (by decide)] at hr12
  have hne : ¬BitVec.ofNat 32 (i + 1) = BitVec.ofNat 32 N :=
    (word_inj (by omega) hlt).not.mpr (by omega)
  simp [next, hs.rip, hr12, hrbp, hs.r13, hs.vptr hs₁, BitVec.ofNat_add_ofNat, hne]
  exact hs.next rfl (by simp +contextual [scratch]) rfl (by simp) (by simp [hs.rbx])

theorem run_next_done (hs₁ : Ready N p s₁) (hs : Loop s₁ p 0x400c93 i j sum s) (hN : i + 1 = N) :
    ∃ s', runLines next s = some s' ∧ Loop s₁ p 0x400ca2 (i + 1) j sum s' := by
  have hr12 := hs₁.r12
  rw [← hs.reg _ (by decide), ← hN] at hr12
  simp [next, hs.rip, hr12, hs.r13, BitVec.ofNat_add_ofNat]
  exact hs.next rfl (by simp +contextual [scratch]) rfl (by simp) (by simp [hs.rbx])

variable {ε : Type*} {outside : X86.State × ε → X86.State × ε → Prop} {e : ε}

/-- **An iteration of the inner loop.** -/
theorem leads_call (hs₁ : Ready N p s₁) (hs : Loop s₁ p 0x400c84 i j (sum + triangle j) s)
    (hrax : s.reg .rax = 0x400df0#64) :
    Leads code outside e (Loop s₁ p 0x400c8e i (j + 1) (sum + triangle (j + 1))) s := by
  obtain ⟨s', hrun, hloop⟩ := run_tick hs₁ hs hrax
  rw [Nat.add_assoc, ← triangle_succ] at hloop
  exact leads_of_runLines nodup_addr (by decide) ⟨s', hrun, hloop⟩

/-- **A round** adds all the numbers below `N` up. -/
theorem leads_round (hs₁ : Ready N p s₁) (hs : Loop s₁ p 0x400c78 i j sum s)
    (hrax : s.reg .rax = 0x400df0#64) :
    Leads code outside e (Loop s₁ p 0x400c93 i N (sum + triangle N)) s := by
  obtain ⟨s', hrun, hloop, hrax'⟩ := run_round hs
  refine (leads_of_runLines (P := (· = s')) nodup_addr (by decide) ⟨s', hrun, rfl⟩).trans ?_
  rintro _ rfl
  have hpos := hs₁.pos
  refine (leads_call (j := 0) hs₁ hloop (hrax'.trans hrax)).trans fun s hs => ?_
  have hcalls : Leads code outside e
      (fun s => ∃ j, j + 0 = N ∧ Loop s₁ p 0x400c8e i j (sum + triangle j) s) s := by
    refine Leads.loop (I := fun m s => ∃ j, j + m = N ∧ Loop s₁ p 0x400c8e i j (sum + triangle j) s)
      (n := N - 1) ?_ ⟨1, by omega, hs⟩
    rintro m s ⟨j, hj, hs⟩
    obtain ⟨s', hrun, hloop⟩ := run_test_more hs₁ hs (by omega)
    refine (leads_of_runLines (P := (· = s')) nodup_addr (by decide) ⟨s', hrun, rfl⟩).trans ?_
    rintro _ rfl
    obtain ⟨s'', hrun, hloop, hrax⟩ := run_reload hs₁ hloop
    refine (leads_of_runLines (P := (· = s'')) nodup_addr (by decide) ⟨s'', hrun, rfl⟩).trans ?_
    rintro _ rfl
    exact (leads_call hs₁ hloop hrax).trans fun s hs => .here ⟨⟨j + 1, by omega, hs⟩, rfl⟩
  refine hcalls.trans ?_
  rintro s ⟨_, rfl, hs⟩
  obtain ⟨s', hrun, hloop⟩ := run_test_done hs₁ hs
  exact leads_of_runLines nodup_addr (by decide) ⟨s', hrun, hloop⟩

/-- **All rounds.** -/
theorem leads_rounds (hs₁ : Ready N p s₁) (hs : Loop s₁ p 0x400c78 0 j 0 s)
    (hrax : s.reg .rax = 0x400df0#64) :
    Leads code outside e (Loop s₁ p 0x400ca2 N N (N * triangle N)) s := by
  have hpos := hs₁.pos
  have hloop : Leads code outside e (fun s => ∃ i j, i + 0 + 1 = N ∧
      Loop s₁ p 0x400c78 i j (i * triangle N) s ∧ s.reg .rax = 0x400df0#64) s := by
    refine Leads.loop (I := fun m s => ∃ i j, i + m + 1 = N ∧
      Loop s₁ p 0x400c78 i j (i * triangle N) s ∧ s.reg .rax = 0x400df0#64)
      (n := N - 1) ?_ ⟨0, j, by omega, by simpa using hs, hrax⟩
    rintro m s ⟨i, j, hi, hs, hrax⟩
    refine (leads_round hs₁ hs hrax).trans fun s' hs' => ?_
    obtain ⟨s'', hrun, hloop, hrax⟩ := run_next_more hs₁ hs' (by omega)
    refine leads_of_runLines nodup_addr (by decide) ⟨s'', hrun, i + 1, N, by omega, ?_, hrax⟩
    rwa [Nat.succ_mul]
  refine hloop.trans ?_
  rintro s ⟨i, j, hi, hs, hrax⟩
  refine (leads_round hs₁ hs hrax).trans fun s' hs' => ?_
  obtain ⟨s'', hrun, hloop⟩ := run_next_done hs₁ hs' hi
  refine leads_of_runLines nodup_addr (by decide) ⟨s'', hrun, ?_⟩
  rwa [← Nat.succ_mul, Nat.succ_eq_add_one, show i + 1 = N from hi] at hloop

end Loops

/-! ### From the entry to the return -/

section Calls

variable {new : OperatorNew 0x400a30} {test_run : Int32} {s s' s₀ : X86.State} {p : Address}

/-- The registers that are given back from the stack, with their places below the stack pointer. -/
def slots : List (Reg × BitVec 64) := [(.r13, 8), (.r12, 16), (.rbp, 24), (.rbx, 32)]

/-- **Inside the benchmark**, which was entered in `s₀`: what it has to give back is on the stack or
still in its registers. -/
structure Frame (new : OperatorNew 0x400a30) (s₀ s : X86.State) : Prop where
  rsp : s.reg .rsp = s₀.reg .rsp - 40
  r14 : s.reg .r14 = s₀.reg .r14
  r15 : s.reg .r15 = s₀.reg .r15
  slot : ∀ q ∈ slots, s.mem.load (s₀.reg .rsp - q.2) 64 = s₀.reg q.1
  mem : ∀ x, ¬new.Writes 48 s₀ x → s.mem x = s₀.mem x

/-- `operator new` is called. -/
theorem call_new (h : Entry new 0x400c40 48 test_run s) :
    ∃ s', runLines prologue s = some s' ∧ s'.rip = 0x400a30 ∧ s'.top = 0x400c57 ∧
      s'.reg .rdi = 0x10 ∧ (s'.reg .r12).setWidth 32 = test_run.toBitVec ∧
      s'.reg .rsp = s.reg .rsp - 48 ∧ s'.reg .r14 = s.reg .r14 ∧ s'.reg .r15 = s.reg .r15 ∧
      (∀ q ∈ slots, s'.mem.load (s.reg .rsp - q.2) 64 = s.reg q.1) ∧
      ∀ x, ¬Within x (s.reg .rsp - 48) 48 → s'.mem x = s.mem x := by
  simp [prologue, h.rip, h.argument, ByteMemory.load_store_self, BitVec.sub_sub, slots]
  refine ⟨⟨?_, ?_, ?_, ?_⟩, fun x hx => ?_⟩
  · simp (disch := decide) only [ByteMemory.load_store_sub, ByteMemory.load_store_self]
  · simp (disch := decide) only [ByteMemory.load_store_sub, ByteMemory.load_store_self]
  · simp (disch := decide) only [ByteMemory.load_store_sub, ByteMemory.load_store_self]
  · simp (disch := decide) only [ByteMemory.load_store_sub, ByteMemory.load_store_self]
  · simp (disch := decide) only [ByteMemory.store_sub hx]

/-- **The stack and the memory after `operator new`.** -/
theorem returned_new (h : Entry new 0x400c40 48 test_run s₀) {block : Block} {s₁ : X86.State}
    (hrsp : s₁.reg .rsp = s₀.reg .rsp - 48) (hr14 : s₁.reg .r14 = s₀.reg .r14)
    (hr15 : s₁.reg .r15 = s₀.reg .r15)
    (hslot : ∀ q ∈ slots, s₁.mem.load (s₀.reg .rsp - q.2) 64 = s₀.reg q.1)
    (hmem : ∀ x, ¬Within x (s₀.reg .rsp - 48) 48 → s₁.mem x = s₀.mem x)
    (hs : Allocated new.owns new.depth s₁ s block) : Frame new s₀ s where
  rsp := by
    rw [hs.returned.rsp, hrsp]
    bv_omega
  r14 := (hs.returned.saved _ (by decide)).trans hr14
  r15 := (hs.returned.saved _ (by decide)).trans hr15
  slot q hq := by
    have hroom : 8 ≤ q.2.toNat ∧ q.2.toNat ≤ 48 := by
      revert q
      decide
    rw [← hslot q hq]
    refine ByteMemory.load_congr (n := 8) (by decide) fun x hx =>
      h.stack_of_allocated (by decide) hrsp hs ?_
    unfold Within at *
    bv_omega
  mem _ hx := mem_of_allocated (by decide) hrsp hmem hs hx

/-- The object is written to. -/
theorem Frame.store (h : Entry new 0x400c40 48 test_run s₀) (hs : Frame new s₀ s) {n w : ℕ}
    (hp : ∀ x, Within x p n → new.owns x) (hn : w ≤ 8 * n) (v : BitVec w) :
    Frame new s₀ { s with mem := s.mem.store p v } where
  __ := hs
  slot q hq := by
    have hroom : 8 ≤ q.2.toNat ∧ q.2.toNat ≤ 48 := by
      revert q
      decide
    exact (h.load_store hp hn hroom _ v).trans (hs.slot q hq)
  mem x hx := by
    rw [← hs.mem x hx]
    exact ByteMemory.store_of_not_within hn (fun hx' => hx (.inl (hp x hx'))) v

/-- The constructor. -/
theorem run_construct (h : Entry new 0x400c40 48 test_run s₀) (hs : Frame new s₀ s)
    (hp : ∀ x, Within x p 16 → new.owns x) (hrip : s.rip = 0x400c57) (hrax : s.reg .rax = p)
    (hr12 : (s.reg .r12).setWidth 32 = test_run.toBitVec) :
    ∃ s', runLines construct s = some s' ∧
      s'.rip = (if test_run.toBitVec.sle 0#32 then 0x400ca2 else 0x400c6d) ∧
      s'.reg .rbp = p ∧ s'.reg .r12 = s.reg .r12 ∧ s'.mem.load p 64 = 0x400df0#64 ∧
      s'.mem.load (p + 8) 32 = 0#32 ∧ Frame new s₀ s' := by
  have hvptr : ((s.mem.store p 0x400df0#64).store (p + 8#64) 0#32).load p 64 = 0x400df0#64 := by
    rw [ByteMemory.load_store_of_apart (n := 8) (k := 4) (by decide) (by decide),
      ByteMemory.load_store_self _ (by decide)]
    intro x hx hx'
    unfold Within at *
    bv_omega
  have hframe := (hs.store h (n := 8) (fun x hx => hp x (lt_of_lt_of_le hx (by decide)))
    (by decide) 0x400df0#64).store h (p := p + 8#64) (n := 4)
    (fun x hx => hp x (by unfold Within at *; bv_omega)) (by decide) 0#32
  rcases hle : test_run.toBitVec.sle 0#32 with _ | _
  · simp [construct, hrip, hrax, hr12, hle, hvptr, ByteMemory.load_store_self]
    exact { hframe with rsp := hs.rsp, r14 := hs.r14, r15 := hs.r15 }
  · simp [construct, hrip, hrax, hr12, hle, hvptr, ByteMemory.load_store_self]
    exact { hframe with rsp := hs.rsp, r14 := hs.r14, r15 := hs.r15 }

/-- The loops begin. -/
theorem run_first {N : ℕ} (h : Entry new 0x400c40 48 test_run s₀) (hv : Vtable new s₀)
    (hs : Frame new s₀ s) (hp : ∀ x, Within x p 16 → new.owns x) (hrip : s.rip = 0x400c6d)
    (hrbp : s.reg .rbp = p) (hr12 : (s.reg .r12).setWidth 32 = BitVec.ofNat 32 N)
    (hvptr : s.mem.load p 64 = 0x400df0#64) (hcounter : s.mem.load (p + 8) 32 = 0#32) (hpos : 0 < N)
    (hlt : N < 2 ^ 31) :
    ∃ s', runLines first s = some s' ∧ Ready N p s' ∧ (∃ j, Loop s' p 0x400c78 0 j 0 s') ∧
      s'.reg .rax = 0x400df0#64 ∧ Frame new s₀ s' := by
  have htick : s.mem.load 0x400df0#64 64 = 0x400cb0#64 :=
    hv.tick ▸ ByteMemory.load_congr (n := 8) (by decide) fun x hx => hs.mem x (hv.apart x hx)
  have hdepth := new.depth_le
  simp [first, hrip]
  refine ⟨⟨hpos, hlt, ?_, ?_, hvptr, htick, ?_, ?_, ?_⟩,
    ⟨(s.reg .rbx).toNat, rfl, fun _ _ => rfl, fun _ _ _ => rfl, ?_, ?_, hcounter⟩, ?_⟩
  · simpa using hr12
  · simpa using hrbp
  · intro x hx hx'
    refine hv.apart x hx (.inr ?_)
    simp [hs.rsp] at hx'
    unfold Within at *
    bv_omega
  · exact fun x hx hx' => hv.apart x hx (.inl (hp x hx'))
  · intro x hx hx'
    refine h.stack x ?_ (hp x hx)
    simp [hs.rsp] at hx'
    unfold Within at *
    bv_omega
  · simp
  · rw [BitVec.ofNat_toNat]
    rfl
  · exact { hs with rsp := hs.rsp, r14 := hs.r14, r15 := hs.r15 }

/-- The loops keep to the counter and to the word of the stack for their calls. -/
theorem Loop.frame (h : Entry new 0x400c40 48 test_run s₀)
    (hp : ∀ x, Within x p 16 → new.owns x) {s₁ : X86.State} {rip : Address}
    {i j sum : ℕ} (hs₁ : Frame new s₀ s₁) (hs : Loop s₁ p rip i j sum s) : Frame new s₀ s where
  rsp := (hs.reg _ (by decide)).trans hs₁.rsp
  r14 := (hs.reg _ (by decide)).trans hs₁.r14
  r15 := (hs.reg _ (by decide)).trans hs₁.r15
  slot q hq := by
    have hroom : 8 ≤ q.2.toNat ∧ q.2.toNat ≤ 32 := by
      revert q
      decide
    rw [← hs₁.slot q hq]
    refine ByteMemory.load_congr (n := 8) (by decide) fun x hx => hs.mem x (fun hx' => ?_) ?_
    · refine h.stack x ?_ (hp x ?_)
      · unfold Within at *
        bv_omega
      · unfold Within at *
        bv_omega
    · rw [hs₁.rsp]
      unfold Within at *
      bv_omega
  mem x hx := by
    have hdepth := new.depth_le
    rw [hs.mem x (fun hx' => hx (.inl (hp x ?_))) (fun hx' => hx (.inr ?_)), hs₁.mem x hx]
    · unfold Within at *
      bv_omega
    · rw [hs₁.rsp] at hx'
      unfold Within at *
      bv_omega

/-- The return. -/
theorem return_main (h : Entry new 0x400c40 48 test_run s₀) (hs : Frame new s₀ s)
    (hrip : s.rip = 0x400ca2) :
    ∃ s', runLines (epilogue.take 6) s = some s' ∧ Returned (new.Writes 48 s₀) s₀ s' ∧
      s'.mem = s.mem := by
  have htop := h.top_eq (by decide) hs.mem
  have hrsp : s.reg .rsp = s₀.reg .rsp - 40#64 := hs.rsp
  have hrbx : s.mem.load (s₀.reg .rsp - 32#64) 64 = s₀.reg .rbx := hs.slot (.rbx, 32) (by decide)
  have hrbp : s.mem.load (s₀.reg .rsp - 24#64) 64 = s₀.reg .rbp := hs.slot (.rbp, 24) (by decide)
  have hr12 : s.mem.load (s₀.reg .rsp - 16#64) 64 = s₀.reg .r12 := hs.slot (.r12, 16) (by decide)
  have hr13 : s.mem.load (s₀.reg .rsp - 8#64) 64 = s₀.reg .r13 := hs.slot (.r13, 8) (by decide)
  simp [epilogue, hrip, hrsp, hrbx, hrbp, hr12, hr13, htop, ByteMemory.sub_add]
  refine ⟨rfl, by simp, ?_, hs.mem⟩
  simp [calleeSaved, hs.r14, hs.r15]

end Calls

/-- What is known of the block and of the counter makes the two programs agree. -/
theorem agrees_of_returned {new : OperatorNew 0x400a30} {test_run : Int32} {s₀ s' : X86.State}
    {blocks : List Block} {block : Block} (hs' : Returned (new.Writes 48 s₀) s₀ s')
    (hsize : block.size = 16) (hload : s'.mem.load (block.addr + 8) 32 =
      BitVec.ofNat 32 (bound test_run * triangle (bound test_run))) :
    Agrees new 48 16 8 (test_virtual_methods test_run) VirtualBase.m_counter s₀ blocks
      (s', blocks ++ [block]) where
  returned := hs'
  complete := by
    obtain ⟨tr, s, hsteps, hd⟩ := finishes (.start rfl)
    exact ⟨tr, s, TransitionSystem.Run.append (.start rfl) hsteps, hd⟩
  block := by
    refine ⟨block, rfl, hsize, fun tr s hrun hd => hload.trans ?_⟩
    exact (toBitVec_counter_of_done VirtualBase.m_counter rfl (fun _ ⟨_⟩ => rfl) hrun hd).symm

/-- **The listing of `test_virtual_methods` does what the source does**, whatever the number of
iterations. -/
theorem test_virtual_methods_agrees (new : OperatorNew 0x400a30) (test_run : Int32)
    (s₀ : X86.State) (blocks : List Block) (h : Entry new 0x400c40 48 test_run s₀)
    (hv : Vtable new s₀) :
    Eventually (X86.Step code new.call)
      (Agrees new 48 16 8 (test_virtual_methods test_run) VirtualBase.m_counter s₀ blocks)
      (s₀, blocks) := by
  obtain ⟨s₁, hrun, hrip, htop, hrdi, hr12, hrsp, hr14, hr15, hslot, hmem⟩ := call_new h
  refine eventually_of_runLines nodup_addr (by decide) ⟨s₁, hrun, ?_⟩
  refine eventually_of_outside (hrip ▸ by decide) (new.returns s₁ blocks hrip (hrdi ▸ by decide))
    fun s₂ blocks' hcall => ?_
  obtain ⟨block, rfl, hnew⟩ := new.allocated hcall
  have hsize : block.size = 16 := by
    rw [hnew.size, hrdi]
    rfl
  have hp : ∀ x, Within x block.addr 16 → new.owns x := hsize ▸ hnew.owned
  have hs₂ := returned_new h hrsp hr14 hr15 hslot hmem hnew
  have hrip₂ : s₂.rip = 0x400c57 := hnew.returned.rip.trans htop
  have hr12₂ : (s₂.reg .r12).setWidth 32 = test_run.toBitVec := by
    rw [hnew.returned.saved _ (by decide), hr12]
  obtain ⟨s₃, hrun, hrip₃, hrbp₃, hr12₃, hvptr, hcounter, hs₃⟩ :=
    run_construct h hs₂ hp hrip₂ hnew.addr.symm hr12₂
  refine eventually_of_runLines nodup_addr (by decide) ⟨s₃, hrun, ?_⟩
  rcases hle : test_run.toBitVec.sle 0#32 with _ | _
  · -- some rounds
    rw [hle] at hrip₃
    obtain ⟨hpos, hword⟩ := bound_of_not_sle hle
    obtain ⟨s₄, hrun, hready, ⟨j, hloop⟩, hrax, hs₄⟩ := run_first h hv hs₃ hp hrip₃ hrbp₃
      (hr12₃ ▸ hr12₂.trans hword) hvptr hcounter hpos (bound_lt test_run)
    refine eventually_of_runLines nodup_addr (by decide) ⟨s₄, hrun, ?_⟩
    refine (leads_rounds hready hloop hrax).eventually fun s₅ hs₅ => ?_
    obtain ⟨s₆, hrun, hs₆, hmem₆⟩ := return_main h (hs₅.frame h hp hs₄) hs₅.rip
    refine eventually_of_runLines nodup_addr (by decide) ⟨s₆, hrun, .here ?_⟩
    exact agrees_of_returned hs₆ hsize (hmem₆ ▸ hs₅.counter)
  · -- no rounds
    rw [hle] at hrip₃
    obtain ⟨s₄, hrun, hs₄, hmem₄⟩ := return_main h hs₃ hrip₃
    refine eventually_of_runLines nodup_addr (by decide) ⟨s₄, hrun, .here ?_⟩
    refine agrees_of_returned hs₄ hsize ?_
    rw [hmem₄, hcounter, bound_of_sle hle, Nat.zero_mul]

/-- A state in which the benchmark is entered with three iterations. -/
def enterThree : X86.State where
  rip := 0x400c40
  reg := Function.update (Function.update (fun _ => 0) .rsp 0x7fff0000) .rdi 3
  xmm _ := 0
  flags := none
  mem := ByteMemory.store (fun _ => 0) 0x400df0 0x400cb0#64

theorem test_virtual_methods_agrees_three :
    Eventually (X86.Step code (OperatorNew.single 0x400a30).call)
      (Agrees (.single 0x400a30) 48 16 8 (test_virtual_methods 3) VirtualBase.m_counter
        enterThree []) (enterThree, []) := by
  have hrsp : enterThree.reg .rsp = 0x7fff0000 := rfl
  refine test_virtual_methods_agrees _ 3 _ [] ⟨rfl, rfl, ?_⟩ ⟨?_, ?_⟩
  · intro x hx howns
    rw [hrsp] at hx
    simp only [OperatorNew.single, Within] at hx howns
    bv_omega
  · exact ByteMemory.load_store_self _ (by decide)
  · rintro x hx (howns | hbelow)
    · simp only [OperatorNew.single, Within] at hx howns
      bv_omega
    · simp only [hrsp, OperatorNew.single, Within] at hx hbelow
      bv_omega

end CompiledVirtual

end Dispatch

end LowLatency
