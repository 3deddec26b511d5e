import LowLatency.Dispatch.Compiled

/-!
# The compiled benchmark of static dispatch

The listing of `_Z9test_crtpi`. The compiler has inlined `tick`, keeps the counter in a register and
adds four numbers at once if there are at least ten of them: a round of the outer loop

* sums the numbers up in four words, each of them every fourth number (`strided`), as often as four
  numbers are left;
* adds these four sums up (`strided_add`);
* adds the rest, which are at most nine numbers, one by one (`leads_tail`). That piece of code is
  unrolled; six of its pieces are alike (`piece`).

The constants for the four words are not part of the listing (`Constants`). In the end the counter
in memory is what the loops of the source have made of it (`test_crtp_agrees`), overflow included.
-/

namespace LowLatency

namespace Dispatch

namespace CompiledCRTP

open X86 X86.Instr X86.Operand NestedLoops

/-! ### The listing -/

/-- From the entry to the call of `operator new`. -/
def prologue : List Line := [
  ⟨0x400b30, 1, push .rbx⟩,
  ⟨0x400b31, 2, movl (reg .rdi) (reg .rbx)⟩,
  ⟨0x400b33, 5, movl (imm 0x4) (reg .rdi)⟩,
  ⟨0x400b38, 4, aluq .sub (imm 0x10) (reg .rsp)⟩,
  ⟨0x400b3c, 5, call 0x400920⟩]

/-- The constructor, and the test before the loops. -/
def construct : List Line := [
  ⟨0x400b41, 2, alul .test (reg .rbx) (reg .rbx)⟩,
  ⟨0x400b43, 6, movl (imm 0x0) (mem (.base 0 .rax))⟩,
  ⟨0x400b49, 6, jcc .le 0x400c42⟩]

/-- What does not change in the loops. -/
def setup : List Line := [
  ⟨0x400b4f, 3, movl (reg .rbx) (reg .r8)⟩,
  ⟨0x400b52, 8, movdqaLoad (.rip 0x1a6) 3⟩,
  ⟨0x400b5a, 4, shrl 0x2 .r8⟩,
  ⟨0x400b5e, 8, leal (.indexed 0x0 none .r8 4) .r10⟩,
  ⟨0x400b66, 8, movdqaLoad (.rip 0x182) 4⟩,
  ⟨0x400b6e, 3, alul .test (reg .r10) (reg .r10)⟩,
  ⟨0x400b71, 4, set .e .r9⟩,
  ⟨0x400b75, 3, alul .cmp (imm 0x9) (reg .rbx)⟩,
  ⟨0x400b78, 3, set .be .rdx⟩,
  ⟨0x400b7b, 2, alul .xor (reg .rsi) (reg .rsi)⟩,
  ⟨0x400b7d, 3, alul .or (reg .rdx) (reg .r9)⟩,
  ⟨0x400b80, 2, alul .xor (reg .rdx) (reg .rdx)⟩,
  ⟨0x400b82, 5, jmp 0x400c0f⟩,
  ⟨0x400b87, 9, nop⟩]

/-- The four sums are added up. -/
def reduce : List Line := [
  ⟨0x400b90, 4, movdqa 0 5⟩,
  ⟨0x400b94, 5, psrldq 0x8 5⟩,
  ⟨0x400b99, 4, paddd 5 0⟩,
  ⟨0x400b9d, 4, movdqa 0 6⟩,
  ⟨0x400ba1, 5, psrldq 0x4 6⟩,
  ⟨0x400ba6, 4, paddd 6 0⟩,
  ⟨0x400baa, 6, movd 0 (.base 0xc .rsp)⟩,
  ⟨0x400bb0, 4, alul .add (mem (.base 0xc .rsp)) (reg .rdx)⟩,
  ⟨0x400bb4, 3, alul .cmp (reg .r10) (reg .rbx)⟩,
  ⟨0x400bb7, 2, jcc .e 0x400c08⟩,
  ⟨0x400bb9, 3, movl (reg .r10) (reg .rcx)⟩]

/-- The rest of a round, one by one. -/
def tail : List Line := [
  ⟨0x400bbc, 3, leal (.base 0x1 .rcx) .rdi⟩,
  ⟨0x400bbf, 2, alul .add (reg .rcx) (reg .rdx)⟩,
  ⟨0x400bc1, 2, alul .cmp (reg .rdi) (reg .rbx)⟩,
  ⟨0x400bc3, 2, jcc .le 0x400c08⟩,
  ⟨0x400bc5, 2, alul .add (reg .rdi) (reg .rdx)⟩,
  ⟨0x400bc7, 3, leal (.base 0x2 .rcx) .rdi⟩,
  ⟨0x400bca, 2, alul .cmp (reg .rdi) (reg .rbx)⟩,
  ⟨0x400bcc, 2, jcc .le 0x400c08⟩,
  ⟨0x400bce, 2, alul .add (reg .rdi) (reg .rdx)⟩,
  ⟨0x400bd0, 3, leal (.base 0x3 .rcx) .rdi⟩,
  ⟨0x400bd3, 2, alul .cmp (reg .rdi) (reg .rbx)⟩,
  ⟨0x400bd5, 2, jcc .le 0x400c08⟩,
  ⟨0x400bd7, 2, alul .add (reg .rdi) (reg .rdx)⟩,
  ⟨0x400bd9, 3, leal (.base 0x4 .rcx) .rdi⟩,
  ⟨0x400bdc, 2, alul .cmp (reg .rdi) (reg .rbx)⟩,
  ⟨0x400bde, 2, jcc .le 0x400c08⟩,
  ⟨0x400be0, 2, alul .add (reg .rdi) (reg .rdx)⟩,
  ⟨0x400be2, 3, leal (.base 0x5 .rcx) .rdi⟩,
  ⟨0x400be5, 2, alul .cmp (reg .rdi) (reg .rbx)⟩,
  ⟨0x400be7, 2, jcc .le 0x400c08⟩,
  ⟨0x400be9, 2, alul .add (reg .rdi) (reg .rdx)⟩,
  ⟨0x400beb, 3, leal (.base 0x6 .rcx) .rdi⟩,
  ⟨0x400bee, 2, alul .cmp (reg .rdi) (reg .rbx)⟩,
  ⟨0x400bf0, 2, jcc .le 0x400c08⟩,
  ⟨0x400bf2, 2, alul .add (reg .rdi) (reg .rdx)⟩,
  ⟨0x400bf4, 3, leal (.base 0x7 .rcx) .rdi⟩,
  ⟨0x400bf7, 2, alul .cmp (reg .rdi) (reg .rbx)⟩,
  ⟨0x400bf9, 2, jcc .le 0x400c08⟩,
  ⟨0x400bfb, 2, alul .add (reg .rdi) (reg .rdx)⟩,
  ⟨0x400bfd, 3, alul .add (imm 0x8) (reg .rcx)⟩,
  ⟨0x400c00, 3, leal (.indexed 0x0 (some .rdx) .rcx 1) .rdi⟩,
  ⟨0x400c03, 2, alul .cmp (reg .rcx) (reg .rbx)⟩,
  ⟨0x400c05, 3, cmovl .g .rdi .rdx⟩]

/-- The next round. -/
def next : List Line := [
  ⟨0x400c08, 3, alul .add (imm 0x1) (reg .rsi)⟩,
  ⟨0x400c0b, 2, alul .cmp (reg .rbx) (reg .rsi)⟩,
  ⟨0x400c0d, 2, jcc .e 0x400c40⟩]

/-- A round begins. -/
def round : List Line := [
  ⟨0x400c0f, 2, alul .xor (reg .rcx) (reg .rcx)⟩,
  ⟨0x400c11, 3, testb .r9 .r9⟩,
  ⟨0x400c14, 2, jcc .ne 0x400bbc⟩,
  ⟨0x400c16, 4, pxor 0 0⟩,
  ⟨0x400c1a, 4, movdqa 4 1⟩]

/-- Four numbers at once. -/
def four : List Line := [
  ⟨0x400c1e, 4, movdqa 1 2⟩,
  ⟨0x400c22, 3, alul .add (imm 0x1) (reg .rcx)⟩,
  ⟨0x400c25, 4, paddd 1 0⟩,
  ⟨0x400c29, 3, alul .cmp (reg .rcx) (reg .r8)⟩,
  ⟨0x400c2c, 4, paddd 3 2⟩,
  ⟨0x400c30, 6, jcc .be 0x400b90⟩,
  ⟨0x400c36, 4, movdqa 2 1⟩,
  ⟨0x400c3a, 2, jmp 0x400c1e⟩,
  ⟨0x400c3c, 4, nop⟩]

/-- The counter is stored, and the benchmark returns. -/
def epilogue : List Line := [
  ⟨0x400c40, 2, movl (reg .rdx) (mem (.base 0 .rax))⟩,
  ⟨0x400c42, 4, aluq .add (imm 0x10) (reg .rsp)⟩,
  ⟨0x400c46, 1, pop .rbx⟩,
  ⟨0x400c47, 1, ret⟩]

/-- **The code of `_Z9test_crtpi`**. -/
def code : List Line :=
  prologue ++ construct ++ setup ++ reduce ++ tail ++ next ++ round ++ four ++ epilogue

/-- The constants that are not part of the listing. -/
structure Constants (new : OperatorNew 0x400920) (s : X86.State) : Prop where
  numbers : s.mem.load 0x400cf0#64 128 = ofLanes 0 1 2 3
  fours : s.mem.load 0x400d00#64 128 = ofLanes 4 4 4 4
  apart : ∀ x, Address.Within x 0x400cf0 32 → ¬new.Writes 32 s x

theorem nodup_addr : (code.map Line.addr).Nodup := by decide

/-! ### The loops -/

/-- What the loops rely on, for `N` rounds. -/
structure Ready (N : ℕ) (s : X86.State) : Prop where
  pos : 0 < N
  lt : N < 2 ^ 31
  rbx : (s.reg .rbx).setWidth 32 = BitVec.ofNat 32 N
  r8 : (s.reg .r8).setWidth 32 = BitVec.ofNat 32 (N / 4)
  r10 : (s.reg .r10).setWidth 32 = BitVec.ofNat 32 (4 * (N / 4))
  r9 : (s.reg .r9).setWidth 8 = if N < 10 then 1 else 0
  xmm3 : s.xmm 3 = ofLanes 4 4 4 4
  xmm4 : s.xmm 4 = ofLanes 0 1 2 3

/-- The registers that the loops change. -/
def scratch : List Reg := [.rcx, .rdx, .rsi, .rdi]

/-- **In the loops**: the control is at `rip`, in round `i`, and the counter is `sum`. What the
loops change otherwise is a word of the stack. -/
structure Loop (s₁ : X86.State) (rip : Address) (i sum : ℕ) (s : X86.State) : Prop where
  rip : s.rip = rip
  reg : ∀ r, r ∉ scratch → s.reg r = s₁.reg r
  xmm3 : s.xmm 3 = s₁.xmm 3
  xmm4 : s.xmm 4 = s₁.xmm 4
  mem : ∀ x, ¬Address.Within x (s₁.reg .rsp + 0xc) 4 → s.mem x = s₁.mem x
  rsi : (s.reg .rsi).setWidth 32 = BitVec.ofNat 32 i
  rdx : (s.reg .rdx).setWidth 32 = BitVec.ofNat 32 sum

section Loops

variable {N i i' sum sum' : ℕ} {s s' s₁ : X86.State} {rip rip' : Address}

/-- **A piece of the loops.** -/
theorem Loop.next (hs : Loop s₁ rip i sum s) (hrip : s'.rip = rip')
    (hreg : ∀ r, r ∉ scratch → s'.reg r = s.reg r) (hxmm3 : s'.xmm 3 = s.xmm 3)
    (hxmm4 : s'.xmm 4 = s.xmm 4)
    (hmem : ∀ x, ¬Address.Within x (s₁.reg .rsp + 0xc) 4 → s'.mem x = s.mem x)
    (hrsi : (s'.reg .rsi).setWidth 32 = BitVec.ofNat 32 i')
    (hrdx : (s'.reg .rdx).setWidth 32 = BitVec.ofNat 32 sum') : Loop s₁ rip' i' sum' s' where
  rip := hrip
  reg r hr := (hreg r hr).trans (hs.reg r hr)
  xmm3 := hxmm3.trans hs.xmm3
  xmm4 := hxmm4.trans hs.xmm4
  mem x hx := (hmem x hx).trans (hs.mem x hx)
  rsi := hrsi
  rdx := hrdx

/-! #### The beginning of a round -/

theorem round_small (hs₁ : Ready N s₁) (hs : Loop s₁ 0x400c0f i sum s) (hN : N < 10) :
    ∃ s', runLines round s = some s' ∧ Loop s₁ 0x400bbc i sum s' ∧
      (s'.reg .rcx).setWidth 32 = 0#32 := by
  have hr9 := hs₁.r9
  rw [← hs.reg _ (by decide), if_pos hN] at hr9
  simp [round, hs.rip, hr9]
  exact hs.next rfl (by simp +contextual [scratch]) rfl rfl (fun _ _ => rfl) (by simp [hs.rsi])
    (by simp [hs.rdx])

theorem round_large (hs₁ : Ready N s₁) (hs : Loop s₁ 0x400c0f i sum s) (hN : ¬N < 10) :
    ∃ s', runLines round s = some s' ∧ Loop s₁ 0x400c1e i sum s' ∧
      (s'.reg .rcx).setWidth 32 = 0#32 ∧ s'.xmm 0 = ofLanes 0 0 0 0 ∧
      s'.xmm 1 = ofLanes 0 1 2 3 := by
  have hr9 := hs₁.r9
  rw [← hs.reg _ (by decide), if_neg hN] at hr9
  simp [round, hs.rip, hr9, hs.xmm4, hs₁.xmm4]
  exact ⟨hs.next rfl (by simp +contextual [scratch]) rfl rfl (fun _ _ => rfl) (by simp [hs.rsi])
    (by simp [hs.rdx]), by decide⟩

/-! #### Four numbers at once -/

section Four

variable {k : ℕ} {a b c d a' b' c' d' : BitVec 32}

theorem four_more (hs₁ : Ready N s₁) (hs : Loop s₁ 0x400c1e i sum s)
    (hrcx : (s.reg .rcx).setWidth 32 = BitVec.ofNat 32 k) (hxmm0 : s.xmm 0 = ofLanes a b c d)
    (hxmm1 : s.xmm 1 = ofLanes a' b' c' d') (hk : k + 1 < N / 4) :
    ∃ s', runLines four s = some s' ∧ Loop s₁ 0x400c1e i sum s' ∧
      (s'.reg .rcx).setWidth 32 = BitVec.ofNat 32 (k + 1) ∧
      s'.xmm 0 = ofLanes (a + a') (b + b') (c + c') (d + d') ∧
      s'.xmm 1 = ofLanes (a' + 4) (b' + 4) (c' + 4) (d' + 4) := by
  have hN := hs₁.lt
  have hr8 := hs₁.r8
  rw [← hs.reg _ (by decide)] at hr8
  have hbe := word_ule (a := N / 4) (b := k + 1) (by omega) (by omega)
  rw [decide_eq_false (by omega)] at hbe
  simp [four, hs.rip, hr8, hrcx, hxmm0, hxmm1, hs.xmm3, hs₁.xmm3, BitVec.ofNat_add_ofNat, hbe]
  exact hs.next rfl (by simp +contextual [scratch]) (by simp) (by simp) (fun _ _ => rfl)
    (by simp [hs.rsi]) (by simp [hs.rdx])

theorem four_last (hs₁ : Ready N s₁) (hs : Loop s₁ 0x400c1e i sum s)
    (hrcx : (s.reg .rcx).setWidth 32 = BitVec.ofNat 32 k) (hxmm0 : s.xmm 0 = ofLanes a b c d)
    (hxmm1 : s.xmm 1 = ofLanes a' b' c' d') (hk : k + 1 = N / 4) :
    ∃ s', runLines four s = some s' ∧ Loop s₁ 0x400b90 i sum s' ∧
      s'.xmm 0 = ofLanes (a + a') (b + b') (c + c') (d + d') := by
  have hr8 := hs₁.r8
  rw [← hs.reg _ (by decide), ← hk] at hr8
  have hbe : (BitVec.ofNat 32 (k + 1)).ule (BitVec.ofNat 32 (k + 1)) = true :=
    BitVec.ule_eq_decide ▸ decide_eq_true le_rfl
  simp [four, hs.rip, hr8, hrcx, hxmm0, hxmm1, hs.xmm3, hs₁.xmm3, BitVec.ofNat_add_ofNat, hbe]
  exact hs.next rfl (by simp +contextual [scratch]) (by simp) (by simp) (fun _ _ => rfl)
    (by simp [hs.rsi]) (by simp [hs.rdx])

end Four

/-! #### The four sums are added up -/

section Reduce

variable {a b c d : ℕ}

theorem reduce_rest (hs₁ : Ready N s₁) (hs : Loop s₁ 0x400b90 i sum s)
    (hxmm0 : s.xmm 0 =
      ofLanes (BitVec.ofNat 32 a) (BitVec.ofNat 32 b) (BitVec.ofNat 32 c) (BitVec.ofNat 32 d))
    (hN : 4 * (N / 4) ≠ N) :
    ∃ s', runLines reduce s = some s' ∧ Loop s₁ 0x400bbc i (sum + (a + c + (b + d))) s' ∧
      (s'.reg .rcx).setWidth 32 = BitVec.ofNat 32 (4 * (N / 4)) := by
  have hlt := hs₁.lt
  have hrbx := hs₁.rbx
  have hr10 := hs₁.r10
  have hrsp := hs.reg .rsp (by decide)
  rw [← hs.reg _ (by decide)] at hrbx hr10
  have he : ¬BitVec.ofNat 32 N = BitVec.ofNat 32 (4 * (N / 4)) :=
    (word_inj hlt (by omega)).not.mpr hN.symm
  simp [reduce, hs.rip, hrbx, hr10, hrsp, hxmm0, hs.rdx, ByteMemory.load_store_self,
    BitVec.ofNat_add_ofNat, he]
  exact hs.next rfl (by simp +contextual [scratch]) (by simp) (by simp)
    (fun x hx => ByteMemory.store_of_not_within (by decide) hx _) (by simp [hs.rsi]) (by simp)

theorem reduce_done (hs₁ : Ready N s₁) (hs : Loop s₁ 0x400b90 i sum s)
    (hxmm0 : s.xmm 0 =
      ofLanes (BitVec.ofNat 32 a) (BitVec.ofNat 32 b) (BitVec.ofNat 32 c) (BitVec.ofNat 32 d))
    (hN : 4 * (N / 4) = N) :
    ∃ s', runLines reduce s = some s' ∧ Loop s₁ 0x400c08 i (sum + (a + c + (b + d))) s' := by
  have hrbx := hs₁.rbx
  have hr10 := hs₁.r10
  have hrsp := hs.reg .rsp (by decide)
  rw [← hs.reg _ (by decide)] at hrbx hr10
  rw [hN] at hr10
  simp [reduce, hs.rip, hrbx, hr10, hrsp, hxmm0, hs.rdx, ByteMemory.load_store_self,
    BitVec.ofNat_add_ofNat]
  exact hs.next rfl (by simp +contextual [scratch]) (by simp) (by simp)
    (fun x hx => ByteMemory.store_of_not_within (by decide) hx _) (by simp [hs.rsi]) (by simp)

end Reduce

/-! #### The rest of a round, one by one -/

section Tail

variable {j k : ℕ}

/-- The address at which the number `c + k + 1` is added. -/
def unrolled (k : ℕ) : Address := 0x400bc5 + BitVec.ofNat 64 (9 * k)

/-- One of the pieces of `tail` that are alike. -/
def piece (k : ℕ) : List Line := [
  ⟨unrolled k, 2, alul .add (reg .rdi) (reg .rdx)⟩,
  ⟨unrolled k + 2, 3, leal (.base (BitVec.ofNat 64 (k + 2)) .rcx) .rdi⟩,
  ⟨unrolled k + 2 + 3, 2, alul .cmp (reg .rdi) (reg .rbx)⟩,
  ⟨unrolled k + 2 + 3 + 2, 2, jcc .le 0x400c08⟩]

theorem piece_subset : ∀ k < 6, piece k ⊆ code := by
  decide

/-- The first number. -/
theorem tail_first_last (hs₁ : Ready N s₁) (hs : Loop s₁ 0x400bbc i sum s)
    (hrcx : (s.reg .rcx).setWidth 32 = BitVec.ofNat 32 j) (hN : j + 1 = N) :
    ∃ s', runLines (tail.take 4) s = some s' ∧ Loop s₁ 0x400c08 i (sum + j) s' := by
  have hrbx := hs₁.rbx
  rw [← hs.reg _ (by decide), ← hN] at hrbx
  have hle : (BitVec.ofNat 32 (j + 1)).sle (BitVec.ofNat 32 (j + 1)) = true :=
    BitVec.sle_eq_decide ▸ decide_eq_true le_rfl
  simp [tail, hs.rip, hrbx, hrcx, hs.rdx, BitVec.setWidth_add, BitVec.ofNat_add_ofNat, hle]
  exact hs.next rfl (by simp +contextual [scratch]) rfl rfl (fun _ _ => rfl) (by simp [hs.rsi])
    (by simp)

theorem tail_first_more (hs₁ : Ready N s₁) (hs : Loop s₁ 0x400bbc i sum s)
    (hrcx : (s.reg .rcx).setWidth 32 = BitVec.ofNat 32 j) (hN : j + 1 < N) :
    ∃ s', runLines (tail.take 4) s = some s' ∧ Loop s₁ (unrolled 0) i (sum + j) s' ∧
      (s'.reg .rcx).setWidth 32 = BitVec.ofNat 32 j ∧
      (s'.reg .rdi).setWidth 32 = BitVec.ofNat 32 (j + 1) := by
  have hlt := hs₁.lt
  have hrbx := hs₁.rbx
  rw [← hs.reg _ (by decide)] at hrbx
  have hle := word_sle (a := N) (b := j + 1) hlt (by omega)
  rw [decide_eq_false (by omega)] at hle
  simp [tail, hs.rip, hrbx, hrcx, hs.rdx, BitVec.setWidth_add, BitVec.ofNat_add_ofNat, hle]
  exact hs.next rfl (by simp +contextual [scratch]) rfl rfl (fun _ _ => rfl) (by simp [hs.rsi])
    (by simp)

theorem piece_last (hs₁ : Ready N s₁) (hs : Loop s₁ (unrolled k) i sum s)
    (hrcx : (s.reg .rcx).setWidth 32 = BitVec.ofNat 32 j)
    (hrdi : (s.reg .rdi).setWidth 32 = BitVec.ofNat 32 (j + (k + 1))) (hN : j + (k + 2) = N) :
    ∃ s', runLines (piece k) s = some s' ∧ Loop s₁ 0x400c08 i (sum + (j + (k + 1))) s' := by
  have hrbx := hs₁.rbx
  rw [← hs.reg _ (by decide), ← hN] at hrbx
  have hle : (BitVec.ofNat 32 (j + (k + 2))).sle (BitVec.ofNat 32 (j + (k + 2))) = true :=
    BitVec.sle_eq_decide ▸ decide_eq_true le_rfl
  simp [piece, hs.rip, hrbx, hrcx, hrdi, hs.rdx, BitVec.setWidth_add, BitVec.ofNat_add_ofNat, hle]
  exact hs.next rfl (by simp +contextual [scratch]) rfl rfl (fun _ _ => rfl) (by simp [hs.rsi])
    (by simp)

theorem unrolled_succ (k : ℕ) : unrolled k + 2 + 3 + 2 + 2 = unrolled (k + 1) := by
  rw [unrolled, unrolled, Nat.mul_succ, ← BitVec.ofNat_add_ofNat]
  simp only [BitVec.add_assoc]
  rfl

theorem piece_more (hs₁ : Ready N s₁) (hs : Loop s₁ (unrolled k) i sum s)
    (hrcx : (s.reg .rcx).setWidth 32 = BitVec.ofNat 32 j)
    (hrdi : (s.reg .rdi).setWidth 32 = BitVec.ofNat 32 (j + (k + 1))) (hN : j + (k + 2) < N) :
    ∃ s', runLines (piece k) s = some s' ∧
      Loop s₁ (unrolled (k + 1)) i (sum + (j + (k + 1))) s' ∧
      (s'.reg .rcx).setWidth 32 = BitVec.ofNat 32 j ∧
      (s'.reg .rdi).setWidth 32 = BitVec.ofNat 32 (j + (k + 2)) := by
  have hlt := hs₁.lt
  have hrbx := hs₁.rbx
  rw [← hs.reg _ (by decide)] at hrbx
  have hle := word_sle (a := N) (b := j + (k + 2)) hlt (by omega)
  rw [decide_eq_false (by omega)] at hle
  simp [piece, hs.rip, hrbx, hrcx, hrdi, hs.rdx, BitVec.setWidth_add, BitVec.ofNat_add_ofNat, hle]
  exact hs.next (unrolled_succ k) (by simp +contextual [scratch]) rfl rfl (fun _ _ => rfl)
    (by simp [hs.rsi]) (by simp)

/-- **The last two numbers**, of nine: the second one is added only if it is one. -/
theorem tail_last (hs₁ : Ready N s₁) (hs : Loop s₁ (unrolled 6) i sum s)
    (hrcx : (s.reg .rcx).setWidth 32 = BitVec.ofNat 32 j)
    (hrdi : (s.reg .rdi).setWidth 32 = BitVec.ofNat 32 (j + 7)) (hN : j + 7 < N) :
    ∃ s', runLines (tail.drop 28) s = some s' ∧
      Loop s₁ 0x400c08 i (sum + (j + 7) + if j + 8 < N then j + 8 else 0) s' := by
  have hlt := hs₁.lt
  have hrbx := hs₁.rbx
  rw [← hs.reg _ (by decide)] at hrbx
  have hg := word_slt (a := j + 8) (b := N) (by omega) hlt
  have hrip : s.rip = 0x400bfb := hs.rip
  simp [tail, hrip, hrbx, hrcx, hrdi, hs.rdx, BitVec.setWidth_add, BitVec.ofNat_add_ofNat, hg]
  refine hs.next rfl (by simp +contextual [scratch]) rfl rfl (fun _ _ => rfl) (by simp [hs.rsi]) ?_
  by_cases h : j + 8 < N
  · simp [h, Nat.add_assoc]
  · simp [h]

end Tail

/-! #### The next round -/

theorem next_done (hs₁ : Ready N s₁) (hs : Loop s₁ 0x400c08 i sum s) (hN : i + 1 = N) :
    ∃ s', runLines next s = some s' ∧ Loop s₁ 0x400c40 (i + 1) sum s' := by
  have hrbx := hs₁.rbx
  rw [← hs.reg _ (by decide), ← hN] at hrbx
  simp [next, hs.rip, hrbx, hs.rsi, BitVec.ofNat_add_ofNat]
  exact hs.next rfl (by simp +contextual [scratch]) rfl rfl (fun _ _ => rfl) (by simp)
    (by simp [hs.rdx])

theorem next_more (hs₁ : Ready N s₁) (hs : Loop s₁ 0x400c08 i sum s) (hN : i + 1 < N) :
    ∃ s', runLines next s = some s' ∧ Loop s₁ 0x400c0f (i + 1) sum s' := by
  have hlt := hs₁.lt
  have hrbx := hs₁.rbx
  rw [← hs.reg _ (by decide)] at hrbx
  have he : ¬BitVec.ofNat 32 (i + 1) = BitVec.ofNat 32 N :=
    (word_inj (by omega) hlt).not.mpr (by omega)
  simp [next, hs.rip, hrbx, hs.rsi, BitVec.ofNat_add_ofNat, he]
  exact hs.next rfl (by simp +contextual [scratch]) rfl rfl (fun _ _ => rfl) (by simp)
    (by simp [hs.rdx])

end Loops

/-! ### A round adds the numbers up -/

/-- What one of the four sums has come to: every fourth number, from `l` on. -/
def strided (l k : ℕ) : ℕ := ∑ t ∈ Finset.range k, (4 * t + l)

theorem strided_succ (l k : ℕ) : strided l (k + 1) = strided l k + (4 * k + l) :=
  Finset.sum_range_succ _ _

/-- **The four sums together.** -/
theorem strided_add (k : ℕ) :
    strided 0 k + strided 2 k + (strided 1 k + strided 3 k) = triangle (4 * k) := by
  induction k with
  | zero => rfl
  | succ k ih =>
    rw [Nat.mul_succ, triangle_succ, triangle_succ, triangle_succ, triangle_succ, ← ih]
    simp only [strided_succ]
    omega

section Rounds

variable {ε : Type*} {outside : X86.State × ε → X86.State × ε → Prop} {e : ε} {N i j k sum : ℕ}
  {s s₁ : X86.State}

/-- **The loop over four numbers at once**, before its round `k`. -/
structure Four (s₁ : X86.State) (i sum k : ℕ) (s : X86.State) : Prop where
  loop : Loop s₁ 0x400c1e i sum s
  rcx : (s.reg .rcx).setWidth 32 = BitVec.ofNat 32 k
  xmm0 : s.xmm 0 = ofLanes (BitVec.ofNat 32 (strided 0 k)) (BitVec.ofNat 32 (strided 1 k))
    (BitVec.ofNat 32 (strided 2 k)) (BitVec.ofNat 32 (strided 3 k))
  xmm1 : s.xmm 1 = ofLanes (BitVec.ofNat 32 (4 * k)) (BitVec.ofNat 32 (4 * k + 1))
    (BitVec.ofNat 32 (4 * k + 2)) (BitVec.ofNat 32 (4 * k + 3))

theorem Four.succ (hs₁ : Ready N s₁) (hs : Four s₁ i sum k s) (hk : k + 1 < N / 4) :
    Leads code outside e (Four s₁ i sum (k + 1)) s := by
  obtain ⟨s', hrun, hloop, hrcx, hxmm0, hxmm1⟩ := four_more hs₁ hs.loop hs.rcx hs.xmm0 hs.xmm1 hk
  refine leads_of_runLines nodup_addr (by decide) ⟨s', hrun, hloop, hrcx, ?_, ?_⟩
  · rw [hxmm0]
    simp only [BitVec.ofNat_add_ofNat, strided_succ]
    rfl
  · rw [hxmm1]
    simp only [BitVec.ofNat_add_ofNat, BitVec.ofNat_eq_ofNat, Nat.mul_succ, Nat.add_right_comm _ 4]

/-- **All the numbers below the last multiple of four.** -/
theorem Four.last (hs₁ : Ready N s₁) (hs : Four s₁ i sum 0 s) (hN : 4 ≤ N) :
    Leads code outside e (fun s => Loop s₁ 0x400b90 i sum s ∧
      s.xmm 0 = ofLanes (BitVec.ofNat 32 (strided 0 (N / 4))) (BitVec.ofNat 32 (strided 1 (N / 4)))
        (BitVec.ofNat 32 (strided 2 (N / 4))) (BitVec.ofNat 32 (strided 3 (N / 4)))) s := by
  have hloop : Leads code outside e (fun s => ∃ k, k + 0 + 1 = N / 4 ∧ Four s₁ i sum k s) s := by
    refine Leads.loop (I := fun m s => ∃ k, k + m + 1 = N / 4 ∧ Four s₁ i sum k s) (n := N / 4 - 1)
      ?_ ⟨0, by omega, hs⟩
    rintro m s ⟨k, hk, hs⟩
    exact (hs.succ hs₁ (by omega)).trans fun s' hs' =>
      .here ⟨⟨k + 1, by omega, hs'⟩, rfl⟩
  refine hloop.trans ?_
  rintro s ⟨k, hk, hs⟩
  obtain ⟨s', hrun, hloop, hxmm0⟩ := four_last hs₁ hs.loop hs.rcx hs.xmm0 hs.xmm1 hk
  refine leads_of_runLines nodup_addr (by decide) ⟨s', hrun, hloop, ?_⟩
  rw [hxmm0, ← hk]
  simp only [BitVec.ofNat_add_ofNat, Nat.add_zero, strided_succ]

/-- The pieces that are alike, from number `k` on. -/
theorem pieces (hs₁ : Ready N s₁) (hs : Loop s₁ (unrolled k) i (sum + triangle (j + (k + 1))) s)
    (hrcx : (s.reg .rcx).setWidth 32 = BitVec.ofNat 32 j)
    (hrdi : (s.reg .rdi).setWidth 32 = BitVec.ofNat 32 (j + (k + 1))) (hk : k ≤ 6)
    (hN : j + (k + 1) < N) (hle : N ≤ j + 9) :
    Leads code outside e (Loop s₁ 0x400c08 i (sum + triangle N)) s := by
  -- by the number of pieces that are left
  obtain ⟨m, hm⟩ := Nat.exists_eq_add_of_le hk
  induction m generalizing k s with
  | zero =>
    obtain rfl : k = 6 := by omega
    obtain ⟨s', hrun, hloop⟩ := tail_last hs₁ hs hrcx hrdi hN
    refine leads_of_runLines nodup_addr (by decide) ⟨s', hrun, ?_⟩
    split_ifs at hloop with h
    · obtain rfl : N = j + 9 := by omega
      simpa only [Nat.add_assoc, ← triangle_succ] using hloop
    · obtain rfl : N = j + 8 := by omega
      simpa only [Nat.add_zero, Nat.add_assoc, ← triangle_succ] using hloop
  | succ m ih =>
    have hsub := piece_subset k (by omega)
    rcases (show j + (k + 2) ≤ N by omega).eq_or_lt with hN' | hN'
    · obtain ⟨s', hrun, hloop⟩ := piece_last hs₁ hs hrcx hrdi hN'
      refine leads_of_runLines nodup_addr hsub ⟨s', hrun, ?_⟩
      rw [← hN']
      simpa only [Nat.add_assoc, ← triangle_succ] using hloop
    · obtain ⟨s', hrun, hloop, hrcx, hrdi⟩ := piece_more hs₁ hs hrcx hrdi hN'
      refine (leads_of_runLines (P := (· = s')) nodup_addr hsub ⟨s', hrun, rfl⟩).trans ?_
      rintro _ rfl
      rw [Nat.add_assoc, ← triangle_succ] at hloop
      exact ih hloop hrcx hrdi (by omega) hN' (by omega)

/-- **The rest of a round**, of at most nine numbers. -/
theorem leads_tail (hs₁ : Ready N s₁) (hs : Loop s₁ 0x400bbc i (sum + triangle j) s)
    (hrcx : (s.reg .rcx).setWidth 32 = BitVec.ofNat 32 j) (hN : j < N) (hle : N ≤ j + 9) :
    Leads code outside e (Loop s₁ 0x400c08 i (sum + triangle N)) s := by
  rcases (show j + 1 ≤ N from hN).eq_or_lt with hN' | hN'
  · obtain ⟨s', hrun, hloop⟩ := tail_first_last hs₁ hs hrcx hN'
    refine leads_of_runLines nodup_addr (by decide) ⟨s', hrun, ?_⟩
    rwa [Nat.add_assoc, ← triangle_succ, hN'] at hloop
  · obtain ⟨s', hrun, hloop, hrcx, hrdi⟩ := tail_first_more hs₁ hs hrcx hN'
    refine (leads_of_runLines (P := (· = s')) nodup_addr (by decide) ⟨s', hrun, rfl⟩).trans ?_
    rintro _ rfl
    rw [Nat.add_assoc, ← triangle_succ] at hloop
    exact pieces hs₁ hloop hrcx hrdi (by omega) hN' hle

/-- **A round** adds all the numbers below `N` up. -/
theorem leads_round (hs₁ : Ready N s₁) (hs : Loop s₁ 0x400c0f i sum s) :
    Leads code outside e (Loop s₁ 0x400c08 i (sum + triangle N)) s := by
  by_cases hN : N < 10
  · obtain ⟨s', hrun, hloop, hrcx⟩ := round_small hs₁ hs hN
    refine (leads_of_runLines (P := (· = s')) nodup_addr (by decide) ⟨s', hrun, rfl⟩).trans ?_
    rintro _ rfl
    exact leads_tail (j := 0) hs₁ hloop hrcx hs₁.pos (by omega)
  · obtain ⟨s', hrun, hloop, hrcx, hxmm0, hxmm1⟩ := round_large hs₁ hs hN
    refine (leads_of_runLines (P := (· = s')) nodup_addr (by decide) ⟨s', hrun, rfl⟩).trans ?_
    rintro _ rfl
    refine (Four.last hs₁ ⟨hloop, hrcx, hxmm0, hxmm1⟩ (by omega)).trans ?_
    rintro s ⟨hs, hxmm0⟩
    by_cases hdone : 4 * (N / 4) = N
    · obtain ⟨s', hrun, hloop⟩ := reduce_done hs₁ hs hxmm0 hdone
      refine leads_of_runLines nodup_addr (by decide) ⟨s', hrun, ?_⟩
      rwa [strided_add, hdone] at hloop
    · obtain ⟨s', hrun, hloop, hrcx⟩ := reduce_rest hs₁ hs hxmm0 hdone
      refine (leads_of_runLines (P := (· = s')) nodup_addr (by decide) ⟨s', hrun, rfl⟩).trans ?_
      rintro _ rfl
      rw [strided_add] at hloop
      exact leads_tail hs₁ hloop hrcx (by omega) (by omega)

/-- **All rounds.** -/
theorem leads_rounds (hs₁ : Ready N s₁) (hs : Loop s₁ 0x400c0f 0 0 s) :
    Leads code outside e (Loop s₁ 0x400c40 N (N * triangle N)) s := by
  have hloop : Leads code outside e
      (fun s => ∃ i, i + 0 + 1 = N ∧ Loop s₁ 0x400c0f i (i * triangle N) s) s := by
    have hpos := hs₁.pos
    refine Leads.loop (I := fun m s => ∃ i, i + m + 1 = N ∧ Loop s₁ 0x400c0f i (i * triangle N) s)
      (n := N - 1) ?_ ⟨0, by omega, by simpa using hs⟩
    rintro m s ⟨i, hi, hs⟩
    refine (leads_round hs₁ hs).trans fun s' hs' => ?_
    obtain ⟨s'', hrun, hloop⟩ := next_more hs₁ hs' (by omega)
    refine leads_of_runLines nodup_addr (by decide) ⟨s'', hrun, i + 1, by omega, ?_⟩
    rwa [Nat.succ_mul]
  refine hloop.trans ?_
  rintro s ⟨i, hi, hs⟩
  refine (leads_round hs₁ hs).trans fun s' hs' => ?_
  obtain ⟨s'', hrun, hloop⟩ := next_done hs₁ hs' hi
  refine leads_of_runLines nodup_addr (by decide) ⟨s'', hrun, ?_⟩
  rwa [← Nat.succ_mul, Nat.succ_eq_add_one, show i + 1 = N from hi] at hloop

end Rounds

/-! ### From the entry to the return -/

section Calls

open Address

variable {new : OperatorNew 0x400920} {test_run : Int32} {s s' s₀ : X86.State} {p : Address}

/-- `operator new` is called. -/
theorem call_new (h : Entry new 0x400b30 32 test_run s) :
    ∃ s', runLines prologue s = some s' ∧ s'.rip = 0x400920 ∧ s'.top = 0x400b41 ∧
      s'.reg .rdi = 4 ∧ (s'.reg .rbx).setWidth 32 = test_run.toBitVec ∧
      s'.reg .rsp = s.reg .rsp - 32 ∧ (∀ r ∈ calleeSaved, r ≠ .rbx → s'.reg r = s.reg r) ∧
      s'.mem.load (s.reg .rsp - 8) 64 = s.reg .rbx ∧
      ∀ x, ¬Within x (s.reg .rsp - 32) 32 → s'.mem x = s.mem x := by
  simp [prologue, h.rip, h.argument, ByteMemory.load_store_self, BitVec.sub_sub]
  refine ⟨by simp +contextual [calleeSaved], ?_, fun x hx => ?_⟩
  · simp (disch := decide) only [ByteMemory.load_store_sub, ByteMemory.load_store_self]
  · simp (disch := decide) only [ByteMemory.store_sub hx]

/-- **Inside the benchmark**, which was entered in `s₀`: what it has to give back is on the stack or
still in its registers, and the block at `p` belongs to `operator new`. -/
structure Frame (new : OperatorNew 0x400920) (s₀ : X86.State) (p : Address) (s : X86.State) :
    Prop where
  rax : s.reg .rax = p
  rsp : s.reg .rsp = s₀.reg .rsp - 24
  saved : ∀ r ∈ calleeSaved, r ≠ .rbx → s.reg r = s₀.reg r
  rbx : s.mem.load (s₀.reg .rsp - 8) 64 = s₀.reg .rbx
  mem : ∀ x, ¬new.Writes 32 s₀ x → s.mem x = s₀.mem x

/-- The object is written to. -/
theorem Frame.store (h : Entry new 0x400b30 32 test_run s₀) (hs : Frame new s₀ p s)
    (hp : ∀ x, Within x p 4 → new.owns x) (v : BitVec 32) :
    Frame new s₀ p { s with mem := s.mem.store p v } where
  __ := hs
  rbx := (h.load_store hp (by decide) (by decide) _ v).trans hs.rbx
  mem x hx := by
    rw [← hs.mem x hx]
    exact ByteMemory.store_of_not_within (k := 4) (by decide)
      (fun hx' => hx (.inl (hp x hx'))) v

/-- **The stack and the memory after `operator new`.** -/
theorem returned_new (h : Entry new 0x400b30 32 test_run s₀) {block : Block} {s₁ : X86.State}
    (hrsp : s₁.reg .rsp = s₀.reg .rsp - 32)
    (hsaved : ∀ r ∈ calleeSaved, r ≠ .rbx → s₁.reg r = s₀.reg r)
    (hslot : s₁.mem.load (s₀.reg .rsp - 8) 64 = s₀.reg .rbx)
    (hmem : ∀ x, ¬Within x (s₀.reg .rsp - 32) 32 → s₁.mem x = s₀.mem x)
    (hs : Allocated new.owns new.depth s₁ s block) : Frame new s₀ block.addr s where
  rax := hs.addr.symm
  rsp := by
    rw [hs.returned.rsp, hrsp]
    bv_omega
  saved r hr hne := (hs.returned.saved r hr).trans (hsaved r hr hne)
  rbx := by
    rw [← hslot]
    refine ByteMemory.load_congr (n := 8) (by decide) fun x hx =>
      h.stack_of_allocated (by decide) hrsp hs ?_
    unfold Within at *
    bv_omega
  mem _ hx := mem_of_allocated (by decide) hrsp hmem hs hx

/-- The constructor, and no round. -/
theorem construct_done (h : Entry new 0x400b30 32 test_run s₀) (hs : Frame new s₀ p s)
    (hp : ∀ x, Within x p 4 → new.owns x) (hrip : s.rip = 0x400b41)
    (hrbx : (s.reg .rbx).setWidth 32 = test_run.toBitVec)
    (hle : test_run.toBitVec.sle 0#32 = true) :
    ∃ s', runLines construct s = some s' ∧ s'.rip = 0x400c42 ∧ s'.mem.load p 32 = 0 ∧
      Frame new s₀ p s' := by
  simp [construct, hrip, hrbx, hs.rax, hle, ByteMemory.load_store_self]
  exact { hs.store h hp 0 with }

/-- The constructor, and some rounds. -/
theorem construct_more (h : Entry new 0x400b30 32 test_run s₀) (hs : Frame new s₀ p s)
    (hp : ∀ x, Within x p 4 → new.owns x) (hrip : s.rip = 0x400b41)
    (hrbx : (s.reg .rbx).setWidth 32 = test_run.toBitVec)
    (hle : test_run.toBitVec.sle 0#32 = false) :
    ∃ s', runLines construct s = some s' ∧ s'.rip = 0x400b4f ∧
      (s'.reg .rbx).setWidth 32 = test_run.toBitVec ∧ Frame new s₀ p s' := by
  simp [construct, hrip, hrbx, hs.rax, hle]
  exact { hs.store h hp 0 with }

theorem setup_ready {N : ℕ} (hs : Frame new s₀ p s) (hc : Constants new s₀)
    (hrip : s.rip = 0x400b4f) (hrbx : (s.reg .rbx).setWidth 32 = BitVec.ofNat 32 N) (hpos : 0 < N)
    (hlt : N < 2 ^ 31) :
    ∃ s', runLines setup s = some s' ∧ Ready N s' ∧ Loop s' 0x400c0f 0 0 s' ∧
      Frame new s₀ p s' := by
  have hnumbers : s.mem.load 0x400cf0#64 128 = ofLanes 0 1 2 3 :=
    hc.numbers ▸ ByteMemory.load_congr (n := 16) (by decide) fun x hx =>
      hs.mem x (hc.apart x (by unfold Within at *; bv_omega))
  have hfours : s.mem.load 0x400d00#64 128 = ofLanes 4 4 4 4 :=
    hc.fours ▸ ByteMemory.load_congr (n := 16) (by decide) fun x hx =>
      hs.mem x (hc.apart x (by unfold Within at *; bv_omega))
  have hquarter : BitVec.setWidth 64 (BitVec.ofNat 32 N) >>> 2 = BitVec.ofNat 64 (N / 4) := by
    simp [BitVec.toNat_eq, Nat.shiftRight_eq_div_pow]
    omega
  have hfour :
      BitVec.setWidth 32 (BitVec.ofNat 64 (N / 4) * 4#64) = BitVec.ofNat 32 (4 * (N / 4)) := by
    simp [BitVec.toNat_eq]
    omega
  have hzero : BitVec.ofNat 32 (4 * (N / 4)) = 0#32 ↔ N < 4 := by
    rw [word_inj (by omega) (by omega)]
    omega
  have hnine : (BitVec.ofNat 32 N).ule 9#32 = decide (N ≤ 9) := word_ule hlt (by omega)
  simp [setup, hrip, hrbx, hnumbers, hfours, hquarter, hfour, hzero, hnine]
  refine ⟨⟨hpos, hlt, ?_, ?_, ?_, ?_, rfl, rfl⟩,
    ⟨rfl, fun _ _ => rfl, rfl, rfl, fun _ _ => rfl, rfl, rfl⟩, ?_⟩
  · simp [hrbx]
  · simp
  · simp
  · simp
    split_ifs <;> first | rfl | omega
  · exact { hs with rax := by simp [hs.rax]
                    rsp := by simp [hs.rsp]
                    saved := by simpa +contextual [calleeSaved] using hs.saved }

/-- The loops keep to their word of the stack. -/
theorem Loop.frame {s₁ : X86.State} {rip : Address} {i sum : ℕ} (hs₁ : Frame new s₀ p s₁)
    (hs : Loop s₁ rip i sum s) : Frame new s₀ p s where
  rax := (hs.reg _ (by decide)).trans hs₁.rax
  rsp := (hs.reg _ (by decide)).trans hs₁.rsp
  saved r hr hne := by
    refine (hs.reg r ?_).trans (hs₁.saved r hr hne)
    revert r
    decide
  rbx := by
    rw [← hs₁.rbx]
    refine ByteMemory.load_congr (n := 8) (by decide) fun x hx => hs.mem x ?_
    rw [hs₁.rsp]
    unfold Within at *
    bv_omega
  mem x hx := by
    rw [hs.mem x, hs₁.mem x hx]
    intro hx'
    have hdepth := new.depth_le
    refine hx (.inr ?_)
    rw [hs₁.rsp] at hx'
    unfold Within at *
    bv_omega

/-- The counter is stored. -/
theorem store_counter (h : Entry new 0x400b30 32 test_run s₀) (hs : Frame new s₀ p s)
    (hp : ∀ x, Within x p 4 → new.owns x) {v : BitVec 32} (hrip : s.rip = 0x400c40)
    (hrdx : (s.reg .rdx).setWidth 32 = v) :
    ∃ s', runLines (epilogue.take 1) s = some s' ∧ s'.rip = 0x400c42 ∧ s'.mem.load p 32 = v ∧
      Frame new s₀ p s' := by
  simp [epilogue, hrip, hrdx, hs.rax, ByteMemory.load_store_self]
  exact { hs.store h hp v with }

/-- The return. -/
theorem return_main (h : Entry new 0x400b30 32 test_run s₀) (hs : Frame new s₀ p s)
    (hrip : s.rip = 0x400c42) :
    ∃ s', runLines (epilogue.drop 1) s = some s' ∧ Returned (new.Writes 32 s₀) s₀ s' ∧
      s'.mem = s.mem := by
  have htop := h.top_eq (by decide) hs.mem
  have hrsp : s.reg .rsp = s₀.reg .rsp - 24#64 := hs.rsp
  have hrbx : s.mem.load (s₀.reg .rsp - 8#64) 64 = s₀.reg .rbx := hs.rbx
  simp [epilogue, hrip, hrsp, hrbx, htop, ByteMemory.sub_add]
  refine ⟨rfl, by simp, ?_, hs.mem⟩
  intro r hr
  by_cases hne : r = .rbx
  · simp [hne]
  · have hrsp : r ≠ .rsp := by
      rintro rfl
      revert hr
      decide
    simp [hne, hrsp, hs.saved r hr]

end Calls

/-- What is known of the block and of the counter makes the two programs agree. -/
theorem agrees_of_returned {new : OperatorNew 0x400920} {test_run : Int32} {s₀ s' : X86.State}
    {blocks : List Block} {block : Block} (hs' : Returned (new.Writes 32 s₀) s₀ s')
    (hsize : block.size = 4) (hload : s'.mem.load block.addr 32 =
      BitVec.ofNat 32 (bound test_run * triangle (bound test_run))) :
    Agrees new 32 4 0 (test_crtp test_run) (fun pObj => pObj.impl.m_counter) s₀ blocks
      (s', blocks ++ [block]) where
  returned := hs'
  complete := by
    obtain ⟨tr, s, hsteps, hd⟩ := finishes (.start rfl)
    exact ⟨tr, s, TransitionSystem.Run.append (.start rfl) hsteps, hd⟩
  block := by
    refine ⟨block, rfl, hsize, fun tr s hrun hd => ?_⟩
    rw [BitVec.ofNat_eq_ofNat, BitVec.add_zero, hload]
    exact (toBitVec_counter_of_done (fun pObj : CRTPBase CRTPDerived => pObj.impl.m_counter) rfl
      (fun _ _ => rfl) hrun hd).symm

/-- **The listing of `test_crtp` does what the source does**, whatever the number of iterations. -/
theorem test_crtp_agrees (new : OperatorNew 0x400920) (test_run : Int32) (s₀ : X86.State)
    (blocks : List Block) (h : Entry new 0x400b30 32 test_run s₀) (hc : Constants new s₀) :
    Eventually (X86.Step code new.call)
      (Agrees new 32 4 0 (test_crtp test_run) (fun pObj => pObj.impl.m_counter) s₀ blocks)
      (s₀, blocks) := by
  obtain ⟨s₁, hrun, hrip, htop, hrdi, hrbx, hrsp, hsaved, hslot, hmem⟩ := call_new h
  refine eventually_of_runLines nodup_addr (by decide) ⟨s₁, hrun, ?_⟩
  refine eventually_of_outside (hrip ▸ by decide) (new.returns s₁ blocks hrip (hrdi ▸ by decide))
    fun s₂ blocks' hcall => ?_
  obtain ⟨block, rfl, hnew⟩ := new.allocated hcall
  have hsize : block.size = 4 := by
    rw [hnew.size, hrdi]
    rfl
  have hp : ∀ x, Address.Within x block.addr 4 → new.owns x := hsize ▸ hnew.owned
  have hs₂ := returned_new h hrsp hsaved hslot hmem hnew
  have hrip₂ : s₂.rip = 0x400b41 := hnew.returned.rip.trans htop
  have hrbx₂ : (s₂.reg .rbx).setWidth 32 = test_run.toBitVec := by
    rw [hnew.returned.saved _ (by decide), hrbx]
  rcases hle : test_run.toBitVec.sle 0#32 with _ | _
  · -- some rounds
    obtain ⟨s₃, hrun, hrip₃, hrbx₃, hs₃⟩ := construct_more h hs₂ hp hrip₂ hrbx₂ hle
    refine eventually_of_runLines nodup_addr (by decide) ⟨s₃, hrun, ?_⟩
    obtain ⟨hpos, hword⟩ := bound_of_not_sle hle
    obtain ⟨s₄, hrun, hready, hloop, hs₄⟩ :=
      setup_ready hs₃ hc hrip₃ (hrbx₃.trans hword) hpos (bound_lt test_run)
    refine eventually_of_runLines nodup_addr (by decide) ⟨s₄, hrun, ?_⟩
    refine (leads_rounds hready hloop).eventually fun s₅ hs₅ => ?_
    obtain ⟨s₆, hrun, hrip₆, hload, hs₆⟩ := store_counter h (hs₅.frame hs₄) hp hs₅.rip hs₅.rdx
    refine eventually_of_runLines nodup_addr (by decide) ⟨s₆, hrun, ?_⟩
    obtain ⟨s₇, hrun, hs₇, hmem₇⟩ := return_main h hs₆ hrip₆
    refine eventually_of_runLines nodup_addr (by decide) ⟨s₇, hrun, .here ?_⟩
    exact agrees_of_returned hs₇ hsize (hmem₇ ▸ hload)
  · -- no rounds
    obtain ⟨s₃, hrun, hrip₃, hload, hs₃⟩ := construct_done h hs₂ hp hrip₂ hrbx₂ hle
    refine eventually_of_runLines nodup_addr (by decide) ⟨s₃, hrun, ?_⟩
    obtain ⟨s₄, hrun, hs₄, hmem₄⟩ := return_main h hs₃ hrip₃
    refine eventually_of_runLines nodup_addr (by decide) ⟨s₄, hrun, .here ?_⟩
    refine agrees_of_returned hs₄ hsize ?_
    rw [hmem₄, hload, bound_of_sle hle, Nat.zero_mul]
    rfl

/-- A state in which the benchmark is entered with three iterations. -/
def enterThree : X86.State where
  rip := 0x400b30
  reg := Function.update (Function.update (fun _ => 0) .rsp 0x7fff0000) .rdi 3
  xmm _ := 0
  flags := none
  mem := ByteMemory.store (ByteMemory.store (fun _ => 0) 0x400cf0 (ofLanes 0 1 2 3)) 0x400d00
    (ofLanes 4 4 4 4)

theorem test_crtp_agrees_three :
    Eventually (X86.Step code (OperatorNew.single 0x400920).call)
      (Agrees (.single 0x400920) 32 4 0 (test_crtp 3) (fun pObj => pObj.impl.m_counter)
        enterThree []) (enterThree, []) := by
  have hrsp : enterThree.reg .rsp = 0x7fff0000 := rfl
  refine test_crtp_agrees _ 3 _ [] ⟨rfl, rfl, ?_⟩ ⟨?_, ?_, ?_⟩
  · intro x hx howns
    rw [hrsp] at hx
    simp only [OperatorNew.single, Address.Within] at hx howns
    bv_omega
  · have hapart : Address.Apart 0x400cf0 16 0x400d00 16 := by
      intro x hx hx'
      unfold Address.Within at *
      bv_omega
    exact (ByteMemory.load_store_of_apart (by decide) (by decide) hapart _).trans
      (ByteMemory.load_store_self _ (by decide))
  · exact ByteMemory.load_store_self _ (by decide)
  · rintro x hx (howns | hbelow)
    · simp only [OperatorNew.single, Address.Within] at hx howns
      bv_omega
    · simp only [hrsp, OperatorNew.single, Address.Within] at hx hbelow
      bv_omega

end CompiledCRTP

end Dispatch

end LowLatency
