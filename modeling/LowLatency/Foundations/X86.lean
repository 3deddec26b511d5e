import LowLatency.Foundations.ByteMemory
import LowLatency.Foundations.Eventually
import Mathlib.Logic.Function.Basic

/-!
# Machine code

A part of the instructions of x86-64, as a disassembler prints them: sources stand before
destinations, and a suffix says how many bits take part. A program is a list of lines with their
addresses; memory holds its data only. Of the flags, those four are kept that conditions look at,
and they may be undefined. What the program calls but does not contain is a relation, which comes
with a state of its own.

* `X86.Cond.holds_sub_le` and its companions say what a comparison has compared;
* `X86.eventually_of_runLines` follows a piece of straight code to its end, or to the first jump
  that is taken;
* `X86.eventually_of_outside` hands over to the code from outside.
-/

namespace X86

/-! ### Registers and flags -/

/-- The registers of 64 bits. -/
inductive Reg
  | rax | rcx | rdx | rbx | rsp | rbp | rsi | rdi | r8 | r9 | r10 | r11 | r12 | r13 | r14 | r15
  deriving DecidableEq

/-- The flags: carry, zero, sign and overflow. -/
structure Flags where
  cf : Bool
  zf : Bool
  sf : Bool
  of : Bool

/-- The flags of `a - b`. -/
def Flags.sub {w : ℕ} (a b : BitVec w) : Flags where
  cf := a.usubOverflow b
  zf := a - b == 0
  sf := (a - b).msb
  of := a.ssubOverflow b

/-- The flags of `a + b`. -/
def Flags.add {w : ℕ} (a b : BitVec w) : Flags where
  cf := a.uaddOverflow b
  zf := a + b == 0
  sf := (a + b).msb
  of := a.saddOverflow b

/-- The flags of a bitwise operation with the result `a`. -/
def Flags.logic {w : ℕ} (a : BitVec w) : Flags where
  cf := false
  zf := a == 0
  sf := a.msb
  of := false

/-- The conditions. -/
inductive Cond
  | e | ne | le | g | be
  deriving DecidableEq

/-- The condition as one of the flags. -/
def Cond.holds : Cond → Flags → Bool
  | e, f => f.zf
  | ne, f => !f.zf
  | le, f => f.zf || f.sf != f.of
  | g, f => !f.zf && f.sf == f.of
  | be, f => f.cf || f.zf

namespace Cond

variable {w : ℕ} {a b : BitVec w}

@[simp]
theorem holds_sub_e : e.holds (.sub a b) = (a == b) := by
  simp [holds, Flags.sub, Bool.beq_eq_decide_eq, BitVec.sub_eq_iff_eq_add]

@[simp]
theorem holds_sub_ne : ne.holds (.sub a b) = (a != b) :=
  congrArg Bool.not holds_sub_e

/-- The sign differs from the overflow exactly if the difference is negative. -/
theorem sf_bne_of_sub : ((Flags.sub a b).sf != (Flags.sub a b).of) = a.slt b := by
  rw [Flags.sub, BitVec.slt_eq_decide]
  rcases hof : a.ssubOverflow b with _ | _
  · have hexact := BitVec.toInt_sub_of_not_ssubOverflow (Bool.not_eq_true _ ▸ hof)
    rw [BitVec.msb_eq_toInt, hexact, Bool.bne_false, decide_eq_decide, Int.sub_lt_iff, Int.zero_add]
  · -- the operands have different signs, and the difference has that of `b`
    rw [BitVec.ssubOverflow_eq, BitVec.msb_eq_toInt, BitVec.msb_eq_toInt] at hof
    rcases hmsb : (a - b).msb with _ | _
    · simp [hmsb] at hof ⊢
      omega
    · simp [hmsb] at hof ⊢
      omega

@[simp]
theorem holds_sub_le : le.holds (.sub a b) = a.sle b := by
  rw [holds, sf_bne_of_sub, BitVec.sle_eq_slt_or_eq, Bool.or_comm]
  exact congrArg (a.slt b || ·) holds_sub_e

@[simp]
theorem holds_sub_g : g.holds (.sub a b) = b.slt a := by
  have hle := congrArg Bool.not (holds_sub_le (a := a) (b := b))
  rw [holds, Bool.not_or, bne, Bool.not_not] at hle
  rw [holds, hle, BitVec.sle_eq_not_slt, Bool.not_not]

@[simp]
theorem holds_sub_be : be.holds (.sub a b) = a.ule b := by
  have he : (Flags.sub a b).zf = (a == b) := holds_sub_e
  rw [holds, he]
  simp only [Flags.sub, BitVec.usubOverflow, BitVec.ule_eq_decide, Bool.beq_eq_decide_eq,
    ← Bool.decide_or, BitVec.toNat_eq, Nat.le_iff_lt_or_eq]

@[simp]
theorem holds_logic_e : e.holds (.logic a) = (a == 0) := rfl

@[simp]
theorem holds_logic_ne : ne.holds (.logic a) = (a != 0) := rfl

@[simp]
theorem holds_logic_le : le.holds (.logic a) = a.sle 0 := by
  rw [BitVec.sle_eq_slt_or_eq, BitVec.ofNat_eq_ofNat, BitVec.slt_zero_eq_msb, Bool.or_comm]
  exact congrArg (_ || ·) (Bool.bne_false _)

end Cond

/-! ### Vectors -/

/-- Four words of 32 bits, the lowest first. -/
def ofLanes (a b c d : BitVec 32) : BitVec 128 :=
  (d ++ (c ++ (b ++ a)) : BitVec (32 + (32 + (32 + 32))))

/-- The word number `i`. -/
def lane (v : BitVec 128) (i : ℕ) : BitVec 32 := v.extractLsb' (32 * i) 32

/-- The sums of the words. -/
def addLanes (v v' : BitVec 128) : BitVec 128 :=
  ofLanes (lane v 0 + lane v' 0) (lane v 1 + lane v' 1) (lane v 2 + lane v' 2)
    (lane v 3 + lane v' 3)

section Lanes

variable {a b c d a' b' c' d' : BitVec 32}

/-- The bits of the four words. -/
theorem getLsbD_ofLanes (i : ℕ) : (ofLanes a b c d).getLsbD i =
    if i < 32 then a.getLsbD i else if i < 64 then b.getLsbD (i - 32)
    else if i < 96 then c.getLsbD (i - 64) else d.getLsbD (i - 96) := by
  simp only [ofLanes, BitVec.getLsbD_append]
  split_ifs <;> first | rfl | omega

theorem getLsbD_lane {i : ℕ} (v : BitVec 128) (k : ℕ) (hi : i < 32) :
    (lane v k).getLsbD i = v.getLsbD (32 * k + i) := by
  rw [lane, BitVec.getLsbD_extractLsb', decide_eq_true hi, Bool.true_and]

@[simp]
theorem lane_ofLanes_zero : lane (ofLanes a b c d) 0 = a := by
  refine BitVec.eq_of_getLsbD_eq fun i hi => ?_
  rw [getLsbD_lane _ _ hi, getLsbD_ofLanes, if_pos (by omega), Nat.mul_zero, Nat.zero_add]

@[simp]
theorem lane_ofLanes_one : lane (ofLanes a b c d) 1 = b := by
  refine BitVec.eq_of_getLsbD_eq fun i hi => ?_
  rw [getLsbD_lane _ _ hi, getLsbD_ofLanes, if_neg (by omega), if_pos (by omega),
    Nat.add_sub_cancel_left]

@[simp]
theorem lane_ofLanes_two : lane (ofLanes a b c d) 2 = c := by
  refine BitVec.eq_of_getLsbD_eq fun i hi => ?_
  rw [getLsbD_lane _ _ hi, getLsbD_ofLanes, if_neg (by omega), if_neg (by omega),
    if_pos (by omega), Nat.add_sub_cancel_left]

@[simp]
theorem lane_ofLanes_three : lane (ofLanes a b c d) 3 = d := by
  refine BitVec.eq_of_getLsbD_eq fun i hi => ?_
  rw [getLsbD_lane _ _ hi, getLsbD_ofLanes, if_neg (by omega), if_neg (by omega),
    if_neg (by omega), Nat.add_sub_cancel_left]

@[simp]
theorem addLanes_ofLanes : addLanes (ofLanes a b c d) (ofLanes a' b' c' d') =
    ofLanes (a + a') (b + b') (c + c') (d + d') := by
  simp [addLanes]

@[simp]
theorem setWidth_ofLanes : (ofLanes a b c d).setWidth 32 = a := by
  refine BitVec.eq_of_getLsbD_eq fun i hi => ?_
  rw [BitVec.getLsbD_setWidth, getLsbD_ofLanes, if_pos hi, decide_eq_true hi, Bool.true_and]

@[simp]
theorem ofLanes_shiftRight_64 : ofLanes a b c d >>> 64 = ofLanes c d 0 0 := by
  refine BitVec.eq_of_getLsbD_eq fun i hi => ?_
  simp only [BitVec.getLsbD_ushiftRight, getLsbD_ofLanes, BitVec.ofNat_eq_ofNat,
    BitVec.getLsbD_zero]
  split_ifs <;> first
    | omega
    | (congr 1; omega)
    | exact BitVec.getLsbD_of_ge _ _ (by omega)

@[simp]
theorem ofLanes_shiftRight_32 : ofLanes a b c d >>> 32 = ofLanes b c d 0 := by
  refine BitVec.eq_of_getLsbD_eq fun i hi => ?_
  simp only [BitVec.getLsbD_ushiftRight, getLsbD_ofLanes, BitVec.ofNat_eq_ofNat,
    BitVec.getLsbD_zero]
  split_ifs <;> first
    | omega
    | (congr 1; omega)
    | exact BitVec.getLsbD_of_ge _ _ (by omega)

end Lanes

/-! ### Instructions -/

/-- The address of an operand in memory: `disp(base)`, `disp(base,index,scale)` or
`disp(,index,scale)`, or `disp(%rip)`. -/
inductive Mem
  | base (disp : BitVec 64) (base : Reg)
  | indexed (disp : BitVec 64) (base : Option Reg) (index : Reg) (scale : BitVec 64)
  | rip (disp : BitVec 64)
  deriving DecidableEq

/-- An operand: a constant, extended to 64 bits, a register or a place in memory. -/
inductive Operand
  | imm (v : BitVec 64)
  | reg (r : Reg)
  | mem (m : Mem)
  deriving DecidableEq

/-- The operations of two operands that set the flags. -/
inductive Alu
  | add | sub | cmp | or | xor | test
  deriving DecidableEq

/-- The instructions, their sources first. -/
inductive Instr
  | nop
  | push (r : Reg)
  | pop (r : Reg)
  | movl (src dst : Operand)
  | movq (src dst : Operand)
  | alul (op : Alu) (src dst : Operand)
  | aluq (op : Alu) (src dst : Operand)
  | testb (src dst : Reg)
  | shrl (count : ℕ) (dst : Reg)
  | leal (m : Mem) (dst : Reg)
  | set (c : Cond) (dst : Reg)
  | cmovl (c : Cond) (src dst : Reg)
  | jmp (target : Address)
  | jcc (c : Cond) (target : Address)
  | call (target : Address)
  | callMem (m : Mem)
  | ret
  | movdqa (src dst : Fin 16)
  | movdqaLoad (m : Mem) (dst : Fin 16)
  | paddd (src dst : Fin 16)
  | pxor (src dst : Fin 16)
  | psrldq (count : ℕ) (dst : Fin 16)
  | movd (src : Fin 16) (m : Mem)
  deriving DecidableEq

/-- **The state of a processor**. While an instruction is executed, `rip` is the address of the next
one. -/
structure State where
  rip : Address
  reg : Reg → BitVec 64
  xmm : Fin 16 → BitVec 128
  /-- Nothing is said about flags that the last instruction leaves undefined. -/
  flags : Option Flags
  mem : ByteMemory

namespace State

def setReg (s : State) (r : Reg) (v : BitVec 64) : State :=
  { s with reg := Function.update s.reg r v }

def setXmm (s : State) (x : Fin 16) (v : BitVec 128) : State :=
  { s with xmm := Function.update s.xmm x v }

/-- The address of an operand. -/
def address (s : State) : Mem → Address
  | .base disp base => s.reg base + disp
  | .indexed disp base index scale => base.elim 0 s.reg + s.reg index * scale + disp
  | .rip disp => s.rip + disp

/-- An operand of 32 bits. -/
def getl (s : State) : Operand → BitVec 32
  | .imm v => v.setWidth 32
  | .reg r => (s.reg r).setWidth 32
  | .mem m => s.mem.load (s.address m) 32

/-- An operand of 64 bits. -/
def getq (s : State) : Operand → BitVec 64
  | .imm v => v
  | .reg r => s.reg r
  | .mem m => s.mem.load (s.address m) 64

/-- The result of an instruction of 32 bits: a register loses its upper half. -/
def putl (s : State) (v : BitVec 32) : Operand → Option State
  | .imm _ => none
  | .reg r => some (s.setReg r (v.setWidth 64))
  | .mem m => some { s with mem := s.mem.store (s.address m) v }

/-- The result of an instruction of 64 bits. -/
def putq (s : State) (v : BitVec 64) : Operand → Option State
  | .imm _ => none
  | .reg r => some (s.setReg r v)
  | .mem m => some { s with mem := s.mem.store (s.address m) v }

/-- The lowest byte of a register is written, the others are kept. -/
def setByte (s : State) (r : Reg) (v : BitVec 8) : State :=
  s.setReg r ((s.reg r &&& ~~~0xff) ||| v.setWidth 64)

/-- A word goes to the stack. -/
def push (s : State) (v : BitVec 64) : State :=
  { s with
    reg := Function.update s.reg .rsp (s.reg .rsp - 8)
    mem := s.mem.store (s.reg .rsp - 8) v }

/-- The word on top of the stack is taken away. -/
def drop (s : State) : State :=
  s.setReg .rsp (s.reg .rsp + 8)

/-- The word on top of the stack. -/
def top (s : State) : BitVec 64 := s.mem.load (s.reg .rsp) 64

end State

/-- The result, unless the operation only compares, and the flags. -/
def Alu.eval {w : ℕ} (dst src : BitVec w) : Alu → Option (BitVec w) × Flags
  | add => (some (dst + src), .add dst src)
  | sub => (some (dst - src), .sub dst src)
  | cmp => (none, .sub dst src)
  | or => (some (dst ||| src), .logic (dst ||| src))
  | xor => (some (dst ^^^ src), .logic (dst ^^^ src))
  | test => (none, .logic (dst &&& src))

/-- **One instruction is executed.** There is no result where the processor would stop, or where the
result is not determined. -/
def Instr.exec (s : State) : Instr → Option State
  | nop => some s
  | push r => some (s.push (s.reg r))
  | pop r => some (s.drop.setReg r s.top)
  | movl src dst => s.putl (s.getl src) dst
  | movq src dst => s.putq (s.getq src) dst
  | alul op src dst =>
    let (result, flags) := op.eval (s.getl dst) (s.getl src)
    (result.elim (some s) (s.putl · dst)).map fun s => { s with flags := some flags }
  | aluq op src dst =>
    let (result, flags) := op.eval (s.getq dst) (s.getq src)
    (result.elim (some s) (s.putq · dst)).map fun s => { s with flags := some flags }
  | testb src dst =>
    let (_, flags) := Alu.test.eval ((s.reg dst).setWidth 8) ((s.reg src).setWidth 8)
    some { s with flags := some flags }
  | shrl count dst =>
    -- a shift by more than one bit leaves the overflow undefined
    (s.putl (s.getl (.reg dst) >>> (count % 32)) (.reg dst)).map fun s => { s with flags := none }
  | leal m dst => s.putl ((s.address m).setWidth 32) (.reg dst)
  | set c dst => s.flags.map fun f => s.setByte dst (if c.holds f then 1 else 0)
  | cmovl c src dst =>
    s.flags.bind fun f => s.putl (s.getl (.reg (if c.holds f then src else dst))) (.reg dst)
  | jmp target => some { s with rip := target }
  | jcc c target => s.flags.map fun f => if c.holds f then { s with rip := target } else s
  | call target => some { s.push s.rip with rip := target }
  | callMem m => some { s.push s.rip with rip := s.mem.load (s.address m) 64 }
  | ret => some { s.drop with rip := s.top }
  | movdqa src dst => some (s.setXmm dst (s.xmm src))
  | movdqaLoad m dst =>
    -- the operand has to be aligned
    if 16 ∣ (s.address m).toNat then some (s.setXmm dst (s.mem.load (s.address m) 128)) else none
  | paddd src dst => some (s.setXmm dst (addLanes (s.xmm dst) (s.xmm src)))
  | pxor src dst => some (s.setXmm dst (s.xmm dst ^^^ s.xmm src))
  | psrldq count dst => some (s.setXmm dst (s.xmm dst >>> (8 * count)))
  | movd src m => s.putl ((s.xmm src).setWidth 32) (.mem m)

/-! ### Programs -/

/-- A line of a listing. -/
structure Line where
  addr : Address
  /-- The number of bytes. -/
  size : BitVec 64
  instr : Instr
  deriving DecidableEq

/-- The line is executed. -/
def Line.exec (l : Line) (s : State) : Option State :=
  l.instr.exec { s with rip := l.addr + l.size }

/-- The line at an address. -/
def fetch (code : List Line) (a : Address) : Option Line :=
  code.find? (·.addr == a)

/-- **The steps of a program**, together with those of the code that it calls. -/
inductive Step {ε : Type*} (code : List Line) (outside : State × ε → State × ε → Prop) :
    State × ε → State × ε → Prop
  | line {s s' : State} {e : ε} {l : Line} (hl : fetch code s.rip = some l)
      (hs : l.exec s = some s') : Step code outside (s, e) (s', e)
  | outside {s s' : State} {e e' : ε} (hl : fetch code s.rip = none)
      (hs : outside (s, e) (s', e')) : Step code outside (s, e) (s', e')

/-- The lines are executed one after the other, up to the first jump that is taken. -/
def runLines : List Line → State → Option State
  | [], s => some s
  | l :: ls, s => if s.rip = l.addr then (l.exec s).bind (runLines ls) else some s

-- the rules by which `simp` executes lines of a listing
attribute [simp] State.setReg State.setXmm State.setByte State.address State.getl State.getq
  State.putl State.putq State.push State.drop State.top Alu.eval Instr.exec Line.exec runLines

section Programs

variable {ε : Type*} {code b : List Line} {outside : State × ε → State × ε → Prop}
  {Q : State × ε → Prop} {s : State} {e : ε}

theorem fetch_eq_some (hcode : (code.map Line.addr).Nodup) {l : Line} (hl : l ∈ code) :
    fetch code l.addr = some l := by
  induction code with
  | nil => cases hl
  | cons l' code ih =>
    rw [List.map_cons, List.nodup_cons] at hcode
    rw [fetch, List.find?_cons]
    rcases List.mem_cons.mp hl with rfl | hl
    · simp
    · have hne : l'.addr ≠ l.addr := fun heq => hcode.1 (heq ▸ List.mem_map_of_mem hl)
      rw [beq_eq_false_iff_ne.mpr hne]
      exact ih hcode.2 hl

/-- **A piece of straight code.** -/
theorem eventually_of_runLines (hcode : (code.map Line.addr).Nodup) (hb : b ⊆ code)
    (h : ∃ s', runLines b s = some s' ∧ Eventually (Step code outside) Q (s', e)) :
    Eventually (Step code outside) Q (s, e) := by
  obtain ⟨s', hrun, hQ⟩ := h
  induction b generalizing s with
  | nil =>
    obtain rfl : s = s' := Option.some.inj hrun
    exact hQ
  | cons l b ih =>
    rw [List.cons_subset] at hb
    rw [runLines] at hrun
    split_ifs at hrun with hrip
    · obtain ⟨s₁, hs₁, hrun⟩ := Option.bind_eq_some_iff.mp hrun
      have hfetch : fetch code s.rip = some l := hrip ▸ fetch_eq_some hcode hb.1
      refine .next (.line hfetch hs₁) ?_ (ih hb.2 hrun)
      rintro _ (⟨hl, hs⟩ | ⟨hl, -⟩)
      · obtain rfl := Option.some.inj (hfetch.symm.trans hl)
        rw [Option.some.inj (hs₁.symm.trans hs)]
      · cases hfetch.symm.trans hl
    · obtain rfl : s = s' := Option.some.inj hrun
      exact hQ

/-- **The program gets from `s` to a state with `P`** whatever happens, and calls nothing from
outside on the way. -/
def Leads (code : List Line) (outside : State × ε → State × ε → Prop) (e : ε) (P : State → Prop)
    (s : State) : Prop :=
  Eventually (Step code outside) (fun c => P c.1 ∧ c.2 = e) (s, e)

theorem leads_of_runLines {P : State → Prop} (hcode : (code.map Line.addr).Nodup) (hb : b ⊆ code)
    (h : ∃ s', runLines b s = some s' ∧ P s') : Leads code outside e P s := by
  obtain ⟨s', hrun, hP⟩ := h
  exact eventually_of_runLines hcode hb ⟨s', hrun, .here ⟨hP, rfl⟩⟩

theorem Leads.eventually {P : State → Prop} (h : Leads code outside e P s)
    (hP : ∀ s', P s' → Eventually (Step code outside) Q (s', e)) :
    Eventually (Step code outside) Q (s, e) := by
  refine Eventually.trans h ?_
  rintro ⟨s', _⟩ ⟨hs', rfl⟩
  exact hP s' hs'

theorem Leads.trans {P P' : State → Prop} (h : Leads code outside e P s)
    (hP : ∀ s', P s' → Leads code outside e P' s') : Leads code outside e P' s :=
  h.eventually hP

/-- **A loop** that counts down. -/
theorem Leads.loop {I : ℕ → State → Prop}
    (hround : ∀ n s, I (n + 1) s → Leads code outside e (I n) s) {n : ℕ} (h : I n s) :
    Leads code outside e (I 0) s := by
  refine Eventually.loop (I := fun n (c : State × ε) => I n c.1 ∧ c.2 = e) ?_ ⟨h, rfl⟩
  rintro n ⟨s, _⟩ ⟨hs, rfl⟩
  exact hround n s hs

/-- **The code from outside.** -/
theorem eventually_of_outside (hl : fetch code s.rip = none) (hex : ∃ c, outside (s, e) c)
    (h : ∀ s' e', outside (s, e) (s', e') → Eventually (Step code outside) Q (s', e')) :
    Eventually (Step code outside) Q (s, e) := by
  obtain ⟨⟨s', e'⟩, hs⟩ := hex
  refine .step ⟨_, .outside hl hs⟩ ?_
  rintro _ (⟨hl', -⟩ | ⟨-, hs⟩)
  · cases hl.symm.trans hl'
  · exact h _ _ hs

end Programs

/-! ### Calls -/

/-- The registers that a function gives back as they were. -/
def calleeSaved : List Reg := [.rbx, .rbp, .r12, .r13, .r14, .r15]

/-- **A function that was entered in `s` has returned** in `s'`, and has written to certain
addresses only. -/
structure Returned (writes : Address → Prop) (s s' : State) : Prop where
  rip : s'.rip = s.top
  rsp : s'.reg .rsp = s.reg .rsp + 8
  saved : ∀ r ∈ calleeSaved, s'.reg r = s.reg r
  mem : ∀ x, ¬writes x → s'.mem x = s.mem x

end X86
