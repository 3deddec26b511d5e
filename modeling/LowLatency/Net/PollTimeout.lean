import LowLatency.Net.StoppingReactor

/-!
# From microseconds to the timeout of `epoll_wait`

`TCPServerReactor::setPollTimeout` takes a `long` of microseconds; `IOListenerEpoll::setTimeout`
divides it by 1000 and stores the quotient in an `int`, which `getNumberOfReadyFileDescriptors`
gives to `epoll_wait`. A negative timeout means to wait for an event, zero to return at once. The
division rounds towards zero and takes the sign from everything below a millisecond, and the `int`
keeps the lower 32 bits of the quotient only, so that a large value may come out with any sign.

The values for which the timeout means what the microseconds say are determined exactly
(`LowLatency.Net.Reactor.pollsAsSet_iff`). The `-1` of the test program is not one of them.
-/

namespace LowLatency

namespace Net

namespace Reactor

variable {p : Process} {l : Loop} {us us' : Int64} {timeout : Int32} {tr : List LoopAction}

/-! ### What the timeout should be -/

/-- **The timeout means what the microseconds say.** -/
structure ConvertsWell (microSeconds : Int64) (timeout : Int32) : Prop where
  /-- `epoll_wait` waits for an event. -/
  negative : timeout < 0 ↔ microSeconds < 0
  /-- `epoll_wait` returns at once. -/
  zero : timeout = 0 ↔ microSeconds = 0
  positive : 0 < timeout ↔ 0 < microSeconds
  /-- Fewer microseconds do not give a longer timeout. -/
  monotone : 0 ≤ microSeconds →
    ∀ fewer, 0 ≤ fewer → fewer ≤ microSeconds → setTimeout fewer ≤ timeout
  /-- The `int` has the sign of the quotient stored in it. -/
  narrowing : (timeout < 0 ↔ microSeconds / 1000 < 0) ∧ (0 < timeout ↔ 0 < microSeconds / 1000)

/-- The value that a call passes to `setPollTimeout`. -/
def LoopAction.sets : LoopAction → Option Int64
  | .setPollTimeout microSeconds => some microSeconds
  | _ => none

/-- What has been passed to `setPollTimeout` last, if it has been called. -/
def lastTimeout (tr : List LoopAction) : Option Int64 := tr.reverse.findSome? LoopAction.sets

/-- **The reactor polls as it was told** by `setPollTimeout`: whenever that was called with so
many microseconds last, and the next call of `epoll_wait` is made, its timeout means this. -/
def PollsAsSet (p : Process) (microSeconds : Int64) : Prop :=
  ∀ tr l timeout, (stopping p).Run (tr ++ [.check]) l → lastTimeout tr = some microSeconds →
    l.pc = .wait timeout → ConvertsWell microSeconds timeout

/-- **The values that are converted well**: no microseconds; at least a millisecond, if the
quotient is an `int`, or narrowed to the largest one; at least a millisecond below zero, if the
lower half of the quotient has the sign bit. -/
def Convertible (microSeconds : Int64) : Prop :=
  microSeconds = 0 ∨
  1000 ≤ microSeconds ∧ (microSeconds < 2147483648000 ∨
    microSeconds.toInt.tdiv 1000 % 2 ^ 32 = 2 ^ 31 - 1) ∨
  microSeconds ≤ -1000 ∧ 2 ^ 31 ≤ microSeconds.toInt.tdiv 1000 % 2 ^ 32

instance : DecidablePred Convertible := fun _ =>
  inferInstanceAs (Decidable (_ ∨ _ ∧ (_ ∨ _) ∨ _ ∧ _))

/-! ### The timeout along a run -/

theorem lastTimeout_concat (tr : List LoopAction) (b : LoopAction) :
    lastTimeout (tr ++ [b]) = b.sets.or (lastTimeout tr) := by
  rw [lastTimeout, List.reverse_concat, List.findSome?_cons]
  rcases b.sets with _ | microSeconds
  · rfl
  · rfl

/-- `m_epollTimeout` has been made of what was passed last. -/
theorem epollTimeout_of_run (hrun : (stopping p).Run tr l) :
    l.epollTimeout = ((lastTimeout tr).map setTimeout).getD 0 := by
  refine hrun.invariant
    (I := fun tr l => l.epollTimeout = ((lastTimeout tr).map setTimeout).getD 0) ?_ ?_
  · rintro l ⟨-, -, htimeout, -⟩
    exact htimeout
  · rintro tr l b l' - ih hs
    rw [lastTimeout_concat]
    rcases hs with - | - | - | - | - | - | -
    · exact ih
    · rfl
    · exact ih
    · exact ih
    · exact ih
    · exact ih
    · exact ih

/-- **The timeout of `epoll_wait`** is the one made of what was passed last. -/
theorem timeout_of_check (hrun : (stopping p).Run (tr ++ [.check]) l)
    (hlast : lastTimeout tr = some us) (hpc : l.pc = .wait timeout) : timeout = setTimeout us := by
  obtain ⟨l₀, hrun₀, hs⟩ := hrun.last_step
  have htimeout := epollTimeout_of_run hrun₀
  rcases hs with - | - | - | hcheck | - | - | -
  dsimp only at hpc
  split_ifs at hpc
  cases hpc
  rw [htimeout, hlast]
  rfl

/-- A reactor that has been told, and polls. -/
theorem exists_poll (p : Process) (us : Int64) : ∃ tr l, (stopping p).Run (tr ++ [.check]) l ∧
    lastTimeout tr = some us ∧ l.pc = .wait (setTimeout us) := by
  have h₀ : (stopping p).Run [] ⟨⟨⟨[], []⟩, ⟨p.acceptor, .listening⟩, fun _ => none,
      ⟨p.base, {p.acceptor}, {p.acceptor}⟩, []⟩, false, 0, .check, []⟩ :=
    .start ⟨⟨rfl, rfl, rfl, rfl, rfl⟩, rfl, rfl, rfl, rfl⟩
  have h₁ := h₀.snoc (.setPollTimeout us)
  exact ⟨_, _, h₁.snoc (.check rfl), rfl, rfl⟩

theorem pollsAsSet_iff_convertsWell : PollsAsSet p us ↔ ConvertsWell us (setTimeout us) := by
  constructor
  · intro h
    obtain ⟨tr, l, hrun, hlast, hpc⟩ := exists_poll p us
    exact h tr l _ hrun hlast hpc
  · intro h tr l timeout hrun hlast hpc
    rw [timeout_of_check hrun hlast hpc]
    exact h

/-! ### The quotient and its lower half -/

/-- **Rounding towards zero**, from above zero. -/
theorem quotient_of_nonneg (h : 0 ≤ us.toInt) :
    1000 * quotient us ≤ us.toInt ∧ us.toInt < 1000 * quotient us + 1000 := by
  rw [quotient, Int.tdiv_eq_ediv_of_nonneg h]
  omega

/-- **Rounding towards zero**, from below zero. -/
theorem quotient_of_nonpos (h : us.toInt ≤ 0) :
    us.toInt ≤ 1000 * quotient us ∧ 1000 * quotient us - 1000 < us.toInt := by
  have hneg : quotient us = -((-us.toInt) / 1000) := by
    rw [← Int.tdiv_eq_ediv_of_nonneg (by omega), Int.neg_tdiv, Int.neg_neg, quotient]
  rw [hneg]
  omega

/-- A quotient that is an `int` is kept. -/
theorem toInt_setTimeout_of_lt (h : 0 ≤ us.toInt) (hlt : us.toInt < 2147483648000) :
    (setTimeout us).toInt = quotient us := by
  have hq := quotient_of_nonneg h
  rw [toInt_setTimeout, Int.emod_eq_of_lt (by omega) (by omega), if_pos (by omega)]

/-- Up to the largest quotient that is an `int`, the timeouts grow with the microseconds. -/
theorem setTimeout_le (h : 0 ≤ us.toInt) (hle : us.toInt ≤ us'.toInt)
    (hlt : us'.toInt < 2147483648000) : setTimeout us ≤ setTimeout us' := by
  have hq := quotient_of_nonneg h
  have hq' := quotient_of_nonneg (h.trans hle)
  rw [Int32.le_iff_toInt_le, toInt_setTimeout_of_lt h (by omega),
    toInt_setTimeout_of_lt (by omega) hlt]
  omega

/-! ### When the conversion is right -/

/-- The conditions, in terms of the quotient. -/
theorem convertible_iff : Convertible us ↔ us.toInt = 0 ∨
    1000 ≤ us.toInt ∧ (us.toInt < 2147483648000 ∨ quotient us % 2 ^ 32 = 2 ^ 31 - 1) ∨
    us.toInt ≤ -1000 ∧ 2 ^ 31 ≤ quotient us % 2 ^ 32 := by
  rw [Convertible, ← Int64.toInt_inj, Int64.le_iff_toInt_le, Int64.le_iff_toInt_le,
    Int64.lt_iff_toInt_lt]
  exact Iff.rfl

/-- The signs, as integers. -/
theorem signs_iff : (timeout < 0 ↔ us < 0) ∧ (timeout = 0 ↔ us = 0) ∧ (0 < timeout ↔ 0 < us) ↔
    (timeout.toInt < 0 ↔ us.toInt < 0) ∧ (0 < timeout.toInt ↔ 0 < us.toInt) := by
  rw [Int32.lt_iff_toInt_lt, Int64.lt_iff_toInt_lt, Int32.lt_iff_toInt_lt, Int64.lt_iff_toInt_lt,
    ← Int32.toInt_inj, ← Int64.toInt_inj, Int32.toInt_zero, Int64.toInt_zero]
  omega

/-- **What is converted well is convertible.** -/
theorem ConvertsWell.convertible (h : ConvertsWell us (setTimeout us)) : Convertible us := by
  obtain ⟨hneg, hpos⟩ := signs_iff.mp ⟨h.negative, h.zero, h.positive⟩
  have htimeout := toInt_setTimeout us
  rw [convertible_iff]
  rcases lt_trichotomy us.toInt 0 with hlt | hzero | hgt
  · have hq := quotient_of_nonpos hlt.le
    split_ifs at htimeout with hbit
    · omega
    · omega
  · exact .inl hzero
  · have hq := quotient_of_nonneg hgt.le
    refine .inr (.inl ⟨?_, ?_⟩)
    · split_ifs at htimeout with hbit
      · omega
      · omega
    · by_cases hlt : us.toInt < 2147483648000
      · exact .inl hlt
      · -- the largest `int` is the timeout of fewer microseconds
        have hfewer := h.monotone (Int64.le_iff_toInt_le.mpr hgt.le) 2147483647999 (by decide)
          (Int64.le_iff_toInt_le.mpr (by
            rw [show (2147483647999 : Int64).toInt = 2147483647999 by decide]
            omega))
        rw [Int32.le_iff_toInt_le,
          show (setTimeout 2147483647999).toInt = 2 ^ 31 - 1 by decide] at hfewer
        split_ifs at htimeout with hbit
        · omega
        · omega

/-- **What is convertible is converted well.** -/
theorem Convertible.convertsWell (h : Convertible us) : ConvertsWell us (setTimeout us) := by
  have htimeout := toInt_setTimeout us
  have hbits : 0 ≤ quotient us % 2 ^ 32 ∧ quotient us % 2 ^ 32 < 2 ^ 32 := by omega
  have hsigns : ((setTimeout us).toInt < 0 ↔ us.toInt < 0) ∧
      (0 < (setTimeout us).toInt ↔ 0 < us.toInt) := by
    rcases convertible_iff.mp h with hzero | ⟨hle, hlt | hmax⟩ | ⟨hle, hbit⟩
    · rw [toInt_setTimeout_of_lt (by omega) (by omega)]
      have hq := quotient_of_nonneg hzero.ge
      omega
    · rw [toInt_setTimeout_of_lt (by omega) hlt]
      have hq := quotient_of_nonneg (show 0 ≤ us.toInt by omega)
      omega
    · rw [htimeout, if_pos (by omega)]
      omega
    · rw [htimeout, if_neg (by omega)]
      omega
  obtain ⟨hneg, hzero, hpos⟩ := signs_iff.mpr hsigns
  refine ⟨hneg, hzero, hpos, fun hle fewer hfewer hfew => ?_, ?_⟩
  · rw [Int64.le_iff_toInt_le, Int64.toInt_zero] at hle hfewer
    rw [Int64.le_iff_toInt_le] at hfew
    rcases convertible_iff.mp h with hzero | ⟨-, hlt | hmax⟩ | ⟨hneg, -⟩
    · exact setTimeout_le hfewer hfew (by omega)
    · exact setTimeout_le hfewer hfew hlt
    · -- the timeout is the largest `int`
      have hint := (setTimeout fewer).toInt_lt
      rw [Int32.le_iff_toInt_le, htimeout, if_pos (by omega)]
      omega
    · omega
  · rw [Int32.lt_iff_toInt_lt, Int64.lt_iff_toInt_lt, Int32.lt_iff_toInt_lt,
      Int64.lt_iff_toInt_lt, toInt_div_thousand, Int32.toInt_zero, Int64.toInt_zero]
    rcases convertible_iff.mp h with hzero | ⟨hle, -⟩ | ⟨hle, -⟩
    · have hq := quotient_of_nonneg hzero.ge
      omega
    · have hq := quotient_of_nonneg (show 0 ≤ us.toInt by omega)
      omega
    · have hq := quotient_of_nonpos (show us.toInt ≤ 0 by omega)
      omega

/-- **The poll timeout**: the reactor polls as it was told by `setPollTimeout` if and only if the
microseconds are convertible. -/
theorem pollsAsSet_iff (p : Process) (microSeconds : Int64) :
    PollsAsSet p microSeconds ↔ Convertible microSeconds := by
  rw [pollsAsSet_iff_convertsWell]
  exact ⟨ConvertsWell.convertible, Convertible.convertsWell⟩

/-- The test program asks for `-1`, and the reactor does not wait. Less than a millisecond is lost
in the same way, and the first quotient that is not an `int` makes the reactor wait for ever. -/
theorem not_pollsAsSet : ¬PollsAsSet process (-1) ∧ ¬PollsAsSet process 999 ∧
    ¬PollsAsSet process 2147483648000 := by
  have hconv : ∀ us, PollsAsSet process us → Convertible us := fun us h =>
    (pollsAsSet_iff_convertsWell.mp h).convertible
  refine ⟨fun h => absurd (hconv _ h) ?_, fun h => absurd (hconv _ h) ?_,
    fun h => absurd (hconv _ h) ?_⟩
  · decide
  · decide
  · decide

end Reactor

end Net

end LowLatency
