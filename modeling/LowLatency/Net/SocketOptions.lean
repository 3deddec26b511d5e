import LowLatency.Foundations.Registers
import Mathlib.Data.Int.Basic
import Mathlib.Data.Prod.Basic

/-!
# The options of a socket

`Socket::setSocketOption` and the `create` that calls it. To the kernel an option is a level and
a name, and names of different levels share their numbers. `getSocketOptionValue` chooses the
name, and the level is `SOL_SOCKET` for all of them: a `TCP_` option is never set, and what
is set in its place is the option of the socket level with the same number. When that does
no harm is stated in `LowLatency.Net.independent_iff`.
-/

namespace LowLatency

namespace Net

/-! ### The kernel's options -/

/-- A level and a name. -/
abbrev OptionKey := ℤ × ℤ

/-- The options of a socket in the kernel. -/
abbrev KernelOptions := OptionKey → Int32

/-- `SOL_SOCKET`. -/
def solSocket : ℤ := 1

/-- `IPPROTO_TCP`. -/
def ipprotoTcp : ℤ := 6

/-- `setsockopt`. -/
def setsockopt (level name : ℤ) (value : Int32) (options : KernelOptions) : KernelOptions :=
  Function.update options (level, name) value

/-! ### The options of a `Socket` -/

/-- `SOCKET_OPTION`. -/
inductive SocketOption where
  | getErrorAndClear : SocketOption
  | reuseAddress : SocketOption
  | reusePort : SocketOption
  | exclusiveAddress : SocketOption
  | receiveBufferSize : SocketOption
  | receiveBufferTimeout : SocketOption
  | sendBufferSize : SocketOption
  | sendBufferTimeout : SocketOption
  | tcpEnableCork : SocketOption
  | tcpEnableQuickack : SocketOption
  | tcpDisableNagle : SocketOption
  | pollingInterval : SocketOption
  | socketPriority : SocketOption
  deriving DecidableEq

/-- `Socket::getSocketOptionValue`, with the numbers of Linux. -/
def getSocketOptionValue : SocketOption → ℤ
  | .getErrorAndClear => 4
  | .reuseAddress => 2
  | .exclusiveAddress => 2
  | .reusePort => 15
  | .receiveBufferSize => 8
  | .receiveBufferTimeout => 20
  | .sendBufferSize => 7
  | .sendBufferTimeout => 21
  | .tcpDisableNagle => 1
  | .tcpEnableQuickack => 12
  | .tcpEnableCork => 3
  | .socketPriority => 12
  | .pollingInterval => 46

/-- `Socket::setSocketOption`; an option without a number is not supported. -/
def setSocketOption (option : SocketOption) (value : Int32) (options : KernelOptions) :
    KernelOptions :=
  if getSocketOptionValue option = 0 then options
  else setsockopt solSocket (getSocketOptionValue option) value options

/-- A call of `setSocketOption`. -/
abbrev OptionCall := SocketOption × Int32

/-- The calls on a socket from `create(SOCKET_TYPE::TCP)` on, which makes the first itself. -/
def created (calls : List OptionCall) : List OptionCall := (.tcpDisableNagle, 1) :: calls

/-- The options of a socket after the calls, if they are `options` when `::socket` returns. -/
def applyCalls (calls : List OptionCall) (options : KernelOptions) : KernelOptions :=
  calls.foldl (fun options call => setSocketOption call.1 call.2 options) options

/-! ### What the options are for -/

/-- The options of the level `IPPROTO_TCP`. -/
def SocketOption.isTcp : SocketOption → Bool
  | .tcpEnableCork | .tcpEnableQuickack | .tcpDisableNagle => true
  | _ => false

/-- The option of the kernel that an option denotes. -/
def SocketOption.key (option : SocketOption) : OptionKey :=
  (if option.isTcp then ipprotoTcp else solSocket, getSocketOptionValue option)

/-- The option of the kernel that is set for an option. -/
def SocketOption.written (option : SocketOption) : OptionKey :=
  (solSocket, getSocketOptionValue option)

/-- The last call for an option of the kernel. -/
abbrev lastCall (calls : List OptionCall) (key : OptionKey) : Option OptionCall :=
  Registers.last (fun call : OptionCall => call.1.key) calls key

/-- The last call that sets an option of the kernel. -/
abbrev lastWrite (calls : List OptionCall) (key : OptionKey) : Option OptionCall :=
  Registers.last (fun call : OptionCall => call.1.written) calls key

/-- What an option of the kernel is to hold: the value last passed for it, and what it held at
first if there is none. -/
def expected (calls : List OptionCall) (options : KernelOptions) : KernelOptions :=
  fun key => ((lastCall calls key).map Prod.snd).getD (options key)

/-- **The options are independent**: after `create` and the calls each option of the kernel holds
what it is to hold. -/
def Independent (options : KernelOptions) (calls : List OptionCall) : Prop :=
  ∀ key, applyCalls (created calls) options key = expected (created calls) options key

/-- **The `TCP_` options do no harm**: each that has been passed held the last value passed for it
from the first; and if the option of the socket level with its number has been set last by it,
then to the value which that is to hold. -/
def Harmless (options : KernelOptions) (calls : List OptionCall) : Prop :=
  ∀ option : SocketOption, option.isTcp → ∀ value,
    (lastCall (created calls) option.key = some (option, value) → options option.key = value) ∧
    (lastWrite (created calls) option.written = some (option, value) →
      expected (created calls) options option.written = value)

variable {option : SocketOption} {key : OptionKey} {calls : List OptionCall}
  {options : KernelOptions}

/-- Every option has a number. -/
theorem getSocketOptionValue_ne_zero (option : SocketOption) :
    getSocketOptionValue option ≠ 0 := by
  cases option <;> decide

/-- **Every call writes at the level of the socket.** -/
theorem setSocketOption_eq (option : SocketOption) (value : Int32) (options : KernelOptions) :
    setSocketOption option value options = Function.update options option.written value := by
  rw [setSocketOption, if_neg (getSocketOptionValue_ne_zero option)]
  rfl

/-- The options hold what has been written last. -/
theorem applyCalls_apply (calls : List OptionCall) (options : KernelOptions) (key : OptionKey) :
    applyCalls calls options key = ((lastWrite calls key).map Prod.snd).getD (options key) := by
  rw [applyCalls, lastWrite, ← Registers.foldl_update_apply]
  simp only [setSocketOption_eq]

theorem key_of_isTcp (h : option.isTcp) :
    option.key = (ipprotoTcp, getSocketOptionValue option) := by
  rw [SocketOption.key, if_pos h]

theorem key_of_not_isTcp (h : ¬option.isTcp) : option.key = option.written := by
  rw [SocketOption.key, if_neg h, SocketOption.written]

/-- What is denoted at the level of the socket is also written there. -/
theorem written_of_key (hkey : key.1 ≠ ipprotoTcp) (h : option.key = key) :
    option.written = key := by
  by_cases htcp : option.isTcp
  · rw [key_of_isTcp htcp] at h
    exact absurd (congrArg Prod.fst h).symm hkey
  · exact (key_of_not_isTcp htcp).symm.trans h

/-- Nothing is ever written at the level of TCP. -/
theorem lastWrite_tcp (calls : List OptionCall) {name : ℤ} :
    lastWrite calls (ipprotoTcp, name) = none := by
  rcases h : lastWrite calls (ipprotoTcp, name) with _ | call
  · rfl
  · have hlevel : solSocket = ipprotoTcp := congrArg Prod.fst (Registers.apply_of_last h)
    exact absurd hlevel (by decide)

/-- **The options of TCP are never set.** -/
theorem applyCalls_tcp (calls : List OptionCall) (options : KernelOptions) (name : ℤ) :
    applyCalls calls options (ipprotoTcp, name) = options (ipprotoTcp, name) := by
  rw [applyCalls_apply, lastWrite_tcp]
  rfl

/-- What is denoted by an option at the level of TCP is one of its options. -/
theorem isTcp_of_key {name : ℤ} (h : option.key = (ipprotoTcp, name)) : option.isTcp := by
  by_contra hc
  rw [key_of_not_isTcp hc] at h
  have hlevel : solSocket = ipprotoTcp := congrArg Prod.fst h
  exact absurd hlevel (by decide)

/-- **Independent options** show in both places what the `TCP_` options do. -/
theorem Independent.harmless (h : Independent options calls) : Harmless options calls := by
  intro option htcp value
  constructor
  · intro hlast
    have hkey := h option.key
    rw [expected, hlast, key_of_isTcp htcp, applyCalls_tcp, ← key_of_isTcp htcp] at hkey
    exact hkey
  · intro hlast
    have hkey := h option.written
    rw [applyCalls_apply, hlast] at hkey
    exact hkey.symm

/-- An option of TCP holds what it held at first. -/
theorem Harmless.apply_tcp (h : Harmless options calls) (name : ℤ) :
    applyCalls (created calls) options (ipprotoTcp, name) =
      expected (created calls) options (ipprotoTcp, name) := by
  rw [applyCalls_tcp, expected]
  rcases hlast : lastCall (created calls) (ipprotoTcp, name) with _ | ⟨option, value⟩
  · rfl
  · have hoption : option.key = (ipprotoTcp, name) :=
      Registers.apply_of_last (f := fun call : OptionCall => call.1.key) hlast
    have htcp := isTcp_of_key hoption
    rw [← hoption] at hlast ⊢
    exact (h option htcp value).1 hlast

/-- An option at another level holds what was written there last: by an option that denotes it, or
by a `TCP_` option. -/
theorem Harmless.apply_of_ne (h : Harmless options calls) (hkey : key.1 ≠ ipprotoTcp) :
    applyCalls (created calls) options key = expected (created calls) options key := by
  have himp : ∀ call : OptionCall, call.1.key = key → call.1.written = key :=
    fun call => written_of_key hkey
  rw [applyCalls_apply]
  rcases hlast : lastWrite (created calls) key with _ | ⟨option, value⟩
  · rw [expected, lastCall, Registers.last_eq_none_of_imp himp hlast]
  · have hoption : option.written = key :=
      Registers.apply_of_last (f := fun call : OptionCall => call.1.written) hlast
    by_cases htcp : option.isTcp
    · rw [← hoption] at hlast ⊢
      exact ((h option htcp value).2 hlast).symm
    · rw [expected, lastCall, Registers.last_of_imp himp hlast
        ((key_of_not_isTcp htcp).trans hoption)]

/-- **The options are independent exactly if** the `TCP_` options do no harm. -/
theorem independent_iff (options : KernelOptions) (calls : List OptionCall) :
    Independent options calls ↔ Harmless options calls := by
  refine ⟨Independent.harmless, fun h key => ?_⟩
  by_cases hkey : key.1 = ipprotoTcp
  · obtain ⟨level, name⟩ := key
    obtain rfl : level = ipprotoTcp := hkey
    exact h.apply_tcp name
  · exact h.apply_of_ne hkey

/-- **A new socket**, all of whose options are `0`: `create` sets the option `1` of the socket
level, `SO_DEBUG`, in the place of `TCP_NODELAY`; and `TCP_QUICKACK` overwrites the priority. -/
theorem options_overwritten :
    applyCalls (created []) (fun _ => 0) (ipprotoTcp, 1) = 0 ∧
    applyCalls (created []) (fun _ => 0) (solSocket, 1) = 1 ∧ ¬Independent (fun _ => 0) [] ∧
    applyCalls (created [(.socketPriority, 6), (.tcpEnableQuickack, 1)]) (fun _ => 0)
      (solSocket, 12) = 1 := by
  refine ⟨by decide, by decide, fun h => ?_, by decide⟩
  exact absurd (h (ipprotoTcp, 1)) (by decide)

end Net

end LowLatency
