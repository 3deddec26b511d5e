import Mathlib.Data.Finset.Card
import Mathlib.Algebra.Ring.Int.Defs
import Mathlib.Data.Int.Order.Basic
import Mathlib.Tactic.Common

/-!
# Sockets

The class `Socket`, as far as the two servers use it on a connected peer: the
descriptor and `m_state`, on which two functions disagree. `close` passes the descriptor
to `::close` unless the socket is disconnected already; `isConnectionLost` marks the
socket as disconnected when it recognizes an error. The kernel's side of it is which
descriptors are open, which of them epoll watches, and which are non-blocking.
-/

namespace LowLatency

namespace Net

/-- A file descriptor, an `int`. -/
abbrev Descriptor := ℤ

/-- `SOCKET_STATE`. -/
inductive SocketState where
  | disconnected : SocketState
  | bound : SocketState
  | connected : SocketState
  | listening : SocketState
  | accepted : SocketState
  deriving DecidableEq

/-- The members `m_socketDescriptor` and `m_state` of a `Socket`. -/
structure Socket where
  socketDescriptor : Descriptor
  state : SocketState
  deriving DecidableEq

namespace Socket

/-- `Socket::close`: the socket afterwards, and the descriptor passed to `::close`, if
there is one. -/
def close (s : Socket) : Socket × Option Descriptor :=
  if s.state ≠ .disconnected then
    ({ s with state := .disconnected },
      if 0 < s.socketDescriptor then some s.socketDescriptor else none)
  else (s, none)

/-- The errors `isConnectionLost` recognizes. -/
def lostError (errorCode : ℤ) : Bool := 100 ≤ errorCode && errorCode ≤ 104

/-- `Socket::isConnectionLost`: the answer, and the socket afterwards. -/
def isConnectionLost (s : Socket) (errorCode : ℤ) : Bool × Socket :=
  if lostError errorCode then (true, { s with state := .disconnected }) else (false, s)

/-- A socket is closed for good. -/
@[simp] theorem close_state (s : Socket) : s.close.1.state = .disconnected := by
  by_cases h : s.state = .disconnected
  · rw [close, if_neg (not_not.mpr h)]
    exact h
  · rw [close, if_pos h]

/-- Nothing is closed twice. -/
theorem close_of_disconnected {s : Socket} (h : s.state = .disconnected) : s.close.2 = none := by
  rw [close, if_neg (not_not.mpr h)]

end Socket

/-! ### What is received -/

/-- What a call of `receive(buffer, 32)` leaves its caller with: some bytes, or a result
that is not positive and the `errno` read after it. -/
inductive Received where
  | data (bytes : List UInt8) : Received
  | failed (read error : ℤ) : Received

/-- What `recv` may return: at least one byte and at most 32, or the end of the stream,
or an error. -/
def Received.Admissible : Received → Prop
  | .data bytes => 0 < bytes.length ∧ bytes.length ≤ 32
  | .failed read _ => read = 0 ∨ read = -1

instance : DecidablePred Received.Admissible
  | .data bytes => inferInstanceAs (Decidable (0 < bytes.length ∧ bytes.length ≤ 32))
  | .failed read _ => inferInstanceAs (Decidable (read = 0 ∨ read = -1))

/-- `!strcmp(buffer, "quit")`: the bytes up to the first null byte are those of `quit`. -/
def isQuit (bytes : List UInt8) : Bool := bytes.takeWhile (· ≠ 0) = [113, 117, 105, 116]

/-! ### The kernel -/

/-- The descriptors that are open, those in the interest set of the epoll instance, and
those in non-blocking mode. -/
structure Kernel where
  opened : Finset Descriptor
  interest : Finset Descriptor
  nonBlocking : Finset Descriptor

namespace Kernel

/-- `::accept` hands out a descriptor, in blocking mode. -/
def accept (k : Kernel) (fd : Descriptor) : Kernel :=
  { k with opened := insert fd k.opened, nonBlocking := k.nonBlocking.erase fd }

/-- A descriptor the kernel may hand out: an `int`, not negative and not open. -/
def Fresh (k : Kernel) (fd : Descriptor) : Prop := 0 ≤ fd ∧ fd < 2 ^ 31 ∧ fd ∉ k.opened

/-- `::close`; epoll forgets a closed descriptor by itself. -/
def close (k : Kernel) (fd : Descriptor) : Kernel :=
  { opened := k.opened.erase fd
    interest := k.interest.erase fd
    nonBlocking := k.nonBlocking.erase fd }

/-- The call of `::close` that a `Socket::close` makes, if it does. -/
def closeAny (k : Kernel) : Option Descriptor → Kernel
  | none => k
  | some fd => k.close fd

/-- `epoll_ctl(EPOLL_CTL_ADD)`, which fails on a descriptor that is not open. -/
def epollAdd (k : Kernel) (fd : Descriptor) : Kernel :=
  if fd ∈ k.opened then { k with interest := insert fd k.interest } else k

/-- `epoll_ctl(EPOLL_CTL_DEL)`. -/
def epollDel (k : Kernel) (fd : Descriptor) : Kernel :=
  { k with interest := k.interest.erase fd }

/-- `Socket::setBlockingMode` on a descriptor. -/
def setBlockingMode (k : Kernel) (fd : Descriptor) (blockingMode : Bool) : Kernel :=
  { k with
    nonBlocking := if blockingMode then k.nonBlocking.erase fd else insert fd k.nonBlocking }

@[simp] theorem setBlockingMode_opened (k : Kernel) (fd : Descriptor) (b : Bool) :
    (k.setBlockingMode fd b).opened = k.opened := rfl

@[simp] theorem setBlockingMode_interest (k : Kernel) (fd : Descriptor) (b : Bool) :
    (k.setBlockingMode fd b).interest = k.interest := rfl

@[simp] theorem epollAdd_opened (k : Kernel) (fd : Descriptor) :
    (k.epollAdd fd).opened = k.opened := by
  unfold epollAdd
  split_ifs <;> rfl

@[simp] theorem epollAdd_nonBlocking (k : Kernel) (fd : Descriptor) :
    (k.epollAdd fd).nonBlocking = k.nonBlocking := by
  unfold epollAdd
  split_ifs <;> rfl

theorem epollAdd_interest {k : Kernel} {fd : Descriptor} (h : fd ∈ k.opened) :
    (k.epollAdd fd).interest = insert fd k.interest := by
  rw [epollAdd, if_pos h]

@[simp] theorem closeAny_none (k : Kernel) : k.closeAny none = k := rfl

/-- `::close` opens nothing. -/
theorem card_closeAny_le (k : Kernel) (closed : Option Descriptor) :
    (k.closeAny closed).opened.card ≤ k.opened.card := by
  cases closed with
  | none => exact le_rfl
  | some fd => exact Finset.card_erase_le

end Kernel

/-- `Socket::accept`: the new peer, if there is one, the acceptor and the kernel
afterwards. The kernel hands out the descriptor `accepted`, or none within the timeout. -/
def Socket.accept (s : Socket) (accepted : Option Descriptor) (k : Kernel) :
    Option Socket × Socket × Kernel :=
  if s.state ≠ .listening ∧ s.state ≠ .accepted then (none, s, k)
  else
    let fd := s.socketDescriptor
    match accepted with
    | none => (none, s, (k.setBlockingMode fd false).setBlockingMode fd true)
    | some peerSocketDesc =>
      (some ⟨peerSocketDesc, .connected⟩, { s with state := .accepted },
        ((k.setBlockingMode fd false).accept peerSocketDesc).setBlockingMode fd true)

/-- **What `Socket::accept` does**: with a descriptor handed out to a listening socket it
makes a peer, and otherwise nothing changes but the blocking mode of the acceptor. -/
theorem Socket.accept_cases (s : Socket) (accepted : Option Descriptor) (k : Kernel) :
    (∃ k', s.accept accepted k = (none, s, k') ∧
      (s.state = .listening ∨ s.state = .accepted → accepted = none) ∧
      k'.opened = k.opened ∧ k'.interest = k.interest ∧
      k'.nonBlocking ⊆ insert s.socketDescriptor k.nonBlocking) ∨
    ∃ fd k', accepted = some fd ∧
      s.accept accepted k = (some ⟨fd, .connected⟩, { s with state := .accepted }, k') ∧
      k'.opened = insert fd k.opened ∧ k'.interest = k.interest ∧
      k'.nonBlocking ⊆ (insert s.socketDescriptor k.nonBlocking).erase fd := by
  unfold accept
  split_ifs with hstate
  · refine .inl ⟨k, rfl, ?_, rfl, rfl, Finset.subset_insert ..⟩
    rintro (hc | hc)
    · exact absurd hc hstate.1
    · exact absurd hc hstate.2
  · rcases accepted with _ | fd
    · exact .inl ⟨_, rfl, fun _ => rfl, rfl, rfl, Finset.erase_subset ..⟩
    · exact .inr ⟨fd, _, rfl, rfl, rfl, rfl, Finset.erase_subset ..⟩

end Net

end LowLatency
