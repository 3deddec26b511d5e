import LowLatency.Foundations.Transition
import LowLatency.Net.Peers
import Mathlib.Logic.Function.Basic

/-!
# The reactor server

The class `TCPServerReactor` with the `handleClient` of `TCPServerReactorTest`: one
thread that fetches a batch of events by `epoll_wait` and dispatches them one after the
other. A step is one `epoll_wait`, or the dispatch of one event with all that
`reactorThread` does for it. What the kernel decides is a parameter of the step: whether
`::accept` has a connection, and what a `receive` returns. A vector is not accessed
outside its bounds: such a dispatch has no step.

`m_peerSocketIndexTable` is an `unordered_map` read by `operator[]`, which enters a zero
for a key that is not there.
-/

namespace LowLatency

namespace Net

namespace Reactor

/-! ### Events -/

/-- `struct epoll_event`. -/
structure EpollEvent where
  events : UInt32
  fd : Descriptor

/-- `EPOLLIN`. -/
def epollIn : UInt32 := 0x001

/-- `EPOLLERR`. -/
def epollErr : UInt32 := 0x008

/-- `EPOLLHUP`. -/
def epollHup : UInt32 := 0x010

/-- `IOListenerEpoll::isValidEvent`. -/
def isValidEvent (e : EpollEvent) : Bool :=
  !(e.events &&& epollErr ≠ 0 || e.events &&& epollHup ≠ 0 || !(e.events &&& epollIn ≠ 0))

/-! ### The server -/

/-- The members of the server, the kernel, and the events fetched and not dispatched
yet. -/
structure State where
  server : TcpServer
  /-- `m_socket`, the acceptor. -/
  socket : Socket
  peerSocketIndexTable : Descriptor → Option ℕ
  kernel : Kernel
  batch : List EpollEvent

/-- `TCPServerReactor::onClientConnected`. -/
def onClientConnected (peerIndex : ℕ) (s : State) : Option State :=
  s.server.peerSockets[peerIndex]?.map fun peerSocket =>
    let sd := peerSocket.socketDescriptor
    { s with
      peerSocketIndexTable := Function.update s.peerSocketIndexTable sd (some peerIndex)
      kernel := (s.kernel.epollAdd sd).setBlockingMode sd false }

/-- `TCPServerReactor::onClientDisconnected`. -/
def onClientDisconnected (peerIndex : ℕ) (s : State) : Option State :=
  s.server.peerSockets[peerIndex]?.bind fun peerSocket =>
    (s.server.removePeer peerIndex).map fun (server, closed) =>
      { s with
        server := server
        kernel := (s.kernel.epollDel peerSocket.socketDescriptor).closeAny closed }

/-- `TCPServerReactor::acceptNewConnection`: what the function returns, which is not the
index of the new peer but that of the variable it hides, and the state. -/
def acceptNewConnection (accepted : Option Descriptor) (s : State) : Option (ℕ × State) :=
  match s.socket.accept accepted s.kernel with
  | (none, socket, kernel) => some (0, { s with socket := socket, kernel := kernel })
  | (some peerSocket, socket, kernel) =>
    let (peerIndex, server, closed) := s.server.addPeer peerSocket
    (onClientConnected peerIndex
      { s with
        server := server
        socket := socket
        kernel := kernel.closeAny closed }).map fun s => (0, s)

/-- `TCPServerReactorTest::handleClient`, for what the `receive` in it returns. -/
def handleClient (peerIndex : ℕ) (received : Received) (s : State) : Option State :=
  s.server.peerSockets[peerIndex]?.bind fun peerSocket =>
    match received with
    | .data bytes => if isQuit bytes then onClientDisconnected peerIndex s else some s
    | .failed _ error =>
      match peerSocket.isConnectionLost error with
      | (true, peerSocket) =>
        onClientDisconnected peerIndex
          { s with server := s.server.setPeerSocket peerIndex peerSocket }
      | (false, _) => some s

/-- The peer the next event is dispatched to: the index on which `reactorThread` calls
`handleClient` or `onClientDisconnected`, if it calls either. -/
def dispatchTarget (s : State) (e : EpollEvent) : Option ℕ :=
  if isValidEvent e ∧ e.fd = s.socket.socketDescriptor then none
  else some ((s.peerSocketIndexTable e.fd).getD 0)

/-- The body of the loop of `reactorThread` over the events of a batch. -/
def dispatch (accepted : Option Descriptor) (received : Received) (s : State) : Option State :=
  match s.batch with
  | [] => none
  | e :: rest =>
    let peerIndex := (s.peerSocketIndexTable e.fd).getD 0
    let s :=
      { s with
        peerSocketIndexTable := Function.update s.peerSocketIndexTable e.fd (some peerIndex)
        batch := rest }
    if isValidEvent e then
      if e.fd = s.socket.socketDescriptor then
        (acceptNewConnection accepted s).map Prod.snd
      else handleClient peerIndex received s
    else onClientDisconnected peerIndex s

/-! ### The runs of the reactor -/

/-- What the reactor does next. -/
inductive Action where
  /-- `epoll_wait`. -/
  | wait : Action
  /-- An event is dispatched; `::accept` would hand out `accepted`, and `receive` would
  return `received`. -/
  | dispatch (accepted : Option Descriptor) (received : Received) : Action

/-- The steps. `epoll_wait` reports descriptors of the interest set, each at most once,
with any events. -/
inductive Step : State → Action → State → Prop
  | wait {s : State} (events : List EpollEvent) : s.batch = [] →
      (events.map EpollEvent.fd).Nodup → (∀ e ∈ events, e.fd ∈ s.kernel.interest) →
      Step s .wait { s with batch := events }
  | dispatch {s s' : State} (accepted : Option Descriptor) (received : Received) :
      (∀ fd ∈ accepted, s.kernel.Fresh fd) → received.Admissible →
      dispatch accepted received s = some s' → Step s (.dispatch accepted received) s'

/-- **The reactor**, from the end of `start` on. -/
def system (p : Process) : TransitionSystem State Action where
  Init s := s.server = ⟨[], []⟩ ∧ s.socket = ⟨p.acceptor, .listening⟩ ∧
    s.peerSocketIndexTable = (fun _ => none) ∧
    s.kernel = ⟨p.base, {p.acceptor}, {p.acceptor}⟩ ∧ s.batch = []
  Step := Step

end Reactor

end Net

end LowLatency
