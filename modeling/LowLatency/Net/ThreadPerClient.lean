import LowLatency.Foundations.Transition
import LowLatency.Net.Peers

/-!
# The thread-per-client server

The class `TCPServerThreadPerClient` with the `handleClient` of
`TcpServerMultithreadedTest`: an acceptor thread, and a thread for every client accepted.
Locking `m_peerSocketsLock`, unlocking it and each access to what the threads share are
steps of their own. A thread created by `new thread` may run before the acceptor has put
it into `m_clientThreads`.

The clients are numbered in the order in which they connect. The number of a client also
names the `TCPConnection` that `Socket::accept` makes for it, so that a thread that keeps
a pointer to its connection keeps this number. The sockets of the clients are in blocking
mode unless the server changes it: a `recv` then returns only if there are bytes to
read, or the client has closed its side, or the connection has failed. And a `send` waits
while the kernel has no room for the reply, that is, while the client has not read enough of
those before, unless it has closed its socket or the connection has failed. Naming a thread
has no effect, not even where its handle has not been stored, and a `send` to a client that
is gone fails without a signal. What either may do to the process is in
`LowLatency.Net.Experiment`.
-/

namespace LowLatency

namespace Net

namespace ThreadPerClient

/-! ### Connections -/

/-- What has arrived of a client and has not been read: some bytes, and behind them
possibly the end of the stream, or an error. -/
structure Stream where
  inbox : List UInt8
  ended : Bool
  error : Option ℤ

/-- A client that has connected and done nothing else. -/
def Stream.silent : Stream := ⟨[], false, none⟩

/-- A `recv` on the stream would wait. -/
def Stream.Quiet (st : Stream) : Prop := st.inbox = [] ∧ st.ended = false ∧ st.error = none

/-- What `recv` returns and leaves behind. At the end of the stream it does not touch
`errno`; in non-blocking mode it fails with `EAGAIN` instead of waiting. -/
inductive Stream.Receives (blocking : Prop) : Stream → Received → Stream → Prop
  | data {st : Stream} (bytes rest : List UInt8) : 0 < bytes.length → bytes.length ≤ 32 →
      st.inbox = bytes ++ rest →
      Receives blocking st (.data bytes) { st with inbox := rest }
  | ended {st : Stream} (error : ℤ) : st.inbox = [] → st.ended = true →
      Receives blocking st (.failed 0 error) st
  | error {st : Stream} (error : ℤ) : st.error = some error →
      Receives blocking st (.failed (-1) error) { st with error := none }
  | wouldBlock {st : Stream} : ¬blocking → st.Quiet → Receives blocking st (.failed (-1) 11) st

/-- The characters of a reply, which the kernel takes as a whole. -/
def replyLength : ℕ := 12

/-- What has become of the replies to a client. -/
structure Replies where
  /-- The bytes sent that the client has not read. -/
  outstanding : ℕ
  /-- The client has closed its socket, or the connection has failed. -/
  gone : Bool

/-- The client has got no reply so far. -/
def Replies.none : Replies := ⟨0, false⟩

/-! ### The threads -/

/-- The threads of the server. -/
inductive Thread where
  | acceptor : Thread
  | client (k : ℕ) : Thread
  deriving DecidableEq

/-- Where `acceptThread` stands. -/
inductive AcceptorPc where
  | check : AcceptorPc
  | accept : AcceptorPc
  | lock (peerSocket : Socket) : AcceptorPc
  | addPeer (peerSocket : Socket) : AcceptorPc
  /-- In `onClientConnected`, at `new thread`. -/
  | newThread (peerIndex : ℕ) : AcceptorPc
  /-- In `onClientConnected`, the thread `k` created. -/
  | emplaceBack (k : ℕ) : AcceptorPc
  | unlock : AcceptorPc
  | exited : AcceptorPc

/-- Where a thread stands that runs `handleClient`. `peerSocket` is its pointer. -/
inductive ClientPc where
  | notStarted : ClientPc
  | setName : ClientPc
  | check : ClientPc
  | getPeerSocket : ClientPc
  | lock (peerSocket : ℕ) : ClientPc
  | receive (peerSocket : ℕ) : ClientPc
  | unlock (peerSocket : ℕ) (received : Received) : ClientPc
  /-- The lock is released: at the reply, or at `isConnectionLost`. -/
  | handle (peerSocket : ℕ) (received : Received) : ClientPc
  /-- In `onClientDisconnected`. -/
  | lockRemove : ClientPc
  | removePeer : ClientPc
  | unlockRemove : ClientPc
  | exited : ClientPc

/-- The members of the server, its threads, and the kernel. -/
structure State where
  server : TcpServer
  /-- `m_socket`, the acceptor. -/
  socket : Socket
  isStopping : Bool
  peerSocketsLock : Option Thread
  /-- `m_clientThreads`, by the numbers of the threads. -/
  clientThreads : List ℕ
  acceptor : AcceptorPc
  client : ℕ → ClientPc
  /-- The parameter of `handleClient`. -/
  peerIndex : ℕ → ℕ
  /-- How many threads have been created by `new thread`. -/
  started : ℕ
  /-- The `TCPConnection` in each slot. -/
  peerSocket : ℕ → ℕ
  kernel : Kernel
  /-- The client at the other end of a descriptor. -/
  connection : Descriptor → ℕ
  /-- The clients that have connected and have not been accepted. -/
  pending : List ℕ
  stream : ℕ → Stream
  replies : ℕ → Replies
  /-- How many bytes that a client has not read the kernel takes. -/
  capacity : ℕ → ℕ
  /-- How many clients have connected so far. -/
  connected : ℕ

namespace State

/-- A thread moves on. -/
def goto (s : State) (k : ℕ) (pc : ClientPc) : State :=
  { s with client := Function.update s.client k pc }

@[simp] theorem goto_client_self (s : State) (k : ℕ) (pc : ClientPc) :
    (s.goto k pc).client k = pc :=
  Function.update_self ..

@[simp] theorem goto_client_of_ne (s : State) {j k : ℕ} (h : j ≠ k) (pc : ClientPc) :
    (s.goto k pc).client j = s.client j :=
  Function.update_of_ne h ..

@[simp] theorem goto_replies (s : State) (k : ℕ) (pc : ClientPc) :
    (s.goto k pc).replies = s.replies := rfl

@[simp] theorem goto_capacity (s : State) (k : ℕ) (pc : ClientPc) :
    (s.goto k pc).capacity = s.capacity := rfl

/-- The connection a pointer of the thread `k` points to, unless it has been destroyed. -/
def deref (s : State) (k peerSocket : ℕ) : Option Socket :=
  if s.peerSocket (s.peerIndex k) = peerSocket then s.server.peerSockets[s.peerIndex k]? else none

/-- A `send` to the client waits: there is no room for another reply. -/
def full (s : State) (j : ℕ) : Bool :=
  !(s.replies j).gone && decide (s.capacity j < (s.replies j).outstanding + replyLength)

/-- `peerSocket->send(execReport.str())` on the connection of the client `j`. -/
def send (s : State) (j : ℕ) : Option State :=
  if s.full j then none
  else some
    { s with
      replies := Function.update s.replies j
        { s.replies j with outstanding := (s.replies j).outstanding + replyLength } }

end State

/-- `m_socket.accept(m_acceptTimeout)` in `acceptThread`. -/
def accept (accepted : Option Descriptor) (s : State) : State :=
  match s.socket.accept accepted s.kernel, s.pending with
  | (some peerSocket, socket, kernel), j :: pending =>
    { s with
      socket := socket
      kernel := kernel
      connection := Function.update s.connection peerSocket.socketDescriptor j
      pending := pending
      acceptor := .lock peerSocket }
  | (_, socket, kernel), _ => { s with socket := socket, kernel := kernel, acceptor := .check }

/-- The other steps of `acceptThread`. -/
def acceptorStep (s : State) : Option State :=
  match s.acceptor with
  | .check => some { s with acceptor := if s.isStopping then .exited else .accept }
  | .accept => none
  | .lock peerSocket =>
    match s.peerSocketsLock with
    | some _ => none
    | none => some { s with peerSocketsLock := some .acceptor, acceptor := .addPeer peerSocket }
  | .addPeer peerSocket =>
    let (peerIndex, server, closed) := s.server.addPeer peerSocket
    some
      { s with
        server := server
        peerSocket := Function.update s.peerSocket peerIndex
          (s.connection peerSocket.socketDescriptor)
        kernel := s.kernel.closeAny closed
        acceptor := .newThread peerIndex }
  | .newThread peerIndex =>
    some
      { s.goto s.started .setName with
        peerIndex := Function.update s.peerIndex s.started peerIndex
        started := s.started + 1
        acceptor := .emplaceBack s.started }
  | .emplaceBack k => some { s with clientThreads := s.clientThreads ++ [k], acceptor := .unlock }
  | .unlock => some { s with peerSocketsLock := none, acceptor := .check }
  | .exited => none

/-- The steps of `handleClient`, except for the `receive`. -/
def clientStep (k : ℕ) (s : State) : Option State :=
  match s.client k with
  | .notStarted => none
  | .setName => some (s.goto k .check)
  | .check => some (s.goto k (if s.isStopping then .exited else .getPeerSocket))
  | .getPeerSocket => some (s.goto k (.lock (s.peerSocket (s.peerIndex k))))
  | .lock peerSocket =>
    match s.peerSocketsLock with
    | some _ => none
    | none => some { s.goto k (.receive peerSocket) with peerSocketsLock := some (.client k) }
  | .receive _ => none
  | .unlock peerSocket received =>
    some { s.goto k (.handle peerSocket received) with peerSocketsLock := none }
  | .handle peerSocket received =>
    (s.deref k peerSocket).bind fun sock =>
      match received with
      | .data bytes =>
        (s.send (s.connection sock.socketDescriptor)).map fun s =>
          s.goto k (if isQuit bytes then .lockRemove else .check)
      | .failed _ error =>
        match sock.isConnectionLost error with
        | (true, sock) =>
          some { s.goto k .lockRemove with server := s.server.setPeerSocket (s.peerIndex k) sock }
        | (false, _) => some (s.goto k .check)
  | .lockRemove =>
    match s.peerSocketsLock with
    | some _ => none
    | none => some { s.goto k .removePeer with peerSocketsLock := some (.client k) }
  | .removePeer =>
    (s.server.removePeer (s.peerIndex k)).map fun (server, closed) =>
      { s.goto k .unlockRemove with
        server := server
        kernel := s.kernel.closeAny closed }
  | .unlockRemove => some { s.goto k .exited with peerSocketsLock := none }
  | .exited => none

/-! ### The runs of the server -/

/-- What happens next. -/
inductive Action where
  /-- A client connects. -/
  | connect : Action
  /-- The client `j` sends some bytes. -/
  | send (j : ℕ) (bytes : List UInt8) : Action
  /-- The client `j` closes its side of the connection, and may go on reading. -/
  | close (j : ℕ) : Action
  /-- The connection of the client `j` fails. -/
  | fail (j : ℕ) (error : ℤ) : Action
  /-- The call of `accept` in the acceptor. -/
  | accept (accepted : Option Descriptor) : Action
  /-- Another step of the acceptor. -/
  | acceptor : Action
  /-- The thread `k` receives from the connection `peerSocket`. -/
  | receive (k peerSocket : ℕ) (received : Received) : Action
  /-- Another step of the thread `k`. -/
  | client (k : ℕ) : Action
  /-- The client `j` reads some bytes of the replies. -/
  | read (j n : ℕ) : Action
  /-- The client `j` closes its socket. -/
  | leave (j : ℕ) : Action

/-- A step of the server's threads, not of a client. -/
def Action.IsServer : Action → Prop
  | .connect | .send _ _ | .close _ | .fail _ _ | .read _ _ | .leave _ => False
  | .accept _ | .acceptor | .receive _ _ _ | .client _ => True

/-- The steps. There is a number for the descriptor of every client that has connected. -/
inductive Step : State → Action → State → Prop
  | connect {s : State} : s.kernel.opened.card + s.pending.length < 2 ^ 31 →
      Step s .connect
        { s with
          pending := s.pending ++ [s.connected]
          stream := Function.update s.stream s.connected .silent
          replies := Function.update s.replies s.connected .none
          connected := s.connected + 1 }
  | send {s : State} (j : ℕ) (bytes : List UInt8) : j < s.connected →
      (s.stream j).ended = false →
      Step s (.send j bytes)
        { s with
          stream := Function.update s.stream j
            { s.stream j with inbox := (s.stream j).inbox ++ bytes } }
  | close {s : State} (j : ℕ) : j < s.connected →
      Step s (.close j)
        { s with stream := Function.update s.stream j { s.stream j with ended := true } }
  | fail {s : State} (j : ℕ) (error : ℤ) : j < s.connected →
      Step s (.fail j error)
        { s with
          stream := Function.update s.stream j
            { s.stream j with ended := true, error := some error }
          replies := Function.update s.replies j { s.replies j with gone := true } }
  | accept {s : State} (accepted : Option Descriptor) : s.acceptor = .accept →
      (∀ fd ∈ accepted, s.kernel.Fresh fd ∧ s.pending ≠ []) →
      Step s (.accept accepted) (accept accepted s)
  | acceptor {s s' : State} : acceptorStep s = some s' → Step s .acceptor s'
  | receive {s : State} (k peerSocket : ℕ) (sock : Socket) (received : Received) (st : Stream) :
      s.client k = .receive peerSocket → s.deref k peerSocket = some sock →
      (s.stream (s.connection sock.socketDescriptor)).Receives
        (sock.socketDescriptor ∉ s.kernel.nonBlocking) received st →
      Step s (.receive k peerSocket received)
        { s.goto k (.unlock peerSocket received) with
          stream := Function.update s.stream (s.connection sock.socketDescriptor) st }
  | client {s s' : State} (k : ℕ) : clientStep k s = some s' → Step s (.client k) s'
  | read {s : State} (j n : ℕ) : n ≤ (s.replies j).outstanding →
      Step s (.read j n)
        { s with
          replies := Function.update s.replies j
            { s.replies j with outstanding := (s.replies j).outstanding - n } }
  | leave {s : State} (j : ℕ) : j < s.connected →
      Step s (.leave j)
        { s with
          stream := Function.update s.stream j { s.stream j with ended := true }
          replies := Function.update s.replies j { s.replies j with gone := true } }

/-- **The thread-per-client server**, from the end of `start` on. -/
def system (p : Process) : TransitionSystem State Action where
  Init s := s.server = ⟨[], []⟩ ∧ s.socket = ⟨p.acceptor, .listening⟩ ∧ s.isStopping = false ∧
    s.peerSocketsLock = none ∧ s.clientThreads = [] ∧ s.acceptor = .check ∧
    (∀ k, s.client k = .notStarted) ∧ s.started = 0 ∧ s.kernel = ⟨p.base, ∅, ∅⟩ ∧
    s.pending = [] ∧ s.connected = 0 ∧ p.base.card ≤ 2 ^ 31
  Step := Step

/-! ### Schedules -/

/-- A step of a thread, other than the calls of `accept` and `receive`. -/
def threadStep : Thread → State → Option State
  | .acceptor => acceptorStep
  | .client k => clientStep k

/-- The threads of a schedule take a step each. -/
def runThreads : List Thread → State → Option State
  | [], s => some s
  | t :: ts, s => (threadStep t s).bind (runThreads ts)

/-- What a schedule looks like in a run. -/
def scheduled : Thread → Action
  | .acceptor => .acceptor
  | .client k => .client k

/-- **A schedule prolongs a run**, also one whose steps are to meet a condition. -/
theorem run_runThreads {p : Process} {C : State → Action → Prop} {tr : List Action}
    {s s' : State} (hC : ∀ s t, C s (scheduled t)) (ts : List Thread)
    (hrun : ((system p).restrict C).Run tr s) (hs : runThreads ts s = some s') :
    ((system p).restrict C).Run (tr ++ ts.map scheduled) s' := by
  induction ts generalizing tr s with
  | nil =>
    cases hs
    simpa using hrun
  | cons t ts ih =>
    obtain ⟨s₁, hs₁, hs⟩ := Option.bind_eq_some_iff.mp hs
    have hstep : (system p).Step s (scheduled t) s₁ := by
      rcases t with _ | k
      · exact .acceptor hs₁
      · exact .client k hs₁
    simpa using ih (hrun.snoc ⟨hstep, hC s t⟩) hs

/-! ### A run

The process has the standard streams and the acceptor `3`. -/

/-- The descriptors of the process at the start. -/
def process : Process where
  base := {0, 1, 2, 3}
  acceptor := 3
  zero_mem := by decide
  acceptor_mem := by decide

/-- The server has started. -/
def started : State where
  server := ⟨[], []⟩
  socket := ⟨3, .listening⟩
  isStopping := false
  peerSocketsLock := none
  clientThreads := []
  acceptor := .check
  client _ := .notStarted
  peerIndex _ := 0
  started := 0
  peerSocket _ := 0
  kernel := ⟨process.base, ∅, ∅⟩
  connection _ := 0
  pending := []
  stream _ := .silent
  replies _ := .none
  capacity _ := replyLength
  connected := 0

/-- Another client has connected, and the acceptor is at the call of `accept`. -/
def connecting (s : State) : Option State :=
  runThreads [.acceptor]
    { s with
      pending := s.pending ++ [s.connected]
      stream := Function.update s.stream s.connected .silent
      replies := Function.update s.replies s.connected .none
      connected := s.connected + 1 }

/-- The acceptor has accepted the client, with the descriptor `fd`, and added it. -/
def adding (fd : Descriptor) (s : State) : Option State :=
  runThreads [.acceptor, .acceptor, .acceptor, .acceptor, .acceptor] (accept (some fd) s)

/-- **Another client connects**, in the runs whose steps meet a condition, if this does. -/
theorem run_connecting {p : Process} {C : State → Action → Prop} {tr : List Action}
    {s s' : State} (hC : ∀ s t, C s (scheduled t)) (hconnect : C s .connect)
    (hrun : ((system p).restrict C).Run tr s)
    (hcapacity : s.kernel.opened.card + s.pending.length < 2 ^ 31)
    (hs : connecting s = some s') : ∃ tr', ((system p).restrict C).Run tr' s' :=
  ⟨_, run_runThreads hC [.acceptor] (hrun.snoc ⟨.connect hcapacity, hconnect⟩) hs⟩

/-- **The client is accepted**, and the threads of a schedule go on. -/
theorem run_accepting {p : Process} {C : State → Action → Prop} {tr : List Action}
    {s s' : State} (hC : ∀ s t, C s (scheduled t)) {fd : Descriptor}
    (haccept : C s (.accept (some fd))) (hrun : ((system p).restrict C).Run tr s)
    (hpc : s.acceptor = .accept) (hfresh : s.kernel.Fresh fd) (hpending : s.pending ≠ [])
    (ts : List Thread) (hs : runThreads ts (accept (some fd) s) = some s') :
    ∃ tr', ((system p).restrict C).Run tr' s' := by
  have hall : ∀ fd' ∈ some fd, s.kernel.Fresh fd' ∧ s.pending ≠ [] := by
    rintro fd' ⟨⟩
    exact ⟨hfresh, hpending⟩
  exact ⟨_, run_runThreads hC ts (hrun.snoc ⟨.accept (some fd) hpc hall, haccept⟩) hs⟩

/-- A first client is about to be accepted. -/
def oneConnecting : State := (connecting started).get rfl

/-- The first client has been added, with the descriptor `5`. -/
def oneClient : State := (adding 5 oneConnecting).get rfl

/-- The first client is connected in the runs whose steps meet a condition, if these do. -/
theorem run_oneClient {C : State → Action → Prop} (hC : ∀ s t, C s (scheduled t))
    (hconnect : C started .connect) (haccept : C oneConnecting (.accept (some 5))) :
    ∃ tr, ((system process).restrict C).Run tr oneClient := by
  have h₀ : ((system process).restrict C).Run [] started :=
    .start ⟨rfl, rfl, rfl, rfl, rfl, rfl, fun _ => rfl, rfl, rfl, rfl, rfl, by decide⟩
  obtain ⟨_, h₁⟩ : ∃ tr, ((system process).restrict C).Run tr oneConnecting :=
    run_connecting hC hconnect h₀ (by decide) (Option.some_get _).symm
  exact run_accepting hC haccept h₁ rfl ⟨by decide, by decide, by decide⟩ (by decide) _
    (Option.some_get _).symm

end ThreadPerClient

end Net

end LowLatency
