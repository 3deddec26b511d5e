import LowLatency.Foundations.Mutex
import LowLatency.Foundations.Ownership
import LowLatency.Net.ThreadPerClient

/-!
# The invariant of the thread-per-client server

Four things hold along every run. The holder of `m_peerSocketsLock` is the one thread
inside the sections it guards. Every connected peer has one thread that is to remove it,
the acceptor until it has created the thread of the peer, and then this thread
(`LowLatency.Net.ThreadPerClient.Threads`). Every descriptor handed out by
`::accept` leads to a client of its own
(`LowLatency.Net.ThreadPerClient.Connections`). And the replies that a client has not read
have had room in the kernel (`LowLatency.Net.ThreadPerClient.Backlog`).
-/

namespace LowLatency

namespace Net

namespace ThreadPerClient

open TcpServer (Slot Connected Aligned)

/-! ### Where the threads stand -/

/-- The acceptor holds the lock. -/
@[simp] def AcceptorPc.holds : AcceptorPc → Bool
  | .addPeer _ | .newThread _ | .emplaceBack _ | .unlock => true
  | _ => false

/-- The slot of a peer whose thread the acceptor is to create. -/
@[simp] def AcceptorPc.slot : AcceptorPc → Option ℕ
  | .newThread peerIndex => some peerIndex
  | _ => none

/-- The socket that has been accepted and not been added yet. -/
@[simp] def AcceptorPc.hand : AcceptorPc → Option Socket
  | .lock peerSocket | .addPeer peerSocket => some peerSocket
  | _ => none

/-- What was received makes the thread disconnect its client. -/
def leaving : Received → Bool
  | .data bytes => isQuit bytes
  | .failed _ error => Socket.lostError error

namespace ClientPc

/-- The thread holds the lock. -/
@[simp] def holds : ClientPc → Bool
  | .receive _ | .unlock _ _ | .removePeer | .unlockRemove => true
  | _ => false

/-- The thread has been created and has not executed `removePeer` yet. -/
@[simp] def live : ClientPc → Bool
  | .notStarted | .unlockRemove | .exited => false
  | _ => true

/-- The thread is about to disconnect its client. -/
@[simp] def leaves : ClientPc → Bool
  | .unlock _ received | .handle _ received => leaving received
  | .lockRemove | .removePeer => true
  | _ => false

/-- What the thread has received and not dealt with yet. -/
@[simp] def received : ClientPc → Option Received
  | .unlock _ received | .handle _ received => some received
  | _ => none

/-- The chunk the thread has received from the client `j` and not replied to yet. -/
@[simp] def chunk (j : ℕ) : ClientPc → Option (List UInt8)
  | .unlock peerSocket (.data chunk) | .handle peerSocket (.data chunk) =>
    if peerSocket = j then some chunk else none
  | _ => none

/-- The pointer the thread has. -/
@[simp] def pointer : ClientPc → Option ℕ
  | .lock peerSocket | .receive peerSocket | .unlock peerSocket _ | .handle peerSocket _ =>
    some peerSocket
  | _ => none

theorem live_of_pointer {pc : ClientPc} {x : ℕ} (h : pc.pointer = some x) : pc.live = true := by
  rcases pc with _ | _ | _ | _ | _ | _ | _ | _ | _ | _ | _ | _
  all_goals first | rfl | cases h

theorem pointer_of_chunk {pc : ClientPc} {j : ℕ} {chunk : List UInt8}
    (h : pc.chunk j = some chunk) : pc.pointer = some j := by
  rcases pc with _ | _ | _ | _ | _ | _ | ⟨x, chunk' | ⟨read, error⟩⟩ |
    ⟨x, chunk' | ⟨read, error⟩⟩ | _ | _ | _ | _
  all_goals rw [ClientPc.chunk] at h
  all_goals try cases h
  all_goals
    split_ifs at h with hx
    rw [ClientPc.pointer, hx]

end ClientPc

/-- A thread that stands there holds the lock. -/
@[simp] def Holds : AcceptorPc ⊕ ClientPc → Prop
  | .inl pc => pc.holds = true
  | .inr pc => pc.holds = true

namespace State

/-- Where a thread stands. -/
def pc (s : State) : Thread → AcceptorPc ⊕ ClientPc
  | .acceptor => .inl s.acceptor
  | .client k => .inr (s.client k)

/-- The slot a thread is to free. -/
def owned (s : State) : Thread → Option ℕ
  | .acceptor => s.acceptor.slot
  | .client k => if (s.client k).live then some (s.peerIndex k) else none

variable {s : State} {k : ℕ}

theorem pc_goto {pc : ClientPc} :
    (s.goto k pc).pc = Function.update s.pc (.client k) (.inr pc) := by
  funext t
  rcases t with _ | j
  · rw [Function.update_of_ne (by simp)]
    rfl
  · rcases eq_or_ne j k with rfl | hj
    · rw [Function.update_self, State.pc, goto_client_self]
    · rw [Function.update_of_ne (by simpa using hj), State.pc, State.pc, goto_client_of_ne s hj]

theorem pc_acceptor {pc : AcceptorPc} :
    State.pc { s with acceptor := pc } = Function.update s.pc .acceptor (.inl pc) := by
  funext t
  rcases t with _ | j
  · rw [Function.update_self]
    rfl
  · rw [Function.update_of_ne (by simp)]
    rfl

theorem owned_goto {pc : ClientPc} :
    (s.goto k pc).owned =
      Function.update s.owned (.client k) (if pc.live then some (s.peerIndex k) else none) := by
  funext t
  rcases t with _ | j
  · rw [Function.update_of_ne (by simp)]
    rfl
  · rcases eq_or_ne j k with rfl | hj
    · rw [Function.update_self, owned, goto_client_self]
      rfl
    · rw [Function.update_of_ne (by simpa using hj), owned, owned, goto_client_of_ne s hj]
      rfl

theorem owned_acceptor {pc : AcceptorPc} :
    State.owned { s with acceptor := pc } = Function.update s.owned .acceptor pc.slot := by
  funext t
  rcases t with _ | j
  · rw [Function.update_self]
    rfl
  · rw [Function.update_of_ne (by simp)]
    rfl

theorem owned_client (hlive : (s.client k).live = true) :
    s.owned (.client k) = some (s.peerIndex k) := by
  rw [owned, if_pos hlive]

theorem owned_client_eq_some {i : ℕ} :
    s.owned (.client k) = some i ↔ (s.client k).live = true ∧ s.peerIndex k = i := by
  rw [owned]
  split_ifs with h
  · rw [Option.some_inj]
    exact ⟨fun hi => ⟨h, hi⟩, And.right⟩
  · exact iff_of_false nofun fun hc => h hc.1

end State

/-! ### Sending -/

namespace State

variable {s s' : State} {j : ℕ}

/-- A reply has been sent to the client `j`. -/
def reply (s : State) (j : ℕ) : State :=
  { s with
    replies := Function.update s.replies j
      { s.replies j with outstanding := (s.replies j).outstanding + replyLength } }

@[simp] theorem reply_replies_self (s : State) (j : ℕ) : (s.reply j).replies j =
    { s.replies j with outstanding := (s.replies j).outstanding + replyLength } :=
  Function.update_self ..

@[simp] theorem reply_replies_of_ne (s : State) {i j : ℕ} (h : i ≠ j) :
    (s.reply j).replies i = s.replies i :=
  Function.update_of_ne h ..

@[simp] theorem reply_client (s : State) (j : ℕ) : (s.reply j).client = s.client := rfl

@[simp] theorem reply_capacity (s : State) (j : ℕ) : (s.reply j).capacity = s.capacity := rfl

theorem send_eq_some : s.send j = some s' ↔ s.full j = false ∧ s.reply j = s' := by
  rw [send]
  cases s.full j with
  | true => exact iff_of_false nofun fun h => nomatch h.1
  | false => exact Option.some_inj.trans ⟨fun h => ⟨rfl, h⟩, And.right⟩

/-- **When a `send` waits**: the client is there, and there is no room. -/
theorem full_eq_true :
    s.full j = true ↔ (s.replies j).gone = false ∧
      s.capacity j < (s.replies j).outstanding + replyLength := by
  rw [full, Bool.and_eq_true, Bool.not_eq_true', decide_eq_true_iff]

end State

/-! ### The cases of a step of a client's thread -/

/-- The thread `k` may go to `pc` without a change of its part: it keeps its slot, and its
pointer is to the connection in it. -/
structure MovesOn (s : State) (k : ℕ) (pc : ClientPc) : Prop where
  started : s.client k ≠ .notStarted
  live : pc.live = (s.client k).live
  pointer : ∀ x, pc.pointer = some x →
    (s.client k).pointer = some x ∨ x = s.peerSocket (s.peerIndex k)

/-- A thread that goes from `pc` to `pc'` has received nothing new, and keeps its mind about
disconnecting its client. -/
structure SameMind (pc pc' : ClientPc) : Prop where
  leaves : pc'.leaves = pc.leaves
  received : ∀ r, pc'.received = some r → pc.received = some r

/-- **The cases of a step** of the thread `k`. -/
inductive ClientCase (k : ℕ) (s : State) : State → Prop
  | move (pc : ClientPc) : MovesOn s k pc → SameMind (s.client k) pc →
      (s.client k).holds = false → pc.holds = false →
      (∀ j, pc.chunk j = (s.client k).chunk j) → ClientCase k s (s.goto k pc)
  | lock (pc : ClientPc) : MovesOn s k pc → SameMind (s.client k) pc →
      s.peerSocketsLock = none → pc.holds = true →
      (∀ j, pc.chunk j = (s.client k).chunk j) →
      ClientCase k s { s.goto k pc with peerSocketsLock := some (.client k) }
  | unlock (pc : ClientPc) : MovesOn s k pc → SameMind (s.client k) pc →
      (s.client k).holds = true → pc.holds = false →
      (∀ j, pc.chunk j = (s.client k).chunk j) →
      ClientCase k s { s.goto k pc with peerSocketsLock := none }
  | lost (peerSocket : ℕ) (read error : ℤ) (sock : Socket) :
      s.client k = .handle peerSocket (.failed read error) → Socket.lostError error = true →
      s.deref k peerSocket = some sock →
      ClientCase k s
        { s.goto k .lockRemove with
          server := s.server.setPeerSocket (s.peerIndex k) { sock with state := .disconnected } }
  | remove (server : TcpServer) (closed : Option Descriptor) : s.client k = .removePeer →
      s.server.removePeer (s.peerIndex k) = some (server, closed) →
      ClientCase k s
        { s.goto k .unlockRemove with server := server, kernel := s.kernel.closeAny closed }
  | reply (pc : ClientPc) (peerSocket : ℕ) (bytes : List UInt8) (sock : Socket) :
      MovesOn s k pc → SameMind (s.client k) pc → pc.holds = false →
      s.client k = .handle peerSocket (.data bytes) → s.deref k peerSocket = some sock →
      s.full (s.connection sock.socketDescriptor) = false → (∀ j, pc.chunk j = none) →
      ClientCase k s ((s.goto k pc).reply (s.connection sock.socketDescriptor))

variable {p : Process} {s s' : State} {k : ℕ}

/-- **A step of a client's thread is one of six.** -/
theorem clientStep_cases (hrun : s.isStopping = false) (hs : clientStep k s = some s') :
    ClientCase k s s' := by
  rcases hpc : s.client k with _ | _ | _ | _ | x | x | ⟨x, r⟩ | ⟨x, r⟩ | _ | _ | _ | _
  all_goals simp only [clientStep, hpc] at hs
  · cases hs
  · cases hs
    exact .move _ ⟨by simp [hpc], by simp [hpc], by simp⟩ ⟨by simp [hpc], by simp⟩
      (by simp [hpc]) rfl (by simp [hpc])
  · rw [hrun] at hs
    cases hs
    exact .move _ ⟨by simp [hpc], by simp [hpc], by simp⟩ ⟨by simp [hpc], by simp⟩
      (by simp [hpc]) rfl (by simp [hpc])
  · cases hs
    exact .move _ ⟨by simp [hpc], by simp [hpc], by simp [eq_comm]⟩
      ⟨by simp [hpc], by simp⟩ (by simp [hpc]) rfl (by simp [hpc])
  · rcases hlock : s.peerSocketsLock with _ | t
    · rw [hlock] at hs
      cases hs
      exact .lock _ ⟨by simp [hpc], by simp [hpc], by simp [hpc]⟩ ⟨by simp [hpc], by simp⟩
        hlock rfl (by simp [hpc])
    · rw [hlock] at hs
      cases hs
  · -- the call of `receive` is no step of `clientStep`
    cases hs
  · cases hs
    exact .unlock _ ⟨by simp [hpc], by simp [hpc], by simp [hpc]⟩
      ⟨by simp [hpc], by simp [hpc]⟩ (by simp [hpc]) rfl fun j => by rw [hpc]; cases r <;> rfl
  · -- the reply, or `isConnectionLost`; only `quit` and a lost connection end the loop
    obtain ⟨sock, hsock, hs⟩ := Option.bind_eq_some_iff.mp hs
    rcases r with bytes | ⟨read, error⟩
    · obtain ⟨t, ht, rfl⟩ := Option.map_eq_some_iff.mp hs
      obtain ⟨hfull, rfl⟩ := State.send_eq_some.mp ht
      rcases hquit : isQuit bytes with _ | _
      · exact .reply .check x bytes sock ⟨by simp [hpc], by simp [hpc], by simp⟩
          ⟨by simp [hpc, leaving, hquit], by simp⟩ rfl hpc hsock hfull fun _ => rfl
      · exact .reply .lockRemove x bytes sock ⟨by simp [hpc], by simp [hpc], by simp⟩
          ⟨by simp [hpc, leaving, hquit], by simp⟩ rfl hpc hsock hfull fun _ => rfl
    · rcases hlost : Socket.lostError error with _ | _
      · simp only [Socket.isConnectionLost, hlost] at hs
        cases hs
        exact .move _ ⟨by simp [hpc], by simp [hpc], by simp⟩
          ⟨by simp [hpc, leaving, hlost], by simp⟩ (by simp [hpc]) rfl (by simp [hpc])
      · simp only [Socket.isConnectionLost, hlost, if_true] at hs
        cases hs
        exact .lost x read error sock hpc hlost hsock
  · rcases hlock : s.peerSocketsLock with _ | t
    · rw [hlock] at hs
      cases hs
      exact .lock _ ⟨by simp [hpc], by simp [hpc], by simp⟩ ⟨by simp [hpc], by simp⟩
        hlock rfl (by simp [hpc])
    · rw [hlock] at hs
      cases hs
  · obtain ⟨⟨server, closed⟩, hremove, hs⟩ := Option.map_eq_some_iff.mp hs
    cases hs
    exact .remove server closed hpc hremove
  · cases hs
    exact .unlock _ ⟨by simp [hpc], by simp [hpc], by simp⟩ ⟨by simp [hpc], by simp⟩
      (by simp [hpc]) rfl (by simp [hpc])
  · cases hs

/-! ### The cases of a step of the acceptor -/

/-- **The cases of a step** of the acceptor, other than the call of `accept`. -/
inductive AcceptorCase (s : State) : State → Prop
  | check : s.acceptor = .check → AcceptorCase s { s with acceptor := .accept }
  | lock (peerSocket : Socket) : s.acceptor = .lock peerSocket → s.peerSocketsLock = none →
      AcceptorCase s { s with peerSocketsLock := some .acceptor, acceptor := .addPeer peerSocket }
  | addPeer (peerSocket : Socket) (r : ℕ) (server : TcpServer) (closed : Option Descriptor) :
      s.acceptor = .addPeer peerSocket → s.server.addPeer peerSocket = (r, server, closed) →
      AcceptorCase s
        { s with
          server := server
          peerSocket := Function.update s.peerSocket r (s.connection peerSocket.socketDescriptor)
          kernel := s.kernel.closeAny closed
          acceptor := .newThread r }
  | newThread (peerIndex : ℕ) : s.acceptor = .newThread peerIndex →
      AcceptorCase s
        { s.goto s.started .setName with
          peerIndex := Function.update s.peerIndex s.started peerIndex
          started := s.started + 1
          acceptor := .emplaceBack s.started }
  | emplaceBack (k : ℕ) : s.acceptor = .emplaceBack k →
      AcceptorCase s { s with clientThreads := s.clientThreads ++ [k], acceptor := .unlock }
  | unlock : s.acceptor = .unlock →
      AcceptorCase s { s with peerSocketsLock := none, acceptor := .check }

/-- **A step of the acceptor is one of six.** -/
theorem acceptorStep_cases (hrun : s.isStopping = false) (hs : acceptorStep s = some s') :
    AcceptorCase s s' := by
  rcases hpc : s.acceptor with _ | _ | sock | sock | i | j | _ | _
  all_goals simp only [acceptorStep, hpc] at hs
  · rw [if_neg (ne_true_of_eq_false hrun)] at hs
    cases hs
    exact .check hpc
  · cases hs
  · rcases hlock : s.peerSocketsLock with _ | t
    · rw [hlock] at hs
      cases hs
      exact .lock sock hpc hlock
    · rw [hlock] at hs
      cases hs
  · rcases hadd : s.server.addPeer sock with ⟨r, server, closed⟩
    rw [hadd] at hs
    cases hs
    exact .addPeer sock r server closed hpc hadd
  · cases hs
    exact .newThread i hpc
  · cases hs
    exact .emplaceBack j hpc
  · cases hs
    exact .unlock hpc
  · cases hs

/-! ### The invariant -/

/-- **The invariant of the threads.** -/
structure Threads (s : State) : Prop where
  running : s.isStopping = false
  acceptor : s.acceptor ≠ .exited
  guards : Mutex.Guards s.peerSocketsLock Holds s.pc
  /-- The slots of the connected peers each have a thread that is to free them. -/
  owned : Owned s.owned fun i => ∃ sock, s.server.Connected i sock
  started : ∀ k, s.started ≤ k → s.client k = .notStarted
  /-- A pointer is to the connection in the slot. -/
  pointer : ∀ k x, (s.client k).pointer = some x → x = s.peerSocket (s.peerIndex k)

/-- **The invariant of the descriptors and the connections.** -/
structure Connections (p : Process) (s : State) : Prop where
  socket : s.socket.socketDescriptor = p.acceptor
  listening : s.socket.state = .listening ∨ s.socket.state = .accepted
  peers : Peers p s.kernel.opened s.server
  peerSocket : ∀ i sock, s.server.Connected i sock →
    s.peerSocket i = s.connection sock.socketDescriptor
  /-- The socket the acceptor has in hand is like a peer's, but not a peer's yet. -/
  hand : ∀ sock, s.acceptor.hand = some sock → sock.state = .connected ∧
    0 < sock.socketDescriptor ∧ sock.socketDescriptor < 2 ^ 31 ∧
    sock.socketDescriptor ∈ s.kernel.opened ∧ sock.socketDescriptor ∉ p.base ∧
    ∀ i x, s.server.Connected i x → x.socketDescriptor ≠ sock.socketDescriptor
  /-- A descriptor handed out leads to a client that is not pending any more. -/
  accepted : ∀ fd ∈ s.kernel.opened, fd ∉ p.base →
    s.connection fd < s.connected ∧ s.connection fd ∉ s.pending
  /-- No two of them lead to the same client. -/
  distinct : ∀ fd ∈ s.kernel.opened, ∀ fd' ∈ s.kernel.opened, fd ∉ p.base → fd' ∉ p.base →
    s.connection fd = s.connection fd' → fd = fd'
  nodup : s.pending.Nodup
  pending : ∀ j ∈ s.pending, j < s.connected
  blocking : s.kernel.nonBlocking ⊆ p.base
  capacity : s.kernel.opened.card + s.pending.length ≤ 2 ^ 31

/-- **The invariant of the replies** to the clients that have connected: as long as a client is
there, those that it has not read have had room, and its connection has not failed. -/
structure Backlog (s : State) : Prop where
  room : ∀ j < s.connected, (s.replies j).gone = false →
    (s.replies j).outstanding ≤ s.capacity j
  unbroken : ∀ j < s.connected, (s.replies j).gone = false → (s.stream j).error = none

theorem threads_init (h : (system p).Init s) : Threads s := by
  obtain ⟨hserver, -, hrun, hlock, -, hacceptor, hclient, -, -, -, -, -⟩ := h
  refine ⟨hrun, by rw [hacceptor]; simp, fun t => ?_, ⟨fun t u i ht => ?_, fun i => ?_⟩,
    fun k _ => hclient k, fun k x hx => ?_⟩
  · rw [hlock]
    refine iff_of_false nofun ?_
    rcases t with _ | k
    · simp [State.pc, hacceptor]
    · simp [State.pc, hclient]
  · rcases t with _ | k
    · simp [State.owned, hacceptor] at ht
    · simp [State.owned, hclient] at ht
  · refine iff_of_false ?_ ?_
    · rintro ⟨sock, -, hsock⟩
      rw [hserver] at hsock
      cases hsock
    · rintro ⟨_ | k, ht⟩
      · simp [State.owned, hacceptor] at ht
      · simp [State.owned, hclient] at ht
  · rw [hclient] at hx
    cases hx

theorem connections_init (h : (system p).Init s) : Connections p s := by
  obtain ⟨hserver, hsocket, -, -, -, hacceptor, -, -, hkernel, hpending, -, hcard⟩ := h
  refine ⟨by rw [hsocket], by rw [hsocket]; exact .inl rfl, by rw [hserver, hkernel]; exact .empty,
    ?_, ?_, ?_, ?_, by rw [hpending]; exact .nil, ?_, ?_, ?_⟩
  · rintro i sock ⟨-, hsock⟩
    rw [hserver] at hsock
    cases hsock
  · intro sock hhand
    rw [hacceptor] at hhand
    cases hhand
  · intro fd hfd hbase
    rw [hkernel] at hfd
    exact absurd hfd hbase
  · intro fd hfd fd' _ hbase
    rw [hkernel] at hfd
    exact absurd hfd hbase
  · intro j hj
    rw [hpending] at hj
    cases hj
  · rw [hkernel]
    exact Finset.empty_subset _
  · rw [hkernel, hpending]
    exact hcard

/-! ### What the steps do to the threads -/

/-- A thread goes on without a change of its part; the peers stay where they are. -/
theorem Threads.movesOn (h : Threads s) {pc : ClientPc} (hpc : MovesOn s k pc)
    {lock : Option Thread} {server : TcpServer} {kernel : Kernel} {stream : ℕ → Stream}
    {replies : ℕ → Replies}
    (hguards : Mutex.Guards lock Holds (Function.update s.pc (.client k) (.inr pc)))
    (hserver : ∀ i, (∃ sock, server.Connected i sock) ↔ ∃ sock, s.server.Connected i sock) :
    Threads
      { s.goto k pc with
        peerSocketsLock := lock, server := server, kernel := kernel, stream := stream,
        replies := replies } := by
  -- the thread keeps its slot, since it stays alive or dead
  have howned : (s.goto k pc).owned = s.owned := by
    rw [State.owned_goto, hpc.live]
    exact Function.update_eq_self (Thread.client k) s.owned
  refine ⟨h.running, h.acceptor, ?_, ?_, fun j hj => ?_, fun j x hx => ?_⟩
  · show Mutex.Guards lock Holds (s.goto k pc).pc
    rw [State.pc_goto]
    exact hguards
  · show Owned (s.goto k pc).owned _
    rw [howned]
    exact ⟨h.owned.unique, fun i => (hserver i).trans (h.owned.used_iff i)⟩
  · have hne : j ≠ k := by
      rintro rfl
      exact hpc.started (h.started j hj)
    exact (Function.update_of_ne hne ..).trans (h.started j hj)
  · rcases eq_or_ne j k with rfl | hne
    · replace hx : pc.pointer = some x := by simpa only [State.goto, Function.update_self] using hx
      rcases hpc.pointer x hx with hold | hslot
      · exact h.pointer j x hold
      · exact hslot
    · refine h.pointer j x ?_
      simpa only [State.goto, Function.update_of_ne hne] using hx

/-- A thread removes its peer. -/
theorem Threads.remove (h : Threads s) (hpc : s.client k = .removePeer) {server : TcpServer}
    {kernel : Kernel}
    (hserver : ∀ j x, server.Connected j x ↔ j ≠ s.peerIndex k ∧ s.server.Connected j x) :
    Threads { s.goto k .unlockRemove with server := server, kernel := kernel } := by
  refine ⟨h.running, h.acceptor, ?_, ?_, fun j hj => ?_, fun j x hx => ?_⟩
  · show Mutex.Guards s.peerSocketsLock Holds (s.goto k .unlockRemove).pc
    rw [State.pc_goto]
    exact h.guards.keep (by simp [State.pc, hpc])
  · -- the thread releases the slot it has freed
    show Owned (s.goto k .unlockRemove).owned _
    rw [State.owned_goto]
    refine h.owned.release (State.owned_client (by rw [hpc]; rfl)) fun j => ?_
    constructor
    · rintro ⟨sock, hj⟩
      exact ⟨((hserver j sock).mp hj).1, sock, ((hserver j sock).mp hj).2⟩
    · rintro ⟨hji, sock, hj⟩
      exact ⟨sock, (hserver j sock).mpr ⟨hji, hj⟩⟩
  · have hne : j ≠ k := by
      rintro rfl
      rw [h.started j hj] at hpc
      cases hpc
    exact (Function.update_of_ne hne ..).trans (h.started j hj)
  · rcases eq_or_ne j k with rfl | hne
    · simp [State.goto] at hx
    · refine h.pointer j x ?_
      simpa only [State.goto, Function.update_of_ne hne] using hx

/-- The acceptor goes on, with no thread to create before or after. -/
theorem Threads.acceptorMovesOn (h : Threads s) (pc : AcceptorPc) (hexited : pc ≠ .exited)
    (hslot : s.acceptor.slot = none) (hslot' : pc.slot = none) {lock : Option Thread}
    (hguards : Mutex.Guards lock Holds (Function.update s.pc .acceptor (.inl pc)))
    {socket : Socket} {kernel : Kernel} {connection : Descriptor → ℕ}
    {pending clientThreads : List ℕ} :
    Threads
      { s with
        peerSocketsLock := lock, acceptor := pc, socket := socket, kernel := kernel,
        connection := connection, pending := pending, clientThreads := clientThreads } := by
  have howned : State.owned { s with acceptor := pc } = s.owned := by
    rw [State.owned_acceptor, hslot', ← hslot]
    exact Function.update_eq_self Thread.acceptor s.owned
  refine ⟨h.running, hexited, ?_, ?_, h.started, h.pointer⟩
  · show Mutex.Guards lock Holds (State.pc { s with acceptor := pc })
    rw [State.pc_acceptor]
    exact hguards
  · show Owned (State.owned { s with acceptor := pc }) _
    rw [howned]
    exact h.owned

/-- The slot of a thread that is to free it holds a connected peer. -/
theorem Threads.exists_connected (h : Threads s) (hlive : (s.client k).live = true) :
    ∃ sock, s.server.Connected (s.peerIndex k) sock :=
  (h.owned.used_iff _).mpr ⟨.client k, State.owned_client hlive⟩

/-- The acceptor adds a peer, in a slot that is not in use. -/
theorem Threads.addPeer (h : Threads s) {peer : Socket} (hpc : s.acceptor = .addPeer peer)
    {r j : ℕ} {server : TcpServer} {kernel : Kernel} (hfree : ∀ sock, ¬s.server.Connected r sock)
    (hserver : ∀ i x, server.Connected i x ↔ i = r ∧ x = peer ∨ s.server.Connected i x) :
    Threads
      { s with
        server := server, peerSocket := Function.update s.peerSocket r j, kernel := kernel,
        acceptor := .newThread r } := by
  refine ⟨h.running, by simp, ?_, ?_, h.started, fun k x hx => ?_⟩
  · show Mutex.Guards s.peerSocketsLock Holds (State.pc { s with acceptor := .newThread r })
    rw [State.pc_acceptor]
    exact h.guards.keep (by simp [State.pc, hpc])
  · -- until it has created the thread of the peer, the acceptor itself owns the slot
    show Owned (State.owned { s with acceptor := .newThread r }) _
    rw [State.owned_acceptor]
    refine h.owned.claim (fun hc => hfree _ hc.choose_spec) (by rw [State.owned, hpc]; rfl) ?_
    intro i
    constructor
    · rintro ⟨sock, hi⟩
      rcases (hserver i sock).mp hi with ⟨hir, -⟩ | hi
      · exact .inl hir
      · exact .inr ⟨sock, hi⟩
    · rintro (rfl | ⟨sock, hi⟩)
      · exact ⟨peer, (hserver i peer).mpr (.inl ⟨rfl, rfl⟩)⟩
      · exact ⟨sock, (hserver i sock).mpr (.inr hi)⟩
  · obtain ⟨sock, hk⟩ := h.exists_connected (ClientPc.live_of_pointer hx)
    have hne : s.peerIndex k ≠ r := fun hc => hfree sock (hc ▸ hk)
    exact (h.pointer k x hx).trans (Function.update_of_ne hne ..).symm

/-- The acceptor creates the thread of a peer. -/
theorem Threads.newThread (h : Threads s) {i : ℕ} (hpc : s.acceptor = .newThread i) :
    Threads
      { s.goto s.started .setName with
        peerIndex := Function.update s.peerIndex s.started i, started := s.started + 1,
        acceptor := .emplaceBack s.started } := by
  have hnot := h.started s.started le_rfl
  have howned : State.owned
      { s.goto s.started .setName with
        peerIndex := Function.update s.peerIndex s.started i, started := s.started + 1,
        acceptor := .emplaceBack s.started } =
      Function.update (Function.update s.owned .acceptor none) (.client s.started) (some i) := by
    funext t
    rcases t with _ | j
    · rw [Function.update_of_ne (by simp), Function.update_self]
      rfl
    · rcases eq_or_ne j s.started with rfl | hj
      · simp [State.owned, State.goto]
      · rw [Function.update_of_ne (by simpa using hj), Function.update_of_ne (by simp)]
        simp only [State.owned, State.goto, Function.update_of_ne hj]
  refine ⟨h.running, by simp, ?_, ?_, fun k hk => ?_, fun k x hx => ?_⟩
  · show Mutex.Guards s.peerSocketsLock Holds
      (State.pc { s.goto s.started .setName with acceptor := .emplaceBack s.started })
    rw [State.pc_acceptor, State.pc_goto]
    exact (h.guards.keep (by simp [State.pc, hnot])).keep (by simp [State.pc, hpc])
  · -- the acceptor hands the slot over to the new thread
    rw [howned]
    exact h.owned.handOver (by rw [State.owned, hpc]; rfl) (by rw [State.owned, hnot]; rfl)
  · have hk : s.started + 1 ≤ k := hk
    exact (Function.update_of_ne (by omega) ..).trans (h.started k (by omega))
  · rcases eq_or_ne k s.started with rfl | hne
    · simp [State.goto] at hx
    · have hx : (s.client k).pointer = some x := by
        simpa only [State.goto, Function.update_of_ne hne] using hx
      refine (h.pointer k x hx).trans (congrArg s.peerSocket ?_)
      exact (Function.update_of_ne hne ..).symm

/-! ### What the steps do to the connections -/

/-- A thread goes on. -/
theorem Connections.goto (h : Connections p s) {pc : ClientPc} {lock : Option Thread}
    {stream : ℕ → Stream} {replies : ℕ → Replies} :
    Connections p
      { s.goto k pc with peerSocketsLock := lock, stream := stream, replies := replies } :=
  ⟨h.socket, h.listening, h.peers, h.peerSocket, h.hand, h.accepted, h.distinct, h.nodup,
    h.pending, h.blocking, h.capacity⟩

/-- The acceptor goes on, with the same socket in hand or none. -/
theorem Connections.acceptorMovesOn (h : Connections p s) (pc : AcceptorPc)
    (hhand : ∀ sock, pc.hand = some sock → s.acceptor.hand = some sock) {lock : Option Thread}
    {clientThreads : List ℕ} :
    Connections p
      { s with peerSocketsLock := lock, acceptor := pc, clientThreads := clientThreads } :=
  ⟨h.socket, h.listening, h.peers, h.peerSocket, fun sock hsock => h.hand sock (hhand sock hsock),
    h.accepted, h.distinct, h.nodup, h.pending, h.blocking, h.capacity⟩

/-- The peers after one of them has been marked as disconnected. -/
theorem Connections.lost (h : Connections p s) {pc : ClientPc} {i : ℕ} {flag : Bool} {sock : Socket}
    (hslot : s.server.Slot i flag sock) :
    Connections p
      { s.goto k pc with
        server := s.server.setPeerSocket i { sock with state := .disconnected } } := by
  refine ⟨h.socket, h.listening, h.peers.disconnect hslot, fun j x hj => ?_, fun x hx => ?_,
    h.accepted, h.distinct, h.nodup, h.pending, h.blocking, h.capacity⟩
  · obtain ⟨y, hy, heq⟩ := TcpServer.connected_disconnect h.peers.aligned hslot hj
    exact heq ▸ h.peerSocket j y hy
  · obtain ⟨hstate, hpos, hlt, hopen, hbase, hne⟩ := h.hand x hx
    refine ⟨hstate, hpos, hlt, hopen, hbase, fun j z hj => ?_⟩
    obtain ⟨y, hy, heq⟩ := TcpServer.connected_disconnect h.peers.aligned hslot hj
    exact heq ▸ hne j y hy

/-- A thread removes its peer. -/
theorem Connections.remove (h : Connections p s) (k : ℕ) (pc : ClientPc) {i : ℕ} {flag : Bool}
    {sock : Socket} (hslot : s.server.Slot i flag sock) {server : TcpServer}
    {closed : Option Descriptor} (hremove : s.server.removePeer i = some (server, closed)) :
    (∀ j x, server.Connected j x ↔ j ≠ i ∧ s.server.Connected j x) ∧
    Connections p
      { s.goto k pc with server := server, kernel := s.kernel.closeAny closed } := by
  obtain ⟨server', hremove', hconnected, hcases⟩ := h.peers.removePeer hslot
  rw [hremove] at hremove'
  cases hremove'
  have hpeerSocket : ∀ j x, server.Connected j x →
      s.peerSocket j = s.connection x.socketDescriptor :=
    fun j x hj => h.peerSocket j x ((hconnected j x).mp hj).2
  refine ⟨hconnected, ?_⟩
  rcases hcases with ⟨-, hclose, hpeers⟩ | ⟨-, rfl, hclose, hpeers⟩
  · -- `Socket::close` has not called `::close`: the descriptor stays open
    rw [hclose]
    refine ⟨h.socket, h.listening, hpeers, hpeerSocket, fun x hx => ?_, h.accepted, h.distinct,
      h.nodup, h.pending, h.blocking, h.capacity⟩
    obtain ⟨hstate, hpos, hlt, hopen, hbase, hne⟩ := h.hand x hx
    exact ⟨hstate, hpos, hlt, hopen, hbase, fun j y hj => hne j y ((hconnected j y).mp hj).2⟩
  · rw [hclose]
    refine ⟨h.socket, h.listening, hpeers, hpeerSocket, fun x hx => ?_, fun fd hfd => ?_,
      fun fd hfd fd' hfd' => ?_, h.nodup, h.pending, (Finset.erase_subset ..).trans h.blocking, ?_⟩
    · obtain ⟨hstate, hpos, hlt, hopen, hbase, hne⟩ := h.hand x hx
      exact ⟨hstate, hpos, hlt, Finset.mem_erase.mpr ⟨(hne i sock hslot).symm, hopen⟩, hbase,
        fun j y hj => hne j y ((hconnected j y).mp hj).2⟩
    · exact h.accepted fd (Finset.mem_of_mem_erase hfd)
    · exact h.distinct fd (Finset.mem_of_mem_erase hfd) fd' (Finset.mem_of_mem_erase hfd')
    · exact le_trans (Nat.add_le_add_right (Finset.card_erase_le ..) _) h.capacity

/-- **What `accept` does**: it times out, or the first of the pending clients gets a
descriptor. -/
theorem accept_cases (h : Connections p s) {accepted : Option Descriptor}
    (hpending : ∀ fd ∈ accepted, s.kernel.Fresh fd ∧ s.pending ≠ []) :
    (∃ kernel, accepted = none ∧
      accept accepted s = { s with kernel := kernel, acceptor := .check } ∧
      kernel.opened = s.kernel.opened ∧ kernel.nonBlocking ⊆ p.base) ∨
    ∃ fd j pending kernel, accepted = some fd ∧ s.pending = j :: pending ∧
      accept accepted s =
        { s with
          socket := { s.socket with state := .accepted }, kernel := kernel,
          connection := Function.update s.connection fd j, pending := pending,
          acceptor := .lock ⟨fd, .connected⟩ } ∧
      kernel.opened = insert fd s.kernel.opened ∧ kernel.nonBlocking ⊆ p.base := by
  have hbase : insert s.socket.socketDescriptor s.kernel.nonBlocking ⊆ p.base := by
    rw [h.socket]
    exact Finset.insert_subset p.acceptor_mem h.blocking
  rcases s.socket.accept_cases accepted s.kernel with
    ⟨kernel, haccept, hnone, hopened, -, hblocking⟩ |
    ⟨fd, kernel, rfl, haccept, hopened, -, hblocking⟩
  · refine .inl ⟨kernel, hnone h.listening, ?_, hopened, hblocking.trans hbase⟩
    rw [accept, haccept]
  · rcases hp : s.pending with _ | ⟨j, pending⟩
    · exact absurd hp (hpending fd rfl).2
    · refine .inr ⟨fd, j, pending, kernel, rfl, rfl, ?_, hopened,
        hblocking.trans ((Finset.erase_subset ..).trans hbase)⟩
      rw [accept, haccept, hp]

/-- The acceptor has waited for nothing. -/
theorem Connections.timeout (h : Connections p s) {kernel : Kernel}
    (hopened : kernel.opened = s.kernel.opened) (hblocking : kernel.nonBlocking ⊆ p.base) :
    Connections p { s with kernel := kernel, acceptor := .check } := by
  refine ⟨h.socket, h.listening, ?_, h.peerSocket, nofun, ?_, ?_, h.nodup, h.pending, hblocking, ?_⟩
  all_goals dsimp only
  all_goals rw [hopened]
  exacts [h.peers, h.accepted, h.distinct, h.capacity]

/-- A client gets a descriptor. -/
theorem Connections.accept (h : Connections p s) {fd : Descriptor} {j : ℕ} {pending : List ℕ}
    {kernel : Kernel} (hfresh : s.kernel.Fresh fd)
    (hpending : s.pending = j :: pending) (hopened : kernel.opened = insert fd s.kernel.opened)
    (hblocking : kernel.nonBlocking ⊆ p.base) :
    Connections p
      { s with
        socket := { s.socket with state := .accepted }, kernel := kernel,
        connection := Function.update s.connection fd j, pending := pending,
        acceptor := .lock ⟨fd, .connected⟩ } := by
  obtain ⟨hnonneg, hlt, hnew⟩ := hfresh
  have hbase : fd ∉ p.base := fun hc => hnew (h.peers.base hc)
  have hpos : 0 < fd := by
    refine lt_of_le_of_ne hnonneg ?_
    rintro rfl
    exact hbase p.zero_mem
  have hnodup := h.nodup
  rw [hpending, List.nodup_cons] at hnodup
  have hj : j ∈ s.pending := hpending ▸ List.mem_cons_self
  have hpeer : ∀ i x, s.server.Connected i x → x.socketDescriptor ≠ fd := by
    rintro i x hi rfl
    exact hnew (h.peers.peer i x hi).2.2.1
  -- the descriptors that were open before lead where they led, and not to the new client
  have hother : ∀ x ∈ s.kernel.opened, x ∉ p.base →
      Function.update s.connection fd j x = s.connection x ∧ s.connection x ≠ j := by
    intro x hx hxbase
    refine ⟨Function.update_of_ne ?_ .., ?_⟩
    · rintro rfl
      exact hnew hx
    · rintro rfl
      exact (h.accepted x hx hxbase).2 hj
  refine ⟨h.socket, .inr rfl, ?_, fun i x hi => ?_, ?_, fun x hx hxbase => ?_,
    fun x hx y hy hxbase hybase heq => ?_, hnodup.2, fun i hi => ?_, hblocking, ?_⟩
  · show Peers p kernel.opened s.server
    rw [hopened]
    exact h.peers.mono (Finset.subset_insert ..)
  · exact (h.peerSocket i x hi).trans (Function.update_of_ne (hpeer i x hi) ..).symm
  · rintro sock ⟨⟩
    refine ⟨rfl, hpos, hlt, ?_, hbase, hpeer⟩
    show fd ∈ kernel.opened
    rw [hopened]
    exact Finset.mem_insert_self ..
  · replace hx : x ∈ insert fd s.kernel.opened := hopened ▸ hx
    show Function.update s.connection fd j x < s.connected ∧
      Function.update s.connection fd j x ∉ pending
    rcases Finset.mem_insert.mp hx with rfl | hx
    · rw [Function.update_self]
      exact ⟨h.pending j hj, hnodup.1⟩
    · rw [(hother x hx hxbase).1]
      obtain ⟨hlt, hnot⟩ := h.accepted x hx hxbase
      exact ⟨hlt, fun hc => hnot (hpending ▸ List.mem_cons_of_mem j hc)⟩
  · replace hx : x ∈ insert fd s.kernel.opened := hopened ▸ hx
    replace hy : y ∈ insert fd s.kernel.opened := hopened ▸ hy
    replace heq : Function.update s.connection fd j x = Function.update s.connection fd j y := heq
    rcases Finset.mem_insert.mp hx with rfl | hxold
    · rcases Finset.mem_insert.mp hy with rfl | hyold
      · rfl
      · rw [Function.update_self, (hother y hyold hybase).1] at heq
        exact absurd heq.symm (hother y hyold hybase).2
    · rcases Finset.mem_insert.mp hy with rfl | hyold
      · rw [Function.update_self, (hother x hxold hxbase).1] at heq
        exact absurd heq (hother x hxold hxbase).2
      · rw [(hother x hxold hxbase).1, (hother y hyold hybase).1] at heq
        exact h.distinct x hxold y hyold hxbase hybase heq
  · exact h.pending i (hpending ▸ List.mem_cons_of_mem j hi)
  · have hcapacity := h.capacity
    rw [hpending, List.length_cons] at hcapacity
    show kernel.opened.card + pending.length ≤ 2 ^ 31
    rw [hopened, Finset.card_insert_of_notMem hnew]
    omega

/-- The acceptor adds the peer it has in hand. -/
theorem Connections.addPeer (h : Connections p s) {peer : Socket} (hpc : s.acceptor = .addPeer peer)
    {r : ℕ} {server : TcpServer} {closed : Option Descriptor}
    (hadd : s.server.addPeer peer = (r, server, closed)) :
    closed = none ∧ (∀ sock, ¬s.server.Connected r sock) ∧
    (∀ i x, server.Connected i x ↔ i = r ∧ x = peer ∨ s.server.Connected i x) ∧
    Connections p
      { s with
        server := server,
        peerSocket := Function.update s.peerSocket r (s.connection peer.socketDescriptor),
        acceptor := .newThread r } := by
  obtain ⟨hstate, hpos, hlt, hopen, hbase, hne⟩ := h.hand peer (by rw [hpc]; rfl)
  obtain ⟨fd, state⟩ := peer
  obtain rfl : state = .connected := hstate
  obtain ⟨-, hfree, hconnected, -, -⟩ :=
    TcpServer.connected_addPeer h.peers.aligned h.peers.length_lt hadd
  refine ⟨h.peers.closed_addPeer hadd, hfree, hconnected, h.socket, h.listening,
    h.peers.addPeer hpos hlt hopen hbase hne hadd, fun i x hi => ?_, nofun, h.accepted, h.distinct,
    h.nodup, h.pending, h.blocking, h.capacity⟩
  rcases (hconnected i x).mp hi with ⟨rfl, rfl⟩ | hold
  · exact Function.update_self ..
  · have hir : i ≠ r := by
      rintro rfl
      exact hfree x hold
    exact (Function.update_of_ne hir ..).trans (h.peerSocket i x hold)

/-- Another client has connected. -/
theorem Connections.connect (h : Connections p s) {stream : ℕ → Stream}
    {replies : ℕ → Replies}
    (hcapacity : s.kernel.opened.card + s.pending.length < 2 ^ 31) :
    Connections p
      { s with
        pending := s.pending ++ [s.connected], stream := stream, replies := replies,
        connected := s.connected + 1 } := by
  refine ⟨h.socket, h.listening, h.peers, h.peerSocket, h.hand, fun fd hfd hbase => ?_, h.distinct,
    ?_, fun j hj => ?_, h.blocking, ?_⟩
  · obtain ⟨hlt, hnot⟩ := h.accepted fd hfd hbase
    refine ⟨hlt.trans (Nat.lt_succ_self _), fun hc => ?_⟩
    rcases List.mem_append.mp hc with hc | hc
    · exact hnot hc
    · exact hlt.ne (List.mem_singleton.mp hc)
  · refine List.nodup_append.mpr ⟨h.nodup, List.nodup_singleton _, fun i hi j hj => ?_⟩
    exact List.mem_singleton.mp hj ▸ (h.pending i hi).ne
  · rcases List.mem_append.mp hj with hj | hj
    · exact (h.pending j hj).trans (Nat.lt_succ_self _)
    · exact List.mem_singleton.mp hj ▸ Nat.lt_succ_self _
  · show s.kernel.opened.card + (s.pending ++ [s.connected]).length ≤ 2 ^ 31
    rw [List.length_append, List.length_singleton]
    omega

/-! ### What the steps do to the replies -/

theorem backlog_init (h : (system p).Init s) : Backlog s := by
  obtain ⟨-, -, -, -, -, -, -, -, -, -, hconnected, -⟩ := h
  refine ⟨fun j hj => ?_, fun j hj => ?_⟩
  all_goals
    rw [hconnected] at hj
    exact absurd hj (Nat.not_lt_zero j)

/-- Nothing is sent, and nothing received. -/
theorem Backlog.congr (h : Backlog s) (hconnected : s'.connected = s.connected)
    (hreplies : s'.replies = s.replies) (hcapacity : s'.capacity = s.capacity)
    (hstream : s'.stream = s.stream) : Backlog s' := by
  refine ⟨?_, ?_⟩
  · rw [hconnected, hreplies, hcapacity]
    exact h.room
  · rw [hconnected, hreplies, hstream]
    exact h.unbroken

/-- A `receive` brings about no error. -/
theorem Stream.Receives.error_eq_none {blocking : Prop} {st st' : Stream} {r : Received}
    (h : st.Receives blocking r st') (hst : st.error = none) : st'.error = none := by
  cases h with
  | error => rfl
  | _ => exact hst

/-- What happens to one client does not matter to the others. -/
theorem Backlog.of_other (h : Backlog s) (j : ℕ) (hconnected : s'.connected = s.connected)
    (hcapacity : s'.capacity = s.capacity)
    (hother : ∀ i, i ≠ j → s'.replies i = s.replies i ∧ s'.stream i = s.stream i)
    (hself : j < s.connected → (s'.replies j).gone = false →
      (s'.replies j).outstanding ≤ s.capacity j ∧ (s'.stream j).error = none) : Backlog s' := by
  refine ⟨fun i hi hgone => ?_, fun i hi hgone => ?_⟩
  all_goals
    rw [hconnected] at hi
    by_cases hne : i = j
  · subst hne
    exact hcapacity ▸ (hself hi hgone).1
  · rw [(hother i hne).1] at hgone ⊢
    exact hcapacity ▸ h.room i hi hgone
  · subst hne
    exact (hself hi hgone).2
  · rw [(hother i hne).1] at hgone
    rw [(hother i hne).2]
    exact h.unbroken i hi hgone

/-- Another client has connected. -/
theorem Backlog.connect (h : Backlog s) {pending : List ℕ} :
    Backlog
      { s with
        pending := pending
        stream := Function.update s.stream s.connected .silent
        replies := Function.update s.replies s.connected .none
        connected := s.connected + 1 } := by
  refine ⟨fun i hi hgone => ?_, fun i hi hgone => ?_⟩
  all_goals
    dsimp only at hi hgone ⊢
    rcases eq_or_ne i s.connected with rfl | hne
  · rw [Function.update_self]
    exact Nat.zero_le _
  · rw [Function.update_of_ne hne] at hgone ⊢
    exact h.room i (lt_of_le_of_ne (Nat.lt_succ_iff.mp hi) hne) hgone
  · rw [Function.update_self]
    rfl
  · rw [Function.update_of_ne hne] at hgone
    rw [Function.update_of_ne hne]
    exact h.unbroken i (lt_of_le_of_ne (Nat.lt_succ_iff.mp hi) hne) hgone

/-- The bytes that a client sends, or the end of its stream, are no error. -/
theorem Backlog.stream (h : Backlog s) (j : ℕ) {st : Stream}
    (hst : (s.stream j).error = none → st.error = none) :
    Backlog { s with stream := Function.update s.stream j st } := by
  refine h.of_other j rfl rfl (fun i hi => ⟨rfl, Function.update_of_ne hi ..⟩) fun hj hgone => ?_
  refine ⟨h.room j hj hgone, ?_⟩
  dsimp only
  rw [Function.update_self]
  exact hst (h.unbroken j hj hgone)

/-- A client that is gone may leave as many replies unread as there are. -/
theorem Backlog.gone (h : Backlog s) (j : ℕ) {st : Stream} {r : Replies} (hr : r.gone = true) :
    Backlog
      { s with
        stream := Function.update s.stream j st, replies := Function.update s.replies j r } := by
  refine h.of_other j rfl rfl
    (fun i hi => ⟨Function.update_of_ne hi .., Function.update_of_ne hi ..⟩) fun _ hgone => ?_
  dsimp only at hgone
  rw [Function.update_self, hr] at hgone
  cases hgone

/-- A client reads. -/
theorem Backlog.read (h : Backlog s) (j n : ℕ) :
    Backlog
      { s with
        replies := Function.update s.replies j
          { s.replies j with outstanding := (s.replies j).outstanding - n } } := by
  refine h.of_other j rfl rfl (fun i hi => ⟨Function.update_of_ne hi .., rfl⟩) fun hj hgone => ?_
  dsimp only at hgone ⊢
  rw [Function.update_self] at hgone ⊢
  exact ⟨(Nat.sub_le ..).trans (h.room j hj hgone), h.unbroken j hj hgone⟩

/-- **A reply is sent** only if there is room for it. -/
theorem Backlog.reply (h : Backlog s) {j : ℕ} (hfull : s.full j = false) (pc : ClientPc) :
    Backlog ((s.goto k pc).reply j) := by
  refine h.of_other j rfl rfl (fun i hi => ⟨Function.update_of_ne hi .., rfl⟩) fun hj hgone => ?_
  dsimp only [State.reply, State.goto] at hgone ⊢
  rw [Function.update_self] at hgone ⊢
  refine ⟨?_, h.unbroken j hj hgone⟩
  by_contra hc
  rw [State.full_eq_true.mpr ⟨hgone, not_le.mp hc⟩] at hfull
  cases hfull

/-! ### The invariant along a run -/

/-- **The invariant**: that of the threads, that of the connections, and that of the replies. -/
structure Inv (p : Process) (s : State) : Prop where
  threads : Threads s
  connections : Connections p s
  backlog : Backlog s

/-- **The invariant is kept by every step of a client's thread.** -/
theorem Inv.clientStep (h : Inv p s) (hs : clientStep k s = some s') : Inv p s' := by
  obtain ⟨ht, hc, hb⟩ := h
  rcases clientStep_cases ht.running hs with ⟨pc, hpc, -, hout, hout'⟩ |
    ⟨pc, hpc, -, hfree, hin⟩ | ⟨pc, hpc, -, hin, hout⟩ |
    ⟨x, read, error, sock, hpc, hlost, hsock⟩ | ⟨server, closed, hpc, hremove⟩ |
    ⟨pc, x, bytes, sock, hpc, -, hout, hk, -, hfull⟩
  · have hkeep : Holds (.inr pc) ↔ Holds (s.pc (.client k)) :=
      iff_of_false (ne_true_of_eq_false hout') (ne_true_of_eq_false hout)
    exact ⟨ht.movesOn hpc (ht.guards.keep hkeep) fun _ => Iff.rfl, hc.goto,
      hb.congr rfl rfl rfl rfl⟩
  · have hguards := ht.guards
    rw [hfree] at hguards
    exact ⟨ht.movesOn hpc (hguards.lock hin) fun _ => Iff.rfl, hc.goto, hb.congr rfl rfl rfl rfl⟩
  · refine ⟨ht.movesOn hpc ?_ fun _ => Iff.rfl, hc.goto, hb.congr rfl rfl rfl rfl⟩
    exact ht.guards.unlock hin (ne_true_of_eq_false hout)
  · -- `isConnectionLost` marks the peer of the thread, which stays connected
    have hsock : s.server.peerSockets[s.peerIndex k]? = some sock := by
      rw [State.deref] at hsock
      split_ifs at hsock
      exact hsock
    obtain ⟨sock', hconnected⟩ := ht.exists_connected (k := k) (by rw [hpc]; rfl)
    obtain rfl : sock' = sock := Option.some_inj.mp (hconnected.2.symm.trans hsock)
    obtain ⟨-, hslots⟩ := TcpServer.slot_setPeerSocket hc.peers.aligned hconnected
      { sock' with state := .disconnected }
    have hmoves : MovesOn s k .lockRemove :=
      ⟨by simp [hpc], by simp [hpc], by simp⟩
    refine ⟨ht.movesOn hmoves (ht.guards.keep (by simp [State.pc, hpc])) fun i => ?_,
      hc.lost hconnected, hb.congr rfl rfl rfl rfl⟩
    constructor
    · rintro ⟨x, hi⟩
      rcases (hslots i true x).mp hi with ⟨rfl, -, -⟩ | ⟨-, hi⟩
      · exact ⟨sock', hconnected⟩
      · exact ⟨x, hi⟩
    · rintro ⟨x, hi⟩
      by_cases hik : i = s.peerIndex k
      · exact ⟨_, (hslots i true _).mpr (.inl ⟨hik, rfl, rfl⟩)⟩
      · exact ⟨x, (hslots i true x).mpr (.inr ⟨hik, hi⟩)⟩
  · -- `removePeer`: the thread gives up its slot
    obtain ⟨sock, hconnected⟩ := ht.exists_connected (k := k) (by rw [hpc]; rfl)
    obtain ⟨hserver, hc⟩ := hc.remove k .unlockRemove hconnected hremove
    exact ⟨ht.remove hpc hserver, hc, hb.congr rfl rfl rfl rfl⟩
  · have hkeep : Holds (.inr pc) ↔ Holds (s.pc (.client k)) :=
      iff_of_false (ne_true_of_eq_false hout) (by simp [State.pc, hk])
    exact ⟨ht.movesOn hpc (ht.guards.keep hkeep) fun _ => Iff.rfl, hc.goto, hb.reply hfull pc⟩

/-- **The invariant is kept by every step of the acceptor.** -/
theorem Inv.acceptorStep (h : Inv p s) (hs : acceptorStep s = some s') : Inv p s' := by
  obtain ⟨ht, hc, hb⟩ := h
  rcases acceptorStep_cases ht.running hs with hpc | ⟨sock, hpc, hlock⟩ |
    ⟨sock, r, server, closed, hpc, hadd⟩ | ⟨i, hpc⟩ | ⟨k, hpc⟩ | hpc
  · exact ⟨ht.acceptorMovesOn .accept nofun (by rw [hpc]; rfl) rfl
      (ht.guards.keep (by simp [State.pc, hpc])), hc.acceptorMovesOn .accept nofun,
      hb.congr rfl rfl rfl rfl⟩
  · have hguards := ht.guards
    rw [hlock] at hguards
    exact ⟨ht.acceptorMovesOn (.addPeer sock) nofun (by rw [hpc]; rfl) rfl (hguards.lock rfl),
      hc.acceptorMovesOn (.addPeer sock) fun x hx => by rwa [hpc], hb.congr rfl rfl rfl rfl⟩
  · -- `addPeer` overwrites a socket only in a slot that nobody owns
    obtain ⟨rfl, hfree, hserver, hc⟩ := hc.addPeer hpc hadd
    exact ⟨ht.addPeer hpc hfree hserver, hc, hb.congr rfl rfl rfl rfl⟩
  · exact ⟨ht.newThread hpc, ⟨hc.socket, hc.listening, hc.peers, hc.peerSocket, nofun, hc.accepted,
      hc.distinct, hc.nodup, hc.pending, hc.blocking, hc.capacity⟩, hb.congr rfl rfl rfl rfl⟩
  · exact ⟨ht.acceptorMovesOn .unlock nofun (by rw [hpc]; rfl) rfl
      (ht.guards.keep (by simp [State.pc, hpc])), hc.acceptorMovesOn .unlock nofun,
      hb.congr rfl rfl rfl rfl⟩
  · exact ⟨ht.acceptorMovesOn .check nofun (by rw [hpc]; rfl) rfl
      (ht.guards.unlock (by simp [State.pc, hpc]) (by simp)), hc.acceptorMovesOn .check nofun,
      hb.congr rfl rfl rfl rfl⟩

/-- **The invariant is kept by every step.** -/
theorem Inv.step {a : Action} (h : Inv p s) (hs : (system p).Step s a s') : Inv p s' := by
  obtain ⟨ht, hc, hb⟩ := h
  -- what the clients do changes the streams and the replies only
  have hthreads : ∀ stream replies, Threads { s with stream := stream, replies := replies } :=
    fun _ _ => ⟨ht.running, ht.acceptor, ht.guards, ht.owned, ht.started, ht.pointer⟩
  have hconnections : ∀ stream replies,
      Connections p { s with stream := stream, replies := replies } :=
    fun _ _ => ⟨hc.socket, hc.listening, hc.peers, hc.peerSocket, hc.hand, hc.accepted,
      hc.distinct, hc.nodup, hc.pending, hc.blocking, hc.capacity⟩
  rcases hs with hcapacity | ⟨j, bytes, -, -⟩ | ⟨j, -⟩ | ⟨j, error, -⟩ |
    ⟨accepted, hpc, hpending⟩ | hs | ⟨k, x, sock, received, st, hpc, -, hst⟩ | ⟨k, hs⟩ |
    ⟨j, n, -⟩ | ⟨j, -⟩
  · exact ⟨⟨ht.running, ht.acceptor, ht.guards, ht.owned, ht.started, ht.pointer⟩,
      hc.connect hcapacity, hb.connect⟩
  · exact ⟨hthreads _ s.replies, hconnections _ s.replies, hb.stream j id⟩
  · exact ⟨hthreads _ s.replies, hconnections _ s.replies, hb.stream j id⟩
  · exact ⟨hthreads _ _, hconnections _ _, hb.gone j rfl⟩
  · -- `accept` times out, or returns a new descriptor for the first pending client
    rcases accept_cases hc hpending with ⟨kernel, -, heq, hopened, hblocking⟩ |
      ⟨fd, j, pending, kernel, rfl, hcons, heq, hopened, hblocking⟩
    · rw [heq]
      exact ⟨ht.acceptorMovesOn .check nofun (by rw [hpc]; rfl) rfl
        (ht.guards.keep (by simp [State.pc, hpc])), hc.timeout hopened hblocking,
        hb.congr rfl rfl rfl rfl⟩
    · rw [heq]
      exact ⟨ht.acceptorMovesOn (.lock ⟨fd, .connected⟩) nofun (by rw [hpc]; rfl) rfl
          (ht.guards.keep (by simp [State.pc, hpc])),
        hc.accept (hpending fd rfl).1 hcons hopened hblocking, hb.congr rfl rfl rfl rfl⟩
  · exact Inv.acceptorStep ⟨ht, hc, hb⟩ hs
  · have hmoves : MovesOn s k (.unlock x received) :=
      ⟨by simp [hpc], by simp [hpc], by simp [hpc]⟩
    exact ⟨ht.movesOn hmoves (ht.guards.keep (by simp [State.pc, hpc])) fun _ => Iff.rfl, hc.goto,
      (hb.stream _ hst.error_eq_none).congr rfl rfl rfl rfl⟩
  · exact Inv.clientStep ⟨ht, hc, hb⟩ hs
  · exact ⟨hthreads s.stream _, hconnections s.stream _, hb.read j n⟩
  · exact ⟨hthreads _ _, hconnections _ _, hb.gone j rfl⟩

/-- **The invariant holds along every run.** -/
theorem inv_of_run {tr : List Action} (hrun : (system p).Run tr s) : Inv p s :=
  hrun.invariant (I := fun _ s => Inv p s)
    (fun _ h => ⟨threads_init h, connections_init h, backlog_init h⟩)
    fun _ _ _ _ _ h hs => h.step hs

end ThreadPerClient

end Net

end LowLatency
