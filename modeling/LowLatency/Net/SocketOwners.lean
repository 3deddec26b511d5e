import LowLatency.Foundations.Issue
import LowLatency.Net.ThreadPerClient

/-!
# Who a descriptor belongs to

A `Socket` keeps the number of its descriptor after it has closed it, in a slot that is
free, until `addPeer` uses the slot again and destroys the object. By then the kernel has
very likely issued the number to another connection. This file follows the objects rather
than the numbers: every socket made by `Socket::accept` is an object of its own, and the
kernel remembers for which object it has issued a number last. Whatever is called on the
slots, and until the last member of the server has been destroyed, a `::close` that a
`Socket` executes is for a descriptor that is open and that is its own
(`LowLatency.Net.SocketOwners.no_foreign_close`).

The calls that concern the descriptors may come in any order here, as different threads of
a server may make them; other parts of the process open and close descriptors as well.
-/

namespace LowLatency

namespace Net

namespace SocketOwners

open TcpServer (Slot Connected Aligned)

/-! ### The objects -/

/-- For whom the kernel has issued a descriptor. -/
inductive Owner where
  /-- The member `m_socket`. -/
  | acceptor : Owner
  /-- The socket made by the `k`-th successful `Socket::accept`. -/
  | peer (k : ℕ) : Owner
  /-- Something else in the process. -/
  | other : Owner

/-- The server is used, or is being destroyed: `m_socket` has been, and `n` peers. -/
inductive Phase where
  | running : Phase
  | destroying (n : ℕ) : Phase

/-- The members of the server, with the number of the object in each slot, and the kernel,
with the object it has issued each descriptor for. -/
structure State where
  server : TcpServer
  /-- `m_socket`, the acceptor. -/
  socket : Socket
  /-- A socket that `accept` has returned and that has still to be added. -/
  accepted : Option (ℕ × Socket)
  object : ℕ → ℕ
  /-- How many sockets `accept` has made. -/
  created : ℕ
  kernel : Kernel
  issued : Descriptor → Owner
  phase : Phase

/-- A call of `::close`, by the object that executes it. -/
abbrev Close := Owner × Descriptor

/-- `m_socket.accept(m_acceptTimeout)`. -/
def accept (accepted : Option Descriptor) (s : State) : State :=
  match s.socket.accept accepted s.kernel with
  | (some peerSocket, socket, kernel) =>
    { s with
      socket := socket
      kernel := kernel
      accepted := some (s.created, peerSocket)
      created := s.created + 1
      issued := Function.update s.issued peerSocket.socketDescriptor (.peer s.created) }
  | (none, socket, kernel) => { s with socket := socket, kernel := kernel }

/-- `addPeer`; the object that was in the slot executes the `::close`. -/
def addPeer (k : ℕ) (peer : Socket) (s : State) : Option Close × State :=
  let (peerIndex, server, closed) := s.server.addPeer peer
  (closed.map fun fd => (.peer (s.object peerIndex), fd),
    { s with
      server := server
      object := Function.update s.object peerIndex k
      accepted := none
      kernel := s.kernel.closeAny closed })

/-- `isConnectionLost` on the peer `i`. -/
def isConnectionLost (i : ℕ) (error : ℤ) (s : State) : Option State :=
  s.server.peerSockets[i]?.map fun peerSocket =>
    { s with server := s.server.setPeerSocket i (peerSocket.isConnectionLost error).2 }

/-- `removePeer`. -/
def removePeer (i : ℕ) (s : State) : Option (Option Close × State) :=
  (s.server.removePeer i).map fun (server, closed) =>
    (closed.map fun fd => (.peer (s.object i), fd),
      { s with server := server, kernel := s.kernel.closeAny closed })

/-- The destructor of `m_socket`, the member declared last. -/
def destroySocket (s : State) : Option Close × State :=
  let (socket, closed) := s.socket.close
  (closed.map fun fd => (.acceptor, fd),
    { s with socket := socket, kernel := s.kernel.closeAny closed, phase := .destroying 0 })

/-- The destructor of the next of the peers. -/
def destroyPeer (n : ℕ) (s : State) : Option (Option Close × State) :=
  s.server.peerSockets[n]?.map fun peerSocket =>
    let (socket, closed) := peerSocket.close
    (closed.map fun fd => (.peer (s.object n), fd),
      { s with
        server := s.server.setPeerSocket n socket
        kernel := s.kernel.closeAny closed
        phase := .destroying (n + 1) })

/-- The steps, with the `::close` a `Socket` executes in it. -/
inductive Step (p : Process) : State → Option Close → State → Prop
  | accept {s : State} (accepted : Option Descriptor) : s.phase = .running → s.accepted = none →
      (∀ fd ∈ accepted, s.kernel.Fresh fd) → Step p s none (accept accepted s)
  | addPeer {s : State} (k : ℕ) (peer : Socket) : s.phase = .running →
      s.accepted = some (k, peer) → Step p s (addPeer k peer s).1 (addPeer k peer s).2
  | isConnectionLost {s s' : State} (i : ℕ) (error : ℤ) : s.phase = .running →
      isConnectionLost i error s = some s' → Step p s none s'
  | removePeer {s s' : State} {closed : Option Close} (i : ℕ) : s.phase = .running →
      removePeer i s = some (closed, s') → Step p s closed s'
  | destroySocket {s : State} : s.phase = .running →
      Step p s (destroySocket s).1 (destroySocket s).2
  | destroyPeer {s s' : State} {closed : Option Close} (n : ℕ) : s.phase = .destroying n →
      destroyPeer n s = some (closed, s') → Step p s closed s'
  /-- Another part of the process opens a descriptor. -/
  | openOther {s : State} (fd : Descriptor) : s.kernel.Fresh fd →
      Step p s none
        { s with kernel := s.kernel.accept fd, issued := Function.update s.issued fd .other }
  /-- Another part of the process closes a descriptor it has opened. -/
  | closeOther {s : State} (fd : Descriptor) : s.issued fd = .other → fd ∉ p.base →
      Step p s none { s with kernel := s.kernel.close fd }

/-- **The server and the kernel**, from the end of `start` on. -/
def system (p : Process) : TransitionSystem State (Option Close) where
  Init s := s.server = ⟨[], []⟩ ∧ s.socket = ⟨p.acceptor, .listening⟩ ∧ s.accepted = none ∧
    s.created = 0 ∧ s.kernel = ⟨p.base, ∅, ∅⟩ ∧ s.issued p.acceptor = .acceptor ∧
    s.phase = .running
  Step := Step p

/-! ### The invariant -/

variable {p : Process} {s s' : State} {o : Owner} {fd : Descriptor} {k : ℕ} {sock : Socket}

/-- **The object holds the descriptor**: it is going to close it. -/
inductive Holds (s : State) : Owner → Descriptor → Prop
  | acceptor : s.socket.state ≠ .disconnected → Holds s .acceptor s.socket.socketDescriptor
  | slot (i : ℕ) (sock : Socket) : s.server.peerSockets[i]? = some sock →
      sock.state ≠ .disconnected → Holds s (.peer (s.object i)) sock.socketDescriptor
  | accepted (k : ℕ) (sock : Socket) : s.accepted = some (k, sock) →
      sock.state ≠ .disconnected → Holds s (.peer k) sock.socketDescriptor

/-- The numbers of the objects are different. -/
structure Numbered (s : State) : Prop where
  slot_lt : ∀ i sock, s.server.peerSockets[i]? = some sock → s.object i < s.created
  slot_inj : ∀ i j sock sock', s.server.peerSockets[i]? = some sock →
    s.server.peerSockets[j]? = some sock' → s.object i = s.object j → i = j
  accepted_lt : ∀ k sock, s.accepted = some (k, sock) → k < s.created
  accepted_ne : ∀ k sock, s.accepted = some (k, sock) →
    ∀ i sock', s.server.peerSockets[i]? = some sock' → s.object i ≠ k

/-- What holds until the destruction. -/
structure Running (p : Process) (s : State) : Prop where
  peers : Peers p s.kernel.opened s.server
  listening : s.socket.state = .listening ∨ s.socket.state = .accepted
  /-- The socket that has still to be added is like a peer's. -/
  accepted : ∀ k sock, s.accepted = some (k, sock) → sock.state = .connected ∧
    0 < sock.socketDescriptor ∧ sock.socketDescriptor < 2 ^ 31 ∧
    sock.socketDescriptor ∈ s.kernel.opened ∧ sock.socketDescriptor ∉ p.base ∧
    ∀ i x, s.server.Connected i x → x.socketDescriptor ≠ sock.socketDescriptor
  /-- No other part of the process has the descriptor of a connected peer, not even of one
  whose connection has been lost. -/
  issued : ∀ i sock, s.server.Connected i sock → s.issued sock.socketDescriptor ≠ .other

/-- **The invariant.** -/
structure Inv (p : Process) (s : State) : Prop where
  running : s.phase = .running → Running p s
  issued : Issued s.kernel.opened s.issued (Holds s)
  numbered : Numbered s

theorem inv_init (h : (system p).Init s) : Inv p s := by
  obtain ⟨hserver, hsocket, haccepted, -, hkernel, hissued, -⟩ := h
  have hnone : ∀ (i : ℕ) (sock : Socket), s.server.peerSockets[i]? ≠ some sock := by
    intro i sock hi
    rw [hserver] at hi
    cases hi
  have hhand : ∀ k sock, s.accepted ≠ some (k, sock) := by
    intro k sock hk
    rw [haccepted] at hk
    cases hk
  have hholds : ∀ o x, Holds s o x → o = .acceptor ∧ x = p.acceptor := by
    rintro _ _ (_ | ⟨i, sock, hi, -⟩ | ⟨k, sock, hk, -⟩)
    · rw [hsocket]
      exact ⟨rfl, rfl⟩
    · exact absurd hi (hnone i sock)
    · exact absurd hk (hhand k sock)
  refine ⟨fun _ => ⟨?_, ?_, fun k sock hk => absurd hk (hhand k sock),
    fun i sock hi => absurd hi.2 (hnone i sock)⟩, ⟨fun o x hx => ?_, fun o x hx => ?_⟩,
    ⟨fun i sock hi => absurd hi (hnone i sock), fun i _ sock _ hi => absurd hi (hnone i sock),
      fun k sock hk => absurd hk (hhand k sock), fun k sock hk => absurd hk (hhand k sock)⟩⟩
  · rw [hserver, hkernel]
    exact .empty
  · rw [hsocket]
    exact .inl rfl
  · rw [(hholds o x hx).2, hkernel]
    exact p.acceptor_mem
  · obtain ⟨rfl, rfl⟩ := hholds o x hx
    exact hissued

/-! ### What a close does -/

/-- What `Socket::close` passes to `::close` is the descriptor of a socket that is not
disconnected. -/
theorem close_eq_some (h : sock.close.2 = some fd) :
    sock.state ≠ .disconnected ∧ sock.socketDescriptor = fd := by
  rw [Socket.close] at h
  split_ifs at h with hstate hpos
  exact ⟨hstate, Option.some.inj h⟩

/-- **The descriptors after the `close` of an object** that holds none afterwards. -/
theorem issued_close {issued : Descriptor → Owner}
    {holds holds' : Owner → Descriptor → Prop} {kernel : Kernel}
    (h : Issued kernel.opened issued holds)
    (hsock : sock.state ≠ .disconnected → holds o sock.socketDescriptor)
    (hsub : ∀ o' x, holds' o' x → o' ≠ o ∧ holds o' x) :
    Issued (kernel.closeAny sock.close.2).opened issued holds' := by
  rcases hclose : sock.close.2 with _ | fd
  · exact h.keep subset_rfl fun o' x hx => (hsub o' x hx).2
  · obtain ⟨hstate, rfl⟩ := close_eq_some hclose
    exact h.close (h.eq _ _ (hsock hstate)) hsub

/-- Nothing but the sockets changes. -/
theorem Numbered.keep (h : Numbered s) {server : TcpServer} {socket : Socket} {kernel : Kernel}
    {issued : Descriptor → Owner} {phase : Phase}
    (hsub : ∀ (i : ℕ) (x : Socket), server.peerSockets[i]? = some x →
      ∃ y, s.server.peerSockets[i]? = some y) :
    Numbered
      { s with
        server := server, socket := socket, kernel := kernel, issued := issued,
        phase := phase } where
  slot_lt i sock hi := by
    obtain ⟨sock', hi⟩ := hsub i sock hi
    exact h.slot_lt i sock' hi
  slot_inj i j x y hi hj := by
    obtain ⟨x', hi⟩ := hsub i x hi
    obtain ⟨y', hj⟩ := hsub j y hj
    exact h.slot_inj i j x' y' hi hj
  accepted_lt := h.accepted_lt
  accepted_ne k sock hk i x hi := by
    obtain ⟨x', hi⟩ := hsub i x hi
    exact h.accepted_ne k sock hk i x' hi

/-! ### The steps keep the invariant -/

/-- **A new object** gets a descriptor that was not open, whoever has had it before. -/
theorem Inv.accept (h : Inv p s) (hphase : s.phase = .running)
    {accepted : Option Descriptor} (hfresh : ∀ fd ∈ accepted, s.kernel.Fresh fd) :
    Inv p (accept accepted s) := by
  have hrun := h.running hphase
  rcases s.socket.accept_cases accepted s.kernel with ⟨kernel, haccept, -, hopened, -, -⟩ |
    ⟨fd, kernel, rfl, haccept, hopened, -, -⟩
  · have heq : SocketOwners.accept accepted s = { s with kernel := kernel } := by
      rw [SocketOwners.accept, haccept]
    rw [heq]
    refine ⟨fun _ => ⟨?_, hrun.listening, ?_, hrun.issued⟩, ?_,
      h.numbered.keep fun _ x hi => ⟨x, hi⟩⟩
    all_goals dsimp only
    all_goals rw [hopened]
    · exact hrun.peers
    · exact hrun.accepted
    · exact h.issued.keep subset_rfl fun o x hx => by
        rcases hx with hx | ⟨i, sock, hi, hx⟩ | ⟨k, sock, hk, hx⟩
        · exact .acceptor hx
        · exact .slot i sock hi hx
        · exact .accepted k sock hk hx
  · obtain ⟨hnonneg, hlt, hnew⟩ := hfresh fd rfl
    have hbase : fd ∉ p.base := fun hc => hnew (hrun.peers.base hc)
    have hpos : 0 < fd := by
      refine lt_of_le_of_ne hnonneg ?_
      rintro rfl
      exact hbase p.zero_mem
    have heq : SocketOwners.accept (some fd) s =
        { s with
          socket := { s.socket with state := .accepted }, kernel := kernel,
          accepted := some (s.created, ⟨fd, .connected⟩), created := s.created + 1,
          issued := Function.update s.issued fd (.peer s.created) } := by
      rw [SocketOwners.accept, haccept]
    rw [heq]
    -- a number in use is not the new one
    have hne : ∀ i x, s.server.Connected i x → x.socketDescriptor ≠ fd := by
      rintro i x hi rfl
      exact hnew (hrun.peers.peer i x hi).2.2.1
    refine ⟨fun _ => ⟨?_, .inr rfl, ?_, fun i x hi => ?_⟩, ?_,
      ⟨fun i x hi => ?_, h.numbered.slot_inj, ?_, ?_⟩⟩
    · dsimp only
      rw [hopened]
      exact hrun.peers.mono (Finset.subset_insert ..)
    · rintro _ _ ⟨⟩
      refine ⟨rfl, hpos, hlt, ?_, hbase, hne⟩
      dsimp only
      rw [hopened]
      exact Finset.mem_insert_self ..
    · dsimp only
      rw [Function.update_of_ne (hne i x hi)]
      exact hrun.issued i x hi
    · dsimp only
      rw [hopened]
      refine h.issued.issue hnew ?_
      rintro _ _ (_ | ⟨i, sock, hi, hx⟩ | ⟨_, _, ⟨⟩, -⟩)
      · refine .inr (.acceptor fun hc => ?_)
        rcases hrun.listening with hl | hl <;> rw [hl] at hc <;> cases hc
      · exact .inr (.slot i sock hi hx)
      · exact .inl ⟨rfl, rfl⟩
    · exact (h.numbered.slot_lt i x hi).trans (Nat.lt_succ_self _)
    · rintro _ _ ⟨⟩
      exact Nat.lt_succ_self _
    · rintro _ _ ⟨⟩ i x hi
      exact (h.numbered.slot_lt i x hi).ne

/-- **`addPeer` closes nothing**: the object it destroys is disconnected. -/
theorem Inv.addPeer (h : Inv p s) (hphase : s.phase = .running)
    (haccepted : s.accepted = some (k, sock)) :
    (addPeer k sock s).1 = none ∧ Inv p (addPeer k sock s).2 := by
  have hrun := h.running hphase
  obtain ⟨hstate, hpos, hlt, hopen, hbase, hne⟩ := hrun.accepted k sock haccepted
  rcases hadd : s.server.addPeer sock with ⟨r, server, closed⟩
  obtain rfl : closed = none := hrun.peers.closed_addPeer hadd
  have heq : SocketOwners.addPeer k sock s =
      (none, { s with
        server := server, object := Function.update s.object r k, accepted := none }) := by
    rw [SocketOwners.addPeer, hadd]
    rfl
  rw [heq]
  obtain ⟨halign, -, hslots, -⟩ :=
    TcpServer.slot_addPeer hrun.peers.aligned hrun.peers.length_lt hadd
  -- the new object is in the slot `r`, and the others are where they were
  have hsockets : ∀ (i : ℕ) (x : Socket), server.peerSockets[i]? = some x →
      i = r ∧ x = sock ∨ i ≠ r ∧ s.server.peerSockets[i]? = some x := by
    intro i x hi
    obtain ⟨flag, hslot⟩ := halign.slot_of_peerSocket hi
    rcases (hslots i flag x).mp hslot with ⟨hir, -, hx⟩ | ⟨hir, hold⟩
    · exact .inl ⟨hir, hx⟩
    · exact .inr ⟨hir, hold.2⟩
  obtain ⟨fd, state⟩ := sock
  obtain rfl : state = .connected := hstate
  refine ⟨rfl, fun _ => ⟨hrun.peers.addPeer hpos hlt hopen hbase hne hadd, hrun.listening, nofun,
    fun i x hi => ?_⟩, h.issued.keep subset_rfl ?_, ⟨fun i x hi => ?_, fun i j x y hi hj hij => ?_,
    nofun, nofun⟩⟩
  · rcases (hslots i true x).mp hi with ⟨-, -, rfl⟩ | ⟨-, hold⟩
    · have howner := h.issued.eq _ _ (.accepted k _ haccepted nofun)
      exact fun hc => by cases howner.symm.trans hc
    · exact hrun.issued i x hold
  · rintro _ _ (hx | ⟨i, x, hi, hx⟩ | ⟨_, _, ⟨⟩, -⟩)
    · exact .acceptor hx
    · dsimp only at hi ⊢
      rcases hsockets i x hi with ⟨rfl, rfl⟩ | ⟨hir, hold⟩
      · rw [Function.update_self]
        exact .accepted k _ haccepted hx
      · rw [Function.update_of_ne hir]
        exact .slot i x hold hx
  · dsimp only at hi ⊢
    rcases hsockets i x hi with ⟨rfl, rfl⟩ | ⟨hir, hold⟩
    · rw [Function.update_self]
      exact h.numbered.accepted_lt k _ haccepted
    · rw [Function.update_of_ne hir]
      exact h.numbered.slot_lt i x hold
  · dsimp only at hi hj hij
    rcases hsockets i x hi with ⟨rfl, -⟩ | ⟨hir, hiold⟩
    · rcases hsockets j y hj with ⟨rfl, -⟩ | ⟨hjr, hjold⟩
      · rfl
      · rw [Function.update_self, Function.update_of_ne hjr] at hij
        exact absurd hij.symm (h.numbered.accepted_ne k _ haccepted j y hjold)
    · rcases hsockets j y hj with ⟨rfl, -⟩ | ⟨hjr, hjold⟩
      · rw [Function.update_self, Function.update_of_ne hir] at hij
        exact absurd hij (h.numbered.accepted_ne k _ haccepted i x hiold)
      · rw [Function.update_of_ne hir, Function.update_of_ne hjr] at hij
        exact h.numbered.slot_inj i j x y hiold hjold hij

/-- `isConnectionLost` changes nothing but the state of one socket. -/
theorem Inv.isConnectionLost (h : Inv p s) (hphase : s.phase = .running) {i : ℕ} {error : ℤ}
    (hs : isConnectionLost i error s = some s') : Inv p s' := by
  have hrun := h.running hphase
  obtain ⟨sock, hi, rfl⟩ := Option.map_eq_some_iff.mp hs
  obtain ⟨flag, hslot⟩ := hrun.peers.aligned.slot_of_peerSocket hi
  rcases hlost : Socket.lostError error with _ | _
  · -- no error it recognizes
    have hsame : s.server.setPeerSocket i sock = s.server := by
      obtain ⟨hlt, rfl⟩ := List.getElem?_eq_some_iff.mp hi
      rw [TcpServer.setPeerSocket, List.set_getElem_self]
    have heq : (sock.isConnectionLost error).2 = sock := by
      rw [Socket.isConnectionLost, hlost]
      rfl
    rw [heq, hsame]
    exact h
  · have heq : (sock.isConnectionLost error).2 = { sock with state := .disconnected } := by
      rw [Socket.isConnectionLost, hlost]
      rfl
    rw [heq]
    obtain ⟨halign, hslots⟩ := TcpServer.slot_setPeerSocket hrun.peers.aligned hslot
      { sock with state := .disconnected }
    have hsockets : ∀ (j : ℕ) (x : Socket),
        (s.server.setPeerSocket i { sock with state := .disconnected }).peerSockets[j]? = some x →
        j = i ∧ x.state = .disconnected ∨ j ≠ i ∧ s.server.peerSockets[j]? = some x := by
      intro j x hj
      obtain ⟨flag', hslot'⟩ := halign.slot_of_peerSocket hj
      rcases (hslots j flag' x).mp hslot' with ⟨hji, -, rfl⟩ | ⟨hji, hold⟩
      · exact .inl ⟨hji, rfl⟩
      · exact .inr ⟨hji, hold.2⟩
    refine ⟨fun _ => ⟨hrun.peers.disconnect hslot, hrun.listening, fun k x hk => ?_,
      fun j x hj => ?_⟩, h.issued.keep subset_rfl ?_, h.numbered.keep fun j x hj => ?_⟩
    · obtain ⟨hstate, hpos, hlt, hopen, hbase, hne⟩ := hrun.accepted k x hk
      refine ⟨hstate, hpos, hlt, hopen, hbase, fun j y hj => ?_⟩
      obtain ⟨z, hz, hfd⟩ := TcpServer.connected_disconnect hrun.peers.aligned hslot hj
      exact hfd ▸ hne j z hz
    · obtain ⟨z, hz, hfd⟩ := TcpServer.connected_disconnect hrun.peers.aligned hslot hj
      exact hfd ▸ hrun.issued j z hz
    · rintro _ _ (hx | ⟨j, x, hj, hx⟩ | ⟨k, x, hk, hx⟩)
      · exact .acceptor hx
      · rcases hsockets j x hj with ⟨-, hdisconnected⟩ | ⟨-, hold⟩
        · exact absurd hdisconnected hx
        · exact .slot j x hold hx
      · exact .accepted k x hk hx
    · rcases hsockets j x hj with ⟨rfl, -⟩ | ⟨-, hold⟩
      · exact ⟨sock, hi⟩
      · exact ⟨x, hold⟩

/-- **The object in a slot is closed**, and the descriptors of the others stay theirs. -/
theorem Inv.closeSlot (h : Inv p s) {i : ℕ} (hi : s.server.peerSockets[i]? = some sock)
    {server : TcpServer} (phase : Phase)
    (hsockets : ∀ (j : ℕ) (x : Socket), server.peerSockets[j]? = some x →
      j = i ∧ x.state = .disconnected ∨ j ≠ i ∧ s.server.peerSockets[j]? = some x) :
    Issued (s.kernel.closeAny sock.close.2).opened s.issued
      (Holds { s with
        server := server, kernel := s.kernel.closeAny sock.close.2, phase := phase }) ∧
    Numbered { s with
      server := server, kernel := s.kernel.closeAny sock.close.2, phase := phase } := by
  constructor
  · refine issued_close h.issued (o := .peer (s.object i)) (fun hstate => .slot i sock hi hstate) ?_
    rintro _ _ (hx | ⟨j, x, hj, hx⟩ | ⟨k, x, hk, hx⟩)
    · exact ⟨nofun, .acceptor hx⟩
    · rcases hsockets j x hj with ⟨-, hdisconnected⟩ | ⟨hji, hold⟩
      · exact absurd hdisconnected hx
      · refine ⟨fun hc => hji ?_, .slot j x hold hx⟩
        exact h.numbered.slot_inj j i x sock hold hi (Owner.peer.inj hc)
    · exact ⟨fun hc => h.numbered.accepted_ne k x hk i sock hi (Owner.peer.inj hc).symm,
        .accepted k x hk hx⟩
  · refine h.numbered.keep fun j x hj => ?_
    rcases hsockets j x hj with ⟨rfl, -⟩ | ⟨-, hold⟩
    · exact ⟨sock, hi⟩
    · exact ⟨x, hold⟩

/-- **What `removePeer` does**, also when it is called on a slot that is free. -/
theorem Inv.removePeer (h : Inv p s) (hphase : s.phase = .running) {i : ℕ} {closed : Option Close}
    (hs : removePeer i s = some (closed, s')) :
    (∃ sock, s.server.peerSockets[i]? = some sock ∧
      closed = sock.close.2.map fun fd => (.peer (s.object i), fd)) ∧ Inv p s' := by
  have hrun := h.running hphase
  obtain ⟨⟨server, fd?⟩, hremove, heq⟩ := Option.map_eq_some_iff.mp hs
  cases heq
  obtain ⟨sock, hi, -⟩ := Option.map_eq_some_iff.mp hremove
  obtain ⟨flag, hslot⟩ := hrun.peers.aligned.slot_of_peerSocket hi
  obtain ⟨server', hremove', halign, -, hconnected, hfree⟩ :=
    TcpServer.connected_removePeer hrun.peers.aligned hslot
  rw [hremove] at hremove'
  cases hremove'
  have hsockets : ∀ (j : ℕ) (x : Socket), server.peerSockets[j]? = some x →
      j = i ∧ x.state = .disconnected ∨ j ≠ i ∧ s.server.peerSockets[j]? = some x := by
    intro j x hj
    obtain ⟨flag', hslot'⟩ := halign.slot_of_peerSocket hj
    rcases flag' with _ | _
    · rcases (hfree j x).mp hslot' with ⟨hji, rfl⟩ | ⟨hji, hold⟩
      · exact .inl ⟨hji, Socket.close_state sock⟩
      · exact .inr ⟨hji, hold.2⟩
    · obtain ⟨hji, hold⟩ := (hconnected j x).mp hslot'
      exact .inr ⟨hji, hold.2⟩
  obtain ⟨hissued, hnumbered⟩ := h.closeSlot hi s.phase hsockets
  refine ⟨⟨sock, hi, rfl⟩, fun _ => ?_, hissued, hnumbered⟩
  obtain ⟨server', hremove', -, hcases⟩ := hrun.peers.removePeer hslot
  rw [hremove] at hremove'
  cases hremove'
  have hissued' : ∀ j x, server.Connected j x → s.issued x.socketDescriptor ≠ .other :=
    fun j x hj => hrun.issued j x ((hconnected j x).mp hj).2
  rcases hcases with ⟨-, hclose, hpeers⟩ | ⟨-, rfl, hclose, hpeers⟩
  · rw [hclose]
    refine ⟨hpeers, hrun.listening, fun k x hk => ?_, hissued'⟩
    obtain ⟨hstate, hpos, hlt, hopen, hbase, hne⟩ := hrun.accepted k x hk
    exact ⟨hstate, hpos, hlt, hopen, hbase, fun j y hj => hne j y ((hconnected j y).mp hj).2⟩
  · rw [hclose]
    refine ⟨hpeers, hrun.listening, fun k x hk => ?_, hissued'⟩
    obtain ⟨hstate, hpos, hlt, hopen, hbase, hne⟩ := hrun.accepted k x hk
    exact ⟨hstate, hpos, hlt, Finset.mem_erase.mpr ⟨(hne i sock hslot).symm, hopen⟩, hbase,
      fun j y hj => hne j y ((hconnected j y).mp hj).2⟩

/-- The destructor of `m_socket`. -/
theorem Inv.destroySocket (h : Inv p s) : Inv p (destroySocket s).2 := by
  refine ⟨nofun, issued_close h.issued (o := .acceptor) (fun hstate => .acceptor hstate) ?_,
    h.numbered.keep fun _ x hi => ⟨x, hi⟩⟩
  rintro _ _ (hx | ⟨i, x, hi, hx⟩ | ⟨k, x, hk, hx⟩)
  · exact absurd (Socket.close_state s.socket) hx
  · exact ⟨nofun, .slot i x hi hx⟩
  · exact ⟨nofun, .accepted k x hk hx⟩

/-- The destructor of a peer. -/
theorem Inv.destroyPeer (h : Inv p s) {n : ℕ} {closed : Option Close}
    (hs : destroyPeer n s = some (closed, s')) :
    (∃ sock, s.server.peerSockets[n]? = some sock ∧
      closed = sock.close.2.map fun fd => (.peer (s.object n), fd)) ∧ Inv p s' := by
  obtain ⟨sock, hn, heq⟩ := Option.map_eq_some_iff.mp hs
  cases heq
  have hsockets : ∀ (j : ℕ) (x : Socket),
      (s.server.setPeerSocket n sock.close.1).peerSockets[j]? = some x →
      j = n ∧ x.state = .disconnected ∨ j ≠ n ∧ s.server.peerSockets[j]? = some x := by
    intro j x hj
    rcases eq_or_ne j n with rfl | hjn
    · rw [TcpServer.setPeerSocket, List.getElem?_set_self (List.getElem?_eq_some_iff.mp hn).1] at hj
      rw [← Option.some.inj hj]
      exact .inl ⟨rfl, Socket.close_state sock⟩
    · rw [TcpServer.setPeerSocket, List.getElem?_set_ne hjn.symm] at hj
      exact .inr ⟨hjn, hj⟩
  obtain ⟨hissued, hnumbered⟩ := h.closeSlot hn (.destroying (n + 1)) hsockets
  refine ⟨⟨sock, hn, rfl⟩, ?_, hissued, hnumbered⟩
  rintro ⟨⟩

/-- Another part of the process opens a descriptor. -/
theorem Inv.openOther (h : Inv p s) (hfresh : s.kernel.Fresh fd) :
    Inv p { s with
      kernel := s.kernel.accept fd, issued := Function.update s.issued fd .other } := by
  obtain ⟨-, -, hnew⟩ := hfresh
  refine ⟨fun hphase => ?_, h.issued.issue hnew fun o x hx => ?_,
    h.numbered.keep fun _ x hi => ⟨x, hi⟩⟩
  · have hrun := h.running hphase
    refine ⟨hrun.peers.mono (Finset.subset_insert ..), hrun.listening, fun k x hk => ?_,
      fun i x hi => ?_⟩
    · obtain ⟨hstate, hpos, hlt, hopen, hbase, hne⟩ := hrun.accepted k x hk
      exact ⟨hstate, hpos, hlt, Finset.mem_insert_of_mem hopen, hbase, hne⟩
    · have hne : x.socketDescriptor ≠ fd := by
        rintro rfl
        exact hnew (hrun.peers.peer i x hi).2.2.1
      dsimp only
      rw [Function.update_of_ne hne]
      exact hrun.issued i x hi
  · rcases hx with hx | ⟨i, x, hi, hx⟩ | ⟨k, x, hk, hx⟩
    · exact .inr (.acceptor hx)
    · exact .inr (.slot i x hi hx)
    · exact .inr (.accepted k x hk hx)

/-- Another part of the process closes a descriptor of its own. -/
theorem Inv.closeOther (h : Inv p s) (hother : s.issued fd = .other) (hbase : fd ∉ p.base) :
    Inv p { s with kernel := s.kernel.close fd } := by
  refine ⟨fun hphase => ?_, h.issued.close hother fun o x hx => ?_,
    h.numbered.keep fun _ x hi => ⟨x, hi⟩⟩
  · have hrun := h.running hphase
    have hne : ∀ i x, s.server.Connected i x → x.socketDescriptor ≠ fd := by
      rintro i x hi rfl
      exact hrun.issued i x hi hother
    refine ⟨hrun.peers.erase hbase hne, hrun.listening, fun k x hk => ?_, hrun.issued⟩
    obtain ⟨hstate, hpos, hlt, hopen, hpbase, hpne⟩ := hrun.accepted k x hk
    refine ⟨hstate, hpos, hlt, Finset.mem_erase.mpr ⟨?_, hopen⟩, hpbase, hpne⟩
    rintro rfl
    have howner := h.issued.eq _ _ (.accepted k x hk (by rw [hstate]; nofun))
    cases howner.symm.trans hother
  · rcases hx with hx | ⟨i, x, hi, hx⟩ | ⟨k, x, hk, hx⟩
    · exact ⟨nofun, .acceptor hx⟩
    · exact ⟨nofun, .slot i x hi hx⟩
    · exact ⟨nofun, .accepted k x hk hx⟩

/-! ### The main result -/

/-- What an object closes it holds. -/
theorem holds_of_close {o' : Owner}
    (hsock : sock.state ≠ .disconnected → Holds s o sock.socketDescriptor)
    (hclosed : sock.close.2.map (fun fd => (o, fd)) = some (o', fd)) : Holds s o' fd := by
  obtain ⟨fd', hclose, heq⟩ := Option.map_eq_some_iff.mp hclosed
  cases heq
  obtain ⟨hstate, rfl⟩ := close_eq_some hclose
  exact hsock hstate

/-- **Every step keeps the invariant**, and closes nothing that its object does not hold. -/
theorem Inv.step (h : Inv p s) {closed : Option Close} (hs : (system p).Step s closed s') :
    (∀ o fd, closed = some (o, fd) → Holds s o fd) ∧ Inv p s' := by
  rcases hs with ⟨accepted, hphase, -, hfresh⟩ | ⟨k, peer, hphase, haccepted⟩ |
    ⟨i, error, hphase, hs⟩ | ⟨i, hphase, hs⟩ | hphase | ⟨n, hphase, hs⟩ | ⟨fd, hfresh⟩ |
    ⟨fd, hother, hbase⟩
  · exact ⟨nofun, h.accept hphase hfresh⟩
  · obtain ⟨hnone, h'⟩ := h.addPeer hphase haccepted
    rw [hnone]
    exact ⟨nofun, h'⟩
  · exact ⟨nofun, h.isConnectionLost hphase hs⟩
  · obtain ⟨⟨sock, hi, rfl⟩, h'⟩ := h.removePeer hphase hs
    exact ⟨fun o fd => holds_of_close fun hstate => .slot i sock hi hstate, h'⟩
  · exact ⟨fun o fd => holds_of_close fun hstate => .acceptor hstate, h.destroySocket⟩
  · obtain ⟨⟨sock, hn, rfl⟩, h'⟩ := h.destroyPeer hs
    exact ⟨fun o fd => holds_of_close fun hstate => .slot n sock hn hstate, h'⟩
  · exact ⟨nofun, h.openOther hfresh⟩
  · exact ⟨nofun, h.closeOther hother hbase⟩

/-- **The invariant holds along every run.** -/
theorem inv_of_run {tr : List (Option Close)} (hrun : (system p).Run tr s) : Inv p s :=
  hrun.invariant (I := fun _ s => Inv p s) (fun _ h => inv_init h)
    fun _ _ _ _ _ h hs => (h.step hs).2

/-- **No foreign close.** In every run, whatever is called on the slots and whichever numbers
the kernel issues again: a `::close` executed by a `Socket` is for a descriptor that is open
and was issued for this very object. -/
theorem no_foreign_close {tr : List (Option Close)} (hrun : (system p).Run tr s)
    (hs : (system p).Step s (some (o, fd)) s') : fd ∈ s.kernel.opened ∧ s.issued fd = o := by
  have h := inv_of_run hrun
  have hholds : Holds s o fd := (h.step hs).1 o fd rfl
  exact ⟨h.issued.mem o fd hholds, h.issued.eq o fd hholds⟩

/-! ### A number that is used again

Two clients connect, with the descriptors `5` and `6`, and both are removed. The next one is
given the number `6` and the first slot, so that an object that has closed `6` is left in
the second. -/

/-- The server has started. -/
def started : State where
  server := ⟨[], []⟩
  socket := ⟨3, .listening⟩
  accepted := none
  object _ := 0
  created := 0
  kernel := ⟨ThreadPerClient.process.base, ∅, ∅⟩
  issued fd := if fd = 3 then .acceptor else .other
  phase := .running

/-- A client has been accepted, with the descriptor `fd`, and added. -/
def added (fd : Descriptor) (s : State) : State :=
  (addPeer s.created ⟨fd, .connected⟩ (accept (some fd) s)).2

theorem run_added (fd : Descriptor) {tr : List (Option Close)} (hrun : (system p).Run tr s)
    (hphase : s.phase = .running) (hnone : s.accepted = none) (hfresh : s.kernel.Fresh fd) :
    ∃ tr', (system p).Run tr' (added fd s) := by
  have hlistening := ((inv_of_run hrun).running hphase).listening
  have hall : ∀ fd' ∈ some fd, s.kernel.Fresh fd' := by
    rintro fd' ⟨⟩
    exact hfresh
  have h₁ := hrun.snoc (.accept (some fd) hphase hnone hall)
  have hstate : ¬(s.socket.state ≠ .listening ∧ s.socket.state ≠ .accepted) := by
    rintro ⟨hl, ha⟩
    exact hlistening.elim hl ha
  have haccept : (accept (some fd) s).phase = .running ∧
      (accept (some fd) s).accepted = some (s.created, ⟨fd, .connected⟩) := by
    rw [accept, Socket.accept, if_neg hstate]
    exact ⟨hphase, rfl⟩
  exact ⟨_, h₁.snoc (.addPeer s.created ⟨fd, .connected⟩ haccept.1 haccept.2)⟩

/-- The first two clients have been removed. -/
def bothRemoved : State :=
  (((removePeer 1 (added 6 (added 5 started))).bind fun r => removePeer 0 r.2).get rfl).2

/-- The third client has the number of the second, and the slot of the first. -/
def numberReused : State := added 6 bothRemoved

theorem run_numberReused : ∃ tr, (system ThreadPerClient.process).Run tr numberReused := by
  have h₀ : (system ThreadPerClient.process).Run [] started :=
    .start ⟨rfl, rfl, rfl, rfl, rfl, rfl, rfl⟩
  obtain ⟨_, h₁⟩ := run_added 5 h₀ rfl rfl ⟨by decide, by decide, by decide⟩
  obtain ⟨_, h₂⟩ := run_added 6 h₁ rfl rfl ⟨by decide, by decide, by decide⟩
  have h₃ := h₂.snoc (.removePeer 1 rfl rfl)
  have h₄ := h₃.snoc (.removePeer 0 rfl rfl)
  exact run_added 6 (s := bothRemoved) h₄ rfl rfl ⟨by decide, by decide, by decide⟩

/-- The object left in the second slot still has the number `6`, which the first closes as
its own. -/
theorem number_reused_closed_by_owner :
    numberReused.server.peerSockets[1]? = some ⟨6, .disconnected⟩ ∧
    (removePeer 1 numberReused).map Prod.fst = some none ∧
    6 ∈ numberReused.kernel.opened ∧ numberReused.issued 6 = .peer 2 := by
  obtain ⟨tr, hrun⟩ := run_numberReused
  have hs : (system ThreadPerClient.process).Step numberReused (some (.peer 2, 6)) _ :=
    .removePeer 0 rfl rfl
  exact ⟨rfl, rfl, no_foreign_close hrun hs⟩

end SocketOwners

end Net

end LowLatency
