import LowLatency.Net.SlotTable
import LowLatency.Net.StoppingReactor

/-!
# Accepting a connection in the reactor

What `acceptNewConnection` leaves behind: the peer in its slot, its entry in the table, its
registration, and the blocking modes.

The new peer can always be found, but not by the index that is returned: the variable that
`addPeer` assigns to is one that hides the variable returned, so that the result is `0` whatever
the slot (`LowLatency.Net.Reactor.acceptNewConnection_iff`). And `Socket::accept` returns
from each of its exits in blocking mode, though the acceptor has been non-blocking since `start`,
so that the first event on it ends that for good
(`LowLatency.Net.Reactor.nonBlocking_iff_not_accepting`).
-/

namespace LowLatency

namespace Net

namespace Reactor

open TcpServer (Slot Connected Aligned)

variable {p : Process} {s s' : State} {i r : ℕ} {flag : Bool} {sock : Socket} {fd : Descriptor}
  {e : EpollEvent} {rest : List EpollEvent} {tr : List Action} {accepted : Option Descriptor}

/-! ### The acceptor along a run -/

/-- The descriptors of the sockets in the slots. -/
def peerDescriptors (s : State) : List Descriptor :=
  s.server.peerSockets.map Socket.socketDescriptor

/-- **The invariant of the acceptor**: it listens, it is watched, and its descriptor is in no
slot. -/
structure AcceptorInv (p : Process) (s : State) : Prop where
  state : s.socket.state = .listening ∨ s.socket.state = .accepted
  watched : p.acceptor ∈ s.kernel.interest
  notMem : p.acceptor ∉ peerDescriptors s

theorem AcceptorInv.fetched (h : AcceptorInv p s) (e : EpollEvent) (rest : List EpollEvent) :
    AcceptorInv p (fetch e rest s) :=
  ⟨h.state, h.watched, h.notMem⟩

/-- What all steps but the acceptance of a connection do to the acceptor. -/
structure KeepsAcceptor (p : Process) (s s' : State) : Prop where
  socket : s'.socket = s.socket
  descriptors : peerDescriptors s' = peerDescriptors s
  interest : p.acceptor ∈ s'.kernel.interest ↔ p.acceptor ∈ s.kernel.interest
  nonBlocking : p.acceptor ∈ s'.kernel.nonBlocking ↔ p.acceptor ∈ s.kernel.nonBlocking

theorem KeepsAcceptor.inv (hk : KeepsAcceptor p s s') (h : AcceptorInv p s) : AcceptorInv p s' :=
  ⟨hk.socket ▸ h.state, hk.interest.mpr h.watched, hk.descriptors ▸ h.notMem⟩

theorem AcceptorInv.ne_of_getElem? (h : AcceptorInv p s)
    (hsock : s.server.peerSockets[i]? = some sock) : p.acceptor ≠ sock.socketDescriptor := by
  rintro heq
  exact h.notMem (heq ▸ List.mem_map_of_mem (List.mem_of_getElem? hsock))

/-- A socket is replaced by one with the same descriptor. -/
theorem map_set_socketDescriptor {socks : List Socket} {x : Socket} (hsock : socks[i]? = some sock)
    (hx : x.socketDescriptor = sock.socketDescriptor) :
    (socks.set i x).map Socket.socketDescriptor = socks.map Socket.socketDescriptor := by
  obtain ⟨hi, rfl⟩ := List.getElem?_eq_some_iff.mp hsock
  have hi' : i < (socks.map Socket.socketDescriptor).length := by rwa [List.length_map]
  rw [List.map_set, hx, ← List.getElem_map Socket.socketDescriptor (h := hi')]
  exact List.set_getElem_self hi'

@[simp] theorem close_socketDescriptor (sock : Socket) :
    sock.close.1.socketDescriptor = sock.socketDescriptor := by
  rw [Socket.close]
  split_ifs <;> rfl

/-- A call of `::close` on another descriptor. -/
theorem closeAny_of_ne {k : Kernel} {closed : Option Descriptor} (hne : ∀ x ∈ closed, fd ≠ x) :
    (fd ∈ (k.closeAny closed).interest ↔ fd ∈ k.interest) ∧
    (fd ∈ (k.closeAny closed).nonBlocking ↔ fd ∈ k.nonBlocking) := by
  rcases closed with _ | x
  · exact ⟨Iff.rfl, Iff.rfl⟩
  · have hne := hne x rfl
    simp [Kernel.closeAny, Kernel.close, hne]

/-- What a socket closes is its own descriptor. -/
theorem close_eq_some {x : Descriptor} (h : x ∈ sock.close.2) : x = sock.socketDescriptor := by
  rw [Socket.close] at h
  split_ifs at h
  · exact (Option.some_inj.mp h).symm
  · cases h
  · cases h

theorem keepsAcceptor_onClientDisconnected (h : AcceptorInv p s)
    (hs : onClientDisconnected i s = some s') : KeepsAcceptor p s s' := by
  obtain ⟨sock, hsock, hs⟩ := Option.bind_eq_some_iff.mp hs
  have hne := h.ne_of_getElem? hsock
  rw [TcpServer.removePeer, hsock] at hs
  cases hs
  have hclosed : ∀ x ∈ sock.close.2, p.acceptor ≠ x := fun x hx => close_eq_some hx ▸ hne
  refine ⟨rfl, map_set_socketDescriptor hsock (close_socketDescriptor sock), ?_,
    (closeAny_of_ne hclosed).2⟩
  exact (closeAny_of_ne hclosed).1.trans (Finset.mem_erase.trans (and_iff_right hne))

theorem keepsAcceptor_handleClient {received : Received} (h : AcceptorInv p s)
    (hs : handleClient i received s = some s') : KeepsAcceptor p s s' := by
  obtain ⟨sock, hsock, hs⟩ := Option.bind_eq_some_iff.mp hs
  rcases received with bytes | ⟨read, error⟩
  · dsimp only at hs
    split_ifs at hs with hquit
    · exact keepsAcceptor_onClientDisconnected h hs
    · cases hs
      exact ⟨rfl, rfl, Iff.rfl, Iff.rfl⟩
  · rcases hlost : Socket.lostError error with _ | _
    · simp only [Socket.isConnectionLost, hlost] at hs
      cases hs
      exact ⟨rfl, rfl, Iff.rfl, Iff.rfl⟩
    · simp only [Socket.isConnectionLost, hlost] at hs
      have hsame : peerDescriptors { s with
          server := s.server.setPeerSocket i { sock with state := .disconnected } } =
          peerDescriptors s := map_set_socketDescriptor hsock rfl
      have hk := keepsAcceptor_onClientDisconnected
        (s := { s with server := s.server.setPeerSocket i { sock with state := .disconnected } })
        ⟨h.state, h.watched, hsame ▸ h.notMem⟩ hs
      exact ⟨hk.socket, hk.descriptors.trans hsame, hk.interest, hk.nonBlocking⟩

/-- The acceptor is not one of the descriptors that are handed out. -/
theorem SocketsInv.acceptor_ne (h : SocketsInv p s) (hfresh : s.kernel.Fresh fd) :
    p.acceptor ≠ fd := by
  rintro rfl
  exact hfresh.2.2 (h.peers.base p.acceptor_mem)

/-- **The acceptor is in blocking mode after `acceptNewConnection`**, whatever has come of it. -/
theorem AcceptorInv.acceptNewConnection (hsock : SocketsInv p s) (h : AcceptorInv p s)
    (hfresh : ∀ x ∈ accepted, s.kernel.Fresh x)
    (hs : acceptNewConnection accepted s = some (r, s')) :
    AcceptorInv p s' ∧ p.acceptor ∉ s'.kernel.nonBlocking := by
  have hlistens : ¬(s.socket.state ≠ .listening ∧ s.socket.state ≠ .accepted) := by
    rintro ⟨hc, hc'⟩
    rcases h.state with hstate | hstate
    · exact hc hstate
    · exact hc' hstate
  rw [Reactor.acceptNewConnection, Socket.accept, if_neg hlistens] at hs
  rcases accepted with _ | x
  · cases hs
    refine ⟨⟨h.state, h.watched, h.notMem⟩, ?_⟩
    rw [← hsock.acceptor]
    exact Finset.notMem_erase _ _
  · have hne := hsock.acceptor_ne (hfresh x rfl)
    rcases hadd : s.server.addPeer ⟨x, .connected⟩ with ⟨r', server, closed⟩
    obtain ⟨-, -, hconnected, -, -⟩ :=
      TcpServer.connected_addPeer hsock.peers.aligned hsock.peers.length_lt hadd
    have hslot : server.peerSockets[r']? = some ⟨x, .connected⟩ :=
      ((hconnected r' ⟨x, .connected⟩).mpr (.inl ⟨rfl, rfl⟩)).2
    obtain rfl := hsock.peers.closed_addPeer hadd
    simp only [hadd, onClientConnected, hslot, Option.map_some] at hs
    cases hs
    refine ⟨⟨.inr rfl, ?_, ?_⟩, ?_⟩
    · rw [Kernel.setBlockingMode_interest, Kernel.closeAny_none, Kernel.epollAdd]
      split_ifs
      · exact Finset.mem_insert_of_mem h.watched
      · exact h.watched
    · -- the slots hold the new socket and those that were there
      intro hc
      obtain ⟨sock, hmem, heq⟩ := List.mem_map.mp hc
      obtain ⟨j, hj⟩ := List.mem_iff_getElem?.mp hmem
      rcases eq_or_ne j r' with rfl | hjr
      · obtain rfl : sock = ⟨x, .connected⟩ := Option.some_inj.mp (hj.symm.trans hslot)
        exact hne heq.symm
      · have hadds := SlotTable.adds_of_addPeer hsock.peers.aligned hsock.peers.length_lt hadd
        have hold : s.server.peerSockets[j]? = some sock := (hadds.others j hjr).1.symm.trans hj
        exact h.ne_of_getElem? hold heq.symm
    · simp [Kernel.setBlockingMode, hne, hsock.acceptor]

/-- The next event is not one on which a connection is accepted. -/
def NotAccepting (s : State) (_ : Action) : Prop :=
  ∀ e ∈ s.batch.head?, ¬(isValidEvent e = true ∧ e.fd = s.socket.socketDescriptor)

/-- **What a step does to the acceptor**: nothing, unless it is the dispatch of an event on which a
connection is accepted, after which the acceptor is in blocking mode. -/
theorem acceptor_step {a : Action} (hsock : SocketsInv p s) (h : AcceptorInv p s)
    (hs : (system p).Step s a s') :
    NotAccepting s a ∧ KeepsAcceptor p s s' ∨
      ¬NotAccepting s a ∧ AcceptorInv p s' ∧ p.acceptor ∉ s'.kernel.nonBlocking := by
  rcases hs with ⟨events, hbatch, -, -⟩ | ⟨accepted, received, hfresh, -, hs⟩
  · refine .inl ⟨fun e he => ?_, rfl, rfl, Iff.rfl, Iff.rfl⟩
    rw [hbatch] at he
    cases he
  rcases hbatch : s.batch with _ | ⟨e, rest⟩
  · rw [dispatch, hbatch] at hs
    cases hs
  have hfetch := h.fetched e rest
  have hsockets := hsock.fetched e rest
  rw [dispatch_cons hbatch] at hs
  rcases htarget : dispatchTarget s e with _ | i
  · rw [htarget] at hs
    obtain ⟨⟨r, s''⟩, haccept, rfl⟩ := Option.map_eq_some_iff.mp hs
    refine .inr ⟨fun hc => ?_, hfetch.acceptNewConnection hsockets hfresh haccept⟩
    exact hc e (by rw [hbatch]; rfl) (dispatchTarget_eq_none.mp htarget)
  · rw [htarget] at hs
    refine .inl ⟨fun x hx hc => ?_, ?_⟩
    · rw [hbatch] at hx
      obtain rfl : e = x := Option.some_inj.mp hx
      rw [dispatchTarget_eq_none.mpr hc] at htarget
      cases htarget
    · have hkeeps : KeepsAcceptor p (fetch e rest s) s' := by
        dsimp only at hs
        split_ifs at hs
        · exact keepsAcceptor_handleClient hfetch hs
        · exact keepsAcceptor_onClientDisconnected hfetch hs
      exact ⟨hkeeps.socket, hkeeps.descriptors, hkeeps.interest, hkeeps.nonBlocking⟩

theorem acceptorInv_of_run (hrun : (system p).Run tr s) : AcceptorInv p s := by
  refine hrun.invariant (I := fun _ s => AcceptorInv p s) ?_ ?_
  · rintro s ⟨hserver, hsocket, -, hkernel, -⟩
    refine ⟨.inl (by rw [hsocket]), by rw [hkernel]; exact Finset.mem_singleton_self _, ?_⟩
    rw [peerDescriptors, hserver]
    exact List.not_mem_nil
  · intro tr s a s' hrun h hs
    rcases acceptor_step (socketsInv_of_run hrun) h hs with ⟨-, hkeeps⟩ | ⟨-, h', -⟩
    · exact hkeeps.inv h
    · exact h'

/-! ### The index of the new peer -/

/-- **The peer can be found** under an index: it is in that slot, to which the table leads from its
descriptor, which epoll watches and which is in non-blocking mode; and the other peers are as
they were. -/
structure Found (fd : Descriptor) (r : ℕ) (s s' : State) : Prop where
  connected : s'.server.Connected r ⟨fd, .connected⟩
  table : s'.peerSocketIndexTable fd = some r
  interest : fd ∈ s'.kernel.interest
  nonBlocking : fd ∈ s'.kernel.nonBlocking
  others : Undisturbed s s'

/-- Neither the slots nor the table nor the interest set are changed. -/
structure Unchanged (s s' : State) : Prop where
  server : s'.server = s.server
  table : s'.peerSocketIndexTable = s.peerSocketIndexTable
  interest : s'.kernel.interest = s.kernel.interest

/-- What is to hold after `acceptNewConnection` has returned `r`: the peer that has been accepted
can be found under `r`, and nothing is changed if there is none. -/
def AcceptsWell (accepted : Option Descriptor) (r : ℕ) (s s' : State) : Prop :=
  match (s.socket.accept accepted s.kernel).1 with
  | some peerSocket => Found peerSocket.socketDescriptor r s s'
  | none => Unchanged s s'

/-- The states in which `acceptNewConnection` may be called: those of a run, and those in which an
event has been looked up. -/
def Calls (p : Process) (c : State) : Prop :=
  ∃ s, (system p).Reachable s ∧ (c = s ∨ ∃ e rest, s.batch = e :: rest ∧ c = fetch e rest s)

/-- The invariants hold in those states. -/
theorem Calls.inv {c : State} (h : Calls p c) :
    SocketsInv p c ∧ NonBlocking c ∧ AcceptorInv p c := by
  obtain ⟨s, ⟨tr, hrun⟩, hc⟩ := h
  have hsock := socketsInv_of_run hrun
  have hblocking := nonBlocking_of_run hrun
  have hacceptor := acceptorInv_of_run hrun
  rcases hc with rfl | ⟨e, rest, -, rfl⟩
  · exact ⟨hsock, hblocking, hacceptor⟩
  · exact ⟨hsock.fetched e rest, hblocking, hacceptor.fetched e rest⟩

/-- **The new peer can be found under the index of its slot**, which is the first that was free;
the value returned is `0`. -/
theorem acceptNewConnection_found {c : State} (hc : Calls p c)
    (hfresh : ∀ x ∈ accepted, c.kernel.Fresh x) :
    ∃ r s', acceptNewConnection accepted c = some (0, s') ∧ AcceptsWell accepted r c s' ∧
      (accepted = none ∧ r = 0 ∨ accepted ≠ none ∧
        (r = 0 ↔ ∀ sock, ¬c.server.Connected 0 sock) ∧
        ∀ r', AcceptsWell accepted r' c s' → r' = r) := by
  obtain ⟨hsock, hblocking, hacceptor⟩ := hc.inv
  rcases acceptNewConnection_spec hsock.peers accepted with
    ⟨kernel, hcall, -, hinterest, hnone⟩ | ⟨fd, r, s', rfl, hcall, ha, hsome⟩
  · refine ⟨0, _, hcall, ?_, .inl ⟨?_, rfl⟩⟩
    · rw [AcceptsWell, hnone]
      exact ⟨rfl, rfl, hinterest⟩
    · rcases c.socket.accept_cases accepted c.kernel with ⟨kernel', -, hquiet, -⟩ |
        ⟨fd, kernel', -, haccept, -⟩
      · exact hquiet hacceptor.state
      · rw [haccept] at hnone
        cases hnone
  · have hwell : ∀ r', AcceptsWell (some fd) r' c s' ↔ Found fd r' c s' := by
      intro r'
      rw [AcceptsWell, hsome]
    obtain ⟨halign, hfree, hconnected, -, -⟩ :=
      TcpServer.connected_addPeer hsock.peers.aligned hsock.peers.length_lt ha.addPeer
    have hadds := SlotTable.adds_of_addPeer hsock.peers.aligned hsock.peers.length_lt ha.addPeer
    have hslot : s'.server.Connected r ⟨fd, .connected⟩ := hadds.slot
    have hfound : Found fd r c s' := by
      refine ⟨hslot, ?_, ?_, ?_, ha.undisturbed hsock (hfresh fd rfl)⟩
      · rw [ha.table]
        exact Function.update_self ..
      · rw [ha.interest]
        exact Finset.mem_insert_self ..
      · exact hblocking.acceptNewConnection hsock hfresh hcall r _ hslot
    refine ⟨r, s', hcall, (hwell r).mpr hfound,
      .inr ⟨Option.some_ne_none fd, ⟨?_, fun hnone => ?_⟩, fun r' hr' => ?_⟩⟩
    · rintro rfl
      exact hfree
    · -- otherwise slot `0` comes before the first that is free
      by_contra hr
      have hflag := hadds.least 0 (Nat.pos_of_ne_zero hr)
      have hlt := (List.getElem?_eq_some_iff.mp hflag).1
      obtain ⟨flag, sock, hslot⟩ :=
        hsock.peers.aligned.exists_slot (i := 0) (hsock.peers.aligned ▸ hlt)
      obtain rfl : flag = true := Option.some_inj.mp (hslot.1.symm.trans hflag)
      exact hnone sock hslot
    · have hinv := (hsock.added (hfresh fd rfl) ha).peers
      exact hinv.distinct r' r _ _ ((hwell r').mp hr').connected hslot rfl

/-- **The index that is returned is that of the new peer exactly if** no connection is accepted or
slot `0` is not in use. -/
theorem acceptNewConnection_iff {c : State} (hc : Calls p c)
    (hfresh : ∀ x ∈ accepted, c.kernel.Fresh x) :
    (∃ r s', acceptNewConnection accepted c = some (r, s') ∧ AcceptsWell accepted r c s') ↔
      accepted = none ∨ ∀ sock, ¬c.server.Connected 0 sock := by
  obtain ⟨r, s', hcall, hwell, hcases⟩ := acceptNewConnection_found hc hfresh
  constructor
  · rintro ⟨r', s'', hcall', hwell'⟩
    rw [hcall] at hcall'
    cases hcall'
    rcases hcases with ⟨hnone, -⟩ | ⟨-, hzero, hunique⟩
    · exact .inl hnone
    · exact .inr (hzero.mp (hunique 0 hwell').symm)
  · intro hcond
    refine ⟨0, s', hcall, ?_⟩
    rcases hcases with ⟨-, rfl⟩ | ⟨hsome, hzero, -⟩
    · exact hwell
    · exact hzero.mpr (hcond.resolve_left hsome) ▸ hwell

/-- The first connection. -/
theorem acceptNewConnection_first : ∃ r s',
    acceptNewConnection (some 5) firstEvent = some (r, s') ∧
      AcceptsWell (some 5) r firstEvent s' := by
  have hrun := (run_firstEvent (acceptorValid_started _)).of_restrict
  refine (acceptNewConnection_iff ⟨firstEvent, ⟨_, hrun⟩, .inl rfl⟩ ?_).mpr (.inr ?_)
  · rintro x ⟨⟩
    exact ⟨by decide, by decide, by decide⟩
  · rintro sock ⟨hflag, -⟩
    cases hflag

/-- **The second connection is not found under the index that is returned**: `0` is that of the
first. -/
theorem acceptNewConnection_second : (system process).Reachable onePeer ∧
    ∃ s', acceptNewConnection (some 6) onePeer = some (0, s') ∧
      s'.server.Connected 1 ⟨6, .connected⟩ ∧ s'.peerSocketIndexTable 6 = some 1 ∧
      s'.server.Connected 0 ⟨5, .connected⟩ ∧ ¬AcceptsWell (some 6) 0 onePeer s' := by
  have hrun := run_onePeer (acceptorValid_started _) (acceptorValid_firstEvent _)
  refine ⟨⟨_, hrun.of_restrict⟩, _, rfl, ⟨rfl, rfl⟩, rfl, ⟨rfl, rfl⟩, fun h => ?_⟩
  have hslot := (Found.connected h).2
  cases hslot

/-! ### The blocking modes -/

/-- Epoll watches the acceptor and connected peers, and nothing else. -/
theorem interest_of_run (hrun : (system p).Run tr s) : ∀ fd ∈ s.kernel.interest,
    fd = p.acceptor ∨ ∃ i sock, s.server.Connected i sock ∧ sock.socketDescriptor = fd := by
  refine hrun.invariant (I := fun _ s => ∀ fd ∈ s.kernel.interest,
    fd = p.acceptor ∨ ∃ i sock, s.server.Connected i sock ∧ sock.socketDescriptor = fd) ?_ ?_
  · rintro s ⟨-, -, -, hkernel, -⟩ fd hfd
    rw [hkernel] at hfd
    exact .inl (Finset.mem_singleton.mp hfd)
  · intro tr s a s' hrun h hs
    have hsock := socketsInv_of_run hrun
    rcases hs with ⟨events, -, -, -⟩ | ⟨accepted, received, hfresh, -, hs⟩
    · exact h
    rcases hbatch : s.batch with _ | ⟨e, rest⟩
    · rw [dispatch, hbatch] at hs
      cases hs
    -- a descriptor that is watched before the removal of a peer, and is not its own
    have hremoved : ∀ i flag sock closes, s.server.Slot i flag sock →
        Removed p i sock.socketDescriptor closes (fetch e rest s) s' → ∀ fd ∈ s'.kernel.interest,
        fd = p.acceptor ∨ ∃ i sock, s'.server.Connected i sock ∧ sock.socketDescriptor = fd := by
      intro i flag sock closes hslot hr fd hfd
      rw [hr.interest] at hfd
      rcases h fd (Finset.mem_of_mem_erase hfd) with heq | ⟨j, x, hj, rfl⟩
      · exact .inl heq
      · refine .inr ⟨j, x, (hr.connected j x).mpr ⟨?_, hj⟩, rfl⟩
        rintro rfl
        exact Finset.ne_of_mem_erase hfd (congrArg Socket.socketDescriptor (hslot.unique hj).2)
    rcases dispatch_cases hsock hbatch hs with ⟨hserver, -, -, -, -, hinterest⟩ |
      ⟨fd, r, -, -, ha⟩ | ⟨i, flag, sock, -, hslot, hr⟩ | ⟨i, flag, sock, -, -, -, hslot, -, -, hr⟩
    · rw [hinterest, hserver]
      exact h
    · intro x hx
      obtain ⟨-, -, hconnected, -, -⟩ :=
        TcpServer.connected_addPeer hsock.peers.aligned hsock.peers.length_lt ha.addPeer
      rw [ha.interest] at hx
      rcases Finset.mem_insert.mp hx with rfl | hx
      · exact .inr ⟨r, _, (hconnected r _).mpr (.inl ⟨rfl, rfl⟩), rfl⟩
      · rcases h x hx with heq | ⟨i, sock, hi, hfd⟩
        · exact .inl heq
        · exact .inr ⟨i, sock, (hconnected i sock).mpr (.inr hi), hfd⟩
    · exact hremoved i flag sock _ hslot hr
    · exact hremoved i flag sock _ hslot hr

/-- The acceptor is in non-blocking mode as long as no connection has been awaited. -/
theorem acceptor_nonBlocking_iff (hrun : (system p).Run tr s) :
    p.acceptor ∈ s.kernel.nonBlocking ↔ ((system p).restrict NotAccepting).Run tr s := by
  constructor
  · refine hrun.invariant (I := fun tr s => p.acceptor ∈ s.kernel.nonBlocking →
      ((system p).restrict NotAccepting).Run tr s) ?_ ?_
    · exact fun s hs _ => .start hs
    · intro tr s a s' hrun ih hs hmem
      rcases acceptor_step (socketsInv_of_run hrun) (acceptorInv_of_run hrun) hs with
        ⟨hquiet, hkeeps⟩ | ⟨-, -, hnotMem⟩
      · exact (ih (hkeeps.nonBlocking.mp hmem)).snoc ⟨hs, hquiet⟩
      · exact absurd hmem hnotMem
  · intro hrestrict
    refine hrestrict.invariant (I := fun _ s => p.acceptor ∈ s.kernel.nonBlocking) ?_ ?_
    · rintro s ⟨-, -, -, hkernel, -⟩
      rw [hkernel]
      exact Finset.mem_singleton_self _
    · rintro tr s a s' hrun ih ⟨hs, hquiet⟩
      have hrun := hrun.of_restrict
      rcases acceptor_step (socketsInv_of_run hrun) (acceptorInv_of_run hrun) hs with
        ⟨-, hkeeps⟩ | ⟨hc, -⟩
      · exact hkeeps.nonBlocking.mpr ih
      · exact absurd hquiet hc

/-- **All that the reactor watches is in non-blocking mode exactly as long as** no event on the
acceptor has led to `acceptNewConnection`. -/
theorem nonBlocking_iff_not_accepting (hrun : (system p).Run tr s) :
    (∀ fd ∈ s.kernel.interest, fd ∈ s.kernel.nonBlocking) ↔
      ((system p).restrict NotAccepting).Run tr s := by
  rw [← acceptor_nonBlocking_iff hrun]
  constructor
  · exact fun h => h _ (acceptorInv_of_run hrun).watched
  · intro hacceptor fd hfd
    rcases interest_of_run hrun fd hfd with rfl | ⟨i, sock, hi, rfl⟩
    · exact hacceptor
    · exact nonBlocking_of_run hrun i sock hi

/-- The first event has been fetched, and not been dispatched yet. -/
theorem nonBlocking_firstEvent : (system process).Reachable firstEvent ∧
    ∀ fd ∈ firstEvent.kernel.interest, fd ∈ firstEvent.kernel.nonBlocking := by
  have hrun : ((system process).restrict NotAccepting).Run [.wait] firstEvent :=
    run_firstEvent (by rintro e ⟨⟩)
  exact ⟨⟨_, hrun.of_restrict⟩, (nonBlocking_iff_not_accepting hrun.of_restrict).mpr hrun⟩

/-- **The first connection makes the acceptor blocking**, and the reactor goes on to
`epoll_wait`. -/
theorem blocking_onePeer : (system process).Reachable onePeer ∧ onePeer.batch = [] ∧
    3 ∈ onePeer.kernel.interest ∧ 3 ∉ onePeer.kernel.nonBlocking := by
  have hrun := run_onePeer (acceptorValid_started _) (acceptorValid_firstEvent _)
  exact ⟨⟨_, hrun.of_restrict⟩, rfl, by decide, by decide⟩

end Reactor

end Net

end LowLatency
