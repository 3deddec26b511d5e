import LowLatency.Net.Reactor

/-!
# What a dispatch does

The dispatch of an event does one of four things, and the rest of the development knows
no more of it (`LowLatency.Net.Reactor.DispatchCase`): nothing, or it adds a peer, or it
removes one and closes its socket, or it removes one whose connection
`isConnectionLost` has declared lost, and then closes nothing.

This takes an invariant of the sockets and the descriptors alone
(`LowLatency.Net.Reactor.SocketsInv`), which holds in every run, whatever the events and
the errors: connected peers have descriptors of their own, which are open, and the
sockets left in free slots are disconnected.
-/

namespace LowLatency

namespace Net

namespace Reactor

open TcpServer (Slot Connected Aligned)

variable {p : Process} {s s' : State} {i r : ℕ} {flag : Bool} {sock : Socket} {fd : Descriptor}
  {e : EpollEvent} {rest : List EpollEvent}

/-! ### The sockets and the descriptors -/

/-- **The invariant of the sockets**: what holds of the peers and their descriptors,
however the table and the interest set stand. -/
structure SocketsInv (p : Process) (s : State) : Prop where
  peers : Peers p s.kernel.opened s.server
  acceptor : s.socket.socketDescriptor = p.acceptor
  state : ∀ i sock, s.server.Connected i sock → sock.state = .connected

theorem socketsInv_init (h : (system p).Init s) : SocketsInv p s := by
  obtain ⟨hserver, hsocket, -, hkernel, -⟩ := h
  refine ⟨by rw [hserver, hkernel]; exact .empty, by rw [hsocket], ?_⟩
  rintro i sock ⟨-, hsock⟩
  rw [hserver] at hsock
  cases hsock

/-- The acceptor's descriptor is no peer's. -/
theorem SocketsInv.ne_acceptor (h : SocketsInv p s) (hi : s.server.Connected i sock) :
    sock.socketDescriptor ≠ s.socket.socketDescriptor :=
  h.acceptor ▸ h.peers.ne_acceptor hi

/-! ### Adding and removing a peer -/

/-- The peer `r`, with the descriptor `fd`, has been added between `s` and `s'`. -/
structure Added (fd : Descriptor) (r : ℕ) (s s' : State) : Prop where
  addPeer : s.server.addPeer ⟨fd, .connected⟩ = (r, s'.server, none)
  socket : s'.socket.socketDescriptor = s.socket.socketDescriptor
  table : s'.peerSocketIndexTable = Function.update s.peerSocketIndexTable fd (some r)
  batch : s'.batch = s.batch
  opened : s'.kernel.opened = insert fd s.kernel.opened
  interest : s'.kernel.interest = insert fd s.kernel.interest

/-- The peer `i` has been removed between `s` and `s'`, and its descriptor been closed if
`closes`. -/
structure Removed (p : Process) (i : ℕ) (fd : Descriptor) (closes : Prop) (s s' : State) :
    Prop where
  peers : Peers p s'.kernel.opened s'.server
  connected : ∀ j x, s'.server.Connected j x ↔ j ≠ i ∧ s.server.Connected j x
  socket : s'.socket = s.socket
  table : s'.peerSocketIndexTable = s.peerSocketIndexTable
  batch : s'.batch = s.batch
  opened : closes ∧ s'.kernel.opened = s.kernel.opened.erase fd ∨
    ¬closes ∧ s'.kernel.opened = s.kernel.opened
  interest : s'.kernel.interest = s.kernel.interest.erase fd

/-- **What `onClientDisconnected` does** to the peer in a slot: it closes the socket
unless it is disconnected already. -/
theorem onClientDisconnected_spec (h : Peers p s.kernel.opened s.server)
    (hslot : s.server.Slot i flag sock) :
    ∃ s', onClientDisconnected i s = some s' ∧
      Removed p i sock.socketDescriptor (sock.state ≠ .disconnected) s s' := by
  obtain ⟨server, hremove, hconnected, hcases⟩ := h.removePeer hslot
  refine ⟨{ s with
      server := server
      kernel := (s.kernel.epollDel sock.socketDescriptor).closeAny sock.close.2 }, ?_, ?_⟩
  · rw [onClientDisconnected, hslot.2, Option.bind_some, hremove]
    rfl
  · -- `Socket::close` closes nothing if the socket is disconnected already
    rcases hcases with ⟨hstate, hclose, hpeers⟩ | ⟨hstate, -, hclose, hpeers⟩
    · refine ⟨?_, hconnected, rfl, rfl, rfl, .inr ⟨not_not.mpr hstate, ?_⟩, ?_⟩
      all_goals rw [hclose]
      exacts [hpeers, rfl, rfl]
    · refine ⟨?_, hconnected, rfl, rfl, rfl, .inl ⟨hstate, ?_⟩, ?_⟩
      all_goals rw [hclose]
      exacts [hpeers, rfl, Finset.erase_idem ..]

/-- **What `onClientDisconnected` does** to a peer that `isConnectionLost` has marked as
disconnected: it closes nothing. -/
theorem onClientDisconnected_lost (h : Peers p s.kernel.opened s.server)
    (hslot : s.server.Slot i flag sock) :
    ∃ s', onClientDisconnected i
        { s with server := s.server.setPeerSocket i { sock with state := .disconnected } } =
          some s' ∧ Removed p i sock.socketDescriptor False s s' := by
  obtain ⟨-, hslots⟩ := TcpServer.slot_setPeerSocket h.aligned hslot
    { sock with state := .disconnected }
  obtain ⟨s', hdisc, hremoved⟩ := onClientDisconnected_spec
    (s := { s with server := s.server.setPeerSocket i { sock with state := .disconnected } })
    (h.disconnect hslot) ((hslots i flag _).mpr (.inl ⟨rfl, rfl, rfl⟩))
  refine ⟨s', hdisc, hremoved.peers, fun j x => ?_, hremoved.socket, hremoved.table,
    hremoved.batch, ?_, hremoved.interest⟩
  · rw [hremoved.connected, Connected, hslots]
    constructor
    · rintro ⟨hj, ⟨hji, -⟩ | ⟨-, hx⟩⟩
      · exact absurd hji hj
      · exact ⟨hj, hx⟩
    · rintro ⟨hj, hx⟩
      exact ⟨hj, .inr ⟨hj, hx⟩⟩
  · rcases hremoved.opened with ⟨hc, -⟩ | ⟨-, hopened⟩
    · exact absurd rfl hc
    · exact .inr ⟨id, hopened⟩

/-- **What `acceptNewConnection` does**: it adds the peer that `Socket::accept` has made, or
nothing. -/
theorem acceptNewConnection_spec (h : Peers p s.kernel.opened s.server)
    (accepted : Option Descriptor) :
    (∃ kernel, acceptNewConnection accepted s = some (0, { s with kernel := kernel }) ∧
      kernel.opened = s.kernel.opened ∧ kernel.interest = s.kernel.interest ∧
      (s.socket.accept accepted s.kernel).1 = none) ∨
    ∃ fd r s', accepted = some fd ∧ acceptNewConnection accepted s = some (0, s') ∧
      Added fd r s s' ∧ (s.socket.accept accepted s.kernel).1 = some ⟨fd, .connected⟩ := by
  rcases s.socket.accept_cases accepted s.kernel with
    ⟨kernel, haccept, -, hopened, hinterest, -⟩ | ⟨fd, kernel, rfl, haccept, hopened, hinterest, -⟩
  · refine .inl ⟨kernel, ?_, hopened, hinterest, by rw [haccept]⟩
    rw [acceptNewConnection, haccept]
  · rcases hadd : s.server.addPeer ⟨fd, .connected⟩ with ⟨r, server, closed⟩
    obtain ⟨-, -, hconnected, -, -⟩ := TcpServer.connected_addPeer h.aligned h.length_lt hadd
    have hslot : server.peerSockets[r]? = some ⟨fd, .connected⟩ :=
      ((hconnected r ⟨fd, .connected⟩).mpr (.inl ⟨rfl, rfl⟩)).2
    -- the socket that `addPeer` destroys has been closed before
    obtain rfl := h.closed_addPeer hadd
    simp only [acceptNewConnection, haccept, hadd, onClientConnected, hslot, Option.map_some]
    refine .inr ⟨fd, r, _, rfl, rfl, ⟨hadd, rfl, rfl, rfl, ?_, ?_⟩, rfl⟩
    · simpa using hopened
    · rw [Kernel.setBlockingMode_interest, Kernel.closeAny_none,
        Kernel.epollAdd_interest (by rw [hopened]; exact Finset.mem_insert_self ..), hinterest]

/-! ### The cases -/

/-- The state in which the event `e` is handled: it has been taken from the batch and
looked up in the table. -/
def fetch (e : EpollEvent) (rest : List EpollEvent) (s : State) : State :=
  { s with
    peerSocketIndexTable :=
      Function.update s.peerSocketIndexTable e.fd (some ((s.peerSocketIndexTable e.fd).getD 0))
    batch := rest }

/-- To look up the next event touches no socket. -/
theorem SocketsInv.fetched (h : SocketsInv p s) (e : EpollEvent) (rest : List EpollEvent) :
    SocketsInv p (fetch e rest s) :=
  ⟨h.peers, h.acceptor, h.state⟩

/-- The dispatch of an event, by its target. -/
theorem dispatch_cons (hbatch : s.batch = e :: rest) (accepted : Option Descriptor)
    (received : Received) :
    dispatch accepted received s =
      match dispatchTarget s e with
      | none => (acceptNewConnection accepted (fetch e rest s)).map Prod.snd
      | some i =>
        if isValidEvent e then handleClient i received (fetch e rest s)
        else onClientDisconnected i (fetch e rest s) := by
  rw [dispatch, hbatch, dispatchTarget]
  by_cases hvalid : isValidEvent e = true
  · by_cases hfd : e.fd = s.socket.socketDescriptor
    · rw [if_pos ⟨hvalid, hfd⟩]
      exact (if_pos hvalid).trans (if_pos hfd)
    · rw [if_neg fun hc => hfd hc.2]
      exact ((if_pos hvalid).trans (if_neg hfd)).trans (if_pos hvalid).symm
  · rw [if_neg fun hc => hvalid hc.1]
    exact (if_neg hvalid).trans (if_neg hvalid).symm

theorem dispatchTarget_eq_none :
    dispatchTarget s e = none ↔ isValidEvent e = true ∧ e.fd = s.socket.socketDescriptor := by
  rw [dispatchTarget]
  split_ifs with h
  · exact iff_of_true rfl h
  · exact iff_of_false (by simp) h

/-- **A lost connection**: the peer in the slot is removed, and nothing is closed. -/
theorem dispatch_lost (h : SocketsInv p s) (hbatch : s.batch = e :: rest)
    (hvalid : isValidEvent e = true) (htarget : dispatchTarget s e = some i)
    (hslot : s.server.Slot i flag sock) {error : ℤ} (hlost : Socket.lostError error = true)
    (accepted : Option Descriptor) (read : ℤ) :
    ∃ s', dispatch accepted (.failed read error) s = some s' ∧
      Removed p i sock.socketDescriptor False (fetch e rest s) s' := by
  have hpeers : Peers p (fetch e rest s).kernel.opened (fetch e rest s).server := h.peers
  have hsock : (fetch e rest s).server.peerSockets[i]? = some sock := hslot.2
  obtain ⟨s', hdisc, hremoved⟩ := onClientDisconnected_lost hpeers hslot
  refine ⟨s', ?_, hremoved⟩
  rw [dispatch_cons hbatch, htarget]
  simp only [hvalid, if_true, handleClient, hsock, Option.bind_some, Socket.isConnectionLost, hlost]
  exact hdisc

/-- **The cases of a dispatch** of the event `e`. -/
inductive DispatchCase (p : Process) (e : EpollEvent) (rest : List EpollEvent) (s : State) :
    Option Descriptor → Received → State → Prop
  | quiet {accepted : Option Descriptor} {received : Received} {s' : State} :
      s'.server = s.server → s'.socket = s.socket →
      s'.peerSocketIndexTable = (fetch e rest s).peerSocketIndexTable → s'.batch = rest →
      s'.kernel.opened = s.kernel.opened → s'.kernel.interest = s.kernel.interest →
      DispatchCase p e rest s accepted received s'
  | added {received : Received} {s' : State} (fd : Descriptor) (r : ℕ) :
      isValidEvent e = true → e.fd = s.socket.socketDescriptor →
      Added fd r (fetch e rest s) s' → DispatchCase p e rest s (some fd) received s'
  | removed {accepted : Option Descriptor} {received : Received} {s' : State} (i : ℕ)
      (flag : Bool) (sock : Socket) : dispatchTarget s e = some i → s.server.Slot i flag sock →
      Removed p i sock.socketDescriptor (sock.state ≠ .disconnected) (fetch e rest s) s' →
      DispatchCase p e rest s accepted received s'
  | lost {accepted : Option Descriptor} {s' : State} (i : ℕ) (flag : Bool) (sock : Socket)
      (read error : ℤ) : dispatchTarget s e = some i → s.server.Slot i flag sock →
      isValidEvent e = true → Socket.lostError error = true →
      Removed p i sock.socketDescriptor False (fetch e rest s) s' →
      DispatchCase p e rest s accepted (.failed read error) s'

/-- **A dispatch does one of four things.** -/
theorem dispatch_cases (h : SocketsInv p s) (hbatch : s.batch = e :: rest)
    {accepted : Option Descriptor} {received : Received}
    (hdisp : dispatch accepted received s = some s') :
    DispatchCase p e rest s accepted received s' := by
  have hpeers : Peers p (fetch e rest s).kernel.opened (fetch e rest s).server := h.peers
  have hs := hdisp
  rw [dispatch_cons hbatch] at hs
  rcases htarget : dispatchTarget s e with _ | i
  · -- a connection
    obtain ⟨hvalid, hacceptor⟩ := dispatchTarget_eq_none.mp htarget
    rw [htarget] at hs
    rcases acceptNewConnection_spec hpeers accepted with
      ⟨kernel, haccept, hopened, hinterest, -⟩ | ⟨fd, r, s'', rfl, haccept, hadded, -⟩
    · rw [haccept] at hs
      cases hs
      exact .quiet rfl rfl rfl rfl hopened hinterest
    · rw [haccept] at hs
      cases hs
      exact .added fd r hvalid hacceptor hadded
  · rw [htarget] at hs
    dsimp only at hs
    split_ifs at hs with hvalid
    · -- an event of a peer
      obtain ⟨sock, hsock, hs⟩ := Option.bind_eq_some_iff.mp hs
      obtain ⟨flag, sock', hslot⟩ :=
        h.peers.aligned.exists_slot (List.getElem?_eq_some_iff.mp hsock).1
      obtain rfl : sock' = sock := Option.some_inj.mp (hslot.2.symm.trans hsock)
      rcases received with bytes | ⟨read, error⟩
      · dsimp only at hs
        split_ifs at hs with hquit
        · obtain ⟨s'', hdisc, hremoved⟩ := onClientDisconnected_spec hpeers hslot
          rw [hdisc] at hs
          cases hs
          exact .removed i flag sock' htarget hslot hremoved
        · cases hs
          exact .quiet rfl rfl rfl rfl rfl rfl
      · rcases hlost : Socket.lostError error with _ | _
        · simp only [Socket.isConnectionLost, hlost] at hs
          cases hs
          exact .quiet rfl rfl rfl rfl rfl rfl
        · obtain ⟨s'', hdispatch, hremoved⟩ :=
            dispatch_lost h hbatch hvalid htarget hslot hlost accepted read
          rw [hdispatch] at hdisp
          cases hdisp
          exact .lost i flag sock' read error htarget hslot hvalid hlost hremoved
    · -- an event that is not valid
      obtain ⟨sock, hsock, -⟩ := Option.bind_eq_some_iff.mp hs
      obtain ⟨flag, sock', hslot⟩ :=
        h.peers.aligned.exists_slot (List.getElem?_eq_some_iff.mp hsock).1
      obtain ⟨s'', hdisc, hremoved⟩ := onClientDisconnected_spec hpeers hslot
      rw [hdisc] at hs
      cases hs
      exact .removed i flag sock' htarget hslot hremoved

/-! ### The sockets along a run -/

/-- A peer is added with a descriptor that was not open. -/
theorem SocketsInv.added (h : SocketsInv p s) (hfresh : s.kernel.Fresh fd)
    (ha : Added fd r s s') : SocketsInv p s' := by
  obtain ⟨hnonneg, hlt, hnew⟩ := hfresh
  have hne : fd ≠ 0 := by
    rintro rfl
    exact hnew (h.peers.base p.zero_mem)
  obtain ⟨-, -, hconnected, -, -⟩ :=
    TcpServer.connected_addPeer h.peers.aligned h.peers.length_lt ha.addPeer
  refine ⟨?_, ha.socket.trans h.acceptor, fun i sock hi => ?_⟩
  · rw [ha.opened]
    refine (h.peers.mono (Finset.subset_insert fd _)).addPeer (lt_of_le_of_ne hnonneg hne.symm)
      hlt (Finset.mem_insert_self ..) (fun hc => hnew (h.peers.base hc)) ?_ ha.addPeer
    rintro i sock hi rfl
    exact hnew (h.peers.peer i sock hi).2.2.1
  · rcases (hconnected i sock).mp hi with ⟨-, rfl⟩ | hold
    · rfl
    · exact h.state i sock hold

/-- A peer is removed. -/
theorem SocketsInv.removed {closes : Prop} (h : SocketsInv p s) (hr : Removed p i fd closes s s') :
    SocketsInv p s' :=
  ⟨hr.peers, hr.socket ▸ h.acceptor, fun j x hj => h.state j x ((hr.connected j x).mp hj).2⟩

/-- **The invariant of the sockets is kept by every step.** -/
theorem SocketsInv.step {a : Action} (h : SocketsInv p s) (hs : (system p).Step s a s') :
    SocketsInv p s' := by
  rcases hs with ⟨events, -, -, -⟩ | ⟨accepted, received, hfresh, -, hs⟩
  · exact ⟨h.peers, h.acceptor, h.state⟩
  · rcases hbatch : s.batch with _ | ⟨e, rest⟩
    · rw [dispatch, hbatch] at hs
      cases hs
    · have hfetch := h.fetched e rest
      rcases dispatch_cases h hbatch hs with ⟨hserver, hsocket, -, -, hopened, -⟩ |
        ⟨fd, r, -, -, hadded⟩ | ⟨i, flag, sock, -, -, hremoved⟩ |
        ⟨i, flag, sock, -, -, -, -, -, -, hremoved⟩
      · refine ⟨?_, hsocket ▸ h.acceptor, hserver ▸ h.state⟩
        rw [hserver, hopened]
        exact h.peers
      · exact hfetch.added (hfresh fd rfl) hadded
      · exact hfetch.removed hremoved
      · exact hfetch.removed hremoved

/-- **The invariant of the sockets holds along every run.** -/
theorem socketsInv_of_run {tr : List Action} (hrun : (system p).Run tr s) : SocketsInv p s :=
  hrun.invariant (I := fun _ s => SocketsInv p s) (fun _ => socketsInv_init)
    fun _ _ _ _ _ h hs => h.step hs

end Reactor

end Net

end LowLatency
