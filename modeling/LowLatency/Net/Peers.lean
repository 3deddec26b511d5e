import LowLatency.Net.TcpServer

/-!
# The peers and the descriptors

What both servers rely on, whatever their threads do with the peers
(`LowLatency.Net.Peers`): connected peers have descriptors of their own, which are open
and were handed out by `::accept`, and the sockets left in free slots are disconnected,
so that destroying them closes nothing. The two vectors keep their common length, which
stays an `int`.
-/

namespace LowLatency

namespace Net

open TcpServer (Slot Connected Aligned)

/-- The descriptors the process has open when the server has started, among them the
acceptor's. Descriptor `0` is open, so `::accept` never hands it out. -/
structure Process where
  base : Finset Descriptor
  acceptor : Descriptor
  zero_mem : 0 ∈ base
  acceptor_mem : acceptor ∈ base

/-- **The invariant of the peers**, with `opened` the descriptors that are open. -/
structure Peers (p : Process) (opened : Finset Descriptor) (server : TcpServer) : Prop where
  aligned : server.Aligned
  length_lt : server.peerSockets.length < 2 ^ 31
  base : p.base ⊆ opened
  peer : ∀ i sock, server.Connected i sock → 0 < sock.socketDescriptor ∧
    sock.socketDescriptor < 2 ^ 31 ∧ sock.socketDescriptor ∈ opened ∧
    sock.socketDescriptor ∉ p.base
  distinct : ∀ i j sock sock', server.Connected i sock → server.Connected j sock' →
    sock.socketDescriptor = sock'.socketDescriptor → i = j
  free : ∀ i sock, server.Slot i false sock → sock.state = .disconnected

namespace Peers

variable {p : Process} {opened opened' : Finset Descriptor} {server server' : TcpServer}
  {i r : ℕ} {flag : Bool} {sock : Socket} {fd : Descriptor} {closed : Option Descriptor}

/-- A server without slots. -/
theorem empty : Peers p p.base ⟨[], []⟩ := by
  have hnone : ∀ i flag sock, ¬Slot ⟨[], []⟩ i flag sock := by
    rintro i flag sock ⟨-, hsock⟩
    cases hsock
  refine ⟨rfl, by decide, subset_rfl, fun i sock h => ?_, fun i j sock sock' h => ?_,
    fun i sock h => ?_⟩
  · exact (hnone i true sock h).elim
  · exact (hnone i true sock h).elim
  · exact (hnone i false sock h).elim

/-- The acceptor's descriptor is no peer's. -/
theorem ne_acceptor (h : Peers p opened server) (hi : server.Connected i sock) :
    sock.socketDescriptor ≠ p.acceptor := by
  rintro heq
  exact (h.peer i sock hi).2.2.2 (heq ▸ p.acceptor_mem)

/-- More descriptors are opened. -/
theorem mono (h : Peers p opened server) (hsub : opened ⊆ opened') : Peers p opened' server where
  aligned := h.aligned
  length_lt := h.length_lt
  base := h.base.trans hsub
  peer i sock hi := by
    obtain ⟨hpos, hlt, hopen, hbase⟩ := h.peer i sock hi
    exact ⟨hpos, hlt, hsub hopen, hbase⟩
  distinct := h.distinct
  free := h.free

/-- A descriptor is closed that is not in use. -/
theorem erase (h : Peers p opened server) (hbase : fd ∉ p.base)
    (hne : ∀ i sock, server.Connected i sock → sock.socketDescriptor ≠ fd) :
    Peers p (opened.erase fd) server where
  aligned := h.aligned
  length_lt := h.length_lt
  base x hx := Finset.mem_erase.mpr ⟨fun hc => hbase (hc ▸ hx), h.base hx⟩
  peer i sock hi := by
    obtain ⟨hpos, hlt, hopen, hpeer⟩ := h.peer i sock hi
    exact ⟨hpos, hlt, Finset.mem_erase.mpr ⟨hne i sock hi, hopen⟩, hpeer⟩
  distinct := h.distinct
  free := h.free

/-- **`addPeer` closes nothing**, since the socket left in a free slot is disconnected. -/
theorem closed_addPeer (h : Peers p opened server) {peer : Socket}
    (hadd : server.addPeer peer = (r, server', closed)) : closed = none := by
  obtain ⟨-, -, -, -, hnone | ⟨old, hold, hclose⟩⟩ :=
    TcpServer.connected_addPeer h.aligned h.length_lt hadd
  · exact hnone
  · rw [hclose, Socket.close_of_disconnected (h.free r old hold)]

/-- **A peer is added** with a descriptor that is open but not in use yet. -/
theorem addPeer (h : Peers p opened server) (hpos : 0 < fd) (hlt : fd < 2 ^ 31)
    (hopened : fd ∈ opened) (hbase : fd ∉ p.base)
    (hnew : ∀ i sock, server.Connected i sock → sock.socketDescriptor ≠ fd)
    (hadd : server.addPeer ⟨fd, .connected⟩ = (r, server', closed)) : Peers p opened server' := by
  obtain ⟨halign, -, hconnected, hslots, -⟩ :=
    TcpServer.connected_addPeer h.aligned h.length_lt hadd
  have hpeer : ∀ i sock, server'.Connected i sock → 0 < sock.socketDescriptor ∧
      sock.socketDescriptor < 2 ^ 31 ∧ sock.socketDescriptor ∈ opened ∧
      sock.socketDescriptor ∉ p.base := by
    intro i sock hi
    rcases (hconnected i sock).mp hi with ⟨rfl, rfl⟩ | hold
    · exact ⟨hpos, hlt, hopened, hbase⟩
    · exact h.peer i sock hold
  have hdistinct : ∀ i j sock sock', server'.Connected i sock → server'.Connected j sock' →
      sock.socketDescriptor = sock'.socketDescriptor → i = j := by
    intro i j sock sock' hi hj heq
    rcases (hconnected i sock).mp hi with ⟨rfl, rfl⟩ | hold
    · rcases (hconnected j sock').mp hj with ⟨rfl, -⟩ | hold'
      · rfl
      · exact absurd heq.symm (hnew j sock' hold')
    · rcases (hconnected j sock').mp hj with ⟨rfl, rfl⟩ | hold'
      · exact absurd heq (hnew i sock hold)
      · exact h.distinct i j sock sock' hold hold' heq
  exact ⟨halign, TcpServer.length_addPeer_lt h.aligned h.length_lt hadd
    (fun i sock hi => ⟨(hpeer i sock hi).1, (hpeer i sock hi).2.1⟩) hdistinct, h.base, hpeer,
    hdistinct, fun i sock hi => h.free i sock (hslots i sock hi)⟩

/-- The peers after the removal of one: the others are as they were, the free slots hold
disconnected sockets, and nothing is closed but the descriptor of a peer removed. -/
theorem remove (h : Peers p opened server) (hslot : server.Slot i flag sock)
    (halign : server'.Aligned)
    (hlength : server'.peerSockets.length = server.peerSockets.length)
    (hconnected : ∀ j x, server'.Connected j x ↔ j ≠ i ∧ server.Connected j x)
    (hfree : ∀ j x, server'.Slot j false x → x.state = .disconnected ∨ server.Slot j false x)
    (hopened : opened' = opened ∨ flag = true ∧ opened' = opened.erase sock.socketDescriptor) :
    Peers p opened' server' := by
  have hkept : ∀ x ∈ opened, (flag = true → x ≠ sock.socketDescriptor) → x ∈ opened' := by
    intro x hx hne
    rcases hopened with rfl | ⟨hflag, rfl⟩
    · exact hx
    · exact Finset.mem_erase.mpr ⟨hne hflag, hx⟩
  refine ⟨halign, hlength ▸ h.length_lt, fun x hx => ?_, fun j x hj => ?_, fun j k x y hj hk => ?_,
    fun j x hj => ?_⟩
  · refine hkept x (h.base hx) ?_
    rintro rfl heq
    exact (h.peer i sock hslot).2.2.2 (heq ▸ hx)
  · obtain ⟨hji, hj⟩ := (hconnected j x).mp hj
    obtain ⟨hpos, hlt, hopen, hbase⟩ := h.peer j x hj
    refine ⟨hpos, hlt, hkept _ hopen ?_, hbase⟩
    rintro rfl heq
    exact hji (h.distinct j i x sock hj hslot heq)
  · exact h.distinct j k x y ((hconnected j x).mp hj).2 ((hconnected k y).mp hk).2
  · rcases hfree j x hj with hstate | hold
    · exact hstate
    · exact h.free j x hold

/-- **`removePeer`** closes the socket unless it is disconnected already. -/
theorem removePeer (h : Peers p opened server) (hslot : server.Slot i flag sock) :
    ∃ server', server.removePeer i = some (server', sock.close.2) ∧
      (∀ j x, server'.Connected j x ↔ j ≠ i ∧ server.Connected j x) ∧
      (sock.state = .disconnected ∧ sock.close.2 = none ∧ Peers p opened server' ∨
        sock.state ≠ .disconnected ∧ flag = true ∧ sock.close.2 = some sock.socketDescriptor ∧
        Peers p (opened.erase sock.socketDescriptor) server') := by
  obtain ⟨server', hremove, halign, hlength, hconnected, hfree⟩ :=
    TcpServer.connected_removePeer h.aligned hslot
  have hfree : ∀ j x, server'.Slot j false x → x.state = .disconnected ∨ server.Slot j false x := by
    intro j x hj
    rcases (hfree j x).mp hj with ⟨-, rfl⟩ | ⟨-, hold⟩
    · exact .inl (Socket.close_state sock)
    · exact .inr hold
  refine ⟨server', hremove, hconnected, ?_⟩
  by_cases hstate : sock.state = .disconnected
  · exact .inl ⟨hstate, Socket.close_of_disconnected hstate,
      h.remove hslot halign hlength hconnected hfree (.inl rfl)⟩
  · have hflag : flag = true := by
      by_contra hflag
      exact hstate (h.free i sock (Bool.eq_false_of_not_eq_true hflag ▸ hslot))
    obtain rfl := hflag
    refine .inr ⟨hstate, rfl, ?_,
      h.remove hslot halign hlength hconnected hfree (.inr ⟨rfl, rfl⟩)⟩
    rw [Socket.close, if_pos hstate, if_pos (h.peer i sock hslot).1]

/-- A socket is marked as disconnected. -/
theorem disconnect (h : Peers p opened server) (hslot : server.Slot i flag sock) :
    Peers p opened (server.setPeerSocket i { sock with state := .disconnected }) := by
  obtain ⟨halign, hslots⟩ := TcpServer.slot_setPeerSocket h.aligned hslot
    { sock with state := .disconnected }
  refine ⟨halign, ?_, h.base, fun j x hj => ?_, fun j k x y hj hk heq => ?_, fun j x hj => ?_⟩
  · rw [TcpServer.setPeerSocket, List.length_set]
    exact h.length_lt
  · obtain ⟨y, hy, heq⟩ := TcpServer.connected_disconnect h.aligned hslot hj
    exact heq ▸ h.peer j y hy
  · obtain ⟨x', hx', hx⟩ := TcpServer.connected_disconnect h.aligned hslot hj
    obtain ⟨y', hy', hy⟩ := TcpServer.connected_disconnect h.aligned hslot hk
    exact h.distinct j k x' y' hx' hy' (hx.trans (heq.trans hy.symm))
  · rcases (hslots j false x).mp hj with ⟨-, -, rfl⟩ | ⟨-, hj⟩
    · rfl
    · exact h.free j x hj

end Peers

end Net

end LowLatency
