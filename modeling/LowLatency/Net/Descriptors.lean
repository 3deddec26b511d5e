import LowLatency.Net.ReactorDispatch
import LowLatency.Net.ThreadPerClientInvariant

/-!
# The descriptors of removed peers

Both servers remove a peer by `removePeer`, which leaves the descriptor to
`Socket::close`; and this closes nothing if `isConnectionLost` has marked the socket as
disconnected before. So the open descriptors are those of the connected peers as long as
no `receive` from a connected peer reports a lost connection
(`LowLatency.Net.descriptors_accounted_unless_lost`), and in the reactor no longer than
that. The acceptor of the thread-per-client server also has a descriptor in hand between
`accept` and `addPeer`.
-/

namespace LowLatency

namespace Net

open TcpServer (Slot Connected Aligned)

/-- **The descriptors handed out by `::accept` that are open** are those of the connected
peers, and of the socket in hand. -/
def Accounted (p : Process) (opened : Finset Descriptor) (server : TcpServer)
    (hand : Option Socket) : Prop :=
  ∀ fd, fd ∉ p.base → (fd ∈ opened ↔
    (∃ i sock, server.Connected i sock ∧ sock.socketDescriptor = fd) ∨
      ∃ sock, hand = some sock ∧ sock.socketDescriptor = fd)

/-- **The descriptors of the peers that have been removed** are closed. -/
def Closes (server server' : TcpServer) (opened' : Finset Descriptor) : Prop :=
  ∀ i sock, server.Connected i sock → (∀ x, ¬server'.Connected i x) →
    sock.socketDescriptor ∉ opened'

theorem Closes.refl (server : TcpServer) (opened : Finset Descriptor) :
    Closes server server opened :=
  fun _ x hj hnot => absurd hj (hnot x)

/-- **The removal of a connected peer** keeps account of the descriptors if its descriptor
is closed. -/
theorem Accounted.erase {p : Process} {opened : Finset Descriptor} {server server' : TcpServer}
    {hand : Option Socket} {i : ℕ} {sock : Socket} (h : Accounted p opened server hand)
    (hi : server.Connected i sock)
    (hconnected : ∀ j x, server'.Connected j x ↔ j ≠ i ∧ server.Connected j x)
    (hdistinct : ∀ j x, server.Connected j x → x.socketDescriptor = sock.socketDescriptor → j = i)
    (hhand : ∀ x, hand = some x → x.socketDescriptor ≠ sock.socketDescriptor) :
    Accounted p (opened.erase sock.socketDescriptor) server' hand ∧
      Closes server server' (opened.erase sock.socketDescriptor) := by
  refine ⟨fun fd hbase => ?_, fun j x hj hnot => ?_⟩
  · rw [Finset.mem_erase, h fd hbase]
    constructor
    · rintro ⟨hne, ⟨j, x, hj, rfl⟩ | hx⟩
      · refine .inl ⟨j, x, (hconnected j x).mpr ⟨?_, hj⟩, rfl⟩
        rintro rfl
        exact hne (congrArg Socket.socketDescriptor (hi.unique hj).2)
      · exact .inr hx
    · rintro (⟨j, x, hj, rfl⟩ | ⟨x, hx, rfl⟩)
      · obtain ⟨hji, hj⟩ := (hconnected j x).mp hj
        exact ⟨fun heq => hji (hdistinct j x hj heq), .inl ⟨j, x, hj, rfl⟩⟩
      · exact ⟨hhand x hx, .inr ⟨x, hx, rfl⟩⟩
  · -- the peer that is not connected any more is the one removed
    obtain rfl : j = i := by
      by_contra hji
      exact hnot x ((hconnected j x).mpr ⟨hji, hj⟩)
    rw [(hi.unique hj).2]
    exact Finset.notMem_erase _ opened

/-! ### The reactor -/

namespace Reactor

/-- A `receive` from a connected peer that returns no byte does not leave one of the
errors of a lost connection behind. -/
def NoLostReceive (s : State) (a : Action) : Prop :=
  ∀ e rest accepted read error i sock, s.batch = e :: rest →
    a = .dispatch accepted (.failed read error) → isValidEvent e = true →
    dispatchTarget s e = some i → s.server.Connected i sock → Socket.lostError error = false

variable {p : Process} {s s' : State} {a : Action}

theorem accounted_init (h : (system p).Init s) : Accounted p s.kernel.opened s.server none := by
  obtain ⟨hserver, -, -, hkernel, -⟩ := h
  intro fd hbase
  rw [hkernel, hserver]
  refine iff_of_false hbase ?_
  rintro (⟨i, sock, ⟨-, hsock⟩, -⟩ | ⟨sock, hsock, -⟩)
  · cases hsock
  · cases hsock

/-- The removal of a connected peer, if it closes the descriptor; or of none. -/
theorem accounted_removed (hsock : SocketsInv p s) (h : Accounted p s.kernel.opened s.server none)
    {i : ℕ} {flag : Bool} {sock : Socket} {closes : Prop} (hslot : s.server.Slot i flag sock)
    (hcloses : closes ↔ flag = true) (hr : Removed p i sock.socketDescriptor closes s s') :
    Accounted p s'.kernel.opened s'.server none ∧
      Closes s.server s'.server s'.kernel.opened := by
  rcases flag with _ | _
  · -- the slot is free: the connected peers and the open descriptors are the same
    have hopened : s'.kernel.opened = s.kernel.opened := by
      rcases hr.opened with ⟨hc, -⟩ | ⟨-, heq⟩
      · cases hcloses.mp hc
      · exact heq
    have hkept : ∀ j x, s'.server.Connected j x ↔ s.server.Connected j x := by
      intro j x
      rw [hr.connected, and_iff_right_iff_imp]
      rintro hj rfl
      cases (hslot.unique hj).1
    refine ⟨fun fd hbase => ?_, fun j x hj hnot => absurd ((hkept j x).mpr hj) (hnot x)⟩
    rw [hopened, h fd hbase]
    simp only [hkept]
  · have hopened : s'.kernel.opened = s.kernel.opened.erase sock.socketDescriptor := by
      rcases hr.opened with ⟨-, heq⟩ | ⟨hc, -⟩
      · exact heq
      · exact absurd (hcloses.mpr rfl) hc
    rw [hopened]
    exact h.erase hslot hr.connected
      (fun j x hj heq => hsock.peers.distinct j i x sock hj hslot heq) nofun

/-- **A step keeps account of the descriptors exactly if** it does not lose a
connection. -/
theorem accounted_step_iff (hsock : SocketsInv p s) (h : Accounted p s.kernel.opened s.server none)
    (hs : Step s a s') :
    (Accounted p s'.kernel.opened s'.server none ∧
      Closes s.server s'.server s'.kernel.opened) ↔ NoLostReceive s a := by
  constructor
  · rintro ⟨haccounted, -⟩ e rest accepted read error i sock hbatch rfl hvalid htarget hi
    by_contra hlost
    rw [Bool.not_eq_false] at hlost
    obtain ⟨s'', hdispatch, hremoved⟩ :=
      dispatch_lost hsock hbatch hvalid htarget hi hlost accepted read
    rcases hs with _ | ⟨_, _, -, -, hs⟩
    rw [hdispatch] at hs
    cases hs
    -- the descriptor is still open, and the peer that had it is gone
    obtain ⟨-, -, hopen, hbase⟩ := hsock.peers.peer i sock hi
    have hopen' : sock.socketDescriptor ∈ s'.kernel.opened := by
      rcases hremoved.opened with ⟨hc, -⟩ | ⟨-, heq⟩
      · exact hc.elim
      · rw [heq]
        exact hopen
    rcases (haccounted _ hbase).mp hopen' with ⟨j, x, hj, heq⟩ | ⟨x, hx, -⟩
    · obtain ⟨hji, hj⟩ := (hremoved.connected j x).mp hj
      exact hji (hsock.peers.distinct j i x sock hj hi heq)
    · cases hx
  · intro hlost
    have hsame : Accounted p s.kernel.opened s.server none ∧
        Closes s.server s.server s.kernel.opened :=
      ⟨h, Closes.refl _ _⟩
    rcases hs with ⟨events, -, -, -⟩ | ⟨accepted, received, -, -, hs⟩
    · exact hsame
    · rcases hbatch : s.batch with _ | ⟨e, rest⟩
      · rw [dispatch, hbatch] at hs
        cases hs
      · have hfetch := hsock.fetched e rest
        rcases dispatch_cases hsock hbatch hs with ⟨hserver, -, -, -, hopened, -⟩ |
          ⟨fd, r, -, -, ha⟩ | ⟨i, flag, sock, -, hslot, hremoved⟩ |
          ⟨i, flag, sock, read, error, htarget, hslot, hvalid, herror, hremoved⟩
        · rw [hserver, hopened]
          exact hsame
        · obtain ⟨-, -, hconnected, -, -⟩ :=
            TcpServer.connected_addPeer hsock.peers.aligned hsock.peers.length_lt ha.addPeer
          refine ⟨fun x hbase => ?_, fun j x hj hnot => ?_⟩
          · rw [ha.opened, Finset.mem_insert]
            have hold := h x hbase
            constructor
            · rintro (rfl | hx)
              · exact .inl ⟨r, _, (hconnected r _).mpr (.inl ⟨rfl, rfl⟩), rfl⟩
              · rcases hold.mp hx with ⟨i, sock, hi, hfd⟩ | ⟨sock, hc, -⟩
                · exact .inl ⟨i, sock, (hconnected i sock).mpr (.inr hi), hfd⟩
                · cases hc
            · rintro (⟨i, sock, hi, hfd⟩ | ⟨sock, hc, -⟩)
              · rcases (hconnected i sock).mp hi with ⟨-, rfl⟩ | hi
                · exact .inl hfd.symm
                · exact .inr (hold.mpr (.inl ⟨i, sock, hi, hfd⟩))
              · cases hc
          · exact absurd ((hconnected j x).mpr (.inr hj)) (hnot x)
        · refine accounted_removed (s := fetch e rest s) hfetch h hslot ?_ hremoved
          rcases flag with _ | _
          · exact iff_of_false (not_not.mpr (hsock.peers.free i sock hslot)) Bool.false_ne_true
          · refine iff_of_true ?_ rfl
            rw [hsock.state i sock hslot]
            decide
        · refine accounted_removed (s := fetch e rest s) hfetch h hslot ?_ hremoved
          refine iff_of_false id ?_
          rintro rfl
          rw [hlost e rest accepted read error i sock hbatch rfl hvalid htarget hslot] at herror
          cases herror

/-- Along a run without a lost connection all descriptors are accounted for. -/
theorem accounted_of_run {tr : List Action}
    (hrun : ((system p).restrict NoLostReceive).Run tr s) :
    Accounted p s.kernel.opened s.server none := by
  refine hrun.invariant (I := fun _ s => Accounted p s.kernel.opened s.server none) ?_ ?_
  · exact fun _ => accounted_init
  · rintro tr s a s' hrun h ⟨hs, hlost⟩
    exact ((accounted_step_iff (socketsInv_of_run hrun.of_restrict) h hs).mpr hlost).1

end Reactor

/-! ### The thread-per-client server -/

namespace ThreadPerClient

/-- A `receive` that returns no byte does not leave one of the errors of a lost
connection behind. -/
def NoLostReceive (_ : State) (a : Action) : Prop :=
  ∀ k peerSocket read error, a = .receive k peerSocket (.failed read error) →
    Socket.lostError error = false

variable {p : Process} {s s' : State} {a : Action} {k : ℕ}

/-- No connected peer has been marked as disconnected, or is about to be. -/
structure Unmarked (s : State) : Prop where
  state : ∀ i sock, s.server.Connected i sock → sock.state = .connected
  received : ∀ k read error, (s.client k).received = some (.failed read error) →
    Socket.lostError error = false

/-- No peer is marked, and all descriptors are accounted for. -/
structure Tidy (p : Process) (s : State) : Prop where
  unmarked : Unmarked s
  accounted : Accounted p s.kernel.opened s.server s.acceptor.hand

theorem tidy_init (h : (system p).Init s) : Tidy p s := by
  obtain ⟨hserver, -, -, -, -, hacceptor, hclient, -, hkernel, -, -, -⟩ := h
  have hnone : ∀ i sock, ¬s.server.Connected i sock := by
    rintro i sock ⟨-, hsock⟩
    rw [hserver] at hsock
    cases hsock
  refine ⟨⟨fun i sock hi => (hnone i sock hi).elim, fun k read error hr => ?_⟩, fun fd hbase => ?_⟩
  · rw [hclient] at hr
    cases hr
  · rw [hkernel, hacceptor]
    refine iff_of_false hbase ?_
    rintro (⟨i, sock, hi, -⟩ | ⟨sock, hc, -⟩)
    · exact hnone i sock hi
    · cases hc

/-- The threads after one of them has received nothing of the kind. -/
theorem Unmarked.goto (h : Unmarked s) {pc : ClientPc}
    (hpc : ∀ read error, pc.received = some (.failed read error) →
      Socket.lostError error = false) (j : ℕ) (read error : ℤ)
    (hr : ((s.goto k pc).client j).received = some (.failed read error)) :
    Socket.lostError error = false := by
  rcases eq_or_ne j k with rfl | hj
  · rw [State.goto_client_self] at hr
    exact hpc read error hr
  · rw [State.goto_client_of_ne s hj] at hr
    exact h.received j read error hr

/-- **A step of a client's thread** keeps account of the descriptors. -/
theorem Tidy.clientStep (hinv : Inv p s) (h : Tidy p s) (hs : clientStep k s = some s') :
    Tidy p s' ∧ Closes s.server s'.server s'.kernel.opened := by
  obtain ⟨hu, hacc⟩ := h
  rcases clientStep_cases hinv.threads.running hs with ⟨pc, -, hmind, -, -⟩ |
    ⟨pc, -, hmind, -, -⟩ | ⟨pc, -, hmind, -, -⟩ | ⟨x, read, error, sock, hpc, hlost, -⟩ |
    ⟨server, closed, hpc, hremove⟩ | ⟨pc, _, _, _, -, hmind, -, -, -, -⟩
  iterate 3
    exact ⟨⟨⟨hu.state, hu.goto fun read error hr => hu.received k read error (hmind.received _ hr)⟩,
      hacc⟩, Closes.refl _ _⟩
  · -- a lost connection would have been received before
    rw [hu.received k read error (by rw [hpc]; rfl)] at hlost
    cases hlost
  · obtain ⟨sock, hi⟩ := hinv.threads.exists_connected (k := k) (by rw [hpc]; rfl)
    obtain ⟨server', hremove', hconnected, hcases⟩ := hinv.connections.peers.removePeer hi
    rw [hremove] at hremove'
    cases hremove'
    obtain ⟨hstate, -, -⟩ | ⟨-, -, hclose, -⟩ := hcases
    · rw [hu.state _ sock hi] at hstate
      cases hstate
    · rw [hclose]
      obtain ⟨hacc', hcloses⟩ := hacc.erase hi hconnected
        (fun j x hj heq => hinv.connections.peers.distinct j _ x sock hj hi heq)
        fun x hx => ((hinv.connections.hand x hx).2.2.2.2.2 _ sock hi).symm
      refine ⟨⟨⟨fun j x hj => hu.state j x ((hconnected j x).mp hj).2, hu.goto ?_⟩, hacc'⟩,
        hcloses⟩
      rintro read error ⟨⟩
  · exact ⟨⟨⟨hu.state, hu.goto fun read error hr => hu.received k read error (hmind.received _ hr)⟩,
      hacc⟩, Closes.refl _ _⟩

/-- **A step of the acceptor** keeps account of the descriptors. -/
theorem Tidy.acceptorStep (hinv : Inv p s) (h : Tidy p s) (hs : acceptorStep s = some s') :
    Tidy p s' ∧ Closes s.server s'.server s'.kernel.opened := by
  obtain ⟨hu, hacc⟩ := h
  rcases acceptorStep_cases hinv.threads.running hs with hpc | ⟨sock, hpc, -⟩ |
    ⟨sock, r, server, closed, hpc, hadd⟩ | ⟨i, hpc⟩ | ⟨j, hpc⟩ | hpc
  all_goals rw [hpc] at hacc
  · exact ⟨⟨⟨hu.state, hu.received⟩, hacc⟩, Closes.refl _ _⟩
  · exact ⟨⟨⟨hu.state, hu.received⟩, hacc⟩, Closes.refl _ _⟩
  · obtain ⟨rfl, -, hconnected, -⟩ := hinv.connections.addPeer hpc hadd
    refine ⟨⟨⟨fun j x hj => ?_, hu.received⟩, fun fd hbase => (hacc fd hbase).trans ?_⟩,
      fun j x hj hnot => absurd ((hconnected j x).mpr (.inr hj)) (hnot x)⟩
    · rcases (hconnected j x).mp hj with ⟨-, rfl⟩ | hj
      · exact (hinv.connections.hand x (by rw [hpc]; rfl)).1
      · exact hu.state j x hj
    · -- the descriptor in hand becomes that of a connected peer
      constructor
      · rintro (⟨j, x, hj, hfd⟩ | ⟨x, ⟨⟩, hfd⟩)
        · exact .inl ⟨j, x, (hconnected j x).mpr (.inr hj), hfd⟩
        · exact .inl ⟨r, sock, (hconnected r sock).mpr (.inl ⟨rfl, rfl⟩), hfd⟩
      · rintro (⟨j, x, hj, hfd⟩ | ⟨x, hc, -⟩)
        · rcases (hconnected j x).mp hj with ⟨-, rfl⟩ | hj
          · exact .inr ⟨x, rfl, hfd⟩
          · exact .inl ⟨j, x, hj, hfd⟩
        · cases hc
  · -- the new thread has received nothing
    refine ⟨⟨⟨hu.state, hu.goto ?_⟩, hacc⟩, Closes.refl _ _⟩
    rintro read error ⟨⟩
  · exact ⟨⟨⟨hu.state, hu.received⟩, hacc⟩, Closes.refl _ _⟩
  · exact ⟨⟨⟨hu.state, hu.received⟩, hacc⟩, Closes.refl _ _⟩

/-- **A step that does not lose a connection** keeps account of the descriptors. -/
theorem Tidy.step (hinv : Inv p s) (h : Tidy p s) (hlost : NoLostReceive s a)
    (hs : (system p).Step s a s') : Tidy p s' ∧ Closes s.server s'.server s'.kernel.opened := by
  obtain ⟨hu, hacc⟩ := h
  rcases hs with _ | _ | _ | _ | ⟨accepted, hpc, hpending⟩ | hs |
    ⟨k, x, sock, received, st, -, -, -⟩ | ⟨k, hs⟩ | _ | _
  iterate 4
    exact ⟨⟨⟨hu.state, hu.received⟩, hacc⟩, Closes.refl _ _⟩
  · rw [hpc] at hacc
    rcases accept_cases hinv.connections hpending with ⟨kernel, -, heq, hopened, -⟩ |
      ⟨fd, j, pending, kernel, -, -, heq, hopened, -⟩
    · rw [heq]
      refine ⟨⟨⟨hu.state, hu.received⟩, fun fd hbase => ?_⟩, Closes.refl _ _⟩
      show fd ∈ kernel.opened ↔ _
      rw [hopened]
      exact hacc fd hbase
    · rw [heq]
      refine ⟨⟨⟨hu.state, hu.received⟩, fun x hbase => ?_⟩, Closes.refl _ _⟩
      show x ∈ kernel.opened ↔ _
      rw [hopened, Finset.mem_insert, hacc x hbase]
      constructor
      · rintro (rfl | hi | ⟨sock, hc, -⟩)
        · exact .inr ⟨_, rfl, rfl⟩
        · exact .inl hi
        · cases hc
      · rintro (hi | ⟨sock, ⟨⟩, hfd⟩)
        · exact .inr (.inl hi)
        · exact .inl hfd.symm
  · exact Tidy.acceptorStep hinv ⟨hu, hacc⟩ hs
  · refine ⟨⟨⟨hu.state, hu.goto ?_⟩, hacc⟩, Closes.refl _ _⟩
    rintro read error ⟨⟩
    exact hlost k x read error rfl
  · exact Tidy.clientStep hinv ⟨hu, hacc⟩ hs
  iterate 2
    exact ⟨⟨⟨hu.state, hu.received⟩, hacc⟩, Closes.refl _ _⟩

/-- Along a run without a lost connection all descriptors are accounted for. -/
theorem tidy_of_run {tr : List Action}
    (hrun : ((system p).restrict NoLostReceive).Run tr s) : Tidy p s := by
  refine hrun.invariant (I := fun _ s => Tidy p s) ?_ ?_
  · exact fun _ => tidy_init
  · rintro tr s a s' hrun h ⟨hs, hlost⟩
    exact (h.step (inv_of_run hrun.of_restrict) hlost hs).1

end ThreadPerClient

/-! ### Both servers -/

/-- **The descriptors are accounted for unless a connection is lost**, in both servers:
in every run in which no `receive` from a connected peer reports a lost connection, the
open descriptors are those of the connected peers, and a peer that is removed has its
descriptor closed. In the reactor any other step breaks this. -/
theorem descriptors_accounted_unless_lost (p : Process) :
    (∀ tr s, ((Reactor.system p).restrict Reactor.NoLostReceive).Run tr s →
      Accounted p s.kernel.opened s.server none ∧
      ∀ a s', (Reactor.system p).Step s a s' →
        ((Accounted p s'.kernel.opened s'.server none ∧
          Closes s.server s'.server s'.kernel.opened) ↔ Reactor.NoLostReceive s a)) ∧
    ∀ tr s, ((ThreadPerClient.system p).restrict ThreadPerClient.NoLostReceive).Run tr s →
      Accounted p s.kernel.opened s.server s.acceptor.hand ∧
      ∀ a s', (ThreadPerClient.system p).Step s a s' → ThreadPerClient.NoLostReceive s a →
        Accounted p s'.kernel.opened s'.server s'.acceptor.hand ∧
        Closes s.server s'.server s'.kernel.opened := by
  refine ⟨fun tr s hrun => ?_, fun tr s hrun => ?_⟩
  · have hsock := Reactor.socketsInv_of_run hrun.of_restrict
    have h := Reactor.accounted_of_run hrun
    exact ⟨h, fun a s' hs => Reactor.accounted_step_iff hsock h hs⟩
  · have hinv := ThreadPerClient.inv_of_run hrun.of_restrict
    have h := ThreadPerClient.tidy_of_run hrun
    refine ⟨h.accounted, fun a s' hs hlost => ?_⟩
    obtain ⟨h', hcloses⟩ := h.step hinv hlost hs
    exact ⟨h'.accounted, hcloses⟩

/-! ### A lost connection -/

namespace Reactor

/-- The kernel reports the peer `5`. -/
def peerEvent : State := { onePeer with batch := [⟨epollIn, 5⟩] }

theorem run_peerEvent : ∃ tr, (system process).Run tr peerEvent :=
  ⟨_, (run_onePeer (C := fun _ _ => True) trivial trivial).of_restrict.snoc
    (.wait (s := onePeer) [⟨epollIn, 5⟩] rfl (by decide) (by decide))⟩

/-- The connection to the peer has been lost. -/
def peerLost : State := (dispatch none (.failed (-1) 104) peerEvent).get rfl

end Reactor

namespace ThreadPerClient

/-- The thread of the only client is in `receive`. -/
def clientReceiving : State :=
  (runThreads [.client 0, .client 0, .client 0, .client 0] oneClient).get rfl

/-- The connection to the client has failed, and the thread has received the error. -/
def clientFailed : State :=
  { clientReceiving.goto 0 (.unlock 0 (.failed (-1) 104)) with
    stream := Function.update
      (Function.update clientReceiving.stream 0 ⟨[], true, some 104⟩) 0 ⟨[], true, none⟩
    replies := Function.update clientReceiving.replies 0 ⟨0, true⟩ }

/-- The thread has removed its client. -/
def clientLost : State :=
  (runThreads [.client 0, .client 0, .client 0, .client 0, .client 0] clientFailed).get rfl

theorem noLostReceive_scheduled (s : State) (t : Thread) : NoLostReceive s (scheduled t) := by
  rintro k peerSocket read error h
  rcases t with _ | k <;> cases h

/-- A thread in `receive` whose connection fails receives the error. -/
theorem run_fail_receive {tr : List Action}
    (hrun : ((system p).restrict fun _ _ => True).Run tr s) (k peerSocket : ℕ) (error : ℤ)
    (sock : Socket) (hj : s.connection sock.socketDescriptor < s.connected)
    (hpc : s.client k = .receive peerSocket) (hderef : s.deref k peerSocket = some sock) :
    ∃ tr', ((system p).restrict fun _ _ => True).Run tr'
      { s.goto k (.unlock peerSocket (.failed (-1) error)) with
        stream := Function.update
          (Function.update s.stream (s.connection sock.socketDescriptor)
            ⟨(s.stream (s.connection sock.socketDescriptor)).inbox, true, some error⟩)
          (s.connection sock.socketDescriptor)
          ⟨(s.stream (s.connection sock.socketDescriptor)).inbox, true, none⟩
        replies := Function.update s.replies (s.connection sock.socketDescriptor)
          ⟨(s.replies (s.connection sock.socketDescriptor)).outstanding, true⟩ } := by
  refine ⟨_, (hrun.snoc ⟨.fail _ error hj, trivial⟩).snoc
    ⟨.receive k peerSocket sock (.failed (-1) error) _ hpc hderef ?_, trivial⟩⟩
  have hreceives :
      Stream.Receives (sock.socketDescriptor ∉ s.kernel.nonBlocking)
        ⟨(s.stream (s.connection sock.socketDescriptor)).inbox, true, some error⟩
        (.failed (-1) error)
        ⟨(s.stream (s.connection sock.socketDescriptor)).inbox, true, none⟩ := .error error rfl
  simpa only [Function.update_self] using hreceives

theorem run_clientReceiving :
    ∃ tr, ((system process).restrict fun _ _ => True).Run tr clientReceiving := by
  obtain ⟨tr, h⟩ := run_oneClient (C := fun _ _ => True) (fun _ _ => trivial) trivial trivial
  exact ⟨_, run_runThreads (fun _ _ => trivial)
    [.client 0, .client 0, .client 0, .client 0] h (Option.some_get _).symm⟩

theorem run_clientLost : ∃ tr, ((system process).restrict fun _ _ => True).Run tr clientLost := by
  obtain ⟨tr₁, h₁⟩ := run_clientReceiving
  obtain ⟨tr₂, h₂⟩ := run_fail_receive h₁ 0 0 104 ⟨5, .connected⟩ (by decide) rfl rfl
  have h₃ : ((system process).restrict fun _ _ => True).Run tr₂ clientFailed := h₂
  exact ⟨_, run_runThreads (fun _ _ => trivial)
    [.client 0, .client 0, .client 0, .client 0, .client 0] h₃ (Option.some_get _).symm⟩

end ThreadPerClient

/-- The descriptor of the only peer is accounted for, in both servers. -/
theorem descriptors_accounted_one_peer :
    (∃ i sock, Reactor.onePeer.server.Connected i sock ∧ sock.socketDescriptor = 5) ∧
    ∃ i sock, ThreadPerClient.oneClient.server.Connected i sock ∧ sock.socketDescriptor = 5 := by
  constructor
  · have hrun := Reactor.run_onePeer (C := Reactor.NoLostReceive)
      (fun _ _ _ _ _ _ _ _ ha => by cases ha) fun _ _ _ _ _ _ _ _ ha => by cases ha
    obtain ⟨haccounted, -⟩ :=
      (descriptors_accounted_unless_lost Reactor.process).1 _ Reactor.onePeer hrun
    rcases (haccounted 5 (by decide)).mp (by decide) with hpeer | ⟨sock, hc, -⟩
    · exact hpeer
    · cases hc
  · obtain ⟨tr, hrun⟩ := ThreadPerClient.run_oneClient ThreadPerClient.noLostReceive_scheduled
      (fun _ _ _ _ h => by cases h) fun _ _ _ _ h => by cases h
    obtain ⟨haccounted, -⟩ :=
      (descriptors_accounted_unless_lost ThreadPerClient.process).2 tr _ hrun
    rcases (haccounted 5 (by decide)).mp (by decide) with hpeer | ⟨sock, hc, -⟩
    · exact hpeer
    · cases hc

/-- **A lost connection leaks a descriptor**, in both servers. -/
theorem lost_connection_leaks_descriptor :
    (∃ tr, (Reactor.system Reactor.process).Run tr Reactor.peerLost ∧
      5 ∈ Reactor.peerLost.kernel.opened ∧ 5 ∉ Reactor.process.base ∧
      ∀ i sock, ¬Reactor.peerLost.server.Connected i sock) ∧
    ∃ tr, (ThreadPerClient.system ThreadPerClient.process).Run tr ThreadPerClient.clientLost ∧
      5 ∈ ThreadPerClient.clientLost.kernel.opened ∧ 5 ∉ ThreadPerClient.process.base ∧
      ThreadPerClient.clientLost.acceptor.hand = none ∧
      ∀ i sock, ¬ThreadPerClient.clientLost.server.Connected i sock := by
  have hnone : ∀ (server : TcpServer), server.peerSocketsConnectionFlags = [false] →
      ∀ i sock, ¬server.Connected i sock := by
    rintro server hflags i sock ⟨hflag, -⟩
    rw [hflags] at hflag
    rcases i with _ | i <;> cases hflag
  refine ⟨?_, ?_⟩
  · obtain ⟨tr, h₁⟩ := Reactor.run_peerEvent
    have h₂ : (Reactor.system Reactor.process).Run _ Reactor.peerLost :=
      h₁.snoc (.dispatch none (.failed (-1) 104) nofun (by decide) (Option.some_get _).symm)
    exact ⟨_, h₂, by decide, by decide, hnone _ rfl⟩
  · obtain ⟨tr, hrun⟩ := ThreadPerClient.run_clientLost
    exact ⟨tr, hrun.of_restrict, by decide, by decide, rfl, hnone _ rfl⟩

end Net

end LowLatency
