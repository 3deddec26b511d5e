import LowLatency.Net.ReactorInvariant

/-!
# Who an event is dispatched to

The table leads from a descriptor to a slot; descriptors and slots are both used again,
independently, and the entries of the table are never erased. As long as no event on the
acceptor is an invalid one, all this stays consistent
(`LowLatency.Net.Reactor.table_and_interest_consistent`): the table has the slot of every
connected peer, epoll watches the acceptor and the connected peers, and each event still
to be dispatched belongs to a peer that is connected.

An invalid event on the acceptor is looked up in the table like any other, where the
acceptor has no entry, and so disconnects whoever is in slot `0`. This is the only way an
event can reach a peer it does not belong to
(`LowLatency.Net.Reactor.dispatched_to_owner_iff`).
-/

namespace LowLatency

namespace Net

namespace Reactor

open TcpServer (Slot Connected Aligned)

variable {p : Process} {s s' : State} {i : ℕ} {sock : Socket} {e : EpollEvent}
  {rest : List EpollEvent} {tr : List Action}

/-- The next event, if it is on the acceptor, is a valid one. -/
def AcceptorValid (s : State) (_ : Action) : Prop :=
  ∀ e ∈ s.batch.head?, e.fd = s.socket.socketDescriptor → isValidEvent e = true

/-- A plain `EPOLLIN` is valid. -/
example : isValidEvent ⟨epollIn, 3⟩ = true := by decide

/-! ### The table, the interest set and the batch -/

/-- **The invariant of the dispatch.** -/
structure TableInv (s : State) : Prop where
  table : ∀ i sock, s.server.Connected i sock →
    s.peerSocketIndexTable sock.socketDescriptor = some i
  interest : ∀ fd, fd ∈ s.kernel.interest ↔ fd = s.socket.socketDescriptor ∨
    ∃ i sock, s.server.Connected i sock ∧ sock.socketDescriptor = fd
  nodup : (s.batch.map EpollEvent.fd).Nodup
  watched : ∀ e ∈ s.batch, e.fd ∈ s.kernel.interest

theorem tableInv_init (h : (system p).Init s) : TableInv s := by
  obtain ⟨hserver, hsocket, -, hkernel, hbatch⟩ := h
  have hnone : ∀ i sock, ¬s.server.Connected i sock := by
    rintro i sock ⟨-, hsock⟩
    rw [hserver] at hsock
    cases hsock
  refine ⟨fun i sock hi => (hnone i sock hi).elim, fun fd => ?_, by rw [hbatch]; exact .nil,
    by rw [hbatch]; exact fun e he => (List.not_mem_nil he).elim⟩
  rw [hkernel, hsocket, Finset.mem_singleton]
  constructor
  · exact .inl
  · rintro (rfl | ⟨i, sock, hi, -⟩)
    · rfl
    · exact (hnone i sock hi).elim

/-- **An event that is not the acceptor's has an owner**, and is dispatched to it. -/
theorem TableInv.owner (h : TableInv s) (he : e ∈ s.batch)
    (hne : e.fd ≠ s.socket.socketDescriptor) :
    ∃ i sock, s.server.Connected i sock ∧ sock.socketDescriptor = e.fd ∧
      dispatchTarget s e = some i := by
  rcases (h.interest e.fd).mp (h.watched e he) with heq | ⟨i, sock, hi, hfd⟩
  · exact absurd heq hne
  · refine ⟨i, sock, hi, hfd, ?_⟩
    rw [dispatchTarget, if_neg fun hc => hne hc.2, ← hfd, h.table i sock hi]
    rfl

/-- What is dispatched to a peer is its own event, if the acceptor's are valid. -/
theorem TableInv.target (h : TableInv s) (he : e ∈ s.batch)
    (hvalid : e.fd = s.socket.socketDescriptor → isValidEvent e = true)
    (ht : dispatchTarget s e = some i) :
    ∃ sock, s.server.Connected i sock ∧ sock.socketDescriptor = e.fd := by
  have hne : e.fd ≠ s.socket.socketDescriptor := by
    intro heq
    rw [dispatchTarget_eq_none.mpr ⟨hvalid heq, heq⟩] at ht
    cases ht
  obtain ⟨j, sock, hj, hfd, hj'⟩ := h.owner he hne
  obtain rfl : i = j := Option.some_inj.mp (ht.symm.trans hj')
  exact ⟨sock, hj, hfd⟩

/-- Looking up an event enters nothing for a peer that has an entry. -/
theorem TableInv.fetch_table (h : TableInv s) (hi : s.server.Connected i sock) :
    (fetch e rest s).peerSocketIndexTable sock.socketDescriptor = some i := by
  unfold fetch
  dsimp only
  rcases eq_or_ne sock.socketDescriptor e.fd with heq | hne
  · rw [heq, Function.update_self, ← heq, h.table i sock hi]
    rfl
  · rw [Function.update_of_ne hne, h.table i sock hi]

/-- A peer is added with a descriptor that was not open. -/
theorem TableInv.added (hsock : SocketsInv p s) (h : TableInv s) (hbatch : s.batch = e :: rest)
    {fd : Descriptor} {r : ℕ} (hfresh : s.kernel.Fresh fd) (ha : Added fd r (fetch e rest s) s') :
    TableInv s' := by
  obtain ⟨-, -, hconnected, -, -⟩ :=
    TcpServer.connected_addPeer hsock.peers.aligned hsock.peers.length_lt ha.addPeer
  refine ⟨fun i sock hi => ?_, fun x => ?_, ?_, fun e' he' => ?_⟩
  · rw [ha.table]
    -- an old entry for the descriptor is overwritten, and the peers have others
    rcases (hconnected i sock).mp hi with ⟨rfl, rfl⟩ | hold
    · exact Function.update_self ..
    · have hne : sock.socketDescriptor ≠ fd := by
        rintro rfl
        exact hfresh.2.2 (hsock.peers.peer i sock hold).2.2.1
      rw [Function.update_of_ne hne, h.fetch_table hold]
  · rw [ha.interest, ha.socket, Finset.mem_insert]
    have hold := h.interest x
    constructor
    · rintro (rfl | hx)
      · exact .inr ⟨r, ⟨x, .connected⟩, (hconnected r _).mpr (.inl ⟨rfl, rfl⟩), rfl⟩
      · rcases hold.mp hx with heq | ⟨i, sock, hi, hfd⟩
        · exact .inl heq
        · exact .inr ⟨i, sock, (hconnected i sock).mpr (.inr hi), hfd⟩
    · rintro (heq | ⟨i, sock, hi, hfd⟩)
      · exact .inr (hold.mpr (.inl heq))
      · rcases (hconnected i sock).mp hi with ⟨-, rfl⟩ | hi
        · exact .inl hfd.symm
        · exact .inr (hold.mpr (.inr ⟨i, sock, hi, hfd⟩))
  · rw [ha.batch]
    have hnodup := h.nodup
    rw [hbatch, List.map_cons, List.nodup_cons] at hnodup
    exact hnodup.2
  · rw [ha.batch] at he'
    rw [ha.interest]
    exact Finset.mem_insert_of_mem (h.watched e' (hbatch ▸ List.mem_cons_of_mem e he'))

/-- The peer that owns the event is removed. -/
theorem TableInv.removed (hsock : SocketsInv p s) (h : TableInv s) (hbatch : s.batch = e :: rest)
    {closes : Prop} (hi : s.server.Connected i sock) (hfd : sock.socketDescriptor = e.fd)
    (hr : Removed p i sock.socketDescriptor closes (fetch e rest s) s') : TableInv s' := by
  have hnodup := h.nodup
  rw [hbatch, List.map_cons, List.nodup_cons] at hnodup
  refine ⟨fun j x hj => ?_, fun x => ?_, ?_, fun e' he' => ?_⟩
  · rw [hr.table]
    exact h.fetch_table ((hr.connected j x).mp hj).2
  · rw [hr.interest, hr.socket, Finset.mem_erase]
    have hold := h.interest x
    constructor
    · rintro ⟨hne, hx⟩
      rcases hold.mp hx with heq | ⟨j, y, hj, rfl⟩
      · exact .inl heq
      · refine .inr ⟨j, y, (hr.connected j y).mpr ⟨?_, hj⟩, rfl⟩
        rintro rfl
        exact hne (congrArg Socket.socketDescriptor (hi.unique hj).2)
    · rintro (rfl | ⟨j, y, hj, rfl⟩)
      · exact ⟨(hsock.ne_acceptor hi).symm, hold.mpr (.inl rfl)⟩
      · obtain ⟨hji, hj⟩ := (hr.connected j y).mp hj
        exact ⟨fun heq => hji (hsock.peers.distinct j i y sock hj hi heq),
          hold.mpr (.inr ⟨j, y, hj, rfl⟩)⟩
  · rw [hr.batch]
    exact hnodup.2
  · rw [hr.batch] at he'
    rw [hr.interest, Finset.mem_erase, hfd]
    -- the other events of the batch are on other descriptors
    exact ⟨fun heq => hnodup.1 (heq ▸ List.mem_map_of_mem he'),
      h.watched e' (hbatch ▸ List.mem_cons_of_mem e he')⟩

/-- **The invariant of the dispatch is kept by every step** that finds no invalid event on
the acceptor. -/
theorem TableInv.step {a : Action} (hsock : SocketsInv p s) (h : TableInv s)
    (hvalid : AcceptorValid s a) (hs : (system p).Step s a s') : TableInv s' := by
  rcases hs with ⟨events, -, hnodup, hwatched⟩ | ⟨accepted, received, hfresh, -, hs⟩
  · exact ⟨h.table, h.interest, hnodup, hwatched⟩
  · rcases hbatch : s.batch with _ | ⟨e, rest⟩
    · rw [dispatch, hbatch] at hs
      cases hs
    · have he : e ∈ s.batch := hbatch ▸ List.mem_cons_self
      have hvalid := hvalid e (by rw [hbatch]; rfl)
      -- a peer that is removed is the owner of the event
      rcases dispatch_cases hsock hbatch hs with ⟨hserver, hsocket, htable, hbatch', -, hinterest⟩ |
        ⟨fd, r, -, -, hadded⟩ | ⟨i, flag, sock, htarget, hslot, hremoved⟩ |
        ⟨i, flag, sock, -, -, htarget, hslot, -, -, hremoved⟩
      · have hnodup := h.nodup
        rw [hbatch, List.map_cons, List.nodup_cons] at hnodup
        refine ⟨fun i sock hi => ?_, fun fd => ?_, hbatch' ▸ hnodup.2, fun e' he' => ?_⟩
        · rw [htable]
          exact h.fetch_table (hserver ▸ hi)
        · rw [hinterest, hsocket, hserver]
          exact h.interest fd
        · rw [hinterest]
          exact h.watched e' (hbatch ▸ List.mem_cons_of_mem e (hbatch' ▸ he'))
      · exact h.added hsock hbatch (hfresh fd rfl) hadded
      · obtain ⟨sock', hi, hfd⟩ := h.target he hvalid htarget
        obtain ⟨rfl, rfl⟩ := hi.unique hslot
        exact h.removed hsock hbatch hi hfd hremoved
      · obtain ⟨sock', hi, hfd⟩ := h.target he hvalid htarget
        obtain ⟨rfl, rfl⟩ := hi.unique hslot
        exact h.removed hsock hbatch hi hfd hremoved

/-- **The invariant holds along every run** without an invalid event on the acceptor. -/
theorem tableInv_of_run (hrun : ((system p).restrict AcceptorValid).Run tr s) : TableInv s := by
  refine hrun.invariant (I := fun _ s => TableInv s) ?_ ?_
  · exact fun _ => tableInv_init
  · rintro tr s a s' hrun h ⟨hs, hvalid⟩
    exact h.step (socketsInv_of_run hrun.of_restrict) hvalid hs

/-! ### A run

The process has the standard streams, the acceptor `3` and the epoll instance `4`. -/

/-- The descriptors of the process at the start. -/
def process : Process where
  base := {0, 1, 2, 3, 4}
  acceptor := 3
  zero_mem := by decide
  acceptor_mem := by decide

/-- The server has started. -/
def started : State where
  server := ⟨[], []⟩
  socket := ⟨3, .listening⟩
  peerSocketIndexTable _ := none
  kernel := ⟨process.base, {3}, {3}⟩
  batch := []

/-- A first connection is pending. -/
def firstEvent : State := { started with batch := [⟨epollIn, 3⟩] }

/-- The first peer has connected, with the descriptor `5`. -/
def onePeer : State := (dispatch (some 5) (.data [0]) firstEvent).get rfl

/-- The first connection is pending in the runs whose first step meets a condition. -/
theorem run_firstEvent {C : State → Action → Prop} (hwait : C started .wait) :
    ((system process).restrict C).Run [.wait] firstEvent := by
  have h0 : ((system process).restrict C).Run [] started := .start ⟨rfl, rfl, rfl, rfl, rfl⟩
  exact h0.snoc ⟨.wait (s := started) [⟨epollIn, 3⟩] rfl (by decide) (by decide), hwait⟩

/-- The first peer is connected in the runs whose first two steps meet a condition. -/
theorem run_onePeer {C : State → Action → Prop} (hwait : C started .wait)
    (hdispatch : C firstEvent (.dispatch (some 5) (.data [0]))) :
    ((system process).restrict C).Run [.wait, .dispatch (some 5) (.data [0])] onePeer := by
  refine (run_firstEvent hwait).snoc
    ⟨.dispatch (some 5) (.data [0]) ?_ (by decide) (Option.some_get _).symm, hdispatch⟩
  rintro fd ⟨⟩
  exact ⟨by decide, by decide, by decide⟩

/-- Neither of these steps finds an invalid event on the acceptor. -/
theorem acceptorValid_started (a : Action) : AcceptorValid started a := nofun

theorem acceptorValid_firstEvent (a : Action) : AcceptorValid firstEvent a := by
  rintro e ⟨⟩ -
  decide

/-! ### The results -/

/-- **The table, the interest set and the batch are consistent** in every run in which the
acceptor's events are valid ones. -/
theorem table_and_interest_consistent (hrun : ((system p).restrict AcceptorValid).Run tr s) :
    s.server.Aligned ∧
    (∀ i j sock sock', s.server.Connected i sock → s.server.Connected j sock' →
      sock.socketDescriptor = sock'.socketDescriptor → i = j) ∧
    (∀ i sock, s.server.Connected i sock →
      sock.socketDescriptor ≠ s.socket.socketDescriptor ∧
      s.peerSocketIndexTable sock.socketDescriptor = some i) ∧
    (∀ fd, fd ∈ s.kernel.interest ↔ fd = s.socket.socketDescriptor ∨
      ∃ i sock, s.server.Connected i sock ∧ sock.socketDescriptor = fd) ∧
    ∀ e ∈ s.batch, e.fd ≠ s.socket.socketDescriptor →
      ∃ i sock, s.server.Connected i sock ∧ sock.socketDescriptor = e.fd ∧
        dispatchTarget s e = some i := by
  have hsock := socketsInv_of_run hrun.of_restrict
  have h := tableInv_of_run hrun
  exact ⟨hsock.peers.aligned, hsock.peers.distinct,
    fun i sock hi => ⟨hsock.ne_acceptor hi, h.table i sock hi⟩,
    h.interest, fun e he hne => h.owner he hne⟩

theorem table_and_interest_one_peer : onePeer.peerSocketIndexTable 5 = some 0 :=
  ((table_and_interest_consistent (run_onePeer (acceptorValid_started _)
    (acceptorValid_firstEvent _))).2.2.1 0 ⟨5, .connected⟩ ⟨rfl, rfl⟩).2

/-- The connected peers, their registrations and their entries are as they were. -/
def Undisturbed (s s' : State) : Prop :=
  ∀ i sock, s.server.Connected i sock → s'.server.Connected i sock ∧
    s'.peerSocketIndexTable sock.socketDescriptor = s.peerSocketIndexTable sock.socketDescriptor ∧
    (sock.socketDescriptor ∈ s'.kernel.interest ↔ sock.socketDescriptor ∈ s.kernel.interest)

/-- **The next event is dispatched well**: to a peer only if the peer is connected and the
event is its own, and an event on the acceptor disturbs nobody. -/
structure WellDispatched (s : State) (e : EpollEvent) : Prop where
  target : ∀ i, dispatchTarget s e = some i →
    ∃ sock, s.server.Connected i sock ∧ sock.socketDescriptor = e.fd
  acceptor : e.fd = s.socket.socketDescriptor → ∀ accepted received s',
    Step s (.dispatch accepted received) s' → Undisturbed s s'

/-- A peer that is added disturbs nobody. -/
theorem Added.undisturbed (h : SocketsInv p s) {fd : Descriptor} {r : ℕ}
    (hfresh : s.kernel.Fresh fd) (ha : Added fd r s s') : Undisturbed s s' := by
  intro i sock hi
  obtain ⟨-, -, hconnected, -, -⟩ :=
    TcpServer.connected_addPeer h.peers.aligned h.peers.length_lt ha.addPeer
  have hne : sock.socketDescriptor ≠ fd := by
    rintro rfl
    exact hfresh.2.2 (h.peers.peer i sock hi).2.2.1
  refine ⟨(hconnected i sock).mpr (.inr hi), ?_, ?_⟩
  · rw [ha.table, Function.update_of_ne hne]
  · rw [ha.interest, Finset.mem_insert, or_iff_right hne]

/-- A valid event on the acceptor disturbs nobody. -/
theorem undisturbed_of_acceptor (hsock : SocketsInv p s) (hbatch : s.batch = e :: rest)
    (hvalid : isValidEvent e = true) (hfd : e.fd = s.socket.socketDescriptor)
    {accepted : Option Descriptor} {received : Received}
    (hs : Step s (.dispatch accepted received) s') : Undisturbed s s' := by
  rcases hs with _ | ⟨_, _, hfresh, -, hs⟩
  intro i sock hi
  have hfetch : (fetch e rest s).peerSocketIndexTable sock.socketDescriptor =
      s.peerSocketIndexTable sock.socketDescriptor :=
    Function.update_of_ne (hfd ▸ hsock.ne_acceptor hi) ..
  have htarget := dispatchTarget_eq_none.mpr ⟨hvalid, hfd⟩
  rcases dispatch_cases hsock hbatch hs with ⟨hserver, -, htable, -, -, hinterest⟩ |
    ⟨fd, r, -, -, ha⟩ | ⟨j, flag, x, hc, -, -⟩ | ⟨j, flag, x, -, -, hc, -, -, -, -⟩
  · exact ⟨hserver ▸ hi, htable ▸ hfetch, by rw [hinterest]⟩
  · obtain ⟨hslot, htable, hinterest⟩ :=
      ha.undisturbed (hsock.fetched e rest) (hfresh _ rfl) i sock hi
    exact ⟨hslot, htable.trans hfetch, hinterest⟩
  · rw [htarget] at hc
    cases hc
  · rw [htarget] at hc
    cases hc

/-- **The next event is dispatched well exactly if** it is not an invalid event on the
acceptor, in every run without an earlier one of those. -/
theorem dispatched_to_owner_iff (hrun : ((system p).restrict AcceptorValid).Run tr s)
    (hbatch : s.batch = e :: rest) :
    WellDispatched s e ↔ (e.fd = s.socket.socketDescriptor → isValidEvent e = true) := by
  have hsock := socketsInv_of_run hrun.of_restrict
  have h := tableInv_of_run hrun
  constructor
  · intro hw hfd
    by_contra hinvalid
    -- the entry of the acceptor, entered by `operator[]`, is a slot all the same
    obtain ⟨sock, hi, heq⟩ := hw.target _ (if_neg fun hc => hinvalid hc.1)
    exact hsock.ne_acceptor hi (heq.trans hfd)
  · intro hvalid
    refine ⟨fun i ht => h.target (hbatch ▸ List.mem_cons_self) hvalid ht, fun hfd _ _ s' hs => ?_⟩
    exact undisturbed_of_acceptor hsock hbatch (hvalid hfd) hfd hs

/-- The first connection is dispatched well. -/
theorem dispatched_to_owner_first : WellDispatched firstEvent ⟨epollIn, 3⟩ :=
  (dispatched_to_owner_iff (run_firstEvent (acceptorValid_started _)) rfl).mpr fun _ => by decide

/-- **A hang-up on the acceptor disconnects the peer in slot `0`.** -/
theorem acceptor_hangup_disconnects_peer : ∃ s s',
    (system process).Run [.wait, .dispatch (some 5) (.data [0]), .wait] s ∧
    s.batch = [⟨epollHup, 3⟩] ∧ s.server.Connected 0 ⟨5, .connected⟩ ∧
    Step s (.dispatch none (.data [0])) s' ∧ (∀ sock, ¬s'.server.Connected 0 sock) ∧
    5 ∉ s'.kernel.opened ∧ ¬WellDispatched s ⟨epollHup, 3⟩ := by
  have hrun := (run_onePeer (acceptorValid_started _)
    (acceptorValid_firstEvent _)).of_restrict.snoc
    (.wait (s := onePeer) [⟨epollHup, 3⟩] rfl (by decide) (by decide))
  refine ⟨_, (dispatch none (.data [0]) { onePeer with batch := [⟨epollHup, 3⟩] }).get rfl, hrun,
    rfl, ⟨rfl, rfl⟩, .dispatch none _ (fun fd hfd => by cases hfd) (by decide)
      (Option.some_get _).symm, ?_, by decide, fun hw => ?_⟩
  · rintro sock ⟨hflag, -⟩
    cases hflag
  · obtain ⟨sock, ⟨-, hsock⟩, hfd⟩ := hw.target 0 rfl
    cases hsock
    cases hfd

end Reactor

end Net

end LowLatency
