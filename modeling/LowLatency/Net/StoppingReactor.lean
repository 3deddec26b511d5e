import LowLatency.Foundations.MachineInt
import LowLatency.Foundations.Rest
import LowLatency.Net.ReactorDispatch

/-!
# Stopping the reactor

`reactorThread` looks at `m_isStopping` once in each turn of its loop, between the last event of
one batch and the call of `epoll_wait` for the next. This file puts the loop around the
dispatches of `LowLatency.Net.Reactor.system`, with `stop`, `setPollTimeout` and what the kernel
has to report.

The peers are in non-blocking mode (`LowLatency.Net.Reactor.nonBlocking_of_run`), so a dispatch
waits for nobody, and the one place where the reactor may wait is `epoll_wait`. The timeout
given to it is an `int` of milliseconds, which `IOListenerEpoll::setTimeout` makes of a `long` of
microseconds; if it comes out negative, the call returns with an event or not at all
(`LowLatency.Net.Reactor.Asleep`). Otherwise the reactor can exit
(`LowLatency.Net.Reactor.exits_iff`).
-/

namespace LowLatency

namespace Net

namespace Reactor

open TcpServer (Slot Connected Aligned)

variable {p : Process} {s s' : State} {i : ℕ} {flag : Bool} {sock : Socket} {fd : Descriptor}
  {e : EpollEvent} {rest : List EpollEvent}

/-! ### The peers are in non-blocking mode -/

/-- The descriptors of the peers are in non-blocking mode. -/
def NonBlocking (s : State) : Prop :=
  ∀ i sock, s.server.Connected i sock → sock.socketDescriptor ∈ s.kernel.nonBlocking

/-- `Socket::accept` leaves the mode of other descriptors alone. -/
theorem mem_nonBlocking_accept {s : Socket} {accepted : Option Descriptor} {k : Kernel}
    (hne : fd ≠ s.socketDescriptor) (hnew : ∀ x ∈ accepted, fd ≠ x) (h : fd ∈ k.nonBlocking) :
    fd ∈ (s.accept accepted k).2.2.nonBlocking := by
  unfold Socket.accept
  split_ifs with hstate
  · exact h
  · rcases accepted with _ | x
    · simp [Kernel.setBlockingMode, hne, h]
    · simp [Kernel.setBlockingMode, Kernel.accept, hne, hnew x rfl, h]

/-- **`onClientDisconnected`** leaves the mode of the other peers alone. -/
theorem NonBlocking.onClientDisconnected (h : NonBlocking s)
    (hpeers : Peers p s.kernel.opened s.server) (hslot : s.server.Slot i flag sock)
    (hs : onClientDisconnected i s = some s') : NonBlocking s' := by
  obtain ⟨server, hremove, hconnected, hcases⟩ := hpeers.removePeer hslot
  rw [Reactor.onClientDisconnected, hslot.2, Option.bind_some, hremove] at hs
  cases hs
  intro j x hj
  obtain ⟨hji, hj⟩ := (hconnected j x).mp hj
  rcases hcases with ⟨-, hclose, -⟩ | ⟨-, rfl, hclose, -⟩
  · rw [hclose]
    exact h j x hj
  · -- the descriptor that is closed is not that of another peer
    rw [hclose]
    refine Finset.mem_erase.mpr ⟨fun heq => hji ?_, h j x hj⟩
    exact hpeers.distinct j i x sock hj hslot heq

/-- **`acceptNewConnection`** makes the new peer non-blocking, and leaves the others alone. -/
theorem NonBlocking.acceptNewConnection (h : NonBlocking s) (hinv : SocketsInv p s)
    {accepted : Option Descriptor} (hfresh : ∀ x ∈ accepted, s.kernel.Fresh x) {r : ℕ}
    (hs : acceptNewConnection accepted s = some (r, s')) : NonBlocking s' := by
  have hold : ∀ i sock, s.server.Connected i sock →
      sock.socketDescriptor ∈ (s.socket.accept accepted s.kernel).2.2.nonBlocking := by
    intro i sock hi
    refine mem_nonBlocking_accept (hinv.ne_acceptor hi) ?_ (h i sock hi)
    rintro x hx rfl
    exact (hfresh _ hx).2.2 (hinv.peers.peer i sock hi).2.2.1
  rcases s.socket.accept_cases accepted s.kernel with ⟨kernel, haccept, -⟩ |
    ⟨x, kernel, rfl, haccept, -⟩
  · rw [haccept] at hold
    rw [Reactor.acceptNewConnection, haccept] at hs
    cases hs
    exact hold
  · rw [haccept] at hold
    rcases hadd : s.server.addPeer ⟨x, .connected⟩ with ⟨r, server, closed⟩
    obtain ⟨-, -, hconnected, -, -⟩ :=
      TcpServer.connected_addPeer hinv.peers.aligned hinv.peers.length_lt hadd
    have hslot : server.peerSockets[r]? = some ⟨x, .connected⟩ :=
      ((hconnected r ⟨x, .connected⟩).mpr (.inl ⟨rfl, rfl⟩)).2
    obtain rfl := hinv.peers.closed_addPeer hadd
    simp only [Reactor.acceptNewConnection, haccept, hadd, onClientConnected, hslot,
      Option.map_some] at hs
    cases hs
    intro i sock hi
    simp only [Kernel.setBlockingMode, Kernel.closeAny_none, Kernel.epollAdd_nonBlocking,
      Bool.false_eq_true, if_false, Finset.mem_insert]
    rcases (hconnected i sock).mp hi with ⟨-, rfl⟩ | hi
    · exact .inl rfl
    · exact .inr (hold i sock hi)

/-- **The peers stay in non-blocking mode** in every step. -/
theorem NonBlocking.step {a : Action} (h : NonBlocking s) (hinv : SocketsInv p s)
    (hs : (system p).Step s a s') : NonBlocking s' := by
  rcases hs with ⟨events, -, -, -⟩ | ⟨accepted, received, hfresh, -, hs⟩
  · exact h
  rcases hbatch : s.batch with _ | ⟨e, rest⟩
  · rw [dispatch, hbatch] at hs
    cases hs
  have hfetch : NonBlocking (fetch e rest s) := h
  have hsockets : SocketsInv p (fetch e rest s) := ⟨hinv.peers, hinv.acceptor, hinv.state⟩
  rw [dispatch_cons hbatch] at hs
  rcases htarget : dispatchTarget s e with _ | i
  · rw [htarget] at hs
    obtain ⟨⟨r, s''⟩, haccept, rfl⟩ := Option.map_eq_some_iff.mp hs
    exact hfetch.acceptNewConnection hsockets hfresh haccept
  · rw [htarget] at hs
    dsimp only at hs
    split_ifs at hs with hvalid
    · obtain ⟨sock, hsock, hs⟩ := Option.bind_eq_some_iff.mp hs
      obtain ⟨flag, sock', hslot⟩ :=
        hsockets.peers.aligned.exists_slot (List.getElem?_eq_some_iff.mp hsock).1
      obtain rfl : sock' = sock := Option.some_inj.mp (hslot.2.symm.trans hsock)
      rcases received with bytes | ⟨read, error⟩
      · dsimp only at hs
        split_ifs at hs with hquit
        · exact hfetch.onClientDisconnected hsockets.peers hslot hs
        · cases hs
          exact hfetch
      · rcases hlost : Socket.lostError error with _ | _
        · simp only [Socket.isConnectionLost, hlost] at hs
          cases hs
          exact hfetch
        · -- `isConnectionLost` has marked the peer, which keeps its descriptor
          simp only [Socket.isConnectionLost, hlost] at hs
          have hmarked : NonBlocking { fetch e rest s with
              server := (fetch e rest s).server.setPeerSocket i
                { sock' with state := .disconnected } } := by
            intro j x hj
            obtain ⟨y, hy, hfd⟩ :=
              TcpServer.connected_disconnect hsockets.peers.aligned hslot hj
            rw [← hfd]
            exact hfetch j y hy
          obtain ⟨-, hslots⟩ := TcpServer.slot_setPeerSocket hsockets.peers.aligned hslot
            { sock' with state := .disconnected }
          exact hmarked.onClientDisconnected (hsockets.peers.disconnect hslot)
            ((hslots i flag _).mpr (.inl ⟨rfl, rfl, rfl⟩)) hs
    · obtain ⟨sock, hsock, -⟩ := Option.bind_eq_some_iff.mp hs
      obtain ⟨flag, sock', hslot⟩ :=
        hsockets.peers.aligned.exists_slot (List.getElem?_eq_some_iff.mp hsock).1
      exact hfetch.onClientDisconnected hsockets.peers hslot hs

/-- **The peers are in non-blocking mode** in every run. -/
theorem nonBlocking_of_run {tr : List Action} (hrun : (system p).Run tr s) : NonBlocking s := by
  refine hrun.invariant (I := fun _ s => NonBlocking s) ?_ ?_
  · rintro s ⟨hserver, -⟩ i sock ⟨-, hsock⟩
    rw [hserver] at hsock
    cases hsock
  · intro tr s a s' hrun h hs
    exact h.step (socketsInv_of_run hrun) hs

/-! ### The loop -/

/-- `IOListenerEpoll::setTimeout`, which stores a quotient of type `long` in an `int`. -/
def setTimeout (microSeconds : Int64) : Int32 := (microSeconds / 1000).toInt32

/-- Where `reactorThread` stands. -/
inductive LoopPc where
  | check : LoopPc
  /-- In `epoll_wait`. -/
  | wait (timeout : Int32) : LoopPc
  /-- In the loop over the events of the batch. -/
  | events : LoopPc
  | exited : LoopPc

/-- The reactor with its loop. -/
structure Loop where
  reactor : State
  isStopping : Bool
  /-- `m_epollTimeout`. -/
  epollTimeout : Int32
  pc : LoopPc
  /-- What the kernel has to report. -/
  ready : List EpollEvent

/-- What happens next. -/
inductive LoopAction where
  | stop : LoopAction
  | setPollTimeout (microSeconds : Int64) : LoopAction
  /-- A client does something that the kernel has to report. -/
  | input (e : EpollEvent) : LoopAction
  | check : LoopAction
  | wait : LoopAction
  | dispatch : LoopAction
  /-- The last event of the batch has been dispatched. -/
  | next : LoopAction

/-- A step of the reactor, not of a client nor of another thread of the process. -/
def LoopAction.IsServer : LoopAction → Prop
  | .stop | .setPollTimeout _ | .input _ => False
  | .check | .wait | .dispatch | .next => True

/-- The kernel reports a listening socket as readable and not otherwise. -/
def Listens (acceptor : Descriptor) (events : List EpollEvent) : Prop :=
  ∀ e ∈ events, e.fd = acceptor → isValidEvent e = true

/-- The `receive` of the next dispatch, if there is one, is on a descriptor in non-blocking
mode. -/
def Prompt (s : State) : Prop :=
  ∀ e ∈ s.batch.head?, isValidEvent e = true → ∀ i, dispatchTarget s e = some i →
    ∀ sock, s.server.peerSockets[i]? = some sock → sock.socketDescriptor ∈ s.kernel.nonBlocking

/-- The steps. `epoll_wait` returns without an event if nothing that it watches is to be
reported, and its timeout has passed, which a negative one never does. A `receive` on a
descriptor in blocking mode might wait, so it is no step. What is to be reported after a
dispatch depends on what has been read. -/
inductive LoopStep (p : Process) : Loop → LoopAction → Loop → Prop
  | stop {s : Loop} : LoopStep p s .stop { s with isStopping := true }
  | setPollTimeout {s : Loop} (microSeconds : Int64) :
      LoopStep p s (.setPollTimeout microSeconds)
        { s with epollTimeout := setTimeout microSeconds }
  | input {s : Loop} (e : EpollEvent) : Listens p.acceptor [e] →
      LoopStep p s (.input e) { s with ready := s.ready ++ [e] }
  | check {s : Loop} : s.pc = .check →
      LoopStep p s .check
        { s with pc := if s.isStopping then .exited else .wait s.epollTimeout }
  | wait {s : Loop} (timeout : Int32) (events : List EpollEvent) (r : State) :
      s.pc = .wait timeout → events ⊆ s.ready →
      (events = [] → 0 ≤ timeout ∧ ∀ e ∈ s.ready, e.fd ∉ s.reactor.kernel.interest) →
      r = { s.reactor with batch := events } → (system p).Step s.reactor .wait r →
      LoopStep p s .wait { s with pc := .events, reactor := r }
  | dispatch {s : Loop} (accepted : Option Descriptor) (received : Received) (r : State)
      (ready : List EpollEvent) : s.pc = .events → Prompt s.reactor → Listens p.acceptor ready →
      (system p).Step s.reactor (.dispatch accepted received) r →
      LoopStep p s .dispatch { s with reactor := r, ready := ready }
  | next {s : Loop} : s.pc = .events → s.reactor.batch = [] →
      LoopStep p s .next { s with pc := .check }

/-- **The reactor with `stop`**, from the end of `start` on. -/
def stopping (p : Process) : TransitionSystem Loop LoopAction where
  Init s := (system p).Init s.reactor ∧ s.isStopping = false ∧ s.epollTimeout = 0 ∧
    s.pc = .check ∧ s.ready = []
  Step := LoopStep p

/-- **The reactor is asleep**: it is in an `epoll_wait` without a timeout, and nothing that it
watches is to be reported. -/
def Asleep (s : Loop) : Prop :=
  ∃ timeout, s.pc = .wait timeout ∧ timeout < 0 ∧
    ∀ e ∈ s.ready, e.fd ∉ s.reactor.kernel.interest

/-! ### The loop along a run -/

variable {l l' : Loop} {b : LoopAction}

/-- **The invariant of the loop**: the reactor in it runs as before, with no invalid event on the
acceptor, and outside the loop over the events there are none left. -/
structure LoopInv (p : Process) (l : Loop) : Prop where
  reachable : ((system p).restrict AcceptorValid).Reachable l.reactor
  ready : Listens p.acceptor l.ready
  batch : Listens p.acceptor l.reactor.batch
  idle : l.pc ≠ .events → l.reactor.batch = []

theorem LoopInv.sockets (h : LoopInv p l) : SocketsInv p l.reactor := by
  obtain ⟨tr, hrun⟩ := h.reachable
  exact socketsInv_of_run hrun.of_restrict

theorem LoopInv.table (h : LoopInv p l) : TableInv l.reactor := by
  obtain ⟨tr, hrun⟩ := h.reachable
  exact tableInv_of_run hrun

theorem LoopInv.nonBlocking (h : LoopInv p l) : NonBlocking l.reactor := by
  obtain ⟨tr, hrun⟩ := h.reachable
  exact nonBlocking_of_run hrun.of_restrict

/-- An event on the acceptor is valid. -/
theorem LoopInv.acceptorValid (h : LoopInv p l) (a : Action) : AcceptorValid l.reactor a := by
  intro e he hfd
  exact h.batch e (List.mem_of_mem_head? he) (hfd.trans h.sockets.acceptor)

/-- A dispatch takes the first event from the batch. -/
theorem batch_dispatch (h : SocketsInv p s) (hbatch : s.batch = e :: rest)
    {accepted : Option Descriptor} {received : Received}
    (hs : dispatch accepted received s = some s') : s'.batch = rest := by
  rcases dispatch_cases h hbatch hs with ⟨-, -, -, heq, -, -⟩ | ⟨fd, r, -, -, hadded⟩ |
    ⟨i, flag, sock, -, -, hremoved⟩ | ⟨i, flag, sock, -, -, -, -, -, -, hremoved⟩
  · exact heq
  · exact hadded.batch
  · exact hremoved.batch
  · exact hremoved.batch

/-- **The invariant of the loop is kept by every step.** -/
theorem LoopInv.step (h : LoopInv p l) (hs : LoopStep p l b l') : LoopInv p l' := by
  have hsockets := h.sockets
  have hvalid := h.acceptorValid
  obtain ⟨⟨tr, hrun⟩, hready, hbatch, hidle⟩ := h
  rcases hs with - | ⟨microSeconds⟩ | ⟨e, he⟩ | hpc | ⟨timeout, events, r, hpc, hsub, -, rfl, hs⟩ |
    ⟨accepted, received, r, ready, hpc, -, hlistens, hs⟩ | ⟨hpc, hempty⟩
  · exact ⟨⟨tr, hrun⟩, hready, hbatch, hidle⟩
  · exact ⟨⟨tr, hrun⟩, hready, hbatch, hidle⟩
  · refine ⟨⟨tr, hrun⟩, fun x hx => ?_, hbatch, hidle⟩
    rcases List.mem_append.mp hx with hx | hx
    · exact hready x hx
    · exact he x hx
  · exact ⟨⟨tr, hrun⟩, hready, hbatch, fun _ => hidle (by rw [hpc]; simp)⟩
  · exact ⟨⟨_, hrun.snoc ⟨hs, hvalid _⟩⟩, hready, fun e he => hready e (hsub he),
      fun hc => absurd rfl hc⟩
  · refine ⟨⟨_, hrun.snoc ⟨hs, hvalid _⟩⟩, hlistens, ?_, fun hc => absurd hpc hc⟩
    rcases hs with _ | ⟨_, _, -, -, hs⟩
    rcases hcons : l.reactor.batch with _ | ⟨e, rest⟩
    · rw [dispatch, hcons] at hs
      cases hs
    · intro x hx
      rw [batch_dispatch hsockets hcons hs] at hx
      exact hbatch x (hcons ▸ List.mem_cons_of_mem e hx)
  · exact ⟨⟨tr, hrun⟩, hready, hbatch, fun _ => hempty⟩

theorem loopInv_of_run {tr : List LoopAction} (hrun : (stopping p).Run tr l) : LoopInv p l := by
  refine hrun.invariant (I := fun _ l => LoopInv p l) ?_ fun _ _ _ _ _ h hs => h.step hs
  rintro l ⟨hinit, -, -, -, hready⟩
  have hbatch : l.reactor.batch = [] := hinit.2.2.2.2
  refine ⟨⟨[], .start hinit⟩, ?_, ?_, fun _ => hbatch⟩
  · rw [hready]
    exact fun e he => absurd he List.not_mem_nil
  · rw [hbatch]
    exact fun e he => absurd he List.not_mem_nil

/-- **A dispatch can always be made**, and waits for nobody. -/
theorem LoopInv.exists_dispatch (h : LoopInv p l) (hpc : l.pc = .events)
    (hbatch : l.reactor.batch = e :: rest) : ∃ l', LoopStep p l .dispatch l' ∧
      l'.pc = .events ∧ l'.isStopping = l.isStopping ∧ l'.reactor.batch = rest := by
  have hvalid := h.acceptorValid .wait e (by rw [hbatch]; rfl)
  have he : e ∈ l.reactor.batch := hbatch ▸ List.mem_cons_self
  have hprompt : Prompt l.reactor := by
    intro e' he' _ i htarget sock hsock
    rw [hbatch] at he'
    obtain rfl : e = e' := Option.some_inj.mp he'
    obtain ⟨sock', hi, -⟩ := h.table.target he hvalid htarget
    obtain rfl : sock' = sock := Option.some_inj.mp (hi.2.symm.trans hsock)
    exact h.nonBlocking i sock' hi
  -- nothing is accepted, and `receive` fails with `EAGAIN`
  obtain ⟨r, hr⟩ : ∃ r, dispatch none (.failed (-1) 11) l.reactor = some r := by
    rw [dispatch_cons hbatch]
    have hpeers : Peers p (fetch e rest l.reactor).kernel.opened (fetch e rest l.reactor).server :=
      h.sockets.peers
    rcases htarget : dispatchTarget l.reactor e with _ | i
    · rcases acceptNewConnection_spec hpeers none with ⟨kernel, haccept, -⟩ | ⟨_, _, _, hc, -⟩
      · exact ⟨_, Option.map_eq_some_iff.mpr ⟨_, haccept, rfl⟩⟩
      · cases hc
    · obtain ⟨sock, hi, -⟩ := h.table.target he hvalid htarget
      have hslot : (fetch e rest l.reactor).server.Slot i true sock := hi
      dsimp only
      split_ifs
      · refine ⟨fetch e rest l.reactor, ?_⟩
        rw [handleClient, hslot.2, Option.bind_some]
        rfl
      · obtain ⟨r, hr, -⟩ := onClientDisconnected_spec hpeers hslot
        exact ⟨r, hr⟩
  have hs : (system p).Step l.reactor (.dispatch none (.failed (-1) 11)) r :=
    .dispatch none _ (by rintro fd ⟨⟩) (.inr rfl) hr
  exact ⟨_, .dispatch none _ r [] hpc hprompt (fun e he => absurd he List.not_mem_nil) hs, hpc, rfl,
    batch_dispatch h.sockets hbatch hr⟩

/-! ### The result -/

/-- **The reactor can exit** without the clients. -/
def Exits (p : Process) (l : Loop) : Prop :=
  ∃ tr l', (stopping p).Steps l tr l' ∧ (∀ b ∈ tr, b.IsServer) ∧ l'.pc = .exited

/-- A first step, and then the reactor can exit. -/
theorem Exits.head (hb : b.IsServer) (hs : LoopStep p l b l') (h : Exits p l') : Exits p l := by
  obtain ⟨tr, l'', hsteps, hserver, hpc⟩ := h
  refine ⟨b :: tr, l'', .head hs hsteps, fun c hc => ?_, hpc⟩
  rcases List.mem_cons.mp hc with rfl | hc
  · exact hb
  · exact hserver c hc

theorem exits_of_exited (hpc : l.pc = .exited) : Exits p l :=
  ⟨[], l, .refl l, fun _ hb => absurd hb List.not_mem_nil, hpc⟩

theorem exits_of_check (hstop : l.isStopping = true) (hpc : l.pc = .check) : Exits p l := by
  refine Exits.head (b := .check) trivial (.check hpc) (exits_of_exited ?_)
  rw [hstop]
  rfl

/-- **The rest of the batch is dispatched**, and then the reactor exits. -/
theorem LoopInv.exits_of_events (h : LoopInv p l) (hstop : l.isStopping = true)
    (hpc : l.pc = .events) : Exits p l := by
  induction hbatch : l.reactor.batch generalizing l with
  | nil => exact .head (b := .next) trivial (.next hpc hbatch) (exits_of_check hstop rfl)
  | cons e rest ih =>
    obtain ⟨l', hs, hpc', hstop', hrest⟩ := h.exists_dispatch hpc hbatch
    exact .head (b := .dispatch) trivial hs (ih (h.step hs) (hstop'.trans hstop) hpc' hrest)

/-- `epoll_wait` returns with an event that is to be reported, or without one after its
timeout. -/
theorem LoopInv.exits_of_wait (h : LoopInv p l) (hstop : l.isStopping = true) {timeout : Int32}
    (hpc : l.pc = .wait timeout) (hawake : ¬Asleep l) : Exits p l := by
  have hidle : l.reactor.batch = [] := h.idle (by rw [hpc]; simp)
  have hexits : ∀ events, events ⊆ l.ready →
      (events = [] → 0 ≤ timeout ∧ ∀ e ∈ l.ready, e.fd ∉ l.reactor.kernel.interest) →
      (events.map EpollEvent.fd).Nodup → (∀ e ∈ events, e.fd ∈ l.reactor.kernel.interest) →
      Exits p l := by
    intro events hsub hempty hnodup hwatched
    have hs : LoopStep p l .wait _ :=
      .wait timeout events _ hpc hsub hempty rfl (.wait events hidle hnodup hwatched)
    exact .head (b := .wait) trivial hs ((h.step hs).exits_of_events hstop rfl)
  by_cases hready : ∃ e ∈ l.ready, e.fd ∈ l.reactor.kernel.interest
  · obtain ⟨e, he, hfd⟩ := hready
    refine hexits [e] (by simpa using he) ?_ (List.nodup_singleton _) ?_
    · rintro ⟨⟩
    · intro x hx
      rwa [List.mem_singleton.mp hx]
  · simp only [not_exists, not_and] at hready
    refine hexits [] (List.nil_subset _) (fun _ => ⟨?_, hready⟩) .nil ?_
    · by_contra hc
      exact hawake ⟨timeout, hpc, Int32.not_le.mp hc, hready⟩
    · exact fun e he => absurd he List.not_mem_nil

/-- **An `epoll_wait` without a timeout does not return** without the clients. -/
theorem Asleep.step (h : Asleep l) (hb : b.IsServer) : ¬LoopStep p l b l' := by
  obtain ⟨timeout, hpc, hneg, hready⟩ := h
  intro hs
  revert hb
  rcases hs with - | - | - | hpc' | ⟨timeout', events, r, hpc', hsub, hempty, rfl, hs⟩ |
    ⟨_, _, _, _, hpc', -⟩ | ⟨hpc', -⟩
  all_goals intro hb
  · exact hb.elim
  · exact hb.elim
  · exact hb.elim
  · rw [hpc] at hpc'
    cases hpc'
  · rw [hpc] at hpc'
    cases hpc'
    rcases events with _ | ⟨e, events⟩
    · exact absurd (hempty rfl).1 (Int32.not_le.mpr hneg)
    · rcases hs with ⟨_, -, -, hwatched⟩ | _
      exact hready e (hsub List.mem_cons_self) (hwatched e List.mem_cons_self)
  · rw [hpc] at hpc'
    cases hpc'
  · rw [hpc] at hpc'
    cases hpc'

/-- **The reactor can exit by itself exactly if** it is not asleep. -/
theorem exits_iff {tr : List LoopAction} (hrun : (stopping p).Run tr l)
    (hstop : l.isStopping = true) : Exits p l ↔ ¬Asleep l := by
  have h := loopInv_of_run hrun
  constructor
  · rintro ⟨tr', l', hsteps, hserver, hexited⟩ hasleep
    rcases hsteps with _ | ⟨hs, -⟩
    · obtain ⟨timeout, hpc, -⟩ := hasleep
      rw [hexited] at hpc
      cases hpc
    · exact hasleep.step (hserver _ List.mem_cons_self) hs
  · intro hawake
    rcases hpc : l.pc with _ | timeout | _ | _
    · exact exits_of_check hstop hpc
    · exact h.exits_of_wait hstop hpc hawake
    · exact h.exits_of_events hstop hpc
    · exact exits_of_exited hpc

/-! ### The timeouts -/

/-- The milliseconds, before they are narrowed. -/
def quotient (us : Int64) : ℤ := us.toInt.tdiv 1000

theorem toInt_div_thousand (us : Int64) : (us / 1000).toInt = quotient us :=
  Int64.toInt_div_of_ne_right _ _ (by decide)

/-- **Narrowing** keeps the lower half of the quotient, and takes its highest bit for the sign. -/
theorem toInt_setTimeout (us : Int64) :
    (setTimeout us).toInt = if quotient us % 2 ^ 32 < 2 ^ 31 then quotient us % 2 ^ 32
      else quotient us % 2 ^ 32 - 2 ^ 32 := by
  rw [setTimeout, Int64.toInt_toInt32, toInt_div_thousand, Int.bmod_def]
  rfl

/-- **A timeout is not negative** exactly if the quotient, narrowed to 32 bits, has no sign
bit. -/
theorem setTimeout_nonneg_iff (microSeconds : Int64) :
    0 ≤ setTimeout microSeconds ↔ microSeconds.toInt.tdiv 1000 % 2 ^ 32 < 2 ^ 31 := by
  rw [Int32.le_iff_toInt_le, toInt_setTimeout, Int32.toInt_zero, quotient]
  split_ifs with h
  · omega
  · omega

/-- The polling of the test program, with `setPollTimeout(-1)`. -/
example : setTimeout (-1) = 0 := by decide

/-- Only values that give a timeout are passed to `setPollTimeout`. -/
def Bounded (_ : Loop) (b : LoopAction) : Prop :=
  ∀ microSeconds, b = .setPollTimeout microSeconds → 0 ≤ setTimeout microSeconds

/-- **The reactor is never asleep** if only values that give a timeout are passed to
`setPollTimeout`. -/
theorem awake_of_run {tr : List LoopAction} (hrun : ((stopping p).restrict Bounded).Run tr l) :
    ¬Asleep l := by
  have hbounded : 0 ≤ l.epollTimeout ∧ ∀ timeout, l.pc = .wait timeout → 0 ≤ timeout := by
    refine hrun.invariant
      (I := fun _ l => 0 ≤ l.epollTimeout ∧ ∀ timeout, l.pc = .wait timeout → 0 ≤ timeout) ?_ ?_
    · rintro l ⟨-, -, htimeout, hpc, -⟩
      rw [htimeout, hpc]
      exact ⟨Int32.le_refl 0, by rintro timeout ⟨⟩⟩
    · rintro tr l b l' - ⟨hle, hwait⟩ ⟨hs, hb⟩
      rcases hs with - | ⟨microSeconds⟩ | - | hpc | - | ⟨_, _, _, _, hpc, -⟩ | -
      · exact ⟨hle, hwait⟩
      · exact ⟨hb microSeconds rfl, hwait⟩
      · exact ⟨hle, hwait⟩
      · refine ⟨hle, fun timeout hc => ?_⟩
        dsimp only at hc
        split_ifs at hc
        cases hc
        exact hle
      · exact ⟨hle, by rintro timeout ⟨⟩⟩
      · exact ⟨hle, hwait⟩
      · exact ⟨hle, by rintro timeout ⟨⟩⟩
  rintro ⟨timeout, hpc, hneg, -⟩
  exact Int32.not_le.mpr hneg (hbounded.2 timeout hpc)

end Reactor

end Net

end LowLatency
