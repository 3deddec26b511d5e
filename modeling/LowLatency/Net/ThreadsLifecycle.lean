import LowLatency.Net.ClientThreads
import LowLatency.Net.Owner
import LowLatency.Net.StoppingThreads

/-!
# The life of a thread-per-client server

The object from its construction to its destruction, with the thread that owns it: `start`, which
binds the acceptor and creates the acceptor thread; `stop`, which sets the flag and joins the
acceptor and then the threads in `m_clientThreads`, one after the other; and the destructor, which
destroys the threads' objects first. Meanwhile the server runs as it does in
`LowLatency.Net.ThreadPerClient.stopping`.

`stop` walks over a vector that another thread appends to. That it may do so rests on the order of
the joins: once the acceptor has been joined, nobody appends any more, and the vector holds all the
threads there are (`LowLatency.Net.ThreadPerClient.Stopped.exited`).
-/

namespace LowLatency

namespace Net

namespace ThreadPerClient

/-! ### The owner's calls -/

/-- Where the owner of the server stands. -/
inductive OwnerPc where
  /-- Between two calls. -/
  | idle : OwnerPc
  /-- In `stop`, at the acceptor thread. -/
  | joinAcceptor : OwnerPc
  /-- In `stop`, before the loop over `m_clientThreads`. -/
  | beginClients : OwnerPc
  /-- In the loop, at the entry `i`. The end of the vector has been computed before the loop. -/
  | joinClients (i last : ℕ) : OwnerPc
  /-- The object has been destroyed. -/
  | destroyed (terminates : Bool) : OwnerPc

/-- The server, with the objects of its threads and its owner. -/
structure Lifecycle where
  server : State
  /-- `m_acceptorThreadPtr`. -/
  acceptorThread : Option ThreadObject
  /-- The objects that the entries of `m_clientThreads` point to. -/
  clientThread : ℕ → ThreadObject
  owner : OwnerPc

/-- `Socket::bind` and `Socket::listen` in `TCPServer::start`, by what the calls of `::bind` and
`::listen` do. -/
def bindAndListen (binds listens : Bool) (s : Socket) : Bool × Socket :=
  if binds then
    if listens then (true, { s with state := .listening }) else (false, { s with state := .bound })
  else (false, s)

/-- `start`. -/
def start (binds listens : Bool) (l : Lifecycle) : Bool × Lifecycle :=
  match bindAndListen binds listens l.server.socket with
  | (true, socket) =>
    (true,
      { l with server := { l.server with socket := socket }, acceptorThread := some .joinable })
  | (false, socket) => (false, { l with server := { l.server with socket := socket } })

/-- The steps of `stop` after `TCPServer::stop`. -/
def stopStep (l : Lifecycle) : Option (OwnerAction Action Thread × Lifecycle) :=
  match l.owner with
  | .joinAcceptor =>
    match l.acceptorThread with
    | some .joinable =>
      match l.server.acceptor with
      | .exited =>
        some (.join .acceptor, { l with acceptorThread := some .joined, owner := .beginClients })
      | _ => none
    | _ => some (.turn, { l with owner := .beginClients })
  | .beginClients =>
    some (.turn, { l with owner := .joinClients 0 l.server.clientThreads.length })
  | .joinClients i last =>
    if i = last then some (.stopped, { l with owner := .idle })
    else
      (l.server.clientThreads[i]?).bind fun k =>
        match l.clientThread k with
        | .joinable =>
          match l.server.client k with
          | .exited =>
            some (.join (.client k),
              { l with
                clientThread := Function.update l.clientThread k .joined
                owner := .joinClients (i + 1) last })
          | _ => none
        | .joined => some (.turn, { l with owner := .joinClients (i + 1) last })
  | _ => none

/-- The destructor finds a thread that is joinable. -/
def Lifecycle.terminates (l : Lifecycle) : Bool :=
  l.server.clientThreads.any (fun k => l.clientThread k = .joinable) ||
    l.acceptorThread = some .joinable

/-- The steps. A socket can be bound once. -/
inductive LifecycleStep : Lifecycle → OwnerAction Action Thread → Lifecycle → Prop
  | start {l : Lifecycle} (binds listens : Bool) : l.owner = .idle →
      (binds = true → l.server.socket.state = .disconnected) →
      LifecycleStep l (.start (start binds listens l).1) (start binds listens l).2
  | stop {l : Lifecycle} : l.owner = .idle →
      LifecycleStep l .stop
        { l with server := { l.server with isStopping := true }, owner := .joinAcceptor }
  | inStop {l l' : Lifecycle} {a : OwnerAction Action Thread} : stopStep l = some (a, l') →
      LifecycleStep l a l'
  | destroy {l : Lifecycle} : l.owner = .idle →
      LifecycleStep l (.destroy l.terminates) { l with owner := .destroyed l.terminates }
  /-- The server runs once it has been started, and until its object is destroyed. -/
  | server {l : Lifecycle} {a : Action} {s : State} : l.acceptorThread ≠ none →
      (∀ b, l.owner ≠ .destroyed b) → Step l.server a s →
      LifecycleStep l (.server a) { l with server := s }

/-- **The life of the server**, from the end of its constructor on. -/
def lifecycle (p : Process) : TransitionSystem Lifecycle (OwnerAction Action Thread) where
  Init l := (∃ u, (system p).Init u ∧ l.server = { u with socket := ⟨p.acceptor, .disconnected⟩ }) ∧
    l.acceptorThread = none ∧ (∀ k, l.clientThread k = .joinable) ∧ l.owner = .idle
  Step := LifecycleStep

/-! ### What a step can do -/

/-- The cases of a step in `stop`. -/
inductive StopCase (l : Lifecycle) : OwnerAction Action Thread → Lifecycle → Prop
  | joinAcceptor : l.owner = .joinAcceptor → l.acceptorThread = some .joinable →
      l.server.acceptor = .exited →
      StopCase l (.join .acceptor)
        { l with acceptorThread := some .joined, owner := .beginClients }
  | skipAcceptor : l.owner = .joinAcceptor → l.acceptorThread ≠ some .joinable →
      StopCase l .turn { l with owner := .beginClients }
  | beginClients : l.owner = .beginClients →
      StopCase l .turn { l with owner := .joinClients 0 l.server.clientThreads.length }
  | joinClient (i last k : ℕ) : l.owner = .joinClients i last → i ≠ last →
      l.server.clientThreads[i]? = some k → l.clientThread k = .joinable →
      l.server.client k = .exited →
      StopCase l (.join (.client k))
        { l with
          clientThread := Function.update l.clientThread k .joined
          owner := .joinClients (i + 1) last }
  | skipClient (i last k : ℕ) : l.owner = .joinClients i last → i ≠ last →
      l.server.clientThreads[i]? = some k → l.clientThread k = .joined →
      StopCase l .turn { l with owner := .joinClients (i + 1) last }
  | stopped (last : ℕ) : l.owner = .joinClients last last →
      StopCase l .stopped { l with owner := .idle }

variable {p : Process} {l l' : Lifecycle} {b : OwnerAction Action Thread} {s s' : State}
  {a : Action} {k : ℕ} {tr : List (OwnerAction Action Thread)}

theorem stopStep_cases (hs : stopStep l = some (b, l')) : StopCase l b l' := by
  unfold stopStep at hs
  cases howner : l.owner with
  | idle => simp [howner] at hs
  | joinAcceptor =>
    simp only [howner] at hs
    split at hs
    · rename_i hjoinable
      split at hs
      · cases hs
        exact .joinAcceptor howner hjoinable ‹_›
      · cases hs
    · cases hs
      exact .skipAcceptor howner ‹_›
  | beginClients =>
    simp only [howner] at hs
    cases hs
    exact .beginClients howner
  | joinClients i last =>
    simp only [howner] at hs
    split_ifs at hs with hlast
    · cases hs
      exact .stopped i (hlast ▸ howner)
    · obtain ⟨k, hk, hs⟩ := Option.bind_eq_some_iff.mp hs
      split at hs
      · split at hs
        · cases hs
          exact .joinClient i last k howner hlast hk ‹_› ‹_›
        · cases hs
      · cases hs
        exact .skipClient i last k howner hlast hk ‹_›
  | destroyed b => simp [howner] at hs

/-- The thread `k` goes on to `pc`, and leaves the acceptor's work alone. -/
structure GoesOn (k : ℕ) (pc : ClientPc) (s s' : State) : Prop where
  created : pc ≠ .notStarted
  running : s.client k ≠ .exited
  client : s'.client = Function.update s.client k pc
  acceptor : s'.acceptor = s.acceptor
  clientThreads : s'.clientThreads = s.clientThreads
  started : s'.started = s.started

theorem goesOn_of_clientStep (hs : clientStep k s = some s') : ∃ pc, GoesOn k pc s s' := by
  rcases hpc : s.client k with _ | _ | _ | _ | x | x | ⟨x, r⟩ | ⟨x, r⟩ | _ | _ | _ | _
  all_goals simp only [clientStep, hpc] at hs
  · cases hs
  · cases hs
    exact ⟨_, by simp, by simp [hpc], rfl, rfl, rfl, rfl⟩
  · cases hs
    exact ⟨_, by split <;> simp, by simp [hpc], rfl, rfl, rfl, rfl⟩
  · cases hs
    exact ⟨_, by simp, by simp [hpc], rfl, rfl, rfl, rfl⟩
  · split at hs
    · cases hs
    · cases hs
      exact ⟨_, by simp, by simp [hpc], rfl, rfl, rfl, rfl⟩
  · cases hs
  · cases hs
    exact ⟨_, by simp, by simp [hpc], rfl, rfl, rfl, rfl⟩
  · obtain ⟨sock, -, hs⟩ := Option.bind_eq_some_iff.mp hs
    split at hs
    · obtain ⟨t, ht, rfl⟩ := Option.map_eq_some_iff.mp hs
      obtain ⟨-, rfl⟩ := State.send_eq_some.mp ht
      exact ⟨_, by split <;> simp, by simp [hpc], rfl, rfl, rfl, rfl⟩
    · split at hs
      · cases hs
        exact ⟨_, by simp, by simp [hpc], rfl, rfl, rfl, rfl⟩
      · cases hs
        exact ⟨_, by simp, by simp [hpc], rfl, rfl, rfl, rfl⟩
  · split at hs
    · cases hs
    · cases hs
      exact ⟨_, by simp, by simp [hpc], rfl, rfl, rfl, rfl⟩
  · obtain ⟨⟨server, closed⟩, -, hs⟩ := Option.map_eq_some_iff.mp hs
    cases hs
    exact ⟨_, by simp, by simp [hpc], rfl, rfl, rfl, rfl⟩
  · cases hs
    exact ⟨_, by simp, by simp [hpc], rfl, rfl, rfl, rfl⟩
  · cases hs

/-- A step that leaves the acceptor's work alone, and the threads that have run to their ends. -/
structure Frame (s s' : State) : Prop where
  acceptor : s'.acceptor = s.acceptor
  clientThreads : s'.clientThreads = s.clientThreads
  started : s'.started = s.started
  client : ∀ j, s.client j = .exited → s'.client j = .exited

theorem GoesOn.frame {pc : ClientPc} (h : GoesOn k pc s s') : Frame s s' := by
  refine ⟨h.acceptor, h.clientThreads, h.started, fun j hj => ?_⟩
  have hne : j ≠ k := by
    rintro rfl
    exact h.running hj
  rw [h.client, Function.update_of_ne hne, hj]

/-- The threads created stay so. -/
theorem GoesOn.created_ne {pc : ClientPc} (h : GoesOn k pc s s') {j : ℕ}
    (hj : s.client j ≠ .notStarted) : s'.client j ≠ .notStarted := by
  rw [h.client]
  rcases eq_or_ne j k with rfl | hne
  · rw [Function.update_self]
    exact h.created
  · rw [Function.update_of_ne hne]
    exact hj

/-- The call of `receive` goes on as well. -/
theorem goesOn_receive {x : ℕ} (hpc : s.client k = .receive x) (received : Received)
    (stream : ℕ → Stream) : GoesOn k (.unlock x received) s
      { s.goto k (.unlock x received) with stream := stream } :=
  ⟨by simp, by simp [hpc], rfl, rfl, rfl, rfl⟩

/-- **Once the acceptor has run to its end**, no step creates a thread or touches
`m_clientThreads`. -/
theorem frame_of_exited (hs : Step s a s') (hexited : s.acceptor = .exited) : Frame s s' := by
  cases hs with
  | connect | send | close | fail | read | leave => exact ⟨rfl, rfl, rfl, fun _ hj => hj⟩
  | accept _ hpc => rw [hexited] at hpc; cases hpc
  | acceptor hs => rw [acceptorStep, hexited] at hs; cases hs
  | receive k _ _ received _ hpc => exact (goesOn_receive hpc received _).frame
  | client k hs =>
    obtain ⟨pc, h⟩ := goesOn_of_clientStep hs
    exact h.frame

/-- **Once the acceptor has run to its end**, `m_clientThreads` holds all the threads there are. -/
theorem clientThreads_of_exited (h : (stopping p).Reachable s) (hexited : s.acceptor = .exited) :
    s.clientThreads = List.range s.started := by
  obtain ⟨tr, hrun⟩ := h
  obtain ⟨u, ⟨tr₁, h₁⟩, hfollows⟩ := follows_of_run hrun
  have hstored := (handles_of_run h₁).stored
  have hnot := (inv_of_run h₁).threads.acceptor
  rcases hfollows with ⟨_, acceptor, _, hacceptor, -⟩
  rcases hacceptor with rfl | ⟨-, hcheck⟩
  · exact absurd hexited hnot
  · simpa [hcheck] using hstored

/-- There are no threads with other numbers. -/
theorem notStarted_of_le (h : (stopping p).Reachable s) (hk : s.started ≤ k) :
    s.client k = .notStarted := by
  obtain ⟨tr, hrun⟩ := h
  obtain ⟨u, ⟨tr₁, h₁⟩, hfollows⟩ := follows_of_run hrun
  rcases hfollows with ⟨_, _, client, -, hclient⟩
  have hu := (inv_of_run h₁).threads.started k hk
  rcases hclient k with heq | ⟨-, hcheck⟩
  · exact heq.trans hu
  · rw [hu] at hcheck
    cases hcheck

/-- Every step keeps the threads with smaller numbers created. -/
theorem created_step (h : ∀ k < s.started, s.client k ≠ .notStarted) (hs : Step s a s') :
    ∀ k < s'.started, s'.client k ≠ .notStarted := by
  have hkeep : ∀ {j pc}, GoesOn j pc s s' → ∀ k < s'.started, s'.client k ≠ .notStarted := by
    intro j pc hgoes k hk
    rw [hgoes.started] at hk
    exact hgoes.created_ne (h k hk)
  cases hs with
  | connect | send | close | fail | read | leave => exact h
  | accept accepted =>
    rw [(accept_spec s accepted).2.1, (accept_spec s accepted).2.2.1]
    exact h
  | acceptor hs =>
    cases hpc : s.acceptor with
    | newThread i =>
      rw [acceptorStep, hpc] at hs
      cases hs
      intro k hk
      dsimp only [State.goto]
      rcases Nat.lt_succ_iff_lt_or_eq.mp hk with hk | rfl
      · rw [Function.update_of_ne hk.ne]
        exact h k hk
      · rw [Function.update_self]
        rintro ⟨⟩
    | lock =>
      simp only [acceptorStep, hpc] at hs
      split at hs
      · cases hs
      · cases hs
        exact h
    | check | addPeer | emplaceBack | unlock =>
      rw [acceptorStep, hpc] at hs
      cases hs
      exact h
    | accept | exited =>
      rw [acceptorStep, hpc] at hs
      cases hs
  | receive k _ _ received _ hpc => exact hkeep (goesOn_receive hpc received _)
  | client k hs =>
    obtain ⟨pc, hgoes⟩ := goesOn_of_clientStep hs
    exact hkeep hgoes

/-- **The threads with smaller numbers have been created.** -/
theorem created_of_lt (h : (stopping p).Reachable s) (hk : k < s.started) :
    s.client k ≠ .notStarted := by
  obtain ⟨tr, hrun⟩ := h
  refine hrun.invariant (I := fun _ s => ∀ k < s.started, s.client k ≠ .notStarted) ?_ ?_ k hk
  · intro s hs k hk
    rw [show s.started = 0 from hs.2.2.2.2.2.2.2.1] at hk
    cases hk
  · rintro tr s a s' - ih (_ | hs)
    · exact ih
    · exact created_step ih hs

/-- The flag changes by `stop` only. -/
theorem isStopping_step (h : (stopping p).Reachable s) (hs : Step s a s') :
    s'.isStopping = s.isStopping := by
  obtain ⟨tr, hrun⟩ := h
  obtain ⟨u, ⟨tr₁, h₁⟩, hfollows⟩ := follows_of_run hrun
  obtain ⟨-, -, -, hsame⟩ := hfollows.step (inv_of_run h₁).threads.running hs
  exact hsame

/-! ### The invariant -/

/-- The object is as its constructor has left it, but for the acceptor's socket and the flag. -/
def Unstarted (p : Process) (s : State) : Prop :=
  s.socket.socketDescriptor = p.acceptor ∧
    ∃ u, (system p).Init u ∧ s = { u with socket := s.socket, isStopping := s.isStopping }

/-- The object of the thread has been joined. -/
def Lifecycle.HasJoined (l : Lifecycle) : Thread → Prop
  | .acceptor => l.acceptorThread = some .joined
  | .client k => l.clientThread k = .joined

/-- The thread has been created. -/
def Lifecycle.Created (l : Lifecycle) : Thread → Prop
  | .acceptor => l.acceptorThread ≠ none
  | .client k => k < l.server.started

/-- The thread has been created and has not run to its end. -/
def Lifecycle.Alive (l : Lifecycle) : Thread → Prop
  | .acceptor => l.acceptorThread ≠ none ∧ l.server.acceptor ≠ .exited
  | .client k => (l.server.client k).over = false

/-- What is known at each place of the owner, in the phase `ph`. -/
def OwnerInv (ph : Phase) (l : Lifecycle) : OwnerPc → Prop
  | .idle => ph = .running → l.acceptorThread = some .joinable
  | .joinAcceptor => l.server.isStopping = true
  | .beginClients => l.server.isStopping = true ∧ l.acceptorThread ≠ some .joinable
  | .joinClients i last => l.server.isStopping = true ∧ l.acceptorThread ≠ some .joinable ∧
      last = l.server.clientThreads.length ∧ i ≤ last ∧
      ∀ j < i, ∀ k, l.server.clientThreads[j]? = some k → l.clientThread k = .joined
  | .destroyed terminates => (terminates = true ↔ ph = .running) ∧
      (terminates = false → ∀ t, ¬l.Alive t)

/-- **The invariant of the life of the server**, in the phase `ph` and with the threads `js`
joined. -/
structure LifeInv (p : Process) (ph : Phase) (js : List Thread) (l : Lifecycle) : Prop where
  /-- Before a `start` has succeeded there is nothing but the object. -/
  unstarted : l.acceptorThread = none → Unstarted p l.server ∧ ph = .notStarted
  started : l.acceptorThread ≠ none → (stopping p).Reachable l.server ∧ ph ≠ .notStarted
  /-- The threads joined have run to their ends, the acceptor first. -/
  acceptor : l.acceptorThread = some .joined → l.server.acceptor = .exited
  client : ∀ k, l.clientThread k = .joined → l.acceptorThread = some .joined ∧
    l.server.client k = .exited
  mem_joins : ∀ t, t ∈ js ↔ l.HasJoined t
  nodup : js.Nodup
  stopped : ph = .stopped → ∀ t, l.Created t → l.HasJoined t
  owner : OwnerInv ph l l.owner

theorem lifeInv_init (h : (lifecycle p).Init l) : LifeInv p .notStarted [] l := by
  obtain ⟨⟨u, hu, hserver⟩, hacceptor, hclient, howner⟩ := h
  have hnone : ∀ t, ¬l.HasJoined t := by
    intro t ht
    cases t with
    | acceptor => rw [show l.acceptorThread = _ from ht] at hacceptor; cases hacceptor
    | client k => cases (hclient k).symm.trans ht
  refine ⟨fun _ => ⟨⟨?_, u, hu, ?_⟩, rfl⟩, fun hc => absurd hacceptor hc,
    fun hc => absurd hc (hnone .acceptor), fun k hc => absurd hc (hnone (.client k)),
    fun t => iff_of_false List.not_mem_nil (hnone t), List.nodup_nil, nofun, ?_⟩
  · rw [hserver]
  · rw [hserver]
  · rw [howner]
    exact nofun

variable {ph : Phase} {js : List Thread}

/-- A server that has started has a socket that is bound. -/
theorem bound_of_reachable (h : (stopping p).Reachable s) : s.socket.state ≠ .disconnected := by
  obtain ⟨tr, hrun⟩ := h
  obtain ⟨u, ⟨tr₁, h₁⟩, hfollows⟩ := follows_of_run hrun
  have hlistening := (inv_of_run h₁).connections.listening
  rcases hfollows with ⟨_, _, _, -, -⟩
  rcases hlistening with heq | heq <;> simp [heq]

/-- **A `start` that succeeds leaves a server about to run.** -/
theorem Unstarted.reachable (h : Unstarted p s) :
    (stopping p).Reachable { s with socket := { s.socket with state := .listening } } := by
  obtain ⟨hfd, u, hu, hs⟩ := h
  have hsocket : u.socket = { s.socket with state := .listening } := by
    rw [hu.2.1, ← hfd]
  have hflag : u.isStopping = false := hu.2.2.1
  have hstart : (stopping p).Run [] u := .start hu
  cases hstopping : s.isStopping with
  | false =>
    refine ⟨[], ?_⟩
    rw [hs, hstopping, ← hflag]
    simp only [hsocket.symm]
    exact hstart
  | true =>
    refine ⟨[none], ?_⟩
    rw [hs, hstopping]
    simp only [hsocket.symm]
    exact hstart.snoc .stop

/-! ### The steps keep the invariant -/

/-- An action that is neither a `start` that succeeds nor the return of `stop` keeps the phase. -/
theorem LifeInv.of_next (h : LifeInv p ph js l) (hstart : b ≠ .start true) (hstopped : b ≠ .stopped)
    (hjoin : b.joined? = none) : LifeInv p (ph.next b) (js ++ b.joined?.toList) l := by
  rw [ph.next_eq hstart hstopped, hjoin, Option.toList_none, List.append_nil]
  exact h

/-- Another state of the acceptor's socket, before a `start` has succeeded. -/
theorem LifeInv.socket (h : LifeInv p ph js l) (hnone : l.acceptorThread = none)
    (state : SocketState) :
    LifeInv p ph js
      { l with server := { l.server with socket := { l.server.socket with state := state } } } := by
  obtain ⟨⟨hfd, u, hu, hs⟩, hph⟩ := h.unstarted hnone
  refine { h with
    unstarted := fun _ => ⟨⟨hfd, u, hu, ?_⟩, hph⟩
    started := fun hc => absurd hnone hc
    acceptor := fun hc => ?_
    client := fun k hc => ?_
    owner := ?_ }
  · rw [hs]
  · rw [hnone] at hc
    cases hc
  · exact h.client k hc
  · have howner := h.owner
    cases hpc : l.owner with
    | destroyed terminates =>
      rw [hpc] at howner
      refine ⟨howner.1, fun hb t => ?_⟩
      cases t with
      | acceptor => exact howner.2 hb .acceptor
      | client k => exact howner.2 hb (.client k)
    | _ => rw [hpc] at howner; exact howner

/-- **`start` keeps the invariant.** -/
theorem LifeInv.start (h : LifeInv p ph js l) (hidle : l.owner = .idle) {binds listens : Bool}
    (hbind : binds = true → l.server.socket.state = .disconnected) :
    LifeInv p (ph.next (.start (start binds listens l).1 : OwnerAction Action Thread)) js
      (start binds listens l).2 := by
  have hfalse : ph.next (.start false : OwnerAction Action Thread) = ph :=
    ph.next_eq (by simp) (by simp)
  cases hacceptor : l.acceptorThread with
  | some t =>
    -- the socket is bound already
    have hsome : l.acceptorThread ≠ none := by rw [hacceptor]; simp
    obtain rfl : binds = false := by
      rw [Bool.eq_false_iff]
      exact fun hc => bound_of_reachable (h.started hsome).1 (hbind hc)
    rw [ThreadPerClient.start, bindAndListen, if_neg (by simp), hfalse]
    exact h
  | none =>
    obtain ⟨hunstarted, rfl⟩ := h.unstarted hacceptor
    cases binds with
    | false =>
      rw [ThreadPerClient.start, bindAndListen, if_neg (by simp), hfalse]
      exact h
    | true =>
      cases listens with
      | false =>
        rw [ThreadPerClient.start, bindAndListen, if_pos rfl, if_neg (by simp), hfalse]
        exact h.socket hacceptor .bound
      | true =>
        have hnot : ∀ k, l.clientThread k ≠ .joined := by
          intro k hk
          rw [(h.client k hk).1] at hacceptor
          cases hacceptor
        rw [ThreadPerClient.start, bindAndListen, if_pos rfl, if_pos rfl]
        refine ⟨nofun, fun _ => ⟨hunstarted.reachable, nofun⟩, nofun,
          fun k hk => absurd hk (hnot k), fun t => ?_, h.nodup, nofun, ?_⟩
        · rw [h.mem_joins t]
          cases t with
          | acceptor => simp [Lifecycle.HasJoined, hacceptor]
          | client k => exact Iff.rfl
        · dsimp only
          rw [hidle]
          exact fun _ => rfl

/-- **The call of `stop` keeps the invariant.** -/
theorem LifeInv.stop (h : LifeInv p ph js l) :
    LifeInv p ph js
      { l with server := { l.server with isStopping := true }, owner := .joinAcceptor } where
  unstarted hnone := by
    obtain ⟨⟨hfd, u, hu, hs⟩, hph⟩ := h.unstarted hnone
    refine ⟨⟨hfd, u, hu, ?_⟩, hph⟩
    rw [hs]
  started hsome := by
    obtain ⟨⟨tr, hrun⟩, hph⟩ := h.started hsome
    exact ⟨⟨_, hrun.snoc .stop⟩, hph⟩
  acceptor := h.acceptor
  client := h.client
  mem_joins t := (h.mem_joins t).trans (by cases t <;> exact Iff.rfl)
  nodup := h.nodup
  stopped hph t ht := by
    have hjoined := h.stopped hph t (by cases t <;> exact ht)
    cases t <;> exact hjoined
  owner := rfl

/-- The owner goes on. -/
theorem LifeInv.goto (h : LifeInv p ph js l) {pc : OwnerPc} (hpc : OwnerInv ph l pc) :
    LifeInv p ph js { l with owner := pc } where
  unstarted := h.unstarted
  started := h.started
  acceptor := h.acceptor
  client := h.client
  mem_joins t := (h.mem_joins t).trans (by cases t <;> exact Iff.rfl)
  nodup := h.nodup
  stopped hph t ht := by
    have hjoined := h.stopped hph t (by cases t <;> exact ht)
    cases t <;> exact hjoined
  owner := by
    cases pc with
    | destroyed terminates =>
      refine ⟨hpc.1, fun hb t ht => hpc.2 hb t ?_⟩
      cases t <;> exact ht
    | _ => exact hpc

/-- Once a `start` has succeeded, the acceptor thread is joinable or has been joined. -/
theorem LifeInv.joined_acceptor (h : LifeInv p ph js l) (hne : l.acceptorThread ≠ some .joinable)
    (hph : ph ≠ .notStarted) : l.acceptorThread = some .joined := by
  cases hacceptor : l.acceptorThread with
  | none => exact absurd (h.unstarted hacceptor).2 hph
  | some t =>
    cases t with
    | joinable => exact absurd hacceptor hne
    | joined => rfl

/-- Before a `start` has succeeded there are no threads. -/
theorem Unstarted.clientThreads (h : Unstarted p s) : s.clientThreads = [] := by
  obtain ⟨-, u, hu, hs⟩ := h
  rw [hs]
  exact hu.2.2.2.2.1

theorem Unstarted.client (h : Unstarted p s) (k : ℕ) : s.client k = .notStarted := by
  obtain ⟨-, u, hu, hs⟩ := h
  rw [hs]
  exact hu.2.2.2.2.2.2.1 k

/-- **The threads in `m_clientThreads`** once the acceptor has been joined. -/
theorem LifeInv.clientThreads (h : LifeInv p ph js l) (hjoined : l.acceptorThread = some .joined) :
    l.server.clientThreads = List.range l.server.started :=
  clientThreads_of_exited (h.started (by rw [hjoined]; simp)).1 (h.acceptor hjoined)

/-- **The join of the acceptor.** -/
theorem LifeInv.joinAcceptor (h : LifeInv p ph js l) (hpc : l.owner = .joinAcceptor)
    (hjoinable : l.acceptorThread = some .joinable) (hexited : l.server.acceptor = .exited) :
    LifeInv p ph (js ++ [.acceptor])
      { l with acceptorThread := some .joined, owner := .beginClients } := by
  have hstopping := h.owner
  rw [hpc] at hstopping
  have hstarted := h.started (by rw [hjoinable]; simp)
  have hnot : ¬l.HasJoined .acceptor := by
    intro hc
    rw [show l.acceptorThread = _ from hc] at hjoinable
    cases hjoinable
  refine ⟨nofun, fun _ => hstarted, fun _ => hexited, fun k hk => ⟨rfl, (h.client k hk).2⟩,
    fun t => ?_, ?_, fun hph t ht => ?_,
    hstopping, nofun⟩
  · rw [List.mem_append, List.mem_singleton, h.mem_joins t]
    cases t with
    | acceptor => exact iff_of_true (.inr rfl) rfl
    | client k => exact ⟨fun hk => hk.resolve_right nofun, .inl⟩
  · rw [← List.concat_eq_append]
    exact h.nodup.concat (mt (h.mem_joins .acceptor).mp hnot)
  · cases t with
    | acceptor => rfl
    | client k => exact h.stopped hph (.client k) ht

/-- **The join of a client's thread.** -/
theorem LifeInv.joinClient (h : LifeInv p ph js l) {i last k : ℕ}
    (hpc : l.owner = .joinClients i last) (hlast : i ≠ last)
    (hk : l.server.clientThreads[i]? = some k) (hjoinable : l.clientThread k = .joinable)
    (hexited : l.server.client k = .exited) :
    LifeInv p ph (js ++ [.client k])
      { l with
        clientThread := Function.update l.clientThread k .joined
        owner := .joinClients (i + 1) last } := by
  have howner := h.owner
  rw [hpc] at howner
  obtain ⟨hstopping, hne, hlength, hle, hbefore⟩ := howner
  have hacceptor : l.acceptorThread = some .joined := by
    cases hacceptor : l.acceptorThread with
    | none =>
      rw [(h.unstarted hacceptor).1.clientThreads] at hk
      cases hk
    | some t =>
      cases t with
      | joinable => exact absurd hacceptor hne
      | joined => rfl
  have hnot : ¬l.HasJoined (.client k) := by
    intro hc
    rw [show l.clientThread k = _ from hc] at hjoinable
    cases hjoinable
  have hmono : ∀ j, l.clientThread j = .joined →
      Function.update l.clientThread k .joined j = .joined := by
    intro j hj
    rcases eq_or_ne j k with rfl | hjk
    · exact Function.update_self ..
    · rw [Function.update_of_ne hjk, hj]
  refine ⟨h.unstarted, h.started, h.acceptor, fun j hj => ⟨hacceptor, ?_⟩, fun t => ?_,
    ?_, fun hph t ht => ?_, hstopping, hne, hlength, by omega, fun j hj k' hk' => ?_⟩
  · rcases eq_or_ne j k with rfl | hjk
    · exact hexited
    · dsimp only at hj
      rw [Function.update_of_ne hjk] at hj
      exact (h.client j hj).2
  · rw [List.mem_append, List.mem_singleton, h.mem_joins t]
    cases t with
    | acceptor => exact ⟨fun hc => hc.resolve_right nofun, .inl⟩
    | client j =>
      rcases eq_or_ne j k with rfl | hjk
      · exact iff_of_true (.inr rfl) (Function.update_self ..)
      · have hsame : Function.update l.clientThread k .joined j = l.clientThread j :=
          Function.update_of_ne hjk ..
        simp only [Lifecycle.HasJoined, hsame, Thread.client.injEq, hjk, or_false]
  · rw [← List.concat_eq_append]
    exact h.nodup.concat (mt (h.mem_joins (.client k)).mp hnot)
  · cases t with
    | acceptor => exact h.stopped hph .acceptor ht
    | client j => exact hmono j (h.stopped hph (.client j) ht)
  · rcases Nat.lt_succ_iff_lt_or_eq.mp hj with hj | rfl
    · exact hmono k' (hbefore j hj k' hk')
    · obtain rfl : k = k' := Option.some_inj.mp (hk.symm.trans hk')
      exact Function.update_self ..

/-- **The return of `stop`.** All threads have been joined, if there were any. -/
theorem LifeInv.stopReturns (h : LifeInv p ph js l) {last : ℕ}
    (hpc : l.owner = .joinClients last last) :
    LifeInv p (ph.next (.stopped : OwnerAction Action Thread)) js { l with owner := .idle } := by
  have howner := h.owner
  rw [hpc] at howner
  obtain ⟨-, hne, hlength, -, hbefore⟩ := howner
  cases ph with
  | notStarted => exact h.goto nofun
  | stopped => exact h.goto nofun
  | running =>
    have hacceptor := h.joined_acceptor hne nofun
    have hsome : l.acceptorThread ≠ none := by rw [hacceptor]; simp
    have hgoto : LifeInv p .running js { l with owner := .joinAcceptor } := by
      refine h.goto ?_
      have howner := h.owner
      rw [hpc] at howner
      exact howner.1
    refine { hgoto with
      unstarted := fun hc => absurd hc hsome
      started := fun _ => ⟨(h.started hsome).1, nofun⟩
      stopped := fun _ t ht => ?_
      owner := nofun }
    · cases t with
      | acceptor => exact hacceptor
      | client k =>
        have hk : l.server.clientThreads[k]? = some k := by
          rw [h.clientThreads hacceptor]
          exact List.getElem?_range ht
        exact hbefore k (hlength ▸ (List.getElem?_eq_some_iff.mp hk).1) k hk

/-- **`stop` keeps the invariant.** -/
theorem LifeInv.stopStep (h : LifeInv p ph js l) (hs : stopStep l = some (b, l')) :
    LifeInv p (ph.next b) (js ++ b.joined?.toList) l' := by
  have howner := h.owner
  cases stopStep_cases hs with
  | joinAcceptor hpc hjoinable hexited =>
    rw [ph.next_eq (by simp) (by simp)]
    exact h.joinAcceptor hpc hjoinable hexited
  | skipAcceptor hpc hne =>
    rw [hpc] at howner
    exact LifeInv.of_next (h.goto ⟨howner, hne⟩) (by simp) (by simp) rfl
  | beginClients hpc =>
    rw [hpc] at howner
    exact LifeInv.of_next (h.goto ⟨howner.1, howner.2, rfl, Nat.zero_le _, nofun⟩) (by simp)
      (by simp) rfl
  | joinClient i last k hpc hlast hk hjoinable hexited =>
    rw [ph.next_eq (by simp) (by simp)]
    exact h.joinClient hpc hlast hk hjoinable hexited
  | skipClient i last k hpc hlast hk hjoined =>
    rw [hpc] at howner
    obtain ⟨hstopping, hne, hlength, hle, hbefore⟩ := howner
    refine LifeInv.of_next (h.goto ⟨hstopping, hne, hlength, by omega, fun j hj k' hk' => ?_⟩)
      (by simp) (by simp) rfl
    rcases Nat.lt_succ_iff_lt_or_eq.mp hj with hj | rfl
    · exact hbefore j hj k' hk'
    · obtain rfl : k = k' := Option.some_inj.mp (hk.symm.trans hk')
      exact hjoined
  | stopped last hpc =>
    show LifeInv p _ (js ++ []) _
    rw [List.append_nil]
    exact h.stopReturns hpc

/-- **The destructor** runs into `std::terminate` exactly if the server is running. Otherwise no
thread is left. -/
theorem LifeInv.destroyed (h : LifeInv p ph js l) (hidle : l.owner = .idle) :
    OwnerInv ph l (.destroyed l.terminates) := by
  have howner := h.owner
  rw [hidle] at howner
  cases ph with
  | notStarted =>
    have hnone : l.acceptorThread = none := by
      by_contra hsome
      exact (h.started hsome).2 rfl
    obtain ⟨hunstarted, -⟩ := h.unstarted hnone
    refine ⟨iff_of_false ?_ nofun, fun _ t ht => ?_⟩
    · simp [Lifecycle.terminates, hunstarted.clientThreads, hnone]
    · cases t with
      | acceptor => exact ht.1 hnone
      | client k =>
        have hover : (l.server.client k).over = false := ht
        rw [hunstarted.client k] at hover
        cases hover
  | running =>
    refine ⟨iff_of_true ?_ rfl, fun hc => ?_⟩
    · simp [Lifecycle.terminates, howner rfl]
    · simp [Lifecycle.terminates, howner rfl] at hc
  | stopped =>
    have hacceptor : l.acceptorThread = some .joined := by
      refine h.stopped rfl .acceptor fun hnone => ?_
      cases (h.unstarted hnone).2
    have hreachable := (h.started (by rw [hacceptor]; simp)).1
    refine ⟨iff_of_false ?_ nofun, fun _ t ht => ?_⟩
    · have hall : ∀ k ∈ l.server.clientThreads, l.clientThread k = .joined := by
        intro k hk
        rw [h.clientThreads hacceptor, List.mem_range] at hk
        exact h.stopped rfl (.client k) hk
      simp only [Lifecycle.terminates, hacceptor, Bool.or_eq_true, List.any_eq_true]
      rintro (⟨k, hk, hc⟩ | hc)
      · rw [hall k hk] at hc
        cases hc
      · cases hc
    · cases t with
      | acceptor => exact ht.2 (h.acceptor hacceptor)
      | client k =>
        have hover : (l.server.client k).over = false := ht
        rcases Nat.lt_or_ge k l.server.started with hlt | hge
        · rw [(h.client k (h.stopped rfl (.client k) hlt)).2] at hover
          cases hover
        · rw [notStarted_of_le hreachable hge] at hover
          cases hover

/-- **A step of the server keeps the invariant.** -/
theorem LifeInv.server (h : LifeInv p ph js l) (hsome : l.acceptorThread ≠ none)
    (hnot : ∀ b, l.owner ≠ .destroyed b) (hs : Step l.server a s) :
    LifeInv p ph js { l with server := s } := by
  obtain ⟨hreachable, hph⟩ := h.started hsome
  have hframe : l.acceptorThread ≠ some .joinable → Frame l.server s := fun hne =>
    frame_of_exited hs (h.acceptor (h.joined_acceptor hne hph))
  have hflag := isStopping_step hreachable hs
  refine ⟨fun hc => absurd hc hsome, fun _ => ?_, fun hjoined => ?_, fun k hk => ?_, fun t => ?_,
    h.nodup, fun hstopped t ht => ?_, ?_⟩
  · obtain ⟨tr, hrun⟩ := hreachable
    exact ⟨⟨_, hrun.snoc (.step hs)⟩, hph⟩
  · have hne : l.acceptorThread ≠ some .joinable := by
      rw [show l.acceptorThread = _ from hjoined]
      simp
    exact (hframe hne).acceptor.trans (h.acceptor hjoined)
  · obtain ⟨hjoined, hexited⟩ := h.client k hk
    exact ⟨hjoined, (hframe (by rw [hjoined]; simp)).client k hexited⟩
  · rw [h.mem_joins t]
    cases t <;> exact Iff.rfl
  · have hjoined : l.acceptorThread = some .joined := h.stopped hstopped .acceptor hsome
    cases t with
    | acceptor => exact hjoined
    | client k =>
      have hstarted := (hframe (by rw [hjoined]; simp)).started
      refine h.stopped hstopped (.client k) ?_
      rw [Lifecycle.Created, ← hstarted]
      exact ht
  · have howner := h.owner
    cases hpc : l.owner with
    | idle => rw [hpc] at howner; exact howner
    | joinAcceptor => rw [hpc] at howner; exact hflag.trans howner
    | beginClients => rw [hpc] at howner; exact ⟨hflag.trans howner.1, howner.2⟩
    | joinClients i last =>
      rw [hpc] at howner
      obtain ⟨hstopping, hne, hlength, hle, hbefore⟩ := howner
      have hthreads := (hframe hne).clientThreads
      refine ⟨hflag.trans hstopping, hne, by rw [hthreads]; exact hlength, hle, ?_⟩
      dsimp only
      rw [hthreads]
      exact hbefore
    | destroyed b => exact absurd hpc (hnot b)

/-- **Every step keeps the invariant.** -/
theorem LifeInv.step (h : LifeInv p ph js l) (hs : LifecycleStep l b l') :
    LifeInv p (ph.next b) (js ++ b.joined?.toList) l' := by
  cases hs with
  | start binds listens hidle hbind =>
    show LifeInv p _ (js ++ []) _
    rw [List.append_nil]
    exact h.start hidle hbind
  | stop => exact h.stop.of_next (by simp) (by simp) rfl
  | inStop hs => exact h.stopStep hs
  | destroy hidle => exact (h.goto (h.destroyed hidle)).of_next (by simp) (by simp) rfl
  | server hsome hnot hs => exact (h.server hsome hnot hs).of_next (by simp) (by simp) rfl

theorem lifeInv_of_run (h : (lifecycle p).Run tr l) : LifeInv p (phase tr) (joins tr) l := by
  refine h.invariant (I := fun tr l => LifeInv p (phase tr) (joins tr) l)
    (fun _ hl => lifeInv_init hl) ?_
  intro tr l b l' _ ih hs
  rw [phase_snoc, joins_snoc]
  exact ih.step hs

/-! ### The main results -/

/-- **What is expected of the joins and of the destructor.** -/
structure Orderly (tr : List (OwnerAction Action Thread)) (l : Lifecycle) : Prop where
  /-- No thread is joined twice. -/
  joins_nodup : (joins tr).Nodup
  /-- The threads joined have been created and have run to their ends. -/
  joined : ∀ t ∈ joins tr, l.Created t ∧ ¬l.Alive t
  /-- The end of the vector that `stop` has computed is still its end. -/
  loop : ∀ i last, l.owner = .joinClients i last →
    last = l.server.clientThreads.length ∧ i ≤ last
  /-- When `stop` has returned, it has joined all threads, and there will be no others. -/
  stopped : phase tr = .stopped → ∀ t, l.Created t → t ∈ joins tr
  /-- The destructor runs into `std::terminate` exactly if `stop` has not returned since the server
  has been started. If it does not, no thread is left that might use the members. -/
  destroyed : ∀ terminates, l.owner = .destroyed terminates →
    (terminates = true ↔ phase tr = .running) ∧ (terminates = false → ∀ t, ¬l.Alive t)

/-- **The life of a thread-per-client server is orderly**, in whatever order its owner calls `start`
and `stop` and whenever it is destroyed. -/
theorem thread_per_client_lifecycle (h : (lifecycle p).Run tr l) : Orderly tr l := by
  have hinv := lifeInv_of_run h
  refine ⟨hinv.nodup, fun t ht => ?_, fun i last hpc => ?_, fun hph t ht => ?_,
    fun terminates hpc => ?_⟩
  · have hjoined := (hinv.mem_joins t).mp ht
    cases t with
    | acceptor =>
      have hsome : l.acceptorThread = some .joined := hjoined
      exact ⟨by rw [Lifecycle.Created, hsome]; simp, fun halive => halive.2 (hinv.acceptor hsome)⟩
    | client k =>
      obtain ⟨hsome, hexited⟩ := hinv.client k hjoined
      have hreachable := (hinv.started (by rw [hsome]; simp)).1
      refine ⟨?_, fun halive => ?_⟩
      · by_contra hge
        rw [notStarted_of_le hreachable (not_lt.mp hge)] at hexited
        cases hexited
      · have hover : (l.server.client k).over = false := halive
        rw [hexited] at hover
        cases hover
  · have howner := hinv.owner
    rw [hpc] at howner
    exact ⟨howner.2.2.1, howner.2.2.2.1⟩
  · exact (hinv.mem_joins t).mpr (hinv.stopped hph t ht)
  · have howner := hinv.owner
    rw [hpc] at howner
    exact howner

/-- The server has been started, and its owner has done nothing else. -/
def running (s : State) : Lifecycle where
  server := s
  acceptorThread := some .joinable
  clientThread _ := .joinable
  owner := .idle

/-- **A run of the server is part of its life.** -/
theorem run_running {tr : List Action} (h : (system p).Run tr s) :
    ∃ tr, (lifecycle p).Run tr (running s) ∧ phase tr = .running ∧ joins tr = [] := by
  induction h with
  | @start u hu =>
    let l : Lifecycle :=
      ⟨{ u with socket := ⟨p.acceptor, .disconnected⟩ }, none, fun _ => .joinable, .idle⟩
    have hinit : (lifecycle p).Init l := ⟨⟨u, hu, rfl⟩, rfl, fun _ => rfl, rfl⟩
    have hstart : LifecycleStep l (.start true) (running u) := by
      have hs : LifecycleStep l (.start (start true true l).1) (start true true l).2 :=
        .start true true rfl fun _ => rfl
      have hsocket : u.socket = ⟨p.acceptor, .listening⟩ := hu.2.1
      have hu' : { u with socket := ⟨p.acceptor, .listening⟩ } = u := by rw [← hsocket]
      have hl : (start true true l).2 = running u :=
        congrArg (fun s => Lifecycle.mk s (some .joinable) (fun _ => .joinable) .idle) hu'
      rwa [hl] at hs
    exact ⟨_, (TransitionSystem.Run.start hinit).snoc hstart, rfl, rfl⟩
  | @snoc tr s s' a _ hs ih =>
    obtain ⟨tr', h, hph, hjoins⟩ := ih
    have hstep : LifecycleStep (running s) (.server a) (running s') :=
      .server (by simp [running]) (by simp [running]) hs
    refine ⟨_, h.snoc hstep, ?_, ?_⟩
    · rw [phase_snoc, hph]
      rfl
    · rw [joins_snoc, hjoins]
      rfl

/-- A server with two clients that is destroyed while it is running, and one that has been stopped
before and has joined the threads of both. -/
theorem thread_per_client_lifecycle_ends :
    (∃ tr l, (lifecycle process).Run tr l ∧ l.owner = .destroyed true ∧ phase tr = .running) ∧
      ∃ tr l, (lifecycle process).Run tr l ∧ l.owner = .destroyed false ∧
        Thread.acceptor ∈ joins tr ∧ Thread.client 0 ∈ joins tr ∧ Thread.client 1 ∈ joins tr := by
  obtain ⟨_, hrun⟩ := run_slotReused
  obtain ⟨tr, h, hph, -⟩ := run_running hrun.of_restrict
  constructor
  · have h' := h.snoc (.destroy rfl)
    exact ⟨_, _, h', rfl, ((thread_per_client_lifecycle h').destroyed true rfl).1.mp rfl⟩
  · have h₁ := h.snoc (.stop rfl)
    have h₂ := h₁.snoc (.server (by simp [running]) (by simp) (.acceptor rfl))
    have h₃ := h₂.snoc (.server (by simp [running]) (by simp) (.client 1 rfl))
    have h₄ := h₃.snoc (.server (by simp [running]) (by simp) (.client 1 rfl))
    have h₅ := h₄.snoc (.inStop rfl)
    have h₆ := h₅.snoc (.inStop rfl)
    have h₇ := h₆.snoc (.inStop rfl)
    have h₈ := h₇.snoc (.inStop rfl)
    have h₉ := h₈.snoc (.inStop rfl)
    have hjoined := (thread_per_client_lifecycle h₉).stopped (by simp only [phase_snoc, hph]; rfl)
    refine ⟨_, _, h₉.snoc (.destroy rfl), rfl, ?_⟩
    rw [joins_snoc]
    exact ⟨List.mem_append_left _ (hjoined .acceptor nofun),
      List.mem_append_left _ (hjoined (.client 0) (show 0 < 2 by decide)),
      List.mem_append_left _ (hjoined (.client 1) (show 1 < 2 by decide))⟩

end ThreadPerClient

end Net

end LowLatency
