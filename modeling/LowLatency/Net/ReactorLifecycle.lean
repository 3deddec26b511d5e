import LowLatency.Net.Owner
import LowLatency.Net.ReactorAccept

/-!
# The life of a reactor server

The object from its construction to its destruction, with the thread that owns it. `start` binds the
acceptor, allocates the buffer of the ready events, creates the reactor thread and stores a pointer
to its object; `stop` sets the flag, joins the thread and deletes the buffer; the destructor deletes
the buffer and then destroys the thread's object. Meanwhile the thread runs as it does in
`LowLatency.Net.Reactor.stopping`, once it has named itself through the pointer that `start` stores.

The thread and its owner share the buffer and the pointer without a lock. That the buffer is not
deleted while `epoll_wait` may write to it rests on the join before it
(`LowLatency.Net.Reactor.Orderly.buffer`), and nothing keeps the thread from reading the pointer
before it has been stored (`LowLatency.Net.Reactor.Orderly.pointer`).
-/

namespace LowLatency

namespace Net

namespace Reactor

/-! ### The owner's calls -/

/-- Where the owner of the server stands. -/
inductive OwnerPc where
  /-- Between two calls. -/
  | idle : OwnerPc
  /-- In `start`, with the thread created, at `m_reactorThread.reset`. -/
  | resetThread : OwnerPc
  /-- In `stop`, at the reactor thread. -/
  | joinThread : OwnerPc
  /-- In `stop`, at `m_ioListener.stop`. -/
  | stopListener : OwnerPc
  /-- In the destructor, with `m_ioListener` destroyed, at `m_reactorThread`. -/
  | destroyThread : OwnerPc
  /-- The object has been destroyed. -/
  | destroyed (terminates : Bool) : OwnerPc

/-- The server, with its thread and its owner. -/
structure Lifecycle where
  loop : Loop
  /-- `m_epollEvents` is not null. -/
  epollEvents : Bool
  /-- The thread has been created. -/
  created : Bool
  /-- The thread has named itself. -/
  named : Bool
  /-- `m_reactorThread`. -/
  reactorThread : Option ThreadObject
  owner : OwnerPc

/-- The acceptor's socket and the kernel. -/
def Lifecycle.setSocket (l : Lifecycle) (socket : Socket) (kernel : Kernel) : Lifecycle :=
  { l with loop := { l.loop with reactor := { l.loop.reactor with
      socket := socket
      kernel := kernel } } }

/-- `start` up to `m_reactorThread.reset`, by what the calls of `::bind` and `::listen` do. The
descriptor of the epoll instance is counted among those of the process. -/
def start (binds listens : Bool) (l : Lifecycle) : Bool × Lifecycle :=
  let socket := l.loop.reactor.socket
  let kernel := l.loop.reactor.kernel
  if binds then
    if listens then
      let fd := socket.socketDescriptor
      (true,
        { l.setSocket { socket with state := .listening }
            ((kernel.setBlockingMode fd false).epollAdd fd) with
          epollEvents := true
          created := true
          owner := .resetThread })
    else (false, l.setSocket { socket with state := .bound } kernel)
  else (false, l)

/-- The steps of the owner inside a call. -/
def ownerStep (l : Lifecycle) : Option (OwnerAction (Option LoopAction) Unit × Lifecycle) :=
  match l.owner with
  | .resetThread => some (.turn, { l with reactorThread := some .joinable, owner := .idle })
  | .joinThread =>
    match l.reactorThread with
    | some .joinable =>
      match l.loop.pc with
      | .exited => some (.join (), { l with reactorThread := some .joined, owner := .stopListener })
      | _ => none
    | _ => some (.turn, { l with owner := .stopListener })
  | .stopListener => some (.stopped, { l with epollEvents := false, owner := .idle })
  | .destroyThread =>
    let terminates : Bool := l.reactorThread = some .joinable
    some (.destroy terminates, { l with owner := .destroyed terminates })
  | _ => none

/-- The steps. A socket can be bound once. -/
inductive LifecycleStep (p : Process) :
    Lifecycle → OwnerAction (Option LoopAction) Unit → Lifecycle → Prop
  | start {l : Lifecycle} (binds listens : Bool) : l.owner = .idle →
      (binds = true → l.loop.reactor.socket.state = .disconnected) →
      LifecycleStep p l (.start (start binds listens l).1) (start binds listens l).2
  | stop {l : Lifecycle} : l.owner = .idle →
      LifecycleStep p l .stop
        { l with loop := { l.loop with isStopping := true }, owner := .joinThread }
  | setPollTimeout {l : Lifecycle} (microSeconds : Int64) : l.owner = .idle →
      LifecycleStep p l (.server (some (.setPollTimeout microSeconds)))
        { l with loop := { l.loop with epollTimeout := setTimeout microSeconds } }
  /-- `~TCPServerReactor`, up to the destruction of `m_ioListener`. -/
  | destroyListener {l : Lifecycle} : l.owner = .idle →
      LifecycleStep p l .turn { l with epollEvents := false, owner := .destroyThread }
  | inside {l l' : Lifecycle} {a : OwnerAction (Option LoopAction) Unit} :
      ownerStep l = some (a, l') → LifecycleStep p l a l'
  /-- `pthread_setname_np(m_reactorThread->native_handle(), "reactor_thread")`. -/
  | setName {l : Lifecycle} : l.created = true → l.named = false →
      (∀ b, l.owner ≠ .destroyed b) → LifecycleStep p l (.server none) { l with named := true }
  /-- A client does something. -/
  | input {l : Lifecycle} {e : EpollEvent} {r : Loop} : l.created = true →
      (∀ b, l.owner ≠ .destroyed b) → LoopStep p l.loop (.input e) r →
      LifecycleStep p l (.server (some (.input e))) { l with loop := r }
  /-- The thread goes on. -/
  | server {l : Lifecycle} {a : LoopAction} {r : Loop} : l.named = true →
      (∀ b, l.owner ≠ .destroyed b) → a.IsServer → LoopStep p l.loop a r →
      LifecycleStep p l (.server (some a)) { l with loop := r }

/-- **The life of the server**, from the end of its constructor on. -/
def lifecycle (p : Process) :
    TransitionSystem Lifecycle (OwnerAction (Option LoopAction) Unit) where
  Init l := (∃ u, (stopping p).Init u ∧
      l.loop = { u with reactor := { u.reactor with
        socket := ⟨p.acceptor, .disconnected⟩
        kernel := ⟨p.base, ∅, ∅⟩ } }) ∧
    l.epollEvents = false ∧ l.created = false ∧ l.named = false ∧ l.reactorThread = none ∧
    l.owner = .idle
  Step := LifecycleStep p

/-! ### What a step can do -/

/-- The cases of a step of the owner inside a call. -/
inductive OwnerCase (l : Lifecycle) : OwnerAction (Option LoopAction) Unit → Lifecycle → Prop
  | resetThread : l.owner = .resetThread →
      OwnerCase l .turn { l with reactorThread := some .joinable, owner := .idle }
  | join : l.owner = .joinThread → l.reactorThread = some .joinable → l.loop.pc = .exited →
      OwnerCase l (.join ()) { l with reactorThread := some .joined, owner := .stopListener }
  | skip : l.owner = .joinThread → l.reactorThread ≠ some .joinable →
      OwnerCase l .turn { l with owner := .stopListener }
  | stopListener : l.owner = .stopListener →
      OwnerCase l .stopped { l with epollEvents := false, owner := .idle }
  | destroyThread (terminates : Bool) : l.owner = .destroyThread →
      (terminates = true ↔ l.reactorThread = some .joinable) →
      OwnerCase l (.destroy terminates) { l with owner := .destroyed terminates }

variable {p : Process} {l l' : Lifecycle} {b : OwnerAction (Option LoopAction) Unit} {r r' : Loop}
  {tr : List (OwnerAction (Option LoopAction) Unit)} {ph : Phase}

theorem ownerStep_cases (hs : ownerStep l = some (b, l')) : OwnerCase l b l' := by
  unfold ownerStep at hs
  cases howner : l.owner with
  | idle => simp [howner] at hs
  | resetThread =>
    simp only [howner] at hs
    cases hs
    exact .resetThread howner
  | joinThread =>
    simp only [howner] at hs
    split at hs
    · rename_i hjoinable
      split at hs
      · cases hs
        exact .join howner hjoinable ‹_›
      · cases hs
    · cases hs
      exact .skip howner ‹_›
  | stopListener =>
    simp only [howner] at hs
    cases hs
    exact .stopListener howner
  | destroyThread =>
    simp only [howner] at hs
    cases hs
    exact .destroyThread _ howner decide_eq_true_iff
  | destroyed b => simp [howner] at hs

/-- **A thread that has left its loop makes no step.** -/
theorem not_step_of_exited (hpc : r.pc = .exited) {a : LoopAction} (ha : a.IsServer) :
    ¬LoopStep p r a r' := by
  intro hs
  cases hs with
  | stop | setPollTimeout | input => exact ha
  | check h | wait _ _ _ h | dispatch _ _ _ _ h | next h => rw [hpc] at h; cases h

/-! ### The invariant -/

/-- The object is as its constructor has left it, but for the acceptor's socket, the flag and the
timeout. -/
def Unstarted (p : Process) (r : Loop) : Prop :=
  r.reactor.socket.socketDescriptor = p.acceptor ∧
    ∃ v, (stopping p).Reachable v ∧ (system p).Init v.reactor ∧ v.pc = .check ∧
      r = { v with reactor := { v.reactor with
        socket := r.reactor.socket
        kernel := ⟨p.base, ∅, ∅⟩ } }

/-- The destructor has been called. -/
@[simp] def OwnerPc.destroying : OwnerPc → Bool
  | .destroyThread | .destroyed _ => true
  | _ => false

/-- What is known at each place of the owner, in the phase `ph`. -/
def OwnerInv (ph : Phase) (l : Lifecycle) : OwnerPc → Prop
  | .idle => ph = .running → l.reactorThread = some .joinable
  | .resetThread => ph = .running ∧ l.created = true
  | .joinThread => l.loop.isStopping = true
  | .stopListener => l.loop.isStopping = true ∧ l.reactorThread ≠ some .joinable
  | .destroyThread => l.epollEvents = false ∧ (ph = .running → l.reactorThread = some .joinable)
  | .destroyed terminates => l.epollEvents = false ∧ (terminates = true ↔ ph = .running)

/-- **The invariant of the life of the server**, in the phase `ph` and after the joins `js`. -/
structure LifeInv (p : Process) (ph : Phase) (js : List Unit) (l : Lifecycle) : Prop where
  /-- Before a `start` has succeeded there is nothing but the object. -/
  unstarted : l.created = false → Unstarted p l.loop ∧ ph = .notStarted ∧ l.named = false ∧
    l.reactorThread = none ∧ l.epollEvents = false
  started : l.created = true → (stopping p).Reachable l.loop ∧ ph ≠ .notStarted ∧
    (l.reactorThread = none ↔ l.owner = .resetThread)
  joined : l.reactorThread = some .joined → l.loop.pc = .exited
  joins : js = if l.reactorThread = some .joined then [()] else []
  /-- The buffer is there until the thread has been joined, or the destructor has been called. -/
  buffer : l.created = true → l.epollEvents = true ∨ l.reactorThread = some .joined ∨
    l.owner.destroying = true
  stopped : ph = .stopped → l.reactorThread = some .joined ∧ l.epollEvents = false
  owner : OwnerInv ph l l.owner

theorem lifeInv_init (h : (lifecycle p).Init l) : LifeInv p .notStarted [] l := by
  obtain ⟨⟨u, hu, hloop⟩, hevents, hcreated, hnamed, hthread, howner⟩ := h
  refine ⟨fun _ => ⟨⟨?_, u, ⟨[], .start hu⟩, hu.1, hu.2.2.2.1, ?_⟩, rfl, hnamed, hthread, hevents⟩,
    fun hc => ?_, fun hc => ?_, ?_, fun hc => ?_, nofun, ?_⟩
  · rw [hloop]
  · rw [hloop]
  · rw [hcreated] at hc
    cases hc
  · rw [hthread] at hc
    cases hc
  · rw [hthread]
    rfl
  · rw [hcreated] at hc
    cases hc
  · rw [howner]
    exact nofun

/-- A server that has started has a socket that is bound. -/
theorem bound_of_reachable (h : (stopping p).Reachable r) :
    r.reactor.socket.state ≠ .disconnected := by
  obtain ⟨tr, hrun⟩ := h
  obtain ⟨tr', hrun'⟩ := (loopInv_of_run hrun).reachable
  rcases (acceptorInv_of_run hrun'.of_restrict).state with heq | heq <;> simp [heq]

/-- **A `start` that succeeds leaves a server about to run.** -/
theorem Unstarted.reachable (h : Unstarted p l.loop) :
    (stopping p).Reachable (start true true l).2.loop := by
  obtain ⟨hfd, v, hv, hinit, -, hr⟩ := h
  have hloop : (start true true l).2.loop = v := by
    obtain ⟨loop, epollEvents, created, named, reactorThread, owner⟩ := l
    obtain ⟨⟨server, ⟨fd, state⟩, table, kernel, batch⟩, isStopping, epollTimeout, pc, ready⟩ :=
      loop
    obtain ⟨⟨server', socket', table', kernel', batch'⟩, isStopping', epollTimeout', pc',
      ready'⟩ := v
    obtain ⟨-, hsocket, -, hkernel, -⟩ := hinit
    simp only [Loop.mk.injEq, State.mk.injEq] at hfd hsocket hkernel hr
    obtain ⟨⟨rfl, -, rfl, rfl, rfl⟩, rfl, rfl, rfl, rfl⟩ := hr
    subst hfd hsocket hkernel
    simp [start, Lifecycle.setSocket, Kernel.setBlockingMode, Kernel.epollAdd, p.acceptor_mem]
  rw [hloop]
  exact hv

/-! ### The steps keep the invariant -/

variable {js : List Unit}

/-- An action that is neither a `start` that succeeds nor the return of `stop` keeps the phase. -/
theorem LifeInv.of_next (h : LifeInv p ph js l) (hstart : b ≠ .start true) (hstopped : b ≠ .stopped)
    (hjoin : b.joined? = none) : LifeInv p (ph.next b) (js ++ b.joined?.toList) l := by
  rw [ph.next_eq hstart hstopped, hjoin, Option.toList_none, List.append_nil]
  exact h

/-- The reactor thread has an object, but for the time in which `start` stores it. -/
theorem LifeInv.reactorThread_ne (h : LifeInv p ph js l) (hcreated : l.created = true)
    (howner : l.owner ≠ .resetThread) : l.reactorThread ≠ none :=
  fun hnone => howner ((h.started hcreated).2.2.mp hnone)

/-- A thread whose object is neither missing nor joinable has been joined. -/
theorem joined_of_ne {t : Option ThreadObject} (hnone : t ≠ none) (hne : t ≠ some .joinable) :
    t = some .joined := by
  rcases t with _ | _ | _
  · exact absurd rfl hnone
  · exact absurd rfl hne
  · rfl

/-- What is known at a place of the owner is about some of the members. -/
theorem OwnerInv.congr {pc : OwnerPc} (h : OwnerInv ph l pc) (hcreated : l'.created = l.created)
    (hthread : l'.reactorThread = l.reactorThread) (hevents : l'.epollEvents = l.epollEvents)
    (hstopping : l'.loop.isStopping = l.loop.isStopping) : OwnerInv ph l' pc := by
  cases pc with
  | idle => exact fun hph => hthread.trans (h hph)
  | resetThread => exact ⟨h.1, hcreated.trans h.2⟩
  | joinThread => exact hstopping.trans h
  | stopListener => exact ⟨hstopping.trans h.1, hthread ▸ h.2⟩
  | destroyThread => exact ⟨hevents.trans h.1, fun hph => hthread.trans (h.2 hph)⟩
  | destroyed terminates => exact ⟨hevents.trans h.1, h.2⟩

/-- Another state of the acceptor's socket, before a `start` has succeeded. -/
theorem LifeInv.socket (h : LifeInv p ph js l) (hcreated : l.created = false)
    (state : SocketState) :
    LifeInv p ph js (l.setSocket { l.loop.reactor.socket with state := state }
      l.loop.reactor.kernel) where
  unstarted _ := by
    obtain ⟨⟨hfd, v, hv, hinit, hpc, hr⟩, hrest⟩ := h.unstarted hcreated
    refine ⟨⟨hfd, v, hv, hinit, hpc, ?_⟩, hrest⟩
    rw [Lifecycle.setSocket, hr]
  started hc := absurd (hcreated.symm.trans hc) Bool.false_ne_true
  joined := h.joined
  joins := h.joins
  buffer hc := absurd (hcreated.symm.trans hc) Bool.false_ne_true
  stopped := h.stopped
  owner := h.owner.congr rfl rfl rfl rfl

/-- **`start` keeps the invariant.** -/
theorem LifeInv.start (h : LifeInv p ph js l) {binds listens : Bool}
    (hbind : binds = true → l.loop.reactor.socket.state = .disconnected) :
    LifeInv p (ph.next (.start (start binds listens l).1 : OwnerAction (Option LoopAction) Unit)) js
      (start binds listens l).2 := by
  have hfalse : ph.next (.start false : OwnerAction (Option LoopAction) Unit) = ph :=
    ph.next_eq (by simp) (by simp)
  cases hcreated : l.created with
  | true =>
    -- the socket is bound already
    obtain rfl : binds = false := by
      rw [Bool.eq_false_iff]
      exact fun hc => bound_of_reachable (h.started hcreated).1 (hbind hc)
    rw [Reactor.start, if_neg (by simp), hfalse]
    exact h
  | false =>
    obtain ⟨hunstarted, rfl, hnamed, hthread, -⟩ := h.unstarted hcreated
    cases binds with
    | false =>
      rw [Reactor.start, if_neg (by simp), hfalse]
      exact h
    | true =>
      cases listens with
      | false =>
        rw [Reactor.start, if_pos rfl, if_neg (by simp), hfalse]
        exact h.socket hcreated .bound
      | true =>
        refine ⟨nofun, fun _ => ⟨hunstarted.reachable, nofun, iff_of_true hthread rfl⟩,
          fun hc => ?_, h.joins, fun _ => .inl rfl, nofun, rfl, rfl⟩
        rw [show l.reactorThread = _ from hc] at hthread
        cases hthread

/-- **The call of `stop` keeps the invariant.** -/
theorem LifeInv.stop (h : LifeInv p ph js l) (hidle : l.owner = .idle) :
    LifeInv p ph js
      { l with loop := { l.loop with isStopping := true }, owner := .joinThread } where
  unstarted hcreated := by
    obtain ⟨⟨hfd, v, ⟨tr, hrun⟩, hinit, hpc, hr⟩, hrest⟩ := h.unstarted hcreated
    refine ⟨⟨hfd, { v with isStopping := true }, ⟨_, hrun.snoc .stop⟩, hinit, hpc, ?_⟩, hrest⟩
    rw [hr]
  started hcreated := by
    obtain ⟨⟨tr, hrun⟩, hph, -⟩ := h.started hcreated
    refine ⟨⟨_, hrun.snoc .stop⟩, hph, iff_of_false ?_ nofun⟩
    exact h.reactorThread_ne hcreated (by rw [hidle]; nofun)
  joined := h.joined
  joins := h.joins
  buffer hcreated := by
    have hbuffer := h.buffer hcreated
    rw [hidle] at hbuffer
    exact hbuffer
  stopped := h.stopped
  owner := rfl

/-- **Another timeout keeps the invariant.** -/
theorem LifeInv.setPollTimeout (h : LifeInv p ph js l) (microSeconds : Int64) :
    LifeInv p ph js
      { l with loop := { l.loop with epollTimeout := Reactor.setTimeout microSeconds } } where
  unstarted hcreated := by
    obtain ⟨⟨hfd, v, ⟨tr, hrun⟩, hinit, hpc, hr⟩, hrest⟩ := h.unstarted hcreated
    refine ⟨⟨hfd, _, ⟨_, hrun.snoc (.setPollTimeout microSeconds)⟩, hinit, hpc, ?_⟩, hrest⟩
    rw [hr]
  started hcreated := by
    obtain ⟨⟨tr, hrun⟩, hrest⟩ := h.started hcreated
    exact ⟨⟨_, hrun.snoc (.setPollTimeout microSeconds)⟩, hrest⟩
  joined := h.joined
  joins := h.joins
  buffer := h.buffer
  stopped := h.stopped
  owner := h.owner.congr rfl rfl rfl rfl

/-- **The beginning of the destructor keeps the invariant.** -/
theorem LifeInv.destroyListener (h : LifeInv p ph js l) (hidle : l.owner = .idle) :
    LifeInv p ph js { l with epollEvents := false, owner := .destroyThread } := by
  have howner := h.owner
  rw [hidle] at howner
  refine ⟨fun hcreated => ?_, fun hcreated => ?_, h.joined, h.joins, fun _ => .inr (.inr rfl),
    fun hph => ⟨(h.stopped hph).1, rfl⟩, rfl, howner⟩
  · obtain ⟨hunstarted, hph, hnamed, hthread, -⟩ := h.unstarted hcreated
    exact ⟨hunstarted, hph, hnamed, hthread, rfl⟩
  · obtain ⟨hreachable, hph, -⟩ := h.started hcreated
    exact ⟨hreachable, hph,
      iff_of_false (h.reactorThread_ne hcreated (by rw [hidle]; nofun)) nofun⟩

/-- **A step of the owner inside a call keeps the invariant.** -/
theorem LifeInv.ownerStep (h : LifeInv p ph js l) (hs : ownerStep l = some (b, l')) :
    LifeInv p (ph.next b) (js ++ b.joined?.toList) l' := by
  have howner := h.owner
  have hbuffer := h.buffer
  cases ownerStep_cases hs with
  | resetThread hpc =>
    rw [hpc] at howner hbuffer
    obtain ⟨rfl, hcreated⟩ := howner
    obtain ⟨hreachable, hph, hthread⟩ := h.started hcreated
    have hnone : l.reactorThread = none := hthread.mpr hpc
    have hinv : LifeInv p .running js
        { l with reactorThread := some .joinable, owner := .idle } := by
      refine ⟨fun hc => ?_, fun _ => ⟨hreachable, hph, iff_of_false nofun nofun⟩, nofun, ?_,
        fun _ => ?_, nofun, fun _ => rfl⟩
      · rw [show l.created = false from hc] at hcreated
        cases hcreated
      · rw [h.joins, hnone]
        rfl
      · rcases hbuffer hcreated with hevents | hjoined | hdestroying
        · exact .inl hevents
        · rw [hnone] at hjoined
          cases hjoined
        · cases hdestroying
    exact hinv.of_next (by simp) (by simp) rfl
  | join hpc hjoinable hexited =>
    rw [hpc] at howner hbuffer
    rw [ph.next_eq (by simp) (by simp)]
    refine ⟨fun hcreated => ?_, fun hcreated => ?_, fun _ => hexited, ?_, fun _ => .inr (.inl rfl),
      fun hph => ⟨rfl, (h.stopped hph).2⟩, howner, nofun⟩
    · obtain ⟨-, -, -, hnone, -⟩ := h.unstarted hcreated
      rw [hjoinable] at hnone
      cases hnone
    · obtain ⟨hreachable, hph, -⟩ := h.started hcreated
      exact ⟨hreachable, hph, iff_of_false nofun nofun⟩
    · rw [h.joins, hjoinable]
      rfl
  | skip hpc hne =>
    rw [hpc] at howner hbuffer
    have hinv : LifeInv p ph js { l with owner := .stopListener } := by
      refine ⟨h.unstarted, fun hcreated => ?_, h.joined, h.joins, hbuffer, h.stopped, howner, hne⟩
      obtain ⟨hreachable, hph, -⟩ := h.started hcreated
      exact ⟨hreachable, hph,
        iff_of_false (h.reactorThread_ne hcreated (by rw [hpc]; nofun)) nofun⟩
    exact hinv.of_next (by simp) (by simp) rfl
  | stopListener hpc =>
    rw [hpc] at howner
    obtain ⟨-, hne⟩ := howner
    have hjoined : ph ≠ .notStarted → l.reactorThread = some .joined := by
      intro hph
      have hcreated : l.created = true := by
        by_contra hc
        exact hph (h.unstarted (Bool.eq_false_of_not_eq_true hc)).2.1
      exact joined_of_ne (h.reactorThread_ne hcreated (by rw [hpc]; nofun)) hne
    have hnext : ph.next (.stopped : OwnerAction (Option LoopAction) Unit) ≠ .running := by
      cases ph <;> nofun
    show LifeInv p _ (js ++ []) _
    rw [List.append_nil]
    refine ⟨fun hcreated => ?_, fun hcreated => ?_, h.joined, h.joins, fun hcreated => ?_,
      fun hph => ?_, fun hc => absurd hc hnext⟩
    · obtain ⟨hunstarted, rfl, hnamed, hthread, -⟩ := h.unstarted hcreated
      exact ⟨hunstarted, rfl, hnamed, hthread, rfl⟩
    · obtain ⟨hreachable, hph, -⟩ := h.started hcreated
      refine ⟨hreachable, ?_, iff_of_false ?_ nofun⟩
      · cases ph with
        | notStarted => exact absurd rfl hph
        | running | stopped => nofun
      · rw [hjoined hph]
        nofun
    · exact .inr (.inl (hjoined (h.started hcreated).2.1))
    · refine ⟨hjoined ?_, rfl⟩
      rintro rfl
      cases hph
  | destroyThread terminates hpc hterminates =>
    rw [hpc] at howner
    obtain ⟨hevents, hrunning⟩ := howner
    have hinv : LifeInv p ph js { l with owner := .destroyed terminates } := by
      refine ⟨h.unstarted, fun hcreated => ?_, h.joined, h.joins, fun _ => .inr (.inr rfl),
        h.stopped, hevents, ?_⟩
      · obtain ⟨hreachable, hph, -⟩ := h.started hcreated
        exact ⟨hreachable, hph,
          iff_of_false (h.reactorThread_ne hcreated (by rw [hpc]; nofun)) nofun⟩
      · rw [hterminates]
        refine ⟨fun hjoinable => ?_, hrunning⟩
        cases ph with
        | running => rfl
        | notStarted =>
          cases hcreated : l.created with
          | true => exact absurd rfl (h.started hcreated).2.1
          | false =>
            rw [(h.unstarted hcreated).2.2.2.1] at hjoinable
            cases hjoinable
        | stopped =>
          rw [(h.stopped rfl).1] at hjoinable
          cases hjoinable
    exact hinv.of_next (by simp) (by simp) rfl

/-- **A step of the loop keeps the invariant.** -/
theorem LifeInv.server (h : LifeInv p ph js l) (hcreated : l.created = true) {a : LoopAction}
    (hs : LoopStep p l.loop a r)
    (hexited : l.loop.pc = .exited → r.pc = .exited)
    (hstopping : r.isStopping = l.loop.isStopping) : LifeInv p ph js { l with loop := r } where
  unstarted hc := absurd (hcreated.symm.trans hc) (by simp)
  started _ := by
    obtain ⟨⟨tr, hrun⟩, hrest⟩ := h.started hcreated
    exact ⟨⟨_, hrun.snoc hs⟩, hrest⟩
  joined hjoined := hexited (h.joined hjoined)
  joins := h.joins
  buffer := h.buffer
  stopped := h.stopped
  owner := h.owner.congr rfl rfl rfl hstopping

/-- A step of the thread does not touch the flag. -/
theorem isStopping_step {a : LoopAction} (ha : a.IsServer) (hs : LoopStep p r a r') :
    r'.isStopping = r.isStopping := by
  cases hs with
  | stop | setPollTimeout | input => exact ha.elim
  | check | wait | dispatch | next => rfl

/-- **Every step keeps the invariant.** -/
theorem LifeInv.step (h : LifeInv p ph js l) (hs : LifecycleStep p l b l') :
    LifeInv p (ph.next b) (js ++ b.joined?.toList) l' := by
  cases hs with
  | start binds listens hidle hbind =>
    show LifeInv p _ (js ++ []) _
    rw [List.append_nil]
    exact h.start hbind
  | stop hidle => exact (h.stop hidle).of_next (by simp) (by simp) rfl
  | setPollTimeout microSeconds => exact (h.setPollTimeout _).of_next (by simp) (by simp) rfl
  | destroyListener hidle => exact (h.destroyListener hidle).of_next (by simp) (by simp) rfl
  | inside hs => exact h.ownerStep hs
  | setName hcreated hnamed hnot =>
    have hinv : LifeInv p ph js { l with named := true } := by
      refine { h with
        unstarted := fun hc => absurd (hcreated.symm.trans hc) (by simp)
        owner := h.owner.congr rfl rfl rfl rfl }
    exact hinv.of_next (by simp) (by simp) rfl
  | input hcreated hnot hs =>
    refine (h.server hcreated hs ?_ ?_).of_next (by simp) (by simp) rfl
    · cases hs
      exact id
    · cases hs
      rfl
  | @server a r hnamed hnot ha hs =>
    have hcreated : l.created = true := by
      by_contra hc
      rw [(h.unstarted (Bool.eq_false_of_not_eq_true hc)).2.2.1] at hnamed
      cases hnamed
    refine (h.server hcreated hs (fun hexited => ?_) (isStopping_step ha hs)).of_next (by simp)
      (by simp) rfl
    exact absurd hs (not_step_of_exited hexited ha)

theorem lifeInv_of_run (h : (lifecycle p).Run tr l) : LifeInv p (phase tr) (joins tr) l := by
  refine h.invariant (I := fun tr l => LifeInv p (phase tr) (joins tr) l)
    (fun _ hl => lifeInv_init hl) ?_
  intro tr l b l' _ ih hs
  rw [phase_snoc, joins_snoc]
  exact ih.step hs

/-! ### The main results -/

/-- The thread is about to access the buffer of the events: in `epoll_wait`, or before an event that
it has to dispatch. -/
def Lifecycle.UsesBuffer (l : Lifecycle) : Prop :=
  (∃ timeout, l.loop.pc = .wait timeout) ∨ l.loop.pc = .events ∧ l.loop.reactor.batch ≠ []

/-- **What is expected of the thread, the buffer and the destructor.** -/
structure Orderly (tr : List (OwnerAction (Option LoopAction) Unit)) (l : Lifecycle) : Prop where
  /-- The thread is joined once at most, and has run to its end then. -/
  joins_le : (joins tr).length ≤ 1
  joined : joins tr ≠ [] → l.loop.pc = .exited
  /-- The buffer is there when the thread accesses it, unless the server is destroyed while it is
  running. -/
  buffer : l.UsesBuffer → l.epollEvents = true ∨ phase tr = .running ∧ l.owner.destroying = true
  /-- The pointer to the thread's object is missing as long as `start` is about to store it. -/
  pointer : l.created = true → (l.reactorThread = none ↔ l.owner = .resetThread)
  /-- When `stop` has returned, the thread has run to its end, and the buffer has been deleted. -/
  stopped : phase tr = .stopped → l.loop.pc = .exited ∧ l.epollEvents = false
  /-- The destructor runs into `std::terminate` exactly if `stop` has not returned since the server
  has been started, and leaves no buffer in any case. -/
  destroyed : ∀ terminates, l.owner = .destroyed terminates →
    (terminates = true ↔ phase tr = .running) ∧ l.epollEvents = false

/-- **The life of a reactor server is orderly**, in whatever order its owner calls `start`, `stop`
and `setPollTimeout` and whenever it is destroyed. -/
theorem reactor_lifecycle (h : (lifecycle p).Run tr l) : Orderly tr l := by
  have hinv := lifeInv_of_run h
  have hjoins := hinv.joins
  refine ⟨?_, fun hne => hinv.joined ?_, fun huses => ?_,
    fun hcreated => (hinv.started hcreated).2.2,
    fun hph => ⟨hinv.joined (hinv.stopped hph).1, (hinv.stopped hph).2⟩, fun terminates hpc => ?_⟩
  · rw [hjoins]
    split_ifs <;> simp
  · by_contra hc
    rw [if_neg hc] at hjoins
    exact hne hjoins
  · have hnot : l.loop.pc ≠ .exited ∧ l.loop.pc ≠ .check := by
      rcases huses with ⟨timeout, hpc⟩ | ⟨hpc, -⟩ <;> simp [hpc]
    have hcreated : l.created = true := by
      by_contra hc
      obtain ⟨⟨-, v, -, -, hcheck, hr⟩, -⟩ := hinv.unstarted (Bool.eq_false_of_not_eq_true hc)
      exact hnot.2 (by rw [hr]; exact hcheck)
    rcases hinv.buffer hcreated with hevents | hjoined | hdestroying
    · exact .inl hevents
    · exact absurd (hinv.joined hjoined) hnot.1
    · refine .inr ⟨?_, hdestroying⟩
      cases hph : phase tr with
      | notStarted => exact absurd hph (hinv.started hcreated).2.1
      | running => rfl
      | stopped => exact absurd (hinv.joined (hinv.stopped hph).1) hnot.1
  · have howner := hinv.owner
    rw [hpc] at howner
    exact ⟨howner.2, howner.1⟩

/-- The server has been constructed. -/
def constructed : Lifecycle where
  loop :=
    ⟨{ started with
        socket := ⟨process.acceptor, .disconnected⟩
        kernel := ⟨process.base, ∅, ∅⟩ }, false, 0, .check, []⟩
  epollEvents := false
  created := false
  named := false
  reactorThread := none
  owner := .idle

/-- **A run**: the server is started and its thread names itself. -/
theorem run_named : ∃ l, (lifecycle process).Run [.start true, .turn, .server none] l ∧
    l.loop = ⟨started, false, 0, .check, []⟩ ∧ l.owner = .idle ∧ l.named = true ∧
    l.reactorThread = some .joinable := by
  have h₀ : (lifecycle process).Run [] constructed :=
    .start ⟨⟨⟨started, false, 0, .check, []⟩, ⟨⟨rfl, rfl, rfl, rfl, rfl⟩, rfl, rfl, rfl, rfl⟩, rfl⟩,
      rfl, rfl, rfl, rfl, rfl⟩
  have h₁ := h₀.snoc (.start true true rfl fun _ => rfl)
  have h₂ := h₁.snoc (.inside rfl)
  have h₃ := h₂.snoc (.setName rfl rfl nofun)
  exact ⟨_, h₃, by rfl, rfl, rfl, rfl⟩

/-- A server whose destructor deletes the buffer under a thread that is in `epoll_wait`, and one
that has been stopped before. -/
theorem reactor_lifecycle_ends :
    (∃ tr l, (lifecycle process).Run tr l ∧ l.loop.pc = .wait 0 ∧ l.epollEvents = false ∧
      phase tr = .running) ∧
    ∃ tr l, (lifecycle process).Run tr l ∧ l.owner = .destroyed false ∧ l.loop.pc = .exited := by
  obtain ⟨⟨loop, epollEvents, created, named, reactorThread, owner⟩, h, hl, hidle, hnamed,
    hthread⟩ := run_named
  simp only at hl hidle hnamed hthread
  subst hl hidle hnamed hthread
  constructor
  · have h₁ := h.snoc (.server (a := .check) rfl nofun trivial (.check rfl))
    have h₂ := h₁.snoc (.destroyListener rfl)
    refine ⟨_, _, h₂, rfl, rfl, ?_⟩
    exact (((reactor_lifecycle h₂).buffer (.inl ⟨0, rfl⟩)).resolve_left nofun).1
  · have h₁ := h.snoc (.stop rfl)
    have h₂ := h₁.snoc (.server (a := .check) rfl nofun trivial (.check rfl))
    have h₃ := h₂.snoc (.inside rfl)
    have h₄ := h₃.snoc (.inside rfl)
    have hexited := ((reactor_lifecycle h₄).stopped rfl).1
    have h₅ := h₄.snoc (.destroyListener rfl)
    have h₆ := h₅.snoc (.inside rfl)
    exact ⟨_, _, h₆, rfl, hexited⟩

end Reactor

end Net

end LowLatency
