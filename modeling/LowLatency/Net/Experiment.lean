import LowLatency.Net.Attendance
import LowLatency.Net.ClientProgram

/-!
# The clients and the server together

The test program `client_automation` run against the thread-per-client server: two processes, each
with its threads and its mutex, and between them a network that delivers what is sent, in order
and after any delay. A connection fails only for a process that has closed its side or lost its
peer; and both processes may open a descriptor for every thread of the clients. What a client does
on its connection is a step of the server's environment: `connect`, `send`, `read`, `leave`; and
the replies of the server's threads are what the client receives.

Two things may end the process of the server (`LowLatency.Net.Experiment.Endangered`): a thread that
looks for its handle in `m_clientThreads` before the acceptor has stored it, behind the end of the
vector; and a reply to a client that has closed its socket, which raises `SIGPIPE` when the server
has been told that the client is gone. From then on nothing is known of what the clients receive.

As long as the server is alive, no client loses its connection while it has messages to send
(`LowLatency.Net.Experiment.experiment_undisturbed`): a client whose message has not been replied to
in full is looked after by the server (`LowLatency.Net.Experiment.Link`).
-/

namespace LowLatency

namespace Net

namespace Experiment

/-! ### The two processes -/

/-- The server, the clients, and what is between them. -/
structure State where
  server : ThreadPerClient.State
  clients : ClientProgram.State
  /-- The number that the server has for the connection of a thread. -/
  connection : ℕ → ℕ
  /-- What has been sent on a connection of the server and not been received by the client. -/
  toClient : ℕ → List UInt8
  /-- The process of the server has not been ended. -/
  alive : Bool

/-- What happens next. -/
inductive Action where
  /-- A step of a thread of the server. -/
  | server (a : ThreadPerClient.Action) : Action
  /-- The process of the server is ended. -/
  | killed : Action
  /-- A step of the clients. -/
  | client (a : ClientProgram.Action) : Action

/-- The step of the clients, if it is one. -/
def Action.ofClients : Action → Option ClientProgram.Action
  | .server _ | .killed => none
  | .client a => some a

/-- **What the clients have done.** -/
def clientActions (tr : List Action) : List ClientProgram.Action := tr.filterMap Action.ofClients

/-- `peerSocket->send(execReport)`, if that is what a thread of the server is at. -/
def replied (s : ThreadPerClient.State) (toClient : ℕ → List UInt8) :
    ThreadPerClient.Action → ℕ → List UInt8
  | .client k =>
    match s.client k with
    | .handle peerSocket (.data _) =>
      Function.update toClient peerSocket (toClient peerSocket ++ Session.execReport)
    | _ => toClient
  | _ => toClient

/-- `m_clientThreads[peerIndex]` is behind the end of the vector, when the thread `k` of the server
is at it. -/
def OutOfBounds (s : ThreadPerClient.State) (k : ℕ) : Prop :=
  s.client k = .setName ∧ s.clientThreads.length ≤ s.peerIndex k

/-- The thread `k` of the server is about to reply to a client that is gone. -/
def BrokenPipe (s : ThreadPerClient.State) (k : ℕ) : Prop :=
  ∃ peerSocket bytes, s.client k = .handle peerSocket (.data bytes) ∧
    (s.replies peerSocket).gone = true

/-- The next step of the thread `k` of the server may end the process. -/
def Endangered (s : ThreadPerClient.State) (k : ℕ) : Prop := OutOfBounds s k ∨ BrokenPipe s k

/-- A step of a thread of the clients that the server does not notice. A socket that has been
marked as disconnected is not closed. -/
def IsLocal : ClientProgram.ThreadAction → Prop
  | .step (.socket fd) => fd ≠ none
  | .step (.connect _) | .step (.receive _) | .step (.resend _) | .step .quit | .step .exit
  | .send _ => False
  | _ => True

/-- What a step of the thread `k` of the clients is for the server and for what is between
them. -/
inductive Exchange (p : Process) (k : ℕ) (s : State) : ClientProgram.ThreadAction → State → Prop
  | connect (server : ThreadPerClient.State) :
      (ThreadPerClient.system p).Step s.server .connect server →
      Exchange p k s (.step (.connect true))
        { s with
          server := server, connection := Function.update s.connection k s.server.connected }
  | send (number : ℕ) (server : ThreadPerClient.State) :
      (ThreadPerClient.system p).Step s.server
        (.send (s.connection k) (Session.message number)) server →
      Exchange p k s (.send number) { s with server := server }
  | resend (message : List UInt8) (server : ThreadPerClient.State) :
      (ThreadPerClient.system p).Step s.server (.send (s.connection k) message) server →
      Exchange p k s (.step (.resend message)) { s with server := server }
  | quit (server : ThreadPerClient.State) :
      (ThreadPerClient.system p).Step s.server (.send (s.connection k) Session.quit) server →
      Exchange p k s (.step .quit) { s with server := server }
  | receive (bytes rest : List UInt8) (server : ThreadPerClient.State) :
      s.toClient (s.connection k) = bytes ++ rest →
      (ThreadPerClient.system p).Step s.server (.read (s.connection k) bytes.length) server →
      Exchange p k s (.step (.receive (.data bytes)))
        { s with server := server, toClient := Function.update s.toClient (s.connection k) rest }
  /-- The server does not have the connection any more. -/
  | lost (read error : ℤ) : ¬s.server.Present (s.connection k) →
      Exchange p k s (.step (.receive (.failed read error))) s
  | exit (server : ThreadPerClient.State) :
      (ThreadPerClient.system p).Step s.server (.leave (s.connection k)) server →
      Exchange p k s (.step .exit) { s with server := server }
  /-- Replies that have not been received are thrown away, and the server is told. -/
  | reset (error : ℤ) (server : ThreadPerClient.State) :
      (ThreadPerClient.system p).Step s.server (.fail (s.connection k) error) server →
      Exchange p k s (.step .exit) { s with server := server }
  | other (b : ClientProgram.ThreadAction) : IsLocal b → Exchange p k s b s

/-- The steps. -/
inductive Step (p : Process) (numberOfClients messageIteration : Int32) :
    State → Action → State → Prop
  | server {s : State} (a : ThreadPerClient.Action) (server : ThreadPerClient.State) :
      s.alive = true → a.IsServer → (∀ k, a = .client k → ¬OutOfBounds s.server k) →
      (ThreadPerClient.system p).Step s.server a server →
      Step p numberOfClients messageIteration s (.server a)
        { s with server := server, toClient := replied s.server s.toClient a }
  | killed {s : State} (k : ℕ) : s.alive = true → Endangered s.server k →
      Step p numberOfClients messageIteration s .killed { s with alive := false }
  | main {s : State} (clients : ClientProgram.State) :
      ClientProgram.MainStep numberOfClients s.clients clients →
      Step p numberOfClients messageIteration s (.client .main) { s with clients := clients }
  | thread {s s' : State} (k : ℕ) (b : ClientProgram.ThreadAction)
      (clients : ClientProgram.State) : s.alive = true → k < s.clients.threads →
      ClientProgram.ThreadStep messageIteration k s.clients b clients → Exchange p k s b s' →
      Step p numberOfClients messageIteration s (.client (.thread k b))
        { s' with clients := clients }
  /-- The clients of a server that is not alive may receive anything. -/
  | alone {s : State} (k : ℕ) (b : ClientProgram.ThreadAction) (clients : ClientProgram.State) :
      s.alive = false → k < s.clients.threads →
      ClientProgram.ThreadStep messageIteration k s.clients b clients →
      Step p numberOfClients messageIteration s (.client (.thread k b))
        { s with clients := clients }

/-- **The experiment**: the server has started, and the two numbers have been entered. For each
connection there is room for a reply. -/
def system (p : Process) (numberOfClients messageIteration : Int32) :
    TransitionSystem State Action where
  Init s := (ThreadPerClient.system p).Init s.server ∧
    (ClientProgram.program numberOfClients messageIteration).Init s.clients ∧
    s.toClient = (fun _ => []) ∧
    p.base.card + numberOfClients.toInt.toNat ≤ 2 ^ 31 ∧
    s.clients.kernel.opened.card + numberOfClients.toInt.toNat ≤ 2 ^ 31 ∧
    s.alive = true ∧ ∀ j, ThreadPerClient.replyLength ≤ s.server.capacity j
  Step := Step p numberOfClients messageIteration

variable {p : Process} {numberOfClients messageIteration : Int32} {s s' : State} {a : Action}
  {tr : List Action} {b : ClientProgram.ThreadAction} {j k x : ℕ} {r : Session.State}

/-- **The clients run their program.** -/
theorem clients_of_run (h : (system p numberOfClients messageIteration).Run tr s) :
    (ClientProgram.program numberOfClients messageIteration).Run (clientActions tr) s.clients := by
  refine h.invariant (I := fun tr s =>
    (ClientProgram.program numberOfClients messageIteration).Run (clientActions tr) s.clients) ?_ ?_
  · rintro s ⟨-, hclients, -⟩
    exact .start hclients
  intro tr s a s' _ ih hs
  rw [clientActions, ClientProgram.filterMap_concat, ← clientActions]
  cases hs with
  | server | killed => rwa [Action.ofClients, Option.toList_none, List.append_nil]
  | main clients hs => exact ih.snoc (.main hs)
  | thread k b clients _ hk hs => exact ih.snoc (.thread k hk hs)
  | alone k b clients _ hk hs => exact ih.snoc (.thread k hk hs)

/-- What the clients do does not end the server. -/
theorem Exchange.alive (hx : Exchange p k s b s') : s'.alive = s.alive := by
  cases hx <;> rfl

/-- **A server that is alive has been so.** -/
theorem alive_of_step (hs : (system p numberOfClients messageIteration).Step s a s')
    (halive : s'.alive = true) : s.alive = true := by
  cases hs with
  | killed => cases halive
  | thread _ _ _ h => exact h
  | server | main | alone => exact halive

/-- The bytes that a reply adds, on another connection and on its own. -/
theorem replied_of_ne {server : ThreadPerClient.State} {toClient : ℕ → List UInt8}
    {a : ThreadPerClient.Action}
    (h : ∀ k chunk, a = .client k → server.client k ≠ .handle x (.data chunk)) :
    replied server toClient a x = toClient x := by
  cases a with
  | client k =>
    cases hk : server.client k with
    | handle y received =>
      cases received with
      | data chunk =>
        simp only [replied, hk]
        refine Function.update_of_ne ?_ ..
        rintro rfl
        exact h k chunk rfl hk
      | failed => simp only [replied, hk]
    | _ => simp only [replied, hk]
  | _ => rfl

theorem replied_self {server : ThreadPerClient.State} {toClient : ℕ → List UInt8}
    {chunk : List UInt8} (h : server.client k = .handle x (.data chunk)) :
    replied server toClient (.client k) x = toClient x ++ Session.execReport := by
  simp only [replied, h, Function.update_self]

/-! ### The link -/

/-- Where a thread may stand that has lost no connection. -/
@[simp] def Unbroken : ClientAutomation.Pc → Bool
  | .socket .first | .connect .first | .iterate | .test | .receive | .handle (.data _) | .quit
  | .done => true
  | _ => false

/-- The thread has connected. -/
@[simp] def HasConnected : ClientAutomation.Pc → Bool
  | .socket _ | .connect _ => false
  | _ => true

/-- The thread has connected, and has not sent `quit`. -/
@[simp] def Uses : ClientAutomation.Pc → Bool
  | .iterate | .test | .receive | .handle _ => true
  | _ => false

/-- The thread is going to receive. -/
@[simp] def Awaits : ClientAutomation.Pc → Bool
  | .test | .receive => true
  | _ => false

theorem hasConnected_of_uses {pc : ClientAutomation.Pc} (h : Uses pc = true) :
    HasConnected pc = true := by
  cases pc <;> first | rfl | cases h

/-- **The server looks after the connection of the thread `k`**, what it has sent and the thread
has not received takes the room that it has for its replies, and if the thread is going to receive,
there is something to receive or to reply to. -/
def LookedAfter (s : State) (k : ℕ) : Prop :=
  ∃ r, ThreadPerClient.Served (s.connection k) r s.server ∧
    (s.server.replies (s.connection k)).outstanding = (s.toClient (s.connection k)).length ∧
    (Awaits (s.clients.client k).pc = true →
      s.toClient (s.connection k) ≠ [] ∨ r.toServer ≠ [])

/-- **The invariant of the two processes.** -/
structure Link (p : Process) (s : State) : Prop where
  inv : ThreadPerClient.Inv p s.server
  unbroken : ∀ k, Unbroken (s.clients.client k).pc = true
  placed : ∀ k, s.clients.place k ≠ .disconnected
  numberDisconnections : s.clients.numberDisconnections = 0
  lookedAfter : ∀ k, Uses (s.clients.client k).pc = true → LookedAfter s k
  /-- The connections of the threads are some of those that the server has had. -/
  numbered : ∀ k, HasConnected (s.clients.client k).pc = true →
    s.connection k < s.server.connected
  apart : ∀ j k, j ≠ k → HasConnected (s.clients.client j).pc = true →
    HasConnected (s.clients.client k).pc = true → s.connection j ≠ s.connection k
  unused : ∀ x, s.server.connected ≤ x → s.toClient x = []

theorem link_init (h : (system p numberOfClients messageIteration).Init s) : Link p s := by
  obtain ⟨hserver, ⟨hclients, hplace, -, -, hnumber, -⟩, htoClient, -⟩ := h
  have hpc : ∀ k, (s.clients.client k).pc = .socket .first := fun k => (hclients k).2.2.1
  refine ⟨⟨ThreadPerClient.threads_init hserver, ThreadPerClient.connections_init hserver,
      ThreadPerClient.backlog_init hserver⟩,
    fun k => ?_, fun k => ?_, hnumber, fun k hk => ?_, fun k hk => ?_, fun j k _ hj => ?_,
    fun x _ => by rw [htoClient]⟩
  · rw [hpc]
    rfl
  · rw [hplace]
    nofun
  · rw [hpc] at hk
    cases hk
  · rw [hpc] at hk
    cases hk
  · rw [hpc] at hj
    cases hj

/-- **A step of the server** keeps the link. -/
theorem Link.server (h : Link p s) {a : ThreadPerClient.Action} {server : ThreadPerClient.State}
    (ha : a.IsServer) (hs : (ThreadPerClient.system p).Step s.server a server) :
    Link p { s with server := server, toClient := replied s.server s.toClient a } := by
  have hconnected : s.server.connected ≤ server.connected :=
    ThreadPerClient.connected_le_step h.inv hs
  refine ⟨h.inv.step hs, h.unbroken, h.placed, h.numberDisconnections, fun k hk => ?_,
    fun k hk => (h.numbered k hk).trans_le hconnected, h.apart, fun x hx => ?_⟩
  swap
  · -- a thread of the server replies to a client that has connected
    refine (replied_of_ne ?_).trans (h.unused x (hconnected.trans hx))
    rintro l chunk - hl
    have hlt := h.inv.lt_connected (k := l) (j := x) (by rw [hl]; rfl)
    exact absurd (hlt.trans_le (hconnected.trans hx)) (lt_irrefl x)
  obtain ⟨r, hserved, hcounted, hawaits⟩ := h.lookedAfter k hk
  rcases hserved.step h.inv hs ha with ⟨l, chunk, rfl, hl, hserved'⟩ | ⟨hno, hserved'⟩
  · have hclient : ThreadPerClient.clientStep l s.server = some server := by
      cases hs with
      | client _ hs => exact hs
    refine ⟨_, hserved', ?_, fun _ => .inl ?_⟩
    all_goals
      dsimp only
      rw [replied_self hl]
    · rw [ThreadPerClient.replies_of_reply h.inv hl hclient, List.length_append, ← hcounted]
      rfl
    · exact List.append_ne_nil_of_right_ne_nil _ (by decide)
  · refine ⟨r, hserved', ?_, fun hw => ?_⟩
    all_goals
      dsimp only
      rw [replied_of_ne hno]
    · rw [ThreadPerClient.replies_eq_step h.inv hs ha hno]
      exact hcounted
    · exact hawaits hw

/-- **A step of the thread `k`** keeps the link, if it leaves the connections of the others as
they are. -/
theorem Link.thread (h : Link p s) (hinv : ThreadPerClient.Inv p s'.server)
    (hothers : ∀ j, j ≠ k → s'.clients.place j = s.clients.place j ∧
      s'.clients.client j = s.clients.client j)
    (hnumber : s'.clients.numberDisconnections = s.clients.numberDisconnections)
    (hconnection : ∀ j, j ≠ k → s'.connection j = s.connection j)
    (hconnected : s.server.connected ≤ s'.server.connected)
    (hserved : ∀ j, j ≠ k → HasConnected (s.clients.client j).pc = true →
      (∀ r, ThreadPerClient.Served (s.connection j) r s.server →
        ThreadPerClient.Served (s.connection j) r s'.server) ∧
      s'.toClient (s.connection j) = s.toClient (s.connection j) ∧
      s'.server.replies (s.connection j) = s.server.replies (s.connection j))
    (hunbroken : Unbroken (s'.clients.client k).pc = true)
    (hplaced : s'.clients.place k ≠ .disconnected)
    (hself : Uses (s'.clients.client k).pc = true → LookedAfter s' k)
    (hnumbered : HasConnected (s'.clients.client k).pc = true →
      s'.connection k < s'.server.connected ∧
      ∀ j, j ≠ k → HasConnected (s.clients.client j).pc = true →
        s.connection j ≠ s'.connection k)
    (hunused : ∀ x, s'.server.connected ≤ x → s'.toClient x = []) : Link p s' := by
  refine ⟨hinv, fun j => ?_, fun j => ?_, hnumber.trans h.numberDisconnections, fun j hj => ?_,
    fun j hj => ?_, fun i j hij hi hj => ?_, hunused⟩
  · rcases eq_or_ne j k with rfl | hne
    · exact hunbroken
    · rw [(hothers j hne).2]
      exact h.unbroken j
  · rcases eq_or_ne j k with rfl | hne
    · exact hplaced
    · rw [(hothers j hne).1]
      exact h.placed j
  · rcases eq_or_ne j k with rfl | hne
    · exact hself hj
    · rw [(hothers j hne).2] at hj
      obtain ⟨r, hr, hcounted, hawaits⟩ := h.lookedAfter j hj
      obtain ⟨hkeep, hto, hreplies⟩ := hserved j hne (hasConnected_of_uses hj)
      rw [LookedAfter, (hothers j hne).2, hconnection j hne, hto, hreplies]
      exact ⟨r, hkeep r hr, hcounted, hawaits⟩
  · rcases eq_or_ne j k with rfl | hne
    · exact (hnumbered hj).1
    · rw [(hothers j hne).2] at hj
      rw [hconnection j hne]
      exact (h.numbered j hj).trans_le hconnected
  · rcases eq_or_ne i k with rfl | hi'
    · rw [(hothers j hij.symm).2] at hj
      rw [hconnection j hij.symm]
      exact ((hnumbered hi).2 j hij.symm hj).symm
    · rw [(hothers i hi').2] at hi
      rw [hconnection i hi']
      rcases eq_or_ne j k with rfl | hj'
      · exact (hnumbered hj).2 i hi' hi
      · rw [(hothers j hj').2] at hj
        rw [hconnection j hj']
        exact h.apart i j hij hi hj

/-- A step of the thread `k` that the server does not notice. -/
theorem Link.unnoticed (h : Link p s) {clients : ClientProgram.State}
    (hothers : ∀ j, j ≠ k → clients.place j = s.clients.place j ∧
      clients.client j = s.clients.client j)
    (hnumber : clients.numberDisconnections = s.clients.numberDisconnections)
    (hunbroken : Unbroken (clients.client k).pc = true)
    (hplaced : clients.place k ≠ .disconnected)
    (huses : Uses (clients.client k).pc = true → Uses (s.clients.client k).pc = true)
    (hawaits : Awaits (clients.client k).pc = true → Awaits (s.clients.client k).pc = true)
    (hhas : HasConnected (clients.client k).pc = true →
      HasConnected (s.clients.client k).pc = true) :
    Link p { s with clients := clients } := by
  refine h.thread h.inv hothers hnumber (fun _ _ => rfl) le_rfl
    (fun _ _ _ => ⟨fun _ hr => hr, rfl, rfl⟩) hunbroken hplaced (fun hk => ?_)
    (fun hk => ⟨h.numbered k (hhas hk), fun j hj hj' => h.apart j k hj hj' (hhas hk)⟩) h.unused
  obtain ⟨r, hr, hcounted, hto⟩ := h.lookedAfter k (huses hk)
  exact ⟨r, hr, hcounted, fun hw => hto (hawaits hw)⟩

@[simp] theorem client_setClient (s : ClientProgram.State) (k : ℕ) (c : ClientAutomation.State)
    (place : ClientProgram.Place) : ((s.setClient k c).goto k place).client k = c :=
  Function.update_self ..

@[simp] theorem place_goto (s : ClientProgram.State) (k : ℕ) (place : ClientProgram.Place) :
    (s.goto k place).place k = place :=
  Function.update_self ..

/-- Where a thread stands, it has lost no connection. -/
theorem Link.pc_of (h : Link p s) {pc : ClientAutomation.Pc} (hpc : (s.clients.view k).pc = pc) :
    Unbroken pc = true :=
  hpc ▸ h.unbroken k

/-- A step outside the critical section that the server does not notice. -/
theorem Link.outside (h : Link p s) {x : ClientAutomation.Action} {c : ClientAutomation.State}
    (hs : ClientProgram.ThreadStep messageIteration k s.clients (.step x)
      ((s.clients.setClient k c).goto k .outside))
    (hunbroken : Unbroken c.pc = true)
    (huses : Uses c.pc = true → Uses (s.clients.view k).pc = true)
    (hawaits : Awaits c.pc = true → Awaits (s.clients.view k).pc = true)
    (hhas : HasConnected c.pc = true → HasConnected (s.clients.view k).pc = true) :
    Link p { s with clients := (s.clients.setClient k c).goto k .outside } := by
  have hframe := hs.frame.2.2
  refine h.unnoticed hframe rfl ?_ ?_ ?_ ?_ ?_
  all_goals simp only [client_setClient, place_goto]
  · exact hunbroken
  · nofun
  · exact huses
  · exact hawaits
  · exact hhas

/-- **The thread sends**, and the server has still to reply. -/
theorem Link.sends (h : Link p s) {b : ClientProgram.ThreadAction} {c : ClientAutomation.State}
    {place : ClientProgram.Place}
    (hs : ClientProgram.ThreadStep messageIteration k s.clients b
      ((s.clients.setClient k c).goto k place)) (hplace : place ≠ .disconnected)
    {server : ThreadPerClient.State} {a : ThreadPerClient.Action}
    (ha : a.IsOf (s.connection k))
    (hserver : (ThreadPerClient.system p).Step s.server a server)
    (hunbroken : Unbroken c.pc = true)
    (hhas : HasConnected (s.clients.view k).pc = true)
    (hself : Uses c.pc = true → Uses (s.clients.view k).pc = true ∧
      server.replies (s.connection k) = s.server.replies (s.connection k) ∧
      ∃ r, ThreadPerClient.Served (s.connection k) r server ∧ r.toServer ≠ []) :
    Link p { s with server := server, clients := (s.clients.setClient k c).goto k place } := by
  have hframe := hs.frame.2.2
  have hconnected := ThreadPerClient.connected_le_step h.inv hserver
  refine h.thread (h.inv.step hserver) hframe rfl (fun _ _ => rfl) hconnected
    (fun j hj hj' => ⟨fun r hr => hr.other h.inv (h.apart k j hj.symm hhas hj') ha hserver, rfl,
      ThreadPerClient.replies_of_isOf hserver ha (h.apart j k hj hj' hhas)⟩)
    ?_ ?_ ?_ ?_ fun x hx => h.unused x (hconnected.trans hx)
  all_goals simp only [client_setClient, place_goto]
  · exact hunbroken
  · exact hplace
  · intro hc
    obtain ⟨huses, hreplies, r, hr, hto⟩ := hself hc
    obtain ⟨-, -, hcounted, -⟩ := h.lookedAfter k huses
    refine ⟨r, hr, ?_, fun _ => .inr hto⟩
    dsimp only
    rw [hreplies]
    exact hcounted
  · exact fun _ => ⟨(h.numbered k hhas).trans_le hconnected, fun j hj hj' =>
      h.apart j k hj hj' hhas⟩

/-- **The thread connects**, and is looked after from then on. -/
theorem Link.connects (h : Link p s) {x : ClientAutomation.Action} {c : ClientAutomation.State}
    (hs : ClientProgram.ThreadStep messageIteration k s.clients (.step x)
      ((s.clients.setClient k c).goto k .outside))
    {server : ThreadPerClient.State}
    (hserver : (ThreadPerClient.system p).Step s.server .connect server)
    (hpc : c.pc = .iterate) :
    Link p
      { s with
        server := server
        connection := Function.update s.connection k s.server.connected
        clients := (s.clients.setClient k c).goto k .outside } := by
  have hframe := hs.frame.2.2
  have hserved := h.inv.served_connect hserver
  refine h.thread (h.inv.step hserver) hframe rfl (fun _ hj => Function.update_of_ne hj ..)
    (ThreadPerClient.connected_le_step h.inv hserver)
    (fun j _ hj => ⟨fun r hr => hr.connect h.inv hserver, rfl, ?_⟩) ?_ ?_ ?_ ?_
    fun x hx => h.unused x ((ThreadPerClient.connected_le_step h.inv hserver).trans hx)
  · cases hserver
    exact Function.update_of_ne (h.numbered j hj).ne ..
  all_goals simp only [client_setClient, place_goto, Function.update_self, hpc]
  · rfl
  · nofun
  · refine fun _ => ⟨Session.start [], ?_, ?_, ?_⟩
    · simpa only [Function.update_self] using hserved
    · cases hserver
      simp only [Function.update_self, h.unused _ le_rfl]
      rfl
    · simp only [client_setClient, hpc]
      nofun
  · exact fun _ => ⟨hserved.lt, fun j _ hj => (h.numbered j hj).ne⟩

/-- **The thread receives** a part of what has been sent to it, and so makes room. -/
theorem Link.receives (h : Link p s) {x : ClientAutomation.Action} {c : ClientAutomation.State}
    (hs : ClientProgram.ThreadStep messageIteration k s.clients (.step x)
      ((s.clients.setClient k c).goto k .outside))
    {bytes rest : List UInt8} {server : ThreadPerClient.State}
    (hto : s.toClient (s.connection k) = bytes ++ rest)
    (hserver : (ThreadPerClient.system p).Step s.server (.read (s.connection k) bytes.length)
      server)
    (hpc : c.pc = .handle (.data bytes)) (huses : Uses (s.clients.view k).pc = true) :
    Link p
      { s with
        server := server
        toClient := Function.update s.toClient (s.connection k) rest
        clients := (s.clients.setClient k c).goto k .outside } := by
  have hframe := hs.frame.2.2
  have hhas := hasConnected_of_uses huses
  have hconnected := ThreadPerClient.connected_eq_step h.inv hserver nofun
  refine h.thread (h.inv.step hserver) hframe rfl (fun _ _ => rfl) hconnected.ge
    (fun j hj hj' => ⟨fun _ hr => hr.read h.inv hserver,
      Function.update_of_ne (h.apart j k hj hj' hhas) .., ?_⟩) ?_ ?_ ?_ ?_ fun x hx => ?_
  · cases hserver
    exact Function.update_of_ne (h.apart j k hj hj' hhas) ..
  all_goals simp only [client_setClient, place_goto, hpc]
  · rfl
  · nofun
  · obtain ⟨r, hr, hcounted, -⟩ := h.lookedAfter k huses
    refine fun _ => ⟨r, hr.read h.inv hserver, ?_, ?_⟩
    · cases hserver
      simp only [Function.update_self]
      rw [hcounted, hto, List.length_append, Nat.add_sub_cancel_left]
    · simp only [client_setClient, hpc]
      nofun
  · exact fun _ => ⟨(h.numbered k hhas).trans_eq hconnected.symm,
      fun j hj hj' => h.apart j k hj hj' hhas⟩
  · replace hx : s.server.connected ≤ x := hconnected ▸ hx
    rw [Function.update_of_ne ((h.numbered k hhas).trans_le hx).ne', h.unused x hx]

/-- A message is sent at the head of the loop, and then the thread is going to receive. -/
theorem pc_of_send {c c' : ClientAutomation.State} {message : List UInt8}
    (hs : (ClientAutomation.system messageIteration).Step c (.send message) c') :
    c.pc = .iterate ∧ c'.pc = .test ∧ c'.i = c.i ∧ c'.res = -1 ∧ c'.kernel = c.kernel := by
  cases hs with
  | send _ hpc => exact ⟨hpc, rfl, rfl, rfl, rfl⟩

/-- **Every step of a thread of the clients** keeps the link. -/
theorem Link.threadStep (h : Link p s) {clients : ClientProgram.State}
    (hs : ClientProgram.ThreadStep messageIteration k s.clients b clients)
    (hx : Exchange p k s b s') : Link p { s' with clients := clients } := by
  have hframe := hs.frame.2.2
  -- the threads are kept apart by the mutex; their connections are as they were
  have hmutex : ∀ {clients : ClientProgram.State},
      (∀ j, j ≠ k → clients.place j = s.clients.place j ∧
        clients.client j = s.clients.client j) →
      clients.client k = s.clients.client k →
      clients.numberDisconnections = s.clients.numberDisconnections →
      clients.place k ≠ .disconnected → Link p { s with clients := clients } := by
    intro clients hframe hclient hnumber hplace
    refine h.unnoticed hframe hnumber ?_ hplace ?_ ?_ ?_
    all_goals rw [hclient]
    · exact h.unbroken k
    all_goals exact id
  have hs' := hs
  cases hs with
  | step x c hplace hout hs =>
    cases hs with
    | socket trial fd hpc hfresh =>
      have hpc' := h.pc_of hpc
      cases hx with
      | other _ hlocal =>
        refine h.outside hs' ?_ ?_ ?_ ?_
        · cases trial with
          | first => rfl
          | again => cases hpc'
        all_goals nofun
    | connect trial established hpc hfd =>
      have hpc' := h.pc_of hpc
      cases hx with
      | connect server hserver =>
        cases trial with
        | first => exact h.connects hs' hserver rfl
        | again => cases hpc'
      | other _ hlocal => exact hlocal.elim
    | send number hpc hlt => exact hout.elim
    | test hpc hres =>
      cases hx with
      | other _ hlocal =>
        refine h.outside hs' rfl ?_ ?_ ?_
        all_goals
          rw [hpc]
          exact id
    | receive received hpc hadm =>
      have huses : Uses (s.clients.view k).pc = true := by rw [hpc]; rfl
      cases hx with
      | receive bytes rest server hto hserver => exact h.receives hs' hto hserver rfl huses
      | lost read error hlost =>
        obtain ⟨r, hr, -⟩ := h.lookedAfter k huses
        exact absurd hr.present hlost
      | other _ hlocal => exact hlocal.elim
    | handle read error hpc => cases h.pc_of hpc
    | close hpc => cases h.pc_of hpc
    | reset hpc => cases h.pc_of hpc
    | resend hpc => cases h.pc_of hpc
    | leaveReply bytes hpc =>
      cases hx with
      | other _ hlocal =>
        refine h.outside hs' rfl ?_ ?_ ?_
        all_goals
          rw [hpc]
          intro hc
          first | rfl | cases hc
    | leave hpc hres =>
      cases hx with
      | other _ hlocal =>
        refine h.outside hs' rfl ?_ ?_ ?_
        all_goals
          rw [hpc]
          exact fun _ => rfl
    | quit hpc hlt =>
      have hhas : HasConnected (s.clients.view k).pc = true := by rw [hpc]; rfl
      cases hx with
      | quit server hserver => exact h.sends hs' nofun (.send _) hserver rfl hhas nofun
      | other _ hlocal => exact hlocal.elim
    | exit hpc =>
      have hhas : HasConnected (s.clients.view k).pc = true := by rw [hpc]; rfl
      cases hx with
      | exit server hserver => exact h.sends hs' nofun .leave hserver rfl hhas nofun
      | reset error server hserver => exact h.sends hs' nofun (.fail error) hserver rfl hhas nofun
      | other _ hlocal => exact hlocal.elim
    | other kernel => exact hout.elim
  | send number c hplace hs =>
    obtain ⟨hpc, hpc', -⟩ := pc_of_send hs
    have huses : Uses (s.clients.view k).pc = true := by rw [hpc]; rfl
    cases hx with
    | send _ server hserver =>
      obtain ⟨r, hr, -⟩ := h.lookedAfter k huses
      refine h.sends hs' nofun (.send _) hserver (by rw [hpc']; rfl) (hasConnected_of_uses huses)
        fun _ => ⟨huses, ?_, _, hr.send h.inv (Session.q_notMem_message number) hserver, ?_⟩
      · cases hserver
        rfl
      exact List.append_ne_nil_of_right_ne_nil _ (by simp [Session.message])
    | other _ hlocal => exact hlocal.elim
  | lock | read | write | format | unlock =>
    cases hx with
    | other _ hlocal =>
      refine hmutex hframe rfl rfl ?_
      simp only [ClientProgram.State.goto, Function.update_self]
      nofun
  | disconnect hplace => exact absurd hplace (h.placed k)

/-- **Every step** keeps the link, but for the end of the server. -/
theorem Link.step (h : Link p s)
    (hs : (system p numberOfClients messageIteration).Step s a s') (halive : s'.alive = true) :
    Link p s' := by
  cases hs with
  | server a server _ ha _ hs => exact h.server ha hs
  | killed => cases halive
  | main clients hs =>
    cases hs <;> exact ⟨h.inv, h.unbroken, h.placed, h.numberDisconnections, h.lookedAfter,
      h.numbered, h.apart, h.unused⟩
  | thread k b clients _ hk hs hx => exact h.threadStep hs hx
  | alone k b clients hdead => exact absurd halive (ne_true_of_eq_false hdead)

theorem link_of_run (h : (system p numberOfClients messageIteration).Run tr s)
    (halive : s.alive = true) : Link p s := by
  refine h.invariant (I := fun _ s => s.alive = true → Link p s) (fun _ hs _ => link_init hs) ?_
    halive
  exact fun _ _ _ _ _ ih hs halive => (ih (alive_of_step hs halive)).step hs halive

/-! ### The replies -/

/-- **The server has the connection of a thread that receives.** -/
theorem Link.receive_data (h : Link p s) (halive : s.alive = true) {read error : ℤ} :
    ¬(system p numberOfClients messageIteration).Step s
      (.client (.thread k (.step (.receive (.failed read error))))) s' := by
  intro hs
  cases hs with
  | alone _ _ _ hdead => exact absurd halive (ne_true_of_eq_false hdead)
  | thread _ _ clients _ hk hs hx =>
    have huses : Uses (s.clients.view k).pc = true := by
      cases hs with
      | step x c hplace hout hs =>
        cases hs with
        | receive received hpc => rw [hpc]; rfl
    cases hx with
    | lost _ _ hlost =>
      obtain ⟨r, hr, -⟩ := h.lookedAfter k huses
      exact hlost hr.present
    | other _ hlocal => exact hlocal

/-- No call of `receive` in a client has failed, or met the end of the stream. -/
theorem receive_data_of_run (h : (system p numberOfClients messageIteration).Run tr s)
    (halive : s.alive = true) (k : ℕ) (read error : ℤ) :
    Action.client (.thread k (.step (.receive (.failed read error)))) ∉ tr := by
  refine h.invariant (I := fun tr s => s.alive = true →
    Action.client (.thread k (.step (.receive (.failed read error)))) ∉ tr)
    (fun _ _ _ => List.not_mem_nil) ?_ halive
  intro tr s a s' hrun ih hs halive hmem
  have hbefore := alive_of_step hs halive
  rcases List.mem_append.mp hmem with hmem | hmem
  · exact ih hbefore hmem
  · obtain rfl := List.mem_singleton.mp hmem
    exact (link_of_run hrun hbefore).receive_data hbefore hs

/-- A thread has met the end of its stream only if it has received so. -/
theorem ends_eq_zero
    (h : ∀ error, Action.client (.thread k (.step (.receive (.failed 0 error)))) ∉ tr) :
    ClientAutomation.ends (ClientProgram.part k (clientActions tr)) = 0 := by
  refine List.countP_eq_zero.mpr fun x hx hend => ?_
  obtain ⟨y, hy, hshows⟩ := List.mem_filterMap.mp hx
  obtain ⟨z, hz, hclient⟩ := List.mem_filterMap.mp hy
  cases z with
  | server | killed => cases hclient
  | client z =>
    obtain rfl := Option.some_inj.mp hclient
    cases z with
    | main => cases hshows
    | thread j b =>
      cases b with
      | step c =>
        obtain rfl := Option.some_inj.mp hshows
        by_cases hj : j = k
        · subst hj
          rw [if_pos rfl] at hend
          cases c with
          | receive received =>
            cases received with
            | data => cases hend
            | failed read error =>
              obtain rfl : read = 0 := by
                by_contra hne
                simp [hne] at hend
              exact h error hz
          | _ => cases hend
        · rw [if_neg hj] at hend
          cases hend
      | send number =>
        obtain rfl := Option.some_inj.mp hshows
        by_cases hj : j = k
        · rw [if_pos hj] at hend
          cases hend
        · rw [if_neg hj] at hend
          cases hend
      | _ => cases hshows

/-- **What is expected of the two processes.** -/
structure Undisturbed (numberOfClients messageIteration : Int32) (tr : List Action) (s : State) :
    Prop where
  /-- No call of `receive` in a client has failed, or met the end of the stream. -/
  unbroken : ∀ k read error,
    Action.client (.thread k (.step (.receive (.failed read error)))) ∉ tr
  /-- No client has gone on to its next message without a reply to the one before. -/
  answered : ∀ k, ClientAutomation.AllAnswered (ClientProgram.part k (clientActions tr))
  /-- The server has the connection of each client that waits for a reply, and no thread is
  about to disconnect it. -/
  retained : ∀ k, (s.clients.client k).pc.inIteration = true →
    s.server.Present (s.connection k) ∧ ThreadPerClient.Retains (s.connection k) s.server
  numberDisconnections : s.clients.numberDisconnections = 0
  /-- When `main` has returned, each client has received once for each of its messages. -/
  returned : s.clients.main = .returned → ∀ k < numberOfClients.toInt.toNat,
    ClientAutomation.replies (ClientProgram.part k (clientActions tr)) =
      messageIteration.toInt.toNat

/-- **The server replies to every message of every client, and loses none of them**, in every
interleaving of the threads of the two processes, as long as it is alive. -/
theorem experiment_undisturbed (h : (system p numberOfClients messageIteration).Run tr s)
    (halive : s.alive = true) : Undisturbed numberOfClients messageIteration tr s := by
  have hlink := link_of_run h halive
  have hclients := clients_of_run h
  have hunbroken := receive_data_of_run h halive
  have hends : ∀ k, ClientAutomation.ends (ClientProgram.part k (clientActions tr)) = 0 :=
    fun k => ends_eq_zero fun error => hunbroken k 0 error
  have hparts := (ClientProgram.parts_of_run hclients).run
  refine ⟨hunbroken, fun k => ?_, fun k hk => ?_, hlink.numberDisconnections,
    fun hreturned k hk => ?_⟩
  · exact (ClientAutomation.skips_of_run (hparts k)).allAnswered (hends k)
  · have huses : Uses (s.clients.client k).pc = true := by
      have hpc := hlink.unbroken k
      cases hcase : (s.clients.client k).pc with
      | socket trial | connect trial =>
        rw [hcase] at hk hpc
        cases trial with
        | first => cases hk
        | again => cases hpc
      | close | reset | resend =>
        rw [hcase] at hpc
        cases hpc
      | iterate | quit | done =>
        rw [hcase] at hk
        cases hk
      | _ => rfl
    obtain ⟨r, hr, -⟩ := hlink.lookedAfter k huses
    exact ⟨hr.present, hr.retains⟩
  · have hmain := ClientProgram.mainInv_of_run hclients
    have hthreads := hmain.created (by rw [hreturned]; nofun)
    have hdone : (s.clients.view k).pc = .done :=
      (hmain.joined k (by rw [ClientProgram.State.joined, hreturned]; exact hthreads ▸ hk)).1
    have hall := (ClientProgram.sent_of_run (hparts k)).all (by rw [hdone]; rfl)
    have hcount := ClientAutomation.iterations_eq (hparts k)
    rw [hends k, ClientAutomation.State.ending, hdone, hall] at hcount
    simpa using hcount.symm

/-! ### A run -/

/-- The server has started, and one client with one message has been entered. -/
def entered : State :=
  ⟨ThreadPerClient.started, ClientProgram.entered, fun _ => 0, fun _ => [], true⟩

/-- The client connects and sends its message. -/
theorem run_entered : ∃ tr s, (system ThreadPerClient.process 1 1).Run tr s ∧ s.alive = true ∧
    ClientProgram.numbersOf 0 (clientActions tr) = [1] ∧
    (s.clients.client 0).pc.inIteration = true ∧ s.connection 0 = 0 ∧
    (s.server.stream 0).inbox = Session.message 1 := by
  have h₀ : (system ThreadPerClient.process 1 1).Run [] entered :=
    .start ⟨⟨rfl, rfl, rfl, rfl, rfl, rfl, fun _ => rfl, rfl, rfl, rfl, rfl, by decide⟩,
      ⟨fun _ => ⟨rfl, rfl, rfl, Finset.mem_insert_self 0 _, rfl⟩, rfl, rfl, rfl, rfl, rfl, rfl⟩,
      rfl, by decide, by decide, rfl, fun _ => le_rfl⟩
  have h₁ := h₀.snoc (.main _ (.create rfl (by decide)))
  have h₂ := h₁.snoc (.thread 0 _ _ rfl (by decide) (.step (.socket (some 3)) _ rfl trivial
    (.socket .first (some 3) rfl (by
      rintro x ⟨⟩
      exact ⟨by decide, by decide, by decide⟩))) (.other _ nofun))
  have h₃ := h₂.snoc (.thread 0 _ _ rfl (by decide) (.step (.connect true) _ rfl trivial
    (.connect .first true rfl (by decide))) (.connect _ (.connect (by decide))))
  have h₄ := h₃.snoc (.thread 0 _ _ rfl (by decide) (.lock rfl rfl (by decide) rfl)
    (.other _ trivial))
  have h₅ := h₄.snoc (.thread 0 _ _ rfl (by decide) (.read rfl) (.other _ trivial))
  have h₆ := h₅.snoc (.thread 0 _ _ rfl (by decide) (.write 0 rfl (by decide)) (.other _ trivial))
  have h₇ := h₆.snoc (.thread 0 _ _ rfl (by decide) (.format rfl) (.other _ trivial))
  have h₈ := h₇.snoc (.thread 0 _ _ rfl (by decide) (.send 1 _ rfl (.send 1 rfl (by decide)))
    (.send 1 _ (.send 0 _ (by decide) rfl)))
  exact ⟨_, _, h₈, rfl, rfl, rfl, rfl, rfl⟩

/-- While the first message is on its way, the server has the connection. -/
theorem experiment_undisturbed_first : ∃ tr s, (system ThreadPerClient.process 1 1).Run tr s ∧
    Undisturbed 1 1 tr s ∧ (s.server.stream 0).inbox = Session.message 1 ∧
    s.server.Present 0 := by
  obtain ⟨tr, s, h, halive, -, hin, hconnection, hinbox⟩ := run_entered
  have hundisturbed := experiment_undisturbed h halive
  exact ⟨tr, s, h, hundisturbed, hinbox, hconnection ▸ (hundisturbed.retained 0 hin).1⟩

end Experiment

end Net

end LowLatency
