import LowLatency.Net.ThreadPerClientInvariant

/-!
# What the threads can do by themselves

The threads of the server can go on without anything happening from outside
(`LowLatency.Net.ThreadPerClient.Continues`), and they can do so without looking for a handle
that has still to be stored (`LowLatency.Net.ThreadPerClient.Proceeds`). This file follows a
connected client along such steps: it stays connected, and what is received from it is what
it has sent, until its thread decides to disconnect it
(`LowLatency.Net.ThreadPerClient.keeps_step`). It shows that the lock can be released, unless
the thread that holds it waits in `receive` for a client with nothing to say
(`LowLatency.Net.ThreadPerClient.frees_of_not_waits`). And it keeps account of the room that
the kernel has for the replies to a client that does not read them meanwhile: every chunk but
the last costs a reply (`LowLatency.Net.ThreadPerClient.hasRoom_of_continues`).
-/

namespace LowLatency

namespace Net

namespace ThreadPerClient

open TcpServer (Slot Connected Aligned)

variable {p : Process} {s s₁ s₂ s' : State} {tr tr' : List Action} {a : Action} {i j k : ℕ}
  {sock : Socket}

/-! ### Going on without the clients -/

/-- The threads of the server can go on from `s` to `s'` by themselves. -/
def Continues (p : Process) (s : State) (tr : List Action) (s' : State) : Prop :=
  (system p).Steps s tr s' ∧ ∀ a ∈ tr, a.IsServer

/-- A step of the server in which no thread looks for a handle that has still to be stored. -/
def Unhurried (s : State) (a : Action) : Prop :=
  a.IsServer ∧ ∀ k, a = .client k → s.client k = .setName → s.peerSocketsLock = none

theorem Unhurried.acceptor : Unhurried s .acceptor := ⟨trivial, by rintro _ ⟨⟩⟩

theorem Unhurried.accept {accepted : Option Descriptor} : Unhurried s (.accept accepted) :=
  ⟨trivial, by rintro _ ⟨⟩⟩

theorem Unhurried.receive {x : ℕ} {r : Received} : Unhurried s (.receive k x r) :=
  ⟨trivial, by rintro _ ⟨⟩⟩

theorem Unhurried.client (h : s.client k = .setName → s.peerSocketsLock = none) :
    Unhurried s (.client k) :=
  ⟨trivial, by rintro _ ⟨⟩; exact h⟩

/-- **The threads can proceed** from `s` to `s'` by such steps. -/
def Proceeds (p : Process) (s : State) (tr : List Action) (s' : State) : Prop :=
  ((system p).restrict Unhurried).Steps s tr s'

theorem Proceeds.refl (s : State) : Proceeds p s [] s := TransitionSystem.Steps.refl s

theorem Proceeds.single (hs : (system p).Step s a s') (ha : Unhurried s a) :
    Proceeds p s [a] s' :=
  TransitionSystem.Steps.single ⟨hs, ha⟩

theorem Proceeds.trans (h : Proceeds p s tr s₁) (h' : Proceeds p s₁ tr' s') :
    Proceeds p s (tr ++ tr') s' :=
  TransitionSystem.Steps.trans h h'

theorem Proceeds.continues (h : Proceeds p s tr s') : Continues p s tr s' := by
  induction h with
  | refl s => exact ⟨.refl s, nofun⟩
  | head hs _ ih => exact ⟨.head hs.1 ih.1, List.forall_mem_cons.mpr ⟨hs.2.1, ih.2⟩⟩

/-- The bytes received from the client `j`. -/
def received (j : ℕ) : List Action → List UInt8
  | [] => []
  | .receive _ peerSocket (.data bytes) :: tr =>
    if peerSocket = j then bytes ++ received j tr else received j tr
  | _ :: tr => received j tr

/-- The chunks received from the client `j`. -/
def chunks (j : ℕ) : List Action → List (List UInt8)
  | [] => []
  | .receive _ peerSocket (.data bytes) :: tr =>
    if peerSocket = j then bytes :: chunks j tr else chunks j tr
  | _ :: tr => chunks j tr

theorem flatten_chunks (j : ℕ) (tr : List Action) : (chunks j tr).flatten = received j tr := by
  induction tr with
  | nil => rfl
  | cons a tr ih =>
    rcases a with _ | _ | _ | _ | _ | _ | ⟨k, x, bytes | ⟨read, error⟩⟩ | _ | _ | _
    all_goals try exact ih
    simp only [chunks, received]
    split_ifs
    · rw [List.flatten_cons, ih]
    · exact ih

/-- The chunks a step receives from the client `j`. -/
theorem chunks_cons (j : ℕ) (a : Action) (tr : List Action) :
    chunks j (a :: tr) = chunks j [a] ++ chunks j tr := by
  rcases a with _ | _ | _ | _ | _ | _ | ⟨k, x, bytes | ⟨read, error⟩⟩ | _ | _ | _
  all_goals try rfl
  simp only [chunks]
  split_ifs <;> rfl

theorem chunks_append (j : ℕ) (tr tr' : List Action) :
    chunks j (tr ++ tr') = chunks j tr ++ chunks j tr' := by
  induction tr with
  | nil => rfl
  | cons a tr ih =>
    rw [List.cons_append, chunks_cons, chunks_cons j a tr, ih, List.append_assoc]

theorem received_cons (j : ℕ) (a : Action) (tr : List Action) :
    received j (a :: tr) = received j [a] ++ received j tr := by
  simp only [← flatten_chunks]
  rw [chunks_cons, List.flatten_append]

theorem received_append (j : ℕ) (tr tr' : List Action) :
    received j (tr ++ tr') = received j tr ++ received j tr' := by
  simp only [← flatten_chunks, chunks_append, List.flatten_append]

/-- Only a `receive` receives. -/
theorem chunks_of_ne (hr : ∀ k x r, a ≠ .receive k x r) : chunks j [a] = [] := by
  rcases a with _ | _ | _ | _ | _ | _ | ⟨k, x, r⟩ | _ | _ | _
  all_goals try rfl
  exact absurd rfl (hr k x r)

/-- The bytes a client has sent and the server has not read. -/
def State.unread (s : State) (sock : Socket) : List UInt8 :=
  (s.stream (s.connection sock.socketDescriptor)).inbox

/-- No thread is about to disconnect the client in the slot `i`. -/
def Attended (s : State) (i : ℕ) : Prop :=
  ∀ k, (s.client k).live = true → s.peerIndex k = i → (s.client k).leaves = false

/-- A thread waits in `receive` for a client that has nothing to say, with the lock held. -/
def Waits (s : State) (k : ℕ) (sock : Socket) : Prop :=
  ∃ x, s.client k = .receive x ∧ s.deref k x = some sock ∧
    (s.stream (s.connection sock.socketDescriptor)).Quiet

/-- **The connections are counted** when they are made. -/
theorem connected_eq_step (hinv : Inv p s) (hs : (system p).Step s a s') (ha : a ≠ .connect) :
    s'.connected = s.connected := by
  cases hs with
  | connect => exact absurd rfl ha
  | send | close | fail | receive | read | leave => rfl
  | accept accepted hpc hpending =>
    rcases accept_cases hinv.connections hpending with ⟨kernel, -, heq, -⟩ |
      ⟨fd, j, pending, kernel, -, -, heq, -⟩
    all_goals rw [heq]
  | acceptor hs =>
    rcases acceptorStep_cases hinv.threads.running hs with - | - | - | - | - | -
    all_goals rfl
  | client k hs =>
    rcases clientStep_cases hinv.threads.running hs with - | - | - | - | - | -
    all_goals rfl

theorem connected_of_continues (h : Inv p s) (hs : (system p).Steps s tr s')
    (hserver : ∀ a ∈ tr, a.IsServer) : s'.connected = s.connected := by
  induction hs with
  | refl s => rfl
  | head hstep _ ih =>
    refine (ih (h.step hstep) fun a ha => hserver a (List.mem_cons_of_mem _ ha)).trans
      (connected_eq_step h hstep ?_)
    rintro rfl
    exact hserver _ List.mem_cons_self

/-! ### Steps that keep a client -/

/-- From `s` to `s'` the client in the slot `i` stays connected and attended, and what
has been received from it is what is no longer unread. -/
structure Keeps (p : Process) (i : ℕ) (sock : Socket) (s : State) (tr : List Action)
    (s' : State) : Prop where
  connected : s'.server.Connected i sock
  attended : Attended s' i
  connection : s'.connection sock.socketDescriptor = s.connection sock.socketDescriptor
  unread : received (s.connection sock.socketDescriptor) tr ++ s'.unread sock = s.unread sock

theorem Keeps.refl (hi : s.server.Connected i sock) (hatt : Attended s i) :
    Keeps p i sock s [] s :=
  ⟨hi, hatt, rfl, rfl⟩

theorem Keeps.trans (h : Keeps p i sock s tr s₁) (h' : Keeps p i sock s₁ tr' s') :
    Keeps p i sock s (tr ++ tr') s' := by
  refine ⟨h'.connected, h'.attended, h'.connection.trans h.connection, ?_⟩
  have hunread := h'.unread
  rw [h.connection] at hunread
  rw [received_append, List.append_assoc, hunread, h.unread]

/-- The client is kept by a step that receives nothing from it and leaves it in place. -/
theorem Keeps.of_quiet (hi : s'.server.Connected i sock) (hatt : Attended s' i)
    (hconnection : s'.connection sock.socketDescriptor = s.connection sock.socketDescriptor)
    (hstream : s'.stream = s.stream)
    (hrec : received (s.connection sock.socketDescriptor) [a] = []) :
    Keeps p i sock s [a] s' := by
  refine ⟨hi, hatt, hconnection, ?_⟩
  rw [hrec, List.nil_append, State.unread, State.unread, hconnection, hstream]

/-- A client stays attended while its thread does not decide to disconnect it. -/
theorem Attended.goto (hatt : Attended s i) {pc : ClientPc}
    (hleaves : s.peerIndex k = i → pc.live = true → pc.leaves = false) :
    Attended (s.goto k pc) i := by
  intro k' hlive hk'
  rcases eq_or_ne k' k with rfl | hne
  · rw [State.goto_client_self] at hlive ⊢
    exact hleaves hk' hlive
  · rw [State.goto_client_of_ne s hne] at hlive ⊢
    exact hatt k' hlive hk'

/-- The connection a thread points to is that of the peer in its slot. -/
theorem Inv.deref (h : Inv p s) {x : ℕ} (hx : (s.client k).pointer = some x) :
    ∃ sock, s.server.Connected (s.peerIndex k) sock ∧ s.deref k x = some sock ∧
      s.connection sock.socketDescriptor = x := by
  obtain ⟨sock, hk⟩ := h.threads.exists_connected (ClientPc.live_of_pointer hx)
  have hslot : s.peerSocket (s.peerIndex k) = x := (h.threads.pointer k x hx).symm
  exact ⟨sock, hk, by rw [State.deref, if_pos hslot, hk.2],
    (h.connections.peerSocket _ sock hk).symm.trans hslot⟩

/-- What a thread finds through its pointer is the peer in its slot. -/
theorem Inv.of_deref (h : Inv p s) {x : ℕ} (hx : (s.client k).pointer = some x)
    (hderef : s.deref k x = some sock) :
    s.server.Connected (s.peerIndex k) sock ∧ s.connection sock.socketDescriptor = x := by
  obtain ⟨sock', hk, hderef', hconnection⟩ := h.deref hx
  obtain rfl : sock' = sock := Option.some_inj.mp (hderef'.symm.trans hderef)
  exact ⟨hk, hconnection⟩

/-- **No two live threads have the same connection in their slots.** -/
theorem Inv.eq_of_connection (h : Inv p s) {l : ℕ} (hk : (s.client k).live = true)
    (hl : (s.client l).live = true)
    (heq : s.peerSocket (s.peerIndex k) = s.peerSocket (s.peerIndex l)) : k = l := by
  obtain ⟨sock, hi⟩ := h.threads.exists_connected hk
  obtain ⟨sock', hi'⟩ := h.threads.exists_connected hl
  obtain ⟨-, -, hopen, hbase⟩ := h.connections.peers.peer _ sock hi
  obtain ⟨-, -, hopen', hbase'⟩ := h.connections.peers.peer _ sock' hi'
  rw [h.connections.peerSocket _ sock hi, h.connections.peerSocket _ sock' hi'] at heq
  have hfd := h.connections.distinct _ hopen _ hopen' hbase hbase' heq
  have hslot := h.connections.peers.distinct _ _ sock sock' hi hi' hfd
  have howned := State.owned_client hk
  rw [hslot] at howned
  obtain ⟨⟩ := h.threads.owned.unique _ _ _ howned (State.owned_client hl)
  rfl

/-- A client with a thread that points to its connection has been accepted. -/
theorem Inv.lt_connected (h : Inv p s) (hk : (s.client k).pointer = some j) : j < s.connected := by
  obtain ⟨sock, hi, -, rfl⟩ := h.deref hk
  obtain ⟨-, -, hopen, hbase⟩ := h.connections.peers.peer _ sock hi
  exact (h.connections.accepted _ hopen hbase).1

/-- **No two threads point to the same connection.** -/
theorem Inv.eq_of_pointer (h : Inv p s) {l : ℕ} (hk : (s.client k).pointer = some j)
    (hl : (s.client l).pointer = some j) : k = l := by
  refine h.eq_of_connection (ClientPc.live_of_pointer hk) (ClientPc.live_of_pointer hl) ?_
  rw [← h.threads.pointer k j hk, ← h.threads.pointer l j hl]

/-- A thread moves on with the same chunk, or none. -/
theorem chunk_goto {pc : ClientPc} (hpc : pc.chunk j = (s.client k).chunk j) (l : ℕ) :
    ((s.goto k pc).client l).chunk j = (s.client l).chunk j := by
  rcases eq_or_ne l k with rfl | hne
  · rw [State.goto_client_self, hpc]
  · rw [State.goto_client_of_ne s hne]

/-- **The reply of a thread**, once there is room for it: it goes on to disconnect its client if the
chunk is `quit`, and to the next chunk otherwise. -/
theorem Inv.clientStep_reply (h : Inv p s) {chunk : List UInt8}
    (hk : s.client k = .handle j (.data chunk)) :
    ThreadPerClient.clientStep k s = some s' ↔ s.full j = false ∧
      (s.goto k (if isQuit chunk then .lockRemove else .check)).reply j = s' := by
  obtain ⟨sock, -, hderef, rfl⟩ := h.deref (k := k) (x := j) (by rw [hk]; rfl)
  simp only [ThreadPerClient.clientStep, hk, hderef, Option.bind_some, Option.map_eq_some_iff,
    State.send_eq_some]
  constructor
  · rintro ⟨t, ⟨hfull, rfl⟩, rfl⟩
    exact ⟨hfull, rfl⟩
  · rintro ⟨hfull, rfl⟩
    exact ⟨_, ⟨hfull, rfl⟩, rfl⟩

/-- **A step of the acceptor** keeps every client. -/
theorem keeps_acceptorStep (h : Inv p s) (hi : s.server.Connected i sock)
    (hatt : Attended s i) (hs : acceptorStep s = some s') : Keeps p i sock s [.acceptor] s' := by
  rcases acceptorStep_cases h.threads.running hs with - | - |
    ⟨peer, r, server, closed, hpc, hadd⟩ | ⟨r, -⟩ | - | -
  · exact .of_quiet hi hatt rfl rfl rfl
  · exact .of_quiet hi hatt rfl rfl rfl
  · -- the slot was not in use, so it is not the client's
    obtain ⟨-, -, hconnected, -⟩ := h.connections.addPeer hpc hadd
    exact .of_quiet ((hconnected i sock).mpr (.inr hi)) hatt rfl rfl rfl
  · refine .of_quiet hi (fun k hlive hk => ?_) rfl rfl rfl
    rcases eq_or_ne k s.started with rfl | hne
    · -- a new thread disconnects nobody
      simp [State.goto]
    · replace hlive : (s.client k).live = true := by
        simpa only [State.goto, Function.update_of_ne hne] using hlive
      replace hk : s.peerIndex k = i := by simpa only [Function.update_of_ne hne] using hk
      simpa only [State.goto, Function.update_of_ne hne] using hatt k hlive hk
  · exact .of_quiet hi hatt rfl rfl rfl
  · exact .of_quiet hi hatt rfl rfl rfl

/-- **A step of a client's thread** keeps every client that is attended. -/
theorem keeps_clientStep (h : Inv p s) (hi : s.server.Connected i sock)
    (hatt : Attended s i) (hs : clientStep k s = some s') : Keeps p i sock s [.client k] s' := by
  have hleaves : ∀ {pc}, MovesOn s k pc → SameMind (s.client k) pc →
      s.peerIndex k = i → pc.live = true → pc.leaves = false := by
    intro pc hpc hmind hk hlive
    rw [hmind.leaves]
    exact hatt k (hpc.live ▸ hlive) hk
  -- a thread that disconnects its client is not that of the slot `i`
  have hother : (s.client k).live = true → (s.client k).leaves = true → i ≠ s.peerIndex k := by
    rintro hlive hgone rfl
    rw [hatt k hlive rfl] at hgone
    cases hgone
  rcases clientStep_cases h.threads.running hs with ⟨pc, hpc, hmind, -, -⟩ |
    ⟨pc, hpc, hmind, -, -⟩ | ⟨pc, hpc, hmind, -, -⟩ | ⟨x, read, error, y, hpc, hlost, hy⟩ |
    ⟨server, closed, hpc, hremove⟩ | ⟨pc, _, _, _, hpc, hmind, -, -, -, -⟩
  iterate 3
    exact .of_quiet hi (hatt.goto (hleaves hpc hmind)) rfl rfl rfl
  · have hne := hother (by rw [hpc]; rfl) (by rw [hpc]; exact hlost)
    obtain ⟨hk, -⟩ := h.of_deref (by rw [hpc]; rfl) hy
    obtain ⟨-, hslots⟩ := TcpServer.slot_setPeerSocket h.connections.peers.aligned hk
      { y with state := .disconnected }
    exact .of_quiet ((hslots i true sock).mpr (.inr ⟨hne, hi⟩))
      (hatt.goto fun hk' => absurd hk'.symm hne) rfl rfl rfl
  · have hne := hother (by rw [hpc]; rfl) (by rw [hpc]; rfl)
    obtain ⟨y, hk⟩ := h.threads.exists_connected (k := k) (by rw [hpc]; rfl)
    obtain ⟨hconnected, -⟩ := h.connections.remove k .unlockRemove hk hremove
    exact .of_quiet ((hconnected i sock).mpr ⟨hne, hi⟩)
      (hatt.goto fun hk' => absurd hk'.symm hne) rfl rfl rfl
  · exact .of_quiet hi (hatt.goto (hleaves hpc hmind)) rfl rfl rfl

/-- What a `receive` returns has been taken from the stream. -/
theorem Stream.Receives.inbox {st st' : Stream} {blocking : Prop} {r : Received} {x : ℕ}
    (h : st.Receives blocking r st') : received x [.receive k x r] ++ st'.inbox = st.inbox := by
  rcases h with ⟨bytes, rest, -, -, hinbox⟩ | _ | _ | _
  · rw [received, if_pos rfl, received, List.append_nil, hinbox]
  all_goals rfl

/-- **A `receive`** keeps every client it does not decide to disconnect. -/
theorem keeps_receive (h : Inv p s) (hi : s.server.Connected i sock) (hatt : Attended s i)
    {x : ℕ} {r : Received} (hr : s.peerIndex k = i → leaving r = false)
    (hs : (system p).Step s (.receive k x r) s') : Keeps p i sock s [.receive k x r] s' := by
  rcases hs with _ | _ | _ | _ | _ | _ | ⟨_, _, y, _, st, hpc, hderef, hst⟩
  obtain ⟨-, hconnection⟩ := h.of_deref (by rw [hpc]; rfl) hderef
  refine ⟨hi, hatt.goto fun hk' _ => hr hk', rfl, ?_⟩
  by_cases heq : s.connection sock.socketDescriptor = x
  · -- it receives from this client
    rw [heq, State.unread, State.unread, heq]
    rw [hconnection] at hst
    show _ ++ (Function.update s.stream (s.connection y.socketDescriptor) st
      (s.connection sock.socketDescriptor)).inbox = _
    rw [heq, hconnection, Function.update_self]
    exact hst.inbox
  · have hnone : received (s.connection sock.socketDescriptor) [.receive k x r] = [] := by
      rcases r with bytes | ⟨read, error⟩
      · exact if_neg (Ne.symm heq)
      · rfl
    rw [hnone, List.nil_append, State.unread, State.unread]
    show (Function.update s.stream (s.connection y.socketDescriptor) st
      (s.connection sock.socketDescriptor)).inbox = _
    rw [hconnection, Function.update_of_ne heq]

/-- **A step of the server** keeps every client that it does not decide to disconnect. -/
theorem keeps_step (h : Inv p s) (hi : s.server.Connected i sock) (hatt : Attended s i)
    (hs : (system p).Step s a s') (ha : a.IsServer)
    (hr : ∀ k x r, a = .receive k x r → s.peerIndex k = i → leaving r = false) :
    Keeps p i sock s [a] s' := by
  rcases a with _ | ⟨j, bytes⟩ | j | ⟨j, error⟩ | accepted | _ | ⟨k, x, r⟩ | k | ⟨j, n⟩ | j
  · exact ha.elim
  · exact ha.elim
  · exact ha.elim
  · exact ha.elim
  · rcases hs with _ | _ | _ | _ | ⟨_, hpc, hpending⟩
    rcases accept_cases h.connections hpending with ⟨kernel, -, heq, -, -⟩ |
      ⟨fd, j, pending, kernel, rfl, -, heq, -, -⟩
    · rw [heq]
      exact .of_quiet hi hatt rfl rfl rfl
    · -- the descriptor handed out is not one that is open
      have hne : sock.socketDescriptor ≠ fd := by
        rintro rfl
        exact (hpending _ rfl).1.2.2 (h.connections.peers.peer i sock hi).2.2.1
      rw [heq]
      exact .of_quiet hi hatt (Function.update_of_ne hne ..) rfl rfl
  · rcases hs with _ | _ | _ | _ | _ | hs
    exact keeps_acceptorStep h hi hatt hs
  · exact keeps_receive h hi hatt (hr k x r rfl) hs
  · rcases hs with _ | _ | _ | _ | _ | _ | _ | ⟨_, hs⟩
    exact keeps_clientStep h hi hatt hs
  · exact ha.elim
  · exact ha.elim

/-! ### The lock is released -/

/-- The threads can go on until the lock is free, in a state with the property `Q`; nothing is
received meanwhile, and all clients that are attended are kept. -/
def Releases (p : Process) (Q : State → Prop) (s : State) : Prop :=
  ∃ tr s', Proceeds p s tr s' ∧ Inv p s' ∧ s'.peerSocketsLock = none ∧
    s'.pending = s.pending ∧ Q s' ∧ (∀ x, chunks x tr = []) ∧
    ∀ i sock, s.server.Connected i sock → Attended s i → Keeps p i sock s tr s'

variable {Q : State → Prop}

theorem Releases.of_free (h : Inv p s) (hfree : s.peerSocketsLock = none) (hQ : Q s) :
    Releases p Q s :=
  ⟨[], s, .refl s, h, hfree, rfl, hQ, fun _ => rfl, fun _ _ hi hatt => .refl hi hatt⟩

/-- A first step, which receives nothing, and then the lock is released. -/
theorem Releases.head (h : Inv p s) (hs : (system p).Step s a s₁) (ha : Unhurried s a)
    (hr : ∀ k x r, a ≠ .receive k x r) (hpending : s₁.pending = s.pending)
    (hreleases : Inv p s₁ → Releases p Q s₁) : Releases p Q s := by
  obtain ⟨tr, s', hproceeds, hinv, hfree, hpending', hQ, hnone, hkeeps⟩ :=
    hreleases (h.step hs)
  refine ⟨[a] ++ tr, s', (Proceeds.single hs ha).trans hproceeds, hinv, hfree,
    hpending'.trans hpending, hQ, fun x => ?_, fun i sock hi hatt => ?_⟩
  · rw [chunks_append, hnone, chunks_of_ne hr, List.append_nil]
  · have hkeep : Keeps p i sock s [a] s₁ :=
      keeps_step h hi hatt hs ha.1 fun k x r heq => absurd heq (hr k x r)
    exact hkeep.trans (hkeeps i sock hkeep.connected hkeep.attended)

/-- A step of the acceptor, and then the lock is released. -/
theorem Releases.acceptor (h : Inv p s) (hs : acceptorStep s = some s₁)
    (hpending : s₁.pending = s.pending) (hreleases : Inv p s₁ → Releases p Q s₁) :
    Releases p Q s :=
  .head h (.acceptor hs) .acceptor nofun hpending hreleases

/-- A step of a client's thread, and then the lock is released. -/
theorem Releases.client (h : Inv p s) (hs : clientStep k s = some s₁)
    (hpc : s.client k ≠ .setName) (hpending : s₁.pending = s.pending)
    (hreleases : Inv p s₁ → Releases p Q s₁) : Releases p Q s :=
  .head h (.client k hs) (.client fun hc => absurd hc hpc) nofun hpending hreleases

/-- The acceptor at the end of its section. -/
theorem releases_of_unlock (h : Inv p s) (hpc : s.acceptor = .unlock) :
    Releases p (·.acceptor = .check) s := by
  have hs : acceptorStep s = some { s with peerSocketsLock := none, acceptor := .check } := by
    rw [acceptorStep, hpc]
  exact .acceptor h hs rfl fun h₁ => .of_free h₁ rfl rfl

theorem releases_of_emplaceBack {n : ℕ} (h : Inv p s) (hpc : s.acceptor = .emplaceBack n) :
    Releases p (·.acceptor = .check) s := by
  have hs : acceptorStep s =
      some { s with clientThreads := s.clientThreads ++ [n], acceptor := .unlock } := by
    rw [acceptorStep, hpc]
  exact .acceptor h hs rfl fun h₁ => releases_of_unlock h₁ rfl

theorem releases_of_newThread {r : ℕ} (h : Inv p s) (hpc : s.acceptor = .newThread r) :
    Releases p (·.acceptor = .check) s := by
  have hs : acceptorStep s = some
      { s.goto s.started .setName with
        peerIndex := Function.update s.peerIndex s.started r, started := s.started + 1,
        acceptor := .emplaceBack s.started } := by
    rw [acceptorStep, hpc]
  exact .acceptor h hs rfl fun h₁ => releases_of_emplaceBack h₁ rfl

/-- What `addPeer` leads to. -/
theorem acceptorStep_addPeer (h : Inv p s) {peer : Socket} (hpc : s.acceptor = .addPeer peer) :
    ∃ r s₁, acceptorStep s = some s₁ ∧ s₁.acceptor = .newThread r ∧ s₁.pending = s.pending ∧
      s₁.connection = s.connection ∧ s₁.server.Connected r peer := by
  rcases hadd : s.server.addPeer peer with ⟨r, server, closed⟩
  obtain ⟨-, -, hconnected, -⟩ := h.connections.addPeer hpc hadd
  refine ⟨r,
    { s with
      server := server
      peerSocket := Function.update s.peerSocket r (s.connection peer.socketDescriptor)
      kernel := s.kernel.closeAny closed
      acceptor := .newThread r },
    ?_, rfl, rfl, rfl, (hconnected r peer).mpr (.inl ⟨rfl, rfl⟩)⟩
  rw [acceptorStep, hpc]
  simp only [hadd]

/-- **The acceptor releases the lock**, and is back at the head of its loop. -/
theorem releases_of_acceptor (h : Inv p s) (hholds : s.acceptor.holds = true) :
    Releases p (·.acceptor = .check) s := by
  rcases hpc : s.acceptor with _ | _ | peer | peer | r | n | _ | _
  · rw [hpc] at hholds
    cases hholds
  · rw [hpc] at hholds
    cases hholds
  · rw [hpc] at hholds
    cases hholds
  · obtain ⟨r, s₁, hs, hpc₁, hpending, -, -⟩ := acceptorStep_addPeer h hpc
    exact .acceptor h hs hpending fun h₁ => releases_of_newThread h₁ hpc₁
  · exact releases_of_newThread h hpc
  · exact releases_of_emplaceBack h hpc
  · exact releases_of_unlock h hpc
  · exact absurd hpc h.threads.acceptor

/-- A thread unlocks after it has received something. -/
theorem clientStep_unlock {x : ℕ} {r : Received} (hpc : s.client k = .unlock x r) :
    clientStep k s = some { s.goto k (.handle x r) with peerSocketsLock := none } := by
  rw [clientStep, hpc]

/-- The acceptor stands where it stood, with the same clients. -/
def SameAcceptor (s s' : State) : Prop :=
  s'.acceptor = s.acceptor ∧ s'.connection = s.connection

theorem releases_of_received {x : ℕ} {r : Received} (h : Inv p s)
    (hpc : s.client k = .unlock x r) : Releases p (SameAcceptor s) s :=
  .client h (clientStep_unlock hpc) (by rw [hpc]; rintro ⟨⟩) rfl
    fun h₁ => .of_free h₁ rfl ⟨rfl, rfl⟩

/-- A thread that has removed its peer releases the lock. -/
theorem releases_of_unlockRemove (h : Inv p s) (hpc : s.client k = .unlockRemove) :
    Releases p (SameAcceptor s) s := by
  have hs : clientStep k s = some { s.goto k .exited with peerSocketsLock := none } := by
    rw [clientStep, hpc]
  exact .client h hs (by rw [hpc]; rintro ⟨⟩) rfl fun h₁ => .of_free h₁ rfl ⟨rfl, rfl⟩

/-- A thread at `removePeer` releases the lock. -/
theorem releases_of_removePeer (h : Inv p s) (hpc : s.client k = .removePeer) :
    Releases p (SameAcceptor s) s := by
  obtain ⟨sock, hk⟩ := h.threads.exists_connected (k := k) (by rw [hpc]; rfl)
  obtain ⟨server, hremove, -, -⟩ := h.connections.peers.removePeer hk
  have hs : clientStep k s = some
      { s.goto k .unlockRemove with
        server := server, kernel := s.kernel.closeAny sock.close.2 } := by
    simp only [clientStep, hpc, hremove, Option.map_some]
  exact .client h hs (by rw [hpc]; rintro ⟨⟩) rfl fun h₁ =>
    releases_of_unlockRemove h₁ (State.goto_client_self ..)

/-- **A stream that is not quiet gives something.** -/
theorem Stream.exists_receives {st : Stream} (blocking : Prop) (h : ¬st.Quiet) :
    ∃ r st', st.Receives blocking r st' := by
  rcases hinbox : st.inbox with _ | ⟨b, rest⟩
  · rcases herror : st.error with _ | e
    · have hended : st.ended = true := by
        by_contra hc
        exact h ⟨hinbox, Bool.eq_false_of_not_eq_true hc, herror⟩
      exact ⟨_, _, .ended 0 hinbox hended⟩
    · exact ⟨_, _, .error e herror⟩
  · exact ⟨_, _, .data [b] rest (by simp) (by simp) hinbox⟩

/-- The thread of the slot `i` is in `receive`. -/
def Receiving (s : State) (i : ℕ) : Prop := ∃ k x, s.client k = .receive x ∧ s.peerIndex k = i

/-- The threads can go on until the lock is free, and the clients that are attended are kept,
with nothing received from them, but for one whose thread is in `receive`; so is the acceptor
outside its section. -/
def Frees (p : Process) (s : State) : Prop :=
  ∃ tr s', Proceeds p s tr s' ∧ Inv p s' ∧ s'.peerSocketsLock = none ∧
    s'.pending = s.pending ∧ (s.acceptor.holds = false → SameAcceptor s s') ∧
    ∀ i sock, s.server.Connected i sock → Attended s i → ¬Receiving s i →
      Keeps p i sock s tr s' ∧ chunks (s.connection sock.socketDescriptor) tr = []

theorem Releases.frees (h : Releases p Q s)
    (hQ : ∀ s', Q s' → s.acceptor.holds = false → SameAcceptor s s') : Frees p s := by
  obtain ⟨tr, s', hproceeds, hinv, hfree, hpending, hq, hnone, hkeeps⟩ := h
  exact ⟨tr, s', hproceeds, hinv, hfree, hpending, hQ s' hq,
    fun i sock hi hatt _ => ⟨hkeeps i sock hi hatt, hnone _⟩⟩

/-- A thread in `receive` receives something, and releases the lock. -/
theorem frees_of_receive (h : Inv p s) {x : ℕ} (hpc : s.client k = .receive x)
    (hwaits : ∀ sock, ¬Waits s k sock) : Frees p s := by
  obtain ⟨y, hk, hderef, hx⟩ := h.deref (k := k) (x := x) (by rw [hpc]; rfl)
  obtain ⟨r, st, hst⟩ := Stream.exists_receives (y.socketDescriptor ∉ s.kernel.nonBlocking)
    fun hquiet => hwaits y ⟨x, hpc, hderef, hquiet⟩
  have hs : (system p).Step s (.receive k x r) _ := .receive k x y r st hpc hderef hst
  obtain ⟨tr, s', hc, hinv, hfree, hpending, hsame, hnone, hkeeps⟩ :=
    releases_of_received (k := k) (x := x) (r := r) (h.step hs) (State.goto_client_self ..)
  refine ⟨[.receive k x r] ++ tr, s', (Proceeds.single hs .receive).trans hc, hinv, hfree,
    hpending, fun _ => hsame, fun i sock hi hatt hnot => ?_⟩
  have hne : s.peerIndex k ≠ i := fun hc => hnot ⟨k, x, hpc, hc⟩
  have hkeep : Keeps p i sock s [.receive k x r] _ :=
    keeps_receive h hi hatt (fun hk' => absurd hk' hne) hs
  refine ⟨hkeep.trans (hkeeps i sock hkeep.connected hkeep.attended), ?_⟩
  -- the client of another slot is another client
  have hother : x ≠ s.connection sock.socketDescriptor := by
    rintro heq
    obtain ⟨-, -, hopen, hbase⟩ := h.connections.peers.peer _ sock hi
    obtain ⟨-, -, hopen', hbase'⟩ := h.connections.peers.peer _ y hk
    have hfd := h.connections.distinct _ hopen' _ hopen hbase' hbase (hx.trans heq)
    exact hne (h.connections.peers.distinct _ _ y sock hk hi hfd)
  rw [chunks_append, hnone, List.append_nil]
  rcases r with bytes | ⟨read, error⟩
  · exact if_neg hother
  · rfl

/-- **The lock can be released** unless a thread waits with it. -/
theorem frees_of_not_waits (h : Inv p s) (hwaits : ∀ k sock, ¬Waits s k sock) : Frees p s := by
  rcases hlock : s.peerSocketsLock with _ | _ | k
  · exact ⟨[], s, .refl s, h, hlock, rfl, fun _ => ⟨rfl, rfl⟩,
      fun _ _ hi hatt _ => ⟨.refl hi hatt, rfl⟩⟩
  · have hholds : s.acceptor.holds = true := (h.threads.guards .acceptor).mp hlock
    refine (releases_of_acceptor h hholds).frees fun _ _ hc => ?_
    rw [hholds] at hc
    cases hc
  · have hholds : (s.client k).holds = true := (h.threads.guards (.client k)).mp hlock
    rcases hpc : s.client k with _ | _ | _ | _ | x | x | ⟨x, r⟩ | ⟨x, r⟩ | _ | _ | _ | _
    all_goals rw [hpc] at hholds
    all_goals try cases hholds
    · exact frees_of_receive h hpc (hwaits k)
    · exact (releases_of_received h hpc).frees fun _ hsame _ => hsame
    · exact (releases_of_removePeer h hpc).frees fun _ hsame _ => hsame
    · exact (releases_of_unlockRemove h hpc).frees fun _ hsame _ => hsame

/-! ### The room for the replies -/

/-- A chunk from the client `j` has been received and not been replied to. -/
def Owes (j : ℕ) (s : State) : Prop := ∃ k, (s.client k).chunk j ≠ none

/-- **There is room for the replies** to the client `j` that are sent before the last of `n` more
chunks is received: those to the chunks before it, and one that is owed. -/
def HasRoom (j n : ℕ) (s : State) : Prop :=
  (s.replies j).gone = true ∨
    (s.replies j).outstanding + replyLength * n ≤ s.capacity j + replyLength ∧
      (Owes j s → (s.replies j).outstanding + replyLength * n ≤ s.capacity j)

theorem HasRoom.mono {m n : ℕ} (h : HasRoom j n s) (hle : m ≤ n) : HasRoom j m s := by
  have hmul : replyLength * m ≤ replyLength * n := Nat.mul_le_mul_left _ hle
  refine h.imp id fun ⟨hroom, howes⟩ => ⟨?_, fun hc => ?_⟩
  · omega
  · have hroom' := howes hc
    omega

/-- Whoever owes a reply can send it, if there is room for it. -/
theorem HasRoom.not_full (h : HasRoom j 1 s) (howes : Owes j s) : s.full j = false := by
  by_contra hfull
  obtain ⟨hgone, hlt⟩ := State.full_eq_true.mp (Bool.eq_true_of_not_eq_false hfull)
  rcases h with hc | ⟨-, hroom⟩
  · rw [hgone] at hc
    cases hc
  · have hle := hroom howes
    omega

theorem Backlog.hasRoom (h : Backlog s) (hj : j < s.connected) : HasRoom j 0 s := by
  rcases hgone : (s.replies j).gone with _ | _
  · have hroom := h.room j hj hgone
    refine .inr ⟨?_, fun _ => ?_⟩ <;> omega
  · exact .inl hgone

/-- Nothing is sent to the client, and nothing received from it. -/
theorem hasRoom_congr {n : ℕ} (hreplies : s'.replies j = s.replies j)
    (hcapacity : s'.capacity = s.capacity)
    (hchunk : ∀ k, (s'.client k).chunk j = (s.client k).chunk j) :
    HasRoom j n s ↔ HasRoom j n s' := by
  simp only [HasRoom, Owes, hreplies, hcapacity, hchunk]

/-- **A step of a client's thread** takes no room, unless it is a reply to a chunk; then the
room is what has been accounted for. -/
theorem hasRoom_clientStep {n : ℕ} (h : Inv p s) (hs : clientStep k s = some s') :
    HasRoom j n s ↔ HasRoom j n s' := by
  rcases clientStep_cases h.threads.running hs with ⟨pc, -, -, -, -, hchunk⟩ |
    ⟨pc, -, -, -, -, hchunk⟩ | ⟨pc, -, -, -, -, hchunk⟩ | ⟨x, read, error, sock, hpc, -, -⟩ |
    ⟨server, closed, hpc, -⟩ | ⟨pc, x, bytes, sock, -, -, -, hpc, hderef, -, hnone⟩
  iterate 3
    exact hasRoom_congr rfl rfl (chunk_goto (hchunk j))
  · exact hasRoom_congr rfl rfl (chunk_goto (by rw [hpc]; rfl))
  · exact hasRoom_congr rfl rfl (chunk_goto (by rw [hpc]; rfl))
  · have hpointer : (s.client k).pointer = some x := by rw [hpc]; rfl
    obtain ⟨-, rfl⟩ := h.of_deref hpointer hderef
    generalize s.connection sock.socketDescriptor = x at *
    rcases eq_or_ne x j with rfl | hne
    · -- the reply that was owed
      have howes : Owes x s := ⟨k, by simp [hpc]⟩
      have hnot : ¬Owes x ((s.goto k pc).reply x) := by
        rintro ⟨l, hl⟩
        obtain ⟨chunk, hl⟩ := Option.ne_none_iff_exists'.mp hl
        replace hl : ((s.goto k pc).client l).chunk x = some chunk := hl
        rcases eq_or_ne l k with rfl | hne
        · rw [State.goto_client_self, hnone] at hl
          cases hl
        · rw [State.goto_client_of_ne s hne] at hl
          exact hne (h.eq_of_pointer (ClientPc.pointer_of_chunk hl) hpointer)
      simp only [HasRoom, howes, hnot, State.reply_replies_self, State.reply_capacity,
        State.goto_replies, State.goto_capacity, true_implies, false_implies, and_true]
      exact or_congr_right (by omega)
    · refine hasRoom_congr (Function.update_of_ne hne.symm ..) rfl (chunk_goto ?_)
      rw [hnone, hpc]
      exact (if_neg hne).symm

/-- **A `receive`** from the client makes a reply owed. -/
theorem hasRoom_receive {n x : ℕ} {r : Received} (h : Inv p s)
    (hs : (system p).Step s (.receive k x r) s') :
    HasRoom j (n + (chunks j [.receive k x r]).length) s ↔ HasRoom j n s' := by
  rcases hs with _ | _ | _ | _ | _ | _ | ⟨_, _, sock, _, st, hpc, -, -⟩
  have hpointer : (s.client k).pointer = some x := by rw [hpc]; rfl
  by_cases hdata : ∃ bytes, x = j ∧ r = .data bytes
  · obtain ⟨bytes, rfl, rfl⟩ := hdata
    have hnot : ¬Owes x s := by
      rintro ⟨l, hl⟩
      obtain ⟨chunk, hl⟩ := Option.ne_none_iff_exists'.mp hl
      obtain rfl := h.eq_of_pointer (ClientPc.pointer_of_chunk hl) hpointer
      rw [hpc] at hl
      cases hl
    have howes : Owes x { s.goto k (.unlock x (.data bytes)) with
        stream := Function.update s.stream (s.connection sock.socketDescriptor) st } :=
      ⟨k, by simp [State.goto]⟩
    have hlength : (chunks x [.receive k x (.data bytes)]).length = 1 := by simp [chunks]
    simp only [HasRoom, howes, hnot, hlength, true_implies, false_implies, and_true]
    simp only [State.goto_replies, State.goto_capacity, Nat.mul_add, Nat.mul_one]
    exact or_congr_right (by omega)
  · have hnone : chunks j [.receive k x r] = [] := by
      rcases r with bytes | ⟨read, error⟩
      · exact if_neg fun hx => hdata ⟨bytes, hx, rfl⟩
      · rfl
    rw [hnone, List.length_nil, Nat.add_zero]
    refine hasRoom_congr rfl rfl (chunk_goto ?_)
    rw [hpc]
    rcases r with bytes | ⟨read, error⟩
    · exact if_neg fun hx => hdata ⟨bytes, hx, rfl⟩
    · rfl

/-- **A step of the server** keeps account of the room. -/
theorem hasRoom_step {n : ℕ} (h : Inv p s) (hs : (system p).Step s a s') (ha : a.IsServer) :
    HasRoom j (n + (chunks j [a]).length) s ↔ HasRoom j n s' := by
  rcases a with _ | ⟨i, bytes⟩ | i | ⟨i, error⟩ | accepted | _ | ⟨k, x, r⟩ | k | ⟨i, m⟩ | i
  · exact ha.elim
  · exact ha.elim
  · exact ha.elim
  · exact ha.elim
  · rcases hs with _ | _ | _ | _ | ⟨_, hpc, hpending⟩
    rcases accept_cases h.connections hpending with ⟨kernel, -, heq, -, -⟩ |
      ⟨fd, i, pending, kernel, rfl, -, heq, -, -⟩
    all_goals
      rw [heq]
      exact hasRoom_congr rfl rfl fun _ => rfl
  · rcases hs with _ | _ | _ | _ | _ | hs
    rcases acceptorStep_cases h.threads.running hs with - | - | ⟨_, _, _, _, -, -⟩ | ⟨r, -⟩ | - | -
    · exact hasRoom_congr rfl rfl fun _ => rfl
    · exact hasRoom_congr rfl rfl fun _ => rfl
    · exact hasRoom_congr rfl rfl fun _ => rfl
    · -- a new thread has received nothing
      refine hasRoom_congr rfl rfl (chunk_goto ?_)
      rw [h.threads.started _ le_rfl]
      rfl
    · exact hasRoom_congr rfl rfl fun _ => rfl
    · exact hasRoom_congr rfl rfl fun _ => rfl
  · exact hasRoom_receive h hs
  · rcases hs with _ | _ | _ | _ | _ | _ | _ | ⟨_, hs⟩
    exact hasRoom_clientStep h hs
  · exact ha.elim
  · exact ha.elim

/-- **The account of the room** while the server goes on by itself: every chunk received is one
of those that there was room for. -/
theorem hasRoom_of_continues {n : ℕ} (h : Inv p s) (hs : (system p).Steps s tr s')
    (hserver : ∀ a ∈ tr, a.IsServer) :
    HasRoom j (n + (chunks j tr).length) s ↔ HasRoom j n s' := by
  induction hs with
  | refl s => rfl
  | @head s s₁ s' a tr hstep _ ih =>
    rw [← ih (h.step hstep) fun a ha => hserver a (List.mem_cons_of_mem _ ha),
      ← hasRoom_step h hstep (hserver a List.mem_cons_self), chunks_cons, List.length_append]
    rw [Nat.add_right_comm, Nat.add_assoc]

end ThreadPerClient

end Net

end LowLatency
