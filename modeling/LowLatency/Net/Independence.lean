import LowLatency.Net.ThreadPerClientProgress

/-!
# Do the clients depend on each other?

A client that has sent something is independent of the others if the threads of the
server, by themselves, can get to receive it; and likewise a client that has connected,
if they can get to add it (`LowLatency.Net.ThreadPerClient.Independent`). But the threads
receive with `m_peerSocketsLock` held, from sockets in blocking mode: one that receives
from a silent client keeps the lock until this client does something. So the clients are
independent except while this happens and somebody else is waiting
(`LowLatency.Net.ThreadPerClient.independent_iff_not_blocked`). What a client has sent
after its `quit` is not received, since its thread is about to disconnect it. And a client
that does not read the replies is not received from any more when the kernel has no room
for another one, which may be before everything has been received
(`LowLatency.Net.ThreadPerClient.Roomy`).
-/

namespace LowLatency

namespace Net

namespace ThreadPerClient

open TcpServer (Slot Connected Aligned)

variable {p : Process} {s s₁ s' : State} {tr : List Action} {a : Action} {i j k : ℕ}
  {sock : Socket}

/-- The client `j` has connected and has not been added: it is pending, or the acceptor has
it in hand. -/
def State.Waiting (s : State) (j : ℕ) : Prop :=
  j ∈ s.pending ∨
    ∃ sock, s.acceptor.hand = some sock ∧ s.connection sock.socketDescriptor = j

/-- **The clients are independent** of each other in a state: what a connected client has
sent can be received, and a client that has connected can be added, without anything
happening from outside. -/
structure Independent (p : Process) (s : State) : Prop where
  served : ∀ i sock, s.server.Connected i sock → s.unread sock ≠ [] →
    ∃ tr s', Continues p s tr s' ∧
      received (s.connection sock.socketDescriptor) tr = s.unread sock
  added : ∀ j, s.Waiting j → ∃ tr s', Continues p s tr s' ∧
    ∃ i sock, s'.server.Connected i sock ∧ s'.connection sock.socketDescriptor = j

/-- **A client blocks another**: a thread waits for it, while another client has sent
something or has connected. -/
def Blocked (s : State) : Prop :=
  (∃ k sock, Waits s k sock) ∧
    ((∃ j, s.Waiting j) ∨ ∃ i sock, s.server.Connected i sock ∧ s.unread sock ≠ [])

/-- The clients that have sent something are not about to be disconnected. -/
def AllAttended (s : State) : Prop :=
  ∀ i sock, s.server.Connected i sock → s.unread sock ≠ [] → Attended s i

/-- The chunks in which some bytes are received: at most 32 bytes each, and none of them is
`quit`, but possibly the last. -/
structure Cut (cs : List (List UInt8)) (bytes : List UInt8) : Prop where
  flatten : cs.flatten = bytes
  length : ∀ c ∈ cs, 0 < c.length ∧ c.length ≤ 32
  quit : ∀ c ∈ cs.dropLast, isQuit c = false

/-- **The clients have room for the replies** that come before the last chunk of what they have
sent is received, if it is received in the right chunks. -/
def Roomy (s : State) : Prop :=
  ∀ i sock, s.server.Connected i sock → s.unread sock ≠ [] →
    ∃ cs, Cut cs (s.unread sock) ∧ HasRoom (s.connection sock.socketDescriptor) cs.length s

/-! ### A client is served -/

/-- The threads go on from `s` to `s'`, with the client in the slot `i` kept, and receive the
chunks `cs` from it. -/
def Serves (p : Process) (i : ℕ) (sock : Socket) (s : State) (cs : List (List UInt8))
    (s' : State) : Prop :=
  ∃ tr, Proceeds p s tr s' ∧ Inv p s' ∧ Keeps p i sock s tr s' ∧
    chunks (s.connection sock.socketDescriptor) tr = cs

variable {cs cs' : List (List UInt8)} {c rest : List UInt8} {x n : ℕ}

theorem Serves.inv (h : Serves p i sock s cs s') : Inv p s' := by
  obtain ⟨tr, -, hinv, -⟩ := h
  exact hinv

theorem Serves.connected (h : Serves p i sock s cs s') : s'.server.Connected i sock := by
  obtain ⟨tr, -, -, hkeep, -⟩ := h
  exact hkeep.connected

theorem Serves.attended (h : Serves p i sock s cs s') : Attended s' i := by
  obtain ⟨tr, -, -, hkeep, -⟩ := h
  exact hkeep.attended

theorem Serves.connection (h : Serves p i sock s cs s') :
    s'.connection sock.socketDescriptor = s.connection sock.socketDescriptor := by
  obtain ⟨tr, -, -, hkeep, -⟩ := h
  exact hkeep.connection

theorem Serves.unread (h : Serves p i sock s cs s') :
    cs.flatten ++ s'.unread sock = s.unread sock := by
  obtain ⟨tr, -, -, hkeep, rfl⟩ := h
  rw [flatten_chunks]
  exact hkeep.unread

/-- The chunks served are some of those that there was room for. -/
theorem Serves.hasRoom (h : Serves p i sock s cs s') (hinv : Inv p s) :
    HasRoom (s.connection sock.socketDescriptor) (n + cs.length) s ↔
      HasRoom (s'.connection sock.socketDescriptor) n s' := by
  rw [h.connection]
  obtain ⟨tr, hproceeds, -, -, rfl⟩ := h
  obtain ⟨hsteps, hserver⟩ := hproceeds.continues
  exact hasRoom_of_continues hinv hsteps hserver

theorem Serves.refl (h : Inv p s) (hi : s.server.Connected i sock) (hatt : Attended s i) :
    Serves p i sock s [] s :=
  ⟨[], .refl s, h, .refl hi hatt, rfl⟩

theorem Serves.trans (h : Serves p i sock s cs s₁) (h' : Serves p i sock s₁ cs' s') :
    Serves p i sock s (cs ++ cs') s' := by
  have hconnection := h.connection
  obtain ⟨tr, hproceeds, -, hkeep, rfl⟩ := h
  obtain ⟨tr', hproceeds', hinv, hkeep', rfl⟩ := h'
  refine ⟨tr ++ tr', hproceeds.trans hproceeds', hinv, hkeep.trans hkeep', ?_⟩
  rw [chunks_append, hconnection]

/-- A step of a client's thread. -/
theorem Serves.client (h : Inv p s) (hi : s.server.Connected i sock) (hatt : Attended s i)
    (hset : s.client k = .setName → s.peerSocketsLock = none) (hs : clientStep k s = some s') :
    Serves p i sock s [] s' :=
  ⟨[.client k], .single (.client k hs) (.client hset), h.step (.client k hs),
    keeps_clientStep h hi hatt hs, chunks_of_ne nofun⟩

/-- The thread of the client in the slot `i` can get to the lock, which is free. -/
def Ready (p : Process) (i : ℕ) (sock : Socket) (s : State) : Prop :=
  ∃ k x s', Serves p i sock s [] s' ∧ s'.peerSocketsLock = none ∧ s'.client k = .lock x ∧
    s'.peerIndex k = i

/-- A step on the way to the lock. -/
theorem Ready.head (hs : Serves p i sock s [] s₁)
    (hready : Inv p s₁ → s₁.server.Connected i sock → Attended s₁ i → Ready p i sock s₁) :
    Ready p i sock s := by
  obtain ⟨k, x, s', hserves, hfree, hpc, hk⟩ := hready hs.inv hs.connected hs.attended
  exact ⟨k, x, s', hs.trans hserves, hfree, hpc, hk⟩

theorem ready_of_getPeerSocket (h : Inv p s) (hfree : s.peerSocketsLock = none)
    (hi : s.server.Connected i sock) (hatt : Attended s i) (hpc : s.client k = .getPeerSocket)
    (hk : s.peerIndex k = i) : Ready p i sock s := by
  have hs : clientStep k s = some (s.goto k (.lock (s.peerSocket (s.peerIndex k)))) := by
    rw [clientStep, hpc]
  exact ⟨k, _, _, .client h hi hatt (fun _ => hfree) hs, hfree, State.goto_client_self .., hk⟩

theorem ready_of_check (h : Inv p s) (hfree : s.peerSocketsLock = none)
    (hi : s.server.Connected i sock) (hatt : Attended s i) (hpc : s.client k = .check)
    (hk : s.peerIndex k = i) : Ready p i sock s := by
  have hs : clientStep k s = some (s.goto k .getPeerSocket) := by
    rw [clientStep, hpc]
    dsimp only
    rw [if_neg (ne_true_of_eq_false h.threads.running)]
  exact .head (.client h hi hatt (fun _ => hfree) hs) fun h₁ hi₁ hatt₁ =>
    ready_of_getPeerSocket h₁ hfree hi₁ hatt₁ (State.goto_client_self ..) hk

/-- What was received is dealt with, once there is room for a reply to it, and the thread is
back at the head of its loop. -/
theorem ready_of_handle (h : Inv p s) (hfree : s.peerSocketsLock = none)
    (hi : s.server.Connected i sock) (hatt : Attended s i) {r : Received}
    (hpc : s.client k = .handle x r) (hk : s.peerIndex k = i) (hr : leaving r = false)
    (hfull : Owes x s → s.full x = false) : Ready p i sock s := by
  rcases r with bytes | ⟨read, error⟩
  · have hroom : s.full x = false := hfull ⟨k, by simp [hpc]⟩
    have hquit : isQuit bytes = false := hr
    have hs := (h.clientStep_reply hpc).mpr ⟨hroom, rfl⟩
    rw [hquit] at hs
    exact .head (.client h hi hatt (fun _ => hfree) hs) fun h₁ hi₁ hatt₁ =>
      ready_of_check h₁ hfree hi₁ hatt₁ (State.goto_client_self ..) hk
  · have hlost : Socket.lostError error = false := hr
    have hs : clientStep k s = some (s.goto k .check) := by
      obtain ⟨y, -, hderef, -⟩ := h.deref (k := k) (x := x) (by rw [hpc]; rfl)
      simp [clientStep, hpc, hderef, Socket.isConnectionLost, hlost]
    exact .head (.client h hi hatt (fun _ => hfree) hs) fun h₁ hi₁ hatt₁ =>
      ready_of_check h₁ hfree hi₁ hatt₁ (State.goto_client_self ..) hk

/-- **The thread of a client can get to the lock** when it is free, if there is room for the
reply that it may owe. -/
theorem ready_of_free (h : Inv p s) (hfree : s.peerSocketsLock = none)
    (hi : s.server.Connected i sock) (hatt : Attended s i)
    (hfull : Owes (s.connection sock.socketDescriptor) s →
      s.full (s.connection sock.socketDescriptor) = false) : Ready p i sock s := by
  obtain ⟨t, ht⟩ := (h.threads.owned.used_iff i).mp ⟨sock, hi⟩
  have hout : ¬Holds (s.pc t) := by
    intro hc
    have hlock := (h.threads.guards t).mpr hc
    rw [hfree] at hlock
    cases hlock
  rcases t with _ | k
  · -- the acceptor holds the lock while a thread is to be created
    rcases hpc : s.acceptor with _ | _ | _ | _ | r | _ | _ | _
    all_goals simp [State.owned, hpc] at ht
    exact (hout (by simp [State.pc, hpc])).elim
  · obtain ⟨hlive, hk⟩ := State.owned_client_eq_some.mp ht
    have hleaves := hatt k hlive hk
    have hholds : (s.client k).holds = false := Bool.eq_false_of_not_eq_true hout
    rcases hpc : s.client k with _ | _ | _ | _ | x | x | ⟨x, r⟩ | ⟨x, r⟩ | _ | _ | _ | _
    all_goals rw [hpc] at hlive hleaves hholds
    all_goals try cases hlive
    all_goals try cases hholds
    · have hs : clientStep k s = some (s.goto k .check) := by
        rw [clientStep, hpc]
      exact .head (.client h hi hatt (fun _ => hfree) hs) fun h₁ hi₁ hatt₁ =>
        ready_of_check h₁ hfree hi₁ hatt₁ (State.goto_client_self ..) hk
    · exact ready_of_check h hfree hi hatt hpc hk
    · exact ready_of_getPeerSocket h hfree hi hatt hpc hk
    · exact ⟨k, x, s, .refl h hi hatt, hfree, hpc, hk⟩
    · obtain ⟨y, hy, -, hx⟩ := h.deref (k := k) (x := x) (by rw [hpc]; rfl)
      obtain rfl := hk
      obtain ⟨-, rfl⟩ := hi.unique hy
      rw [hx] at hfull
      exact ready_of_handle h hfree hi hatt hpc rfl hleaves hfull
    · cases hleaves

/-- A thread that can get the lock gets into `receive`. -/
theorem serves_of_lock (h : Inv p s) (hfree : s.peerSocketsLock = none)
    (hi : s.server.Connected i sock) (hatt : Attended s i) (hpc : s.client k = .lock x) :
    ∃ s₁, Serves p i sock s [] s₁ ∧ s₁.client k = .receive x ∧
      s₁.peerIndex k = s.peerIndex k := by
  have hs : clientStep k s =
      some { s.goto k (.receive x) with peerSocketsLock := some (.client k) } := by
    rw [clientStep, hpc]
    simp only [hfree]
  exact ⟨_, .client h hi hatt (fun _ => hfree) hs, State.goto_client_self .., rfl⟩

/-- A single byte is not `quit`. -/
theorem isQuit_singleton (b : UInt8) : isQuit [b] = false := by
  by_cases hb : b = 0 <;> simp [isQuit, hb]

/-- A thread in `receive` may receive whatever the client has sent, at most 32 bytes. -/
theorem exists_receive (h : Inv p s) (hi : s.server.Connected i sock)
    (hpc : s.client k = .receive x) (hk : s.peerIndex k = i) (hpos : 0 < c.length)
    (hle : c.length ≤ 32) (hunread : s.unread sock = c ++ rest) :
    x = s.connection sock.socketDescriptor ∧
      ∃ s₁, (system p).Step s (.receive k x (.data c)) s₁ ∧
        s₁.client k = .unlock x (.data c) := by
  obtain ⟨y, hy, hderef, hx⟩ := h.deref (k := k) (x := x) (by rw [hpc]; rfl)
  obtain rfl := hk
  obtain ⟨-, rfl⟩ := hi.unique hy
  exact ⟨hx.symm, _, .receive k x y (.data c) _ hpc hderef (.data c rest hpos hle hunread),
    State.goto_client_self ..⟩

/-- **A thread in `receive` gets a chunk**, and releases the lock. -/
theorem serves_of_receive (h : Inv p s) (hi : s.server.Connected i sock) (hatt : Attended s i)
    (hpc : s.client k = .receive x) (hk : s.peerIndex k = i) (hpos : 0 < c.length)
    (hle : c.length ≤ 32) (hquit : isQuit c = false) (hunread : s.unread sock = c ++ rest) :
    ∃ s', Serves p i sock s [c] s' ∧ s'.peerSocketsLock = none ∧
      s'.client k = .handle (s.connection sock.socketDescriptor) (.data c) := by
  obtain ⟨rfl, s₁, hstep, hpc₁⟩ := exists_receive h hi hpc hk hpos hle hunread
  have hkeep := keeps_receive (r := .data c) h hi hatt (fun _ => hquit) hstep
  have hserves : Serves p i sock s [c] s₁ := by
    refine ⟨_, .single hstep .receive, h.step hstep, hkeep, ?_⟩
    rw [chunks, if_pos rfl, chunks]
  exact ⟨_, hserves.trans (.client hserves.inv hserves.connected hserves.attended
    (by rw [hpc₁]; rintro ⟨⟩) (clientStep_unlock hpc₁)), rfl, State.goto_client_self ..⟩

/-- **A client is served by the thread that is in `receive`**: the last chunk may be `quit`. -/
theorem exists_chunks_of_receive (h : Inv p s) (hi : s.server.Connected i sock)
    (hatt : Attended s i) (hpc : s.client k = .receive x) (hk : s.peerIndex k = i)
    (hcut : Cut (c :: cs) (s.unread sock))
    (hrest : ∀ s', Serves p i sock s [c] s' → s'.peerSocketsLock = none →
      ∃ tr s'', Proceeds p s' tr s'' ∧ chunks (s'.connection sock.socketDescriptor) tr = cs) :
    ∃ tr s', Proceeds p s tr s' ∧ chunks (s.connection sock.socketDescriptor) tr = c :: cs := by
  obtain ⟨hpos, hle⟩ := hcut.length c List.mem_cons_self
  have hunread : s.unread sock = c ++ cs.flatten := hcut.flatten.symm
  rcases cs with _ | ⟨c', cs⟩
  · obtain ⟨hx, s₁, hstep, -⟩ := exists_receive h hi hpc hk hpos hle hunread
    refine ⟨_, s₁, .single hstep .receive, ?_⟩
    rw [chunks, if_pos hx, chunks]
  · obtain ⟨s₁, hserves, hfree, -⟩ :=
      serves_of_receive h hi hatt hpc hk hpos hle (hcut.quit c List.mem_cons_self) hunread
    obtain ⟨tr', s', hproceeds', hchunks'⟩ := hrest s₁ hserves hfree
    have hconnection := hserves.connection
    obtain ⟨tr, hproceeds, -, -, hchunks⟩ := hserves
    refine ⟨tr ++ tr', s', hproceeds.trans hproceeds', ?_⟩
    rw [chunks_append, hchunks, ← hconnection, hchunks', List.singleton_append]

theorem Cut.tail (h : Cut (c :: cs) (c ++ rest)) : Cut cs rest := by
  refine ⟨List.append_cancel_left h.flatten, fun d hd => h.length d (List.mem_cons_of_mem c hd),
    fun d hd => h.quit d ?_⟩
  rcases cs with _ | ⟨c', cs⟩
  · cases hd
  · exact List.mem_cons_of_mem c hd

/-- **A client is served** from a state in which the lock is free: by induction on the chunks,
one reply after the other. -/
theorem exists_chunks_of_free (h : Inv p s) (hfree : s.peerSocketsLock = none)
    (hi : s.server.Connected i sock) (hatt : Attended s i) (hcut : Cut cs (s.unread sock))
    (hroom : HasRoom (s.connection sock.socketDescriptor) cs.length s) :
    ∃ tr s', Proceeds p s tr s' ∧ chunks (s.connection sock.socketDescriptor) tr = cs := by
  induction cs generalizing s with
  | nil => exact ⟨[], s, .refl s, rfl⟩
  | cons c cs ih =>
    obtain ⟨k, x, s₁, hserves, hfree₁, hpc, hk⟩ := ready_of_free h hfree hi hatt fun howes =>
      (hroom.mono (Nat.succ_le_succ (Nat.zero_le cs.length))).not_full howes
    obtain ⟨s₂, hserves', hpc₂, hk₂⟩ :=
      serves_of_lock hserves.inv hfree₁ hserves.connected hserves.attended hpc
    have hserves₂ : Serves p i sock s [] s₂ := hserves.trans hserves'
    have hunread : s₂.unread sock = s.unread sock := hserves₂.unread
    have hroom₂ := (hserves₂.hasRoom h).mp hroom
    rw [← hunread] at hcut
    obtain ⟨tr', s', hproceeds', hchunks'⟩ := exists_chunks_of_receive hserves₂.inv
      hserves₂.connected hserves₂.attended hpc₂ (hk₂.trans hk) hcut fun s₃ hserves₃ hfree₃ => by
        have hcut₃ : Cut cs (s₃.unread sock) := by
          rw [← hserves₃.unread, List.flatten_singleton] at hcut
          exact hcut.tail
        exact ih hserves₃.inv hfree₃ hserves₃.connected hserves₃.attended hcut₃
          ((hserves₃.hasRoom hserves₂.inv).mp hroom₂)
    have hconnection := hserves₂.connection
    obtain ⟨tr, hproceeds, -, -, hchunks⟩ := hserves₂
    refine ⟨tr ++ tr', s', hproceeds.trans hproceeds', ?_⟩
    rw [chunks_append, hchunks, List.nil_append, ← hconnection, hchunks']

/-! ### A client is added -/

/-- A pending client has a descriptor to be given. -/
theorem exists_fresh (h : Inv p s) (hpending : s.pending ≠ []) : ∃ fd, s.kernel.Fresh fd := by
  have hcapacity := h.connections.capacity
  have hpos := List.length_pos_of_ne_nil hpending
  have hcard : s.kernel.opened.card < (Finset.Ico (0 : ℤ) (2 ^ 31)).card := by
    rw [Int.card_Ico]
    omega
  obtain ⟨fd, hfd, hnew⟩ := Finset.exists_mem_notMem_of_card_lt_card hcard
  obtain ⟨hnonneg, hlt⟩ := Finset.mem_Ico.mp hfd
  exact ⟨fd, hnonneg, hlt, hnew⟩

/-- The acceptor can get to `accept` when the lock is free. -/
def Accepts (p : Process) (s : State) : Prop :=
  ∃ tr s', Proceeds p s tr s' ∧ Inv p s' ∧ s'.peerSocketsLock = none ∧
    s'.pending = s.pending ∧ s'.acceptor = .accept

theorem accepts_of_check (h : Inv p s) (hfree : s.peerSocketsLock = none)
    (hpc : s.acceptor = .check) : Accepts p s := by
  have hs : acceptorStep s = some { s with acceptor := .accept } := by
    rw [acceptorStep, hpc]
    dsimp only
    rw [if_neg (ne_true_of_eq_false h.threads.running)]
  have hstep : (system p).Step s .acceptor _ := .acceptor hs
  exact ⟨_, _, .single hstep .acceptor, h.step hstep, hfree, rfl, rfl⟩

/-- The acceptor locks to add the peer it has in hand. -/
theorem lock_step (hfree : s.peerSocketsLock = none) {peer : Socket}
    (hpc : s.acceptor = .lock peer) :
    acceptorStep s =
      some { s with peerSocketsLock := some .acceptor, acceptor := .addPeer peer } := by
  rw [acceptorStep, hpc]
  simp only [hfree]

theorem accepts_of_free (h : Inv p s) (hfree : s.peerSocketsLock = none) : Accepts p s := by
  have hout : s.acceptor.holds = false := by
    by_contra hc
    have hlock := (h.threads.guards .acceptor).mpr (Bool.eq_true_of_not_eq_false hc)
    rw [hfree] at hlock
    cases hlock
  rcases hpc : s.acceptor with _ | _ | peer | _ | _ | _ | _ | _
  all_goals rw [hpc] at hout
  all_goals try cases hout
  · exact accepts_of_check h hfree hpc
  · exact ⟨[], s, .refl s, h, hfree, rfl, hpc⟩
  · have hstep : (system p).Step s .acceptor _ := .acceptor (lock_step hfree hpc)
    obtain ⟨tr, s₁, hproceeds, h₁, hfree₁, hpending, hcheck, -⟩ :=
      releases_of_acceptor (h.step hstep) rfl
    obtain ⟨tr', s', hproceeds', h', hfree', hpending', hpc'⟩ :=
      accepts_of_check h₁ hfree₁ hcheck
    have hfirst : Proceeds p s [.acceptor] _ := .single hstep .acceptor
    exact ⟨_, s', (hfirst.trans hproceeds).trans hproceeds', h', hfree',
      hpending'.trans hpending, hpc'⟩
  · exact absurd hpc h.threads.acceptor

/-- The peer in hand is added. -/
theorem exists_added_of_lock (h : Inv p s) (hfree : s.peerSocketsLock = none) {peer : Socket}
    (hpc : s.acceptor = .lock peer) :
    ∃ tr s', Proceeds p s tr s' ∧
      ∃ i, s'.server.Connected i peer ∧ s'.connection = s.connection := by
  have hstep : (system p).Step s .acceptor _ := .acceptor (lock_step hfree hpc)
  obtain ⟨r, s', hs', -, -, hconnection, hconnected⟩ := acceptorStep_addPeer (h.step hstep) rfl
  have hfirst : Proceeds p s [.acceptor] _ := .single hstep .acceptor
  exact ⟨_, s', hfirst.trans (.single (.acceptor hs') .acceptor), r, hconnected,
    hconnection⟩

/-- The first of the pending clients gets a descriptor. -/
theorem exists_accepted (h : Inv p s) (hpc : s.acceptor = .accept) {pending : List ℕ}
    (hpending : s.pending = j :: pending) :
    ∃ fd s', (system p).Step s (.accept (some fd)) s' ∧ s'.acceptor = .lock ⟨fd, .connected⟩ ∧
      s'.peerSocketsLock = s.peerSocketsLock ∧ s'.pending = pending ∧ s'.connection fd = j := by
  have hne : s.pending ≠ [] := by
    rw [hpending]
    exact List.cons_ne_nil _ _
  obtain ⟨fd, hfresh⟩ := exists_fresh h hne
  have hguard : ∀ x ∈ some fd, s.kernel.Fresh x ∧ s.pending ≠ [] := by
    rintro x ⟨⟩
    exact ⟨hfresh, hne⟩
  have hstep : (system p).Step s (.accept (some fd)) _ := .accept (some fd) hpc hguard
  rcases accept_cases h.connections hguard with ⟨-, hc, -⟩ |
    ⟨_, j', pending', kernel, ⟨⟩, hcons, heq, -, -⟩
  · cases hc
  · rw [hpending, List.cons.injEq] at hcons
    obtain ⟨rfl, rfl⟩ := hcons
    rw [heq] at hstep
    exact ⟨fd, _, hstep, rfl, rfl, rfl, Function.update_self ..⟩

/-- **A pending client is added** from a state in which the lock is free: by induction on
the clients pending. -/
theorem exists_added (h : Inv p s) (hfree : s.peerSocketsLock = none) (hj : j ∈ s.pending) :
    ∃ tr s', Proceeds p s tr s' ∧
      ∃ i sock, s'.server.Connected i sock ∧ s'.connection sock.socketDescriptor = j := by
  induction hpending : s.pending generalizing s with
  | nil =>
    rw [hpending] at hj
    cases hj
  | cons j₀ pending ih =>
    obtain ⟨tr, s₁, hproceeds, h₁, hfree₁, hpending₁, hpc₁⟩ := accepts_of_free h hfree
    obtain ⟨fd, s₂, hstep₂, hpc₂, hfree₂, hpending₂, hconnection₂⟩ :=
      exists_accepted h₁ hpc₁ (hpending₁.trans hpending)
    have h₂ := h₁.step hstep₂
    have hproceeds₂ := hproceeds.trans (.single hstep₂ .accept)
    replace hfree₂ := hfree₂.trans hfree₁
    rw [hpending] at hj
    rcases List.mem_cons.mp hj with rfl | hj
    · -- it is the next one
      obtain ⟨tr', s', hproceeds', i, hi, hconnection⟩ := exists_added_of_lock h₂ hfree₂ hpc₂
      refine ⟨_, s', hproceeds₂.trans hproceeds', i, _, hi, ?_⟩
      rw [hconnection]
      exact hconnection₂
    · obtain ⟨tr', s', hproceeds', hadded⟩ := ih h₂ hfree₂ (hpending₂ ▸ hj) hpending₂
      exact ⟨_, s', hproceeds₂.trans hproceeds', hadded⟩

/-! ### A client that blocks the others -/

/-- The thread `k` is in `receive` for the client `x`, which has nothing to say. -/
structure Stuck (p : Process) (k x : ℕ) (s : State) : Prop where
  inv : Inv p s
  receives : s.client k = .receive x
  quiet : (s.stream x).Quiet

/-- While a thread is in `receive`, no other thread is in a section of the lock. -/
theorem Stuck.holds {x : ℕ} (h : Stuck p k x s) {t : Thread} (ht : Holds (s.pc t)) :
    t = .client k :=
  h.inv.threads.guards.unique (by simp [State.pc, h.receives]) ht

theorem Stuck.lock {x : ℕ} (h : Stuck p k x s) : s.peerSocketsLock = some (.client k) :=
  (h.inv.threads.guards (.client k)).mpr (by simp [State.pc, h.receives])

/-- A quiet stream gives nothing in blocking mode. -/
theorem Stream.Quiet.not_receives {st st' : Stream} (h : st.Quiet) {blocking : Prop}
    (hblocking : blocking) {r : Received} : ¬st.Receives blocking r st' := by
  obtain ⟨hinbox, hended, herror⟩ := h
  rintro (⟨bytes, rest, hpos, -, heq⟩ | ⟨_, -, hc⟩ | ⟨e, hc⟩ | ⟨hc, -⟩)
  · rw [hinbox] at heq
    rw [(List.append_eq_nil_iff.mp heq.symm).1] at hpos
    cases hpos
  · rw [hended] at hc
    cases hc
  · rw [herror] at hc
    cases hc
  · exact hc hblocking

/-- The peers connected in `s'` were there in `s`, with the same clients. -/
def NothingAdded (s s' : State) : Prop :=
  ∀ i sock, s'.server.Connected i sock → ∃ sock', s.server.Connected i sock' ∧
    sock'.socketDescriptor = sock.socketDescriptor ∧
    s'.connection sock.socketDescriptor = s.connection sock.socketDescriptor

theorem NothingAdded.of_eq (hserver : s'.server = s.server)
    (hconnection : s'.connection = s.connection) : NothingAdded s s' :=
  fun _ sock hi => ⟨sock, hserver ▸ hi, rfl, by rw [hconnection]⟩

/-- **A stuck thread stays stuck** in a step of the server, in which nothing is received
and no client is added. -/
theorem Stuck.step {x : ℕ} (h : Stuck p k x s) (hs : (system p).Step s a s') (ha : a.IsServer) :
    Stuck p k x s' ∧ (∀ j, received j [a] = []) ∧ NothingAdded s s' := by
  have hinv := h.inv.step hs
  rcases a with _ | ⟨j, bytes⟩ | j | ⟨j, error⟩ | accepted | _ | ⟨k', x', r⟩ | k' | ⟨j, n⟩ | j
  · exact ha.elim
  · exact ha.elim
  · exact ha.elim
  · exact ha.elim
  · rcases hs with _ | _ | _ | _ | ⟨_, hpc, hpending⟩
    rcases accept_cases h.inv.connections hpending with ⟨kernel, -, heq, -, -⟩ |
      ⟨fd, j, pending, kernel, rfl, -, heq, -, -⟩
    · rw [heq] at hinv ⊢
      exact ⟨⟨hinv, h.receives, h.quiet⟩, fun _ => rfl, .of_eq rfl rfl⟩
    · rw [heq] at hinv ⊢
      refine ⟨⟨hinv, h.receives, h.quiet⟩, fun _ => rfl, fun i sock hi => ⟨sock, hi, rfl, ?_⟩⟩
      refine Function.update_of_ne ?_ ..
      rintro rfl
      exact (hpending _ rfl).1.2.2 (h.inv.connections.peers.peer i sock hi).2.2.1
  · rcases hs with _ | _ | _ | _ | _ | hs
    have hout : s.acceptor.holds = false := by
      by_contra hc
      cases h.holds (t := .acceptor) (Bool.eq_true_of_not_eq_false hc)
    rcases hpc : s.acceptor with _ | _ | _ | _ | _ | _ | _ | _
    all_goals rw [hpc] at hout
    all_goals try cases hout
    -- outside its section the acceptor can check only; at the lock it waits
    all_goals simp only [acceptorStep, hpc, h.lock] at hs
    all_goals cases hs
    exact ⟨⟨hinv, h.receives, h.quiet⟩, fun _ => rfl, .of_eq rfl rfl⟩
  · -- only the stuck thread is in `receive`
    rcases hs with _ | _ | _ | _ | _ | _ | ⟨_, _, sock, _, st, hpc, hderef, hst⟩
    obtain ⟨⟩ : Thread.client k' = .client k := h.holds (by simp [State.pc, hpc])
    obtain ⟨⟩ : ClientPc.receive x = .receive x' := h.receives.symm.trans hpc
    obtain ⟨hk, hconnection⟩ := h.inv.of_deref (by rw [hpc]; rfl) hderef
    rw [hconnection] at hst
    have hblocking : sock.socketDescriptor ∉ s.kernel.nonBlocking := fun hc =>
      (h.inv.connections.peers.peer _ sock hk).2.2.2 (h.inv.connections.blocking hc)
    exact (h.quiet.not_receives hblocking hst).elim
  · rcases hs with _ | _ | _ | _ | _ | _ | _ | ⟨_, hs⟩
    have hne : k ≠ k' := by
      rintro rfl
      rw [clientStep, h.receives] at hs
      cases hs
    have hout : ∀ {pc}, s.client k' = pc → pc.holds = false := by
      rintro pc rfl
      by_contra hc
      obtain ⟨⟩ := h.holds (t := .client k') (Bool.eq_true_of_not_eq_false hc)
      exact hne rfl
    have hstuck : ∀ {pc}, (s.goto k' pc).client k = .receive x := by
      intro pc
      rw [State.goto_client_of_ne s hne]
      exact h.receives
    rcases clientStep_cases h.inv.threads.running hs with ⟨pc, -, -, -, -⟩ | ⟨pc, -, -, hfree, -⟩ |
      ⟨pc, -, -, hholds, -⟩ | ⟨y, read, error, sock, hpc, -, hderef⟩ | ⟨server, closed, hpc, -⟩ |
      ⟨pc, y, bytes, sock, -, -, -, -, -, -, -⟩
    · exact ⟨⟨hinv, hstuck, h.quiet⟩, fun _ => rfl, .of_eq rfl rfl⟩
    · rw [h.lock] at hfree
      cases hfree
    · rw [hout rfl] at hholds
      cases hholds
    · -- `isConnectionLost` only marks a peer, whose descriptor stays the same
      obtain ⟨hk, -⟩ := h.inv.of_deref (by rw [hpc]; rfl) hderef
      refine ⟨⟨hinv, hstuck, h.quiet⟩, fun _ => rfl, fun i z hi => ?_⟩
      obtain ⟨y, hy, heq⟩ :=
        TcpServer.connected_disconnect h.inv.connections.peers.aligned hk hi
      exact ⟨y, hy, heq, rfl⟩
    · cases hout hpc
    · exact ⟨⟨hinv, hstuck, h.quiet⟩, fun _ => rfl, .of_eq rfl rfl⟩
  · exact ha.elim
  · exact ha.elim

/-- **A stuck thread stays stuck** while the server goes on by itself, and nothing is
received and no client is added meanwhile. -/
theorem Stuck.continues {x : ℕ} (h : Stuck p k x s) (hs : (system p).Steps s tr s')
    (hserver : ∀ a ∈ tr, a.IsServer) :
    (∀ j, received j tr = []) ∧ NothingAdded s s' := by
  induction hs with
  | refl s => exact ⟨fun _ => rfl, .of_eq rfl rfl⟩
  | head hstep _ ih =>
    obtain ⟨h₁, hnone, hsame⟩ := h.step hstep (hserver _ List.mem_cons_self)
    obtain ⟨hnone', hsame'⟩ := ih h₁ fun a ha => hserver a (List.mem_cons_of_mem _ ha)
    refine ⟨fun j => ?_, fun i sock hi => ?_⟩
    · rw [received_cons, hnone, hnone', List.nil_append]
    · obtain ⟨y, hy, hfd, hconnection⟩ := hsame' i sock hi
      obtain ⟨z, hz, hfd', hconnection'⟩ := hsame i y hy
      rw [hfd] at hfd' hconnection'
      exact ⟨z, hz, hfd', hconnection.trans hconnection'⟩

/-- A client whose peer is connected is not waiting to be added. -/
theorem Inv.not_waiting (h : Inv p s) (hi : s.server.Connected i sock) :
    ¬s.Waiting (s.connection sock.socketDescriptor) := by
  obtain ⟨-, -, hopen, hbase⟩ := h.connections.peers.peer i sock hi
  rintro (hj | ⟨y, hhand, heq⟩)
  · exact (h.connections.accepted _ hopen hbase).2 hj
  · obtain ⟨-, -, -, hopen', hbase', hne⟩ := h.connections.hand y hhand
    exact hne i sock hi (h.connections.distinct _ hopen _ hopen' hbase hbase' heq.symm)

/-! ### A client that is being disconnected -/

/-- The client `x` is not heard any more: it has been added, and a thread that has its
connection is about to disconnect it. -/
structure Unheard (p : Process) (x : ℕ) (s : State) : Prop where
  inv : Inv p s
  not_waiting : ¬s.Waiting x
  not_new : ∀ r, s.acceptor.slot = some r → s.peerSocket r ≠ x
  leaves : ∀ k, (s.client k).live = true → s.peerSocket (s.peerIndex k) = x →
    (s.client k).leaves = true

/-- The slots with a thread, or about to get one, whose connection is that of a connected
peer are the slot of this peer. -/
theorem Inv.slot_eq (h : Inv p s) (hi : s.server.Connected i sock) {t : Thread} {r : ℕ}
    (ht : s.owned t = some r)
    (heq : s.peerSocket r = s.connection sock.socketDescriptor) : r = i := by
  obtain ⟨y, hr⟩ := (h.threads.owned.used_iff r).mpr ⟨t, ht⟩
  obtain ⟨-, -, hopen, hbase⟩ := h.connections.peers.peer i sock hi
  obtain ⟨-, -, hopen', hbase'⟩ := h.connections.peers.peer r y hr
  refine h.connections.peers.distinct r i y sock hr hi ?_
  refine h.connections.distinct _ hopen' _ hopen hbase' hbase ?_
  rw [← heq, h.connections.peerSocket r y hr]

/-- **A client whose thread is about to disconnect it** is not heard any more. -/
theorem Inv.unheard (h : Inv p s) (hi : s.server.Connected i sock) (hatt : ¬Attended s i) :
    Unheard p (s.connection sock.socketDescriptor) s := by
  simp only [Attended, not_forall, Bool.not_eq_false] at hatt
  obtain ⟨k, hlive, hk, hleaves⟩ := hatt
  have howned : s.owned (.client k) = some i := State.owned_client_eq_some.mpr ⟨hlive, hk⟩
  refine ⟨h, h.not_waiting hi, fun r hr heq => ?_, fun k' hlive' heq => ?_⟩
  · -- the acceptor would own the slot as well
    obtain rfl := h.slot_eq (t := .acceptor) hi hr heq
    cases h.threads.owned.unique .acceptor (.client k) r hr howned
  · have howned' := State.owned_client hlive'
    have hslot := h.slot_eq hi howned' heq
    rw [hslot] at howned'
    obtain ⟨⟩ := h.threads.owned.unique (.client k') (.client k) i howned' howned
    exact hleaves

/-- Nobody new is waiting: the acceptor has the same socket in hand, or none. -/
theorem State.Waiting.of_hand (h : s'.Waiting j) (hpending : s'.pending = s.pending)
    (hconnection : s'.connection = s.connection)
    (hhand : ∀ sock, s'.acceptor.hand = some sock → s.acceptor.hand = some sock) :
    s.Waiting j := by
  rcases h with hj | ⟨sock, hsock, hj⟩
  · exact .inl (hpending ▸ hj)
  · exact .inr ⟨sock, hhand sock hsock, hconnection ▸ hj⟩

theorem State.Waiting.of_no_hand (h : s'.Waiting j) (hpending : s'.pending = s.pending)
    (hhand : s'.acceptor.hand = none) : s.Waiting j := by
  rcases h with hj | ⟨sock, hsock, -⟩
  · exact .inl (hpending ▸ hj)
  · rw [hhand] at hsock
    cases hsock

/-- The acceptor goes on, with no thread to create. -/
theorem Unheard.acceptorMovesOn {x : ℕ} (h : Unheard p x s) (hinv : Inv p s')
    (hwaiting : ¬s'.Waiting x) (hslot : s'.acceptor.slot = none) (hclient : s'.client = s.client)
    (hindex : s'.peerIndex = s.peerIndex) (hpeer : s'.peerSocket = s.peerSocket) :
    Unheard p x s' := by
  refine ⟨hinv, hwaiting, fun r hr => ?_, ?_⟩
  · rw [hslot] at hr
    cases hr
  · rw [hclient, hindex, hpeer]
    exact h.leaves

/-- **A step of the acceptor** does not make a client heard again. -/
theorem Unheard.acceptorStep {x : ℕ} (h : Unheard p x s) (hinv : Inv p s')
    (hs : ThreadPerClient.acceptorStep s = some s') : Unheard p x s' := by
  rcases acceptorStep_cases h.inv.threads.running hs with hpc | ⟨peer, hpc, -⟩ |
    ⟨peer, r, server, closed, hpc, -⟩ | ⟨r, hpc⟩ | ⟨n, hpc⟩ | hpc
  · exact h.acceptorMovesOn hinv (fun hw => h.not_waiting (hw.of_no_hand rfl rfl))
      rfl rfl rfl rfl
  · have hhand : ∀ sock, some peer = some sock → s.acceptor.hand = some sock := by
      rintro sock ⟨⟩
      rw [hpc]
      rfl
    exact h.acceptorMovesOn hinv (fun hw => h.not_waiting (hw.of_hand rfl rfl hhand))
      rfl rfl rfl rfl
  · -- the peer in hand is not that of `x`, and no thread has its slot yet
    have hne : s.connection peer.socketDescriptor ≠ x := fun hc =>
      h.not_waiting (.inr ⟨peer, by rw [hpc]; rfl, hc⟩)
    have hnew : Function.update s.peerSocket r (s.connection peer.socketDescriptor) r ≠ x := by
      rwa [Function.update_self]
    refine ⟨hinv, fun hw => h.not_waiting (hw.of_no_hand rfl rfl), ?_, fun k hlive heq => ?_⟩
    · rintro _ ⟨⟩
      exact hnew
    · by_cases hk : s.peerIndex k = r
      · exact absurd (hk ▸ heq) hnew
      · exact h.leaves k hlive ((Function.update_of_ne hk ..).symm.trans heq)
  · refine ⟨hinv, fun hw => h.not_waiting (hw.of_no_hand rfl rfl), fun _ hr => (by cases hr),
      fun k hlive heq => ?_⟩
    rcases eq_or_ne k s.started with rfl | hne
    · -- the new thread has another client
      replace heq : s.peerSocket (Function.update s.peerIndex s.started r s.started) = x := heq
      rw [Function.update_self] at heq
      exact absurd heq (h.not_new r (by rw [hpc]; rfl))
    · replace hlive : (s.client k).live = true := by
        simpa only [State.goto, Function.update_of_ne hne] using hlive
      replace heq : s.peerSocket (s.peerIndex k) = x := by
        simpa only [State.goto, Function.update_of_ne hne] using heq
      simpa only [State.goto, Function.update_of_ne hne] using h.leaves k hlive heq
  · exact h.acceptorMovesOn hinv (fun hw => h.not_waiting (hw.of_no_hand rfl rfl))
      rfl rfl rfl rfl
  · exact h.acceptorMovesOn hinv (fun hw => h.not_waiting (hw.of_no_hand rfl rfl))
      rfl rfl rfl rfl

/-- A thread goes on, and if it has the connection it is still about to disconnect. -/
theorem Unheard.goto {x : ℕ} (h : Unheard p x s) (hinv : Inv p s') {pc : ClientPc}
    (hwaiting : s'.Waiting x → s.Waiting x) (hacceptor : s'.acceptor = s.acceptor)
    (hclient : s'.client = (s.goto k pc).client) (hindex : s'.peerIndex = s.peerIndex)
    (hpeer : s'.peerSocket = s.peerSocket)
    (hpc : pc.live = true → s.peerSocket (s.peerIndex k) = x → pc.leaves = true) :
    Unheard p x s' := by
  refine ⟨hinv, fun hw => h.not_waiting (hwaiting hw), ?_, ?_⟩
  · rw [hacceptor, hpeer]
    exact h.not_new
  · rw [hclient, hindex, hpeer]
    intro k' hlive heq
    rcases eq_or_ne k' k with rfl | hne
    · rw [State.goto_client_self] at hlive ⊢
      exact hpc hlive heq
    · rw [State.goto_client_of_ne s hne] at hlive ⊢
      exact h.leaves k' hlive heq

/-- **A step of a client's thread** does not make a client heard again. -/
theorem Unheard.clientStep {x : ℕ} (h : Unheard p x s) (hinv : Inv p s')
    (hs : ThreadPerClient.clientStep k s = some s') : Unheard p x s' := by
  have hleaves : ∀ {pc}, MovesOn s k pc → SameMind (s.client k) pc → pc.live = true →
      s.peerSocket (s.peerIndex k) = x → pc.leaves = true := by
    intro pc hpc hmind hlive heq
    rw [hmind.leaves]
    exact h.leaves k (hpc.live ▸ hlive) heq
  rcases clientStep_cases h.inv.threads.running hs with ⟨pc, hpc, hmind, -, -⟩ |
    ⟨pc, hpc, hmind, -, -⟩ | ⟨pc, hpc, hmind, -, -⟩ | ⟨y, read, error, sock, -, -, -⟩ |
    ⟨server, closed, -, -⟩ | ⟨pc, y, bytes, sock, hpc, hmind, -, -, -, -, -⟩
  iterate 3
    exact h.goto hinv id rfl rfl rfl rfl (hleaves hpc hmind)
  · exact h.goto hinv id rfl rfl rfl rfl fun _ _ => rfl
  · exact h.goto hinv id rfl rfl rfl rfl nofun
  · exact h.goto hinv id rfl rfl rfl rfl (hleaves hpc hmind)

/-- **A client that is not heard any more** stays so in a step of the server, which
receives nothing from it. -/
theorem Unheard.step {x : ℕ} (h : Unheard p x s) (hs : (system p).Step s a s')
    (ha : a.IsServer) : Unheard p x s' ∧ received x [a] = [] := by
  have hinv := h.inv.step hs
  rcases a with _ | ⟨j, bytes⟩ | j | ⟨j, error⟩ | accepted | _ | ⟨k, y, r⟩ | k | ⟨j, n⟩ | j
  · exact ha.elim
  · exact ha.elim
  · exact ha.elim
  · exact ha.elim
  · rcases hs with _ | _ | _ | _ | ⟨_, hpc, hpending⟩
    refine ⟨?_, rfl⟩
    rcases accept_cases h.inv.connections hpending with ⟨kernel, -, heq, -, -⟩ |
      ⟨fd, j, pending, kernel, rfl, hcons, heq, -, -⟩
    · rw [heq] at hinv ⊢
      exact h.acceptorMovesOn hinv (fun hw => h.not_waiting (hw.of_no_hand rfl rfl))
        rfl rfl rfl rfl
    · rw [heq] at hinv ⊢
      refine h.acceptorMovesOn hinv ?_ rfl rfl rfl rfl
      -- the client in hand was pending
      rintro (hx | ⟨sock, ⟨⟩, hx⟩)
      · exact h.not_waiting (.inl (hcons ▸ List.mem_cons_of_mem j hx))
      · obtain rfl : j = x := (Function.update_self ..).symm.trans hx
        exact h.not_waiting (.inl (hcons ▸ List.mem_cons_self))
  · rcases hs with _ | _ | _ | _ | _ | hs
    exact ⟨h.acceptorStep hinv hs, rfl⟩
  · rcases hs with _ | _ | _ | _ | _ | _ | ⟨_, _, sock, _, st, hpc, -, -⟩
    -- a thread in `receive` is not about to disconnect its client
    have hne : s.peerSocket (s.peerIndex k) ≠ x := by
      intro hc
      have hleaves := h.leaves k (by rw [hpc]; rfl) hc
      rw [hpc] at hleaves
      cases hleaves
    refine ⟨h.goto hinv id rfl rfl rfl rfl fun _ hc => absurd hc hne, ?_⟩
    have hy : y = s.peerSocket (s.peerIndex k) :=
      h.inv.threads.pointer k y (by rw [hpc]; rfl)
    rcases r with bytes | ⟨read, error⟩
    · exact if_neg (hy ▸ hne)
    · rfl
  · rcases hs with _ | _ | _ | _ | _ | _ | _ | ⟨_, hs⟩
    exact ⟨h.clientStep hinv hs, rfl⟩
  · exact ha.elim
  · exact ha.elim

/-- **Nothing is received** from a client that is not heard any more, while the server
goes on by itself. -/
theorem Unheard.continues {x : ℕ} (h : Unheard p x s) (hs : (system p).Steps s tr s')
    (hserver : ∀ a ∈ tr, a.IsServer) : received x tr = [] := by
  induction hs with
  | refl s => rfl
  | head hstep _ ih =>
    obtain ⟨h₁, hnone⟩ := h.step hstep (hserver _ List.mem_cons_self)
    rw [received_cons, hnone, ih h₁ fun a ha => hserver a (List.mem_cons_of_mem _ ha)]
    rfl

/-! ### The chunks that are received -/

/-- What a `receive` returns is a chunk. -/
theorem length_of_receive {c : List UInt8} {x : ℕ}
    (hs : (system p).Step s (.receive k x (.data c)) s') : 0 < c.length ∧ c.length ≤ 32 := by
  rcases hs with _ | _ | _ | _ | _ | _ | ⟨_, _, _, _, _, -, -, hst⟩
  rcases hst with ⟨_, _, hpos, hle, -⟩
  exact ⟨hpos, hle⟩

/-- **A client whose `quit` has been received** is not heard any more. -/
theorem Inv.unheard_of_quit (h : Inv p s) {c : List UInt8} {x : ℕ} (hquit : isQuit c = true)
    (hs : (system p).Step s (.receive k x (.data c)) s') : Unheard p x s' := by
  have h' := h.step hs
  have hpc : s'.client k = .unlock x (.data c) := by
    rcases hs
    exact State.goto_client_self ..
  obtain ⟨sock, hi, -, rfl⟩ := h'.deref (k := k) (x := x) (by rw [hpc]; rfl)
  refine h'.unheard hi fun hatt => ?_
  have hleaves := hatt k (by rw [hpc]; rfl) rfl
  rw [hpc] at hleaves
  exact ne_true_of_eq_false hleaves hquit

/-- **The chunks that are received** while the server goes on by itself: at most 32 bytes each,
and nothing comes after `quit`. -/
theorem chunks_of_continues (h : Inv p s) (hs : (system p).Steps s tr s')
    (hserver : ∀ a ∈ tr, a.IsServer) :
    (∀ c ∈ chunks j tr, 0 < c.length ∧ c.length ≤ 32) ∧
      ∀ c ∈ (chunks j tr).dropLast, isQuit c = false := by
  induction hs with
  | refl s => exact ⟨by simp [chunks], by simp [chunks]⟩
  | @head s s₁ s' a tr hstep hsteps ih =>
    have hserver' : ∀ a ∈ tr, a.IsServer := fun a ha => hserver a (List.mem_cons_of_mem _ ha)
    obtain ⟨hlength, hquit⟩ := ih (h.step hstep) hserver'
    by_cases hr : ∃ k c, a = .receive k j (.data c)
    · obtain ⟨k, c, rfl⟩ := hr
      have hcons : chunks j (.receive k j (.data c) :: tr) = c :: chunks j tr := if_pos rfl
      rw [hcons]
      refine ⟨List.forall_mem_cons.mpr ⟨length_of_receive hstep, hlength⟩, ?_⟩
      rcases hrest : chunks j tr with _ | ⟨d, ds⟩
      · intro d hd
        cases hd
      rw [hrest] at hquit hlength
      refine List.forall_mem_cons.mpr ⟨?_, hquit⟩
      by_contra hc
      -- after `quit` there would be nothing more
      have hnone := (h.unheard_of_quit (Bool.eq_true_of_not_eq_false hc) hstep).continues hsteps
        hserver'
      rw [← flatten_chunks, hrest, List.flatten_cons, List.append_eq_nil_iff] at hnone
      have hpos := (hlength d List.mem_cons_self).1
      rw [hnone.1] at hpos
      exact Nat.lt_irrefl 0 hpos
    · have hnone : chunks j [a] = [] := by
        rcases a with _ | _ | _ | _ | _ | _ | ⟨k, x, c | ⟨read, error⟩⟩ | _ | _ | _
        all_goals try rfl
        refine if_neg ?_
        rintro rfl
        exact hr ⟨k, c, rfl⟩
      rw [chunks_cons, hnone]
      exact ⟨hlength, hquit⟩

/-! ### The result -/

/-- **Whatever can be received** comes in chunks with room for the replies. -/
theorem exists_cut {tr' : List Action} (hrun : (system p).Run tr' s)
    (hi : s.server.Connected i sock) (hs : (system p).Steps s tr s')
    (hserver : ∀ a ∈ tr, a.IsServer)
    (hreceived : received (s.connection sock.socketDescriptor) tr = s.unread sock) :
    ∃ cs, Cut cs (s.unread sock) ∧ HasRoom (s.connection sock.socketDescriptor) cs.length s := by
  have h := inv_of_run hrun
  obtain ⟨hlength, hquit⟩ :=
    chunks_of_continues (j := s.connection sock.socketDescriptor) h hs hserver
  obtain ⟨-, -, hopen, hbase⟩ := h.connections.peers.peer i sock hi
  have hj := (h.connections.accepted _ hopen hbase).1
  rw [← connected_of_continues h hs hserver] at hj
  refine ⟨_, ⟨(flatten_chunks _ tr).trans hreceived, hlength, hquit⟩, ?_⟩
  rw [← Nat.zero_add (List.length _)]
  exact (hasRoom_of_continues h hs hserver).mpr ((inv_of_run (hrun.append hs)).backlog.hasRoom hj)

/-- **A client that nobody blocks** is served, if there is room for the replies. -/
theorem exists_chunks_of_not_waits (h : Inv p s) (hwaits : ∀ k y, ¬Waits s k y)
    (hi : s.server.Connected i sock) (hatt : Attended s i) (hcut : Cut cs (s.unread sock))
    (hroom : HasRoom (s.connection sock.socketDescriptor) cs.length s) :
    ∃ tr s', Proceeds p s tr s' ∧ chunks (s.connection sock.socketDescriptor) tr = cs := by
  by_cases hr : Receiving s i
  · -- its thread is in `receive`
    obtain ⟨k, x, hpc, hk⟩ := hr
    rcases cs with _ | ⟨c, cs⟩
    · exact ⟨[], s, .refl s, rfl⟩
    refine exists_chunks_of_receive h hi hatt hpc hk hcut fun s' hserves hfree => ?_
    have hcut' : Cut cs (s'.unread sock) := by
      rw [← hserves.unread, List.flatten_singleton] at hcut
      exact hcut.tail
    exact exists_chunks_of_free hserves.inv hfree hserves.connected hserves.attended hcut'
      ((hserves.hasRoom h).mp hroom)
  · obtain ⟨tr, s₁, hproceeds, h₁, hfree, -, -, hkeeps⟩ := frees_of_not_waits h hwaits
    obtain ⟨hkeep, hchunks⟩ := hkeeps i sock hi hatt hr
    have hserves : Serves p i sock s [] s₁ := ⟨tr, hproceeds, h₁, hkeep, hchunks⟩
    rw [← show s₁.unread sock = s.unread sock from hserves.unread] at hcut
    obtain ⟨tr', s', hproceeds', hchunks'⟩ := exists_chunks_of_free h₁ hfree hserves.connected
      hserves.attended hcut ((hserves.hasRoom h).mp hroom)
    refine ⟨tr ++ tr', s', hproceeds.trans hproceeds', ?_⟩
    rw [chunks_append, hchunks, List.nil_append, ← hserves.connection, hchunks']

/-- **A client that has connected is added**, if no client blocks it. -/
theorem exists_added_of_not_waits (h : Inv p s) (hwaits : ∀ k y, ¬Waits s k y)
    (hj : s.Waiting j) : ∃ tr s', Proceeds p s tr s' ∧
      ∃ i sock, s'.server.Connected i sock ∧ s'.connection sock.socketDescriptor = j := by
  obtain ⟨tr₁, s₁, hproceeds, h₁, hfree, hpending, hsame, -⟩ := frees_of_not_waits h hwaits
  rcases hj with hj | ⟨sock, hhand, rfl⟩
  · -- pending: the acceptor gets to it in its turn
    obtain ⟨tr₂, s₂, hproceeds', hadded⟩ := exists_added h₁ hfree (hpending ▸ hj)
    exact ⟨tr₁ ++ tr₂, s₂, hproceeds.trans hproceeds', hadded⟩
  · -- in hand: the acceptor waits for the lock, or has it
    rcases hpc : s.acceptor with _ | _ | peer | peer | _ | _ | _ | _
    all_goals rw [hpc] at hhand
    all_goals obtain ⟨⟩ := hhand
    · obtain ⟨hpc₁, hconnection₁⟩ := hsame (by rw [hpc]; rfl)
      obtain ⟨tr₂, s₂, hproceeds', i, hi, hconnection⟩ :=
        exists_added_of_lock h₁ hfree (hpc₁.trans hpc)
      exact ⟨tr₁ ++ tr₂, s₂, hproceeds.trans hproceeds', i, _, hi,
        by rw [hconnection, hconnection₁]⟩
    · obtain ⟨r, s₂, hs₂, -, -, hconnection, hi⟩ := acceptorStep_addPeer h hpc
      exact ⟨_, s₂, .single (.acceptor hs₂) .acceptor, r, _, hi, by rw [hconnection]⟩

/-- **The clients are independent of each other exactly if** no client blocks another, none
that has sent something is about to be disconnected, and there is room for the replies: in every
state of every run, whatever the clients have done. -/
theorem independent_iff_not_blocked (hrun : (system p).Run tr s) :
    Independent p s ↔ ¬Blocked s ∧ AllAttended s ∧ Roomy s := by
  have h := inv_of_run hrun
  constructor
  · refine fun hind => ⟨?_, fun i sock hi hunread => ?_, fun i sock hi hunread => ?_⟩
    · rintro ⟨⟨k, sock, x, hpc, hderef, hquiet⟩, hwaiting⟩
      obtain ⟨-, hconnection⟩ := h.of_deref (by rw [hpc]; rfl) hderef
      rw [hconnection] at hquiet
      have hstuck : Stuck p k x s := ⟨h, hpc, hquiet⟩
      rcases hwaiting with ⟨j, hj⟩ | ⟨i, sock, hi, hunread⟩
      · obtain ⟨tr', s', ⟨hsteps, hserver⟩, i, y, hi, rfl⟩ := hind.added j hj
        obtain ⟨z, hz, hfd, heq⟩ := (hstuck.continues hsteps hserver).2 i y hi
        rw [heq, ← hfd] at hj
        exact h.not_waiting hz hj
      · obtain ⟨tr', s', ⟨hsteps, hserver⟩, hreceived⟩ := hind.served i sock hi hunread
        rw [(hstuck.continues hsteps hserver).1] at hreceived
        exact hunread hreceived.symm
    · by_contra hatt
      obtain ⟨tr', s', ⟨hsteps, hserver⟩, hreceived⟩ := hind.served i sock hi hunread
      rw [(h.unheard hi hatt).continues hsteps hserver] at hreceived
      exact hunread hreceived.symm
    · obtain ⟨tr', s', ⟨hsteps, hserver⟩, hreceived⟩ := hind.served i sock hi hunread
      exact exists_cut hrun hi hsteps hserver hreceived
  · rintro ⟨hblocked, hattended, hroomy⟩
    refine ⟨fun i sock hi hunread => ?_, fun j hj => ?_⟩
    · obtain ⟨cs, hcut, hroom⟩ := hroomy i sock hi hunread
      obtain ⟨tr', s', hproceeds, hchunks⟩ := exists_chunks_of_not_waits h
        (fun k y hwaits => hblocked ⟨⟨k, y, hwaits⟩, .inr ⟨i, sock, hi, hunread⟩⟩) hi
        (hattended i sock hi hunread) hcut hroom
      exact ⟨tr', s', hproceeds.continues, by rw [← flatten_chunks, hchunks, hcut.flatten]⟩
    · obtain ⟨tr', s', hproceeds, hadded⟩ := exists_added_of_not_waits h
        (fun k y hwaits => hblocked ⟨⟨k, y, hwaits⟩, .inl ⟨j, hj⟩⟩) hj
      exact ⟨tr', s', hproceeds.continues, hadded⟩

/-! ### A silent client

Two clients have connected, and the second has sent a byte. -/

/-- The second client is about to be accepted. -/
def twoConnecting : State := (connecting oneClient).get rfl

/-- The second client has been added, with the descriptor `6`. -/
def twoClients : State := (adding 6 twoConnecting).get rfl

/-- The second client has sent a byte. -/
def oneByte : State :=
  { twoClients with
    stream := Function.update twoClients.stream 1
      { twoClients.stream 1 with inbox := (twoClients.stream 1).inbox ++ [65] } }

/-- The thread of the first client is in `receive`. -/
def receiving : State :=
  (runThreads [.client 0, .client 0, .client 0, .client 0] oneByte).get rfl

theorem run_oneByte : ∃ tr, ((system process).restrict fun _ _ => True).Run tr oneByte := by
  obtain ⟨tr, h₀⟩ := run_oneClient (C := fun _ _ => True) (fun _ _ => trivial) trivial trivial
  obtain ⟨_, h₁⟩ : ∃ tr, ((system process).restrict fun _ _ => True).Run tr twoConnecting :=
    run_connecting (fun _ _ => trivial) trivial h₀ (by decide) (Option.some_get _).symm
  obtain ⟨_, h₂⟩ : ∃ tr, ((system process).restrict fun _ _ => True).Run tr twoClients :=
    run_accepting (fun _ _ => trivial) trivial h₁ rfl ⟨by decide, by decide, by decide⟩ (by decide)
      _ (Option.some_get _).symm
  exact ⟨_, h₂.snoc ⟨.send (s := twoClients) 1 [65] (by decide) rfl, trivial⟩⟩

/-- While the thread of the first client is not in `receive`, nobody is blocked. -/
theorem independent_one_byte : Independent process oneByte := by
  obtain ⟨tr, hrun⟩ := run_oneByte
  refine (independent_iff_not_blocked hrun.of_restrict).mpr
    ⟨?_, fun i sock hi hunread => ?_, fun i sock hi hunread => ?_⟩
  · rintro ⟨⟨k, sock, x, hpc, -⟩, -⟩
    rcases k with _ | _ | k <;> cases hpc
  · intro k hlive hk
    rcases k with _ | _ | k
    · rfl
    · rfl
    · cases hlive
  · -- nothing has been received, so no reply is owed
    have hnot : ¬Owes (oneByte.connection sock.socketDescriptor) oneByte := by
      rintro ⟨k, hk⟩
      rcases k with _ | _ | k <;> exact hk rfl
    rcases i with _ | _ | i
    · obtain ⟨-, ⟨⟩⟩ := hi
      exact absurd rfl hunread
    · obtain ⟨-, ⟨⟩⟩ := hi
      exact ⟨[[65]], ⟨rfl, by decide, by decide⟩, .inr ⟨by decide, fun hc => absurd hc hnot⟩⟩
    · obtain ⟨hc, -⟩ := hi
      cases hc

/-- **A silent client keeps another from being served.** -/
theorem silent_client_blocks : ∃ tr, (system process).Run tr receiving ∧
    receiving.server.Connected 1 ⟨6, .connected⟩ ∧ Attended receiving 1 ∧
    receiving.unread ⟨6, .connected⟩ = [65] ∧
    (∀ tr' s', Continues process receiving tr' s' → received 1 tr' = []) ∧
    ¬Independent process receiving := by
  obtain ⟨tr₀, h₀⟩ := run_oneByte
  have hrun : (system process).Run _ receiving :=
    (run_runThreads (fun _ _ => trivial) [.client 0, .client 0, .client 0, .client 0] h₀
      (Option.some_get _).symm).of_restrict
  have hstuck : Stuck process 0 0 receiving := ⟨inv_of_run hrun, rfl, rfl, rfl, rfl⟩
  have hnone : ∀ tr' s', Continues process receiving tr' s' → received 1 tr' = [] :=
    fun tr' s' hs => (hstuck.continues hs.1 hs.2).1 1
  have hconnected : receiving.server.Connected 1 ⟨6, .connected⟩ := ⟨rfl, rfl⟩
  have hatt : Attended receiving 1 := by
    intro k hlive hk
    rcases k with _ | _ | k
    · cases hk
    · rfl
    · cases hlive
  refine ⟨_, hrun, hconnected, hatt, rfl, hnone, fun hind => ?_⟩
  obtain ⟨tr', s', hs, hreceived⟩ := hind.served 1 _ hconnected (by decide)
  have heq : receiving.connection 6 = 1 := rfl
  rw [heq, hnone tr' s' hs] at hreceived
  cases hreceived

end ThreadPerClient

end Net

end LowLatency
