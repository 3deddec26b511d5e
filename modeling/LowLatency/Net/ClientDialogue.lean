import LowLatency.Net.EndOfStream
import LowLatency.Net.Session

/-!
# The dialogue in the thread-per-client server

The dialogue of `LowLatency.Net.Session`, carried on by the thread of one client while the
other threads run (`LowLatency.Net.ThreadPerClient.dialogue`). The thread receives a chunk
under the lock and replies to it later; the reply is the step of the dialogue.

No byte is lost or taken by another thread between the two: what the dialogue has on its way to
the server is what the thread has in hand, and behind it what is still in the connection
(`LowLatency.Net.ThreadPerClient.linked_of_run`). So every chunk is replied to
(`LowLatency.Net.ThreadPerClient.exists_handle`), and the thread disconnects the client when
the dialogue says so, and not before (`LowLatency.Net.ThreadPerClient.tracks_of_run`).
-/

namespace LowLatency

namespace Net

namespace ThreadPerClient

/-- The steps that are part of the dialogue with the client `j`: its sends, and the reply of
the thread that has received a chunk from it. -/
def observed (j : ℕ) (s : State) (_ : Session.State) : Action → Option Session.Action
  | .send i bytes => if i = j then some (.send bytes) else none
  | .client k =>
    match s.client k with
    | .handle peerSocket (.data chunk) => if peerSocket = j then some (.handle chunk) else none
    | _ => none
  | _ => none

/-- No `receive` from the client `j` fails. -/
def Delivers (j : ℕ) (_ : State) (a : Action) : Prop :=
  ∀ k read error, a ≠ .receive k j (.failed read error)

/-- **The thread-per-client server in dialogue** with the client `j`. -/
def dialogue (p : Process) (j : ℕ) (ns : List ℕ) :
    TransitionSystem (State × Session.State) (Action ⊕ Session.Action) :=
  ((system p).restrict (Delivers j)).observe (Session.system ns) (observed j)
    fun b => ∃ bytes, b = .deliver bytes

variable {p : Process} {s s' : State} {r r' : Session.State} {j k : ℕ} {ns : List ℕ}

/-- **What is on its way to the server** in the dialogue is the chunk that has been received and
not been replied to, and what has not been received from the connection. -/
structure Linked (j : ℕ) (s : State) (r : Session.State) : Prop where
  early : s.connected ≤ j → r.toServer = []
  quiet : j < s.connected → (∀ k, (s.client k).chunk j = none) → r.toServer = (s.stream j).inbox
  busy : ∀ k chunk, (s.client k).chunk j = some chunk →
    (Received.data chunk).Admissible ∧ r.toServer = chunk ++ (s.stream j).inbox

/-- A step that does not touch the client's bytes. -/
theorem Linked.frame (h : Linked j s r) (hconnected : s'.connected = s.connected)
    (hinbox : (s'.stream j).inbox = (s.stream j).inbox)
    (hchunk : ∀ k, (s'.client k).chunk j = (s.client k).chunk j)
    (hto : r'.toServer = r.toServer) : Linked j s' r' := by
  refine ⟨fun hj => ?_, fun hj hnone => ?_, fun k chunk hk => ?_⟩
  · rw [hto]
    exact h.early (hconnected ▸ hj)
  · rw [hto, hinbox]
    exact h.quiet (hconnected ▸ hj) fun k => hchunk k ▸ hnone k
  · rw [hto, hinbox]
    exact h.busy k chunk (hchunk k ▸ hk)

/-- **A step of a client's thread** does not touch a client's bytes, unless it is the reply. -/
theorem Linked.clientStep (h : Linked j s r) (hinv : Inv p s)
    (hs : ThreadPerClient.clientStep k s = some s')
    (hreply : ∀ chunk, s.client k ≠ .handle j (.data chunk)) : Linked j s' r := by
  rcases clientStep_cases hinv.threads.running hs with ⟨pc, -, -, -, -, hchunk⟩ |
    ⟨pc, -, -, -, -, hchunk⟩ | ⟨pc, -, -, -, -, hchunk⟩ | ⟨x, read, error, sock, hpc, -, -⟩ |
    ⟨server, closed, hpc, -⟩ | ⟨pc, x, bytes, sock, -, -, -, hpc, -, -, hnone⟩
  iterate 3
    exact h.frame rfl rfl (chunk_goto (hchunk j)) rfl
  · exact h.frame rfl rfl (chunk_goto (by rw [hpc]; rfl)) rfl
  · exact h.frame rfl rfl (chunk_goto (by rw [hpc]; rfl)) rfl
  · have hne : x ≠ j := by
      rintro rfl
      exact hreply bytes hpc
    refine h.frame rfl rfl (chunk_goto ?_) rfl
    rw [hnone, hpc]
    exact (if_neg hne).symm

/-- **A `receive`** takes a chunk off the client's bytes, if it is from this client. -/
theorem Linked.receive (h : Linked j s r) (hinv : Inv p s) {x : ℕ} {received : Received}
    (hs : (system p).Step s (.receive k x received) s') : Linked j s' r := by
  rcases hs with _ | _ | _ | _ | _ | _ | ⟨_, _, sock, _, st, hpc, hderef, hst⟩
  have hpointer : (s.client k).pointer = some x := by rw [hpc]; rfl
  obtain ⟨-, hconnection⟩ := hinv.of_deref hpointer hderef
  rw [hconnection] at hst ⊢
  have hnone : (s.client k).chunk j = none := by rw [hpc]; rfl
  rcases eq_or_ne x j with rfl | hne
  · rcases hst with ⟨chunk, rest, hpos, hle, hinbox⟩ | _ | _ | _
    · -- no other thread has a chunk of this client
      have hother : ∀ l, l ≠ k → (s.client l).chunk x = none := by
        intro l hl
        rw [Option.eq_none_iff_forall_not_mem]
        intro chunk' hchunk'
        exact hl (hinv.eq_of_pointer (ClientPc.pointer_of_chunk hchunk') hpointer)
      have hto : r.toServer = (s.stream x).inbox := by
        refine h.quiet (hinv.lt_connected hpointer) fun l => ?_
        rcases eq_or_ne l k with rfl | hl
        · exact hnone
        · exact hother l hl
      refine ⟨fun hj => absurd (hinv.lt_connected hpointer) hj.not_gt, fun _ hall => ?_,
        fun l chunk' hl => ?_⟩
      · have hk := hall k
        simp at hk
      · rcases eq_or_ne l k with rfl | hne
        · simp only [State.goto_client_self, ClientPc.chunk, if_true, Option.some_inj] at hl
          subst hl
          refine ⟨⟨hpos, hle⟩, ?_⟩
          simp only [Function.update_self]
          rw [hto, hinbox]
        · simp only [State.goto_client_of_ne s hne] at hl
          rw [hother l hne] at hl
          cases hl
    all_goals
      refine h.frame rfl (by simp only [Function.update_self]) (chunk_goto ?_) rfl
      rw [hnone]
      rfl
  · refine h.frame rfl ?_ (chunk_goto ?_) rfl
    · show (Function.update s.stream x st j).inbox = _
      rw [Function.update_of_ne hne.symm]
    · rw [hnone]
      rcases received with chunk | _
      · exact if_neg hne
      · rfl

/-- **The client sends**, behind what it has sent before. -/
theorem Linked.send (h : Linked j s r) {bytes : List UInt8} (hj : j < s.connected)
    (hto : r'.toServer = r.toServer ++ bytes) :
    Linked j
      { s with
        stream := Function.update s.stream j
          { s.stream j with inbox := (s.stream j).inbox ++ bytes } } r' := by
  refine ⟨fun hj' => absurd hj hj'.not_gt, fun _ hnone => ?_, fun k chunk hk => ?_⟩
  all_goals dsimp only
  · rw [hto, h.quiet hj hnone, Function.update_self]
  · obtain ⟨hchunk, hbusy⟩ := h.busy k chunk hk
    rw [hto, hbusy, Function.update_self, List.append_assoc]
    exact ⟨hchunk, rfl⟩

/-- **Another client sends**, a client connects, closes its connection or loses it, or the acceptor
takes a step. -/
theorem Linked.other (h : Linked j s r) (hinv : Inv p s) {a : Action} (hs : (system p).Step s a s')
    (hsend : ∀ bytes, a ≠ .send j bytes) (hreceive : ∀ k x received, a ≠ .receive k x received)
    (hclient : ∀ k, a ≠ .client k) : Linked j s' r := by
  rcases hs with - | ⟨i, bytes, -, -⟩ | ⟨i, -⟩ | ⟨i, error, -⟩ | ⟨accepted, -, hpending⟩ | hs |
    ⟨k, x, sock, received, st, -, -, -⟩ | ⟨k, -⟩ | - | ⟨i, -⟩
  · -- a new client has sent nothing
    refine ⟨fun hj => h.early (Nat.le_of_succ_le hj), fun hj hnone => ?_, fun k chunk hk => ?_⟩
    all_goals dsimp only
    · rcases Nat.lt_succ_iff_lt_or_eq.mp hj with hlt | rfl
      · rw [h.quiet hlt hnone, Function.update_of_ne hlt.ne]
      · rw [h.early le_rfl, Function.update_self]
        rfl
    · have hlt := hinv.lt_connected (ClientPc.pointer_of_chunk hk)
      rw [Function.update_of_ne hlt.ne]
      exact h.busy k chunk hk
  · have hne : j ≠ i := by
      rintro rfl
      exact hsend bytes rfl
    refine h.frame rfl ?_ (fun _ => rfl) rfl
    dsimp only
    rw [Function.update_of_ne hne]
  iterate 2
    refine h.frame rfl ?_ (fun _ => rfl) rfl
    dsimp only
    rcases eq_or_ne j i with rfl | hne
    · rw [Function.update_self]
    · rw [Function.update_of_ne hne]
  · rcases accept_cases hinv.connections hpending with ⟨kernel, -, heq, -⟩ |
      ⟨fd, i, pending, kernel, -, -, heq, -⟩
    all_goals
      rw [heq]
      exact h.frame rfl rfl (fun _ => rfl) rfl
  · rcases acceptorStep_cases hinv.threads.running hs with - | - | - | - | - | -
    · exact h.frame rfl rfl (fun _ => rfl) rfl
    · exact h.frame rfl rfl (fun _ => rfl) rfl
    · exact h.frame rfl rfl (fun _ => rfl) rfl
    · refine h.frame rfl rfl (chunk_goto ?_) rfl
      rw [hinv.threads.started _ le_rfl]
      rfl
    · exact h.frame rfl rfl (fun _ => rfl) rfl
    · exact h.frame rfl rfl (fun _ => rfl) rfl
  · exact absurd rfl (hreceive k x received)
  · exact absurd rfl (hclient k)
  · exact h.frame rfl rfl (fun _ => rfl) rfl
  · refine h.frame rfl ?_ (fun _ => rfl) rfl
    dsimp only
    rcases eq_or_ne j i with rfl | hne
    · rw [Function.update_self]
    · rw [Function.update_of_ne hne]

/-- **The reply leaves** what has not been received from the connection. -/
theorem Linked.reply (h : Linked j s r) (hinv : Inv p s) {chunk rest : List UInt8}
    (hk : s.client k = .handle j (.data chunk)) (hto : r.toServer = chunk ++ rest)
    (hs : ThreadPerClient.clientStep k s = some s') : Linked j s' (r.handleClient chunk rest) := by
  obtain ⟨-, rfl⟩ := (hinv.clientStep_reply hk).mp hs
  have hpointer : (s.client k).pointer = some j := by rw [hk]; rfl
  obtain ⟨-, hbusy⟩ := h.busy k chunk (by rw [hk]; exact if_pos rfl)
  obtain rfl : rest = (s.stream j).inbox := List.append_cancel_left (hto.symm.trans hbusy)
  have hnone : ∀ l, (((s.goto k (if isQuit chunk then .lockRemove else .check)).reply j).client
      l).chunk j = none := by
    intro l
    rcases eq_or_ne l k with rfl | hne
    · rw [State.reply_client, State.goto_client_self]
      split_ifs <;> rfl
    · rw [State.reply_client, State.goto_client_of_ne s hne, Option.eq_none_iff_forall_not_mem]
      intro chunk' hchunk'
      exact hne (hinv.eq_of_pointer (ClientPc.pointer_of_chunk hchunk') hpointer)
  refine ⟨fun hj => absurd (hinv.lt_connected hpointer) hj.not_gt, fun _ _ => rfl,
    fun l chunk' hl => ?_⟩
  rw [hnone l] at hl
  cases hl

theorem observed_client {chunk : List UInt8} (hk : s.client k = .handle j (.data chunk)) :
    observed j s r (.client k) = some (.handle chunk) := by
  simp only [observed, hk, if_true]

theorem observed_eq_some {a : Action} {b : Session.Action} (h : observed j s r a = some b) :
    (∃ bytes, a = .send j bytes ∧ b = .send bytes) ∨
    ∃ k chunk, a = .client k ∧ s.client k = .handle j (.data chunk) ∧ b = .handle chunk := by
  rcases a with _ | ⟨i, bytes⟩ | _ | _ | _ | _ | _ | k | _ | _
  all_goals try cases h
  · rw [observed] at h
    split_ifs at h with hi
    cases h
    exact .inl ⟨bytes, hi ▸ rfl, rfl⟩
  · simp only [observed] at h
    split at h
    · rename_i x chunk hk
      split_ifs at h with hx
      cases h
      exact .inr ⟨k, chunk, rfl, hx ▸ hk, rfl⟩
    · cases h

/-- **A step of the server in dialogue** keeps the two together. -/
theorem Linked.step {x x' : State × Session.State} {a : Action ⊕ Session.Action}
    (h : Linked j x.1 x.2) (hinv : Inv p x.1) (hs : (dialogue p j ns).Step x a x') :
    Linked j x'.1 x'.2 := by
  rcases hs with ⟨a, ⟨hs, -⟩, hnone⟩ | ⟨a, b, ⟨hs, -⟩, hobs, hsession⟩ | ⟨b, hsession, hfree⟩
  · have hsend : ∀ bytes, a ≠ .send j bytes := by
      rintro bytes rfl
      rw [observed, if_pos rfl] at hnone
      cases hnone
    rcases a with _ | _ | _ | _ | _ | _ | ⟨k, x, received⟩ | k | _ | _
    iterate 6
      exact h.other hinv hs hsend nofun nofun
    · exact h.receive hinv hs
    · rcases hs with _ | _ | _ | _ | _ | _ | _ | ⟨_, hs⟩
      refine h.clientStep hinv hs fun chunk hk => ?_
      rw [observed_client hk] at hnone
      cases hnone
    iterate 2
      exact h.other hinv hs hsend nofun nofun
  · rcases observed_eq_some hobs with ⟨bytes, rfl, rfl⟩ | ⟨k, chunk, rfl, hk, rfl⟩
    · rcases hs with _ | ⟨_, _, hj, -⟩
      rcases hsession with ⟨n, ns', -⟩ | - | _ | _
      · exact h.send hj rfl
      · exact h.send hj rfl
    · rcases hs with _ | _ | _ | _ | _ | _ | _ | ⟨_, hs⟩
      rcases hsession with _ | _ | _ | ⟨_, rest, -, hto⟩
      exact h.reply hinv hk hto hs
  · obtain ⟨bytes, rfl⟩ := hfree
    rcases hsession with _ | _ | ⟨_, rest, ns', -, -, -⟩ | _
    exact h.frame rfl rfl (fun _ => rfl) rfl

/-- The runs of the server in dialogue are runs of the server. -/
theorem reachable_dialogue {tr : List (Action ⊕ Session.Action)} {x : State × Session.State}
    (h : (dialogue p j ns).Run tr x) : ((system p).restrict (Delivers j)).Reachable x.1 :=
  TransitionSystem.reachable_fst h

/-- **No byte is lost** between the client and the replies. -/
theorem linked_of_run {tr : List (Action ⊕ Session.Action)} {x : State × Session.State}
    (h : (dialogue p j ns).Run tr x) : Linked j x.1 x.2 := by
  refine h.invariant (I := fun _ x => Linked j x.1 x.2) ?_ ?_
  · rintro ⟨s, r⟩ ⟨⟨-, -, -, -, -, -, hclient, -, -, -, hconnected, -⟩, rfl⟩
    refine ⟨fun _ => rfl, fun hj => ?_, fun k chunk hk => ?_⟩
    · exact absurd hj (by rw [hconnected]; exact Nat.not_lt_zero j)
    · rw [hclient k] at hk
      cases hk
  · intro tr x a x' hrun ih hs
    obtain ⟨tr₁, h₁⟩ := reachable_dialogue hrun
    exact ih.step (inv_of_run h₁.of_restrict) hs

/-- **Every chunk is replied to**: a thread that has received one can go on, and the dialogue
with it, once there is room for the reply. -/
theorem exists_handle {tr : List (Action ⊕ Session.Action)} {x : State × Session.State}
    (h : (dialogue p j ns).Run tr x) {chunk : List UInt8}
    (hk : x.1.client k = .handle j (.data chunk)) (hfull : x.1.full j = false) :
    ∃ s', (dialogue p j ns).Step x (.inl (.client k))
      (s', x.2.handleClient chunk (x.1.stream j).inbox) := by
  obtain ⟨tr₁, h₁⟩ := reachable_dialogue h
  obtain ⟨hchunk, hto⟩ := (linked_of_run h).busy k chunk (by rw [hk]; exact if_pos rfl)
  have hs : (system p).Step x.1 (.client k) _ :=
    .client k (((inv_of_run h₁.of_restrict).clientStep_reply hk).mpr ⟨hfull, rfl⟩)
  exact ⟨_, .joint _ (.handle chunk) ⟨hs, by simp [Delivers]⟩ (observed_client hk)
    (.handle chunk _ hchunk hto)⟩

/-! ### The removal of the client -/

/-- The threads have received nothing but bytes from the client `j`. -/
def Heard (j : ℕ) (s : State) : Prop :=
  ∀ k received, (s.client k).pointer = some j → (s.client k).received = some received →
    ∃ chunk, received = .data chunk

/-- A thread that moves on has received what it had before, from the same connection. -/
theorem Inv.received_goto (h : Inv p s) {pc : ClientPc} (hpc : MovesOn s k pc)
    (hmind : SameMind (s.client k) pc) {received : Received} (hpointer : pc.pointer = some j)
    (hreceived : pc.received = some received) :
    (s.client k).pointer = some j ∧ (s.client k).received = some received := by
  have hsame := hmind.received received hreceived
  refine ⟨?_, hsame⟩
  rcases hpc.pointer j hpointer with hk | hslot
  · exact hk
  · -- the pointer is to the connection in the slot, before and after
    obtain ⟨x, hx⟩ : ∃ x, (s.client k).pointer = some x := by
      rcases hk : s.client k with _ | _ | _ | _ | _ | _ | ⟨x, r⟩ | ⟨x, r⟩ | _ | _ | _ | _
      all_goals rw [hk] at hsame
      all_goals first | exact ⟨_, rfl⟩ | cases hsame
    rw [hx, hslot, h.threads.pointer k x hx]

/-- A thread goes on to `pc`, having heard nothing else than bytes. -/
theorem Heard.goto (h : Heard j s) {pc : ClientPc}
    (hpc : ∀ received, pc.pointer = some j → pc.received = some received →
      ∃ chunk, received = .data chunk) : Heard j (s.goto k pc) := by
  intro l received hpointer hreceived
  rcases eq_or_ne l k with rfl | hne
  · rw [State.goto_client_self] at hpointer hreceived
    exact hpc received hpointer hreceived
  · rw [State.goto_client_of_ne s hne] at hpointer hreceived
    exact h l received hpointer hreceived

theorem Heard.step {a : Action} (h : Heard j s) (hinv : Inv p s) (hs : (system p).Step s a s')
    (hdelivers : Delivers j s a) : Heard j s' := by
  have hmoves : ∀ {k pc}, MovesOn s k pc → SameMind (s.client k) pc → Heard j (s.goto k pc) := by
    intro k pc hpc hmind
    refine h.goto fun received hpointer hreceived => ?_
    obtain ⟨hp, hr⟩ := hinv.received_goto hpc hmind hpointer hreceived
    exact h k received hp hr
  rcases hs with _ | _ | _ | _ | ⟨accepted, -, hpending⟩ | hs |
    ⟨k, x, sock, received, st, hpc, hderef, hst⟩ | ⟨k, hs⟩ | _ | _
  iterate 4
    exact h
  · rcases accept_cases hinv.connections hpending with ⟨kernel, -, heq, -⟩ |
      ⟨fd, i, pending, kernel, -, -, heq, -⟩
    all_goals
      rw [heq]
      exact h
  · rcases acceptorStep_cases hinv.threads.running hs with - | - | - | - | - | -
    · exact h
    · exact h
    · exact h
    · exact h.goto (by simp)
    · exact h
    · exact h
  · refine h.goto fun received' hpointer hreceived => ?_
    obtain rfl : x = j := Option.some_inj.mp hpointer
    obtain rfl : received = received' := Option.some_inj.mp hreceived
    rcases received with chunk | ⟨read, error⟩
    · exact ⟨chunk, rfl⟩
    · exact absurd rfl (hdelivers k read error)
  · rcases clientStep_cases hinv.threads.running hs with ⟨pc, hpc, hmind, -, -⟩ |
      ⟨pc, hpc, hmind, -, -⟩ | ⟨pc, hpc, hmind, -, -⟩ | - | - |
      ⟨pc, x, bytes, sock, hpc, hmind, -, -, -, -, -⟩
    · exact hmoves hpc hmind
    · exact hmoves hpc hmind
    · exact hmoves hpc hmind
    · exact h.goto (by simp)
    · exact h.goto (by simp)
    · exact hmoves hpc hmind
  iterate 2
    exact h

/-- The thread of the client `j` does not disconnect it. -/
def Retains (j : ℕ) (s : State) : Prop :=
  ∀ k, (s.client k).live = true → s.peerSocket (s.peerIndex k) = j →
    (s.client k).disconnects = false

/-- A thread that disconnects its client did so before, or begins to with what it has
received. -/
theorem clientStep_disconnects (hrun : s.isStopping = false) (hs : clientStep k s = some s')
    (hk : (s'.client k).disconnects = true) : (s.client k).disconnects = true ∨
    ∃ x received, s.client k = .handle x received ∧ leaving received = true := by
  rcases hpc : s.client k with _ | _ | _ | _ | x | x | ⟨x, r⟩ | ⟨x, r⟩ | _ | _ | _ | _
  all_goals simp only [clientStep, hpc] at hs
  · cases hs
  · cases hs
    simp at hk
  · cases hs
    rw [hrun] at hk
    simp at hk
  · cases hs
    simp at hk
  · split at hs
    · cases hs
    · cases hs
      simp [State.goto] at hk
  · cases hs
  · cases hs
    simp [State.goto] at hk
  · obtain ⟨sock, -, hs⟩ := Option.bind_eq_some_iff.mp hs
    refine .inr ⟨x, r, rfl, ?_⟩
    rcases r with chunk | ⟨read, error⟩
    · obtain ⟨t, -, rfl⟩ := Option.map_eq_some_iff.mp hs
      by_contra hquit
      simp [show isQuit chunk = false from Bool.eq_false_of_not_eq_true hquit] at hk
    · rcases hlost : Socket.lostError error with _ | _
      · simp only [Socket.isConnectionLost, hlost] at hs
        cases hs
        simp at hk
      · exact hlost
  iterate 4
    exact .inl rfl

/-- A thread goes on to `pc`, and does not disconnect the client. -/
theorem Retains.goto (h : Retains j s) {pc : ClientPc}
    (hpc : s.peerSocket (s.peerIndex k) = j → pc.live = true → pc.disconnects = false) :
    Retains j (s.goto k pc) := by
  intro l hlive hslot
  rcases eq_or_ne l k with rfl | hne
  · rw [State.goto_client_self] at hlive ⊢
    exact hpc hslot hlive
  · rw [State.goto_client_of_ne s hne] at hlive ⊢
    exact h l hlive hslot

/-- **The client is not disconnected** by a step that is not the reply to `quit`. -/
theorem Retains.step {a : Action} (h : Retains j s) (hinv : Inv p s) (hheard : Heard j s)
    (hs : (system p).Step s a s') (hquit : ∀ k chunk, a = .client k →
      s.client k = .handle j (.data chunk) → isQuit chunk = false) : Retains j s' := by
  rcases hs with _ | _ | _ | _ | ⟨accepted, -, hpending⟩ | hs |
    ⟨k, x, sock, received, st, hpc, hderef, hst⟩ | ⟨k, hs⟩ | _ | _
  iterate 4
    exact h
  · rcases accept_cases hinv.connections hpending with ⟨kernel, -, heq, -⟩ |
      ⟨fd, i, pending, kernel, -, -, heq, -⟩
    all_goals
      rw [heq]
      exact h
  · rcases acceptorStep_cases hinv.threads.running hs with - | - |
      ⟨peer, r, server, closed, hpc, hadd⟩ | ⟨r, -⟩ | - | -
    · exact h
    · exact h
    · -- the new connection is in a slot that no thread is to free
      obtain ⟨-, hfree, -⟩ := hinv.connections.addPeer hpc hadd
      intro k hlive hslot
      obtain ⟨sock, hk⟩ := hinv.threads.exists_connected hlive
      have hne : s.peerIndex k ≠ r := fun hc => hfree sock (hc ▸ hk)
      exact h k hlive ((Function.update_of_ne hne ..).symm.trans hslot)
    · intro k hlive hslot
      rcases eq_or_ne k s.started with rfl | hne
      · simp [State.goto]
      · simp only [State.goto, Function.update_of_ne hne] at hlive hslot ⊢
        exact h k hlive hslot
    · exact h
    · exact h
  · exact h.goto (by simp)
  · have hself : s.peerSocket (s.peerIndex k) = j → (s.client k).live = true →
        (s'.client k).disconnects = false := by
      intro hslot hlive
      by_contra hc
      rcases clientStep_disconnects hinv.threads.running hs (by simpa using hc) with
        hbefore | ⟨x, received, hpc, hleaving⟩
      · rw [h k hlive hslot] at hbefore
        cases hbefore
      · obtain rfl : x = j := (hinv.threads.pointer k x (by rw [hpc]; rfl)).trans hslot
        obtain ⟨chunk, rfl⟩ := hheard k received (by rw [hpc]; rfl) (by rw [hpc]; rfl)
        rw [leaving, hquit k chunk rfl hpc] at hleaving
        cases hleaving
    rcases clientStep_cases hinv.threads.running hs with ⟨pc, hpc, -, -, -⟩ |
      ⟨pc, hpc, -, -, -⟩ | ⟨pc, hpc, -, -, -⟩ | ⟨x, read, error, sock, hpc, -, -⟩ | - |
      ⟨pc, x, bytes, sock, hpc, -, -, -, -, -, -⟩
    iterate 3
      refine h.goto fun hslot hlive => ?_
      have hd := hself hslot (hpc.live ▸ hlive)
      simpa [State.goto] using hd
    · refine h.goto fun hslot _ => ?_
      have hd := hself hslot (by rw [hpc]; rfl)
      simp [State.goto] at hd
    · exact h.goto (by simp)
    · have hgoto : Retains j (s.goto k pc) := h.goto fun hslot hlive => by
        have hd := hself hslot (hpc.live ▸ hlive)
        simpa [State.goto] using hd
      exact hgoto
  iterate 2
    exact h

/-- The thread of the client `j` is in `onClientDisconnected`, and will remove the client there. -/
def Removes (p : Process) (j : ℕ) (s : State) : Prop :=
  ∃ k, s.peerSocket (s.peerIndex k) = j ∧ Disconnects p k s

/-- **The client is retained until the dialogue says that it is removed**, and is removed then. -/
theorem retains_step {x x' : State × Session.State} {a : Action ⊕ Session.Action}
    (hinv : Inv p x.1) (hheard : Heard j x.1) (h : x.2.removals = 0 → Retains j x.1)
    (hs : (dialogue p j ns).Step x a x') :
    (x'.2.removals = 0 → Retains j x'.1) ∧
      (x.2.removals = 0 → x'.2.removals ≠ 0 → Removes p j x'.1) := by
  rcases hs with ⟨a, ⟨hs, -⟩, hnone⟩ | ⟨a, b, ⟨hs, -⟩, hobs, hsession⟩ | ⟨b, hsession, hfree⟩
  · refine ⟨fun h0 => (h h0).step hinv hheard hs ?_, fun h0 hc => absurd h0 hc⟩
    rintro k chunk rfl hk
    rw [observed_client hk] at hnone
    cases hnone
  · rcases observed_eq_some hobs with ⟨bytes, rfl, rfl⟩ | ⟨k, chunk, rfl, hk, rfl⟩
    · rcases hsession with ⟨n, ns', -⟩ | - | _ | _
      all_goals
        refine ⟨fun h0 => (h h0).step hinv hheard hs ?_, fun h0 hc => absurd h0 hc⟩
        rintro k chunk ⟨⟩
    · rcases hsession with _ | _ | _ | ⟨_, rest, -, -⟩
      rcases hquit : isQuit chunk with _ | _
      · have h0 : ∀ {r : Session.State}, (r.handleClient chunk rest).removals = r.removals := by
          simp [Session.State.handleClient, hquit]
        rw [h0]
        refine ⟨fun h0 => (h h0).step hinv hheard hs ?_, fun h0 hc => absurd h0 hc⟩
        rintro k' chunk' hk' hpc
        cases hk'
        cases hk.symm.trans hpc
        exact hquit
      · refine ⟨fun hc => ?_, fun _ _ => ⟨k, ?_, (hinv.step hs).disconnects ?_⟩⟩
        · simp [Session.State.handleClient, hquit] at hc
        all_goals
          rcases hs with _ | _ | _ | _ | _ | _ | _ | ⟨_, hs⟩
          obtain ⟨-, rfl⟩ := (hinv.clientStep_reply hk).mp hs
        · exact (hinv.threads.pointer k j (by rw [hk]; rfl)).symm
        · simp [hquit]
  · obtain ⟨bytes, rfl⟩ := hfree
    rcases hsession with _ | _ | ⟨_, rest, ns', -, -, -⟩ | _
    exact ⟨h, fun h0 hc => absurd h0 hc⟩

/-- In the dialogue, the threads have received nothing but bytes from the client. -/
theorem heard_of_run {tr : List (Action ⊕ Session.Action)} {x : State × Session.State}
    (h : (dialogue p j ns).Run tr x) : Inv p x.1 ∧ Heard j x.1 := by
  obtain ⟨tr₁, h₁⟩ := reachable_dialogue h
  refine ⟨inv_of_run h₁.of_restrict, ?_⟩
  refine h₁.invariant (I := fun _ s => Heard j s) ?_ ?_
  · rintro s ⟨-, -, -, -, -, -, hclient, -⟩ k received hk -
    rw [hclient k] at hk
    cases hk
  · intro tr s a s' hrun ih hs
    exact ih.step (inv_of_run hrun.of_restrict) hs.1 hs.2

/-- **The dialogue tracks the removal** of the client. -/
theorem tracks_of_run (p : Process) (j : ℕ) (ns : List ℕ) :
    Session.RemovesWith (dialogue p j ns) (Retains j) (Removes p j) := by
  have hbefore : ∀ tr x, (dialogue p j ns).Run tr x → x.2.removals = 0 → Retains j x.1 := by
    intro tr x h
    refine h.invariant (I := fun _ x => x.2.removals = 0 → Retains j x.1) ?_ ?_
    · rintro ⟨s, r⟩ ⟨⟨-, -, -, -, -, -, hclient, -⟩, -⟩ - k hlive -
      rw [hclient k] at hlive
      cases hlive
    · intro tr x a x' hrun ih hs
      obtain ⟨hinv, hheard⟩ := heard_of_run hrun
      exact (retains_step hinv hheard ih hs).1
  refine ⟨hbefore, fun tr x h a x' hs => ?_⟩
  obtain ⟨hinv, hheard⟩ := heard_of_run h
  exact (retains_step hinv hheard (hbefore tr x h) hs).2

end ThreadPerClient

end Net

end LowLatency
