import LowLatency.Foundations.Rest
import LowLatency.Net.ClientThreads
import LowLatency.Net.Independence
import Mathlib.Algebra.Order.BigOperators.Group.Finset

/-!
# Stopping the thread-per-client server

`stop` sets `m_isStopping`, which every thread looks at once in each turn of its loop, and then
joins the acceptor and the threads of the clients. A server that has been told to stop is a
server that has not, except that some threads have left their loops
(`LowLatency.Net.ThreadPerClient.Follows`): the invariant of
`LowLatency.Net.ThreadPerClient.Inv` holds of the server it follows.

From then on no thread turns its loop again, so every step that the server takes by itself
brings it nearer to its end (`LowLatency.Net.ThreadPerClient.Stopped.remaining_lt`). What may keep
a thread from its end is a client with nothing to say, if the thread has checked the flag and not
called `receive` yet, or is in it (`LowLatency.Net.ThreadPerClient.Silenced`); or a client that
does not read, if the thread waits in `send` for room for its reply, or is bound to
(`LowLatency.Net.ThreadPerClient.Clogged`). There is nothing else
(`LowLatency.Net.ThreadPerClient.exits_iff`).
-/

namespace LowLatency

namespace Net

namespace ThreadPerClient

variable {p : Process} {u s s' : State} {a : Action} {k : ℕ}

/-! ### The server that is told to stop -/

/-- The steps of the server, and `stop`, which may be called at any time. -/
inductive StoppingStep : State → Option Action → State → Prop
  /-- `TCPServer::stop`. -/
  | stop {s : State} : StoppingStep s none { s with isStopping := true }
  | step {s s' : State} {a : Action} : Step s a s' → StoppingStep s (some a) s'

/-- **The thread-per-client server with `stop`.** -/
def stopping (p : Process) : TransitionSystem State (Option Action) where
  Init := (system p).Init
  Step := StoppingStep

/-- The thread has run to its end, or has not been created. -/
@[simp] def ClientPc.over : ClientPc → Bool
  | .notStarted | .exited => true
  | _ => false

/-- The server `u`, except that `stop` may have been called, and threads that are at the check
of the flag in `u` may have left their loops. -/
inductive Follows (u : State) : State → Prop
  | mk (isStopping : Bool) (acceptor : AcceptorPc) (client : ℕ → ClientPc) :
      (acceptor = u.acceptor ∨ acceptor = .exited ∧ u.acceptor = .check) →
      (∀ k, client k = u.client k ∨ client k = .exited ∧ u.client k = .check) →
      Follows u { u with isStopping := isStopping, acceptor := acceptor, client := client }

theorem Follows.refl (u : State) : Follows u u :=
  .mk u.isStopping u.acceptor u.client (.inl rfl) fun _ => .inl rfl

/-- A thread that has not left its loop is where it is in the server followed. -/
theorem Follows.client_eq (h : Follows u s) (hk : s.client k ≠ .exited) :
    u.client k = s.client k := by
  rcases h with ⟨isStopping, acceptor, client, -, hclient⟩
  rcases hclient k with heq | ⟨hexited, -⟩
  · exact heq.symm
  · exact absurd hexited hk

theorem Follows.acceptor_eq (h : Follows u s) (hpc : s.acceptor ≠ .exited) :
    u.acceptor = s.acceptor := by
  rcases h with ⟨isStopping, acceptor, client, hacceptor, -⟩
  rcases hacceptor with heq | ⟨hexited, -⟩
  · exact heq.symm
  · exact absurd hexited hpc

/-- A thread goes on in both. -/
theorem follows_goto {client : ℕ → ClientPc} {pc : ClientPc}
    (h : ∀ k, client k = u.client k ∨ client k = .exited ∧ u.client k = .check) (l : ℕ) :
    Function.update client k pc l = Function.update u.client k pc l ∨
      Function.update client k pc l = .exited ∧ Function.update u.client k pc l = .check := by
  rcases eq_or_ne l k with rfl | hne
  · rw [Function.update_self, Function.update_self]
    exact .inl rfl
  · rw [Function.update_of_ne hne, Function.update_of_ne hne]
    exact h l

/-- **A step of the acceptor** is one of the server followed, or the acceptor leaves its
loop. -/
theorem Follows.acceptorStep (h : Follows u s) (hrun : u.isStopping = false)
    (hs : acceptorStep s = some s') :
    ∃ u', Follows u' s' ∧ (u' = u ∨ ThreadPerClient.acceptorStep u = some u') ∧
      s'.isStopping = s.isStopping := by
  rcases h with ⟨isStopping, acceptor, client, hacceptor, hclient⟩
  rcases hacceptor with rfl | ⟨rfl, -⟩
  · rcases hpc : u.acceptor with _ | _ | sock | sock | i | j | _ | _
    all_goals simp only [ThreadPerClient.acceptorStep, hpc] at hs
    · rcases isStopping with _ | _
      · cases hs
        refine ⟨{ u with acceptor := .accept }, .mk false _ client (.inl rfl) hclient, .inr ?_, rfl⟩
        simp only [ThreadPerClient.acceptorStep, hpc, hrun]
        rfl
      · cases hs
        exact ⟨u, .mk true .exited client (.inr ⟨rfl, hpc⟩) hclient, .inl rfl, rfl⟩
    · cases hs
    · rcases hlock : u.peerSocketsLock with _ | t
      · rw [hlock] at hs
        cases hs
        refine ⟨{ u with peerSocketsLock := some .acceptor, acceptor := .addPeer sock },
          .mk isStopping _ client (.inl rfl) hclient, .inr ?_, rfl⟩
        simp only [ThreadPerClient.acceptorStep, hpc, hlock]
      · rw [hlock] at hs
        cases hs
    · rcases hadd : u.server.addPeer sock with ⟨r, server, closed⟩
      rw [hadd] at hs
      cases hs
      refine ⟨{ u with
          server := server
          peerSocket := Function.update u.peerSocket r (u.connection sock.socketDescriptor)
          kernel := u.kernel.closeAny closed
          acceptor := .newThread r },
        .mk isStopping _ client (.inl rfl) hclient, .inr ?_, rfl⟩
      simp only [ThreadPerClient.acceptorStep, hpc, hadd]
    · cases hs
      refine ⟨{ u.goto u.started .setName with
          peerIndex := Function.update u.peerIndex u.started i
          started := u.started + 1
          acceptor := .emplaceBack u.started },
        .mk isStopping _ _ (.inl rfl) (follows_goto hclient), .inr ?_, rfl⟩
      simp only [ThreadPerClient.acceptorStep, hpc]
    · cases hs
      refine ⟨{ u with clientThreads := u.clientThreads ++ [j], acceptor := .unlock },
        .mk isStopping _ client (.inl rfl) hclient, .inr ?_, rfl⟩
      simp only [ThreadPerClient.acceptorStep, hpc]
    · cases hs
      refine ⟨{ u with peerSocketsLock := none, acceptor := .check },
        .mk isStopping _ client (.inl rfl) hclient, .inr ?_, rfl⟩
      simp only [ThreadPerClient.acceptorStep, hpc]
    · cases hs
  · cases hs

/-- **A step of a client's thread** is one of the server followed, or the thread leaves its
loop. -/
theorem Follows.clientStep (h : Follows u s) (hrun : u.isStopping = false)
    (hs : clientStep k s = some s') :
    ∃ u', Follows u' s' ∧ (u' = u ∨ ThreadPerClient.clientStep k u = some u') ∧
      s'.isStopping = s.isStopping := by
  have hnot : s.client k ≠ .exited := by
    intro hc
    rw [ThreadPerClient.clientStep, hc] at hs
    cases hs
  have hpc := h.client_eq hnot
  rcases h with ⟨isStopping, acceptor, client, hacceptor, hclient⟩
  rcases hk : client k with _ | _ | _ | _ | x | x | ⟨x, r⟩ | ⟨x, r⟩ | _ | _ | _ | _
  all_goals
    simp only [ThreadPerClient.clientStep, hk] at hs
    replace hpc := hpc.trans hk
  · cases hs
  · cases hs
    refine ⟨u.goto k .check, .mk isStopping _ _ hacceptor (follows_goto hclient), .inr ?_, rfl⟩
    simp only [ThreadPerClient.clientStep, hpc]
  · rcases isStopping with _ | _
    · cases hs
      refine ⟨u.goto k .getPeerSocket, .mk false _ _ hacceptor (follows_goto hclient), .inr ?_, rfl⟩
      simp only [ThreadPerClient.clientStep, hpc, hrun]
      rfl
    · cases hs
      refine ⟨u, .mk true _ _ hacceptor fun l => ?_, .inl rfl, rfl⟩
      rcases eq_or_ne l k with rfl | hne
      · exact .inr ⟨Function.update_self .., hpc⟩
      · rw [if_pos rfl, Function.update_of_ne hne]
        exact hclient l
  · cases hs
    refine ⟨u.goto k (.lock (u.peerSocket (u.peerIndex k))),
      .mk isStopping _ _ hacceptor (follows_goto hclient), .inr ?_, rfl⟩
    simp only [ThreadPerClient.clientStep, hpc]
  · rcases hlock : u.peerSocketsLock with _ | t
    · rw [hlock] at hs
      cases hs
      refine ⟨{ u.goto k (.receive x) with peerSocketsLock := some (.client k) },
        .mk isStopping _ _ hacceptor (follows_goto hclient), .inr ?_, rfl⟩
      simp only [ThreadPerClient.clientStep, hpc, hlock]
    · rw [hlock] at hs
      cases hs
  · cases hs
  · cases hs
    refine ⟨{ u.goto k (.handle x r) with peerSocketsLock := none },
      .mk isStopping _ _ hacceptor (follows_goto hclient), .inr ?_, rfl⟩
    simp only [ThreadPerClient.clientStep, hpc]
  · obtain ⟨sock, hderef, hs⟩ := Option.bind_eq_some_iff.mp hs
    replace hderef : u.deref k x = some sock := hderef
    rcases r with bytes | ⟨read, error⟩
    · obtain ⟨t, ht, rfl⟩ := Option.map_eq_some_iff.mp hs
      obtain ⟨hfull, rfl⟩ := State.send_eq_some.mp ht
      have hsend : u.send (u.connection sock.socketDescriptor) = some _ :=
        State.send_eq_some.mpr ⟨hfull, rfl⟩
      refine ⟨(u.reply (u.connection sock.socketDescriptor)).goto k
          (if isQuit bytes then .lockRemove else .check),
        .mk isStopping _ _ hacceptor (follows_goto hclient), .inr ?_, rfl⟩
      simp only [ThreadPerClient.clientStep, hpc, hderef, Option.bind_some, hsend, Option.map_some]
    · rcases hlost : Socket.lostError error with _ | _
      · simp only [Socket.isConnectionLost, hlost] at hs
        cases hs
        refine ⟨u.goto k .check, .mk isStopping _ _ hacceptor (follows_goto hclient), .inr ?_, rfl⟩
        simp only [ThreadPerClient.clientStep, hpc, hderef, Option.bind_some,
          Socket.isConnectionLost, hlost]
        rfl
      · simp only [Socket.isConnectionLost, hlost, if_true] at hs
        cases hs
        refine ⟨{ u.goto k .lockRemove with
            server := u.server.setPeerSocket (u.peerIndex k) { sock with state := .disconnected } },
          .mk isStopping _ _ hacceptor (follows_goto hclient), .inr ?_, rfl⟩
        simp only [ThreadPerClient.clientStep, hpc, hderef, Option.bind_some,
          Socket.isConnectionLost, hlost, if_true]
  · rcases hlock : u.peerSocketsLock with _ | t
    · rw [hlock] at hs
      cases hs
      refine ⟨{ u.goto k .removePeer with peerSocketsLock := some (.client k) },
        .mk isStopping _ _ hacceptor (follows_goto hclient), .inr ?_, rfl⟩
      simp only [ThreadPerClient.clientStep, hpc, hlock]
    · rw [hlock] at hs
      cases hs
  · obtain ⟨⟨server, closed⟩, hremove, hs⟩ := Option.map_eq_some_iff.mp hs
    cases hs
    refine ⟨{ u.goto k .unlockRemove with
        server := server, kernel := u.kernel.closeAny closed },
      .mk isStopping _ _ hacceptor (follows_goto hclient), .inr ?_, rfl⟩
    simp only [ThreadPerClient.clientStep, hpc, hremove, Option.map_some]
  · cases hs
    refine ⟨{ u.goto k .exited with peerSocketsLock := none },
      .mk isStopping _ _ hacceptor (follows_goto hclient), .inr ?_, rfl⟩
    simp only [ThreadPerClient.clientStep, hpc]
  · cases hs

/-- The call of `accept` does not look at the flag, nor at the clients' threads. -/
theorem accept_with (u : State) (accepted : Option Descriptor) (isStopping : Bool)
    (acceptor : AcceptorPc) (client : ℕ → ClientPc) :
    accept accepted { u with isStopping := isStopping, acceptor := acceptor, client := client } =
      { accept accepted u with isStopping := isStopping, client := client } := by
  unfold accept
  dsimp only
  split <;> rfl

theorem accept_client (u : State) (accepted : Option Descriptor) :
    (accept accepted u).client = u.client := by
  unfold accept
  split <;> rfl

/-- **A step of the server** is one of the server followed, or a thread leaves its loop. -/
theorem Follows.step (h : Follows u s) (hrun : u.isStopping = false) (hs : Step s a s') :
    ∃ u', Follows u' s' ∧ (u' = u ∨ Step u a u') ∧ s'.isStopping = s.isStopping := by
  have hacceptor := h.acceptor_eq
  have hclient : ∀ k, s.client k ≠ .exited → u.client k = s.client k := fun _ => h.client_eq
  rcases hs with hcapacity | ⟨j, bytes, hj, hended⟩ | ⟨j, hj⟩ | ⟨j, error, hj⟩ |
    ⟨accepted, hpc, hpending⟩ | hs | ⟨k, x, sock, received, st, hpc, hderef, hst⟩ | ⟨k, hs⟩ |
    ⟨j, n, hn⟩ | ⟨j, hj⟩
  · rcases h with ⟨isStopping, acceptor, client, ha, hc⟩
    refine ⟨_, ?_, .inr (.connect hcapacity), rfl⟩
    exact .mk isStopping acceptor client ha hc
  · rcases h with ⟨isStopping, acceptor, client, ha, hc⟩
    refine ⟨_, ?_, .inr (.send j bytes hj hended), rfl⟩
    exact .mk isStopping acceptor client ha hc
  · rcases h with ⟨isStopping, acceptor, client, ha, hc⟩
    refine ⟨_, ?_, .inr (.close j hj), rfl⟩
    exact .mk isStopping acceptor client ha hc
  · rcases h with ⟨isStopping, acceptor, client, ha, hc⟩
    refine ⟨_, ?_, .inr (.fail j error hj), rfl⟩
    exact .mk isStopping acceptor client ha hc
  · replace hacceptor := (hacceptor (by rw [hpc]; simp)).trans hpc
    rcases h with ⟨isStopping, acceptor, client, ha, hc⟩
    rw [accept_with]
    refine ⟨accept accepted u, .mk isStopping _ client (.inl rfl) ?_,
      .inr (.accept accepted hacceptor hpending), rfl⟩
    rw [accept_client]
    exact hc
  · obtain ⟨u', h', hs, hsame⟩ := h.acceptorStep hrun hs
    exact ⟨u', h', hs.imp_right .acceptor, hsame⟩
  · replace hclient := (hclient k (by rw [hpc]; simp)).trans hpc
    rcases h with ⟨isStopping, acceptor, client, ha, hc⟩
    refine ⟨_, ?_, .inr (.receive k x sock received st hclient hderef hst), rfl⟩
    exact .mk isStopping acceptor _ ha (follows_goto hc)
  · obtain ⟨u', h', hs, hsame⟩ := h.clientStep hrun hs
    exact ⟨u', h', hs.imp_right (.client k), hsame⟩
  · rcases h with ⟨isStopping, acceptor, client, ha, hc⟩
    refine ⟨_, ?_, .inr (.read j n hn), rfl⟩
    exact .mk isStopping acceptor client ha hc
  · rcases h with ⟨isStopping, acceptor, client, ha, hc⟩
    refine ⟨_, ?_, .inr (.leave j hj), rfl⟩
    exact .mk isStopping acceptor client ha hc

/-- **A server that is told to stop** follows one that is not. -/
theorem follows_of_run {tr : List (Option Action)} (hrun : (stopping p).Run tr s) :
    ∃ u, (system p).Reachable u ∧ Follows u s := by
  refine hrun.invariant (I := fun _ s => ∃ u, (system p).Reachable u ∧ Follows u s) ?_ ?_
  · intro s hs
    exact ⟨s, ⟨[], .start hs⟩, .refl s⟩
  · rintro tr s a s' - ⟨u, ⟨tr₁, h₁⟩, h⟩ hs
    rcases hs with _ | hs
    · rcases h with ⟨isStopping, acceptor, client, ha, hc⟩
      exact ⟨u, ⟨tr₁, h₁⟩, .mk true acceptor client ha hc⟩
    · obtain ⟨u', h', rfl | hs', -⟩ := h.step (inv_of_run h₁).threads.running hs
      · exact ⟨u', ⟨tr₁, h₁⟩, h'⟩
      · exact ⟨u', ⟨_, h₁.snoc hs'⟩, h'⟩

/-! ### The threads run to their ends -/

/-- **The flag is set**, in a server that follows one with the invariant. -/
structure Stopped (p : Process) (s : State) : Prop where
  isStopping : s.isStopping = true
  follows : ∃ u, Inv p u ∧ Follows u s

/-- **The flag stays set.** -/
theorem Stopped.step (h : Stopped p s) (hs : Step s a s') : Stopped p s' := by
  obtain ⟨hstop, u, hinv, hfollows⟩ := h
  obtain ⟨u', h', rfl | hs', hsame⟩ := hfollows.step hinv.threads.running hs
  · exact ⟨hsame.trans hstop, u', hinv, h'⟩
  · exact ⟨hsame.trans hstop, u', hinv.step hs', h'⟩

theorem Stopped.not_started (h : Stopped p s) (hk : s.started ≤ k) :
    s.client k = .notStarted := by
  obtain ⟨-, u, hinv, hfollows⟩ := h
  rcases hfollows with ⟨isStopping, acceptor, client, -, hclient⟩
  have hu := hinv.threads.started k hk
  rcases hclient k with heq | ⟨-, hcheck⟩
  · exact heq.trans hu
  · rw [hu] at hcheck
    cases hcheck

/-- A thread that has been created has a number less than that of the next one. -/
theorem Stopped.lt_started (h : Stopped p s) (hk : s.client k ≠ .notStarted) : k < s.started :=
  not_le.mp fun hc => hk (h.not_started hc)

/-- How many steps it is at most from there to the end of the acceptor, and of the thread it
creates. -/
@[simp] def AcceptorPc.remaining : AcceptorPc → ℕ
  | .accept => 9
  | .lock _ => 8
  | .addPeer _ => 7
  | .newThread _ => 6
  | .emplaceBack _ => 3
  | .unlock => 2
  | .check => 1
  | .exited => 0

/-- How many steps it is at most from there to the end of the thread. -/
@[simp] def ClientPc.remaining : ClientPc → ℕ
  | .getPeerSocket => 8
  | .lock _ => 7
  | .receive _ => 6
  | .unlock _ _ => 5
  | .handle _ _ => 4
  | .lockRemove => 3
  | .removePeer => 2
  | .unlockRemove => 1
  | .setName => 2
  | .check => 1
  | .notStarted | .exited => 0

/-- The thread has checked the flag, and its `receive` has not returned yet. -/
@[simp] def ClientPc.committed : ClientPc → Bool
  | .getPeerSocket | .lock _ | .receive _ => true
  | _ => false

/-- **How many steps the server can take** at most by itself. -/
def State.remaining (s : State) : ℕ :=
  s.acceptor.remaining + ∑ k ∈ Finset.range s.started, (s.client k).remaining

/-- The thread `k` has gone on to `pc`, and the other threads are where they were. -/
structure Advances (k : ℕ) (pc : ClientPc) (s s' : State) : Prop where
  client : s'.client = Function.update s.client k pc
  created : pc ≠ .notStarted
  remaining : pc.remaining < (s.client k).remaining
  acceptor : s'.acceptor = s.acceptor
  started : s'.started = s.started

/-- The connection a thread points to is the one in its slot. -/
theorem Stopped.deref (h : Stopped p s) {x : ℕ} (hx : (s.client k).pointer = some x) :
    ∃ sock, s.deref k x = some sock ∧ s.connection sock.socketDescriptor = x ∧
      x = s.peerSocket (s.peerIndex k) := by
  obtain ⟨-, u, hinv, hfollows⟩ := h
  have hlive : s.client k ≠ .exited := by
    rintro hc
    rw [hc] at hx
    cases hx
  rw [← hfollows.client_eq hlive] at hx
  obtain ⟨sock, -, hderef, hconnection⟩ := hinv.deref hx
  have hslot := hinv.threads.pointer k x hx
  rcases hfollows with ⟨_, _, _, -, -⟩
  exact ⟨sock, hderef, hconnection, hslot⟩

/-- What a thread does on its way to `pc` besides: it sends a reply that it owes, or none. -/
inductive Replying (k : ℕ) (pc : ClientPc) (s s' : State) : Prop
  | none : s'.replies = s.replies → (∀ j, pc.chunk j = (s.client k).chunk j) → Replying k pc s s'
  | sent (x : ℕ) (bytes : List UInt8) : s.client k = .handle x (.data bytes) →
      s.full x = false → (∀ j, pc.chunk j = Option.none) →
      (∀ j, j ≠ x → s'.replies j = s.replies j) → Replying k pc s s'

/-- **A step of a client's thread** brings it nearer to its end. -/
theorem Stopped.clientStep (h : Stopped p s) (hs : clientStep k s = some s') :
    ∃ pc, Advances k pc s s' ∧ pc.committed = (s.client k).committed ∧
      s'.stream = s.stream ∧ s'.capacity = s.capacity ∧ Replying k pc s s' := by
  rcases hpc : s.client k with _ | _ | _ | _ | x | x | ⟨x, r⟩ | ⟨x, r⟩ | _ | _ | _ | _
  all_goals simp only [ThreadPerClient.clientStep, hpc] at hs
  · cases hs
  · cases hs
    exact ⟨_, ⟨rfl, by simp, by simp [hpc], rfl, rfl⟩, rfl, rfl, rfl, .none rfl (by simp [hpc])⟩
  · rw [h.isStopping] at hs
    cases hs
    exact ⟨_, ⟨rfl, by simp, by simp [hpc], rfl, rfl⟩, rfl, rfl, rfl, .none rfl (by simp [hpc])⟩
  · cases hs
    exact ⟨_, ⟨rfl, by simp, by simp [hpc], rfl, rfl⟩, rfl, rfl, rfl, .none rfl (by simp [hpc])⟩
  · split at hs
    · cases hs
    · cases hs
      exact ⟨_, ⟨rfl, by simp, by simp [hpc], rfl, rfl⟩, rfl, rfl, rfl, .none rfl (by simp [hpc])⟩
  · cases hs
  · cases hs
    refine ⟨_, ⟨rfl, by simp, by simp [hpc], rfl, rfl⟩, rfl, rfl, rfl, .none rfl fun j => ?_⟩
    rw [hpc]
    cases r <;> rfl
  · obtain ⟨sock, hsock, hs⟩ := Option.bind_eq_some_iff.mp hs
    rcases r with bytes | ⟨read, error⟩
    · obtain ⟨t, ht, rfl⟩ := Option.map_eq_some_iff.mp hs
      obtain ⟨hfull, rfl⟩ := State.send_eq_some.mp ht
      obtain ⟨sock', hderef, hconnection, -⟩ := h.deref (k := k) (x := x) (by rw [hpc]; rfl)
      obtain rfl : sock' = sock := Option.some_inj.mp (hderef.symm.trans hsock)
      rw [hconnection] at hfull ⊢
      refine ⟨_, ⟨rfl, ?_, ?_, rfl, rfl⟩, ?_, rfl, rfl, .sent x bytes hpc hfull (fun j => ?_)
        fun j hj => Function.update_of_ne hj ..⟩
      all_goals split_ifs <;> simp [hpc]
    · dsimp only at hs
      split at hs
      · cases hs
        exact ⟨_, ⟨rfl, by simp, by simp [hpc], rfl, rfl⟩, rfl, rfl, rfl, .none rfl (by simp [hpc])⟩
      · cases hs
        exact ⟨_, ⟨rfl, by simp, by simp [hpc], rfl, rfl⟩, rfl, rfl, rfl, .none rfl (by simp [hpc])⟩
  · split at hs
    · cases hs
    · cases hs
      exact ⟨_, ⟨rfl, by simp, by simp [hpc], rfl, rfl⟩, rfl, rfl, rfl, .none rfl (by simp [hpc])⟩
  · obtain ⟨⟨server, closed⟩, -, hs⟩ := Option.map_eq_some_iff.mp hs
    cases hs
    exact ⟨_, ⟨rfl, by simp, by simp [hpc], rfl, rfl⟩, rfl, rfl, rfl, .none rfl (by simp [hpc])⟩
  · cases hs
    exact ⟨_, ⟨rfl, by simp, by simp [hpc], rfl, rfl⟩, rfl, rfl, rfl, .none rfl (by simp [hpc])⟩
  · cases hs

/-- A thread comes nearer to its end, and so does the server. -/
theorem Advances.remaining_lt {pc : ClientPc} (h : Advances k pc s s') (hk : k < s.started) :
    s'.remaining < s.remaining := by
  rw [State.remaining, State.remaining, h.acceptor, h.started, h.client]
  refine Nat.add_lt_add_left ?_ _
  refine Finset.sum_lt_sum (fun j _ => ?_) ⟨k, Finset.mem_range.mpr hk, ?_⟩
  · rcases eq_or_ne j k with rfl | hne
    · rw [Function.update_self]
      exact h.remaining.le
    · rw [Function.update_of_ne hne]
  · rw [Function.update_self]
    exact h.remaining

/-- **A step of the acceptor** brings the server nearer to its end. -/
theorem Stopped.remaining_acceptorStep (h : Stopped p s) (hs : acceptorStep s = some s') :
    s'.remaining < s.remaining := by
  rcases hpc : s.acceptor with _ | _ | sock | sock | i | j | _ | _
  all_goals simp only [acceptorStep, hpc] at hs
  · rw [h.isStopping] at hs
    cases hs
    simp [State.remaining, hpc]
  · cases hs
  · split at hs
    · cases hs
    · cases hs
      simp [State.remaining, hpc]
  · cases hs
    simp [State.remaining, hpc]
  · cases hs
    -- the new thread has two steps to go
    have hsame : ∑ k ∈ Finset.range s.started,
        (Function.update s.client s.started .setName k).remaining =
        ∑ k ∈ Finset.range s.started, (s.client k).remaining := by
      refine Finset.sum_congr rfl fun k hk => ?_
      rw [Function.update_of_ne (Finset.mem_range.mp hk).ne]
    have hpc' : s.acceptor.remaining = 6 := by rw [hpc, AcceptorPc.remaining]
    rw [State.remaining, State.remaining, hpc']
    dsimp only [State.goto]
    rw [Finset.sum_range_succ, hsame, Function.update_self]
    simp only [AcceptorPc.remaining, ClientPc.remaining]
    omega
  · cases hs
    simp [State.remaining, hpc]
  · cases hs
    simp [State.remaining, hpc]
  · cases hs

/-- The bytes and the replies of the clients are left alone. -/
structure LeavesClients (s s' : State) : Prop where
  stream : s'.stream = s.stream
  replies : s'.replies = s.replies
  capacity : s'.capacity = s.capacity

/-- A step of the acceptor moves no thread, but may create one. -/
theorem acceptorStep_spec (hs : acceptorStep s = some s') : LeavesClients s s' ∧
    (s'.client = s.client ∨ s'.client = Function.update s.client s.started .setName) := by
  rcases hpc : s.acceptor with _ | _ | sock | sock | i | j | _ | _
  all_goals simp only [acceptorStep, hpc] at hs
  · cases hs
    exact ⟨⟨rfl, rfl, rfl⟩, .inl rfl⟩
  · cases hs
  · split at hs
    · cases hs
    · cases hs
      exact ⟨⟨rfl, rfl, rfl⟩, .inl rfl⟩
  · cases hs
    exact ⟨⟨rfl, rfl, rfl⟩, .inl rfl⟩
  · cases hs
    exact ⟨⟨rfl, rfl, rfl⟩, .inr rfl⟩
  · cases hs
    exact ⟨⟨rfl, rfl, rfl⟩, .inl rfl⟩
  · cases hs
    exact ⟨⟨rfl, rfl, rfl⟩, .inl rfl⟩
  · cases hs

/-- The call of `accept` brings the acceptor to `lock`, or back to the check. -/
theorem accept_spec (s : State) (accepted : Option Descriptor) :
    (accept accepted s).acceptor.remaining ≤ 8 ∧ (accept accepted s).client = s.client ∧
      (accept accepted s).started = s.started ∧ LeavesClients s (accept accepted s) := by
  unfold accept
  split
  · exact ⟨le_rfl, rfl, rfl, ⟨rfl, rfl, rfl⟩⟩
  · exact ⟨by simp, rfl, rfl, ⟨rfl, rfl, rfl⟩⟩

/-- **Every step of the server brings it nearer to its end.** -/
theorem Stopped.remaining_lt (h : Stopped p s) (ha : a.IsServer) (hs : Step s a s') :
    s'.remaining < s.remaining := by
  revert ha
  rcases hs with - | - | - | - | ⟨accepted, hpc, -⟩ | hs | ⟨k, x, sock, received, st, hpc, -, -⟩ |
    ⟨k, hs⟩ | - | -
  all_goals intro ha
  · exact ha.elim
  · exact ha.elim
  · exact ha.elim
  · exact ha.elim
  · obtain ⟨hle, hclient, hstarted, -⟩ := accept_spec s accepted
    rw [State.remaining, State.remaining, hclient, hstarted, hpc]
    exact Nat.add_lt_add_right (Nat.lt_succ_of_le hle) _
  · exact h.remaining_acceptorStep hs
  · have hadvances : Advances k (.unlock x received) s
        { s.goto k (.unlock x received) with
          stream := Function.update s.stream (s.connection sock.socketDescriptor) st } :=
      ⟨rfl, by simp, by simp [hpc], rfl, rfl⟩
    exact hadvances.remaining_lt (h.lt_started (by simp [hpc]))
  · obtain ⟨pc, hadvances, -⟩ := h.clientStep hs
    refine hadvances.remaining_lt (h.lt_started ?_)
    intro hc
    rw [ThreadPerClient.clientStep, hc] at hs
    cases hs
  · exact ha.elim
  · exact ha.elim

/-! ### A client that keeps a thread from its end -/

/-- **The thread `k` is silenced**: it has checked the flag, its `receive` has not returned, and
its client has nothing to say. -/
def Silenced (k : ℕ) (s : State) : Prop :=
  (s.client k).committed = true ∧ (s.stream (s.peerSocket (s.peerIndex k))).Quiet

/-- **The thread `k` is clogged**: its client does not read, and there is no room for the reply to
a chunk that the thread has received, or is going to receive. -/
def Clogged (k : ℕ) (s : State) : Prop :=
  s.full (s.peerSocket (s.peerIndex k)) = true ∧
    ((s.client k).chunk (s.peerSocket (s.peerIndex k)) ≠ none ∨
      (s.client k).committed = true ∧ (s.stream (s.peerSocket (s.peerIndex k))).inbox ≠ [])

/-- The client of the thread `k` keeps it from its end. -/
def Held (k : ℕ) (s : State) : Prop := Silenced k s ∨ Clogged k s

/-- A thread that has received something, or is not going to, is held at its reply only. -/
theorem held_iff_chunk (hcommitted : (s.client k).committed = false) :
    Held k s ↔ s.full (s.peerSocket (s.peerIndex k)) = true ∧
      (s.client k).chunk (s.peerSocket (s.peerIndex k)) ≠ none := by
  rw [Held, Silenced, Clogged, hcommitted]
  simp only [Bool.false_eq_true, false_and, false_or, or_false]

/-- A thread with no reply to send is held at its next `receive`, or because of it. -/
theorem held_iff_committed (hnone : (s.client k).chunk (s.peerSocket (s.peerIndex k)) = none) :
    Held k s ↔ (s.client k).committed = true ∧
      ((s.stream (s.peerSocket (s.peerIndex k))).Quiet ∨
        s.full (s.peerSocket (s.peerIndex k)) = true ∧
          (s.stream (s.peerSocket (s.peerIndex k))).inbox ≠ []) := by
  rw [Held, Silenced, Clogged, hnone, or_iff_right (not_not_intro rfl), and_or_left,
    and_left_comm]

theorem ClientPc.live_of_committed {pc : ClientPc} (h : pc.committed = true) : pc.live = true := by
  rcases pc with _ | _ | _ | _ | _ | _ | _ | _ | _ | _ | _ | _
  all_goals first | rfl | cases h

theorem ne_exited_of_live {pc : ClientPc} (h : pc.live = true) : pc ≠ .exited := by
  rintro rfl
  cases h

/-- The slot of a live thread, and the connection in it, stay the same. -/
theorem Stopped.slot_step (h : Stopped p s) (hs : Step s a s') (hk : (s.client k).live = true) :
    s'.peerIndex k = s.peerIndex k ∧
      s'.peerSocket (s.peerIndex k) = s.peerSocket (s.peerIndex k) := by
  obtain ⟨-, u, hinv, hfollows⟩ := h
  have hlive := hk
  rw [← hfollows.client_eq (ne_exited_of_live hk)] at hlive
  obtain ⟨u', h', rfl | hs', -⟩ := hfollows.step hinv.threads.running hs
  · rcases hfollows with ⟨_, _, _, -, -⟩
    rcases h' with ⟨_, _, _, -, -⟩
    exact ⟨rfl, rfl⟩
  · have hslot := hinv.peerSocket_step hs' hlive
    rcases hfollows with ⟨_, _, _, -, -⟩
    rcases h' with ⟨_, _, _, -, -⟩
    exact hslot

/-- No two live threads have the same connection in their slots. -/
theorem Stopped.eq_of_connection (h : Stopped p s) {l : ℕ} (hk : (s.client k).live = true)
    (hl : (s.client l).live = true)
    (heq : s.peerSocket (s.peerIndex k) = s.peerSocket (s.peerIndex l)) : k = l := by
  obtain ⟨-, u, hinv, hfollows⟩ := h
  rw [← hfollows.client_eq (ne_exited_of_live hk)] at hk
  rw [← hfollows.client_eq (ne_exited_of_live hl)] at hl
  rcases hfollows with ⟨_, _, _, -, -⟩
  exact hinv.eq_of_connection hk hl heq

/-- **A `receive` returns something** of the connection in the slot of the thread. -/
theorem Stopped.receive (h : Stopped p s) {x : ℕ} {received : Received}
    (hs : Step s (.receive k x received) s') :
    s.client k = .receive x ∧ x = s.peerSocket (s.peerIndex k) ∧
      ∃ st, (s.stream x).Receives True received st ∧
        s' = { s.goto k (.unlock x received) with stream := Function.update s.stream x st } := by
  rcases hs with _ | _ | _ | _ | _ | _ | ⟨_, _, sock, _, st, hpc, hderef, hst⟩
  obtain ⟨-, u, hinv, hfollows⟩ := h
  have hu := (hfollows.client_eq (k := k) (by rw [hpc]; simp)).trans hpc
  have hpointer : (u.client k).pointer = some x := by rw [hu]; rfl
  rcases hfollows with ⟨_, _, _, -, -⟩
  obtain ⟨hi, hconnection⟩ := hinv.of_deref hpointer hderef
  replace hconnection : u.connection sock.socketDescriptor = x := hconnection
  have hblocking : sock.socketDescriptor ∉ u.kernel.nonBlocking := fun hc =>
    (hinv.connections.peers.peer _ sock hi).2.2.2 (hinv.connections.blocking hc)
  dsimp only at hst ⊢
  rw [hconnection, eq_true hblocking] at hst
  rw [hconnection]
  exact ⟨hpc, hinv.threads.pointer k x hpointer, st, hst, rfl⟩

/-- A client for whose replies there is no room has not lost its connection. -/
theorem Stopped.error_eq_none (h : Stopped p s) {x : ℕ} (hx : (s.client k).pointer = some x)
    (hfull : s.full x = true) : (s.stream x).error = none := by
  obtain ⟨-, u, hinv, hfollows⟩ := h
  have hlive := ne_exited_of_live (ClientPc.live_of_pointer hx)
  rw [← hfollows.client_eq hlive] at hx
  have hlt := hinv.lt_connected hx
  rcases hfollows with ⟨_, _, _, -, -⟩
  exact hinv.backlog.unbroken x hlt (State.full_eq_true.mp hfull).1

/-- There is room for a reply to a client as before, if nothing has been sent to it. -/
theorem full_congr {x : ℕ} (hreplies : s'.replies x = s.replies x)
    (hcapacity : s'.capacity = s.capacity) : s'.full x = s.full x := by
  rw [State.full, State.full, hreplies, hcapacity]

/-- A step that leaves the thread and its connection alone. -/
theorem Stopped.held_congr (h : Stopped p s) (hs : Step s a s')
    (hcommitted : (s'.client k).committed = (s.client k).committed)
    (hchunk : ∀ j, (s'.client k).chunk j = (s.client k).chunk j)
    (hsame : (s.client k).live = true →
      s'.stream (s.peerSocket (s.peerIndex k)) = s.stream (s.peerSocket (s.peerIndex k)) ∧
        s'.full (s.peerSocket (s.peerIndex k)) = s.full (s.peerSocket (s.peerIndex k))) :
    Held k s' ↔ Held k s := by
  by_cases hlive : (s.client k).live = true
  · obtain ⟨hindex, hslot⟩ := h.slot_step hs hlive
    obtain ⟨hstream, hfull⟩ := hsame hlive
    rw [Held, Held, Silenced, Silenced, Clogged, Clogged, hindex, hslot, hstream, hfull,
      hcommitted, hchunk]
  · -- a thread that has removed its client waits for nothing
    have hnot : (s.client k).committed = false :=
      Bool.eq_false_of_not_eq_true fun hc => hlive (ClientPc.live_of_committed hc)
    have hnone : ∀ j, (s.client k).chunk j = none := by
      intro j
      rw [Option.eq_none_iff_forall_not_mem]
      exact fun chunk hc =>
        hlive (ClientPc.live_of_pointer (ClientPc.pointer_of_chunk hc))
    rw [held_iff_chunk (hcommitted.trans hnot), held_iff_chunk hnot, hchunk, hnone, hnone]
    exact iff_of_false (fun hc => hc.2 rfl) fun hc => hc.2 rfl

/-- A step that leaves the clients alone, and the thread too. -/
theorem Stopped.held_of_leaves (h : Stopped p s) (hs : Step s a s') (hleaves : LeavesClients s s')
    (hcommitted : (s'.client k).committed = (s.client k).committed)
    (hchunk : ∀ j, (s'.client k).chunk j = (s.client k).chunk j) : Held k s' ↔ Held k s :=
  h.held_congr hs hcommitted hchunk fun _ =>
    ⟨by rw [hleaves.stream], full_congr (by rw [hleaves.replies]) hleaves.capacity⟩

/-- **A thread that is in `receive`** is held exactly if it is when it has received something. -/
theorem Stopped.held_receive (h : Stopped p s) {x : ℕ} {received : Received}
    (hs : Step s (.receive k x received) s') : Held k s' ↔ Held k s := by
  obtain ⟨hpc, rfl, st, hst, rfl⟩ := h.receive hs
  have hquiet : ¬(s.stream (s.peerSocket (s.peerIndex k))).Quiet :=
    fun hc => hc.not_receives trivial hst
  have hbefore : Held k s ↔ s.full (s.peerSocket (s.peerIndex k)) = true ∧
      (s.stream (s.peerSocket (s.peerIndex k))).inbox ≠ [] := by
    rw [held_iff_committed (by rw [hpc]; rfl), hpc, or_iff_right hquiet]
    exact and_iff_right rfl
  rw [hbefore, held_iff_chunk (by simp [State.goto])]
  dsimp only [State.goto]
  rw [Function.update_self]
  cases hst with
  | data bytes rest hpos hle hinbox =>
    refine and_congr Iff.rfl (iff_of_true (by simp) ?_)
    rw [hinbox]
    exact List.append_ne_nil_of_left_ne_nil (List.ne_nil_of_length_pos hpos) rest
  | ended error hinbox hended =>
    exact iff_of_false (fun hc => hc.2 rfl) fun hc => hc.2 hinbox
  | error error herror =>
    refine iff_of_false (fun hc => hc.2 rfl) fun hc => ?_
    rw [h.error_eq_none (k := k) (by rw [hpc]; rfl) hc.1] at herror
    cases herror
  | wouldBlock hnot => exact absurd trivial hnot

/-- **The server holds no thread** by itself, and lets none go on that is held. -/
theorem Stopped.held_iff (h : Stopped p s) (ha : a.IsServer) (hs : Step s a s') :
    Held k s' ↔ Held k s := by
  rcases a with _ | _ | _ | _ | accepted | _ | ⟨l, x, received⟩ | l | _ | _
  · exact ha.elim
  · exact ha.elim
  · exact ha.elim
  · exact ha.elim
  · obtain ⟨-, hclient, -, hleaves⟩ := accept_spec s accepted
    have hstep := hs
    rcases hs with _ | _ | _ | _ | ⟨_, -, -⟩
    exact h.held_of_leaves hstep hleaves (by rw [hclient]) fun j => by rw [hclient]
  · have hstep := hs
    rcases hs with _ | _ | _ | _ | _ | hs
    obtain ⟨hleaves, hclient | hclient⟩ := acceptorStep_spec hs
    · exact h.held_of_leaves hstep hleaves (by rw [hclient]) fun j => by rw [hclient]
    · -- the new thread has not checked the flag
      rcases eq_or_ne k s.started with rfl | hne
      · refine h.held_of_leaves hstep hleaves ?_ fun j => ?_
        all_goals
          rw [hclient, Function.update_self, h.not_started le_rfl]
          rfl
      · refine h.held_of_leaves hstep hleaves ?_ fun j => ?_
        all_goals rw [hclient, Function.update_of_ne hne]
  · rcases eq_or_ne k l with rfl | hne
    · exact h.held_receive hs
    · obtain ⟨hpc, hslot, st, -, rfl⟩ := h.receive hs
      refine h.held_congr hs ?_ (fun j => ?_) fun hlive => ⟨Function.update_of_ne ?_ .., rfl⟩
      · simp only [State.goto, Function.update_of_ne hne]
      · simp only [State.goto, Function.update_of_ne hne]
      · rintro heq
        refine hne (h.eq_of_connection hlive ?_ (heq.trans hslot))
        rw [hpc]
        rfl
  · have hstep := hs
    rcases hs with _ | _ | _ | _ | _ | _ | _ | ⟨_, hs⟩
    obtain ⟨pc, hadvances, hcommitted, hstream, hcapacity, hreplying⟩ := h.clientStep hs
    have hother : k ≠ l → s'.client k = s.client k := fun hne => by
      rw [hadvances.client, Function.update_of_ne hne]
    have hsame : (s'.client k).committed = (s.client k).committed := by
      rcases eq_or_ne k l with rfl | hne
      · rw [hadvances.client, Function.update_self, hcommitted]
      · rw [hother hne]
    cases hreplying with
    | none hreplies hchunk =>
      refine h.held_of_leaves hstep ⟨hstream, hreplies, hcapacity⟩ hsame fun j => ?_
      rcases eq_or_ne k l with rfl | hne
      · rw [hadvances.client, Function.update_self, hchunk]
      · rw [hother hne]
    | sent x bytes hpc hfull hnone hreplies =>
      have hpointer : (s.client l).pointer = some x := by rw [hpc]; rfl
      obtain ⟨-, -, -, rfl⟩ := h.deref hpointer
      rcases eq_or_ne k l with rfl | hne
      · -- the thread has been able to send its reply
        have hnot : (s.client k).committed = false := by rw [hpc]; rfl
        rw [held_iff_chunk (hsame.trans hnot), held_iff_chunk hnot, hfull, hadvances.client,
          Function.update_self, hnone]
        exact iff_of_false (fun hc => hc.2 rfl) fun hc => Bool.false_ne_true hc.1
      · refine h.held_congr hstep hsame (fun j => by rw [hother hne]) fun hlive =>
          ⟨by rw [hstream], full_congr (hreplies _ fun heq => hne ?_) hcapacity⟩
        exact h.eq_of_connection hlive (ClientPc.live_of_pointer hpointer) heq
  · exact ha.elim
  · exact ha.elim

/-! ### The server at rest -/

/-- The holder of the lock is the one thread inside its sections, as before. -/
theorem Stopped.guards (h : Stopped p s) : Mutex.Guards s.peerSocketsLock Holds s.pc := by
  obtain ⟨-, u, hinv, hfollows⟩ := h
  rcases hfollows with ⟨isStopping, acceptor, client, hacceptor, hclient⟩
  intro t
  rw [show _ ↔ _ from hinv.threads.guards t]
  rcases t with _ | k
  · rcases hacceptor with rfl | ⟨rfl, hu⟩
    · rfl
    · simp [State.pc, hu]
  · rcases hclient k with heq | ⟨heq, hu⟩
    · simp [State.pc, heq]
    · simp [State.pc, heq, hu]

/-- A live thread can remove its peer. -/
theorem Stopped.removePeer (h : Stopped p s) (hk : (s.client k).live = true) :
    ∃ r, s.server.removePeer (s.peerIndex k) = some r := by
  obtain ⟨-, u, hinv, hfollows⟩ := h
  rw [← hfollows.client_eq (ne_exited_of_live hk)] at hk
  obtain ⟨sock, hi⟩ := hinv.threads.exists_connected hk
  obtain ⟨server, hremove, -⟩ := hinv.connections.peers.removePeer hi
  rcases hfollows with ⟨_, _, _, -, -⟩
  exact ⟨_, hremove⟩

/-- **A thread that is not over can go on**, if it does not need to wait for the lock, and its
client does not hold it. -/
theorem Stopped.exists_step (h : Stopped p s) (hover : (s.client k).over = false)
    (hlock : (s.client k).holds = false → s.peerSocketsLock = none) (hk : ¬Held k s) :
    ∃ a s', a.IsServer ∧ Step s a s' := by
  have hclient : (ThreadPerClient.clientStep k s).isSome = true →
      ∃ a s', a.IsServer ∧ Step s a s' :=
    fun hs => ⟨.client k, _, trivial, .client k (Option.some_get hs).symm⟩
  rcases hpc : s.client k with _ | _ | _ | _ | x | x | ⟨x, r⟩ | ⟨x, r⟩ | _ | _ | _ | _
  all_goals rw [hpc] at hover hlock
  · cases hover
  · exact hclient (by simp [ThreadPerClient.clientStep, hpc])
  · exact hclient (by simp [ThreadPerClient.clientStep, hpc])
  · exact hclient (by simp [ThreadPerClient.clientStep, hpc])
  · exact hclient (by simp [ThreadPerClient.clientStep, hpc, hlock rfl])
  · obtain ⟨sock, hderef, hconnection, hslot⟩ := h.deref (k := k) (x := x) (by rw [hpc]; rfl)
    have hquiet : ¬(s.stream (s.connection sock.socketDescriptor)).Quiet := by
      rw [hconnection, hslot]
      exact fun hquiet => hk (.inl ⟨by rw [hpc]; rfl, hquiet⟩)
    obtain ⟨received, st, hst⟩ :=
      Stream.exists_receives (sock.socketDescriptor ∉ s.kernel.nonBlocking) hquiet
    exact ⟨.receive k x received, _, trivial, .receive k x sock received st hpc hderef hst⟩
  · exact hclient (by simp [ThreadPerClient.clientStep, hpc])
  · obtain ⟨sock, hderef, hconnection, hslot⟩ := h.deref (k := k) (x := x) (by rw [hpc]; rfl)
    rcases r with bytes | ⟨read, error⟩
    · have hfull : s.full x = false := by
        refine Bool.eq_false_of_not_eq_true fun hc => hk (.inr ⟨hslot ▸ hc, .inl ?_⟩)
        simp [hpc, ← hslot]
      exact hclient (by simp [ThreadPerClient.clientStep, hpc, hderef, hconnection, State.send,
        hfull])
    · exact hclient (by
        simp only [ThreadPerClient.clientStep, hpc, hderef, Option.bind_some]
        split <;> rfl)
  · exact hclient (by simp [ThreadPerClient.clientStep, hpc, hlock rfl])
  · obtain ⟨r, hremove⟩ := h.removePeer (k := k) (by rw [hpc]; rfl)
    exact hclient (by simp [ThreadPerClient.clientStep, hpc, hremove])
  · exact hclient (by simp [ThreadPerClient.clientStep, hpc])
  · cases hover

/-- **The acceptor can go on**, if it does not need to wait for the lock. -/
theorem exists_acceptorStep (hover : s.acceptor ≠ .exited)
    (hlock : s.acceptor.holds = false → s.peerSocketsLock = none) :
    ∃ a s', a.IsServer ∧ Step s a s' := by
  have hacceptor : (acceptorStep s).isSome = true → ∃ a s', a.IsServer ∧ Step s a s' :=
    fun hs => ⟨.acceptor, _, trivial, .acceptor (Option.some_get hs).symm⟩
  rcases hpc : s.acceptor with _ | _ | sock | sock | i | j | _ | _
  all_goals rw [hpc] at hlock
  · exact hacceptor (by simp [acceptorStep, hpc])
  · exact ⟨.accept none, _, trivial, .accept none hpc (by rintro fd ⟨⟩)⟩
  · exact hacceptor (by simp [acceptorStep, hpc, hlock rfl])
  · exact hacceptor (by simp [acceptorStep, hpc])
  · exact hacceptor (by simp [acceptorStep, hpc])
  · exact hacceptor (by simp [acceptorStep, hpc])
  · exact hacceptor (by simp [acceptorStep, hpc])
  · exact absurd hpc hover

/-- All threads of the server have run to their ends. -/
structure Over (s : State) : Prop where
  acceptor : s.acceptor = .exited
  client : ∀ k, (s.client k).over = true

/-- **A server at rest has run to its end**, if no thread is held. -/
theorem Stopped.over_of_rest (h : Stopped p s) (hheld : ∀ k, ¬Held k s)
    (hrest : (system p).AtRest Action.IsServer s) : Over s := by
  have hstuck : ¬∃ a s', a.IsServer ∧ Step s a s' := by
    rintro ⟨a, s', ha, hs⟩
    exact hrest a s' ha hs
  have hfree : s.peerSocketsLock = none := by
    rcases hlock : s.peerSocketsLock with _ | _ | k
    · rfl
    · -- the acceptor has the lock, and can go on with it
      have hholds : s.acceptor.holds = true := (h.guards .acceptor).mp hlock
      refine absurd (exists_acceptorStep ?_ fun hc => ?_) hstuck
      · rintro hc
        rw [hc] at hholds
        cases hholds
      · rw [hholds] at hc
        cases hc
    · have hholds : (s.client k).holds = true := (h.guards (.client k)).mp hlock
      refine absurd (h.exists_step (k := k) ?_ (fun hc => ?_) (hheld k)) hstuck
      · rcases hpc : s.client k with _ | _ | _ | _ | _ | _ | _ | _ | _ | _ | _ | _
        all_goals rw [hpc] at hholds
        all_goals first | rfl | cases hholds
      · rw [hholds] at hc
        cases hc
  constructor
  · by_contra hc
    exact hstuck (exists_acceptorStep hc fun _ => hfree)
  · intro k
    by_contra hc
    exact hstuck (h.exists_step (Bool.eq_false_of_not_eq_true hc) (fun _ => hfree) (hheld k))

/-! ### The result -/

/-- A thread that `stop` joins: the acceptor, and the threads it has created. -/
def Joined (s : State) : Thread → Prop
  | .acceptor => True
  | .client k => s.client k ≠ .notStarted

/-- The thread has run to its end. -/
def Ended (s : State) : Thread → Prop
  | .acceptor => s.acceptor = .exited
  | .client k => s.client k = .exited

/-- **The thread can exit** without the clients. -/
def Exits (p : Process) (s : State) (t : Thread) : Prop :=
  ∃ tr s', Continues p s tr s' ∧ Ended s' t

/-- A thread that has been created stays so. -/
theorem Stopped.joined_step (h : Stopped p s) (ha : a.IsServer) (hs : Step s a s') {t : Thread}
    (ht : Joined s t) : Joined s' t := by
  rcases t with _ | k
  · trivial
  have hupdate : ∀ {l pc}, pc ≠ ClientPc.notStarted → s'.client = Function.update s.client l pc →
      Joined s' (.client k) := by
    intro l pc hpc hclient
    rw [Joined, hclient]
    rcases eq_or_ne k l with rfl | hne
    · rw [Function.update_self]
      exact hpc
    · rw [Function.update_of_ne hne]
      exact ht
  rcases a with _ | _ | _ | _ | accepted | _ | ⟨l, x, received⟩ | l | _ | _
  · exact ha.elim
  · exact ha.elim
  · exact ha.elim
  · exact ha.elim
  · rcases hs with _ | _ | _ | _ | ⟨_, -, -⟩
    rw [Joined, (accept_spec s accepted).2.1]
    exact ht
  · rcases hs with _ | _ | _ | _ | _ | hs
    rcases (acceptorStep_spec hs).2 with hclient | hclient
    · rw [Joined, hclient]
      exact ht
    · exact hupdate (by simp) hclient
  · obtain ⟨-, -, st, -, rfl⟩ := h.receive hs
    exact hupdate (by simp) rfl
  · rcases hs with _ | _ | _ | _ | _ | _ | _ | ⟨_, hs⟩
    obtain ⟨pc, hadvances, -⟩ := h.clientStep hs
    exact hupdate hadvances.created hadvances.client
  · exact ha.elim
  · exact ha.elim

/-- **The server can run to its end** by itself, if no thread is held. -/
theorem Stopped.exists_over (h : Stopped p s) (hheld : ∀ k, ¬Held k s) :
    ∃ tr s', Continues p s tr s' ∧ Over s' := by
  obtain ⟨tr, s', hsteps, hserver, ⟨h', hheld'⟩, hrest⟩ :=
    TransitionSystem.exists_rest (M := system p) (A := Action.IsServer) (μ := State.remaining)
      (P := fun s => Stopped p s ∧ ∀ k, ¬Held k s)
      (fun _ _ _ ha hP hs => ⟨hP.1.step hs, fun k => (hP.1.held_iff ha hs).not.mpr (hP.2 k)⟩)
      (fun _ _ _ ha hP hs => hP.1.remaining_lt ha hs) ⟨h, hheld⟩
  exact ⟨tr, s', ⟨hsteps, hserver⟩, h'.over_of_rest hheld' hrest⟩

/-- A thread that has run to its end, or has not been created, is not held. -/
theorem Held.over_eq_false (h : Held k s) : (s.client k).over = false := by
  cases hpc : s.client k with
  | notStarted | exited => simp [Held, Silenced, Clogged, hpc] at h
  | _ => rfl

/-- **A thread that is held never exits** without its client. -/
theorem Stopped.not_exits (h : Stopped p s) (hk : Held k s) : ¬Exits p s (.client k) := by
  rintro ⟨tr, s', ⟨hsteps, hserver⟩, hended⟩
  obtain ⟨-, hk'⟩ := hsteps.preserves (A := Action.IsServer)
    (P := fun s => Stopped p s ∧ Held k s)
    (fun _ _ _ ha hP hs => ⟨hP.1.step hs, (hP.1.held_iff ha hs).mpr hP.2⟩) hserver ⟨h, hk⟩
  have hover := hk'.over_eq_false
  rw [show s'.client k = .exited from hended] at hover
  cases hover

theorem stopped_of_run {tr : List (Option Action)} (hrun : (stopping p).Run tr s)
    (hstop : s.isStopping = true) : Stopped p s := by
  obtain ⟨u, ⟨tr₁, h₁⟩, hfollows⟩ := follows_of_run hrun
  exact ⟨hstop, u, inv_of_run h₁, hfollows⟩

/-- **Every thread that `stop` joins can exit** by itself exactly if no thread is held. -/
theorem exits_iff {tr : List (Option Action)} (hrun : (stopping p).Run tr s)
    (hstop : s.isStopping = true) :
    (∀ t, Joined s t → Exits p s t) ↔ ∀ k, ¬Held k s := by
  have h := stopped_of_run hrun hstop
  constructor
  · intro hexits k hk
    refine h.not_exits hk (hexits (.client k) ?_)
    intro hc
    have hover := hk.over_eq_false
    rw [hc] at hover
    cases hover
  · intro hheld t ht
    obtain ⟨tr', s', hcontinues, hover⟩ := h.exists_over hheld
    refine ⟨tr', s', hcontinues, ?_⟩
    obtain ⟨-, hjoined⟩ := hcontinues.1.preserves (A := Action.IsServer)
      (P := fun s => Stopped p s ∧ Joined s t)
      (fun _ _ _ ha hP hs => ⟨hP.1.step hs, hP.1.joined_step ha hs hP.2⟩) hcontinues.2 ⟨h, ht⟩
    rcases t with _ | k
    · exact hover.acceptor
    · have hk := hover.client k
      rcases hpc : s'.client k with _ | _ | _ | _ | _ | _ | _ | _ | _ | _ | _ | _
      all_goals rw [hpc] at hk
      all_goals try cases hk
      · exact absurd hpc hjoined
      · exact hpc

end ThreadPerClient

end Net

end LowLatency
