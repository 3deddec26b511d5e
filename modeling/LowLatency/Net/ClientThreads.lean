import LowLatency.Foundations.Numbering
import LowLatency.Net.Descriptors
import LowLatency.Net.ThreadPerClientProgress
import Mathlib.Data.List.Range

/-!
# The threads of the clients, their slots and their handles

A slot of the peer table is used again after its client has left, possibly while the thread
of that client is still on its last lines. Two questions arise. Do two threads ever share a
slot, or does one keep a pointer to a connection that has been destroyed? The answer is no
(`LowLatency.Net.ThreadPerClient.one_thread_per_slot`): what decides is that a thread calls
`removePeer` as the last thing it does with its slot, and that the acceptor takes a slot
only after that.

And does a thread find its own handle in `m_clientThreads`, which it looks up by its slot?
Not always. The slots are used again, while the handles are only ever appended; and a
thread may look before the acceptor has appended its handle.
`LowLatency.Net.ThreadPerClient.own_handle_iff` says exactly when it finds it.
-/

namespace LowLatency

namespace Net

namespace ThreadPerClient

open TcpServer (Slot Connected Aligned)

variable {p : Process} {s s' : State} {tr : List Action} {a : Action} {k : ℕ}

/-! ### One thread for each slot -/

/-- A flag that is set belongs to a connected peer. -/
theorem Inv.flag_iff (h : Inv p s) {i : ℕ} :
    s.server.peerSocketsConnectionFlags[i]? = some true ↔ ∃ sock, s.server.Connected i sock := by
  constructor
  · intro hflag
    have hi : i < s.server.peerSockets.length := by
      rw [h.connections.peers.aligned]
      exact (List.getElem?_eq_some_iff.mp hflag).1
    exact ⟨_, hflag, List.getElem?_eq_getElem hi⟩
  · rintro ⟨sock, hflag, -⟩
    exact hflag

/-- While the lock is free, the slots in use are those of the threads of the clients: the
acceptor owns a slot only inside its section. -/
theorem Inv.flag_iff_of_free (h : Inv p s) (hfree : s.peerSocketsLock = none) {i : ℕ} :
    s.server.peerSocketsConnectionFlags[i]? = some true ↔
      ∃! k, (s.client k).live = true ∧ s.peerIndex k = i := by
  rw [h.flag_iff, h.threads.owned.used_iff]
  constructor
  · rintro ⟨_ | k, howned⟩
    · have hholds : s.acceptor.holds = true := by
        rcases hpc : s.acceptor with _ | _ | _ | _ | _ | _ | _ | _
        all_goals first | rfl | (rw [State.owned, hpc] at howned; cases howned)
      have hheld := h.threads.guards.held (t := .acceptor) (show Holds (s.pc .acceptor) from hholds)
      rw [hfree] at hheld
      cases hheld
    · refine ⟨k, State.owned_client_eq_some.mp howned, fun j hj => ?_⟩
      have hjk := h.threads.owned.unique _ _ _ (State.owned_client_eq_some.mpr hj) howned
      cases hjk
      rfl
  · rintro ⟨k, hk, -⟩
    exact ⟨.client k, State.owned_client_eq_some.mpr hk⟩

/-- **The connection of a thread is not replaced** before the thread has removed it. -/
theorem Inv.peerSocket_step (h : Inv p s) (hs : (system p).Step s a s')
    (hlive : (s.client k).live = true) :
    s'.peerIndex k = s.peerIndex k ∧
      s'.peerSocket (s.peerIndex k) = s.peerSocket (s.peerIndex k) := by
  rcases hs with _ | _ | _ | _ | ⟨accepted, -, hpending⟩ | hs | _ | ⟨j, hs⟩ | _ | _
  · exact ⟨rfl, rfl⟩
  · exact ⟨rfl, rfl⟩
  · exact ⟨rfl, rfl⟩
  · exact ⟨rfl, rfl⟩
  · rcases accept_cases h.connections hpending with ⟨kernel, -, heq, -⟩ |
      ⟨fd, j, pending, kernel, -, -, heq, -⟩
    all_goals rw [heq]; exact ⟨rfl, rfl⟩
  · rcases acceptorStep_cases h.threads.running hs with - | - |
      ⟨peer, r, server, closed, hpc, hadd⟩ | ⟨r, -⟩ | - | -
    · exact ⟨rfl, rfl⟩
    · exact ⟨rfl, rfl⟩
    · -- `addPeer` uses a slot that is not in use
      obtain ⟨-, hfree, -⟩ := h.connections.addPeer hpc hadd
      obtain ⟨sock, hk⟩ := h.threads.exists_connected hlive
      have hne : s.peerIndex k ≠ r := fun hc => hfree sock (hc ▸ hk)
      exact ⟨rfl, Function.update_of_ne hne ..⟩
    · have hne : k ≠ s.started := by
        rintro rfl
        rw [h.threads.started _ le_rfl] at hlive
        cases hlive
      exact ⟨Function.update_of_ne hne .., rfl⟩
    · exact ⟨rfl, rfl⟩
    · exact ⟨rfl, rfl⟩
  · exact ⟨rfl, rfl⟩
  · rcases clientStep_cases h.threads.running hs with _ | _ | _ | _ | _ | _
    all_goals exact ⟨rfl, rfl⟩
  · exact ⟨rfl, rfl⟩
  · exact ⟨rfl, rfl⟩

/-- **One live thread for each slot.** While the lock is free, a flag is set exactly if one
thread with that slot has been created and has not executed `removePeer` yet, and never are
there two. Whether or not it is free: the connection a thread points to is still the one in
its slot, and connected, and until the thread has removed it no step replaces it. -/
theorem one_thread_per_slot (hrun : (system p).Run tr s) :
    (s.peerSocketsLock = none → ∀ i, s.server.peerSocketsConnectionFlags[i]? = some true ↔
      ∃! k, (s.client k).live = true ∧ s.peerIndex k = i) ∧
    (∀ k x, (s.client k).pointer = some x →
      ∃ sock, s.deref k x = some sock ∧ s.server.Connected (s.peerIndex k) sock) ∧
    ∀ k, (s.client k).live = true → ∀ a s', (system p).Step s a s' →
      s'.peerIndex k = s.peerIndex k ∧
        s'.peerSocket (s.peerIndex k) = s.peerSocket (s.peerIndex k) := by
  have h := inv_of_run hrun
  refine ⟨fun hfree i => h.flag_iff_of_free hfree, fun k x hx => ?_, fun k hlive a s' hs => ?_⟩
  · obtain ⟨sock, hk, hderef, -⟩ := h.deref hx
    exact ⟨sock, hderef, hk⟩
  · exact h.peerSocket_step hs hlive

/-! ### The table of the handles -/

/-- The thread that has been created and whose handle has still to be stored. -/
@[simp] def AcceptorPc.created : AcceptorPc → List ℕ
  | .emplaceBack k => [k]
  | _ => []

/-- **What the handles and the slots have in common**: the handles stored are those of the
threads created, in this order, and the slots have been handed out without gaps. -/
structure Handles (s : State) : Prop where
  stored : s.clientThreads ++ s.acceptor.created = List.range s.started
  gapless : Nat.Gapless s.peerIndex s.started
  /-- Every slot there is has been handed out. -/
  used : ∀ v < s.server.peerSockets.length,
    (∃ i < s.started, s.peerIndex i = v) ∨ s.acceptor.slot = some v
  slot : ∀ r, s.acceptor.slot = some r → ∀ v < r, ∃ i < s.started, s.peerIndex i = v

theorem handles_init (h : (system p).Init s) : Handles s := by
  obtain ⟨hserver, -, -, -, hthreads, hacceptor, -, hstarted, -, -, -, -⟩ := h
  refine ⟨?_, ?_, ?_, ?_⟩
  · rw [hthreads, hacceptor, hstarted]
    rfl
  · rw [hstarted]
    exact Nat.gapless_zero
  · rw [hserver]
    exact fun v hv => absurd hv (Nat.not_lt_zero v)
  · rw [hacceptor]
    exact fun r hr => by cases hr

/-- A step that leaves the two tables alone. -/
theorem Handles.keep (h : Handles s) (hthreads : s'.clientThreads = s.clientThreads)
    (hcreated : s'.acceptor.created = s.acceptor.created)
    (hslot : s'.acceptor.slot = s.acceptor.slot) (hstarted : s'.started = s.started)
    (hindex : s'.peerIndex = s.peerIndex)
    (hlength : s'.server.peerSockets.length = s.server.peerSockets.length) : Handles s' := by
  refine ⟨?_, ?_, ?_, ?_⟩
  · rw [hthreads, hcreated, hstarted]
    exact h.stored
  · rw [hindex, hstarted]
    exact h.gapless
  · rw [hlength, hindex, hstarted, hslot]
    exact h.used
  · rw [hslot, hindex, hstarted]
    exact h.slot

/-- **A slot is handed out.** If there are free ones it is one of them, and otherwise the
next one. -/
theorem Handles.addPeer (h : Handles s) (hinv : Inv p s) {peer : Socket}
    (hpc : s.acceptor = .addPeer peer) {r : ℕ} {server : TcpServer} {closed : Option Descriptor}
    (hadd : s.server.addPeer peer = (r, server, closed)) {peerSocket : ℕ → ℕ} {kernel : Kernel} :
    Handles
      { s with
        server := server, peerSocket := peerSocket, kernel := kernel,
        acceptor := .newThread r } := by
  have hused : ∀ v < s.server.peerSockets.length, ∃ i < s.started, s.peerIndex i = v := by
    intro v hv
    rcases h.used v hv with hi | hslot
    · exact hi
    · rw [hpc] at hslot
      cases hslot
  have hstored : s.clientThreads ++ [] = List.range s.started := by
    have hstored := h.stored
    rwa [hpc] at hstored
  have hpeers := hinv.connections.peers
  rcases TcpServer.addPeer_cases hpeers.aligned hpeers.length_lt peer with ⟨-, heq⟩ |
    ⟨r', old, hslot, -, heq⟩
  · rw [hadd] at heq
    cases heq
    refine ⟨hstored, h.gapless, fun v hv => ?_, ?_⟩
    · rw [List.length_append, List.length_singleton] at hv
      rcases Nat.lt_succ_iff_lt_or_eq.mp hv with hv | rfl
      · exact .inl (hused v hv)
      · exact .inr rfl
    · rintro _ ⟨⟩ v hv
      exact hused v hv
  · rw [hadd] at heq
    cases heq
    have hr : r < s.server.peerSockets.length := (List.getElem?_eq_some_iff.mp hslot.2).1
    refine ⟨hstored, h.gapless, fun v hv => ?_, ?_⟩
    · rw [List.length_set] at hv
      exact .inl (hused v hv)
    · rintro _ ⟨⟩ v hv
      exact hused v (hv.trans hr)

/-- **A thread is created**, and its handle has still to be stored. -/
theorem Handles.newThread (h : Handles s) {r : ℕ} (hpc : s.acceptor = .newThread r)
    {client : ℕ → ClientPc} :
    Handles
      { s with
        client := client, peerIndex := Function.update s.peerIndex s.started r,
        started := s.started + 1, acceptor := .emplaceBack s.started } := by
  have hslot : ∀ v < r, ∃ i < s.started, s.peerIndex i = v := h.slot r (by rw [hpc]; rfl)
  refine ⟨?_, h.gapless.snoc hslot, fun v hv => .inl ?_, fun r' hr' => by cases hr'⟩
  · have hstored := h.stored
    rw [hpc] at hstored
    show s.clientThreads ++ [s.started] = List.range (s.started + 1)
    rw [List.range_succ, ← hstored]
    simp
  · rcases h.used v hv with ⟨i, hi, rfl⟩ | hv
    · exact ⟨i, Nat.lt_succ_of_lt hi, Function.update_of_ne hi.ne ..⟩
    · rw [hpc] at hv
      cases hv
      exact ⟨s.started, Nat.lt_succ_self _, Function.update_self ..⟩

/-- The handle is stored. -/
theorem Handles.emplaceBack (h : Handles s) {n : ℕ} (hpc : s.acceptor = .emplaceBack n) :
    Handles { s with clientThreads := s.clientThreads ++ [n], acceptor := .unlock } := by
  have hstored := h.stored
  have hused := h.used
  rw [hpc] at hstored hused
  refine ⟨?_, h.gapless, hused, fun r hr => by cases hr⟩
  show s.clientThreads ++ [n] ++ [] = List.range s.started
  rw [List.append_nil]
  exact hstored

/-- **The two tables are kept in step** by every step of the acceptor. -/
theorem Handles.acceptorStep (h : Handles s) (hinv : Inv p s) (hs : acceptorStep s = some s') :
    Handles s' := by
  rcases acceptorStep_cases hinv.threads.running hs with hpc | ⟨peer, hpc, -⟩ |
    ⟨peer, r, server, closed, hpc, hadd⟩ | ⟨r, hpc⟩ | ⟨n, hpc⟩ | hpc
  · exact h.keep rfl (by rw [hpc]; rfl) (by rw [hpc]; rfl) rfl rfl rfl
  · exact h.keep rfl (by rw [hpc]; rfl) (by rw [hpc]; rfl) rfl rfl rfl
  · exact h.addPeer hinv hpc hadd
  · exact h.newThread hpc
  · exact h.emplaceBack hpc
  · exact h.keep rfl (by rw [hpc]; rfl) (by rw [hpc]; rfl) rfl rfl rfl

/-- **The two tables are kept in step** by every step. -/
theorem Handles.step (h : Handles s) (hinv : Inv p s) (hs : (system p).Step s a s') :
    Handles s' := by
  rcases hs with _ | _ | _ | _ | ⟨accepted, hpc, hpending⟩ | hs | _ | ⟨j, hs⟩ | _ | _
  -- what the clients do changes neither
  iterate 4
    exact h.keep rfl rfl rfl rfl rfl rfl
  · rcases accept_cases hinv.connections hpending with ⟨kernel, -, heq, -⟩ |
      ⟨fd, j, pending, kernel, -, -, heq, -⟩
    all_goals
      rw [heq]
      exact h.keep rfl (by rw [hpc]; rfl) (by rw [hpc]; rfl) rfl rfl rfl
  · exact h.acceptorStep hinv hs
  · exact h.keep rfl rfl rfl rfl rfl rfl
  · rcases clientStep_cases hinv.threads.running hs with _ | _ | _ | ⟨-, -, -, sock, -, -, -⟩ |
      ⟨server, closed, -, hremove⟩ | _
    iterate 3
      exact h.keep rfl rfl rfl rfl rfl rfl
    · exact h.keep rfl rfl rfl rfl rfl List.length_set
    · refine h.keep rfl rfl rfl rfl rfl ?_
      obtain ⟨sock, -, heq⟩ := Option.map_eq_some_iff.mp hremove
      cases heq
      exact List.length_set
    · exact h.keep rfl rfl rfl rfl rfl rfl
  iterate 2
    exact h.keep rfl rfl rfl rfl rfl rfl

theorem handles_of_run (hrun : (system p).Run tr s) : Handles s :=
  hrun.invariant (I := fun _ s => Handles s) (fun _ h => handles_init h)
    fun _ _ _ _ hrun h hs => h.step (inv_of_run hrun) hs

/-- **While the lock is free, every thread finds a handle** in the place of its slot. -/
theorem Handles.peerIndex_lt (h : Handles s) (hinv : Inv p s) (hfree : s.peerSocketsLock = none)
    (hk : s.client k ≠ .notStarted) : s.peerIndex k < s.clientThreads.length := by
  have hlt : k < s.started := not_le.mp fun hc => hk (hinv.threads.started k hc)
  have hcreated : s.acceptor.created = [] := by
    cases hpc : s.acceptor with
    | emplaceBack n =>
      have hheld := hinv.threads.guards.held (t := .acceptor) (by simp [State.pc, hpc])
      rw [hfree] at hheld
      cases hheld
    | _ => rfl
  have hlength := congrArg List.length h.stored
  rw [hcreated, List.append_nil, List.length_range] at hlength
  exact hlength ▸ (h.gapless.le_self hlt).trans_lt hlt

/-- What `0, 1, 2, …` begins with is a shorter list of this kind. -/
theorem eq_range_of_append {l m : List ℕ} {n : ℕ} (h : l ++ m = List.range n) :
    l = List.range l.length := by
  have hlength := congrArg List.length h
  rw [List.length_append, List.length_range] at hlength
  have htake : l = (List.range n).take l.length := by rw [← h, List.take_left]
  rwa [List.take_range, Nat.min_eq_left (by omega)] at htake

/-- **A thread finds its own handle** exactly if no slot has been handed out twice up to
its own, and the acceptor has stored the handle already: in every state of every run in
which the thread is about to look. -/
theorem own_handle_iff (hrun : (system p).Run tr s) (hk : s.client k = .setName) :
    s.clientThreads[s.peerIndex k]? = some k ↔
      Set.InjOn s.peerIndex (Set.Iic k) ∧ s.acceptor ≠ .emplaceBack k := by
  have h := handles_of_run hrun
  have hlt : k < s.started := by
    by_contra hge
    rw [(inv_of_run hrun).threads.started k (by omega)] at hk
    cases hk
  rw [← h.gapless.eq_self_iff hlt]
  have hrange := eq_range_of_append h.stored
  have hlength := congrArg List.length h.stored
  rw [List.length_append, List.length_range] at hlength
  have hstored : k < s.clientThreads.length ↔ s.acceptor ≠ .emplaceBack k := by
    by_cases hpc : ∃ n, s.acceptor = .emplaceBack n
    · -- the handle that is missing is that of the last thread
      obtain ⟨n, hpc⟩ := hpc
      have hlast := h.stored
      rw [hpc, hrange] at hlast
      rw [hpc] at hlength ⊢
      have hn : s.clientThreads.length = n := by
        have hget := congrArg (·[s.clientThreads.length]?) hlast
        simp only [AcceptorPc.created, List.length_singleton] at hget hlength
        rw [← hlength] at hget
        simpa using hget.symm
      simp only [AcceptorPc.created, List.length_singleton] at hlength
      rw [ne_eq, AcceptorPc.emplaceBack.injEq]
      omega
    · have hnil : s.acceptor.created = [] := by
        rcases hpc' : s.acceptor with _ | _ | _ | _ | _ | n | _ | _
        all_goals first | rfl | exact absurd ⟨n, hpc'⟩ hpc
      rw [hnil, List.length_nil, Nat.add_zero] at hlength
      exact iff_of_true (hlength ▸ hlt) fun hc => hpc ⟨k, hc⟩
  rw [hrange, List.getElem?_eq_some_iff, ← hstored]
  constructor
  · rintro ⟨hi, heq⟩
    rw [List.getElem_range] at heq
    rw [List.length_range] at hi
    exact ⟨heq, heq ▸ hi⟩
  · rintro ⟨heq, hi⟩
    exact ⟨by rw [List.length_range, heq]; exact hi, by rw [List.getElem_range, heq]⟩

/-- The thread of the first client finds its handle, once it has been stored. -/
theorem own_handle_first :
    Set.InjOn oneClient.peerIndex (Set.Iic 0) ∧ oneClient.acceptor ≠ .emplaceBack 0 := by
  obtain ⟨tr, hrun⟩ := run_oneClient (C := fun _ _ => True) (fun _ _ => trivial) trivial trivial
  exact (own_handle_iff hrun.of_restrict (k := 0) rfl).mp rfl

/-! ### Two threads that do not find their handles -/

/-- The thread of the first client has been created, and its handle has not been stored. -/
def justStarted : State :=
  (runThreads [.acceptor, .acceptor, .acceptor] (accept (some 5) oneConnecting)).get rfl

theorem run_justStarted : ∃ tr, ((system process).restrict fun _ _ => True).Run tr justStarted := by
  have h₀ : ((system process).restrict fun _ _ => True).Run [] started :=
    .start ⟨rfl, rfl, rfl, rfl, rfl, rfl, fun _ => rfl, rfl, rfl, rfl, rfl, by decide⟩
  obtain ⟨_, h₁⟩ : ∃ tr, ((system process).restrict fun _ _ => True).Run tr oneConnecting :=
    run_connecting (fun _ _ => trivial) trivial h₀ (by decide) (Option.some_get _).symm
  exact run_accepting (fun _ _ => trivial) trivial h₁ rfl ⟨by decide, by decide, by decide⟩
    (by decide) _ (Option.some_get _).symm

/-- The first client has left, and a second one is about to be accepted. -/
def secondConnecting : State := (connecting clientLost).get rfl

/-- The second client has been added, in the slot of the first. -/
def slotReused : State := (adding 6 secondConnecting).get rfl

theorem run_slotReused : ∃ tr, ((system process).restrict fun _ _ => True).Run tr slotReused := by
  obtain ⟨tr, h₀⟩ := run_clientLost
  obtain ⟨_, h₁⟩ : ∃ tr, ((system process).restrict fun _ _ => True).Run tr secondConnecting :=
    run_connecting (fun _ _ => trivial) trivial h₀ (by decide) (Option.some_get _).symm
  exact run_accepting (fun _ _ => trivial) trivial h₁ rfl ⟨by decide, by decide, by decide⟩
    (by decide) _ (Option.some_get _).symm

/-- The slot has been that of two threads, and has one. -/
theorem one_thread_per_slot_reused :
    slotReused.peerIndex 0 = 0 ∧ slotReused.peerIndex 1 = 0 ∧
      ∃! k, (slotReused.client k).live = true ∧ slotReused.peerIndex k = 0 := by
  obtain ⟨tr, hrun⟩ := run_slotReused
  exact ⟨rfl, rfl, ((one_thread_per_slot hrun.of_restrict).1 rfl 0).mp rfl⟩

/-- **A thread looks outside the table, or finds the handle of another**: if it looks
before its handle is stored, and if its slot has been used before. -/
theorem handle_of_another :
    (∃ tr, (system process).Run tr justStarted ∧ justStarted.client 0 = .setName ∧
      justStarted.clientThreads[justStarted.peerIndex 0]? = none) ∧
    ∃ tr, (system process).Run tr slotReused ∧ slotReused.client 1 = .setName ∧
      slotReused.clientThreads[slotReused.peerIndex 1]? = some 0 := by
  obtain ⟨tr, hrun⟩ := run_justStarted
  obtain ⟨tr', hrun'⟩ := run_slotReused
  exact ⟨⟨tr, hrun.of_restrict, rfl, rfl⟩, tr', hrun'.of_restrict, rfl, rfl⟩

end ThreadPerClient

end Net

end LowLatency
