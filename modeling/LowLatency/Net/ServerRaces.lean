import LowLatency.Net.ThreadPerClientInvariant

/-!
# What the threads of the server access at the same time

`m_peerSocketsLock` is held where the acceptor adds a peer and where a thread removes its own, but
two accesses are made without it: `getPeerSocket`, in each turn of `handleClient`, reads
`m_peerSockets`, and the first line of `handleClient` reads `m_clientThreads`. What keeps the
threads apart otherwise is that each has a slot of its own
(`LowLatency.Net.ThreadPerClient.Reserved`).

So there are exactly two data races (`LowLatency.Net.ThreadPerClient.thread_per_client_races_iff`):
a thread is at `getPeerSocket` while the acceptor is about to make a new slot, and a thread is at
its first line while the acceptor stores the handle of one. A slot that is used again is not
enough for the first, since only its own element is written.
-/

namespace LowLatency

namespace Net

namespace ThreadPerClient

open TcpServer (Slot Connected Aligned)

variable {p : Process} {s : State} {k : ℕ} {t u : Thread} {i : ℕ}

/-! ### The members -/

/-- What the threads share, the mutex and the atomic flag apart. -/
inductive Member where
  /-- The vector `m_peerSockets`, as `operator[]` reads it and `emplace_back` changes it. -/
  | peerSockets : Member
  /-- Its element `i`. -/
  | slot (i : ℕ) : Member
  /-- The `TCPConnection` that the element owns. -/
  | connection (i : ℕ) : Member
  | connectionFlags : Member
  /-- The vector `m_clientThreads`. -/
  | clientThreads : Member

/-- The acceptor is about to make a new slot: none is free. -/
def State.Grows (s : State) : Prop :=
  (∃ peerSocket, s.acceptor = .addPeer peerSocket) ∧ s.server.nonUserPeerIndex = -1

/-- What the next step of a thread writes. The connection that was in a slot before is destroyed
when the slot is used again. -/
def State.writes (s : State) : Thread → List Member
  | .acceptor =>
    match s.acceptor with
    | .addPeer _ =>
      if s.server.nonUserPeerIndex = -1 then [.connectionFlags, .peerSockets]
      else
        let i := s.server.nonUserPeerIndex.toSize
        [.slot i, .connection i, .connectionFlags]
    | .emplaceBack _ => [.clientThreads]
    | _ => []
  | .client k =>
    match s.client k with
    | .handle _ (.failed _ error) =>
      if Socket.lostError error then [.connection (s.peerIndex k)] else []
    | .removePeer => [.connectionFlags, .connection (s.peerIndex k)]
    | _ => []

/-- What it reads. The pointer of a thread is to the connection in its slot
(`LowLatency.Net.ThreadPerClient.Threads.pointer`). -/
def State.reads (s : State) : Thread → List Member
  | .acceptor =>
    match s.acceptor with
    | .addPeer _ => [.peerSockets, .connectionFlags]
    | _ => []
  | .client k =>
    match s.client k with
    | .setName => [.clientThreads]
    | .getPeerSocket => [.peerSockets, .slot (s.peerIndex k)]
    | .receive _ | .handle _ _ => [.connection (s.peerIndex k)]
    | .removePeer => [.peerSockets, .slot (s.peerIndex k), .connection (s.peerIndex k)]
    | _ => []

/-- What it accesses. -/
def State.accesses (s : State) (t : Thread) : List Member := s.writes t ++ s.reads t

/-- **A data race**: the next steps of two threads access the same member, and one of them
writes it. -/
def Racy (s : State) : Prop := ∃ t u, t ≠ u ∧ ∃ m ∈ s.writes t, m ∈ s.accesses u

/-! ### What keeps the others off a member -/

/-- **A thread has a slot**: it is to free the slot, or it is the acceptor and the slot is not in
use. -/
def State.Has (s : State) (t : Thread) (i : ℕ) : Prop :=
  s.owned t = some i ∨ t = .acceptor ∧ (∃ peerSocket, s.acceptor = .addPeer peerSocket) ∧
    ∀ sock, ¬s.server.Connected i sock

/-- **Why a thread may access a member.** The last three are the accesses for which there is no good
reason. -/
inductive Reserved (s : State) (t : Thread) : Member → Prop
  | connectionFlags : Holds (s.pc t) → Reserved s t .connectionFlags
  | slot (i : ℕ) : s.Has t i → Reserved s t (.slot i)
  | connection (i : ℕ) : s.Has t i → Reserved s t (.connection i)
  | peerSockets : Holds (s.pc t) → Reserved s t .peerSockets
  | getPeerSocket (k : ℕ) : t = .client k → s.client k = .getPeerSocket →
      Reserved s t .peerSockets
  | setName (k : ℕ) : t = .client k → s.client k = .setName → Reserved s t .clientThreads
  | emplaceBack (j : ℕ) : t = .acceptor → s.acceptor = .emplaceBack j →
      Reserved s t .clientThreads

/-- A thread of a client has its slot until it has removed its peer. -/
theorem has_client (hlive : (s.client k).live = true) : s.Has (.client k) (s.peerIndex k) :=
  .inl (State.owned_client hlive)

/-- The acceptor has the slot that it is going to use again. -/
theorem Inv.has_acceptor (h : Inv p s) {peerSocket : Socket}
    (hpc : s.acceptor = .addPeer peerSocket)
    (hfree : s.server.nonUserPeerIndex ≠ -1) :
    s.Has .acceptor s.server.nonUserPeerIndex.toSize := by
  obtain ⟨server, closed, hadd⟩ : ∃ server closed,
      s.server.addPeer peerSocket = (s.server.nonUserPeerIndex.toSize, server, closed) := by
    rw [TcpServer.addPeer, if_neg hfree]
    exact ⟨_, _, rfl⟩
  exact .inr ⟨rfl, ⟨_, hpc⟩, (h.connections.addPeer hpc hadd).2.1⟩

/-- **Every access is to a member reserved for the thread.** -/
theorem Inv.reserved (h : Inv p s) {m : Member} (hm : m ∈ s.accesses t) : Reserved s t m := by
  rw [State.accesses, List.mem_append] at hm
  cases t with
  | acceptor =>
    cases hpc : s.acceptor with
    | addPeer peerSocket =>
      have hholds : Holds (s.pc .acceptor) := by simp [State.pc, hpc]
      simp only [State.writes, State.reads, hpc] at hm
      split_ifs at hm with hfree
      · simp only [List.mem_cons, List.not_mem_nil, or_false] at hm
        rcases hm with (rfl | rfl) | (rfl | rfl)
        · exact .connectionFlags hholds
        · exact .peerSockets hholds
        · exact .peerSockets hholds
        · exact .connectionFlags hholds
      · simp only [List.mem_cons, List.not_mem_nil, or_false] at hm
        rcases hm with (rfl | rfl | rfl) | (rfl | rfl)
        · exact .slot _ (h.has_acceptor hpc hfree)
        · exact .connection _ (h.has_acceptor hpc hfree)
        · exact .connectionFlags hholds
        · exact .peerSockets hholds
        · exact .connectionFlags hholds
    | emplaceBack j =>
      obtain rfl : m = .clientThreads := by simpa [State.writes, State.reads, hpc] using hm
      exact .emplaceBack j rfl hpc
    | _ => simp [State.writes, State.reads, hpc] at hm
  | client k =>
    cases hpc : s.client k with
    | setName =>
      obtain rfl : m = .clientThreads := by simpa [State.writes, State.reads, hpc] using hm
      exact .setName k rfl hpc
    | getPeerSocket =>
      have hhas := has_client (s := s) (k := k) (by rw [hpc]; rfl)
      simp only [State.writes, State.reads, hpc, List.mem_cons, List.not_mem_nil, or_false,
        false_or] at hm
      rcases hm with rfl | rfl
      · exact .getPeerSocket k rfl hpc
      · exact .slot _ hhas
    | receive x =>
      have hhas := has_client (s := s) (k := k) (by rw [hpc]; rfl)
      obtain rfl : m = .connection (s.peerIndex k) := by
        simpa [State.writes, State.reads, hpc] using hm
      exact .connection _ hhas
    | handle x received =>
      have hhas := has_client (s := s) (k := k) (by rw [hpc]; rfl)
      obtain rfl : m = .connection (s.peerIndex k) := by
        cases received with
        | data bytes => simpa [State.writes, State.reads, hpc] using hm
        | failed read error =>
          simp only [State.writes, State.reads, hpc] at hm
          split_ifs at hm <;> simpa using hm
      exact .connection _ hhas
    | removePeer =>
      have hhas := has_client (s := s) (k := k) (by rw [hpc]; rfl)
      have hholds : Holds (s.pc (.client k)) := by simp [State.pc, hpc]
      simp only [State.writes, State.reads, hpc, List.mem_cons, List.not_mem_nil, or_false] at hm
      rcases hm with (rfl | rfl) | (rfl | rfl | rfl)
      · exact .connectionFlags hholds
      · exact .connection _ hhas
      · exact .peerSockets hholds
      · exact .slot _ hhas
      · exact .connection _ hhas
    | _ => simp [State.writes, State.reads, hpc] at hm

/-- **No two threads have the same slot.** -/
theorem Inv.eq_of_has (h : Inv p s) (ht : s.Has t i) (hu : s.Has u i) : t = u := by
  have hused : ∀ {t}, s.owned t = some i → ∃ sock, s.server.Connected i sock := fun ht =>
    (h.threads.owned.used_iff i).mpr ⟨_, ht⟩
  rcases ht with ht | ⟨rfl, -, hfree⟩
  · rcases hu with hu | ⟨-, -, hfree⟩
    · exact h.threads.owned.unique t u i ht hu
    · exact absurd (hused ht).choose_spec (hfree _)
  · rcases hu with hu | ⟨rfl, -⟩
    · exact absurd (hused hu).choose_spec (hfree _)
    · rfl

/-- The vector of the peers is written when it grows. -/
theorem grows_of_writes (hm : .peerSockets ∈ s.writes t) : t = .acceptor ∧ s.Grows := by
  cases t with
  | acceptor =>
    cases hpc : s.acceptor with
    | addPeer peerSocket =>
      refine ⟨rfl, ⟨_, hpc⟩, ?_⟩
      by_contra hfree
      simp [State.writes, hpc, hfree] at hm
    | _ => simp [State.writes, hpc] at hm
  | client k =>
    cases hpc : s.client k with
    | handle x received =>
      cases received with
      | data bytes => simp [State.writes, hpc] at hm
      | failed read error =>
        simp only [State.writes, hpc] at hm
        split_ifs at hm <;> simp at hm
    | _ => simp [State.writes, hpc] at hm

/-- The vector of the threads is written when a handle is stored. -/
theorem emplaceBack_of_writes (hm : .clientThreads ∈ s.writes t) :
    t = .acceptor ∧ ∃ j, s.acceptor = .emplaceBack j := by
  cases t with
  | acceptor =>
    cases hpc : s.acceptor with
    | addPeer peerSocket =>
      simp only [State.writes, hpc] at hm
      split_ifs at hm <;> simp at hm
    | emplaceBack j => exact ⟨rfl, j, rfl⟩
    | _ => simp [State.writes, hpc] at hm
  | client k =>
    cases hpc : s.client k with
    | handle x received =>
      cases received with
      | data bytes => simp [State.writes, hpc] at hm
      | failed read error =>
        simp only [State.writes, hpc] at hm
        split_ifs at hm <;> simp at hm
    | _ => simp [State.writes, hpc] at hm

/-! ### The main result -/

/-- **There are exactly two data races** between the threads of the server: a new slot is made while
a thread is at `getPeerSocket`, and a handle is stored while a thread is at its first line. For any
number of clients and in every state reached. -/
theorem thread_per_client_races_iff {tr : List Action} (h : (system p).Run tr s) :
    Racy s ↔ (s.Grows ∧ ∃ k, s.client k = .getPeerSocket) ∨
      (∃ j, s.acceptor = .emplaceBack j) ∧ ∃ k, s.client k = .setName := by
  have hinv := inv_of_run h
  constructor
  · rintro ⟨t, u, hne, m, hm, hm'⟩
    have ht : Reserved s t m := hinv.reserved (List.mem_append_left _ hm)
    have hu : Reserved s u m := hinv.reserved hm'
    cases m with
    | connectionFlags =>
      -- both hold the lock
      cases ht with
      | connectionFlags ht => cases hu with
        | connectionFlags hu => exact absurd (hinv.threads.guards.unique hu ht) hne
    | slot i =>
      cases ht with
      | slot _ ht => cases hu with
        | slot _ hu => exact absurd (hinv.eq_of_has ht hu) hne
    | connection i =>
      cases ht with
      | connection _ ht => cases hu with
        | connection _ hu => exact absurd (hinv.eq_of_has ht hu) hne
    | peerSockets =>
      obtain ⟨rfl, hgrows⟩ := grows_of_writes hm
      obtain ⟨peerSocket, hpc⟩ := hgrows.1
      have hholds : Holds (s.pc .acceptor) := by simp [State.pc, hpc]
      cases hu with
      | peerSockets hu => exact absurd (hinv.threads.guards.unique hu hholds) hne
      | getPeerSocket k _ hk => exact .inl ⟨hgrows, k, hk⟩
    | clientThreads =>
      obtain ⟨rfl, hemplace⟩ := emplaceBack_of_writes hm
      cases hu with
      | setName k _ hk => exact .inr ⟨hemplace, k, hk⟩
      | emplaceBack j hu => exact absurd hu.symm hne
  · rintro (⟨⟨⟨peerSocket, hpc⟩, hfull⟩, k, hk⟩ | ⟨⟨j, hpc⟩, k, hk⟩)
    · refine ⟨.acceptor, .client k, by rintro ⟨⟩, .peerSockets, ?_, ?_⟩
      · simp [State.writes, hpc, hfull]
      · simp [State.accesses, State.reads, hk]
    · refine ⟨.acceptor, .client k, by rintro ⟨⟩, .clientThreads, ?_, ?_⟩
      · simp [State.writes, hpc]
      · simp [State.accesses, State.reads, hk]

/-- The first client has been added, its thread is at `getPeerSocket`, and a second client is about
to be accepted. -/
def secondArriving : State :=
  ((runThreads [.client 0, .client 0] oneClient).bind connecting).get rfl

/-- **Both races are reached**: by the first client alone, and when the second one is added. -/
theorem thread_per_client_races_first :
    (∃ tr s, (system process).Run tr s ∧ s.acceptor = .emplaceBack 0 ∧
      s.client 0 = .setName ∧ Racy s) ∧
    ∃ tr s, (system process).Run tr s ∧ s.acceptor = .addPeer ⟨6, .connected⟩ ∧
      s.client 0 = .getPeerSocket ∧ Racy s := by
  constructor
  · have h₀ : ((system process).restrict fun _ _ => True).Run [] started :=
      .start ⟨rfl, rfl, rfl, rfl, rfl, rfl, fun _ => rfl, rfl, rfl, rfl, rfl, by decide⟩
    obtain ⟨_, h₁⟩ : ∃ tr, ((system process).restrict fun _ _ => True).Run tr oneConnecting :=
      run_connecting (fun _ _ => trivial) trivial h₀ (by decide) (Option.some_get _).symm
    have hfresh : oneConnecting.kernel.Fresh 5 := ⟨by decide, by decide, by decide⟩
    obtain ⟨_, h₂⟩ := run_accepting (fun _ _ => trivial) trivial h₁ rfl hfresh (by decide)
      [.acceptor, .acceptor, .acceptor] rfl
    exact ⟨_, _, h₂.of_restrict, rfl, rfl,
      (thread_per_client_races_iff h₂.of_restrict).mpr (.inr ⟨⟨0, rfl⟩, 0, rfl⟩)⟩
  · obtain ⟨_, h₁⟩ := run_oneClient (C := fun _ _ => True) (fun _ _ => trivial) trivial trivial
    have h₂ := run_runThreads (fun _ _ => trivial) [.client 0, .client 0] h₁ rfl
    obtain ⟨_, h₃⟩ : ∃ tr, ((system process).restrict fun _ _ => True).Run tr secondArriving :=
      run_connecting (fun _ _ => trivial) trivial h₂ (by decide) (Option.some_get _).symm
    have hfresh : secondArriving.kernel.Fresh 6 := ⟨by decide, by decide, by decide⟩
    obtain ⟨_, h₄⟩ := run_accepting (fun _ _ => trivial) trivial h₃ rfl hfresh (by decide)
      [.acceptor] rfl
    exact ⟨_, _, h₄.of_restrict, rfl, rfl,
      (thread_per_client_races_iff h₄.of_restrict).mpr (.inl ⟨⟨⟨_, rfl⟩, by decide⟩, 0, rfl⟩)⟩

end ThreadPerClient

end Net

end LowLatency
