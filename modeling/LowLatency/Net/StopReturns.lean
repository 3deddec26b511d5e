import LowLatency.Net.ThreadsLifecycle

/-!
# The return of `stop`

`LowLatency.Net.ThreadPerClient.exits_iff` says which threads can exit once the flag is set. Here is
what this means for the call that sets it: `stop` returns without the clients' doing exactly if no
thread is held by its client (`LowLatency.Net.ThreadPerClient.stop_returns_iff`), however many
threads it has joined by now. If the threads can all run to their ends, they do so first, and then
each `join` in the loop returns at once.
-/

namespace LowLatency

namespace Net

namespace ThreadPerClient

variable {p : Process} {l l' : Lifecycle} {b : OwnerAction Action Thread} {s : State} {k : ℕ}
  {tr : List (OwnerAction Action Thread)} {ph : Phase} {js : List Thread}

/-! ### The return of `stop` -/

/-- A step of `stop` or of the server, not of a client, and not another call. -/
def ByItself : OwnerAction Action Thread → Prop
  | .join _ | .turn | .stopped => True
  | .server a => a.IsServer
  | _ => False

/-- The owner is in `stop`. -/
def OwnerPc.InStop : OwnerPc → Prop
  | .idle | .destroyed _ => False
  | _ => True

/-- **`stop` can return** without the clients. -/
def StopReturns (p : Process) (l : Lifecycle) : Prop :=
  ∃ tr l', (lifecycle p).Steps l (tr ++ [.stopped]) l' ∧ ∀ b ∈ tr, ByItself b

/-- One step of `stop` less. -/
theorem StopReturns.head (hb : ByItself b) (hs : LifecycleStep l b l') (h : StopReturns p l') :
    StopReturns p l := by
  obtain ⟨tr, l'', hsteps, hall⟩ := h
  refine ⟨b :: tr, l'', .head hs hsteps, fun c hc => ?_⟩
  rcases List.mem_cons.mp hc with rfl | hc
  · exact hb
  · exact hall c hc

/-- **The loop over the threads goes through** if no thread is alive. -/
theorem LifeInv.loop_returns (h : LifeInv p ph js l) (halive : ∀ t, ¬l.Alive t) {i last : ℕ}
    (hpc : l.owner = .joinClients i last) : StopReturns p l := by
  -- by induction on the number of entries that are left
  induction hn : last - i generalizing l i js with
  | zero =>
    have howner := h.owner
    rw [hpc] at howner
    obtain rfl : i = last := by
      have hle := howner.2.2.2.1
      omega
    refine ⟨[], { l with owner := .idle }, .single (.inStop ?_), nofun⟩
    simp [ThreadPerClient.stopStep, hpc]
  | succ n ih =>
    have howner := h.owner
    rw [hpc] at howner
    obtain ⟨-, hne, hlength, -, -⟩ := howner
    have hlt : i < l.server.clientThreads.length := by omega
    have hk : l.server.clientThreads[i]? = some l.server.clientThreads[i] :=
      List.getElem?_eq_getElem hlt
    have hlast : i ≠ last := by omega
    generalize l.server.clientThreads[i] = k at hk
    cases hobject : l.clientThread k with
    | joined =>
      have hs : ThreadPerClient.stopStep l =
          some (.turn, { l with owner := .joinClients (i + 1) last }) := by
        simp [ThreadPerClient.stopStep, hpc, hlast, hk, hobject]
      have h' := h.stopStep hs
      rw [ph.next_eq (by simp) (by simp)] at h'
      refine .head (b := .turn) trivial (.inStop hs)
        (ih h' (fun t ht => halive t ?_) rfl (by omega))
      cases t <;> exact ht
    | joinable =>
      have hexited : l.server.client k = .exited := by
        have hsome : l.acceptorThread ≠ none := by
          intro hnone
          rw [(h.unstarted hnone).1.clientThreads] at hk
          cases hk
        obtain ⟨hreachable, hph⟩ := h.started hsome
        have hlt : k < l.server.started := by
          have hmem := List.mem_of_getElem? hk
          rwa [h.clientThreads (h.joined_acceptor hne hph), List.mem_range] at hmem
        have hcreated := created_of_lt hreachable hlt
        have hover : ¬(l.server.client k).over = false := halive (.client k)
        cases hclient : l.server.client k with
        | exited => rfl
        | notStarted => exact absurd hclient hcreated
        | _ => exact absurd (by rw [hclient]; rfl) hover
      have hs : ThreadPerClient.stopStep l = some (.join (.client k),
          { l with
            clientThread := Function.update l.clientThread k .joined
            owner := .joinClients (i + 1) last }) := by
        simp [ThreadPerClient.stopStep, hpc, hlast, hk, hobject, hexited]
      have h' := h.stopStep hs
      rw [ph.next_eq (by simp) (by simp)] at h'
      refine .head (b := .join (.client k)) trivial (.inStop hs)
        (ih h' (fun t ht => halive t ?_) rfl (by omega))
      cases t <;> exact ht

/-- **`stop` goes through** if no thread is alive. -/
theorem LifeInv.stop_returns (h : LifeInv p ph js l) (halive : ∀ t, ¬l.Alive t)
    (hin : l.owner.InStop) : StopReturns p l := by
  have hbegin : ∀ {l : Lifecycle} {js : List Thread}, LifeInv p ph js l → (∀ t, ¬l.Alive t) →
      l.owner = .beginClients → StopReturns p l := by
    intro l js h halive hpc
    have hs : ThreadPerClient.stopStep l =
        some (.turn, { l with owner := .joinClients 0 l.server.clientThreads.length }) := by
      simp [ThreadPerClient.stopStep, hpc]
    have h' := h.stopStep hs
    rw [ph.next_eq (by simp) (by simp)] at h'
    refine .head (b := .turn) trivial (.inStop hs) (h'.loop_returns (fun t ht => halive t ?_) rfl)
    cases t <;> exact ht
  cases hpc : l.owner with
  | idle | destroyed => rw [hpc] at hin; exact hin.elim
  | joinClients i last => exact h.loop_returns halive hpc
  | beginClients => exact hbegin h halive hpc
  | joinAcceptor =>
    by_cases hjoinable : l.acceptorThread = some .joinable
    · have hexited : l.server.acceptor = .exited := by
        by_contra hne
        exact halive .acceptor ⟨by rw [hjoinable]; simp, hne⟩
      have hs : ThreadPerClient.stopStep l = some (.join .acceptor,
          { l with acceptorThread := some .joined, owner := .beginClients }) := by
        simp [ThreadPerClient.stopStep, hpc, hjoinable, hexited]
      have h' := h.stopStep hs
      rw [ph.next_eq (by simp) (by simp)] at h'
      refine .head (b := .join .acceptor) trivial (.inStop hs)
        (hbegin h' (fun t ht => halive t ?_) rfl)
      cases t with
      | acceptor => exact absurd hexited ht.2
      | client k => exact ht
    · have hs : ThreadPerClient.stopStep l = some (.turn, { l with owner := .beginClients }) := by
        simp only [ThreadPerClient.stopStep, hpc]
      have h' := h.stopStep hs
      rw [ph.next_eq (by simp) (by simp)] at h'
      refine .head (b := .turn) trivial (.inStop hs) (hbegin h' (fun t ht => halive t ?_) rfl)
      cases t <;> exact ht

/-- **The steps of the server are steps of its life**, and keep its invariant. -/
theorem LifeInv.stop_returns_of_steps (h : LifeInv p ph js l) {s' : State} {tr : List Action}
    (hsteps : (system p).Steps s tr s') (hall : ∀ a ∈ tr, a.IsServer)
    (hsome : l.acceptorThread ≠ none) (hin : l.owner.InStop) (hs : l.server = s)
    (hover : Over s') : StopReturns p l := by
  induction hsteps generalizing l with
  | refl s =>
    subst hs
    refine h.stop_returns (fun t ht => ?_) hin
    cases t with
    | acceptor => exact ht.2 hover.acceptor
    | client k =>
      have hfalse : (l.server.client k).over = false := ht
      rw [hover.client k] at hfalse
      cases hfalse
  | @head s s₁ s' a tr hfirst _ ih =>
    subst hs
    have hnot : ∀ b, l.owner ≠ .destroyed b := by
      intro b hb
      rw [hb] at hin
      exact hin
    refine .head (b := .server a) (hall a List.mem_cons_self) (.server hsome hnot hfirst) ?_
    exact ih (l := { l with server := s₁ }) (h.server hsome hnot hfirst)
      (fun b hb => hall b (List.mem_cons_of_mem _ hb)) hsome hin rfl hover

/-- What the server does by itself in its life. -/
theorem held_of_steps {tr : List (OwnerAction Action Thread)}
    (h : (lifecycle p).Steps l tr l') (hall : ∀ b ∈ tr, ByItself b)
    (hl : Stopped p l.server ∧ Held k l.server) : Held k l'.server := by
  refine (h.preserves (A := ByItself) (P := fun l => Stopped p l.server ∧ Held k l.server) ?_
    hall hl).2
  rintro l b l' hb ⟨hstopped, hk⟩ hs
  cases hs with
  | start | stop | destroy => exact hb.elim
  | inStop hs => cases stopStep_cases hs <;> exact ⟨hstopped, hk⟩
  | server _ _ hs => exact ⟨hstopped.step hs, (hstopped.held_iff hb hs).mpr hk⟩

/-- **`stop` can return by itself exactly if no thread is held**: if none has checked the flag and
waits, or is about to wait, for a client with nothing to say, and none waits, or is bound to wait,
in `send` for a client that does not read. In every run that is in `stop`. -/
theorem stop_returns_iff (h : (lifecycle p).Run tr l) (hin : l.owner.InStop) :
    StopReturns p l ↔ ∀ k, ¬Held k l.server := by
  have hinv := lifeInv_of_run h
  cases hacceptor : l.acceptorThread with
  | none =>
    -- there are no threads
    have hunstarted := (hinv.unstarted hacceptor).1
    have halive : ∀ t, ¬l.Alive t := by
      intro t ht
      cases t with
      | acceptor => exact ht.1 hacceptor
      | client k =>
        have hover : (l.server.client k).over = false := ht
        rw [hunstarted.client k] at hover
        cases hover
    refine iff_of_true (hinv.stop_returns halive hin) fun k hk => ?_
    have hover := hk.over_eq_false
    rw [hunstarted.client k] at hover
    cases hover
  | some t =>
    have hsome : l.acceptorThread ≠ none := by rw [hacceptor]; simp
    obtain ⟨⟨tr₁, hrun⟩, hph⟩ := hinv.started hsome
    have hstopping : l.server.isStopping = true := by
      have howner := hinv.owner
      cases hpc : l.owner with
      | idle | destroyed => rw [hpc] at hin; exact hin.elim
      | joinAcceptor => rw [hpc] at howner; exact howner
      | beginClients => rw [hpc] at howner; exact howner.1
      | joinClients i last => rw [hpc] at howner; exact howner.1
    have hstopped := stopped_of_run hrun hstopping
    constructor
    · rintro ⟨tr', l', hsteps, hall⟩ k hk
      have hall' : ∀ b ∈ tr' ++ [.stopped], ByItself b := by
        intro b hb
        rcases List.mem_append.mp hb with hb | hb
        · exact hall b hb
        · rw [List.mem_singleton.mp hb]
          trivial
      have hk' := held_of_steps hsteps hall' ⟨hstopped, hk⟩
      have hinv' := lifeInv_of_run (h.append hsteps)
      have hcreated : l'.server.client k ≠ .notStarted := by
        intro hc
        have hover := hk'.over_eq_false
        rw [hc] at hover
        cases hover
      have hsome' : l'.acceptorThread ≠ none := fun hnone =>
        hcreated ((hinv'.unstarted hnone).1.client k)
      obtain ⟨hreachable, hph'⟩ := hinv'.started hsome'
      have hstopped' : phase (tr ++ (tr' ++ [.stopped])) = .stopped := by
        rw [← List.append_assoc, phase_snoc] at hph' ⊢
        cases hlast : phase (tr ++ tr') with
        | notStarted => rw [hlast] at hph'; exact absurd rfl hph'
        | running => rfl
        | stopped => rfl
      -- so the thread has been joined
      have hlt : k < l'.server.started := by
        by_contra hge
        exact hcreated (notStarted_of_le hreachable (not_lt.mp hge))
      have hexited := (hinv'.client k (hinv'.stopped hstopped' (.client k) hlt)).2
      have hover := hk'.over_eq_false
      rw [hexited] at hover
      cases hover
    · intro hheld
      obtain ⟨tr', s', ⟨hsteps, hserver⟩, hover⟩ := hstopped.exists_over hheld
      exact hinv.stop_returns_of_steps hsteps hserver hsome hin rfl hover

/-- `stop` cannot return while the only client says nothing. -/
theorem stop_returns_silent : ∃ tr l, (lifecycle process).Run tr l ∧ l.owner = .joinAcceptor ∧
    l.server.client 0 = .receive 0 ∧ ¬StopReturns process l := by
  obtain ⟨_, hrun⟩ := run_clientReceiving
  obtain ⟨tr, h, -⟩ := run_running hrun.of_restrict
  have h' := h.snoc (.stop rfl)
  refine ⟨_, _, h', rfl, rfl, fun hreturns => ?_⟩
  exact (stop_returns_iff h' trivial).mp hreturns 0 (.inl ⟨rfl, rfl, rfl, rfl⟩)

end ThreadPerClient

end Net

end LowLatency
