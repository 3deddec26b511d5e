import LowLatency.Net.ClientAutomation

/-!
# The descriptors of the client

Which of the open descriptors the client has created, and whether it still knows them.
`Socket::create` overwrites `m_socketDescriptor`, and `Socket::close` closes the descriptor only
as long as `m_state` is not `DISCONNECTED`. So there are two ways to lose a descriptor that is
open: another `::socket` after a `::connect` that was refused, and the replacement of a
connection after `isConnectionLost` has set `m_state`. There is no third
(`LowLatency.Net.ClientAutomation.accounted_iff`).
-/

namespace LowLatency

namespace Net

namespace ClientAutomation

variable {messageIteration : Int32} {s s' : State} {tr : List Action} {a : Action}
  {fd : Descriptor}

/-- **The account of the descriptors**: at most one that the thread has created is open, the one
in `m_socket` of the connector; and none is when the thread is done. -/
def Accounted (s : State) : Prop :=
  ∀ fd ∈ s.created, s.pc ≠ .done ∧ fd = s.connector.socketDescriptor

/-- `::socket` is called where `m_socket` has no descriptor, and no connection is replaced. -/
def Clean (s : State) : Action → Prop
  | .socket _ => s.connector.socketDescriptor ≤ 0
  | .reset => False
  | _ => True

/-! ### What the thread knows -/

/-- `m_state` is `CONNECTED` here. -/
@[simp] def Pc.connected : Pc → Bool
  | .iterate | .test | .receive | .handle _ | .resend | .quit => true
  | _ => false

/-- The connection is lost, and not yet replaced. -/
@[simp] def Pc.lost : Pc → Bool
  | .close | .reset => true
  | _ => false

/-- **What is known of the descriptors in every state.** -/
structure Owns (s : State) : Prop where
  stdin : 0 ∈ s.kernel.opened
  opened : s.created ⊆ s.kernel.opened
  positive : ∀ fd ∈ s.created, 0 < fd
  held : s.pc ≠ .done → 0 < s.connector.socketDescriptor →
    s.connector.socketDescriptor ∈ s.created
  connecting : ∀ trial, s.pc = .connect trial → s.connector.socketDescriptor ≠ 0
  serving : s.pc.connected = true ∨ s.pc.lost = true → 0 < s.connector.socketDescriptor
  connected : s.pc.connected = true → s.connector.state = .connected
  disconnected : s.pc.connected = false → s.connector.state = .disconnected

theorem owns_init (hs : (system messageIteration).Init s) : Owns s := by
  obtain ⟨hconnector, -, hpc, hstdin, hcreated⟩ := hs
  constructor
  · exact hstdin
  · rw [hcreated]
    exact Finset.empty_subset _
  · rw [hcreated]
    exact fun fd hfd => absurd hfd (Finset.notMem_empty fd)
  · rw [hconnector]
    exact fun _ hc => absurd hc (lt_irrefl 0)
  · rw [hpc]
    rintro _ ⟨⟩
  · rw [hpc]
    rintro (⟨⟨⟩⟩ | ⟨⟨⟩⟩)
  · rw [hpc]
    rintro ⟨⟩
  · exact fun _ => by rw [hconnector]

/-- A step within a connection, with the descriptors as they were. -/
theorem Owns.keep (h : Owns s) (hconnector : s'.connector = s.connector)
    (hkernel : s'.kernel = s.kernel) (hcreated : s'.created = s.created)
    (hold : s.pc.connected = true) (hnew : s'.pc.connected = true) : Owns s' := by
  constructor
  · rw [hkernel]
    exact h.stdin
  · rw [hcreated, hkernel]
    exact h.opened
  · rw [hcreated]
    exact h.positive
  · rw [hcreated, hconnector]
    refine fun _ => h.held fun hc => ?_
    rw [hc] at hold
    exact Bool.false_ne_true hold
  · intro trial hc
    rw [hc] at hnew
    exact absurd hnew Bool.false_ne_true
  · rw [hconnector]
    exact fun _ => h.serving (.inl hold)
  · rw [hconnector]
    exact fun _ => h.connected hold
  · exact fun hc => absurd (hc.symm.trans hnew) Bool.false_ne_true

/-- Nothing is closed while `m_state` is `DISCONNECTED`. -/
theorem State.close_of_disconnected (h : s.connector.state = .disconnected) : s.close = s := by
  have hclose : s.connector.close = (s.connector, none) := by
    rw [Socket.close, if_neg (not_not.mpr h)]
  rw [State.close, hclose]
  simp

/-- A connection is closed with its descriptor. -/
theorem State.created_close (hstate : s.connector.state = .connected)
    (hpos : 0 < s.connector.socketDescriptor) :
    s.close.created = s.created.erase s.connector.socketDescriptor := by
  rw [State.close, Socket.close_of_connected hstate hpos]
  exact Finset.sdiff_singleton_eq_erase _ _

theorem State.opened_close (hstate : s.connector.state = .connected)
    (hpos : 0 < s.connector.socketDescriptor) :
    s.close.kernel.opened = s.kernel.opened.erase s.connector.socketDescriptor := by
  rw [State.close, Socket.close_of_connected hstate hpos]
  rfl

/-- **A socket is created**: a descriptor that was held before is overwritten, by the new one or
by `-1`. -/
theorem Owns.socket (h : Owns s) {trial : Trial} {fd : Option Descriptor}
    (hpc : s.pc = .socket trial) (hfresh : ∀ x ∈ fd, s.kernel.Fresh x) :
    Owns { s with
      connector := (s.connector.create fd).2
      kernel := s.kernel.socket fd
      created := fd.toFinset ∪ s.created
      pc := .connect trial } := by
  have hstate := h.disconnected (by rw [hpc]; rfl)
  rcases fd with _ | fd
  · constructor
    · exact h.stdin
    · simpa [Kernel.socket] using h.opened
    · simpa using h.positive
    · intro _ hc
      simp at hc
    · intro _ _
      simp
    · rintro (⟨⟨⟩⟩ | ⟨⟨⟩⟩)
    · rintro ⟨⟩
    · intro _
      simpa using hstate
  · obtain ⟨hle, -, hnew⟩ := hfresh fd rfl
    have hne : fd ≠ 0 := by
      rintro rfl
      exact hnew h.stdin
    constructor
    · exact Finset.mem_insert_of_mem h.stdin
    · show (some fd).toFinset ∪ s.created ⊆ insert fd s.kernel.opened
      rw [Option.toFinset_some, Finset.insert_eq]
      exact Finset.union_subset_union_right h.opened
    · intro x hx
      rcases Finset.mem_union.mp hx with hx | hx
      · obtain rfl : x = fd := by simpa using hx
        exact lt_of_le_of_ne hle hne.symm
      · exact h.positive x hx
    · intro _ _
      simp
    · intro _ _
      simpa using hne
    · rintro (⟨⟨⟩⟩ | ⟨⟨⟩⟩)
    · rintro ⟨⟩
    · intro _
      simpa using hstate

/-- **An attempt to connect fails**, and another socket is going to be created. -/
theorem Owns.refused (h : Owns s) {trial : Trial} (hpc : s.pc = .connect trial) :
    Owns { s with connector := (s.connector.connect false).2, pc := .socket trial } := by
  have hstate := h.disconnected (by rw [hpc]; rfl)
  have hheld := h.held (by rw [hpc]; rintro ⟨⟩)
  refine ⟨h.stdin, h.opened, h.positive, fun _ => hheld, by rintro _ ⟨⟩, ?_, by rintro ⟨⟩,
    fun _ => hstate⟩
  rintro (⟨⟨⟩⟩ | ⟨⟨⟩⟩)

/-- **A socket is connected**: it has a descriptor. -/
theorem Owns.established (h : Owns s) {trial : Trial} (hpc : s.pc = .connect trial)
    (hfd : 0 ≤ s.connector.socketDescriptor) {p : Pc} (hp : p.connected = true) :
    Owns { s with connector := (s.connector.connect true).2, pc := p } := by
  have hheld := h.held (by rw [hpc]; rintro ⟨⟩)
  have hpos : 0 < s.connector.socketDescriptor := lt_of_le_of_ne hfd (h.connecting trial hpc).symm
  refine ⟨h.stdin, h.opened, h.positive, fun _ => hheld, ?_, fun _ => hpos, fun _ => rfl,
    fun hc => absurd (hc.symm.trans hp) Bool.false_ne_true⟩
  rintro _ rfl
  cases hp

/-- **A connection that is lost** changes `m_state`, and not the descriptor. -/
theorem Owns.handle (h : Owns s) {read error : ℤ} (hpc : s.pc = .handle (.failed read error)) :
    Owns { s with
      connector := (s.connector.isConnectionLost error).2
      pc := if (s.connector.isConnectionLost error).1 then .close else .test } := by
  have hheld := h.held (by rw [hpc]; rintro ⟨⟩)
  have hpos := h.serving (by rw [hpc]; exact .inl rfl)
  rcases hlost : Socket.lostError error with _ | _
  · refine h.keep ?_ rfl rfl (by rw [hpc]; rfl) ?_
    · simp [Socket.isConnectionLost, hlost]
    · simp [Socket.isConnectionLost, hlost]
  · simp only [Socket.isConnectionLost, hlost, if_true]
    exact ⟨h.stdin, h.opened, h.positive, fun _ => hheld, by rintro _ ⟨⟩, fun _ => hpos,
      by rintro ⟨⟩, fun _ => rfl⟩

/-- **The connector is destroyed** with its descriptor. -/
theorem Owns.exit (h : Owns s) (hpc : s.pc = .quit) : Owns { s.close with pc := .done } := by
  have hstate := h.connected (by rw [hpc]; rfl)
  have hpos := h.serving (by rw [hpc]; exact .inl rfl)
  constructor
  · show 0 ∈ s.close.kernel.opened
    rw [State.opened_close hstate hpos]
    exact Finset.mem_erase_of_ne_of_mem hpos.ne h.stdin
  · show s.close.created ⊆ s.close.kernel.opened
    rw [State.opened_close hstate hpos, State.created_close hstate hpos]
    exact Finset.erase_subset_erase _ h.opened
  · intro fd hfd
    have hold : fd ∈ s.close.created := hfd
    rw [State.created_close hstate hpos] at hold
    exact h.positive fd (Finset.mem_of_mem_erase hold)
  · exact fun hc => absurd rfl hc
  · rintro _ ⟨⟩
  · rintro (⟨⟨⟩⟩ | ⟨⟨⟩⟩)
  · rintro ⟨⟩
  · exact fun _ => Socket.close_state _

/-- **Every step leaves this known.** -/
theorem Owns.step (h : Owns s) (hs : (system messageIteration).Step s a s') : Owns s' := by
  rcases hs with ⟨trial, fd, hpc, hfresh⟩ | ⟨trial, established, hpc, hfd⟩ | ⟨n, hpc, -⟩ |
    ⟨hpc, -⟩ | ⟨received, hpc, -⟩ | ⟨read, error, hpc⟩ | hpc | hpc | hpc | ⟨bytes, hpc⟩ |
    ⟨hpc, -⟩ | ⟨hpc, -⟩ | hpc | ⟨kernel, hopened, hstdin⟩
  · exact h.socket hpc hfresh
  · rcases established with _ | _
    · exact h.refused hpc
    · rcases trial with _ | _
      · exact h.established hpc (hfd rfl) rfl
      · exact h.established hpc (hfd rfl) rfl
  · exact h.keep rfl rfl rfl (by rw [hpc]; rfl) rfl
  · exact h.keep rfl rfl rfl (by rw [hpc]; rfl) rfl
  · exact h.keep rfl rfl rfl (by rw [hpc]; rfl) rfl
  · exact h.handle hpc
  · have hstate := h.disconnected (by rw [hpc]; rfl)
    rw [State.close_of_disconnected hstate]
    exact ⟨h.stdin, h.opened, h.positive, fun _ => h.held (by rw [hpc]; rintro ⟨⟩), by rintro _ ⟨⟩,
      fun _ => h.serving (by rw [hpc]; exact .inr rfl), by rintro ⟨⟩, fun _ => hstate⟩
  · have hstate := h.disconnected (by rw [hpc]; rfl)
    rw [State.close_of_disconnected hstate]
    refine ⟨h.stdin, h.opened, h.positive, fun _ hc => absurd hc (lt_irrefl 0), by rintro _ ⟨⟩,
      ?_, by rintro ⟨⟩, fun _ => rfl⟩
    rintro (⟨⟨⟩⟩ | ⟨⟨⟩⟩)
  · exact h.keep rfl rfl rfl (by rw [hpc]; rfl) rfl
  · exact h.keep rfl rfl rfl (by rw [hpc]; rfl) rfl
  · exact h.keep rfl rfl rfl (by rw [hpc]; rfl) rfl
  · exact h.keep rfl rfl rfl (by rw [hpc]; rfl) rfl
  · exact h.exit hpc
  · exact ⟨hstdin, hopened, h.positive, h.held, h.connecting, h.serving, h.connected,
      h.disconnected⟩

theorem owns_of_run (hrun : (system messageIteration).Run tr s) : Owns s :=
  hrun.invariant (I := fun _ s => Owns s) (fun _ => owns_init) fun _ _ _ _ _ h hs => h.step hs

/-! ### The account -/

/-- A step that neither creates a descriptor nor forgets one. -/
theorem Accounted.keep (h : Accounted s) (hcreated : s'.created = s.created)
    (hfd : s'.connector.socketDescriptor = s.connector.socketDescriptor)
    (hpc : s'.pc ≠ .done ∨ s.pc = .done) : Accounted s' := by
  intro fd hmem
  rw [hcreated] at hmem
  obtain ⟨hdone, heq⟩ := h fd hmem
  refine ⟨?_, heq.trans hfd.symm⟩
  rcases hpc with hpc | hpc
  · exact hpc
  · exact absurd hpc hdone

/-- **A socket is created** in good order where there is none: a descriptor that was there is open
beside the new one. -/
theorem Accounted.socket_iff (h : Accounted s) (howns : Owns s) {trial : Trial}
    {fd : Option Descriptor} (hpc : s.pc = .socket trial) (hfresh : ∀ x ∈ fd, s.kernel.Fresh x) :
    Accounted { s with
      connector := (s.connector.create fd).2
      kernel := s.kernel.socket fd
      created := fd.toFinset ∪ s.created
      pc := .connect trial } ↔ s.connector.socketDescriptor ≤ 0 := by
  constructor
  · intro h'
    by_contra hc
    have hpos : 0 < s.connector.socketDescriptor := not_le.mp hc
    have hheld := howns.held (by rw [hpc]; rintro ⟨⟩) hpos
    have heq := (h' _ (Finset.mem_union_right _ hheld)).2
    rw [Socket.create_socketDescriptor] at heq
    rcases fd with _ | fd
    · rw [heq] at hpos
      exact absurd hpos (by decide)
    · obtain rfl : s.connector.socketDescriptor = fd := heq
      exact (hfresh _ rfl).2.2 (howns.opened hheld)
  · intro hclean x hx
    refine ⟨by rintro ⟨⟩, ?_⟩
    rcases Finset.mem_union.mp hx with hx | hx
    · obtain rfl : fd = some x := by simpa using hx
      simp
    · have hpos := howns.positive x hx
      rw [(h x hx).2] at hpos
      exact absurd hpos (not_lt.mpr hclean)

/-- **A step keeps the account in order exactly if it is clean.** -/
theorem accounted_step (howns : Owns s) (h : Accounted s)
    (hs : (system messageIteration).Step s a s') : Accounted s' ↔ Clean s a := by
  rcases hs with ⟨trial, fd, hpc, hfresh⟩ | ⟨trial, established, hpc, hfd⟩ | ⟨n, hpc, -⟩ |
    ⟨hpc, -⟩ | ⟨received, hpc, -⟩ | ⟨read, error, hpc⟩ | hpc | hpc | hpc | ⟨bytes, hpc⟩ |
    ⟨hpc, -⟩ | ⟨hpc, -⟩ | hpc | ⟨kernel, hopened, hstdin⟩
  · exact h.socket_iff howns hpc hfresh
  · refine iff_of_true (h.keep rfl (by simp) (.inl ?_)) trivial
    rcases trial with _ | _
    all_goals rcases established with _ | _
    all_goals rintro ⟨⟩
  · exact iff_of_true (h.keep rfl rfl (.inl (by rintro ⟨⟩))) trivial
  · exact iff_of_true (h.keep rfl rfl (.inl (by rintro ⟨⟩))) trivial
  · exact iff_of_true (h.keep rfl rfl (.inl (by rintro ⟨⟩))) trivial
  · refine iff_of_true (h.keep rfl ?_ (.inl ?_)) trivial
    · rcases hlost : Socket.lostError error with _ | _
      all_goals simp [Socket.isConnectionLost, hlost]
    · dsimp only
      split_ifs
      all_goals rintro ⟨⟩
  · have hstate := howns.disconnected (by rw [hpc]; rfl)
    rw [State.close_of_disconnected hstate]
    exact iff_of_true (h.keep rfl rfl (.inl (by rintro ⟨⟩))) trivial
  · -- the descriptor stays open, and the new connector does not know it
    have hstate := howns.disconnected (by rw [hpc]; rfl)
    have hpos := howns.serving (by rw [hpc]; exact .inr rfl)
    have hheld := howns.held (by rw [hpc]; rintro ⟨⟩) hpos
    rw [State.close_of_disconnected hstate]
    exact iff_of_false (fun h' => hpos.ne' (h' _ hheld).2) not_false
  · exact iff_of_true (h.keep rfl rfl (.inl (by rintro ⟨⟩))) trivial
  · exact iff_of_true (h.keep rfl rfl (.inl (by rintro ⟨⟩))) trivial
  · exact iff_of_true (h.keep rfl rfl (.inl (by rintro ⟨⟩))) trivial
  · exact iff_of_true (h.keep rfl rfl (.inl (by rintro ⟨⟩))) trivial
  · have hstate := howns.connected (by rw [hpc]; rfl)
    have hpos := howns.serving (by rw [hpc]; exact .inl rfl)
    refine iff_of_true (fun fd hfd => ?_) trivial
    have hold : fd ∈ s.close.created := hfd
    rw [State.created_close hstate hpos] at hold
    exact absurd (h fd (Finset.mem_of_mem_erase hold)).2 (Finset.ne_of_mem_erase hold)
  · exact iff_of_true h trivial

theorem accounted_init (hs : (system messageIteration).Init s) : Accounted s := by
  intro fd hfd
  rw [hs.2.2.2.2] at hfd
  exact absurd hfd (Finset.notMem_empty fd)

/-- **The account is in order in every state a clean run leads to**, and from a state where it is
the steps that are not clean are those after which it is not. -/
theorem accounted_iff (messageIteration : Int32) (tr : List Action) (s : State) :
    (((system messageIteration).restrict Clean).Run tr s → Accounted s) ∧
    ((system messageIteration).Run tr s → Accounted s → ∀ a s',
      (system messageIteration).Step s a s' → (Accounted s' ↔ Clean s a)) := by
  constructor
  · intro hrun
    refine hrun.invariant (I := fun _ s => Accounted s) ?_ ?_
    · intro s hs
      exact accounted_init (show (system messageIteration).Init s from hs)
    · intro tr s a s' hrun ih hs
      exact (accounted_step (owns_of_run hrun.of_restrict) ih hs.1).mpr hs.2
  · intro hrun h a s' hs
    exact accounted_step (owns_of_run hrun) h hs

/-- A client that connects at the first attempt. -/
theorem accounted_receiving :
    ∃ s, s.pc = .receive ∧ s.created = {3} ∧ Accounted s ∧
      ∀ a s', (system 1).Step s a s' → (Accounted s' ↔ Clean s a) := by
  have h₀ : ((system 1).restrict Clean).Run []
      ⟨⟨0, .disconnected⟩, 0, [], 0, .socket .first, ⟨{0, 1, 2}, ∅, ∅⟩, ∅⟩ :=
    .start ⟨rfl, rfl, rfl, by decide, rfl⟩
  have h₁ := h₀.snoc ⟨.socket .first (some 3) rfl (by
    rintro x ⟨⟩
    exact ⟨by decide, by decide, by decide⟩), le_refl 0⟩
  have h₂ := h₁.snoc ⟨.connect .first true rfl (by decide), trivial⟩
  have h₃ := h₂.snoc ⟨.send 1 rfl (by decide), trivial⟩
  have h₄ := h₃.snoc ⟨.test rfl (by decide), trivial⟩
  have haccounted := (accounted_iff 1 _ _).1 h₄
  exact ⟨_, rfl, by decide, haccounted, (accounted_iff 1 _ _).2 h₄.of_restrict haccounted⟩

/-- **The two ways to lose a descriptor**: the first `::connect` is refused, and the second attempt
creates another descriptor; and a connection is reset by its server, and replaced. -/
theorem not_accounted :
    (∃ tr s, (system 1).Run tr s ∧ s.created = {4, 3} ∧ ¬Accounted s) ∧
    ∃ tr s, (system 1).Run tr s ∧ s.created = {3} ∧ s.connector = ⟨0, .disconnected⟩ ∧
      ¬Accounted s := by
  constructor
  · have h₀ : (system 1).Run []
        ⟨⟨0, .disconnected⟩, 0, [], 0, .socket .first, ⟨{0, 1, 2}, ∅, ∅⟩, ∅⟩ :=
      .start ⟨rfl, rfl, rfl, by decide, rfl⟩
    have h₁ := h₀.snoc (.socket .first (some 3) rfl (by
      rintro x ⟨⟩
      exact ⟨by decide, by decide, by decide⟩))
    have h₂ := h₁.snoc (.connect .first false rfl (by decide))
    have h₃ := h₂.snoc (.socket .first (some 4) rfl (by
      rintro x ⟨⟩
      exact ⟨by decide, by decide, by decide⟩))
    refine ⟨_, _, h₃, by decide, fun h => ?_⟩
    exact absurd (h 3 (by decide)).2 (by decide)
  · have h₁ := run_receiving.snoc (.receive (.failed (-1) 104) rfl (by decide))
    have h₂ := h₁.snoc (.handle (-1) 104 rfl)
    have h₃ := h₂.snoc (.close rfl)
    have h₄ := h₃.snoc (.reset rfl)
    refine ⟨_, _, h₄, by decide, rfl, fun h => ?_⟩
    exact absurd (h 3 (by decide)).2 (by decide)

end ClientAutomation

end Net

end LowLatency
