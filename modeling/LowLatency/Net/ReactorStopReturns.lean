import LowLatency.Net.ReactorLifecycle

/-!
# The return of the reactor's `stop`

`LowLatency.Net.Reactor.exits_iff` says when the reactor thread can exit once the flag is set. Here
is what this means for the call that sets it: `stop` returns without the clients' doing exactly if
the thread is not asleep in an `epoll_wait` without a timeout, and always if every call of
`setPollTimeout` has given a timeout (`LowLatency.Net.Reactor.reactor_stop_returns_iff`). Compare
`LowLatency.Net.ThreadPerClient.stop_returns_iff`, where any silent client can keep `stop` waiting.
-/

namespace LowLatency

namespace Net

namespace Reactor

variable {p : Process} {l l' : Lifecycle} {b : OwnerAction (Option LoopAction) Unit} {r r' : Loop}
  {tr : List (OwnerAction (Option LoopAction) Unit)} {ph : Phase} {js : List Unit}

/-- A step of `stop` or of the reactor, not of a client, and not another call. -/
def ByItself : OwnerAction (Option LoopAction) Unit → Prop
  | .join _ | .turn | .stopped | .server none => True
  | .server (some a) => a.IsServer
  | _ => False

/-- The owner is in `stop`. -/
def OwnerPc.InStop : OwnerPc → Prop
  | .joinThread | .stopListener => True
  | _ => False

/-- **`stop` can return** without the clients. -/
def StopReturns (p : Process) (l : Lifecycle) : Prop :=
  ∃ tr l', (lifecycle p).Steps l (tr ++ [.stopped]) l' ∧ ∀ b ∈ tr, ByItself b

/-! ### From the end of the thread to the end of `stop` -/

/-- One step of `stop` less. -/
theorem StopReturns.head (hb : ByItself b) (hs : LifecycleStep p l b l') (h : StopReturns p l') :
    StopReturns p l := by
  obtain ⟨tr, l'', hsteps, hall⟩ := h
  refine ⟨b :: tr, l'', .head hs hsteps, fun c hc => ?_⟩
  rcases List.mem_cons.mp hc with rfl | hc
  · exact hb
  · exact hall c hc

theorem stopReturns_of_stopListener (hpc : l.owner = .stopListener) : StopReturns p l := by
  refine ⟨[], { l with epollEvents := false, owner := .idle }, .single (.inside ?_), nofun⟩
  simp [Reactor.ownerStep, hpc]

/-- **`stop` goes through** unless there is a thread to wait for. -/
theorem stopReturns_of_exited (hin : l.owner.InStop)
    (h : l.reactorThread = some .joinable → l.loop.pc = .exited) : StopReturns p l := by
  cases hpc : l.owner with
  | idle | resetThread | destroyThread | destroyed => rw [hpc] at hin; exact hin.elim
  | stopListener => exact stopReturns_of_stopListener hpc
  | joinThread =>
    by_cases hjoinable : l.reactorThread = some .joinable
    · have hs : Reactor.ownerStep l = some (.join (),
          { l with reactorThread := some .joined, owner := .stopListener }) := by
        simp [Reactor.ownerStep, hpc, hjoinable, h hjoinable]
      exact .head (b := .join ()) trivial (.inside hs) (stopReturns_of_stopListener rfl)
    · have hs : Reactor.ownerStep l = some (.turn, { l with owner := .stopListener }) := by
        simp only [Reactor.ownerStep, hpc]
      exact .head (b := .turn) trivial (.inside hs) (stopReturns_of_stopListener rfl)

/-- A call in which the owner is has not destroyed the server. -/
theorem OwnerPc.InStop.ne_destroyed {pc : OwnerPc} (h : pc.InStop) (b : Bool) :
    pc ≠ .destroyed b := by
  rintro rfl
  exact h

/-- **The steps of the reactor are steps of its life.** -/
theorem stopReturns_of_steps {as : List LoopAction} (hsteps : (stopping p).Steps r as r')
    (hall : ∀ a ∈ as, a.IsServer) (hnamed : l.named = true) (hin : l.owner.InStop)
    (hl : l.loop = r) (hexited : r'.pc = .exited) : StopReturns p l := by
  induction hsteps generalizing l with
  | refl r =>
    subst hl
    exact stopReturns_of_exited hin fun _ => hexited
  | @head r r₁ r' a as hfirst _ ih =>
    subst hl
    have ha : a.IsServer := hall a List.mem_cons_self
    refine .head (b := .server (some a)) ha (.server hnamed hin.ne_destroyed ha hfirst) ?_
    exact ih (l := { l with loop := r₁ }) (fun c hc => hall c (List.mem_cons_of_mem _ hc)) hnamed
      hin rfl hexited

/-! ### The threads that are asleep -/

/-- **A reactor that is asleep** remains so without the clients. -/
theorem asleep_of_steps (h : (lifecycle p).Steps l tr l') (hall : ∀ b ∈ tr, ByItself b)
    (hl : Asleep l.loop) : Asleep l'.loop := by
  refine h.preserves (A := ByItself) (P := fun l => Asleep l.loop) ?_ hall hl
  intro l b l' hb hasleep hs
  cases hs with
  | start | stop | setPollTimeout | input => exact hb.elim
  | destroyListener | setName => exact hasleep
  | inside hs => cases ownerStep_cases hs <;> exact hasleep
  | server _ _ ha hs => exact absurd hs (hasleep.step ha)

/-- In `stop`, the flag is set. -/
theorem LifeInv.isStopping (h : LifeInv p ph js l) (hin : l.owner.InStop) :
    l.loop.isStopping = true := by
  have howner := h.owner
  cases hpc : l.owner with
  | idle | resetThread | destroyThread | destroyed => rw [hpc] at hin; exact hin.elim
  | joinThread => rw [hpc] at howner; exact howner
  | stopListener => rw [hpc] at howner; exact howner.1

/-- A thread that is not at the first check of the flag has been created. -/
theorem LifeInv.created_of_ne (h : LifeInv p ph js l) (hpc : l.loop.pc ≠ .check) :
    l.created = true := by
  by_contra hc
  obtain ⟨⟨-, v, -, -, hcheck, hr⟩, -⟩ := h.unstarted (Bool.eq_false_of_not_eq_true hc)
  exact hpc (by rw [hr]; exact hcheck)

/-- **The call returns exactly if** the thread is not asleep. -/
theorem stopReturns_iff_not_asleep (h : (lifecycle p).Run tr l) (hin : l.owner.InStop) :
    StopReturns p l ↔ ¬Asleep l.loop := by
  have hinv := lifeInv_of_run h
  constructor
  · rintro ⟨tr', l', hsteps, hall⟩ hasleep
    have hasleep' : Asleep l'.loop := by
      refine asleep_of_steps hsteps (fun b hb => ?_) hasleep
      rcases List.mem_append.mp hb with hb | hb
      · exact hall b hb
      · rw [List.mem_singleton.mp hb]
        trivial
    obtain ⟨timeout, hpc, -⟩ := hasleep'
    have hinv' := lifeInv_of_run (h.append hsteps)
    obtain ⟨-, hph, -⟩ := hinv'.started (hinv'.created_of_ne (by rw [hpc]; nofun))
    have hstopped : phase (tr ++ (tr' ++ [.stopped])) = .stopped := by
      rw [← List.append_assoc, phase_snoc] at hph ⊢
      cases hlast : phase (tr ++ tr') with
      | notStarted => rw [hlast] at hph; exact absurd rfl hph
      | running => rfl
      | stopped => rfl
    -- so the thread has been joined
    have hexited := hinv'.joined (hinv'.stopped hstopped).1
    rw [hpc] at hexited
    cases hexited
  · intro hawake
    cases hcreated : l.created with
    | false =>
      have hnone := (hinv.unstarted hcreated).2.2.2.1
      exact stopReturns_of_exited hin fun hc => by rw [hnone] at hc; cases hc
    | true =>
      obtain ⟨tr₁, hrun⟩ := (hinv.started hcreated).1
      obtain ⟨as, r, hsteps, hall, hexited⟩ := (exits_iff hrun (hinv.isStopping hin)).mpr hawake
      cases hnamed : l.named with
      | true => exact stopReturns_of_steps hsteps hall hnamed hin rfl hexited
      | false =>
        refine .head (b := .server none) trivial (.setName hcreated hnamed hin.ne_destroyed) ?_
        exact stopReturns_of_steps (l := { l with named := true }) hsteps hall rfl hin rfl hexited

/-! ### The timeouts -/

/-- The calls of `setPollTimeout` have given timeouts. -/
def TimeoutsGiven (tr : List (OwnerAction (Option LoopAction) Unit)) : Prop :=
  ∀ microSeconds, .server (some (.setPollTimeout microSeconds)) ∈ tr → 0 ≤ setTimeout microSeconds

/-- The timeouts of the loop, the one to come and the one of the current call. -/
def Patient (r : Loop) : Prop :=
  0 ≤ r.epollTimeout ∧ ∀ timeout, r.pc = .wait timeout → 0 ≤ timeout

/-- **A step of the loop** keeps the timeouts. -/
theorem Patient.step {a : LoopAction} (h : Patient r) (hs : LoopStep p r a r')
    (ha : ∀ microSeconds, a ≠ .setPollTimeout microSeconds) : Patient r' := by
  obtain ⟨hle, hwait⟩ := h
  cases hs with
  | stop | input => exact ⟨hle, hwait⟩
  | setPollTimeout microSeconds => exact absurd rfl (ha microSeconds)
  | dispatch => exact ⟨hle, hwait⟩
  | wait | next => exact ⟨hle, nofun⟩
  | check hpc =>
    refine ⟨hle, fun timeout hc => ?_⟩
    dsimp only at hc
    split_ifs at hc
    cases hc
    exact hle

theorem patient_of_run (h : (lifecycle p).Run tr l) (htimeouts : TimeoutsGiven tr) :
    Patient l.loop := by
  refine h.invariant (I := fun tr l => TimeoutsGiven tr → Patient l.loop) ?_ ?_ htimeouts
  · rintro l ⟨⟨u, ⟨-, -, htimeout, hpc, -⟩, hloop⟩, -⟩ -
    rw [hloop]
    refine ⟨?_, fun timeout hc => ?_⟩
    · show 0 ≤ u.epollTimeout
      rw [htimeout]
      exact Int32.le_refl 0
    · rw [show u.pc = _ from hc] at hpc
      cases hpc
  · intro tr l b l' _ ih hs htimeouts
    have hpatient := ih fun microSeconds hmem =>
      htimeouts microSeconds (List.mem_append_left _ hmem)
    cases hs with
    | start binds listens =>
      rw [Reactor.start]
      split_ifs <;> exact hpatient
    | stop | destroyListener | setName => exact hpatient
    | setPollTimeout microSeconds =>
      exact ⟨htimeouts microSeconds (List.mem_append_right _ (List.mem_singleton.mpr rfl)),
        hpatient.2⟩
    | inside hs => cases ownerStep_cases hs <;> exact hpatient
    | input _ _ hs => exact hpatient.step hs (by rintro _ ⟨⟩)
    | server _ _ ha hs => exact hpatient.step hs (by rintro microSeconds rfl; exact ha)

/-! ### The result -/

/-- **`stop` can return by itself exactly if the thread is not asleep**, and in particular if every
call of `setPollTimeout` has given a timeout. In every run that is in `stop`. -/
theorem reactor_stop_returns_iff (h : (lifecycle p).Run tr l) (hin : l.owner.InStop) :
    (StopReturns p l ↔ ¬Asleep l.loop) ∧ (TimeoutsGiven tr → StopReturns p l) := by
  have hiff := stopReturns_iff_not_asleep h hin
  refine ⟨hiff, fun htimeouts => hiff.mpr ?_⟩
  rintro ⟨timeout, hpc, hneg, -⟩
  exact Int32.not_le.mpr hneg ((patient_of_run h htimeouts).2 timeout hpc)

/-- With a timeout of minus one millisecond, `stop` cannot return while no client does anything;
with the one of the constructor it can. -/
theorem reactor_stop_returns_first :
    (∃ tr l, (lifecycle process).Run tr l ∧ l.owner = .joinThread ∧ ¬StopReturns process l) ∧
    ∃ tr l, (lifecycle process).Run tr l ∧ l.owner = .joinThread ∧ l.loop.pc = .wait 0 ∧
      StopReturns process l := by
  obtain ⟨⟨loop, epollEvents, created, named, reactorThread, owner⟩, h, hl, hidle, hnamed,
    hthread⟩ := run_named
  simp only at hl hidle hnamed hthread
  subst hl hidle hnamed hthread
  constructor
  · have h₁ := h.snoc (.setPollTimeout (-1000) rfl)
    have h₂ := h₁.snoc (.server (a := .check) rfl nofun trivial (.check rfl))
    have h₃ := h₂.snoc (.stop rfl)
    refine ⟨_, _, h₃, rfl, fun hreturns => ?_⟩
    exact (reactor_stop_returns_iff h₃ trivial).1.mp hreturns ⟨-1, rfl, by decide, nofun⟩
  · have h₁ := h.snoc (.server (a := .check) rfl nofun trivial (.check rfl))
    have h₂ := h₁.snoc (.stop rfl)
    refine ⟨_, _, h₂, rfl, rfl, (reactor_stop_returns_iff h₂ trivial).2 fun microSeconds hmem => ?_⟩
    simp at hmem

end Reactor

end Net

end LowLatency
