import LowLatency.Foundations.Exceptions
import LowLatency.Foundations.Rest
import LowLatency.Mpmc.FineGrainedLinearizable

/-!
# Exceptions in the queue with two locks

The queue of `LowLatency.Mpmc.FineGrained` with an element type whose copies may throw. An
`enqueue` makes its copies before it locks `tail_mutex`, and all that an exception leaves behind
is a node to which nobody has a pointer. A `dequeue` copies the value with `head_mutex` locked by
hand, and nobody unlocks it for a call that is left there.

So an `enqueue` that throws might as well not have been made: the run is one of the queue without
exceptions, once the call is struck out of it. And after a `dequeue` that throws none ever comes to
its end: all wait for a thread that is no longer in the queue
(`LowLatency.Mpmc.FineGrained.unaffected_iff`).
-/

namespace LowLatency

namespace Mpmc

namespace FineGrained

open ThrowingAction (remains completed)

variable {τ α : Type*}

/-- The part of `enqueue` in which the value is copied, to the parameter or to the node. -/
def Pc.CopiesIn : Pc α → Prop
  | .newNode _ => True
  | .fill _ _ => True
  | _ => False

/-- **What a thread has still to do**, counted in steps, until its call is over. -/
@[simp] def Pc.stepsLeft : Pc α → ℕ
  | .idle => 0
  | .newNode _ => 7
  | .fill _ _ => 6
  | .lockTail _ _ => 5
  | .link _ _ => 4
  | .setTail _ => 3
  | .unlockTail => 2
  | .lockHead => 8
  | .readHead => 7
  | .readNext _ => 6
  | .unlockEmpty => 2
  | .copyData _ _ => 5
  | .setHead _ _ _ => 4
  | .unlockHead _ _ => 3
  | .delete _ _ => 2
  | .returning _ => 1

theorem Pc.CopiesIn.outside {p : Pc α} (h : p.CopiesIn) : ¬p.HoldsHead ∧ ¬p.HoldsTail := by
  cases p with
  | newNode | fill => exact ⟨id, id⟩
  | _ => exact h.elim

section Exceptions

variable [DecidableEq τ] {P C : List α} {l : List Addr} {s s' : State τ α} {t : τ}
  {a : QueueAction τ α} {tr : List (ThrowingAction τ α)}

/-- The steps. -/
inductive ThrowingStep : State τ α → ThrowingAction τ α → State τ α → Prop
  | step {s s' : State τ α} {a : QueueAction τ α} : Step s a s' → ThrowingStep s (.step a) s'
  /-- A copy of the value throws, or `new node` does; a node there is already stays where it is. -/
  | enqueue {s : State τ α} (t : τ) : (s.pc t).CopiesIn →
      ThrowingStep s (.throws t) { s with pc := Function.update s.pc t .idle }
  /-- `*data = new_head->data` throws. -/
  | dequeue {s : State τ α} (t : τ) (cur new : Addr) : s.pc t = .copyData cur new →
      ThrowingStep s (.throws t) { s with pc := Function.update s.pc t .idle }

/-- **The queue and its threads, with exceptions.** -/
def throwing (τ α : Type*) [DecidableEq τ] :
    TransitionSystem (State τ α) (ThrowingAction τ α) where
  Init := (system τ α).Init
  Step := ThrowingStep

/-- Only an `enqueue` throws. -/
def InEnqueue (s : State τ α) : ThrowingAction τ α → Prop
  | .step _ => True
  | .throws t => (s.pc t).CopiesIn

/-- **An exception does no harm**: the nodes and the ends of the queue are as they were, the thread
holds no mutex, and the other threads stand where they stood, with the mutexes they held. -/
structure Harmless (t : τ) (s s' : State τ α) : Prop where
  heap : s'.heap = s.heap
  head : s'.head = s.head
  tail : s'.tail = s.tail
  headMutex : s'.headMutex = s.headMutex
  tailMutex : s'.tailMutex = s.tailMutex
  released : s'.headMutex ≠ some t ∧ s'.tailMutex ≠ some t
  others : ∀ u, u ≠ t → s'.pc u = s.pc u

/-- **All calls proceed**: whatever the threads do and call from now on, the call of each of them
can be brought to its end. -/
def Proceeds (s : State τ α) : Prop :=
  ∀ tr s₁, (system τ α).Steps s tr s₁ → ∀ t, ∃ tr' s₂, (system τ α).Steps s₁ tr' s₂ ∧
    s₂.pc t = .idle

/-! ### What holds as long as only `enqueue` throws -/

/-- The invariant, whatever has been enqueued and dequeued, and that there is memory left. -/
structure Sound (s : State τ α) : Prop where
  inv : ∃ P C l, Inv P C l s
  heap : ∃ b, ∀ a, b ≤ a → s.heap a = none

omit [DecidableEq τ] in
theorem Sound.headMutex (h : Sound s) : Mutex.Guards s.headMutex Pc.HoldsHead s.pc := by
  obtain ⟨⟨P, C, l, hinv⟩, -⟩ := h
  exact hinv.headMutex

omit [DecidableEq τ] in
theorem Sound.tailMutex (h : Sound s) : Mutex.Guards s.tailMutex Pc.HoldsTail s.pc := by
  obtain ⟨⟨P, C, l, hinv⟩, -⟩ := h
  exact hinv.tailMutex

/-- There is memory left after an access. -/
theorem exists_bound_update {heap : Addr → Option (Node α)} (h : ∃ b, ∀ a, b ≤ a → heap a = none)
    (x : Addr) (c : Option (Node α)) : ∃ b, ∀ a, b ≤ a → Function.update heap x c a = none := by
  obtain ⟨b, hb⟩ := h
  refine ⟨max b (x + 1), fun a ha => ?_⟩
  have hne : a ≠ x := (Nat.lt_of_succ_le (le_of_max_le_right ha)).ne'
  rw [Function.update_of_ne hne]
  exact hb a (le_of_max_le_left ha)

/-- **A step leaves it sound.** -/
theorem Sound.step (h : Sound s) (hs : Step s a s') : Sound s' := by
  obtain ⟨⟨P, C, l, hinv⟩, hheap⟩ := h
  obtain ⟨l', hinv', -⟩ := hinv.step hs
  refine ⟨⟨_, _, l', hinv'⟩, ?_⟩
  rcases hs with ⟨t, c, hidle⟩ | ⟨fresh, junk, t, hs⟩
  · exact hheap
  · cases threadStep_cases hs with
    | newNode | fill | link | delete => exact exists_bound_update hheap _ _
    | _ => exact hheap

/-- **So does an `enqueue` that throws**: the thread goes back to where it holds nothing. -/
theorem Sound.fails (h : Sound s) (ht : (s.pc t).CopiesIn) :
    Sound { s with pc := Function.update s.pc t .idle } := by
  obtain ⟨⟨P, C, l, hinv⟩, hheap⟩ := h
  refine ⟨⟨P, C, l, ?_⟩, hheap⟩
  exact hinv.goto (hinv.headMutex.keep (iff_of_false id ht.outside.1))
    (hinv.tailMutex.keep (iff_of_false id ht.outside.2)) hinv.tail_of_free
    (fun a ha => by cases ha) trivial trivial trivial

theorem sound_init (hs : (system τ α).Init s) : Sound s := by
  refine ⟨⟨[], [], [], (inv_init hs).1⟩, ?_⟩
  obtain ⟨⟨junk, hheap⟩, -⟩ := hs
  rw [hheap]
  exact exists_bound_update ⟨0, fun a _ => rfl⟩ _ _

theorem sound_of_run (hrun : ((throwing τ α).restrict InEnqueue).Run tr s) : Sound s := by
  refine hrun.invariant (I := fun _ s => Sound s) ?_ ?_
  · exact fun s hs => sound_init hs
  rintro tr s a s' - h ⟨hs | ⟨t, ht⟩ | ⟨t, cur, new, ht⟩, hin⟩
  · exact h.step hs
  · exact h.fails ht
  · have hcopies : (s.pc t).CopiesIn := hin
    rw [ht] at hcopies
    exact hcopies.elim

/-! ### Every call can be completed -/

/-- **A step of a call is one of those that were left of it.** -/
theorem threadStep_stepsLeft {fresh : Addr} {junk : α} {a : QueueAction τ α}
    (hs : threadStep fresh junk t s = some (a, s')) :
    ∃ p, s'.pc = Function.update s.pc t p ∧ p.stepsLeft < (s.pc t).stepsLeft := by
  cases threadStep_cases hs with
  | newNode _ _ _ hpc | fill _ _ _ hpc | lockTail _ _ hpc | link _ _ _ hpc | setTail _ hpc
  | unlockTail hpc | lockHead hpc | readHead hpc | readNull _ _ hpc | readNext _ _ _ hpc
  | unlockEmpty hpc | copyData _ _ _ hpc | setHead _ _ _ hpc | unlockHead _ _ hpc | delete _ _ hpc
  | ret _ hpc =>
    refine ⟨_, rfl, ?_⟩
    rw [hpc]
    simp

/-- **A thread inside a call makes its next step**, unless it waits for a mutex. -/
theorem Inv.exists_threadStep {P C : List α} {l : List Addr} (h : Inv P C l s)
    (hfresh : ∃ fresh, s.heap fresh = none) (hidle : s.pc t ≠ .idle)
    (htail : ∀ v n, s.pc t = .lockTail v n → s.tailMutex = none)
    (hhead : s.pc t = .lockHead → s.headMutex = none) :
    ∃ fresh junk a s', FineGrained.threadStep fresh junk t s = some (a, s') := by
  obtain ⟨⟨junk, next⟩, -⟩ := Option.ne_none_iff_exists'.mp
    (succ_ne_none (h.chain.succ_ne_none List.mem_cons_self))
  have hnode : ∀ x, (s.pc t).deref? s.tail = some x → ∃ node, s.heap x = some node :=
    fun x hx => Option.ne_none_iff_exists'.mp (h.deref hx)
  obtain ⟨fresh, hfresh⟩ := hfresh
  refine ⟨fresh, junk, ?_⟩
  unfold FineGrained.threadStep
  cases hpc : s.pc t with
  | idle => exact absurd hpc hidle
  | newNode v =>
    dsimp only
    rw [hfresh]
    exact ⟨_, _, rfl⟩
  | fill v n | link v n | copyData cur new | delete cur v =>
    obtain ⟨node, hn⟩ := hnode _ (by rw [hpc]; rfl)
    dsimp only
    rw [hn]
    exact ⟨_, _, rfl⟩
  | lockTail v n =>
    dsimp only
    rw [htail v n hpc]
    exact ⟨_, _, rfl⟩
  | lockHead =>
    dsimp only
    rw [hhead hpc]
    exact ⟨_, _, rfl⟩
  | readNext cur =>
    obtain ⟨⟨data, next⟩, hn⟩ := hnode _ (by rw [hpc]; rfl)
    dsimp only
    rw [hn]
    cases next with
    | none => exact ⟨_, _, rfl⟩
    | some new => exact ⟨_, _, rfl⟩
  | _ => exact ⟨_, _, rfl⟩

/-- **The next step of a call** brings the thread nearer to its end. -/
theorem Sound.advance (h : Sound s) (hidle : s.pc t ≠ .idle)
    (htail : ∀ v n, s.pc t = .lockTail v n → s.tailMutex = none)
    (hhead : s.pc t = .lockHead → s.headMutex = none) :
    ∃ fresh junk a s', threadStep fresh junk t s = some (a, s') ∧
      (s'.pc t).stepsLeft < (s.pc t).stepsLeft := by
  obtain ⟨⟨P, C, l, hinv⟩, b, hb⟩ := h
  obtain ⟨fresh, junk, a, s', hs⟩ := hinv.exists_threadStep ⟨b, hb b le_rfl⟩ hidle htail hhead
  obtain ⟨p, hpc, hlt⟩ := threadStep_stepsLeft hs
  refine ⟨fresh, junk, a, s', hs, ?_⟩
  rwa [hpc, Function.update_self]

/-- The holder of a mutex waits for none. -/
theorem Pc.not_waiting {p : Pc α} (h : p.HoldsHead ∨ p.HoldsTail) :
    p ≠ .idle ∧ p ≠ .lockHead ∧ ∀ v n, p ≠ .lockTail v n := by
  refine ⟨?_, ?_, fun v n => ?_⟩
  · rintro rfl
    exact h.elim id id
  · rintro rfl
    exact h.elim id id
  · rintro rfl
    exact h.elim id id

/-- **Whoever holds a mutex can give it up**, and the others wait meanwhile. -/
theorem Sound.leaves (h : Sound s) (u : τ) :
    ∃ tr s', (system τ α).Steps s tr s' ∧ Sound s' ∧ (∀ x, x ≠ u → s'.pc x = s.pc x) ∧
      ¬(s'.pc u).HoldsHead ∧ ¬(s'.pc u).HoldsTail := by
  -- by strong induction on what the holder has still to do
  induction hn : (s.pc u).stepsLeft using Nat.strongRecOn generalizing s with
  | ind n ih =>
    by_cases hin : (s.pc u).HoldsHead ∨ (s.pc u).HoldsTail
    · obtain ⟨hidle, hhead, htail⟩ := Pc.not_waiting hin
      obtain ⟨fresh, junk, a, s₁, hs, hlt⟩ := h.advance hidle
        (fun v n hc => absurd hc (htail v n)) fun hc => absurd hc hhead
      have hstep : Step s a s₁ := .thread fresh junk u hs
      obtain ⟨tr, s', hsteps, hsound, hothers, hout⟩ := ih _ (hn ▸ hlt) (h.step hstep) rfl
      refine ⟨a :: tr, s', .head hstep hsteps, hsound, fun x hx => ?_, hout⟩
      exact (hothers x hx).trans (threadStep_other hx hs).2.2
    · exact ⟨[], s, .refl s, h, fun x _ => rfl, not_or.mp hin⟩

/-- **A mutex a thread waits for can be got free.** -/
theorem Sound.frees (h : Sound s) {m : State τ α → Option τ} {Inside : Pc α → Prop}
    (hguards : ∀ s, Sound s → Mutex.Guards (m s) Inside s.pc)
    (hinside : ∀ p, Inside p → p.HoldsHead ∨ p.HoldsTail) (ht : ¬Inside (s.pc t)) :
    ∃ tr s', (system τ α).Steps s tr s' ∧ Sound s' ∧ s'.pc t = s.pc t ∧ m s' = none := by
  rcases hm : m s with _ | u
  · exact ⟨[], s, .refl s, h, rfl, hm⟩
  · have hu : Inside (s.pc u) := (hguards s h u).mp hm
    have hne : t ≠ u := by
      rintro rfl
      exact ht hu
    obtain ⟨tr, s', hsteps, hsound, hothers, hout⟩ := h.leaves u
    refine ⟨tr, s', hsteps, hsound, hothers t hne, ?_⟩
    -- the holder has left, and nobody else has come in
    rw [Option.eq_none_iff_forall_ne_some]
    intro x hx
    have hin : Inside (s'.pc x) := (hguards s' hsound x).mp hx
    by_cases hxu : x = u
    · subst hxu
      exact (not_or.mpr hout) (hinside _ hin)
    · rw [hothers x hxu] at hin
      exact hxu ((hguards s h).unique hu hin)

/-- **A thread inside a call can make its next step**, once the others have left. -/
theorem Sound.ready (h : Sound s) (t : τ) :
    ∃ tr s', (system τ α).Steps s tr s' ∧ Sound s' ∧ s'.pc t = s.pc t ∧
      (∀ v n, s'.pc t = .lockTail v n → s'.tailMutex = none) ∧
      (s'.pc t = .lockHead → s'.headMutex = none) := by
  rcases hpc : s.pc t with _ | v | ⟨v, n⟩ | ⟨v, n⟩ | ⟨v, n⟩ | n | _ | _ | _ | cur | _ |
    ⟨cur, new⟩ | ⟨cur, new, v⟩ | ⟨cur, v⟩ | ⟨cur, v⟩ | res
  case lockTail =>
    obtain ⟨tr, s', hsteps, hsound, ht, hfree⟩ := h.frees (t := t) (m := State.tailMutex)
      (fun _ h => h.tailMutex) (fun p => .inr) (by rw [hpc]; exact id)
    refine ⟨tr, s', hsteps, hsound, ht.trans hpc, fun _ _ _ => hfree, fun hc => ?_⟩
    rw [ht, hpc] at hc
    cases hc
  case lockHead =>
    obtain ⟨tr, s', hsteps, hsound, ht, hfree⟩ := h.frees (t := t) (m := State.headMutex)
      (fun _ h => h.headMutex) (fun p => .inl) (by rw [hpc]; exact id)
    refine ⟨tr, s', hsteps, hsound, ht.trans hpc, fun v n hc => ?_, fun _ => hfree⟩
    rw [ht, hpc] at hc
    cases hc
  all_goals
    refine ⟨[], s, .refl s, h, hpc, fun v n hc => ?_, fun hc => ?_⟩
    all_goals
      rw [hpc] at hc
      cases hc

/-- **Every call can be brought to its end.** -/
theorem Sound.completes (h : Sound s) (t : τ) :
    ∃ tr s', (system τ α).Steps s tr s' ∧ s'.pc t = .idle := by
  -- by strong induction on what the thread has still to do
  induction hn : (s.pc t).stepsLeft using Nat.strongRecOn generalizing s with
  | ind n ih =>
    by_cases hidle : s.pc t = .idle
    · exact ⟨[], s, .refl s, hidle⟩
    · obtain ⟨tr₁, s₁, hsteps₁, h₁, ht, htail, hhead⟩ := h.ready t
      obtain ⟨fresh, junk, a, s₂, hs, hlt⟩ := h₁.advance (ht ▸ hidle) htail hhead
      have hstep : Step s₁ a s₂ := .thread fresh junk t hs
      rw [ht, hn] at hlt
      obtain ⟨tr₂, s', hsteps₂, hdone⟩ := ih _ hlt (h₁.step hstep) rfl
      exact ⟨tr₁ ++ a :: tr₂, s', hsteps₁.trans (.head hstep hsteps₂), hdone⟩

theorem Sound.proceeds (h : Sound s) : Proceeds s := by
  intro tr s₁ hsteps t
  have h₁ : Sound s₁ := hsteps.preserves (A := fun _ => True) (P := Sound)
    (fun _ _ _ _ h hs => h.step hs) (fun _ _ => trivial) h
  exact h₁.completes t

/-! ### A mutex that is lost -/

/-- `head_mutex` is held by a thread that is not going to unlock it. -/
def HeadLost (s : State τ α) : Prop := s.headMutex ≠ none ∧ ∀ t, ¬(s.pc t).HoldsHead

/-- **A thread that waits for a lost mutex waits for ever.** -/
theorem HeadLost.step (h : HeadLost s) (ht : s.pc t = .lockHead) (hs : Step s a s') :
    HeadLost s' ∧ s'.pc t = .lockHead := by
  have hmove : ∀ (u : τ) (p : Pc α), s'.headMutex = s.headMutex →
      s'.pc = Function.update s.pc u p → s.pc u ≠ .lockHead → ¬p.HoldsHead →
      HeadLost s' ∧ s'.pc t = .lockHead := by
    intro u p hm hpc hu hp
    have hne : t ≠ u := by
      rintro rfl
      exact hu ht
    refine ⟨⟨hm ▸ h.1, ?_⟩, by rw [hpc, Function.update_of_ne hne, ht]⟩
    rw [hpc]
    exact (Function.forall_update_iff s.pc fun _ p => ¬p.HoldsHead).mpr ⟨hp, fun x _ => h.2 x⟩
  rcases hs with ⟨u, c, hidle⟩ | ⟨fresh, junk, u, hs⟩
  · exact hmove u c.entry rfl rfl (by rw [hidle]; nofun) (by cases c <;> exact id)
  · have hout := h.2 u
    cases threadStep_cases hs with
    | lockHead hpc hfree => exact absurd hfree h.1
    | readHead hpc | readNull _ _ hpc | readNext _ _ _ hpc | unlockEmpty hpc | copyData _ _ _ hpc
    | setHead _ _ _ hpc | unlockHead _ _ hpc =>
      rw [hpc] at hout
      exact absurd trivial hout
    | newNode _ _ _ hpc | fill _ _ _ hpc | lockTail _ _ hpc | link _ _ _ hpc | setTail _ hpc
    | unlockTail hpc | delete _ _ hpc | ret _ hpc =>
      exact hmove u _ rfl rfl (by rw [hpc]; nofun) id

/-- **No `dequeue` comes to its end any more.** -/
theorem HeadLost.not_proceeds (h : HeadLost s) (ht : s.pc t = .idle) : ¬Proceeds s := by
  intro hproceeds
  have hcall : Step s (.call t .tryPop) { s with pc := Function.update s.pc t .lockHead } :=
    .call t .dequeue ht
  obtain ⟨tr, s', hsteps, hidle⟩ := hproceeds _ _ (.single hcall) t
  have hlost : HeadLost { s with pc := Function.update s.pc t .lockHead } :=
    ⟨h.1, (Function.forall_update_iff s.pc fun _ p => ¬p.HoldsHead).mpr ⟨id, fun x _ => h.2 x⟩⟩
  have hwaits : HeadLost s' ∧ s'.pc t = .lockHead :=
    hsteps.preserves (A := fun _ => True) (P := fun s => HeadLost s ∧ s.pc t = .lockHead)
      (fun _ _ _ _ h hs => h.1.step h.2 hs) (fun _ _ => trivial)
      ⟨hlost, Function.update_self t _ s.pc⟩
  rw [hidle] at hwaits
  cases hwaits.2

/-- **A `dequeue` that throws loses the mutex.** -/
theorem Inv.headLost (h : Inv P C l s) {cur new : Addr} (ht : s.pc t = .copyData cur new) :
    s.headMutex = some t ∧ HeadLost { s with pc := Function.update s.pc t .idle } := by
  have hholds : (s.pc t).HoldsHead := by
    rw [ht]
    trivial
  have hheld := h.headMutex.held hholds
  refine ⟨hheld, ?_, ?_⟩
  · dsimp only
    rw [hheld]
    exact Option.some_ne_none t
  · exact (Function.forall_update_iff s.pc fun _ p => ¬p.HoldsHead).mpr
      ⟨id, fun u hu => h.headMutex.not_inside hholds hu⟩

/-! ### The run without the calls that fail

An `enqueue` that is going to fail touches nothing but a new node, so the others do the same steps
without it. In the run without the failed calls, the threads `F` whose present call is going to
fail stand between two calls, and the nodes of failed calls are missing. -/

/-- **The state the others see**: the threads `F` are not in their calls, and there may be nodes
that are missing. -/
structure Without (F : τ → Bool) (s₀ s : State τ α) : Prop where
  heap : ∀ a node, s₀.heap a = some node → s.heap a = some node
  head : s₀.head = s.head
  tail : s₀.tail = s.tail
  headMutex : s₀.headMutex = s.headMutex
  tailMutex : s₀.tailMutex = s.tailMutex
  pc : ∀ t, s₀.pc t = if F t then .idle else s.pc t

variable {F : τ → Bool} {s₀ : State τ α}

omit [DecidableEq τ] in
theorem Without.pc_of_not (h : Without F s₀ s) (ht : F t = false) : s₀.pc t = s.pc t := by
  rw [h.pc t, ht]
  rfl

/-- **The same step on both sides**, of a thread that does not fail. -/
theorem Without.update (h : Without F s₀ s) (ht : F t = false)
    {heap heap₀ : Addr → Option (Node α)}
    (hheap : ∀ a node, heap₀ a = some node → heap a = some node) (hd tl : Addr) (hm tm : Option τ)
    (p : Pc α) :
    Without F ⟨heap₀, hd, tl, hm, tm, Function.update s₀.pc t p⟩
      ⟨heap, hd, tl, hm, tm, Function.update s.pc t p⟩ := by
  refine ⟨hheap, rfl, rfl, rfl, rfl, fun u => ?_⟩
  dsimp only
  rcases eq_or_ne u t with rfl | hu
  · rw [Function.update_self, Function.update_self, ht]
    rfl
  · rw [Function.update_of_ne hu, Function.update_of_ne hu]
    exact h.pc u

omit [DecidableEq τ] in
/-- The same write on both sides. -/
theorem Without.write (h : Without F s₀ s) (x : Addr) (c : Option (Node α)) (a : Addr)
    (node : Node α) (ha : Function.update s₀.heap x c a = some node) :
    Function.update s.heap x c a = some node := by
  rcases eq_or_ne a x with rfl | hax
  · rwa [Function.update_self] at ha ⊢
  · rw [Function.update_of_ne hax] at ha ⊢
    exact h.heap a node ha

/-- **A thread that does not fail makes its step without the others**: the nodes it accesses are
not those of failed calls. -/
theorem Without.threadStep (h : Without F s₀ s) (h₀ : Inv P C l s₀) {fresh : Addr} {junk : α}
    (ht : F t = false) (hs : threadStep fresh junk t s = some (a, s')) :
    ∃ s₀', Step s₀ a s₀' ∧ Without F s₀' s' := by
  have hpc₀ := h.pc_of_not ht
  have hnode : ∀ x, (s.pc t).deref? s.tail = some x → s₀.heap x = s.heap x := by
    intro x hx
    rw [← hpc₀, ← h.tail] at hx
    obtain ⟨node, hn⟩ := Option.ne_none_iff_exists'.mp (h₀.deref hx)
    rw [hn, h.heap x node hn]
  obtain ⟨heap₀, head₀, tail₀, hm₀, tm₀, pc₀⟩ := s₀
  obtain ⟨heap, head, tail, hm, tm, pc⟩ := s
  obtain rfl : head₀ = head := h.head
  obtain rfl : tail₀ = tail := h.tail
  obtain rfl : hm₀ = hm := h.headMutex
  obtain rfl : tm₀ = tm := h.tailMutex
  cases threadStep_cases hs with
  | newNode v n junk hpc hn =>
    have hn₀ : heap₀ n = none := by
      rw [Option.eq_none_iff_forall_ne_some]
      intro node hc
      exact Option.some_ne_none node ((h.heap n node hc).symm.trans hn)
    refine ⟨_, .thread n junk t ?_, h.update ht (h.write n (some ⟨junk, none⟩)) ..⟩
    rw [FineGrained.threadStep, hpc₀.trans hpc]
    dsimp only
    rw [hn₀]
  | fill v n node hpc hn =>
    have hn₀ := (hnode n (by rw [hpc]; rfl)).trans hn
    refine ⟨_, .thread fresh junk t ?_, h.update ht (h.write n (some { node with data := v })) ..⟩
    rw [FineGrained.threadStep, hpc₀.trans hpc]
    dsimp only at hn₀ ⊢
    rw [hn₀]
    rfl
  | link v n node hpc hn =>
    have hn₀ := (hnode _ (by rw [hpc]; rfl)).trans hn
    refine ⟨_, .thread fresh junk t ?_,
      h.update ht (h.write _ (some { node with next := some n })) ..⟩
    rw [FineGrained.threadStep, hpc₀.trans hpc]
    dsimp only at hn₀ ⊢
    rw [hn₀]
    rfl
  | readNull _ _ hpc hn | readNext _ _ _ hpc hn | copyData _ _ _ hpc hn =>
    have hn₀ := (hnode _ (by rw [hpc]; rfl)).trans hn
    refine ⟨_, .thread fresh junk t ?_, h.update ht h.heap ..⟩
    rw [FineGrained.threadStep, hpc₀.trans hpc]
    dsimp only at hn₀ ⊢
    rw [hn₀]
    rfl
  | delete cur v hpc =>
    obtain ⟨node, hn₀⟩ := Option.ne_none_iff_exists'.mp
      (h₀.deref (t := t) (a := cur) (by rw [hpc₀.trans hpc]; rfl))
    refine ⟨_, .thread fresh junk t ?_, h.update ht (h.write cur none) ..⟩
    rw [FineGrained.threadStep, hpc₀.trans hpc]
    dsimp only at hn₀ ⊢
    rw [hn₀]
    rfl
  | lockTail _ _ hpc hfree | lockHead hpc hfree =>
    refine ⟨_, .thread fresh junk t ?_, h.update ht h.heap ..⟩
    rw [FineGrained.threadStep, hpc₀.trans hpc]
    dsimp only at hfree ⊢
    rw [hfree]
  | setTail _ hpc | unlockTail hpc | readHead hpc | unlockEmpty hpc | setHead _ _ _ hpc
  | unlockHead _ _ hpc | ret _ hpc =>
    refine ⟨_, .thread fresh junk t ?_, h.update ht h.heap ..⟩
    rw [FineGrained.threadStep, hpc₀.trans hpc]

theorem threadStep_thread {fresh : Addr} {junk : α}
    (hs : threadStep fresh junk t s = some (a, s')) : a.thread = t := by
  cases threadStep_cases hs <;> rfl

/-- The others stay where they stand. -/
theorem Step.pc_of_ne (hs : Step s a s') {u : τ} (hu : u ≠ a.thread) : s'.pc u = s.pc u := by
  rcases hs with ⟨t, c, hidle⟩ | ⟨fresh, junk, t, hs⟩
  · exact Function.update_of_ne hu _ _
  · exact (threadStep_other (threadStep_thread hs ▸ hu) hs).2.2

/-- **The step of a thread that does not fail.** -/
theorem Without.step (h : Without F s₀ s) (h₀ : Inv P C l s₀) (ha : F a.thread = false)
    (hs : Step s a s') : ∃ s₀', Step s₀ a s₀' ∧ Without F s₀' s' := by
  rcases hs with ⟨t, c, hidle⟩ | ⟨fresh, junk, t, hs⟩
  · refine ⟨_, .call t c ((h.pc_of_not ha).trans hidle), ?_⟩
    have hsame := h.update ha h.heap s.head s.tail s.headMutex s.tailMutex c.entry
    rwa [← h.head, ← h.tail, ← h.headMutex, ← h.tailMutex] at hsame ⊢
  · exact h.threadStep h₀ (threadStep_thread hs ▸ ha) hs

/-- **A step after which a thread is still copying** has only added a node. -/
theorem Step.copiesIn (hs : Step s a s') (h : (s'.pc a.thread).CopiesIn) :
    (∀ x node, s.heap x = some node → s'.heap x = some node) ∧
    (s.head = s'.head ∧ s.tail = s'.tail) ∧
    (s.headMutex = s'.headMutex ∧ s.tailMutex = s'.tailMutex) ∧
    (a.isCall = true → s.pc a.thread = .idle) ∧ (a.isCall = false → (s.pc a.thread).CopiesIn) := by
  rcases hs with ⟨t, c, hidle⟩ | ⟨fresh, junk, t, hs⟩
  · exact ⟨fun _ _ => id, ⟨rfl, rfl⟩, ⟨rfl, rfl⟩, fun _ => hidle, nofun⟩
  · rw [threadStep_thread hs] at h ⊢
    cases threadStep_cases hs with
    | newNode v n junk hpc hn =>
      refine ⟨fun x node hx => ?_, ⟨rfl, rfl⟩, ⟨rfl, rfl⟩, nofun, fun _ => ?_⟩
      · have hxn : x ≠ n := by
          rintro rfl
          exact Option.some_ne_none node (hx.symm.trans hn)
        exact (Function.update_of_ne hxn _ _).trans hx
      · rw [hpc]
        trivial
    | _ =>
      dsimp only at h
      rw [Function.update_self] at h
      exact h.elim

/-- **The step of a thread that is going to fail** is not made without it. -/
theorem Without.failing (ha : F a.thread = true) (hs : Step s a s')
    (hcopies : (s'.pc a.thread).CopiesIn)
    (h : Without (if a.isCall then Function.update F a.thread false else F) s₀ s) :
    Without F s₀ s' := by
  obtain ⟨hheap, ⟨hhead, htail⟩, ⟨hhm, htm⟩, hcall, -⟩ := hs.copiesIn hcopies
  refine ⟨fun x node hx => hheap x node (h.heap x node hx), h.head.trans hhead, h.tail.trans htail,
    h.headMutex.trans hhm, h.tailMutex.trans htm, fun u => ?_⟩
  rw [h.pc u]
  rcases eq_or_ne u a.thread with rfl | hu
  · rcases hc : a.isCall with _ | _
    · simp [ha]
    · simp [ha, hcall hc]
  · rw [hs.pc_of_ne hu]
    rcases hc : a.isCall with _ | _
    · rfl
    · simp [hu]

/-- **The exception itself**: the call was one that was going to fail. -/
theorem Without.fails (ht : F t = false) (h : Without (Function.update F t true) s₀ s) :
    Without F s₀ { s with pc := Function.update s.pc t .idle } := by
  refine ⟨h.heap, h.head, h.tail, h.headMutex, h.tailMutex, fun u => ?_⟩
  dsimp only
  rw [h.pc u]
  rcases eq_or_ne u t with rfl | hu
  · rw [Function.update_self, Function.update_self, ht]
    rfl
  · rw [Function.update_of_ne hu, Function.update_of_ne hu]

/-- **The calls that are going to fail** are making their copies. -/
def Copying (F : τ → Bool) (s : State τ α) : Prop := ∀ t, F t = true → (s.pc t).CopiesIn

omit [DecidableEq τ] in
theorem Copying.eq_false (h : Copying F s) (ht : s.pc t = .idle) : F t = false := by
  by_contra hc
  have hcopies := h t (eq_true_of_ne_false hc)
  rw [ht] at hcopies
  exact hcopies

/-- They have been before the step of another thread. -/
theorem Copying.of_step (h : Copying F s') (ha : F a.thread = false) (hs : Step s a s') :
    Copying F s := by
  intro u hu
  have hne : u ≠ a.thread := by
    rintro rfl
    rw [ha] at hu
    cases hu
  rw [← hs.pc_of_ne hne]
  exact h u hu

/-- They have been before a step of one of them, unless that has been the call. -/
theorem Copying.of_failing (h : Copying F s') (ha : F a.thread = true) (hs : Step s a s') :
    Copying (if a.isCall then Function.update F a.thread false else F) s := by
  intro u hu
  obtain ⟨-, -, -, -, hcopies⟩ := hs.copiesIn (h _ ha)
  rcases eq_or_ne u a.thread with rfl | hne
  · rcases hc : a.isCall with _ | _
    · exact hcopies hc
    · simp [hc] at hu
  · rw [← hs.pc_of_ne hne]
    refine h u ?_
    rcases hc : a.isCall with _ | _
    · simpa [hc] using hu
    · simpa [hc, hne] using hu

/-- They have been before an exception, as has the thread that throws. -/
theorem Copying.of_throws (h : Copying F { s with pc := Function.update s.pc t .idle })
    (ht : (s.pc t).CopiesIn) : Copying (Function.update F t true) s := by
  intro u hu
  rcases eq_or_ne u t with rfl | hne
  · exact ht
  · have hcopies := h u (by rwa [Function.update_of_ne hne] at hu)
    dsimp only at hcopies
    rwa [Function.update_of_ne hne] at hcopies

/-- **A run in which only `enqueue` throws is a run without exceptions**, once the calls that fail
are struck out. -/
theorem exists_without (hrun : ((throwing τ α).restrict InEnqueue).Run tr s) (hF : Copying F s) :
    ∃ s₀, (system τ α).Run (remains F tr.reverse) s₀ ∧ Without F s₀ s := by
  -- the calls that are going to fail are known from what comes after
  induction hrun generalizing F with
  | @start s hs =>
    refine ⟨s, .start hs, fun _ _ => id, rfl, rfl, rfl, rfl, fun t => ?_⟩
    rw [hF.eq_false (hs.2.2.2.2 t)]
    rfl
  | @snoc tr s s' a hrun hs ih =>
    obtain ⟨hs, hin⟩ := hs
    cases hs with
    | @step _ a hs =>
      rcases ha : F a.thread with _ | _
      · rw [ThrowingAction.remains_step ha]
        obtain ⟨s₀, hrun₀, h⟩ := ih (hF.of_step ha hs)
        obtain ⟨l, h₀, -⟩ := inv_of_run hrun₀
        obtain ⟨s₀', hs₀, h'⟩ := h.step h₀ ha hs
        exact ⟨s₀', hrun₀.snoc hs₀, h'⟩
      · rw [ThrowingAction.remains_failing ha]
        obtain ⟨s₀, hrun₀, h⟩ := ih (hF.of_failing ha hs)
        exact ⟨s₀, hrun₀, h.failing ha hs (hF _ ha)⟩
    | enqueue t ht =>
      have hidle : F t = false := hF.eq_false (Function.update_self ..)
      rw [ThrowingAction.remains_throws]
      obtain ⟨s₀, hrun₀, h⟩ := ih (hF.of_throws ht)
      exact ⟨s₀, hrun₀, h.fails hidle⟩
    | dequeue t cur new ht =>
      have hcopies : (s.pc t).CopiesIn := hin
      rw [ht] at hcopies
      exact hcopies.elim

/-! ### The result -/

/-- **As long as only `enqueue` throws**, for any number of threads and in every state reached: the
run is one without exceptions from which the failed calls are missing, which leads to the same
queue, and all calls proceed. An exception does no harm, and leaves all calls proceeding, exactly
if it is one of `enqueue`. -/
theorem unaffected_iff (hrun : ((throwing τ α).restrict InEnqueue).Run tr s) :
    (∃ s₀, (system τ α).Run (completed tr) s₀ ∧ Without (fun _ => false) s₀ s) ∧ Proceeds s ∧
    ∀ t s', (throwing τ α).Step s (.throws t) s' →
      (Harmless t s s' ↔ InEnqueue s (.throws t)) ∧ (Proceeds s' ↔ InEnqueue s (.throws t)) := by
  have hsound := sound_of_run hrun
  obtain ⟨P, C, l, hinv⟩ := hsound.inv
  refine ⟨exists_without hrun fun _ => nofun, hsound.proceeds, fun t s' hs => ?_⟩
  rcases hs with - | ⟨t, ht⟩ | ⟨t, cur, new, ht⟩
  · obtain ⟨hhead, htail⟩ := ht.outside
    refine ⟨iff_of_true ?_ ht, iff_of_true (hsound.fails ht).proceeds ht⟩
    exact ⟨rfl, rfl, rfl, rfl, rfl, ⟨fun hc => hhead ((hsound.headMutex t).mp hc),
      fun hc => htail ((hsound.tailMutex t).mp hc)⟩, fun u hu => Function.update_of_ne hu _ _⟩
  · obtain ⟨hheld, hlost⟩ := hinv.headLost ht
    have hin : ¬InEnqueue s (.throws t) := by
      intro hc
      have hcopies : (s.pc t).CopiesIn := hc
      rw [ht] at hcopies
      exact hcopies
    refine ⟨iff_of_false (fun hc => hc.released.1 hheld) hin, iff_of_false ?_ hin⟩
    exact hlost.not_proceeds (t := t) (Function.update_self ..)

/-- An `enqueue` fails while it fills its node, and the same thread enqueues another value. -/
theorem unaffected_refilled : ∃ tr s, ((throwing Bool ℕ).restrict InEnqueue).Run tr s ∧
    s.heap 1 = some ⟨0, none⟩ ∧ s.heap 0 = some ⟨0, some 2⟩ ∧ Proceeds s ∧
    ∃ s₀, (system Bool ℕ).Run [.call true (.push 8), .access true, .access true, .access true,
      .publish true 8] s₀ ∧ Without (fun _ => false) s₀ s := by
  have h0 : ((throwing Bool ℕ).restrict InEnqueue).Run [] constructed := .start init_constructed
  have h1 := h0.snoc ⟨.step (.call true (.enqueue 7) rfl), trivial⟩
  have h2 := h1.snoc ⟨.step (.thread 1 0 true rfl), trivial⟩
  have h3 := h2.snoc ⟨.enqueue true trivial, trivial⟩
  have h4 := h3.snoc ⟨.step (.call true (.enqueue 8) rfl), trivial⟩
  have h5 := h4.snoc ⟨.step (.thread 2 0 true rfl), trivial⟩
  have h6 := h5.snoc ⟨.step (.thread 0 0 true rfl), trivial⟩
  have h7 := h6.snoc ⟨.step (.thread 0 0 true rfl), trivial⟩
  have h8 := h7.snoc ⟨.step (.thread 0 0 true rfl), trivial⟩
  obtain ⟨hwithout, hproceeds, -⟩ := unaffected_iff h8
  exact ⟨_, _, h8, rfl, rfl, hproceeds, hwithout⟩

/-- **A `dequeue` that throws keeps the lock for ever**: one value is enqueued, its copy throws, and
no `dequeue` proceeds after that. -/
theorem lock_kept : ∃ s s', (throwing Bool ℕ).Reachable s ∧
    (throwing Bool ℕ).Step s (.throws false) s' ∧ s'.headMutex = some false ∧
    s'.pc false = .idle ∧ ¬Harmless false s s' ∧ ¬Proceeds s' := by
  have h0 : (throwing Bool ℕ).Run [] constructed := .start init_constructed
  -- the `enqueue` of one value
  have h1 := h0.snoc (.step (.call true (.enqueue 7) rfl))
  have h2 := h1.snoc (.step (.thread 1 0 true rfl))
  have h3 := h2.snoc (.step (.thread 0 0 true rfl))
  have h4 := h3.snoc (.step (.thread 0 0 true rfl))
  have h5 := h4.snoc (.step (.thread 0 0 true rfl))
  have h6 := h5.snoc (.step (.thread 0 0 true rfl))
  have h7 := h6.snoc (.step (.thread 0 0 true rfl))
  have h8 := h7.snoc (.step (.thread 0 0 true rfl))
  -- the `dequeue`, up to the copy
  have h9 := h8.snoc (.step (.call false .dequeue rfl))
  have h10 := h9.snoc (.step (.thread 0 0 false rfl))
  have h11 := h10.snoc (.step (.thread 0 0 false rfl))
  have h12 := h11.snoc (.step (.thread 0 0 false rfl))
  refine ⟨_, _, ⟨_, h12⟩, .dequeue false 0 1 rfl, rfl, rfl, fun hc => hc.released.1 rfl, ?_⟩
  refine HeadLost.not_proceeds (t := false) ⟨Option.some_ne_none false, fun t => ?_⟩ rfl
  cases t with
  | false | true => exact id

end Exceptions

end FineGrained

end Mpmc

end LowLatency
