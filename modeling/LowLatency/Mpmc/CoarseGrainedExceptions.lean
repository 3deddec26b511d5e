import LowLatency.Foundations.Exceptions
import LowLatency.Foundations.Rest
import LowLatency.Mpmc.CoarseGrainedInvariant

/-!
# Exceptions in the queue with one lock

The queue of `LowLatency.Mpmc.CoarseGrained` with an element type whose copy constructor may
throw: in `m_queue.push(val)`, which then leaves the queue as it was, and in
`auto val = m_queue.front()`. The `unique_lock` unlocks, and the call is over.

For the queue and the lock this is harmless. But a popper that throws may have been woken by the
only notification there is for an element, and leaves the element behind. Whether that strands
somebody is again a matter of counting. What has to be kept is that there are notifications
enough for all who are asleep, or threads enough for all elements
(`LowLatency.Mpmc.CoarseGrained.Balanced`); a `pop` that throws is the one step that may break it,
and once it is broken, an element can be stranded by steps that do no harm themselves
(`LowLatency.Mpmc.CoarseGrained.stranded_iff`).
-/

namespace LowLatency

namespace Mpmc

namespace CoarseGrained

open Counting (count total)

variable {τ α : Type*}

/-- The thread is inside `push` or `pop`, and can still notify or take an element. -/
@[simp] def Thread.helps : Thread α → Bool
  | .pusher _ (.lock _) | .pusher _ (.insert _) | .pusher _ .unlock | .pusher _ .notify => true
  | p => p.looking

/-- **An element is stranded**: someone is asleep, the queue is not empty, and no thread is on its
way to notify or to take the element. -/
def Stranded (s : State τ α) : Prop :=
  s.queue ≠ [] ∧ (∃ t, (s.thread t).asleep = true) ∧ ∀ t, (s.thread t).helps = false

theorem Thread.helps_of_inserted {p : Thread α} (h : p.inserted = true) : p.helps = true := by
  rcases p with ⟨todo, pc⟩ | ⟨n, pc⟩
  · cases pc with
    | unlock | notify => rfl
    | _ => cases h
  · cases h

theorem Thread.helps_of_looking {p : Thread α} (h : p.looking = true) : p.helps = true := by
  rcases p with ⟨todo, pc⟩ | ⟨n, pc⟩
  · cases h
  · exact h

/-- What a thread has still to do until it is out of the way. -/
@[simp] def Thread.wayLeft : Thread α → ℕ
  | .pusher _ (.lock _) => 2
  | .pusher _ (.insert _) => 1
  | .pusher _ .unlock => 7
  | .pusher _ .notify => 6
  | .popper _ .lock => 5
  | .popper _ .relock => 5
  | .popper _ .test => 4
  | .popper _ .front => 3
  | .popper _ (.pop _) => 2
  | .popper _ (.unlock _) => 1
  | _ => 0

section Exceptions

variable [Fintype τ] [DecidableEq τ] {program : τ → Program α} {s s' : State τ α} {t : τ}
  {tr : List (ThrowingAction τ α)}

/-- The steps. What a thread does after an exception is up to whoever catches it. -/
inductive ThrowingStep : State τ α → ThrowingAction τ α → State τ α → Prop
  | step {s s' : State τ α} {a : QueueAction τ α} : Step s a s' → ThrowingStep s (.step a) s'
  /-- `m_queue.push(val)` throws. -/
  | push {s : State τ α} (t : τ) (todo todo' : List α) (v : α) :
      s.thread t = .pusher todo (.insert v) →
      ThrowingStep s (.throws t)
        { s with lock := none, thread := Function.update s.thread t (.pusher todo' .idle) }
  /-- The copy of `m_queue.front()` throws. -/
  | pop {s : State τ α} (t : τ) (n n' : ℕ) : s.thread t = .popper n .front →
      ThrowingStep s (.throws t)
        { s with lock := none, thread := Function.update s.thread t (.popper n' .idle) }

/-- **The queue and its threads, with exceptions.** -/
def throwing (program : τ → Program α) : TransitionSystem (State τ α) (ThrowingAction τ α) where
  Init := (system program).Init
  Step := ThrowingStep

/-- **There are notifications enough** for all who are asleep, or else threads enough for all
elements. -/
def Balanced (s : State τ α) : Prop :=
  count Thread.asleep s.thread ≤ count Thread.inserted s.thread ∨
    s.queue.length ≤ count Thread.inserted s.thread + count Thread.looking s.thread

/-- A `pop` throws only if there are notifications enough, or more threads than elements. -/
def Covered (s : State τ α) : ThrowingAction τ α → Prop
  | .step _ => True
  | .throws t => (∃ todo v, s.thread t = .pusher todo (.insert v)) ∨
      count Thread.asleep s.thread ≤ count Thread.inserted s.thread ∨
      s.queue.length < count Thread.inserted s.thread + count Thread.looking s.thread

/-! ### The lock -/

/-- **An exception unlocks**, like a return. -/
theorem Consistent.throwingStep {a : ThrowingAction τ α} (h : Consistent s)
    (hs : ThrowingStep s a s') : Consistent s' := by
  rcases hs with hs | ⟨t, todo, todo', v, ht⟩ | ⟨t, n, n', ht⟩
  · exact h.step hs
  · exact h.unlocks _ (ht ▸ trivial) id
  · exact h.unlocks _ (ht ▸ trivial) id

/-! ### The balance -/

/-- The numbers of threads after one has moved. -/
theorem counts_update (s : State τ α) (t : τ) (p : Thread α) :
    count Thread.asleep (Function.update s.thread t p) + (s.thread t).asleep.toNat =
      count Thread.asleep s.thread + p.asleep.toNat ∧
    count Thread.inserted (Function.update s.thread t p) + (s.thread t).inserted.toNat =
      count Thread.inserted s.thread + p.inserted.toNat ∧
    count Thread.looking (Function.update s.thread t p) + (s.thread t).looking.toNat =
      count Thread.looking s.thread + p.looking.toNat :=
  ⟨Counting.count_update .., Counting.count_update .., Counting.count_update ..⟩

/-- **A thread moves on and keeps the balance**: it adds no more to those asleep than to the
notifications, and to the elements no more than to the threads on their way. -/
theorem Balanced.update (h : Balanced s) {p₀ : Thread α} (ht : s.thread t = p₀) (p : Thread α)
    {queue' : List α} {lock' : Option τ}
    (hasleep : p.asleep.toNat + p₀.inserted.toNat ≤ p₀.asleep.toNat + p.inserted.toNat)
    (hqueue : queue'.length + p₀.inserted.toNat + p₀.looking.toNat ≤
      s.queue.length + p.inserted.toNat + p.looking.toNat) :
    Balanced ⟨queue', lock', Function.update s.thread t p⟩ := by
  obtain ⟨ha, hi, hl⟩ := counts_update s t p
  rw [ht] at ha hi hl
  rcases h with h | h
  · refine .inl ?_
    dsimp only
    omega
  · refine .inr ?_
    dsimp only
    omega

/-- **A thread moves on and does not restore the balance.** -/
theorem Balanced.of_update {p₀ : Thread α} (ht : s.thread t = p₀) {p : Thread α}
    {queue' : List α} {lock' : Option τ}
    (h : Balanced ⟨queue', lock', Function.update s.thread t p⟩)
    (hasleep : p₀.asleep.toNat + p.inserted.toNat ≤ p.asleep.toNat + p₀.inserted.toNat)
    (hqueue : s.queue.length + p.inserted.toNat + p.looking.toNat ≤
      queue'.length + p₀.inserted.toNat + p₀.looking.toNat) : Balanced s := by
  obtain ⟨ha, hi, hl⟩ := counts_update s t p
  rw [ht] at ha hi hl
  rcases h with h | h
  · refine .inl ?_
    dsimp only at h
    omega
  · refine .inr ?_
    dsimp only at h
    omega

/-- The threads after a notification: one asleep fewer, one notification fewer, one thread more that
looks for an element, and less to do. -/
theorem counts_wake {todo : List α} {u : τ} {n : ℕ} (ht : s.thread t = .pusher todo .notify)
    (hu : s.thread u = .popper n .asleep) {thread' : τ → Thread α}
    (hthread : thread' = Function.update (Function.update s.thread t (.pusher todo .returning)) u
      (.popper n .relock)) :
    count Thread.asleep thread' + 1 = count Thread.asleep s.thread ∧
    count Thread.inserted thread' + 1 = count Thread.inserted s.thread ∧
    count Thread.looking thread' = count Thread.looking s.thread + 1 ∧
    total Thread.wayLeft thread' + 1 = total Thread.wayLeft s.thread := by
  subst hthread
  have hne : u ≠ t := by
    rintro rfl
    rw [ht] at hu
    cases hu
  have ha := Counting.count_update_update Thread.asleep s.thread hne
    (.pusher todo .returning) (.popper n .relock)
  have hi := Counting.count_update_update Thread.inserted s.thread hne
    (.pusher todo .returning) (.popper n .relock)
  have hl := Counting.count_update_update Thread.looking s.thread hne
    (.pusher todo .returning) (.popper n .relock)
  have hw := Counting.total_update_update Thread.wayLeft s.thread hne
    (.pusher todo .returning) (.popper n .relock)
  simp only [ht, hu, Thread.asleep, Thread.inserted, Thread.looking, Thread.wayLeft,
    Bool.toNat_true, Bool.toNat_false] at ha hi hl hw
  refine ⟨?_, ?_, ?_, ?_⟩
  all_goals omega

/-- **Every step of a thread keeps the balance.** -/
theorem Balanced.threadStep (hc : Consistent s) (h : Balanced s) {a : QueueAction τ α} {waiter : τ}
    (hs : threadStep waiter t s = some (a, s')) : Balanced s' := by
  have hin := hc.thread t
  rcases threadStep_cases hs with ⟨v, todo, ht⟩ | ⟨todo, v, ht, hfree⟩ | ⟨todo, v, ht⟩ |
    ⟨todo, ht⟩ | ⟨todo, u, n, ht, hu⟩ | ⟨todo, ht, hnobody⟩ | ⟨todo, ht⟩ | ⟨n, ht⟩ |
    ⟨n, ht, hfree⟩ | ⟨n, ht, hempty⟩ | ⟨n, ht, hne⟩ | ⟨n, ht⟩ | ⟨n, ht, hfree⟩ |
    ⟨n, v, q, ht, hq⟩ | ⟨n, v, ht⟩ | ⟨n, v, ht⟩ | ⟨n, v, ht⟩
  · exact h.update ht _ le_rfl le_rfl
  · exact h.update ht _ le_rfl le_rfl
  · exact h.update ht _ (by simp) (by simp)
  · exact h.update ht _ le_rfl le_rfl
  · obtain ⟨ha, hi, hl, -⟩ := counts_wake ht hu rfl
    rcases h with h | h
    · refine .inl ?_
      dsimp only
      omega
    · refine .inr ?_
      dsimp only
      omega
  · -- nobody is asleep
    obtain ⟨ha, hi, -⟩ := counts_update s t (.pusher todo .returning)
    have hnone : count Thread.asleep s.thread = 0 := by
      by_contra hne
      obtain ⟨u, hu⟩ := Counting.count_pos_iff.mp (Nat.pos_of_ne_zero hne)
      rw [hnobody u] at hu
      cases hu
    rw [ht, hnone] at ha
    exact .inl (by simpa using ha.le.trans (Nat.zero_le _))
  · exact h.update ht _ le_rfl le_rfl
  · exact h.update ht _ le_rfl (by simp)
  · exact h.update ht _ le_rfl le_rfl
  · exact h.update ht _ le_rfl le_rfl
  · exact h.update ht _ le_rfl le_rfl
  · -- nobody falls asleep unless the queue is empty
    rw [ht] at hin
    have hempty : s.queue = [] := hin
    exact .inr (by simp [hempty])
  · exact h.update ht _ le_rfl le_rfl
  · exact h.update ht _ le_rfl le_rfl
  · rw [ht] at hin
    obtain ⟨q, hq⟩ := List.head?_eq_some_iff.mp hin
    exact h.update ht _ le_rfl (by simp [hq])
  · exact h.update ht _ le_rfl le_rfl
  · exact h.update ht _ le_rfl le_rfl

/-- A `pop` that throws: one thread fewer that looks for an element. -/
theorem balanced_pop_iff {n n' : ℕ} (ht : s.thread t = .popper n .front) :
    Balanced { s with lock := none, thread := Function.update s.thread t (.popper n' .idle) } ↔
      count Thread.asleep s.thread ≤ count Thread.inserted s.thread ∨
        s.queue.length < count Thread.inserted s.thread + count Thread.looking s.thread := by
  obtain ⟨ha, hi, hl⟩ := counts_update s t (.popper n' .idle)
  rw [ht] at ha hi hl
  simp only [Thread.asleep, Thread.inserted, Thread.looking, Bool.toNat_true, Bool.toNat_false]
    at ha hi hl
  rw [Balanced]
  dsimp only
  omega

/-- **A step keeps the balance exactly if** it is no exception that breaks it. -/
theorem balanced_step_iff {a : ThrowingAction τ α} (hc : Consistent s) (h : Balanced s)
    (hs : ThrowingStep s a s') : Balanced s' ↔ Covered s a := by
  rcases hs with (⟨waiter, t, hs⟩ | ⟨t, n, ht⟩) | ⟨t, todo, todo', v, ht⟩ | ⟨t, n, n', ht⟩
  · exact iff_of_true (h.threadStep hc hs) trivial
  · exact iff_of_true (h.update ht _ (by simp) (by simp)) trivial
  · exact iff_of_true (h.update ht _ le_rfl le_rfl) (.inl ⟨todo, v, ht⟩)
  · rw [balanced_pop_iff ht, Covered]
    refine ⟨.inr, fun hcovered => hcovered.resolve_left ?_⟩
    rintro ⟨todo, v, ht'⟩
    rw [ht] at ht'
    cases ht'

omit [DecidableEq τ] in
/-- **With a balance nobody is stranded.** -/
theorem Balanced.not_stranded (h : Balanced s) : ¬Stranded s := by
  rintro ⟨hqueue, ⟨u, hu⟩, hhelps⟩
  have hnone : ∀ b : Thread α → Bool, (∀ p, b p = true → p.helps = true) →
      count b s.thread = 0 := by
    intro b hb
    by_contra hne
    obtain ⟨t, ht⟩ := Counting.count_pos_iff.mp (Nat.pos_of_ne_zero hne)
    exact Bool.false_ne_true ((hhelps t).symm.trans (hb _ ht))
  have hinserted := hnone Thread.inserted fun _ => Thread.helps_of_inserted
  have hlooking := hnone Thread.looking fun _ => Thread.helps_of_looking
  have hasleep : 0 < count Thread.asleep s.thread := Counting.count_pos_iff.mpr ⟨u, hu⟩
  have hlength := List.length_pos_of_ne_nil hqueue
  rcases h with h | h
  · omega
  · omega

/-! ### Without a balance

The threads that are still on their way go on, one after the other, and no step of theirs restores
the balance: those that would insert another element throw, and each of the others takes one
element or wakes one thread. -/

/-- A step of one thread on its way, that does not restore the balance. -/
theorem exists_advance {p₀ : Thread α} (ht : s.thread t = p₀) {a : ThrowingAction τ α}
    (p : Thread α) {queue' : List α} {lock' : Option τ}
    (hs : ThrowingStep s a ⟨queue', lock', Function.update s.thread t p⟩) (hcovered : Covered s a)
    (hb : ¬Balanced s)
    (hasleep : p₀.asleep.toNat + p.inserted.toNat ≤ p.asleep.toNat + p₀.inserted.toNat)
    (hqueue : s.queue.length + p.inserted.toNat + p.looking.toNat ≤
      queue'.length + p₀.inserted.toNat + p₀.looking.toNat)
    (hway : p.wayLeft < p₀.wayLeft) :
    ∃ a s', ThrowingStep s a s' ∧ Covered s a ∧ ¬Balanced s' ∧
      total Thread.wayLeft s'.thread < total Thread.wayLeft s.thread := by
  refine ⟨a, _, hs, hcovered, fun hc => hb (.of_update ht hc hasleep hqueue), ?_⟩
  have htotal := Counting.total_update Thread.wayLeft s.thread t p
  rw [ht] at htotal
  dsimp only
  omega

/-- **The holder of the lock goes on.** -/
theorem Consistent.advance_holder (h : Consistent s) (hb : ¬Balanced s)
    (hholds : (s.thread t).HoldsLock) :
    ∃ a s', ThrowingStep s a s' ∧ Covered s a ∧ ¬Balanced s' ∧
      total Thread.wayLeft s'.thread < total Thread.wayLeft s.thread := by
  have hin := h.thread t
  have hqueue : s.queue ≠ [] := by
    intro hc
    exact hb (.inr (by simp [hc]))
  rcases ht : s.thread t with ⟨todo, pc⟩ | ⟨n, pc⟩
  · rw [ht] at hholds
    cases pc with
    | insert v =>
      exact exists_advance ht (.pusher todo .idle) (.push t todo todo v ht) (.inl ⟨todo, v, ht⟩) hb
        le_rfl le_rfl (by simp)
    | unlock =>
      have hs : CoarseGrained.threadStep t t s = some (.access t,
          { s with
            lock := none
            thread := Function.update s.thread t (.pusher todo .notify) }) := by
        rw [CoarseGrained.threadStep, ht]
        rfl
      exact exists_advance ht _ (.step (.thread t t hs)) trivial hb le_rfl le_rfl (by simp)
    | _ => exact hholds.elim
  · rw [ht] at hholds hin
    cases pc with
    | test =>
      have hs : CoarseGrained.threadStep t t s = some (.access t,
          { s with thread := Function.update s.thread t (.popper n .front) }) := by
        rw [CoarseGrained.threadStep, ht]
        simp only [popperStep, List.isEmpty_iff, hqueue, if_false]
      exact exists_advance ht _ (.step (.thread t t hs)) trivial hb le_rfl le_rfl (by simp)
    | wait => exact absurd hin hqueue
    | front =>
      obtain ⟨v, q, hq⟩ := List.exists_cons_of_ne_nil hqueue
      have hs : CoarseGrained.threadStep t t s = some (.access t,
          { s with thread := Function.update s.thread t (.popper n (.pop v)) }) := by
        rw [CoarseGrained.threadStep, ht]
        simp only [popperStep, hq, List.head?_cons, Option.map_some]
      exact exists_advance ht _ (.step (.thread t t hs)) trivial hb le_rfl le_rfl (by simp)
    | pop v =>
      have hs : CoarseGrained.threadStep t t s = some (.consume t v,
          { s with
            queue := s.queue.tail
            thread := Function.update s.thread t (.popper n (.unlock v)) }) := by
        rw [CoarseGrained.threadStep, ht]
        rfl
      obtain ⟨q, hq⟩ := List.head?_eq_some_iff.mp hin
      exact exists_advance ht _ (.step (.thread t t hs)) trivial hb le_rfl (by simp [hq]) (by simp)
    | unlock v =>
      have hs : CoarseGrained.threadStep t t s = some (.access t,
          { s with
            lock := none
            thread := Function.update s.thread t (.popper n (.returning v)) }) := by
        rw [CoarseGrained.threadStep, ht]
        rfl
      exact exists_advance ht _ (.step (.thread t t hs)) trivial hb le_rfl le_rfl (by simp)
    | _ => exact hholds.elim

/-- **A thread on its way goes on** while the lock is free. -/
theorem Consistent.advance_helper (h : Consistent s) (hb : ¬Balanced s) (hfree : s.lock = none)
    (hhelps : (s.thread t).helps = true) :
    ∃ a s', ThrowingStep s a s' ∧ Covered s a ∧ ¬Balanced s' ∧
      total Thread.wayLeft s'.thread < total Thread.wayLeft s.thread := by
  have houtside : ¬(s.thread t).HoldsLock := by
    rw [← h.lock t, hfree]
    exact Option.not_mem_none t
  rcases ht : s.thread t with ⟨todo, pc⟩ | ⟨n, pc⟩
  · rw [ht] at hhelps houtside
    cases pc with
    | lock v =>
      have hs : CoarseGrained.threadStep t t s = some (.access t,
          { s with
            lock := some t
            thread := Function.update s.thread t (.pusher todo (.insert v)) }) := by
        rw [CoarseGrained.threadStep, ht]
        simp only [pusherStep, hfree]
      exact exists_advance ht _ (.step (.thread t t hs)) trivial hb le_rfl le_rfl (by simp)
    | notify =>
      -- someone is asleep, or there would be a balance
      obtain ⟨u, hu⟩ : ∃ u, (s.thread u).asleep = true := by
        rw [← Counting.count_pos_iff]
        by_contra hc
        exact hb (.inl (by omega))
      obtain ⟨n, hu⟩ : ∃ n, s.thread u = .popper n .asleep := by
        revert hu
        rcases s.thread u with ⟨todo, pc⟩ | ⟨n, pc⟩
        · simp
        · cases pc <;> simp
      have hs : CoarseGrained.threadStep u t s = some (.access t,
          { s with
            thread := Function.update (Function.update s.thread t (.pusher todo .returning)) u
              (.popper n .relock) }) := by
        rw [CoarseGrained.threadStep, ht]
        simp only [pusherStep, hu]
      obtain ⟨ha, hi, hl, hway⟩ := counts_wake ht hu rfl
      refine ⟨_, _, .step (.thread u t hs), trivial, fun hc => hb ?_, by dsimp only; omega⟩
      rcases hc with hc | hc
      · refine .inl ?_
        dsimp only at hc
        omega
      · refine .inr ?_
        dsimp only at hc
        omega
    | insert | unlock => exact absurd trivial houtside
    | idle | returning => cases hhelps
  · rw [ht] at hhelps houtside
    cases pc with
    | lock | relock =>
      have hs : CoarseGrained.threadStep t t s = some (.access t,
          { s with
            lock := some t
            thread := Function.update s.thread t (.popper n .test) }) := by
        rw [CoarseGrained.threadStep, ht]
        simp only [popperStep, hfree]
      exact exists_advance ht _ (.step (.thread t t hs)) trivial hb le_rfl le_rfl (by simp)
    | test | wait | front | pop => exact absurd trivial houtside
    | idle | asleep | unlock | returning => cases hhelps

/-- **Without a balance an element can be stranded.** -/
theorem Consistent.exists_stranded (h : Consistent s) (hb : ¬Balanced s) :
    ∃ tr s', ((throwing program).restrict Covered).Steps s tr s' ∧ Stranded s' := by
  -- by strong induction on what the threads have still to do
  induction hn : total Thread.wayLeft s.thread using Nat.strongRecOn generalizing s with
  | ind n ih =>
    have hgo : (∃ a s', ThrowingStep s a s' ∧ Covered s a ∧ ¬Balanced s' ∧
        total Thread.wayLeft s'.thread < total Thread.wayLeft s.thread) →
        ∃ tr s', ((throwing program).restrict Covered).Steps s tr s' ∧ Stranded s' := by
      rintro ⟨a, s₁, hs, hcovered, hb₁, hlt⟩
      obtain ⟨tr, s', hsteps, hstranded⟩ := ih _ (hn ▸ hlt) (h.throwingStep hs) hb₁ rfl
      exact ⟨a :: tr, s', .head ⟨hs, hcovered⟩ hsteps, hstranded⟩
    by_cases hhelps : ∃ t, (s.thread t).helps = true
    · obtain ⟨t, ht⟩ := hhelps
      rcases hlock : s.lock with _ | u
      · exact hgo (h.advance_helper hb hlock ht)
      · exact hgo (h.advance_holder hb ((h.lock u).mp hlock))
    · refine ⟨[], s, .refl s, fun hc => hb (.inr (by simp [hc])), ?_, fun t => ?_⟩
      · rw [← Counting.count_pos_iff]
        by_contra hc
        exact hb (.inl (by omega))
      · exact Bool.eq_false_of_not_eq_true fun hc => hhelps ⟨t, hc⟩

/-! ### The result -/

theorem balanced_of_run (hrun : ((throwing program).restrict Covered).Run tr s) :
    Consistent s ∧ Balanced s := by
  refine hrun.invariant (I := fun _ s => Consistent s ∧ Balanced s) ?_ ?_
  · intro s hs
    have hinv := inv_init hs
    have hempty : s.queue = [] := hs.1
    exact ⟨⟨hinv.lock, hinv.thread⟩, .inr (by simp [hempty])⟩
  · rintro tr s a s' - ⟨hc, hb⟩ ⟨hs, hcovered⟩
    exact ⟨hc.throwingStep hs, (balanced_step_iff hc hb hs).mpr hcovered⟩

theorem consistent_of_run (hrun : (throwing program).Run tr s) : Consistent s := by
  refine hrun.invariant (I := fun _ s => Consistent s) ?_ fun _ _ _ _ _ h hs => h.throwingStep hs
  intro s hs
  have hinv := inv_init hs
  exact ⟨hinv.lock, hinv.thread⟩

/-- **An exception does no harm** by itself: the queue is as it was, the lock, which the thread has
held, is free, and the other threads stand where they stood. -/
structure Harmless (t : τ) (s s' : State τ α) : Prop where
  held : s.lock = some t
  released : s'.lock = none
  queue : s'.queue = s.queue
  others : ∀ u, u ≠ t → s'.thread u = s.thread u

theorem Consistent.harmless (h : Consistent s) (hs : ThrowingStep s (.throws t) s') :
    Harmless t s s' := by
  rcases hs with - | ⟨_, todo, todo', v, ht⟩ | ⟨_, n, n', ht⟩
  · exact ⟨h.lock.held (ht ▸ trivial), rfl, rfl, fun u hu => Function.update_of_ne hu _ _⟩
  · exact ⟨h.lock.held (ht ▸ trivial), rfl, rfl, fun u hu => Function.update_of_ne hu _ _⟩

/-- **Nobody is stranded as long as every `pop` that throws is covered**, and the first that is not
covered leads to a state from which an element can be stranded without another of that kind; in
every run an exception by itself does no harm. -/
theorem stranded_iff (program : τ → Program α) :
    (∀ tr s, (throwing program).Run tr s → ∀ t s', (throwing program).Step s (.throws t) s' →
      Harmless t s s') ∧
    ∀ tr s, ((throwing program).restrict Covered).Run tr s → ¬Stranded s ∧
      ∀ a s', (throwing program).Step s a s' →
        ((∃ tr' s'', ((throwing program).restrict Covered).Steps s' tr' s'' ∧ Stranded s'') ↔
          ¬Covered s a) := by
  refine ⟨fun tr s hrun t s' hs => (consistent_of_run hrun).harmless hs, fun tr s hrun => ?_⟩
  obtain ⟨hc, hb⟩ := balanced_of_run hrun
  refine ⟨hb.not_stranded, fun a s' hs => ⟨?_, fun hcovered => ?_⟩⟩
  · rintro ⟨tr', s'', hsteps, hstranded⟩ hcovered
    have hb' := (balanced_step_iff hc hb hs).mpr hcovered
    have hb'' : Consistent s'' ∧ Balanced s'' := by
      refine hsteps.preserves (A := fun _ => True) (P := fun s => Consistent s ∧ Balanced s) ?_
        (fun _ _ => trivial) ⟨hc.throwingStep hs, hb'⟩
      rintro s a s' - ⟨hc, hb⟩ ⟨hs, hcovered⟩
      exact ⟨hc.throwingStep hs, (balanced_step_iff hc hb hs).mpr hcovered⟩
    exact hb''.2.not_stranded hstranded
  · have hb' : ¬Balanced s' := fun hb' => hcovered ((balanced_step_iff hc hb hs).mp hb')
    exact (hc.throwingStep hs).exists_stranded hb'

end Exceptions

/-! ### A run

Two threads pop one value each, and the third pushes one. -/

/-- The programs of the three threads. -/
def twoWaiting : Fin 3 → Program ℕ
  | 0 | 1 => .pops 1
  | 2 => .pushes [7]

/-- In the runs whose steps meet a condition: one of the poppers has been woken and is about to copy
the value, the other is asleep, and the pusher has returned. -/
theorem run_twoWaiting {C : State (Fin 3) ℕ → ThrowingAction (Fin 3) ℕ → Prop}
    (hC : ∀ s a, C s (.step a)) :
    ∃ tr s, ((throwing twoWaiting).restrict C).Run tr s ∧ s.queue = [7] ∧
      s.thread 0 = .popper 0 .front ∧ s.thread 1 = .popper 0 .asleep ∧
      s.thread 2 = .pusher [] .idle := by
  have h₀ : ((throwing twoWaiting).restrict C).Run [] ⟨[], none, fun t => (twoWaiting t).start⟩ :=
    .start ⟨rfl, rfl, rfl⟩
  -- both poppers fall asleep
  have h₁ := h₀.snoc ⟨.step (.thread 0 0 rfl), hC ..⟩
  have h₂ := h₁.snoc ⟨.step (.thread 0 0 rfl), hC ..⟩
  have h₃ := h₂.snoc ⟨.step (.thread 0 0 rfl), hC ..⟩
  have h₄ := h₃.snoc ⟨.step (.thread 0 0 rfl), hC ..⟩
  have h₅ := h₄.snoc ⟨.step (.thread 0 1 rfl), hC ..⟩
  have h₆ := h₅.snoc ⟨.step (.thread 0 1 rfl), hC ..⟩
  have h₇ := h₆.snoc ⟨.step (.thread 0 1 rfl), hC ..⟩
  have h₈ := h₇.snoc ⟨.step (.thread 0 1 rfl), hC ..⟩
  -- the value is pushed, and the first popper is notified
  have h₉ := h₈.snoc ⟨.step (.thread 0 2 rfl), hC ..⟩
  have h₁₀ := h₉.snoc ⟨.step (.thread 0 2 rfl), hC ..⟩
  have h₁₁ := h₁₀.snoc ⟨.step (.thread 0 2 rfl), hC ..⟩
  have h₁₂ := h₁₁.snoc ⟨.step (.thread 0 2 rfl), hC ..⟩
  have h₁₃ := h₁₂.snoc ⟨.step (.thread 0 2 rfl), hC ..⟩
  have h₁₄ := h₁₃.snoc ⟨.step (.thread 0 2 rfl), hC ..⟩
  have h₁₅ := h₁₄.snoc ⟨.step (.thread 0 0 rfl), hC ..⟩
  have h₁₆ := h₁₅.snoc ⟨.step (.thread 0 0 rfl), hC ..⟩
  exact ⟨_, _, h₁₆, rfl, rfl, rfl, rfl⟩

/-- Before the exception, and the exception by itself. -/
theorem stranded_iff_twoWaiting : ∃ s s', s.queue = [7] ∧
    (throwing twoWaiting).Step s (.throws 0) s' ∧ ¬Stranded s ∧ Harmless 0 s s' := by
  obtain ⟨tr, s, hrun, hqueue, h₀, -⟩ := run_twoWaiting (C := Covered) fun _ _ => trivial
  have hs : (throwing twoWaiting).Step s (.throws 0) _ := .pop 0 0 0 h₀
  exact ⟨s, _, hqueue, hs, ((stranded_iff twoWaiting).2 tr s hrun).1,
    (stranded_iff twoWaiting).1 tr s hrun.of_restrict 0 _ hs⟩

/-- **A `pop` that throws strands the other popper**: it has consumed the only notification. -/
theorem stranded_twoWaiting : ∃ s, (throwing twoWaiting).Reachable s ∧ Stranded s := by
  obtain ⟨tr, s, hrun, hqueue, h₀, h₁, h₂⟩ :=
    run_twoWaiting (C := fun _ _ => True) fun _ _ => trivial
  refine ⟨_, ⟨_, hrun.of_restrict.snoc (.pop 0 0 0 h₀)⟩, ?_, ⟨1, ?_⟩, fun t => ?_⟩
  · exact hqueue ▸ List.cons_ne_nil 7 []
  · dsimp only
    rw [Function.update_of_ne (by decide), h₁]
    rfl
  · dsimp only
    obtain rfl | rfl | rfl : t = 0 ∨ t = 1 ∨ t = 2 := by omega
    · rfl
    · rw [Function.update_of_ne (by decide), h₁]
      rfl
    · rw [Function.update_of_ne (by decide), h₂]
      rfl

end CoarseGrained

end Mpmc

end LowLatency
