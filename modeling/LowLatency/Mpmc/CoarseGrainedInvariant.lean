import LowLatency.Mpmc.CoarseGrained

/-!
# What holds of the queue with one lock

The invariant of the class `QueueMPMC` with a condition variable
(`LowLatency.Mpmc.CoarseGrained.Inv`). That the queue is first-in first-out is the
work of the lock alone. That nobody sleeps on is a matter of counting: a pusher
notifies after it has released the lock, so another popper may steal the element, or
fall asleep, between the two. What is kept is a balance. As long as someone is
asleep, every stored element is paid for by a pusher that has inserted and not
notified yet, or by a popper that is awake and has not taken its element yet. A
popper falls asleep only when there is nothing to pay for, and a notification hands
the debt of the pusher over to the popper it wakes.
-/

namespace LowLatency

namespace Mpmc

namespace CoarseGrained

open QueueAction
open Counting (count total)

variable {τ α : Type*}

/-! ### Where a thread is -/

/-- The sections between locking and unlocking. -/
def Thread.HoldsLock : Thread α → Prop
  | .pusher _ (.insert _) => True
  | .pusher _ .unlock => True
  | .popper _ .test => True
  | .popper _ .wait => True
  | .popper _ .front => True
  | .popper _ (.pop _) => True
  | .popper _ (.unlock _) => True
  | _ => False

/-- The thread has inserted an element and not notified yet. -/
@[simp] def Thread.inserted : Thread α → Bool
  | .pusher _ .unlock => true
  | .pusher _ .notify => true
  | _ => false

/-- The thread is in `pop`, awake, and has not taken its element yet. -/
@[simp] def Thread.looking : Thread α → Bool
  | .popper _ .lock => true
  | .popper _ .test => true
  | .popper _ .wait => true
  | .popper _ .relock => true
  | .popper _ .front => true
  | .popper _ (.pop _) => true
  | _ => false

/-- The thread is in `pop` and not asleep. -/
@[simp] def Thread.awakeInPop : Thread α → Bool
  | .popper _ .idle => false
  | .popper _ .asleep => false
  | .popper _ _ => true
  | _ => false

/-- The values a thread has still to insert. -/
@[simp] def Thread.pushesLeft : Thread α → ℕ
  | .pusher todo (.lock _) => todo.length + 1
  | .pusher todo (.insert _) => todo.length + 1
  | .pusher todo _ => todo.length
  | .popper _ _ => 0

/-- The elements a thread has still to take. -/
@[simp] def Thread.popsLeft : Thread α → ℕ
  | .popper n .idle => n
  | .popper n (.unlock _) => n
  | .popper n (.returning _) => n
  | .popper n _ => n + 1
  | .pusher _ _ => 0

/-- The pushes a program makes. -/
def Program.pushCount : Program α → ℕ
  | .pushes vals => vals.length
  | .pops _ => 0

/-- The pops a program makes. -/
def Program.popCount : Program α → ℕ
  | .pushes _ => 0
  | .pops n => n

/-! ### The invariant -/

/-- What a popper that holds the lock knows of the queue. -/
def ThreadInv (queue : List α) : Thread α → Prop
  | .popper _ .wait => queue = []
  | .popper _ .front => queue ≠ []
  | .popper _ (.pop v) => queue.head? = some v
  | _ => True

/-- **The invariant**, when the values `P` have been inserted and the values `C`
taken. -/
structure Inv [Fintype τ] (program : τ → Program α) (P C : List α) (s : State τ α) : Prop where
  values : P = C ++ s.queue
  lock : Mutex.Guards s.lock Thread.HoldsLock s.thread
  thread : ∀ t, ThreadInv s.queue (s.thread t)
  /-- No element is stranded: while someone is asleep, each has a thread on its way. -/
  balance : 0 < count Thread.asleep s.thread →
    s.queue.length ≤ count Thread.inserted s.thread + count Thread.looking s.thread
  pushes : P.length + total Thread.pushesLeft s.thread = total Program.pushCount program
  pops : C.length + total Thread.popsLeft s.thread = total Program.popCount program

theorem ThreadInv.of_not_holds {queue : List α} {p : Thread α} (h : ¬p.HoldsLock) :
    ThreadInv queue p := by
  rcases p with ⟨todo, pc⟩ | ⟨n, pc⟩
  · trivial
  · cases pc with
    | wait | front | pop => exact absurd trivial h
    | _ => trivial

/-! ### The lock and what its holder knows -/

section Step

variable [Fintype τ] [DecidableEq τ] {program : τ → Program α} {P C : List α} {s s' : State τ α}
  {t : τ} {a : QueueAction τ α}

/-- **The part of the invariant that does not count**: who holds the lock, and what it knows. -/
structure Consistent (s : State τ α) : Prop where
  lock : Mutex.Guards s.lock Thread.HoldsLock s.thread
  thread : ∀ t, ThreadInv s.queue (s.thread t)

omit [Fintype τ] in
/-- **A thread moves on**; the queue is changed by the holder of the lock only. -/
theorem Consistent.update (h : Consistent s) {queue' : List α} {lock' : Option τ} (p : Thread α)
    (hlock : Mutex.Guards lock' Thread.HoldsLock (Function.update s.thread t p))
    (hin : ThreadInv queue' p) (hqueue : queue' = s.queue ∨ (s.thread t).HoldsLock) :
    Consistent ⟨queue', lock', Function.update s.thread t p⟩ := by
  refine ⟨hlock, ?_⟩
  refine (Function.forall_update_iff s.thread fun _ p => ThreadInv queue' p).mpr
    ⟨hin, fun u hu => ?_⟩
  rcases hqueue with rfl | hholds
  · exact h.thread u
  · exact ThreadInv.of_not_holds (h.lock.not_inside hholds hu)

omit [Fintype τ] in
/-- A thread moves on and keeps the lock, or its distance from it. -/
theorem Consistent.keep (h : Consistent s) (p : Thread α)
    (hp : p.HoldsLock ↔ (s.thread t).HoldsLock) (hin : ThreadInv s.queue p) :
    Consistent { s with thread := Function.update s.thread t p } :=
  h.update p (h.lock.keep hp) hin (.inl rfl)

omit [Fintype τ] in
/-- A thread takes the lock. -/
theorem Consistent.locks (h : Consistent s) (p : Thread α) (hfree : s.lock = none)
    (hp : p.HoldsLock) (hin : ThreadInv s.queue p) :
    Consistent { s with lock := some t, thread := Function.update s.thread t p } :=
  h.update p ((hfree ▸ h.lock : Mutex.Guards none Thread.HoldsLock s.thread).lock hp) hin (.inl rfl)

omit [Fintype τ] in
/-- A thread gives up the lock. -/
theorem Consistent.unlocks (h : Consistent s) (p : Thread α) (hholds : (s.thread t).HoldsLock)
    (hp : ¬p.HoldsLock) :
    Consistent { s with lock := none, thread := Function.update s.thread t p } :=
  h.update p (h.lock.unlock hholds hp) (ThreadInv.of_not_holds hp) (.inl rfl)

/-- **Every step of a thread leaves this intact.** -/
theorem Consistent.threadStep (h : Consistent s) {a : QueueAction τ α} {waiter : τ}
    (hs : threadStep waiter t s = some (a, s')) : Consistent s' := by
  rcases threadStep_cases hs with ⟨v, todo, ht⟩ | ⟨todo, v, ht, hfree⟩ | ⟨todo, v, ht⟩ |
    ⟨todo, ht⟩ | ⟨todo, u, n, ht, hu⟩ | ⟨todo, ht, hnobody⟩ | ⟨todo, ht⟩ | ⟨n, ht⟩ |
    ⟨n, ht, hfree⟩ | ⟨n, ht, hempty⟩ | ⟨n, ht, hne⟩ | ⟨n, ht⟩ | ⟨n, ht, hfree⟩ |
    ⟨n, v, q, ht, hq⟩ | ⟨n, v, ht⟩ | ⟨n, v, ht⟩ | ⟨n, v, ht⟩
  · exact h.keep _ (by rw [ht]; exact Iff.rfl) trivial
  · exact h.locks _ hfree trivial trivial
  · exact h.update _ (h.lock.keep (by rw [ht]; exact Iff.rfl)) trivial (.inr (ht ▸ trivial))
  · exact h.unlocks _ (ht ▸ trivial) id
  · have hne : u ≠ t := by
      rintro rfl
      rw [ht] at hu
      cases hu
    have hold := h.keep (t := t) (.pusher todo .returning) (by rw [ht]; exact Iff.rfl) trivial
    refine hold.keep _ ?_ trivial
    dsimp only
    rw [Function.update_of_ne hne, hu]
    exact Iff.rfl
  · exact h.keep _ (by rw [ht]; exact Iff.rfl) trivial
  · exact h.keep _ (by rw [ht]; exact Iff.rfl) trivial
  · exact h.keep _ (by rw [ht]; exact Iff.rfl) trivial
  · exact h.locks _ hfree trivial trivial
  · exact h.keep _ (by rw [ht]; exact Iff.rfl) hempty
  · exact h.keep _ (by rw [ht]; exact Iff.rfl) hne
  · exact h.unlocks _ (ht ▸ trivial) id
  · exact h.locks _ hfree trivial trivial
  · exact h.keep _ (by rw [ht]; exact Iff.rfl) (by rw [hq]; rfl)
  · exact h.update _ (h.lock.keep (by rw [ht]; exact Iff.rfl)) trivial (.inr (ht ▸ trivial))
  · exact h.unlocks _ (ht ▸ trivial) id
  · exact h.keep _ (by rw [ht]; exact Iff.rfl) trivial

/-- **So does a spurious wakeup.** -/
theorem Consistent.step (h : Consistent s) (hs : Step s a s') : Consistent s' := by
  rcases hs with ⟨waiter, t, hs⟩ | ⟨t, n, ht⟩
  · exact h.threadStep hs
  · exact h.keep _ (by rw [ht]; exact Iff.rfl) trivial

/-! ### Every step keeps the invariant -/

omit [DecidableEq τ] in
theorem Inv.consistent (h : Inv program P C s) : Consistent s := ⟨h.lock, h.thread⟩

/-- **A thread moves on**, with the queue and the lock as it leaves them. The balance is
kept if the thread falls asleep on an empty queue only, and takes on the debts it makes. -/
theorem Inv.update (h : Inv program P C s) {p₀ : Thread α} (ht : s.thread t = p₀)
    (P' C' queue' : List α) {lock' : Option τ} (p : Thread α) (hvalues : P' = C' ++ queue')
    (hc : Consistent ⟨queue', lock', Function.update s.thread t p⟩)
    (hbalance : queue' = [] ∨ count Thread.asleep s.thread + p.asleep.toNat = 0 ∨
      p.asleep.toNat ≤ p₀.asleep.toNat ∧
        queue'.length + p₀.inserted.toNat + p₀.looking.toNat ≤
          s.queue.length + p.inserted.toNat + p.looking.toNat)
    (hpushes : P'.length + p.pushesLeft = P.length + p₀.pushesLeft)
    (hpops : C'.length + p.popsLeft = C.length + p₀.popsLeft) :
    Inv program P' C' ⟨queue', lock', Function.update s.thread t p⟩ := by
  have hasleep := Counting.count_update Thread.asleep s.thread t p
  have hinserted := Counting.count_update Thread.inserted s.thread t p
  have hlooking := Counting.count_update Thread.looking s.thread t p
  have hpushesLeft := Counting.total_update Thread.pushesLeft s.thread t p
  have hpopsLeft := Counting.total_update Thread.popsLeft s.thread t p
  rw [ht] at hasleep hinserted hlooking hpushesLeft hpopsLeft
  -- each count changes by what the one thread that moves contributes
  have hp := h.pushes
  have hq := h.pops
  refine ⟨hvalues, hc.lock, hc.thread, fun hpos => ?_, by dsimp only; omega, by dsimp only; omega⟩
  rcases hbalance with rfl | hnobody | ⟨hle, hdebt⟩
  · exact Nat.zero_le _
  · dsimp only at hpos
    omega
  · have hold := h.balance (by dsimp only at hpos; omega)
    dsimp only
    omega

/-- **A notification that wakes a popper** hands it the debt of the pusher. -/
theorem Inv.wake (h : Inv program P C s) {todo : List α} {u : τ} {n : ℕ}
    (ht : s.thread t = .pusher todo .notify) (hu : s.thread u = .popper n .asleep)
    (hc : Consistent
      { s with
        thread :=
          Function.update (Function.update s.thread t (.pusher todo .returning)) u
            (.popper n .relock) }) :
    Inv program P C
      { s with
        thread :=
          Function.update (Function.update s.thread t (.pusher todo .returning)) u
            (.popper n .relock) } := by
  have hne : u ≠ t := by
    rintro rfl
    rw [ht] at hu
    cases hu
  have hinserted := Counting.count_update_update Thread.inserted s.thread hne
    (.pusher todo .returning) (.popper n .relock)
  have hlooking := Counting.count_update_update Thread.looking s.thread hne
    (.pusher todo .returning) (.popper n .relock)
  have hpushes := Counting.total_update_update Thread.pushesLeft s.thread hne
    (.pusher todo .returning) (.popper n .relock)
  have hpops := Counting.total_update_update Thread.popsLeft s.thread hne
    (.pusher todo .returning) (.popper n .relock)
  simp only [ht, hu, Thread.inserted, Thread.looking, Thread.pushesLeft, Thread.popsLeft,
    Bool.toNat_true, Bool.toNat_false] at hinserted hlooking hpushes hpops
  have hp := h.pushes
  have hq := h.pops
  -- the thread woken was asleep, so the balance held before
  have hold := h.balance (Counting.count_pos_iff.mpr ⟨u, by rw [hu]; rfl⟩)
  exact ⟨h.values, hc.lock, hc.thread, fun _ => by dsimp only; omega, by dsimp only; omega,
    by dsimp only; omega⟩

/-- **A thread moves on** and leaves the queue alone. -/
theorem Inv.move (h : Inv program P C s) {p₀ : Thread α} (ht : s.thread t = p₀)
    {lock' : Option τ} (p : Thread α)
    (hc : Consistent ⟨s.queue, lock', Function.update s.thread t p⟩)
    (hbalance : s.queue = [] ∨ count Thread.asleep s.thread + p.asleep.toNat = 0 ∨
      p.asleep.toNat ≤ p₀.asleep.toNat ∧
        p₀.inserted.toNat + p₀.looking.toNat ≤ p.inserted.toNat + p.looking.toNat)
    (hpushes : p.pushesLeft = p₀.pushesLeft) (hpops : p.popsLeft = p₀.popsLeft) :
    Inv program (P ++ []) (C ++ []) ⟨s.queue, lock', Function.update s.thread t p⟩ := by
  rw [List.append_nil, List.append_nil]
  refine h.update ht P C s.queue p h.values hc ?_ (by rw [hpushes]) (by rw [hpops])
  rcases hbalance with hempty | hnobody | ⟨hle, hdebt⟩
  · exact .inl hempty
  · exact .inr (.inl hnobody)
  · exact .inr (.inr ⟨hle, by omega⟩)

/-- **The step of a thread keeps the invariant.** -/
theorem Inv.threadStep (h : Inv program P C s) {waiter : τ}
    (hs : threadStep waiter t s = some (a, s')) :
    Inv program (P ++ a.published?.toList) (C ++ a.popped?.toList) s' := by
  have hin := h.thread t
  have hc := h.consistent.threadStep hs
  cases threadStep_cases hs with
  | pushCall v todo ht => exact h.move ht _ hc (.inr (.inr ⟨le_rfl, le_rfl⟩)) rfl rfl
  | pushLock todo v ht hfree => exact h.move ht _ hc (.inr (.inr ⟨le_rfl, le_rfl⟩)) rfl rfl
  | insert todo v ht =>
    -- the element inserted is paid for by the pusher, until it notifies
    have hinserted := h.update ht (P ++ [v]) (C ++ []) (s.queue ++ [v])
      (.pusher todo .unlock) (by simp [h.values]) hc (.inr (.inr ⟨le_rfl, by simp⟩))
      (by simp; omega) (by simp)
    exact hinserted
  | pushUnlock todo ht => exact h.move ht _ hc (.inr (.inr ⟨le_rfl, le_rfl⟩)) rfl rfl
  | wake todo u n ht hu => simpa [published?, popped?] using h.wake ht hu hc
  | wakeNobody todo ht hnobody =>
    -- the debt is forgotten, but nobody is asleep
    have hnone : count Thread.asleep s.thread = 0 := by
      by_contra hne
      obtain ⟨u, hu⟩ := Counting.count_pos_iff.mp (Nat.pos_of_ne_zero hne)
      rw [hnobody u] at hu
      cases hu
    exact h.move ht (.pusher todo .returning) hc (.inr (.inl hnone)) rfl rfl
  | pushRet todo ht => exact h.move ht _ hc (.inr (.inr ⟨le_rfl, le_rfl⟩)) rfl rfl
  | popCall n ht => exact h.move ht _ hc (.inr (.inr ⟨le_rfl, Nat.zero_le _⟩)) rfl rfl
  | popLock n ht hfree => exact h.move ht _ hc (.inr (.inr ⟨le_rfl, le_rfl⟩)) rfl rfl
  | testEmpty n ht hempty => exact h.move ht _ hc (.inr (.inr ⟨le_rfl, le_rfl⟩)) rfl rfl
  | testPassed n ht hne => exact h.move ht _ hc (.inr (.inr ⟨le_rfl, le_rfl⟩)) rfl rfl
  | sleep n ht =>
    -- nobody falls asleep unless the queue is empty
    rw [ht] at hin
    exact h.move ht (.popper n .asleep) hc (.inl hin) rfl rfl
  | relock n ht hfree => exact h.move ht _ hc (.inr (.inr ⟨le_rfl, le_rfl⟩)) rfl rfl
  | front n v q ht hq => exact h.move ht _ hc (.inr (.inr ⟨le_rfl, le_rfl⟩)) rfl rfl
  | pop n v ht =>
    -- the popper is paid with the element it takes
    rw [ht] at hin
    obtain ⟨q, hq⟩ := List.head?_eq_some_iff.mp hin
    have htaken := h.update ht (P ++ []) (C ++ [v]) s.queue.tail
      (.popper n (.unlock v)) (by simp [h.values, hq]) hc (.inr (.inr ⟨le_rfl, by simp [hq]⟩))
      (by simp) (by simp; omega)
    exact htaken
  | popUnlock n v ht => exact h.move ht _ hc (.inr (.inr ⟨le_rfl, le_rfl⟩)) rfl rfl
  | popRet n v ht => exact h.move ht _ hc (.inr (.inr ⟨le_rfl, le_rfl⟩)) rfl rfl

/-- **Every step keeps the invariant.** -/
theorem Inv.step (h : Inv program P C s) (hs : Step s a s') :
    Inv program (P ++ a.published?.toList) (C ++ a.popped?.toList) s' := by
  have hc := h.consistent.step hs
  rcases hs with ⟨waiter, t, hs⟩ | ⟨t, n, ht⟩
  · exact h.threadStep hs
  · -- a spurious wakeup: one thread asleep fewer, and one more that looks
    exact h.move ht (.popper n .relock) hc (.inr (.inr ⟨Nat.zero_le _, Nat.zero_le _⟩)) rfl rfl

theorem inv_init (hs : (system program).Init s) : Inv program [] [] s := by
  obtain ⟨hqueue, hlock, hthread⟩ := hs
  have hstart : ∀ t, s.thread t = (program t).start := fun t => by rw [hthread]
  have hlength : s.queue.length = 0 := by rw [hqueue]; rfl
  refine ⟨by rw [hqueue]; rfl, ?_, fun t => ?_, fun _ => hlength.trans_le (Nat.zero_le _), ?_, ?_⟩
  · rw [hlock]
    exact fun t => iff_of_false (by simp) (by rw [hstart]; cases program t <;> exact id)
  · rw [hstart]
    cases program t <;> trivial
  · rw [List.length_nil, Nat.zero_add]
    refine Finset.sum_congr rfl fun t _ => ?_
    rw [hstart]
    cases program t <;> rfl
  · rw [List.length_nil, Nat.zero_add]
    refine Finset.sum_congr rfl fun t _ => ?_
    rw [hstart]
    cases program t <;> rfl

/-- **The invariant holds along every run.** -/
theorem inv_of_run {tr : List (QueueAction τ α)} (h : (system program).Run tr s) :
    Inv program (published tr) (popped tr) s := by
  refine h.invariant (I := fun tr s => Inv program (published tr) (popped tr) s) ?_ ?_
  · exact fun s hs => inv_init hs
  · intro tr s a s' _ ih hs
    rw [published_snoc, popped_snoc]
    exact ih.step hs

end Step

end CoarseGrained

end Mpmc

end LowLatency
