import LowLatency.Mpmc.CoarseGrainedProgress

/-!
# The queue with one lock is an unbounded queue

For any number of threads and whatever they push and pop, the class `QueueMPMC` with a
condition variable is linearizable to the unbounded first-in first-out queue. A `push` takes
effect when it changes the `std::queue`, long before it notifies; a `pop` when it removes the
element, and in between it may have slept, have been woken for nothing and have lost the element
it was woken for to another popper.
-/

namespace LowLatency

namespace Mpmc

namespace CoarseGrained

open QueueAction

variable {τ α : Type*} {program : τ → Program α} {P C : List α} {s s' : State τ α} {t : τ}
  {a : QueueAction τ α}

/-- Where a thread stands, seen from outside. -/
def Thread.status : Thread α → Status (QueueOp α) (QueueRes α)
  | .pusher _ .idle => .idle
  | .pusher _ (.lock v) => .called (.push v)
  | .pusher _ (.insert v) => .called (.push v)
  | .pusher _ .unlock => .done .push
  | .pusher _ .notify => .done .push
  | .pusher _ .returning => .done .push
  | .popper _ .idle => .idle
  | .popper _ (.unlock v) => .done (.pop v)
  | .popper _ (.returning v) => .done (.pop v)
  | .popper _ _ => .called .pop

/-- The queue a state stands for, with the threads where they stand. -/
def view (s : State τ α) : AtomicState τ (List α) (QueueOp α) (QueueRes α) where
  object := s.queue
  status := fun t => (s.thread t).status

section Step

variable [DecidableEq τ]

/-- The threads that do not move stay where they stand. -/
theorem status_of_ne {p : Thread α} (s : State τ α) (u : τ) (hu : u ≠ t) :
    (Function.update s.thread t p u).status = (s.thread u).status := by
  rw [Function.update_of_ne hu]

/-- A step of one thread that a client does not see. -/
theorem matches_quiet {p : Thread α} {lock' : Option τ} (hstatus : p.status = (s.thread t).status) :
    Matches ⊤ (view s) (.access t) (view ⟨s.queue, lock', Function.update s.thread t p⟩) := by
  refine Matches.quiet rfl rfl fun u => ?_
  rcases eq_or_ne u t with rfl | hu
  · simp [view, hstatus]
  · exact status_of_ne s u hu

variable [Fintype τ]

/-- **Every step of a thread is matched.** -/
theorem Inv.matches_threadStep (h : Inv program P C s) {waiter : τ}
    (hs : CoarseGrained.threadStep waiter t s = some (a, s')) :
    Matches ⊤ (view s) a (view s') := by
  cases threadStep_cases hs with
  | pushCall v todo ht =>
    refine Matches.call ?_ ?_ rfl fun u hu => status_of_ne s u hu
    · simp [view, ht, Thread.status]
    · simp [view, Thread.status]
  | insert todo v ht =>
    -- a `push` takes effect when the queue is changed
    refine Matches.point t (.push v) .push rfl ?_ ?_ (.push v (ENat.natCast_lt_top _))
      fun u hu => status_of_ne s u hu
    · simp [view, ht, Thread.status]
    · simp [view, Thread.status]
  | wake todo w n ht hw =>
    -- two threads move, and neither is seen to
    exact Matches.quiet rfl rfl fun u => eq_notify Thread.status rfl rfl ht hw u
  | pushRet todo ht =>
    refine Matches.ret ?_ ?_ rfl fun u hu => status_of_ne s u hu
    · simp [view, ht, Thread.status]
    · simp [view, Thread.status]
  | popCall n ht =>
    refine Matches.call ?_ ?_ rfl fun u hu => status_of_ne s u hu
    · simp [view, ht, Thread.status]
    · simp [view, Thread.status]
  | pop n v ht =>
    -- a `pop` takes effect when it removes what `front` has read
    have hin := h.thread t
    rw [ht] at hin
    obtain ⟨q, hq⟩ := List.head?_eq_some_iff.mp hin
    have hstep : QueueStep ⊤ s.queue .pop (.pop v) s.queue.tail := by
      rw [hq]
      exact .pop v q
    refine Matches.point t .pop (.pop v) rfl ?_ ?_ hstep fun u hu => status_of_ne s u hu
    · simp [view, ht, Thread.status]
    · simp [view, Thread.status]
  | popRet n v ht =>
    refine Matches.ret ?_ ?_ rfl fun u hu => status_of_ne s u hu
    · simp [view, ht, Thread.status]
    · simp [view, Thread.status]
  | pushLock _ _ ht | pushUnlock _ ht | wakeNobody _ ht | popLock _ ht | testEmpty _ ht
  | testPassed _ ht | sleep _ ht | relock _ ht | front _ _ _ ht | popUnlock _ _ ht =>
    exact matches_quiet (by rw [ht]; rfl)

/-- **Every step is matched**, a wakeup for no reason as well. -/
theorem Inv.matches (h : Inv program P C s) (hs : Step s a s') :
    Matches ⊤ (view s) a (view s') := by
  rcases hs with ⟨waiter, t, hs⟩ | ⟨t, n, ht⟩
  · exact h.matches_threadStep hs
  · exact matches_quiet (by rw [ht]; rfl)

/-- **The queue with one lock is linearizable to the unbounded first-in first-out queue**, whatever
its threads push and pop, whomever a notification wakes and whoever wakes up for no reason. -/
theorem one_lock_queue_linearizable {tr : List (QueueAction τ α)}
    (h : (system program).Run tr s) : (fifo α ⊤).Linearizable (history tr) := by
  refine linearizable_of_matches (fun _ _ s => view s) ?_ ?_ h
  · rintro s ⟨hqueue, -, hthread⟩
    have hstatus : ∀ t, (s.thread t).status = .idle := fun t => by
      rw [hthread]
      dsimp only
      cases program t <;> rfl
    rw [view, hqueue, funext hstatus]
  · exact fun tr s a s' hrun hs => (inv_of_run hrun).matches hs

/-- A run in which the popper has fallen asleep before the pusher inserts. -/
theorem one_lock_queue_one_each :
    ∃ (tr : List (QueueAction Bool ℕ)) (s : State Bool ℕ), (system oneEach).Run tr s ∧
      (s.thread false).asleep = true ∧ s.queue = [7] ∧ (fifo ℕ ⊤).Linearizable (history tr) := by
  obtain ⟨tr, s, h, hasleep, hqueue⟩ := run_oneEach
  exact ⟨tr, s, h, hasleep, hqueue, one_lock_queue_linearizable h⟩

end Step

end CoarseGrained

end Mpmc

end LowLatency
