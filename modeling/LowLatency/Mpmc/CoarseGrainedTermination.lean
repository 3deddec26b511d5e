import LowLatency.Foundations.Fairness
import LowLatency.Mpmc.CoarseGrainedDriver

/-!
# The driver of the queue with one lock comes to its end

Every step of a thread brings the program nearer to its end
(`LowLatency.Mpmc.CoarseGrained.threadStep_remaining`). A popper that finds the queue empty goes
back to sleep, and has then lost what its waking up cost; that is paid by the pusher whose
notification woke it. Nobody pays for a wakeup without a reason, so these alone can keep the
program going for ever, and only if there is no end of them.

Nothing here depends on how the threads are scheduled, or on which of them gets the lock.
-/

namespace LowLatency

namespace Mpmc

namespace CoarseGrained

open QueueAction
open Counting (total)

variable {τ α : Type*} {program : τ → Program α} {s s' : State τ α} {t : τ} {a : QueueAction τ α}

/-- The steps that are left to a thread, those that its notifications cause included: a popper
that is woken makes three steps more if it falls asleep again. -/
@[simp] def Thread.remaining : Thread α → ℕ
  | .pusher todo .idle => 9 * todo.length
  | .pusher todo (.lock _) => 9 * todo.length + 8
  | .pusher todo (.insert _) => 9 * todo.length + 7
  | .pusher todo .unlock => 9 * todo.length + 6
  | .pusher todo .notify => 9 * todo.length + 5
  | .pusher todo .returning => 9 * todo.length + 1
  | .popper n .idle => 7 * n
  | .popper n .lock => 7 * n + 6
  | .popper n .test => 7 * n + 5
  | .popper n .wait => 7 * n + 4
  | .popper n .asleep => 7 * n + 3
  | .popper n .relock => 7 * n + 6
  | .popper n .front => 7 * n + 4
  | .popper n (.pop _) => 7 * n + 3
  | .popper n (.unlock _) => 7 * n + 2
  | .popper n (.returning _) => 7 * n + 1

/-- The step is a wakeup without a reason. -/
def Spurious (s : State τ α) (a : QueueAction τ α) : Prop :=
  ∃ t n, a = .access t ∧ s.thread t = .popper n .asleep

section Step

variable [Fintype τ] [DecidableEq τ]

/-- A thread that moves by itself. -/
theorem total_remaining_update {p : Thread α} (h : p.remaining < (s.thread t).remaining) :
    total Thread.remaining (Function.update s.thread t p) < total Thread.remaining s.thread := by
  have htotal := Counting.total_update Thread.remaining s.thread t p
  omega

/-- **Every step of a thread leaves less to do.** -/
theorem threadStep_remaining {waiter : τ} (hs : threadStep waiter t s = some (a, s')) :
    total Thread.remaining s'.thread < total Thread.remaining s.thread := by
  cases threadStep_cases hs with
  | wake todo u n ht hu =>
    have hne : u ≠ t := by
      rintro rfl
      rw [ht] at hu
      cases hu
    -- the pusher pays for what the popper may do in vain
    have htotal := Counting.total_update_update Thread.remaining s.thread hne
      (.pusher todo .returning) (.popper n .relock)
    simp only [ht, hu, Thread.remaining] at htotal
    dsimp only
    omega
  | pushCall v todo ht =>
    refine total_remaining_update ?_
    rw [ht]
    simp only [Thread.remaining, List.length_cons]
    omega
  | popCall n ht =>
    refine total_remaining_update ?_
    rw [ht]
    simp only [Thread.remaining]
    omega
  | pushLock _ _ ht | insert _ _ ht | pushUnlock _ ht | wakeNobody _ ht | pushRet _ ht
  | popLock _ ht | testEmpty _ ht | testPassed _ ht | sleep _ ht | relock _ ht | front _ _ _ ht
  | pop _ _ ht | popUnlock _ _ ht | popRet _ _ ht =>
    refine total_remaining_update ?_
    rw [ht]
    simp

/-- **Without an end of wakeups that have no reason** there is an end of the execution. -/
theorem infinitelyOften_spurious (e : (system program).Execution) : e.InfinitelyOften Spurious := by
  refine e.infinitelyOften_of_decreasing (r := fun s => total Thread.remaining s.thread) ?_
  rintro s a s' - hs hnot
  rcases hs with ⟨waiter, t, hs⟩ | ⟨t, n, ht⟩
  · exact threadStep_remaining hs
  · exact absurd ⟨t, n, rfl, ht⟩ hnot

/-- The work the driver gives to its threads. -/
theorem total_driver {α : Type*} (W n : ℕ) (vals : List α) :
    total Program.popCount (driver W (.pushes vals) (.pops n)) = W * n ∧
      total Program.pushCount (driver W (.pushes vals) (.pops n)) = W * vals.length := by
  simp [total, driver, Fintype.sum_sum_type, Program.popCount, Program.pushCount]

/-- **The driver ends, and leaves nothing**: an execution that goes on for ever has an infinite
number of wakeups without a reason, and when no thread can move all have been joined, the queue is
empty and every value has been handed to one reader. -/
theorem one_lock_driver_terminates (W N : ℕ) :
    (∀ e : (system (run_fine_grained W N)).Execution, e.InfinitelyOften Spurious) ∧
    ∀ tr s, (system (run_fine_grained W N)).Run tr s → (∀ t, ¬CanMove s t) →
      Finished s ∧ Drained (List.replicate N 1) tr s := by
  refine ⟨infinitelyOften_spurious, fun tr s h hstuck => ?_⟩
  have hfinished : Finished s := by
    by_contra hunfinished
    simp only [Finished, not_forall, Bool.not_eq_true] at hunfinished
    obtain ⟨t, ht⟩ := hunfinished
    obtain ⟨hpops, hpushes⟩ := total_driver W N (List.replicate N (1 : Int32))
    have hle : total Program.popCount (run_fine_grained W N) ≤
        total Program.pushCount (run_fine_grained W N) := by
      rw [run_fine_grained, thread_coarse_grained_write, thread_coarse_grained_read, hpops, hpushes,
        List.length_replicate]
    obtain ⟨u, hu⟩ := (inv_of_run h).canMove_of_unfinished hle ht
    exact hstuck u hu
  exact ⟨hfinished, drained_of_run List.length_replicate h hfinished⟩

end Step

end CoarseGrained

end Mpmc

end LowLatency
