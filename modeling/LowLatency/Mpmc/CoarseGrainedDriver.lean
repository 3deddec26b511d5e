import LowLatency.Foundations.Handover
import LowLatency.Mpmc.CoarseGrainedProgress

/-!
# The driver of the queue with one lock

`run_fine_grained` of `coarse_grained_queue.cpp`: writers, each of which pushes so many values, and
as many readers, each of which pops so many. All threads wait at a barrier, and from there on they
run in any order, until all have been joined. A `pop` waits for a value, so a complete run has
popped as many values as it has pushed, and that is all of them
(`LowLatency.Mpmc.CoarseGrained.drained_of_run`).

What is expected of a complete run is stated for both drivers
(`LowLatency.Mpmc.HandedOut`, `LowLatency.Mpmc.Complete`).
-/

namespace LowLatency

namespace Mpmc

open CoarseGrained (Program)
open QueueAction

/-! ### Writers and readers -/

/-- The threads of a driver: as many writers as readers. -/
def driver {α : Type*} (W : ℕ) (write read : Program α) : Fin W ⊕ Fin W → Program α :=
  Sum.elim (fun _ => write) fun _ => read

/-- What a program has to do. -/
def CoarseGrained.Program.work {α : Type*} : Program α → Work α
  | .pushes vals => ⟨vals, 0⟩
  | .pops n => ⟨[], n⟩

/-- **Every value is handed to one reader**, if each of the writers inserts the values `vals`: what
the readers have got together is what the writers have inserted together. -/
def HandedOut {α : Type*} {W : ℕ} (vals : List α) (tr : List (QueueAction (Fin W ⊕ Fin W) α)) :
    Prop :=
  ∑ r : Fin W, (returned (.inr r) tr : Multiset α) = ∑ _w : Fin W, (vals : Multiset α)

/-- The trace of threads that have done all they have to do. -/
structure Complete {τ α : Type*} [DecidableEq τ] (program : τ → Program α)
    (tr : List (QueueAction τ α)) : Prop where
  pushed : ∀ t, pushed t tr = (program t).work.pushes
  taken : ∀ t, (taken t tr).length + failed t tr = (program t).work.pops
  returned : ∀ t, QueueAction.taken t tr = QueueAction.returned t tr

variable {α : Type*} {W n : ℕ} {vals : List α} {tr : List (QueueAction (Fin W ⊕ Fin W) α)}

/-- **As many values are published as pops are made**, those that have failed included. -/
theorem Complete.length_published (h : Complete (driver W (.pushes vals) (.pops n)) tr)
    (hn : vals.length = n) :
    (published tr).length = (popped tr).length + ∑ t, failed t tr := by
  have hpushed : (published tr).length = ∑ _w : Fin W, vals.length := by
    rw [← sum_length_pushed, Fintype.sum_sum_type]
    simp only [h.pushed]
    simp [driver, Program.work]
  have htaken : (popped tr).length + ∑ t, failed t tr = ∑ _r : Fin W, n := by
    rw [← sum_length_taken, ← Finset.sum_add_distrib, Fintype.sum_sum_type]
    simp only [h.taken]
    simp [driver, Program.work]
  rw [hpushed, htaken, hn]

/-- A writer gets nothing. -/
theorem Complete.returned_writer (h : Complete (driver W (.pushes vals) (.pops n)) tr)
    (w : Fin W) : QueueAction.returned (.inl w) tr = [] := by
  have htaken : (QueueAction.taken (.inl w) tr).length + failed (.inl w) tr = 0 := h.taken (.inl w)
  rw [← h.returned]
  exact List.eq_nil_of_length_eq_zero (by omega)

/-- **When all that was published has been popped**, every value has been handed out. -/
theorem Complete.handedOut (h : Complete (driver W (.pushes vals) (.pops n)) tr)
    (hpopped : popped tr = published tr) : HandedOut vals tr := by
  have hsum := sum_returned hpopped h.returned
  simp only [h.pushed] at hsum
  rw [Fintype.sum_sum_type, Fintype.sum_sum_type] at hsum
  rw [HandedOut]
  simpa [h.returned_writer, driver, Program.work] using hsum

namespace CoarseGrained

variable {τ : Type*} {s s' : State τ α} {t u : τ} {a : QueueAction τ α}

/-- `thread_coarse_grained_write`. -/
def thread_coarse_grained_write (ITERATION_TIMES : ℕ) : Program Int32 :=
  .pushes (List.replicate ITERATION_TIMES 1)

/-- `thread_coarse_grained_read`. -/
def thread_coarse_grained_read (ITERATION_TIMES : ℕ) : Program Int32 := .pops ITERATION_TIMES

/-- **The threads of the driver**, behind the barrier. -/
def run_fine_grained (W N : ℕ) : Fin W ⊕ Fin W → Program Int32 :=
  driver W (thread_coarse_grained_write N) (thread_coarse_grained_read N)

/-- All threads have been joined. -/
def Finished (s : State τ α) : Prop := ∀ t, (s.thread t).finished = true

/-- **What is expected of a complete run.** -/
structure Drained (vals : List α) (tr : List (QueueAction (Fin W ⊕ Fin W) α))
    (s : State (Fin W ⊕ Fin W) α) : Prop where
  empty : s.queue = []
  handedOut : HandedOut vals tr

/-- The work that a thread has not done. -/
def Thread.work : Thread α → Work α
  | .pusher todo (.lock v) => ⟨v :: todo, 0⟩
  | .pusher todo (.insert v) => ⟨v :: todo, 0⟩
  | .pusher todo _ => ⟨todo, 0⟩
  | .popper n pc => ⟨[], (Thread.popper n pc).popsLeft⟩

section Step

variable [Fintype τ] [DecidableEq τ] {program : τ → Program α} {tr : List (QueueAction τ α)}

/-- A step of a thread does some of its work. -/
theorem threadStep_does {waiter : τ} (hs : threadStep waiter t s = some (a, s')) :
    Does t a (s.thread t).work (s'.thread t).work := by
  cases threadStep_cases hs with
  | wake todo w n ht hw =>
    show Does t (.access t) _ (Thread.work _)
    rw [eq_notify Thread.work rfl rfl ht hw]
    exact ⟨rfl, (Nat.zero_add _).symm⟩
  | pop n v ht =>
    exact ⟨by simp [ht, Thread.work, pushed?],
      by simp [ht, Thread.work, taken?, fails, Nat.add_comm]⟩
  | _ =>
    exact ⟨by simp [*, Thread.work, pushed?],
      by simp [*, Thread.work, taken?, fails, QueueRes.isFailure]⟩

/-- The others have the work that they had. -/
theorem threadStep_work (hu : u ≠ t) {waiter : τ} (hs : threadStep waiter t s = some (a, s')) :
    a.thread = t ∧ (s'.thread u).work = (s.thread u).work := by
  cases threadStep_cases hs with
  | wake todo w n ht hw => exact ⟨rfl, eq_notify Thread.work rfl rfl ht hw u⟩
  | _ => exact ⟨rfl, by simp [hu]⟩

/-- **The work along a run.** -/
theorem work_of_run (h : (system program).Run tr s) (t : τ) :
    pushed t tr ++ (s.thread t).work.pushes = (program t).work.pushes ∧
      (taken t tr).length + failed t tr + (s.thread t).work.pops = (program t).work.pops := by
  refine QueueAction.work_of_run (fun s => (s.thread t).work) ?_ ?_ h
  · rintro s ⟨-, -, hthread⟩
    rw [hthread]
    dsimp only
    rcases program t with _ | _
    · rfl
    · rfl
  · intro s a s' hs
    rcases hs with ⟨waiter, u, hs⟩ | ⟨u, n, hu⟩
    · rcases eq_or_ne t u with rfl | hne
      · exact threadStep_does hs
      · obtain ⟨ha, hwork⟩ := threadStep_work hne hs
        rw [hwork]
        exact does_nothing (ha ▸ hne) _
    · dsimp only
      rw [eq_wake Thread.work rfl hu]
      exact ⟨rfl, (Nat.zero_add _).symm⟩

/-- A `pop` never fails. -/
theorem failed_of_run (h : (system program).Run tr s) (t : τ) : failed t tr = 0 := by
  refine h.invariant (I := fun tr _ => failed t tr = 0) (fun _ _ => rfl) ?_
  intro tr s a s' _ hzero hs
  have hfails : a.fails t = false := by
    rcases hs with ⟨waiter, u, hs⟩ | ⟨u, n, hu⟩
    · cases threadStep_cases hs <;> rfl
    · rfl
  rw [failed_snoc, hzero, hfails]
  rfl

/-- Who has finished has nothing to do, and nothing in hand. -/
theorem work_of_finished {p : Thread α} (h : p.finished = true) :
    p.work = ⟨[], 0⟩ ∧ p.inHand = [] := by
  unfold Thread.finished at h
  split at h
  · exact ⟨rfl, rfl⟩
  · exact ⟨rfl, rfl⟩
  · cases h

/-- **When all threads have been joined**, they have done all they have to do. -/
theorem complete_of_run (h : (system program).Run tr s) (hfinished : Finished s) :
    Complete program tr := by
  refine ⟨fun t => ?_, fun t => ?_, fun t => ?_⟩
  · obtain ⟨hpushes, -⟩ := work_of_run h t
    rwa [(work_of_finished (hfinished t)).1, List.append_nil] at hpushes
  · obtain ⟨-, hpops⟩ := work_of_run h t
    rwa [(work_of_finished (hfinished t)).1] at hpops
  · rw [taken_eq_returned h, (work_of_finished (hfinished t)).2, List.append_nil]

end Step

/-- **A complete run leaves nothing**: the queue is empty, and every value has been handed to one
reader. -/
theorem drained_of_run {tr : List (QueueAction (Fin W ⊕ Fin W) α)}
    {s : State (Fin W ⊕ Fin W) α} (hn : vals.length = n)
    (h : (system (driver W (.pushes vals) (.pops n))).Run tr s) (hfinished : Finished s) :
    Drained vals tr s := by
  have hcomplete := complete_of_run h hfinished
  have hvalues := (inv_of_run h).values
  have hlength := hcomplete.length_published hn
  rw [Finset.sum_eq_zero fun t _ => failed_of_run h t, hvalues, List.length_append] at hlength
  have hempty : s.queue = [] := List.eq_nil_of_length_eq_zero (by omega)
  rw [hempty, List.append_nil] at hvalues
  exact ⟨hempty, hcomplete.handedOut hvalues.symm⟩

end CoarseGrained

end Mpmc

end LowLatency
