import LowLatency.Counters.MutexCounter
import LowLatency.Foundations.ForkJoin
import Mathlib.Algebra.BigOperators.Ring.Finset

/-!
# The benchmark of the counters

`run_counters` of `atomic_vs_mutex.cpp`: it creates its threads in a loop, joins them in another
one, and prints the value of the counter. A schedule may start and interrupt the threads as it
likes, and a thread that calls a method of a `MutexCounter` may have to wait. But no schedule keeps
either program from its end, and both print the number of the calls of `increment`, less those of
`decrement` (`LowLatency.Counters.benchmarks_print`).
-/

namespace LowLatency

namespace Counters

variable {n : ℕ}

/-- The number of threads. -/
def TEST_RUN : ℕ := 10000

/-- The threads of `run_counters`, each with a hundred calls of `increment`. -/
def run_counters : Fin TEST_RUN → List Call := fun _ => List.replicate 100 .increment

/-- `run_counters<AtomicCounter>`, for threads that make the calls of `program`. -/
def AtomicCounter.benchmark (program : Fin n → List Call) :
    TransitionSystem (ForkJoin.State (AtomicCounter (Fin n))) (Option (Fin n × Call)) :=
  ForkJoin.system (AtomicCounter.system program).Init
    (fun t s a s' => AtomicCounter.step t s = some (a, s')) fun t s => s.todo t = []

/-- `run_counters<MutexCounter>`, for threads that make the calls of `program`. -/
def MutexCounter.benchmark (program : Fin n → List Call) :
    TransitionSystem (ForkJoin.State (MutexCounter (Fin n)))
      (Option (MutexCounter.Action (Fin n))) :=
  ForkJoin.system (MutexCounter.system program).Init
    (fun t s a s' => MutexCounter.step t s = some (a, s')) fun t s => s.thread t = ⟨[], .outside⟩

/-- **The threads with an `AtomicCounter` come to an end**: every step is a call. -/
theorem AtomicCounter.ends (program : Fin n → List Call) :
    ForkJoin.Ends (AtomicCounter.system program).Init
      (fun t s a s' => AtomicCounter.step t s = some (a, s')) (fun t s => s.todo t = [])
      (fun s => Counting.total List.length s.todo) (Counting.total List.length program) where
  init_le := by
    rintro s rfl
    exact le_rfl
  less := by
    intro tr s t a s' _ hs
    obtain ⟨c, todo, htodo, -, rfl⟩ := AtomicCounter.step_cases hs
    have hupdate := Counting.total_update List.length s.todo t todo
    rw [htodo, List.length_cons] at hupdate
    dsimp only
    omega
  stays := by
    intro s t a s' u hs hdone
    obtain ⟨c, todo, htodo, -, rfl⟩ := AtomicCounter.step_cases hs
    rcases eq_or_ne u t with rfl | hu
    · cases htodo.symm.trans hdone
    · exact (Function.update_of_ne hu ..).trans hdone
  rest := by
    intro tr s _ hstuck t
    cases htodo : s.todo t with
    | nil => rfl
    | cons c todo => exact absurd (by rw [AtomicCounter.step, htodo]) (hstuck t (t, c) _)

/-- **The threads with a `MutexCounter` come to an end**: a call is four steps, and the holder of
the mutex can always go on. -/
theorem MutexCounter.ends (program : Fin n → List Call) :
    ForkJoin.Ends (MutexCounter.system program).Init
      (fun t s a s' => MutexCounter.step t s = some (a, s'))
      (fun t s => s.thread t = ⟨[], .outside⟩)
      (fun s => Counting.total MutexCounter.Thread.remaining s.thread)
      (4 * Counting.total List.length program) where
  init_le := by
    rintro s rfl
    exact (Finset.mul_sum ..).ge
  less := fun _ _ _ _ _ _ hs => MutexCounter.remaining_lt hs
  stays := by
    intro s t a s' u hs hdone
    obtain ⟨p, hthread, hlt⟩ := MutexCounter.thread_step hs
    rcases eq_or_ne u t with rfl | hu
    · rw [hdone] at hlt
      exact absurd hlt (Nat.not_lt_zero _)
    · rw [hthread, Function.update_of_ne hu]
      exact hdone
  rest := by
    intro tr s h hstuck
    obtain ⟨r, -, hrel⟩ := MutexCounter.refines h
    exact MutexCounter.finished_of_stuck hrel hstuck

/-- **What is expected of a benchmark** with `n` threads. -/
structure Prints {σ α : Type*} (benchmark : TransitionSystem (ForkJoin.State σ) (Option α))
    (n B : ℕ) (value : σ → Int64) (result : ℤ) : Prop where
  /-- It comes to its end under every schedule. -/
  length_le : ∀ tr s, benchmark.Run tr s → tr.length ≤ B
  returned : ∀ tr s, benchmark.Run tr s → (∀ a s', ¬benchmark.Step s a s') → s.Returned n
  /-- The value that is printed when all threads have been joined. -/
  prints : ∀ tr s, benchmark.Run tr s → s.Returned n → (value s.obj).toInt = result

/-- **Both benchmarks print the same number**, under every schedule, with fewer than `2 ^ 63` calls
in all. -/
theorem benchmarks_print (program : Fin n → List Call)
    (hlt : Counting.total List.length program < 2 ^ 63) :
    Prints (AtomicCounter.benchmark program) n (2 * n + 1 + Counting.total List.length program)
      AtomicCounter.value ((calls program .increment : ℤ) - calls program .decrement) ∧
    Prints (MutexCounter.benchmark program) n
      (2 * n + 1 + 4 * Counting.total List.length program)
      MutexCounter.value ((calls program .increment : ℤ) - calls program .decrement) := by
  have hatomic := AtomicCounter.ends program
  have hmutex := MutexCounter.ends program
  refine ⟨⟨fun tr s h => hatomic.length_le h, fun tr s h => hatomic.returned h,
    fun tr s h hreturned => ?_⟩, ⟨fun tr s h => hmutex.length_le h,
    fun tr s h => hmutex.returned h, fun tr s h hreturned => ?_⟩⟩
  · exact AtomicCounter.toInt_value_of_finished hlt (ForkJoin.threads_of_run h)
      (hatomic.done h hreturned)
  · exact MutexCounter.toInt_value_of_finished hlt (ForkJoin.threads_of_run h)
      (hmutex.done h hreturned)

/-- What the threads of `run_counters` have to do. -/
theorem total_run_counters (w : List Call → ℕ) :
    Counting.total w run_counters = 10000 * w (List.replicate 100 .increment) := by
  have hconst := Counting.total_const (τ := Fin TEST_RUN) w (List.replicate 100 .increment)
  rwa [Fintype.card_fin] at hconst

/-- `run_counters` prints a million, after `4020001` steps at most. -/
theorem benchmarks_print_million :
    Prints (AtomicCounter.benchmark run_counters) TEST_RUN 1020001 AtomicCounter.value 1000000 ∧
    Prints (MutexCounter.benchmark run_counters) TEST_RUN 4020001 MutexCounter.value 1000000 := by
  have hlength : Counting.total List.length run_counters = 1000000 := by
    rw [total_run_counters, List.length_replicate]
  have hvalue : (calls run_counters .increment : ℤ) - calls run_counters .decrement = 1000000 := by
    rw [calls, calls, total_run_counters, total_run_counters, List.count_replicate_self,
      List.count_replicate]
    decide
  have hprints := benchmarks_print run_counters (by rw [hlength]; decide)
  rw [hlength, hvalue] at hprints
  exact hprints

end Counters

end LowLatency
