import LowLatency.Foundations.Counting
import LowLatency.Foundations.MachineInt
import LowLatency.Foundations.Transition

/-!
# The counter with an atomic variable

The struct `AtomicCounter` and the threads that use it, each with a list of calls of `increment`
and `decrement` to make. `++value` and `--value` on a `std::atomic<long>` are one step, so a call is
one step as well. The value is what the calls made so far come to, as a `long`
(`LowLatency.Counters.AtomicCounter.value_of_run`), and with fewer than `2 ^ 63` calls in all it is
their number exactly (`LowLatency.Counters.AtomicCounter.toInt_value_of_run`).
-/

namespace LowLatency

namespace Counters

/-- A method of the counters. -/
inductive Call where
  | increment : Call
  | decrement : Call
  deriving DecidableEq

/-- What a call makes of the value. -/
def Call.next : Call → Int64 → Int64
  | .increment, value => value + 1
  | .decrement, value => value - 1

/-- **What some calls come to**: the increments without the decrements. -/
def net (calls : List Call) : ℤ := (calls.count .increment : ℤ) - calls.count .decrement

/-- A call changes the value by what it comes to. -/
theorem Call.next_ofInt (c : Call) (calls : List Call) :
    c.next (Int64.ofInt (net calls)) = Int64.ofInt (net (calls ++ [c])) := by
  rcases c with _ | _
  · have hnet : net (calls ++ [.increment]) = net calls + 1 := by
      simp only [net, List.count_append, List.count_singleton_self]
      have hother : List.count Call.decrement [Call.increment] = 0 := rfl
      omega
    rw [hnet, Int64.ofInt_add]
    rfl
  · have hnet : net (calls ++ [.decrement]) = net calls - 1 := by
      simp only [net, List.count_append, List.count_singleton_self]
      have hother : List.count Call.increment [Call.decrement] = 0 := rfl
      omega
    rw [hnet, Int64.ofInt_sub]
    rfl

variable {τ : Type*}

/-- The calls of a method in all programs. -/
def calls [Fintype τ] (program : τ → List Call) (c : Call) : ℕ :=
  Counting.total (List.count c) program

/-- There are no more calls of one method than there are in all. -/
theorem calls_le [Fintype τ] (program : τ → List Call) (c : Call) :
    calls program c ≤ Counting.total List.length program :=
  Finset.sum_le_sum fun _ _ => List.count_le_length

/-- The counter, and the calls that each thread has still to make. -/
structure AtomicCounter (τ : Type*) where
  value : Int64
  todo : τ → List Call

namespace AtomicCounter

section Step

variable [DecidableEq τ]

/-- The next call of a thread. -/
def step (t : τ) (s : AtomicCounter τ) : Option ((τ × Call) × AtomicCounter τ) :=
  match s.todo t with
  | [] => none
  | c :: todo => some ((t, c),
      { value := c.next s.value, todo := Function.update s.todo t todo })

/-- **The threads with an `AtomicCounter`**, in any order. -/
def system (program : τ → List Call) : TransitionSystem (AtomicCounter τ) (τ × Call) where
  Init s := s = { value := 0, todo := program }
  Step s a s' := ∃ t, step t s = some (a, s')

end Step

/-- All threads have finished. -/
def Finished (s : AtomicCounter τ) : Prop := ∀ t, s.todo t = []

variable {program : τ → List Call} {s s' : AtomicCounter τ} {t : τ} {a : τ × Call}
  {tr : List (τ × Call)}

/-- The calls made. -/
def made (tr : List (τ × Call)) : List Call := tr.map Prod.snd

@[simp] theorem made_concat (tr : List (τ × Call)) (t : τ) (c : Call) :
    made (tr ++ [(t, c)]) = made tr ++ [c] := by
  simp [made]

variable [DecidableEq τ]

theorem step_cases (h : step t s = some (a, s')) : ∃ c todo, s.todo t = c :: todo ∧ a = (t, c) ∧
    s' = { value := c.next s.value, todo := Function.update s.todo t todo } := by
  rcases htodo : s.todo t with _ | ⟨c, todo⟩
  · rw [step, htodo] at h
    cases h
  · rw [step, htodo] at h
    cases h
    exact ⟨c, todo, rfl, rfl, rfl⟩

/-- **The value** is what the calls come to, as a `long`. -/
theorem value_of_run (h : (system program).Run tr s) : s.value = Int64.ofInt (net (made tr)) := by
  refine h.invariant (I := fun tr s => s.value = Int64.ofInt (net (made tr))) ?_ ?_
  · rintro s rfl
    rfl
  · rintro tr s a s' - hvalue ⟨t, hs⟩
    obtain ⟨c, todo, -, rfl, rfl⟩ := step_cases hs
    rw [made_concat, ← c.next_ofInt, ← hvalue]

variable [Fintype τ]

/-- **No call is lost**: those made and those still to be made are those of the programs. -/
theorem count_of_run (h : (system program).Run tr s) (c : Call) :
    (made tr).count c + Counting.total (List.count c) s.todo = calls program c := by
  refine h.invariant (I := fun tr s =>
    (made tr).count c + Counting.total (List.count c) s.todo = calls program c) ?_ ?_
  · rintro s rfl
    exact Nat.zero_add _
  · rintro tr s a s' - hcount ⟨t, hs⟩
    obtain ⟨d, todo, htodo, rfl, rfl⟩ := step_cases hs
    have hupdate := Counting.total_update (List.count c) s.todo t todo
    rw [htodo, List.count_cons] at hupdate
    rw [made_concat, List.count_append, List.count_singleton]
    dsimp only
    omega

/-- **The value as a number**, with fewer than `2 ^ 63` calls in all. -/
theorem toInt_value_of_run (hlt : Counting.total List.length program < 2 ^ 63)
    (h : (system program).Run tr s) : s.value.toInt = net (made tr) := by
  have hincrement := count_of_run h .increment
  have hdecrement := count_of_run h .decrement
  have hle := calls_le program .increment
  have hle' := calls_le program .decrement
  rw [value_of_run h, Int64.toInt_ofInt_of_le]
  · rw [net]
    omega
  · rw [net]
    omega

/-- When all threads have finished, all calls have been made. -/
theorem net_of_finished (h : (system program).Run tr s) (hfinished : s.Finished) :
    net (made tr) = (calls program .increment : ℤ) - calls program .decrement := by
  have hnone : ∀ c, Counting.total (List.count c) s.todo = 0 := fun c =>
    Finset.sum_eq_zero fun t _ => by rw [hfinished t, List.count_nil]
  have hincrement := count_of_run h .increment
  have hdecrement := count_of_run h .decrement
  rw [hnone] at hincrement hdecrement
  rw [net, ← hincrement, ← hdecrement]
  rfl

/-- **The value in the end.** -/
theorem toInt_value_of_finished (hlt : Counting.total List.length program < 2 ^ 63)
    (h : (system program).Run tr s) (hfinished : s.Finished) :
    s.value.toInt = (calls program .increment : ℤ) - calls program .decrement := by
  rw [toInt_value_of_run hlt h, net_of_finished h hfinished]

end AtomicCounter

end Counters

end LowLatency
