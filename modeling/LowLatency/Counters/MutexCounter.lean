import LowLatency.Counters.AtomicCounter
import LowLatency.Foundations.Mutex
import LowLatency.Foundations.Rest
import LowLatency.Foundations.Simulation

/-!
# The counter with a mutex

The struct `MutexCounter`: `increment` and `decrement` hold `mutex` while `value++` or `value--`
reads the value and writes it back, which are two steps. A call completes when the `lock_guard`
unlocks. Since the mutex keeps the other threads out, the calls that complete are those of an
`AtomicCounter`, in the order in which they complete, and the value is the same whenever the mutex
is free (`LowLatency.Counters.MutexCounter.refines`). So no update is lost
(`LowLatency.Counters.no_lost_update`).
-/

namespace LowLatency

namespace Counters

namespace MutexCounter

/-- Where a thread stands. -/
inductive Pc where
  /-- Outside the methods. -/
  | outside : Pc
  /-- The mutex is locked, the value not read yet. -/
  | read (c : Call) : Pc
  /-- At the step that writes, with the value that was read. -/
  | write (c : Call) (value : Int64) : Pc
  | unlock (c : Call) : Pc

/-- A thread: the calls that it has still to begin, and where it stands. -/
structure Thread where
  todo : List Call
  pc : Pc

end MutexCounter

/-- The counter and the threads. The mutex is its holder. -/
structure MutexCounter (τ : Type*) where
  mutex : Option τ
  value : Int64
  thread : τ → MutexCounter.Thread

namespace MutexCounter

/-- What a step shows: that a call is complete, or nothing. -/
inductive Action (τ : Type*) where
  | access (t : τ) : Action τ
  | complete (t : τ) (c : Call) : Action τ

/-- The call that a step completes. -/
def Action.completes {τ : Type*} : Action τ → Option (τ × Call)
  | .access _ => none
  | .complete t c => some (t, c)

variable {τ : Type*}

/-- **The critical sections that are complete**, in their order. -/
def completed (tr : List (Action τ)) : List (τ × Call) := tr.filterMap Action.completes

section Step

variable [DecidableEq τ]

/-- The thread goes on to `pc`. -/
def goto (t : τ) (pc : Pc) (s : MutexCounter τ) : MutexCounter τ :=
  { s with thread := Function.update s.thread t { s.thread t with pc := pc } }

/-- The next step of a thread. It cannot lock the mutex while another thread holds it. -/
def step (t : τ) (s : MutexCounter τ) : Option (Action τ × MutexCounter τ) :=
  match (s.thread t).pc with
  | .outside =>
    match (s.thread t).todo, s.mutex with
    | c :: todo, none => some (.access t,
        { s with
          mutex := some t
          thread := Function.update s.thread t { todo := todo, pc := .read c } })
    | _, _ => none
  | .read c => some (.access t, s.goto t (.write c s.value))
  | .write c value => some (.access t, { s.goto t (.unlock c) with value := c.next value })
  | .unlock c => some (.complete t c, { s.goto t .outside with mutex := none })

/-- **The threads with a `MutexCounter`**, in any order. -/
def system (program : τ → List Call) : TransitionSystem (MutexCounter τ) (Action τ) where
  Init s := s = { mutex := none, value := 0, thread t := { todo := program t, pc := .outside } }
  Step s a s' := ∃ t, step t s = some (a, s')

/-- What a step of the thread `t` can be. -/
inductive Cases (t : τ) (s : MutexCounter τ) : Action τ → MutexCounter τ → Prop
  | lock (c : Call) (todo : List Call) : s.thread t = ⟨c :: todo, .outside⟩ → s.mutex = none →
      Cases t s (.access t)
        { s with mutex := some t, thread := Function.update s.thread t ⟨todo, .read c⟩ }
  | read (c : Call) (todo : List Call) : s.thread t = ⟨todo, .read c⟩ →
      Cases t s (.access t)
        { s with thread := Function.update s.thread t ⟨todo, .write c s.value⟩ }
  | write (c : Call) (todo : List Call) (value : Int64) : s.thread t = ⟨todo, .write c value⟩ →
      Cases t s (.access t)
        { s with
          value := c.next value
          thread := Function.update s.thread t ⟨todo, .unlock c⟩ }
  | unlock (c : Call) (todo : List Call) : s.thread t = ⟨todo, .unlock c⟩ →
      Cases t s (.complete t c)
        { s with mutex := none, thread := Function.update s.thread t ⟨todo, .outside⟩ }

variable {s s' : MutexCounter τ} {t : τ} {a : Action τ}

theorem step_cases (h : step t s = some (a, s')) : Cases t s a s' := by
  rcases hthread : s.thread t with ⟨todo, pc⟩
  rcases pc with _ | c | ⟨c, value⟩ | c
  · rcases todo with _ | ⟨c, todo⟩
    · simp [step, hthread] at h
    · rcases hmutex : s.mutex with _ | u
      · simp only [step, hthread, hmutex] at h
        cases h
        exact .lock c todo hthread hmutex
      · simp [step, hthread, hmutex] at h
  · simp only [step, goto, hthread] at h
    cases h
    exact .read c todo hthread
  · simp only [step, goto, hthread] at h
    cases h
    exact .write c todo value hthread
  · simp only [step, goto, hthread] at h
    cases h
    exact .unlock c todo hthread

end Step

/-! ### The refinement -/

/-- The critical section: between locking and unlocking. -/
def Thread.Inside : Thread → Prop
  | ⟨_, .outside⟩ => False
  | _ => True

/-- The calls that the thread has not completed. -/
def Thread.left : Thread → List Call
  | ⟨todo, .outside⟩ => todo
  | ⟨todo, .read c⟩ => c :: todo
  | ⟨todo, .write c _⟩ => c :: todo
  | ⟨todo, .unlock c⟩ => c :: todo

/-- All threads have finished. -/
def Finished (s : MutexCounter τ) : Prop := ∀ t, s.thread t = ⟨[], .outside⟩

/-- What a thread in the critical section knows: `value` is the counter, and `done` what the calls
completed have made of it. -/
def Knows (value done : Int64) : Thread → Prop
  | ⟨_, .outside⟩ => True
  | ⟨_, .read _⟩ => value = done
  | ⟨_, .write _ v⟩ => value = done ∧ v = done
  | ⟨_, .unlock c⟩ => value = c.next done

/-- **The simulation**: the mutex guards the critical section, the atomic counter has the calls
left that are not complete, and the values are the same but for the call in the critical
section. -/
structure Rel (s : MutexCounter τ) (r : AtomicCounter τ) : Prop where
  mutex : Mutex.Guards s.mutex Thread.Inside s.thread
  todo : ∀ t, r.todo t = (s.thread t).left
  free : s.mutex = none → s.value = r.value
  knows : ∀ t, Knows s.value r.value (s.thread t)

variable {s s' : MutexCounter τ} {r : AtomicCounter τ} {t : τ} {a : Action τ}
  {program : τ → List Call} {tr : List (Action τ)}

theorem Thread.eq_outside {p : Thread} (h : ¬p.Inside) : ∃ todo, p = ⟨todo, .outside⟩ := by
  rcases p with ⟨todo, _ | c | ⟨c, v⟩ | c⟩
  · exact ⟨todo, rfl⟩
  · exact absurd trivial h
  · exact absurd trivial h
  · exact absurd trivial h

/-- While a thread is in the critical section, the others know nothing. -/
theorem Rel.knows_of_ne (h : Rel s r) (ht : (s.thread t).Inside) (value done : Int64) (u : τ)
    (hu : u ≠ t) : Knows value done (s.thread u) := by
  obtain ⟨todo, hthread⟩ := Thread.eq_outside (h.mutex.not_inside ht hu)
  rw [hthread]
  trivial

/-- Nobody holds the mutex in the end. -/
theorem Rel.mutex_of_finished (h : Rel s r) (hfinished : s.Finished) : s.mutex = none := by
  rcases hmutex : s.mutex with _ | t
  · rfl
  · have hin := (h.mutex t).mp hmutex
    rw [hfinished t] at hin
    exact hin.elim

variable [DecidableEq τ]

/-- A thread moves, and completes no call. -/
theorem todo_update (h : ∀ u, r.todo u = (s.thread u).left) {p : Thread}
    (hp : p.left = (s.thread t).left) (u : τ) :
    r.todo u = (Function.update s.thread t p u).left := by
  rcases eq_or_ne u t with rfl | hu
  · rw [Function.update_self, hp]
    exact h u
  · rw [Function.update_of_ne hu]
    exact h u

/-- A thread moves, and the others know what they know. -/
theorem knows_update {value done : Int64} {p : Thread} (hp : Knows value done p)
    (hother : ∀ u, u ≠ t → Knows value done (s.thread u)) (u : τ) :
    Knows value done (Function.update s.thread t p u) := by
  rcases eq_or_ne u t with rfl | hu
  · rwa [Function.update_self]
  · rw [Function.update_of_ne hu]
    exact hother u hu

/-- **Every step is one of the atomic counter, or none.** -/
theorem Rel.step (program : τ → List Call) (h : Rel s r) (hs : step t s = some (a, s')) :
    a.completes = none ∧ Rel s' r ∨ ∃ b r', a.completes = some b ∧
      (AtomicCounter.system program).Step r b r' ∧ Rel s' r' := by
  rcases step_cases hs with ⟨c, todo, hthread, hmutex⟩ | ⟨c, todo, hthread⟩ |
    ⟨c, todo, value, hthread⟩ | ⟨c, todo, hthread⟩
  · -- nobody was inside, and the value is that of the atomic counter
    have hguards := h.mutex
    rw [hmutex] at hguards
    exact .inl ⟨rfl, hguards.lock trivial, todo_update h.todo (by rw [hthread]; rfl), nofun,
      knows_update (h.free hmutex) fun u _ => h.knows u⟩
  · have hin : (s.thread t).Inside := by rw [hthread]; trivial
    have hvalue := h.knows t
    rw [hthread] at hvalue
    exact .inl ⟨rfl, h.mutex.keep (iff_of_true trivial hin),
      todo_update h.todo (by rw [hthread]; rfl), h.free,
      knows_update ⟨hvalue, hvalue⟩ (h.knows_of_ne hin _ _)⟩
  · have hin : (s.thread t).Inside := by rw [hthread]; trivial
    have hknows := h.knows t
    rw [hthread] at hknows
    refine .inl ⟨rfl, h.mutex.keep (iff_of_true trivial hin),
      todo_update h.todo (by rw [hthread]; rfl), fun hfree => ?_,
      knows_update (congrArg c.next hknows.2) (h.knows_of_ne hin _ _)⟩
    -- the mutex is held, by this thread
    exact absurd (hfree.symm.trans (h.mutex.held hin)) nofun
  · -- the call is complete, and the atomic counter makes it
    have hin : (s.thread t).Inside := by rw [hthread]; trivial
    have hknows := h.knows t
    have htodo := h.todo t
    rw [hthread] at hknows htodo
    refine .inr ⟨(t, c), ⟨c.next r.value, Function.update r.todo t todo⟩, rfl, ⟨t, ?_⟩,
      h.mutex.unlock hin nofun, fun u => ?_, fun _ => hknows,
      knows_update trivial (h.knows_of_ne hin _ _)⟩
    · rw [AtomicCounter.step, htodo]
      rfl
    · dsimp only
      rcases eq_or_ne u t with rfl | hu
      · rw [Function.update_self, Function.update_self]
        rfl
      · rw [Function.update_of_ne hu, Function.update_of_ne hu]
        exact h.todo u

/-- **`MutexCounter` refines `AtomicCounter`**: the critical sections of a run are a run of the
atomic counter, and its value is the value whenever the mutex is free. -/
theorem refines (h : (system program).Run tr s) :
    ∃ r, (AtomicCounter.system program).Run (completed tr) r ∧ Rel s r := by
  refine h.simulate Action.completes Rel ?_ ?_
  · rintro s rfl
    refine ⟨⟨0, program⟩, rfl, fun t => iff_of_false nofun nofun, fun t => rfl, fun _ => rfl,
      fun t => trivial⟩
  · rintro s a s' r hrel ⟨t, hs⟩
    exact hrel.step program hs

/-- **The value in the end.** -/
theorem toInt_value_of_finished [Fintype τ] (hlt : Counting.total List.length program < 2 ^ 63)
    (h : (system program).Run tr s) (hfinished : s.Finished) :
    s.value.toInt = (calls program .increment : ℤ) - calls program .decrement := by
  obtain ⟨r, hrun, hrel⟩ := refines h
  have hnone : r.Finished := fun t => by
    rw [hrel.todo t, hfinished t]
    rfl
  rw [hrel.free (hrel.mutex_of_finished hfinished),
    AtomicCounter.toInt_value_of_finished hlt hrun hnone]

/-! ### The threads can finish -/

/-- A number that each step of a thread decreases. -/
def Thread.remaining : Thread → ℕ
  | ⟨todo, .outside⟩ => 4 * todo.length
  | ⟨todo, .read _⟩ => 4 * todo.length + 3
  | ⟨todo, .write _ _⟩ => 4 * todo.length + 2
  | ⟨todo, .unlock _⟩ => 4 * todo.length + 1

/-- **A step moves one thread**, and makes its number less. -/
theorem thread_step (hs : step t s = some (a, s')) :
    ∃ p, s'.thread = Function.update s.thread t p ∧ p.remaining < (s.thread t).remaining := by
  rcases step_cases hs with ⟨c, todo, hthread, -⟩ | ⟨c, todo, hthread⟩ |
    ⟨c, todo, value, hthread⟩ | ⟨c, todo, hthread⟩
  · refine ⟨_, rfl, ?_⟩
    simp only [hthread, Thread.remaining, List.length_cons]
    omega
  · refine ⟨_, rfl, ?_⟩
    simp only [hthread, Thread.remaining]
    omega
  · refine ⟨_, rfl, ?_⟩
    simp only [hthread, Thread.remaining]
    omega
  · refine ⟨_, rfl, ?_⟩
    simp only [hthread, Thread.remaining]
    omega

theorem remaining_lt [Fintype τ] (hs : step t s = some (a, s')) :
    Counting.total Thread.remaining s'.thread < Counting.total Thread.remaining s.thread := by
  obtain ⟨p, hp, hlt⟩ := thread_step hs
  have hupdate := Counting.total_update Thread.remaining s.thread t p
  rw [hp]
  omega

/-- The thread in the critical section is not held up. -/
theorem step_of_inside (h : (s.thread t).Inside) : ∃ a s', step t s = some (a, s') := by
  rcases hthread : s.thread t with ⟨todo, _ | c | ⟨c, value⟩ | c⟩
  · rw [hthread] at h
    exact h.elim
  · exact ⟨_, _, by rw [step, hthread]⟩
  · exact ⟨_, _, by rw [step, hthread]⟩
  · exact ⟨_, _, by rw [step, hthread]⟩

/-- While the mutex is free, a thread with calls to make is not held up. -/
theorem step_of_free (hmutex : s.mutex = none) {c : Call} {todo : List Call}
    (hthread : s.thread t = ⟨c :: todo, .outside⟩) : ∃ a s', step t s = some (a, s') :=
  ⟨_, _, by rw [step, hthread, hmutex]⟩

/-- **Threads that cannot go on** have finished. -/
theorem finished_of_stuck (h : Rel s r) (hstuck : ∀ t a s', step t s ≠ some (a, s')) :
    s.Finished := by
  intro t
  -- nobody holds the mutex, or the holder could go on
  have hmutex : s.mutex = none := by
    rcases hholder : s.mutex with _ | u
    · rfl
    · obtain ⟨a, s', hs⟩ := step_of_inside ((h.mutex u).mp hholder)
      exact absurd hs (hstuck u a s')
  obtain ⟨todo, hthread⟩ : ∃ todo, s.thread t = ⟨todo, .outside⟩ := by
    refine Thread.eq_outside fun hin => ?_
    obtain ⟨a, s', hs⟩ := step_of_inside hin
    exact hstuck t a s' hs
  rcases todo with _ | ⟨c, todo⟩
  · exact hthread
  · obtain ⟨a, s', hs⟩ := step_of_free hmutex hthread
    exact absurd hs (hstuck t a s')

/-- **The threads can finish**, whatever they have done so far. -/
theorem exists_finished [Fintype τ] (h : (system program).Run tr s) :
    ∃ tr' s', (system program).Steps s tr' s' ∧ s'.Finished := by
  obtain ⟨r, -, hrel⟩ := refines h
  obtain ⟨tr', s', hsteps, -, ⟨r', hrel'⟩, hrest⟩ := TransitionSystem.exists_rest
    (M := system program) (A := fun _ => True) (P := fun s => ∃ r, Rel s r)
    (μ := fun s => Counting.total Thread.remaining s.thread)
    (fun s a s' _ ⟨r, hrel⟩ ⟨t, hs⟩ => by
      rcases hrel.step program hs with ⟨-, hrel'⟩ | ⟨-, r', -, -, hrel'⟩
      · exact ⟨r, hrel'⟩
      · exact ⟨r', hrel'⟩)
    (fun s a s' _ _ ⟨t, hs⟩ => remaining_lt hs) ⟨r, hrel⟩
  exact ⟨tr', s', hsteps, finished_of_stuck hrel' fun t a s'' hs => hrest a s'' trivial ⟨t, hs⟩⟩

end MutexCounter

variable {τ : Type*} [Fintype τ] [DecidableEq τ]

/-- **No update of the counters is lost**, with fewer than `2 ^ 63` calls in all: `MutexCounter`
refines `AtomicCounter`, its value is what the critical sections come to that are complete whenever
the mutex is free, and with either counter the threads together leave the number of the increments
without that of the decrements. -/
theorem no_lost_update (program : τ → List Call)
    (hlt : Counting.total List.length program < 2 ^ 63) :
    (∀ tr s, (MutexCounter.system program).Run tr s →
      ∃ r, (AtomicCounter.system program).Run (MutexCounter.completed tr) r ∧
        (s.mutex = none → s.value = r.value ∧
          s.value.toInt = net ((MutexCounter.completed tr).map Prod.snd))) ∧
    (∀ tr s, (MutexCounter.system program).Run tr s → s.Finished →
      s.value.toInt = (calls program .increment : ℤ) - calls program .decrement) ∧
    ∀ tr s, (AtomicCounter.system program).Run tr s → s.Finished →
      s.value.toInt = (calls program .increment : ℤ) - calls program .decrement := by
  refine ⟨fun tr s h => ?_, fun tr s h => MutexCounter.toInt_value_of_finished hlt h,
    fun tr s h => AtomicCounter.toInt_value_of_finished hlt h⟩
  obtain ⟨r, hrun, hrel⟩ := MutexCounter.refines h
  refine ⟨r, hrun, fun hmutex => ⟨hrel.free hmutex, ?_⟩⟩
  rw [hrel.free hmutex]
  exact AtomicCounter.toInt_value_of_run hlt hrun

/-- Two threads that increment a `MutexCounter` once can finish, and leave `2`. -/
theorem no_lost_update_two : ∃ tr s,
    (MutexCounter.system fun _ : Fin 2 => [Call.increment]).Run tr s ∧ s.Finished ∧
      s.value.toInt = 2 := by
  have hstart : (MutexCounter.system fun _ : Fin 2 => [Call.increment]).Run [] _ := .start rfl
  obtain ⟨tr, s, hsteps, hfinished⟩ := MutexCounter.exists_finished hstart
  have hrun := hstart.append hsteps
  have hvalue := (no_lost_update _ (by decide)).2.1 _ s hrun hfinished
  exact ⟨_, s, hrun, hfinished, hvalue.trans (by decide)⟩

end Counters

end LowLatency
