import LowLatency.Foundations.Counting
import LowLatency.Foundations.Mutex
import LowLatency.Foundations.Queue

/-!
# The queue with one lock and a condition variable

The class `QueueMPMC` of `coarse_grained/queue_mpmc.hpp` and the threads that use it:
any finite number of pushers, each with a list of values to push, and of poppers, each
with a number of pops to make. Locking, unlocking, notifying, falling asleep, waking up
and each access to the `std::queue` are steps of their own.

`wait(lock, pred)` tests the predicate with the lock held and, while it is false,
unlocks and falls asleep in one step; a thread that has been woken, by `notify_one` or
for no reason, locks again and tests again. `notify_one` wakes one of the threads
asleep, whichever it likes, and nobody if nobody is asleep.
-/

namespace LowLatency

namespace Mpmc

namespace CoarseGrained

/-- Where a pusher stands. -/
inductive PushPc (α : Type*) where
  | idle : PushPc α
  | lock (val : α) : PushPc α
  /-- At `m_queue.push(val)`. -/
  | insert (val : α) : PushPc α
  | unlock : PushPc α
  /-- At `notify_one()`, the lock released. -/
  | notify : PushPc α
  | returning : PushPc α

/-- Where a popper stands. -/
inductive PopPc (α : Type*) where
  | idle : PopPc α
  | lock : PopPc α
  /-- At the test of the predicate of `wait`. -/
  | test : PopPc α
  /-- The test has failed: at the step that unlocks and falls asleep. -/
  | wait : PopPc α
  | asleep : PopPc α
  /-- Woken: at the locking inside `wait`. -/
  | relock : PopPc α
  /-- At `val = m_queue.front()`. -/
  | front : PopPc α
  /-- At `m_queue.pop()`. -/
  | pop (val : α) : PopPc α
  | unlock (val : α) : PopPc α
  | returning (val : α) : PopPc α

/-- A thread: where it stands, and what it has still to do after its current call. -/
inductive Thread (α : Type*) where
  | pusher (todo : List α) (pc : PushPc α) : Thread α
  | popper (todo : ℕ) (pc : PopPc α) : Thread α

/-- The program of a thread: the values to push, or the number of pops to make. -/
inductive Program (α : Type*) where
  | pushes (vals : List α) : Program α
  | pops (n : ℕ) : Program α

/-- A thread before its first call. -/
def Program.start {α : Type*} : Program α → Thread α
  | .pushes vals => .pusher vals .idle
  | .pops n => .popper n .idle

/-- The members of the queue and the threads. The mutex is its holder. -/
structure State (τ α : Type*) where
  queue : List α
  lock : Option τ
  thread : τ → Thread α

variable {τ α : Type*}

/-- The thread sleeps in `wait`. -/
@[simp] def Thread.asleep : Thread α → Bool
  | .popper _ .asleep => true
  | _ => false

/-- The thread has made all its calls. -/
def Thread.finished : Thread α → Bool
  | .pusher [] .idle => true
  | .popper 0 .idle => true
  | _ => false

section Step

variable [Fintype τ] [DecidableEq τ]

/-- The steps of a pusher, that is of `push`. A `notify_one` wakes the `waiter`, if
anyone is asleep. -/
def pusherStep (waiter t : τ) (todo : List α) (s : State τ α) :
    PushPc α → Option (QueueAction τ α × State τ α)
  | .idle =>
    match todo with
    | [] => none
    | v :: todo =>
      some (.call t (.push v),
        { s with thread := Function.update s.thread t (.pusher todo (.lock v)) })
  | .lock v =>
    match s.lock with
    | some _ => none
    | none =>
      some (.access t,
        { s with
          lock := some t
          thread := Function.update s.thread t (.pusher todo (.insert v)) })
  | .insert v =>
    some (.publish t v,
      { s with
        queue := s.queue ++ [v]
        thread := Function.update s.thread t (.pusher todo .unlock) })
  | .unlock =>
    some (.access t,
      { s with lock := none, thread := Function.update s.thread t (.pusher todo .notify) })
  | .notify =>
    match s.thread waiter with
    | .popper n .asleep =>
      some (.access t,
        { s with
          thread :=
            Function.update (Function.update s.thread t (.pusher todo .returning)) waiter
              (.popper n .relock) })
    | _ =>
      if ∀ u, (s.thread u).asleep = false then
        some (.access t,
          { s with thread := Function.update s.thread t (.pusher todo .returning) })
      else none
  | .returning =>
    some (.ret t .push, { s with thread := Function.update s.thread t (.pusher todo .idle) })

/-- The steps of a popper, that is of `pop`. -/
def popperStep (t : τ) (n : ℕ) (s : State τ α) : PopPc α → Option (QueueAction τ α × State τ α)
  | .idle =>
    match n with
    | 0 => none
    | n + 1 =>
      some (.call t .pop, { s with thread := Function.update s.thread t (.popper n .lock) })
  | .lock =>
    match s.lock with
    | some _ => none
    | none =>
      some (.access t,
        { s with lock := some t, thread := Function.update s.thread t (.popper n .test) })
  | .test =>
    some (.access t,
      { s with
        thread :=
          Function.update s.thread t (.popper n (if s.queue.isEmpty then .wait else .front)) })
  | .wait =>
    some (.access t,
      { s with lock := none, thread := Function.update s.thread t (.popper n .asleep) })
  | .asleep => none
  | .relock =>
    match s.lock with
    | some _ => none
    | none =>
      some (.access t,
        { s with lock := some t, thread := Function.update s.thread t (.popper n .test) })
  | .front =>
    s.queue.head?.map fun v =>
      (.access t, { s with thread := Function.update s.thread t (.popper n (.pop v)) })
  | .pop v =>
    some (.consume t v,
      { s with
        queue := s.queue.tail
        thread := Function.update s.thread t (.popper n (.unlock v)) })
  | .unlock v =>
    some (.access t,
      { s with
        lock := none
        thread := Function.update s.thread t (.popper n (.returning v)) })
  | .returning v =>
    some (.ret t (.pop v), { s with thread := Function.update s.thread t (.popper n .idle) })

/-- The steps of a thread that is not asleep. -/
def threadStep (waiter t : τ) (s : State τ α) : Option (QueueAction τ α × State τ α) :=
  match s.thread t with
  | .pusher todo pc => pusherStep waiter t todo s pc
  | .popper n pc => popperStep t n s pc

/-- The steps: those of the threads that are awake, and waking up for no reason. -/
inductive Step : State τ α → QueueAction τ α → State τ α → Prop
  | thread {s s' : State τ α} {a : QueueAction τ α} (waiter t : τ) :
      threadStep waiter t s = some (a, s') → Step s a s'
  | spurious {s : State τ α} (t : τ) (n : ℕ) : s.thread t = .popper n .asleep →
      Step s (.access t) { s with thread := Function.update s.thread t (.popper n .relock) }

/-- **The queue and its threads.** -/
def system (program : τ → Program α) : TransitionSystem (State τ α) (QueueAction τ α) where
  Init s := s.queue = [] ∧ s.lock = none ∧ s.thread = fun t => (program t).start
  Step := Step

/-- The thread has a step of its own; waking up for no reason is not one. -/
def CanMove (s : State τ α) (t : τ) : Prop :=
  ∃ waiter a s', threadStep waiter t s = some (a, s')

/-! ### What a step can do -/

/-- The cases of a step of the thread `t`. -/
inductive ThreadCase (t : τ) (s : State τ α) : QueueAction τ α → State τ α → Prop
  | pushCall (v : α) (todo : List α) : s.thread t = .pusher (v :: todo) .idle →
      ThreadCase t s (.call t (.push v))
        { s with thread := Function.update s.thread t (.pusher todo (.lock v)) }
  | pushLock (todo : List α) (v : α) : s.thread t = .pusher todo (.lock v) → s.lock = none →
      ThreadCase t s (.access t)
        { s with
          lock := some t
          thread := Function.update s.thread t (.pusher todo (.insert v)) }
  | insert (todo : List α) (v : α) : s.thread t = .pusher todo (.insert v) →
      ThreadCase t s (.publish t v)
        { s with
          queue := s.queue ++ [v]
          thread := Function.update s.thread t (.pusher todo .unlock) }
  | pushUnlock (todo : List α) : s.thread t = .pusher todo .unlock →
      ThreadCase t s (.access t)
        { s with lock := none, thread := Function.update s.thread t (.pusher todo .notify) }
  | wake (todo : List α) (u : τ) (n : ℕ) : s.thread t = .pusher todo .notify →
      s.thread u = .popper n .asleep →
      ThreadCase t s (.access t)
        { s with
          thread :=
            Function.update (Function.update s.thread t (.pusher todo .returning)) u
              (.popper n .relock) }
  | wakeNobody (todo : List α) : s.thread t = .pusher todo .notify →
      (∀ u, (s.thread u).asleep = false) →
      ThreadCase t s (.access t)
        { s with thread := Function.update s.thread t (.pusher todo .returning) }
  | pushRet (todo : List α) : s.thread t = .pusher todo .returning →
      ThreadCase t s (.ret t .push)
        { s with thread := Function.update s.thread t (.pusher todo .idle) }
  | popCall (n : ℕ) : s.thread t = .popper (n + 1) .idle →
      ThreadCase t s (.call t .pop)
        { s with thread := Function.update s.thread t (.popper n .lock) }
  | popLock (n : ℕ) : s.thread t = .popper n .lock → s.lock = none →
      ThreadCase t s (.access t)
        { s with lock := some t, thread := Function.update s.thread t (.popper n .test) }
  | testEmpty (n : ℕ) : s.thread t = .popper n .test → s.queue = [] →
      ThreadCase t s (.access t)
        { s with thread := Function.update s.thread t (.popper n .wait) }
  | testPassed (n : ℕ) : s.thread t = .popper n .test → s.queue ≠ [] →
      ThreadCase t s (.access t)
        { s with thread := Function.update s.thread t (.popper n .front) }
  | sleep (n : ℕ) : s.thread t = .popper n .wait →
      ThreadCase t s (.access t)
        { s with lock := none, thread := Function.update s.thread t (.popper n .asleep) }
  | relock (n : ℕ) : s.thread t = .popper n .relock → s.lock = none →
      ThreadCase t s (.access t)
        { s with lock := some t, thread := Function.update s.thread t (.popper n .test) }
  | front (n : ℕ) (v : α) (q : List α) : s.thread t = .popper n .front → s.queue = v :: q →
      ThreadCase t s (.access t)
        { s with thread := Function.update s.thread t (.popper n (.pop v)) }
  | pop (n : ℕ) (v : α) : s.thread t = .popper n (.pop v) →
      ThreadCase t s (.consume t v)
        { s with
          queue := s.queue.tail
          thread := Function.update s.thread t (.popper n (.unlock v)) }
  | popUnlock (n : ℕ) (v : α) : s.thread t = .popper n (.unlock v) →
      ThreadCase t s (.access t)
        { s with
          lock := none
          thread := Function.update s.thread t (.popper n (.returning v)) }
  | popRet (n : ℕ) (v : α) : s.thread t = .popper n (.returning v) →
      ThreadCase t s (.ret t (.pop v))
        { s with thread := Function.update s.thread t (.popper n .idle) }

theorem pusherStep_cases {waiter t : τ} {s s' : State τ α} {a : QueueAction τ α}
    {todo : List α} {pc : PushPc α} (ht : s.thread t = .pusher todo pc)
    (h : pusherStep waiter t todo s pc = some (a, s')) : ThreadCase t s a s' := by
  cases pc with
  | idle =>
    cases todo with
    | nil => cases h
    | cons v todo =>
      cases h
      exact .pushCall v todo ht
  | lock v =>
    simp only [pusherStep] at h
    split at h
    · cases h
    · cases h
      exact .pushLock todo v ht ‹_›
  | insert v =>
    cases h
    exact .insert todo v ht
  | unlock =>
    cases h
    exact .pushUnlock todo ht
  | notify =>
    simp only [pusherStep] at h
    split at h
    · cases h
      exact .wake todo waiter _ ht ‹_›
    · split_ifs at h with hnobody
      cases h
      exact .wakeNobody todo ht hnobody
  | returning =>
    cases h
    exact .pushRet todo ht

omit [Fintype τ] in
theorem popperStep_cases {t : τ} {s s' : State τ α} {a : QueueAction τ α}
    {n : ℕ} {pc : PopPc α} (ht : s.thread t = .popper n pc)
    (h : popperStep t n s pc = some (a, s')) : ThreadCase t s a s' := by
  cases pc with
  | idle =>
    cases n with
    | zero => cases h
    | succ n =>
      cases h
      exact .popCall n ht
  | lock =>
    simp only [popperStep] at h
    split at h
    · cases h
    · cases h
      exact .popLock n ht ‹_›
  | test =>
    cases h
    by_cases hempty : s.queue = []
    · rw [if_pos (List.isEmpty_iff.mpr hempty)]
      exact .testEmpty n ht hempty
    · rw [if_neg (fun hc => hempty (List.isEmpty_iff.mp hc))]
      exact .testPassed n ht hempty
  | wait =>
    cases h
    exact .sleep n ht
  | asleep => cases h
  | relock =>
    simp only [popperStep] at h
    split at h
    · cases h
    · cases h
      exact .relock n ht ‹_›
  | front =>
    obtain ⟨v, hv, heq⟩ := Option.map_eq_some_iff.mp h
    cases heq
    obtain ⟨q, hq⟩ := List.head?_eq_some_iff.mp hv
    exact .front n v q ht hq
  | pop v =>
    cases h
    exact .pop n v ht
  | unlock v =>
    cases h
    exact .popUnlock n v ht
  | returning v =>
    cases h
    exact .popRet n v ht

theorem threadStep_cases {waiter t : τ} {s s' : State τ α} {a : QueueAction τ α}
    (h : threadStep waiter t s = some (a, s')) : ThreadCase t s a s' := by
  unfold threadStep at h
  cases ht : s.thread t with
  | pusher todo pc =>
    rw [ht] at h
    exact pusherStep_cases ht h
  | popper n pc =>
    rw [ht] at h
    exact popperStep_cases ht h

end Step

end CoarseGrained

end Mpmc

end LowLatency
