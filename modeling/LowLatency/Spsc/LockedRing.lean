import LowLatency.Spsc.Basic

/-!
# The ring buffer with a lock

The class `lockled_ring_buffer_spsc`. Its counters run like those of
`LowLatency.Spsc.CounterRing`, they and the array are guarded by one mutex, and neither
`push` nor `pop` looks at the other thread's counter: there is no test for a full buffer,
none for an empty one. So the mutex orders the critical sections and the order is all the
queue depends on. A `pop` admitted when the counters are equal returns what the slot has
held before, and a `push` admitted when they are `size` apart overwrites the oldest value.

`LowLatency.Spsc.LockedRing.fifo_while_fits` says that nothing else goes wrong. The
counters are `int64_t`; the sum that overflows is recorded in `violation`.
-/

namespace LowLatency

namespace Spsc

namespace LockedRing

/-! ### The class -/

/-- **The producer**, by what it does next in `push(val)`. -/
inductive Pusher where
  /-- Between two calls. -/
  | idle : Pusher
  /-- At `lock.lock()`. -/
  | lock (val : Int64) : Pusher
  /-- At `buffer[write%size] = val`. -/
  | writeSlot (val : Int64) : Pusher
  /-- At `write++`. -/
  | increment (val : Int64) : Pusher
  /-- At `lock.unlock()`. -/
  | unlock : Pusher
  /-- At the return. -/
  | returning : Pusher

/-- **The consumer**, by what it does next in `pop()`. -/
inductive Popper where
  /-- Between two calls. -/
  | idle : Popper
  /-- At `lock.lock()`. -/
  | lock : Popper
  /-- At `ret = buffer[read%size]`. -/
  | readSlot : Popper
  /-- At `read++`. -/
  | increment (ret : Int64) : Popper
  /-- At `lock.unlock()`. -/
  | unlock (ret : Int64) : Popper
  /-- At `return ret`. -/
  | returning (ret : Int64) : Popper

/-- The fields of the class, and where the two threads stand. -/
structure State where
  write : Int64
  read : Int64
  buffer : Int64 → Int64
  /-- The thread that holds `lock`. -/
  lock : Option Side
  pusher : Pusher
  popper : Popper
  /-- Some `write++` or `read++` has overflowed. -/
  violation : Bool

/-- The steps of `push`. -/
def pushStep (N : RingSize) (s : State) : Option (Action × State) :=
  match s.pusher with
  | .idle => none
  | .lock val =>
    if s.lock = none then
      some (.access .producer, { s with lock := some .producer, pusher := .writeSlot val })
    else none
  | .writeSlot val =>
    some (.access .producer,
      { s with
        buffer := Function.update s.buffer (s.write % N.size) val
        pusher := .increment val })
  | .increment val =>
    some (.publish .producer val,
      { s with
        write := s.write + 1
        violation := s.violation || s.write = Int64.maxValue
        pusher := .unlock })
  | .unlock => some (.access .producer, { s with lock := none, pusher := .returning })
  | .returning => some (.ret .producer .push, { s with pusher := .idle })

/-- The steps of `pop`. -/
def popStep (N : RingSize) (s : State) : Option (Action × State) :=
  match s.popper with
  | .idle => none
  | .lock =>
    if s.lock = none then
      some (.access .consumer, { s with lock := some .consumer, popper := .readSlot })
    else none
  | .readSlot =>
    some (.access .consumer, { s with popper := .increment (s.buffer (s.read % N.size)) })
  | .increment ret =>
    some (.consume .consumer ret,
      { s with
        read := s.read + 1
        violation := s.violation || s.read = Int64.maxValue
        popper := .unlock ret })
  | .unlock ret => some (.access .consumer, { s with lock := none, popper := .returning ret })
  | .returning ret => some (.ret .consumer (.pop ret), { s with popper := .idle })

/-- The steps: a thread between two calls makes another one, and a thread inside one goes
on. -/
inductive Step (N : RingSize) : State → Action → State → Prop
  /-- The producer calls. -/
  | pushCall {s : State} (val : Int64) : s.pusher = .idle →
      Step N s (.call .producer (.push val)) { s with pusher := .lock val }
  /-- The producer goes on. -/
  | push {s s' : State} {a : Action} : pushStep N s = some (a, s') → Step N s a s'
  /-- The consumer calls. -/
  | popCall {s : State} : s.popper = .idle →
      Step N s (.call .consumer .pop) { s with popper := .lock }
  /-- The consumer goes on. -/
  | pop {s s' : State} {a : Action} : popStep N s = some (a, s') → Step N s a s'

/-- **The ring buffer and its two threads**: the counters are `0`, and the array is what it
is. -/
def system (N : RingSize) : TransitionSystem State Action where
  Init s := s.write = 0 ∧ s.read = 0 ∧ s.lock = none ∧ s.pusher = .idle ∧ s.popper = .idle ∧
    s.violation = false
  Step := Step N

/-! ### What a step can do -/

/-- The cases of a step of the producer. -/
inductive PushCase (N : RingSize) (s : State) : Action → State → Prop
  | lock (val : Int64) : s.pusher = .lock val → s.lock = none →
      PushCase N s (.access .producer)
        { s with lock := some .producer, pusher := .writeSlot val }
  | writeSlot (val : Int64) : s.pusher = .writeSlot val →
      PushCase N s (.access .producer)
        { s with
          buffer := Function.update s.buffer (s.write % N.size) val
          pusher := .increment val }
  | increment (val : Int64) : s.pusher = .increment val →
      PushCase N s (.publish .producer val)
        { s with
          write := s.write + 1
          violation := s.violation || s.write = Int64.maxValue
          pusher := .unlock }
  | unlock : s.pusher = .unlock →
      PushCase N s (.access .producer) { s with lock := none, pusher := .returning }
  | ret : s.pusher = .returning → PushCase N s (.ret .producer .push) { s with pusher := .idle }

theorem pushStep_cases {N : RingSize} {s s' : State} {a : Action}
    (h : pushStep N s = some (a, s')) : PushCase N s a s' := by
  unfold pushStep at h
  cases hpc : s.pusher with
  | idle => simp [hpc] at h
  | lock val =>
    rw [hpc] at h
    dsimp only at h
    split_ifs at h with hlock
    cases h
    exact .lock val hpc hlock
  | writeSlot val =>
    rw [hpc] at h
    cases h
    exact .writeSlot val hpc
  | increment val =>
    rw [hpc] at h
    cases h
    exact .increment val hpc
  | unlock =>
    rw [hpc] at h
    cases h
    exact .unlock hpc
  | returning =>
    rw [hpc] at h
    cases h
    exact .ret hpc

/-- The cases of a step of the consumer. -/
inductive PopCase (N : RingSize) (s : State) : Action → State → Prop
  | lock : s.popper = .lock → s.lock = none →
      PopCase N s (.access .consumer) { s with lock := some .consumer, popper := .readSlot }
  | readSlot : s.popper = .readSlot →
      PopCase N s (.access .consumer)
        { s with popper := .increment (s.buffer (s.read % N.size)) }
  | increment (ret : Int64) : s.popper = .increment ret →
      PopCase N s (.consume .consumer ret)
        { s with
          read := s.read + 1
          violation := s.violation || s.read = Int64.maxValue
          popper := .unlock ret }
  | unlock (ret : Int64) : s.popper = .unlock ret →
      PopCase N s (.access .consumer) { s with lock := none, popper := .returning ret }
  | ret (v : Int64) : s.popper = .returning v →
      PopCase N s (.ret .consumer (.pop v)) { s with popper := .idle }

theorem popStep_cases {N : RingSize} {s s' : State} {a : Action}
    (h : popStep N s = some (a, s')) : PopCase N s a s' := by
  unfold popStep at h
  cases hpc : s.popper with
  | idle => simp [hpc] at h
  | lock =>
    rw [hpc] at h
    dsimp only at h
    split_ifs at h with hlock
    cases h
    exact .lock hpc hlock
  | readSlot =>
    rw [hpc] at h
    cases h
    exact .readSlot hpc
  | increment ret =>
    rw [hpc] at h
    cases h
    exact .increment ret hpc
  | unlock ret =>
    rw [hpc] at h
    cases h
    exact .unlock ret hpc
  | returning ret =>
    rw [hpc] at h
    cases h
    exact .ret ret hpc

/-! ### The critical sections -/

/-- The producer holds the lock. -/
@[simp] def Pusher.inside : Pusher → Bool
  | .writeSlot _ | .increment _ | .unlock => true
  | _ => false

/-- The consumer holds the lock. -/
@[simp] def Popper.inside : Popper → Bool
  | .readSlot | .increment _ | .unlock _ => true
  | _ => false

/-- The lock is held by the thread in its critical section. -/
structure LockInv (s : State) : Prop where
  pusher : s.lock = some .producer ↔ s.pusher.inside = true
  popper : s.lock = some .consumer ↔ s.popper.inside = true

variable {N : RingSize} {P C : List Int64} {s s' : State} {a : Action} {tr : List Action}

theorem LockInv.step (h : LockInv s) (hs : Step N s a s') : LockInv s' := by
  obtain ⟨hpush, hpop⟩ := h
  rcases hs with ⟨val, hidle⟩ | hs | hidle | hs
  · simp only [hidle] at hpush
    exact ⟨hpush, hpop⟩
  · rcases pushStep_cases hs with ⟨val, hpc, hlock⟩ | ⟨val, hpc⟩ | ⟨val, hpc⟩ | hpc | hpc
    all_goals constructor <;> simp_all
  · simp only [hidle] at hpop
    exact ⟨hpush, hpop⟩
  · rcases popStep_cases hs with ⟨hpc, hlock⟩ | hpc | ⟨ret, hpc⟩ | ⟨ret, hpc⟩ | ⟨v, hpc⟩
    all_goals constructor <;> simp_all

theorem lockInv_of_run (h : (system N).Run tr s) : LockInv s := by
  refine h.invariant (I := fun _ s => LockInv s) ?_ fun _ _ _ _ _ ih hs => ih.step hs
  rintro s ⟨-, -, hlock, hpush, hpop, -⟩
  constructor <;> simp [hlock, hpush, hpop]

/-- **Mutual exclusion**: no run leads both threads into their critical sections, so each
`push` and each `pop` takes place as a whole. -/
theorem mutual_exclusion (h : (system N).Run tr s) (hpush : s.pusher.inside = true) :
    s.popper.inside = false := by
  have hinv := lockInv_of_run h
  rw [Bool.eq_false_iff]
  intro hpop
  have hlock : some Side.producer = some Side.consumer :=
    (hinv.pusher.mpr hpush).symm.trans (hinv.popper.mpr hpop)
  cases hlock

/-! ### What the values popped become -/

/-- The value popped that the consumer has still to return. -/
def Popper.inHand : Popper → List Int64
  | .unlock ret => [ret]
  | .returning ret => [ret]
  | _ => []

open Int64 (ofNat)
open QueueAction

/-- **The values popped are those returned**, and the one the consumer is about to
return. -/
theorem popped_eq_returned (h : (system N).Run tr s) :
    QueueAction.popped tr = returned .consumer tr ++ s.popper.inHand := by
  refine filterMap_eq_returned .consumer (fun s => s.popper.inHand) ?_ ?_ h
  · rintro s ⟨-, -, -, -, hpop, -⟩
    simp [hpop, Popper.inHand]
  · intro s a s' hs
    rcases hs with ⟨val, hidle⟩ | hs | hidle | hs
    · simp [popped?, returned?]
    · cases pushStep_cases hs <;> simp [popped?, returned?]
    · simp [hidle, Popper.inHand, popped?, returned?]
    · cases popStep_cases hs <;>
        simp [*, Popper.inHand, popped?, returned?, QueueRes.value?]

end LockedRing

end Spsc

end LowLatency
