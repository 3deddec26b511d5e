import LowLatency.Spsc.Basic

/-!
# The ring buffer with wrapped indices

The class `lockless_ring_buffer_spsc` of `concurrency_spsc_ringbuffer_queue`. Its
indices are kept modulo the size of the array, so an empty buffer and a full one
would look alike if all slots could be used; `try_push` therefore refuses when the
*next* index would meet `read`, and one slot always stays free.

Every atomic load, every access to the array and every atomic store is one step
of the thread that makes it, and the steps of the two threads interleave in any
order: the accesses are sequentially consistent. The arithmetic is that of the
code, `int64_t` indices passed to `increment` through an `int`.
-/

namespace LowLatency

namespace Spsc

namespace ModuloRing

/-- The fields of the class, and where the two threads stand. The array is read
and written through an `int64_t` index; nothing here says that the index is within
bounds. -/
structure State where
  /-- `write`. -/
  write : Int64
  /-- `read`. -/
  read : Int64
  /-- `buffer`. -/
  buffer : Int64 → Int64
  /-- Where the producer stands. -/
  producer : Producer
  /-- Where the consumer stands. -/
  consumer : Consumer

/-- `increment`: the argument is an `int`, the remainder is taken by an `int64_t`. -/
def increment (N : RingSize) (n : Int32) : Int64 := (n + 1).toInt64 % N.size

/-- The steps of `try_push`, and of `push` around it. -/
def producerStep (N : RingSize) (s : State) : Option (Action × State) :=
  match s.producer with
  | .idle => none
  | .loadWrite c =>
    some (.access .producer,
      { s with producer := .loadRead c s.write (increment N s.write.toInt32) })
  | .loadRead c currentTail nextTail =>
    if nextTail ≠ s.read then
      some (.access .producer, { s with producer := .writeSlot c currentTail nextTail })
    else
      some (.access .producer, { s with producer := .refused c })
  | .writeSlot c currentTail nextTail =>
    some (.access .producer,
      { s with
        buffer := Function.update s.buffer currentTail c.val
        producer := .storeWrite c nextTail })
  | .storeWrite c nextTail =>
    some (.publish .producer c.val, { s with write := nextTail, producer := .returning c.accepted })
  | .returning res => some (.ret .producer res, { s with producer := .idle })

/-- The steps of `try_pop`, and of `pop` around it. -/
def consumerStep (N : RingSize) (s : State) : Option (Action × State) :=
  match s.consumer with
  | .idle => none
  | .loadRead c => some (.access .consumer, { s with consumer := .loadWrite c s.read })
  | .loadWrite c currentHead =>
    if currentHead = s.write then
      some (.access .consumer, { s with consumer := .refused c })
    else
      some (.access .consumer, { s with consumer := .readSlot c currentHead })
  | .readSlot c currentHead =>
    some (.access .consumer,
      { s with consumer := .storeRead c currentHead (s.buffer currentHead) })
  | .storeRead c currentHead val =>
    some (.consume .consumer val,
      { s with
        read := increment N currentHead.toInt32
        consumer := .returning (c.taken val) })
  | .returning res => some (.ret .consumer res, { s with consumer := .idle })

/-- The steps: a thread between two calls makes any call, and a thread inside one
makes its next access. -/
inductive Step (N : RingSize) : State → Action → State → Prop
  /-- The producer calls. -/
  | pushCall {s : State} (c : PushCall) : s.producer = .idle →
      Step N s (.call .producer c.op) { s with producer := .loadWrite c }
  /-- The producer goes on. -/
  | producer {s s' : State} {a : Action} : producerStep N s = some (a, s') → Step N s a s'
  /-- The consumer calls. -/
  | popCall {s : State} (c : PopCall) : s.consumer = .idle →
      Step N s (.call .consumer c.op) { s with consumer := .loadRead c }
  /-- The consumer goes on. -/
  | consumer {s s' : State} {a : Action} : consumerStep N s = some (a, s') → Step N s a s'

/-- **The ring buffer and its two threads**: the constructor stores `0` in both
indices and leaves the array as it finds it. -/
def system (N : RingSize) : TransitionSystem State Action where
  Init s := s.write = 0 ∧ s.read = 0 ∧ s.producer = .idle ∧ s.consumer = .idle
  Step := Step N

/-! ### What a step can do

The steps once more, as the list of their cases. Everything proved about a step
below goes through these two lists, and the functions above are not unfolded
again. -/

/-- The cases of a step of the producer. -/
inductive ProducerCase (N : RingSize) (s : State) : Action → State → Prop
  /-- `write.load()`, and the computation of the next index. -/
  | loadWrite (c : PushCall) : s.producer = .loadWrite c →
      ProducerCase N s (.access .producer)
        { s with producer := .loadRead c s.write (increment N s.write.toInt32) }
  /-- `read.load()`, when the test succeeds. -/
  | passed (c : PushCall) (ct nt : Int64) : s.producer = .loadRead c ct nt → nt ≠ s.read →
      ProducerCase N s (.access .producer) { s with producer := .writeSlot c ct nt }
  /-- `read.load()`, when the test fails. -/
  | refused (c : PushCall) (ct nt : Int64) : s.producer = .loadRead c ct nt → nt = s.read →
      ProducerCase N s (.access .producer) { s with producer := .refused c }
  /-- The write to the slot. -/
  | writeSlot (c : PushCall) (ct nt : Int64) : s.producer = .writeSlot c ct nt →
      ProducerCase N s (.access .producer)
        { s with buffer := Function.update s.buffer ct c.val, producer := .storeWrite c nt }
  /-- `write.store(next_tail)`. -/
  | storeWrite (c : PushCall) (nt : Int64) : s.producer = .storeWrite c nt →
      ProducerCase N s (.publish .producer c.val)
        { s with write := nt, producer := .returning c.accepted }
  /-- The return. -/
  | ret (res : QueueRes Int64) : s.producer = .returning res →
      ProducerCase N s (.ret .producer res) { s with producer := .idle }

theorem producerStep_cases {N : RingSize} {s s' : State} {a : Action}
    (h : producerStep N s = some (a, s')) : ProducerCase N s a s' := by
  unfold producerStep at h
  cases hpc : s.producer with
  | loadRead c ct nt =>
    rw [hpc] at h
    dsimp only at h
    split_ifs at h with hne
    · cases h
      exact .passed c ct nt hpc hne
    · cases h
      exact .refused c ct nt hpc (not_not.mp hne)
  | idle => simp [hpc] at h
  | loadWrite c =>
    rw [hpc] at h
    cases h
    exact .loadWrite c hpc
  | writeSlot c ct nt =>
    rw [hpc] at h
    cases h
    exact .writeSlot c ct nt hpc
  | storeWrite c nt =>
    rw [hpc] at h
    cases h
    exact .storeWrite c nt hpc
  | returning res =>
    rw [hpc] at h
    cases h
    exact .ret res hpc

/-- The cases of a step of the consumer. -/
inductive ConsumerCase (N : RingSize) (s : State) : Action → State → Prop
  /-- `read.load()`. -/
  | loadRead (c : PopCall) : s.consumer = .loadRead c →
      ConsumerCase N s (.access .consumer) { s with consumer := .loadWrite c s.read }
  /-- `write.load()`, when the test fails. -/
  | refused (c : PopCall) (ch : Int64) : s.consumer = .loadWrite c ch → ch = s.write →
      ConsumerCase N s (.access .consumer) { s with consumer := .refused c }
  /-- `write.load()`, when the test succeeds. -/
  | passed (c : PopCall) (ch : Int64) : s.consumer = .loadWrite c ch → ch ≠ s.write →
      ConsumerCase N s (.access .consumer) { s with consumer := .readSlot c ch }
  /-- The read of the slot. -/
  | readSlot (c : PopCall) (ch : Int64) : s.consumer = .readSlot c ch →
      ConsumerCase N s (.access .consumer)
        { s with consumer := .storeRead c ch (s.buffer ch) }
  /-- `read.store(increment(currentHead))`. -/
  | storeRead (c : PopCall) (ch v : Int64) : s.consumer = .storeRead c ch v →
      ConsumerCase N s (.consume .consumer v)
        { s with read := increment N ch.toInt32, consumer := .returning (c.taken v) }
  /-- The return. -/
  | ret (res : QueueRes Int64) : s.consumer = .returning res →
      ConsumerCase N s (.ret .consumer res) { s with consumer := .idle }

theorem consumerStep_cases {N : RingSize} {s s' : State} {a : Action}
    (h : consumerStep N s = some (a, s')) : ConsumerCase N s a s' := by
  unfold consumerStep at h
  cases hpc : s.consumer with
  | loadWrite c ch =>
    rw [hpc] at h
    dsimp only at h
    split_ifs at h with heq
    · cases h
      exact .refused c ch hpc heq
    · cases h
      exact .passed c ch hpc heq
  | idle => simp [hpc] at h
  | loadRead c =>
    rw [hpc] at h
    cases h
    exact .loadRead c hpc
  | readSlot c ch =>
    rw [hpc] at h
    cases h
    exact .readSlot c ch hpc
  | storeRead c ch v =>
    rw [hpc] at h
    cases h
    exact .storeRead c ch v hpc
  | returning res =>
    rw [hpc] at h
    cases h
    exact .ret res hpc

/-! ### The unread slots -/

/-- The number of slots from `read` to `write`, taken cyclically. -/
def occupancy (N : RingSize) (s : State) : ℕ := ((s.write.toInt - s.read.toInt) % N.n).toNat

/-- The index `k` slots after `read`, taken cyclically. -/
def slotAfterRead (N : RingSize) (s : State) (k : ℕ) : Int64 :=
  Int64.ofInt ((s.read.toInt + k) % N.n)

/-- **The contents of the unread slots**, from `read` to `write`, taken
cyclically. -/
def unread (N : RingSize) (s : State) : List Int64 :=
  (List.range (occupancy N s)).map fun k => s.buffer (slotAfterRead N s k)

end ModuloRing

end Spsc

end LowLatency
