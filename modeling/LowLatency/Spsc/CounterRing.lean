import LowLatency.Foundations.ReleaseAcquire
import LowLatency.Spsc.Basic

/-!
# The ring buffers with running counters

The two classes `lockless_ring_buffer_spsc` of
`lockless_spsc_sequantial_vs_acquirerelease`. Their counters are never reduced:
`write` is meant to be the number of pushes, `read` the number of pops, a push is
refused when the difference exceeds `size - 1`, and an index is reduced modulo
`size` only where it is used. No slot is given up.

The two classes differ in the memory order of their accesses alone, so they are one
system with the order as a parameter (`LowLatency.Spsc.CounterRing.acquireRelease`,
`LowLatency.Spsc.CounterRing.sequential`): the memory is a history of messages with
views, and a load of the *other* thread's counter may lag behind in the first and
not in the second. A load of the thread's own counter sees its last store in both.
The array holds plain locations, read through the view of the reader. In the
sequential class `buffer.get()[i]`, which no array has, is read as `buffer[i]`.

The counters are `int64_t`, but `increment` takes an `int`. Its argument is
narrowed and its sum may overflow; the compiled code then goes on with a wrapped
value, and so does the model, which records in `violation` that it has happened.
-/

namespace LowLatency

namespace Spsc

namespace CounterRing

open ReleaseAcquire

/-- The shared fields with their histories, what each thread has observed, and where
the two threads stand. -/
structure State where
  /-- The values `write` has held. -/
  writeLog : List (Message Int64 Int64)
  /-- The values `read` has held. -/
  readLog : List (Message Int64 Int64)
  /-- The values each slot of `buffer` has held. -/
  slots : Int64 → List Int64
  producer : Producer
  consumer : Consumer
  /-- The position in `readLog` of the value the producer last observed. -/
  producerSeen : ℕ
  /-- The position in `writeLog` of the value the consumer last observed. -/
  consumerSeen : ℕ
  producerView : View Int64
  consumerView : View Int64
  /-- Some call of `increment` has overflowed or changed its argument. -/
  violation : Bool

/-- `increment`. -/
def increment (n : Int32) : Int64 := (n + 1).toInt64

/-- A call `increment(n)` goes wrong if narrowing `n` to an `int` changes it, or if
the `int` is the largest one. -/
def incrementViolates (n : Int64) : Bool :=
  n.toInt32.toInt64 ≠ n || n.toInt32 = Int32.maxValue

/-- The steps of `try_push`, and of `push` around it; a load of `read` returns the
message at position `k`. -/
def producerStep (o : Order) (N : RingSize) (k : ℕ) (s : State) : Option (Action × State) :=
  match s.producer with
  | .idle => none
  | .loadWrite c =>
    let currentTail := latest s.writeLog
    some (.access .producer,
      { s with
        producer := .loadRead c currentTail (increment currentTail.toInt32)
        violation := s.violation || incrementViolates currentTail })
  | .loadRead c currentTail nextTail =>
    if Readable o s.readLog s.producerSeen k then
      (s.readLog[k]?).map fun m =>
        (.access .producer,
          { s with
            producerSeen := k
            producerView := s.producerView ⊔ m.view
            producer :=
              if currentTail - m.value ≤ N.size - 1 then .writeSlot c currentTail nextTail
              else .refused c })
    else none
  | .writeSlot c currentTail nextTail =>
    let i := currentTail % N.size
    some (.access .producer,
      { s with
        slots := Function.update s.slots i (s.slots i ++ [c.val])
        producerView := Function.update s.producerView i (s.slots i).length
        producer := .storeWrite c nextTail })
  | .storeWrite c nextTail =>
    some (.publish .producer c.val,
      { s with
        writeLog := s.writeLog ++ [⟨nextTail, s.producerView⟩]
        producer := .returning c.accepted })
  | .returning res => some (.ret .producer res, { s with producer := .idle })

/-- The steps of `try_pop`, and of `pop` around it; a load of `write` returns the
message at position `k`, and the read of a slot the value at position `k`. -/
def consumerStep (o : Order) (N : RingSize) (k : ℕ) (s : State) : Option (Action × State) :=
  match s.consumer with
  | .idle => none
  | .loadRead c =>
    some (.access .consumer, { s with consumer := .loadWrite c (latest s.readLog) })
  | .loadWrite c currentHead =>
    if Readable o s.writeLog s.consumerSeen k then
      (s.writeLog[k]?).map fun m =>
        (.access .consumer,
          { s with
            consumerSeen := k
            consumerView := s.consumerView ⊔ m.view
            consumer := if currentHead = m.value then .refused c else .readSlot c currentHead })
    else none
  | .readSlot c currentHead =>
    let i := currentHead % N.size
    if s.consumerView i ≤ k then
      ((s.slots i)[k]?).map fun v =>
        (.access .consumer, { s with consumer := .storeRead c currentHead v })
    else none
  | .storeRead c currentHead val =>
    some (.consume .consumer val,
      { s with
        readLog := s.readLog ++ [⟨increment currentHead.toInt32, s.consumerView⟩]
        violation := s.violation || incrementViolates currentHead
        consumer := .returning (c.taken val) })
  | .returning res => some (.ret .consumer res, { s with consumer := .idle })

/-- The steps: a thread between two calls makes any call, and a thread inside one
makes its next access, with any message its load may return. -/
inductive Step (o : Order) (N : RingSize) : State → Action → State → Prop
  | pushCall {s : State} (c : PushCall) : s.producer = .idle →
      Step o N s (.call .producer c.op) { s with producer := .loadWrite c }
  | producer {s s' : State} {a : Action} (k : ℕ) : producerStep o N k s = some (a, s') →
      Step o N s a s'
  | popCall {s : State} (c : PopCall) : s.consumer = .idle →
      Step o N s (.call .consumer c.op) { s with consumer := .loadRead c }
  | consumer {s s' : State} {a : Action} (k : ℕ) : consumerStep o N k s = some (a, s') →
      Step o N s a s'

/-- **The ring buffer and its two threads**: the constructor stores `0` in both
counters and leaves the array as it finds it. -/
def system (o : Order) (N : RingSize) : TransitionSystem State Action where
  Init s := s.writeLog = [⟨0, fun _ => 0⟩] ∧ s.readLog = [⟨0, fun _ => 0⟩] ∧
    (∀ i, (s.slots i).length = 1) ∧ s.producer = .idle ∧ s.consumer = .idle ∧
    s.producerSeen = 0 ∧ s.consumerSeen = 0 ∧ s.producerView = (fun _ => 0) ∧
    s.consumerView = (fun _ => 0) ∧ s.violation = false
  Step := Step o N

/-- The class of `lockless_ring_buffer_spsc_acquire_release`. -/
abbrev acquireRelease (N : RingSize) : TransitionSystem State Action := system .acquire N

/-- The class of `lockless_ring_buffer_spsc_sequential`. -/
abbrev sequential (N : RingSize) : TransitionSystem State Action := system .seqCst N

/-! ### What a step can do -/

/-- The cases of a step of the producer. -/
inductive ProducerCase (o : Order) (N : RingSize) (s : State) : Action → State → Prop
  | loadWrite (c : PushCall) : s.producer = .loadWrite c →
      ProducerCase o N s (.access .producer)
        { s with
          producer := .loadRead c (latest s.writeLog) (increment (latest s.writeLog).toInt32)
          violation := s.violation || incrementViolates (latest s.writeLog) }
  | loadRead (c : PushCall) (ct nt : Int64) (k : ℕ) (m : Message Int64 Int64) :
      s.producer = .loadRead c ct nt → Readable o s.readLog s.producerSeen k →
      s.readLog[k]? = some m →
      ProducerCase o N s (.access .producer)
        { s with
          producerSeen := k
          producerView := s.producerView ⊔ m.view
          producer := if ct - m.value ≤ N.size - 1 then .writeSlot c ct nt else .refused c }
  | writeSlot (c : PushCall) (ct nt : Int64) : s.producer = .writeSlot c ct nt →
      ProducerCase o N s (.access .producer)
        { s with
          slots := Function.update s.slots (ct % N.size) (s.slots (ct % N.size) ++ [c.val])
          producerView :=
            Function.update s.producerView (ct % N.size) (s.slots (ct % N.size)).length
          producer := .storeWrite c nt }
  | storeWrite (c : PushCall) (nt : Int64) : s.producer = .storeWrite c nt →
      ProducerCase o N s (.publish .producer c.val)
        { s with
          writeLog := s.writeLog ++ [⟨nt, s.producerView⟩]
          producer := .returning c.accepted }
  | ret (res : QueueRes Int64) : s.producer = .returning res →
      ProducerCase o N s (.ret .producer res) { s with producer := .idle }

theorem producerStep_cases {o : Order} {N : RingSize} {k : ℕ} {s s' : State} {a : Action}
    (h : producerStep o N k s = some (a, s')) : ProducerCase o N s a s' := by
  unfold producerStep at h
  cases hpc : s.producer with
  | idle => simp [hpc] at h
  | loadWrite c =>
    rw [hpc] at h
    cases h
    exact .loadWrite c hpc
  | loadRead c ct nt =>
    rw [hpc] at h
    dsimp only at h
    split_ifs at h with hk
    obtain ⟨m, hm, heq⟩ := Option.map_eq_some_iff.mp h
    cases heq
    exact .loadRead c ct nt k m hpc hk hm
  | writeSlot c ct nt =>
    rw [hpc] at h
    cases h
    exact .writeSlot c ct nt hpc
  | storeWrite c nt =>
    rw [hpc] at h
    cases h
    exact .storeWrite c nt hpc
  | returning res =>
    rw [hpc] at h
    cases h
    exact .ret res hpc

/-- The cases of a step of the consumer. -/
inductive ConsumerCase (o : Order) (N : RingSize) (s : State) : Action → State → Prop
  | loadRead (c : PopCall) : s.consumer = .loadRead c →
      ConsumerCase o N s (.access .consumer)
        { s with consumer := .loadWrite c (latest s.readLog) }
  | loadWrite (c : PopCall) (ch : Int64) (k : ℕ) (m : Message Int64 Int64) :
      s.consumer = .loadWrite c ch → Readable o s.writeLog s.consumerSeen k →
      s.writeLog[k]? = some m →
      ConsumerCase o N s (.access .consumer)
        { s with
          consumerSeen := k
          consumerView := s.consumerView ⊔ m.view
          consumer := if ch = m.value then .refused c else .readSlot c ch }
  | readSlot (c : PopCall) (ch : Int64) (k : ℕ) (v : Int64) : s.consumer = .readSlot c ch →
      s.consumerView (ch % N.size) ≤ k → (s.slots (ch % N.size))[k]? = some v →
      ConsumerCase o N s (.access .consumer) { s with consumer := .storeRead c ch v }
  | storeRead (c : PopCall) (ch v : Int64) : s.consumer = .storeRead c ch v →
      ConsumerCase o N s (.consume .consumer v)
        { s with
          readLog := s.readLog ++ [⟨increment ch.toInt32, s.consumerView⟩]
          violation := s.violation || incrementViolates ch
          consumer := .returning (c.taken v) }
  | ret (res : QueueRes Int64) : s.consumer = .returning res →
      ConsumerCase o N s (.ret .consumer res) { s with consumer := .idle }

theorem consumerStep_cases {o : Order} {N : RingSize} {k : ℕ} {s s' : State} {a : Action}
    (h : consumerStep o N k s = some (a, s')) : ConsumerCase o N s a s' := by
  unfold consumerStep at h
  cases hpc : s.consumer with
  | idle => simp [hpc] at h
  | loadRead c =>
    rw [hpc] at h
    cases h
    exact .loadRead c hpc
  | loadWrite c ch =>
    rw [hpc] at h
    dsimp only at h
    split_ifs at h with hk
    obtain ⟨m, hm, heq⟩ := Option.map_eq_some_iff.mp h
    cases heq
    exact .loadWrite c ch k m hpc hk hm
  | readSlot c ch =>
    rw [hpc] at h
    dsimp only at h
    split_ifs at h with hk
    obtain ⟨v, hv, heq⟩ := Option.map_eq_some_iff.mp h
    cases heq
    exact .readSlot c ch k v hpc hk hv
  | storeRead c ch v =>
    rw [hpc] at h
    cases h
    exact .storeRead c ch v hpc
  | returning res =>
    rw [hpc] at h
    cases h
    exact .ret res hpc

end CounterRing

end Spsc

end LowLatency
