import LowLatency.Foundations.Cyclic
import LowLatency.Foundations.MachineInt
import LowLatency.Foundations.Queue

/-!
# The two threads of a ring buffer

What the three `lockless_ring_buffer_spsc` classes have in common: the size of the
array, the public operations, and where the two threads stand between two accesses
to a field they share. Each class has the same four accesses in `try_push` and in
`try_pop`, in the same order, and the same loops around them in `push` and `pop`;
what differs is the arithmetic on the indices and the memory the accesses go to,
which the following modules supply.

A run is recorded as the list of its actions (`QueueAction`). Of the accesses, the
two stores are recorded with the value they hand over.
-/

namespace LowLatency

namespace Spsc

/-! ### The size of the array -/

/-- `RING_BUFFER_SIZE`: the bound of an array, so not zero, and stored in the
`int64_t` field `size`. -/
structure RingSize where
  /-- The number of slots. -/
  n : ℕ
  /-- An array has at least one slot. -/
  pos : 0 < n
  /-- It fits the field `size`. -/
  lt : n < 2 ^ 63

/-- `int64_t size = RING_BUFFER_SIZE`. -/
def RingSize.size (N : RingSize) : Int64 := Int64.ofNat N.n

@[simp] theorem RingSize.toInt_size (N : RingSize) : N.size.toInt = N.n :=
  Int64.toInt_ofNat_of_lt N.lt

section Slots

open Int64 (ofNat)

variable {N : RingSize}

/-- The slot of the position `k`. -/
theorem ofNat_mod_size {k : ℕ} (hk : k < 2 ^ 63) : ofNat k % N.size = ofNat (k % N.n) := by
  rw [RingSize.size, Int64.ofNat_mod hk N.lt]

/-- Indices of slots are compared as numbers. -/
theorem ofNat_mod_inj {i j : ℕ} : ofNat (i % N.n) = ofNat (j % N.n) ↔ i % N.n = j % N.n :=
  Int64.ofNat_inj_of_lt ((Nat.mod_lt i N.pos).trans N.lt) ((Nat.mod_lt j N.pos).trans N.lt)

/-- Writing to the slot of the position `p` touches the slot of none of the last positions
before it. -/
theorem update_slot_of_lt {buffer : Int64 → Int64} {v : Int64} {c k p : ℕ} (hc : c ≤ k)
    (hk : k < p) (hp : p < c + N.n) :
    Function.update buffer (ofNat (p % N.n)) v (ofNat (k % N.n)) = buffer (ofNat (k % N.n)) := by
  refine Function.update_of_ne (fun heq => ?_) _ _
  exact Nat.mod_ne_mod_of_lt (n := N.n) hk (by omega) (ofNat_mod_inj.mp heq)

end Slots

/-- `#define RING_BUFFER_SIZE 1000`. -/
def ringBufferSize : RingSize where
  n := 1000
  pos := by decide
  lt := by decide

/-! ### The operations -/

/-- The two threads. -/
inductive Side where
  /-- The one thread that pushes. -/
  | producer : Side
  /-- The one thread that pops. -/
  | consumer : Side
  deriving DecidableEq

/-- The calls of the producer. -/
inductive PushCall where
  /-- `try_push(val)`. -/
  | tryPush (val : Int64) : PushCall
  /-- `push(val)`, which runs `try_push(val)` until it succeeds. -/
  | push (val : Int64) : PushCall

namespace PushCall

/-- The value to push. -/
def val : PushCall → Int64
  | .tryPush v => v
  | .push v => v

/-- The operation called. -/
def op : PushCall → QueueOp Int64
  | .tryPush v => .tryPush v
  | .push v => .push v

/-- What the call returns when the value has been stored. -/
def accepted : PushCall → QueueRes Int64
  | .tryPush _ => .tryPush true
  | .push _ => .push

end PushCall

/-- The calls of the consumer. -/
inductive PopCall where
  /-- `try_pop(&val)`. -/
  | tryPop : PopCall
  /-- `pop()`, which runs `try_pop` until it succeeds. -/
  | pop : PopCall

namespace PopCall

/-- The operation called. -/
def op : PopCall → QueueOp Int64
  | .tryPop => .tryPop
  | .pop => .pop

/-- What the call returns with the value it has taken. -/
def taken (v : Int64) : PopCall → QueueRes Int64
  | .tryPop => .tryPop (some v)
  | .pop => .pop v

end PopCall

/-! ### Where a thread stands -/

/-- **The producer**, by the access it makes next, with the locals of `try_push`. -/
inductive Producer where
  /-- Between two calls. -/
  | idle : Producer
  /-- At `write.load()`. -/
  | loadWrite (c : PushCall) : Producer
  /-- At `read.load()`, in the test. -/
  | loadRead (c : PushCall) (currentTail nextTail : Int64) : Producer
  /-- At the write to the slot. -/
  | writeSlot (c : PushCall) (currentTail nextTail : Int64) : Producer
  /-- At `write.store(next_tail)`. -/
  | storeWrite (c : PushCall) (nextTail : Int64) : Producer
  /-- At the return. -/
  | returning (res : QueueRes Int64) : Producer

/-- Where a `try_push` that found the queue full goes: it returns `false`, unless
it was run by `push`, which starts it again. -/
def Producer.refused : PushCall → Producer
  | .tryPush _ => .returning (.tryPush false)
  | .push v => .loadWrite (.push v)

/-- **The consumer**, by the access it makes next, with the locals of `try_pop`. -/
inductive Consumer where
  /-- Between two calls. -/
  | idle : Consumer
  /-- At `read.load()`. -/
  | loadRead (c : PopCall) : Consumer
  /-- At `write.load()`, in the test. -/
  | loadWrite (c : PopCall) (currentHead : Int64) : Consumer
  /-- At the read of the slot. -/
  | readSlot (c : PopCall) (currentHead : Int64) : Consumer
  /-- At `read.store(increment(currentHead))`, with the value read in `*pval`. -/
  | storeRead (c : PopCall) (currentHead val : Int64) : Consumer
  /-- At the return. -/
  | returning (res : QueueRes Int64) : Consumer

/-- Where a `try_pop` that found the queue empty goes: it returns `false`, unless
it was run by `pop`, which starts it again. -/
def Consumer.refused : PopCall → Consumer
  | .tryPop => .returning (.tryPop none)
  | .pop => .loadRead .pop

/-! ### What a client knows of a thread

From outside, a thread is between two calls, in a call that has not taken effect,
or in one whose result is settled. A call takes effect at the store that ends it,
or at the load that made it give up. -/

/-- Where the producer stands, seen from outside. -/
def Producer.status : Producer → Status (QueueOp Int64) (QueueRes Int64)
  | .idle => .idle
  | .loadWrite c => .called c.op
  | .loadRead c _ _ => .called c.op
  | .writeSlot c _ _ => .called c.op
  | .storeWrite c _ => .called c.op
  | .returning res => .done res

/-- Where the consumer stands, seen from outside. -/
def Consumer.status : Consumer → Status (QueueOp Int64) (QueueRes Int64)
  | .idle => .idle
  | .loadRead c => .called c.op
  | .loadWrite c _ => .called c.op
  | .readSlot c _ => .called c.op
  | .storeRead c _ _ => .called c.op
  | .returning res => .done res

/-- Where the two threads stand, seen from outside. -/
def statusOf (p : Producer) (c : Consumer) : Side → Status (QueueOp Int64) (QueueRes Int64)
  | .producer => p.status
  | .consumer => c.status

@[simp] theorem statusOf_producer (p : Producer) (c : Consumer) :
    statusOf p c .producer = p.status := rfl

@[simp] theorem statusOf_consumer (p : Producer) (c : Consumer) :
    statusOf p c .consumer = c.status := rfl

theorem statusOf_eq_of_ne_producer {p p' : Producer} {c : Consumer} (u : Side)
    (hu : u ≠ .producer) : statusOf p' c u = statusOf p c u := by
  cases u with
  | producer => exact absurd rfl hu
  | consumer => rfl

theorem statusOf_eq_of_ne_consumer {p : Producer} {c c' : Consumer} (u : Side)
    (hu : u ≠ .consumer) : statusOf p c' u = statusOf p c u := by
  cases u with
  | producer => rfl
  | consumer => exact absurd rfl hu

/-- An action of one of the two threads. A value is published by the store of
`write` and popped by the store of `read`. -/
abbrev Action := QueueAction Side Int64

/-- The value popped that the consumer has still to return. -/
def Consumer.inHand : Consumer → List Int64
  | .returning res => res.value?.toList
  | _ => []

end Spsc

end LowLatency
