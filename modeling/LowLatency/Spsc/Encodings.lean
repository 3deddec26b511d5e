import LowLatency.Foundations.Machine
import LowLatency.Spsc.CounterInvariant
import LowLatency.Spsc.ModuloInvariant

/-!
# The two encodings of the indices agree

The classes with wrapped indices and with running counters, used by one thread at a time:
every `try_push` and every `try_pop` runs from its call to its return before the next one
begins. The first class gives up a slot to tell a full buffer from an empty one, the second
does not; so an array of `N + 1` slots for the one and of `N` slots for the other should be
the same queue, the bounded queue of capacity `N`
(`LowLatency.Spsc.encodings_agree`).

What the two have in common is how the values lie in the array
(`LowLatency.Spsc.Stored`): the value `k` places from the front is in the slot of the
position `r + k`, where `r` counts the pops. What differs is how `r` is written down,
modulo the size or in full, and this is also what decides whether a simulation holds for
ever or, as in the second class, until `r` and the length no longer fit an `int`.
-/

namespace LowLatency

namespace Spsc

open Int64 (ofNat)

/-! ### The operations -/

/-- The operations that do not wait. -/
inductive TryOp where
  /-- `try_push(val)`. -/
  | tryPush (val : Int64) : TryOp
  /-- `try_pop(&val)`. -/
  | tryPop : TryOp

/-- The operation among those of a queue. -/
def TryOp.op : TryOp → QueueOp Int64
  | .tryPush v => .tryPush v
  | .tryPop => .tryPop

/-- The fields of a ring buffer, between two operations. -/
structure Fields where
  /-- `write`. -/
  write : Int64
  /-- `read`. -/
  read : Int64
  /-- `buffer`. -/
  buffer : Int64 → Int64

/-- The constructor stores `0` in both indices and leaves the array as it finds it. -/
def Fields.new (buffer : Int64 → Int64) : Fields where
  write := 0
  read := 0
  buffer := buffer

/-- An operation and its result, for the `try_push` and the `try_pop` of a class. -/
def TryOp.run (tryPush : Int64 → Fields → Bool × Fields) (tryPop : Fields → Option Int64 × Fields) :
    TryOp → Fields → QueueRes Int64 × Fields
  | .tryPush v, q => (.tryPush (tryPush v q).1, (tryPush v q).2)
  | .tryPop, q => (.tryPop (tryPop q).1, (tryPop q).2)

namespace ModuloRing

/-- `try_push`. -/
def tryPush (N : RingSize) (val : Int64) (q : Fields) : Bool × Fields :=
  let currentTail := q.write
  let nextTail := increment N currentTail.toInt32
  if nextTail ≠ q.read then
    (true, { q with buffer := Function.update q.buffer currentTail val, write := nextTail })
  else (false, q)

/-- `try_pop`. -/
def tryPop (N : RingSize) (q : Fields) : Option Int64 × Fields :=
  let currentHead := q.read
  if currentHead = q.write then (none, q)
  else (some (q.buffer currentHead), { q with read := increment N currentHead.toInt32 })

/-- An operation of the class with wrapped indices. -/
def exec (N : RingSize) : TryOp → Fields → QueueRes Int64 × Fields :=
  TryOp.run (tryPush N) (tryPop N)

variable {N : RingSize} {f : Fields}

/-- A `try_push` that finds room. -/
theorem exec_push (v : Int64) (h : increment N f.write.toInt32 ≠ f.read) :
    exec N (.tryPush v) f = (.tryPush true,
      { f with
        buffer := Function.update f.buffer f.write v
        write := increment N f.write.toInt32 }) := by
  simp only [exec, TryOp.run, tryPush, if_pos h]

/-- A `try_push` that finds the buffer full. -/
theorem exec_push_full (v : Int64) (h : increment N f.write.toInt32 = f.read) :
    exec N (.tryPush v) f = (.tryPush false, f) := by
  simp only [exec, TryOp.run, tryPush, if_neg (not_not.mpr h)]

/-- A `try_pop` that finds a value. -/
theorem exec_pop (h : f.read ≠ f.write) :
    exec N .tryPop f = (.tryPop (some (f.buffer f.read)),
      { f with read := increment N f.read.toInt32 }) := by
  simp only [exec, TryOp.run, tryPop, if_neg h]

/-- A `try_pop` that finds the buffer empty. -/
theorem exec_pop_empty (h : f.read = f.write) : exec N .tryPop f = (.tryPop none, f) := by
  simp only [exec, TryOp.run, tryPop, if_pos h]

end ModuloRing

namespace CounterRing

/-- `try_push`. The next value of `write` is computed before the test, so by a `try_push`
that is refused as well. -/
def tryPush (N : RingSize) (val : Int64) (q : Fields) : Bool × Fields :=
  let currentTail := q.write
  let nextTail := increment currentTail.toInt32
  if currentTail - q.read ≤ N.size - 1 then
    (true,
      { q with
        buffer := Function.update q.buffer (currentTail % N.size) val
        write := nextTail })
  else (false, q)

/-- `try_pop`. -/
def tryPop (N : RingSize) (q : Fields) : Option Int64 × Fields :=
  let currentHead := q.read
  if currentHead = q.write then (none, q)
  else
    (some (q.buffer (currentHead % N.size)), { q with read := increment currentHead.toInt32 })

/-- An operation of the class with running counters. -/
def exec (N : RingSize) : TryOp → Fields → QueueRes Int64 × Fields :=
  TryOp.run (tryPush N) (tryPop N)

variable {N : RingSize} {f : Fields}

/-- A `try_push` that finds room. -/
theorem exec_push (v : Int64) (h : f.write - f.read ≤ N.size - 1) :
    exec N (.tryPush v) f = (.tryPush true,
      { f with
        buffer := Function.update f.buffer (f.write % N.size) v
        write := increment f.write.toInt32 }) := by
  simp only [exec, TryOp.run, tryPush, if_pos h]

/-- A `try_push` that finds the buffer full. -/
theorem exec_push_full (v : Int64) (h : ¬f.write - f.read ≤ N.size - 1) :
    exec N (.tryPush v) f = (.tryPush false, f) := by
  simp only [exec, TryOp.run, tryPush, if_neg h]

/-- A `try_pop` that finds a value. -/
theorem exec_pop (h : f.read ≠ f.write) :
    exec N .tryPop f = (.tryPop (some (f.buffer (f.read % N.size))),
      { f with read := increment f.read.toInt32 }) := by
  simp only [exec, TryOp.run, tryPop, if_neg h]

/-- A `try_pop` that finds the buffer empty. -/
theorem exec_pop_empty (h : f.read = f.write) : exec N .tryPop f = (.tryPop none, f) := by
  simp only [exec, TryOp.run, tryPop, if_pos h]

end CounterRing

/-! ### The bounded queue -/

/-- **An operation of the bounded queue** of capacity `cap`. -/
def boundedFifo (cap : ℕ) : TryOp → List Int64 → QueueRes Int64 × List Int64
  | .tryPush v, q => if q.length < cap then (.tryPush true, q ++ [v]) else (.tryPush false, q)
  | .tryPop, [] => (.tryPop none, [])
  | .tryPop, v :: q => (.tryPop (some v), q)

theorem boundedFifo_push {cap : ℕ} {q : List Int64} (v : Int64) (h : q.length < cap) :
    boundedFifo cap (.tryPush v) q = (.tryPush true, q ++ [v]) :=
  if_pos h

theorem boundedFifo_push_full {cap : ℕ} {q : List Int64} (v : Int64) (h : cap ≤ q.length) :
    boundedFifo cap (.tryPush v) q = (.tryPush false, q) :=
  if_neg (Nat.not_lt.mpr h)

/-- It is the sequential queue the concurrent runs are compared with. -/
theorem boundedFifo_step (cap : ℕ) (op : TryOp) (q : List Int64) :
    (fifo Int64 cap).Step q op.op (boundedFifo cap op q).1 (boundedFifo cap op q).2 := by
  cases op with
  | tryPush v =>
    rw [boundedFifo]
    split_ifs with hroom
    · exact .tryPush v (by exact_mod_cast hroom)
    · exact .tryPushFull v (by exact_mod_cast not_lt.mp hroom)
  | tryPop =>
    cases q with
    | nil => exact .tryPopEmpty
    | cons v q => exact .tryPop v q

/-- A successful push costs one step of a counter. -/
def pushCost : QueueRes Int64 → ℕ
  | .tryPush true => 1
  | _ => 0

/-! ### How the values lie in the array -/

/-- The values `q` are in the slots of the positions from `r` on. -/
def Stored (N : RingSize) (buffer : Int64 → Int64) (r : ℕ) (q : List Int64) : Prop :=
  ∀ k v, q[k]? = some v → buffer (ofNat ((r + k) % N.n)) = v

variable {N : RingSize} {buffer : Int64 → Int64} {r : ℕ} {q : List Int64}

/-- **A value is stored** in a slot no other value is in. -/
theorem Stored.push (h : Stored N buffer r q) (hroom : q.length < N.n) (v : Int64) :
    Stored N (Function.update buffer (ofNat ((r + q.length) % N.n)) v) r (q ++ [v]) := by
  intro k w hk
  rcases Nat.lt_trichotomy k q.length with hlt | rfl | hgt
  · rw [List.getElem?_append_left hlt] at hk
    rw [update_slot_of_lt (Nat.le_add_right r k) (by omega) (by omega)]
    exact h k w hk
  · rw [List.getElem?_concat_length, Option.some_inj] at hk
    rw [Function.update_self, hk]
  · rw [List.getElem?_eq_none (by rw [List.length_append, List.length_singleton]; omega)] at hk
    cases hk

/-- The first value is in the slot of `r`. -/
theorem Stored.head {v : Int64} (h : Stored N buffer r (v :: q)) :
    buffer (ofNat (r % N.n)) = v :=
  h 0 v rfl

/-- The others are in the slots after it. -/
theorem Stored.tail {v : Int64} (h : Stored N buffer r (v :: q)) :
    Stored N buffer (r + 1) q := by
  intro k w hk
  rw [Nat.add_right_comm, Nat.add_assoc]
  exact h (k + 1) w hk

/-! ### What the fields stand for -/

/-- **The fields hold the values `q`**, after `r` pops, if `enc` is how the class writes a
position down and `cap` the number of values it admits. -/
structure Represents (enc : ℕ → Int64) (N : RingSize) (cap r : ℕ) (q : List Int64) (f : Fields) :
    Prop where
  le : q.length ≤ cap
  read : f.read = enc r
  write : f.write = enc (r + q.length)
  stored : Stored N f.buffer r q

variable {enc : ℕ → Int64} {cap : ℕ} {f : Fields} {v : Int64}

/-- The fields after the constructor hold nothing. -/
theorem represents_new (enc : ℕ → Int64) (henc : enc 0 = 0) (buffer : Int64 → Int64) :
    Represents enc N cap 0 [] (.new buffer) := by
  refine ⟨Nat.zero_le _, henc.symm, henc.symm, ?_⟩
  intro k v hk
  cases hk

/-- **What a successful `try_push` leaves.** -/
theorem Represents.push (h : Represents enc N cap r q f) (hcap : cap ≤ N.n)
    (hroom : q.length < cap) (v : Int64) :
    Represents enc N cap r (q ++ [v])
      { f with
        buffer := Function.update f.buffer (ofNat ((r + q.length) % N.n)) v
        write := enc (r + q.length + 1) } := by
  refine ⟨by simpa using hroom, h.read, ?_, h.stored.push (by omega) v⟩
  rw [List.length_append, List.length_singleton, Nat.add_assoc]

/-- **What a successful `try_pop` leaves.** -/
theorem Represents.pop (h : Represents enc N cap r (v :: q) f) :
    Represents enc N cap (r + 1) q { f with read := enc (r + 1) } := by
  refine ⟨Nat.le_of_succ_le h.le, rfl, ?_, h.stored.tail⟩
  rw [h.write, List.length_cons, Nat.add_right_comm, Nat.add_assoc]

/-! ### The wrapped indices -/

namespace ModuloRing

/-- A position modulo the size. -/
def wrapped (N : RingSize) (k : ℕ) : Int64 := ofNat (k % N.n)

/-- **`try_push` is that of the queue** of one value less than there are slots. -/
theorem tryPush_eq (hN : N.n < 2 ^ 31) (h : Represents (wrapped N) N (N.n - 1) r q f) (v : Int64) :
    (exec N (.tryPush v) f).1 = (boundedFifo (N.n - 1) (.tryPush v) q).1 ∧
      Represents (wrapped N) N (N.n - 1) r (boundedFifo (N.n - 1) (.tryPush v) q).2
        (exec N (.tryPush v) f).2 := by
  have hpos := N.pos
  have hle := h.le
  have hnext : increment N f.write.toInt32 = wrapped N (r + q.length + 1) := by
    rw [h.write, wrapped, wrapped, increment_ofNat hN]
  rcases Nat.lt_or_ge q.length (N.n - 1) with hroom | hfull
  · have hne : increment N f.write.toInt32 ≠ f.read := by
      rw [hnext, h.read, wrapped, wrapped, Ne, ofNat_mod_inj]
      exact (Nat.mod_ne_mod_of_lt (by omega) (by omega)).symm
    rw [exec_push v hne, boundedFifo_push v hroom, hnext, h.write]
    exact ⟨rfl, h.push (Nat.sub_le _ _) hroom v⟩
  · have heq : increment N f.write.toInt32 = f.read := by
      rw [hnext, h.read, wrapped, wrapped, ofNat_mod_inj,
        show r + q.length + 1 = r + N.n by omega, Nat.add_mod_right]
    rw [exec_push_full v heq, boundedFifo_push_full v hfull]
    exact ⟨rfl, h⟩

/-- **`try_pop` is that of the queue.** -/
theorem tryPop_eq (hN : N.n < 2 ^ 31) (h : Represents (wrapped N) N (N.n - 1) r q f) :
    (exec N .tryPop f).1 = (boundedFifo (N.n - 1) .tryPop q).1 ∧
      ∃ r', Represents (wrapped N) N (N.n - 1) r' (boundedFifo (N.n - 1) .tryPop q).2
        (exec N .tryPop f).2 := by
  have hpos := N.pos
  have hle := h.le
  cases q with
  | nil =>
    rw [exec_pop_empty (h.read.trans h.write.symm)]
    exact ⟨rfl, r, h⟩
  | cons v q =>
    rw [List.length_cons] at hle
    have hne : f.read ≠ f.write := by
      rw [h.read, h.write, wrapped, wrapped, Ne, ofNat_mod_inj, List.length_cons]
      exact Nat.mod_ne_mod_of_lt (by omega) (by omega)
    have hinc : increment N f.read.toInt32 = wrapped N (r + 1) := by
      rw [h.read, wrapped, wrapped, increment_ofNat hN]
    have hslot : f.buffer f.read = v := by
      rw [h.read, wrapped, h.stored.head]
    rw [exec_pop hne, hinc, hslot]
    exact ⟨rfl, r + 1, h.pop⟩

/-- **With wrapped indices**, the array is a bounded queue for ever. -/
theorem results_eq (hN : N.n < 2 ^ 31) (ops : List TryOp) (buffer : Int64 → Int64) :
    Machine.results (exec N) ops (.new buffer) =
      Machine.results (boundedFifo (N.n - 1)) ops [] := by
  refine Machine.results_eq_of_simulation (fun _ => 0) 1
    (R := fun n f q => n = 0 ∧ ∃ r, Represents (wrapped N) N (N.n - 1) r q f) ?_ (n := 0) ?_ ?_
  · rintro n f q op ⟨rfl, r, h⟩ -
    cases op with
    | tryPush v =>
      obtain ⟨heq, h'⟩ := tryPush_eq hN h v
      exact ⟨heq, rfl, r, h'⟩
    | tryPop =>
      obtain ⟨heq, h'⟩ := tryPop_eq hN h
      exact ⟨heq, rfl, h'⟩
  · refine ⟨rfl, 0, represents_new _ ?_ buffer⟩
    rw [wrapped, Nat.zero_mod]
    rfl
  · simp [Machine.total]

end ModuloRing

/-! ### The running counters -/

namespace CounterRing

/-- **`try_push` is that of the queue** of as many values as there are slots, if `write` can
still be incremented or the push is refused. -/
theorem tryPush_eq (h : Represents ofNat N N.n r q f) (v : Int64)
    (hlt : r + q.length + pushCost (exec N (.tryPush v) f).1 < 2 ^ 31) :
    (exec N (.tryPush v) f).1 = (boundedFifo N.n (.tryPush v) q).1 ∧
      Represents ofNat N N.n r (boundedFifo N.n (.tryPush v) q).2 (exec N (.tryPush v) f).2 := by
  have hle := h.le
  have htest : f.write - f.read ≤ N.size - 1 ↔ q.length < N.n := by
    rw [h.write, h.read, sub_le_iff (by omega) (by omega)]
    omega
  rcases Nat.lt_or_ge q.length N.n with hroom | hfull
  · rw [exec_push v (htest.mpr hroom)] at hlt
    have hlt' : r + q.length + 1 < 2 ^ 31 := hlt
    rw [exec_push v (htest.mpr hroom), boundedFifo_push v hroom, h.write, increment_ofNat hlt',
      ofNat_mod_size (by omega)]
    exact ⟨rfl, h.push le_rfl hroom v⟩
  · rw [exec_push_full v (mt htest.mp (Nat.not_lt.mpr hfull)), boundedFifo_push_full v hfull]
    exact ⟨rfl, h⟩

/-- **`try_pop` is that of the queue.** -/
theorem tryPop_eq (h : Represents ofNat N N.n r q f) (hlt : r + q.length < 2 ^ 31) :
    (exec N .tryPop f).1 = (boundedFifo N.n .tryPop q).1 ∧
      ∃ r', r' + (boundedFifo N.n .tryPop q).2.length = r + q.length ∧
        Represents ofNat N N.n r' (boundedFifo N.n .tryPop q).2 (exec N .tryPop f).2 := by
  cases q with
  | nil =>
    rw [exec_pop_empty (h.read.trans h.write.symm)]
    exact ⟨rfl, r, rfl, h⟩
  | cons v q =>
    rw [List.length_cons] at hlt
    have hne : f.read ≠ f.write := by
      rw [h.read, h.write, Ne, Int64.ofNat_inj_of_lt (by omega) (by rw [List.length_cons]; omega),
        List.length_cons]
      omega
    have hinc : increment f.read.toInt32 = ofNat (r + 1) := by
      rw [h.read, increment_ofNat (by omega)]
    have hslot : f.buffer (f.read % N.size) = v := by
      rw [h.read, ofNat_mod_size (by omega), h.stored.head]
    rw [exec_pop hne, hinc, hslot]
    exact ⟨rfl, r + 1, by rw [List.length_cons]; exact Nat.add_right_comm r 1 _, h.pop⟩

/-- **With running counters**, the array is a bounded queue up to `2 ^ 31 - 1` pushes. -/
theorem results_eq (ops : List TryOp) (buffer : Int64 → Int64)
    (hlt : Machine.total pushCost (Machine.results (exec N) ops (.new buffer)) < 2 ^ 31) :
    Machine.results (exec N) ops (.new buffer) = Machine.results (boundedFifo N.n) ops [] := by
  -- what has been spent is the value of `write`
  refine Machine.results_eq_of_simulation pushCost (2 ^ 31)
    (R := fun n f q => ∃ r, r + q.length = n ∧ Represents ofNat N N.n r q f) ?_ (n := 0) ?_ ?_
  · rintro n f q op ⟨r, rfl, h⟩ hlt
    cases op with
    | tryPush v =>
      obtain ⟨heq, h'⟩ := tryPush_eq h v hlt
      refine ⟨heq, r, ?_, h'⟩
      rw [heq, boundedFifo]
      split_ifs
      · rw [List.length_append, List.length_singleton, ← Nat.add_assoc]
        rfl
      · rfl
    | tryPop =>
      obtain ⟨heq, r', hlen, h'⟩ := tryPop_eq h (by omega)
      exact ⟨heq, r', hlen, h'⟩
  · exact ⟨0, rfl, represents_new _ rfl buffer⟩
  · omega

end CounterRing

/-! ### The result -/

/-- **The two encodings are one queue.** With `N + 1` slots for the wrapped indices and `N`
for the running counters, whatever the arrays hold at first, the two classes give the same
results to every list of operations in which fewer than `2 ^ 31` pushes succeed: those of
the bounded queue of capacity `N`. -/
theorem encodings_agree (N M : RingSize) (hM : M.n = N.n + 1) (hlt : N.n < 2 ^ 31 - 1)
    (ops : List TryOp) (buffer buffer' : Int64 → Int64)
    (hpushes : Machine.total pushCost
      (Machine.results (CounterRing.exec N) ops (.new buffer')) < 2 ^ 31) :
    Machine.results (ModuloRing.exec M) ops (.new buffer) =
        Machine.results (CounterRing.exec N) ops (.new buffer') ∧
      Machine.results (ModuloRing.exec M) ops (.new buffer) =
        Machine.results (boundedFifo N.n) ops [] := by
  have hmodulo := ModuloRing.results_eq (N := M) (by omega) ops buffer
  rw [hM, Nat.add_sub_cancel] at hmodulo
  exact ⟨hmodulo.trans (CounterRing.results_eq ops buffer' hpushes).symm, hmodulo⟩

/-- A queue of one value, filled and emptied twice. -/
def oneValue : List TryOp :=
  [.tryPush 7, .tryPush 8, .tryPop, .tryPush 9, .tryPop, .tryPop]

theorem encodings_agree_one_value :
    Machine.results (ModuloRing.exec ⟨2, by decide, by decide⟩) oneValue (.new fun _ => 0) =
        Machine.results (CounterRing.exec ⟨1, by decide, by decide⟩) oneValue (.new fun _ => 0) ∧
      Machine.results (ModuloRing.exec ⟨2, by decide, by decide⟩) oneValue (.new fun _ => 0) =
        [.tryPush true, .tryPush false, .tryPop (some 7), .tryPush true, .tryPop (some 9),
          .tryPop none] :=
  encodings_agree ⟨1, by decide, by decide⟩ ⟨2, by decide, by decide⟩ rfl (by decide) oneValue _ _
    (by decide)

end Spsc

end LowLatency
