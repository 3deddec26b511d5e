import LowLatency.Foundations.Exceptions
import LowLatency.Foundations.Fairness
import LowLatency.Spsc.Basic

/-!
# The programs around the ring buffers

The three `main` functions that use a `lockless_ring_buffer_spsc` are the same: a `write_thread`
pushes the numbers `0`, `1`, … one after the other, a `read_thread` pops as many values, and both
are joined (`LowLatency.Spsc.main`). Neither thread ever sleeps. A `push` that finds the queue full
tries again, and so does a `pop` that finds it empty, so the program ends only if each thread waits
for something the other one will do.

That it does so is shown here once for all three (`LowLatency.Spsc.SpinRing.main_terminates`). What
the argument needs of a class is its control flow, which is that of the class text
(`LowLatency.Spsc.SpinRing`), and that an attempt is refused for a reason: in the end, pushes by a
full queue only and pops by an empty one only. Values can be published and popped finitely often
only; when this has come to an end, a thread that is still at work could not have been refused, and
an attempt that is not refused publishes or pops.
-/

namespace LowLatency

namespace Spsc

open Int64 (ofNat)
open QueueAction

/-! ### The control flow of the two threads -/

/-- The moves of a producer, whatever its loads return. -/
inductive Producer.Move : Producer → Action → Producer → Prop
  | call (c : PushCall) {op : QueueOp Int64} : op = c.op →
      Move .idle (.call .producer op) (.loadWrite c)
  | loadWrite (c : PushCall) (ct nt : Int64) :
      Move (.loadWrite c) (.access .producer) (.loadRead c ct nt)
  | passed (c : PushCall) (ct nt : Int64) :
      Move (.loadRead c ct nt) (.access .producer) (.writeSlot c ct nt)
  | refused (c : PushCall) (ct nt : Int64) :
      Move (.loadRead c ct nt) (.access .producer) (.refused c)
  | writeSlot (c : PushCall) (ct nt : Int64) :
      Move (.writeSlot c ct nt) (.access .producer) (.storeWrite c nt)
  | storeWrite (c : PushCall) (nt : Int64) :
      Move (.storeWrite c nt) (.publish .producer c.val) (.returning c.accepted)
  | ret (res : QueueRes Int64) : Move (.returning res) (.ret .producer res) .idle

/-- The moves of a consumer, whatever its loads return. -/
inductive Consumer.Move : Consumer → Action → Consumer → Prop
  | call (c : PopCall) {op : QueueOp Int64} : op = c.op →
      Move .idle (.call .consumer op) (.loadRead c)
  | loadRead (c : PopCall) (ch : Int64) :
      Move (.loadRead c) (.access .consumer) (.loadWrite c ch)
  | passed (c : PopCall) (ch : Int64) :
      Move (.loadWrite c ch) (.access .consumer) (.readSlot c ch)
  | refused (c : PopCall) (ch : Int64) :
      Move (.loadWrite c ch) (.access .consumer) (.refused c)
  | readSlot (c : PopCall) (ch v : Int64) :
      Move (.readSlot c ch) (.access .consumer) (.storeRead c ch v)
  | storeRead (c : PopCall) (ch v : Int64) :
      Move (.storeRead c ch v) (.consume .consumer v) (.returning (c.taken v))
  | ret (res : QueueRes Int64) : Move (.returning res) (.ret .consumer res) .idle

/-- The call in which nothing has been published yet. -/
@[simp] def Producer.call? : Producer → Option PushCall
  | .loadWrite c => some c
  | .loadRead c _ _ => some c
  | .writeSlot c _ _ => some c
  | .storeWrite c _ => some c
  | _ => none

/-- The call in which nothing has been popped yet. -/
@[simp] def Consumer.call? : Consumer → Option PopCall
  | .loadRead c => some c
  | .loadWrite c _ => some c
  | .readSlot c _ => some c
  | .storeRead c _ _ => some c
  | _ => none

/-- The move is that of a `try_push` that gives up. -/
def Producer.Refuses (p p' : Producer) : Prop :=
  ∃ c ct nt, p = .loadRead c ct nt ∧ p' = .refused c

/-- The move is that of a `try_pop` that gives up. -/
def Consumer.Refuses (c c' : Consumer) : Prop :=
  ∃ call ch, c = .loadWrite call ch ∧ c' = .refused call

variable {σ : Type*} {M : TransitionSystem σ Action} {producer : σ → Producer}
  {consumer : σ → Consumer} {n cap : ℕ}

/-- **A ring buffer whose threads spin**, as far as the program that uses it can tell: the threads
move as the class says, they never get stuck, and the queue is first-in first-out as long as no more
than `n` values have been published. -/
structure SpinRing (M : TransitionSystem σ Action) (producer : σ → Producer)
    (consumer : σ → Consumer) (n : ℕ) : Prop where
  init : ∀ s, M.Init s → producer s = .idle ∧ consumer s = .idle
  step : ∀ s a s', M.Step s a s' →
    (producer s).Move a (producer s') ∧ consumer s' = consumer s ∨
      (consumer s).Move a (consumer s') ∧ producer s' = producer s
  pushCall : ∀ s v, producer s = .idle → ∃ s', M.Step s (.call .producer (.push v)) s'
  popCall : ∀ s, consumer s = .idle → ∃ s', M.Step s (.call .consumer .pop) s'
  /-- A thread inside a call can go on. -/
  goesOn : ∀ tr s, M.Run tr s → (published tr).length ≤ n →
    producer s ≠ .idle ∨ consumer s ≠ .idle → ∃ a s', (∀ t op, a ≠ .call t op) ∧ M.Step s a s'
  fifo : ∀ tr s, M.Run tr s → (published tr).length ≤ n → popped tr <+: published tr

/-! ### The program -/

/-- The queue, and the variables `i` of the two loops. -/
structure Main (σ : Type*) where
  queue : σ
  /-- The `i` of `write_thread`. -/
  written : ℕ
  /-- The `i` of `read_thread`. -/
  read : ℕ

/-- The steps of `main`: a turn of one of the loops calls, and inside the calls the threads move as
the class says. -/
inductive MainStep (M : TransitionSystem σ Action) (n : ℕ) : Main σ → Action → Main σ → Prop
  /-- `queue.push(i)`. -/
  | push {s : Main σ} {q : σ} : s.written < n →
      M.Step s.queue (.call .producer (.push (ofNat s.written))) q →
      MainStep M n s (.call .producer (.push (ofNat s.written)))
        { s with queue := q, written := s.written + 1 }
  /-- `queue.pop()`. -/
  | pop {s : Main σ} {q : σ} : s.read < n → M.Step s.queue (.call .consumer .pop) q →
      MainStep M n s (.call .consumer .pop) { s with queue := q, read := s.read + 1 }
  | inside {s : Main σ} {a : Action} {q : σ} : (∀ t op, a ≠ .call t op) → M.Step s.queue a q →
      MainStep M n s a { s with queue := q }

/-- **The program**: `write_thread` and `read_thread`, with `n` turns each. -/
def main (M : TransitionSystem σ Action) (n : ℕ) : TransitionSystem (Main σ) Action where
  Init s := M.Init s.queue ∧ s.written = 0 ∧ s.read = 0
  Step := MainStep M n

/-- The thread has not been joined. -/
def Busy (producer : σ → Producer) (consumer : σ → Consumer) (n : ℕ) (t : Side) (s : Main σ) :
    Prop :=
  match t with
  | .producer => s.written < n ∨ producer s.queue ≠ .idle
  | .consumer => s.read < n ∨ consumer s.queue ≠ .idle

/-- **What is expected of a complete run**: both threads have been joined, and the numbers from `0`
on have been handed over in order. -/
structure HandedOver (producer : σ → Producer) (consumer : σ → Consumer) (n : ℕ)
    (tr : List Action) (s : Main σ) : Prop where
  joined : ∀ t, ¬Busy producer consumer n t s
  published : published tr = (List.range n).map ofNat
  returned : returned .consumer tr = (List.range n).map ofNat

/-- **Fairness**: a thread that has not been joined is given its turns. -/
def Fair (producer : σ → Producer) (consumer : σ → Consumer) (n : ℕ) (e : (main M n).Execution) :
    Prop :=
  ∀ t, e.WeaklyFair (Busy producer consumer n t) fun a => a.thread = t

variable {s s' : Main σ} {a : Action} {tr : List Action}

/-- A step of the program is a step of the queue. -/
theorem MainStep.queue (hs : MainStep M n s a s') : M.Step s.queue a s'.queue := by
  rcases hs with ⟨-, hs⟩ | ⟨-, hs⟩ | ⟨-, hs⟩
  · exact hs
  · exact hs
  · exact hs

/-- **A run of the program is a run of the queue.** -/
theorem run_queue (h : (main M n).Run tr s) : M.Run tr s.queue := by
  induction h with
  | start hs => exact .start hs.1
  | snoc _ hs ih => exact ih.snoc hs.queue

/-- **What the loops have done**: the values of `write_thread` have been published, but for that of
the call it is in; `read_thread` has popped as many as it has called for, but for the one it is
waiting for. -/
structure MainInv (producer : σ → Producer) (consumer : σ → Consumer) (n : ℕ) (tr : List Action)
    (s : Main σ) : Prop where
  written_le : s.written ≤ n
  read_le : s.read ≤ n
  push : ∀ c, (producer s.queue).call? = some c → ∃ v, c = .push v
  pop : ∀ c, (consumer s.queue).call? = some c → c = .pop
  published : published tr ++ ((producer s.queue).call?.map PushCall.val).toList =
    (List.range s.written).map ofNat
  popped : (popped tr).length + ((consumer s.queue).call?.toList).length = s.read

/-- What a producer does inside a call of `push`. -/
theorem Producer.Move.inside {p p' : Producer} (h : p.Move a p') (hcall : ∀ t op, a ≠ .call t op)
    (hpush : ∀ c, p.call? = some c → ∃ v, c = .push v) :
    a.published?.toList ++ (p'.call?.map PushCall.val).toList =
        (p.call?.map PushCall.val).toList ∧
      (∀ c, p'.call? = some c → p.call? = some c) ∧ a.popped? = none := by
  cases h with
  | call c hop => exact absurd rfl (hcall _ _)
  | refused c ct nt =>
    obtain ⟨v, rfl⟩ := hpush c rfl
    exact ⟨rfl, fun c hc => hc, rfl⟩
  | loadWrite | passed | writeSlot => exact ⟨rfl, fun c hc => hc, rfl⟩
  | storeWrite | ret => exact ⟨rfl, nofun, rfl⟩

/-- What a consumer does inside a call of `pop`. -/
theorem Consumer.Move.inside {c c' : Consumer} (h : c.Move a c') (hcall : ∀ t op, a ≠ .call t op)
    (hpop : ∀ call, c.call? = some call → call = .pop) :
    a.popped?.toList.length + c'.call?.toList.length = c.call?.toList.length ∧
      (∀ call, c'.call? = some call → c.call? = some call) ∧ a.published? = none := by
  cases h with
  | call c hop => exact absurd rfl (hcall _ _)
  | refused call ch =>
    obtain rfl := hpop call rfl
    exact ⟨rfl, fun c hc => hc, rfl⟩
  | loadRead | passed | readSlot => exact ⟨rfl, fun c hc => hc, rfl⟩
  | storeRead | ret => exact ⟨rfl, nofun, rfl⟩

/-- A move hands on the value that the consumer holds. -/
theorem Consumer.Move.inHand {c c' : Consumer} (h : c.Move a c') :
    c.inHand ++ a.popped?.toList = (a.returned? .consumer).toList ++ c'.inHand := by
  cases h with
  | refused call ch => cases call <;> rfl
  | storeRead call ch v => cases call <;> rfl
  | ret res => simp [Consumer.inHand, popped?, returned?]
  | call | loadRead | passed | readSlot => rfl

/-- A move of the producer neither pops nor returns to the consumer. -/
theorem Producer.Move.inHand {p p' : Producer} (h : p.Move a p') :
    a.popped? = none ∧ a.returned? .consumer = none := by
  cases h <;> exact ⟨rfl, rfl⟩

namespace SpinRing

variable (hring : SpinRing M producer consumer n)
include hring

/-- **The values popped are those returned**, and the one the consumer is about to return. -/
theorem popped_eq_returned {q : σ} (h : M.Run tr q) :
    popped tr = returned .consumer tr ++ (consumer q).inHand := by
  refine filterMap_eq_returned .consumer (fun q => (consumer q).inHand) ?_ ?_ h
  · intro q hq
    rw [(hring.init q hq).2]
    rfl
  · intro q a q' hs
    rcases hring.step q a q' hs with ⟨hmove, hsame⟩ | ⟨hmove, -⟩
    · obtain ⟨hpops, hrets⟩ := hmove.inHand
      rw [hsame, hpops, hrets, Option.toList_none, List.append_nil, List.nil_append]
    · exact hmove.inHand

/-- `queue.push(v)` begins an attempt. -/
theorem step_push {q q' : σ} {v : Int64} (h : M.Step q (.call .producer (.push v)) q') :
    producer q = .idle ∧ producer q' = .loadWrite (.push v) ∧ consumer q' = consumer q := by
  rcases hring.step _ _ _ h with ⟨hmove, hsame⟩ | ⟨hmove, -⟩
  · generalize producer q = p at hmove ⊢
    generalize producer q' = p' at hmove ⊢
    obtain ⟨c, hop⟩ := hmove
    cases c with
    | tryPush w => cases hop
    | push w =>
      cases hop
      exact ⟨rfl, rfl, hsame⟩
  · generalize consumer q = c at hmove
    generalize consumer q' = c' at hmove
    cases hmove

/-- `queue.pop()` begins an attempt. -/
theorem step_pop {q q' : σ} (h : M.Step q (.call .consumer .pop) q') :
    consumer q = .idle ∧ consumer q' = .loadRead .pop ∧ producer q' = producer q := by
  rcases hring.step _ _ _ h with ⟨hmove, -⟩ | ⟨hmove, hsame⟩
  · generalize producer q = p at hmove
    generalize producer q' = p' at hmove
    cases hmove
  · generalize consumer q = c at hmove ⊢
    generalize consumer q' = c' at hmove ⊢
    obtain ⟨c, hop⟩ := hmove
    cases c with
    | tryPop => cases hop
    | pop => exact ⟨rfl, rfl, hsame⟩

/-- **The two loops along a run.** -/
theorem mainInv_of_run (h : (main M n).Run tr s) : MainInv producer consumer n tr s := by
  refine h.invariant (I := MainInv producer consumer n) ?_ ?_
  · rintro s ⟨hs, hwritten, hread⟩
    obtain ⟨hp, hc⟩ := hring.init _ hs
    refine ⟨hwritten.trans_le n.zero_le, hread.trans_le n.zero_le, ?_, ?_, ?_, ?_⟩
    · simp [hp]
    · simp [hc]
    · simp [hp, hwritten]
    · simp [hc, hread]
  · rintro tr s a s' - ih hs
    obtain ⟨hwritten, hread, hpush, hpop, hP, hC⟩ := ih
    rcases hs with ⟨hlt, hs⟩ | ⟨hlt, hs⟩ | ⟨hcall, hs⟩
    · obtain ⟨hp, hp', hc'⟩ := hring.step_push hs
      refine ⟨hlt, hread, ?_, ?_, ?_, ?_⟩
      · simp [hp']
      · simpa only [hc'] using hpop
      · simp only [hp, hp', published_snoc, published?, Producer.call?, Option.map_none,
          Option.toList_none, List.append_nil, Option.map_some, Option.toList_some] at hP ⊢
        rw [hP, List.range_succ, List.map_append]
        rfl
      · simpa only [hc', popped_snoc, popped?, Option.toList_none, List.append_nil] using hC
    · obtain ⟨hc, hc', hp'⟩ := hring.step_pop hs
      refine ⟨hwritten, hlt, ?_, ?_, ?_, ?_⟩
      · simpa only [hp'] using hpush
      · simp [hc']
      · simpa only [hp', published_snoc, published?, Option.toList_none, List.append_nil] using hP
      · simp only [hc, hc', popped_snoc, popped?, Consumer.call?, Option.toList_none,
          List.append_nil, Option.toList_some, List.length_nil, List.length_singleton] at hC ⊢
        omega
    · rcases hring.step _ _ _ hs with ⟨hmove, hc'⟩ | ⟨hmove, hp'⟩
      · obtain ⟨hpub, hcalls, hpops⟩ := hmove.inside hcall hpush
        refine ⟨hwritten, hread, fun c hc => hpush c (hcalls c hc), ?_, ?_, ?_⟩
        · simpa only [hc'] using hpop
        · rw [published_snoc, List.append_assoc, hpub]
          exact hP
        · simpa only [hc', popped_snoc, hpops, Option.toList_none, List.append_nil] using hC
      · obtain ⟨hpops, hcalls, hpub⟩ := hmove.inside hcall hpop
        refine ⟨hwritten, hread, ?_, fun c hc => hpop c (hcalls c hc), ?_, ?_⟩
        · simpa only [hp'] using hpush
        · simpa only [hp', published_snoc, hpub, Option.toList_none, List.append_nil] using hP
        · rw [popped_snoc, List.length_append, Nat.add_assoc, hpops]
          exact hC

/-- No more is published than `write_thread` has turns. -/
theorem length_published_le (h : (main M n).Run tr s) : (published tr).length ≤ n := by
  have hinv := hring.mainInv_of_run h
  have hlength := congrArg List.length hinv.published
  rw [List.length_append, List.length_map, List.length_range] at hlength
  have hle := hinv.written_le
  omega

/-- **A run that cannot go on** has handed over everything. -/
theorem handedOver_of_stuck (h : (main M n).Run tr s)
    (hstuck : ∀ a s', ¬(main M n).Step s a s') : HandedOver producer consumer n tr s := by
  have hinv := hring.mainInv_of_run h
  have hle := hring.length_published_le h
  have hidle : producer s.queue = .idle ∧ consumer s.queue = .idle := by
    by_contra hbusy
    rw [not_and_or] at hbusy
    obtain ⟨a, q, hcall, hs⟩ := hring.goesOn tr s.queue (run_queue h) hle hbusy
    exact hstuck a _ (.inside hcall hs)
  obtain ⟨hp, hc⟩ := hidle
  have hwritten : s.written = n := by
    refine hinv.written_le.antisymm (Nat.le_of_not_lt fun hlt => ?_)
    obtain ⟨q, hs⟩ := hring.pushCall s.queue (ofNat s.written) hp
    exact hstuck _ _ (.push hlt hs)
  have hread : s.read = n := by
    refine hinv.read_le.antisymm (Nat.le_of_not_lt fun hlt => ?_)
    obtain ⟨q, hs⟩ := hring.popCall s.queue hc
    exact hstuck _ _ (.pop hlt hs)
  have hpublished : published tr = (List.range n).map ofNat := by
    simpa [hp, hwritten] using hinv.published
  have hpopped : popped tr = published tr := by
    refine (hring.fifo tr s.queue (run_queue h) hle).eq_of_length ?_
    simpa [hc, hread, hpublished] using hinv.popped
  refine ⟨fun t => ?_, hpublished, ?_⟩
  · cases t with
    | producer => simp [Busy, hp, hwritten]
    | consumer => simp [Busy, hc, hread]
  · have hreturned := hring.popped_eq_returned (run_queue h)
    rw [hc, show Consumer.idle.inHand = [] from rfl, List.append_nil, hpopped,
      hpublished] at hreturned
    exact hreturned.symm

end SpinRing

/-! ### The end of publishing and popping -/

/-- The steps of a call by which it begins, takes effect and returns, that are left of it. -/
@[simp] def Producer.left : Producer → ℕ
  | .idle => 0
  | .returning _ => 1
  | _ => 2

/-- The same for a call of the consumer. -/
@[simp] def Consumer.left : Consumer → ℕ
  | .idle => 0
  | .returning _ => 1
  | _ => 2

theorem Producer.left_refused (c : PushCall) : (Producer.refused c).left ≤ 2 := by
  cases c with
  | tryPush => exact Nat.le_succ 1
  | push => exact le_rfl

theorem Consumer.left_refused (c : PopCall) : (Consumer.refused c).left ≤ 2 := by
  cases c with
  | tryPop => exact Nat.le_succ 1
  | pop => exact le_rfl

/-- The action is an access. -/
def IsAccess (a : Action) : Prop := ∃ t, a = .access t

theorem Producer.Move.left_le {p p' : Producer} (h : p.Move a p') (hcall : ∀ t op, a ≠ .call t op) :
    p'.left ≤ p.left ∧ (¬IsAccess a → p'.left < p.left) := by
  cases h with
  | call c hop => exact absurd rfl (hcall _ _)
  | refused c ct nt => exact ⟨Producer.left_refused c, fun hnot => absurd ⟨_, rfl⟩ hnot⟩
  | loadWrite | passed | writeSlot => exact ⟨le_rfl, fun hnot => absurd ⟨_, rfl⟩ hnot⟩
  | storeWrite | ret => exact ⟨Nat.le_succ _, fun _ => Nat.lt_succ_self _⟩

theorem Consumer.Move.left_le {c c' : Consumer} (h : c.Move a c') (hcall : ∀ t op, a ≠ .call t op) :
    c'.left ≤ c.left ∧ (¬IsAccess a → c'.left < c.left) := by
  cases h with
  | call c hop => exact absurd rfl (hcall _ _)
  | refused call ch => exact ⟨Consumer.left_refused call, fun hnot => absurd ⟨_, rfl⟩ hnot⟩
  | loadRead | passed | readSlot => exact ⟨le_rfl, fun hnot => absurd ⟨_, rfl⟩ hnot⟩
  | storeRead | ret => exact ⟨Nat.le_succ _, fun _ => Nat.lt_succ_self _⟩

/-- The steps that are left of the program, without the accesses. -/
def left (producer : σ → Producer) (consumer : σ → Consumer) (n : ℕ) (s : Main σ) : ℕ :=
  3 * (n - s.written) + 3 * (n - s.read) + (producer s.queue).left + (consumer s.queue).left

namespace SpinRing

variable (hring : SpinRing M producer consumer n)
include hring

/-- **Only accesses do not bring the program nearer to its end.** -/
theorem left_le (hs : (main M n).Step s a s') :
    left producer consumer n s' ≤ left producer consumer n s ∧
      (¬IsAccess a → left producer consumer n s' < left producer consumer n s) := by
  rcases hs with ⟨hlt, hs⟩ | ⟨hlt, hs⟩ | ⟨hcall, hs⟩
  · obtain ⟨hp, hp', hc'⟩ := hring.step_push hs
    simp only [left, hp, hp', hc', Producer.left]
    exact ⟨by omega, fun _ => by omega⟩
  · obtain ⟨hc, hc', hp'⟩ := hring.step_pop hs
    simp only [left, hc, hc', hp', Consumer.left]
    exact ⟨by omega, fun _ => by omega⟩
  · rcases hring.step _ _ _ hs with ⟨hmove, hc'⟩ | ⟨hmove, hp'⟩
    · obtain ⟨hle, hlt⟩ := hmove.left_le hcall
      simp only [left, hc']
      exact ⟨by omega, fun hnot => by have := hlt hnot; omega⟩
    · obtain ⟨hle, hlt⟩ := hmove.left_le hcall
      simp only [left, hp']
      exact ⟨by omega, fun hnot => by have := hlt hnot; omega⟩

/-- **In the end there are accesses only.** -/
theorem exists_quiet (e : (main M n).Execution) : ∃ T, ∀ m, T ≤ m → IsAccess (e.action m) := by
  have hfinite : ¬e.InfinitelyOften fun _ a => ¬IsAccess a :=
    e.not_infinitelyOften (n := 0) (r := left producer consumer n)
      (fun m _ => (hring.left_le (e.step m)).1) fun m _ => (hring.left_le (e.step m)).2
  obtain ⟨T, hT⟩ := e.not_infinitelyOften_iff.mp hfinite
  exact ⟨T, fun m hm => not_not.mp (hT m hm)⟩

end SpinRing

/-! ### Nobody waits for ever -/

/-- The accesses that are left of an attempt to push. -/
@[simp] def Producer.attempt : Producer → ℕ
  | .loadWrite _ => 3
  | .loadRead _ _ _ => 2
  | .writeSlot _ _ _ => 1
  | _ => 0

/-- The accesses that are left of an attempt to pop. -/
@[simp] def Consumer.attempt : Consumer → ℕ
  | .loadRead _ => 3
  | .loadWrite _ _ => 2
  | .readSlot _ _ => 1
  | _ => 0

/-- **An access brings an attempt nearer to its store**, or ends it. -/
theorem Producer.Move.access {p p' : Producer} {t : Side} (h : p.Move (.access t) p') :
    t = .producer ∧ p ≠ .idle ∧ p' ≠ .idle ∧ (p.Refuses p' ∨ p'.attempt < p.attempt) := by
  cases h with
  | refused c ct nt =>
    refine ⟨rfl, nofun, ?_, .inl ⟨c, ct, nt, rfl, rfl⟩⟩
    cases c <;> exact nofun
  | loadWrite | passed | writeSlot => exact ⟨rfl, nofun, nofun, .inr (Nat.lt_succ_self _)⟩

/-- **An access brings an attempt nearer to its store**, or ends it. -/
theorem Consumer.Move.access {c c' : Consumer} {t : Side} (h : c.Move (.access t) c') :
    t = .consumer ∧ c ≠ .idle ∧ c' ≠ .idle ∧ (c.Refuses c' ∨ c'.attempt < c.attempt) := by
  cases h with
  | refused call ch =>
    refine ⟨rfl, nofun, ?_, .inl ⟨call, ch, rfl, rfl⟩⟩
    cases call <;> exact nofun
  | loadRead | passed | readSlot => exact ⟨rfl, nofun, nofun, .inr (Nat.lt_succ_self _)⟩

/-- What an access of either thread changes. -/
inductive AccessCase (producer : σ → Producer) (consumer : σ → Consumer) (q : σ) (t : Side)
    (q' : σ) : Prop
  | producer : t = .producer → producer q ≠ .idle → producer q' ≠ .idle →
      (producer q).Refuses (producer q') ∨ (producer q').attempt < (producer q).attempt →
      consumer q' = consumer q → AccessCase producer consumer q t q'
  | consumer : t = .consumer → consumer q ≠ .idle → consumer q' ≠ .idle →
      (consumer q).Refuses (consumer q') ∨ (consumer q').attempt < (consumer q).attempt →
      producer q' = producer q → AccessCase producer consumer q t q'

/-- **The attempts are refused for a reason**: once the threads do nothing but make accesses, there
is a point from which on a push is refused only if `cap` values are in the queue, and a pop only if
there is none. -/
def RefusedForReason (producer : σ → Producer) (consumer : σ → Consumer) (cap : ℕ)
    (e : (main M n).Execution) : Prop :=
  ∀ T, (∀ m, T ≤ m → IsAccess (e.action m)) → ∃ T', ∀ m, T' ≤ m →
    ((producer (e.state m).queue).Refuses (producer (e.state (m + 1)).queue) →
      (popped (e.trace m)).length + cap ≤ (published (e.trace m)).length) ∧
    ((consumer (e.state m).queue).Refuses (consumer (e.state (m + 1)).queue) →
      (published (e.trace m)).length ≤ (popped (e.trace m)).length)

namespace SpinRing

variable (hring : SpinRing M producer consumer n)
include hring

/-- The loops stay where they are. -/
theorem step_access {t : Side} (hs : (main M n).Step s (.access t) s') :
    s'.written = s.written ∧ s'.read = s.read ∧
      AccessCase producer consumer s.queue t s'.queue := by
  cases hs with
  | inside hcall hs =>
    refine ⟨rfl, rfl, ?_⟩
    rcases hring.step _ _ _ hs with ⟨hmove, hsame⟩ | ⟨hmove, hsame⟩
    · obtain ⟨ht, hp, hp', hattempt⟩ := hmove.access
      exact .producer ht hp hp' hattempt hsame
    · obtain ⟨ht, hc, hc', hattempt⟩ := hmove.access
      exact .consumer ht hc hc' hattempt hsame

variable {e : (main M n).Execution} {T m : ℕ}

theorem access_of_quiet (hquiet : ∀ m, T ≤ m → IsAccess (e.action m)) (hm : T ≤ m) :
    ∃ t, e.action m = .access t ∧
      AccessCase producer consumer (e.state m).queue t (e.state (m + 1)).queue := by
  obtain ⟨t, ht⟩ := hquiet m hm
  have hs := e.step m
  rw [ht] at hs
  exact ⟨t, ht, (hring.step_access hs).2.2⟩

/-- **A thread at work stays at work** while there are accesses only. -/
theorem busy_of_quiet (hquiet : ∀ m, T ≤ m → IsAccess (e.action m)) {t : Side}
    (hbusy : Busy producer consumer n t (e.state T)) :
    ∀ m, T ≤ m → Busy producer consumer n t (e.state m) := by
  refine e.forall_ge hbusy fun m hm hbusy => ?_
  obtain ⟨u, hu⟩ := hquiet m hm
  have hs := e.step m
  rw [hu] at hs
  obtain ⟨hwritten, hread, hcase⟩ := hring.step_access hs
  cases t with
  | producer =>
    rw [Busy, hwritten]
    refine hbusy.imp id fun hp => ?_
    cases hcase with
    | producer _ _ hp' => exact hp'
    | consumer _ _ _ _ hsame => rwa [hsame]
  | consumer =>
    rw [Busy, hread]
    refine hbusy.imp id fun hc => ?_
    cases hcase with
    | producer _ _ _ _ hsame => rwa [hsame]
    | consumer _ _ hc' => exact hc'

omit hring in
/-- Nothing is published and nothing is popped. -/
theorem trace_of_quiet (hquiet : ∀ m, T ≤ m → IsAccess (e.action m)) (hm : T ≤ m) :
    published (e.trace m) = published (e.trace T) ∧ popped (e.trace m) = popped (e.trace T) := by
  induction m, hm using Nat.le_induction with
  | base => exact ⟨rfl, rfl⟩
  | succ m hm ih =>
    obtain ⟨u, hu⟩ := hquiet m hm
    rw [e.trace_succ, hu, published_snoc, popped_snoc]
    simpa [published?, popped?] using ih

/-- **A `write_thread` at work** is refused, so the queue is full, and has not published all. -/
theorem full_of_busy (hquiet : ∀ m, T ≤ m → IsAccess (e.action m))
    (hfair : Fair producer consumer n e) (hreason : RefusedForReason producer consumer cap e)
    (hbusy : Busy producer consumer n .producer (e.state T)) :
    (popped (e.trace T)).length + cap ≤ (published (e.trace T)).length ∧
      (published (e.trace T)).length < n := by
  obtain ⟨T', hT'⟩ := hreason T hquiet
  obtain ⟨m, hm, hrefuses⟩ := (hfair .producer).exists_setback
    (fun s s' => (producer s.queue).Refuses (producer s'.queue))
    (fun s => (producer s.queue).attempt)
    (fun m hm => hring.busy_of_quiet hquiet hbusy m ((le_max_left T T').trans hm))
    fun m hm hnot => by
      obtain ⟨u, hu, hcase⟩ := hring.access_of_quiet hquiet ((le_max_left T T').trans hm)
      rw [hu]
      cases hcase with
      | producer _ _ _ hattempt =>
        have hlt := hattempt.resolve_left hnot
        exact ⟨hlt.le, fun _ => hlt⟩
      | consumer ht _ _ _ hsame =>
        rw [hsame, ht]
        exact ⟨le_rfl, nofun⟩
  obtain ⟨hP, hC⟩ := trace_of_quiet hquiet ((le_max_left T T').trans hm)
  have hfull := (hT' m ((le_max_right T T').trans hm)).1 hrefuses
  rw [hP, hC] at hfull
  refine ⟨hfull, ?_⟩
  -- the value of the attempt has not been published
  have hinv := hring.mainInv_of_run (e.run m)
  obtain ⟨c, ct, nt, hp, -⟩ := hrefuses
  have hlength := congrArg List.length hinv.published
  rw [hP, hp] at hlength
  simp only [Producer.call?, Option.map_some, Option.toList_some, List.length_append,
    List.length_singleton, List.length_map, List.length_range] at hlength
  have hle := hinv.written_le
  omega

/-- **A `read_thread` at work** is refused, so the queue is empty, and has not popped all. -/
theorem empty_of_busy (hquiet : ∀ m, T ≤ m → IsAccess (e.action m))
    (hfair : Fair producer consumer n e) (hreason : RefusedForReason producer consumer cap e)
    (hbusy : Busy producer consumer n .consumer (e.state T)) :
    (published (e.trace T)).length ≤ (popped (e.trace T)).length ∧
      (popped (e.trace T)).length < n := by
  obtain ⟨T', hT'⟩ := hreason T hquiet
  obtain ⟨m, hm, hrefuses⟩ := (hfair .consumer).exists_setback
    (fun s s' => (consumer s.queue).Refuses (consumer s'.queue))
    (fun s => (consumer s.queue).attempt)
    (fun m hm => hring.busy_of_quiet hquiet hbusy m ((le_max_left T T').trans hm))
    fun m hm hnot => by
      obtain ⟨u, hu, hcase⟩ := hring.access_of_quiet hquiet ((le_max_left T T').trans hm)
      rw [hu]
      cases hcase with
      | producer ht _ _ _ hsame =>
        rw [hsame, ht]
        exact ⟨le_rfl, nofun⟩
      | consumer _ _ _ hattempt =>
        have hlt := hattempt.resolve_left hnot
        exact ⟨hlt.le, fun _ => hlt⟩
  obtain ⟨hP, hC⟩ := trace_of_quiet hquiet ((le_max_left T T').trans hm)
  have hempty := (hT' m ((le_max_right T T').trans hm)).2 hrefuses
  rw [hP, hC] at hempty
  refine ⟨hempty, ?_⟩
  have hinv := hring.mainInv_of_run (e.run m)
  obtain ⟨c, ch, hc, -⟩ := hrefuses
  have hpopped := hinv.popped
  rw [hC, hc] at hpopped
  simp only [Consumer.call?, Option.toList_some, List.length_singleton] at hpopped
  have hle := hinv.read_le
  omega

/-- **No fair execution goes on for ever**, if attempts are refused for a reason. -/
theorem not_fair (hcap : 0 < cap) (e : (main M n).Execution)
    (hreason : RefusedForReason producer consumer cap e) : ¬Fair producer consumer n e := by
  intro hfair
  obtain ⟨T, hquiet⟩ := hring.exists_quiet e
  have hfull := hring.full_of_busy hquiet hfair hreason
  have hempty := hring.empty_of_busy hquiet hfair hreason
  have hinv := hring.mainInv_of_run (e.run T)
  have hlength := congrArg List.length hinv.published
  have hpopped := hinv.popped
  rw [List.length_append, List.length_map, List.length_range] at hlength
  by_cases hp : Busy producer consumer n .producer (e.state T)
  · obtain ⟨hle, hlt⟩ := hfull hp
    by_cases hc : Busy producer consumer n .consumer (e.state T)
    · -- the queue cannot be full and empty
      obtain ⟨hle', -⟩ := hempty hc
      omega
    · -- `read_thread` has popped more than has been published
      simp only [Busy, not_or, not_lt, not_not] at hc
      rw [hc.2] at hpopped
      simp only [Consumer.call?, Option.toList_none, List.length_nil] at hpopped
      omega
  · simp only [Busy, not_or, not_lt, not_not] at hp
    rw [hp.2] at hlength
    simp only [Producer.call?, Option.map_none, Option.toList_none, List.length_nil] at hlength
    by_cases hc : Busy producer consumer n .consumer (e.state T)
    · -- `write_thread` has published all, and `read_thread` has popped all of it
      obtain ⟨hle, hlt⟩ := hempty hc
      omega
    · -- nobody is there to make the next step
      simp only [Busy, not_or, not_lt, not_not] at hc
      obtain ⟨u, -, hcase⟩ := hring.access_of_quiet hquiet le_rfl
      cases hcase with
      | producer _ hbusy => exact hbusy hp.2
      | consumer _ hbusy => exact hbusy hc.2

/-- **The program ends**, and the values have been handed over in order, if the attempts are refused
for a reason. -/
theorem main_terminates (hcap : 0 < cap) :
    (main M n).Terminates
      (fun e => Fair producer consumer n e ∧ RefusedForReason producer consumer cap e)
      (HandedOver producer consumer n) where
  not_fair e h := hring.not_fair hcap e h.2 h.1
  done _ _ h hstuck := hring.handedOver_of_stuck h hstuck

end SpinRing

end Spsc

end LowLatency
