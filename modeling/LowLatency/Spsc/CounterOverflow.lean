import LowLatency.Spsc.CounterRuns

/-!
# The width of `increment`

The counters of the two classes with running counters are 64 bits wide, but they are
advanced by `increment(int n)`. What the programs count on in every state is
`LowLatency.Spsc.CounterRing.CountersOk`: the counters have counted, nothing has
overflowed, the indices are inside the array and a push is accepted only with room.
It holds up to the `try_push` that loads `2 ^ 31 - 1` from `write`, and of no state
after it (`LowLatency.Spsc.CounterRing.counters_ok_below_int_max`).
-/

namespace LowLatency

namespace Spsc

namespace CounterRing

open Int64 (ofNat)
open ReleaseAcquire QueueAction

variable {o : Order} {N : RingSize} {s s' : State} {a : Action} {tr : List Action}

/-! ### What is expected of the counters -/

/-- The producer has passed the test of `try_push` and goes on to return `true`. -/
def Accepted : Producer → Prop
  | .writeSlot _ _ _ => True
  | .storeWrite _ _ => True
  | _ => False

/-- **What is expected of the counters** in the state `s` reached with the trace
`tr`. -/
structure CountersOk (N : RingSize) (tr : List Action) (s : State) : Prop where
  /-- No call of `increment` has overflowed or changed its argument. -/
  no_violation : s.violation = false
  sub_nonneg : 0 ≤ (latest s.writeLog).toInt - (latest s.readLog).toInt
  sub_le : (latest s.writeLog).toInt - (latest s.readLog).toInt ≤ N.n
  write_eq : (latest s.writeLog).toInt = (published tr).length
  read_eq : (latest s.readLog).toInt = (QueueAction.popped tr).length
  /-- The index of `try_push` is inside the array. -/
  push_index : ∀ c ct nt, s.producer = .writeSlot c ct nt →
    0 ≤ (ct % N.size).toInt ∧ (ct % N.size).toInt < N.n
  /-- The index of `try_pop` is inside the array. -/
  pop_index : ∀ c ch, s.consumer = .readSlot c ch →
    0 ≤ (ch % N.size).toInt ∧ (ch % N.size).toInt < N.n
  /-- A push is accepted only if fewer than `size` values are unread. -/
  accepted_room : Accepted s.producer → (published tr).length < (QueueAction.popped tr).length + N.n

/-- **The condition on a step**: it is not the load of `write` by a `try_push` that
finds the largest `int` there. -/
def BelowIntMax (s : State) (a : Action) : Prop :=
  ∀ c, s.producer = .loadWrite c → a = .access .producer →
    latest s.writeLog ≠ Int32.maxValue.toInt64

/-! ### When `increment` is right -/

theorem toInt32_ofNat_ne_maxValue {k : ℕ} (h : k + 1 < 2 ^ 31) :
    (ofNat k).toInt32 ≠ Int32.maxValue := by
  intro hc
  have hk := Int64.toInt_toInt32_ofNat (k := k) (by omega)
  rw [hc, show Int32.maxValue.toInt = 2 ^ 31 - 1 by decide] at hk
  omega

theorem incrementViolates_ofNat {k : ℕ} (h : k + 1 < 2 ^ 31) :
    incrementViolates (ofNat k) = false := by
  have hk : (ofNat k).toInt32.toInt64 = ofNat k := by
    rw [← Int64.toInt_inj, Int32.toInt_toInt64, Int64.toInt_toInt32_ofNat (by omega),
      Int64.toInt_ofNat_of_lt (by omega)]
  rw [incrementViolates, decide_eq_false (not_not.mpr hk),
    decide_eq_false (toInt32_ofNat_ne_maxValue h), Bool.or_false]

theorem incrementViolates_maxValue : incrementViolates Int32.maxValue.toInt64 = true := by
  decide

/-- The largest `int`, as a counter holds it. -/
theorem ofNat_maxValue : ofNat (2 ^ 31 - 1) = Int32.maxValue.toInt64 := by
  decide

/-! ### The counters stay below the bound -/

/-- The producer has incremented a counter and not stored it yet. -/
def Incremented : Producer → Prop
  | .loadRead _ _ _ => True
  | .writeSlot _ _ _ => True
  | .storeWrite _ _ => True
  | _ => False

/-- **Below the bound**: the pushes have not reached `2 ^ 31`, nor will they with
the one under way, and `increment` has not gone wrong. -/
structure Below (tr : List Action) (s : State) : Prop where
  published_lt : (published tr).length < 2 ^ 31
  under_way : Incremented s.producer → (published tr).length + 1 < 2 ^ 31
  no_violation : s.violation = false

theorem Below.producerStep {k : ℕ} (h : Below tr s)
    (hinv : Inv N (published tr) (QueueAction.popped tr) s)
    (hs : producerStep o N k s = some (a, s')) (hc : BelowIntMax s a) :
    Below (tr ++ [a]) s' := by
  have hlt := h.published_lt
  cases producerStep_cases hs with
  | loadWrite c hpc =>
    -- the only step that needs the condition: the counter loaded is not the largest `int`
    have hne : (published tr).length ≠ 2 ^ 31 - 1 := by
      intro heq
      refine hc c hpc rfl ?_
      rw [hinv.latest_write, heq, ofNat_maxValue]
    have hsucc : (published tr).length + 1 < 2 ^ 31 := by omega
    refine ⟨by simpa [QueueAction.published?] using hlt, fun _ => ?_, ?_⟩
    · simpa [QueueAction.published?] using hsucc
    · show (s.violation || _) = false
      rw [h.no_violation, hinv.latest_write, incrementViolates_ofNat hsucc, Bool.or_false]
  | loadRead c ct nt k m hpc hk hm =>
    have hsucc := h.under_way (by rw [hpc]; trivial)
    exact ⟨by simpa [QueueAction.published?] using hlt,
      fun _ => by simpa [QueueAction.published?] using hsucc, h.no_violation⟩
  | writeSlot c ct nt hpc =>
    have hsucc := h.under_way (by rw [hpc]; trivial)
    exact ⟨by simpa [QueueAction.published?] using hlt,
      fun _ => by simpa [QueueAction.published?] using hsucc, h.no_violation⟩
  | storeWrite c nt hpc =>
    have hsucc := h.under_way (by rw [hpc]; trivial)
    exact ⟨by simpa [QueueAction.published?] using hsucc, fun hf => hf.elim, h.no_violation⟩
  | ret res hpc =>
    exact ⟨by simpa [QueueAction.published?] using hlt, fun hf => hf.elim, h.no_violation⟩

theorem Below.consumerStep {k : ℕ} (h : Below tr s)
    (hinv : Inv N (published tr) (QueueAction.popped tr) s)
    (hs : consumerStep o N k s = some (a, s')) : Below (tr ++ [a]) s' := by
  have hlt := h.published_lt
  cases consumerStep_cases hs with
  | storeRead c ch v hpc =>
    have hcons := hinv.consumer
    rw [hpc] at hcons
    obtain ⟨hch, -, hval⟩ := hcons
    -- `read` stays behind `write`, so its increment is within the bound as well
    have hpop : (QueueAction.popped tr).length < (published tr).length :=
      (List.getElem?_eq_some_iff.mp hval).1
    refine ⟨by simpa [QueueAction.published?] using hlt,
      fun hi => by simpa [QueueAction.published?] using h.under_way hi, ?_⟩
    show (s.violation || _) = false
    rw [h.no_violation, hch, incrementViolates_ofNat (by omega), Bool.or_false]
  | loadRead | loadWrite | readSlot | ret =>
    exact ⟨by simpa [QueueAction.published?] using hlt,
      fun hi => by simpa [QueueAction.published?] using h.under_way hi, h.no_violation⟩

/-- **The counters stay below the bound** along the runs that meet the condition. -/
theorem below_of_run (h : ((system o N).restrict BelowIntMax).Run tr s) : Below tr s := by
  refine h.invariant (I := Below) ?_ ?_
  · rintro s ⟨-, -, -, hp, -, -, -, -, -, hv⟩
    exact ⟨by simp, by simp [hp, Incremented], hv⟩
  · rintro tr s a s' hrun ih ⟨hs, hc⟩
    have hinv := inv_of_run hrun.of_restrict ih.published_lt
    have hlt := ih.published_lt
    rcases hs with ⟨c, hidle⟩ | ⟨k, hs⟩ | ⟨c, hidle⟩ | ⟨k, hs⟩
    · exact ⟨by simpa [QueueAction.published?] using hlt, fun hf => hf.elim, ih.no_violation⟩
    · exact ih.producerStep hinv hs hc
    · exact ⟨by simpa [QueueAction.published?] using hlt,
        fun hi => by simpa [QueueAction.published?] using ih.under_way hi, ih.no_violation⟩
    · exact ih.consumerStep hinv hs

/-! ### What the bound gives -/

/-- The index of a slot, as an integer. -/
theorem toInt_mod_size {k : ℕ} (hk : k < 2 ^ 63) :
    0 ≤ (ofNat k % N.size).toInt ∧ (ofNat k % N.size).toInt < N.n := by
  have hslot : k % N.n < N.n := Nat.mod_lt _ N.pos
  rw [ofNat_mod_size hk, Int64.toInt_ofNat_of_lt (hslot.trans N.lt)]
  omega

/-- **Below the bound the counters are as expected.** -/
theorem Below.countersOk (h : Below tr s) (hinv : Inv N (published tr) (QueueAction.popped tr) s) :
    CountersOk N tr s := by
  have hlt := h.published_lt
  have hle := hinv.le
  have hroom := hinv.room
  have hw : (latest s.writeLog).toInt = (published tr).length := by
    rw [hinv.latest_write, Int64.toInt_ofNat_of_lt (by omega)]
  have hr : (latest s.readLog).toInt = (QueueAction.popped tr).length := by
    rw [hinv.latest_read, Int64.toInt_ofNat_of_lt (by omega)]
  refine ⟨h.no_violation, by omega, by omega, hw, hr, ?_, ?_, ?_⟩
  · intro c ct nt hpc
    have hp := hinv.producer
    rw [hpc] at hp
    rw [hp.1]
    exact toInt_mod_size (by omega)
  · intro c ch hpc
    have hc := hinv.consumer
    rw [hpc] at hc
    rw [hc.1]
    exact toInt_mod_size (by omega)
  · intro hacc
    have hp := hinv.producer
    cases hpc : s.producer with
    | writeSlot c ct nt =>
      rw [hpc] at hp
      exact hp.2.2
    | storeWrite c nt =>
      rw [hpc] at hp
      exact hp.2
    | _ =>
      rw [hpc] at hacc
      exact hacc.elim

/-- A load of `write` that finds the largest `int` makes `increment` overflow. -/
theorem violation_of_not_belowIntMax (hs : Step o N s a s') (hc : ¬BelowIntMax s a) :
    s'.violation = true := by
  obtain ⟨c, hpc, rfl, hmax⟩ : ∃ c, s.producer = .loadWrite c ∧ a = .access .producer ∧
      latest s.writeLog = Int32.maxValue.toInt64 := by
    simpa [BelowIntMax] using hc
  generalize hact : QueueAction.access Side.producer = a at hs
  rcases hs with ⟨c', hidle⟩ | ⟨k, hs⟩ | ⟨c', hidle⟩ | ⟨k, hs⟩
  · cases hact
  · cases producerStep_cases hs with
    | loadWrite c' hpc' =>
      show (s.violation || _) = true
      rw [hmax, incrementViolates_maxValue, Bool.or_true]
    | loadRead _ _ _ _ _ hpc' | writeSlot _ _ _ hpc' | storeWrite _ _ hpc' | ret _ hpc' =>
      rw [hpc] at hpc'
      cases hpc'
  · cases hact
  · cases consumerStep_cases hs <;> cases hact

/-! ### The main result -/

/-- **The counters are as expected until `write` is the largest `int`.** In a run
no `try_push` of which loads `2 ^ 31 - 1` from `write`, every state is as expected;
and the step that loads it leads to a state that is not. -/
theorem counters_ok_below_int_max (o : Order) (N : RingSize) {tr : List Action} {s : State}
    (h : ((system o N).restrict BelowIntMax).Run tr s) :
    CountersOk N tr s ∧
    ∀ a s', (system o N).Step s a s' →
      (CountersOk N (tr ++ [a]) s' ↔ BelowIntMax s a) := by
  have hok : ∀ {tr s}, ((system o N).restrict BelowIntMax).Run tr s → CountersOk N tr s := by
    intro tr s h
    have hbelow := below_of_run h
    exact hbelow.countersOk (inv_of_run h.of_restrict hbelow.published_lt)
  refine ⟨hok h, fun a s' hs => ⟨fun hk => ?_, fun hc => hok (h.snoc ⟨hs, hc⟩)⟩⟩
  by_contra hc
  have hv := violation_of_not_belowIntMax hs hc
  rw [hk.no_violation] at hv
  cases hv

/-- A state of the program's own buffer: a first `try_push` has loaded `write`. -/
def firstLoad : State where
  writeLog := [⟨0, fun _ => 0⟩]
  readLog := [⟨0, fun _ => 0⟩]
  slots := fun _ => [0]
  producer := .loadRead (.tryPush 7) 0 1
  consumer := .idle
  producerSeen := 0
  consumerSeen := 0
  producerView := fun _ => 0
  consumerView := fun _ => 0
  violation := false

theorem run_firstLoad :
    ((acquireRelease ringBufferSize).restrict BelowIntMax).Run
      [.call .producer (.tryPush 7), .access .producer] firstLoad := by
  have h0 : ((acquireRelease ringBufferSize).restrict BelowIntMax).Run []
      { firstLoad with producer := .idle } :=
    .start ⟨rfl, rfl, fun _ => rfl, rfl, rfl, rfl, rfl, rfl, rfl, rfl⟩
  have h1 := h0.snoc ⟨.pushCall (.tryPush 7) rfl, fun c hpc => by cases hpc⟩
  exact h1.snoc ⟨.producer 0 rfl, fun _ _ _ => by decide⟩

theorem counters_ok_first_load :
    CountersOk ringBufferSize [.call .producer (.tryPush 7), .access .producer] firstLoad :=
  (counters_ok_below_int_max .acquire ringBufferSize run_firstLoad).1

/-- The push after `2 ^ 31 - 1` pushes and pops, up to its load of `write`. -/
theorem exists_overflow (o : Order) (N : RingSize) :
    ∃ tr s, (system o N).Run tr s ∧ s.violation = true := by
  obtain ⟨tr, s, h, hP, hC, hp, -⟩ := exists_balanced_run o N (k := 2 ^ 31 - 1) (by omega)
  -- now `write` is the largest `int`
  have hw : latest s.writeLog = Int32.maxValue.toInt64 := by
    rw [(inv_of_run h (by omega)).latest_write, hP, ofNat_maxValue]
  have hcall := h.snoc (.pushCall (.tryPush 0) hp)
  have hload := hcall.snoc (.producer 0 rfl)
  refine ⟨_, _, hload, ?_⟩
  show (s.violation || incrementViolates (latest s.writeLog)) = true
  rw [hw, incrementViolates_maxValue, Bool.or_true]

/-- **In the program's own buffer the counters go wrong**, in either memory order. -/
theorem counters_overflow :
    (∃ tr s, (acquireRelease ringBufferSize).Run tr s ∧ ¬CountersOk ringBufferSize tr s) ∧
    ∃ tr s, (sequential ringBufferSize).Run tr s ∧ ¬CountersOk ringBufferSize tr s := by
  have hbad : ∀ o, ∃ tr s, (system o ringBufferSize).Run tr s ∧
      ¬CountersOk ringBufferSize tr s := by
    intro o
    obtain ⟨tr, s, h, hv⟩ := exists_overflow o ringBufferSize
    exact ⟨tr, s, h, fun hok => Bool.false_ne_true (hok.no_violation.symm.trans hv)⟩
  exact ⟨hbad .acquire, hbad .seqCst⟩

end CounterRing

end Spsc

end LowLatency
