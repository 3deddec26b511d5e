import LowLatency.Spsc.CounterInvariant

/-!
# Running the ring buffers with running counters

The invariant of `LowLatency.Spsc.CounterInvariant` says what runs cannot do; this
file says that they can go on. A `try_push` with room and a `try_pop` with a value
both go through when their loads return the last messages, which either memory
order allows (`LowLatency.Spsc.CounterRing.push_once`,
`LowLatency.Spsc.CounterRing.pop_once`). Alternating the two, the counters reach
every value below `2 ^ 31`, whatever the size of the array
(`LowLatency.Spsc.CounterRing.exists_balanced_run`).
-/

namespace LowLatency

namespace Spsc

namespace CounterRing

open Int64 (ofNat)
open ReleaseAcquire QueueAction

variable {o : Order} {N : RingSize} {s s' : State} {a : Action} {tr : List Action}

/-! ### No view is ahead of its slot -/

/-- Writing to a slot leaves room for the views there were. -/
theorem lt_length_update {slots : Int64 → List Int64} {view : View Int64}
    (h : ∀ i, view i < (slots i).length) (k v : Int64) (i : Int64) :
    view i < (Function.update slots k (slots k ++ [v]) i).length := by
  rcases eq_or_ne i k with rfl | hne
  · rw [Function.update_self, List.length_append]
    exact (h i).trans_le (Nat.le_add_right _ _)
  · rw [Function.update_of_ne hne]
    exact h i

theorem ViewsInv.step (h : ViewsInv s) (hs : Step o N s a s') : ViewsInv s' := by
  have hmax : ∀ {view view' : View Int64}, (∀ i, view i < (s.slots i).length) →
      (∀ i, view' i < (s.slots i).length) → ∀ i, (view ⊔ view') i < (s.slots i).length :=
    fun hv hv' i => max_lt (hv i) (hv' i)
  rcases hs with ⟨c, hidle⟩ | ⟨k, hs⟩ | ⟨c, hidle⟩ | ⟨k, hs⟩
  · exact ⟨h.producer, h.consumer, h.write, h.read⟩
  · cases producerStep_cases hs with
    | loadRead c ct nt k m hpc hk hm =>
      exact ⟨hmax h.producer (h.read m (List.mem_of_getElem? hm)), h.consumer, h.write, h.read⟩
    | writeSlot c ct nt hpc =>
      refine ⟨fun i => ?_, lt_length_update h.consumer _ _,
        fun m hm => lt_length_update (h.write m hm) _ _,
        fun m hm => lt_length_update (h.read m hm) _ _⟩
      show Function.update s.producerView _ _ i < (Function.update s.slots _ _ i).length
      rcases eq_or_ne i (ct % N.size) with rfl | hne
      · simp
      · rw [Function.update_of_ne hne, Function.update_of_ne hne]
        exact h.producer i
    | storeWrite c nt hpc =>
      refine ⟨h.producer, h.consumer, fun m hm => ?_, h.read⟩
      rcases List.mem_append.mp hm with hm | hm
      · exact h.write m hm
      · rw [List.mem_singleton.mp hm]
        exact h.producer
    | loadWrite | ret => exact ⟨h.producer, h.consumer, h.write, h.read⟩
  · exact ⟨h.producer, h.consumer, h.write, h.read⟩
  · cases consumerStep_cases hs with
    | loadWrite c ch k m hpc hk hm =>
      exact ⟨h.producer, hmax h.consumer (h.write m (List.mem_of_getElem? hm)), h.write, h.read⟩
    | storeRead c ch v hpc =>
      refine ⟨h.producer, h.consumer, h.write, fun m hm => ?_⟩
      rcases List.mem_append.mp hm with hm | hm
      · exact h.read m hm
      · rw [List.mem_singleton.mp hm]
        exact h.consumer
    | loadRead | readSlot | ret => exact ⟨h.producer, h.consumer, h.write, h.read⟩

/-- **No view is ahead of its slot**, so a plain read always finds a value. -/
theorem viewsInv_of_run (h : (system o N).Run tr s) : ViewsInv s := by
  refine h.invariant (I := fun _ s => ViewsInv s) ?_ fun _ _ _ _ _ ih hs => ih.step hs
  rintro s ⟨hw, hr, hslots, -, -, -, -, hpv, hcv, -⟩
  refine ⟨?_, ?_, ?_, ?_⟩ <;> simp [hw, hr, hslots, hpv, hcv]

/-! ### One push, one pop -/

/-- A read of a slot may return its last value, also after the consumer has loaded `m`. -/
theorem ViewsInv.exists_read_last (h : ViewsInv s) {m : Message Int64 Int64}
    (hm : m ∈ s.writeLog) (i : Int64) :
    ∃ k, (s.consumerView ⊔ m.view) i ≤ k ∧ (s.slots i)[k]? = some ((s.slots i).getLastD 0) := by
  obtain ⟨k, hlen⟩ : ∃ k, (s.slots i).length = k + 1 :=
    Nat.exists_eq_add_one.mpr ((Nat.zero_le _).trans_lt (h.consumer i))
  refine ⟨k, ?_, ?_⟩
  · refine Nat.le_of_lt_succ ?_
    rw [Nat.succ_eq_add_one, ← hlen]
    exact max_lt (h.consumer i) (h.write m hm i)
  · rw [List.getLastD_eq_getLast?, List.getLast?_eq_getElem?, hlen, Nat.add_sub_cancel,
      List.getElem?_eq_getElem (by omega)]
    rfl

/-- **A `try_push` with room goes through.** -/
theorem push_once (h : (system o N).Run tr s) (hlt : (published tr).length < 2 ^ 31)
    (hidle : s.producer = .idle)
    (hroom : (published tr).length + 1 ≤ (QueueAction.popped tr).length + N.n) (v : Int64) :
    ∃ tr' s', (system o N).Run tr' s' ∧ published tr' = published tr ++ [v] ∧
      QueueAction.popped tr' = QueueAction.popped tr ∧ s'.producer = .idle ∧
      s'.consumer = s.consumer := by
  have hinv := inv_of_run h hlt
  obtain ⟨m, hm, hval⟩ := hinv.readLog _ le_rfl
  have hread : Readable o s.readLog s.producerSeen (QueueAction.popped tr).length :=
    readable_last o hinv.producerSeen hinv.readLog_length
  have htest : latest s.writeLog - m.value ≤ N.size - 1 := by
    have hle := hinv.le
    rw [hinv.latest_write, hval, sub_le_iff hlt (by omega)]
    exact hroom
  have h1 := h.snoc (.pushCall (.tryPush v) hidle)
  have h2 := h1.snoc (.producer 0 rfl)
  have h3 := h2.snoc (.producer (QueueAction.popped tr).length
    (by simp only [producerStep, hread, hm, htest, if_true, Option.map_some]; rfl))
  have h4 := h3.snoc (.producer 0 rfl)
  have h5 := h4.snoc (.producer 0 rfl)
  have h6 := h5.snoc (.producer 0 rfl)
  refine ⟨_, _, h6, ?_, ?_, rfl, rfl⟩
  · simp [published, List.filterMap_cons, QueueAction.published?, PushCall.val]
  · simp [QueueAction.popped, List.filterMap_cons, QueueAction.popped?]

/-- **A `try_pop` with a value goes through.** -/
theorem pop_once (h : (system o N).Run tr s) (hlt : (published tr).length < 2 ^ 31)
    (hidle : s.consumer = .idle)
    (hne : (QueueAction.popped tr).length < (published tr).length) :
    ∃ tr' s' v, (system o N).Run tr' s' ∧ published tr' = published tr ∧
      QueueAction.popped tr' = QueueAction.popped tr ++ [v] ∧ s'.producer = s.producer ∧
      s'.consumer = .idle := by
  have hinv := inv_of_run h hlt
  obtain ⟨m, hm, hval, -⟩ := hinv.writeLog _ le_rfl
  have hread : Readable o s.writeLog s.consumerSeen (published tr).length :=
    readable_last o hinv.consumerSeen_le hinv.writeLog_length
  have htest : ¬latest s.readLog = m.value := by
    rw [hinv.latest_read, hval, Int64.ofNat_inj_of_lt (by omega) (by omega)]
    omega
  obtain ⟨k, hview, hv⟩ := (viewsInv_of_run h).exists_read_last (List.mem_of_getElem? hm)
    (latest s.readLog % N.size)
  have h1 := h.snoc (.popCall .tryPop hidle)
  have h2 := h1.snoc (.consumer 0 rfl)
  have h3 := h2.snoc (.consumer (published tr).length
    (by simp only [consumerStep, hread, hm, htest, if_true, if_false, Option.map_some]; rfl))
  have h4 := h3.snoc (.consumer k
    (by simp only [consumerStep, hview, if_true, hv, Option.map_some]; rfl))
  have h5 := h4.snoc (.consumer 0 rfl)
  have h6 := h5.snoc (.consumer 0 rfl)
  refine ⟨_, _, (s.slots (latest s.readLog % N.size)).getLastD 0, h6, ?_, ?_, rfl, rfl⟩
  · simp [published, List.filterMap_cons, QueueAction.published?]
  · simp [QueueAction.popped, List.filterMap_cons, QueueAction.popped?]

/-- **The counters reach every value below `2 ^ 31`**, one push and one pop at a
time. -/
theorem exists_balanced_run (o : Order) (N : RingSize) {k : ℕ} (hk : k < 2 ^ 31) :
    ∃ tr s, (system o N).Run tr s ∧ (published tr).length = k ∧
      (QueueAction.popped tr).length = k ∧ s.producer = .idle ∧ s.consumer = .idle := by
  induction k with
  | zero =>
    exact ⟨[], ⟨[⟨0, fun _ => 0⟩], [⟨0, fun _ => 0⟩], fun _ => [0], .idle, .idle, 0, 0,
      fun _ => 0, fun _ => 0, false⟩,
      .start ⟨rfl, rfl, fun _ => rfl, rfl, rfl, rfl, rfl, rfl, rfl, rfl⟩, rfl, rfl, rfl, rfl⟩
  | succ k ih =>
    obtain ⟨tr, s, h, hP, hC, hp, hc⟩ := ih (by omega)
    have hpos := N.pos
    obtain ⟨tr₁, s₁, h₁, hP₁, hC₁, hp₁, hc₁⟩ := push_once h (by omega) hp (by omega) 0
    have hlen₁ : (published tr₁).length = k + 1 := by rw [hP₁]; simp [hP]
    obtain ⟨tr₂, s₂, v, h₂, hP₂, hC₂, hp₂, hc₂⟩ :=
      pop_once h₁ (by omega) (hc₁.trans hc) (by rw [hlen₁, hC₁]; omega)
    refine ⟨tr₂, s₂, h₂, by rw [hP₂, hlen₁], ?_, hp₂.trans hp₁, hc₂⟩
    rw [hC₂, hC₁, List.length_append, hC, List.length_singleton]

end CounterRing

end Spsc

end LowLatency
