import LowLatency.Foundations.HesitantQueue
import LowLatency.Spsc.CounterRuns

/-!
# The ring buffers with running counters are queues

Both classes are linearizable to a first-in first-out queue of `RING_BUFFER_SIZE` values, no slot
being given up, as long as fewer than `2 ^ 31` values have been published. A `push` takes effect at
its store of `write` and a `pop` at its store of `read`.

The classes differ in what an attempt that fails has seen. With sequentially consistent loads the
queue really was full, or empty, at the load that made the attempt fail
(`LowLatency.Spsc.CounterRing.Inv.full_of_refused`,
`LowLatency.Spsc.CounterRing.Inv.empty_of_refused`), so that class is the queue itself. A load that
lags may have seen a state long gone: the class with acquire loads is the queue whose attempts may
fail (`LowLatency.Spsc.CounterRing.queueOf`).
-/

namespace LowLatency

namespace Spsc

namespace CounterRing

open Int64 (ofNat)
open ReleaseAcquire QueueAction

variable {o : Order} {N : RingSize} {P C : List Int64} {s s' : State} {a : Action}

/-- **What the class implements**, by the order of its loads. -/
def queueOf (o : Order) (N : RingSize) :
    SequentialObject (List Int64) (QueueOp Int64) (QueueRes Int64) :=
  match o with
  | .acquire => hesitant Int64 N.n
  | .seqCst => fifo Int64 N.n

/-- Both of them do what the queue does. -/
theorem queueOf_of_fifo (q : List Int64) (op : QueueOp Int64) (res : QueueRes Int64)
    (q' : List Int64) (h : (fifo Int64 N.n).Step q op res q') : (queueOf o N).Step q op res q' := by
  cases o with
  | acquire => exact HesitantStep.regular h
  | seqCst => exact h

/-! ### An attempt that fails -/

/-- **The queue was full** if the load saw the last value of `read`. -/
theorem Inv.full_of_refused (h : Inv N P C s) (hP : P.length < 2 ^ 31) {c : PushCall}
    {ct nt : Int64} {k : ℕ} {m : Message Int64 Int64} (hpc : s.producer = .loadRead c ct nt)
    (hk : Readable .seqCst s.readLog s.producerSeen k) (hm : s.readLog[k]? = some m)
    (hgt : ¬ct - m.value ≤ N.size - 1) : N.n ≤ (P.drop C.length).length := by
  have hp := h.producer
  rw [hpc] at hp
  have hle := h.le
  have hlast := hk.2.2 rfl
  rw [h.readLog_length, Nat.add_right_cancel_iff] at hlast
  obtain ⟨m', hm', hval⟩ := h.readLog k (by omega)
  obtain rfl := Option.some_inj.mp (hm.symm.trans hm')
  rw [hp.1, hval, sub_le_iff hP (by omega)] at hgt
  rw [List.length_drop]
  omega

/-- **The queue was empty** if the load saw the last value of `write`. -/
theorem Inv.empty_of_refused (h : Inv N P C s) (hP : P.length < 2 ^ 31) {c : PopCall}
    {ch : Int64} {k : ℕ} {m : Message Int64 Int64} (hpc : s.consumer = .loadWrite c ch)
    (hk : Readable .seqCst s.writeLog s.consumerSeen k) (hm : s.writeLog[k]? = some m)
    (heq : ch = m.value) : P.drop C.length = [] := by
  have hc := h.consumer
  rw [hpc] at hc
  have hch : ch = ofNat C.length := hc
  have hle := h.le
  have hlast := hk.2.2 rfl
  rw [h.writeLog_length, Nat.add_right_cancel_iff] at hlast
  obtain ⟨m', hm', hval, -⟩ := h.writeLog k (by omega)
  obtain rfl := Option.some_inj.mp (hm.symm.trans hm')
  rw [hch, hval, Int64.ofNat_inj_of_lt (by omega) (by omega)] at heq
  exact List.drop_eq_nil_of_le (by omega)

/-- What a `try_push` may do that has loaded too large a difference. -/
theorem Inv.refused_push (h : Inv N P C s) (hP : P.length < 2 ^ 31) {v : Int64} {c : PushCall}
    {ct nt : Int64} {k : ℕ} {m : Message Int64 Int64} (hpc : s.producer = .loadRead c ct nt)
    (hk : Readable o s.readLog s.producerSeen k) (hm : s.readLog[k]? = some m)
    (hgt : ¬ct - m.value ≤ N.size - 1) :
    (queueOf o N).Step (P.drop C.length) (.tryPush v) (.tryPush false) (P.drop C.length) := by
  cases o with
  | acquire => exact .tryPush _ v
  | seqCst => exact .tryPushFull v (by exact_mod_cast h.full_of_refused hP hpc hk hm hgt)

/-- What a `try_pop` may do that has loaded its own counter. -/
theorem Inv.refused_pop (h : Inv N P C s) (hP : P.length < 2 ^ 31) {c : PopCall}
    {ch : Int64} {k : ℕ} {m : Message Int64 Int64} (hpc : s.consumer = .loadWrite c ch)
    (hk : Readable o s.writeLog s.consumerSeen k) (hm : s.writeLog[k]? = some m)
    (heq : ch = m.value) :
    (queueOf o N).Step (P.drop C.length) .tryPop (.tryPop none) (P.drop C.length) := by
  cases o with
  | acquire => exact .tryPop _
  | seqCst =>
    rw [h.empty_of_refused hP hpc hk hm heq]
    exact .tryPopEmpty

/-! ### The simulation -/

/-- The queue a state stands for, with the two threads where they stand. -/
def view (P C : List Int64) (s : State) :
    AtomicState Side (List Int64) (QueueOp Int64) (QueueRes Int64) where
  object := P.drop C.length
  status := statusOf s.producer s.consumer

/-- The step is one of the queue the class implements. -/
def Matched (o : Order) (N : RingSize) (P C : List Int64) (s : State) (a : Action) (s' : State) :
    Prop :=
  ∃ marks, ((queueOf o N).atomic Side).Steps (view P C s) marks
      (view (P ++ a.published?.toList) (C ++ a.popped?.toList) s') ∧
    marks.filterMap Mark.event? = a.event?.toList

/-- A step of the queue itself. -/
theorem Matched.of_matches (h : Matches (N.n : ℕ∞) (view P C s) a
    (view (P ++ a.published?.toList) (C ++ a.popped?.toList) s')) : Matched o N P C s a s' := by
  obtain ⟨marks, hmarks, hevent⟩ := h
  exact ⟨marks, SequentialObject.steps_mono queueOf_of_fifo hmarks, hevent⟩

/-- An access that settles nothing. -/
theorem matched_access {t : Side} (hp : s'.producer.status = s.producer.status)
    (hc : s'.consumer.status = s.consumer.status) : Matched o N P C s (.access t) s' := by
  refine .of_matches (Matches.quiet rfl ?_ fun u => ?_)
  · simp [view, QueueAction.published?, QueueAction.popped?]
  · cases u with
    | producer => exact hp
    | consumer => exact hc

/-- An attempt fails. -/
theorem matched_refused {t : Side} {op : QueueOp Int64} {res : QueueRes Int64}
    (hq : (queueOf o N).Step (P.drop C.length) op res (P.drop C.length))
    (ht : statusOf s.producer s.consumer t = .called op)
    (ht' : statusOf s'.producer s'.consumer t = .done res)
    (hother : ∀ u, u ≠ t →
      statusOf s'.producer s'.consumer u = statusOf s.producer s.consumer u) :
    Matched o N P C s (.access t) s' := by
  refine ⟨[.point t op res], .single (SequentialObject.atomic_step_point ht ht' ?_ hother), rfl⟩
  simpa [view, QueueAction.published?, QueueAction.popped?] using hq

/-- **Every step of the producer is matched.** -/
theorem Inv.matched_producerStep {k : ℕ} (h : Inv N P C s) (hP : P.length < 2 ^ 31)
    (hs : CounterRing.producerStep o N k s = some (a, s')) : Matched o N P C s a s' := by
  cases producerStep_cases hs with
  | loadWrite c hpc => exact matched_access (by simp [hpc, Producer.status]) rfl
  | loadRead c ct nt k m hpc hk hm =>
    by_cases hle : ct - m.value ≤ N.size - 1
    · exact matched_access (by simp [hpc, hle, Producer.status]) rfl
    · cases c with
      | tryPush v =>
        have hcalled : statusOf s.producer s.consumer .producer = .called (.tryPush v) := by
          simp [hpc, Producer.status, PushCall.op]
        refine matched_refused (h.refused_push hP hpc hk hm hle) hcalled ?_
          statusOf_eq_of_ne_producer
        simp [hle, Producer.refused, Producer.status]
      | push v =>
        -- `push` has settled nothing, and calls `try_push` again
        exact matched_access (by simp [hpc, hle, Producer.refused, Producer.status]) rfl
  | writeSlot c ct nt hpc => exact matched_access (by simp [hpc, Producer.status]) rfl
  | storeWrite c nt hpc =>
    have hp := h.producer
    rw [hpc] at hp
    obtain ⟨-, hroom⟩ := hp
    have hle := h.le
    have hdrop : (P ++ [c.val]).drop C.length = P.drop C.length ++ [c.val] :=
      List.drop_append_of_le_length hle
    have hlen : ((P.drop C.length).length : ℕ∞) < (N.n : ℕ∞) := by
      rw [List.length_drop, Nat.cast_lt]
      omega
    have hstep : QueueStep (N.n : ℕ∞) (P.drop C.length) c.op c.accepted
        (P.drop C.length ++ [c.val]) := by
      cases c with
      | tryPush v => exact .tryPush v hlen
      | push v => exact .push v hlen
    refine .of_matches (Matches.point .producer c.op c.accepted rfl ?_ rfl ?_ fun u hu => ?_)
    · simp [view, hpc, Producer.status]
    · simpa [view, QueueAction.published?, QueueAction.popped?, hdrop] using hstep
    · exact statusOf_eq_of_ne_producer u hu
  | ret res hpc =>
    refine .of_matches (Matches.ret ?_ rfl ?_ fun u hu => ?_)
    · simp [view, hpc, Producer.status]
    · simp [view, QueueAction.published?, QueueAction.popped?]
    · exact statusOf_eq_of_ne_producer u hu

/-- **Every step of the consumer is matched.** -/
theorem Inv.matched_consumerStep {k : ℕ} (h : Inv N P C s) (hP : P.length < 2 ^ 31)
    (hs : CounterRing.consumerStep o N k s = some (a, s')) : Matched o N P C s a s' := by
  cases consumerStep_cases hs with
  | loadRead c hpc => exact matched_access rfl (by simp [hpc, Consumer.status])
  | loadWrite c ch k m hpc hk hm =>
    by_cases heq : ch = m.value
    · cases c with
      | tryPop =>
        have hcalled : statusOf s.producer s.consumer .consumer = .called .tryPop := by
          simp [hpc, Consumer.status, PopCall.op]
        refine matched_refused (h.refused_pop hP hpc hk hm heq) hcalled ?_
          statusOf_eq_of_ne_consumer
        simp [heq, Consumer.refused, Consumer.status]
      | pop =>
        -- `pop` has settled nothing, and calls `try_pop` again
        exact matched_access rfl (by simp [hpc, heq, Consumer.refused, Consumer.status])
    · exact matched_access rfl (by simp [hpc, heq, Consumer.status])
  | readSlot c ch k v hpc => exact matched_access rfl (by simp [hpc, Consumer.status])
  | storeRead c ch v hpc =>
    have hc := h.consumer
    rw [hpc] at hc
    obtain ⟨hlt, hget⟩ := List.getElem?_eq_some_iff.mp hc.2.2
    have hdrop : P.drop C.length = v :: P.drop (C.length + 1) := by
      rw [List.drop_eq_getElem_cons hlt, hget]
    have hstep : QueueStep (N.n : ℕ∞) (P.drop C.length) c.op (c.taken v)
        (P.drop (C.length + 1)) := by
      rw [hdrop]
      cases c with
      | tryPop => exact .tryPop v _
      | pop => exact .pop v _
    refine .of_matches (Matches.point .consumer c.op (c.taken v) rfl ?_ rfl ?_ fun u hu => ?_)
    · simp [view, hpc, Consumer.status]
    · simpa [view, QueueAction.published?, QueueAction.popped?] using hstep
    · exact statusOf_eq_of_ne_consumer u hu
  | ret res hpc =>
    refine .of_matches (Matches.ret ?_ rfl ?_ fun u hu => ?_)
    · simp [view, hpc, Consumer.status]
    · simp [view, QueueAction.published?, QueueAction.popped?]
    · exact statusOf_eq_of_ne_consumer u hu

/-- **Every step is matched.** -/
theorem Inv.matched (h : Inv N P C s) (hP : P.length < 2 ^ 31) (hs : Step o N s a s') :
    Matched o N P C s a s' := by
  rcases hs with ⟨c, hidle⟩ | ⟨k, hs⟩ | ⟨c, hidle⟩ | ⟨k, hs⟩
  · refine .of_matches (Matches.call ?_ rfl ?_ fun u hu => ?_)
    · simp [view, hidle, Producer.status]
    · simp [view, QueueAction.published?, QueueAction.popped?]
    · exact statusOf_eq_of_ne_producer u hu
  · exact h.matched_producerStep hP hs
  · refine .of_matches (Matches.call ?_ rfl ?_ fun u hu => ?_)
    · simp [view, hidle, Consumer.status]
    · simp [view, QueueAction.published?, QueueAction.popped?]
    · exact statusOf_eq_of_ne_consumer u hu
  · exact h.matched_consumerStep hP hs

/-- **The histories of the ring buffer are those of the queue it implements.** -/
theorem linearizable_history {tr : List Action} (h : (system o N).Run tr s)
    (hlt : (published tr).length < 2 ^ 31) : (queueOf o N).Linearizable (history tr) := by
  refine SequentialObject.linearizable_of_simulation_while event?
    (fun tr => (published tr).length < 2 ^ 31) ?_
    (fun tr s q => q = view (published tr) (popped tr) s) ?_ ?_ h hlt
  · intro tr a htr
    rw [published_snoc, List.length_append] at htr
    omega
  · rintro s ⟨-, -, -, hp, hc, -⟩
    have hstatus : ∀ u, statusOf s.producer s.consumer u = .idle := by
      intro u
      cases u <;> simp [hp, hc, Producer.status, Consumer.status]
    cases o <;> exact congrArg (AtomicState.mk []) (funext fun u => (hstatus u).symm)
  · rintro tr s a s' q hrun htr rfl hs
    have hlt : (published tr).length < 2 ^ 31 := by
      rw [published_snoc, List.length_append] at htr
      omega
    obtain ⟨marks, hmarks, hevent⟩ := (inv_of_run hrun hlt).matched hlt hs
    refine ⟨marks, _, hmarks, hevent, ?_⟩
    rw [published_snoc, popped_snoc]

/-! ### The main results -/

/-- **The ring buffer with sequentially consistent counters is a first-in first-out queue of
`RING_BUFFER_SIZE` values**, in runs of fewer than `2 ^ 31` pushes. -/
theorem sequential_ring_is_bounded_queue {tr : List Action} (h : (sequential N).Run tr s)
    (hlt : (published tr).length < 2 ^ 31) : (fifo Int64 N.n).Linearizable (history tr) :=
  linearizable_history h hlt

/-- A thousand values through the program's own buffer. -/
theorem sequential_ring_queue_thousand :
    ∃ tr s, (sequential ringBufferSize).Run tr s ∧ (QueueAction.popped tr).length = 1000 ∧
      (fifo Int64 ringBufferSize.n).Linearizable (history tr) := by
  obtain ⟨tr, s, h, hP, hC, -⟩ := exists_balanced_run .seqCst ringBufferSize (k := 1000) (by omega)
  exact ⟨tr, s, h, hC, sequential_ring_is_bounded_queue h (by omega)⟩

/-- **The ring buffer with acquire loads and release stores is a first-in first-out queue of
`RING_BUFFER_SIZE` values whose attempts may fail**, in runs of fewer than `2 ^ 31` pushes. -/
theorem acquire_release_ring_is_hesitant_queue {tr : List Action}
    (h : (acquireRelease N).Run tr s) (hlt : (published tr).length < 2 ^ 31) :
    (hesitant Int64 N.n).Linearizable (history tr) :=
  linearizable_history h hlt

/-- A thousand values through the program's own buffer. -/
theorem acquire_release_ring_queue_thousand :
    ∃ tr s, (acquireRelease ringBufferSize).Run tr s ∧ (QueueAction.popped tr).length = 1000 ∧
      (hesitant Int64 ringBufferSize.n).Linearizable (history tr) := by
  obtain ⟨tr, s, h, hP, hC, -⟩ := exists_balanced_run .acquire ringBufferSize (k := 1000) (by omega)
  exact ⟨tr, s, h, hC, acquire_release_ring_is_hesitant_queue h (by omega)⟩

end CounterRing

end Spsc

end LowLatency
