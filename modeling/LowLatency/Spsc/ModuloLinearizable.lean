import LowLatency.Spsc.ModuloInvariant

/-!
# The ring buffer with wrapped indices is a bounded queue

With `RING_BUFFER_SIZE` slots, the class is linearizable to the first-in first-out
queue of one slot less. A `push` takes effect at its store of `write`, a `pop` at
its store of `read`, and a call that gives up at the load that made it do so: at
that load the queue really was full
(`LowLatency.Spsc.ModuloRing.Inv.full_of_refused`), or empty
(`LowLatency.Spsc.ModuloRing.Inv.empty_of_refused`).

The queue the ring buffer stands for is the list of the values published and not
popped yet, and it can be read off the array, from `read` to `write`
(`LowLatency.Spsc.ModuloRing.Inv.unread_eq`).
-/

namespace LowLatency

namespace Spsc

namespace ModuloRing

open Int64 (ofNat)
open QueueAction

variable {N : RingSize} {P C : List Int64} {s s' : State} {a : Action}

/-! ### The queue in the array -/

/-- There are as many slots from `read` to `write` as values not popped. -/
theorem Inv.occupancy_eq (h : Inv N P C s) : occupancy N s = P.length - C.length := by
  have hle := h.le
  have hlt := h.lt
  have hP : P.length % N.n < N.n := Nat.mod_lt _ N.pos
  have hC : C.length % N.n < N.n := Nat.mod_lt _ N.pos
  have hn := N.lt
  rw [occupancy, h.write, h.read, Int64.toInt_ofNat_of_lt (by omega),
    Int64.toInt_ofNat_of_lt (by omega), Int.natCast_mod, Int.natCast_mod, ← Int.sub_emod,
    Int.emod_eq_of_lt (by omega) (by omega)]
  omega

/-- The slots after `read` are numbered as the values not popped. -/
theorem Inv.slotAfterRead_eq (h : Inv N P C s) (k : ℕ) :
    slotAfterRead N s k = ofNat ((C.length + k) % N.n) := by
  have hC : C.length % N.n < N.n := Nat.mod_lt _ N.pos
  have hn := N.lt
  rw [slotAfterRead, h.read, Int64.toInt_ofNat_of_lt (by omega), Int.natCast_mod,
    Int.emod_add_emod, ← Int.natCast_add, ← Int.natCast_mod, Int64.ofInt_eq_ofNat]

/-- **The unread slots hold the values published and not popped.** -/
theorem Inv.unread_eq (h : Inv N P C s) : unread N s = P.drop C.length := by
  refine List.ext_getElem? fun k => ?_
  rw [unread, List.getElem?_map, h.occupancy_eq, List.getElem?_drop]
  rcases Nat.lt_or_ge k (P.length - C.length) with hk | hk
  · rw [List.getElem?_range hk, Option.map_some, h.slotAfterRead_eq]
    exact (h.slots _ (by omega) (by omega)).symm
  · rw [List.getElem?_eq_none (by simpa using hk), Option.map_none,
      List.getElem?_eq_none (by omega)]

/-- Nothing is lost, doubled or reordered: what was popped, then what is unread, is
what was published. -/
theorem Inv.popped_append_unread (h : Inv N P C s) : C ++ unread N s = P := by
  have htake := h.popped
  rw [h.unread_eq]
  calc C ++ P.drop C.length = P.take C.length ++ P.drop C.length := by rw [← htake]
    _ = P := List.take_append_drop _ _

/-! ### A call that gives up was right -/

/-- **A push is refused by a full queue only.** -/
theorem Inv.full_of_refused (h : Inv N P C s) {c : PushCall} {ct nt : Int64}
    (hpc : s.producer = .loadRead c ct nt) (heq : nt = s.read) :
    (P.drop C.length).length = N.n - 1 := by
  have hp := h.producer
  rw [hpc] at hp
  obtain ⟨-, hnt⟩ := hp
  have hle := h.le
  have hlt := h.lt
  have hmod : (P.length + 1) % N.n = C.length % N.n := by
    rw [← ofNat_mod_inj, ← hnt, heq, h.read]
  -- two indices less than a round apart are different, so they are a round apart
  have hfull : P.length + 1 = C.length + N.n := by
    by_contra hne
    exact Nat.mod_ne_mod_of_lt (n := N.n) (i := C.length) (j := P.length + 1) (by omega) (by omega)
      hmod.symm
  rw [List.length_drop]
  omega

/-- **A pop is refused by an empty queue only.** -/
theorem Inv.empty_of_refused (h : Inv N P C s) {c : PopCall} {ch : Int64}
    (hpc : s.consumer = .loadWrite c ch) (heq : ch = s.write) : P.drop C.length = [] := by
  have hc := h.consumer
  rw [hpc] at hc
  have hch : ch = ofNat (C.length % N.n) := hc
  have hle := h.le
  have hlt := h.lt
  have hmod : C.length % N.n = P.length % N.n := by
    rw [← ofNat_mod_inj, ← hch, heq, h.write]
  refine List.drop_eq_nil_of_le ?_
  by_contra hne
  exact Nat.mod_ne_mod_of_lt (n := N.n) (i := C.length) (j := P.length) (by omega) (by omega) hmod

/-- The step is the load of `read` after which a `try_push` gives up, be it called
by the client or by `push`. -/
def RefusesPush (s s' : State) : Prop :=
  ∃ c ct nt, s.producer = .loadRead c ct nt ∧ s'.producer = .refused c

/-- The step is the load of `write` after which a `try_pop` gives up, be it called
by the client or by `pop`. -/
def RefusesPop (s s' : State) : Prop :=
  ∃ c ch, s.consumer = .loadWrite c ch ∧ s'.consumer = .refused c

/-- A push gives up when the next index meets `read`. -/
theorem Step.eq_of_refusesPush (hs : Step N s a s') (h : RefusesPush s s') :
    ∃ c ct nt, s.producer = .loadRead c ct nt ∧ nt = s.read := by
  obtain ⟨c, ct, nt, hpc, hpc'⟩ := h
  refine ⟨c, ct, nt, hpc, ?_⟩
  cases hs with
  | pushCall d hidle => simp [hpc] at hidle
  | popCall d hidle => cases c <;> simp [hpc, Producer.refused] at hpc'
  | consumer hs =>
    cases consumerStep_cases hs <;> cases c <;> simp [hpc, Producer.refused] at hpc'
  | producer hs =>
    cases producerStep_cases hs with
    | refused d ct' nt' hp heq => simp_all
    | passed d ct' nt' hp hne =>
      -- it goes on to the slot
      cases c <;> simp [Producer.refused] at hpc'
    | loadWrite d hp | writeSlot d ct' nt' hp | storeWrite d nt' hp | ret res hp => simp_all

/-- A pop gives up when its index meets `write`. -/
theorem Step.eq_of_refusesPop (hs : Step N s a s') (h : RefusesPop s s') :
    ∃ c ch, s.consumer = .loadWrite c ch ∧ ch = s.write := by
  obtain ⟨c, ch, hpc, hpc'⟩ := h
  refine ⟨c, ch, hpc, ?_⟩
  cases hs with
  | popCall d hidle => simp [hpc] at hidle
  | pushCall d hidle => cases c <;> simp [hpc, Consumer.refused] at hpc'
  | producer hs =>
    cases producerStep_cases hs <;> cases c <;> simp [hpc, Consumer.refused] at hpc'
  | consumer hs =>
    cases consumerStep_cases hs with
    | refused d ch' hp heq => simp_all
    | passed d ch' hp hne => cases c <;> simp [Consumer.refused] at hpc'
    | loadRead d hp | readSlot d ch' hp | storeRead d ch' v hp | ret res hp => simp_all

/-- `try_push` comes to return `false` by giving up at its load of `read`, and in no
other way. -/
theorem Step.refusesPush (hs : Step N s a s') (hpc : s.producer ≠ .returning (.tryPush false))
    (hpc' : s'.producer = .returning (.tryPush false)) : RefusesPush s s' := by
  cases hs with
  | pushCall c hidle => simp at hpc'
  | popCall c hidle => exact absurd hpc' hpc
  | consumer hs => cases consumerStep_cases hs <;> exact absurd hpc' hpc
  | producer hs =>
    cases producerStep_cases hs with
    | refused c ct nt hp heq => exact ⟨c, ct, nt, hp, rfl⟩
    | storeWrite c nt hp => cases c <;> simp [PushCall.accepted] at hpc'
    | loadWrite | passed | writeSlot | ret => simp at hpc'

/-- `try_pop` comes to return `false` by giving up at its load of `write`, and in no
other way. -/
theorem Step.refusesPop (hs : Step N s a s') (hpc : s.consumer ≠ .returning (.tryPop none))
    (hpc' : s'.consumer = .returning (.tryPop none)) : RefusesPop s s' := by
  cases hs with
  | popCall c hidle => simp at hpc'
  | pushCall c hidle => exact absurd hpc' hpc
  | producer hs => cases producerStep_cases hs <;> exact absurd hpc' hpc
  | consumer hs =>
    cases consumerStep_cases hs with
    | refused c ch hp heq => exact ⟨c, ch, hp, rfl⟩
    | storeRead c ch v hp => cases c <;> simp [PopCall.taken] at hpc'
    | loadRead | passed | readSlot | ret => simp at hpc'

/-! ### The simulation -/

/-- The queue a state stands for, with the two threads where they stand. -/
def view (P C : List Int64) (s : State) :
    AtomicState Side (List Int64) (QueueOp Int64) (QueueRes Int64) where
  object := P.drop C.length
  status := statusOf s.producer s.consumer

/-- The step is one of the bounded queue the class implements. -/
def Matched (N : RingSize) (P C : List Int64) (s : State) (a : Action) (s' : State) : Prop :=
  Matches ((N.n - 1 : ℕ) : ℕ∞) (view P C s) a
    (view (P ++ a.published?.toList) (C ++ a.popped?.toList) s')

theorem view_access (P C : List Int64) (s : State) (t : Side) :
    view (P ++ (QueueAction.access t : Action).published?.toList)
      (C ++ (QueueAction.access t : Action).popped?.toList) s = view P C s := by
  simp [QueueAction.published?, QueueAction.popped?]

/-- An access that settles nothing is matched by no mark. -/
theorem matched_access {t : Side}
    (hp : s'.producer.status = s.producer.status)
    (hc : s'.consumer.status = s.consumer.status) : Matched N P C s (.access t) s' := by
  rw [Matched, view_access]
  refine Matches.quiet rfl rfl fun u => ?_
  cases u with
  | producer => exact hp
  | consumer => exact hc

/-- An access that settles the result of a call without changing the queue. -/
theorem matched_point {t : Side} {op : QueueOp Int64} {res : QueueRes Int64}
    (hq : QueueStep ((N.n - 1 : ℕ) : ℕ∞) (P.drop C.length) op res (P.drop C.length))
    (ht : statusOf s.producer s.consumer t = .called op)
    (ht' : statusOf s'.producer s'.consumer t = .done res)
    (hother : ∀ u, u ≠ t →
      statusOf s'.producer s'.consumer u = statusOf s.producer s.consumer u) :
    Matched N P C s (.access t) s' := by
  rw [Matched, view_access]
  exact Matches.point t op res rfl ht ht' hq hother

/-- A store of `write` is the serialization point of the push it ends. -/
theorem Inv.matched_publish (h : Inv N P C s) {c : PushCall} {nt : Int64}
    (hpc : s.producer = .storeWrite c nt) :
    Matched N P C s (.publish .producer c.val)
      { s with write := nt, producer := .returning c.accepted } := by
  have hp := h.producer
  rw [hpc] at hp
  obtain ⟨-, hroom, -⟩ := hp
  have hle := h.le
  have hdrop : (P ++ [c.val]).drop C.length = P.drop C.length ++ [c.val] :=
    List.drop_append_of_le_length hle
  have hlen : ((P.drop C.length).length : ℕ∞) < ((N.n - 1 : ℕ) : ℕ∞) := by
    rw [List.length_drop, Nat.cast_lt]
    omega
  have hstep : QueueStep ((N.n - 1 : ℕ) : ℕ∞) (P.drop C.length) c.op c.accepted
      (P.drop C.length ++ [c.val]) := by
    cases c with
    | tryPush v => exact .tryPush v hlen
    | push v => exact .push v hlen
  refine Matches.point .producer c.op c.accepted rfl ?_ rfl ?_ fun u hu => ?_
  · simp [view, hpc, Producer.status]
  · simpa [view, QueueAction.published?, QueueAction.popped?, hdrop] using hstep
  · exact statusOf_eq_of_ne_producer u hu

/-- A store of `read` is the serialization point of the pop it ends. -/
theorem Inv.matched_consume (h : Inv N P C s) {c : PopCall} {ch v : Int64}
    (hpc : s.consumer = .storeRead c ch v) (r : Int64) :
    Matched N P C s (.consume .consumer v)
      { s with read := r, consumer := .returning (c.taken v) } := by
  have hc := h.consumer
  rw [hpc] at hc
  obtain ⟨-, hval⟩ := hc
  obtain ⟨hlt, hget⟩ := List.getElem?_eq_some_iff.mp hval
  have hdrop : P.drop C.length = v :: P.drop (C.length + 1) := by
    rw [List.drop_eq_getElem_cons hlt, hget]
  have hstep : QueueStep ((N.n - 1 : ℕ) : ℕ∞) (P.drop C.length) c.op (c.taken v)
      (P.drop (C.length + 1)) := by
    rw [hdrop]
    cases c with
    | tryPop => exact .tryPop v _
    | pop => exact .pop v _
  refine Matches.point .consumer c.op (c.taken v) rfl ?_ rfl ?_ fun u hu => ?_
  · simp [view, hpc, Consumer.status]
  · simpa [view, QueueAction.published?, QueueAction.popped?] using hstep
  · exact statusOf_eq_of_ne_consumer u hu

/-- A refused `try_push` is serialized at its load of `read`; a refused round of
`push` is no more than waiting. -/
theorem Inv.matched_refused_push (h : Inv N P C s) {c : PushCall} {ct nt : Int64}
    (hpc : s.producer = .loadRead c ct nt) (heq : nt = s.read) :
    Matched N P C s (.access .producer) { s with producer := .refused c } := by
  have hfull := h.full_of_refused hpc heq
  cases c with
  | tryPush v =>
    have hstep : QueueStep ((N.n - 1 : ℕ) : ℕ∞) (P.drop C.length) (.tryPush v) (.tryPush false)
        (P.drop C.length) := .tryPushFull v (by rw [hfull])
    refine matched_point hstep ?_ rfl statusOf_eq_of_ne_producer
    simp [hpc, Producer.status, PushCall.op]
  | push v =>
    -- `push` has settled nothing, and calls `try_push` again
    exact matched_access (by simp [hpc, Producer.refused, Producer.status]) rfl

/-- A refused `try_pop` is serialized at its load of `write`; a refused round of
`pop` is no more than waiting. -/
theorem Inv.matched_refused_pop (h : Inv N P C s) {c : PopCall} {ch : Int64}
    (hpc : s.consumer = .loadWrite c ch) (heq : ch = s.write) :
    Matched N P C s (.access .consumer) { s with consumer := .refused c } := by
  have hempty := h.empty_of_refused hpc heq
  cases c with
  | tryPop =>
    have hstep : QueueStep ((N.n - 1 : ℕ) : ℕ∞) (P.drop C.length) .tryPop (.tryPop none)
        (P.drop C.length) := by
      rw [hempty]
      exact .tryPopEmpty
    refine matched_point hstep ?_ rfl statusOf_eq_of_ne_consumer
    simp [hpc, Consumer.status, PopCall.op]
  | pop =>
    -- `pop` has settled nothing, and calls `try_pop` again
    exact matched_access rfl (by simp [hpc, Consumer.refused, Consumer.status])

/-- **Every step of the producer is matched.** -/
theorem Inv.matched_producerStep (h : Inv N P C s)
    (hs : ModuloRing.producerStep N s = some (a, s')) : Matched N P C s a s' := by
  cases producerStep_cases hs with
  | loadWrite c hpc => exact matched_access (by simp [hpc, Producer.status]) rfl
  | passed c ct nt hpc hne => exact matched_access (by simp [hpc, Producer.status]) rfl
  | refused c ct nt hpc heq => exact h.matched_refused_push hpc heq
  | writeSlot c ct nt hpc => exact matched_access (by simp [hpc, Producer.status]) rfl
  | storeWrite c nt hpc => exact h.matched_publish hpc
  | ret res hpc =>
    refine Matches.ret ?_ rfl ?_ fun u hu => ?_
    · simp [view, hpc, Producer.status]
    · simp [view, QueueAction.published?, QueueAction.popped?]
    · exact statusOf_eq_of_ne_producer u hu

/-- **Every step of the consumer is matched.** -/
theorem Inv.matched_consumerStep (h : Inv N P C s)
    (hs : ModuloRing.consumerStep N s = some (a, s')) : Matched N P C s a s' := by
  cases consumerStep_cases hs with
  | loadRead c hpc => exact matched_access rfl (by simp [hpc, Consumer.status])
  | refused c ch hpc heq => exact h.matched_refused_pop hpc heq
  | passed c ch hpc hne => exact matched_access rfl (by simp [hpc, Consumer.status])
  | readSlot c ch hpc => exact matched_access rfl (by simp [hpc, Consumer.status])
  | storeRead c ch v hpc => exact h.matched_consume hpc _
  | ret res hpc =>
    refine Matches.ret ?_ rfl ?_ fun u hu => ?_
    · simp [view, hpc, Consumer.status]
    · simp [view, QueueAction.published?, QueueAction.popped?]
    · exact statusOf_eq_of_ne_consumer u hu

/-- **Every step is matched.** -/
theorem Inv.matched (h : Inv N P C s) (hs : Step N s a s') : Matched N P C s a s' := by
  cases hs with
  | pushCall c hidle =>
    refine Matches.call ?_ rfl ?_ fun u hu => ?_
    · simp [view, hidle, Producer.status]
    · simp [view, QueueAction.published?, QueueAction.popped?]
    · exact statusOf_eq_of_ne_producer u hu
  | producer hs => exact h.matched_producerStep hs
  | popCall c hidle =>
    refine Matches.call ?_ rfl ?_ fun u hu => ?_
    · simp [view, hidle, Consumer.status]
    · simp [view, QueueAction.published?, QueueAction.popped?]
    · exact statusOf_eq_of_ne_consumer u hu
  | consumer hs => exact h.matched_consumerStep hs

/-- **The histories of the ring buffer are those of a bounded queue.** -/
theorem linearizable_history (hN : N.n < 2 ^ 31) {tr : List Action} (h : (system N).Run tr s) :
    (fifo Int64 ((N.n - 1 : ℕ) : ℕ∞)).Linearizable (history tr) := by
  refine linearizable_of_matches (M := system N) view ?_ ?_ h
  · rintro s ⟨-, -, hp, hc⟩
    refine congrArg (AtomicState.mk []) (funext fun u => ?_)
    cases u <;> simp [hp, hc, Producer.status, Consumer.status]
  · exact fun tr s a s' hrun hs => (inv_of_run hN hrun).matched hs

/-! ### The main result -/

/-- **The ring buffer with wrapped indices is a first-in first-out queue of
`RING_BUFFER_SIZE - 1` values**: its histories are linearizable to that queue;
what was popped, then the unread slots, is always what was published; a push gives
up only at a load of `read` at which the queue was full, a pop only at a load of
`write` at which it was empty, and `false` is returned in no other way. -/
theorem wrapped_ring_is_bounded_queue (hN : N.n < 2 ^ 31) {tr : List Action}
    (h : (system N).Run tr s) :
    (fifo Int64 ((N.n - 1 : ℕ) : ℕ∞)).Linearizable (history tr) ∧
    QueueAction.popped tr ++ unread N s = published tr ∧
    ∀ a s', (system N).Step s a s' →
      (RefusesPush s s' → (unread N s).length = N.n - 1) ∧
      (RefusesPop s s' → unread N s = []) ∧
      (s.producer ≠ .returning (.tryPush false) → s'.producer = .returning (.tryPush false) →
        RefusesPush s s') ∧
      (s.consumer ≠ .returning (.tryPop none) → s'.consumer = .returning (.tryPop none) →
        RefusesPop s s') := by
  have hinv := inv_of_run hN h
  refine ⟨linearizable_history hN h, hinv.popped_append_unread, fun a s' hs =>
    ⟨fun hr => ?_, fun hr => ?_, Step.refusesPush hs, Step.refusesPop hs⟩⟩
  · obtain ⟨c, ct, nt, hp, heq⟩ := Step.eq_of_refusesPush hs hr
    exact hinv.unread_eq ▸ hinv.full_of_refused hp heq
  · obtain ⟨c, ch, hp, heq⟩ := Step.eq_of_refusesPop hs hr
    exact hinv.unread_eq ▸ hinv.empty_of_refused hp heq

/-- A state of the program's own buffer: a value has been pushed, up to the return. -/
def pushedOnce (v : Int64) : State where
  write := 1
  read := 0
  buffer := Function.update (fun _ => 0) 0 v
  producer := .returning (.tryPush true)
  consumer := .idle

theorem run_pushedOnce (v : Int64) :
    (system ringBufferSize).Run [.call .producer (.tryPush v), .access .producer,
      .access .producer, .access .producer, .publish .producer v] (pushedOnce v) := by
  have h0 : (system ringBufferSize).Run [] ⟨0, 0, fun _ => 0, .idle, .idle⟩ :=
    .start ⟨rfl, rfl, rfl, rfl⟩
  have e2 : producerStep ringBufferSize ⟨0, 0, fun _ => 0, .loadWrite (.tryPush v), .idle⟩ =
      some (.access .producer, ⟨0, 0, fun _ => 0, .loadRead (.tryPush v) 0 1, .idle⟩) := by
    rw [producerStep, show increment ringBufferSize (0 : Int64).toInt32 = 1 by decide]
  have e3 : producerStep ringBufferSize
      ⟨0, 0, fun _ => 0, .loadRead (.tryPush v) 0 1, .idle⟩ =
      some (.access .producer, ⟨0, 0, fun _ => 0, .writeSlot (.tryPush v) 0 1, .idle⟩) := by
    simp [producerStep]
  have h3 := ((h0.snoc (.pushCall (.tryPush v) rfl)).snoc (.producer e2)).snoc (.producer e3)
  exact (h3.snoc (.producer rfl)).snoc (.producer rfl)

theorem wrapped_ring_pushed_once :
    popped ([.call .producer (.tryPush 7), .access .producer, .access .producer,
      .access .producer, .publish .producer 7] : List Action) ++
      unread ringBufferSize (pushedOnce 7) = [7] :=
  (wrapped_ring_is_bounded_queue (N := ringBufferSize) (by decide) (run_pushedOnce 7)).2.1

end ModuloRing

end Spsc

end LowLatency
