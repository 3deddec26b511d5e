import LowLatency.Spsc.CounterRing

/-!
# What holds of the ring buffers with running counters

The invariant of both classes, as long as fewer than `2 ^ 31` values have been
published (`LowLatency.Spsc.CounterRing.Inv`). Below that bound the counters count:
the value at position `i` of either history is `i`.

Loads may lag, so a thread acts on a counter that is behind. Behind is the safe
side in both directions: the producer sees at least as many unread values as there
are, the consumer at most as many as there are. What remains to be said is that the
consumer *sees* the value it reads. The writes to one slot are numbered by the
visits of the counter to it (`Nat.visits`), and a view *covers* `m` pushes if it
shows every slot after its visits below `m` (`LowLatency.Spsc.CounterRing.Covers`).
The message that carries the value `i` of `write` carries a view that covers `i`
pushes; so a consumer that has seen `write` beyond its own counter knows the write
of its slot that it is about to read, and as the producer is less than a round
ahead there is no later one.
-/

namespace LowLatency

namespace Spsc

namespace CounterRing

open Int64 (ofNat)
open ReleaseAcquire QueueAction

variable {o : Order} {N : RingSize} {P C : List Int64} {s s' : State} {a : Action}

/-! ### The invariant -/

/-- A view that shows every slot after its visits below `m`. -/
def Covers (N : RingSize) (view : View Int64) (m : ℕ) : Prop :=
  ∀ j < N.n, Nat.visits N.n j m ≤ view (ofNat j)

/-- The value the producer has written to its slot and not published yet. -/
def pending : Producer → List Int64
  | .storeWrite c _ => [c.val]
  | _ => []

/-- The histories of the slots after the values `L` have been written: what the
constructor left there, then one value for each visit. -/
structure SlotsInv (N : RingSize) (L : List Int64) (slots : Int64 → List Int64) : Prop where
  length : ∀ j < N.n, (slots (ofNat j)).length = Nat.visits N.n j L.length + 1
  value : ∀ i < L.length,
    (slots (ofNat (i % N.n)))[Nat.visits N.n (i % N.n) i + 1]? = L[i]?

/-- What the producer knows at its next access. -/
def ProducerInv (N : RingSize) (P C : List Int64) : Producer → Prop
  | .loadRead _ currentTail nextTail =>
    currentTail = ofNat P.length ∧ nextTail = increment currentTail.toInt32
  | .writeSlot _ currentTail nextTail =>
    currentTail = ofNat P.length ∧ nextTail = increment currentTail.toInt32 ∧
      P.length + 1 ≤ C.length + N.n
  | .storeWrite _ nextTail =>
    nextTail = increment (ofNat P.length).toInt32 ∧ P.length + 1 ≤ C.length + N.n
  | _ => True

/-- What the consumer knows at its next access, having observed position `seen` of
`write`. -/
def ConsumerInv (P C : List Int64) (seen : ℕ) : Consumer → Prop
  | .loadWrite _ currentHead => currentHead = ofNat C.length
  | .readSlot _ currentHead => currentHead = ofNat C.length ∧ C.length < seen
  | .storeRead _ currentHead val =>
    currentHead = ofNat C.length ∧ C.length < seen ∧ P[C.length]? = some val
  | _ => True

/-- No view shows more of a slot than its history. -/
structure ViewsInv (s : State) : Prop where
  producer : ∀ i, s.producerView i < (s.slots i).length
  consumer : ∀ i, s.consumerView i < (s.slots i).length
  write : ∀ m ∈ s.writeLog, ∀ i, m.view i < (s.slots i).length
  read : ∀ m ∈ s.readLog, ∀ i, m.view i < (s.slots i).length

/-- **The invariant**, when the values `P` have been published and the values `C`
popped. -/
structure Inv (N : RingSize) (P C : List Int64) (s : State) : Prop where
  le : C.length ≤ P.length
  /-- At most `size` values are unread. -/
  room : P.length ≤ C.length + N.n
  popped : C = P.take C.length
  writeLog_length : s.writeLog.length = P.length + 1
  /-- `write` has counted the pushes, and released what was pushed. -/
  writeLog : ∀ i ≤ P.length, ∃ m, s.writeLog[i]? = some m ∧ m.value = ofNat i ∧
    Covers N m.view i
  readLog_length : s.readLog.length = C.length + 1
  /-- `read` has counted the pops. -/
  readLog : ∀ i ≤ C.length, ∃ m, s.readLog[i]? = some m ∧ m.value = ofNat i
  producerSeen : s.producerSeen ≤ C.length
  /-- The consumer has observed the pushes of the values it has popped. -/
  consumerSeen : C.length ≤ s.consumerSeen
  consumerSeen_le : s.consumerSeen ≤ P.length
  producerView : Covers N s.producerView (P ++ pending s.producer).length
  consumerView : Covers N s.consumerView s.consumerSeen
  slots : SlotsInv N (P ++ pending s.producer) s.slots
  producer : ProducerInv N P C s.producer
  consumer : ConsumerInv P C s.consumerSeen s.consumer

/-! ### Views -/

theorem Covers.mono {view : View Int64} {m m' : ℕ} (h : Covers N view m') (hle : m ≤ m') :
    Covers N view m :=
  fun j hj => (Nat.visits_mono hle).trans (h j hj)

theorem Covers.sup_right {view view' : View Int64} {m : ℕ} (h : Covers N view' m) :
    Covers N (view ⊔ view') m :=
  fun j hj => (h j hj).trans le_sup_right

theorem Covers.sup_left {view view' : View Int64} {m : ℕ} (h : Covers N view m) :
    Covers N (view ⊔ view') m :=
  fun j hj => (h j hj).trans le_sup_left

/-- Slots are compared as numbers. -/
theorem ofNat_slot_inj {i j : ℕ} (hi : i < N.n) (hj : j < N.n) : ofNat i = ofNat j ↔ i = j :=
  Int64.ofNat_inj_of_lt (hi.trans N.lt) (hj.trans N.lt)

/-- **The write of the next value** to its slot: one more visit, shown by the view
of the thread that made it. -/
theorem SlotsInv.push {L : List Int64} {slots : Int64 → List Int64} (h : SlotsInv N L slots)
    (v : Int64) :
    SlotsInv N (L ++ [v]) (Function.update slots (ofNat (L.length % N.n))
      (slots (ofNat (L.length % N.n)) ++ [v])) := by
  have hslot : L.length % N.n < N.n := Nat.mod_lt _ N.pos
  refine ⟨fun j hj => ?_, fun i hi => ?_⟩
  · rw [List.length_append, List.length_singleton]
    rcases eq_or_ne (L.length % N.n) j with rfl | hne
    · rw [Function.update_self, List.length_append, List.length_singleton, h.length _ hj,
        Nat.visits_succ_self]
    · rw [Function.update_of_ne (fun hc => hne ((ofNat_slot_inj hj hslot).mp hc).symm),
        h.length j hj, Nat.visits_succ_of_ne hne]
  · rw [List.length_append, List.length_singleton] at hi
    have hi' : i % N.n < N.n := Nat.mod_lt _ N.pos
    rcases Nat.lt_or_ge i L.length with hlt | hge
    · -- an earlier value: it stays where it was
      rw [List.getElem?_append_left hlt, ← h.value i hlt]
      rcases eq_or_ne (i % N.n) (L.length % N.n) with heq | hne
      · rw [heq, Function.update_self, List.getElem?_append_left]
        rw [h.length _ hslot, ← heq]
        have hlen := Nat.visits_mono (n := N.n) (j := i % N.n) hlt
        rw [Nat.visits_succ_self] at hlen
        omega
      · rw [Function.update_of_ne (fun hc => hne ((ofNat_slot_inj hi' hslot).mp hc))]
    · -- the value just written: it is the last one of its slot
      obtain rfl : i = L.length := by omega
      rw [Function.update_self, List.getElem?_concat_length, ← h.length _ hslot,
        List.getElem?_concat_length]

/-- The view of a thread after its own write to a slot. -/
theorem Covers.push {view : View Int64} {L : List Int64} {slots : Int64 → List Int64}
    (h : Covers N view L.length) (hs : SlotsInv N L slots) :
    Covers N (Function.update view (ofNat (L.length % N.n))
      (slots (ofNat (L.length % N.n))).length) (L.length + 1) := by
  have hslot : L.length % N.n < N.n := Nat.mod_lt _ N.pos
  intro j hj
  rcases eq_or_ne (L.length % N.n) j with rfl | hne
  · rw [Function.update_self, hs.length _ hj, Nat.visits_succ_self]
  · rw [Function.update_of_ne (fun hc => hne ((ofNat_slot_inj hj hslot).mp hc).symm),
      Nat.visits_succ_of_ne hne]
    exact h j hj

/-- **A plain read is forced.** A view that covers the push at position `i`, read
less than a round later, leaves one value to return: the one pushed there. -/
theorem SlotsInv.read_eq {L : List Int64} {slots : Int64 → List Int64} (h : SlotsInv N L slots)
    {view : View Int64} {i k m : ℕ} {v : Int64} (hview : Covers N view m) (him : i < m)
    (hround : L.length ≤ i + N.n) (hiL : i < L.length) (hk : view (ofNat (i % N.n)) ≤ k)
    (hv : (slots (ofNat (i % N.n)))[k]? = some v) : L[i]? = some v := by
  have hslot : i % N.n < N.n := Nat.mod_lt _ N.pos
  have hlower : Nat.visits N.n (i % N.n) i + 1 ≤ k := by
    have h1 := Nat.visits_mono (n := N.n) (j := i % N.n) him
    rw [Nat.visits_succ_self] at h1
    exact h1.trans ((hview _ hslot).trans hk)
  have hupper : k < Nat.visits N.n (i % N.n) i + 1 + 1 := by
    have h2 := (List.getElem?_eq_some_iff.mp hv).1
    rwa [h.length _ hslot, Nat.visits_round hiL hround] at h2
  -- not older, since the view covers the push, and not newer, since no round has passed
  obtain rfl : k = Nat.visits N.n (i % N.n) i + 1 := by omega
  rw [← h.value i hiL]
  exact hv

/-! ### Arithmetic of the counters -/

/-- Below `2 ^ 31` the counter is incremented. -/
theorem increment_ofNat {k : ℕ} (h : k + 1 < 2 ^ 31) :
    increment (ofNat k).toInt32 = ofNat (k + 1) :=
  Int64.toInt64_add_one h

/-- **The test of `try_push`**, on the counters it compares. -/
theorem sub_le_iff {w r : ℕ} (hw : w < 2 ^ 31) (hr : r < 2 ^ 31) :
    ofNat w - ofNat r ≤ N.size - 1 ↔ w + 1 ≤ r + N.n := by
  have hn := N.pos
  have hlt := N.lt
  have hsize : (N.size - 1).toInt = (N.n : ℤ) - 1 := by
    rw [Int64.toInt_sub, RingSize.toInt_size, show (1 : Int64).toInt = 1 by decide]
    exact Int.bmod_eq_of_le (by omega) (by omega)
  rw [Int64.le_iff_toInt_le, Int64.toInt_ofNat_sub (by omega) (by omega), hsize]
  omega

/-- The value `write` holds. -/
theorem Inv.latest_write (h : Inv N P C s) : latest s.writeLog = ofNat P.length := by
  obtain ⟨m, hm, hval, -⟩ := h.writeLog _ le_rfl
  rw [latest_eq h.writeLog_length hm, hval]

/-- The value `read` holds. -/
theorem Inv.latest_read (h : Inv N P C s) : latest s.readLog = ofNat C.length := by
  obtain ⟨m, hm, hval⟩ := h.readLog _ le_rfl
  rw [latest_eq h.readLog_length hm, hval]

/-- The slots written are never more than a round ahead of the pops. -/
theorem Inv.written_le (h : Inv N P C s) :
    (P ++ pending s.producer).length ≤ C.length + N.n := by
  have hp := h.producer
  have hroom := h.room
  cases hpc : s.producer with
  | storeWrite c nt =>
    rw [hpc] at hp
    simpa [pending] using hp.2
  | _ => simpa [pending] using hroom

/-! ### What the other thread cannot spoil -/

theorem ProducerInv.pop {p : Producer} (h : ProducerInv N P C p) (l : List Int64) :
    ProducerInv N P (C ++ l) p := by
  cases p with
  | writeSlot c ct nt =>
    obtain ⟨hct, hnt, hroom⟩ := h
    exact ⟨hct, hnt, by rw [List.length_append]; omega⟩
  | storeWrite c nt =>
    obtain ⟨hnt, hroom⟩ := h
    exact ⟨hnt, by rw [List.length_append]; omega⟩
  | _ => exact h

theorem ConsumerInv.push {c : Consumer} {seen : ℕ} (h : ConsumerInv P C seen c)
    (l : List Int64) : ConsumerInv (P ++ l) C seen c := by
  cases c with
  | storeRead c ch v =>
    obtain ⟨hch, hseen, hv⟩ := h
    refine ⟨hch, hseen, ?_⟩
    rw [List.getElem?_append_left (List.getElem?_eq_some_iff.mp hv).1]
    exact hv
  | _ => exact h

/-! ### The steps keep the invariant -/

theorem inv_init (hs : (system o N).Init s) : Inv N [] [] s := by
  obtain ⟨hw, hr, hslots, hp, hc, hps, hcs, hpv, hcv, -⟩ := hs
  have hcov : ∀ view : View Int64, Covers N view 0 := fun view j _ => by simp
  refine ⟨le_rfl, by simp, rfl, by simp [hw], ?_, by simp [hr], ?_, by simp [hps], by simp,
    by simp [hcs], ?_, ?_, ?_, ?_, ?_⟩
  · intro i hi
    obtain rfl : i = 0 := by simpa using hi
    exact ⟨⟨0, fun _ => 0⟩, by simp [hw], rfl, hcov _⟩
  · intro i hi
    obtain rfl : i = 0 := by simpa using hi
    exact ⟨⟨0, fun _ => 0⟩, by simp [hr], rfl⟩
  · simpa [hp, pending] using hcov _
  · simpa [hcs] using hcov _
  · rw [hp]
    exact ⟨fun j _ => by simp [hslots, pending], fun i hi => by simp [pending] at hi⟩
  · rw [hp]
    trivial
  · rw [hc]
    trivial

/-- **The producer keeps the invariant**, as long as the value it publishes is not
the one numbered `2 ^ 31`. -/
theorem Inv.producerStep {k : ℕ} (h : Inv N P C s)
    (hlt : (P ++ a.published?.toList).length < 2 ^ 31)
    (hs : producerStep o N k s = some (a, s')) :
    Inv N (P ++ a.published?.toList) (C ++ a.popped?.toList) s' := by
  have hp := h.producer
  have hP : P.length < 2 ^ 31 := by
    rw [List.length_append] at hlt
    omega
  have hview := h.producerView
  have hslots := h.slots
  cases producerStep_cases hs with
  | loadWrite c hpc =>
    rw [hpc] at hview hslots
    have hp' : ProducerInv N P C
        (.loadRead c (latest s.writeLog) (increment (latest s.writeLog).toInt32)) :=
      ⟨h.latest_write, rfl⟩
    simpa [QueueAction.published?, QueueAction.popped?] using
      { h with producer := hp', producerView := hview, slots := hslots }
  | loadRead c ct nt k m hpc hk hm =>
    rw [hpc] at hp hview hslots
    obtain ⟨hct, hnt⟩ := hp
    have hkC : k ≤ C.length := by
      have hlen := h.readLog_length
      have := hk.2.1
      omega
    -- the load may return an old message, but none that counts more pops than there were
    obtain ⟨m', hm', hval⟩ := h.readLog k hkC
    obtain rfl : m = m' := Option.some_inj.mp (hm.symm.trans hm')
    by_cases hle : ct - m.value ≤ N.size - 1
    · -- the counter seen is behind, so there is even more room than it shows
      have hroom : P.length + 1 ≤ C.length + N.n := by
        have hle' := h.le
        rw [hct, hval, sub_le_iff hP (by omega)] at hle
        omega
      have hp' : ProducerInv N P C (.writeSlot c ct nt) := ⟨hct, hnt, hroom⟩
      simpa [QueueAction.published?, QueueAction.popped?, hle] using
        { h with
          producer := hp', producerSeen := hkC, producerView := hview.sup_left
          slots := hslots }
    · have hp' : ProducerInv N P C (.refused c) := by cases c <;> trivial
      have hpend : pending (.refused c) = [] := by cases c <;> rfl
      simpa [QueueAction.published?, QueueAction.popped?, hle] using
        { h with
          producer := hp', producerSeen := hkC
          producerView := hpend ▸ hview.sup_left, slots := hpend ▸ hslots }
  | writeSlot c ct nt hpc =>
    rw [hpc] at hp hview hslots
    obtain ⟨hct, hnt, hroom⟩ := hp
    have hi : ct % N.size = ofNat (P.length % N.n) := by
      rw [hct, ofNat_mod_size (by omega)]
    have hp' : ProducerInv N P C (.storeWrite c nt) := ⟨by rw [hnt, hct], hroom⟩
    simp only [pending, List.append_nil] at hview hslots
    have hview' := hview.push hslots
    have hslots' := hslots.push c.val
    simpa [QueueAction.published?, QueueAction.popped?, hi] using
      { h with
        producer := hp', producerView := by simpa [pending] using hview', slots := hslots' }
  | storeWrite c nt hpc =>
    rw [hpc] at hp hview hslots
    obtain ⟨hnt, hroom⟩ := hp
    simp only [QueueAction.published?, QueueAction.popped?, Option.toList_some, Option.toList_none,
      List.append_nil] at hlt ⊢
    have hlen : (P ++ [c.val]).length = P.length + 1 := by simp
    rw [hlen] at hlt
    refine ⟨by rw [hlen]; exact h.le.trans (Nat.le_succ _), by rw [hlen]; exact hroom, ?_,
      by simp [h.writeLog_length], ?_, h.readLog_length, h.readLog, h.producerSeen,
      h.consumerSeen, by rw [hlen]; exact h.consumerSeen_le.trans (Nat.le_succ _), ?_,
      h.consumerView, ?_, trivial, h.consumer.push _⟩
    · rw [List.take_append_of_le_length h.le]
      exact h.popped
    · rw [hlen]
      refine forall_message_push h.writeLog_length h.writeLog ⟨?_, ?_⟩
      · rw [hnt, increment_ofNat hlt]
      · simpa [pending] using hview
    · simpa [pending] using hview
    · simpa [pending] using hslots
  | ret res hpc =>
    rw [hpc] at hview hslots
    simpa [QueueAction.published?, QueueAction.popped?] using
      { h with
        producer := (trivial : ProducerInv N P C .idle), producerView := hview
        slots := hslots }

/-- **What a plain read of the consumer returns** is the value of the pop it
belongs to, whichever of the admissible writes the read picks. -/
theorem Inv.readSlot_eq (h : Inv N P C s) (hP : P.length < 2 ^ 31) {c : PopCall} {ch v : Int64}
    {k : ℕ} (hpc : s.consumer = .readSlot c ch) (hk : s.consumerView (ch % N.size) ≤ k)
    (hv : (s.slots (ch % N.size))[k]? = some v) : P[C.length]? = some v := by
  have hc := h.consumer
  rw [hpc] at hc
  obtain ⟨hch, hseen⟩ := hc
  have hseen' := h.consumerSeen_le
  have hi : ch % N.size = ofNat (C.length % N.n) := by
    rw [hch, ofNat_mod_size (by omega)]
  rw [hi] at hk hv
  have hlt : C.length < (P ++ pending s.producer).length := by
    rw [List.length_append]
    omega
  -- the consumer has observed the push, and the producer cannot have lapped it
  have hread := h.slots.read_eq h.consumerView hseen h.written_le hlt hk hv
  rwa [List.getElem?_append_left (by omega)] at hread

/-- **The consumer keeps the invariant.** -/
theorem Inv.consumerStep {k : ℕ} (h : Inv N P C s) (hP : P.length < 2 ^ 31)
    (hs : consumerStep o N k s = some (a, s')) :
    Inv N (P ++ a.published?.toList) (C ++ a.popped?.toList) s' := by
  have hc := h.consumer
  cases consumerStep_cases hs with
  | loadRead c hpc =>
    have hc' : ConsumerInv P C s.consumerSeen (.loadWrite c (latest s.readLog)) := h.latest_read
    simpa [QueueAction.published?, QueueAction.popped?] using { h with consumer := hc' }
  | loadWrite c ch k m hpc hk hm =>
    rw [hpc] at hc
    have hch : ch = ofNat C.length := hc
    have hkP : k ≤ P.length := by
      have hlen := h.writeLog_length
      have := hk.2.1
      omega
    obtain ⟨m', hm', hval, hcov⟩ := h.writeLog k hkP
    obtain rfl : m = m' := Option.some_inj.mp (hm.symm.trans hm')
    have hseen : C.length ≤ k := h.consumerSeen.trans hk.1
    by_cases heq : ch = m.value
    · have hc' : ConsumerInv P C k (.refused c) := by cases c <;> trivial
      simpa [QueueAction.published?, QueueAction.popped?, heq] using
        { h with
          consumer := hc', consumerSeen := hseen, consumerSeen_le := hkP
          consumerView := hcov.sup_right }
    · -- the counter seen is not the consumer's own, so it is beyond it
      have hlt : C.length < k := by
        refine lt_of_le_of_ne hseen fun hc => heq ?_
        rw [hch, hval, hc]
      have hc' : ConsumerInv P C k (.readSlot c ch) := ⟨hch, hlt⟩
      simpa [QueueAction.published?, QueueAction.popped?, heq] using
        { h with
          consumer := hc', consumerSeen := hseen, consumerSeen_le := hkP
          consumerView := hcov.sup_right }
  | readSlot c ch k v hpc hk hv =>
    have hval := h.readSlot_eq hP hpc hk hv
    rw [hpc] at hc
    obtain ⟨hch, hseen⟩ := hc
    have hc' : ConsumerInv P C s.consumerSeen (.storeRead c ch v) := ⟨hch, hseen, hval⟩
    simpa [QueueAction.published?, QueueAction.popped?] using { h with consumer := hc' }
  | storeRead c ch v hpc =>
    rw [hpc] at hc
    obtain ⟨hch, hseen, hval⟩ := hc
    have hCP : C.length < P.length := (List.getElem?_eq_some_iff.mp hval).1
    have hroom := h.room
    have hps := h.producerSeen
    simp only [QueueAction.published?, QueueAction.popped?, Option.toList_some, Option.toList_none,
      List.append_nil]
    have hlen : (C ++ [v]).length = C.length + 1 := by simp
    refine ⟨by rw [hlen]; exact hCP, by rw [hlen]; omega, ?_, h.writeLog_length, h.writeLog,
      by simp [h.readLog_length], ?_, by rw [hlen]; exact hps.trans (Nat.le_succ _),
      by rw [hlen]; exact hseen,
      h.consumerSeen_le, h.producerView, h.consumerView, h.slots, h.producer.pop _, trivial⟩
    · rw [hlen, List.take_add_one, hval, Option.toList_some, ← h.popped]
    · rw [hlen]
      refine forall_message_push h.readLog_length h.readLog ?_
      rw [hch, increment_ofNat (by omega)]
  | ret res hpc =>
    simpa [QueueAction.published?, QueueAction.popped?] using
      { h with consumer := (trivial : ConsumerInv P C s.consumerSeen .idle) }

/-- **Every step keeps the invariant**, below `2 ^ 31` pushes. -/
theorem Inv.step (h : Inv N P C s) (hlt : (P ++ a.published?.toList).length < 2 ^ 31)
    (hs : Step o N s a s') : Inv N (P ++ a.published?.toList) (C ++ a.popped?.toList) s' := by
  rcases hs with ⟨c, hidle⟩ | ⟨k, hs⟩ | ⟨c, hidle⟩ | ⟨k, hs⟩
  · have hview := h.producerView
    have hslots := h.slots
    rw [hidle] at hview hslots
    simpa [QueueAction.published?, QueueAction.popped?] using
      { h with
        producer := (trivial : ProducerInv N P C (.loadWrite c)), producerView := hview
        slots := hslots }
  · exact h.producerStep hlt hs
  · simpa [QueueAction.published?, QueueAction.popped?] using
      { h with consumer := (trivial : ConsumerInv P C s.consumerSeen (.loadRead c)) }
  · refine h.consumerStep ?_ hs
    rw [List.length_append] at hlt
    omega

/-- **The invariant holds along every run** of fewer than `2 ^ 31` pushes. -/
theorem inv_of_run {tr : List Action} (h : (system o N).Run tr s)
    (hlt : (published tr).length < 2 ^ 31) : Inv N (published tr) (QueueAction.popped tr) s := by
  revert hlt
  -- the bound holds of every beginning of the run, so it goes into the induction
  refine h.invariant (I := fun tr s => (published tr).length < 2 ^ 31 →
    Inv N (published tr) (QueueAction.popped tr) s) ?_ ?_
  · exact fun s hs _ => inv_init hs
  · intro tr s a s' _ ih hs hlt
    rw [published_snoc] at hlt ⊢
    rw [popped_snoc]
    refine (ih ?_).step hlt hs
    rw [List.length_append] at hlt
    omega

end CounterRing

end Spsc

end LowLatency
