import LowLatency.Spsc.ModuloRing
import Mathlib.Data.List.Basic

/-!
# What holds of the ring buffer with wrapped indices

The invariant that carries every result about the class
(`LowLatency.Spsc.ModuloRing.Inv`). It is stated against the lists of the values
published and popped so far, whose lengths are the two counters the wrapped
indices stand for: `write` is the number of pushes modulo the size of the array,
`read` the number of pops, the difference is less than the size, and the slots
between the two hold the values published and not popped yet, in order.

The two threads decide from indices they loaded some steps ago. What they may
still rely on is what the other thread cannot change: only the producer stores
`write`, so its copy of the index stays exact, and the room it saw can only grow;
symmetrically for the consumer. This is all that
`LowLatency.Spsc.ModuloRing.ProducerInv` and
`LowLatency.Spsc.ModuloRing.ConsumerInv` record, and why each survives the steps
of the other thread (`LowLatency.Spsc.ModuloRing.ProducerInv.pop`,
`LowLatency.Spsc.ModuloRing.ConsumerInv.push`).
-/

namespace LowLatency

namespace Spsc

namespace ModuloRing

open Int64 (ofNat)
open QueueAction

variable {N : RingSize} {P C : List Int64} {s s' : State} {a : Action}

/-! ### The invariant -/

/-- What the producer knows at its next access: the index it loaded is that of the
next push, and past the test there is room for one more value. -/
def ProducerInv (N : RingSize) (P C : List Int64) (buffer : Int64 → Int64) : Producer → Prop
  | .loadRead _ currentTail nextTail =>
    currentTail = ofNat (P.length % N.n) ∧ nextTail = ofNat ((P.length + 1) % N.n)
  | .writeSlot _ currentTail nextTail =>
    currentTail = ofNat (P.length % N.n) ∧ nextTail = ofNat ((P.length + 1) % N.n) ∧
      P.length + 1 < C.length + N.n
  | .storeWrite c nextTail =>
    nextTail = ofNat ((P.length + 1) % N.n) ∧ P.length + 1 < C.length + N.n ∧
      buffer (ofNat (P.length % N.n)) = c.val
  | _ => True

/-- What the consumer knows at its next access: the index it loaded is that of the
next pop, past the test there is a value to pop, and once read it is the oldest
one. -/
def ConsumerInv (N : RingSize) (P C : List Int64) : Consumer → Prop
  | .loadWrite _ currentHead => currentHead = ofNat (C.length % N.n)
  | .readSlot _ currentHead => currentHead = ofNat (C.length % N.n) ∧ C.length < P.length
  | .storeRead _ currentHead val =>
    currentHead = ofNat (C.length % N.n) ∧ P[C.length]? = some val
  | _ => True

/-- **The invariant**, when the values `P` have been published and the values `C`
popped. -/
structure Inv (N : RingSize) (P C : List Int64) (s : State) : Prop where
  /-- Pops do not overtake pushes. -/
  le : C.length ≤ P.length
  /-- One slot stays free. -/
  lt : P.length < C.length + N.n
  /-- The values popped are the first ones published. -/
  popped : C = P.take C.length
  /-- `write` counts the pushes. -/
  write : s.write = ofNat (P.length % N.n)
  /-- `read` counts the pops. -/
  read : s.read = ofNat (C.length % N.n)
  /-- The slots in between hold the values published and not popped. -/
  slots : ∀ k, C.length ≤ k → k < P.length → P[k]? = some (s.buffer (ofNat (k % N.n)))
  /-- What the producer knows. -/
  producer : ProducerInv N P C s.buffer s.producer
  /-- What the consumer knows. -/
  consumer : ConsumerInv N P C s.consumer

/-! ### Arithmetic of the indices -/

/-- **The next index.** Up to `2 ^ 31 - 1` slots, the argument of `increment`
survives the narrowing and the sum does not overflow. -/
theorem increment_ofNat (hN : N.n < 2 ^ 31) (k : ℕ) :
    increment N (ofNat (k % N.n)).toInt32 = ofNat ((k + 1) % N.n) := by
  have hk : k % N.n < N.n := Nat.mod_lt _ N.pos
  rw [increment, Int64.toInt64_add_one (by omega), RingSize.size,
    ← Int64.ofNat_mod (by omega) N.lt, Nat.mod_add_mod]

/-! ### What the other thread cannot spoil -/

/-- A pop leaves what the producer knows. -/
theorem ProducerInv.pop {buffer : Int64 → Int64} {p : Producer}
    (h : ProducerInv N P C buffer p) (l : List Int64) : ProducerInv N P (C ++ l) buffer p := by
  cases p with
  | writeSlot c ct nt =>
    obtain ⟨hct, hnt, hlt⟩ := h
    exact ⟨hct, hnt, by rw [List.length_append]; omega⟩
  | storeWrite c nt =>
    obtain ⟨hnt, hlt, hbuf⟩ := h
    exact ⟨hnt, by rw [List.length_append]; omega, hbuf⟩
  | _ => exact h

/-- A push leaves what the consumer knows. -/
theorem ConsumerInv.push {c : Consumer} (h : ConsumerInv N P C c) (l : List Int64) :
    ConsumerInv N (P ++ l) C c := by
  cases c with
  | readSlot c ch =>
    obtain ⟨hch, hlt⟩ := h
    exact ⟨hch, by rw [List.length_append]; omega⟩
  | storeRead c ch v =>
    obtain ⟨hch, hv⟩ := h
    refine ⟨hch, ?_⟩
    rw [List.getElem?_append_left (List.getElem?_eq_some_iff.mp hv).1]
    exact hv
  | _ => exact h

/-! ### The steps keep the invariant -/

theorem inv_init (hs : (system N).Init s) : Inv N [] [] s := by
  obtain ⟨hw, hr, hp, hc⟩ := hs
  have hpos := N.pos
  refine ⟨le_rfl, by simpa using hpos, rfl, ?_, ?_, by simp, ?_, ?_⟩
  · simp only [hw, List.length_nil, Nat.zero_mod]
    rfl
  · simp only [hr, List.length_nil, Nat.zero_mod]
    rfl
  · rw [hp]
    trivial
  · rw [hc]
    trivial

/-- **The producer keeps the invariant.** -/
theorem Inv.producerStep (hN : N.n < 2 ^ 31) (h : Inv N P C s)
    (hs : producerStep N s = some (a, s')) :
    Inv N (P ++ a.published?.toList) (C ++ a.popped?.toList) s' := by
  have hp := h.producer
  have hle := h.le
  cases producerStep_cases hs with
  | loadWrite c hpc =>
    have hinc : increment N s.write.toInt32 = ofNat ((P.length + 1) % N.n) := by
      rw [h.write, increment_ofNat hN]
    simpa [QueueAction.published?, QueueAction.popped?] using
      { h with producer := (⟨h.write, hinc⟩ : ProducerInv N P C s.buffer (.loadRead c _ _)) }
  | passed c ct nt hpc hne =>
    -- there is room, and the pops to come can only make more
    rw [hpc] at hp
    obtain ⟨hct, hnt⟩ := hp
    have hroom : P.length + 1 < C.length + N.n := by
      refine lt_of_le_of_ne h.lt fun hc => hne ?_
      have hfull : P.length + 1 = C.length + N.n := hc
      rw [hnt, h.read, ofNat_mod_inj, hfull, Nat.add_mod_right]
    have hp' : ProducerInv N P C s.buffer (.writeSlot c ct nt) := ⟨hct, hnt, hroom⟩
    simpa [QueueAction.published?, QueueAction.popped?] using { h with producer := hp' }
  | refused c ct nt hpc heq =>
    have hp' : ProducerInv N P C s.buffer (.refused c) := by cases c <;> trivial
    simpa [QueueAction.published?, QueueAction.popped?] using { h with producer := hp' }
  | writeSlot c ct nt hpc =>
    rw [hpc] at hp
    obtain ⟨rfl, hnt, hroom⟩ := hp
    have hp' : ProducerInv N P C (Function.update s.buffer (ofNat (P.length % N.n)) c.val)
        (.storeWrite c nt) := ⟨hnt, hroom, Function.update_self _ _ _⟩
    have hslots : ∀ k, C.length ≤ k → k < P.length → P[k]? = some
        (Function.update s.buffer (ofNat (P.length % N.n)) c.val (ofNat (k % N.n))) := by
      intro k hC hP
      rw [update_slot_of_lt hC hP h.lt]
      exact h.slots k hC hP
    simpa [QueueAction.published?, QueueAction.popped?]
      using { h with slots := hslots, producer := hp' }
  | storeWrite c nt hpc =>
    rw [hpc] at hp
    obtain ⟨hnt, hroom, hval⟩ := hp
    simp only [QueueAction.published?, QueueAction.popped?, Option.toList_some, Option.toList_none,
      List.append_nil]
    refine ⟨by rw [List.length_append]; omega, by simpa using hroom, ?_, by simpa using hnt,
      h.read, ?_, trivial, h.consumer.push _⟩
    · rw [List.take_append_of_le_length hle]
      exact h.popped
    · intro k hC hP
      rw [List.length_append, List.length_singleton] at hP
      rcases Nat.lt_or_ge k P.length with hk | hk
      · rw [List.getElem?_append_left hk]
        exact h.slots k hC hk
      · -- the value published is the one just written to the slot
        obtain rfl : k = P.length := by omega
        rw [List.getElem?_concat_length]
        exact congrArg some hval.symm
  | ret res hpc =>
    simpa [QueueAction.published?, QueueAction.popped?] using
      { h with producer := (trivial : ProducerInv N P C s.buffer .idle) }

/-- **The consumer keeps the invariant.** -/
theorem Inv.consumerStep (hN : N.n < 2 ^ 31) (h : Inv N P C s)
    (hs : consumerStep N s = some (a, s')) :
    Inv N (P ++ a.published?.toList) (C ++ a.popped?.toList) s' := by
  have hc := h.consumer
  cases consumerStep_cases hs with
  | loadRead c hpc =>
    simpa [QueueAction.published?, QueueAction.popped?] using
      { h with consumer := (h.read : ConsumerInv N P C (.loadWrite c s.read)) }
  | refused c ch hpc heq =>
    have hc' : ConsumerInv N P C (.refused c) := by cases c <;> trivial
    simpa [QueueAction.published?, QueueAction.popped?] using { h with consumer := hc' }
  | passed c ch hpc hne =>
    -- there is a value, and the pushes to come can only add more
    rw [hpc] at hc
    have hch : ch = ofNat (C.length % N.n) := hc
    have hlt : C.length < P.length := by
      refine lt_of_le_of_ne h.le fun heq => hne ?_
      rw [hch, h.write, heq]
    have hc' : ConsumerInv N P C (.readSlot c ch) := ⟨hch, hlt⟩
    simpa [QueueAction.published?, QueueAction.popped?] using { h with consumer := hc' }
  | readSlot c ch hpc =>
    rw [hpc] at hc
    obtain ⟨hch, hlt⟩ := hc
    have hval : P[C.length]? = some (s.buffer ch) := by
      rw [hch]
      exact h.slots _ le_rfl hlt
    have hc' : ConsumerInv N P C (.storeRead c ch (s.buffer ch)) := ⟨hch, hval⟩
    simpa [QueueAction.published?, QueueAction.popped?] using { h with consumer := hc' }
  | storeRead c ch v hpc =>
    rw [hpc] at hc
    obtain ⟨hch, hval⟩ := hc
    have hlt : C.length < P.length := (List.getElem?_eq_some_iff.mp hval).1
    have hlt' := h.lt
    simp only [QueueAction.published?, QueueAction.popped?, Option.toList_some, Option.toList_none,
      List.append_nil]
    refine ⟨by simpa using hlt, by rw [List.length_append]; omega, ?_, h.write, ?_, ?_,
      h.producer.pop _, trivial⟩
    · rw [List.length_append, List.length_singleton, List.take_add_one, hval, Option.toList_some,
        ← h.popped]
    · change increment N ch.toInt32 = _
      rw [hch, increment_ofNat hN, List.length_append, List.length_singleton]
    · intro k hC hP
      rw [List.length_append] at hC
      exact h.slots k (by omega) hP
  | ret res hpc =>
    simpa [QueueAction.published?, QueueAction.popped?] using
      { h with consumer := (trivial : ConsumerInv N P C .idle) }

/-- **Every step keeps the invariant.** -/
theorem Inv.step (hN : N.n < 2 ^ 31) (h : Inv N P C s) (hs : Step N s a s') :
    Inv N (P ++ a.published?.toList) (C ++ a.popped?.toList) s' := by
  cases hs with
  | pushCall c hidle =>
    simpa [QueueAction.published?, QueueAction.popped?] using
      { h with producer := (trivial : ProducerInv N P C s.buffer (.loadWrite c)) }
  | producer hs => exact h.producerStep hN hs
  | popCall c hidle =>
    simpa [QueueAction.published?, QueueAction.popped?] using
      { h with consumer := (trivial : ConsumerInv N P C (.loadRead c)) }
  | consumer hs => exact h.consumerStep hN hs

/-- **The invariant holds along every run.** -/
theorem inv_of_run (hN : N.n < 2 ^ 31) {tr : List Action} (h : (system N).Run tr s) :
    Inv N (published tr) (QueueAction.popped tr) s := by
  refine h.invariant (I := fun tr s => Inv N (published tr) (QueueAction.popped tr) s) ?_ ?_
  · exact fun s hs => inv_init hs
  · intro tr s a s' _ ih hs
    rw [published_snoc, popped_snoc]
    exact ih.step hN hs

end ModuloRing

end Spsc

end LowLatency
