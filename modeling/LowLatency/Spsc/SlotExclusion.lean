import LowLatency.Spsc.CounterRuns
import LowLatency.Spsc.ModuloLinearizable

/-!
# The two threads never meet on a slot

The array of a ring buffer holds plain values: `try_push` writes one slot of it and
`try_pop` reads one, and nothing but the two indices keeps the threads apart. This
file says that the indices do (`LowLatency.Spsc.slot_exclusion`), for the class with
wrapped indices and for the one with running counters and acquire loads.

Each thread has chosen its slot from indices it loaded some steps ago, while the
other has moved on. What the invariants of the two classes keep of that choice is
where the chosen positions lie in the sequence of all pushes: the consumer is at a
position that has been pushed, the producer at the next one to be pushed, and the
two are less than a round apart. The rest is `Nat.mod_ne_mod_of_lt`, for either
encoding of a position by an index (`LowLatency.Spsc.slotsApart_of_positions`).
-/

namespace LowLatency

namespace Spsc

open Int64 (ofNat)
open QueueAction

/-! ### The slots the threads are about to use -/

/-- The slot the producer writes at its next access, `index` being how the class
turns the local copy of `write` into an index of the array. -/
def Producer.slot? (index : Int64 → Int64) : Producer → Option Int64
  | .writeSlot _ currentTail _ => some (index currentTail)
  | _ => none

/-- The slot the consumer reads at its next access. -/
def Consumer.slot? (index : Int64 → Int64) : Consumer → Option Int64
  | .readSlot _ currentHead => some (index currentHead)
  | _ => none

theorem Producer.eq_of_slot? {index : Int64 → Int64} {p : Producer} {i : Int64}
    (h : p.slot? index = some i) : ∃ c ct nt, p = .writeSlot c ct nt ∧ index ct = i := by
  cases p with
  | writeSlot c ct nt => exact ⟨c, ct, nt, rfl, Option.some.inj h⟩
  | _ => cases h

theorem Consumer.eq_of_slot? {index : Int64 → Int64} {c : Consumer} {i : Int64}
    (h : c.slot? index = some i) : ∃ c' ch, c = .readSlot c' ch ∧ index ch = i := by
  cases c with
  | readSlot c' ch => exact ⟨c', ch, rfl, Option.some.inj h⟩
  | _ => cases h

/-- **Exclusion on the slots**: the slots the threads are about to use are slots of
the array, and not the same one. -/
structure SlotsApart (N : RingSize) (index : Int64 → Int64) (p : Producer) (c : Consumer) :
    Prop where
  write_bounds : ∀ i, p.slot? index = some i → 0 ≤ i.toInt ∧ i.toInt < N.n
  read_bounds : ∀ j, c.slot? index = some j → 0 ≤ j.toInt ∧ j.toInt < N.n
  ne : ∀ i j, p.slot? index = some i → c.slot? index = some j → i ≠ j

variable {N : RingSize}

/-- The index of a position is one of the array. -/
theorem toInt_ofNat_mod (k : ℕ) :
    0 ≤ (ofNat (k % N.n)).toInt ∧ (ofNat (k % N.n)).toInt < N.n := by
  have hk : k % N.n < N.n := Nat.mod_lt k N.pos
  rw [Int64.toInt_ofNat_of_lt (hk.trans N.lt)]
  exact ⟨Int.natCast_nonneg _, Int.ofNat_lt.mpr hk⟩

/-- **From positions to slots.** If the slot written is that of position `w`, the
slot read that of position `r`, and `w` is ahead of `r` by less than a round, then
the slots are apart. -/
theorem slotsApart_of_positions {index : Int64 → Int64} {p : Producer} {c : Consumer} {w r : ℕ}
    (hp : ∀ i, p.slot? index = some i → i = ofNat (w % N.n) ∧ w < r + N.n)
    (hc : ∀ j, c.slot? index = some j → j = ofNat (r % N.n) ∧ r < w) :
    SlotsApart N index p c := by
  constructor
  · intro i hi
    rw [(hp i hi).1]
    exact toInt_ofNat_mod w
  · intro j hj
    rw [(hc j hj).1]
    exact toInt_ofNat_mod r
  · intro i j hi hj heq
    obtain ⟨hiw, hround⟩ := hp i hi
    obtain ⟨hjr, hlt⟩ := hc j hj
    rw [hiw, hjr, ofNat_mod_inj] at heq
    exact Nat.mod_ne_mod_of_lt hlt hround heq.symm

/-! ### The two classes -/

/-- The wrapped indices are used as they are. -/
theorem ModuloRing.slotsApart (hN : N.n < 2 ^ 31) {tr : List Action} {s : ModuloRing.State}
    (h : (ModuloRing.system N).Run tr s) : SlotsApart N id s.producer s.consumer := by
  have hinv := ModuloRing.inv_of_run hN h
  have hprod := hinv.producer
  have hcons := hinv.consumer
  refine slotsApart_of_positions (w := (published tr).length) (r := (popped tr).length) ?_ ?_
  · intro i hi
    obtain ⟨c, ct, nt, hpc, rfl⟩ := Producer.eq_of_slot? hi
    rw [hpc] at hprod
    -- past the test there is room for one more value besides the free slot
    obtain ⟨hct, -, hroom⟩ := hprod
    exact ⟨hct, by omega⟩
  · intro j hj
    obtain ⟨c, ch, hpc, rfl⟩ := Consumer.eq_of_slot? hj
    rw [hpc] at hcons
    exact hcons

/-- The running counters are reduced where they are used. -/
theorem CounterRing.slotsApart {o : ReleaseAcquire.Order} {tr : List Action}
    {s : CounterRing.State} (h : (CounterRing.system o N).Run tr s)
    (hlt : (published tr).length < 2 ^ 31) :
    SlotsApart N (· % N.size) s.producer s.consumer := by
  have hinv := CounterRing.inv_of_run h hlt
  have hprod := hinv.producer
  have hcons := hinv.consumer
  have hle := hinv.le
  refine slotsApart_of_positions (w := (published tr).length) (r := (popped tr).length) ?_ ?_
  · intro i hi
    obtain ⟨c, ct, nt, hpc, rfl⟩ := Producer.eq_of_slot? hi
    rw [hpc] at hprod
    obtain ⟨rfl, -, hroom⟩ := hprod
    exact ⟨ofNat_mod_size (by omega), by omega⟩
  · intro j hj
    obtain ⟨c, ch, hpc, rfl⟩ := Consumer.eq_of_slot? hj
    rw [hpc] at hcons
    -- the consumer has seen a push at its position, however late
    obtain ⟨rfl, hseen⟩ := hcons
    exact ⟨ofNat_mod_size (by omega), hseen.trans_le hinv.consumerSeen_le⟩

/-! ### The main result -/

/-- **The array is never used by both threads at once.** For every size below
`2 ^ 31` and in every reachable state, the slot the producer is about to write and
the slot the consumer is about to read are slots of the array and different: for
wrapped indices and sequentially consistent steps in every run, for running counters
and acquire loads, each of which may return any value not older than the one last
seen, in every run of fewer than `2 ^ 31` pushes. -/
theorem slot_exclusion (N : RingSize) (hN : N.n < 2 ^ 31) :
    (∀ tr s, (ModuloRing.system N).Run tr s → SlotsApart N id s.producer s.consumer) ∧
    ∀ tr s, (CounterRing.acquireRelease N).Run tr s → (published tr).length < 2 ^ 31 →
      SlotsApart N (· % N.size) s.producer s.consumer :=
  ⟨fun _ _ h => ModuloRing.slotsApart hN h, fun _ _ h hlt => CounterRing.slotsApart h hlt⟩

/-- One value is in the program's own buffer, and both threads are at a slot. -/
theorem ModuloRing.run_both_at_slot : ∃ tr s, (ModuloRing.system ringBufferSize).Run tr s ∧
    s.producer = .writeSlot (.tryPush 8) 1 2 ∧ s.consumer = .readSlot .tryPop 0 := by
  have h₁ := (run_pushedOnce 7).snoc (.producer rfl)
  have h₂ := h₁.snoc (.pushCall (.tryPush 8) rfl)
  have h₃ := h₂.snoc (.producer rfl)
  have h₄ := h₃.snoc (.producer rfl)
  have h₅ := h₄.snoc (.popCall .tryPop rfl)
  have h₆ := h₅.snoc (.consumer rfl)
  have h₇ := h₆.snoc (.consumer rfl)
  exact ⟨_, _, h₇, rfl, rfl⟩

/-- The same with running counters. -/
theorem CounterRing.run_both_at_slot : ∃ tr s,
    (CounterRing.acquireRelease ringBufferSize).Run tr s ∧ (published tr).length = 1 ∧
    s.producer = .writeSlot (.tryPush 8) 1 2 ∧ s.consumer = .readSlot .tryPop 0 := by
  have h₀ : (CounterRing.acquireRelease ringBufferSize).Run [] ⟨[⟨0, fun _ => 0⟩],
      [⟨0, fun _ => 0⟩], fun _ => [0], .idle, .idle, 0, 0, fun _ => 0, fun _ => 0, false⟩ :=
    .start ⟨rfl, rfl, fun _ => rfl, rfl, rfl, rfl, rfl, rfl, rfl, rfl⟩
  -- a first push, up to its return
  have h₁ := h₀.snoc (.pushCall (.tryPush 7) rfl)
  have h₂ := h₁.snoc (.producer 0 rfl)
  have h₃ := h₂.snoc (.producer 0 rfl)
  have h₄ := h₃.snoc (.producer 0 rfl)
  have h₅ := h₄.snoc (.producer 0 rfl)
  have h₆ := h₅.snoc (.producer 0 rfl)
  -- a second push and a pop, up to their slots
  have h₇ := h₆.snoc (.pushCall (.tryPush 8) rfl)
  have h₈ := h₇.snoc (.producer 0 rfl)
  have h₉ := h₈.snoc (.producer 0 rfl)
  have k₁ := h₉.snoc (.popCall .tryPop rfl)
  have k₂ := k₁.snoc (.consumer 0 rfl)
  have k₃ := k₂.snoc (.consumer 1 rfl)
  exact ⟨_, _, k₃, rfl, rfl, rfl⟩

/-- With both threads at a slot of the program's own buffer, they are at two slots. -/
theorem slot_exclusion_both_at_slot :
    (∃ s : ModuloRing.State, s.producer.slot? id = some 1 ∧ s.consumer.slot? id = some 0 ∧
      SlotsApart ringBufferSize id s.producer s.consumer) ∧
    ∃ s : CounterRing.State, s.producer.slot? (· % ringBufferSize.size) = some 1 ∧
      s.consumer.slot? (· % ringBufferSize.size) = some 0 ∧
      SlotsApart ringBufferSize (· % ringBufferSize.size) s.producer s.consumer := by
  obtain ⟨tr, s, h, hp, hc⟩ := ModuloRing.run_both_at_slot
  obtain ⟨tr', s', h', hlen, hp', hc'⟩ := CounterRing.run_both_at_slot
  have hmain := slot_exclusion ringBufferSize (by decide)
  refine ⟨⟨s, ?_, ?_, hmain.1 tr s h⟩, ⟨s', ?_, ?_, hmain.2 tr' s' h' (by omega)⟩⟩
  · rw [hp]
    rfl
  · rw [hc]
    rfl
  · rw [hp']
    rfl
  · rw [hc']
    rfl

end Spsc

end LowLatency
