import LowLatency.Spsc.CounterRuns

/-!
# The ring buffer with acquire loads and release stores

What the invariant of `LowLatency.Spsc.CounterInvariant` says to a client of the
class `lockless_ring_buffer_spsc` of `lockless_ring_buffer_spsc_acquire_release`:
although each thread acts on a counter that may be outdated, what the consumer is
given is what the producer published, in order
(`LowLatency.Spsc.CounterRing.acquire_release_ring_is_fifo`).
-/

namespace LowLatency

namespace Spsc

namespace CounterRing

variable {o : Order} {N : RingSize} {s s' : State} {a : Action} {tr : List Action}

open ReleaseAcquire QueueAction

/-! ### From the pops to the returns -/

theorem value?_taken (c : PopCall) (v : Int64) : (c.taken v).value? = some v := by
  cases c <;> rfl

@[simp] theorem inHand_refused (c : PopCall) : (Consumer.refused c).inHand = [] := by
  cases c <;> rfl

/-- A step of the consumer hands on what it holds. -/
theorem consumerStep_inHand {k : ℕ} (hs : consumerStep o N k s = some (a, s')) :
    s.consumer.inHand ++ a.popped?.toList =
      (a.returned? .consumer).toList ++ s'.consumer.inHand := by
  cases consumerStep_cases hs with
  | loadRead c hpc => simp [hpc, Consumer.inHand, QueueAction.popped?, QueueAction.returned?]
  | loadWrite c ch k m hpc hk hm =>
    have hnone : (if ch = m.value then Consumer.refused c else .readSlot c ch).inHand = [] := by
      split_ifs
      · exact inHand_refused c
      · rfl
    show s.consumer.inHand ++ [] = [] ++ _
    rw [hnone, hpc]
    rfl
  | readSlot c ch k v hpc hk hv =>
    simp [hpc, Consumer.inHand, QueueAction.popped?, QueueAction.returned?]
  | storeRead c ch v hpc =>
    simp [hpc, Consumer.inHand, QueueAction.popped?, QueueAction.returned?, value?_taken]
  | ret res hpc => simp [hpc, Consumer.inHand, QueueAction.popped?, QueueAction.returned?]

/-- A step of the producer pops and returns nothing. -/
theorem producerStep_inHand {k : ℕ} (hs : producerStep o N k s = some (a, s')) :
    a.popped? = none ∧ a.returned? .consumer = none ∧ s'.consumer = s.consumer := by
  cases producerStep_cases hs <;> exact ⟨rfl, rfl, rfl⟩

/-- **The values popped are those returned**, and the one the consumer is about to
return. -/
theorem popped_eq_returned (h : (system o N).Run tr s) :
    QueueAction.popped tr = returned .consumer tr ++ s.consumer.inHand := by
  refine filterMap_eq_returned .consumer (fun s => s.consumer.inHand) ?_ ?_ h
  · rintro s ⟨-, -, -, -, hc, -⟩
    simp [hc, Consumer.inHand]
  · intro s a s' hs
    rcases hs with ⟨c, hidle⟩ | ⟨k, hs⟩ | ⟨c, hidle⟩ | ⟨k, hs⟩
    · simp [QueueAction.popped?, QueueAction.returned?]
    · obtain ⟨hpop, hret, hcons⟩ := producerStep_inHand hs
      simp [hpop, hret, hcons]
    · simp [hidle, Consumer.inHand, QueueAction.popped?, QueueAction.returned?]
    · exact consumerStep_inHand hs

/-! ### The main result -/

/-- **The ring buffer of acquire loads and release stores is first-in first-out.**
In a run of fewer than `2 ^ 31` pushes, whatever the loads lag: the values returned
by successful pops are, in order, a prefix of those published, and so are the values
popped; never more than `size` published values are unread; and whichever write a
read of a slot returns, it is the one published for that pop, not an older one. -/
theorem acquire_release_ring_is_fifo (h : (acquireRelease N).Run tr s)
    (hlt : (published tr).length < 2 ^ 31) :
    returned .consumer tr <+: published tr ∧ QueueAction.popped tr <+: published tr ∧
    (published tr).length ≤ (QueueAction.popped tr).length + N.n ∧
    ∀ c ch k a s', s.consumer = .readSlot c ch → consumerStep .acquire N k s = some (a, s') →
      ∃ v, s'.consumer = .storeRead c ch v ∧
        (published tr)[(QueueAction.popped tr).length]? = some v := by
  have hinv := inv_of_run h hlt
  have hpopped : QueueAction.popped tr <+: published tr := by
    rw [hinv.popped]
    exact List.take_prefix _ _
  refine ⟨?_, hpopped, hinv.room, ?_⟩
  · refine List.IsPrefix.trans ?_ hpopped
    rw [popped_eq_returned h]
    exact List.prefix_append _ _
  · intro c ch k a s' hpc hs
    cases consumerStep_cases hs with
    | readSlot c' ch' k' v hpc' hk hv =>
      obtain ⟨rfl, rfl⟩ := Consumer.readSlot.inj (hpc.symm.trans hpc')
      exact ⟨v, rfl, hinv.readSlot_eq hlt hpc hk hv⟩
    | loadRead _ hpc' | loadWrite _ _ _ _ hpc' | storeRead _ _ _ hpc' | ret _ hpc' =>
      rw [hpc] at hpc'
      cases hpc'

/-- A thousand values through the program's own buffer. -/
theorem acquire_release_ring_thousand :
    ∃ tr s, (acquireRelease ringBufferSize).Run tr s ∧ (QueueAction.popped tr).length = 1000 ∧
      QueueAction.popped tr <+: published tr := by
  obtain ⟨tr, s, h, hP, hC, -⟩ := exists_balanced_run .acquire ringBufferSize (k := 1000) (by omega)
  exact ⟨tr, s, h, hC, (acquire_release_ring_is_fifo h (by omega)).2.1⟩

end CounterRing

end Spsc

end LowLatency
