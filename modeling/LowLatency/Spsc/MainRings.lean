import LowLatency.Spsc.CounterLinearizable
import LowLatency.Spsc.Main
import LowLatency.Spsc.ModuloLinearizable

/-!
# The programs end

`LowLatency.Spsc.SpinRing.main_terminates` for the three classes. An attempt on the ring buffer with
wrapped indices is refused for a reason, always, and so is one on the ring buffer whose counters are
sequentially consistent. With acquire loads a thread may be refused by a counter that has long been
increased, as often as the loads return the old value; what is needed is that a store is seen in the
end by those who keep loading (`LowLatency.Spsc.CounterRing.PromptLoads`). The language promises
so, without saying when.

The buffer with wrapped indices needs at least two slots: one of them stays free, so with a single
one nothing can ever be pushed.
-/

namespace LowLatency

namespace Spsc

open Int64 (ofNat)
open QueueAction

variable {N : RingSize} {n : ℕ}

namespace ModuloRing

/-- **The class is a ring buffer whose threads spin.** -/
theorem spinRing (hN : N.n < 2 ^ 31) :
    SpinRing (system N) State.producer State.consumer n where
  init _ hs := ⟨hs.2.2.1, hs.2.2.2⟩
  step s a s' hs := by
    rcases hs with ⟨c, hidle⟩ | hs | ⟨c, hidle⟩ | hs
    · exact .inl ⟨hidle ▸ .call c rfl, rfl⟩
    · cases producerStep_cases hs with
      | loadWrite c hpc => exact .inl ⟨hpc ▸ .loadWrite c _ _, rfl⟩
      | passed c ct nt hpc => exact .inl ⟨hpc ▸ .passed c ct nt, rfl⟩
      | refused c ct nt hpc => exact .inl ⟨hpc ▸ .refused c ct nt, rfl⟩
      | writeSlot c ct nt hpc => exact .inl ⟨hpc ▸ .writeSlot c ct nt, rfl⟩
      | storeWrite c nt hpc => exact .inl ⟨hpc ▸ .storeWrite c nt, rfl⟩
      | ret res hpc => exact .inl ⟨hpc ▸ .ret res, rfl⟩
    · exact .inr ⟨hidle ▸ .call c rfl, rfl⟩
    · cases consumerStep_cases hs with
      | loadRead c hpc => exact .inr ⟨hpc ▸ .loadRead c _, rfl⟩
      | passed c ch hpc => exact .inr ⟨hpc ▸ .passed c ch, rfl⟩
      | refused c ch hpc => exact .inr ⟨hpc ▸ .refused c ch, rfl⟩
      | readSlot c ch hpc => exact .inr ⟨hpc ▸ .readSlot c ch _, rfl⟩
      | storeRead c ch v hpc => exact .inr ⟨hpc ▸ .storeRead c ch v, rfl⟩
      | ret res hpc => exact .inr ⟨hpc ▸ .ret res, rfl⟩
  pushCall s v hidle := ⟨_, .pushCall (.push v) hidle⟩
  popCall s hidle := ⟨_, .popCall .pop hidle⟩
  goesOn tr s _ _ hbusy := by
    rcases hbusy with hp | hc
    · obtain ⟨⟨a, s'⟩, hs⟩ : ∃ x, producerStep N s = some x := by
        unfold producerStep
        cases hpc : s.producer with
        | idle => exact absurd hpc hp
        | loadRead c ct nt => exact Option.isSome_iff_exists.mp (by dsimp only; split <;> rfl)
        | loadWrite | writeSlot | storeWrite | returning => exact ⟨_, rfl⟩
      refine ⟨a, s', fun t op ha => ?_, .producer hs⟩
      subst ha
      cases producerStep_cases hs
    · obtain ⟨⟨a, s'⟩, hs⟩ : ∃ x, consumerStep N s = some x := by
        unfold consumerStep
        cases hpc : s.consumer with
        | idle => exact absurd hpc hc
        | loadWrite c ch => exact Option.isSome_iff_exists.mp (by dsimp only; split <;> rfl)
        | loadRead | readSlot | storeRead | returning => exact ⟨_, rfl⟩
      refine ⟨a, s', fun t op ha => ?_, .consumer hs⟩
      subst ha
      cases consumerStep_cases hs
  fifo tr s h _ := by
    rw [(inv_of_run hN h).popped]
    exact List.take_prefix _ _

/-- **Attempts are always refused for a reason.** -/
theorem refusedForReason (hN : N.n < 2 ^ 31) (e : (main (system N) n).Execution) :
    RefusedForReason State.producer State.consumer (N.n - 1) e := by
  refine fun T _ => ⟨0, fun m _ => ?_⟩
  have hinv := inv_of_run hN (run_queue (e.run m))
  have hs := MainStep.queue (e.step m)
  have hle := hinv.le
  refine ⟨fun hrefuses => ?_, fun hrefuses => ?_⟩
  · obtain ⟨c, ct, nt, hp, heq⟩ := Step.eq_of_refusesPush hs hrefuses
    have hfull := hinv.full_of_refused hp heq
    rw [List.length_drop] at hfull
    omega
  · obtain ⟨c, ch, hc, heq⟩ := Step.eq_of_refusesPop hs hrefuses
    exact List.drop_eq_nil_iff.mp (hinv.empty_of_refused hc heq)

/-- **The program with wrapped indices ends** under every fair schedule, and hands the values over
in order, if the buffer has at least two slots. -/
theorem wrapped_ring_main_terminates (hN : N.n < 2 ^ 31) (htwo : 2 ≤ N.n) :
    (main (system N) n).Terminates (Fair State.producer State.consumer n)
      (HandedOver State.producer State.consumer n) :=
  ((spinRing hN).main_terminates (by omega)).mono fun e h => ⟨h, refusedForReason hN e⟩

/-- A million values through the program's own buffer. -/
theorem wrapped_ring_main_million :
    (main (system ringBufferSize) 1000000).Terminates
      (Fair State.producer State.consumer 1000000)
      (HandedOver State.producer State.consumer 1000000) :=
  wrapped_ring_main_terminates (by decide) (by decide)

end ModuloRing

namespace CounterRing

open ReleaseAcquire

variable {o : Order} {s s' : State} {a : Action}

/-- **The class is a ring buffer whose threads spin**, up to `2 ^ 31 - 1` values. -/
theorem spinRing (o : Order) (N : RingSize) (hn : n < 2 ^ 31) :
    SpinRing (system o N) State.producer State.consumer n where
  init _ hs := ⟨hs.2.2.2.1, hs.2.2.2.2.1⟩
  step s a s' hs := by
    rcases hs with ⟨c, hidle⟩ | ⟨k, hs⟩ | ⟨c, hidle⟩ | ⟨k, hs⟩
    · exact .inl ⟨hidle ▸ .call c rfl, rfl⟩
    · refine .inl ?_
      cases producerStep_cases hs with
      | loadWrite c hpc => exact ⟨hpc ▸ .loadWrite c _ _, rfl⟩
      | loadRead c ct nt k m hpc hk hm =>
        refine ⟨?_, rfl⟩
        dsimp only
        rw [hpc]
        split_ifs
        · exact .passed c ct nt
        · exact .refused c ct nt
      | writeSlot c ct nt hpc => exact ⟨hpc ▸ .writeSlot c ct nt, rfl⟩
      | storeWrite c nt hpc => exact ⟨hpc ▸ .storeWrite c nt, rfl⟩
      | ret res hpc => exact ⟨hpc ▸ .ret res, rfl⟩
    · exact .inr ⟨hidle ▸ .call c rfl, rfl⟩
    · refine .inr ?_
      cases consumerStep_cases hs with
      | loadRead c hpc => exact ⟨hpc ▸ .loadRead c _, rfl⟩
      | loadWrite c ch k m hpc hk hm =>
        refine ⟨?_, rfl⟩
        dsimp only
        rw [hpc]
        split_ifs
        · exact .refused c ch
        · exact .passed c ch
      | readSlot c ch k v hpc hk hv => exact ⟨hpc ▸ .readSlot c ch v, rfl⟩
      | storeRead c ch v hpc => exact ⟨hpc ▸ .storeRead c ch v, rfl⟩
      | ret res hpc => exact ⟨hpc ▸ .ret res, rfl⟩
  pushCall s v hidle := ⟨_, .pushCall (.push v) hidle⟩
  popCall s hidle := ⟨_, .popCall .pop hidle⟩
  goesOn tr s h hle hbusy := by
    have hinv := inv_of_run h (hle.trans_lt hn)
    rcases hbusy with hp | hc
    · obtain ⟨k, ⟨a, s'⟩, hs⟩ : ∃ k x, producerStep o N k s = some x := by
        cases hpc : s.producer with
        | idle => exact absurd hpc hp
        | loadRead c ct nt =>
          -- the last message can be read
          obtain ⟨m, hm, -⟩ := hinv.readLog _ le_rfl
          have hk := readable_last o hinv.producerSeen hinv.readLog_length
          exact ⟨(popped tr).length, _, by
            simp only [producerStep, hpc, hk, hm, if_true, Option.map_some]
            rfl⟩
        | loadWrite | writeSlot | storeWrite | returning =>
          exact ⟨0, _, by simp only [producerStep, hpc]; rfl⟩
      refine ⟨a, s', fun t op ha => ?_, .producer k hs⟩
      subst ha
      cases producerStep_cases hs
    · obtain ⟨k, ⟨a, s'⟩, hs⟩ : ∃ k x, consumerStep o N k s = some x := by
        cases hpc : s.consumer with
        | idle => exact absurd hpc hc
        | loadWrite c ch =>
          obtain ⟨m, hm, -⟩ := hinv.writeLog _ le_rfl
          have hk := readable_last o hinv.consumerSeen_le hinv.writeLog_length
          exact ⟨(published tr).length, _, by
            simp only [consumerStep, hpc, hk, hm, if_true, Option.map_some]
            rfl⟩
        | readSlot c ch =>
          have hview := (viewsInv_of_run h).consumer (ch % N.size)
          exact ⟨s.consumerView (ch % N.size), _, by
            simp only [consumerStep, hpc, le_rfl, if_true, List.getElem?_eq_getElem hview,
              Option.map_some]
            rfl⟩
        | loadRead | storeRead | returning =>
          exact ⟨0, _, by simp only [consumerStep, hpc]; rfl⟩
      refine ⟨a, s', fun t op ha => ?_, .consumer k hs⟩
      subst ha
      cases consumerStep_cases hs
  fifo tr s h hle := by
    rw [(inv_of_run h (hle.trans_lt hn)).popped]
    exact List.take_prefix _ _

/-- A push gives up at a load of `read` whose value is too far behind. -/
theorem Step.of_refuses_push (hs : Step o N s a s') (h : s.producer.Refuses s'.producer) :
    ∃ c ct nt k m, s.producer = .loadRead c ct nt ∧ a = .access .producer ∧
      Readable o s.readLog s.producerSeen k ∧ s.readLog[k]? = some m ∧
      ¬ct - m.value ≤ N.size - 1 ∧ s'.producerSeen = k := by
  obtain ⟨c, ct, nt, hpc, hpc'⟩ := h
  rcases hs with ⟨d, hidle⟩ | ⟨k, hs⟩ | ⟨d, hidle⟩ | ⟨k, hs⟩
  · rw [hpc] at hidle
    cases hidle
  · cases producerStep_cases hs with
    | loadRead d ct' nt' k m hp hk hm =>
      obtain ⟨rfl, rfl, rfl⟩ := Producer.loadRead.inj (hpc.symm.trans hp)
      refine ⟨c, ct, nt, k, m, hpc, rfl, hk, hm, fun hle => ?_, rfl⟩
      dsimp only at hpc'
      rw [if_pos hle] at hpc'
      cases c <;> cases hpc'
    | loadWrite _ hp | writeSlot _ _ _ hp | storeWrite _ _ hp | ret _ hp =>
      rw [hpc] at hp
      cases hp
  · rw [show s.producer = _ from hpc'] at hpc
    cases c <;> cases hpc
  · have hsame : s'.producer = s.producer := by cases consumerStep_cases hs <;> rfl
    rw [hsame, hpc] at hpc'
    cases c <;> cases hpc'

/-- A pop gives up at a load of `write` whose value is the consumer's own counter. -/
theorem Step.of_refuses_pop (hs : Step o N s a s') (h : s.consumer.Refuses s'.consumer) :
    ∃ c ch k m, s.consumer = .loadWrite c ch ∧ a = .access .consumer ∧
      Readable o s.writeLog s.consumerSeen k ∧ s.writeLog[k]? = some m ∧ ch = m.value ∧
      s'.consumerSeen = k := by
  obtain ⟨c, ch, hpc, hpc'⟩ := h
  rcases hs with ⟨d, hidle⟩ | ⟨k, hs⟩ | ⟨d, hidle⟩ | ⟨k, hs⟩
  · rw [show s.consumer = _ from hpc'] at hpc
    cases c <;> cases hpc
  · have hsame : s'.consumer = s.consumer := by cases producerStep_cases hs <;> rfl
    rw [hsame, hpc] at hpc'
    cases c <;> cases hpc'
  · rw [hpc] at hidle
    cases hidle
  · cases consumerStep_cases hs with
    | loadWrite d ch' k m hp hk hm =>
      obtain ⟨rfl, rfl⟩ := Consumer.loadWrite.inj (hpc.symm.trans hp)
      refine ⟨c, ch, k, m, hpc, rfl, hk, hm, by_contra fun hne => ?_, rfl⟩
      dsimp only at hpc'
      rw [if_neg hne] at hpc'
      cases c <;> cases hpc'
    | loadRead _ hp | readSlot _ _ _ _ hp | storeRead _ _ _ hp | ret _ hp =>
      rw [hpc] at hp
      cases hp

/-- **What is stored is seen in the end**: for every point of the execution there is a later one
from which on no load of the other thread's counter returns a value that was old then. -/
def PromptLoads (e : (main (system o N) n).Execution) : Prop :=
  ∀ k, ∃ T, ∀ m, T ≤ m →
    (∀ c ct nt, (e.state m).queue.producer = .loadRead c ct nt → e.action m = .access .producer →
      (e.state k).queue.readLog.length ≤ (e.state (m + 1)).queue.producerSeen + 1) ∧
    (∀ c ch, (e.state m).queue.consumer = .loadWrite c ch → e.action m = .access .consumer →
      (e.state k).queue.writeLog.length ≤ (e.state (m + 1)).queue.consumerSeen + 1)

/-- **With prompt loads, attempts are refused for a reason** in the end. -/
theorem refusedForReason (hn : n < 2 ^ 31) (e : (main (system o N) n).Execution)
    (hprompt : PromptLoads e) : RefusedForReason State.producer State.consumer N.n e := by
  intro T hquiet
  obtain ⟨T', hT'⟩ := hprompt T
  refine ⟨max T T', fun m hm => ?_⟩
  have hbound : ∀ k, (published (e.trace k)).length < 2 ^ 31 := fun k =>
    ((spinRing o N hn).length_published_le (e.run k)).trans_lt hn
  have hinv := inv_of_run (run_queue (e.run m)) (hbound m)
  have hinvT := inv_of_run (run_queue (e.run T)) (hbound T)
  have hs := MainStep.queue (e.step m)
  obtain ⟨hP, hC⟩ := SpinRing.trace_of_quiet hquiet ((le_max_left T T').trans hm)
  obtain ⟨hpush, hpop⟩ := hT' m ((le_max_right T T').trans hm)
  have hle := hinv.le
  refine ⟨fun hrefuses => ?_, fun hrefuses => ?_⟩
  · obtain ⟨c, ct, nt, k, msg, hp, ha, hk, hmsg, hgt, hseen⟩ := Step.of_refuses_push hs hrefuses
    have hlast := hpush c ct nt hp ha
    rw [hseen, hinvT.readLog_length, ← hC, ← hinv.readLog_length] at hlast
    -- the load returned the last message, as a sequentially consistent one does
    have hfull := hinv.full_of_refused (hbound m) hp
      ⟨hk.1, hk.2.1, fun _ => (Nat.succ_le_of_lt hk.2.1).antisymm hlast⟩ hmsg hgt
    rw [List.length_drop] at hfull
    omega
  · obtain ⟨c, ch, k, msg, hc, ha, hk, hmsg, heq, hseen⟩ := Step.of_refuses_pop hs hrefuses
    have hlast := hpop c ch hc ha
    rw [hseen, hinvT.writeLog_length, ← hP, ← hinv.writeLog_length] at hlast
    exact List.drop_eq_nil_iff.mp (hinv.empty_of_refused (hbound m) hc
      ⟨hk.1, hk.2.1, fun _ => (Nat.succ_le_of_lt hk.2.1).antisymm hlast⟩ hmsg heq)

/-- The program with acquire loads and release stores, and what its schedules must grant. -/
def FairAndPrompt (e : (main (system o N) n).Execution) : Prop :=
  Fair State.producer State.consumer n e ∧ PromptLoads e

/-- **The program with running counters ends** if its threads are treated fairly and their loads
see in the end what has been stored, and hands the values over in order. -/
theorem terminates (o : Order) (N : RingSize) (hn : n < 2 ^ 31) :
    (main (system o N) n).Terminates FairAndPrompt (HandedOver State.producer State.consumer n) :=
  ((spinRing o N hn).main_terminates N.pos).mono fun e h => ⟨h.1, refusedForReason hn e h.2⟩

/-- The histories of the counters grow. -/
theorem Step.logs_le (hs : Step o N s a s') :
    s.readLog.length ≤ s'.readLog.length ∧ s.writeLog.length ≤ s'.writeLog.length := by
  rcases hs with ⟨c, hidle⟩ | ⟨k, hs⟩ | ⟨c, hidle⟩ | ⟨k, hs⟩
  · exact ⟨le_rfl, le_rfl⟩
  · cases producerStep_cases hs with
    | storeWrite => exact ⟨le_rfl, by simp⟩
    | loadWrite | loadRead | writeSlot | ret => exact ⟨le_rfl, le_rfl⟩
  · exact ⟨le_rfl, le_rfl⟩
  · cases consumerStep_cases hs with
    | storeRead => exact ⟨by simp, le_rfl⟩
    | loadRead | loadWrite | readSlot | ret => exact ⟨le_rfl, le_rfl⟩

/-- **Sequentially consistent loads are prompt.** -/
theorem promptLoads_seqCst (e : (main (system .seqCst N) n).Execution) : PromptLoads e := by
  refine fun k => ⟨k, fun m hm => ?_⟩
  have hs := MainStep.queue (e.step m)
  obtain ⟨hread, hwrite⟩ : (e.state k).queue.readLog.length ≤ (e.state m).queue.readLog.length ∧
      (e.state k).queue.writeLog.length ≤ (e.state m).queue.writeLog.length := by
    refine e.forall_ge (P := fun s => (e.state k).queue.readLog.length ≤ s.queue.readLog.length ∧
      (e.state k).queue.writeLog.length ≤ s.queue.writeLog.length) ⟨le_rfl, le_rfl⟩ ?_ m hm
    intro i _ ⟨hread, hwrite⟩
    obtain ⟨hread', hwrite'⟩ := Step.logs_le (MainStep.queue (e.step i))
    exact ⟨hread.trans hread', hwrite.trans hwrite'⟩
  generalize (e.state m).queue = s at *
  generalize (e.state (m + 1)).queue = s' at *
  refine ⟨fun c ct nt hpc ha => ?_, fun c ch hpc ha => ?_⟩
  · rw [ha] at hs
    generalize hact : QueueAction.access Side.producer = a at hs
    rcases hs with ⟨d, hidle⟩ | ⟨i, hs⟩ | ⟨d, hidle⟩ | ⟨i, hs⟩
    · cases hact
    · cases producerStep_cases hs with
      | loadRead d ct' nt' i m' hp hi hm' => exact hread.trans (hi.2.2 rfl).ge
      | loadWrite _ hp | writeSlot _ _ _ hp | storeWrite _ _ hp | ret _ hp =>
        rw [hpc] at hp
        cases hp
    · cases hact
    · cases consumerStep_cases hs <;> cases hact
  · rw [ha] at hs
    generalize hact : QueueAction.access Side.consumer = a at hs
    rcases hs with ⟨d, hidle⟩ | ⟨i, hs⟩ | ⟨d, hidle⟩ | ⟨i, hs⟩
    · cases hact
    · cases producerStep_cases hs <;> cases hact
    · cases hact
    · cases consumerStep_cases hs with
      | loadWrite d ch' i m' hp hi hm' => exact hwrite.trans (hi.2.2 rfl).ge
      | loadRead _ hp | readSlot _ _ _ _ hp | storeRead _ _ _ hp | ret _ hp =>
        rw [hpc] at hp
        cases hp

/-- **The program with sequentially consistent counters ends** under every fair schedule. -/
theorem sequential_ring_main_terminates (hn : n < 2 ^ 31) :
    (main (sequential N) n).Terminates (Fair State.producer State.consumer n)
      (HandedOver State.producer State.consumer n) :=
  (terminates .seqCst N hn).mono fun e h => ⟨h, promptLoads_seqCst e⟩

/-- A million values through the program's own buffer. -/
theorem sequential_ring_main_million :
    (main (sequential ringBufferSize) 1000000).Terminates
      (Fair State.producer State.consumer 1000000)
      (HandedOver State.producer State.consumer 1000000) :=
  sequential_ring_main_terminates (by decide)

/-- **The program with acquire loads and release stores ends** under every fair schedule in which a
store is seen in the end. -/
theorem acquire_release_ring_main_terminates (hn : n < 2 ^ 31) :
    (main (acquireRelease N) n).Terminates FairAndPrompt
      (HandedOver State.producer State.consumer n) :=
  terminates .acquire N hn

/-- A million values through the program's own buffer. -/
theorem acquire_release_ring_main_million :
    (main (acquireRelease ringBufferSize) 1000000).Terminates FairAndPrompt
      (HandedOver State.producer State.consumer 1000000) :=
  acquire_release_ring_main_terminates (by decide)

end CounterRing

end Spsc

end LowLatency
