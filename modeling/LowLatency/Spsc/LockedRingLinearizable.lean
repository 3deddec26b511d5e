import LowLatency.Foundations.HesitantQueue
import LowLatency.Foundations.OverwritingRing
import LowLatency.Spsc.LockedRingFifo

/-!
# What the ring buffer with a lock is

Whatever its callers do, the class is linearizable to the ring that overwrites and repeats
(`LowLatency.Spsc.LockedRing.locked_ring_is_overwriting`). The mutex makes each call atomic, and
what the calls do one after the other is all that is left: a `push` overwrites the slot it comes to
and a `pop` returns what it finds there. Nothing is assumed of how far the two threads are apart;
the counters have to be within the range of an `int64_t`.

What is in the slots before the first call is in the statement, since a `pop` may return it.
-/

namespace LowLatency

namespace Spsc

namespace LockedRing

open Int64 (ofNat)
open OverwritingRing QueueAction

variable {N : RingSize} {k : Int64 → Int64} {P C : List Int64} {s s' : State} {a : Action}
  {tr : List Action}

/-- The slot of the `i`-th call. -/
def slot (N : RingSize) (i : ℕ) : Int64 := ofNat (i % N.n)

/-- **The ring buffer whose slots hold `k`** before the first call. -/
def holding (N : RingSize) (k : Int64 → Int64) : TransitionSystem State Action where
  Init s := (system N).Init s ∧ s.buffer = k
  Step := Step N

theorem run_of_holding (h : (holding N k).Run tr s) : (system N).Run tr s := by
  induction h with
  | start hs => exact .start hs.1
  | snoc _ hs ih => exact ih.snoc hs

/-- Whatever the slots hold, they hold something. -/
theorem exists_holding (h : (system N).Run tr s) : ∃ k, (holding N k).Run tr s := by
  induction h with
  | @start s hs => exact ⟨s.buffer, .start ⟨hs, rfl⟩⟩
  | snoc _ hs ih =>
    obtain ⟨k, ih⟩ := ih
    exact ⟨k, ih.snoc hs⟩

/-! ### What is in the slots -/

/-- The value that is in its slot already while `write` has not been incremented. -/
def Pusher.pending : Pusher → List Int64
  | .increment val => [val]
  | _ => []

/-- What the consumer knows once it has read the slot. -/
def Popper.Knows (v : Int64) : Popper → Prop
  | .increment u => u = v
  | _ => True

/-- **What is in the slots** when the values `P` have been pushed and the values `C` popped. -/
structure Contents (N : RingSize) (k : Int64 → Int64) (P C : List Int64) (s : State) : Prop where
  write : s.write = ofNat P.length
  read : s.read = ofNat C.length
  buffer : s.buffer = stored (slot N) k (P ++ s.pusher.pending)
  popper : s.popper.Knows (stored (slot N) k P (slot N C.length))

/-- A `push` does not come between the read of a slot and `read++`. -/
theorem Popper.knows_of_outside {p : Popper} (h : p.inside = false) (v : Int64) : p.Knows v := by
  cases p with
  | increment u => cases h
  | _ => exact trivial

theorem contents_init (hs : (holding N k).Init s) : Contents N k [] [] s := by
  obtain ⟨⟨hw, hr, -, hpush, hpop, -⟩, hbuffer⟩ := hs
  refine ⟨hw, hr, ?_, ?_⟩
  · rw [hpush, hbuffer]
    rfl
  · rw [hpop]
    exact trivial

/-- A step that touches neither the slots nor the counters. -/
theorem Contents.quiet (h : Contents N k P C s) (hpublish : a.published? = none)
    (hconsume : a.popped? = none) (hw : s'.write = s.write) (hr : s'.read = s.read)
    (hbuffer : s'.buffer = s.buffer) (hpush : s'.pusher.pending = s.pusher.pending)
    (hpop : s'.popper.Knows (stored (slot N) k P (slot N C.length))) :
    Contents N k (P ++ a.published?.toList) (C ++ a.popped?.toList) s' := by
  rw [hpublish, hconsume, Option.toList_none, List.append_nil, List.append_nil]
  exact ⟨hw.trans h.write, hr.trans h.read, by rw [hbuffer, hpush, h.buffer], hpop⟩

theorem Contents.pushStep (h : Contents N k P C s) (hP : P.length < 2 ^ 63) (hlock : LockInv s)
    (hs : pushStep N s = some (a, s')) :
    Contents N k (P ++ a.published?.toList) (C ++ a.popped?.toList) s' := by
  rcases pushStep_cases hs with ⟨v, hpc, -⟩ | ⟨v, hpc⟩ | ⟨v, hpc⟩ | hpc | hpc
  · exact h.quiet rfl rfl rfl rfl rfl (by rw [hpc]; rfl) h.popper
  · have hbuffer := h.buffer
    rw [hpc] at hbuffer
    simp only [published?, popped?, Option.toList_none, List.append_nil]
    refine ⟨h.write, h.read, ?_, h.popper⟩
    simp only [Pusher.pending, List.append_nil] at hbuffer ⊢
    rw [stored_concat, hbuffer, h.write, ofNat_mod_size hP, slot]
  · have hbuffer := h.buffer
    rw [hpc] at hbuffer
    simp only [published?, popped?, Option.toList_some, Option.toList_none, List.append_nil]
    refine ⟨?_, h.read, ?_, ?_⟩
    · rw [List.length_append, List.length_singleton, Int64.ofNat_add, ← h.write]
      rfl
    · simpa [Pusher.pending] using hbuffer
    · -- the consumer is not in its critical section, since the producer is
      refine Popper.knows_of_outside (Bool.eq_false_iff.mpr fun hin => ?_) _
      have hprod : s.lock = some .producer := hlock.pusher.mpr (by rw [hpc]; rfl)
      have hcons : s.lock = some .consumer := hlock.popper.mpr hin
      rw [hprod] at hcons
      cases hcons
  · exact h.quiet rfl rfl rfl rfl rfl (by rw [hpc]; rfl) h.popper
  · exact h.quiet rfl rfl rfl rfl rfl (by rw [hpc]; rfl) h.popper

theorem Contents.popStep (h : Contents N k P C s) (hC : C.length < 2 ^ 63) (hlock : LockInv s)
    (hs : popStep N s = some (a, s')) :
    Contents N k (P ++ a.published?.toList) (C ++ a.popped?.toList) s' := by
  rcases popStep_cases hs with ⟨hpc, -⟩ | hpc | ⟨v, hpc⟩ | ⟨v, hpc⟩ | ⟨v, hpc⟩
  · exact h.quiet rfl rfl rfl rfl rfl rfl trivial
  · -- nothing is pending, since the consumer is in its critical section
    have hpending : s.pusher.pending = [] := by
      have hcons : s.lock = some .consumer := hlock.popper.mpr (by rw [hpc]; rfl)
      cases hpush : s.pusher with
      | increment v =>
        have hprod : s.lock = some .producer := hlock.pusher.mpr (by rw [hpush]; rfl)
        rw [hprod] at hcons
        cases hcons
      | _ => rfl
    have hbuffer := h.buffer
    rw [hpending, List.append_nil] at hbuffer
    have hread : s.buffer (s.read % N.size) = stored (slot N) k P (slot N C.length) := by
      rw [hbuffer, h.read, ofNat_mod_size hC, slot]
    exact h.quiet rfl rfl rfl rfl rfl rfl hread
  · simp only [published?, popped?, Option.toList_some, Option.toList_none, List.append_nil]
    refine ⟨h.write, ?_, h.buffer, trivial⟩
    rw [List.length_append, List.length_singleton, Int64.ofNat_add, ← h.read]
    rfl
  · exact h.quiet rfl rfl rfl rfl rfl rfl trivial
  · exact h.quiet rfl rfl rfl rfl rfl rfl trivial

/-- **Every step keeps track of the slots.** -/
theorem Contents.step (h : Contents N k P C s) (hP : P.length < 2 ^ 63) (hC : C.length < 2 ^ 63)
    (hlock : LockInv s) (hs : Step N s a s') :
    Contents N k (P ++ a.published?.toList) (C ++ a.popped?.toList) s' := by
  rcases hs with ⟨v, hidle⟩ | hs | hidle | hs
  · exact h.quiet rfl rfl rfl rfl rfl (by rw [hidle]; rfl) h.popper
  · exact h.pushStep hP hlock hs
  · exact h.quiet rfl rfl rfl rfl rfl rfl trivial
  · exact h.popStep hC hlock hs

/-- The counters are within the range of an `int64_t`. -/
def Short (tr : List Action) : Prop :=
  (published tr).length < 2 ^ 63 ∧ (QueueAction.popped tr).length < 2 ^ 63

theorem Short.of_snoc (h : Short (tr ++ [a])) : Short tr := by
  obtain ⟨hP, hC⟩ := h
  rw [published_snoc, List.length_append] at hP
  rw [popped_snoc, List.length_append] at hC
  exact ⟨by omega, by omega⟩

/-- **What is in the slots along a run.** -/
theorem contents_of_run (h : (holding N k).Run tr s) (hshort : Short tr) :
    Contents N k (published tr) (QueueAction.popped tr) s := by
  revert hshort
  refine h.invariant (I := fun tr s => Short tr →
    Contents N k (published tr) (QueueAction.popped tr) s) ?_ ?_
  · exact fun s hs _ => contents_init hs
  · intro tr s a s' hrun ih hs hshort
    have hshort' := hshort.of_snoc
    rw [published_snoc, popped_snoc]
    exact (ih hshort').step hshort'.1 hshort'.2 (lockInv_of_run (run_of_holding hrun)) hs

/-! ### The simulation -/

/-- Where the producer stands, seen from outside. -/
def Pusher.status : Pusher → Status (QueueOp Int64) (QueueRes Int64)
  | .idle => .idle
  | .lock val => .called (.push val)
  | .writeSlot val => .called (.push val)
  | .increment val => .called (.push val)
  | .unlock => .done .push
  | .returning => .done .push

/-- Where the consumer stands, seen from outside. -/
def Popper.status : Popper → Status (QueueOp Int64) (QueueRes Int64)
  | .idle => .idle
  | .lock => .called .pop
  | .readSlot => .called .pop
  | .increment _ => .called .pop
  | .unlock v => .done (.pop v)
  | .returning v => .done (.pop v)

/-- Where the two threads stand, seen from outside. -/
def State.status (s : State) : Side → Status (QueueOp Int64) (QueueRes Int64)
  | .producer => s.pusher.status
  | .consumer => s.popper.status

/-- The ring a state stands for, with the two threads where they stand. -/
def view (P C : List Int64) (s : State) :
    AtomicState Side (List Int64 × ℕ) (QueueOp Int64) (QueueRes Int64) where
  object := (P, C.length)
  status := s.status

/-- The step is one of the ring that overwrites and repeats. -/
def Matched (N : RingSize) (k : Int64 → Int64) (P C : List Int64) (s : State) (a : Action)
    (s' : State) : Prop :=
  ∃ marks, ((overwriting (slot N) k).atomic Side).Steps (view P C s) marks
      (view (P ++ a.published?.toList) (C ++ a.popped?.toList) s') ∧
    marks.filterMap Mark.event? = a.event?.toList

/-- An access that settles nothing. -/
theorem matched_access {t : Side} (hpush : s'.pusher.status = s.pusher.status)
    (hpop : s'.popper.status = s.popper.status) : Matched N k P C s (.access t) s' := by
  have hview : view P C s' = view P C s := by
    refine congrArg (AtomicState.mk _) (funext fun u => ?_)
    cases u with
    | producer => exact hpush
    | consumer => exact hpop
  refine ⟨[], ?_, rfl⟩
  simp only [published?, popped?, Option.toList_none, List.append_nil, hview]
  exact .refl _

/-- The other thread stays where it stands. -/
theorem status_of_ne_producer (hpop : s'.popper = s.popper) (u : Side) (hu : u ≠ .producer) :
    s'.status u = s.status u := by
  cases u with
  | producer => exact absurd rfl hu
  | consumer => exact congrArg Popper.status hpop

theorem status_of_ne_consumer (hpush : s'.pusher = s.pusher) (u : Side) (hu : u ≠ .consumer) :
    s'.status u = s.status u := by
  cases u with
  | producer => exact congrArg Pusher.status hpush
  | consumer => exact absurd rfl hu

/-- **Every step is matched.** -/
theorem Contents.matched (h : Contents N k P C s) (hs : Step N s a s') :
    Matched N k P C s a s' := by
  rcases hs with ⟨v, hidle⟩ | hs | hidle | hs
  · refine ⟨[.call .producer (.push v)], .single (SequentialObject.atomic_step_call ?_ rfl ?_
      (status_of_ne_producer rfl)), rfl⟩
    · exact congrArg Pusher.status hidle
    · simp [view, published?, popped?]
  · cases pushStep_cases hs with
    | lock v hpc => exact matched_access (by rw [hpc]; rfl) rfl
    | writeSlot v hpc => exact matched_access (by rw [hpc]; rfl) rfl
    | increment v hpc =>
      -- a `push` takes effect when `write` is incremented
      refine ⟨[.point .producer (.push v) .push], .single (SequentialObject.atomic_step_point ?_ rfl
        ?_ (status_of_ne_producer rfl)), rfl⟩
      · exact congrArg Pusher.status hpc
      · simpa [view, published?, popped?, overwriting] using OverwritingStep.push P C.length v
    | unlock hpc => exact matched_access (by rw [hpc]; rfl) rfl
    | ret hpc =>
      refine ⟨[.ret .producer .push], .single (SequentialObject.atomic_step_ret ?_ rfl ?_
        (status_of_ne_producer rfl)), rfl⟩
      · exact congrArg Pusher.status hpc
      · simp [view, published?, popped?]
  · refine ⟨[.call .consumer .pop], .single (SequentialObject.atomic_step_call ?_ rfl ?_
      (status_of_ne_consumer rfl)), rfl⟩
    · exact congrArg Popper.status hidle
    · simp [view, published?, popped?]
  · cases popStep_cases hs with
    | lock hpc => exact matched_access rfl (by rw [hpc]; rfl)
    | readSlot hpc => exact matched_access rfl (by rw [hpc]; rfl)
    | increment v hpc =>
      -- a `pop` takes effect when `read` is incremented, with the value it has read before
      have hv := h.popper
      rw [hpc] at hv
      refine ⟨[.point .consumer .pop (.pop v)], .single (SequentialObject.atomic_step_point ?_ rfl
        ?_ (status_of_ne_consumer rfl)), rfl⟩
      · exact congrArg Popper.status hpc
      · rw [show v = _ from hv]
        simpa [view, published?, popped?, overwriting] using OverwritingStep.pop P C.length
    | unlock v hpc => exact matched_access rfl (by rw [hpc]; rfl)
    | ret v hpc =>
      refine ⟨[.ret .consumer (.pop v)], .single (SequentialObject.atomic_step_ret ?_ rfl ?_
        (status_of_ne_consumer rfl)), rfl⟩
      · exact congrArg Popper.status hpc
      · simp [view, published?, popped?]

/-! ### The main result -/

/-- **The ring buffer with a lock is the ring that overwrites and repeats**, whatever is in its
slots at the start and however far its two threads are apart, in runs of fewer than `2 ^ 63`
pushes and as many pops. -/
theorem locked_ring_is_overwriting (h : (holding N k).Run tr s)
    (hP : (published tr).length < 2 ^ 63) (hC : (QueueAction.popped tr).length < 2 ^ 63) :
    (overwriting (slot N) k).Linearizable (history tr) := by
  refine SequentialObject.linearizable_of_simulation_while event? Short
    (fun _ _ hshort => hshort.of_snoc)
    (fun tr s q => q = view (published tr) (QueueAction.popped tr) s) ?_ ?_ h ⟨hP, hC⟩
  · rintro s ⟨⟨-, -, -, hpush, hpop, -⟩, -⟩
    refine congrArg (AtomicState.mk ([], 0)) (funext fun u => ?_)
    cases u with
    | producer => exact (congrArg Pusher.status hpush).symm
    | consumer => exact (congrArg Popper.status hpop).symm
  · rintro tr s a s' q hrun hshort rfl hs
    obtain ⟨marks, hmarks, hevent⟩ := (contents_of_run hrun hshort.of_snoc).matched hs
    refine ⟨marks, _, hmarks, hevent, ?_⟩
    rw [published_snoc, popped_snoc]

/-- A thousand and one values into the program's own buffer, and the last of them out of it. -/
theorem locked_ring_overwriting_first :
    ∃ k tr s, (holding ringBufferSize k).Run tr s ∧
      published tr = List.replicate 1000 0 ++ [1] ∧ returned .consumer tr = [1] ∧
      (overwriting (slot ringBufferSize) k).Linearizable (history tr) := by
  obtain ⟨tr, s, h, hP, hret⟩ :=
    exists_overwrite ringBufferSize (List.replicate 1000 0) List.length_replicate 1
  obtain ⟨k, hk⟩ := exists_holding h
  have hC : (QueueAction.popped tr).length ≤ 2 := by
    rw [popped_eq_returned h, hret, List.length_append]
    cases s.popper <;> simp [Popper.inHand]
  refine ⟨k, tr, s, hk, hP, hret, locked_ring_is_overwriting hk ?_ (by omega)⟩
  rw [hP, List.length_append, List.length_replicate]
  decide

end LockedRing

end Spsc

end LowLatency
