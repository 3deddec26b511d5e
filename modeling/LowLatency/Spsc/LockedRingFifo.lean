import LowLatency.Spsc.LockedRing
import Mathlib.Data.List.Basic

/-!
# When the ring buffer with a lock is a queue

What keeps a lock-free ring buffer first-in first-out is that a `try_push` which finds it
full, and a `try_pop` which finds it empty, say so. The class with a lock has no such test,
and is first-in first-out as long as the scheduler stands in for it: as long as every
critical section of `pop` is entered with `read` behind `write`, and every critical section
of `push` with the two less than `size` apart
(`LowLatency.Spsc.LockedRing.fifo_while_fits`). The first step that breaks this is also the
first after which the queue is none any more.
-/

namespace LowLatency

namespace Spsc

namespace LockedRing

open Int64 (ofNat)
open QueueAction

variable {N : RingSize} {P C : List Int64} {s s' : State} {a : Action} {tr : List Action}

/-! ### What is expected of the queue -/

/-- **What is expected of the queue** in the state `s` reached with the trace `tr`. -/
structure Fifo (N : RingSize) (tr : List Action) (s : State) : Prop where
  /-- The values returned are the first ones pushed, in order. -/
  returned_prefix : returned .consumer tr <+: published tr
  /-- The value a `pop` has read is the oldest one pushed and not popped. -/
  read_pushed : ∀ v, s.popper = .increment v →
    (published tr)[(QueueAction.popped tr).length]? = some v
  /-- A `push` has written to a slot without a value still to pop. -/
  no_overwrite : ∀ v, s.pusher = .increment v →
    (published tr).length < (QueueAction.popped tr).length + N.n
  /-- The values still to pop are in their slots. -/
  kept : ∀ k, (QueueAction.popped tr).length ≤ k → k < (published tr).length →
    (published tr)[k]? = some (s.buffer (ofNat (k % N.n)))
  /-- No counter has overflowed. -/
  no_violation : s.violation = false

/-- **The condition on a step**: a slot is written only while `write` is less than `size`
ahead of `read`, and read only while it is ahead; and `write` is not the largest `int64_t`
when it is incremented. -/
structure Fits (N : RingSize) (s : State) (a : Action) : Prop where
  not_full : ∀ v, s.pusher = .writeSlot v → a = .access .producer → s.write - s.read < N.size
  not_empty : s.popper = .readSlot → a = .access .consumer → s.read < s.write
  not_max : ∀ v, s.pusher = .increment v → a = .publish .producer v → s.write ≠ Int64.maxValue

/-! ### The counters as numbers -/

theorem ofNat_lt_iff {r w : ℕ} (hr : r < 2 ^ 63) (hw : w < 2 ^ 63) :
    ofNat r < ofNat w ↔ r < w := by
  rw [Int64.lt_iff_toInt_lt, Int64.toInt_ofNat_of_lt hr, Int64.toInt_ofNat_of_lt hw, Int.ofNat_lt]

theorem ofNat_sub_lt_size_iff {r w : ℕ} (hle : r ≤ w) (hw : w < 2 ^ 63) :
    ofNat w - ofNat r < N.size ↔ w < r + N.n := by
  have hsub : (ofNat w - ofNat r).toInt = (w : ℤ) - r := by
    rw [Int64.toInt_sub, Int64.toInt_ofNat_of_lt hw, Int64.toInt_ofNat_of_lt (by omega)]
    exact Int.bmod_eq_of_le (by omega) (by omega)
  rw [Int64.lt_iff_toInt_lt, hsub, RingSize.toInt_size]
  omega

theorem ofNat_eq_maxValue_iff {w : ℕ} (hw : w < 2 ^ 63) :
    ofNat w = Int64.maxValue ↔ w = 2 ^ 63 - 1 := by
  rw [show Int64.maxValue = ofNat (2 ^ 63 - 1) by decide, Int64.ofNat_inj_of_lt hw (by omega)]

/-! ### The invariant -/

/-- What the producer knows once it has written the slot. -/
def PusherInv (N : RingSize) (P C : List Int64) (buffer : Int64 → Int64) : Pusher → Prop
  | .increment v => P.length < C.length + N.n ∧ buffer (ofNat (P.length % N.n)) = v
  | _ => True

/-- What the consumer knows once it has read the slot. -/
def PopperInv (P C : List Int64) : Popper → Prop
  | .increment v => P[C.length]? = some v
  | _ => True

/-- **The invariant**, when the values `P` have been pushed and the values `C` popped. -/
structure Inv (N : RingSize) (P C : List Int64) (s : State) : Prop where
  /-- Pops do not overtake pushes. -/
  le : C.length ≤ P.length
  /-- Pushes are at most a round ahead. -/
  room : P.length ≤ C.length + N.n
  /-- The pushes can be counted. -/
  lt : P.length < 2 ^ 63
  /-- The values popped are the first ones pushed. -/
  popped : C = P.take C.length
  write : s.write = ofNat P.length
  read : s.read = ofNat C.length
  /-- The slots in between hold the values pushed and not popped. -/
  slots : ∀ k, C.length ≤ k → k < P.length → P[k]? = some (s.buffer (ofNat (k % N.n)))
  pusher : PusherInv N P C s.buffer s.pusher
  popper : PopperInv P C s.popper
  no_violation : s.violation = false

theorem inv_init (hs : (system N).Init s) : Inv N [] [] s := by
  obtain ⟨hw, hr, -, hpush, hpop, hv⟩ := hs
  refine ⟨le_rfl, Nat.zero_le _, by decide, rfl, hw, hr, ?_, ?_, ?_, hv⟩
  · intro k _ hk
    cases hk
  · rw [hpush]
    trivial
  · rw [hpop]
    trivial

/-- A `pop` leaves what the producer knows. -/
theorem PusherInv.pop {buffer : Int64 → Int64} {p : Pusher} (h : PusherInv N P C buffer p)
    (l : List Int64) : PusherInv N P (C ++ l) buffer p := by
  cases p with
  | increment v =>
    obtain ⟨hlt, hbuf⟩ := h
    exact ⟨by rw [List.length_append]; omega, hbuf⟩
  | _ => exact h

/-- A `push` leaves what the consumer knows. -/
theorem PopperInv.push {p : Popper} (h : PopperInv P C p) (l : List Int64) :
    PopperInv (P ++ l) C p := by
  cases p with
  | increment v =>
    have hv : P[C.length]? = some v := h
    show (P ++ l)[C.length]? = some v
    rw [List.getElem?_append_left (List.getElem?_eq_some_iff.mp hv).1, hv]
  | _ => exact h

/-- **A `push` that fits keeps the invariant.** -/
theorem Inv.pushStep (h : Inv N P C s) (hfits : Fits N s a)
    (hs : pushStep N s = some (a, s')) :
    Inv N (P ++ a.published?.toList) (C ++ a.popped?.toList) s' := by
  have hp := h.pusher
  have hle := h.le
  rcases pushStep_cases hs with ⟨v, hpc, hlock⟩ | ⟨v, hpc⟩ | ⟨v, hpc⟩ | hpc | hpc
  · simpa [published?, popped?] using
      { h with pusher := (trivial : PusherInv N P C _ (.writeSlot v)) }
  · have hroom : P.length < C.length + N.n := by
      have hsub := hfits.not_full v hpc rfl
      rwa [h.write, h.read, ofNat_sub_lt_size_iff hle h.lt] at hsub
    have hslot : s.write % N.size = ofNat (P.length % N.n) := by
      rw [h.write, ofNat_mod_size h.lt]
    have hp' : PusherInv N P C (Function.update s.buffer (s.write % N.size) v) (.increment v) := by
      refine ⟨hroom, ?_⟩
      rw [hslot, Function.update_self]
    have hslots : ∀ k, C.length ≤ k → k < P.length →
        P[k]? = some (Function.update s.buffer (s.write % N.size) v (ofNat (k % N.n))) := by
      intro k hC hP
      rw [hslot, update_slot_of_lt hC hP hroom]
      exact h.slots k hC hP
    simpa [published?, popped?] using { h with slots := hslots, pusher := hp' }
  · rw [hpc] at hp
    obtain ⟨hroom, hbuf⟩ := hp
    have hmax : s.write ≠ Int64.maxValue := hfits.not_max v hpc rfl
    have hlt : P.length + 1 < 2 ^ 63 := by
      have hne := mt (ofNat_eq_maxValue_iff h.lt).mpr (h.write ▸ hmax)
      have hlt := h.lt
      omega
    simp only [published?, popped?, Option.toList_some, Option.toList_none, List.append_nil]
    refine ⟨by rw [List.length_append]; omega, by simpa using hroom, by simpa using hlt, ?_, ?_,
      h.read, ?_, trivial, h.popper.push _, ?_⟩
    · rw [List.take_append_of_le_length hle]
      exact h.popped
    · rw [List.length_append, List.length_singleton, Int64.ofNat_add, ← h.write]
      rfl
    · intro k hC hP
      rw [List.length_append, List.length_singleton] at hP
      rcases Nat.lt_or_ge k P.length with hk | hk
      · rw [List.getElem?_append_left hk]
        exact h.slots k hC hk
      · -- the value pushed is the one just written to the slot
        obtain rfl : k = P.length := by omega
        rw [List.getElem?_concat_length]
        exact congrArg some hbuf.symm
    · simp [h.no_violation, hmax]
  · simpa [published?, popped?] using { h with pusher := (trivial : PusherInv N P C _ .returning) }
  · simpa [published?, popped?] using { h with pusher := (trivial : PusherInv N P C _ .idle) }

/-- **A `pop` that fits keeps the invariant.** -/
theorem Inv.popStep (h : Inv N P C s) (hfits : Fits N s a) (hs : popStep N s = some (a, s')) :
    Inv N (P ++ a.published?.toList) (C ++ a.popped?.toList) s' := by
  have hp := h.popper
  have hle := h.le
  have hlt := h.lt
  rcases popStep_cases hs with ⟨hpc, hlock⟩ | hpc | ⟨v, hpc⟩ | ⟨v, hpc⟩ | ⟨v, hpc⟩
  · simpa [published?, popped?] using { h with popper := (trivial : PopperInv P C .readSlot) }
  · have hne : C.length < P.length := by
      have hread := hfits.not_empty hpc rfl
      rwa [h.write, h.read, ofNat_lt_iff (by omega) hlt] at hread
    have hp' : PopperInv P C (.increment (s.buffer (s.read % N.size))) := by
      show P[C.length]? = _
      rw [h.read, ofNat_mod_size (by omega), h.slots _ le_rfl hne]
    simpa [published?, popped?] using { h with popper := hp' }
  · rw [hpc] at hp
    have hval : P[C.length]? = some v := hp
    have hne : C.length < P.length := (List.getElem?_eq_some_iff.mp hval).1
    have hroom := h.room
    simp only [published?, popped?, Option.toList_some, Option.toList_none, List.append_nil]
    refine ⟨by simpa using hne, by rw [List.length_append]; omega, hlt, ?_, h.write, ?_, ?_,
      h.pusher.pop _, trivial, ?_⟩
    · rw [List.length_append, List.length_singleton, List.take_add_one, hval, Option.toList_some,
        ← h.popped]
    · rw [List.length_append, List.length_singleton, Int64.ofNat_add, ← h.read]
      rfl
    · intro k hC hP
      rw [List.length_append] at hC
      exact h.slots k (by omega) hP
    · have hmax : s.read ≠ Int64.maxValue := by
        rw [h.read, Ne, ofNat_eq_maxValue_iff (by omega)]
        omega
      simp [h.no_violation, hmax]
  · simpa [published?, popped?] using { h with popper := (trivial : PopperInv P C (.returning v)) }
  · simpa [published?, popped?] using { h with popper := (trivial : PopperInv P C .idle) }

/-- **Every step that fits keeps the invariant.** -/
theorem Inv.step (h : Inv N P C s) (hfits : Fits N s a) (hs : Step N s a s') :
    Inv N (P ++ a.published?.toList) (C ++ a.popped?.toList) s' := by
  rcases hs with ⟨v, hidle⟩ | hs | hidle | hs
  · simpa [published?, popped?] using { h with pusher := (trivial : PusherInv N P C _ (.lock v)) }
  · exact h.pushStep hfits hs
  · simpa [published?, popped?] using { h with popper := (trivial : PopperInv P C .lock) }
  · exact h.popStep hfits hs

/-- **The invariant holds along every run** whose steps fit. -/
theorem inv_of_run (h : ((system N).restrict (Fits N)).Run tr s) :
    Inv N (published tr) (QueueAction.popped tr) s := by
  refine h.invariant (I := fun tr s => Inv N (published tr) (QueueAction.popped tr) s) ?_ ?_
  · exact fun s hs => inv_init hs
  · intro tr s a s' _ ih hs
    rw [published_snoc, popped_snoc]
    exact ih.step hs.2 hs.1

/-! ### The steps that matter -/

theorem Step.writeSlot {v : Int64} (hs : Step N s (.access .producer) s')
    (hpc : s.pusher = .writeSlot v) : s'.pusher = .increment v := by
  generalize ha : QueueAction.access Side.producer = a at hs
  rcases hs with _ | hs | _ | hs
  · cases ha
  · rcases pushStep_cases hs with ⟨v', hpc', _⟩ | ⟨v', hpc'⟩ | _ | hpc' | _
    · rw [hpc] at hpc'
      cases hpc'
    · rw [hpc] at hpc'
      cases hpc'
      rfl
    · cases ha
    · rw [hpc] at hpc'
      cases hpc'
    · cases ha
  · cases ha
  · rcases popStep_cases hs with _ | _ | _ | _ | _
    all_goals cases ha

theorem Step.readSlot (hs : Step N s (.access .consumer) s') (hpc : s.popper = .readSlot) :
    ∃ v, s'.popper = .increment v := by
  generalize ha : QueueAction.access Side.consumer = a at hs
  rcases hs with _ | hs | _ | hs
  · cases ha
  · rcases pushStep_cases hs with _ | _ | _ | _ | _
    all_goals cases ha
  · cases ha
  · rcases popStep_cases hs with ⟨hpc', _⟩ | _ | _ | ⟨v, hpc'⟩ | _
    · rw [hpc] at hpc'
      cases hpc'
    · exact ⟨_, rfl⟩
    · cases ha
    · rw [hpc] at hpc'
      cases hpc'
    · cases ha

theorem Step.increment {v : Int64} (hs : Step N s (.publish .producer v) s') :
    s'.violation = (s.violation || s.write = Int64.maxValue) := by
  generalize ha : QueueAction.publish Side.producer v = a at hs
  rcases hs with _ | hs | _ | hs
  · cases ha
  · rcases pushStep_cases hs with _ | _ | _ | _ | _
    all_goals first
      | rfl
      | cases ha
  · cases ha
  · rcases popStep_cases hs with _ | _ | _ | _ | _
    all_goals cases ha

/-! ### The main result -/

/-- What is expected of the queue follows from the invariant. -/
theorem Inv.fifo (h : Inv N (published tr) (QueueAction.popped tr) s)
    (hrun : (system N).Run tr s) : Fifo N tr s := by
  have hpopped : QueueAction.popped tr <+: published tr := by
    rw [h.popped]
    exact List.take_prefix _ _
  refine ⟨List.IsPrefix.trans ?_ hpopped, ?_, ?_, h.slots, h.no_violation⟩
  · rw [popped_eq_returned hrun]
    exact List.prefix_append _ _
  · intro v hpc
    have hp := h.popper
    rwa [hpc] at hp
  · intro v hpc
    have hp := h.pusher
    rw [hpc] at hp
    exact hp.1

/-- A step that does not fit leads to a state that is not as expected. -/
theorem Inv.fits_of_fifo (h : Inv N (published tr) (QueueAction.popped tr) s)
    (hs : Step N s a s') (hok : Fifo N (tr ++ [a]) s') : Fits N s a := by
  have hle := h.le
  have hlt := h.lt
  constructor
  · rintro v hpc rfl
    have hroom := hok.no_overwrite v (hs.writeSlot hpc)
    simp only [published_snoc, popped_snoc, published?, popped?, Option.toList_none,
      List.append_nil] at hroom
    rwa [h.write, h.read, ofNat_sub_lt_size_iff hle hlt]
  · rintro hpc rfl
    obtain ⟨v, hpc'⟩ := hs.readSlot hpc
    have hread := hok.read_pushed v hpc'
    simp only [published_snoc, popped_snoc, published?, popped?, Option.toList_none,
      List.append_nil] at hread
    rw [h.write, h.read, ofNat_lt_iff (by omega) hlt]
    exact (List.getElem?_eq_some_iff.mp hread).1
  · rintro v - rfl hmax
    have hv := hok.no_violation
    rw [hs.increment, hmax] at hv
    simp at hv

/-- **The ring buffer with a lock is first-in first-out while its callers keep apart.** In a
run whose steps all fit, every state is as expected of a queue; and from such a state, a
step leads to a state as expected exactly if it fits. -/
theorem fifo_while_fits (N : RingSize) (h : ((system N).restrict (Fits N)).Run tr s) :
    Fifo N tr s ∧ ∀ a s', (system N).Step s a s' → (Fifo N (tr ++ [a]) s' ↔ Fits N s a) := by
  refine ⟨(inv_of_run h).fifo h.of_restrict, fun a s' hs => ⟨fun hok => ?_, fun hfits => ?_⟩⟩
  · exact (inv_of_run h).fits_of_fifo hs hok
  · have h' := h.snoc ⟨hs, hfits⟩
    exact (inv_of_run h').fifo h'.of_restrict

/-- The queue before the first call, with `7` where the first value will be stored. -/
def fresh : State where
  write := 0
  read := 0
  buffer := fun _ => 7
  lock := none
  pusher := .idle
  popper := .idle
  violation := false

theorem init_fresh (N : RingSize) : (system N).Init fresh := ⟨rfl, rfl, rfl, rfl, rfl, rfl⟩

/-- A step that accesses no slot and increments no counter fits. -/
theorem fits_of_outside (hslot : ∀ v, s.pusher ≠ .writeSlot v)
    (hincrement : ∀ v, s.pusher ≠ .increment v) (hread : s.popper ≠ .readSlot) : Fits N s a :=
  ⟨fun v hpc _ => absurd hpc (hslot v), fun hpc _ => absurd hpc hread,
    fun v hpc _ => absurd hpc (hincrement v)⟩

/-- One value through the program's own buffer: pushed, and read by a `pop`. -/
theorem fifo_once : ∃ tr s, published tr = [3] ∧ s.popper = .increment 3 ∧
    Fifo ringBufferSize tr s := by
  have h0 : ((system ringBufferSize).restrict (Fits ringBufferSize)).Run [] fresh :=
    .start (init_fresh ringBufferSize)
  have h1 := h0.snoc ⟨.pushCall 3 rfl, fits_of_outside nofun nofun nofun⟩
  have h2 := h1.snoc ⟨.push rfl, fits_of_outside nofun nofun nofun⟩
  have h3 := h2.snoc ⟨.push rfl, ⟨fun _ _ _ => by decide, nofun, nofun⟩⟩
  have h4 := h3.snoc ⟨.push rfl, ⟨nofun, nofun, fun _ _ _ => by decide⟩⟩
  have h5 := h4.snoc ⟨.push rfl, fits_of_outside nofun nofun nofun⟩
  have h6 := h5.snoc ⟨.popCall rfl, fits_of_outside nofun nofun nofun⟩
  have h7 := h6.snoc ⟨.pop rfl, fits_of_outside nofun nofun nofun⟩
  have h8 := h7.snoc ⟨.pop rfl, ⟨nofun, fun _ _ => by decide, nofun⟩⟩
  exact ⟨_, _, rfl, rfl, (fifo_while_fits ringBufferSize h8).1⟩

/-! ### What happens at the two ends -/

/-- The state after `push(v)`. -/
def pushed (N : RingSize) (v : Int64) (s : State) : State :=
  { s with
    write := s.write + 1
    buffer := Function.update s.buffer (s.write % N.size) v
    lock := none
    pusher := .idle
    violation := s.violation || s.write = Int64.maxValue }

/-- The state after `pop()`. -/
def afterPop (s : State) : State :=
  { s with
    read := s.read + 1
    lock := none
    popper := .idle
    violation := s.violation || s.read = Int64.maxValue }

/-- **A `push` goes through**, if the lock is free and whatever the buffer holds. -/
theorem push_once (h : (system N).Run tr s) (hlock : s.lock = none) (hidle : s.pusher = .idle)
    (v : Int64) :
    ∃ tr', (system N).Run tr' (pushed N v s) ∧ published tr' = published tr ++ [v] ∧
      returned .consumer tr' = returned .consumer tr := by
  obtain ⟨write, read, buffer, lock, pusher, popper, violation⟩ := s
  obtain rfl : lock = none := hlock
  have h1 := h.snoc (.pushCall v hidle)
  have h2 := h1.snoc (.push rfl)
  have h3 := h2.snoc (.push rfl)
  have h4 := h3.snoc (.push rfl)
  have h5 := h4.snoc (.push rfl)
  have h6 := h5.snoc (.push rfl)
  refine ⟨_, h6, ?_, ?_⟩
  · simp [published, List.filterMap_cons, published?]
  · simp [returned, List.filterMap_cons, returned?, QueueRes.value?]

/-- **A `pop` goes through**, if the lock is free and whatever the buffer holds. -/
theorem pop_once (h : (system N).Run tr s) (hlock : s.lock = none) (hidle : s.popper = .idle) :
    ∃ tr', (system N).Run tr' (afterPop s) ∧ published tr' = published tr ∧
      returned .consumer tr' = returned .consumer tr ++ [s.buffer (s.read % N.size)] := by
  obtain ⟨write, read, buffer, lock, pusher, popper, violation⟩ := s
  obtain rfl : lock = none := hlock
  have h1 := h.snoc (.popCall hidle)
  have h2 := h1.snoc (.pop rfl)
  have h3 := h2.snoc (.pop rfl)
  have h4 := h3.snoc (.pop rfl)
  have h5 := h4.snoc (.pop rfl)
  have h6 := h5.snoc (.pop rfl)
  refine ⟨_, h6, ?_, ?_⟩
  · simp [published, List.filterMap_cons, published?]
  · simp [returned, List.filterMap_cons, returned?, QueueRes.value?]

/-- The producer may push any number of values before the first `pop`. -/
theorem exists_pushes (N : RingSize) (vs : List Int64) :
    ∃ tr s, (system N).Run tr s ∧ published tr = vs ∧ returned .consumer tr = [] ∧
      s.write = ofNat vs.length ∧ s.read = 0 ∧ s.lock = none ∧ s.pusher = .idle ∧
      s.popper = .idle := by
  induction vs using List.reverseRecOn with
  | nil => exact ⟨[], fresh, .start (init_fresh N), rfl, rfl, rfl, rfl, rfl, rfl, rfl⟩
  | append_singleton vs v ih =>
    obtain ⟨tr, s, h, hP, hret, hw, hr, hlock, hpush, hpop⟩ := ih
    obtain ⟨tr', h', hP', hret'⟩ := push_once h hlock hpush v
    refine ⟨tr', _, h', by rw [hP', hP], hret'.trans hret, ?_, hr, rfl, rfl, hpop⟩
    rw [List.length_append, List.length_singleton, Int64.ofNat_add, ← hw]
    rfl

/-- **The first `pop` after `size` and one more pushes** returns the last value. -/
theorem exists_overwrite (N : RingSize) (vs : List Int64) (hlen : vs.length = N.n) (v : Int64) :
    ∃ tr s, (system N).Run tr s ∧ published tr = vs ++ [v] ∧ returned .consumer tr = [v] := by
  obtain ⟨tr, s, h, hP, hret, hw, hr, hlock, hpush, hpop⟩ := exists_pushes N vs
  obtain ⟨tr₁, h₁, hP₁, hret₁⟩ := push_once h hlock hpush v
  obtain ⟨tr₂, h₂, hP₂, hret₂⟩ := pop_once h₁ rfl hpop
  refine ⟨tr₂, _, h₂, by rw [hP₂, hP₁, hP], ?_⟩
  -- `size` pushes lead back to the slot of the first one
  have hslot : s.write % N.size = s.read % N.size := by
    rw [hw, hr, hlen, ofNat_mod_size N.lt, Nat.mod_self]
    exact (ofNat_mod_size (N := N) (k := 0) (by decide)).symm ▸ rfl
  have hread : (pushed N v s).buffer ((pushed N v s).read % N.size) = v := by
    show Function.update s.buffer (s.write % N.size) v (s.read % N.size) = v
    rw [hslot, Function.update_self]
  rw [hret₂, hret₁, hret, hread, List.nil_append]

/-- **The program's own buffer is no queue**: a `pop` before the first `push` returns what
the slot has held, and after a thousand and one pushes the first `pop` returns the last
value pushed. -/
theorem locked_ring_is_no_queue :
    (∃ tr s, (system ringBufferSize).Run tr s ∧ published tr = [] ∧
      returned .consumer tr = [7] ∧ ¬Fifo ringBufferSize tr s) ∧
    ∃ tr s, (system ringBufferSize).Run tr s ∧ published tr = List.replicate 1000 0 ++ [1] ∧
      returned .consumer tr = [1] ∧ ¬Fifo ringBufferSize tr s := by
  constructor
  · obtain ⟨tr, h, hP, hret⟩ := pop_once (.start (init_fresh ringBufferSize)) rfl rfl
    refine ⟨tr, _, h, hP, hret, fun hok => ?_⟩
    have hprefix := hok.returned_prefix
    rw [hP, hret] at hprefix
    cases List.eq_nil_of_prefix_nil hprefix
  · obtain ⟨tr, s, h, hP, hret⟩ :=
      exists_overwrite ringBufferSize (List.replicate 1000 0) List.length_replicate 1
    refine ⟨tr, s, h, hP, hret, fun hok => ?_⟩
    have hprefix := hok.returned_prefix
    rw [hP, hret, List.replicate_succ, List.cons_append, List.cons_prefix_cons] at hprefix
    cases hprefix.1

end LockedRing

end Spsc

end LowLatency
