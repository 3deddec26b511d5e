import LowLatency.Foundations.Rest
import LowLatency.Spsc.LockedRingLinearizable
import LowLatency.Spsc.Main

/-!
# The program around the ring buffer with a lock

The same two loops as around the other ring buffers. Here neither thread ever tries again, so the
program comes to its end without any fairness: a complete run has twelve steps for each turn, no
more and no less (`LowLatency.Spsc.LockedRing.locked_ring_main_terminates`).

What the loops hand over is another matter. The `c`-th value popped is one of those pushed to its
slot, or what the slot has held before; which of them it is depends on the schedule.
-/

namespace LowLatency

namespace Spsc

namespace LockedRing

open Int64 (ofNat)
open OverwritingRing QueueAction

variable {N : RingSize} {k : Int64 → Int64} {n : ℕ} {s s' : Main State} {q q' : State} {a : Action}
  {tr : List Action}

/-! ### The steps that are left -/

/-- The steps that are left of a `push`. -/
@[simp] def Pusher.remaining : Pusher → ℕ
  | .idle => 0
  | .lock _ => 5
  | .writeSlot _ => 4
  | .increment _ => 3
  | .unlock => 2
  | .returning => 1

/-- The steps that are left of a `pop`. -/
@[simp] def Popper.remaining : Popper → ℕ
  | .idle => 0
  | .lock => 5
  | .readSlot => 4
  | .increment _ => 3
  | .unlock _ => 2
  | .returning _ => 1

/-- The value of a `push` that has not been counted yet. -/
def Pusher.calling : Pusher → List Int64
  | .lock val => [val]
  | .writeSlot val => [val]
  | .increment val => [val]
  | _ => []

/-- Whether a `pop` has not been counted yet. -/
def Popper.calling : Popper → ℕ
  | .lock => 1
  | .readSlot => 1
  | .increment _ => 1
  | _ => 0

/-- **What a step inside the calls does to them**: one step less is left, a value is published when
its `push` is counted, and one is popped when its `pop` is. -/
structure Inside (q : State) (a : Action) (q' : State) : Prop where
  remaining : q'.pusher.remaining + q'.popper.remaining + 1 =
    q.pusher.remaining + q.popper.remaining
  push : a.published?.toList ++ q'.pusher.calling = q.pusher.calling
  pop : a.popped?.toList.length + q'.popper.calling = q.popper.calling

theorem inside_of_step (hcall : ∀ t op, a ≠ .call t op) (hs : Step N q a q') : Inside q a q' := by
  rcases hs with ⟨v, hidle⟩ | hs | hidle | hs
  · exact absurd rfl (hcall _ _)
  · cases pushStep_cases hs with
    | lock _ hpc | writeSlot _ hpc | increment _ hpc | unlock hpc | ret hpc =>
      refine ⟨?_, ?_, Nat.zero_add _⟩
      · rw [hpc]
        simp only [Pusher.remaining]
        omega
      · rw [hpc]
        rfl
  · exact absurd rfl (hcall _ _)
  · cases popStep_cases hs with
    | lock hpc | readSlot hpc | increment _ hpc | unlock _ hpc | ret _ hpc =>
      refine ⟨?_, rfl, ?_⟩
      · rw [hpc]
        rfl
      · rw [hpc]
        rfl

/-- **What the two loops have done**: each turn has cost six steps, but for those that are left of
the call it is in, and each value has been published or popped. -/
structure Turns (n : ℕ) (tr : List Action) (s : Main State) : Prop where
  written_le : s.written ≤ n
  read_le : s.read ≤ n
  length : tr.length + (s.queue.pusher.remaining + s.queue.popper.remaining) =
    6 * (s.written + s.read)
  published : published tr ++ s.queue.pusher.calling = (List.range s.written).map ofNat
  popped : (QueueAction.popped tr).length + s.queue.popper.calling = s.read

theorem Turns.step (h : Turns n tr s) (hs : MainStep (holding N k) n s a s') :
    Turns n (tr ++ [a]) s' := by
  obtain ⟨hwritten, hread, hlength, hP, hC⟩ := h
  cases hs with
  | @push q hlt hs =>
    generalize ha : QueueAction.call Side.producer (QueueOp.push (ofNat s.written)) = a at hs
    obtain ⟨hidle, rfl⟩ : s.queue.pusher = .idle ∧
        q = { s.queue with pusher := .lock (ofNat s.written) } := by
      rcases hs with ⟨v, hidle⟩ | hs | hidle | hs
      · cases ha
        exact ⟨hidle, rfl⟩
      · subst ha
        cases pushStep_cases hs
      · cases ha
      · subst ha
        cases popStep_cases hs
    subst ha
    rw [hidle] at hlength hP
    refine ⟨hlt, hread, ?_, ?_, ?_⟩
    · rw [List.length_append, List.length_singleton]
      simp only [Pusher.remaining] at hlength ⊢
      omega
    · rw [published_snoc, List.range_succ, List.map_append, ← hP]
      simp [Pusher.calling, published?]
    · simpa [popped?] using hC
  | @pop q hlt hs =>
    generalize ha : QueueAction.call Side.consumer QueueOp.pop = a at hs
    obtain ⟨hidle, rfl⟩ : s.queue.popper = .idle ∧ q = { s.queue with popper := .lock } := by
      rcases hs with ⟨v, hidle⟩ | hs | hidle | hs
      · cases ha
      · subst ha
        cases pushStep_cases hs
      · exact ⟨hidle, rfl⟩
      · subst ha
        cases popStep_cases hs
    subst ha
    rw [hidle] at hlength hC
    refine ⟨hwritten, hlt, ?_, ?_, ?_⟩
    · rw [List.length_append, List.length_singleton]
      simp only [Popper.remaining] at hlength ⊢
      omega
    · simpa [published?] using hP
    · simp only [popped_snoc, popped?, Option.toList_none, List.append_nil, Popper.calling] at hC ⊢
      omega
  | @inside _ q hcall hs =>
    obtain ⟨hremaining, hpush, hpop⟩ := inside_of_step hcall hs
    refine ⟨hwritten, hread, ?_, ?_, ?_⟩
    · rw [List.length_append, List.length_singleton]
      dsimp only
      omega
    · rw [published_snoc, List.append_assoc, hpush, hP]
    · rw [popped_snoc, List.length_append]
      dsimp only
      omega

theorem turns_of_run (h : (main (holding N k) n).Run tr s) : Turns n tr s := by
  refine h.invariant (I := fun tr s => Turns n tr s) ?_ fun _ _ _ _ _ ih hs => ih.step hs
  rintro s ⟨⟨⟨-, -, -, hpush, hpop, -⟩, -⟩, hwritten, hread⟩
  refine ⟨by omega, by omega, ?_, ?_, ?_⟩
  · simp [hpush, hpop, hwritten, hread]
  · simp [hpush, hwritten, Pusher.calling]
  · simp [hpop, hread, Popper.calling]

/-! ### No run gets stuck -/

/-- A `push` can go on, unless it waits for the lock. -/
theorem exists_pushStep (hidle : q.pusher ≠ .idle)
    (hlock : q.lock = none ∨ ∀ v, q.pusher ≠ .lock v) : ∃ a q', pushStep N q = some (a, q') := by
  unfold pushStep
  cases hpc : q.pusher with
  | idle => exact absurd hpc hidle
  | lock v =>
    have hfree : q.lock = none := hlock.resolve_right fun hne => hne v hpc
    exact ⟨_, _, if_pos hfree⟩
  | writeSlot | increment | unlock | returning => exact ⟨_, _, rfl⟩

/-- A `pop` can go on, unless it waits for the lock. -/
theorem exists_popStep (hidle : q.popper ≠ .idle) (hlock : q.lock = none ∨ q.popper ≠ .lock) :
    ∃ a q', popStep N q = some (a, q') := by
  unfold popStep
  cases hpc : q.popper with
  | idle => exact absurd hpc hidle
  | lock =>
    have hfree : q.lock = none := hlock.resolve_right fun hne => hne hpc
    exact ⟨_, _, if_pos hfree⟩
  | readSlot | increment | unlock | returning => exact ⟨_, _, rfl⟩

/-- **While a thread is inside a call, one of them can go on**: the holder of the lock, if there
is one. -/
theorem exists_step_inside (hinv : LockInv q) (hin : q.pusher ≠ .idle ∨ q.popper ≠ .idle) :
    ∃ a q', (∀ t op, a ≠ .call t op) ∧ Step N q a q' := by
  have hpush : (∃ a q', pushStep N q = some (a, q')) →
      ∃ a q', (∀ t op, a ≠ .call t op) ∧ Step N q a q' := by
    rintro ⟨a, q', hs⟩
    refine ⟨a, q', fun t op ha => ?_, .push hs⟩
    subst ha
    cases pushStep_cases hs
  have hpop : (∃ a q', popStep N q = some (a, q')) →
      ∃ a q', (∀ t op, a ≠ .call t op) ∧ Step N q a q' := by
    rintro ⟨a, q', hs⟩
    refine ⟨a, q', fun t op ha => ?_, .pop hs⟩
    subst ha
    cases popStep_cases hs
  cases hlock : q.lock with
  | none =>
    rcases hin with hin | hin
    · exact hpush (exists_pushStep hin (.inl hlock))
    · exact hpop (exists_popStep hin (.inl hlock))
  | some t =>
    cases t with
    | producer =>
      have hinside := hinv.pusher.mp hlock
      refine hpush (exists_pushStep ?_ (.inr fun v => ?_))
      · intro hpc
        rw [hpc] at hinside
        cases hinside
      · intro hpc
        rw [hpc] at hinside
        cases hinside
    | consumer =>
      have hinside := hinv.popper.mp hlock
      refine hpop (exists_popStep ?_ (.inr ?_))
      · intro hpc
        rw [hpc] at hinside
        cases hinside
      · intro hpc
        rw [hpc] at hinside
        cases hinside

/-- Both threads have been joined. -/
structure Joined (n : ℕ) (s : Main State) : Prop where
  written : s.written = n
  read : s.read = n
  pusher : s.queue.pusher = .idle
  popper : s.queue.popper = .idle

/-- **A run that cannot go on** has both threads joined. -/
theorem joined_of_stuck (h : (main (holding N k) n).Run tr s)
    (hstuck : ∀ a s', ¬MainStep (holding N k) n s a s') : Joined n s := by
  obtain ⟨hwritten, hread, -⟩ := turns_of_run h
  have hidle : s.queue.pusher = .idle ∧ s.queue.popper = .idle := by
    by_contra hin
    rw [not_and_or] at hin
    have hinv := lockInv_of_run (run_of_holding (run_queue h))
    obtain ⟨a, q', hcall, hs⟩ := exists_step_inside (N := N) hinv hin
    exact hstuck a _ (.inside hcall hs)
  refine ⟨?_, ?_, hidle.1, hidle.2⟩
  · by_contra hne
    exact hstuck _ _ (.push (by omega) (.pushCall _ hidle.1))
  · by_contra hne
    exact hstuck _ _ (.pop (by omega) (.popCall hidle.2))

/-! ### What is handed over -/

/-- **The values popped** are, each of them, what was in its slot at the start or one of the values
pushed to it. -/
def FromSlot (N : RingSize) (k : Int64 → Int64) (P C : List Int64) : Prop :=
  ∀ c v, C[c]? = some v → v = k (slot N c) ∨ ∃ j, slot N j = slot N c ∧ P[j]? = some v

theorem FromSlot.push {P C : List Int64} (h : FromSlot N k P C) (l : List Int64) :
    FromSlot N k (P ++ l) C := by
  intro c v hC
  refine (h c v hC).imp_right ?_
  rintro ⟨j, hj, hP⟩
  exact ⟨j, hj, by rw [List.getElem?_append_left (List.getElem?_eq_some_iff.mp hP).1, hP]⟩

theorem fromSlot_of_run (h : (holding N k).Run tr q) (hshort : Short tr) :
    FromSlot N k (published tr) (QueueAction.popped tr) := by
  revert hshort
  refine h.invariant (I := fun tr _ => Short tr →
    FromSlot N k (published tr) (QueueAction.popped tr)) ?_ ?_
  · intro s _ _ c v hC
    cases hC
  · intro tr q a q' hrun ih hs hshort
    have hslots := (contents_of_run hrun hshort.of_snoc).popper
    have hpush := (ih hshort.of_snoc).push a.published?.toList
    have hlast : ∀ v, a.popped? = some v →
        v = stored (slot N) k (published tr) (slot N (QueueAction.popped tr).length) := by
      intro v ha
      rcases hs with ⟨_, _⟩ | hs | _ | hs
      · cases ha
      · cases pushStep_cases hs <;> cases ha
      · cases ha
      · cases popStep_cases hs with
        | increment u hpc =>
          cases ha
          rw [hpc] at hslots
          exact hslots
        | _ => cases ha
    rw [published_snoc, popped_snoc]
    intro c v hC
    rcases Nat.lt_or_ge c (QueueAction.popped tr).length with hc | hc
    · rw [List.getElem?_append_left hc] at hC
      exact hpush c v hC
    · -- the value popped last is what has been stored in its slot
      rw [List.getElem?_append_right hc] at hC
      obtain ⟨u, ha⟩ : ∃ u, a.popped? = some u := by
        cases ha : a.popped? with
        | none => simp [ha] at hC
        | some u => exact ⟨u, rfl⟩
      obtain rfl : c = (QueueAction.popped tr).length := by
        have hlt := (List.getElem?_eq_some_iff.mp hC).1
        rw [ha, Option.toList_some, List.length_singleton] at hlt
        omega
      obtain rfl : u = v := by simpa [ha] using hC
      rw [hlast u ha]
      refine (stored_cases _ _ _ _).imp_right ?_
      rintro ⟨j, hj, hP⟩
      exact ⟨j, hj, by rw [List.getElem?_append_left (List.getElem?_eq_some_iff.mp hP).1, hP]⟩

/-! ### The main result -/

/-- **What is expected of a complete run**: both threads have been joined after twelve steps for
each turn, the numbers from `0` on have been pushed, and each value popped is what was in its slot
at the start or a number pushed to it. -/
structure Ends (N : RingSize) (k : Int64 → Int64) (n : ℕ) (tr : List Action) (s : Main State) :
    Prop where
  joined : Joined n s
  length : tr.length = 12 * n
  published : published tr = (List.range n).map ofNat
  returned_length : (returned .consumer tr).length = n
  returned : ∀ c v, (returned .consumer tr)[c]? = some v →
    v = k (slot N c) ∨ ∃ j, j < n ∧ j % N.n = c % N.n ∧ v = ofNat j

/-- **The program ends**: no run has more than twelve steps for each turn, and one that cannot go on
is complete. -/
theorem locked_ring_main_terminates (hn : n < 2 ^ 63) (h : (main (holding N k) n).Run tr s) :
    tr.length ≤ 12 * n ∧ ((∀ a s', ¬MainStep (holding N k) n s a s') → Ends N k n tr s) := by
  have hturns := turns_of_run h
  obtain ⟨hwritten, hread, hlength, hP, hC⟩ := hturns
  refine ⟨by omega, fun hstuck => ?_⟩
  have hjoined := joined_of_stuck h hstuck
  have hqueue := run_queue h
  simp only [hjoined.pusher, hjoined.popper, hjoined.written, hjoined.read, Pusher.remaining,
    Popper.remaining, Nat.add_zero] at hlength
  simp only [hjoined.pusher, hjoined.written, Pusher.calling, List.append_nil] at hP
  simp only [hjoined.popper, hjoined.read, Popper.calling, Nat.add_zero] at hC
  have hreturned : returned .consumer tr = QueueAction.popped tr := by
    simp only [popped_eq_returned (run_of_holding hqueue), hjoined.popper, Popper.inHand,
      List.append_nil]
  have hshort : Short tr := by
    refine ⟨?_, by omega⟩
    rw [hP, List.length_map, List.length_range]
    exact hn
  refine ⟨hjoined, by omega, hP, by rw [hreturned, hC],
    fun c v hv => ?_⟩
  rw [hreturned] at hv
  refine (fromSlot_of_run hqueue hshort c v hv).imp_right ?_
  rintro ⟨j, hj, hval⟩
  rw [hP] at hval
  obtain ⟨hlt, hval⟩ := List.getElem?_eq_some_iff.mp hval
  rw [List.length_map, List.length_range] at hlt
  refine ⟨j, hlt, ofNat_mod_inj.mp hj, ?_⟩
  simpa using hval.symm

/-- The steps that are left of all turns. -/
def left (n : ℕ) (s : Main State) : ℕ :=
  12 * n + s.queue.pusher.remaining + s.queue.popper.remaining - 6 * (s.written + s.read)

/-- Some run cannot go on. -/
theorem exists_stuck (N : RingSize) (n : ℕ) : ∃ tr s, (main (holding N fresh.buffer) n).Run tr s ∧
    ∀ a s', ¬MainStep (holding N fresh.buffer) n s a s' := by
  have hlt : ∀ s a s', True → (main (holding N fresh.buffer) n).Reachable s →
      (main (holding N fresh.buffer) n).Step s a s' → left n s' < left n s := by
    rintro s a s' - ⟨tr, h⟩ hs
    obtain ⟨_, _, hlength, -⟩ := turns_of_run h
    obtain ⟨_, _, hlength', -⟩ := turns_of_run (h.snoc hs)
    rw [List.length_append, List.length_singleton] at hlength'
    simp only [left]
    omega
  have hinit : (main (holding N fresh.buffer) n).Run [] ⟨fresh, 0, 0⟩ :=
    .start ⟨⟨init_fresh N, rfl⟩, rfl, rfl⟩
  obtain ⟨_, s, -, -, ⟨tr, h⟩, hrest⟩ := TransitionSystem.exists_rest
    (fun s a s' _ ⟨tr, h⟩ hs => ⟨tr ++ [a], h.snoc hs⟩) hlt ⟨[], hinit⟩
  exact ⟨tr, s, h, fun a s' => hrest a s' trivial⟩

/-- A million turns around the program's own buffer. -/
theorem locked_ring_main_million :
    ∃ tr s, (main (holding ringBufferSize fresh.buffer) 1000000).Run tr s ∧
      Ends ringBufferSize fresh.buffer 1000000 tr s := by
  obtain ⟨tr, s, h, hstuck⟩ := exists_stuck ringBufferSize 1000000
  exact ⟨tr, s, h, (locked_ring_main_terminates (by decide) h).2 hstuck⟩

end LockedRing

end Spsc

end LowLatency
