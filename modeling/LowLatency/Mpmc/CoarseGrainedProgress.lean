import LowLatency.Mpmc.CoarseGrainedInvariant

/-!
# Nobody is left asleep

What the balance of `LowLatency.Mpmc.CoarseGrained.Inv` means for the threads of the
queue with one lock. If an element is stored while someone is asleep, some other thread
is on its way, to notify or to take it, and some thread can move: the one on its way,
or the one that holds the lock. So as long as the pops asked for do not exceed the
pushes, no state is stuck in which a thread has not finished
(`LowLatency.Mpmc.CoarseGrained.no_lost_wakeup`).
-/

namespace LowLatency

namespace Mpmc

namespace CoarseGrained

open QueueAction
open Counting (count total)

variable {τ α : Type*} [Fintype τ] [DecidableEq τ] {program : τ → Program α} {P C : List α}
  {s s' : State τ α} {t : τ} {a : QueueAction τ α}

/-! ### Who can move -/

/-- A pusher that has not finished can move if it need not wait for the lock. -/
theorem canMove_pusher {todo : List α} {pc : PushPc α} (ht : s.thread t = .pusher todo pc)
    (hunfinished : (s.thread t).finished = false)
    (hlock : s.lock = none ∨ (s.thread t).HoldsLock) : CanMove s t := by
  have hmove : ∀ waiter a s', pusherStep waiter t todo s pc = some (a, s') → CanMove s t :=
    fun waiter a s' h => ⟨waiter, a, s', by rw [threadStep, ht]; exact h⟩
  rw [ht] at hunfinished hlock
  cases pc with
  | idle =>
    cases todo with
    | nil => cases hunfinished
    | cons v todo => exact hmove t _ _ rfl
  | lock v =>
    have hfree : s.lock = none := hlock.resolve_right id
    exact hmove t _ _ (by simp only [pusherStep, hfree]; rfl)
  | notify =>
    by_cases hnobody : ∀ u, (s.thread u).asleep = false
    · have htself : s.thread t = .pusher todo .notify := ht
      exact hmove t _ _ (by simp only [pusherStep, htself]; rw [if_pos hnobody])
    · -- someone is asleep, and is the one to wake
      obtain ⟨u, hu⟩ := not_forall.mp hnobody
      obtain ⟨n, hu⟩ : ∃ n, s.thread u = .popper n .asleep := by
        revert hu
        rcases s.thread u with ⟨todo, pc⟩ | ⟨n, pc⟩
        · simp
        · cases pc <;> simp
      exact hmove u _ _ (by simp only [pusherStep, hu]; rfl)
  | insert | unlock | returning => exact hmove t _ _ rfl

/-- A popper that has not finished and is awake can move if it need not wait for the
lock. -/
theorem Inv.canMove_popper (h : Inv program P C s) {n : ℕ} {pc : PopPc α}
    (ht : s.thread t = .popper n pc) (hunfinished : (s.thread t).finished = false)
    (hawake : (s.thread t).asleep = false) (hlock : s.lock = none ∨ (s.thread t).HoldsLock) :
    CanMove s t := by
  have hin := h.thread t
  have hmove : ∀ a s', popperStep t n s pc = some (a, s') → CanMove s t :=
    fun a s' h => ⟨t, a, s', by rw [CoarseGrained.threadStep, ht]; exact h⟩
  rw [ht] at hunfinished hawake hlock hin
  cases pc with
  | idle =>
    cases n with
    | zero => cases hunfinished
    | succ n => exact hmove _ _ rfl
  | lock | relock =>
    have hfree : s.lock = none := hlock.resolve_right id
    exact hmove _ _ (by simp only [popperStep, hfree]; rfl)
  | asleep => cases hawake
  | front =>
    obtain ⟨v, q, hq⟩ := List.exists_cons_of_ne_nil hin
    exact hmove _ _ (by simp only [popperStep, hq]; rfl)
  | test | wait | pop | unlock | returning => exact hmove _ _ rfl

/-- A thread that has not finished and is awake can move if it need not wait for the
lock. -/
theorem Inv.canMove (h : Inv program P C s) (hunfinished : (s.thread t).finished = false)
    (hawake : (s.thread t).asleep = false) (hlock : s.lock = none ∨ (s.thread t).HoldsLock) :
    CanMove s t := by
  cases ht : s.thread t with
  | pusher todo pc => exact canMove_pusher ht hunfinished hlock
  | popper n pc => exact h.canMove_popper ht hunfinished hawake hlock

omit [Fintype τ] [DecidableEq τ] in
/-- The holder of the lock is awake and has not finished. -/
theorem Thread.awake_of_holdsLock {p : Thread α} (h : p.HoldsLock) :
    p.finished = false ∧ p.asleep = false := by
  rcases p with ⟨todo, pc⟩ | ⟨n, pc⟩
  · cases pc with
    | insert | unlock => exact ⟨by cases todo <;> rfl, rfl⟩
    | _ => exact h.elim
  · cases pc with
    | test | wait | front | pop | unlock => exact ⟨by cases n <;> rfl, rfl⟩
    | _ => exact h.elim

/-- **If one thread is awake and has not finished, some thread can move**: that one,
or the one it waits for. -/
theorem Inv.exists_canMove (h : Inv program P C s) (hunfinished : (s.thread t).finished = false)
    (hawake : (s.thread t).asleep = false) : ∃ u, CanMove s u := by
  cases hlock : s.lock with
  | none => exact ⟨t, h.canMove hunfinished hawake (.inl hlock)⟩
  | some u =>
    -- the holder of the lock waits for nobody
    have hholds := (h.lock u).mp hlock
    obtain ⟨hunf, haw⟩ := Thread.awake_of_holdsLock hholds
    exact ⟨u, h.canMove hunf haw (.inr hholds)⟩

/-! ### No stranded element -/

omit [Fintype τ] [DecidableEq τ] in
theorem Thread.awake_of_inserted {p : Thread α} (h : p.inserted = true) :
    p.finished = false ∧ p.asleep = false := by
  rcases p with ⟨todo, pc⟩ | ⟨n, pc⟩
  · cases pc with
    | unlock | notify => exact ⟨by cases todo <;> rfl, rfl⟩
    | _ => cases h
  · cases h

omit [Fintype τ] [DecidableEq τ] in
theorem Thread.awake_of_looking {p : Thread α} (h : p.looking = true) :
    p.finished = false ∧ p.asleep = false := by
  rcases p with ⟨todo, pc⟩ | ⟨n, pc⟩
  · cases h
  · cases pc with
    | lock | test | wait | relock | front | pop => exact ⟨by cases n <;> rfl, rfl⟩
    | _ => cases h

omit [Fintype τ] [DecidableEq τ] in
theorem Thread.awakeInPop_of_looking (p : Thread α) (h : p.looking = true) :
    p.awakeInPop = true := by
  rcases p with ⟨todo, pc⟩ | ⟨n, pc⟩
  · cases h
  · cases pc <;> first | rfl | cases h

/-- **A stored element is on its way**: if someone is asleep, some thread can move. -/
theorem Inv.canMove_of_stored (h : Inv program P C s) (hstored : s.queue ≠ [])
    (hasleep : (s.thread t).asleep = true) : ∃ u, CanMove s u := by
  have hbalance := h.balance (Counting.count_pos_iff.mpr ⟨t, hasleep⟩)
  have hpos := List.length_pos_of_ne_nil hstored
  -- the element has a pusher about to notify, or else a popper that looks for it
  rcases Nat.eq_zero_or_pos (count Thread.inserted s.thread) with hzero | hinserted
  · obtain ⟨u, hu⟩ := Counting.count_pos_iff.mp
      (show 0 < count Thread.looking s.thread by omega)
    obtain ⟨hunfinished, hawake⟩ := Thread.awake_of_looking hu
    exact h.exists_canMove hunfinished hawake
  · obtain ⟨u, hu⟩ := Counting.count_pos_iff.mp hinserted
    obtain ⟨hunfinished, hawake⟩ := Thread.awake_of_inserted hu
    exact h.exists_canMove hunfinished hawake

/-- A thread asleep does not move by itself. -/
theorem CanMove.awake (h : CanMove s t) : (s.thread t).asleep = false := by
  obtain ⟨waiter, a, s', hs⟩ := h
  cases threadStep_cases hs <;> simp [*]

/-! ### No stuck state -/

omit [Fintype τ] [DecidableEq τ] in
/-- A thread that has finished, or is asleep, has nothing to insert. -/
theorem Thread.pushesLeft_eq_zero {p : Thread α} (h : p.finished = true ∨ p.asleep = true) :
    p.pushesLeft = 0 := by
  rcases p with ⟨todo, pc⟩ | ⟨n, pc⟩
  · rcases h with h | h
    · cases pc <;> cases todo <;> first | rfl | cases h
    · cases h
  · rfl

omit [Fintype τ] [DecidableEq τ] in
theorem Thread.popsLeft_pos {p : Thread α} (h : p.asleep = true) : 0 < p.popsLeft := by
  rcases p with ⟨todo, pc⟩ | ⟨n, pc⟩
  · cases h
  · cases pc <;> first | exact Nat.succ_pos n | cases h

/-- **No state is stuck** before every thread has finished, if the pops asked for do
not exceed the pushes. -/
theorem Inv.canMove_of_unfinished (h : Inv program P C s)
    (hle : total Program.popCount program ≤ total Program.pushCount program)
    (hunfinished : (s.thread t).finished = false) : ∃ u, CanMove s u := by
  by_contra hstuck
  -- every thread has finished or is asleep
  have hall : ∀ u, (s.thread u).finished = true ∨ (s.thread u).asleep = true := by
    intro u
    by_contra hu
    rw [not_or, Bool.not_eq_true, Bool.not_eq_true] at hu
    exact hstuck (h.exists_canMove hu.1 hu.2)
  have hasleep : (s.thread t).asleep = true := (hall t).resolve_left (by simp [hunfinished])
  -- so everything has been inserted, and not everything taken
  have hpushed : total Thread.pushesLeft s.thread = 0 :=
    Finset.sum_eq_zero fun u _ => Thread.pushesLeft_eq_zero (hall u)
  have hpopped : 0 < total Thread.popsLeft s.thread :=
    (Thread.popsLeft_pos hasleep).trans_le (Counting.le_total _ _ t)
  have hlen : P.length = C.length + s.queue.length := by rw [h.values, List.length_append]
  have hpushes := h.pushes
  have hpops := h.pops
  have hstored : s.queue ≠ [] := List.ne_nil_of_length_pos (by omega)
  exact hstuck (h.canMove_of_stored hstored hasleep)

/-! ### From the takes to the returns -/

/-- The value a thread has taken and not returned yet. -/
def Thread.inHand : Thread α → List α
  | .popper _ (.unlock v) => [v]
  | .popper _ (.returning v) => [v]
  | _ => []

omit [Fintype τ] in
/-- Waking up changes nothing that does not depend on being asleep. -/
theorem eq_wake {β : Type*} (f : Thread α → β) {pc : τ → Thread α} {u : τ} {n : ℕ}
    (hf : f (.popper n .relock) = f (.popper n .asleep)) (hu : pc u = .popper n .asleep) (v : τ) :
    f (Function.update pc u (.popper n .relock) v) = f (pc v) := by
  rcases eq_or_ne v u with rfl | hv
  · rw [Function.update_self, hu, hf]
  · rw [Function.update_of_ne hv]

omit [Fintype τ] in
/-- Neither does a notification, for the thread that notifies, the one it wakes, or any other. -/
theorem eq_notify {β : Type*} (f : Thread α → β) {todo : List α} {w : τ} {n : ℕ}
    (hnotify : f (.pusher todo .returning) = f (.pusher todo .notify))
    (hwake : f (.popper n .relock) = f (.popper n .asleep))
    (ht : s.thread t = .pusher todo .notify) (hw : s.thread w = .popper n .asleep) (u : τ) :
    f (Function.update (Function.update s.thread t (.pusher todo .returning)) w
      (.popper n .relock) u) = f (s.thread u) := by
  have hne : w ≠ t := by
    rintro rfl
    rw [ht] at hw
    cases hw
  rw [eq_wake f hwake (by rw [Function.update_of_ne hne, hw])]
  rcases eq_or_ne u t with rfl | hu
  · rw [Function.update_self, ht, hnotify]
  · rw [Function.update_of_ne hu]

/-- A step of the thread `t` hands on what `t` holds. -/
theorem threadStep_inHand {waiter : τ} (hs : threadStep waiter t s = some (a, s')) :
    (s.thread t).inHand ++ (a.taken? t).toList =
      (a.returned? t).toList ++ (s'.thread t).inHand := by
  cases threadStep_cases hs with
  | wake todo w n ht hw =>
    show (s.thread t).inHand ++ [] = [] ++ _
    rw [List.append_nil, List.nil_append]
    exact (eq_notify Thread.inHand rfl rfl ht hw t).symm
  | _ => simp [*, Thread.inHand, taken?, returned?, QueueRes.value?]

/-- A step of another thread leaves it what it holds. -/
theorem threadStep_inHand_other {u : τ} (hu : u ≠ t) {waiter : τ}
    (hs : threadStep waiter t s = some (a, s')) :
    a.taken? u = none ∧ a.returned? u = none ∧ (s'.thread u).inHand = (s.thread u).inHand := by
  cases threadStep_cases hs with
  | wake todo w n ht hw => exact ⟨rfl, rfl, eq_notify Thread.inHand rfl rfl ht hw u⟩
  | _ => simp [taken?, returned?, hu, hu.symm]

/-- **What a thread has taken is what it has returned**, and what it is about to. -/
theorem taken_eq_returned {tr : List (QueueAction τ α)} (h : (system program).Run tr s) (t : τ) :
    taken t tr = returned t tr ++ (s.thread t).inHand := by
  refine filterMap_eq_returned t (fun s => (s.thread t).inHand) ?_ ?_ h
  · rintro s ⟨-, -, hthread⟩
    rw [hthread]
    cases hp : program t <;> simp [hp, Program.start, Thread.inHand]
  · intro s a s' hs
    rcases hs with ⟨waiter, u, hs⟩ | ⟨u, n, hu⟩
    · rcases eq_or_ne t u with rfl | htu
      · exact threadStep_inHand hs
      · obtain ⟨htaken, hret, hhand⟩ := threadStep_inHand_other htu hs
        simp [htaken, hret, hhand]
    · simp [taken?, returned?, eq_wake Thread.inHand rfl hu]

/-! ### The main result -/

/-- **Nobody is left asleep**, whatever the interleaving, whomever a notification wakes
and whoever wakes up for no reason. While someone is asleep, the elements stored are at
most as many as the pushers that have inserted and not notified and the poppers awake
in `pop`; so an element stored while someone is asleep leaves another thread that can
move; and if the pops asked for do not exceed the pushes, so does a thread that has not
finished. The poppers take what was inserted, in order, and return what they take. -/
theorem no_lost_wakeup {tr : List (QueueAction τ α)} (h : (system program).Run tr s) :
    (0 < count Thread.asleep s.thread →
      s.queue.length ≤ count Thread.inserted s.thread + count Thread.awakeInPop s.thread) ∧
    (∀ t, (s.thread t).asleep = true → s.queue ≠ [] → ∃ u, u ≠ t ∧ CanMove s u) ∧
    (total Program.popCount program ≤ total Program.pushCount program →
      (∃ t, (s.thread t).finished = false) → ∃ u, CanMove s u) ∧
    published tr = popped tr ++ s.queue ∧
    ∀ t, taken t tr = returned t tr ++ (s.thread t).inHand := by
  have hinv := inv_of_run h
  refine ⟨fun hpos => ?_, fun t hasleep hstored => ?_, fun hle ⟨t, hunfinished⟩ => ?_, hinv.values,
    taken_eq_returned h⟩
  · exact (hinv.balance hpos).trans (Nat.add_le_add_left
      (Counting.count_le_count Thread.awakeInPop_of_looking _) _)
  · obtain ⟨u, hu⟩ := hinv.canMove_of_stored hstored hasleep
    refine ⟨u, ?_, hu⟩
    rintro rfl
    rw [hu.awake] at hasleep
    cases hasleep
  · exact hinv.canMove_of_unfinished hle hunfinished

/-- One thread pushes a value, the other pops one. -/
def oneEach : Bool → Program ℕ
  | true => .pushes [7]
  | false => .pops 1

/-- The popper has fallen asleep, and the pusher has inserted and not notified yet. -/
theorem run_oneEach :
    ∃ tr s, (system oneEach).Run tr s ∧ (s.thread false).asleep = true ∧ s.queue = [7] := by
  have h0 : (system oneEach).Run [] ⟨[], none, fun t => (oneEach t).start⟩ :=
    .start ⟨rfl, rfl, rfl⟩
  have h1 := h0.snoc (.thread false false rfl)
  have h2 := h1.snoc (.thread false false rfl)
  have h3 := h2.snoc (.thread false false rfl)
  have h4 := h3.snoc (.thread false false rfl)
  have h5 := h4.snoc (.thread true true rfl)
  have h6 := h5.snoc (.thread true true rfl)
  have h7 := h6.snoc (.thread true true rfl)
  exact ⟨_, _, h7, rfl, rfl⟩

theorem no_lost_wakeup_one_each :
    ∃ s : State Bool ℕ, (system oneEach).Reachable s ∧ (s.thread false).asleep = true ∧
      s.queue = [7] ∧ ∃ u, u ≠ false ∧ CanMove s u := by
  obtain ⟨tr, s, h, hasleep, hqueue⟩ := run_oneEach
  exact ⟨s, ⟨tr, h⟩, hasleep, hqueue,
    (no_lost_wakeup h).2.1 false hasleep (by rw [hqueue]; exact List.cons_ne_nil _ _)⟩

end CoarseGrained

end Mpmc

end LowLatency
