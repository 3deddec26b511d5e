import LowLatency.Foundations.Counting
import LowLatency.Mpmc.FineGrainedDriver

/-!
# The driver of the queue with two locks comes to its end

No thread of this driver waits for another one but at a lock, and every step is one of the at most
eight of an `enqueue` or the at most nine of a `dequeue`, the call included. So the length of a run
is bounded, whatever the schedule. No run gets stuck before all threads have been joined: the holder
of a lock can always go on, since it is in no need of the other lock and every node it accesses is
there, and `new node` always finds an address, since the nodes are those of the chain and at most
one for each thread.
-/

namespace LowLatency

namespace Mpmc

namespace FineGrained

open CoarseGrained (Program)
open QueueAction
open Counting (total)

variable {τ α : Type*} {t : τ} {a : QueueAction τ α} {q q' : State τ α} {P C : List α}
  {l : List Addr}

/-! ### The steps that are left -/

/-- The steps of the calls that a thread has still to make, at most. -/
@[simp] def Program.remaining : Program α → ℕ
  | .pushes vals => 8 * vals.length
  | .pops n => 9 * n

section Step

variable [Fintype τ]

/-- The steps that are left to all threads, at most. -/
def Driver.remaining (s : Driver τ α) : ℕ :=
  total Pc.stepsLeft s.queue.pc + total Program.remaining s.todo

variable [DecidableEq τ] {program : τ → Program α} {s s' : Driver τ α}
  {tr : List (QueueAction τ α)}

theorem threadStep_remaining {fresh : Addr} {junk : α}
    (hs : threadStep fresh junk t q = some (a, q')) :
    total Pc.stepsLeft q'.pc < total Pc.stepsLeft q.pc := by
  obtain ⟨p, hpc, hlt⟩ := threadStep_stepsLeft hs
  have htotal := Counting.total_update Pc.stepsLeft q.pc t p
  rw [hpc]
  omega

/-- **Every step leaves less to do.** -/
theorem DriverStep.remaining (hs : DriverStep s a s') : s'.remaining < s.remaining := by
  rcases hs with ⟨t, c, p, hidle, hnext⟩ | ⟨fresh, junk, t, hs⟩
  · have hpc := Counting.total_update Pc.stepsLeft s.queue.pc t c.entry
    have htodo := Counting.total_update Program.remaining s.todo t p
    have hcall : c.entry.stepsLeft + Program.remaining p < Program.remaining (s.todo t) := by
      rcases htodo : s.todo t with ⟨_ | ⟨v, vals⟩⟩ | ⟨_ | n⟩
      · rw [htodo] at hnext
        cases hnext
      · rw [htodo] at hnext
        obtain ⟨rfl, rfl⟩ := Prod.mk.inj (Option.some.inj hnext)
        simp [Call.entry]
        omega
      · rw [htodo] at hnext
        cases hnext
      · rw [htodo] at hnext
        obtain ⟨rfl, rfl⟩ := Prod.mk.inj (Option.some.inj hnext)
        simp [Call.entry]
        omega
    rw [hidle, Pc.stepsLeft, Nat.add_zero] at hpc
    rw [Driver.remaining, Driver.remaining]
    dsimp only
    omega
  · exact Nat.add_lt_add_right (threadStep_remaining hs) _

/-- **The length of a run** is at most the number of steps there were at the start. -/
theorem length_le_of_run (h : (driving program).Run tr s) :
    tr.length + s.remaining ≤ total Program.remaining program := by
  refine h.invariant (I := fun tr s => tr.length + s.remaining ≤ total Program.remaining program)
    ?_ ?_
  · rintro s ⟨⟨-, -, -, -, hpc⟩, rfl⟩
    have hzero : total Pc.stepsLeft s.queue.pc = 0 :=
      Finset.sum_eq_zero fun t _ => by rw [hpc]; rfl
    rw [Driver.remaining, hzero, List.length_nil]
    omega
  · intro tr s a s' _ ih hs
    have hlt := hs.remaining
    rw [List.length_append, List.length_singleton]
    omega

/-! ### No run gets stuck -/

omit [DecidableEq τ] in
/-- **There is room for a node.** -/
theorem NoLeak.exists_fresh (h : NoLeak l q) : ∃ fresh, q.heap fresh = none := by
  classical
  -- the nodes are on the chain, or in the hands of one of finitely many threads
  obtain ⟨fresh, hfresh⟩ := Infinite.exists_notMem_finset
    ((q.head :: l).toFinset ∪ Finset.univ.biUnion fun t => (q.pc t).node?.toFinset)
  refine ⟨fresh, ?_⟩
  by_contra hnode
  rw [Finset.mem_union, not_or, List.mem_toFinset, Finset.mem_biUnion] at hfresh
  rcases h fresh hnode with hchain | ⟨t, ht⟩
  · exact hfresh.1 hchain
  · exact hfresh.2 ⟨t, Finset.mem_univ t, Option.mem_toFinset.mpr ht⟩

/-- **While a thread is inside a call, some thread can go on**: that one, or the holder of the lock
it waits for. -/
theorem Inv.exists_threadStep_any (h : Inv P C l q) (hleak : NoLeak l q) (hidle : q.pc t ≠ .idle) :
    ∃ u fresh junk a q', FineGrained.threadStep fresh junk u q = some (a, q') := by
  by_cases hheld : ∃ u, (q.pc u).HoldsHead ∨ (q.pc u).HoldsTail
  · obtain ⟨u, hu⟩ := hheld
    obtain ⟨hin, hlockHead, hlockTail⟩ := Pc.not_waiting hu
    exact ⟨u, h.exists_threadStep hleak.exists_fresh hin (fun v n hc => absurd hc (hlockTail v n))
      fun hc => absurd hc hlockHead⟩
  · -- both locks are free
    have hhead : q.headMutex = none := Option.eq_none_iff_forall_ne_some.mpr fun u hu =>
      hheld ⟨u, .inl ((h.headMutex u).mp hu)⟩
    have htail : q.tailMutex = none := Option.eq_none_iff_forall_ne_some.mpr fun u hu =>
      hheld ⟨u, .inr ((h.tailMutex u).mp hu)⟩
    exact ⟨t, h.exists_threadStep hleak.exists_fresh hidle (fun _ _ _ => htail) fun _ => hhead⟩

/-- **A run that cannot go on** has all threads joined. -/
theorem finished_of_stuck (h : (driving program).Run tr s)
    (hstuck : ∀ a s', ¬DriverStep s a s') : Finished s := by
  obtain ⟨l, hinv, hleak⟩ := inv_of_run (run_queue h)
  have hidle : ∀ t, s.queue.pc t = .idle := by
    intro t
    by_contra hin
    obtain ⟨u, fresh, junk, a, q', hs⟩ := hinv.exists_threadStep_any hleak hin
    exact hstuck a _ (.thread fresh junk u hs)
  refine fun t => ⟨hidle t, ?_⟩
  cases hnext : next (s.todo t) with
  | none => rfl
  | some call => exact absurd (.call t call.1 call.2 (hidle t) hnext) (hstuck _ _)

end Step

/-! ### The main result -/

/-- The steps of the driver, at most. -/
theorem total_run_fine_grained (W N : ℕ) :
    total Program.remaining (run_fine_grained W N) = 17 * (W * N) := by
  simp only [total, run_fine_grained, driver, Fintype.sum_sum_type, Sum.elim_inl, Sum.elim_inr,
    thread_fine_grained_write, thread_fine_grained_read, Program.remaining, List.length_map,
    List.length_range, Finset.sum_const, Finset.card_univ, Fintype.card_fin, nsmul_eq_mul,
    Nat.cast_id]
  rw [← Nat.mul_add, ← Nat.add_mul, Nat.mul_left_comm]

/-- **The driver ends**: no run has more than seventeen steps for each value, and one that cannot
go on has all threads joined, every value inserted and every `dequeue` made. -/
theorem two_lock_driver_terminates {W N : ℕ} {tr : List (QueueAction (Fin W ⊕ Fin W) Int32)}
    {s : Driver (Fin W ⊕ Fin W) Int32} (h : (driving (run_fine_grained W N)).Run tr s) :
    tr.length ≤ 17 * (W * N) ∧ ((∀ a s', ¬DriverStep s a s') →
      Finished s ∧ Complete (run_fine_grained W N) tr) := by
  refine ⟨?_, fun hstuck => ?_⟩
  · have hlength := length_le_of_run h
    rw [total_run_fine_grained] at hlength
    omega
  · have hfinished := finished_of_stuck h hstuck
    exact ⟨hfinished, complete_of_run h hfinished⟩

/-- The bound for one writer and one reader of one value. -/
theorem two_lock_driver_one_each : ∃ tr s, (driving (run_fine_grained 1 1)).Run tr s ∧
    Finished s ∧ tr.length ≤ 17 := by
  obtain ⟨tr, s, h, hfinished, -⟩ := run_writer_first
  exact ⟨tr, s, h, hfinished, (two_lock_driver_terminates h).1⟩

end FineGrained

end Mpmc

end LowLatency
