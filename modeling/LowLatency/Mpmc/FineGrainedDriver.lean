import LowLatency.Foundations.Simulation
import LowLatency.Mpmc.CoarseGrainedDriver
import LowLatency.Mpmc.FineGrainedExceptions

/-!
# The driver of the queue with two locks

`run_fine_grained` of `fine_grained_queue.cpp`. It differs from the driver of the other queue in
one thing: a reader makes its calls of `dequeue` and does not look at what they return, so a
`dequeue` that finds the queue empty is a turn of the loop as any other. What the writers insert
afterwards may stay in the queue.

A complete run leaves nothing exactly if no `dequeue` has read a null pointer in the dummy node
(`LowLatency.Mpmc.FineGrained.drained_iff`); the driver of the queue with one lock never leaves
anything. Both are put together in `LowLatency.Mpmc.FineGrained.drivers_drained`.
-/

namespace LowLatency

namespace Mpmc

namespace FineGrained

open CoarseGrained (Program)
open QueueAction

variable {τ α : Type*} {t u : τ} {a : QueueAction τ α} {q q' : State τ α}

/-! ### The threads -/

/-- `thread_fine_grained_write`. -/
def thread_fine_grained_write (ITERATION_TIMES : ℕ) : Program Int32 :=
  .pushes ((List.range ITERATION_TIMES).map Int32.ofNat)

/-- `thread_fine_grained_read`. -/
def thread_fine_grained_read (ITERATION_TIMES : ℕ) : Program Int32 := .pops ITERATION_TIMES

/-- **The threads of the driver**, behind the barrier. -/
def run_fine_grained (W N : ℕ) : Fin W ⊕ Fin W → Program Int32 :=
  driver W (thread_fine_grained_write N) (thread_fine_grained_read N)

/-- The next call of a thread, and what it has to do after it. -/
def next : Program α → Option (Call α × Program α)
  | .pushes (v :: vals) => some (.enqueue v, .pushes vals)
  | .pops (n + 1) => some (.dequeue, .pops n)
  | _ => none

/-- The queue, and what each thread has to do after its current call. -/
structure Driver (τ α : Type*) where
  queue : State τ α
  todo : τ → Program α

section Step

variable [DecidableEq τ]

/-- The steps: a thread between two calls makes the next one, whatever the last one has
returned. -/
inductive DriverStep : Driver τ α → QueueAction τ α → Driver τ α → Prop
  | call {s : Driver τ α} (t : τ) (c : Call α) (p : Program α) : s.queue.pc t = .idle →
      next (s.todo t) = some (c, p) →
      DriverStep s (.call t c.op)
        { queue := { s.queue with pc := Function.update s.queue.pc t c.entry }
          todo := Function.update s.todo t p }
  | thread {s : Driver τ α} {a : QueueAction τ α} {q : State τ α} (fresh : Addr) (junk : α)
      (t : τ) : threadStep fresh junk t s.queue = some (a, q) → DriverStep s a { s with queue := q }

/-- **The threads with the queue**, each with its program. -/
def driving (program : τ → Program α) : TransitionSystem (Driver τ α) (QueueAction τ α) where
  Init s := (system τ α).Init s.queue ∧ s.todo = program
  Step := DriverStep

/-- All threads have been joined. -/
def Finished (s : Driver τ α) : Prop := ∀ t, s.queue.pc t = .idle ∧ next (s.todo t) = none

/-- **What is expected of a complete run.** -/
structure Drained {W : ℕ} (vals : List α) (tr : List (QueueAction (Fin W ⊕ Fin W) α))
    (s : Driver (Fin W ⊕ Fin W) α) : Prop where
  /-- `head->next` is null. -/
  empty : succ s.queue.heap s.queue.head = some none
  handedOut : HandedOut vals tr

/-- **The condition on a step**: it is not the read of a null pointer, by a `dequeue` that finds
the queue empty. -/
def FindsValue (s : Driver τ α) (a : QueueAction τ α) : Prop :=
  ∀ t cur, a = .access t → s.queue.pc t = .readNext cur → succ s.queue.heap cur ≠ some none

variable {program : τ → Program α} {s s' : Driver τ α} {tr : List (QueueAction τ α)}

/-- **A run of the driver is a run of the queue.** -/
theorem run_queue (h : (driving program).Run tr s) : (system τ α).Run tr s.queue := by
  obtain ⟨q, hrun, rfl⟩ : ∃ q, (system τ α).Run (tr.filterMap some) q ∧ s.queue = q := by
    refine h.simulate some (fun s q => s.queue = q) ?_ ?_
    · exact fun s hs => ⟨s.queue, hs.1, rfl⟩
    · rintro s a s' q rfl hs
      refine .inr ⟨a, s'.queue, rfl, ?_, rfl⟩
      rcases hs with ⟨t, c, p, hidle, -⟩ | ⟨fresh, junk, t, hs⟩
      · exact .call t c hidle
      · exact .thread fresh junk t hs
  rwa [List.filterMap_some] at hrun

/-! ### The work of the threads -/

/-- The work that is left of a call. -/
def Pc.work : Pc α → Work α
  | .newNode v => ⟨[v], 0⟩
  | .fill v _ => ⟨[v], 0⟩
  | .lockTail v _ => ⟨[v], 0⟩
  | .link v _ => ⟨[v], 0⟩
  | .lockHead => ⟨[], 1⟩
  | .readHead => ⟨[], 1⟩
  | .readNext _ => ⟨[], 1⟩
  | .copyData _ _ => ⟨[], 1⟩
  | .setHead _ _ _ => ⟨[], 1⟩
  | .unlockEmpty => ⟨[], 1⟩
  | .returning res => ⟨[], res.isFailure.toNat⟩
  | _ => ⟨[], 0⟩

/-- A call is the first part of what a thread has to do. -/
theorem work_next {p p' : Program α} {c : Call α} (h : next p = some (c, p')) :
    p.work = c.entry.work.append p'.work := by
  rcases p with ⟨_ | ⟨v, vals⟩⟩ | ⟨_ | n⟩
  · cases h
  · obtain ⟨rfl, rfl⟩ := Prod.mk.inj (Option.some.inj h)
    rfl
  · cases h
  · obtain ⟨rfl, rfl⟩ := Prod.mk.inj (Option.some.inj h)
    exact congrArg (Work.mk []) (Nat.add_comm n 1)

theorem work_of_next_none {p : Program α} (h : next p = none) : p.work = ⟨[], 0⟩ := by
  rcases p with ⟨_ | ⟨v, vals⟩⟩ | ⟨_ | n⟩
  · rfl
  · cases h
  · rfl
  · cases h

/-- A step of a call does some of its work. -/
theorem threadStep_does {fresh : Addr} {junk : α} (hs : threadStep fresh junk t q = some (a, q')) :
    Does t a (q.pc t).work (q'.pc t).work := by
  cases threadStep_cases hs <;>
    exact ⟨by simp [*, Pc.work, pushed?],
      by simp [*, Pc.work, taken?, fails, QueueRes.isFailure]⟩

/-- **The work along a run.** -/
theorem work_of_run (h : (driving program).Run tr s) (t : τ) :
    pushed t tr ++ ((s.queue.pc t).work.append (s.todo t).work).pushes =
        (program t).work.pushes ∧
      (taken t tr).length + failed t tr + ((s.queue.pc t).work.append (s.todo t).work).pops =
        (program t).work.pops := by
  refine QueueAction.work_of_run
    (fun s : Driver τ α => (s.queue.pc t).work.append (s.todo t).work) ?_ ?_ h
  · rintro s ⟨⟨-, -, -, -, hpc⟩, rfl⟩
    rw [hpc]
    exact congrArg (Work.mk _) (Nat.zero_add _)
  · intro s a s' hs
    rcases hs with ⟨u, c, p, hidle, hnext⟩ | ⟨fresh, junk, u, hs⟩
    · rcases eq_or_ne t u with rfl | hne
      · dsimp only
        rw [Function.update_self, Function.update_self, hidle, work_next hnext]
        exact ⟨rfl, by simp [Work.append, Pc.work, taken?, fails]⟩
      · dsimp only
        rw [Function.update_of_ne hne, Function.update_of_ne hne]
        exact does_nothing hne _
    · rcases eq_or_ne t u with rfl | hne
      · exact (threadStep_does hs).append _
      · dsimp only
        rw [(threadStep_other hne hs).2.2]
        exact does_nothing (threadStep_thread hs ▸ hne) _

/-- **When all threads have been joined**, they have done all they have to do. -/
theorem complete_of_run (h : (driving program).Run tr s) (hfinished : Finished s) :
    Complete program tr := by
  refine ⟨fun t => ?_, fun t => ?_, fun t => ?_⟩
  · obtain ⟨hpushes, -⟩ := work_of_run h t
    rw [(hfinished t).1, work_of_next_none (hfinished t).2] at hpushes
    simpa [Work.append, Pc.work] using hpushes
  · obtain ⟨-, hpops⟩ := work_of_run h t
    rw [(hfinished t).1, work_of_next_none (hfinished t).2] at hpops
    simpa [Work.append, Pc.work] using hpops
  · rw [taken_eq_returned (run_queue h), (hfinished t).1]
    exact List.append_nil _

/-! ### The pops that fail -/

/-- The call of the thread has found the queue empty, and has not returned yet. -/
def Pc.givesUp : Pc α → Bool
  | .unlockEmpty => true
  | .returning res => res.isFailure
  | _ => false

/-- The pops of a thread that have found the queue empty. -/
def gaveUp (t : τ) (tr : List (QueueAction τ α)) (s : Driver τ α) : ℕ :=
  failed t tr + (s.queue.pc t).givesUp.toNat

/-- A call that has found the queue empty is one until it returns, and others become one by the
read of a null pointer only. -/
theorem threadStep_givesUp {fresh : Addr} {junk : α}
    (hs : threadStep fresh junk t q = some (a, q')) :
    (q.pc t).givesUp.toNat ≤ (a.fails t).toNat + (q'.pc t).givesUp.toNat ∧
      ((∀ cur, a = .access t → q.pc t = .readNext cur → succ q.heap cur ≠ some none) →
        (a.fails t).toNat + (q'.pc t).givesUp.toNat = (q.pc t).givesUp.toNat) := by
  cases threadStep_cases hs with
  | readNull cur d hpc hcur =>
    refine ⟨by simp [hpc, Pc.givesUp], fun hfinds => absurd ?_ (hfinds cur rfl hpc)⟩
    rw [succ, hcur]
    rfl
  | _ =>
    refine ⟨Nat.le_of_eq ?_, fun _ => ?_⟩ <;>
      simp [*, fails, Pc.givesUp, QueueRes.isFailure]

/-- The step of another thread changes nothing of it. -/
theorem gaveUp_other (hu : u ≠ a.thread) (hpc : s'.queue.pc u = s.queue.pc u) :
    gaveUp u (tr ++ [a]) s' = gaveUp u tr s := by
  have hpops := (does_nothing hu ⟨[], 0⟩).pops
  rw [gaveUp, gaveUp, failed_snoc, hpc]
  simp only at hpops
  omega

/-- **What has been found empty stays so**, and a step that meets the condition adds nothing. -/
theorem gaveUp_step (tr : List (QueueAction τ α)) (hs : DriverStep s a s') (u : τ) :
    gaveUp u tr s ≤ gaveUp u (tr ++ [a]) s' ∧
      (FindsValue s a → gaveUp u (tr ++ [a]) s' = gaveUp u tr s) := by
  rcases hs with ⟨t, c, p, hidle, hnext⟩ | ⟨fresh, junk, t, hs⟩
  · have hsame : gaveUp u (tr ++ [.call t c.op]) ⟨{ s.queue with
          pc := Function.update s.queue.pc t c.entry }, Function.update s.todo t p⟩ =
        gaveUp u tr s := by
      rcases eq_or_ne u t with rfl | hu
      · rw [gaveUp, gaveUp, failed_snoc]
        dsimp only
        rw [Function.update_self, hidle]
        rcases c with v | _
        · rfl
        · rfl
      · exact gaveUp_other hu (Function.update_of_ne hu _ _)
    exact ⟨hsame.ge, fun _ => hsame⟩
  · rcases eq_or_ne u t with rfl | hu
    · obtain ⟨hle, heq⟩ := threadStep_givesUp hs
      rw [gaveUp, gaveUp, failed_snoc]
      refine ⟨?_, fun hfinds => ?_⟩
      · dsimp only
        omega
      · have hsame := heq (hfinds u)
        dsimp only
        omega
    · have hsame : gaveUp u (tr ++ [a]) ⟨_, s.todo⟩ = gaveUp u tr s :=
        gaveUp_other (threadStep_thread hs ▸ hu) (threadStep_other hu hs).2.2
      exact ⟨hsame.ge, fun _ => hsame⟩

/-- A step that does not meet the condition finds the queue empty. -/
theorem gaveUp_of_not_findsValue (tr : List (QueueAction τ α)) (hs : DriverStep s a s')
    (h : ¬FindsValue s a) :
    ∃ t, 0 < gaveUp t (tr ++ [a]) s' := by
  simp only [FindsValue, not_forall, not_not] at h
  obtain ⟨t, cur, rfl, hpc, hnull⟩ := h
  obtain ⟨node, hnode, hnext⟩ := Option.map_eq_some_iff.mp hnull
  rcases hs with _ | ⟨fresh, junk, u, hs⟩
  obtain rfl : t = u := threadStep_thread hs
  rw [threadStep, hpc] at hs
  simp only [hnode, Option.map_some, hnext] at hs
  cases hs
  refine ⟨t, ?_⟩
  rw [gaveUp]
  dsimp only
  rw [Function.update_self]
  exact Nat.succ_pos _

/-- **The runs that meet the condition** are those in which no pop has found the queue empty. -/
theorem restrict_iff (h : (driving program).Run tr s) :
    ((driving program).restrict FindsValue).Run tr s ↔ ∀ t, gaveUp t tr s = 0 := by
  constructor
  · intro hrestrict t
    refine hrestrict.invariant (I := fun tr s => gaveUp t tr s = 0) ?_ ?_
    · rintro s ⟨⟨-, -, -, -, hpc⟩, -⟩
      rw [gaveUp, hpc]
      rfl
    · rintro tr s a s' - hzero ⟨hs, hfinds⟩
      rw [(gaveUp_step tr hs t).2 hfinds, hzero]
  · intro hzero
    induction h with
    | start hs => exact .start hs
    | @snoc tr s s' a _ hs ih =>
      have hbefore : ∀ t, gaveUp t tr s = 0 := fun t => by
        have hle := (gaveUp_step tr hs t).1
        rw [hzero] at hle
        exact Nat.le_zero.mp hle
      refine (ih hbefore).snoc ⟨hs, ?_⟩
      by_contra hfinds
      obtain ⟨t, ht⟩ := gaveUp_of_not_findsValue tr hs hfinds
      rw [hzero] at ht
      exact absurd ht (lt_irrefl 0)

/-! ### What is left in the queue -/

/-- `head->next` is null exactly if everything inserted has been taken. -/
theorem empty_iff {tr : List (QueueAction τ α)} (h : (system τ α).Run tr q) :
    succ q.heap q.head = some none ↔ popped tr = published tr := by
  obtain ⟨l, hinv, -⟩ := inv_of_run h
  have hvalues := hinv.chain_values
  rw [hinv.chain.succ_first, Option.some_inj, List.head?_eq_none_iff]
  constructor
  · rintro rfl
    have hdrop := List.map_eq_nil_iff.mp hvalues.symm
    exact hinv.prefix_published.eq_of_length_le (List.drop_eq_nil_iff.mp hdrop)
  · intro heq
    rw [heq, List.drop_length, List.map_nil] at hvalues
    exact List.map_eq_nil_iff.mp hvalues

end Step

/-- **A complete run leaves nothing exactly if** no `dequeue` has found the queue empty. -/
theorem drained_iff {W n : ℕ} {vals : List α} {tr : List (QueueAction (Fin W ⊕ Fin W) α)}
    {s : Driver (Fin W ⊕ Fin W) α} (hn : vals.length = n)
    (h : (driving (driver W (.pushes vals) (.pops n))).Run tr s) (hfinished : Finished s) :
    Drained vals tr s ↔
      ((driving (driver W (.pushes vals) (.pops n))).restrict FindsValue).Run tr s := by
  have hcomplete := complete_of_run h hfinished
  have hlength := hcomplete.length_published hn
  have hgaveUp : ∀ t, gaveUp t tr s = failed t tr := fun t => by
    rw [gaveUp, (hfinished t).1]
    rfl
  rw [restrict_iff h]
  constructor
  · rintro ⟨hempty, -⟩ t
    rw [(empty_iff (run_queue h)).mp hempty] at hlength
    have hzero : ∑ t, failed t tr = 0 := by omega
    rw [hgaveUp]
    exact Finset.sum_eq_zero_iff.mp hzero t (Finset.mem_univ t)
  · intro hzero
    obtain ⟨l, hinv, -⟩ := inv_of_run (run_queue h)
    rw [Finset.sum_eq_zero fun t _ => (hgaveUp t).symm.trans (hzero t)] at hlength
    have hpopped := hinv.prefix_published.eq_of_length_le hlength.le
    exact ⟨(empty_iff (run_queue h)).mpr hpopped, hcomplete.handedOut hpopped⟩

/-! ### The two drivers -/

/-- **The two drivers do not do the same work**: a complete run of the driver of the queue with one
lock leaves nothing, and hands every value to one reader; a complete run of the driver of the queue
with two locks does if and only if no reader has looked for a value while the queue was empty. -/
theorem drivers_drained (W N : ℕ) :
    (∀ tr s, (CoarseGrained.system (CoarseGrained.run_fine_grained W N)).Run tr s →
      CoarseGrained.Finished s → CoarseGrained.Drained (List.replicate N 1) tr s) ∧
    ∀ tr s, (driving (run_fine_grained W N)).Run tr s → Finished s →
      (Drained ((List.range N).map Int32.ofNat) tr s ↔
        ((driving (run_fine_grained W N)).restrict FindsValue).Run tr s) :=
  ⟨fun _ _ h hfinished => CoarseGrained.drained_of_run List.length_replicate h hfinished,
    fun _ _ h hfinished => drained_iff (by simp) h hfinished⟩

/-- One writer and one reader, before their first calls. -/
def oneEach : Driver (Fin 1 ⊕ Fin 1) Int32 where
  queue := ⟨Function.update (fun _ => none) 0 (some ⟨0, none⟩), 0, 0, none, none, fun _ => .idle⟩
  todo := run_fine_grained 1 1

theorem forall_one {P : Fin 1 ⊕ Fin 1 → Prop} (hwriter : P (.inl 0)) (hreader : P (.inr 0)) :
    ∀ t, P t := by
  rintro (i | i)
  · rwa [Subsingleton.elim i 0]
  · rwa [Subsingleton.elim i 0]

theorem run_oneEach : (driving (run_fine_grained 1 1)).Run [] oneEach :=
  .start ⟨⟨⟨0, rfl⟩, rfl, rfl, rfl, fun _ => rfl⟩, rfl⟩

/-- The writer comes first, and the reader finds the value. -/
theorem run_writer_first : ∃ tr s, (driving (run_fine_grained 1 1)).Run tr s ∧ Finished s ∧
    ∀ t, gaveUp t tr s = 0 := by
  have h₁ := run_oneEach.snoc (.call (.inl 0) (.enqueue 0) (.pushes []) rfl rfl)
  have h₂ := h₁.snoc (.thread 1 0 (.inl 0) rfl)
  have h₃ := h₂.snoc (.thread 1 0 (.inl 0) rfl)
  have h₄ := h₃.snoc (.thread 1 0 (.inl 0) rfl)
  have h₅ := h₄.snoc (.thread 1 0 (.inl 0) rfl)
  have h₆ := h₅.snoc (.thread 1 0 (.inl 0) rfl)
  have h₇ := h₆.snoc (.thread 1 0 (.inl 0) rfl)
  have h₈ := h₇.snoc (.thread 1 0 (.inl 0) rfl)
  have h₉ := h₈.snoc (.call (.inr 0) .dequeue (.pops 0) rfl rfl)
  have h₁₀ := h₉.snoc (.thread 0 0 (.inr 0) rfl)
  have h₁₁ := h₁₀.snoc (.thread 0 0 (.inr 0) rfl)
  have h₁₂ := h₁₁.snoc (.thread 0 0 (.inr 0) rfl)
  have h₁₃ := h₁₂.snoc (.thread 0 0 (.inr 0) rfl)
  have h₁₄ := h₁₃.snoc (.thread 0 0 (.inr 0) rfl)
  have h₁₅ := h₁₄.snoc (.thread 0 0 (.inr 0) rfl)
  have h₁₆ := h₁₅.snoc (.thread 0 0 (.inr 0) rfl)
  have h₁₇ := h₁₆.snoc (.thread 0 0 (.inr 0) rfl)
  exact ⟨_, _, h₁₇, forall_one ⟨rfl, rfl⟩ ⟨rfl, rfl⟩, forall_one rfl rfl⟩

theorem drivers_drained_one_each : ∃ tr s, (driving (run_fine_grained 1 1)).Run tr s ∧
    Finished s ∧ Drained ((List.range 1).map Int32.ofNat) tr s := by
  obtain ⟨tr, s, h, hfinished, hzero⟩ := run_writer_first
  have hrestrict := (restrict_iff h).mpr hzero
  exact ⟨tr, s, h, hfinished, ((drivers_drained 1 1).2 tr s h hfinished).mpr hrestrict⟩

/-- The reader comes first, and finds nothing. -/
theorem run_reader_first : ∃ tr s, (driving (run_fine_grained 1 1)).Run tr s ∧ Finished s ∧
    succ s.queue.heap s.queue.head = some (some 1) := by
  have h₁ := run_oneEach.snoc (.call (.inr 0) .dequeue (.pops 0) rfl rfl)
  have h₂ := h₁.snoc (.thread 0 0 (.inr 0) rfl)
  have h₃ := h₂.snoc (.thread 0 0 (.inr 0) rfl)
  have h₄ := h₃.snoc (.thread 0 0 (.inr 0) rfl)
  have h₅ := h₄.snoc (.thread 0 0 (.inr 0) rfl)
  have h₆ := h₅.snoc (.thread 0 0 (.inr 0) rfl)
  have h₇ := h₆.snoc (.call (.inl 0) (.enqueue 0) (.pushes []) rfl rfl)
  have h₈ := h₇.snoc (.thread 1 0 (.inl 0) rfl)
  have h₉ := h₈.snoc (.thread 1 0 (.inl 0) rfl)
  have h₁₀ := h₉.snoc (.thread 1 0 (.inl 0) rfl)
  have h₁₁ := h₁₀.snoc (.thread 1 0 (.inl 0) rfl)
  have h₁₂ := h₁₁.snoc (.thread 1 0 (.inl 0) rfl)
  have h₁₃ := h₁₂.snoc (.thread 1 0 (.inl 0) rfl)
  have h₁₄ := h₁₃.snoc (.thread 1 0 (.inl 0) rfl)
  exact ⟨_, _, h₁₄, forall_one ⟨rfl, rfl⟩ ⟨rfl, rfl⟩, rfl⟩

/-- **The value stays in the queue** if the reader comes first. -/
theorem not_drained : ∃ tr s, (driving (run_fine_grained 1 1)).Run tr s ∧ Finished s ∧
    ¬Drained ((List.range 1).map Int32.ofNat) tr s := by
  obtain ⟨tr, s, h, hfinished, hnext⟩ := run_reader_first
  refine ⟨tr, s, h, hfinished, fun hdrained => ?_⟩
  have hempty := hdrained.empty
  rw [hnext] at hempty
  cases hempty

end FineGrained

end Mpmc

end LowLatency
