import LowLatency.Foundations.Exceptions
import Mathlib.Algebra.BigOperators.Group.Finset.Basic
import Mathlib.Algebra.BigOperators.Group.Finset.Piecewise

/-!
# From the producers to the consumers

Which values a queue hands to whom, read off the trace of a run. Each thread has some work to do
(`QueueAction.Work`): values to publish, and a number of pops to make, which may fail. If every step
leaves of it what has not been done (`QueueAction.Does`), then in the end all of it has been done
(`QueueAction.work_of_run`).

Together the threads publish the values published, and pop the values popped
(`QueueAction.sum_pushed`, `QueueAction.sum_taken`). So if everything that was published has been
popped, and every thread has been returned what it popped, then each value that some thread
published has been returned once (`QueueAction.sum_returned`). A value that occurs several times
counts as often as it occurs.
-/

variable {τ V : Type*}

/-- The result of a pop that found nothing. -/
def QueueRes.isFailure : QueueRes V → Bool
  | .tryPop none => true
  | _ => false

namespace QueueAction

/-! ### The work of a thread -/

/-- The work a thread has before it: the values to publish, and the number of pops to make. -/
structure Work (V : Type*) where
  pushes : List V
  pops : ℕ

/-- Some work, and then some more. -/
def Work.append (w r : Work V) : Work V := ⟨w.pushes ++ r.pushes, w.pops + r.pops⟩

section Thread

variable [DecidableEq τ] (t : τ)

/-- The value an action adds for the thread `t`. -/
def pushed? : QueueAction τ V → Option V
  | .publish u v => if u = t then some v else none
  | _ => none

/-- The action is the return of a pop of the thread `t` that has failed. -/
def fails : QueueAction τ V → Bool
  | .ret u res => res.isFailure && decide (u = t)
  | _ => false

/-- **The values published by the thread** `t`, oldest first. -/
def pushed (tr : List (QueueAction τ V)) : List V := tr.filterMap (pushed? t)

/-- **The number of the pops of the thread** `t` that have failed. -/
def failed (tr : List (QueueAction τ V)) : ℕ := tr.countP (fails t)

@[simp] theorem pushed_snoc (tr : List (QueueAction τ V)) (a : QueueAction τ V) :
    pushed t (tr ++ [a]) = pushed t tr ++ (a.pushed? t).toList := by
  rw [pushed, List.filterMap_append]
  cases h : a.pushed? t <;> simp [pushed, h]

@[simp] theorem failed_snoc (tr : List (QueueAction τ V)) (a : QueueAction τ V) :
    failed t (tr ++ [a]) = failed t tr + (a.fails t).toNat := by
  rw [failed, List.countP_append, List.countP_singleton]
  cases h : a.fails t <;> simp [failed]

variable {t}

/-- **An action does some of the work** of the thread `t`: what is left is what it does not
publish, and the pops that neither take a value nor fail. -/
structure Does (t : τ) (a : QueueAction τ V) (w w' : Work V) : Prop where
  pushes : w.pushes = (a.pushed? t).toList ++ w'.pushes
  pops : w.pops = (a.taken? t).toList.length + (a.fails t).toNat + w'.pops

/-- More work that comes later is left. -/
theorem Does.append {a : QueueAction τ V} {w w' : Work V} (h : Does t a w w') (r : Work V) :
    Does t a (w.append r) (w'.append r) := by
  refine ⟨?_, ?_⟩
  · rw [Work.append, Work.append, h.pushes, List.append_assoc]
  · rw [Work.append, Work.append, h.pops, Nat.add_assoc]

/-- The action of another thread does none of it. -/
theorem does_nothing {a : QueueAction τ V} (ht : t ≠ a.thread) (w : Work V) : Does t a w w := by
  have hne : a.thread ≠ t := ht.symm
  rcases a with ⟨u, op⟩ | ⟨u, res⟩ | ⟨u, v⟩ | ⟨u, v⟩ | u
  · exact ⟨rfl, (Nat.zero_add _).symm⟩
  · exact ⟨rfl, by simp [taken?, fails, show u ≠ t from hne]⟩
  · exact ⟨by simp [pushed?, show u ≠ t from hne], (Nat.zero_add _).symm⟩
  · exact ⟨rfl, by simp [taken?, fails, show u ≠ t from hne]⟩
  · exact ⟨rfl, (Nat.zero_add _).symm⟩

/-- **The work done and the work left** are the work there was. -/
theorem work_of_run {σ : Type*} {M : TransitionSystem σ (QueueAction τ V)} (left : σ → Work V)
    {work : Work V} (hinit : ∀ s, M.Init s → left s = work)
    (hstep : ∀ s a s', M.Step s a s' → Does t a (left s) (left s'))
    {tr : List (QueueAction τ V)} {s : σ} (h : M.Run tr s) :
    pushed t tr ++ (left s).pushes = work.pushes ∧
      (taken t tr).length + failed t tr + (left s).pops = work.pops := by
  refine h.invariant (I := fun tr s => pushed t tr ++ (left s).pushes = work.pushes ∧
    (taken t tr).length + failed t tr + (left s).pops = work.pops) ?_ ?_
  · intro s hs
    rw [hinit s hs]
    exact ⟨rfl, Nat.zero_add _⟩
  · rintro tr s a s' - ⟨hpushes, hpops⟩ hs
    have hdoes := hstep s a s' hs
    rw [hdoes.pushes] at hpushes
    rw [hdoes.pops] at hpops
    refine ⟨?_, ?_⟩
    · rw [pushed_snoc, List.append_assoc]
      exact hpushes
    · rw [taken_snoc, failed_snoc, List.length_append]
      omega

end Thread

/-! ### All threads -/

variable [Fintype τ]

/-- What all threads do, if each action is done by one of them. -/
theorem sum_filterMap {done? : τ → QueueAction τ V → Option V} {any? : QueueAction τ V → Option V}
    (h : ∀ a, ∑ t, ((done? t a).toList : Multiset V) = (any? a).toList)
    (tr : List (QueueAction τ V)) :
    ∑ t, (tr.filterMap (done? t) : Multiset V) = tr.filterMap any? := by
  have hcons : ∀ (f : QueueAction τ V → Option V) (a : QueueAction τ V)
      (tr : List (QueueAction τ V)),
      ((a :: tr).filterMap f : Multiset V) = (f a).toList + tr.filterMap f := by
    intro f a tr
    cases hf : f a <;> simp [hf]
  induction tr with
  | nil => simp
  | cons a tr ih => simp only [hcons, Finset.sum_add_distrib, h, ih]

variable [DecidableEq τ]

/-- Only one thread does an action. -/
theorem sum_ite_toList (u : τ) (v : V) :
    ∑ t, ((if u = t then some v else none : Option V).toList : Multiset V) = [v] := by
  rw [Finset.sum_eq_single u]
  · rw [if_pos rfl]
    rfl
  · intro t _ ht
    rw [if_neg ht.symm]
    rfl
  · exact fun hu => absurd (Finset.mem_univ u) hu

/-- **What the threads have published** is what has been published. -/
theorem sum_pushed (tr : List (QueueAction τ V)) :
    ∑ t, (pushed t tr : Multiset V) = published tr := by
  refine sum_filterMap (fun a => ?_) tr
  rcases a with _ | _ | ⟨u, v⟩ | _ | _
  · exact Finset.sum_const_zero
  · exact Finset.sum_const_zero
  · exact sum_ite_toList u v
  · exact Finset.sum_const_zero
  · exact Finset.sum_const_zero

/-- **What the threads have popped** is what has been popped. -/
theorem sum_taken (tr : List (QueueAction τ V)) :
    ∑ t, (taken t tr : Multiset V) = popped tr := by
  refine sum_filterMap (fun a => ?_) tr
  rcases a with _ | _ | _ | ⟨u, v⟩ | _
  · exact Finset.sum_const_zero
  · exact Finset.sum_const_zero
  · exact Finset.sum_const_zero
  · exact sum_ite_toList u v
  · exact Finset.sum_const_zero

variable {tr : List (QueueAction τ V)}

theorem sum_length_pushed (tr : List (QueueAction τ V)) :
    ∑ t, (pushed t tr).length = (published tr).length := by
  have hcard := congrArg Multiset.card (sum_pushed tr)
  rwa [Multiset.card_sum] at hcard

theorem sum_length_taken (tr : List (QueueAction τ V)) :
    ∑ t, (taken t tr).length = (popped tr).length := by
  have hcard := congrArg Multiset.card (sum_taken tr)
  rwa [Multiset.card_sum] at hcard

/-- **Each value published is returned once**, if all have been popped and nothing is on its way to
a caller. -/
theorem sum_returned (hpopped : popped tr = published tr)
    (hreturned : ∀ t, taken t tr = returned t tr) :
    ∑ t, (returned t tr : Multiset V) = ∑ t, (pushed t tr : Multiset V) := by
  calc ∑ t, (returned t tr : Multiset V) = ∑ t, (taken t tr : Multiset V) :=
        Finset.sum_congr rfl fun t _ => by rw [hreturned]
    _ = popped tr := sum_taken tr
    _ = published tr := by rw [hpopped]
    _ = ∑ t, (pushed t tr : Multiset V) := (sum_pushed tr).symm

end QueueAction
