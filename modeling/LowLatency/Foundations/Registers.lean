import Mathlib.Data.List.Basic
import Mathlib.Data.List.Induction
import Mathlib.Logic.Function.Basic
import Mathlib.Tactic.Common

/-!
# Registers and their last writes

A family of registers and a list of operations, oldest first, each of which writes one of them.
A register holds what the last operation on it has written
(`Registers.foldl_update_apply`); so what is to be known of the operations is the last one for
each register, and how that changes if the operations are taken to write other registers.
-/

namespace Registers

variable {ι κ ν : Type*} [DecidableEq κ]

/-- **The last operation on a register**, if there is one; `f` says on which each operation
is. -/
def last (f : ι → κ) (ops : List ι) (key : κ) : Option ι := ops.reverse.find? fun o => f o = key

variable {f g : ι → κ} {ops : List ι} {key : κ} {o : ι}

@[simp] theorem last_nil (f : ι → κ) (key : κ) : last f [] key = none := rfl

theorem last_concat (f : ι → κ) (ops : List ι) (o : ι) (key : κ) :
    last f (ops ++ [o]) key = if f o = key then some o else last f ops key := by
  rw [last, List.reverse_concat, List.find?_cons]
  by_cases h : f o = key
  · simp [h]
  · simp [h, last]

theorem apply_of_last (h : last f ops key = some o) : f o = key := by
  simpa using List.find?_some h

/-- **A register holds what has been written last**, and what it held before if nothing
has been written. -/
theorem foldl_update_apply (f : ι → κ) (value : ι → ν) (k : κ → ν) (ops : List ι) (key : κ) :
    ops.foldl (fun k o => Function.update k (f o) (value o)) k key =
      ((last f ops key).map value).getD (k key) := by
  induction ops using List.reverseRecOn with
  | nil => rfl
  | append_singleton ops o ih =>
    rw [List.foldl_concat, last_concat]
    by_cases h : f o = key
    · rw [if_pos h, h, Function.update_self]
      rfl
    · rw [if_neg h, Function.update_of_ne (Ne.symm h), ih]

/-- An operation that is the last on a register by one account is so by another, if all that is
on it by the other is so by the first. -/
theorem last_of_imp (himp : ∀ o, g o = key → f o = key) (h : last f ops key = some o)
    (ho : g o = key) : last g ops key = some o := by
  induction ops using List.reverseRecOn with
  | nil => cases h
  | append_singleton ops x ih =>
    rw [last_concat] at h ⊢
    by_cases hf : f x = key
    · rw [if_pos hf] at h
      obtain rfl : x = o := Option.some_inj.mp h
      rw [if_pos ho]
    · rw [if_neg hf] at h
      rw [if_neg fun hc => hf (himp x hc), ih h]

theorem last_eq_none_of_imp (himp : ∀ o, g o = key → f o = key) (h : last f ops key = none) :
    last g ops key = none := by
  simp only [last, List.find?_eq_none, decide_eq_true_eq] at h ⊢
  exact fun o ho hg => h o ho (himp o hg)

end Registers
