import Mathlib.Data.List.Nodup
import Mathlib.Tactic.Common

/-!
# Singly linked chains in a heap

The heap is seen through its successor function: `succ a` is `none` if there is no
node at `a`, and otherwise what the link of that node says, which is the address of
another node or nothing. `Chain succ a l` says that following the links from `a` one
meets the nodes `l`, in this order, and nothing after them. A chain can be shortened
at its front (`Chain.rest`) and lengthened at its end (`Chain.concat`), and it does
not depend on the nodes outside it (`Chain.congr`).
-/

variable {A : Type*} {succ succ' : A → Option (Option A)} {a b : A} {l : List A}

/-- **The chain** that starts at `a` goes on with the nodes `l`, and ends there. -/
def Chain (succ : A → Option (Option A)) : A → List A → Prop
  | a, [] => succ a = some none
  | a, b :: l => succ a = some (some b) ∧ Chain succ b l

namespace Chain

/-- The link of the first node. -/
theorem succ_first (h : Chain succ a l) : succ a = some l.head? := by
  cases l with
  | nil => exact h
  | cons b l => exact h.1

/-- The chain without its first node. -/
theorem rest (h : Chain succ a (b :: l)) : Chain succ b l := h.2

/-- There is a node at every address of the chain. -/
theorem succ_ne_none (h : Chain succ a l) {x : A} (hx : x ∈ a :: l) : succ x ≠ none := by
  induction l generalizing a with
  | nil =>
    rw [List.mem_singleton.mp hx, h.succ_first]
    simp
  | cons b l ih =>
    rcases List.mem_cons.mp hx with rfl | hx
    · rw [h.succ_first]
      simp
    · exact ih h.2 hx

/-- **What the rest of the heap looks like does not matter.** -/
theorem congr (h : Chain succ a l) (hsucc : ∀ x ∈ a :: l, succ' x = succ x) :
    Chain succ' a l := by
  induction l generalizing a with
  | nil => exact (hsucc a List.mem_cons_self).trans h
  | cons b l ih =>
    exact ⟨(hsucc a List.mem_cons_self).trans h.1,
      ih h.2 fun x hx => hsucc x (List.mem_cons_of_mem _ hx)⟩

/-- **Appending a node**: the link of the last node is set to it. -/
theorem concat (h : Chain succ a l) (hnodup : (a :: l).Nodup)
    (hlast : succ' (l.getLastD a) = some (some b)) (hb : succ' b = some none)
    (hsucc : ∀ x ∈ a :: l, x ≠ l.getLastD a → succ' x = succ x) :
    Chain succ' a (l ++ [b]) := by
  induction l generalizing a with
  | nil => exact ⟨hlast, hb⟩
  | cons c l ih =>
    obtain ⟨hac, hnodup'⟩ := List.nodup_cons.mp hnodup
    rw [List.getLastD_cons] at hlast hsucc
    refine ⟨?_, ih h.2 hnodup' hlast fun x hx => hsucc x (List.mem_cons_of_mem _ hx)⟩
    -- the first node is not the last one, as it occurs once
    have hne : a ≠ l.getLastD c := by
      rintro rfl
      exact hac List.getLastD_mem_cons
    exact (hsucc a List.mem_cons_self hne).trans h.1

end Chain
