import LowLatency.Foundations.Queue
import LowLatency.Foundations.Registers

/-!
# Rings that overwrite and repeat

A writer goes through the cells of a ring, a reader goes through them as well, and neither looks
where the other one is. So a write destroys what the cell holds, read or not, and a read returns
what the cell holds, new or not: the value last written to it, and what has been there from the
start if there is none (`OverwritingRing.stored`).

This is a sequential object like a queue, with two of its operations (`overwriting`), of which
neither ever fails or waits.
-/

namespace OverwritingRing

variable {κ V : Type*} [DecidableEq κ]

/-- **What the cells hold** after the values `P` have been written, the `i`-th of them to the cell
`slot i`, if they have held `k` before. -/
def stored (slot : ℕ → κ) (k : κ → V) (P : List V) (key : κ) : V :=
  ((Registers.last (fun o : V × ℕ => slot o.2) P.zipIdx key).map Prod.fst).getD (k key)

@[simp] theorem stored_nil (slot : ℕ → κ) (k : κ → V) : stored slot k [] = k := rfl

/-- One more value goes to the next cell. -/
theorem stored_concat (slot : ℕ → κ) (k : κ → V) (P : List V) (v : V) :
    stored slot k (P ++ [v]) = Function.update (stored slot k P) (slot P.length) v := by
  funext key
  have hzip : (P ++ [v]).zipIdx = P.zipIdx ++ [(v, P.length)] := by
    rw [List.zipIdx_append, List.zipIdx_singleton, Nat.zero_add]
  rw [stored, hzip, Registers.last_concat]
  by_cases h : slot P.length = key
  · rw [if_pos h, ← h, Function.update_self]
    rfl
  · rw [if_neg h, Function.update_of_ne (Ne.symm h)]
    rfl

/-- **A cell holds one of the values written to it**, or what has been there before. -/
theorem stored_cases (slot : ℕ → κ) (k : κ → V) (P : List V) (key : κ) :
    stored slot k P key = k key ∨ ∃ j, slot j = key ∧ P[j]? = some (stored slot k P key) := by
  induction P using List.reverseRecOn with
  | nil => exact .inl rfl
  | append_singleton P v ih =>
    rw [stored_concat]
    by_cases h : slot P.length = key
    · refine .inr ⟨P.length, h, ?_⟩
      rw [← h, Function.update_self, List.getElem?_concat_length]
    · rw [Function.update_of_ne (Ne.symm h)]
      refine ih.imp_right ?_
      rintro ⟨j, hj, hP⟩
      refine ⟨j, hj, ?_⟩
      rw [List.getElem?_append_left (List.getElem?_eq_some_iff.mp hP).1, hP]

end OverwritingRing

variable {κ V : Type*} [DecidableEq κ]

/-- The results of the operations, when `P` has been written and `c` values have been read. -/
inductive OverwritingStep (slot : ℕ → κ) (k : κ → V) :
    List V × ℕ → QueueOp V → QueueRes V → List V × ℕ → Prop
  /-- There is no test for a cell that is still to be read. -/
  | push (P : List V) (c : ℕ) (v : V) :
      OverwritingStep slot k (P, c) (.push v) .push (P ++ [v], c)
  /-- There is no test for a cell that is still to be written. -/
  | pop (P : List V) (c : ℕ) :
      OverwritingStep slot k (P, c) .pop (.pop (OverwritingRing.stored slot k P (slot c)))
        (P, c + 1)

/-- **The ring that overwrites and repeats**, with its cells and what they hold at the start. -/
def overwriting (slot : ℕ → κ) (k : κ → V) :
    SequentialObject (List V × ℕ) (QueueOp V) (QueueRes V) where
  init := ([], 0)
  Step := OverwritingStep slot k
