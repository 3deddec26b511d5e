import Mathlib.Data.Finset.Basic
import Mathlib.Logic.Function.Basic
import Mathlib.Tactic.Common

/-!
# Numbers that are issued and used again

A pool issues numbers that are not open, and a number that has been closed may be issued
again. Who holds a number is not something the pool knows. What keeps the holders apart is
that every number held is open and was issued to its holder (`Issued`): then a number is
never held by two, and closing one's own number takes none from the others. The lemmas of
this file say how this survives the issuing and the closing of a number.
-/

variable {ι ω : Type*} {opened opened' : Finset ι} {issued : ι → ω} {holds holds' : ω → ι → Prop}
  {o : ω} {x : ι}

/-- **Every number held is open and was issued to its holder.** -/
structure Issued (opened : Finset ι) (issued : ι → ω) (holds : ω → ι → Prop) : Prop where
  mem : ∀ o x, holds o x → x ∈ opened
  eq : ∀ o x, holds o x → issued x = o

namespace Issued

/-- Nobody holds more than before, and nothing is closed. -/
theorem keep (h : Issued opened issued holds) (hopened : opened ⊆ opened')
    (hsub : ∀ o x, holds' o x → holds o x) : Issued opened' issued holds' where
  mem o x hx := hopened (h.mem o x (hsub o x hx))
  eq o x hx := h.eq o x (hsub o x hx)

variable [DecidableEq ι]

/-- **A number that is not open is issued**, to one who may hold it from now on. -/
theorem issue (h : Issued opened issued holds) (hx : x ∉ opened)
    (hsub : ∀ o' y, holds' o' y → o' = o ∧ y = x ∨ holds o' y) :
    Issued (insert x opened) (Function.update issued x o) holds' := by
  constructor
  · intro o' y hy
    rcases hsub o' y hy with ⟨-, rfl⟩ | hold
    · exact Finset.mem_insert_self ..
    · exact Finset.mem_insert_of_mem (h.mem o' y hold)
  · intro o' y hy
    rcases hsub o' y hy with ⟨rfl, rfl⟩ | hold
    · exact Function.update_self ..
    · have hne : y ≠ x := by
        rintro rfl
        exact hx (h.mem o' y hold)
      rw [Function.update_of_ne hne]
      exact h.eq o' y hold

/-- **A number is closed** by the one it was issued to, who holds none any more. -/
theorem close (h : Issued opened issued holds) (hx : issued x = o)
    (hsub : ∀ o' y, holds' o' y → o' ≠ o ∧ holds o' y) :
    Issued (opened.erase x) issued holds' := by
  constructor
  · intro o' y hy
    obtain ⟨hne, hold⟩ := hsub o' y hy
    refine Finset.mem_erase.mpr ⟨?_, h.mem o' y hold⟩
    rintro rfl
    exact hne ((h.eq o' y hold).symm.trans hx)
  · exact fun o' y hy => h.eq o' y (hsub o' y hy).2

end Issued
