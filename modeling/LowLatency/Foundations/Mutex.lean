import Mathlib.Logic.Function.Basic
import Mathlib.Tactic.Common

/-!
# Mutexes and the sections they guard

A mutex is modelled by its holder, `none` while it is free. What a proof needs to
know of it is that it *guards* a section of the code (`Mutex.Guards`): its holder is
the one thread inside that section, if there is any. The lemmas of this file say how
this survives the step of one thread, which may lock the mutex on its way in, unlock
it on its way out, or leave it alone.
-/

namespace Mutex

variable {τ ρ : Type*} {m : Option τ} {Inside : ρ → Prop} {pc : τ → ρ} {t u : τ}
  {p : ρ}

/-- **The mutex `m` guards a section**: it is held by the threads inside, so by at
most one. -/
def Guards (m : Option τ) (Inside : ρ → Prop) (pc : τ → ρ) : Prop :=
  ∀ t, m = some t ↔ Inside (pc t)

theorem Guards.held (h : Guards m Inside pc) (ht : Inside (pc t)) : m = some t :=
  (h t).mpr ht

/-- **Mutual exclusion.** -/
theorem Guards.unique (h : Guards m Inside pc) (ht : Inside (pc t)) (hu : Inside (pc u)) :
    u = t :=
  Option.some_inj.mp ((h.held hu).symm.trans (h.held ht))

/-- While one thread is inside, another is not. -/
theorem Guards.not_inside (h : Guards m Inside pc) (ht : Inside (pc t)) (hu : u ≠ t) :
    ¬Inside (pc u) :=
  fun hin => hu (h.unique ht hin)

variable [DecidableEq τ]

/-- A step inside the section, or outside it. -/
theorem Guards.keep (h : Guards m Inside pc) (hp : Inside p ↔ Inside (pc t)) :
    Guards m Inside (Function.update pc t p) := by
  intro u
  rcases eq_or_ne u t with rfl | hu
  · rw [Function.update_self, hp]
    exact h u
  · rw [Function.update_of_ne hu]
    exact h u

/-- **Locking**: the mutex was free, and the thread enters the section. -/
theorem Guards.lock (h : Guards none Inside pc) (hp : Inside p) :
    Guards (some t) Inside (Function.update pc t p) := by
  intro u
  rcases eq_or_ne u t with rfl | hu
  · rw [Function.update_self]
    exact iff_of_true rfl hp
  · rw [Function.update_of_ne hu, ← h u]
    exact iff_of_false (fun hc => hu (Option.some_inj.mp hc).symm) (by simp)

/-- **Unlocking**: the thread that was inside leaves the section. -/
theorem Guards.unlock (h : Guards m Inside pc) (ht : Inside (pc t)) (hp : ¬Inside p) :
    Guards none Inside (Function.update pc t p) := by
  intro u
  rcases eq_or_ne u t with rfl | hu
  · rw [Function.update_self]
    exact iff_of_false (by simp) hp
  · rw [Function.update_of_ne hu]
    exact iff_of_false (by simp) (h.not_inside ht hu)

end Mutex
