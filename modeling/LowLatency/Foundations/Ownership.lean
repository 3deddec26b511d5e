import Mathlib.Logic.Function.Basic
import Mathlib.Tactic.Common

/-!
# Owners of slots

Some slots of a table are in use, and each of these has one owner, a thread that is to
release it (`Owned`). A thread owns one slot or none. The lemmas of this file say how
this survives the three things a thread may do: claim a slot that is not in use, hand its
slot over to another thread, and release it.
-/

variable {τ ι : Type*}

/-- **The slots in use are those that are owned**, each by one thread. -/
structure Owned (owned : τ → Option ι) (used : ι → Prop) : Prop where
  unique : ∀ t u i, owned t = some i → owned u = some i → t = u
  used_iff : ∀ i, used i ↔ ∃ t, owned t = some i

namespace Owned

variable [DecidableEq τ] {owned : τ → Option ι} {used used' : ι → Prop} {t u : τ} {i : ι}

/-- A thread that owns nothing claims a slot that is not in use. -/
theorem claim (h : Owned owned used) (hi : ¬used i) (ht : owned t = none)
    (hused : ∀ j, used' j ↔ j = i ∨ used j) :
    Owned (Function.update owned t (some i)) used' := by
  have hnot : ∀ v, owned v ≠ some i := fun v hv => hi ((h.used_iff i).mpr ⟨v, hv⟩)
  refine ⟨fun v w j hv hw => ?_, fun j => ?_⟩
  · rcases eq_or_ne v t with rfl | hvt
    · rw [Function.update_self, Option.some_inj] at hv
      by_contra hne
      rw [Function.update_of_ne (Ne.symm hne), ← hv] at hw
      exact hnot w hw
    · rw [Function.update_of_ne hvt] at hv
      rcases eq_or_ne w t with rfl | hwt
      · rw [Function.update_self, Option.some_inj] at hw
        exact absurd (hw ▸ hv) (hnot v)
      · rw [Function.update_of_ne hwt] at hw
        exact h.unique v w j hv hw
  · rw [hused, h.used_iff]
    constructor
    · rintro (rfl | ⟨v, hv⟩)
      · exact ⟨t, Function.update_self ..⟩
      · refine ⟨v, ?_⟩
        rwa [Function.update_of_ne]
        rintro rfl
        rw [ht] at hv
        cases hv
    · rintro ⟨v, hv⟩
      rcases eq_or_ne v t with rfl | hvt
      · rw [Function.update_self, Option.some_inj] at hv
        exact .inl hv.symm
      · rw [Function.update_of_ne hvt] at hv
        exact .inr ⟨v, hv⟩

/-- A thread releases its slot. -/
theorem release (h : Owned owned used) (ht : owned t = some i)
    (hused : ∀ j, used' j ↔ j ≠ i ∧ used j) : Owned (Function.update owned t none) used' := by
  have hold : ∀ v j, Function.update owned t none v = some j → v ≠ t ∧ owned v = some j := by
    intro v j hv
    rcases eq_or_ne v t with rfl | hvt
    · rw [Function.update_self] at hv
      cases hv
    · rw [Function.update_of_ne hvt] at hv
      exact ⟨hvt, hv⟩
  refine ⟨fun v w j hv hw => h.unique v w j (hold v j hv).2 (hold w j hw).2, fun j => ?_⟩
  rw [hused, h.used_iff]
  constructor
  · rintro ⟨hji, v, hv⟩
    refine ⟨v, ?_⟩
    rwa [Function.update_of_ne]
    rintro rfl
    exact hji (Option.some_inj.mp (hv.symm.trans ht))
  · rintro ⟨v, hv⟩
    obtain ⟨hvt, hv⟩ := hold v j hv
    refine ⟨?_, v, hv⟩
    rintro rfl
    exact hvt (h.unique v t j hv ht)

/-- A thread hands its slot over to one that owns nothing. -/
theorem handOver (h : Owned owned used) (ht : owned t = some i) (hu : owned u = none) :
    Owned (Function.update (Function.update owned t none) u (some i)) used := by
  have hne : u ≠ t := by
    rintro rfl
    rw [ht] at hu
    cases hu
  refine (h.release ht fun _ => Iff.rfl).claim (fun hc => hc.1 rfl) ?_ fun j => ?_
  · rwa [Function.update_of_ne hne]
  · by_cases hj : j = i
    · exact iff_of_true (hj ▸ (h.used_iff i).mpr ⟨t, ht⟩) (.inl hj)
    · simp [hj]

end Owned
