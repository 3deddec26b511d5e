import Mathlib.Order.Lattice
import Mathlib.Order.Nat
import Mathlib.Data.List.Basic

/-!
# Message histories with views

The memory of a program that hands data over by release stores and acquire loads.
An atomic variable is the list of the values it has held, oldest first. A release
store adds a *message*: the value, and the storing thread's *view* of the plain
locations, which says for each of them how much of its history the thread knows.
An acquire load may return any message at or after the one the loading thread last
observed, however old, and takes its view over; a sequentially consistent load
returns the last message. A plain location is the list of the values written to
it, and a plain read returns any of them that is not older than what the reader's
view shows.
-/

namespace ReleaseAcquire

variable {ι V : Type*}

/-- For each plain location, the position of the latest write a thread knows of. -/
abbrev View (ι : Type*) := ι → ℕ

/-- A value an atomic variable has held, with the view released along with it. -/
structure Message (ι V : Type*) where
  value : V
  view : View ι

/-- How the atomic loads of a program are ordered. -/
inductive Order where
  /-- A load may lag behind the last store. -/
  | acquire : Order
  /-- A load sees the last store. -/
  | seqCst : Order

/-- **What a load may return**: the position `k` in the history `log`, for a thread
that has observed position `seen`. -/
def Readable (o : Order) (log : List (Message ι V)) (seen k : ℕ) : Prop :=
  seen ≤ k ∧ k < log.length ∧ (o = .seqCst → k + 1 = log.length)

instance (o : Order) (log : List (Message ι V)) (seen k : ℕ) :
    Decidable (Readable o log seen k) := by
  unfold Readable
  cases o with
  | acquire => exact decidable_of_iff (seen ≤ k ∧ k < log.length) (by simp)
  | seqCst =>
    exact decidable_of_iff (seen ≤ k ∧ k < log.length ∧ k + 1 = log.length) (by simp)

/-- The last message is always readable. -/
theorem readable_last (o : Order) {log : List (Message ι V)} {seen k : ℕ} (h : seen ≤ k)
    (hk : log.length = k + 1) : Readable o log seen k :=
  ⟨h, by omega, fun _ => by omega⟩

/-- The value a variable holds, as its only writer reads it. -/
def latest [Inhabited V] (log : List (Message ι V)) : V :=
  (log.getLast?.map Message.value).getD default

theorem latest_eq [Inhabited V] {log : List (Message ι V)} {k : ℕ} {m : Message ι V}
    (hlen : log.length = k + 1) (hm : log[k]? = some m) : latest log = m.value := by
  rw [latest, List.getLast?_eq_getElem?, hlen, Nat.add_sub_cancel, hm]
  rfl

/-- **A store** adds a message, and what is said of each message by its position stays true. -/
theorem forall_message_push {log : List (Message ι V)} {R : ℕ → Message ι V → Prop} {k : ℕ}
    {m : Message ι V} (hlen : log.length = k + 1)
    (h : ∀ i ≤ k, ∃ m', log[i]? = some m' ∧ R i m') (hm : R (k + 1) m) :
    ∀ i ≤ k + 1, ∃ m', (log ++ [m])[i]? = some m' ∧ R i m' := by
  intro i hi
  rcases Nat.lt_or_ge k i with hki | hik
  · -- the message just stored
    obtain rfl : i = k + 1 := by omega
    rw [← hlen] at hm ⊢
    exact ⟨m, List.getElem?_concat_length, hm⟩
  · obtain ⟨m', hm', hR⟩ := h i hik
    refine ⟨m', ?_, hR⟩
    rw [List.getElem?_append_left (by omega)]
    exact hm'

end ReleaseAcquire
