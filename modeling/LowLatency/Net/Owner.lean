import LowLatency.Foundations.Transition
import Mathlib.Data.List.Basic

/-!
# The owner of a server

A server object belongs to one thread, in the two programs that of `main`, which calls `start` and
`stop` and destroys the object in the end. The member functions say nothing about the order, so
here the owner may call them in any order and as often as it likes.

A member of type `std::thread` is joinable until it has been joined. Joining it waits for the
function it runs to return; joining it again would throw, and destroying it while it is joinable
calls `std::terminate`. Which of these can happen depends on the calls made so far
(`LowLatency.Net.phase`) and on the threads joined in them (`LowLatency.Net.joins`).
-/

namespace LowLatency

namespace Net

/-- A `std::thread`: `native_handle` is not zero exactly while it is joinable. -/
inductive ThreadObject where
  | joinable : ThreadObject
  | joined : ThreadObject
  deriving DecidableEq

/-- What happens next to a server with the threads `τ` and the actions `α`. -/
inductive OwnerAction (α τ : Type*) where
  /-- A call of `start`, with its result. -/
  | start (ok : Bool) : OwnerAction α τ
  /-- A call of `stop`. -/
  | stop : OwnerAction α τ
  /-- In `stop`, the return of a `join`. -/
  | join (t : τ) : OwnerAction α τ
  /-- In `stop`, a step that joins nothing. -/
  | turn : OwnerAction α τ
  /-- The return of `stop`. -/
  | stopped : OwnerAction α τ
  /-- The destructor runs to its end, or into `std::terminate`. -/
  | destroy (terminates : Bool) : OwnerAction α τ
  /-- A step of the server. -/
  | server (a : α) : OwnerAction α τ

/-- How far the server has come. -/
inductive Phase where
  /-- No call of `start` has succeeded. -/
  | notStarted : Phase
  /-- A call has succeeded, and no call of `stop` has returned since. -/
  | running : Phase
  | stopped : Phase
  deriving DecidableEq

variable {α τ : Type*}

/-- The phase after an action. -/
def Phase.next : Phase → OwnerAction α τ → Phase
  | .notStarted, .start true => .running
  | .running, .stopped => .stopped
  | ph, _ => ph

/-- **The phase after some actions.** -/
def phase (tr : List (OwnerAction α τ)) : Phase := tr.foldl Phase.next .notStarted

/-- The thread that an action joins. -/
def OwnerAction.joined? : OwnerAction α τ → Option τ
  | .join t => some t
  | _ => none

/-- **The threads joined**, in this order. -/
def joins (tr : List (OwnerAction α τ)) : List τ := tr.filterMap OwnerAction.joined?

@[simp] theorem phase_nil : phase ([] : List (OwnerAction α τ)) = .notStarted := rfl

@[simp] theorem phase_snoc (tr : List (OwnerAction α τ)) (a : OwnerAction α τ) :
    phase (tr ++ [a]) = (phase tr).next a := by
  rw [phase, List.foldl_concat, phase]

/-- Only a `start` that succeeds and a `stop` that returns lead to another phase. -/
theorem Phase.next_eq (ph : Phase) {a : OwnerAction α τ} (hstart : a ≠ .start true)
    (hstopped : a ≠ .stopped) : ph.next a = ph := by
  cases ph with
  | notStarted =>
    cases a with
    | start ok =>
      cases ok with
      | false => rfl
      | true => exact absurd rfl hstart
    | _ => rfl
  | running =>
    cases a with
    | stopped => exact absurd rfl hstopped
    | _ => rfl
  | stopped => rfl

@[simp] theorem joins_nil : joins ([] : List (OwnerAction α τ)) = [] := rfl

@[simp] theorem joins_snoc (tr : List (OwnerAction α τ)) (a : OwnerAction α τ) :
    joins (tr ++ [a]) = joins tr ++ a.joined?.toList := by
  rw [joins, List.filterMap_append]
  cases h : a.joined? <;> simp [joins, h]

end Net

end LowLatency
