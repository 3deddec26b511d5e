import LowLatency.Foundations.Queue

/-!
# Calls that are left by an exception

The traces of threads that use a queue whose operations may throw. A call that throws is over,
and returns nothing. To say that it might as well not have been made, it is struck out of the
trace, with all the steps it has taken (`ThrowingAction.completed`). Whether a call fails is known
at its end only, so a trace is read from its end.
-/

variable {τ V : Type*}

/-- What happens: a step as before, or a call that is left by an exception. -/
inductive ThrowingAction (τ V : Type*) where
  | step (a : QueueAction τ V) : ThrowingAction τ V
  | throws (t : τ) : ThrowingAction τ V

namespace QueueAction

/-- The thread that acts. -/
def thread : QueueAction τ V → τ
  | .call t _ => t
  | .ret t _ => t
  | .publish t _ => t
  | .consume t _ => t
  | .access t => t

/-- Whether the action begins an operation. -/
def isCall : QueueAction τ V → Bool
  | .call _ _ => true
  | _ => false

end QueueAction

namespace ThrowingAction

variable [DecidableEq τ] {F : τ → Bool} {tr : List (ThrowingAction τ V)} {a : QueueAction τ V}

/-- **What remains of a trace**, given with its newest action first, without the calls that fail:
those of a thread in `F`, which are under way at its end, and those that fail before. -/
def remains (F : τ → Bool) : List (ThrowingAction τ V) → List (QueueAction τ V)
  | [] => []
  | .throws t :: tr => remains (Function.update F t true) tr
  | .step a :: tr =>
    if F a.thread then remains (if a.isCall then Function.update F a.thread false else F) tr
    else remains F tr ++ [a]

/-- **A trace without the calls that have failed.** -/
def completed (tr : List (ThrowingAction τ V)) : List (QueueAction τ V) :=
  remains (fun _ => false) tr.reverse

/-- A step of a call that does not fail remains. -/
theorem remains_step (ha : F a.thread = false) :
    remains F (tr ++ [step a]).reverse = remains F tr.reverse ++ [a] := by
  rw [List.reverse_append, List.reverse_singleton, List.singleton_append, remains, ha]
  rfl

/-- A step of a call that fails is struck out; before the call itself, nothing is known of the
thread. -/
theorem remains_failing (ha : F a.thread = true) :
    remains F (tr ++ [step a]).reverse =
      remains (if a.isCall then Function.update F a.thread false else F) tr.reverse := by
  rw [List.reverse_append, List.reverse_singleton, List.singleton_append, remains, if_pos ha]

/-- Before it is left by an exception, a call is one that fails. -/
theorem remains_throws (t : τ) :
    remains F (tr ++ [throws t]).reverse = remains (Function.update F t true) tr.reverse := by
  rw [List.reverse_append, List.reverse_singleton, List.singleton_append, remains]

end ThrowingAction
