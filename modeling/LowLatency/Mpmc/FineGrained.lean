import LowLatency.Foundations.Chain
import LowLatency.Foundations.Mutex
import LowLatency.Foundations.Queue

/-!
# The queue with two locks

The class `QueueMPMC` of `fine_grained/queue_mpmc.hpp`: a linked list behind a dummy
node, whose two ends are guarded by a mutex each. Any number of threads call
`enqueue` and `dequeue`, and each access to a field or to a node, each locking and
each unlocking is a step of its own.

The heap maps an address to the node there, if there is one: `new node` picks any
address without a node, so the address of a deleted node may come back, and `delete`
empties one. An access to an address without a node has no meaning and no step here;
that no thread is ever about to make one is a result
(`LowLatency.Mpmc.FineGrained.memory_safe`), not an assumption.
-/

namespace LowLatency

namespace Mpmc

namespace FineGrained

/-- A pointer to a node. -/
abbrev Addr := ℕ

/-- `struct node`; a null pointer is `none`. -/
structure Node (α : Type*) where
  data : α
  next : Option Addr

/-- Where a thread stands: the step it makes next, with the locals it still needs. -/
inductive Pc (α : Type*) where
  | idle : Pc α
  /-- In `enqueue`, at `new node`. -/
  | newNode (data : α) : Pc α
  /-- At `new_node->data = data`. -/
  | fill (data : α) (newNode : Addr) : Pc α
  | lockTail (data : α) (newNode : Addr) : Pc α
  /-- At `tail->next = new_node`. -/
  | link (data : α) (newNode : Addr) : Pc α
  /-- At `tail = new_node`. -/
  | setTail (newNode : Addr) : Pc α
  | unlockTail : Pc α
  /-- In `dequeue`, at `head_mutex.lock()`. -/
  | lockHead : Pc α
  /-- At `current_head = head`. -/
  | readHead : Pc α
  /-- At `new_head = current_head->next`, and the test. -/
  | readNext (currentHead : Addr) : Pc α
  /-- At the unlocking before `return false`. -/
  | unlockEmpty : Pc α
  /-- At `*data = new_head->data`. -/
  | copyData (currentHead newHead : Addr) : Pc α
  /-- At `head = new_head`. -/
  | setHead (currentHead newHead : Addr) (data : α) : Pc α
  | unlockHead (currentHead : Addr) (data : α) : Pc α
  /-- At `delete current_head`. -/
  | delete (currentHead : Addr) (data : α) : Pc α
  | returning (res : QueueRes α) : Pc α

/-- The heap, the fields of the queue and where every thread stands. A mutex is its
holder. -/
structure State (τ α : Type*) where
  heap : Addr → Option (Node α)
  head : Addr
  tail : Addr
  headMutex : Option τ
  tailMutex : Option τ
  pc : τ → Pc α

variable {τ α : Type*}

/-- The two public operations. -/
inductive Call (α : Type*) where
  | enqueue (data : α) : Call α
  | dequeue : Call α

/-- The operation of a queue a call stands for: `enqueue` always succeeds, `dequeue`
says whether it did. -/
def Call.op : Call α → QueueOp α
  | .enqueue v => .push v
  | .dequeue => .tryPop

/-- The first step of a call. -/
def Call.entry : Call α → Pc α
  | .enqueue v => .newNode v
  | .dequeue => .lockHead

section Step

variable [DecidableEq τ]

/-- The steps of `enqueue` and `dequeue`. A new node is at the address `fresh`, with
whatever `junk` its data is before it is set. -/
def threadStep (fresh : Addr) (junk : α) (t : τ) (s : State τ α) :
    Option (QueueAction τ α × State τ α) :=
  match s.pc t with
  | .idle => none
  | .newNode v =>
    match s.heap fresh with
    | some _ => none
    | none =>
      some (.access t,
        { s with
          heap := Function.update s.heap fresh (some ⟨junk, none⟩)
          pc := Function.update s.pc t (.fill v fresh) })
  | .fill v n =>
    (s.heap n).map fun node =>
      (.access t,
        { s with
          heap := Function.update s.heap n (some { node with data := v })
          pc := Function.update s.pc t (.lockTail v n) })
  | .lockTail v n =>
    match s.tailMutex with
    | some _ => none
    | none =>
      some (.access t,
        { s with tailMutex := some t, pc := Function.update s.pc t (.link v n) })
  | .link v n =>
    (s.heap s.tail).map fun node =>
      (.publish t v,
        { s with
          heap := Function.update s.heap s.tail (some { node with next := some n })
          pc := Function.update s.pc t (.setTail n) })
  | .setTail n =>
    some (.access t, { s with tail := n, pc := Function.update s.pc t .unlockTail })
  | .unlockTail =>
    some (.access t,
      { s with tailMutex := none, pc := Function.update s.pc t (.returning .push) })
  | .lockHead =>
    match s.headMutex with
    | some _ => none
    | none =>
      some (.access t, { s with headMutex := some t, pc := Function.update s.pc t .readHead })
  | .readHead => some (.access t, { s with pc := Function.update s.pc t (.readNext s.head) })
  | .readNext cur =>
    (s.heap cur).map fun node =>
      match node.next with
      | none => (.access t, { s with pc := Function.update s.pc t .unlockEmpty })
      | some new => (.access t, { s with pc := Function.update s.pc t (.copyData cur new) })
  | .unlockEmpty =>
    some (.access t,
      { s with headMutex := none, pc := Function.update s.pc t (.returning (.tryPop none)) })
  | .copyData cur new =>
    (s.heap new).map fun node =>
      (.access t, { s with pc := Function.update s.pc t (.setHead cur new node.data) })
  | .setHead cur new v =>
    some (.consume t v,
      { s with head := new, pc := Function.update s.pc t (.unlockHead cur v) })
  | .unlockHead cur v =>
    some (.access t, { s with headMutex := none, pc := Function.update s.pc t (.delete cur v) })
  | .delete cur v =>
    (s.heap cur).map fun _ =>
      (.access t,
        { s with
          heap := Function.update s.heap cur none
          pc := Function.update s.pc t (.returning (.tryPop (some v))) })
  | .returning res => some (.ret t res, { s with pc := Function.update s.pc t .idle })

/-- The steps: a thread between two calls makes any call, and one inside a call makes
its next step. -/
inductive Step : State τ α → QueueAction τ α → State τ α → Prop
  | call {s : State τ α} (t : τ) (c : Call α) : s.pc t = .idle →
      Step s (.call t c.op) { s with pc := Function.update s.pc t c.entry }
  | thread {s s' : State τ α} {a : QueueAction τ α} (fresh : Addr) (junk : α) (t : τ) :
      threadStep fresh junk t s = some (a, s') → Step s a s'

/-- **The queue and its threads**: the constructor leaves a dummy node, to which both
`head` and `tail` point. -/
def system (τ α : Type*) [DecidableEq τ] : TransitionSystem (State τ α) (QueueAction τ α) where
  Init s := (∃ junk, s.heap = Function.update (fun _ => none) s.head (some ⟨junk, none⟩)) ∧
    s.tail = s.head ∧ s.headMutex = none ∧ s.tailMutex = none ∧ ∀ t, s.pc t = .idle
  Step := Step

/-! ### What a step can do -/

/-- The cases of a step of the thread `t`. -/
inductive ThreadCase (t : τ) (s : State τ α) : QueueAction τ α → State τ α → Prop
  | newNode (v : α) (n : Addr) (junk : α) : s.pc t = .newNode v → s.heap n = none →
      ThreadCase t s (.access t)
        { s with
          heap := Function.update s.heap n (some ⟨junk, none⟩)
          pc := Function.update s.pc t (.fill v n) }
  | fill (v : α) (n : Addr) (node : Node α) : s.pc t = .fill v n → s.heap n = some node →
      ThreadCase t s (.access t)
        { s with
          heap := Function.update s.heap n (some { node with data := v })
          pc := Function.update s.pc t (.lockTail v n) }
  | lockTail (v : α) (n : Addr) : s.pc t = .lockTail v n → s.tailMutex = none →
      ThreadCase t s (.access t)
        { s with tailMutex := some t, pc := Function.update s.pc t (.link v n) }
  | link (v : α) (n : Addr) (node : Node α) : s.pc t = .link v n → s.heap s.tail = some node →
      ThreadCase t s (.publish t v)
        { s with
          heap := Function.update s.heap s.tail (some { node with next := some n })
          pc := Function.update s.pc t (.setTail n) }
  | setTail (n : Addr) : s.pc t = .setTail n →
      ThreadCase t s (.access t) { s with tail := n, pc := Function.update s.pc t .unlockTail }
  | unlockTail : s.pc t = .unlockTail →
      ThreadCase t s (.access t)
        { s with tailMutex := none, pc := Function.update s.pc t (.returning .push) }
  | lockHead : s.pc t = .lockHead → s.headMutex = none →
      ThreadCase t s (.access t)
        { s with headMutex := some t, pc := Function.update s.pc t .readHead }
  | readHead : s.pc t = .readHead →
      ThreadCase t s (.access t) { s with pc := Function.update s.pc t (.readNext s.head) }
  | readNull (cur : Addr) (data : α) : s.pc t = .readNext cur → s.heap cur = some ⟨data, none⟩ →
      ThreadCase t s (.access t) { s with pc := Function.update s.pc t .unlockEmpty }
  | readNext (cur new : Addr) (data : α) : s.pc t = .readNext cur →
      s.heap cur = some ⟨data, some new⟩ →
      ThreadCase t s (.access t) { s with pc := Function.update s.pc t (.copyData cur new) }
  | unlockEmpty : s.pc t = .unlockEmpty →
      ThreadCase t s (.access t)
        { s with headMutex := none, pc := Function.update s.pc t (.returning (.tryPop none)) }
  | copyData (cur new : Addr) (node : Node α) : s.pc t = .copyData cur new →
      s.heap new = some node →
      ThreadCase t s (.access t)
        { s with pc := Function.update s.pc t (.setHead cur new node.data) }
  | setHead (cur new : Addr) (v : α) : s.pc t = .setHead cur new v →
      ThreadCase t s (.consume t v)
        { s with head := new, pc := Function.update s.pc t (.unlockHead cur v) }
  | unlockHead (cur : Addr) (v : α) : s.pc t = .unlockHead cur v →
      ThreadCase t s (.access t)
        { s with headMutex := none, pc := Function.update s.pc t (.delete cur v) }
  | delete (cur : Addr) (v : α) : s.pc t = .delete cur v →
      ThreadCase t s (.access t)
        { s with
          heap := Function.update s.heap cur none
          pc := Function.update s.pc t (.returning (.tryPop (some v))) }
  | ret (res : QueueRes α) : s.pc t = .returning res →
      ThreadCase t s (.ret t res) { s with pc := Function.update s.pc t .idle }

theorem threadStep_cases {fresh : Addr} {junk : α} {t : τ} {s s' : State τ α}
    {a : QueueAction τ α} (h : threadStep fresh junk t s = some (a, s')) :
    ThreadCase t s a s' := by
  unfold threadStep at h
  cases hpc : s.pc t with
  | idle => simp [hpc] at h
  | newNode v =>
    rw [hpc] at h
    dsimp only at h
    split at h
    · cases h
    · cases h
      exact .newNode v fresh junk hpc ‹_›
  | fill v n =>
    rw [hpc] at h
    obtain ⟨node, hnode, heq⟩ := Option.map_eq_some_iff.mp h
    cases heq
    exact .fill v n node hpc hnode
  | lockTail v n =>
    rw [hpc] at h
    dsimp only at h
    split at h
    · cases h
    · cases h
      exact .lockTail v n hpc ‹_›
  | link v n =>
    rw [hpc] at h
    obtain ⟨node, hnode, heq⟩ := Option.map_eq_some_iff.mp h
    cases heq
    exact .link v n node hpc hnode
  | setTail n =>
    rw [hpc] at h
    cases h
    exact .setTail n hpc
  | unlockTail =>
    rw [hpc] at h
    cases h
    exact .unlockTail hpc
  | lockHead =>
    rw [hpc] at h
    dsimp only at h
    split at h
    · cases h
    · cases h
      exact .lockHead hpc ‹_›
  | readHead =>
    rw [hpc] at h
    cases h
    exact .readHead hpc
  | readNext cur =>
    rw [hpc] at h
    obtain ⟨⟨data, next⟩, hnode, heq⟩ := Option.map_eq_some_iff.mp h
    cases next with
    | none =>
      cases heq
      exact .readNull cur data hpc hnode
    | some new =>
      cases heq
      exact .readNext cur new data hpc hnode
  | unlockEmpty =>
    rw [hpc] at h
    cases h
    exact .unlockEmpty hpc
  | copyData cur new =>
    rw [hpc] at h
    obtain ⟨node, hnode, heq⟩ := Option.map_eq_some_iff.mp h
    cases heq
    exact .copyData cur new node hpc hnode
  | setHead cur new v =>
    rw [hpc] at h
    cases h
    exact .setHead cur new v hpc
  | unlockHead cur v =>
    rw [hpc] at h
    cases h
    exact .unlockHead cur v hpc
  | delete cur v =>
    rw [hpc] at h
    obtain ⟨node, hnode, heq⟩ := Option.map_eq_some_iff.mp h
    cases heq
    exact .delete cur v hpc
  | returning res =>
    rw [hpc] at h
    cases h
    exact .ret res hpc

end Step

end FineGrained

end Mpmc

end LowLatency
