import LowLatency.Mpmc.FineGrainedInvariant

/-!
# The nodes of the queue with two locks

`dequeue` deletes the old dummy after it has unlocked `head_mutex`, and never looks
at `tail`; so for a while `tail` may point to a node that has been deleted
(`LowLatency.Mpmc.FineGrained.tail_may_dangle`). No thread follows it then
(`LowLatency.Mpmc.FineGrained.memory_safe`): every access goes to a node, every node
is deleted by the one thread that owns it, and every node that exists is on the chain
or has exactly one owner.
-/

namespace LowLatency

namespace Mpmc

namespace FineGrained

open QueueAction

variable {τ α : Type*} {P C : List α} {l : List Addr} {s : State τ α} {t : τ} {a : Addr}

/-! ### The accesses -/

/-- The node the next step of a thread accesses. -/
def Pc.deref? (tail : Addr) : Pc α → Option Addr
  | .fill _ n => some n
  | .link _ _ => some tail
  | .readNext cur => some cur
  | .copyData _ new => some new
  | .delete cur _ => some cur
  | _ => none

/-- **No access goes to a node that is not there.** -/
theorem Inv.deref (h : Inv P C l s) (ha : (s.pc t).deref? s.tail = some a) : s.heap a ≠ none := by
  have hnode := h.node t
  have hallocated : ∀ x ∈ s.head :: l, s.heap x ≠ none :=
    fun x hx => succ_ne_none (h.chain.succ_ne_none hx)
  cases hpc : s.pc t with
  | fill v n =>
    rw [hpc] at ha hnode
    obtain rfl : n = a := Option.some_inj.mp ha
    exact succ_ne_none (by rw [show succ s.heap n = some none from hnode]; simp)
  | link v n =>
    have htail := h.tailSide t
    rw [hpc] at ha htail
    obtain rfl : s.tail = a := Option.some_inj.mp ha
    exact hallocated _ ((show s.tail = _ from htail) ▸ Inv.last_mem s l)
  | readNext cur =>
    have hhead := h.headSide t
    rw [hpc] at ha hhead
    obtain rfl : cur = a := Option.some_inj.mp ha
    exact hallocated _ ((show cur = _ from hhead) ▸ List.mem_cons_self)
  | copyData cur new =>
    have hhead := h.headSide t
    rw [hpc] at ha hhead
    obtain rfl : new = a := Option.some_inj.mp ha
    exact hallocated _ (List.mem_cons_of_mem _ (List.mem_of_mem_head? hhead.2))
  | delete cur v =>
    rw [hpc] at ha hnode
    obtain rfl : cur = a := Option.some_inj.mp ha
    exact hnode
  | _ =>
    rw [hpc] at ha
    cases ha

/-! ### Where a node is -/

/-- The node at `a` is on the chain, and no thread's. -/
def OnChain (l : List Addr) (s : State τ α) (a : Addr) : Prop :=
  a ∈ s.head :: l ∧ ∀ t, (s.pc t).privateNode? ≠ some a ∧ (s.pc t).detachedNode? ≠ some a

/-- The node at `a` is private to exactly one `enqueue`, which has not linked it. -/
def Private (l : List Addr) (s : State τ α) (a : Addr) : Prop :=
  a ∉ s.head :: l ∧ (∃! t, (s.pc t).privateNode? = some a) ∧
    ∀ t, (s.pc t).detachedNode? ≠ some a

/-- The node at `a` is a dummy detached by exactly one `dequeue`, which is about to
delete it. -/
def Detached (l : List Addr) (s : State τ α) (a : Addr) : Prop :=
  a ∉ s.head :: l ∧ (∃! t, (s.pc t).detachedNode? = some a) ∧
    ∀ t, (s.pc t).privateNode? ≠ some a

theorem Pc.node?_of_private {p : Pc α} (h : p.privateNode? = some a) : p.node? = some a := by
  rw [Pc.node?, h]
  rfl

theorem Pc.node?_of_detached {p : Pc α} (h : p.detachedNode? = some a) : p.node? = some a := by
  cases p <;> first | exact h | cases h

/-- The two kinds of nodes of a thread. -/
theorem Pc.private_or_detached {p : Pc α} (h : p.node? = some a) :
    p.privateNode? = some a ∧ p.detachedNode? = none ∨
      p.detachedNode? = some a ∧ p.privateNode? = none := by
  cases p with
  | fill | lockTail | link => exact .inl ⟨h, rfl⟩
  | unlockHead | delete => exact .inr ⟨h, rfl⟩
  | _ => cases h

/-- **Every node is in one of the three places.** -/
theorem Inv.place (h : Inv P C l s) (hleak : NoLeak l s) (ha : s.heap a ≠ none) :
    OnChain l s a ∨ Private l s a ∨ Detached l s a := by
  rcases hleak a ha with hmem | ⟨t, ht⟩
  · refine .inl ⟨hmem, fun t => ⟨fun hc => ?_, fun hc => ?_⟩⟩
    · exact h.node_ne hmem t (Pc.node?_of_private hc)
    · exact h.node_ne hmem t (Pc.node?_of_detached hc)
  · have hother : ∀ u, (s.pc u).node? = some a → u = t := fun u hu => h.distinct u t a hu ht
    rcases Pc.private_or_detached ht with ⟨hp, hd⟩ | ⟨hd, hp⟩
    · refine .inr (.inl ⟨h.apart t a ht, ⟨t, hp, fun u hu => ?_⟩, fun u hu => ?_⟩)
      · exact hother u (Pc.node?_of_private hu)
      · rw [hother u (Pc.node?_of_detached hu), hd] at hu
        cases hu
    · refine .inr (.inr ⟨h.apart t a ht, ⟨t, hd, fun u hu => ?_⟩, fun u hu => ?_⟩)
      · exact hother u (Pc.node?_of_detached hu)
      · rw [hother u (Pc.node?_of_private hu), hp] at hu
        cases hu

/-! ### The main result -/

/-- **The memory of the queue with two locks is safe**, for any number of threads and
in every state reached: the node a thread accesses next is there; a node about to be
deleted is there, and was detached by that thread alone; while `tail_mutex` is free,
`tail` is the last node of the chain that starts at `head`; and every node there is is
on that chain, or private to exactly one `enqueue`, or a dummy that exactly one
`dequeue` is about to delete. -/
theorem memory_safe [DecidableEq τ] {tr : List (QueueAction τ α)} (h : (system τ α).Run tr s) :
    (∀ t a, (s.pc t).deref? s.tail = some a → s.heap a ≠ none) ∧
    (∀ t cur v, s.pc t = .delete cur v → s.heap cur ≠ none ∧
      ∀ u, (s.pc u).node? = some cur → u = t) ∧
    ∃ l, Chain (succ s.heap) s.head l ∧ (s.tailMutex = none → s.tail = l.getLastD s.head) ∧
      ∀ a, s.heap a ≠ none → OnChain l s a ∨ Private l s a ∨ Detached l s a := by
  obtain ⟨l, hinv, hleak⟩ := inv_of_run h
  refine ⟨fun t a ha => hinv.deref ha, fun t cur v hpc => ⟨hinv.deref (t := t) ?_, fun u hu => ?_⟩,
    l, hinv.chain, hinv.tail_of_free, fun a ha => hinv.place hleak ha⟩
  · rw [hpc]
    rfl
  · exact hinv.distinct u t cur hu (by rw [hpc]; rfl)

/-- The queue as the constructor leaves it, with the dummy at the address `0`. -/
def constructed : State Bool ℕ :=
  ⟨Function.update (fun _ => none) 0 (some ⟨0, none⟩), 0, 0, none, none, fun _ => .idle⟩

theorem init_constructed : (system Bool ℕ).Init constructed :=
  ⟨⟨0, rfl⟩, rfl, rfl, rfl, fun _ => rfl⟩

/-- An `enqueue` has linked its node and not moved `tail` yet, while a `dequeue` has
taken the value and deleted the node `tail` points to. -/
theorem run_dangling :
    ∃ tr s, (system Bool ℕ).Run tr s ∧ s.heap s.tail = none ∧ popped tr = [7] := by
  have h0 : (system Bool ℕ).Run [] constructed := .start init_constructed
  have h1 := h0.snoc (.call true (.enqueue 7) rfl)
  have h2 := h1.snoc (.thread 1 0 true rfl)
  have h3 := h2.snoc (.thread 0 0 true rfl)
  have h4 := h3.snoc (.thread 0 0 true rfl)
  have h5 := h4.snoc (.thread 0 0 true rfl)
  have h6 := h5.snoc (.call false .dequeue rfl)
  have h7 := h6.snoc (.thread 0 0 false rfl)
  have h8 := h7.snoc (.thread 0 0 false rfl)
  have h9 := h8.snoc (.thread 0 0 false rfl)
  have h10 := h9.snoc (.thread 0 0 false rfl)
  have h11 := h10.snoc (.thread 0 0 false rfl)
  have h12 := h11.snoc (.thread 0 0 false rfl)
  have h13 := h12.snoc (.thread 0 0 false rfl)
  exact ⟨_, _, h13, rfl, rfl⟩

/-- **`tail` may dangle**, and even then the next accesses go to nodes that are
there. -/
theorem tail_may_dangle :
    ∃ s : State Bool ℕ, (system Bool ℕ).Reachable s ∧ s.heap s.tail = none ∧
      ∀ t a, (s.pc t).deref? s.tail = some a → s.heap a ≠ none := by
  obtain ⟨tr, s, h, hnone, -⟩ := run_dangling
  exact ⟨s, ⟨tr, h⟩, hnone, (memory_safe h).1⟩

end FineGrained

end Mpmc

end LowLatency
