import LowLatency.Mpmc.FineGrained

/-!
# What holds of the queue with two locks

The invariant of the class `QueueMPMC` with two locks, for any number of threads
(`LowLatency.Mpmc.FineGrained.Inv`). The nodes reached from `head` form a chain; the
first is the dummy, the others hold the values enqueued and not dequeued. Apart from
the chain there are nodes of which one thread has the only pointer: those an
`enqueue` has not linked yet, and the old dummies a `dequeue` is about to delete.

The two ends meet in one place only. A `dequeue` never looks at `tail`, so between
the linking of a node and the update of `tail`, the node `tail` still points to may be
dequeued and deleted. It does no harm: the thread that has the tail lock is going to
overwrite `tail` and not to follow it, and the node it is going to write there is
the last of the chain, which is never deleted.
-/

namespace LowLatency

namespace Mpmc

namespace FineGrained

open QueueAction

variable {τ α : Type*}

/-! ### Which locks a thread holds, and which node is its own -/

/-- The section of `dequeue` between locking `head_mutex` and unlocking it. -/
def Pc.HoldsHead : Pc α → Prop
  | .readHead => True
  | .readNext _ => True
  | .unlockEmpty => True
  | .copyData _ _ => True
  | .setHead _ _ _ => True
  | .unlockHead _ _ => True
  | _ => False

/-- The section of `enqueue` between locking `tail_mutex` and unlocking it. -/
def Pc.HoldsTail : Pc α → Prop
  | .link _ _ => True
  | .setTail _ => True
  | .unlockTail => True
  | _ => False

/-- The node an `enqueue` has allocated and not linked yet. -/
def Pc.privateNode? : Pc α → Option Addr
  | .fill _ n => some n
  | .lockTail _ n => some n
  | .link _ n => some n
  | _ => none

/-- The old dummy a `dequeue` has detached and not deleted yet. -/
def Pc.detachedNode? : Pc α → Option Addr
  | .unlockHead cur _ => some cur
  | .delete cur _ => some cur
  | _ => none

/-- The node a thread has the only pointer to. -/
def Pc.node? (p : Pc α) : Option Addr := p.privateNode?.or p.detachedNode?

/-! ### The invariant -/

/-- The link of a node. -/
def succ (heap : Addr → Option (Node α)) (a : Addr) : Option (Option Addr) :=
  (heap a).map Node.next

/-- The data of a node. -/
def data? (heap : Addr → Option (Node α)) (a : Addr) : Option α :=
  (heap a).map Node.data

/-- What is in the node a thread has the only pointer to. -/
def NodeInv (heap : Addr → Option (Node α)) : Pc α → Prop
  | .fill _ n => succ heap n = some none
  | .lockTail v n => heap n = some ⟨v, none⟩
  | .link v n => heap n = some ⟨v, none⟩
  | .unlockHead cur _ => heap cur ≠ none
  | .delete cur _ => heap cur ≠ none
  | _ => True

/-- What the holder of the tail lock knows of `tail` and of the last node. -/
def TailInv (tail last : Addr) : Pc α → Prop
  | .link _ _ => tail = last
  | .setTail n => n = last
  | .unlockTail => tail = last
  | _ => True

/-- What the holder of the head lock knows of `head` and of the nodes behind it. -/
def HeadInv (heap : Addr → Option (Node α)) (head : Addr) (l : List Addr) : Pc α → Prop
  | .readNext cur => cur = head
  | .copyData cur new => cur = head ∧ l.head? = some new
  | .setHead cur new v => cur = head ∧ l.head? = some new ∧ data? heap new = some v
  | _ => True

/-- **The invariant**, when the values `P` have been linked, the values `C` have been
taken, and `l` are the nodes behind the dummy. -/
structure Inv (P C : List α) (l : List Addr) (s : State τ α) : Prop where
  chain : Chain (succ s.heap) s.head l
  nodup : (s.head :: l).Nodup
  /-- The chain holds the values enqueued and not dequeued, in order. -/
  values : C.map some ++ l.map (data? s.heap) = P.map some
  headMutex : Mutex.Guards s.headMutex Pc.HoldsHead s.pc
  tailMutex : Mutex.Guards s.tailMutex Pc.HoldsTail s.pc
  tail_of_free : s.tailMutex = none → s.tail = l.getLastD s.head
  /-- A node of a thread is not on the chain. -/
  apart : ∀ t a, (s.pc t).node? = some a → a ∉ s.head :: l
  /-- A node of a thread is not that of another. -/
  distinct : ∀ t u a, (s.pc t).node? = some a → (s.pc u).node? = some a → t = u
  node : ∀ t, NodeInv s.heap (s.pc t)
  tailSide : ∀ t, TailInv s.tail (l.getLastD s.head) (s.pc t)
  headSide : ∀ t, HeadInv s.heap s.head l (s.pc t)

/-- **No node is lost**: one that is not on the chain belongs to a thread. -/
def NoLeak (l : List Addr) (s : State τ α) : Prop :=
  ∀ a, s.heap a ≠ none → a ∈ s.head :: l ∨ ∃ t, (s.pc t).node? = some a

variable {P C : List α} {l : List Addr} {s s' : State τ α} {t : τ} {p : Pc α}
  {heap heap' : Addr → Option (Node α)} {a : Addr}

/-! ### What the other threads cannot spoil -/

theorem succ_ne_none (h : succ heap a ≠ none) : heap a ≠ none :=
  fun hc => h (by rw [succ, hc, Option.map_none])

theorem NodeInv.congr (h : NodeInv heap p) (heq : ∀ a, p.node? = some a → heap' a = heap a) :
    NodeInv heap' p := by
  cases p with
  | fill v n =>
    show (heap' n).map Node.next = some none
    rw [heq n rfl]
    exact h
  | lockTail v n => exact (heq n rfl).trans h
  | link v n => exact (heq n rfl).trans h
  | unlockHead cur v => exact fun hc => h ((heq cur rfl).symm.trans hc)
  | delete cur v => exact fun hc => h ((heq cur rfl).symm.trans hc)
  | _ => trivial

theorem TailInv.of_not_holds {tail last : Addr} (h : ¬p.HoldsTail) : TailInv tail last p := by
  cases p with
  | link | setTail | unlockTail => exact absurd trivial h
  | _ => trivial

theorem HeadInv.of_not_holds {head : Addr} (h : ¬p.HoldsHead) : HeadInv heap head l p := by
  cases p with
  | readNext | copyData | setHead => exact absurd trivial h
  | _ => trivial

theorem HeadInv.congr {head : Addr} {l' : List Addr} (h : HeadInv heap head l p)
    (hl : ∀ a, l.head? = some a → l'.head? = some a)
    (heq : ∀ a ∈ l, data? heap' a = data? heap a) : HeadInv heap' head l' p := by
  cases p with
  | copyData cur new => exact ⟨h.1, hl _ h.2⟩
  | setHead cur new v =>
    obtain ⟨hcur, hnew, hv⟩ := h
    exact ⟨hcur, hl _ hnew, (heq new (List.mem_of_mem_head? hnew)).trans hv⟩
  | readNext => exact h
  | _ => trivial

/-- A node on the chain belongs to no thread. -/
theorem Inv.node_ne (h : Inv P C l s) (ha : a ∈ s.head :: l) (t : τ) :
    (s.pc t).node? ≠ some a :=
  fun hc => h.apart t a hc ha

/-- An address without a node belongs to no thread. -/
theorem Inv.node_ne_of_none (h : Inv P C l s) (ha : s.heap a = none) (t : τ) :
    (s.pc t).node? ≠ some a := by
  intro hc
  have hnode := h.node t
  cases hpc : s.pc t with
  | fill v n =>
    rw [hpc] at hc hnode
    obtain rfl : n = a := Option.some_inj.mp hc
    simp [NodeInv, succ, ha] at hnode
  | lockTail v n | link v n =>
    rw [hpc] at hc hnode
    obtain rfl : n = a := Option.some_inj.mp hc
    simp [NodeInv, ha] at hnode
  | unlockHead cur v | delete cur v =>
    rw [hpc] at hc hnode
    obtain rfl : cur = a := Option.some_inj.mp hc
    exact hnode ha
  | _ =>
    rw [hpc] at hc
    cases hc

/-- The last node is on the chain. -/
theorem Inv.last_mem (s : State τ α) (l : List Addr) : l.getLastD s.head ∈ s.head :: l :=
  List.getLastD_mem_cons

/-- Nothing is linked or taken. -/
theorem Inv.quiet (h : Inv P C l s) : Inv (P ++ []) (C ++ []) l s := by
  rwa [List.append_nil, List.append_nil]

/-- A thread that keeps its node shares it with no other. -/
theorem Inv.not_other (h : Inv P C l s) (hnode : (s.pc t).node? = some a) (u : τ) (hu : u ≠ t) :
    (s.pc u).node? ≠ some a :=
  fun hc => hu (h.distinct u t a hc hnode)

/-! ### Steps that leave the nodes alone -/

section Step

variable [DecidableEq τ]

theorem distinct_update {pc : τ → Pc α}
    (h : ∀ t u a, (pc t).node? = some a → (pc u).node? = some a → t = u)
    (hp : ∀ a, p.node? = some a → ∀ u, u ≠ t → (pc u).node? ≠ some a) (u u' : τ) (a : Addr)
    (hu : (Function.update pc t p u).node? = some a)
    (hu' : (Function.update pc t p u').node? = some a) : u = u' := by
  by_cases hut : u = t
  · by_cases hut' : u' = t
    · rw [hut, hut']
    · rw [hut, Function.update_self] at hu
      rw [Function.update_of_ne hut'] at hu'
      exact absurd hu' (hp a hu u' hut')
  · rw [Function.update_of_ne hut] at hu
    by_cases hut' : u' = t
    · rw [hut', Function.update_self] at hu'
      exact absurd hu (hp a hu' u hut)
    · rw [Function.update_of_ne hut'] at hu'
      exact h u u' a hu hu'

/-- **A thread moves on**, locking or unlocking a mutex, and no node is touched. -/
theorem Inv.goto (h : Inv P C l s) {hm tm : Option τ}
    (hhm : Mutex.Guards hm Pc.HoldsHead (Function.update s.pc t p))
    (htm : Mutex.Guards tm Pc.HoldsTail (Function.update s.pc t p))
    (hfree : tm = none → s.tail = l.getLastD s.head)
    (hnode : ∀ a, p.node? = some a → (s.pc t).node? = some a) (hin : NodeInv s.heap p)
    (htail : TailInv s.tail (l.getLastD s.head) p) (hhead : HeadInv s.heap s.head l p) :
    Inv P C l { s with headMutex := hm, tailMutex := tm, pc := Function.update s.pc t p } where
  chain := h.chain
  nodup := h.nodup
  values := h.values
  headMutex := hhm
  tailMutex := htm
  tail_of_free := hfree
  apart := (Function.forall_update_iff s.pc fun _ p => ∀ a, p.node? = some a → a ∉ s.head :: l).mpr
    ⟨fun a ha => h.apart t a (hnode a ha), fun u _ => h.apart u⟩
  distinct := distinct_update h.distinct fun a ha => h.not_other (hnode a ha)
  node := (Function.forall_update_iff s.pc fun _ p => NodeInv s.heap p).mpr
    ⟨hin, fun u _ => h.node u⟩
  tailSide := (Function.forall_update_iff s.pc fun _ p => TailInv s.tail _ p).mpr
    ⟨htail, fun u _ => h.tailSide u⟩
  headSide := (Function.forall_update_iff s.pc fun _ p => HeadInv s.heap _ _ p).mpr
    ⟨hhead, fun u _ => h.headSide u⟩

/-- **A thread writes a node that is not on the chain**, and not that of another
thread: a new one, its own one, or none any more. -/
theorem Inv.write (h : Inv P C l s) {x : Addr} {c : Option (Node α)} (hx : x ∉ s.head :: l)
    (hother : ∀ u, u ≠ t → (s.pc u).node? ≠ some x)
    (hpc : ¬(s.pc t).HoldsHead ∧ ¬(s.pc t).HoldsTail) (hp : ¬p.HoldsHead ∧ ¬p.HoldsTail)
    (hnode : ∀ a, p.node? = some a → a = x) (hin : NodeInv (Function.update s.heap x c) p) :
    Inv P C l
      { s with heap := Function.update s.heap x c, pc := Function.update s.pc t p } := by
  have hne : ∀ a ∈ s.head :: l, a ≠ x := by
    rintro a ha rfl
    exact hx ha
  have hchain : ∀ a ∈ s.head :: l, Function.update s.heap x c a = s.heap a :=
    fun a ha => Function.update_of_ne (hne a ha) _ _
  have hdata : ∀ a ∈ l, data? (Function.update s.heap x c) a = data? s.heap a :=
    fun a ha => congrArg (Option.map Node.data) (hchain a (List.mem_cons_of_mem _ ha))
  refine
    { chain := h.chain.congr fun a ha => congrArg (Option.map Node.next) (hchain a ha)
      nodup := h.nodup
      values := ?_
      headMutex := h.headMutex.keep (iff_of_false hp.1 hpc.1)
      tailMutex := h.tailMutex.keep (iff_of_false hp.2 hpc.2)
      tail_of_free := h.tail_of_free
      apart := ?_
      distinct := distinct_update h.distinct fun a ha => hnode a ha ▸ hother
      node := ?_
      tailSide := ?_
      headSide := ?_ }
  · rw [List.map_congr_left hdata]
    exact h.values
  · exact (Function.forall_update_iff s.pc
      fun _ p => ∀ a, p.node? = some a → a ∉ s.head :: l).mpr
      ⟨fun a ha => hnode a ha ▸ hx, fun u _ => h.apart u⟩
  · refine (Function.forall_update_iff s.pc fun _ p => NodeInv _ p).mpr ⟨hin, fun u hu => ?_⟩
    refine (h.node u).congr fun a ha => Function.update_of_ne ?_ _ _
    rintro rfl
    exact hother u hu ha
  · exact (Function.forall_update_iff s.pc fun _ p => TailInv s.tail _ p).mpr
      ⟨TailInv.of_not_holds hp.2, fun u _ => h.tailSide u⟩
  · exact (Function.forall_update_iff s.pc fun _ p => HeadInv _ s.head l p).mpr
      ⟨HeadInv.of_not_holds hp.1, fun u _ => (h.headSide u).congr (fun _ => id) hdata⟩

/-! ### Steps that move the ends of the chain -/

/-- **Linking a node** appends it to the chain, and its value to the values
enqueued. -/
theorem Inv.link (h : Inv P C l s) {v : α} {n : Addr} {node : Node α}
    (hpc : s.pc t = .link v n) (hlast : s.heap s.tail = some node) :
    Inv (P ++ [v]) C (l ++ [n])
      { s with
        heap := Function.update s.heap s.tail (some { node with next := some n })
        pc := Function.update s.pc t (.setTail n) } := by
  have htail : s.tail = l.getLastD s.head := by
    have := h.tailSide t
    rwa [hpc] at this
  have hn : s.heap n = some ⟨v, none⟩ := by
    have := h.node t
    rwa [hpc] at this
  have hown : (s.pc t).node? = some n := by rw [hpc]; rfl
  have hnchain : n ∉ s.head :: l := h.apart t n hown
  have hmem : s.tail ∈ s.head :: l := htail ▸ Inv.last_mem s l
  have hne : n ≠ s.tail := by
    rintro rfl
    exact hnchain hmem
  set heap' := Function.update s.heap s.tail (some { node with next := some n }) with hheap'
  have hother : ∀ a, a ≠ s.tail → heap' a = s.heap a := fun a ha => Function.update_of_ne ha _ _
  -- no data is changed
  have hdata : ∀ a, data? heap' a = data? s.heap a := by
    intro a
    rcases eq_or_ne a s.tail with rfl | ha
    · rw [data?, data?, hheap', Function.update_self, hlast]
      rfl
    · rw [data?, data?, hother a ha]
  have hholds : (s.pc t).HoldsTail := by rw [hpc]; trivial
  have hchain : Chain (succ heap') s.head (l ++ [n]) := by
    refine h.chain.concat h.nodup ?_ ?_ fun a _ ha => ?_
    · rw [← htail, succ, hheap', Function.update_self]
      rfl
    · rw [succ, hother n hne, hn]
      rfl
    · rw [succ, succ, hother a (htail ▸ ha)]
  refine
    { chain := hchain
      nodup := ?_
      values := ?_
      headMutex := h.headMutex.keep (by rw [hpc]; exact Iff.rfl)
      tailMutex := h.tailMutex.keep (by rw [hpc]; exact Iff.rfl)
      tail_of_free := fun hc => by
        rw [h.tailMutex.held hholds] at hc
        cases hc
      apart := ?_
      distinct := distinct_update h.distinct fun a ha => by cases ha
      node := ?_
      tailSide := ?_
      headSide := ?_ }
  · -- the new node was the thread's own, so it is not on the chain yet
    rw [← List.cons_append]
    refine h.nodup.append (List.nodup_singleton n) ?_
    rw [List.disjoint_singleton]
    exact hnchain
  · rw [List.map_congr_left fun a _ => hdata a, List.map_append, ← List.append_assoc, h.values,
      List.map_append, List.map_singleton, List.map_singleton, data?, hn]
    rfl
  · refine (Function.forall_update_iff s.pc
      fun _ p => ∀ a, p.node? = some a → a ∉ s.head :: (l ++ [n])).mpr
      ⟨fun a ha => (by cases ha), fun u hu a ha hc => ?_⟩
    rw [← List.cons_append, List.mem_append, List.mem_singleton] at hc
    rcases hc with hc | rfl
    · exact h.apart u a ha hc
    · exact h.not_other hown u hu ha
  · refine (Function.forall_update_iff s.pc fun _ p => NodeInv heap' p).mpr
      ⟨trivial, fun u _ => (h.node u).congr fun a ha => hother a ?_⟩
    rintro rfl
    exact h.node_ne hmem u ha
  · refine (Function.forall_update_iff s.pc fun _ p => TailInv s.tail _ p).mpr
      ⟨?_, fun u hu => TailInv.of_not_holds (h.tailMutex.not_inside hholds hu)⟩
    show n = (l ++ [n]).getLastD s.head
    simp
  · refine (Function.forall_update_iff s.pc fun _ p => HeadInv heap' s.head (l ++ [n]) p).mpr
      ⟨trivial, fun u _ => (h.headSide u).congr (fun a ha => ?_) fun a _ => hdata a⟩
    rw [List.head?_append, ha]
    rfl

/-- **Moving `tail`** to the node just linked, whatever `tail` points to. -/
theorem Inv.setTail (h : Inv P C l s) {n : Addr} (hpc : s.pc t = .setTail n) :
    Inv P C l { s with tail := n, pc := Function.update s.pc t .unlockTail } := by
  have hlast : n = l.getLastD s.head := by
    have := h.tailSide t
    rwa [hpc] at this
  have hholds : (s.pc t).HoldsTail := by rw [hpc]; trivial
  refine
    { chain := h.chain
      nodup := h.nodup
      values := h.values
      headMutex := h.headMutex.keep (by rw [hpc]; exact Iff.rfl)
      tailMutex := h.tailMutex.keep (by rw [hpc]; exact Iff.rfl)
      tail_of_free := fun _ => hlast
      apart := ?_
      distinct := distinct_update h.distinct fun a ha => by cases ha
      node := ?_
      tailSide := ?_
      headSide := ?_ }
  · exact (Function.forall_update_iff s.pc
      fun _ p => ∀ a, p.node? = some a → a ∉ s.head :: l).mpr
      ⟨fun a ha => (by cases ha), fun u _ => h.apart u⟩
  · exact (Function.forall_update_iff s.pc fun _ p => NodeInv s.heap p).mpr
      ⟨trivial, fun u _ => h.node u⟩
  · exact (Function.forall_update_iff s.pc fun _ p => TailInv n _ p).mpr
      ⟨hlast, fun u hu => TailInv.of_not_holds (h.tailMutex.not_inside hholds hu)⟩
  · exact (Function.forall_update_iff s.pc fun _ p => HeadInv s.heap _ _ p).mpr
      ⟨trivial, fun u _ => h.headSide u⟩

/-- **Moving `head`** takes the first value out of the chain, whose node is the new
dummy, and leaves the old one to the thread. -/
theorem Inv.setHead (h : Inv P C l s) {cur new : Addr} {v : α}
    (hpc : s.pc t = .setHead cur new v) :
    ∃ l', l = new :: l' ∧ cur = s.head ∧ Inv P (C ++ [v]) l'
      { s with head := new, pc := Function.update s.pc t (.unlockHead cur v) } := by
  obtain ⟨rfl, hnew, hv⟩ : cur = s.head ∧ l.head? = some new ∧ data? s.heap new = some v := by
    have := h.headSide t
    rwa [hpc] at this
  -- nobody else has moved `head` since the thread read the next node
  obtain ⟨l', rfl⟩ : ∃ l', l = new :: l' := by
    cases l with
    | nil => cases hnew
    | cons b l' => exact ⟨l', by rw [Option.some_inj.mp hnew]⟩
  have hholds : (s.pc t).HoldsHead := by rw [hpc]; trivial
  obtain ⟨hhead, hnodup⟩ := List.nodup_cons.mp h.nodup
  have hlast : (new :: l').getLastD s.head = l'.getLastD new := List.getLastD_cons ..
  refine ⟨l', rfl, rfl,
    { chain := h.chain.rest
      nodup := hnodup
      values := ?_
      headMutex := h.headMutex.keep (by rw [hpc]; exact Iff.rfl)
      tailMutex := h.tailMutex.keep (by rw [hpc]; exact Iff.rfl)
      tail_of_free := fun hfree => (h.tail_of_free hfree).trans hlast
      apart := ?_
      distinct := distinct_update h.distinct fun a ha u _ => ?_
      node := ?_
      tailSide := ?_
      headSide := ?_ }⟩
  · rw [← h.values, List.map_append, List.map_singleton, List.map_cons, ← hv]
    simp
  · refine (Function.forall_update_iff s.pc
      fun _ p => ∀ a, p.node? = some a → a ∉ new :: l').mpr
      ⟨fun a ha => ?_, fun u _ a ha hc => h.apart u a ha (List.mem_cons_of_mem _ hc)⟩
    rw [← Option.some_inj.mp ha]
    exact hhead
  · rw [← Option.some_inj.mp ha]
    exact h.node_ne List.mem_cons_self u
  · exact (Function.forall_update_iff s.pc fun _ p => NodeInv s.heap p).mpr
      ⟨succ_ne_none (h.chain.succ_ne_none List.mem_cons_self), fun u _ => h.node u⟩
  · rw [← hlast]
    exact (Function.forall_update_iff s.pc fun _ p => TailInv s.tail _ p).mpr
      ⟨trivial, fun u _ => h.tailSide u⟩
  · exact (Function.forall_update_iff s.pc fun _ p => HeadInv s.heap new l' p).mpr
      ⟨trivial, fun u hu => HeadInv.of_not_holds (h.headMutex.not_inside hholds hu)⟩

/-! ### No node is lost -/

/-- The step of a thread loses no node, if those that were new, on the chain, or its
own still are one of these. -/
theorem NoLeak.step {l' : List Addr} (h : NoLeak l s) (hpc : ∀ u, u ≠ t → s'.pc u = s.pc u)
    (hnew : ∀ a, s'.heap a ≠ none → s.heap a ≠ none ∨ (s'.pc t).node? = some a)
    (hchain : ∀ a ∈ s.head :: l, a ∈ s'.head :: l' ∨ (s'.pc t).node? = some a)
    (hown : ∀ a, (s.pc t).node? = some a → s'.heap a ≠ none →
      a ∈ s'.head :: l' ∨ (s'.pc t).node? = some a) :
    NoLeak l' s' := by
  intro a ha
  rcases hnew a ha with hold | hmine
  · rcases h a hold with hmem | ⟨u, hu⟩
    · exact (hchain a hmem).imp_right fun hmine => ⟨t, hmine⟩
    · by_cases hut : u = t
      · exact (hown a (hut ▸ hu) ha).imp_right fun hmine => ⟨t, hmine⟩
      · exact .inr ⟨u, by rw [hpc u hut]; exact hu⟩
  · exact .inr ⟨t, hmine⟩

/-- Nor does a thread that moves on with the node it has. -/
theorem NoLeak.keep (h : NoLeak l s) (hheap : s'.heap = s.heap) (hhead : s'.head = s.head)
    (hpc : s'.pc = Function.update s.pc t p) (hnode : p.node? = (s.pc t).node?) :
    NoLeak l s' := by
  have ht : s'.pc t = p := by rw [hpc, Function.update_self]
  refine h.step (t := t) (fun u hu => ?_) (fun a ha => ?_) (fun a ha => ?_) fun a ha _ => ?_
  · rw [hpc, Function.update_of_ne hu]
  · exact .inl (hheap ▸ ha)
  · exact .inl (hhead ▸ ha)
  · exact .inr (by rw [ht, hnode]; exact ha)

/-! ### Every step keeps the invariant -/

/-- The step of a thread that moves on and touches no node. -/
theorem Inv.move (h : Inv P C l s) {hm tm : Option τ} (p : Pc α)
    (hhm : Mutex.Guards hm Pc.HoldsHead (Function.update s.pc t p))
    (htm : Mutex.Guards tm Pc.HoldsTail (Function.update s.pc t p))
    (hfree : tm = none → s.tail = l.getLastD s.head) (hnode : p.node? = (s.pc t).node?)
    (hin : NodeInv s.heap p) (htail : TailInv s.tail (l.getLastD s.head) p)
    (hhead : HeadInv s.heap s.head l p) :
    ∃ l', Inv (P ++ []) (C ++ []) l'
        { s with headMutex := hm, tailMutex := tm, pc := Function.update s.pc t p } ∧
      (NoLeak l s → NoLeak l'
        { s with headMutex := hm, tailMutex := tm, pc := Function.update s.pc t p }) :=
  ⟨l, (h.goto hhm htm hfree (fun _ ha => hnode ▸ ha) hin htail hhead).quiet,
    fun hl => hl.keep rfl rfl rfl hnode⟩

/-- The step of a thread that writes its node: a new one, the one it has, or none any
more. -/
theorem Inv.writeNode (h : Inv P C l s) {x : Addr} {c : Option (Node α)} (p : Pc α)
    (hx : x ∉ s.head :: l) (hother : ∀ u, u ≠ t → (s.pc u).node? ≠ some x)
    (hpc : ¬(s.pc t).HoldsHead ∧ ¬(s.pc t).HoldsTail) (hp : ¬p.HoldsHead ∧ ¬p.HoldsTail)
    (hold : ∀ a, (s.pc t).node? = some a → a = x) (hnew : p.node? = c.map fun _ => x)
    (hin : NodeInv (Function.update s.heap x c) p) :
    ∃ l', Inv (P ++ []) (C ++ []) l'
        { s with heap := Function.update s.heap x c, pc := Function.update s.pc t p } ∧
      (NoLeak l s → NoLeak l'
        { s with heap := Function.update s.heap x c, pc := Function.update s.pc t p }) := by
  have hmine : ∀ a, p.node? = some a → a = x := by
    intro a ha
    rw [hnew] at ha
    obtain ⟨_, -, rfl⟩ := Option.map_eq_some_iff.mp ha
    rfl
  -- where there is a node at `x`, it is the thread's
  have hwritten : ∀ a, a = x → Function.update s.heap x c a ≠ none →
      (Function.update s.pc t p t).node? = some a := by
    rintro a rfl ha
    rw [Function.update_self] at ha ⊢
    obtain ⟨node, rfl⟩ := Option.ne_none_iff_exists'.mp ha
    exact hnew
  refine ⟨l, (h.write hx hother hpc hp hmine hin).quiet, fun hl => ?_⟩
  refine hl.step (t := t) (fun u hu => Function.update_of_ne hu _ _) (fun a ha => ?_)
    (fun a ha => .inl ha) fun a ha hne => .inr (hwritten a (hold a ha) hne)
  by_cases hax : a = x
  · exact .inr (hwritten a hax ha)
  · have hsame : Function.update s.heap x c a = s.heap a := Function.update_of_ne hax _ _
    exact .inl (hsame ▸ ha)

/-- **The step of a thread keeps the invariant and loses no node.** -/
theorem Inv.threadStep (h : Inv P C l s) {fresh : Addr} {junk : α} {a : QueueAction τ α}
    (hs : threadStep fresh junk t s = some (a, s')) :
    ∃ l', Inv (P ++ a.published?.toList) (C ++ a.popped?.toList) l' s' ∧
      (NoLeak l s → NoLeak l' s') := by
  have hnode := h.node t
  have htail := h.tailSide t
  have hhead := h.headSide t
  have hH := fun (p : Pc α) (hp : p.HoldsHead ↔ (s.pc t).HoldsHead) => h.headMutex.keep hp
  have hT := fun (p : Pc α) (hp : p.HoldsTail ↔ (s.pc t).HoldsTail) => h.tailMutex.keep hp
  cases threadStep_cases hs with
  | newNode v n junk hpc hn =>
    -- an address without a node is on no chain and belongs to no thread
    refine h.writeNode (.fill v n) (fun hc => h.chain.succ_ne_none hc (by rw [succ, hn]; rfl))
      (fun u _ => h.node_ne_of_none hn u) (by rw [hpc]; exact ⟨id, id⟩) ⟨id, id⟩
      (by rw [hpc]; intro a ha; cases ha) rfl ?_
    rw [NodeInv, succ, Function.update_self]
    rfl
  | fill v n node hpc hn =>
    have hown : (s.pc t).node? = some n := by rw [hpc]; rfl
    refine h.writeNode (.lockTail v n) (h.apart t n hown) (h.not_other hown)
      (by rw [hpc]; exact ⟨id, id⟩) ⟨id, id⟩
      (fun a ha => Option.some_inj.mp (ha.symm.trans hown)) rfl ?_
    rw [hpc, NodeInv, succ, hn] at hnode
    rw [NodeInv, Function.update_self, ← Option.some_inj.mp hnode]
  | lockTail v n hpc hfree =>
    have hguards := h.tailMutex
    rw [hfree] at hguards
    rw [hpc] at hnode
    exact h.move (.link v n) (hH _ (by rw [hpc]; exact Iff.rfl)) (hguards.lock trivial)
      (fun hc => by cases hc) (by rw [hpc]; rfl) hnode (h.tail_of_free hfree) trivial
  | link v n node hpc hlast =>
    have hlinked := h.link hpc hlast
    rw [← List.append_nil C] at hlinked
    refine ⟨l ++ [n], hlinked, fun hl => hl.step (t := t)
      (fun u hu => Function.update_of_ne hu _ _) (fun a ha => ?_) (fun a ha => ?_)
      fun a ha _ => ?_⟩
    · refine .inl fun hc => ?_
      by_cases hat : a = s.tail
      · rw [hat, hlast] at hc
        cases hc
      · exact ha ((Function.update_of_ne hat _ _).trans hc)
    · exact .inl (List.mem_append_left [n] ha)
    · rw [hpc] at ha
      rw [← Option.some_inj.mp ha]
      exact .inl (List.mem_append_right (s.head :: l) (List.mem_singleton_self n))
  | setTail n hpc =>
    refine ⟨l, (h.setTail hpc).quiet, fun hl => hl.keep rfl rfl rfl (by rw [hpc]; rfl)⟩
  | unlockTail hpc =>
    -- `tail` points to the last node again, as it must when the lock is free
    rw [hpc] at htail
    exact h.move (.returning .push) (hH _ (by rw [hpc]; exact Iff.rfl))
      (h.tailMutex.unlock (by rw [hpc]; trivial) id) (fun _ => htail) (by rw [hpc]; rfl)
      trivial trivial trivial
  | lockHead hpc hfree =>
    have hguards := h.headMutex
    rw [hfree] at hguards
    exact h.move .readHead (hguards.lock trivial) (hT _ (by rw [hpc]; exact Iff.rfl))
      h.tail_of_free (by rw [hpc]; rfl) trivial trivial trivial
  | readHead hpc =>
    exact h.move (.readNext s.head) (hH _ (by rw [hpc]; exact Iff.rfl))
      (hT _ (by rw [hpc]; exact Iff.rfl)) h.tail_of_free (by rw [hpc]; rfl) trivial trivial rfl
  | readNull cur data hpc hcur =>
    exact h.move .unlockEmpty (hH _ (by rw [hpc]; exact Iff.rfl))
      (hT _ (by rw [hpc]; exact Iff.rfl)) h.tail_of_free (by rw [hpc]; rfl) trivial trivial
      trivial
  | readNext cur new data hpc hcur =>
    rw [hpc] at hhead
    have hnew : l.head? = some new := by
      have hfirst := h.chain.succ_first
      rw [← show cur = s.head from hhead, succ, hcur] at hfirst
      exact (Option.some_inj.mp hfirst).symm
    exact h.move (.copyData cur new) (hH _ (by rw [hpc]; exact Iff.rfl))
      (hT _ (by rw [hpc]; exact Iff.rfl)) h.tail_of_free (by rw [hpc]; rfl) trivial trivial
      ⟨hhead, hnew⟩
  | unlockEmpty hpc =>
    exact h.move (.returning (.tryPop none)) (h.headMutex.unlock (by rw [hpc]; trivial) id)
      (hT _ (by rw [hpc]; exact Iff.rfl)) h.tail_of_free (by rw [hpc]; rfl) trivial trivial
      trivial
  | copyData cur new node hpc hn =>
    rw [hpc] at hhead
    exact h.move (.setHead cur new node.data) (hH _ (by rw [hpc]; exact Iff.rfl))
      (hT _ (by rw [hpc]; exact Iff.rfl)) h.tail_of_free (by rw [hpc]; rfl) trivial trivial
      ⟨hhead.1, hhead.2, by rw [data?, hn]; rfl⟩
  | setHead cur new v hpc =>
    obtain ⟨l', rfl, rfl, htaken⟩ := h.setHead hpc
    rw [← List.append_nil P] at htaken
    refine ⟨l', htaken, fun hl => hl.step (t := t)
      (fun u hu => Function.update_of_ne hu _ _) (fun a ha => .inl ha) (fun a ha => ?_)
      fun a ha => by rw [hpc] at ha; cases ha⟩
    -- the old dummy leaves the chain, and is the thread's to delete
    rcases List.mem_cons.mp ha with rfl | ha
    · exact .inr (congrArg Pc.node? (Function.update_self t _ s.pc))
    · exact .inl ha
  | unlockHead cur v hpc =>
    rw [hpc] at hnode
    exact h.move (.delete cur v) (h.headMutex.unlock (by rw [hpc]; trivial) id)
      (hT _ (by rw [hpc]; exact Iff.rfl)) h.tail_of_free (by rw [hpc]; rfl) hnode trivial
      trivial
  | delete cur v hpc =>
    have hown : (s.pc t).node? = some cur := by rw [hpc]; rfl
    exact h.writeNode (.returning (.tryPop (some v))) (h.apart t cur hown) (h.not_other hown)
      (by rw [hpc]; exact ⟨id, id⟩) ⟨id, id⟩
      (fun a ha => Option.some_inj.mp (ha.symm.trans hown)) rfl trivial
  | ret res hpc =>
    exact h.move .idle (hH _ (by rw [hpc]; exact Iff.rfl)) (hT _ (by rw [hpc]; exact Iff.rfl))
      h.tail_of_free (by rw [hpc]; rfl) trivial trivial trivial

/-- **Every step keeps the invariant and loses no node.** -/
theorem Inv.step (h : Inv P C l s) {a : QueueAction τ α} (hs : Step s a s') :
    ∃ l', Inv (P ++ a.published?.toList) (C ++ a.popped?.toList) l' s' ∧
      (NoLeak l s → NoLeak l' s') := by
  rcases hs with ⟨t, c, hidle⟩ | ⟨fresh, junk, t, hs⟩
  · exact h.move c.entry (h.headMutex.keep (by rw [hidle]; cases c <;> exact Iff.rfl))
      (h.tailMutex.keep (by rw [hidle]; cases c <;> exact Iff.rfl)) h.tail_of_free
      (by rw [hidle]; cases c <;> rfl) (by cases c <;> trivial) (by cases c <;> trivial)
      (by cases c <;> trivial)
  · exact h.threadStep hs

theorem inv_init (hs : (system τ α).Init s) : Inv [] [] [] s ∧ NoLeak [] s := by
  obtain ⟨⟨junk, hheap⟩, htail, hhm, htm, hpc⟩ := hs
  refine ⟨⟨?_, List.nodup_singleton _, rfl, ?_, ?_, fun _ => htail, ?_, ?_, ?_, ?_, ?_⟩, ?_⟩
  · rw [Chain, succ, hheap, Function.update_self]
    rfl
  · rw [hhm]
    exact fun t => iff_of_false (by simp) (by rw [hpc]; exact id)
  · rw [htm]
    exact fun t => iff_of_false (by simp) (by rw [hpc]; exact id)
  · intro t a ha
    rw [hpc] at ha
    cases ha
  · intro t u a ha
    rw [hpc] at ha
    cases ha
  · exact fun t => by rw [hpc]; trivial
  · exact fun t => by rw [hpc]; trivial
  · exact fun t => by rw [hpc]; trivial
  · intro a ha
    by_cases hah : a = s.head
    · exact .inl (List.mem_singleton.mpr hah)
    · rw [hheap, Function.update_of_ne hah] at ha
      exact absurd rfl ha

/-- **The invariant holds along every run**, and no node is ever lost. -/
theorem inv_of_run {tr : List (QueueAction τ α)} (h : (system τ α).Run tr s) :
    ∃ l, Inv (published tr) (popped tr) l s ∧ NoLeak l s := by
  refine h.invariant (I := fun tr s => ∃ l, Inv (published tr) (popped tr) l s ∧ NoLeak l s) ?_ ?_
  · exact fun s hs => ⟨[], inv_init hs⟩
  · rintro tr s a s' - ⟨l, hinv, hleak⟩ hs
    obtain ⟨l', hinv', hleak'⟩ := hinv.step hs
    rw [published_snoc, popped_snoc]
    exact ⟨l', hinv', hleak' hleak⟩

end Step

end FineGrained

end Mpmc

end LowLatency
