import LowLatency.Mpmc.FineGrainedMemory

/-!
# Which fields the two locks protect

The two locks of the queue never exclude each other. That is the point of the dummy
node: an `enqueue` stays at the last node, a `dequeue` at the first two, and a node on
neither side belongs to one thread. So the fields a thread is about to access are
sorted by what keeps the others off them (`LowLatency.Mpmc.FineGrained.Reserved`):
`tail_mutex`, `head_mutex`, or that nobody else has a pointer to the node.

There is one field that is on both sides. If the queue is empty, the first node *is*
the last one, and its `next` is what an `enqueue` writes and a `dequeue` reads, each
with its own lock held. `LowLatency.Mpmc.FineGrained.race_free_iff` says that this is
the only pair of conflicting accesses there is.
-/

namespace LowLatency

namespace Mpmc

namespace FineGrained

variable {τ α : Type*} {P C : List α} {l : List Addr} {s : State τ α} {t u : τ} {a : Addr}

/-! ### The fields -/

/-- A plain field: one of the queue, or one of a node. -/
inductive PlainField where
  | head : PlainField
  | tail : PlainField
  | next (a : Addr) : PlainField
  | data (a : Addr) : PlainField
  deriving DecidableEq

namespace Pc

/-- The fields the next step of a thread reads. -/
def reads : Pc α → List PlainField
  | .link _ _ => [.tail]
  | .readHead => [.head]
  | .readNext cur => [.next cur]
  | .copyData _ new => [.data new]
  | _ => []

/-- The fields the next step of a thread writes. To delete a node is to write all of it;
the memory `new` initialises is no thread's until it returns, and by
`LowLatency.Mpmc.FineGrained.memory_safe` no other thread is about to access it. -/
def writes (tail : Addr) : Pc α → List PlainField
  | .fill _ n => [.data n]
  | .link _ _ => [.next tail]
  | .setTail _ => [.tail]
  | .setHead _ _ _ => [.head]
  | .delete cur _ => [.next cur, .data cur]
  | _ => []

/-- The fields the next step of a thread accesses. -/
def accesses (tail : Addr) (p : Pc α) : List PlainField := p.writes tail ++ p.reads

end Pc

/-- **A data race**: the next steps of two threads access the same field, and one of them
writes it. -/
def Racy (s : State τ α) : Prop :=
  ∃ t u, t ≠ u ∧ ∃ f ∈ (s.pc t).writes s.tail, f ∈ (s.pc u).accesses s.tail

/-- An `enqueue` and a `dequeue` meet on the dummy node of the empty queue: the one is about
to link a node behind it, the other to look for one. -/
def MeetsOnDummy (s : State τ α) : Prop :=
  s.head = s.tail ∧ (∃ t v n, s.pc t = .link v n) ∧ ∃ u cur, s.pc u = .readNext cur

/-! ### What keeps the others off a field -/

/-- **Why a thread may access a field**: it is alone with the node, or it holds the lock of
the side the field is on. -/
inductive Reserved (l : List Addr) (s : State τ α) (t : τ) : PlainField → Prop
  | ownNext (a : Addr) : (s.pc t).node? = some a → Reserved l s t (.next a)
  | ownData (a : Addr) : (s.pc t).node? = some a → Reserved l s t (.data a)
  | tail : (s.pc t).HoldsTail → Reserved l s t .tail
  | link (v : α) (n : Addr) : s.pc t = .link v n → Reserved l s t (.next (l.getLastD s.head))
  | head : (s.pc t).HoldsHead → Reserved l s t .head
  | readNext (cur : Addr) : s.pc t = .readNext cur → Reserved l s t (.next s.head)
  | copyData (a : Addr) : (s.pc t).HoldsHead → a ∈ l → Reserved l s t (.data a)

variable {f : PlainField}

/-- **Every access is to a field reserved for the thread.** -/
theorem Inv.reserved (h : Inv P C l s) (hf : f ∈ (s.pc t).accesses s.tail) :
    Reserved l s t f := by
  have htail := h.tailSide t
  have hhead := h.headSide t
  rcases hpc : s.pc t with _ | v | ⟨v, n⟩ | ⟨v, n⟩ | ⟨v, n⟩ | n | _ | _ | _ | cur | _ |
    ⟨cur, new⟩ | ⟨cur, new, v⟩ | ⟨cur, v⟩ | ⟨cur, v⟩ | res
  all_goals rw [hpc] at hf htail hhead
  all_goals simp only [Pc.accesses, Pc.writes, Pc.reads, List.nil_append, List.append_nil,
    List.cons_append, List.mem_cons, List.not_mem_nil, or_false] at hf
  · rw [hf]
    exact .ownData n (by rw [hpc]; rfl)
  · -- the write behind the last node, and the read of `tail` to find it
    rcases hf with rfl | rfl
    · rw [show s.tail = l.getLastD s.head from htail]
      exact .link v n hpc
    · exact .tail (by rw [hpc]; trivial)
  · rw [hf]
    exact .tail (by rw [hpc]; trivial)
  · rw [hf]
    exact .head (by rw [hpc]; trivial)
  · rw [hf, show cur = s.head from hhead]
    exact .readNext cur hpc
  · rw [hf]
    exact .copyData new (by rw [hpc]; trivial) (List.mem_of_mem_head? hhead.2)
  · rw [hf]
    exact .head (by rw [hpc]; trivial)
  · rcases hf with rfl | rfl
    · exact .ownNext cur (by rw [hpc]; rfl)
    · exact .ownData cur (by rw [hpc]; rfl)

/-- The link of a node is reserved for the thread that owns the node, or the node is an end
of the chain. -/
theorem Reserved.next_cases (h : Reserved l s t (.next a)) :
    (s.pc t).node? = some a ∨ (a = l.getLastD s.head ∧ ∃ v n, s.pc t = .link v n) ∨
      (a = s.head ∧ ∃ cur, s.pc t = .readNext cur) := by
  cases h with
  | ownNext _ ha => exact .inl ha
  | link v n hpc => exact .inr (.inl ⟨rfl, v, n, hpc⟩)
  | readNext cur hpc => exact .inr (.inr ⟨rfl, cur, hpc⟩)

/-- The data of a node is reserved for the thread that owns the node, or for the holder of
`head_mutex`, the node being on the chain. -/
theorem Reserved.data_cases (h : Reserved l s t (.data a)) :
    (s.pc t).node? = some a ∨ (s.pc t).HoldsHead ∧ a ∈ l := by
  cases h with
  | ownData _ ha => exact .inl ha
  | copyData _ hhead ha => exact .inr ⟨hhead, ha⟩

/-- The two sides meet on the link of a node: it is the dummy, and the queue is empty. -/
theorem Inv.meetsOnDummy (h : Inv P C l s) {v : α} {n cur : Addr} (ht : s.pc t = .link v n)
    (hu : s.pc u = .readNext cur) (heq : l.getLastD s.head = s.head) : MeetsOnDummy s := by
  have htail := h.tailSide t
  rw [ht] at htail
  exact ⟨heq.symm.trans (show s.tail = _ from htail).symm, ⟨t, v, n, ht⟩, u, cur, hu⟩

/-- **A field reserved for two threads** is the link of the dummy of the empty queue. -/
theorem Inv.eq_of_reserved (h : Inv P C l s) (ht : Reserved l s t f) (hu : Reserved l s u f) :
    t = u ∨ MeetsOnDummy s := by
  have hlast := Inv.last_mem s l
  cases f with
  | head =>
    cases ht with
    | head ht => cases hu with
      | head hu => exact .inl (h.headMutex.unique hu ht)
  | tail =>
    cases ht with
    | tail ht => cases hu with
      | tail hu => exact .inl (h.tailMutex.unique hu ht)
  | next a =>
    rcases ht.next_cases with ht | ⟨rfl, v, n, ht⟩ | ⟨rfl, cur, ht⟩
    · -- the node of a thread is no other thread's, and not on the chain
      rcases hu.next_cases with hu | ⟨rfl, -⟩ | ⟨rfl, -⟩
      · exact .inl (h.distinct t u a ht hu)
      · exact absurd hlast (h.apart t _ ht)
      · exact absurd List.mem_cons_self (h.apart t _ ht)
    · rcases hu.next_cases with hu | ⟨-, v', n', hu⟩ | ⟨heq, cur, hu⟩
      · exact absurd hlast (h.apart u _ hu)
      · exact .inl (h.tailMutex.unique (by rw [hu]; trivial) (by rw [ht]; trivial))
      · exact .inr (h.meetsOnDummy ht hu heq)
    · rcases hu.next_cases with hu | ⟨heq, v, n, hu⟩ | ⟨-, cur', hu⟩
      · exact absurd List.mem_cons_self (h.apart u _ hu)
      · exact .inr (h.meetsOnDummy hu ht heq.symm)
      · exact .inl (h.headMutex.unique (by rw [hu]; trivial) (by rw [ht]; trivial))
  | data a =>
    rcases ht.data_cases with ht | ⟨ht, hta⟩
    · rcases hu.data_cases with hu | ⟨-, hua⟩
      · exact .inl (h.distinct t u a ht hu)
      · exact absurd (List.mem_cons_of_mem _ hua) (h.apart t a ht)
    · rcases hu.data_cases with hu | ⟨hu, -⟩
      · exact absurd (List.mem_cons_of_mem _ hta) (h.apart u a hu)
      · exact .inl (h.headMutex.unique hu ht)

/-! ### The main result -/

/-- **The queue is free of data races exactly while no `enqueue` and `dequeue` meet on the
dummy** of the empty queue, for any number of threads and in every state reached. -/
theorem race_free_iff [DecidableEq τ] {tr : List (QueueAction τ α)} (h : (system τ α).Run tr s) :
    ¬Racy s ↔ ¬MeetsOnDummy s := by
  obtain ⟨l, hinv, -⟩ := inv_of_run h
  refine not_congr ⟨?_, ?_⟩
  · rintro ⟨t, u, hne, f, hf, hf'⟩
    have ht : Reserved l s t f := hinv.reserved (List.mem_append_left _ hf)
    exact (hinv.eq_of_reserved ht (hinv.reserved hf')).resolve_left hne
  · rintro ⟨heq, ⟨t, v, n, ht⟩, u, cur, hu⟩
    have hne : t ≠ u := by
      rintro rfl
      rw [ht] at hu
      cases hu
    have hcur := hinv.headSide u
    rw [hu] at hcur
    obtain rfl : cur = s.head := hcur
    refine ⟨t, u, hne, .next s.tail, ?_, ?_⟩
    · rw [ht]
      exact List.mem_singleton_self _
    · rw [hu, ← heq]
      exact List.mem_singleton_self _

/-- An `enqueue` is about to write the link of the dummy, and a `dequeue` to read it. -/
theorem run_meetsOnDummy : ∃ tr s, (system Bool ℕ).Run tr s ∧
    s.pc true = .link 7 1 ∧ s.pc false = .readNext 0 ∧ s.head = 0 ∧ s.tail = 0 := by
  have h0 : (system Bool ℕ).Run [] constructed := .start init_constructed
  have h1 := h0.snoc (.call true (.enqueue 7) rfl)
  have h2 := h1.snoc (.thread 1 0 true rfl)
  have h3 := h2.snoc (.thread 0 0 true rfl)
  have h4 := h3.snoc (.thread 0 0 true rfl)
  have h5 := h4.snoc (.call false .dequeue rfl)
  have h6 := h5.snoc (.thread 0 0 false rfl)
  have h7 := h6.snoc (.thread 0 0 false rfl)
  exact ⟨_, _, h7, rfl, rfl, rfl, rfl⟩

/-- **The locks do not protect the link of the dummy**: two threads, each with its own
lock, are about to write and to read it. -/
theorem dummy_link_unprotected : ∃ s : State Bool ℕ, (system Bool ℕ).Reachable s ∧ Racy s := by
  obtain ⟨tr, s, h, ht, hu, hhead, htail⟩ := run_meetsOnDummy
  refine ⟨s, ⟨tr, h⟩, true, false, nofun, .next 0, ?_, ?_⟩
  · rw [ht, htail]
    exact List.mem_singleton_self _
  · rw [hu]
    exact List.mem_singleton_self _

/-- With a value in the queue, the same two accesses go to different nodes. -/
theorem race_free_nonempty : ∃ s : State Bool ℕ, (system Bool ℕ).Reachable s ∧
    s.pc true = .link 8 2 ∧ s.pc false = .readNext 0 ∧ ¬Racy s := by
  have h0 : (system Bool ℕ).Run [] constructed := .start init_constructed
  -- a first `enqueue`, to its end
  have h1 := h0.snoc (.call true (.enqueue 7) rfl)
  have h2 := h1.snoc (.thread 1 0 true rfl)
  have h3 := h2.snoc (.thread 0 0 true rfl)
  have h4 := h3.snoc (.thread 0 0 true rfl)
  have h5 := h4.snoc (.thread 0 0 true rfl)
  have h6 := h5.snoc (.thread 0 0 true rfl)
  have h7 := h6.snoc (.thread 0 0 true rfl)
  have h8 := h7.snoc (.thread 0 0 true rfl)
  -- a second one and a `dequeue`, to where they met before
  have h9 := h8.snoc (.call true (.enqueue 8) rfl)
  have h10 := h9.snoc (.thread 2 0 true rfl)
  have h11 := h10.snoc (.thread 0 0 true rfl)
  have h12 := h11.snoc (.thread 0 0 true rfl)
  have h13 := h12.snoc (.call false .dequeue rfl)
  have h14 := h13.snoc (.thread 0 0 false rfl)
  have h15 := h14.snoc (.thread 0 0 false rfl)
  refine ⟨_, ⟨_, h15⟩, rfl, rfl, (race_free_iff h15).mpr ?_⟩
  rintro ⟨heq, -⟩
  cases heq

end FineGrained

end Mpmc

end LowLatency
