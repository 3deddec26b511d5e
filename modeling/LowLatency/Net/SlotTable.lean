import LowLatency.Foundations.Transition
import LowLatency.Net.TcpServer
import Mathlib.Order.Bounds.Basic

/-!
# The history of the slots

Any sequence of `addPeer` and `removePeer`, from a server without peers. What has been added and
not removed is read off the calls and their results alone (`LowLatency.Net.SlotTable.live`), and
the two vectors agree with it: each peer is in the slot whose index was returned for it. A new slot
is made only when all are in use, so there are as many slots as there have ever been peers at
the same time (`LowLatency.Net.SlotTable.table_of_run`).
-/

namespace LowLatency

namespace Net

namespace SlotTable

/-! ### The calls -/

/-- A call, with the index it returns. -/
inductive Call where
  | addPeer (peer : Socket) (index : ℕ) : Call
  | removePeer (index : ℕ) : Call

/-- The calls. A server has fewer slots than there are non-negative `int`s, since each connection
needs a descriptor. -/
inductive Step : TcpServer → Call → TcpServer → Prop
  | addPeer {server server' : TcpServer} (peer : Socket) {r : ℕ} {closed : Option Descriptor} :
      server.peerSockets.length < 2 ^ 31 → server.addPeer peer = (r, server', closed) →
      Step server (.addPeer peer r) server'
  | removePeer {server server' : TcpServer} (i : ℕ) {closed : Option Descriptor} :
      server.removePeer i = some (server', closed) → Step server (.removePeer i) server'

/-- **The server**, at first without a slot. -/
def system : TransitionSystem TcpServer Call where
  Init server := server = ⟨[], []⟩
  Step := Step

/-- The peers with their slots after a call, from those before it. -/
def Call.after (peers : List (ℕ × Socket)) : Call → List (ℕ × Socket)
  | .addPeer peer r => (r, peer) :: peers
  | .removePeer i => peers.filter fun x => x.1 ≠ i

/-- **The peers that have been added and not yet removed**, with the indices returned for them. -/
def live (tr : List Call) : List (ℕ × Socket) := tr.foldl Call.after []

@[simp] theorem live_snoc (tr : List Call) (a : Call) : live (tr ++ [a]) = a.after (live tr) :=
  List.foldl_concat ..

/-- The numbers of peers there have been at the same time. -/
def counts (tr : List Call) : Set ℕ := {n | ∃ tr', tr' <+: tr ∧ n = (live tr').length}

theorem counts_snoc (tr : List Call) (a : Call) :
    counts (tr ++ [a]) = insert (live (tr ++ [a])).length (counts tr) := by
  ext n
  constructor
  · rintro ⟨tr', hprefix, rfl⟩
    rcases List.prefix_concat_iff.mp hprefix with rfl | hprefix
    · exact .inl rfl
    · exact .inr ⟨tr', hprefix, rfl⟩
  · rintro (rfl | ⟨tr', hprefix, rfl⟩)
    · exact ⟨_, List.prefix_refl _, rfl⟩
    · exact ⟨tr', hprefix.trans (List.prefix_append tr [a]), rfl⟩

/-! ### What a call does -/

variable {server server' : TcpServer} {peer : Socket} {r i : ℕ} {closed : Option Descriptor}
  {tr : List Call} {a : Call}

/-- **What `addPeer` does to the slots**: the peer is in the first slot that was free, or in a new
one behind the others if there was none, and the others are as they were. -/
structure Adds (server : TcpServer) (peer : Socket) (r : ℕ) (server' : TcpServer) : Prop where
  slot : server'.Connected r peer
  free : server.peerSocketsConnectionFlags[r]? = some false ∨
    r = server.peerSocketsConnectionFlags.length
  least : ∀ j < r, server.peerSocketsConnectionFlags[j]? = some true
  others : ∀ j ≠ r, server'.peerSockets[j]? = server.peerSockets[j]? ∧
    server'.peerSocketsConnectionFlags[j]? = server.peerSocketsConnectionFlags[j]?

/-- **What `removePeer` does to the slots**: the flag of the slot is cleared, and the others are as
they were. -/
structure Removes (server : TcpServer) (i : ℕ) (server' : TcpServer) : Prop where
  flag : server'.peerSocketsConnectionFlags[i]? = some false
  others : ∀ j ≠ i, server'.peerSockets[j]? = server.peerSockets[j]? ∧
    server'.peerSocketsConnectionFlags[j]? = server.peerSocketsConnectionFlags[j]?

/-- A flag below the length, if those that are known are set. -/
theorem flag_of_lt (halign : server.Aligned)
    (hall : ∀ j flag sock, j < r → server.Slot j flag sock → flag = true) {j : ℕ} (hj : j < r)
    (hlt : j < server.peerSockets.length) : server.peerSocketsConnectionFlags[j]? = some true := by
  obtain ⟨flag, sock, hslot⟩ := halign.exists_slot hlt
  obtain rfl := hall j flag sock hj hslot
  exact hslot.1

theorem adds_of_addPeer (halign : server.Aligned) (hlt : server.peerSockets.length < 2 ^ 31)
    (h : server.addPeer peer = (r, server', closed)) : Adds server peer r server' := by
  have hslot : server'.Connected r peer :=
    ((TcpServer.connected_addPeer halign hlt h).2.2.1 r peer).mpr (.inl ⟨rfl, rfl⟩)
  rcases TcpServer.addPeer_cases halign hlt peer with ⟨hall, heq⟩ | ⟨r', old, hold, hbefore, heq⟩
  · -- all slots are in use
    rw [heq] at h
    cases h
    refine ⟨hslot, .inr halign, fun j hj => ?_, fun j hj => ?_⟩
    · exact flag_of_lt halign (fun j flag sock _ => hall j flag sock) hj hj
    · have hj' : j ≠ server.peerSocketsConnectionFlags.length := halign ▸ hj
      constructor
      · grind
      · grind
  · -- the first free slot is used again
    rw [heq] at h
    cases h
    have hr := (List.getElem?_eq_some_iff.mp hold.2).1
    refine ⟨hslot, .inl hold.1, fun j hj => ?_, fun j hj => ?_⟩
    · exact flag_of_lt halign hbefore hj (hj.trans hr)
    · exact ⟨List.getElem?_set_ne hj.symm, List.getElem?_set_ne hj.symm⟩

theorem removes_of_removePeer (halign : server.Aligned)
    (h : server.removePeer i = some (server', closed)) : Removes server i server' := by
  obtain ⟨sock, hsock, heq⟩ := Option.map_eq_some_iff.mp h
  have hi : i < server.peerSocketsConnectionFlags.length :=
    halign ▸ (List.getElem?_eq_some_iff.mp hsock).1
  cases heq
  refine ⟨List.getElem?_set_self hi, fun j hj => ?_⟩
  exact ⟨List.getElem?_set_ne hj.symm, List.getElem?_set_ne hj.symm⟩

/-! ### Along a run -/

/-- **The slots and the history agree.** -/
structure Table (tr : List Call) (server : TcpServer) : Prop where
  aligned : server.Aligned
  distinct : ((live tr).map Prod.fst).Nodup
  mem_live_iff : ∀ r peer, (r, peer) ∈ live tr ↔ server.Connected r peer
  peak : IsGreatest (counts tr) server.peerSockets.length

/-- There are slots enough. -/
theorem length_live_le (hdistinct : ((live tr).map Prod.fst).Nodup)
    (hmem : ∀ r peer, (r, peer) ∈ live tr ↔ server.Connected r peer) :
    (live tr).length ≤ server.peerSockets.length := by
  have hsub : ((live tr).map Prod.fst).toFinset ⊆ Finset.range server.peerSockets.length := by
    intro r hr
    obtain ⟨⟨r', peer⟩, hlive, rfl⟩ := List.mem_map.mp (List.mem_toFinset.mp hr)
    exact Finset.mem_range.mpr (List.getElem?_eq_some_iff.mp ((hmem r' peer).mp hlive).2).1
  have hcard := Finset.card_le_card hsub
  rwa [List.toFinset_card_of_nodup hdistinct, List.length_map, Finset.card_range] at hcard

/-- With all slots in use there is a peer for each. -/
theorem length_le_live (halign : server.Aligned)
    (hmem : ∀ r peer, (r, peer) ∈ live tr ↔ server.Connected r peer)
    (hall : ∀ i flag sock, server.Slot i flag sock → flag = true) :
    server.peerSockets.length ≤ (live tr).length := by
  have hsub : Finset.range server.peerSockets.length ⊆ ((live tr).map Prod.fst).toFinset := by
    intro i hi
    obtain ⟨flag, sock, hslot⟩ := halign.exists_slot (Finset.mem_range.mp hi)
    obtain rfl := hall i flag sock hslot
    exact List.mem_toFinset.mpr (List.mem_map.mpr ⟨(i, sock), (hmem i sock).mpr hslot, rfl⟩)
  have hcard := (Finset.card_le_card hsub).trans (List.toFinset_card_le _)
  rwa [Finset.card_range, List.length_map] at hcard

theorem table_init (hs : system.Init server) : Table [] server := by
  obtain rfl : server = ⟨[], []⟩ := hs
  refine ⟨rfl, List.nodup_nil, fun r peer => ?_, ⟨[], List.prefix_refl _, rfl⟩, ?_⟩
  · simp [live, TcpServer.Slot]
  · rintro n ⟨tr', hprefix, rfl⟩
    rw [List.prefix_nil.mp hprefix]
    exact le_refl 0

theorem Table.addPeer (h : Table tr server) (hlt : server.peerSockets.length < 2 ^ 31)
    (hadd : server.addPeer peer = (r, server', closed)) :
    Table (tr ++ [.addPeer peer r]) server' := by
  obtain ⟨halign', hfree, hconnected, -⟩ := TcpServer.connected_addPeer h.aligned hlt hadd
  have hdistinct : ((live (tr ++ [.addPeer peer r])).map Prod.fst).Nodup := by
    rw [live_snoc]
    refine List.nodup_cons.mpr ⟨fun hc => ?_, h.distinct⟩
    obtain ⟨⟨r', sock⟩, hlive, rfl⟩ := List.mem_map.mp hc
    exact hfree sock ((h.mem_live_iff r' sock).mp hlive)
  have hmem : ∀ j sock, (j, sock) ∈ live (tr ++ [.addPeer peer r]) ↔
      server'.Connected j sock := by
    intro j sock
    rw [live_snoc, hconnected, Call.after, List.mem_cons, Prod.mk.injEq, h.mem_live_iff]
  refine ⟨halign', hdistinct, hmem, ?_⟩
  have hle := length_live_le hdistinct hmem
  rw [counts_snoc]
  rcases TcpServer.addPeer_cases h.aligned hlt peer with ⟨hall, heq⟩ | ⟨r', old, -, -, heq⟩
  · -- one peer more than there have been at any time
    rw [heq] at hadd
    cases hadd
    have hge := length_le_live h.aligned h.mem_live_iff hall
    have hlength : (live (tr ++ [.addPeer peer server.peerSockets.length])).length =
        (live tr).length + 1 := by rw [live_snoc]; rfl
    have hlength' : (server.peerSockets ++ [peer]).length = server.peerSockets.length + 1 := by
      rw [List.length_append, List.length_singleton]
    constructor
    · refine .inl (le_antisymm ?_ hle)
      show (server.peerSockets ++ [peer]).length ≤ _
      omega
    · rintro n (rfl | hn)
      · exact hle
      · exact (h.peak.2 hn).trans (by rw [hlength']; omega)
  · rw [heq] at hadd
    cases hadd
    have hsame : (server.peerSockets.set r peer).length = server.peerSockets.length :=
      List.length_set
    constructor
    · rw [hsame]
      exact .inr h.peak.1
    · rintro n (rfl | hn)
      · exact hle
      · rw [hsame]
        exact h.peak.2 hn

theorem Table.removePeer (h : Table tr server)
    (hremove : server.removePeer i = some (server', closed)) :
    Table (tr ++ [.removePeer i]) server' := by
  obtain ⟨sock, hsock, -⟩ := Option.map_eq_some_iff.mp hremove
  obtain ⟨flag, hslot⟩ := h.aligned.slot_of_peerSocket hsock
  obtain ⟨server'', heq, halign', hlength, hconnected, -⟩ :=
    TcpServer.connected_removePeer h.aligned hslot
  rw [heq] at hremove
  cases hremove
  have hmem : ∀ j peer, (j, peer) ∈ live (tr ++ [.removePeer i]) ↔ server'.Connected j peer := by
    intro j peer
    rw [live_snoc, hconnected, Call.after, List.mem_filter, h.mem_live_iff]
    simp [and_comm]
  have hdistinct : ((live (tr ++ [.removePeer i])).map Prod.fst).Nodup := by
    rw [live_snoc]
    exact h.distinct.sublist (List.filter_sublist.map _)
  refine ⟨halign', hdistinct, hmem, ?_⟩
  rw [hlength, counts_snoc]
  refine ⟨.inr h.peak.1, ?_⟩
  rintro n (rfl | hn)
  · exact hlength ▸ length_live_le hdistinct hmem
  · exact h.peak.2 hn

/-- **The slots and the history agree after every call, and every call changes the slots as it
should**: `addPeer` displaces nobody, and `removePeer` frees its own slot alone. -/
theorem table_of_run (hrun : system.Run tr server) :
    Table tr server ∧
    (∀ peer r server', system.Step server (.addPeer peer r) server' →
      Adds server peer r server') ∧
    (∀ i server', system.Step server (.removePeer i) server' → Removes server i server') ∧
    ∀ i < server.peerSockets.length, ∃ server', system.Step server (.removePeer i) server' := by
  have htable : Table tr server := by
    refine hrun.invariant (I := Table) (fun _ => table_init) ?_
    rintro tr server a server' - h (⟨peer, hlt, hadd⟩ | ⟨i, hremove⟩)
    · exact h.addPeer hlt hadd
    · exact h.removePeer hremove
  refine ⟨htable, ?_, ?_, fun i hi => ?_⟩
  · rintro peer r server' ⟨_, hlt, hadd⟩
    exact adds_of_addPeer htable.aligned hlt hadd
  · rintro i server' (_ | ⟨_, hremove⟩)
    exact removes_of_removePeer htable.aligned hremove
  · obtain ⟨flag, sock, hslot⟩ := htable.aligned.exists_slot hi
    obtain ⟨server', heq, -⟩ := TcpServer.connected_removePeer htable.aligned hslot
    exact ⟨server', .removePeer i heq⟩

/-- Three peers, of which the last takes the slot that the first has left. -/
theorem table_reused :
    ∃ tr server, live tr = [(0, ⟨5, .connected⟩), (1, ⟨4, .connected⟩)] ∧
      server.peerSockets = [⟨5, .connected⟩, ⟨4, .connected⟩] ∧ Table tr server := by
  have h₀ : system.Run [] ⟨[], []⟩ := .start rfl
  have h₁ := h₀.snoc (.addPeer ⟨3, .connected⟩ (by decide) rfl)
  have h₂ := h₁.snoc (.addPeer ⟨4, .connected⟩ (by decide) rfl)
  have h₃ := h₂.snoc (.removePeer 0 rfl)
  have h₄ := h₃.snoc (.addPeer ⟨5, .connected⟩ (by decide) rfl)
  exact ⟨_, _, by decide, by decide, (table_of_run h₄).1⟩

end SlotTable

end Net

end LowLatency
