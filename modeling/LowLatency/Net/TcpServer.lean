import LowLatency.Foundations.MachineInt
import LowLatency.Net.Socket
import Mathlib.Data.Int.Interval

/-!
# The slots of the peers

The class `TCPServer`: two vectors, of the peers and of the flags that say which of them
are connected. `addPeer` puts a new peer into the first slot that is free, or makes a new
slot; `removePeer` frees a slot but leaves the closed socket in it, to be destroyed when
the slot is used again.

What the rest of the development uses is what the two do to the connected peers
(`LowLatency.Net.TcpServer.connected_addPeer`,
`LowLatency.Net.TcpServer.connected_removePeer`). The indices pass through an `int`,
which is harmless below `2 ^ 31` slots.
-/

namespace LowLatency

namespace Net

/-- The members `m_peerSockets` and `m_peerSocketsConnectionFlags`. -/
structure TcpServer where
  peerSockets : List Socket
  peerSocketsConnectionFlags : List Bool

namespace TcpServer

/-- The loop of `addPeer`: the first slot whose flag is not set, or `-1`. -/
def nonUserPeerIndex (server : TcpServer) : Int32 :=
  match (server.peerSocketsConnectionFlags.take server.peerSockets.length).findIdx? (! ·) with
  | some i => Int32.ofNat i
  | none => -1

/-- `TCPServer::addPeer`: the index returned, the server afterwards, and the descriptor
that the destruction of the old socket in a slot passes to `::close`, if it does. -/
def addPeer (server : TcpServer) (peer : Socket) : ℕ × TcpServer × Option Descriptor :=
  if server.nonUserPeerIndex = -1 then
    ((Int32.ofNat ((server.peerSockets ++ [peer]).length - 1)).toSize,
      { peerSockets := server.peerSockets ++ [peer]
        peerSocketsConnectionFlags := server.peerSocketsConnectionFlags ++ [true] },
      none)
  else
    (server.nonUserPeerIndex.toSize,
      { peerSockets := server.peerSockets.set server.nonUserPeerIndex.toSize peer
        peerSocketsConnectionFlags :=
          server.peerSocketsConnectionFlags.set server.nonUserPeerIndex.toSize true },
      server.peerSockets[server.nonUserPeerIndex.toSize]?.bind fun old => old.close.2)

/-- `TCPServer::removePeer`: the server afterwards, and the descriptor passed to
`::close`, if there is one. There is no slot outside the vectors. -/
def removePeer (server : TcpServer) (peerIndex : ℕ) : Option (TcpServer × Option Descriptor) :=
  server.peerSockets[peerIndex]?.map fun peerSocket =>
    ({ peerSockets := server.peerSockets.set peerIndex peerSocket.close.1
       peerSocketsConnectionFlags := server.peerSocketsConnectionFlags.set peerIndex false },
      peerSocket.close.2)

/-- The socket in a slot is replaced, as a member function called on it does. -/
def setPeerSocket (server : TcpServer) (peerIndex : ℕ) (peerSocket : Socket) : TcpServer :=
  { server with peerSockets := server.peerSockets.set peerIndex peerSocket }

/-! ### The connected peers -/

/-- The slot `i` holds the socket `sock`, and its flag is `flag`. -/
def Slot (server : TcpServer) (i : ℕ) (flag : Bool) (sock : Socket) : Prop :=
  server.peerSocketsConnectionFlags[i]? = some flag ∧ server.peerSockets[i]? = some sock

/-- **The peer `i` is connected**, through the socket `sock`. -/
abbrev Connected (server : TcpServer) (i : ℕ) (sock : Socket) : Prop := server.Slot i true sock

/-- The two vectors have the same length. -/
def Aligned (server : TcpServer) : Prop :=
  server.peerSockets.length = server.peerSocketsConnectionFlags.length

variable {server : TcpServer} {i j : ℕ} {flag : Bool} {sock peer : Socket}

theorem Slot.unique {flag' : Bool} {sock' : Socket} (h : server.Slot i flag sock)
    (h' : server.Slot i flag' sock') : flag' = flag ∧ sock' = sock :=
  ⟨Option.some_inj.mp (h'.1.symm.trans h.1), Option.some_inj.mp (h'.2.symm.trans h.2)⟩

/-- Every index below the length is a slot. -/
theorem Aligned.exists_slot (h : server.Aligned) (hi : i < server.peerSockets.length) :
    ∃ flag sock, server.Slot i flag sock :=
  ⟨_, _, List.getElem?_eq_getElem (h ▸ hi), List.getElem?_eq_getElem hi⟩

/-- Every socket is in a slot. -/
theorem Aligned.slot_of_peerSocket (h : server.Aligned) (hi : server.peerSockets[i]? = some sock) :
    ∃ flag, server.Slot i flag sock := by
  obtain ⟨flag, sock', hslot⟩ := h.exists_slot (List.getElem?_eq_some_iff.mp hi).1
  obtain rfl : sock' = sock := Option.some_inj.mp (hslot.2.symm.trans hi)
  exact ⟨flag, hslot⟩

/-- A slot used again: what is in it, and that the others are as they were. -/
theorem slot_set {flag' : Bool} {sock' : Socket} {r : ℕ}
    (hr : r < server.peerSockets.length) (halign : server.Aligned) :
    (TcpServer.mk (server.peerSockets.set r sock')
      (server.peerSocketsConnectionFlags.set r flag')).Slot j flag sock ↔
      j = r ∧ flag = flag' ∧ sock = sock' ∨ j ≠ r ∧ server.Slot j flag sock := by
  have hr' : r < server.peerSocketsConnectionFlags.length := halign ▸ hr
  rcases eq_or_ne j r with rfl | hne
  · simp [Slot, List.getElem?_set_self hr, List.getElem?_set_self hr', eq_comm]
  · simp [Slot, List.getElem?_set_ne hne.symm, hne]

/-- A new slot, behind the others. -/
theorem slot_append {flag' : Bool} {sock' : Socket} (halign : server.Aligned) :
    (TcpServer.mk (server.peerSockets ++ [sock'])
      (server.peerSocketsConnectionFlags ++ [flag'])).Slot j flag sock ↔
      j = server.peerSockets.length ∧ flag = flag' ∧ sock = sock' ∨
        j ≠ server.peerSockets.length ∧ server.Slot j flag sock := by
  rcases lt_trichotomy j server.peerSockets.length with hlt | rfl | hgt
  · have hlt' : j < server.peerSocketsConnectionFlags.length := halign ▸ hlt
    simp [Slot, List.getElem?_append_left hlt, List.getElem?_append_left hlt', hlt.ne]
  · have hself : (server.peerSocketsConnectionFlags ++ [flag'])[server.peerSockets.length]? =
        some flag' := by
      rw [halign, List.getElem?_concat_length]
    simp [Slot, hself, eq_comm]
  · have hnone : (server.peerSockets ++ [sock'])[j]? = none :=
      List.getElem?_eq_none (by rw [List.length_append]; exact hgt)
    have hnone' : server.peerSockets[j]? = none := List.getElem?_eq_none hgt.le
    simp [Slot, hnone, hnone', hgt.ne']

/-! ### Adding a peer -/

/-- The search of `addPeer`, when all slots are in use and when one is free. -/
theorem nonUserPeerIndex_eq (halign : server.Aligned) :
    (server.nonUserPeerIndex = -1 ∧ ∀ i flag sock, server.Slot i flag sock → flag = true) ∨
      ∃ r old, server.nonUserPeerIndex = Int32.ofNat r ∧ server.Slot r false old ∧
        ∀ i flag sock, i < r → server.Slot i flag sock → flag = true := by
  -- the loop is over the sockets, of which there are as many as flags
  rw [nonUserPeerIndex, List.take_of_length_le halign.ge]
  cases hfind : server.peerSocketsConnectionFlags.findIdx? (! ·) with
  | none =>
    refine .inl ⟨rfl, fun i flag sock hslot => ?_⟩
    have hmem := List.mem_of_getElem? hslot.1
    simpa using List.findIdx?_eq_none_iff.mp hfind flag hmem
  | some r =>
    obtain ⟨hr, hfree, hbefore⟩ := List.findIdx?_eq_some_iff_getElem.mp hfind
    obtain ⟨flag, old, hslot⟩ := halign.exists_slot (i := r) (by rw [halign]; exact hr)
    obtain rfl : flag = false := by
      have hflag := hslot.1
      rw [List.getElem?_eq_getElem hr] at hflag
      rw [← Option.some_inj.mp hflag]
      simpa using hfree
    refine .inr ⟨r, old, rfl, hslot, fun i flag sock hi hslot => ?_⟩
    have hflag := hslot.1
    rw [List.getElem?_eq_getElem (hi.trans hr)] at hflag
    rw [← Option.some_inj.mp hflag]
    simpa using hbefore i hi

/-- **What `addPeer` does**: with all slots in use it makes a new one, and otherwise it
puts the peer into the first free slot, destroying the socket that was left there. -/
theorem addPeer_cases (halign : server.Aligned) (hlt : server.peerSockets.length < 2 ^ 31)
    (peer : Socket) :
    ((∀ i flag sock, server.Slot i flag sock → flag = true) ∧
      server.addPeer peer = (server.peerSockets.length,
        ⟨server.peerSockets ++ [peer], server.peerSocketsConnectionFlags ++ [true]⟩, none)) ∨
    ∃ r old, server.Slot r false old ∧
      (∀ i flag sock, i < r → server.Slot i flag sock → flag = true) ∧
      server.addPeer peer = (r, ⟨server.peerSockets.set r peer,
        server.peerSocketsConnectionFlags.set r true⟩, old.close.2) := by
  rcases nonUserPeerIndex_eq halign with ⟨hnone, hall⟩ | ⟨r, old, hr, hslot, hbefore⟩
  · refine .inl ⟨hall, ?_⟩
    rw [addPeer, if_pos hnone, List.length_append, List.length_singleton, Nat.add_sub_cancel,
      Int32.toSize_ofNat hlt]
  · have hrlt : r < 2 ^ 31 := (List.getElem?_eq_some_iff.mp hslot.2).1.trans hlt
    refine .inr ⟨r, old, hslot, hbefore, ?_⟩
    rw [addPeer, hr, if_neg (Int32.ofNat_ne_neg_one hrlt), Int32.toSize_ofNat hrlt, hslot.2]
    rfl

/-- The slots after `addPeer`: the new peer is in one that was not in use, and the others
are as they were. -/
theorem slot_addPeer (halign : server.Aligned) (hlt : server.peerSockets.length < 2 ^ 31)
    {r : ℕ} {server' : TcpServer} {closed : Option Descriptor}
    (h : server.addPeer peer = (r, server', closed)) :
    server'.Aligned ∧ (∀ sock, ¬server.Connected r sock) ∧
      (∀ j flag sock, server'.Slot j flag sock ↔
        j = r ∧ flag = true ∧ sock = peer ∨ j ≠ r ∧ server.Slot j flag sock) ∧
      (closed = none ∨ ∃ old, server.Slot r false old ∧ closed = old.close.2) := by
  rcases addPeer_cases halign hlt peer with ⟨-, heq⟩ | ⟨r', old, hslot, -, heq⟩
  · rw [heq] at h
    cases h
    refine ⟨by simpa [Aligned] using halign, ?_, fun _ _ _ => slot_append halign, .inl rfl⟩
    rintro sock ⟨-, hsock⟩
    simp at hsock
  · rw [heq] at h
    cases h
    have hr : r < server.peerSockets.length := (List.getElem?_eq_some_iff.mp hslot.2).1
    refine ⟨by simpa [Aligned] using halign, ?_, fun _ _ _ => slot_set hr halign,
      .inr ⟨old, hslot, rfl⟩⟩
    intro sock hc
    cases (hslot.unique hc).1

/-- **The peers connected after `addPeer`** are those connected before, each in its slot,
and the new one, in a slot that was not in use. -/
theorem connected_addPeer (halign : server.Aligned) (hlt : server.peerSockets.length < 2 ^ 31)
    {r : ℕ} {server' : TcpServer} {closed : Option Descriptor}
    (h : server.addPeer peer = (r, server', closed)) :
    server'.Aligned ∧ (∀ sock, ¬server.Connected r sock) ∧
      (∀ j sock, server'.Connected j sock ↔
        j = r ∧ sock = peer ∨ server.Connected j sock) ∧
      (∀ j sock, server'.Slot j false sock → server.Slot j false sock) ∧
      (closed = none ∨ ∃ old, server.Slot r false old ∧ closed = old.close.2) := by
  obtain ⟨halign', hfree, hslots, hclosed⟩ := slot_addPeer halign hlt h
  refine ⟨halign', hfree, fun j sock => ?_, fun j sock => ?_, hclosed⟩
  · rw [Connected, hslots]
    constructor
    · rintro (⟨rfl, -, rfl⟩ | ⟨-, hj⟩)
      · exact .inl ⟨rfl, rfl⟩
      · exact .inr hj
    · rintro (⟨rfl, rfl⟩ | hj)
      · exact .inl ⟨rfl, rfl, rfl⟩
      · exact .inr ⟨fun hc => hfree sock (hc ▸ hj), hj⟩
  · rw [hslots]
    rintro (⟨-, hc, -⟩ | ⟨-, hj⟩)
    · cases hc
    · exact hj

/-- Connected peers with descriptors of their own are fewer than there are `int`s. -/
theorem length_lt_of_connected (halign : server.Aligned)
    (hall : ∀ i flag sock, server.Slot i flag sock → flag = true)
    (hrange : ∀ i sock, server.Connected i sock →
      0 < sock.socketDescriptor ∧ sock.socketDescriptor < 2 ^ 31)
    (hdistinct : ∀ i j sock sock', server.Connected i sock → server.Connected j sock' →
      sock.socketDescriptor = sock'.socketDescriptor → i = j) :
    server.peerSockets.length < 2 ^ 31 := by
  have hslot : ∀ i ∈ Finset.range server.peerSockets.length, ∃ sock, server.Connected i sock := by
    intro i hi
    obtain ⟨flag, sock, hslot⟩ := halign.exists_slot (Finset.mem_range.mp hi)
    obtain rfl := hall i flag sock hslot
    exact ⟨sock, hslot⟩
  -- the descriptor in each slot, which is a positive `int`
  set fd : ℕ → ℤ := fun i => (server.peerSockets[i]?.map Socket.socketDescriptor).getD 0
  have hfd : ∀ i sock, server.Connected i sock → fd i = sock.socketDescriptor := by
    intro i sock h
    simp only [fd, h.2, Option.map_some, Option.getD_some]
  have hmaps : ∀ i ∈ Finset.range server.peerSockets.length, fd i ∈ Finset.Ioo 0 (2 ^ 31 : ℤ) := by
    intro i hi
    obtain ⟨sock, h⟩ := hslot i hi
    rw [Finset.mem_Ioo, hfd i sock h]
    exact hrange i sock h
  have hinj : Set.InjOn fd (Finset.range server.peerSockets.length) := by
    intro i hi j hj heq
    obtain ⟨sock, h⟩ := hslot i hi
    obtain ⟨sock', h'⟩ := hslot j hj
    rw [hfd i sock h, hfd j sock' h'] at heq
    exact hdistinct i j sock sock' h h' heq
  have hcard := Finset.card_le_card_of_injOn fd hmaps hinj
  rw [Finset.card_range, Int.card_Ioo] at hcard
  omega

/-- **The slots never outnumber the `int`s**: a new one is made only if all the others
are in use. -/
theorem length_addPeer_lt (halign : server.Aligned) (hlt : server.peerSockets.length < 2 ^ 31)
    {r : ℕ} {server' : TcpServer} {closed : Option Descriptor}
    (h : server.addPeer peer = (r, server', closed))
    (hrange : ∀ i sock, server'.Connected i sock →
      0 < sock.socketDescriptor ∧ sock.socketDescriptor < 2 ^ 31)
    (hdistinct : ∀ i j sock sock', server'.Connected i sock → server'.Connected j sock' →
      sock.socketDescriptor = sock'.socketDescriptor → i = j) :
    server'.peerSockets.length < 2 ^ 31 := by
  have halign' := (connected_addPeer halign hlt h).1
  rcases addPeer_cases halign hlt peer with ⟨hall, heq⟩ | ⟨r', old, -, -, heq⟩
  · rw [heq] at h
    cases h
    refine length_lt_of_connected halign' (fun i flag sock hslot => ?_) hrange hdistinct
    rcases (slot_append halign).mp hslot with ⟨-, hflag, -⟩ | ⟨-, hold⟩
    · exact hflag
    · exact hall i flag sock hold
  · rw [heq] at h
    cases h
    rw [List.length_set]
    exact hlt

/-! ### Removing a peer -/

/-- **The peers connected after `removePeer`** are the others. -/
theorem connected_removePeer (halign : server.Aligned) (hslot : server.Slot i flag sock) :
    ∃ server', server.removePeer i = some (server', sock.close.2) ∧ server'.Aligned ∧
      server'.peerSockets.length = server.peerSockets.length ∧
      (∀ j sock', server'.Connected j sock' ↔ j ≠ i ∧ server.Connected j sock') ∧
      ∀ j sock', server'.Slot j false sock' ↔
        j = i ∧ sock' = sock.close.1 ∨ j ≠ i ∧ server.Slot j false sock' := by
  have hi : i < server.peerSockets.length := (List.getElem?_eq_some_iff.mp hslot.2).1
  refine ⟨⟨server.peerSockets.set i sock.close.1,
      server.peerSocketsConnectionFlags.set i false⟩, ?_, by simpa [Aligned] using halign,
    List.length_set, fun j sock' => ?_, fun j sock' => ?_⟩
  · rw [removePeer, hslot.2]
    rfl
  · rw [Connected, slot_set hi halign]
    simp
  · rw [slot_set hi halign]
    simp

/-- The sockets after a member function has been called on one of them. -/
theorem slot_setPeerSocket (halign : server.Aligned) (hslot : server.Slot i flag sock)
    (peer : Socket) :
    (server.setPeerSocket i peer).Aligned ∧ ∀ j flag' sock',
      (server.setPeerSocket i peer).Slot j flag' sock' ↔
        j = i ∧ flag' = flag ∧ sock' = peer ∨ j ≠ i ∧ server.Slot j flag' sock' := by
  have hi : i < server.peerSockets.length := (List.getElem?_eq_some_iff.mp hslot.2).1
  have hsame : server.peerSocketsConnectionFlags.set i flag =
      server.peerSocketsConnectionFlags := by
    obtain ⟨hlt, rfl⟩ := List.getElem?_eq_some_iff.mp hslot.1
    exact List.set_getElem_self hlt
  refine ⟨by simpa [Aligned, setPeerSocket] using halign, fun j flag' sock' => ?_⟩
  have hset : (mk (server.peerSockets.set i peer)
      (server.peerSocketsConnectionFlags.set i flag)).Slot j flag' sock' ↔ _ := slot_set hi halign
  rwa [hsame] at hset

/-- A peer that is connected after a socket has been marked as disconnected was connected
before, with the same descriptor. -/
theorem connected_disconnect (halign : server.Aligned) (hslot : server.Slot i flag sock)
    {x : Socket}
    (hj : (server.setPeerSocket i { sock with state := .disconnected }).Connected j x) :
    ∃ y, server.Connected j y ∧ y.socketDescriptor = x.socketDescriptor := by
  obtain ⟨-, hslots⟩ := slot_setPeerSocket halign hslot { sock with state := .disconnected }
  rcases (hslots j true x).mp hj with ⟨rfl, rfl, rfl⟩ | ⟨-, hj⟩
  · exact ⟨sock, hslot, rfl⟩
  · exact ⟨x, hj, rfl⟩

end TcpServer

end Net

end LowLatency
