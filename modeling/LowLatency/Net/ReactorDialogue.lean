import LowLatency.Net.EndOfStream
import LowLatency.Net.Session

/-!
# The dialogue in the reactor

The dialogue of `LowLatency.Net.Session`, carried on by the reactor with the peer in one slot
while it serves the others (`LowLatency.Net.Reactor.dialogue`). A dispatch that calls
`handleClient` for the slot receives the chunk and replies to it in one step, and this is a
step of the dialogue; the peer sends, and takes the replies, in between.

The reactor does carry it on: it takes every chunk that may come
(`LowLatency.Net.Reactor.exists_handle`), and the peer stays connected until the dialogue says
that it has been removed (`LowLatency.Net.Reactor.tracks_of_run`).
-/

namespace LowLatency

namespace Net

namespace Reactor

variable {p : Process} {s s' : State} {i : ℕ} {sock : Socket} {ns : List ℕ} {e : EpollEvent}
  {rest : List EpollEvent} {chunk : List UInt8}

/-- The next event makes the reactor call `handleClient` for the slot `i`. -/
def handles (i : ℕ) (s : State) : Bool :=
  match s.batch with
  | [] => false
  | e :: _ => isValidEvent e && dispatchTarget s e = some i

theorem handles_iff : handles i s = true ↔
    ∃ e rest, s.batch = e :: rest ∧ isValidEvent e = true ∧ dispatchTarget s e = some i := by
  rcases hbatch : s.batch with _ | ⟨e, rest⟩
  · refine iff_of_false (by simp [handles, hbatch]) ?_
    rintro ⟨e, rest, hc, -⟩
    cases hc
  · simp only [handles, hbatch, Bool.and_eq_true, decide_eq_true_eq]
    constructor
    · rintro ⟨hvalid, htarget⟩
      exact ⟨e, rest, rfl, hvalid, htarget⟩
    · rintro ⟨e', rest', hc, hvalid, htarget⟩
      cases hc
      exact ⟨hvalid, htarget⟩

/-- The dispatches that are part of the dialogue with the peer in the slot `i`. -/
def observed (i : ℕ) (s : State) (r : Session.State) : Action → Option Session.Action
  | .dispatch _ (.data chunk) =>
    if r.removals = 0 ∧ handles i s = true then some (.handle chunk) else none
  | _ => none

theorem observed_eq_some {r : Session.State} {a : Action} {b : Session.Action}
    (h : observed i s r a = some b) : ∃ accepted chunk, a = .dispatch accepted (.data chunk) ∧
      b = .handle chunk ∧ r.removals = 0 ∧ handles i s = true := by
  rcases a with _ | ⟨accepted, chunk | ⟨read, error⟩⟩
  · cases h
  · rw [observed] at h
    split_ifs at h with hcond
    cases h
    exact ⟨accepted, chunk, rfl, rfl, hcond⟩
  · cases h

/-- No `receive` from the peer in the slot `i` fails, and no event reports it as lost. -/
def Delivers (i : ℕ) (s : State) (a : Action) : Prop :=
  ∀ e ∈ s.batch.head?, dispatchTarget s e = some i →
    isValidEvent e = true ∧ ∀ accepted read error, a ≠ .dispatch accepted (.failed read error)

/-- The reactor from when the peer `sock` is in the slot `i`. -/
def serving (p : Process) (i : ℕ) (sock : Socket) : TransitionSystem State Action where
  Init s := (system p).Reachable s ∧ s.server.Connected i sock
  Step := ((system p).restrict (Delivers i)).Step

/-- **The reactor in dialogue** with the peer in the slot `i`. -/
def dialogue (p : Process) (i : ℕ) (sock : Socket) (ns : List ℕ) :
    TransitionSystem (State × Session.State) (Action ⊕ Session.Action) :=
  (serving p i sock).observe (Session.system ns) (observed i) fun b => ∀ chunk, b ≠ .handle chunk

/-- The runs of the reactor in dialogue are runs of the reactor. -/
theorem reachable_dialogue {tr : List (Action ⊕ Session.Action)} {x : State × Session.State}
    (h : (dialogue p i sock ns).Run tr x) : (system p).Reachable x.1 := by
  obtain ⟨tr₁, h₁⟩ : (serving p i sock).Reachable x.1 := TransitionSystem.reachable_fst h
  refine h₁.invariant (I := fun _ s => (system p).Reachable s) ?_ ?_
  · rintro s ⟨hs, -⟩
    exact hs
  · rintro tr s a s' - ⟨tr₂, h₂⟩ ⟨hs, -⟩
    exact ⟨_, h₂.snoc hs⟩

/-- A peer stays connected, unless an event is dispatched to it. -/
theorem connected_of_other {a : Action} (hinv : SocketsInv p s) (hi : s.server.Connected i sock)
    (hs : (system p).Step s a s')
    (hother : ∀ e ∈ s.batch.head?, a ≠ .wait → dispatchTarget s e ≠ some i) :
    s'.server.Connected i sock := by
  rcases hs with _ | ⟨accepted, received, -, -, hs⟩
  · exact hi
  · rcases hbatch : s.batch with _ | ⟨e, rest⟩
    · rw [dispatch, hbatch] at hs
      cases hs
    · have hne := hother e (by rw [hbatch]; rfl) (by rintro ⟨⟩)
      rcases dispatch_cases hinv hbatch hs with ⟨hserver, -, -, -, -, -⟩ | ⟨fd, r, -, -, hadded⟩ |
        ⟨j, flag, x, htarget, -, hremoved⟩ | ⟨j, flag, x, -, -, htarget, -, -, -, hremoved⟩
      · rw [hserver]
        exact hi
      · obtain ⟨-, -, hconnected, -, -⟩ :=
          TcpServer.connected_addPeer hinv.peers.aligned hinv.peers.length_lt hadded.addPeer
        exact (hconnected i sock).mpr (.inr hi)
      · refine (hremoved.connected i sock).mpr ⟨?_, hi⟩
        rintro rfl
        exact hne htarget
      · refine (hremoved.connected i sock).mpr ⟨?_, hi⟩
        rintro rfl
        exact hne htarget

/-- **What the dispatch of a chunk does to the peer**: it is dropped if the chunk is `quit`, and
stays connected otherwise. -/
theorem dispatch_data (hinv : SocketsInv p s) (hi : s.server.Connected i sock)
    (hhandles : handles i s = true) (accepted : Option Descriptor) (chunk : List UInt8) :
    ∃ s', dispatch accepted (.data chunk) s = some s' ∧
      if isQuit chunk then Dropped i sock s' else s'.server.Connected i sock := by
  obtain ⟨e, rest, hbatch, hvalid, htarget⟩ := handles_iff.mp hhandles
  have hpeer : (fetch e rest s).server.peerSockets[i]? = some sock := hi.2
  have hpeers : Peers p (fetch e rest s).kernel.opened (fetch e rest s).server := hinv.peers
  rw [dispatch_cons hbatch, htarget]
  simp only [hvalid, if_true, handleClient, hpeer, Option.bind_some]
  rcases isQuit chunk with _ | _
  · exact ⟨_, rfl, hi⟩
  · obtain ⟨s', hs, hremoved⟩ := onClientDisconnected_spec hpeers hi
    refine ⟨s', hs, flag_onClientDisconnected (s := fetch e rest s) true hi.1 hs, ?_⟩
    rw [hremoved.interest]
    exact Finset.notMem_erase _ _

/-- The peer is connected until the dialogue says that it has been removed. -/
def Tracks (i : ℕ) (sock : Socket) (x : State × Session.State) : Prop :=
  x.2.removals = 0 → x.1.server.Connected i sock

/-- **A step in which the peer is not removed leaves it connected**, and one in which it is
removed drops it. -/
theorem tracks_step {x x' : State × Session.State} {a : Action ⊕ Session.Action}
    (hinv : SocketsInv p x.1) (h : Tracks i sock x) (hs : (dialogue p i sock ns).Step x a x') :
    Tracks i sock x' ∧ (x.2.removals = 0 → x'.2.removals ≠ 0 → Dropped i sock x'.1) := by
  rcases hs with ⟨a, ⟨hs, hdelivers⟩, hnone⟩ | ⟨a, b, ⟨hs, -⟩, hobs, hsession⟩ |
    ⟨b, hsession, hfree⟩
  · refine ⟨fun h0 => connected_of_other hinv (h h0) hs fun e he hwait htarget => ?_,
      fun h0 hc => absurd h0 hc⟩
    -- a chunk dispatched to the peer would be part of the dialogue
    obtain ⟨hvalid, hdata⟩ := hdelivers e he htarget
    rcases a with _ | ⟨accepted, chunk | ⟨read, error⟩⟩
    · exact hwait rfl
    · rename_i s s' r
      have hhandles : handles i s = true := by
        rcases hbatch : s.batch with _ | ⟨e', rest⟩
        · rw [hbatch] at he
          cases he
        · rw [hbatch] at he
          cases he
          exact handles_iff.mpr ⟨e, rest, hbatch, hvalid, htarget⟩
      rw [observed, if_pos ⟨h0, hhandles⟩] at hnone
      cases hnone
    · exact hdata accepted read error rfl
  · obtain ⟨accepted, chunk, rfl, rfl, h0, hhandles⟩ := observed_eq_some hobs
    obtain ⟨s', hdispatch, hcases⟩ := dispatch_data hinv (h h0) hhandles accepted chunk
    rcases hs with _ | ⟨_, _, -, -, hs⟩
    obtain rfl := Option.some.inj (hdispatch.symm.trans hs)
    rcases hsession with _ | _ | _ | ⟨_, rest, -, -⟩
    rcases hquit : isQuit chunk with _ | _
    · rw [hquit] at hcases
      refine ⟨fun _ => hcases, fun _ hc => absurd ?_ hc⟩
      simp [Session.State.handleClient, hquit, h0]
    · rw [hquit] at hcases
      refine ⟨fun hc => ?_, fun _ _ => hcases⟩
      simp [Session.State.handleClient, hquit] at hc
  · rcases hsession with _ | _ | _ | ⟨chunk, rest, -, -⟩
    · exact ⟨h, fun h0 hc => absurd h0 hc⟩
    · exact ⟨h, fun h0 hc => absurd h0 hc⟩
    · exact ⟨h, fun h0 hc => absurd h0 hc⟩
    · exact absurd rfl (hfree chunk)

/-- **The dialogue tracks the peer**: it is connected until it is removed, and dropped then. -/
theorem tracks_of_run (p : Process) (i : ℕ) (sock : Socket) (ns : List ℕ) :
    Session.RemovesWith (dialogue p i sock ns) (·.server.Connected i sock) (Dropped i sock) := by
  have htracks : ∀ tr x, (dialogue p i sock ns).Run tr x → Tracks i sock x := by
    intro tr x h
    refine h.invariant (I := fun _ x => Tracks i sock x) ?_ ?_
    · rintro x ⟨⟨-, hi⟩, -⟩ -
      exact hi
    · intro tr x a x' hrun ih hs
      obtain ⟨tr₁, h₁⟩ := reachable_dialogue hrun
      exact (tracks_step (socketsInv_of_run h₁) ih hs).1
  refine ⟨htracks, fun tr x h a x' hs => ?_⟩
  obtain ⟨tr₁, h₁⟩ := reachable_dialogue h
  exact (tracks_step (socketsInv_of_run h₁) (htracks tr x h) hs).2

/-- **The reactor takes every chunk**: when it calls `handleClient` for the peer, any bytes that
may be received are. -/
theorem exists_handle {tr : List (Action ⊕ Session.Action)} {x : State × Session.State}
    (h : (dialogue p i sock ns).Run tr x) (h0 : x.2.removals = 0) (hhandles : handles i x.1 = true)
    {rest : List UInt8} (hchunk : (Received.data chunk).Admissible)
    (hto : x.2.toServer = chunk ++ rest) :
    ∃ s', (dialogue p i sock ns).Step x (.inl (.dispatch none (.data chunk)))
      (s', x.2.handleClient chunk rest) := by
  obtain ⟨tr₁, h₁⟩ := reachable_dialogue h
  obtain ⟨s', hdispatch, -⟩ :=
    dispatch_data (socketsInv_of_run h₁) ((tracks_of_run p i sock ns).before tr x h h0) hhandles
      none chunk
  refine ⟨s', .joint _ (.handle chunk) ⟨.dispatch none _ (by rintro fd ⟨⟩) hchunk hdispatch, ?_⟩
    (if_pos ⟨h0, hhandles⟩) (.handle chunk rest hchunk hto)⟩
  intro e he htarget
  obtain ⟨e', rest', hbatch, hvalid, -⟩ := handles_iff.mp hhandles
  rw [hbatch] at he
  cases he
  refine ⟨hvalid, ?_⟩
  rintro accepted read error ⟨⟩

end Reactor

end Net

end LowLatency
