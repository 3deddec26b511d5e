import LowLatency.Net.ClientDialogue
import LowLatency.Net.ReactorDialogue

/-!
# Messages and chunks

The two servers in dialogue with one of their clients. The client sends messages, and what
`receive(buffer, 32)` returns are chunks of the stream; both servers answer each chunk. This
file says when that is what is wanted (`LowLatency.Net.one_reply_per_message_iff`), and shows
a client that is not removed although the server has received its `quit`.
-/

namespace LowLatency

namespace Net

open TransitionSystem (Along)
open Session (Answered AnsweredAll Whole quit)

/-! ### The result -/

/-- **One reply for each message, exactly while every chunk is whole**, in both servers: with
any peer of the reactor and any client of the other server, whatever the numbers of the
messages, the segmentation, and what the other clients and their threads do in between. The
removals counted are those of the server. -/
theorem one_reply_per_message_iff (p : Process) (ns : List ℕ) :
    (∀ i sock,
      Session.AnswersIff ns (Reactor.dialogue p i sock ns)
        (Along (Reactor.observed i) (Whole ns)) ∧
      Session.RemovesWith (Reactor.dialogue p i sock ns) (·.server.Connected i sock)
        (Reactor.Dropped i sock)) ∧
    ∀ j,
      Session.AnswersIff ns (ThreadPerClient.dialogue p j ns)
        (Along (ThreadPerClient.observed j) (Whole ns)) ∧
      Session.RemovesWith (ThreadPerClient.dialogue p j ns) (ThreadPerClient.Retains j)
        (ThreadPerClient.Removes p j) :=
  ⟨fun i sock => ⟨Session.answersIff ns _ _ _, Reactor.tracks_of_run p i sock ns⟩,
    fun j => ⟨Session.answersIff ns _ _ _, ThreadPerClient.tracks_of_run p j ns⟩⟩

/-! ### A dialogue

The first peer of the reactor, which sends the message `1`, cut into a first chunk and a
rest. -/

namespace Reactor

variable {chunk rest : List UInt8}

/-- The reactor has replied to the first chunk, the peer has received the first byte of the
reply and sent `quit`, and its descriptor is in the batch again. -/
def quitSent (chunk rest : List UInt8) : State × Session.State :=
  (peerEvent, ⟨.done, rest ++ quit, Session.execReport.tail, [chunk], 1, 0⟩)

/-- A chunk received from the peer that is not `quit`. -/
theorem dispatch_peerEvent (hquit : isQuit chunk = false) :
    dispatch none (.data chunk) peerEvent = some onePeer := by
  have hfetch : fetch ⟨epollIn, 5⟩ [] peerEvent = onePeer := by
    have htable : Function.update onePeer.peerSocketIndexTable 5
        (some ((onePeer.peerSocketIndexTable 5).getD 0)) = onePeer.peerSocketIndexTable :=
      Function.update_eq_self ..
    rw [fetch]
    exact congrArg (fun table => { onePeer with peerSocketIndexTable := table }) htable
  have hbatch : peerEvent.batch = [⟨epollIn, 5⟩] := rfl
  have htarget : dispatchTarget peerEvent ⟨epollIn, 5⟩ = some 0 := rfl
  have hvalid : isValidEvent ⟨epollIn, 5⟩ = true := by decide
  have hpeer : onePeer.server.peerSockets[0]? = some ⟨5, .connected⟩ := rfl
  rw [dispatch_cons hbatch, htarget, hfetch]
  simp only [hvalid, if_true, handleClient, hpeer, Option.bind_some, hquit]
  rfl

theorem run_quitSent (hmessage : Session.message 1 = chunk ++ rest)
    (hchunk : (Received.data chunk).Admissible) (hquit : isQuit chunk = false) :
    ∃ tr, (dialogue process 0 ⟨5, .connected⟩ [1]).Run tr (quitSent chunk rest) := by
  have hstart : (dialogue process 0 ⟨5, .connected⟩ [1]).Init (peerEvent, Session.start [1]) :=
    ⟨⟨run_peerEvent, rfl, rfl⟩, rfl⟩
  have hsent := (TransitionSystem.Run.start hstart).snoc
    (.own _ (.send (s := Session.start [1]) 1 [] rfl) (by rintro chunk ⟨⟩))
  have hdispatch : (serving process 0 ⟨5, .connected⟩).Step peerEvent
      (.dispatch none (.data chunk)) onePeer := by
    refine ⟨.dispatch none _ (by rintro fd ⟨⟩) hchunk (dispatch_peerEvent hquit), ?_⟩
    rintro e ⟨⟩ -
    exact ⟨rfl, by rintro _ _ _ ⟨⟩⟩
  have hhandled := hsent.snoc
    (.joint _ (.handle chunk) hdispatch rfl (.handle chunk rest hchunk hmessage))
  have hdelivered := hhandled.snoc
    (.own _ (.deliver [69] Session.execReport.tail [] rfl (by decide) rfl) (by rintro chunk ⟨⟩))
  have hlast := hdelivered.snoc (.own _ (.quit rfl) (by rintro chunk ⟨⟩))
  have hwait : (serving process 0 ⟨5, .connected⟩).Step onePeer .wait peerEvent :=
    ⟨.wait (s := onePeer) [⟨epollIn, 5⟩] rfl (by decide) (by decide), by rintro e ⟨⟩⟩
  have hagain := hlast.snoc (.silent .wait hwait rfl)
  simp only [Session.State.handleClient, hquit] at hagain
  exact ⟨_, hagain⟩

/-- All that the peer has sent is received at once. -/
theorem step_quitSent (chunk rest : List UInt8) (hmessage : Session.message 1 = chunk ++ rest)
    (hchunk : (Received.data chunk).Admissible) (hquit : isQuit chunk = false)
    (hrest : (Received.data (rest ++ quit)).Admissible) :
    ∃ tr a s', (dialogue process 0 ⟨5, .connected⟩ [1]).Run tr (quitSent chunk rest) ∧
      (dialogue process 0 ⟨5, .connected⟩ [1]).Step (quitSent chunk rest) a
        (s', (quitSent chunk rest).2.handleClient (rest ++ quit) []) := by
  obtain ⟨tr, hrun⟩ := run_quitSent hmessage hchunk hquit
  have hhandles : handles 0 peerEvent = true := by decide
  obtain ⟨s', hs⟩ := exists_handle hrun rfl hhandles hrest (List.append_nil _).symm
  exact ⟨tr, _, s', hrun, hs⟩

end Reactor

/-- With the message and `quit` in a chunk each, there are two replies, and the peer is
dropped. -/
theorem one_reply_per_message_whole : ∃ x : Reactor.State × Session.State,
    x.2.received = Session.stream [1] ∧ AnsweredAll [1] x.2 ∧
      Reactor.Dropped 0 ⟨5, .connected⟩ x.1 := by
  obtain ⟨tr, a, s', hrun, hs⟩ := Reactor.step_quitSent (Session.message 1) []
    rfl (by decide) (by decide) (by decide)
  obtain ⟨hanswers, hremoves⟩ :=
    (one_reply_per_message_iff Reactor.process [1]).1 0 ⟨5, .connected⟩
  have hall := (hanswers.all _ _ (hrun.snoc hs) rfl).mpr ⟨rfl, rfl⟩
  refine ⟨_, rfl, hall, hremoves.after tr _ hrun a _ hs rfl ?_⟩
  rw [hall.removals]
  exact one_ne_zero

/-- **A `quit` that goes unnoticed.** The first four letters of the message are a chunk, and
the reply to them makes the client send `quit`, so that the rest of the message and `quit` are
received together. After the first chunk there is a reply too many, and in the end the peer
is still connected. -/
theorem quit_unnoticed : ∃ tr a s',
    (Reactor.dialogue Reactor.process 0 ⟨5, .connected⟩ [1]).Run tr
      (Reactor.quitSent [109, 101, 115, 115] [97, 103, 101, 49]) ∧
    (Reactor.quitSent [109, 101, 115, 115] [97, 103, 101, 49]).2.replies = 1 ∧
    Session.completed (Session.messages [1])
      (Reactor.quitSent [109, 101, 115, 115] [97, 103, 101, 49]).2.received.length = 0 ∧
    (Reactor.dialogue Reactor.process 0 ⟨5, .connected⟩ [1]).Step
      (Reactor.quitSent [109, 101, 115, 115] [97, 103, 101, 49]) a s' ∧
    s'.2.received = Session.stream [1] ∧ s'.2.removals = 0 ∧
    s'.1.server.Connected 0 ⟨5, .connected⟩ ∧ ¬AnsweredAll [1] s'.2 := by
  obtain ⟨tr, a, s', hrun, hs⟩ := Reactor.step_quitSent [109, 101, 115, 115]
    [97, 103, 101, 49] rfl (by decide) (by decide) (by decide)
  have hconnected :=
    (Reactor.tracks_of_run Reactor.process 0 ⟨5, .connected⟩ [1]).before _ _ (hrun.snoc hs) rfl
  exact ⟨tr, a, _, hrun, rfl, rfl, hs, rfl, rfl, hconnected, fun hall => by cases hall.removals⟩

end Net

end LowLatency
