import LowLatency.Foundations.Observation
import LowLatency.Net.Socket
import Mathlib.Data.List.TakeWhile

/-!
# One client and the server that answers it

The dialogue of `clientThread` and `handleClient`. The client sends its messages one by one,
each once some bytes of a reply have arrived, and `quit` at the end; the server answers every
chunk that `receive(buffer, 32)` returns, and disconnects the client if the chunk is `quit`.
Between the two are streams of bytes, which the kernel cuts where it likes.

So what is answered is chunks, and what was sent is messages. They are the same thing as long
as every chunk brings the end of exactly one message, and `quit` arrives in a chunk of its own
(`LowLatency.Net.Session.Whole`); from the first chunk that does not, the number of replies is
wrong, or `quit` goes unnoticed (`LowLatency.Net.Session.answered_iff_whole`).

The client need not wait for the whole of a reply, so it may be ahead of the server. This is
how two of its messages can meet in the stream.
-/

namespace LowLatency

namespace Net

namespace Session

open TransitionSystem (Along)

/-! ### The messages -/

/-- The characters of `message << "message" << messageCounter`. -/
def message (messageCounter : ℕ) : List UInt8 :=
  [109, 101, 115, 115, 97, 103, 101] ++
    (Nat.toDigits 10 messageCounter).map fun c => c.toNat.toUInt8

/-- The characters of `quit`. -/
def quit : List UInt8 := [113, 117, 105, 116]

/-- The characters of `execReport << "Exec report "`. -/
def execReport : List UInt8 := [69, 120, 101, 99, 32, 114, 101, 112, 111, 114, 116, 32]

/-- The messages of a client that takes the numbers `ns` from `messageCounter`, with `quit` as
the last one. -/
def messages (ns : List ℕ) : List (List UInt8) := ns.map message ++ [quit]

/-- **The stream of a client.** -/
def stream (ns : List ℕ) : List UInt8 := (messages ns).flatten

/-- How many of the messages end within the first `n` bytes. -/
def completed : List (List UInt8) → ℕ → ℕ
  | [], _ => 0
  | m :: ms, n => if m.length ≤ n then completed ms (n - m.length) + 1 else 0

/-! ### The dialogue -/

/-- Where `clientThread` stands, with the numbers of the messages still to be sent. -/
inductive Client where
  /-- At the `send` of the next message, or of `quit`. -/
  | sending (ns : List ℕ) : Client
  /-- In `receive`. -/
  | receiving (ns : List ℕ) : Client
  /-- `quit` is sent. -/
  | done : Client

/-- The client, what is on its way between the two, and what the server has done. -/
structure State where
  client : Client
  /-- What has been sent to the server and not been received. -/
  toServer : List UInt8
  /-- What has been sent to the client and not been received. -/
  toClient : List UInt8
  /-- What the calls of `receive` in `handleClient` have returned. -/
  chunks : List (List UInt8)
  /-- How often `handleClient` has sent the report. -/
  replies : ℕ
  /-- How often `handleClient` has disconnected the client. -/
  removals : ℕ

/-- What the server has received. -/
def State.received (s : State) : List UInt8 := s.chunks.flatten

/-- The client has connected. -/
def start (ns : List ℕ) : State := ⟨.sending ns, [], [], [], 0, 0⟩

/-- `handleClient`, with the chunk received and the bytes behind it. -/
def State.handleClient (s : State) (chunk rest : List UInt8) : State :=
  { s with
    toServer := rest
    toClient := s.toClient ++ execReport
    chunks := s.chunks ++ [chunk]
    replies := s.replies + 1
    removals := s.removals + if isQuit chunk then 1 else 0 }

/-- What happens next. -/
inductive Action where
  /-- The client sends a message. -/
  | send (bytes : List UInt8) : Action
  /-- The client receives some bytes of the replies. -/
  | deliver (bytes : List UInt8) : Action
  /-- The server handles the chunk it has received. -/
  | handle (chunk : List UInt8) : Action

/-- The steps. No call of `receive` fails, so each takes some bytes off a stream. -/
inductive Step : State → Action → State → Prop
  | send {s : State} (n : ℕ) (ns : List ℕ) : s.client = .sending (n :: ns) →
      Step s (.send (message n))
        { s with client := .receiving ns, toServer := s.toServer ++ message n }
  | quit {s : State} : s.client = .sending [] →
      Step s (.send quit) { s with client := .done, toServer := s.toServer ++ quit }
  | deliver {s : State} (bytes rest : List UInt8) (ns : List ℕ) : s.client = .receiving ns →
      (Received.data bytes).Admissible → s.toClient = bytes ++ rest →
      Step s (.deliver bytes) { s with client := .sending ns, toClient := rest }
  | handle {s : State} (chunk rest : List UInt8) : (Received.data chunk).Admissible →
      s.toServer = chunk ++ rest → Step s (.handle chunk) (s.handleClient chunk rest)

/-- **The dialogue** with a client that sends the messages numbered `ns`. -/
def system (ns : List ℕ) : TransitionSystem State Action where
  Init s := s = start ns
  Step := Step

/-! ### What is expected of the server -/

/-- **What is expected of the server**: one reply for every message it has received to its
end, and one removal as soon as this is all of `quit`. -/
structure Answered (ns : List ℕ) (s : State) : Prop where
  replies : s.replies = completed (messages ns) s.received.length
  removals : s.removals = if s.received = stream ns then 1 else 0

/-- **The condition on a step**: the chunk handled brings the end of exactly one message, and
if that is the end of `quit`, it is nothing but `quit`. -/
def Whole (ns : List ℕ) (s : State) : Action → Prop
  | .handle chunk =>
    completed (messages ns) (s.received ++ chunk).length =
      completed (messages ns) s.received.length + 1 ∧
    (s.received ++ chunk = stream ns → chunk = quit)
  | _ => True

/-- **What is expected of the server in the end**: as many replies as messages, and one
removal. -/
structure AnsweredAll (ns : List ℕ) (s : State) : Prop where
  replies : s.replies = ns.length + 1
  removals : s.removals = 1

/-! ### The bytes of the messages -/

/-- The characters of a message are letters of `message` and digits. -/
theorem mem_message {n : ℕ} {b : UInt8} (h : b ∈ message n) :
    b ∈ [109, 101, 115, 97, 103] ∨ 48 ≤ b.toNat ∧ b.toNat ≤ 57 := by
  rcases List.mem_append.mp h with h | h
  · have hsub : ([109, 101, 115, 115, 97, 103, 101] : List UInt8) ⊆ [109, 101, 115, 97, 103] := by
      decide
    exact .inl (hsub h)
  · obtain ⟨c, hc, rfl⟩ := List.mem_map.mp h
    have hdigit := Char.isDigit_iff_toNat.mp
      (Nat.isDigit_of_mem_toDigits (by decide) (by decide) hc)
    have hlow : 48 ≤ c.toNat := hdigit.1
    have hhigh : c.toNat ≤ 57 := hdigit.2
    refine .inr ?_
    rw [Nat.toUInt8_eq, UInt8.toNat_ofNat_of_lt' (show c.toNat < 256 by omega)]
    exact ⟨hlow, hhigh⟩

/-- There is no `q` in a message. -/
theorem q_notMem_message (n : ℕ) : 113 ∉ message n := by
  intro h
  rcases mem_message h with h | h
  · revert h
    decide
  · revert h
    decide

/-- There is no null byte in the stream. -/
theorem zero_notMem_stream (ns : List ℕ) : 0 ∉ stream ns := by
  intro h
  obtain ⟨m, hm, h⟩ := List.mem_flatten.mp h
  rcases List.mem_append.mp hm with hm | hm
  · obtain ⟨n, -, rfl⟩ := List.mem_map.mp hm
    rcases mem_message h with h | h
    · revert h
      decide
    · revert h
      decide
  · rw [List.mem_singleton.mp hm] at h
    revert h
    decide

theorem stream_eq (ns : List ℕ) : stream ns = (ns.map message).flatten ++ quit := by
  rw [stream, messages, List.flatten_append, List.flatten_singleton]

theorem stream_cons (n : ℕ) (ns : List ℕ) : stream (n :: ns) = message n ++ stream ns := rfl

/-- The test of `handleClient`, on bytes of the stream. -/
theorem isQuit_iff {chunk : List UInt8} (h : 0 ∉ chunk) : isQuit chunk = true ↔ chunk = quit := by
  have htake : chunk.takeWhile (· ≠ 0) = chunk := by
    refine List.takeWhile_eq_self_iff.mpr fun b hb => decide_eq_true ?_
    rintro rfl
    exact h hb
  rw [isQuit, htake, decide_eq_true_iff]
  rfl

/-- **The letters of `quit` stand at the end of the stream only.** -/
theorem eq_of_quit {ns : List ℕ} {x y : List UInt8} (h : x ++ quit ++ y = stream ns) :
    x ++ quit = stream ns := by
  have hq : (113 : UInt8) ∉ (ns.map message).flatten := by
    intro hmem
    obtain ⟨m, hm, hmem⟩ := List.mem_flatten.mp hmem
    obtain ⟨n, -, rfl⟩ := List.mem_map.mp hm
    exact q_notMem_message n hmem
  rw [stream_eq, List.append_assoc] at h
  have hsplit : (ns.map message).flatten ++ 113 :: [117, 105, 116] =
      x ++ 113 :: ([117, 105, 116] ++ y) := h.symm
  obtain ⟨heq, -, -⟩ := (List.append_cons_inj_of_notMem hq (by decide)).mp hsplit
  rw [stream_eq, heq]

/-- All messages end within the stream. -/
theorem completed_flatten (ms : List (List UInt8)) :
    completed ms ms.flatten.length = ms.length := by
  induction ms with
  | nil => rfl
  | cons m ms ih =>
    rw [List.flatten_cons, List.length_append, completed, if_pos (Nat.le_add_right _ _),
      Nat.add_sub_cancel_left, ih, List.length_cons]

/-- None ends before its first byte. -/
theorem completed_zero (ns : List ℕ) : completed (messages ns) 0 = 0 := by
  cases ns with
  | nil => rfl
  | cons n ns => exact if_neg (Nat.not_succ_le_zero _)

/-! ### Nothing is lost between the two -/

variable {ns : List ℕ} {s s' : State} {a : Action} {tr : List Action}

/-- What the client has still to send. -/
def Client.remaining : Client → List UInt8
  | .sending ns => stream ns
  | .receiving ns => stream ns
  | .done => []

@[simp] theorem received_handleClient (s : State) (chunk rest : List UInt8) :
    (s.handleClient chunk rest).received = s.received ++ chunk := by
  rw [State.received, State.handleClient, List.flatten_append, List.flatten_singleton,
    State.received]

/-- What has been received, is on its way and is still to be sent is the stream. -/
def Conserved (ns : List ℕ) (s : State) : Prop :=
  s.received ++ s.toServer ++ s.client.remaining = stream ns

theorem Conserved.step (h : Conserved ns s) (hs : Step s a s') : Conserved ns s' := by
  rw [Conserved] at h ⊢
  rcases hs with ⟨n, ns', hpc⟩ | hpc | ⟨bytes, rest, ns', hpc, -, -⟩ | ⟨chunk, rest, -, hto⟩
  · rw [← h, hpc]
    simp [State.received, Client.remaining, stream_cons]
  · rw [← h, hpc]
    simp [State.received, Client.remaining, stream_eq]
  · rw [← h, hpc]
    rfl
  · rw [← h, hto, received_handleClient]
    simp [State.handleClient]

theorem conserved_of_run (h : (system ns).Run tr s) : Conserved ns s := by
  refine h.invariant (I := fun _ s => Conserved ns s) ?_ fun _ _ _ _ _ ih hs => ih.step hs
  rintro s rfl
  rfl

/-! ### What a chunk does -/

/-- The bytes before a chunk, the chunk, and those behind it. -/
theorem Conserved.handle (h : Conserved ns s) {chunk rest : List UInt8}
    (hto : s.toServer = chunk ++ rest) :
    s.received ++ chunk ++ (rest ++ s.client.remaining) = stream ns := by
  rw [← (h : _ = stream ns), hto]
  simp only [List.append_assoc]

/-- Before a chunk, the stream has not been received to its end. -/
theorem Conserved.received_ne (h : Conserved ns s) {chunk rest : List UInt8}
    (hchunk : (Received.data chunk).Admissible) (hto : s.toServer = chunk ++ rest) :
    s.received ≠ stream ns := by
  intro hall
  have hlen := congrArg List.length ((h.handle hto).trans hall.symm)
  have hpos := hchunk.1
  simp only [List.length_append] at hlen
  omega

/-- **`handleClient` disconnects the client** if the chunk is `quit`. -/
theorem Conserved.isQuit_iff (h : Conserved ns s) {chunk rest : List UInt8}
    (hto : s.toServer = chunk ++ rest) : isQuit chunk = true ↔ chunk = quit := by
  refine Session.isQuit_iff fun hmem => zero_notMem_stream ns ?_
  rw [← h.handle hto]
  simp [hmem]

/-- The server has sent as many replies as it has received chunks, and removed the client if
the last of them was `quit`. -/
structure Counted (s : State) : Prop where
  replies : s.replies = s.chunks.length
  removals : s.removals = if s.chunks.getLast? = some quit then 1 else 0

theorem Counted.step (h : Counted s) (hconserved : Conserved ns s) (hs : Step s a s') :
    Counted s' := by
  rcases hs with ⟨n, ns', -⟩ | - | ⟨bytes, rest, ns', -, -, -⟩ | ⟨chunk, rest, hchunk, hto⟩
  · exact ⟨h.replies, h.removals⟩
  · exact ⟨h.replies, h.removals⟩
  · exact ⟨h.replies, h.removals⟩
  · constructor
    · show s.replies + 1 = (s.chunks ++ [chunk]).length
      rw [h.replies, List.length_append, List.length_singleton]
    · -- after `quit` there is nothing left to receive
      have hbefore : s.removals = 0 := by
        rw [h.removals, if_neg]
        intro hlast
        obtain ⟨chunks, hchunks⟩ := List.getLast?_eq_some_iff.mp hlast
        have hreceived : s.received = chunks.flatten ++ quit := by
          rw [State.received, hchunks, List.flatten_append, List.flatten_singleton]
        refine hconserved.received_ne hchunk hto ?_
        rw [hreceived]
        refine eq_of_quit (y := chunk ++ (rest ++ s.client.remaining)) ?_
        rw [← hreceived, ← List.append_assoc]
        exact hconserved.handle hto
      show s.removals + (if isQuit chunk then 1 else 0) =
        if (s.chunks ++ [chunk]).getLast? = some quit then 1 else 0
      rw [hbefore, Nat.zero_add, List.getLast?_concat]
      simp only [hconserved.isQuit_iff hto, Option.some_inj]

theorem counted_of_run (h : (system ns).Run tr s) : Counted s := by
  refine h.invariant (I := fun _ s => Counted s) ?_ fun _ _ _ _ hrun ih hs =>
    ih.step (conserved_of_run hrun) hs
  rintro s rfl
  exact ⟨rfl, rfl⟩

/-! ### The result -/

theorem answered_start (ns : List ℕ) : Answered ns (start ns) := by
  have hne : [] ≠ stream ns := by
    rw [stream_eq]
    exact (List.append_ne_nil_of_right_ne_nil _ (by decide)).symm
  exact ⟨(completed_zero ns).symm, (if_neg hne).symm⟩

/-- **The server is as expected after a chunk** that is whole, and after no other. -/
theorem Answered.handle (h : Answered ns s) (hconserved : Conserved ns s) {chunk rest : List UInt8}
    (hchunk : (Received.data chunk).Admissible) (hto : s.toServer = chunk ++ rest) :
    Answered ns (s.handleClient chunk rest) ↔ Whole ns s (.handle chunk) := by
  have hbefore : s.removals = 0 := by
    rw [h.removals, if_neg (hconserved.received_ne hchunk hto)]
  have hend : chunk = quit → s.received ++ chunk = stream ns := by
    rintro rfl
    exact eq_of_quit (hconserved.handle hto)
  have hremovals : (s.removals + if isQuit chunk then 1 else 0) =
      (if s.received ++ chunk = stream ns then 1 else 0) ↔
      (s.received ++ chunk = stream ns → chunk = quit) := by
    rw [hbefore, Nat.zero_add]
    by_cases hquit : chunk = quit
    · rw [if_pos ((hconserved.isQuit_iff hto).mpr hquit), if_pos (hend hquit)]
      exact iff_of_true rfl fun _ => hquit
    · rw [if_neg (mt (hconserved.isQuit_iff hto).mp hquit)]
      split_ifs with hall
      · exact iff_of_false (by decide) fun hc => hquit (hc hall)
      · exact iff_of_true rfl fun hc => absurd hc hall
  constructor
  · rintro ⟨hreplies, hrem⟩
    rw [received_handleClient] at hreplies hrem
    refine ⟨?_, hremovals.mp hrem⟩
    rw [← h.replies]
    exact hreplies.symm
  · rintro ⟨hreplies, hwhole⟩
    constructor
    · rw [received_handleClient, hreplies, ← h.replies]
      rfl
    · rw [received_handleClient]
      exact hremovals.mpr hwhole

/-- **One reply for each message, exactly while every chunk is whole.** In a dialogue all of
whose chunks bring the end of one message each, and `quit` by itself, the server is as
expected; and from such a state, a step leads to a state as expected exactly if it is such a
step. -/
theorem answered_iff_whole (h : ((system ns).restrict (Whole ns)).Run tr s) :
    Answered ns s ∧ ∀ a s', Step s a s' → (Answered ns s' ↔ Whole ns s a) := by
  have hstep : ∀ {s a s'}, Answered ns s → Conserved ns s → Step s a s' →
      (Answered ns s' ↔ Whole ns s a) := by
    intro s a s' hok hconserved hs
    rcases hs with ⟨n, ns', hpc⟩ | hpc | ⟨bytes, rest, ns', hpc, -, -⟩ | ⟨chunk, rest, hc, hto⟩
    · exact iff_of_true ⟨hok.replies, hok.removals⟩ trivial
    · exact iff_of_true ⟨hok.replies, hok.removals⟩ trivial
    · exact iff_of_true ⟨hok.replies, hok.removals⟩ trivial
    · exact hok.handle hconserved hc hto
  have hok : Answered ns s := by
    refine h.invariant (I := fun _ s => Answered ns s) ?_ ?_
    · rintro s rfl
      exact answered_start ns
    · intro tr s a s' hrun ih hs
      exact (hstep ih (conserved_of_run hrun.of_restrict) hs.1).mpr hs.2
  exact ⟨hok, fun a s' hs => hstep hok (conserved_of_run h.of_restrict) hs⟩

/-- If the server is as expected when it has received the stream, it has answered all. -/
theorem Answered.all (h : Answered ns s) (hall : s.received = stream ns) : AnsweredAll ns s := by
  constructor
  · rw [h.replies, hall, stream, completed_flatten, messages, List.length_append, List.length_map,
      List.length_singleton]
  · rw [h.removals, if_pos hall]

/-- **In the end the counts are right** exactly if there were as many chunks as messages, the
last of them `quit`. -/
theorem answeredAll_iff (h : (system ns).Run tr s) :
    AnsweredAll ns s ↔ s.chunks.length = ns.length + 1 ∧ s.chunks.getLast? = some quit := by
  obtain ⟨hreplies, hremovals⟩ := counted_of_run h
  constructor
  · rintro ⟨hr, hm⟩
    refine ⟨hreplies.symm.trans hr, ?_⟩
    by_contra hc
    rw [hremovals, if_neg hc] at hm
    cases hm
  · rintro ⟨hlen, hlast⟩
    exact ⟨hreplies.trans hlen, by rw [hremovals, if_pos hlast]⟩

/-! ### The dialogue beside a server -/

/-- **What a dialogue comes to** in the system `D`, where `C` is the condition on its steps: the
server is as expected of every state as long as the steps meet the condition, and of the state
after the next step exactly if that one does; and when it has received all of the stream, the
counts are right exactly if the number of chunks was, and the last of them was `quit`. -/
structure AnswersIff {σ α : Type*} (ns : List ℕ) (D : TransitionSystem (σ × State) α)
    (C : σ × State → α → Prop) : Prop where
  each : ∀ tr x, (D.restrict C).Run tr x →
    Answered ns x.2 ∧ ∀ a x', D.Step x a x' → (Answered ns x'.2 ↔ C x a)
  all : ∀ tr x, D.Run tr x → x.2.received = stream ns →
    (AnsweredAll ns x.2 ↔ x.2.chunks.length = ns.length + 1 ∧ x.2.chunks.getLast? = some quit)

/-- **The dialogue comes to this beside every system** that carries it on. -/
theorem answersIff {σ α : Type*} (ns : List ℕ) (M : TransitionSystem σ α)
    (obs : σ → State → α → Option Action) (Free : Action → Prop) :
    AnswersIff ns (M.observe (system ns) obs Free) (Along obs (Whole ns)) := by
  constructor
  · intro tr x h
    exact TransitionSystem.restrict_observe (fun _ _ h' => answered_iff_whole h') h
  · intro tr x h _
    obtain ⟨tr', h'⟩ := TransitionSystem.reachable_snd h
    exact answeredAll_iff h'

/-- **The removals of a dialogue are those of the server** beside it: the client is retained
until the dialogue says that it has been removed, and is removed in this step. -/
structure RemovesWith {σ α : Type*} (D : TransitionSystem (σ × State) α)
    (Retained Removed : σ → Prop) : Prop where
  before : ∀ tr x, D.Run tr x → x.2.removals = 0 → Retained x.1
  after : ∀ tr x, D.Run tr x → ∀ a x', D.Step x a x' → x.2.removals = 0 → x'.2.removals ≠ 0 →
    Removed x'.1

end Session

end Net

end LowLatency
