import LowLatency.Foundations.Transition
import LowLatency.Net.Connector
import LowLatency.Net.Session
import Mathlib.Data.Finset.Option

/-!
# The client

The function `clientThread` of the test program: it connects, sends its messages, each after some
bytes of the reply to the one before, and `quit` at the end. A connection that is lost is
replaced by a new one, on which the message is sent again. A step is one call of the kernel or
one of the tests in between; what the kernel answers is a parameter of the step. Other threads of
the process may open and close descriptors of their own at any time.

The inner loop ends with a reply, but also when `receive` has returned `0`, and then the client
goes on without one (`LowLatency.Net.ClientAutomation.lockstep_iff`).
-/

namespace LowLatency

namespace Net

/-- What `receive` returns: the number of bytes, or the result that is not positive. -/
def Received.result : Received → ℤ
  | .data bytes => bytes.length
  | .failed read _ => read

/-- `::socket` opens a descriptor, in blocking mode. -/
def Kernel.socket (k : Kernel) : Option Descriptor → Kernel
  | none => k
  | some fd =>
    { k with opened := insert fd k.opened, nonBlocking := k.nonBlocking.erase fd }

namespace ClientAutomation

/-! ### The function -/

/-- The two loops that call `connector->connect` until it succeeds: at the beginning, and after a
connection has been lost. -/
inductive Trial where
  | first : Trial
  | again : Trial
  deriving DecidableEq

/-- Where `clientThread` stands. -/
inductive Pc where
  /-- At `::socket`, in `connector->connect`. -/
  | socket (trial : Trial) : Pc
  /-- At `::connect`, in `connector->connect`. -/
  | connect (trial : Trial) : Pc
  /-- At the condition of the loop over the messages. -/
  | iterate : Pc
  /-- At the condition `res != 0`. -/
  | test : Pc
  | receive : Pc
  /-- At the test of what `receive` has returned. -/
  | handle (received : Received) : Pc
  /-- At `serverSocket->close()`, where `isConnectionLost` has answered `true`. -/
  | close : Pc
  /-- At `connector.reset`. -/
  | reset : Pc
  /-- At the `send` after a connection has been replaced. -/
  | resend : Pc
  /-- `quit` is sent, and the connector is to be destroyed. -/
  | quit : Pc
  | done : Pc

/-- The thread stands in an iteration of the loop over the messages. -/
@[simp] def Pc.inIteration : Pc → Bool
  | .socket .again | .connect .again | .test | .receive | .handle _ | .close | .reset | .resend =>
    true
  | _ => false

/-- The locals, the kernel, and which of the open descriptors the thread has created. -/
structure State where
  /-- `m_socket` of `*connector`, to which `serverSocket` points. -/
  connector : Socket
  i : ℕ
  message : List UInt8
  res : ℤ
  pc : Pc
  kernel : Kernel
  created : Finset Descriptor

/-- `m_socket.close()`, of `serverSocket->close()` and of the destructor. -/
def State.close (s : State) : State :=
  { s with
    connector := s.connector.close.1
    kernel := s.kernel.closeAny s.connector.close.2
    created := s.created \ s.connector.close.2.toFinset }

/-- What happens next. -/
inductive Action where
  /-- `::socket`, with the descriptor it returns. -/
  | socket (fd : Option Descriptor) : Action
  /-- `::connect`, and whether it succeeds. -/
  | connect (established : Bool) : Action
  | send (message : List UInt8) : Action
  /-- The test of `res != 0` is passed. -/
  | test : Action
  | receive (received : Received) : Action
  /-- A result that is not positive is handled. -/
  | handle : Action
  | close : Action
  | reset : Action
  | resend (message : List UInt8) : Action
  /-- The iteration ends. -/
  | leave : Action
  | quit : Action
  /-- The connector is destroyed. -/
  | exit : Action
  /-- Another thread opens or closes descriptors. -/
  | other : Action

/-- The steps. The numbers of the messages are taken from a counter that all clients share. -/
inductive Step (messageIteration : Int32) : State → Action → State → Prop
  | socket {s : State} (trial : Trial) (fd : Option Descriptor) : s.pc = .socket trial →
      (∀ x ∈ fd, s.kernel.Fresh x) →
      Step messageIteration s (.socket fd)
        { s with
          connector := (s.connector.create fd).2
          kernel := s.kernel.socket fd
          created := fd.toFinset ∪ s.created
          pc := .connect trial }
  | connect {s : State} (trial : Trial) (established : Bool) : s.pc = .connect trial →
      (established = true → 0 ≤ s.connector.socketDescriptor) →
      Step messageIteration s (.connect established)
        { s with
          connector := (s.connector.connect established).2
          pc := match (s.connector.connect established).1, trial with
            | false, trial => .socket trial
            | true, .first => .iterate
            | true, .again => .resend }
  | send {s : State} (messageCounter : ℕ) : s.pc = .iterate → s.i < messageIteration.toInt →
      Step messageIteration s (.send (Session.message messageCounter))
        { s with message := Session.message messageCounter, res := -1, pc := .test }
  | test {s : State} : s.pc = .test → s.res ≠ 0 →
      Step messageIteration s .test { s with pc := .receive }
  | receive {s : State} (received : Received) : s.pc = .receive → received.Admissible →
      Step messageIteration s (.receive received)
        { s with res := received.result, pc := .handle received }
  | handle {s : State} (read error : ℤ) : s.pc = .handle (.failed read error) →
      Step messageIteration s .handle
        { s with
          connector := (s.connector.isConnectionLost error).2
          pc := if (s.connector.isConnectionLost error).1 then .close else .test }
  | close {s : State} : s.pc = .close →
      Step messageIteration s .close { s.close with pc := .reset }
  | reset {s : State} : s.pc = .reset →
      Step messageIteration s .reset
        { s.close with connector := ⟨0, .disconnected⟩, pc := .socket .again }
  | resend {s : State} : s.pc = .resend →
      Step messageIteration s (.resend s.message) { s with pc := .test }
  /-- The `break`. -/
  | leaveReply {s : State} (bytes : List UInt8) : s.pc = .handle (.data bytes) →
      Step messageIteration s .leave { s with i := s.i + 1, pc := .iterate }
  | leave {s : State} : s.pc = .test → s.res = 0 →
      Step messageIteration s .leave { s with i := s.i + 1, pc := .iterate }
  | quit {s : State} : s.pc = .iterate → ¬(s.i : ℤ) < messageIteration.toInt →
      Step messageIteration s .quit { s with pc := .quit }
  | exit {s : State} : s.pc = .quit → Step messageIteration s .exit { s.close with pc := .done }
  | other {s : State} (kernel : Kernel) : s.created ⊆ kernel.opened → 0 ∈ kernel.opened →
      Step messageIteration s .other { s with kernel := kernel }

/-- **The client.** Its process has the standard input, from which `main` has read. -/
def system (messageIteration : Int32) : TransitionSystem State Action where
  Init s := s.connector = ⟨0, .disconnected⟩ ∧ s.i = 0 ∧ s.pc = .socket .first ∧
    0 ∈ s.kernel.opened ∧ s.created = ∅
  Step := Step messageIteration

variable {messageIteration : Int32} {s s' : State} {tr : List Action} {a : Action}

/-! ### Replies -/

/-- Whether there is a reply after an action, if there was one before as `b` says. -/
def Action.answers (b : Bool) : Action → Bool
  | .send _ | .reset | .resend _ => false
  | .receive (.data _) => true
  | _ => b

/-- **There is a reply**: some bytes have been received since the message was last sent, on the
connection on which it was. -/
def answered (tr : List Action) : Bool := tr.foldl Action.answers false

/-- How often `receive` has returned some bytes. -/
def replies (tr : List Action) : ℕ := tr.countP fun a => a matches .receive (.data _)

/-- How often `receive` has returned `0`. -/
def ends (tr : List Action) : ℕ := tr.countP fun a => a matches .receive (.failed 0 _)

/-- **Every iteration has ended with a reply.** -/
def AllAnswered (tr : List Action) : Prop :=
  ∀ tr', tr' ++ [.leave] <+: tr → answered tr' = true

@[simp] theorem answered_snoc (tr : List Action) (a : Action) :
    answered (tr ++ [a]) = a.answers (answered tr) := List.foldl_concat ..

theorem replies_snoc (tr : List Action) (a : Action) :
    replies (tr ++ [a]) = replies tr + if a matches .receive (.data _) then 1 else 0 := by
  rw [replies, List.countP_append, List.countP_singleton]
  rfl

theorem ends_snoc (tr : List Action) (a : Action) :
    ends (tr ++ [a]) = ends tr + if a matches .receive (.failed 0 _) then 1 else 0 := by
  rw [ends, List.countP_append, List.countP_singleton]
  rfl

theorem allAnswered_snoc :
    AllAnswered (tr ++ [a]) ↔ AllAnswered tr ∧ (a = .leave → answered tr = true) := by
  constructor
  · intro h
    refine ⟨fun tr' hinit => h tr' (hinit.trans (List.prefix_append tr [a])), ?_⟩
    rintro rfl
    exact h tr (List.prefix_refl _)
  · rintro ⟨h, hleave⟩ tr' hinit
    rcases List.prefix_concat_iff.mp hinit with heq | hinit
    · obtain ⟨rfl, rfl⟩ : tr' = tr ∧ a = .leave := by
        have hinj := List.append_inj' heq rfl
        exact ⟨hinj.1, (List.singleton_inj.mp hinj.2).symm⟩
      exact hleave rfl
    · exact h tr' hinit

/-! ### Along a run -/

/-- **The invariant of an iteration**: before its end there is no reply, and `res` says so. -/
structure Inv (tr : List Action) (s : State) : Prop where
  unanswered : s.pc.inIteration = true → (∀ bytes, s.pc ≠ .handle (.data bytes)) →
    answered tr = false ∧ s.res ≤ 0
  waiting : s.pc = .receive → s.res ≠ 0
  reply : ∀ bytes, s.pc = .handle (.data bytes) → answered tr = true ∧ 0 < s.res

theorem inv_init (hs : (system messageIteration).Init s) : Inv [] s := by
  obtain ⟨-, -, hpc, -⟩ := hs
  constructor
  all_goals simp [hpc]

/-- Between two iterations there is nothing to say. -/
theorem Inv.outside (hpc : s.pc.inIteration = false) : Inv tr s := by
  refine ⟨fun hc => ?_, fun hc => ?_, fun bytes hc => ?_⟩
  · exact absurd hc (hpc ▸ Bool.false_ne_true)
  · rw [hc] at hpc
    cases hpc
  · rw [hc] at hpc
    cases hpc

/-- Before the end of an iteration. -/
theorem Inv.inside (hanswered : answered tr = false) (hres : s.res ≤ 0)
    (hwaiting : s.pc = .receive → s.res ≠ 0) (hreply : ∀ bytes, s.pc ≠ .handle (.data bytes)) :
    Inv tr s :=
  ⟨fun _ _ => ⟨hanswered, hres⟩, hwaiting, fun bytes hc => absurd hc (hreply bytes)⟩

/-- **The invariant is kept by every step.** -/
theorem Inv.step (h : Inv tr s) (hs : (system messageIteration).Step s a s') :
    Inv (tr ++ [a]) s' := by
  rcases hs with ⟨trial, fd, hpc, -⟩ | ⟨trial, established, hpc, -⟩ | ⟨n, hpc, -⟩ | ⟨hpc, hres⟩ |
    ⟨received, hpc, hadm⟩ | ⟨read, error, hpc⟩ | hpc | hpc | hpc | ⟨bytes, hpc⟩ | ⟨hpc, -⟩ |
    ⟨hpc, -⟩ | hpc | -
  · rcases trial with _ | _
    · exact .outside rfl
    · obtain ⟨hanswered, hres⟩ := h.unanswered (by rw [hpc]; rfl) (by rw [hpc]; rintro _ ⟨⟩)
      exact .inside ((answered_snoc ..).trans hanswered) hres (by rintro ⟨⟩) (by rintro _ ⟨⟩)
  · rcases trial with _ | _
    · rcases established with _ | _
      · exact .outside rfl
      · exact .outside rfl
    · obtain ⟨hanswered, hres⟩ := h.unanswered (by rw [hpc]; rfl) (by rw [hpc]; rintro _ ⟨⟩)
      rcases established with _ | _
      · exact .inside ((answered_snoc ..).trans hanswered) hres (by rintro ⟨⟩) (by rintro _ ⟨⟩)
      · exact .inside ((answered_snoc ..).trans hanswered) hres (by rintro ⟨⟩) (by rintro _ ⟨⟩)
  · exact .inside (answered_snoc ..) (by show (-1 : ℤ) ≤ 0; decide) (by rintro ⟨⟩) (by rintro _ ⟨⟩)
  · obtain ⟨hanswered, hle⟩ := h.unanswered (by rw [hpc]; rfl) (by rw [hpc]; rintro _ ⟨⟩)
    exact .inside ((answered_snoc ..).trans hanswered) hle (fun _ => hres) (by rintro _ ⟨⟩)
  · obtain ⟨hanswered, -⟩ := h.unanswered (by rw [hpc]; rfl) (by rw [hpc]; rintro _ ⟨⟩)
    rcases received with bytes | ⟨read, error⟩
    · refine ⟨fun _ hc => absurd rfl (hc bytes), by rintro ⟨⟩, fun _ _ => ⟨answered_snoc .., ?_⟩⟩
      exact Int.natCast_pos.mpr hadm.1
    · have hread : read ≤ 0 := by
        rcases hadm with rfl | rfl
        · exact le_refl 0
        · decide
      exact .inside ((answered_snoc ..).trans hanswered) hread (by rintro ⟨⟩) (by rintro _ ⟨⟩)
  · obtain ⟨hanswered, hres⟩ := h.unanswered (by rw [hpc]; rfl) (by rw [hpc]; rintro _ ⟨⟩)
    refine .inside ((answered_snoc ..).trans hanswered) hres ?_ ?_
    · dsimp only
      split_ifs
      · rintro ⟨⟩
      · rintro ⟨⟩
    · dsimp only
      split_ifs
      · rintro _ ⟨⟩
      · rintro _ ⟨⟩
  · obtain ⟨hanswered, hres⟩ := h.unanswered (by rw [hpc]; rfl) (by rw [hpc]; rintro _ ⟨⟩)
    exact .inside ((answered_snoc ..).trans hanswered) hres (by rintro ⟨⟩) (by rintro _ ⟨⟩)
  · obtain ⟨-, hres⟩ := h.unanswered (by rw [hpc]; rfl) (by rw [hpc]; rintro _ ⟨⟩)
    exact .inside (answered_snoc ..) hres (by rintro ⟨⟩) (by rintro _ ⟨⟩)
  · obtain ⟨-, hres⟩ := h.unanswered (by rw [hpc]; rfl) (by rw [hpc]; rintro _ ⟨⟩)
    exact .inside (answered_snoc ..) hres (by rintro ⟨⟩) (by rintro _ ⟨⟩)
  · exact .outside rfl
  · exact .outside rfl
  · exact .outside rfl
  · exact .outside rfl
  · exact ⟨fun hin hne => (answered_snoc ..).symm ▸ h.unanswered hin hne, h.waiting,
      fun bytes hc => (answered_snoc ..).symm ▸ h.reply bytes hc⟩

theorem inv_of_run (hrun : (system messageIteration).Run tr s) : Inv tr s :=
  hrun.invariant (I := Inv) (fun _ => inv_init) fun _ _ _ _ _ h hs => h.step hs

/-- The iteration is going to end, with a reply or without. -/
def State.ending (s : State) : ℕ := if s.pc.inIteration = true ∧ 0 ≤ s.res then 1 else 0

/-- **The iterations counted**: each ends with a reply or with a `receive` that returns `0`. -/
theorem iterations_eq (hrun : (system messageIteration).Run tr s) :
    s.i + s.ending = replies tr + ends tr := by
  refine hrun.invariant (I := fun tr s => s.i + s.ending = replies tr + ends tr) ?_ ?_
  · rintro s ⟨-, hi, hpc, -⟩
    simp [hi, hpc, State.ending, replies, ends]
  · intro tr s a s' hrun ih hs
    have hinv := inv_of_run hrun
    rw [replies_snoc, ends_snoc]
    rcases hs with ⟨trial, fd, hpc, -⟩ | ⟨trial, established, hpc, -⟩ | ⟨n, hpc, -⟩ | ⟨hpc, hres⟩ |
      ⟨received, hpc, hadm⟩ | ⟨read, error, hpc⟩ | hpc | hpc | hpc | ⟨bytes, hpc⟩ | ⟨hpc, hres⟩ |
      ⟨hpc, -⟩ | hpc | -
    · rcases trial with _ | _
      all_goals simpa [State.ending, hpc] using ih
    · rcases trial with _ | _
      all_goals rcases established with _ | _
      all_goals simpa [State.ending, hpc, Socket.connect] using ih
    · simpa [State.ending, hpc] using ih
    · simpa [State.ending, hpc] using ih
    · -- no result has been pending
      have hneg : ¬0 ≤ s.res := fun hc => hinv.waiting hpc
        (le_antisymm (hinv.unanswered (by rw [hpc]; rfl) (by rw [hpc]; rintro _ ⟨⟩)).2 hc)
      have hold : s.i = replies tr + ends tr := by simpa [State.ending, hneg] using ih
      rcases received with bytes | ⟨read, error⟩
      · simp [State.ending, Received.result, hold]
        omega
      · rcases hadm with rfl | rfl
        · simp [State.ending, Received.result, hold]
          omega
        · simp [State.ending, Received.result, hold]
    · rcases hlost : Socket.lostError error with _ | _
      all_goals simpa [State.ending, hpc, Socket.isConnectionLost, hlost] using ih
    · simpa [State.ending, State.close, hpc] using ih
    · simpa [State.ending, State.close, hpc] using ih
    · simpa [State.ending, hpc] using ih
    · have hpos := (hinv.reply bytes hpc).2
      simpa [State.ending, hpc, hpos.le] using ih
    · simpa [State.ending, hpc, hres] using ih
    · simpa [State.ending, hpc] using ih
    · simpa [State.ending, State.close, hpc] using ih
    · simpa [State.ending] using ih

/-- The iteration is going to end without a reply. -/
def State.skipping (s : State) : ℕ := if s.pc.inIteration = true ∧ s.res = 0 then 1 else 0

/-- **Iterations without a reply** come from the calls of `receive` that return `0`. -/
structure Skips (tr : List Action) (s : State) : Prop where
  skipping_le : s.skipping ≤ ends tr
  allAnswered : ends tr = 0 → AllAnswered tr
  ends_eq : AllAnswered tr → ends tr = s.skipping

/-- A step that neither ends an iteration nor receives the end of the stream. -/
theorem Skips.keep (h : Skips tr s) (hleave : a ≠ .leave)
    (hend : ∀ error, a ≠ .receive (.failed 0 error)) (hskipping : s'.skipping = s.skipping) :
    Skips (tr ++ [a]) s' := by
  have hends : ends (tr ++ [a]) = ends tr := by
    rw [ends_snoc]
    split
    · exact absurd rfl (hend _)
    · rfl
  have hall : AllAnswered (tr ++ [a]) ↔ AllAnswered tr :=
    allAnswered_snoc.trans (and_iff_left fun hc => absurd hc hleave)
  refine ⟨?_, fun hzero => ?_, fun htr => ?_⟩
  · rw [hskipping, hends]
    exact h.skipping_le
  · rw [hends] at hzero
    exact hall.mpr (h.allAnswered hzero)
  · rw [hskipping, hends]
    exact h.ends_eq (hall.mp htr)

/-- **The end of the stream**: one iteration more is going to end without a reply. -/
theorem Skips.endOfStream (h : Skips tr s) (hold : s.skipping = 0) (hnew : s'.skipping = 1)
    (error : ℤ) : Skips (tr ++ [.receive (.failed 0 error)]) s' := by
  have hends : ends (tr ++ [.receive (.failed 0 error)]) = ends tr + 1 := ends_snoc ..
  refine ⟨?_, fun hzero => ?_, fun htr => ?_⟩
  · rw [hends, hnew]
    exact Nat.succ_le_succ (Nat.zero_le _)
  · rw [hends] at hzero
    exact absurd hzero (Nat.succ_ne_zero _)
  · rw [hends, h.ends_eq (allAnswered_snoc.mp htr).1, hold, hnew]

/-- **An iteration ends**, with a reply if it was not going to end without. -/
theorem Skips.leave (h : Skips tr s) (hanswered : answered tr = true ↔ s.skipping = 0)
    (hnew : s'.skipping = 0) : Skips (tr ++ [.leave]) s' := by
  have hends : ends (tr ++ [.leave]) = ends tr := ends_snoc ..
  refine ⟨hnew.le.trans (Nat.zero_le _), fun hzero => ?_, fun htr => ?_⟩
  · rw [hends] at hzero
    refine allAnswered_snoc.mpr ⟨h.allAnswered hzero, fun _ => hanswered.mpr ?_⟩
    exact Nat.le_zero.mp (hzero ▸ h.skipping_le)
  · obtain ⟨hall, hleave⟩ := allAnswered_snoc.mp htr
    rw [hends, h.ends_eq hall, hanswered.mp (hleave rfl), hnew]

/-- **Every step keeps the account of the iterations.** -/
theorem Skips.step (h : Skips tr s) (hinv : Inv tr s) (hs : (system messageIteration).Step s a s') :
    Skips (tr ++ [a]) s' := by
  rcases hs with ⟨trial, fd, hpc, -⟩ | ⟨trial, established, hpc, -⟩ | ⟨n, hpc, -⟩ | ⟨hpc, hres⟩ |
    ⟨received, hpc, hadm⟩ | ⟨read, error, hpc⟩ | hpc | hpc | hpc | ⟨bytes, hpc⟩ | ⟨hpc, hres⟩ |
    ⟨hpc, -⟩ | hpc | -
  · refine h.keep (by rintro ⟨⟩) (by rintro _ ⟨⟩) ?_
    rcases trial with _ | _
    all_goals simp [State.skipping, hpc]
  · refine h.keep (by rintro ⟨⟩) (by rintro _ ⟨⟩) ?_
    rcases trial with _ | _
    all_goals rcases established with _ | _
    all_goals simp [State.skipping, hpc, Socket.connect]
  · exact h.keep (by rintro ⟨⟩) (by rintro _ ⟨⟩) (by simp [State.skipping, hpc])
  · exact h.keep (by rintro ⟨⟩) (by rintro _ ⟨⟩) (by simp [State.skipping, hpc])
  · have hres : s.res ≠ 0 := hinv.waiting hpc
    have hskipping : s.skipping = 0 := by simp [State.skipping, hres]
    rcases received with bytes | ⟨read, error⟩
    · refine h.keep (by rintro ⟨⟩) (by rintro _ ⟨⟩) ?_
      have hpos : bytes.length ≠ 0 := hadm.1.ne'
      rw [hskipping]
      simpa [State.skipping, Received.result] using hpos
    · rcases hadm with rfl | rfl
      · exact h.endOfStream hskipping rfl error
      · refine h.keep (by rintro ⟨⟩) (by rintro _ ⟨⟩) ?_
        rw [hskipping]
        rfl
  · refine h.keep (by rintro ⟨⟩) (by rintro _ ⟨⟩) ?_
    rcases hlost : Socket.lostError error with _ | _
    all_goals simp [State.skipping, hpc, Socket.isConnectionLost, hlost]
  · exact h.keep (by rintro ⟨⟩) (by rintro _ ⟨⟩) (by simp [State.skipping, State.close, hpc])
  · exact h.keep (by rintro ⟨⟩) (by rintro _ ⟨⟩) (by simp [State.skipping, State.close, hpc])
  · exact h.keep (by rintro ⟨⟩) (by rintro _ ⟨⟩) (by simp [State.skipping, hpc])
  · obtain ⟨hanswered, hpos⟩ := hinv.reply bytes hpc
    exact h.leave (iff_of_true hanswered (by simp [State.skipping, hpos.ne'])) rfl
  · obtain ⟨hanswered, -⟩ := hinv.unanswered (by rw [hpc]; rfl) (by rw [hpc]; rintro _ ⟨⟩)
    refine h.leave (iff_of_false ?_ (by simp [State.skipping, hpc, hres])) rfl
    rw [hanswered]
    exact Bool.false_ne_true
  · exact h.keep (by rintro ⟨⟩) (by rintro _ ⟨⟩) (by simp [State.skipping, hpc])
  · exact h.keep (by rintro ⟨⟩) (by rintro _ ⟨⟩) (by simp [State.skipping, State.close, hpc])
  · exact h.keep (by rintro ⟨⟩) (by rintro _ ⟨⟩) rfl

theorem skips_of_run (hrun : (system messageIteration).Run tr s) : Skips tr s := by
  refine hrun.invariant (I := Skips) ?_ fun _ _ _ _ hrun h hs => h.step (inv_of_run hrun) hs
  rintro s ⟨-, -, hpc, -⟩
  have hzero : s.skipping = 0 := by simp [State.skipping, hpc]
  refine ⟨hzero.le, fun _ tr' hinit => ?_, fun _ => hzero.symm⟩
  have hnil := List.prefix_nil.mp hinit
  simp at hnil

/-- The client receives, for the first of its messages. -/
def receiving : State :=
  ⟨⟨3, .connected⟩, 0, Session.message 1, -1, .receive, ⟨{3, 0, 1, 2}, ∅, ∅⟩, {3}⟩

theorem run_receiving : (system 1).Run
    [.socket (some 3), .connect true, .send (Session.message 1), .test] receiving := by
  have h₀ : (system 1).Run []
      ⟨⟨0, .disconnected⟩, 0, [], 0, .socket .first, ⟨{0, 1, 2}, ∅, ∅⟩, ∅⟩ :=
    .start ⟨rfl, rfl, rfl, by decide, rfl⟩
  have h₁ := h₀.snoc (.socket .first (some 3) rfl (by
    rintro x ⟨⟩
    exact ⟨by decide, by decide, by decide⟩))
  have h₂ := h₁.snoc (.connect .first true rfl (by decide))
  have h₃ := h₂.snoc (.send 1 rfl (by decide))
  have h₄ := h₃.snoc (.test rfl (by decide))
  exact h₄

/-! ### The result -/

/-- **The lockstep**: every iteration has ended with a reply, and between two iterations there
have been as many replies as iterations. -/
structure Lockstep (tr : List Action) (s : State) : Prop where
  allAnswered : AllAnswered tr
  count : s.pc.inIteration = false → s.i = replies tr

/-- **The client is in lockstep** as long as no call of `receive` has returned `0`; and between
two iterations, or at the end, it is only then. -/
theorem lockstep_iff (hrun : (system messageIteration).Run tr s) :
    (ends tr = 0 → Lockstep tr s) ∧
    (s.pc.inIteration = false → (Lockstep tr s ↔ ends tr = 0)) := by
  have hskips := skips_of_run hrun
  have hcount := iterations_eq hrun
  have hlockstep : ends tr = 0 → Lockstep tr s := by
    refine fun hzero => ⟨hskips.allAnswered hzero, fun hpc => ?_⟩
    have hending : s.ending = 0 := if_neg fun hc => Bool.false_ne_true (hpc.symm.trans hc.1)
    omega
  refine ⟨hlockstep, fun hpc => ⟨fun h => ?_, hlockstep⟩⟩
  have hskipping : s.skipping = 0 := if_neg fun hc => Bool.false_ne_true (hpc.symm.trans hc.1)
  exact (hskips.ends_eq h.allAnswered).trans hskipping

/-- A client whose message is answered. -/
theorem lockstep_receiving :
    ∃ tr s, (system 1).Run tr s ∧ s.pc = .iterate ∧ s.i = 1 ∧ replies tr = 1 ∧
      Lockstep tr s := by
  have h₁ := run_receiving.snoc (.receive (.data [69]) rfl (by decide))
  have h₂ := h₁.snoc (.leaveReply [69] rfl)
  exact ⟨_, _, h₂, rfl, rfl, by decide, (lockstep_iff h₂).1 (by decide)⟩

/-- **A client that goes on without a reply**: the server closes the connection, `receive` returns
`0`, and the iteration ends. -/
theorem not_lockstep_receiving :
    ∃ tr s, (system 1).Run tr s ∧ s.pc = .iterate ∧ s.i = 1 ∧ replies tr = 0 ∧
      ¬Lockstep tr s := by
  have h₁ := run_receiving.snoc (.receive (.failed 0 0) rfl (by decide))
  have h₂ := h₁.snoc (.handle 0 0 rfl)
  have h₃ := h₂.snoc (.leave rfl rfl)
  refine ⟨_, _, h₃, rfl, rfl, by decide, fun h => ?_⟩
  exact absurd (h.count rfl) (by decide)

end ClientAutomation

end Net

end LowLatency
