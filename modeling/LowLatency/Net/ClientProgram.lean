import LowLatency.Foundations.Mutex
import LowLatency.Net.ClientDescriptors
import Mathlib.Algebra.Order.BigOperators.Group.Multiset
import Mathlib.Algebra.BigOperators.Group.Finset.Basic

/-!
# The program of the clients

The function `main` of the test program and the threads that run `clientThread`, with what they
share: the descriptors of the process, `messageCounter` under `messageCounterMutex`, and the atomic
`numberDisconnections`. Between locking and unlocking the mutex a thread reads the counter, writes
it, reads it again for the text of the message, and sends the message; each of these is a step.

For one thread, the others are what `LowLatency.Net.ClientAutomation.system` has of them: they open
and close descriptors of their own. This is a fact about the program, since nothing but the kernel
keeps the descriptors of the threads apart
(`LowLatency.Net.ClientProgram.client_thread_run`). And because the message is sent before the mutex
is unlocked, the messages of all the clients go out in the order of their numbers
(`LowLatency.Net.ClientProgram.messages_numbered`).
-/

namespace LowLatency

namespace Net

namespace ClientProgram

/-! ### The program -/

/-- Where a thread stands in what it shares with the others. -/
inductive Place where
  /-- Outside; the thread goes on as its `pc` says. -/
  | outside : Place
  /-- At the read in `messageCounter++`, with `messageCounterMutex` locked. -/
  | read : Place
  /-- At the write in it, with the value that has been read. -/
  | write (messageCounter : ℕ) : Place
  /-- At `message << "message" << messageCounter`. -/
  | format : Place
  /-- At `serverSocket->send(message.str())`. -/
  | send (number : ℕ) : Place
  | unlock : Place
  /-- At `++numberDisconnections`. -/
  | disconnected : Place
  deriving DecidableEq

/-- The critical section: between locking and unlocking. -/
def Place.InSection : Place → Prop
  | .outside | .disconnected => False
  | _ => True

/-- Where `main` stands. -/
inductive MainPc where
  /-- At the condition of the loop that creates the threads. -/
  | create : MainPc
  /-- In the loop that joins them, at this one. -/
  | join (k : ℕ) : MainPc
  | returned : MainPc
  deriving DecidableEq

/-- The threads, what they share, and `main`. -/
structure State where
  /-- The locals of each thread. The kernel is the one below; the field of a thread says what the
  thread has last seen. -/
  client : ℕ → ClientAutomation.State
  place : ℕ → Place
  messageCounterMutex : Option ℕ
  messageCounter : ℕ
  numberDisconnections : Int32
  kernel : Kernel
  /-- The length of `threads`. -/
  threads : ℕ
  main : MainPc

/-- What the thread `k` has before it. -/
def State.view (s : State) (k : ℕ) : ClientAutomation.State :=
  { s.client k with kernel := s.kernel }

/-- The thread `k` goes on to a place. -/
def State.goto (s : State) (k : ℕ) (place : Place) : State :=
  { s with place := Function.update s.place k place }

/-- The thread `k` has made a step of its own. -/
def State.setClient (s : State) (k : ℕ) (c : ClientAutomation.State) : State :=
  { s with client := Function.update s.client k c, kernel := c.kernel }

/-- What a thread does next. -/
inductive ThreadAction where
  /-- A step outside the critical section. -/
  | step (a : ClientAutomation.Action) : ThreadAction
  | lock : ThreadAction
  | read : ThreadAction
  | write : ThreadAction
  | format : ThreadAction
  | send (number : ℕ) : ThreadAction
  | unlock : ThreadAction
  /-- `++numberDisconnections`. -/
  | disconnect : ThreadAction

/-- What happens next. -/
inductive Action where
  /-- A step of `main`. -/
  | main : Action
  | thread (k : ℕ) (a : ThreadAction) : Action

/-- The steps of `clientThread` that are made outside the critical section. -/
def IsOutside : ClientAutomation.Action → Prop
  | .send _ | .other => False
  | _ => True

/-- `connector.reset` is followed by `++numberDisconnections`. -/
def after : ClientAutomation.Action → Place
  | .reset => .disconnected
  | _ => .outside

/-- The steps of a thread. The counter is an `int`: incrementing the greatest is undefined, and no
step. -/
inductive ThreadStep (messageIteration : Int32) (k : ℕ) (s : State) :
    ThreadAction → State → Prop
  | step (a : ClientAutomation.Action) (c : ClientAutomation.State) : s.place k = .outside →
      IsOutside a → (ClientAutomation.system messageIteration).Step (s.view k) a c →
      ThreadStep messageIteration k s (.step a) ((s.setClient k c).goto k (after a))
  | lock : s.place k = .outside → (s.client k).pc = .iterate →
      (s.client k).i < messageIteration.toInt → s.messageCounterMutex = none →
      ThreadStep messageIteration k s .lock { s.goto k .read with messageCounterMutex := some k }
  | read : s.place k = .read →
      ThreadStep messageIteration k s .read (s.goto k (.write s.messageCounter))
  | write (messageCounter : ℕ) : s.place k = .write messageCounter → messageCounter + 1 < 2 ^ 31 →
      ThreadStep messageIteration k s .write
        { s.goto k .format with messageCounter := messageCounter + 1 }
  | format : s.place k = .format →
      ThreadStep messageIteration k s .format (s.goto k (.send s.messageCounter))
  | send (number : ℕ) (c : ClientAutomation.State) : s.place k = .send number →
      (ClientAutomation.system messageIteration).Step (s.view k)
        (.send (Session.message number)) c →
      ThreadStep messageIteration k s (.send number) ((s.setClient k c).goto k .unlock)
  | unlock : s.place k = .unlock →
      ThreadStep messageIteration k s .unlock
        { s.goto k .outside with messageCounterMutex := none }
  | disconnect : s.place k = .disconnected →
      ThreadStep messageIteration k s .disconnect
        { s.goto k .outside with numberDisconnections := s.numberDisconnections + 1 }

/-- The steps of `main`. -/
inductive MainStep (numberOfClients : Int32) (s : State) : State → Prop
  | create : s.main = .create → s.threads < numberOfClients.toInt →
      MainStep numberOfClients s { s with threads := s.threads + 1 }
  | created : s.main = .create → ¬(s.threads : ℤ) < numberOfClients.toInt →
      MainStep numberOfClients s { s with main := .join 0 }
  | join (k : ℕ) : s.main = .join k → k < s.threads → (s.client k).pc = .done →
      s.place k = .outside → MainStep numberOfClients s { s with main := .join (k + 1) }
  | returned : s.main = .join s.threads → MainStep numberOfClients s { s with main := .returned }

/-- The steps. -/
inductive Step (numberOfClients messageIteration : Int32) : State → Action → State → Prop
  | main {s s' : State} : MainStep numberOfClients s s' →
      Step numberOfClients messageIteration s .main s'
  | thread {s s' : State} {a : ThreadAction} (k : ℕ) : k < s.threads →
      ThreadStep messageIteration k s a s' →
      Step numberOfClients messageIteration s (.thread k a) s'

/-- **The program**, from the point where the two numbers have been entered. -/
def program (numberOfClients messageIteration : Int32) : TransitionSystem State Action where
  Init s := (∀ k, (ClientAutomation.system messageIteration).Init (s.view k)) ∧
    s.place = (fun _ => .outside) ∧ s.messageCounterMutex = none ∧ s.messageCounter = 0 ∧
    s.numberDisconnections = 0 ∧ s.threads = 0 ∧ s.main = .create
  Step := Step numberOfClients messageIteration

variable {numberOfClients messageIteration : Int32} {s s' : State} {a : Action} {tr : List Action}
  {b : ThreadAction} {j k : ℕ} {c : ClientAutomation.State}

@[simp] theorem view_goto (s : State) (j k : ℕ) (p : Place) : (s.goto j p).view k = s.view k := rfl

theorem view_setClient (s : State) (k : ℕ) (c : ClientAutomation.State) :
    (s.setClient k c).view k = c := by
  simp [State.view, State.setClient]

theorem view_setClient_of_ne (h : j ≠ k) :
    (s.setClient k c).view j = { s.view j with kernel := c.kernel } := by
  simp [State.view, State.setClient, Function.update_of_ne h]

/-! ### The descriptors of the threads -/

/-- **What a step does to the descriptors** that are open: none is opened or closed, or the thread
opens one, or it closes one of its own. -/
theorem descriptors_step {s s' : ClientAutomation.State} {a : ClientAutomation.Action}
    (h : ClientAutomation.Owns s) (hs : (ClientAutomation.system messageIteration).Step s a s')
    (ha : a ≠ .other) :
    (s'.kernel.opened = s.kernel.opened ∧ s'.created = s.created) ∨
    (∃ fd, fd ∉ s.kernel.opened ∧ s'.kernel.opened = insert fd s.kernel.opened ∧
      s'.created = insert fd s.created) ∨
    ∃ fd ∈ s.created, s'.kernel.opened = s.kernel.opened.erase fd ∧
      s'.created = s.created.erase fd := by
  cases hs with
  | socket trial fd hpc hfresh =>
    cases fd with
    | none => exact .inl ⟨rfl, Finset.empty_union _⟩
    | some fd => exact .inr (.inl ⟨fd, (hfresh fd rfl).2.2, rfl, rfl⟩)
  | close hpc =>
    rw [ClientAutomation.State.close_of_disconnected (h.disconnected (by rw [hpc]; rfl))]
    exact .inl ⟨rfl, rfl⟩
  | reset hpc =>
    rw [ClientAutomation.State.close_of_disconnected (h.disconnected (by rw [hpc]; rfl))]
    exact .inl ⟨rfl, rfl⟩
  | exit hpc =>
    -- the connector is destroyed with its descriptor
    have hstate := h.connected (by rw [hpc]; rfl)
    have hpos := h.serving (.inl (by rw [hpc]; rfl))
    refine .inr (.inr ⟨_, h.held (by rw [hpc]; nofun) hpos, ?_, ?_⟩)
    · exact ClientAutomation.State.opened_close hstate hpos
    · exact ClientAutomation.State.created_close hstate hpos
  | other => exact absurd rfl ha
  | _ => exact .inl ⟨rfl, rfl⟩

/-- **The threads have no descriptor in common.** -/
def Apart (s : State) : Prop :=
  ∀ j k, j ≠ k → Disjoint (s.client j).created (s.client k).created

/-- **A step of one thread takes no descriptor from another**, nor shares one with it. -/
theorem Apart.setClient (h : Apart s) (howns : ∀ k, ClientAutomation.Owns (s.view k))
    {a : ClientAutomation.Action}
    (hs : (ClientAutomation.system messageIteration).Step (s.view k) a c) (ha : a ≠ .other)
    (hj : j ≠ k) :
    (s.client j).created ⊆ c.kernel.opened ∧ Disjoint (s.client j).created c.created := by
  have hopened : (s.client j).created ⊆ s.kernel.opened := (howns j).opened
  have hdisjoint := h j k hj
  rcases descriptors_step (howns k) hs ha with ⟨hkernel, hcreated⟩ | ⟨fd, hfd, hkernel, hcreated⟩ |
    ⟨fd, hfd, hkernel, hcreated⟩
  · rw [hkernel, hcreated]
    exact ⟨hopened, hdisjoint⟩
  · rw [hkernel, hcreated]
    refine ⟨hopened.trans (Finset.subset_insert ..), ?_⟩
    exact Finset.disjoint_insert_right.mpr ⟨fun hc => hfd (hopened hc), hdisjoint⟩
  · rw [hkernel, hcreated]
    refine ⟨Finset.subset_erase.mpr ⟨hopened, ?_⟩, hdisjoint.mono_right (Finset.erase_subset ..)⟩
    exact Finset.disjoint_right.mp hdisjoint hfd

/-! ### The part of one thread -/

theorem filterMap_concat {α β : Type*} (f : α → Option β) (l : List α) (x : α) :
    (l ++ [x]).filterMap f = l.filterMap f ++ (f x).toList := by
  rw [List.filterMap_append]
  cases h : f x <;> simp [h]

theorem filterMap_concat_of_none {α β : Type*} {f : α → Option β} {x : α} (h : f x = none)
    (l : List α) : (l ++ [x]).filterMap f = l.filterMap f := by
  rw [filterMap_concat, h, Option.toList_none, List.append_nil]

theorem filterMap_concat_of_some {α β : Type*} {f : α → Option β} {x : α} {y : β}
    (h : f x = some y) (l : List α) : (l ++ [x]).filterMap f = l.filterMap f ++ [y] := by
  rw [filterMap_concat, h, Option.toList_some]

/-- What an action is for the thread `k`. -/
def shows (k : ℕ) : Action → Option ClientAutomation.Action
  | .thread j (.step a) => some (if j = k then a else .other)
  | .thread j (.send number) =>
    some (if j = k then .send (Session.message number) else .other)
  | _ => none

/-- **The part of the thread `k`** in what has happened. -/
def part (k : ℕ) (tr : List Action) : List ClientAutomation.Action := tr.filterMap (shows k)

theorem part_of_shows {x : ClientAutomation.Action} (h : shows k a = some x) (tr : List Action) :
    part k (tr ++ [a]) = part k tr ++ [x] := filterMap_concat_of_some h tr

theorem part_of_none (h : shows k a = none) (tr : List Action) :
    part k (tr ++ [a]) = part k tr := filterMap_concat_of_none h tr

/-- **What is known of every thread**: its part is a run of its own, and it has no descriptor in
common with another. -/
structure Parts (messageIteration : Int32) (tr : List Action) (s : State) : Prop where
  run : ∀ k, (ClientAutomation.system messageIteration).Run (part k tr) (s.view k)
  apart : Apart s

theorem Parts.owns (h : Parts messageIteration tr s) (k : ℕ) : ClientAutomation.Owns (s.view k) :=
  ClientAutomation.owns_of_run (h.run k)

/-- **One thread makes a step of its own.** -/
theorem Parts.setClient (h : Parts messageIteration tr s) {x : ClientAutomation.Action}
    (hs : (ClientAutomation.system messageIteration).Step (s.view k) x c) (hx : x ≠ .other)
    (hself : shows k a = some x) (hother : ∀ j, j ≠ k → shows j a = some .other) :
    Parts messageIteration (tr ++ [a]) (s.setClient k c) := by
  have hapart := fun j hj => h.apart.setClient h.owns hs hx (j := j) hj
  constructor
  · intro j
    rcases eq_or_ne j k with rfl | hj
    · rw [part_of_shows hself, view_setClient]
      exact (h.run j).snoc hs
    · rw [part_of_shows (hother j hj), view_setClient_of_ne hj]
      exact (h.run j).snoc (.other c.kernel (hapart j hj).1 ((h.owns k).step hs).stdin)
  · intro i j hij
    show Disjoint (Function.update s.client k c i).created (Function.update s.client k c j).created
    rcases eq_or_ne i k with rfl | hi
    · rw [Function.update_self, Function.update_of_ne hij.symm]
      exact (hapart j hij.symm).2.symm
    · rw [Function.update_of_ne hi]
      rcases eq_or_ne j k with rfl | hj
      · rw [Function.update_self]
        exact (hapart i hi).2
      · rw [Function.update_of_ne hj]
        exact h.apart i j hij

/-- **Every step of the program keeps this.** -/
theorem Parts.step (h : Parts messageIteration tr s)
    (hs : Step numberOfClients messageIteration s a s') :
    Parts messageIteration (tr ++ [a]) s' := by
  have hkeep : ∀ {a : Action} {s' : State}, s'.client = s.client → s'.kernel = s.kernel →
      (∀ k, shows k a = none) → Parts messageIteration (tr ++ [a]) s' := by
    intro a s' hclient hkernel hshows
    refine ⟨fun k => ?_, fun j k hjk => ?_⟩
    · rw [part_of_none (hshows k), State.view, hclient, hkernel]
      exact h.run k
    · rw [hclient]
      exact h.apart j k hjk
  cases hs with
  | main hs => cases hs <;> exact hkeep rfl rfl fun _ => rfl
  | thread k hk hs =>
    cases hs with
    | step x c hplace hx hs =>
      have hne : x ≠ .other := by
        rintro rfl
        exact hx
      have hparts : Parts messageIteration (tr ++ [.thread k (.step x)]) (s.setClient k c) :=
        h.setClient hs hne (by simp [shows]) fun j hj => by simp [shows, hj.symm]
      exact ⟨hparts.run, hparts.apart⟩
    | send number c hplace hs =>
      have hparts : Parts messageIteration (tr ++ [.thread k (.send number)]) (s.setClient k c) :=
        h.setClient hs nofun (by simp [shows]) fun j hj => by simp [shows, hj.symm]
      exact ⟨hparts.run, hparts.apart⟩
    | _ => exact hkeep rfl rfl fun _ => rfl

theorem parts_of_run (h : (program numberOfClients messageIteration).Run tr s) :
    Parts messageIteration tr s := by
  refine h.invariant (I := Parts messageIteration) ?_ fun _ _ _ _ _ h hs => h.step hs
  rintro s ⟨hinit, -⟩
  refine ⟨fun k => .start (hinit k), fun j k _ => ?_⟩
  have hcreated : (s.client j).created = ∅ := (hinit j).2.2.2.2
  rw [hcreated]
  exact Finset.disjoint_empty_left _

/-! ### The messages of one thread -/

/-- The message that an action sends for the first time. -/
def sends : ClientAutomation.Action → Option (List UInt8)
  | .send message => some message
  | _ => none

/-- **The messages of a thread**, in the order in which they are first sent. -/
def sent (tr : List ClientAutomation.Action) : List (List UInt8) := tr.filterMap sends

/-- The thread has sent all its messages. -/
@[simp] def finished : ClientAutomation.Pc → Bool
  | .quit | .done => true
  | _ => false

/-- **The account of the messages**: one for each iteration, of which the last has not ended yet if
the thread is in it. -/
structure Sent (messageIteration : Int32) (tr : List ClientAutomation.Action)
    (s : ClientAutomation.State) : Prop where
  length : (sent tr).length = s.i + if s.pc.inIteration = true then 1 else 0
  last : s.pc.inIteration = true → (sent tr).getLast? = some s.message
  le : s.i ≤ messageIteration.toInt.toNat
  lt : s.pc.inIteration = true → s.i < messageIteration.toInt
  all : finished s.pc = true → s.i = messageIteration.toInt.toNat

section Thread

variable {tr : List ClientAutomation.Action} {s s' : ClientAutomation.State}
  {a : ClientAutomation.Action}

/-- A step that sends no message and ends no iteration. -/
theorem Sent.keep (h : Sent messageIteration tr s) (ha : sends a = none) (hi : s'.i = s.i)
    (hmessage : s'.message = s.message) (hin : s'.pc.inIteration = s.pc.inIteration)
    (hfinished : finished s'.pc = true → finished s.pc = true) :
    Sent messageIteration (tr ++ [a]) s' := by
  have hsent : sent (tr ++ [a]) = sent tr := filterMap_concat_of_none ha tr
  constructor
  · rw [hsent, hi, hin]
    exact h.length
  · rw [hsent, hmessage, hin]
    exact h.last
  · rw [hi]
    exact h.le
  · rw [hi, hin]
    exact h.lt
  · rw [hi]
    exact fun hc => h.all (hfinished hc)

/-- **The end of an iteration.** -/
theorem Sent.leave (h : Sent messageIteration tr s) (hin : s.pc.inIteration = true) :
    Sent messageIteration (tr ++ [.leave]) { s with i := s.i + 1, pc := .iterate } := by
  have hsent : sent (tr ++ [.leave]) = sent tr := filterMap_concat_of_none rfl tr
  have hlength := h.length
  have hlt := h.lt hin
  rw [if_pos hin] at hlength
  refine ⟨?_, nofun, ?_, nofun, nofun⟩
  · rw [hsent, hlength]
    simp
  · show s.i + 1 ≤ _
    omega

/-- **Every step of a thread keeps the account.** -/
theorem Sent.step (h : Sent messageIteration tr s)
    (hs : (ClientAutomation.system messageIteration).Step s a s') :
    Sent messageIteration (tr ++ [a]) s' := by
  cases hs with
  | socket trial fd hpc =>
    exact h.keep rfl rfl rfl (by rw [hpc]; cases trial <;> rfl) (by rintro ⟨⟩)
  | connect trial established hpc =>
    refine h.keep rfl rfl rfl ?_ ?_
    all_goals rw [hpc]
    all_goals cases trial <;> cases established <;> simp [Socket.connect]
  | send number hpc hlt =>
    have hlength := h.length
    rw [hpc] at hlength
    have hsent : sent (tr ++ [.send (Session.message number)]) =
        sent tr ++ [Session.message number] := filterMap_concat_of_some (f := sends) rfl tr
    refine ⟨?_, fun _ => ?_, h.le, fun _ => hlt, by rintro ⟨⟩⟩
    · rw [hsent, List.length_append, hlength]
      simp
    · rw [hsent, List.getLast?_concat]
  | test hpc => exact h.keep rfl rfl rfl (by rw [hpc]; rfl) (by rintro ⟨⟩)
  | receive received hpc => exact h.keep rfl rfl rfl (by rw [hpc]; rfl) (by rintro ⟨⟩)
  | handle read error hpc =>
    refine h.keep rfl rfl rfl ?_ ?_
    all_goals rw [hpc]
    all_goals cases (s.connector.isConnectionLost error).1 <;> simp
  | close hpc => exact h.keep rfl rfl rfl (by rw [hpc]; rfl) (by rintro ⟨⟩)
  | reset hpc => exact h.keep rfl rfl rfl (by rw [hpc]; rfl) (by rintro ⟨⟩)
  | resend hpc => exact h.keep rfl rfl rfl (by rw [hpc]; rfl) (by rintro ⟨⟩)
  | leaveReply bytes hpc => exact h.leave (by rw [hpc]; rfl)
  | leave hpc => exact h.leave (by rw [hpc]; rfl)
  | quit hpc hlt =>
    have hle := h.le
    have hlength := h.length
    rw [hpc] at hlength
    have hsent : sent (tr ++ [.quit]) = sent tr := filterMap_concat_of_none rfl tr
    refine ⟨?_, by rintro ⟨⟩, hle, by rintro ⟨⟩, fun _ => ?_⟩
    · rw [hsent, hlength]
      rfl
    · show s.i = _
      omega
  | exit hpc => exact h.keep rfl rfl rfl (by rw [hpc]; rfl) fun _ => by rw [hpc]; rfl
  | other kernel => exact h.keep rfl rfl rfl rfl id

theorem sent_of_run (h : (ClientAutomation.system messageIteration).Run tr s) :
    Sent messageIteration tr s := by
  refine h.invariant (I := Sent messageIteration) ?_ fun _ _ _ _ _ h hs => h.step hs
  rintro s ⟨-, hi, hpc, -⟩
  refine ⟨?_, ?_, ?_, ?_, ?_⟩
  · rw [hi, hpc]
    rfl
  · rw [hpc]
    nofun
  · rw [hi]
    exact Nat.zero_le _
  · rw [hpc]
    nofun
  · rw [hpc]
    nofun

end Thread

/-! ### The numbers of the messages -/

/-- The thread that sends a message for the first time, and the number of the message. -/
def takes : Action → Option (ℕ × ℕ)
  | .thread k (.send number) => some (k, number)
  | _ => none

/-- **The messages of all the threads**, in the order in which they are first sent. -/
def taken (tr : List Action) : List (ℕ × ℕ) := tr.filterMap takes

/-- **Their numbers.** -/
def numbers (tr : List Action) : List ℕ := (taken tr).map Prod.snd

/-- The numbers of the messages of the thread `k`. -/
def numbersOf (k : ℕ) (tr : List Action) : List ℕ :=
  ((taken tr).filter fun x => x.1 = k).map Prod.snd

theorem taken_of_takes {x : ℕ × ℕ} (h : takes a = some x) (tr : List Action) :
    taken (tr ++ [a]) = taken tr ++ [x] := filterMap_concat_of_some h tr

theorem taken_of_none (h : takes a = none) (tr : List Action) : taken (tr ++ [a]) = taken tr :=
  filterMap_concat_of_none h tr

theorem numbers_of_none (h : takes a = none) (tr : List Action) :
    numbers (tr ++ [a]) = numbers tr := by
  rw [numbers, taken_of_none h, numbers]

theorem numbers_send (k number : ℕ) (tr : List Action) :
    numbers (tr ++ [.thread k (.send number)]) = numbers tr ++ [number] := by
  rw [numbers, taken_of_takes rfl, List.map_append, numbers]
  rfl

theorem numbersOf_of_none (h : takes a = none) (k : ℕ) (tr : List Action) :
    numbersOf k (tr ++ [a]) = numbersOf k tr := by
  rw [numbersOf, taken_of_none h, numbersOf]

theorem numbersOf_send (j k number : ℕ) (tr : List Action) :
    numbersOf j (tr ++ [.thread k (.send number)]) =
      numbersOf j tr ++ if k = j then [number] else [] := by
  rw [numbersOf, taken_of_takes rfl, List.filter_append, List.map_append, numbersOf]
  by_cases h : k = j
  · simp [h]
  · simp [h]

/-- **The messages of a thread and their numbers.** -/
theorem sent_part (h : (program numberOfClients messageIteration).Run tr s) (k : ℕ) :
    sent (part k tr) = (numbersOf k tr).map Session.message := by
  refine h.invariant (I := fun tr _ => sent (part k tr) = (numbersOf k tr).map Session.message)
    (fun _ _ => rfl) ?_
  intro tr s a s' _ ih hs
  have hnone : ∀ {a : Action}, shows k a = none → takes a = none →
      sent (part k (tr ++ [a])) = (numbersOf k (tr ++ [a])).map Session.message := by
    intro a hshows htakes
    rw [part_of_none hshows, numbersOf_of_none htakes]
    exact ih
  have hsome : ∀ {a : Action} {x : ClientAutomation.Action}, shows k a = some x →
      sent (part k (tr ++ [a])) = sent (part k tr) ++ (sends x).toList := by
    intro a x hshows
    rw [part_of_shows hshows, sent, filterMap_concat, sent]
  cases hs with
  | main => exact hnone rfl rfl
  | thread j hj hs =>
    cases hs with
    | step x c hplace hx =>
      have hsends : sends (if j = k then x else .other) = none := by
        split_ifs
        · cases x with
          | send => exact hx.elim
          | _ => rfl
        · rfl
      rw [hsome rfl, hsends, Option.toList_none, List.append_nil, numbersOf_of_none rfl]
      exact ih
    | send number c =>
      rw [hsome rfl, ih, numbersOf_send, List.map_append]
      by_cases hjk : j = k
      · simp [hjk, sends]
      · simp [hjk, sends]
    | _ => exact hnone rfl rfl

/-! ### The counter -/

/-- What is known at each place of the counter and of the numbers taken so far. -/
def Knows (messageCounter : ℕ) (numbers : List ℕ) : Place → Prop
  | .outside | .disconnected => True
  | .read | .unlock => numbers = List.range' 1 messageCounter
  | .write n => n = messageCounter ∧ numbers = List.range' 1 messageCounter
  | .format => numbers ++ [messageCounter] = List.range' 1 messageCounter
  | .send n => n = messageCounter ∧ numbers ++ [messageCounter] = List.range' 1 messageCounter

/-- **The invariant of the counter**: the mutex guards the critical section, and the numbers taken
are those up to the counter, but for the one that is about to be taken there. -/
structure CounterInv (tr : List Action) (s : State) : Prop where
  guards : Mutex.Guards s.messageCounterMutex Place.InSection s.place
  free : s.messageCounterMutex = none → numbers tr = List.range' 1 s.messageCounter
  knows : ∀ k, Knows s.messageCounter (numbers tr) (s.place k)

theorem Place.knows_of_not_inSection {p : Place} (h : ¬p.InSection) (n : ℕ) (ns : List ℕ) :
    Knows n ns p := by
  cases p with
  | outside | disconnected => trivial
  | _ => exact absurd trivial h

/-- A thread that is in the critical section goes on; the others know nothing. -/
theorem CounterInv.knows_update (h : CounterInv tr s) (hin : (s.place k).InSection) {p : Place}
    {n : ℕ} {ns : List ℕ} (hp : Knows n ns p) (j : ℕ) :
    Knows n ns (Function.update s.place k p j) := by
  rcases eq_or_ne j k with rfl | hj
  · rwa [Function.update_self]
  · rw [Function.update_of_ne hj]
    exact Place.knows_of_not_inSection (h.guards.not_inside hin hj) n ns

/-- **A step in the critical section.** -/
theorem CounterInv.inside (h : CounterInv tr s) (hin : (s.place k).InSection) {p : Place}
    (hp : p.InSection) (hs' : s'.messageCounterMutex = s.messageCounterMutex)
    (hplace : s'.place = Function.update s.place k p)
    (hknows : Knows s'.messageCounter (numbers (tr ++ [a])) p) : CounterInv (tr ++ [a]) s' := by
  refine ⟨?_, fun hfree => ?_, fun j => ?_⟩
  · rw [hs', hplace]
    exact h.guards.keep (iff_of_true hp hin)
  · rw [hs', h.guards.held hin] at hfree
    cases hfree
  · rw [hplace]
    exact h.knows_update hin hknows j

/-- **A step outside the critical section.** -/
theorem CounterInv.outside (h : CounterInv tr s) (hout : ¬(s.place k).InSection) {p : Place}
    (hp : ¬p.InSection) (hmutex : s'.messageCounterMutex = s.messageCounterMutex)
    (hcounter : s'.messageCounter = s.messageCounter)
    (hplace : s'.place = Function.update s.place k p) (ha : takes a = none) :
    CounterInv (tr ++ [a]) s' := by
  refine ⟨?_, fun hfree => ?_, fun j => ?_⟩
  · rw [hmutex, hplace]
    exact h.guards.keep (iff_of_false hp hout)
  · rw [numbers_of_none ha, hcounter]
    exact h.free (hmutex ▸ hfree)
  · rw [numbers_of_none ha, hcounter, hplace]
    rcases eq_or_ne j k with rfl | hj
    · rw [Function.update_self]
      exact Place.knows_of_not_inSection hp _ _
    · rw [Function.update_of_ne hj]
      exact h.knows j

/-- **Every step keeps the invariant of the counter.** -/
theorem CounterInv.step (h : CounterInv tr s)
    (hs : Step numberOfClients messageIteration s a s') : CounterInv (tr ++ [a]) s' := by
  cases hs with
  | main hs =>
    have hnumbers : numbers (tr ++ [.main]) = numbers tr := numbers_of_none rfl tr
    cases hs <;>
      exact ⟨h.guards, fun hfree => hnumbers ▸ h.free hfree, fun k => hnumbers ▸ h.knows k⟩
  | thread k hk hs =>
    have hknows := h.knows k
    cases hs with
    | step x c hplace hx =>
      refine h.outside (by rw [hplace]; exact id) (p := after x) ?_ rfl rfl rfl rfl
      cases x <;> exact id
    | lock hplace hpc hlt hmutex =>
      have hguards := h.guards
      rw [hmutex] at hguards
      refine ⟨hguards.lock trivial, nofun, fun j => ?_⟩
      rw [numbers_of_none rfl]
      show Knows _ _ (Function.update s.place k .read j)
      rcases eq_or_ne j k with rfl | hj
      · rw [Function.update_self]
        exact h.free hmutex
      · rw [Function.update_of_ne hj]
        exact h.knows j
    | read hplace =>
      rw [hplace] at hknows
      refine h.inside (by rw [hplace]; trivial) (p := .write s.messageCounter) trivial rfl rfl ?_
      rw [numbers_of_none rfl]
      exact ⟨rfl, hknows⟩
    | write n hplace =>
      rw [hplace] at hknows
      obtain ⟨rfl, hnumbers⟩ := hknows
      refine h.inside (by rw [hplace]; trivial) (p := .format) trivial rfl rfl ?_
      show numbers _ ++ [s.messageCounter + 1] = List.range' 1 (s.messageCounter + 1)
      rw [numbers_of_none rfl, hnumbers, List.range'_concat, one_mul, Nat.add_comm]
    | format hplace =>
      rw [hplace] at hknows
      refine h.inside (by rw [hplace]; trivial) (p := .send s.messageCounter) trivial rfl rfl ?_
      rw [numbers_of_none rfl]
      exact ⟨rfl, hknows⟩
    | send n c hplace =>
      rw [hplace] at hknows
      obtain ⟨rfl, hnumbers⟩ := hknows
      refine h.inside (by rw [hplace]; trivial) (p := .unlock) trivial rfl rfl ?_
      rw [numbers_send]
      exact hnumbers
    | unlock hplace =>
      rw [hplace] at hknows
      have hin : (s.place k).InSection := by rw [hplace]; trivial
      refine ⟨h.guards.unlock hin id, fun _ => ?_, fun j => ?_⟩
      · rw [numbers_of_none rfl]
        exact hknows
      · exact h.knows_update (p := .outside) hin trivial j
    | disconnect hplace =>
      exact h.outside (by rw [hplace]; exact id) (p := .outside) id rfl rfl rfl rfl

theorem counterInv_of_run (h : (program numberOfClients messageIteration).Run tr s) :
    CounterInv tr s := by
  refine h.invariant (I := CounterInv) ?_ fun _ _ _ _ _ h hs => h.step hs
  rintro s ⟨-, hplace, hmutex, hcounter, -⟩
  refine ⟨fun k => ?_, fun _ => ?_, fun k => ?_⟩
  · rw [hplace, hmutex]
    exact iff_of_false nofun id
  · rw [hcounter]
    rfl
  · rw [hplace]
    trivial

/-! ### The connections that are replaced -/

/-- The thread that replaces a connection. -/
def replaces : Action → Option ℕ
  | .thread k (.step .reset) => some k
  | _ => none

/-- The thread that counts one. -/
def counts : Action → Option ℕ
  | .thread k .disconnect => some k
  | _ => none

/-- **The connections replaced so far**, each with its thread. -/
def replaced (tr : List Action) : List ℕ := tr.filterMap replaces

/-- Those that have been counted. -/
def counted (tr : List Action) : List ℕ := tr.filterMap counts

/-- **The account of the connections**: all that have been replaced have been counted, but for those
of the threads that are about to count one. -/
structure Disconnections (tr : List Action) (s : State) : Prop where
  numberDisconnections : s.numberDisconnections = Int32.ofNat (counted tr).length
  count : ∀ k, (replaced tr).count k = (counted tr).count k +
    if s.place k = .disconnected then 1 else 0

/-- A step that neither replaces a connection nor counts one. -/
theorem Disconnections.keep (h : Disconnections tr s)
    (hnumber : s'.numberDisconnections = s.numberDisconnections)
    (hplace : ∀ k, s'.place k = .disconnected ↔ s.place k = .disconnected)
    (hreplaces : replaces a = none) (hcounts : counts a = none) :
    Disconnections (tr ++ [a]) s' := by
  have hcounted : counted (tr ++ [a]) = counted tr := filterMap_concat_of_none hcounts tr
  have hreplaced : replaced (tr ++ [a]) = replaced tr := filterMap_concat_of_none hreplaces tr
  refine ⟨?_, fun k => ?_⟩
  · rw [hnumber, hcounted]
    exact h.numberDisconnections
  · rw [hcounted, hreplaced, h.count k]
    simp only [hplace k]

/-- A thread goes on that is not about to count a connection, before or after. -/
theorem Disconnections.goto (h : Disconnections tr s) {p : Place} (hold : s.place k ≠ .disconnected)
    (hp : p ≠ .disconnected) (hnumber : s'.numberDisconnections = s.numberDisconnections)
    (hplace : s'.place = Function.update s.place k p) (hreplaces : replaces a = none)
    (hcounts : counts a = none) : Disconnections (tr ++ [a]) s' := by
  refine h.keep hnumber (fun j => ?_) hreplaces hcounts
  rw [hplace]
  rcases eq_or_ne j k with rfl | hj
  · rw [Function.update_self]
    exact iff_of_false hp hold
  · rw [Function.update_of_ne hj]

/-- **A connection is replaced**, and is still to be counted. -/
theorem Disconnections.reset (h : Disconnections tr s) (hplace : s.place k = .outside)
    (c : ClientAutomation.State) :
    Disconnections (tr ++ [.thread k (.step .reset)]) ((s.setClient k c).goto k .disconnected) := by
  have hcounted : counted (tr ++ [.thread k (.step .reset)]) = counted tr :=
    filterMap_concat_of_none rfl tr
  have hreplaced : replaced (tr ++ [.thread k (.step .reset)]) = replaced tr ++ [k] :=
    filterMap_concat_of_some (f := replaces) rfl tr
  refine ⟨?_, fun j => ?_⟩
  · rw [hcounted]
    exact h.numberDisconnections
  · rw [hcounted, hreplaced, List.count_append, h.count j]
    show _ = _ + if Function.update s.place k .disconnected j = _ then 1 else 0
    rcases eq_or_ne j k with rfl | hj
    · simp [hplace]
    · simp [hj, hj.symm]

/-- **A connection is counted.** -/
theorem Disconnections.count_one (h : Disconnections tr s) (hplace : s.place k = .disconnected) :
    Disconnections (tr ++ [.thread k .disconnect])
      { s.goto k .outside with numberDisconnections := s.numberDisconnections + 1 } := by
  have hcounted : counted (tr ++ [.thread k .disconnect]) = counted tr ++ [k] :=
    filterMap_concat_of_some (f := counts) rfl tr
  have hreplaced : replaced (tr ++ [.thread k .disconnect]) = replaced tr :=
    filterMap_concat_of_none rfl tr
  refine ⟨?_, fun j => ?_⟩
  · show s.numberDisconnections + 1 = _
    rw [hcounted, List.length_append, h.numberDisconnections, Int32.ofNat_add]
    rfl
  · rw [hcounted, hreplaced, List.count_append, h.count j]
    show _ = _ + if Function.update s.place k .outside j = _ then 1 else 0
    rcases eq_or_ne j k with rfl | hj
    · simp [hplace]
    · simp [hj, hj.symm]

/-- **Every step keeps the account of the connections.** -/
theorem Disconnections.step (h : Disconnections tr s)
    (hs : Step numberOfClients messageIteration s a s') : Disconnections (tr ++ [a]) s' := by
  cases hs with
  | main hs => cases hs <;> exact h.keep rfl (fun _ => Iff.rfl) rfl rfl
  | thread k hk hs =>
    cases hs with
    | step x c hplace hx =>
      by_cases hreset : x = .reset
      · subst hreset
        exact h.reset hplace c
      · refine h.goto (by rw [hplace]; nofun) (p := after x) ?_ rfl rfl ?_ rfl
        · cases x with
          | reset => exact absurd rfl hreset
          | _ => nofun
        · cases x with
          | reset => exact absurd rfl hreset
          | _ => rfl
    | disconnect hplace => exact h.count_one hplace
    | lock hplace => exact h.goto (by rw [hplace]; nofun) (p := .read) nofun rfl rfl rfl rfl
    | read hplace => exact h.goto (by rw [hplace]; nofun) (p := .write _) nofun rfl rfl rfl rfl
    | write _ hplace => exact h.goto (by rw [hplace]; nofun) (p := .format) nofun rfl rfl rfl rfl
    | format hplace => exact h.goto (by rw [hplace]; nofun) (p := .send _) nofun rfl rfl rfl rfl
    | send _ _ hplace => exact h.goto (by rw [hplace]; nofun) (p := .unlock) nofun rfl rfl rfl rfl
    | unlock hplace => exact h.goto (by rw [hplace]; nofun) (p := .outside) nofun rfl rfl rfl rfl

theorem disconnections_of_run (h : (program numberOfClients messageIteration).Run tr s) :
    Disconnections tr s := by
  refine h.invariant (I := Disconnections) ?_ fun _ _ _ _ _ h hs => h.step hs
  rintro s ⟨-, hplace, -, -, hnumber, -⟩
  refine ⟨hnumber, fun k => ?_⟩
  rw [hplace]
  rfl

/-! ### The joins -/

/-- The number of threads that have been joined. -/
def State.joined (s : State) : ℕ :=
  match s.main with
  | .create => 0
  | .join k => k
  | .returned => s.threads

/-- The thread `k` has returned. -/
def State.Returned (s : State) (k : ℕ) : Prop := (s.client k).pc = .done ∧ s.place k = .outside

/-- **The invariant of `main`.** -/
structure MainInv (numberOfClients : Int32) (s : State) : Prop where
  /-- A thread that has not been created is at its beginning. -/
  notCreated : ∀ k, s.threads ≤ k → s.place k = .outside
  le : s.threads ≤ numberOfClients.toInt.toNat
  created : s.main ≠ .create → s.threads = numberOfClients.toInt.toNat
  joined : ∀ k < s.joined, s.Returned k

/-- **A thread that has returned makes no step.** -/
theorem State.Returned.not_step (h : s.Returned k) : ¬ThreadStep messageIteration k s b s' := by
  obtain ⟨hpc, hplace⟩ := h
  intro hs
  cases hs with
  | step x c _ hx hs =>
    have hdone : (s.view k).pc = .done := hpc
    cases hs with
    | other | send => exact hx
    | socket _ _ hc | connect _ _ hc | test hc | receive _ hc | handle _ _ hc | close hc
    | reset hc | resend hc | leaveReply _ hc | leave hc | quit hc | exit hc =>
      rw [hdone] at hc
      cases hc
  | lock _ hc => rw [hpc] at hc; cases hc
  | read hc | write _ hc | format hc | send _ _ hc | unlock hc | disconnect hc =>
    rw [hplace] at hc
    cases hc

/-- A step of a thread touches nothing of another thread's place and locals, nor `main`. -/
theorem ThreadStep.frame (hs : ThreadStep messageIteration k s b s') :
    s'.threads = s.threads ∧ s'.main = s.main ∧
      ∀ j, j ≠ k → s'.place j = s.place j ∧ s'.client j = s.client j := by
  have hplace : ∀ (p : Place) (j : ℕ), j ≠ k → Function.update s.place k p j = s.place j :=
    fun p j hj => Function.update_of_ne hj ..
  cases hs with
  | step x c | send n c =>
    exact ⟨rfl, rfl, fun j hj => ⟨hplace _ j hj, Function.update_of_ne hj ..⟩⟩
  | _ => exact ⟨rfl, rfl, fun j hj => ⟨hplace _ j hj, rfl⟩⟩

/-- **Every step keeps the invariant of `main`.** -/
theorem MainInv.step (h : MainInv numberOfClients s)
    (hs : Step numberOfClients messageIteration s a s') : MainInv numberOfClients s' := by
  have hle := h.le
  cases hs with
  | main hs =>
    cases hs with
    | create hmain hlt =>
      refine ⟨fun k hk => h.notCreated k (Nat.le_of_succ_le hk), ?_, fun hne => absurd hmain hne,
        fun k hk => ?_⟩
      · show s.threads + 1 ≤ _
        omega
      · have hzero : k < 0 := by
          simpa only [State.joined, hmain] using hk
        exact absurd hzero (Nat.not_lt_zero k)
    | created hmain hlt =>
      refine ⟨h.notCreated, hle, fun _ => ?_, fun k hk => absurd hk (Nat.not_lt_zero k)⟩
      show s.threads = _
      omega
    | join j hmain hj hpc hplace =>
      refine ⟨h.notCreated, hle, fun _ => h.created (by rw [hmain]; nofun), fun k hk => ?_⟩
      rcases Nat.lt_succ_iff_lt_or_eq.mp hk with hlt | rfl
      · exact h.joined k (by rw [State.joined, hmain]; exact hlt)
      · exact ⟨hpc, hplace⟩
    | returned hmain =>
      refine ⟨h.notCreated, hle, fun _ => h.created (by rw [hmain]; nofun), fun k hk => ?_⟩
      exact h.joined k (by rw [State.joined, hmain]; exact hk)
  | thread k hk hs =>
    obtain ⟨hthreads, hmain, hframe⟩ := hs.frame
    refine ⟨fun j hj => ?_, hthreads ▸ hle, fun hne => ?_, fun j hj => ?_⟩
    · rw [hthreads] at hj
      rw [(hframe j (by omega)).1]
      exact h.notCreated j hj
    · rw [hthreads]
      exact h.created (hmain ▸ hne)
    · rw [State.joined, hmain, hthreads] at hj
      have hreturned := h.joined j hj
      have hne : j ≠ k := by
        rintro rfl
        exact hreturned.not_step hs
      rwa [State.Returned, (hframe j hne).1, (hframe j hne).2]

theorem mainInv_of_run (h : (program numberOfClients messageIteration).Run tr s) :
    MainInv numberOfClients s := by
  refine h.invariant (I := fun _ s => MainInv numberOfClients s) ?_ fun _ _ _ _ _ h hs => h.step hs
  rintro s ⟨-, hplace, -, -, -, hthreads, hmain⟩
  refine ⟨fun k _ => ?_, ?_, fun hne => absurd hmain hne, fun k hk => ?_⟩
  · rw [hplace]
  · rw [hthreads]
    exact Nat.zero_le _
  · rw [State.joined, hmain] at hk
    exact absurd hk (Nat.not_lt_zero k)

/-! ### The main results -/

/-- **Each thread runs as if it were alone** in a process whose other threads open and close
descriptors of their own, and no two threads have one in common. -/
theorem client_thread_run (h : (program numberOfClients messageIteration).Run tr s) :
    (∀ k, (ClientAutomation.system messageIteration).Run (part k tr) (s.view k)) ∧
      ∀ j k, j ≠ k → Disjoint (s.client j).created (s.client k).created :=
  ⟨(parts_of_run h).run, (parts_of_run h).apart⟩

/-- As many messages as the threads have sent. -/
theorem length_numbers_eq_sum {n : ℕ} (h : ∀ x ∈ taken tr, x.1 < n) :
    (numbers tr).length = ∑ k ∈ Finset.range n, (numbersOf k tr).length := by
  have hcount : ∀ k, (numbersOf k tr).length = ((taken tr).map Prod.fst).count k := by
    intro k
    rw [numbersOf, List.length_map, ← List.countP_eq_length_filter, List.count, List.countP_map]
    exact List.countP_congr fun x _ => by simp
  have hsum := Multiset.sum_count_eq_card (s := Finset.range n)
    (m := (((taken tr).map Prod.fst : List ℕ) : Multiset ℕ)) fun x hx => by
      obtain ⟨y, hy, rfl⟩ := List.mem_map.mp (Multiset.mem_coe.mp hx)
      exact Finset.mem_range.mpr (h y hy)
  simp only [Multiset.coe_count, Multiset.coe_card, List.length_map] at hsum
  rw [numbers, List.length_map, ← hsum]
  exact Finset.sum_congr rfl fun k _ => (hcount k).symm

/-- Only threads that have been created send messages. -/
theorem lt_threads_of_taken (h : (program numberOfClients messageIteration).Run tr s) :
    ∀ x ∈ taken tr, x.1 < s.threads := by
  refine h.invariant (I := fun tr s => ∀ x ∈ taken tr, x.1 < s.threads)
    (fun _ _ _ hx => absurd hx List.not_mem_nil) ?_
  intro tr s a s' _ ih hs x hx
  cases hs with
  | main hs =>
    rw [taken_of_none rfl] at hx
    have hlt := ih x hx
    cases hs with
    | create => exact Nat.lt_succ_of_lt hlt
    | _ => exact hlt
  | thread k hk hs =>
    rw [hs.frame.1]
    rw [taken, filterMap_concat] at hx
    rcases List.mem_append.mp hx with hx | hx
    · exact ih x hx
    · cases hs with
      | send n c =>
        obtain rfl : x = (k, n) := by simpa [takes] using hx
        exact hk
      | _ => exact absurd hx List.not_mem_nil

/-- **What is expected of the numbers of the messages.** -/
structure Numbered (numberOfClients messageIteration : Int32) (tr : List Action) (s : State) :
    Prop where
  /-- One thread at most is between locking and unlocking. -/
  exclusive : ∀ j k, (s.place j).InSection → (s.place k).InSection → j = k
  /-- The messages go out as `1, 2, 3, …`, whichever threads they come from. -/
  inOrder : numbers tr = List.range' 1 (numbers tr).length
  /-- A message that is sent again is the last one of its thread. -/
  resent : ∀ k message s', Step numberOfClients messageIteration s
    (.thread k (.step (.resend message))) s' →
      ∃ number, (numbersOf k tr).getLast? = some number ∧ message = Session.message number
  /-- When `main` has returned, each thread has sent all its messages, and the counter is their
  number. -/
  returned : s.main = .returned →
    (∀ k < numberOfClients.toInt.toNat,
      (numbersOf k tr).length = messageIteration.toInt.toNat) ∧
    (numbers tr).length = numberOfClients.toInt.toNat * messageIteration.toInt.toNat ∧
    s.messageCounter = (numbers tr).length
  /-- And all the connections replaced have been counted. -/
  disconnections : s.main = .returned →
    s.numberDisconnections = Int32.ofNat (replaced tr).length

/-- **The messages of all the clients are numbered in the order in which they are sent**, each
number is taken once, and none is left out, in every run. -/
theorem messages_numbered (h : (program numberOfClients messageIteration).Run tr s) :
    Numbered numberOfClients messageIteration tr s := by
  have hcounter := counterInv_of_run h
  have hparts := parts_of_run h
  have hmain := mainInv_of_run h
  have hdisconnections := disconnections_of_run h
  have hplace : s.main = .returned → ∀ k, s.place k = .outside := by
    intro hreturned k
    by_cases hk : s.threads ≤ k
    · exact hmain.notCreated k hk
    · exact (hmain.joined k (by rw [State.joined, hreturned]; exact not_le.mp hk)).2
  refine ⟨fun j k hj hk => hcounter.guards.unique hk hj, ?_, fun k message s' hs => ?_,
    fun hreturned => ?_, fun hreturned => ?_⟩
  · -- a prefix of the numbers up to the counter
    have hprefix : ∃ ns, numbers tr ++ ns = List.range' 1 s.messageCounter := by
      cases hmutex : s.messageCounterMutex with
      | none => exact ⟨[], by rw [List.append_nil, hcounter.free hmutex]⟩
      | some k =>
        have hknows := hcounter.knows k
        have hin := (hcounter.guards k).mp hmutex
        cases hp : s.place k with
        | outside | disconnected => rw [hp] at hin; exact hin.elim
        | read | unlock => rw [hp] at hknows; exact ⟨[], by rw [List.append_nil]; exact hknows⟩
        | write n => rw [hp] at hknows; exact ⟨[], by rw [List.append_nil]; exact hknows.2⟩
        | format => rw [hp] at hknows; exact ⟨_, hknows⟩
        | send n => rw [hp] at hknows; exact ⟨_, hknows.2⟩
    obtain ⟨ns, hns⟩ := hprefix
    obtain ⟨n, -, hnumbers, -⟩ := List.range'_eq_append_iff.mp hns.symm
    rw [hnumbers, List.length_range']
  · cases hs with
    | thread k hk hs =>
      cases hs with
      | step x c hplace hx hs =>
        have hlast := (sent_of_run (hparts.run k)).last
        rw [sent_part h k, List.getLast?_map] at hlast
        cases hs with
        | resend hpc =>
          obtain ⟨number, hnumber, hmessage⟩ :=
            Option.map_eq_some_iff.mp (hlast (by rw [hpc]; rfl))
          exact ⟨number, hnumber, hmessage.symm⟩
  · have hthreads := hmain.created (by rw [hreturned]; nofun)
    have heach : ∀ k < numberOfClients.toInt.toNat,
        (numbersOf k tr).length = messageIteration.toInt.toNat := by
      intro k hk
      have hpc : (s.view k).pc = .done :=
        (hmain.joined k (by rw [State.joined, hreturned]; exact hthreads ▸ hk)).1
      have hsent := sent_of_run (hparts.run k)
      have hlength := hsent.length
      rw [sent_part h k, List.length_map, hpc] at hlength
      rw [hlength, ← hsent.all (by rw [hpc]; rfl)]
      rfl
    refine ⟨heach, ?_, ?_⟩
    · rw [length_numbers_eq_sum (lt_threads_of_taken h), hthreads,
        Finset.sum_const_nat fun k hk => heach k (Finset.mem_range.mp hk), Finset.card_range]
    · have hfree : s.messageCounterMutex = none := by
        cases hmutex : s.messageCounterMutex with
        | none => rfl
        | some k =>
          have hin := (hcounter.guards k).mp hmutex
          rw [hplace hreturned k] at hin
          exact hin.elim
      rw [hcounter.free hfree, List.length_range']
  · have hperm : (replaced tr).Perm (counted tr) := by
      rw [List.perm_iff_count]
      intro k
      rw [hdisconnections.count k, hplace hreturned k]
      rfl
    rw [hdisconnections.numberDisconnections, hperm.length_eq]

/-- Two clients with one message each have been entered. -/
def entered : State where
  client _ := ⟨⟨0, .disconnected⟩, 0, [], 0, .socket .first, ⟨{0, 1, 2}, ∅, ∅⟩, ∅⟩
  place _ := .outside
  messageCounterMutex := none
  messageCounter := 0
  numberDisconnections := 0
  kernel := ⟨{0, 1, 2}, ∅, ∅⟩
  threads := 0
  main := .create

/-- **A run**: both threads are created, the second connects, and its message is the first. -/
theorem run_sent : ∃ tr s, (program 2 1).Run tr s ∧ taken tr = [(1, 1)] ∧
    part 0 tr = [.socket (some 3), .other, .other, .other] ∧ (s.client 1).created = {4} := by
  have h₀ : (program 2 1).Run [] entered :=
    .start ⟨fun _ => ⟨rfl, rfl, rfl, Finset.mem_insert_self 0 _, rfl⟩, rfl, rfl, rfl, rfl, rfl, rfl⟩
  have h₁ := h₀.snoc (.main (.create rfl (by decide)))
  have h₂ := h₁.snoc (.main (.create rfl (by decide)))
  have h₃ := h₂.snoc (.thread 0 (by decide) (.step (.socket (some 3)) _ rfl trivial
    (.socket .first (some 3) rfl (by
      rintro x ⟨⟩
      exact ⟨by decide, by decide, by decide⟩))))
  have h₄ := h₃.snoc (.thread 1 (by decide) (.step (.socket (some 4)) _ rfl trivial
    (.socket .first (some 4) rfl (by
      rintro x ⟨⟩
      exact ⟨by decide, by decide, by decide⟩))))
  have h₅ := h₄.snoc (.thread 1 (by decide) (.step (.connect true) _ rfl trivial
    (.connect .first true rfl (by decide))))
  have h₆ := h₅.snoc (.thread 1 (by decide) (.lock rfl rfl (by decide) rfl))
  have h₇ := h₆.snoc (.thread 1 (by decide) (.read rfl))
  have h₈ := h₇.snoc (.thread 1 (by decide) (.write 0 rfl (by decide)))
  have h₉ := h₈.snoc (.thread 1 (by decide) (.format rfl))
  have h₁₀ := h₉.snoc (.thread 1 (by decide) (.send 1 _ rfl (.send 1 rfl (by decide))))
  exact ⟨_, _, h₁₀, rfl, rfl, by decide⟩

/-- The first thread of the run has created a socket, and seen another thread do so. -/
theorem client_thread_run_first :
    ∃ tr s, (program 2 1).Run tr s ∧ part 0 tr = [.socket (some 3), .other, .other, .other] ∧
      (ClientAutomation.system 1).Run (part 0 tr) (s.view 0) ∧ 4 ∉ (s.client 0).created := by
  obtain ⟨tr, s, h, -, hpart, hcreated⟩ := run_sent
  have hthreads := client_thread_run h
  refine ⟨tr, s, h, hpart, hthreads.1 0, ?_⟩
  exact Finset.disjoint_right.mp (hthreads.2 0 1 (by decide)) (by rw [hcreated]; decide)

/-- The message that the second client has sent is the first. -/
theorem messages_numbered_first :
    ∃ tr s, (program 2 1).Run tr s ∧ numbersOf 1 tr = [1] ∧ Numbered 2 1 tr s := by
  obtain ⟨tr, s, h, htaken, -⟩ := run_sent
  exact ⟨tr, s, h, by rw [numbersOf, htaken]; rfl, messages_numbered h⟩

end ClientProgram

end Net

end LowLatency
