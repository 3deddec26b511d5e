import LowLatency.Net.StoppingReactor

/-!
# The buffer of the ready events

The class `IOListenerEpoll`: `start` allocates as many entries as `m_maxPollEvents` says at that
time, and `epoll_wait` is given the `m_maxPollEvents` of its own time, as an `int`, for the number
of entries there are. Nothing keeps the two together, since `setMaxPollEvents` may be called at any
time, also through `TCPServerReactor::setMaxPollEvents`.

How long the buffer is, is read off the history of the calls
(`LowLatency.Net.IOListenerEpoll.allocated_of_run`), and so is when the kernel may write behind it
(`LowLatency.Net.IOListenerEpoll.writesInside_iff`).
-/

namespace LowLatency

namespace Net

open Reactor (EpollEvent)

/-- The members of the listener, and the kernel with the epoll instance. An entry of the buffer
has nothing in it until it is written. -/
structure IOListenerEpoll where
  epollDescriptor : Descriptor
  /-- `m_epollEvents`, a pointer to an array. -/
  epollEvents : Option (List (Option EpollEvent))
  epollTimeout : Int32
  maxPollEvents : UInt64
  kernel : Kernel

namespace IOListenerEpoll

/-! ### The functions -/

/-- `IOListenerEpoll::start`, where `epoll_create1` returns a descriptor or `-1`, and the
allocation may fail. A new epoll instance watches nothing. -/
def start (descriptor : Option Descriptor) (allocates : Bool) (s : IOListenerEpoll) :
    IOListenerEpoll :=
  { s with
    epollDescriptor := descriptor.getD (-1)
    epollEvents :=
      if allocates then some (List.replicate s.maxPollEvents.toNat none) else s.epollEvents
    kernel :=
      { s.kernel with opened := descriptor.toFinset ∪ s.kernel.opened, interest := ∅ } }

/-- `IOListenerEpoll::stop`. -/
def stop (s : IOListenerEpoll) : IOListenerEpoll := { s with epollEvents := none }

/-- `IOListenerEpoll::setTimeout`. -/
def setTimeout (microSeconds : Int64) (s : IOListenerEpoll) : IOListenerEpoll :=
  { s with epollTimeout := Reactor.setTimeout microSeconds }

/-- `IOListenerEpoll::setMaxPollEvents`. -/
def setMaxPollEvents (maxPollEvents : UInt64) (s : IOListenerEpoll) : IOListenerEpoll :=
  { s with maxPollEvents := maxPollEvents }

/-- `IOListenerEpoll::addFileDescriptor`. -/
def addFileDescriptor (fd : Descriptor) (s : IOListenerEpoll) : IOListenerEpoll :=
  if s.epollDescriptor < 0 then s else { s with kernel := s.kernel.epollAdd fd }

/-- `IOListenerEpoll::removeFileDescriptor`. -/
def removeFileDescriptor (fd : Descriptor) (s : IOListenerEpoll) : IOListenerEpoll :=
  if s.epollDescriptor < 0 then s else { s with kernel := s.kernel.epollDel fd }

/-- The conversion of a `size_t` to `int`, which keeps the lower 32 bits. -/
def toInt (n : UInt64) : Int32 := Int32.ofNat n.toNat

/-- The `maxevents` that `epoll_wait` receives. -/
def maxevents (s : IOListenerEpoll) : Int32 := toInt s.maxPollEvents

/-- `IOListenerEpoll::getNumberOfReadyFileDescriptors`: `epoll_wait` reports some events, which it
writes from the beginning of the buffer on, or fails. What it writes behind the buffer is not in
it. -/
def getNumberOfReadyFileDescriptors (result : Option (List EpollEvent)) (s : IOListenerEpoll) :
    ℤ × IOListenerEpoll :=
  match result with
  | none => (-1, s)
  | some events => (events.length,
      { s with
        epollEvents := s.epollEvents.map fun buffer =>
          (events.map some ++ buffer.drop events.length).take buffer.length })

/-- `m_epollEvents[index]`, if it is an entry of the buffer and has been written. -/
def entry (s : IOListenerEpoll) (index : ℕ) : Option EpollEvent :=
  (s.epollEvents.bind fun buffer => buffer[index]?).join

/-- `IOListenerEpoll::isValidEvent`. -/
def isValidEvent (s : IOListenerEpoll) (index : ℕ) : Option Bool :=
  (s.entry index).map Reactor.isValidEvent

/-- `IOListenerEpoll::getReadyFileDescriptor`. -/
def getReadyFileDescriptor (s : IOListenerEpoll) (index : ℕ) : Option Descriptor :=
  (s.entry index).map EpollEvent.fd

/-! ### The calls -/

/-- A call of one of the public functions. -/
inductive Action where
  | start (descriptor : Option Descriptor) (allocates : Bool) : Action
  | stop : Action
  | setTimeout (microSeconds : Int64) : Action
  | setMaxPollEvents (maxPollEvents : UInt64) : Action
  | addFileDescriptor (fd : Descriptor) : Action
  | removeFileDescriptor (fd : Descriptor) : Action
  | getNumberOfReadyFileDescriptors (result : Option (List EpollEvent)) : Action

/-- What `epoll_wait` may report: at most `maxevents` events, on descriptors that it watches. -/
def Reports (s : IOListenerEpoll) (events : List EpollEvent) : Prop :=
  0 ≤ s.epollDescriptor ∧ 0 < s.maxevents.toInt ∧ (events.length : ℤ) ≤ s.maxevents.toInt ∧
    (events.map EpollEvent.fd).Nodup ∧ ∀ e ∈ events, e.fd ∈ s.kernel.interest

/-- The calls, in any order. -/
inductive Step : IOListenerEpoll → Action → IOListenerEpoll → Prop
  | start {s : IOListenerEpoll} (descriptor : Option Descriptor) (allocates : Bool) :
      (∀ fd ∈ descriptor, s.kernel.Fresh fd) →
      Step s (.start descriptor allocates) (s.start descriptor allocates)
  | stop {s : IOListenerEpoll} : Step s .stop s.stop
  | setTimeout {s : IOListenerEpoll} (microSeconds : Int64) :
      Step s (.setTimeout microSeconds) (s.setTimeout microSeconds)
  | setMaxPollEvents {s : IOListenerEpoll} (maxPollEvents : UInt64) :
      Step s (.setMaxPollEvents maxPollEvents) (s.setMaxPollEvents maxPollEvents)
  | addFileDescriptor {s : IOListenerEpoll} (fd : Descriptor) :
      Step s (.addFileDescriptor fd) (s.addFileDescriptor fd)
  | removeFileDescriptor {s : IOListenerEpoll} (fd : Descriptor) :
      Step s (.removeFileDescriptor fd) (s.removeFileDescriptor fd)
  | getNumberOfReadyFileDescriptors {s : IOListenerEpoll} (result : Option (List EpollEvent)) :
      (∀ events ∈ result, s.Reports events) →
      Step s (.getNumberOfReadyFileDescriptors result)
        (s.getNumberOfReadyFileDescriptors result).2

/-- **The listener**, from its construction on. -/
def system : TransitionSystem IOListenerEpoll Action where
  Init s := s.epollDescriptor = -1 ∧ s.epollEvents = none ∧ s.epollTimeout = 0 ∧
    s.maxPollEvents = 64 ∧ s.kernel.interest = ∅
  Step := Step

/-- The value that a call sets. -/
def Action.sets : Action → Option UInt64
  | .setMaxPollEvents maxPollEvents => some maxPollEvents
  | _ => none

/-- The value that has been set last. -/
def lastSet (tr : List Action) : Option UInt64 := tr.reverse.findSome? Action.sets

/-- **The limit after some calls**: the value set last, or that of the constructor. -/
def limit (tr : List Action) : UInt64 := (lastSet tr).getD 64

/-- The call neither allocates a buffer nor frees one. -/
def Action.KeepsBuffer : Action → Prop
  | .start _ allocates => allocates = false
  | .stop => False
  | _ => True

/-- **`epoll_wait` stays inside the buffer**: it is told of no more entries than there are, and so
every index below the number it returns leads to the event that it has written there. -/
structure WritesInside (s : IOListenerEpoll) : Prop where
  bound : ∃ buffer, s.epollEvents = some buffer ∧ s.maxevents.toInt ≤ buffer.length
  read : ∀ events s', Step s (.getNumberOfReadyFileDescriptors (some events)) s' →
    ∀ index < events.length, s'.entry index = events[index]?

variable {s s' : IOListenerEpoll} {tr tr₁ tr₂ : List Action} {a : Action}
  {descriptor : Option Descriptor}

theorem lastSet_concat (tr : List Action) (a : Action) :
    lastSet (tr ++ [a]) = a.sets.or (lastSet tr) := by
  rw [lastSet, List.reverse_concat, List.findSome?_cons]
  rcases a.sets with _ | v
  · rfl
  · rfl

theorem limit_concat (tr : List Action) (a : Action) :
    limit (tr ++ [a]) = a.sets.getD (limit tr) := by
  rw [limit, lastSet_concat]
  rcases a.sets with _ | v
  · rfl
  · rfl

/-- The limit after a start is what has been set since, or else the limit at the start. -/
theorem limit_append (ha : a.sets = none) :
    limit (tr₁ ++ a :: tr₂) = (lastSet tr₂).getD (limit tr₁) := by
  induction tr₂ using List.reverseRecOn with
  | nil =>
    rw [limit_concat, ha]
    rfl
  | append_singleton tr₂ b ih =>
    rw [← List.cons_append, ← List.append_assoc, limit_concat, ih, lastSet_concat]
    rcases b.sets with _ | v
    · rfl
    · rfl

/-! ### The length of the buffer -/

/-- An `int` made of a `size_t` is not the greater of the two. -/
theorem toInt_le (n : UInt64) : (toInt n).toInt ≤ n.toNat := by
  have hsize : Int32.size = 2 ^ 32 := rfl
  rw [toInt, Int32.toInt_ofNat', hsize, Int.bmod_def]
  split_ifs with h
  · omega
  · omega

/-- What is written stays in the buffer. -/
theorem getNumberOfReadyFileDescriptors_length (result : Option (List EpollEvent))
    (s : IOListenerEpoll) :
    (s.getNumberOfReadyFileDescriptors result).2.epollEvents.map List.length =
      s.epollEvents.map List.length := by
  rcases result with _ | events
  · rfl
  · rcases hbuffer : s.epollEvents with _ | buffer
    · simp [getNumberOfReadyFileDescriptors, hbuffer]
    · have hlength : ((events.map some ++ buffer.drop events.length).take buffer.length).length =
          buffer.length := by
        rw [List.length_take, List.length_append, List.length_map, List.length_drop]
        omega
      simpa [getNumberOfReadyFileDescriptors, hbuffer] using hlength

/-- **A buffer is kept** by all calls that neither allocate nor free one. -/
theorem length_step (hs : Step s a s') (ha : a.KeepsBuffer) :
    s'.epollEvents.map List.length = s.epollEvents.map List.length := by
  rcases hs with ⟨descriptor, allocates, -⟩ | - | ⟨microSeconds⟩ | ⟨maxPollEvents⟩ | ⟨fd⟩ | ⟨fd⟩ |
    ⟨result, -⟩
  · obtain rfl : allocates = false := ha
    rfl
  · exact ha.elim
  · rfl
  · rfl
  · rw [addFileDescriptor]
    split_ifs <;> rfl
  · rw [removeFileDescriptor]
    split_ifs <;> rfl
  · exact s.getNumberOfReadyFileDescriptors_length result

/-- The limit is what the calls have made it. -/
theorem maxPollEvents_of_run (hrun : system.Run tr s) : s.maxPollEvents = limit tr := by
  refine hrun.invariant (I := fun tr s => s.maxPollEvents = limit tr) ?_ ?_
  · rintro s ⟨-, -, -, hmax, -⟩
    exact hmax
  · rintro tr s a s' - ih hs
    rw [limit_concat]
    rcases hs with - | - | - | - | - | - | ⟨_ | events, -⟩
    · exact ih
    · exact ih
    · exact ih
    · rfl
    · rw [addFileDescriptor]
      split_ifs
      · exact ih
      · exact ih
    · rw [removeFileDescriptor]
      split_ifs
      · exact ih
      · exact ih
    · exact ih
    · exact ih

/-- **The buffer has as many entries as the limit was at the last start.** -/
theorem allocated_of_run (hrun : system.Run (tr₁ ++ .start descriptor true :: tr₂) s)
    (hkeeps : ∀ a ∈ tr₂, a.KeepsBuffer) :
    s.epollEvents.map List.length = some (limit tr₁).toNat := by
  induction tr₂ using List.reverseRecOn generalizing s with
  | nil =>
    obtain ⟨s₀, hrun₀, hs⟩ := hrun.last_step
    rcases hs with ⟨_, _, -⟩ | _
    rw [start, if_pos rfl, Option.map_some, List.length_replicate, maxPollEvents_of_run hrun₀]
  | append_singleton tr₂ b ih =>
    rw [← List.cons_append, ← List.append_assoc] at hrun
    obtain ⟨s₀, hrun₀, hs⟩ := hrun.last_step
    rw [length_step hs (hkeeps b (List.mem_append_right _ (List.mem_singleton_self b)))]
    exact ih hrun₀ fun a ha => hkeeps a (List.mem_append_left _ ha)

/-- **`epoll_wait` stays inside the buffer exactly if** what has been set since the last start, if
anything has, is as an `int` not more than the limit was at the start. -/
theorem writesInside_iff (hrun : system.Run (tr₁ ++ .start descriptor true :: tr₂) s)
    (hkeeps : ∀ a ∈ tr₂, a.KeepsBuffer) :
    WritesInside s ↔ ∀ v ∈ lastSet tr₂, (toInt v).toInt ≤ (limit tr₁).toNat := by
  have hallocated := allocated_of_run hrun hkeeps
  obtain ⟨buffer, hbuffer, hlength⟩ := Option.map_eq_some_iff.mp hallocated
  have hmax : s.maxevents = toInt ((lastSet tr₂).getD (limit tr₁)) := by
    rw [maxevents, maxPollEvents_of_run hrun, limit_append rfl]
  have hbound : s.maxevents.toInt ≤ buffer.length ↔
      ∀ v ∈ lastSet tr₂, (toInt v).toInt ≤ (limit tr₁).toNat := by
    rw [hmax, hlength]
    rcases lastSet tr₂ with _ | v
    · exact iff_of_true (toInt_le _) (by rintro v ⟨⟩)
    · simp
  rw [← hbound]
  constructor
  · rintro ⟨⟨buffer', hbuffer', hle⟩, -⟩
    rw [hbuffer] at hbuffer'
    obtain rfl := Option.some_inj.mp hbuffer'
    exact hle
  · intro hle
    refine ⟨⟨buffer, hbuffer, hle⟩, fun events s' hs index hindex => ?_⟩
    rcases hs with _ | _ | _ | _ | _ | _ | ⟨_, hreports⟩
    obtain ⟨-, -, hcount, -⟩ := hreports events rfl
    have hlt : index < buffer.length := by omega
    have hmap : index < (events.map some).length := by rwa [List.length_map]
    rw [entry, getNumberOfReadyFileDescriptors, hbuffer]
    simp [List.getElem?_take_of_lt hlt, List.getElem?_append_left hmap, hindex]

/-- The limit is lowered after the start. -/
theorem writesInside_lowered :
    ∃ s, s.maxPollEvents = 32 ∧ s.epollEvents.map List.length = some 64 ∧ WritesInside s := by
  have h₀ : system.Run [] ⟨-1, none, 0, 64, ⟨{0, 1, 2, 3, 4}, ∅, ∅⟩⟩ :=
    .start ⟨rfl, rfl, rfl, rfl, rfl⟩
  have h₁ := h₀.snoc (.start (some 5) true (by
    rintro x ⟨⟩
    exact ⟨by decide, by decide, by decide⟩))
  have h₂ : system.Run ([] ++ .start (some 5) true :: [.setMaxPollEvents 32]) _ :=
    h₁.snoc (.setMaxPollEvents 32)
  refine ⟨_, rfl, ?_, (writesInside_iff h₂ ?_).mpr ?_⟩
  · exact congrArg some (List.length_replicate ..)
  · rintro a (_ | ⟨_, ⟨⟩⟩)
    trivial
  · rintro v ⟨⟩
    decide

/-- **The limit is raised after the start**, and epoll reports more events than there are
entries: the last of them is read from behind the buffer. -/
theorem not_writesInside_raised : ∃ s s',
    system.Run [.setMaxPollEvents 1, .start (some 5) true, .addFileDescriptor 3,
      .addFileDescriptor 4, .setMaxPollEvents 2] s ∧
    Step s (.getNumberOfReadyFileDescriptors
      (some [⟨Reactor.epollIn, 3⟩, ⟨Reactor.epollIn, 4⟩])) s' ∧
    s.maxevents = 2 ∧ s.epollEvents.map List.length = some 1 ∧ s'.isValidEvent 1 = none ∧
    ¬WritesInside s := by
  have h₀ : system.Run [] ⟨-1, none, 0, 64, ⟨{0, 1, 2, 3, 4}, ∅, ∅⟩⟩ :=
    .start ⟨rfl, rfl, rfl, rfl, rfl⟩
  have h₁ := h₀.snoc (.setMaxPollEvents 1)
  have h₂ := h₁.snoc (.start (some 5) true (by
    rintro x ⟨⟩
    exact ⟨by decide, by decide, by decide⟩))
  have h₃ := h₂.snoc (.addFileDescriptor 3)
  have h₄ := h₃.snoc (.addFileDescriptor 4)
  have h₅ := h₄.snoc (.setMaxPollEvents 2)
  refine ⟨_, _, h₅, .getNumberOfReadyFileDescriptors _ ?_, by decide, by decide, by decide,
    fun h => ?_⟩
  · rintro events ⟨⟩
    exact ⟨by decide, by decide, by decide, by decide, by decide⟩
  · obtain ⟨buffer, hbuffer, hle⟩ := h.bound
    obtain rfl := Option.some_inj.mp hbuffer
    exact absurd hle (by decide)

end IOListenerEpoll

end Net

end LowLatency
