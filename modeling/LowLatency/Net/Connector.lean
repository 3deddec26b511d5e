import LowLatency.Net.Socket

/-!
# Connecting

How a `Socket` comes to be connected from the side of the client: `create`, which overwrites the
descriptor, `connect`, which sets `m_state`, and the `connect` with a timeout. The last switches
the socket to non-blocking mode, tries, and asks `select` whether the socket has become ready if
the connection is not established at once.

That a socket is ready says that the attempt is over, not that it has succeeded, and `m_state` is
set in the first `connect` only. So the result, `m_state` and the connection agree in those cases
alone in which `select` has nothing to report, or is not asked
(`LowLatency.Net.Socket.connect_timeout_iff`).
-/

namespace LowLatency

namespace Net

namespace Socket

/-! ### The functions of the client -/

/-- `Socket::create`, where `::socket` returns the descriptor, or `-1`. -/
def create (s : Socket) (socketDescriptor : Option Descriptor) : Bool × Socket :=
  if socketDescriptor.getD (-1) < 0 then
    (false, { s with socketDescriptor := socketDescriptor.getD (-1) })
  else (true, { s with socketDescriptor := socketDescriptor.getD (-1) })

/-- `Socket::connect(address, port)`; the address decides only what `::connect` answers. -/
def connect (s : Socket) (established : Bool) : Bool × Socket :=
  if established then (true, { s with state := .connected }) else (false, s)

@[simp] theorem create_socketDescriptor (s : Socket) (fd : Option Descriptor) :
    (s.create fd).2.socketDescriptor = fd.getD (-1) := by
  rw [create]
  split_ifs <;> rfl

@[simp] theorem create_state (s : Socket) (fd : Option Descriptor) :
    (s.create fd).2.state = s.state := by
  rw [create]
  split_ifs <;> rfl

@[simp] theorem connect_socketDescriptor (s : Socket) (established : Bool) :
    (s.connect established).2.socketDescriptor = s.socketDescriptor := by
  rw [connect]
  split_ifs <;> rfl

/-! ### An attempt in non-blocking mode -/

/-- What the kernel makes of a `::connect` in non-blocking mode. Times are in microseconds from
the call. -/
inductive Attempt where
  | established : Attempt
  /-- It fails at once; `select` finds the socket ready after some time, or never. -/
  | failed (ready : Option ℕ) : Attempt
  /-- It is in progress, and is established or fails after some time, or never. -/
  | inProgress (outcome : Option (ℕ × Bool)) : Attempt

/-- When `select` finds the socket ready, for reading or writing. -/
def Attempt.ready : Attempt → Option ℕ
  | .established => some 0
  | .failed ready => ready
  | .inProgress outcome => outcome.map Prod.fst

/-- What happens after `time` is within a timeout of so many seconds. -/
def Within (timeout : Int32) (time : ℕ) : Prop := (time : ℤ) ≤ timeout.toInt * 1000000

instance (timeout : Int32) : DecidablePred (Within timeout) :=
  fun time => inferInstanceAs (Decidable ((time : ℤ) ≤ timeout.toInt * 1000000))

/-- `FD_SETSIZE`. -/
def fdSetSize : Descriptor := 1024

/-- The descriptor is one that `FD_SET` may be called with. -/
def FitsFdSet (s : Socket) : Prop := 0 ≤ s.socketDescriptor ∧ s.socketDescriptor < fdSetSize

instance : DecidablePred FitsFdSet :=
  fun s => inferInstanceAs (Decidable (0 ≤ s.socketDescriptor ∧ s.socketDescriptor < fdSetSize))

/-- `Socket::select` on a socket that is ready after some time, or never. There is no result if
`FD_SET` is called with another descriptor; a negative timeout is an error of `::select`. -/
def select (s : Socket) (ready : Option ℕ) (timeout : Int32) : Option Bool :=
  if s.FitsFdSet then some (ready.any (Within timeout ·)) else none

/-- `Socket::connect(address, port, timeout)`: the result, and the socket and the kernel
afterwards. -/
def connectTimeout (s : Socket) (attempt : Attempt) (timeout : Int32) (k : Kernel) :
    Option (Bool × Socket × Kernel) :=
  let k := k.setBlockingMode s.socketDescriptor false
  match s.connect (attempt matches .established) with
  | (true, s) => some (true, s, k.setBlockingMode s.socketDescriptor true)
  | (false, s) => (s.select attempt.ready timeout).map fun success =>
      (success, s, k.setBlockingMode s.socketDescriptor true)

/-- **The connection is established** by the time the call returns. -/
def Attempt.Establishes (timeout : Int32) : Attempt → Prop
  | .established => True
  | .failed _ => False
  | .inProgress outcome => ∃ time, outcome = some (time, true) ∧ Within timeout time

/-- **The call does what it is for**: it returns `true` exactly if the connection is established,
`m_state` says the same, so that `close` releases the descriptor of a connection, and the socket
is back in blocking mode. -/
def ConnectsWell (s : Socket) (attempt : Attempt) (timeout : Int32) (k : Kernel) : Prop :=
  ∃ success s' k', s.connectTimeout attempt timeout k = some (success, s', k') ∧
    (success = true ↔ attempt.Establishes timeout) ∧
    (success = true → s'.state = .connected ∧ s'.close.2 = some s.socketDescriptor) ∧
    (success = false → s'.state ≠ .connected) ∧
    s.socketDescriptor ∉ k'.nonBlocking

/-- **When it does**: the connection is established at once; or `select` finds nothing ready
within the timeout, and the socket was not connected before; or the connection is established
within the timeout, and the socket was connected before. A connection must have another descriptor
than `0`, which `close` does not release. -/
inductive Attempt.Settles (s : Socket) (timeout : Int32) : Attempt → Prop
  | atOnce : 0 < s.socketDescriptor → Settles s timeout .established
  | quiet {attempt : Attempt} : s.FitsFdSet → s.state ≠ .connected →
      attempt ≠ .established → (∀ time ∈ attempt.ready, ¬Within timeout time) →
      Settles s timeout attempt
  | again (time : ℕ) : s.FitsFdSet → 0 < s.socketDescriptor → s.state = .connected →
      Within timeout time → Settles s timeout (.inProgress (some (time, true)))

variable {s : Socket} {attempt : Attempt} {timeout : Int32} {k : Kernel}

theorem ready_any_iff {ready : Option ℕ} :
    ready.any (Within timeout ·) = true ↔ ∃ time ∈ ready, Within timeout time := by
  rcases ready with _ | time
  · simp
  · simp

/-- What is established within the timeout is ready within it. -/
theorem Attempt.Establishes.ready (h : attempt.Establishes timeout)
    (hne : attempt ≠ .established) : ∃ time ∈ attempt.ready, Within timeout time := by
  rcases attempt with _ | ready | outcome
  · exact absurd rfl hne
  · exact h.elim
  · obtain ⟨time, rfl, htime⟩ := h
    exact ⟨time, rfl, htime⟩

/-- A socket is connected at once. -/
theorem connectTimeout_established (s : Socket) (timeout : Int32) (k : Kernel) :
    s.connectTimeout .established timeout k = some (true, { s with state := .connected },
      (k.setBlockingMode s.socketDescriptor false).setBlockingMode s.socketDescriptor true) := rfl

/-- **What `select` says is the result** of an attempt that does not succeed at once, and
`m_state` is as it was. -/
theorem connectTimeout_of_ne (h : attempt ≠ .established) :
    s.connectTimeout attempt timeout k = (s.select attempt.ready timeout).map fun success =>
      (success, s,
        (k.setBlockingMode s.socketDescriptor false).setBlockingMode s.socketDescriptor true) := by
  rcases attempt with _ | ready | outcome
  · exact absurd rfl h
  · rfl
  · rfl

/-- The socket is in blocking mode again. -/
theorem notMem_nonBlocking_restored (fd : Descriptor) (k : Kernel) :
    fd ∉ ((k.setBlockingMode fd false).setBlockingMode fd true).nonBlocking :=
  Finset.notMem_erase fd _

/-- A connected socket has its descriptor closed. -/
theorem close_of_connected (hstate : s.state = .connected) (hpos : 0 < s.socketDescriptor) :
    s.close.2 = some s.socketDescriptor := by
  rw [close, if_pos (by rw [hstate]; decide), if_pos hpos]

/-- The descriptor `0` is not released. -/
theorem pos_of_close (hclose : s.close.2 = some s.socketDescriptor) : 0 < s.socketDescriptor := by
  by_contra hpos
  rw [close, if_neg hpos] at hclose
  split_ifs at hclose

/-- A connection that is established at once. -/
theorem connectsWell_established (hpos : 0 < s.socketDescriptor) (timeout : Int32) (k : Kernel) :
    s.ConnectsWell .established timeout k := by
  refine ⟨true, _, _, connectTimeout_established s timeout k, iff_of_true rfl trivial, ?_, ?_, ?_⟩
  · exact fun _ => ⟨rfl, close_of_connected rfl hpos⟩
  · exact fun hc => absurd hc.symm Bool.false_ne_true
  · exact notMem_nonBlocking_restored s.socketDescriptor k

/-- Nothing happens within the timeout. -/
theorem connectsWell_of_quiet (hfits : s.FitsFdSet) (hstate : s.state ≠ .connected)
    (hne : attempt ≠ .established) (hquiet : ∀ time ∈ attempt.ready, ¬Within timeout time) :
    s.ConnectsWell attempt timeout k := by
  have hready : attempt.ready.any (Within timeout ·) = false := by
    rw [Bool.eq_false_iff, Ne, ready_any_iff]
    rintro ⟨time, htime, hwithin⟩
    exact hquiet time htime hwithin
  rw [ConnectsWell, connectTimeout_of_ne hne]
  refine ⟨false, s, _, ?_, ?_, ?_, fun _ => hstate,
    notMem_nonBlocking_restored s.socketDescriptor k⟩
  · rw [select, if_pos hfits, hready]
    rfl
  · refine iff_of_false Bool.false_ne_true fun hc => ?_
    obtain ⟨time, htime, hwithin⟩ := hc.ready hne
    exact hquiet time htime hwithin
  · exact fun hc => absurd hc Bool.false_ne_true

/-- The connection is established within the timeout, on a socket that was connected. -/
theorem connectsWell_of_again {time : ℕ} (hfits : s.FitsFdSet) (hpos : 0 < s.socketDescriptor)
    (hstate : s.state = .connected) (hwithin : Within timeout time) :
    s.ConnectsWell (.inProgress (some (time, true))) timeout k := by
  have hready : (Attempt.inProgress (some (time, true))).ready.any (Within timeout ·) = true :=
    ready_any_iff.mpr ⟨time, rfl, hwithin⟩
  rw [ConnectsWell, connectTimeout_of_ne (by nofun)]
  refine ⟨true, s, _, ?_, iff_of_true rfl ⟨time, rfl, hwithin⟩,
    fun _ => ⟨hstate, close_of_connected hstate hpos⟩, fun hc => absurd hc.symm Bool.false_ne_true,
    notMem_nonBlocking_restored s.socketDescriptor k⟩
  rw [select, if_pos hfits, hready]
  rfl

/-- **A call that does what it is for** has settled, if not at once then as `select` says. -/
theorem ConnectsWell.settles (h : s.ConnectsWell attempt timeout k)
    (hne : attempt ≠ .established) : attempt.Settles s timeout := by
  rw [ConnectsWell, connectTimeout_of_ne hne] at h
  obtain ⟨success, s', k', hcall, hiff, htrue, hfalse, -⟩ := h
  obtain ⟨success', hselect, heq⟩ := Option.map_eq_some_iff.mp hcall
  cases heq
  rw [select] at hselect
  split_ifs at hselect with hfits
  have hready := Option.some_inj.mp hselect
  rcases success with _ | _
  · -- nothing is ready
    refine .quiet hfits (hfalse rfl) hne fun time htime hwithin => ?_
    exact absurd (ready_any_iff.mpr ⟨time, htime, hwithin⟩) (hready ▸ Bool.false_ne_true)
  · -- the attempt is over, and must have succeeded
    rcases attempt with _ | ready | outcome
    · exact absurd rfl hne
    · exact (hiff.mp rfl).elim
    · obtain ⟨time, rfl, htime⟩ := hiff.mp rfl
      obtain ⟨hstate, hclose⟩ := htrue rfl
      exact .again time hfits (pos_of_close hclose) hstate htime

/-- **The call does what it is for exactly if** the attempt settles. -/
theorem connect_timeout_iff (s : Socket) (attempt : Attempt) (timeout : Int32) (k : Kernel) :
    s.ConnectsWell attempt timeout k ↔ attempt.Settles s timeout := by
  constructor
  · intro h
    by_cases hnow : attempt = .established
    · subst hnow
      obtain ⟨success, s', k', hcall, hiff, htrue, -⟩ := h
      cases hcall
      exact .atOnce (pos_of_close (s := { s with state := .connected }) (htrue rfl).2)
    · exact h.settles hnow
  · rintro (hpos | ⟨hfits, hstate, hne, hquiet⟩ | ⟨time, hfits, hpos, hstate, hwithin⟩)
    · exact connectsWell_established hpos timeout k
    · exact connectsWell_of_quiet hfits hstate hne hquiet
    · exact connectsWell_of_again hfits hpos hstate hwithin

/-- **A connection that is refused, and one that `close` does not release**: half a second after
the call, the first attempt fails and the second is established. Both calls return `true`, and
the socket says in both that it is not connected. -/
theorem connect_timeout_mistaken :
    (∃ k', (Socket.mk 3 .disconnected).connectTimeout (.inProgress (some (500000, false))) 1
        ⟨{0, 1, 2, 3}, ∅, ∅⟩ = some (true, ⟨3, .disconnected⟩, k')) ∧
    ¬(Socket.mk 3 .disconnected).ConnectsWell (.inProgress (some (500000, false))) 1
      ⟨{0, 1, 2, 3}, ∅, ∅⟩ ∧
    (∃ k', (Socket.mk 3 .disconnected).connectTimeout (.inProgress (some (500000, true))) 1
        ⟨{0, 1, 2, 3}, ∅, ∅⟩ = some (true, ⟨3, .disconnected⟩, k')) ∧
    (Socket.mk 3 .disconnected).close.2 = none ∧
    ¬(Socket.mk 3 .disconnected).ConnectsWell (.inProgress (some (500000, true))) 1
      ⟨{0, 1, 2, 3}, ∅, ∅⟩ := by
  refine ⟨⟨_, rfl⟩, ?_, ⟨_, rfl⟩, rfl, ?_⟩
  · rintro ⟨success, s', k', hcall, hiff, -⟩
    cases hcall
    obtain ⟨time, htime, -⟩ := hiff.mp rfl
    cases htime
  · rintro ⟨success, s', k', hcall, -, htrue, -⟩
    cases hcall
    cases (htrue rfl).1

end Socket

end Net

end LowLatency
