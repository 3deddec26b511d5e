import LowLatency.Net.StoppingReactor
import LowLatency.Net.StoppingThreads

/-!
# Stopping the servers

`stop` sets a flag and joins the threads that look at it. Whether they can come to an end
without anything more from the clients (`LowLatency.Net.shutdown_iff`) depends, in the one
server, on the clients whose threads are about to `receive` or `send` or in one of them, and in
the other on the timeout that the reactor is waiting with.
-/

namespace LowLatency

namespace Net

/-- **The servers can be stopped** without the clients, in a state with the flag set, exactly if:
in the thread-per-client server, no thread between its check of the flag and the return of its
`receive` has a client with nothing to say, and none waits, or is bound to wait, in `send` for a
client that does not read; in the reactor server, the reactor is not in an
`epoll_wait` with a negative timeout and nothing to report. -/
theorem shutdown_iff (p : Process) :
    (∀ tr s, (ThreadPerClient.stopping p).Run tr s → s.isStopping = true →
      ((∀ t, ThreadPerClient.Joined s t → ThreadPerClient.Exits p s t) ↔
        ∀ k, ¬ThreadPerClient.Held k s)) ∧
    ∀ tr l, (Reactor.stopping p).Run tr l → l.isStopping = true →
      (Reactor.Exits p l ↔ ¬Reactor.Asleep l) :=
  ⟨fun _ _ hrun hstop => ThreadPerClient.exits_iff hrun hstop,
    fun _ _ hrun hstop => Reactor.exits_iff hrun hstop⟩

/-! ### Two servers that are stopped -/

namespace ThreadPerClient

variable {p : Process} {s : State}

/-- `stop` may be called in every state of the server. -/
theorem run_stop {tr : List Action} (hrun : (system p).Run tr s) :
    ∃ tr, (stopping p).Run tr { s with isStopping := true } := by
  have hstopping : (stopping p).Run (tr.map some) s := by
    induction hrun with
    | start hs => exact .start hs
    | snoc _ hs ih =>
      rw [List.map_append, List.map_singleton]
      exact ih.snoc (.step hs)
  exact ⟨_, hstopping.snoc .stop⟩

/-- The thread of the only client is in `receive`, the client has said nothing, and `stop` has
been called. -/
def silentStopped : State := { clientReceiving with isStopping := true }

/-- The client has sent a byte. -/
def byteStopped : State :=
  { clientReceiving with
    isStopping := true
    stream := Function.update clientReceiving.stream 0 ⟨[0], false, none⟩ }

theorem run_silentStopped : ∃ tr, (stopping process).Run tr silentStopped := by
  obtain ⟨tr, hrun⟩ := run_clientReceiving
  exact run_stop hrun.of_restrict

theorem run_byteStopped : ∃ tr, (stopping process).Run tr byteStopped := by
  obtain ⟨tr, hrun⟩ := run_clientReceiving
  exact run_stop (hrun.of_restrict.snoc (.send (s := clientReceiving) 0 [0] (by decide) rfl))

end ThreadPerClient

namespace Reactor

/-- The reactor has called `epoll_wait` with the timeout made of `microSeconds`, and `stop` has
been called. -/
def waitStopped (microSeconds : Int64) : Loop :=
  ⟨started, true, setTimeout microSeconds, .wait (setTimeout microSeconds), []⟩

theorem run_waitStopped (microSeconds : Int64) :
    ∃ tr, (stopping process).Run tr (waitStopped microSeconds) := by
  have h₀ : (stopping process).Run [] ⟨started, false, 0, .check, []⟩ :=
    .start ⟨⟨rfl, rfl, rfl, rfl, rfl⟩, rfl, rfl, rfl, rfl⟩
  have h₁ := h₀.snoc (.setPollTimeout microSeconds)
  have h₂ := h₁.snoc (.check rfl)
  exact ⟨_, h₂.snoc .stop⟩

end Reactor

/-- With a byte to receive, and with the timeout of the test program, the servers can be
stopped. -/
theorem shutdown_of_byte :
    (∀ t, ThreadPerClient.Joined ThreadPerClient.byteStopped t →
      ThreadPerClient.Exits ThreadPerClient.process ThreadPerClient.byteStopped t) ∧
    Reactor.Exits Reactor.process (Reactor.waitStopped (-1)) := by
  obtain ⟨tr, hrun⟩ := ThreadPerClient.run_byteStopped
  obtain ⟨tr', hrun'⟩ := Reactor.run_waitStopped (-1)
  have hstopped := ThreadPerClient.stopped_of_run hrun rfl
  refine ⟨((shutdown_iff ThreadPerClient.process).1 tr _ hrun rfl).mpr ?_,
    ((shutdown_iff Reactor.process).2 tr' _ hrun' rfl).mpr ?_⟩
  · rintro (_ | k) hk
    · -- there is a byte to receive, and room for the reply
      rcases hk with ⟨-, hquiet⟩ | ⟨hfull, -⟩
      · cases hquiet.1
      · cases hfull
    · have hover := hk.over_eq_false
      rw [hstopped.not_started (Nat.succ_le_succ (Nat.zero_le k))] at hover
      cases hover
  · rintro ⟨timeout, hpc, hneg, -⟩
    cases hpc
    exact absurd hneg (by decide)

/-- **Two servers that cannot be stopped**: one with a client that is connected and says
nothing, and one whose reactor waits with the timeout made of `-1000` microseconds. -/
theorem stop_blocked :
    (∃ tr, (ThreadPerClient.stopping ThreadPerClient.process).Run tr
        ThreadPerClient.silentStopped ∧
      ThreadPerClient.Joined ThreadPerClient.silentStopped (.client 0) ∧
      ¬ThreadPerClient.Exits ThreadPerClient.process ThreadPerClient.silentStopped (.client 0)) ∧
    ∃ tr, (Reactor.stopping Reactor.process).Run tr (Reactor.waitStopped (-1000)) ∧
      ¬Reactor.Exits Reactor.process (Reactor.waitStopped (-1000)) := by
  obtain ⟨tr, hrun⟩ := ThreadPerClient.run_silentStopped
  obtain ⟨tr', hrun'⟩ := Reactor.run_waitStopped (-1000)
  have hstopped := ThreadPerClient.stopped_of_run hrun rfl
  refine ⟨⟨tr, hrun, ?_, hstopped.not_exits (.inl ⟨rfl, rfl, rfl, rfl⟩)⟩, tr', hrun',
    fun hexits => (Reactor.exits_iff hrun' rfl).mp hexits ?_⟩
  · rintro ⟨⟩
  · exact ⟨_, rfl, by decide, fun e he => absurd he List.not_mem_nil⟩

end Net

end LowLatency
