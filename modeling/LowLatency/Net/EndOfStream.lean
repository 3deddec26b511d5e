import LowLatency.Net.ClientThreads
import LowLatency.Net.ReactorDispatch

/-!
# The end of a stream

When a client has closed its connection, `receive` returns `0`, and `recv` leaves `errno`
alone. Both servers then ask `isConnectionLost`, which is given the result and does not
look at it: it judges by the `errno` that some earlier call has left in the thread. So
whether the peer is removed depends on that number
(`LowLatency.Net.end_of_stream_removes_iff`). If it is not removed, its descriptor stays
readable for ever, and the server comes back to it without end.
-/

namespace LowLatency

namespace Net

open TcpServer (Slot Connected Aligned)

/-- `removePeer` clears the flag of the slot. -/
theorem TcpServer.flag_removePeer {server server' : TcpServer} {i : ℕ} {flag : Bool}
    {closed : Option Descriptor} (hi : server.peerSocketsConnectionFlags[i]? = some flag)
    (h : server.removePeer i = some (server', closed)) :
    server'.peerSocketsConnectionFlags[i]? = some false := by
  obtain ⟨x, -, heq⟩ := Option.map_eq_some_iff.mp h
  cases heq
  exact List.getElem?_set_self (List.getElem?_eq_some_iff.mp hi).1

/-! ### The reactor -/

namespace Reactor

variable {p : Process} {s s' : State} {tr : List Action} {e : EpollEvent} {rest : List EpollEvent}
  {i : ℕ} {sock : Socket}

/-- The flag of the peer is cleared, and its descriptor is not watched any more. -/
def Dropped (i : ℕ) (sock : Socket) (s : State) : Prop :=
  s.server.peerSocketsConnectionFlags[i]? = some false ∧
    sock.socketDescriptor ∉ s.kernel.interest

/-- `onClientDisconnected` clears the flag of the slot. -/
theorem flag_onClientDisconnected (flag : Bool)
    (hi : s.server.peerSocketsConnectionFlags[i]? = some flag)
    (hs : onClientDisconnected i s = some s') :
    s'.server.peerSocketsConnectionFlags[i]? = some false := by
  obtain ⟨x, -, hs⟩ := Option.bind_eq_some_iff.mp hs
  obtain ⟨⟨server, closed⟩, hremove, rfl⟩ := Option.map_eq_some_iff.mp hs
  exact TcpServer.flag_removePeer hi hremove

/-- **The end of a stream in the reactor.** -/
theorem dropped_iff (hrun : (system p).Run tr s) (hbatch : s.batch = e :: rest)
    (hvalid : isValidEvent e = true) (htarget : dispatchTarget s e = some i)
    (hi : s.server.Connected i sock) (accepted : Option Descriptor) (error : ℤ) :
    ∃ s', dispatch accepted (.failed 0 error) s = some s' ∧
      (Dropped i sock s' ↔ Socket.lostError error = true) := by
  have hpeer : (fetch e rest s).server.peerSockets[i]? = some sock := hi.2
  rcases hlost : Socket.lostError error with _ | _
  · -- the peer stays where it is
    refine ⟨fetch e rest s, ?_, iff_of_false ?_ Bool.false_ne_true⟩
    · rw [dispatch_cons hbatch, htarget]
      simp only [hvalid, if_true, handleClient, hpeer, Option.bind_some, Socket.isConnectionLost,
        hlost]
      rfl
    · rintro ⟨hflag, -⟩
      cases hi.1.symm.trans hflag
  · obtain ⟨s', hs, hremoved⟩ :=
      dispatch_lost (socketsInv_of_run hrun) hbatch hvalid htarget hi hlost accepted 0
    refine ⟨s', hs, iff_of_true ⟨?_, ?_⟩ rfl⟩
    · rw [dispatch_cons hbatch, htarget] at hs
      simp only [hvalid, if_true, handleClient, hpeer, Option.bind_some, Socket.isConnectionLost,
        hlost] at hs
      refine flag_onClientDisconnected true ?_ hs
      exact hi.1
    · rw [hremoved.interest]
      exact Finset.notMem_erase _ _

end Reactor

/-! ### The thread of a client -/

namespace ThreadPerClient

variable {p : Process} {s s' : State} {tr : List Action} {a : Action} {k : ℕ}

/-- The thread is in `onClientDisconnected`, or has returned from it. -/
@[simp] def ClientPc.disconnects : ClientPc → Bool
  | .lockRemove | .removePeer | .unlockRemove | .exited => true
  | _ => false

/-- **A thread is moved by its own steps only**, and keeps its slot. -/
theorem Inv.client_eq (h : Inv p s) (hs : (system p).Step s a s')
    (hk : s.client k ≠ .notStarted) :
    s'.peerIndex k = s.peerIndex k ∧
      (s'.client k = s.client k ∨ ThreadPerClient.clientStep k s = some s' ∨
        ∃ x, s.client k = .receive x) := by
  rcases hs with _ | _ | _ | _ | ⟨accepted, -, hpending⟩ | hs | ⟨j, x, sock, r, st, hpc, -, -⟩ |
    ⟨j, hs⟩ | _ | _
  iterate 4
    exact ⟨rfl, .inl rfl⟩
  · rcases accept_cases h.connections hpending with ⟨kernel, -, heq, -⟩ |
      ⟨fd, j, pending, kernel, -, -, heq, -⟩
    all_goals rw [heq]; exact ⟨rfl, .inl rfl⟩
  · rcases acceptorStep_cases h.threads.running hs with - | - | - | - | - | -
    · exact ⟨rfl, .inl rfl⟩
    · exact ⟨rfl, .inl rfl⟩
    · exact ⟨rfl, .inl rfl⟩
    · -- a new thread is one that had not started
      have hne : k ≠ s.started := by
        rintro rfl
        exact hk (h.threads.started _ le_rfl)
      exact ⟨Function.update_of_ne hne .., .inl (Function.update_of_ne hne ..)⟩
    · exact ⟨rfl, .inl rfl⟩
    · exact ⟨rfl, .inl rfl⟩
  · rcases eq_or_ne k j with rfl | hne
    · exact ⟨rfl, .inr (.inr ⟨x, hpc⟩)⟩
    · exact ⟨rfl, .inl (State.goto_client_of_ne s hne _)⟩
  · rcases eq_or_ne k j with rfl | hne
    · refine ⟨?_, .inr (.inl hs)⟩
      rcases clientStep_cases h.threads.running hs with _ | _ | _ | _ | _ | _
      all_goals rfl
    · rcases clientStep_cases h.threads.running hs with _ | _ | _ | _ | _ | _
      all_goals exact ⟨rfl, .inl (State.goto_client_of_ne s hne _)⟩
  iterate 2
    exact ⟨rfl, .inl rfl⟩

/-- A thread that disconnects its client goes on to do so. -/
theorem Inv.disconnects_step (h : Inv p s) (hs : (system p).Step s a s')
    (hk : (s.client k).disconnects = true) :
    (s'.client k).disconnects = true ∧ s'.peerIndex k = s.peerIndex k := by
  have hstarted : s.client k ≠ .notStarted := by
    intro hc
    rw [hc] at hk
    cases hk
  obtain ⟨hindex, heq | hs | ⟨x, hpc⟩⟩ := h.client_eq hs hstarted
  · exact ⟨heq ▸ hk, hindex⟩
  · refine ⟨?_, hindex⟩
    rcases hpc : s.client k with _ | _ | _ | _ | x | x | ⟨x, r⟩ | ⟨x, r⟩ | _ | _ | _ | _
    all_goals rw [hpc] at hk
    all_goals try cases hk
    all_goals simp only [ThreadPerClient.clientStep, hpc] at hs
    · rcases hlock : s.peerSocketsLock with _ | t
      · rw [hlock] at hs
        cases hs
        simp [State.goto]
      · rw [hlock] at hs
        cases hs
    · obtain ⟨⟨server, closed⟩, -, rfl⟩ := Option.map_eq_some_iff.mp hs
      simp [State.goto]
    · cases hs
      simp [State.goto]
    · cases hs
  · rw [hpc] at hk
    cases hk

/-- **Whatever happens from now on**, the thread is in `onClientDisconnected` or has returned
from it, and its call of `removePeer` clears the flag of its slot. -/
structure Disconnects (p : Process) (k : ℕ) (s : State) : Prop where
  stays : ∀ tr s', (system p).Steps s tr s' → (s'.client k).disconnects = true
  clears : ∀ tr s' s'', (system p).Steps s tr s' → s'.client k = .removePeer →
    clientStep k s' = some s'' →
    s''.server.peerSocketsConnectionFlags[s.peerIndex k]? = some false

/-- Along the steps of the server, a thread that disconnects its client keeps its slot. -/
theorem Inv.disconnects_steps (h : Inv p s) (hs : (system p).Steps s tr s')
    (hk : (s.client k).disconnects = true) :
    Inv p s' ∧ (s'.client k).disconnects = true ∧ s'.peerIndex k = s.peerIndex k := by
  induction hs with
  | refl => exact ⟨h, hk, rfl⟩
  | head hstep _ ih =>
    obtain ⟨hk₁, hindex⟩ := h.disconnects_step hstep hk
    obtain ⟨h', hk', hindex'⟩ := ih (h.step hstep) hk₁
    exact ⟨h', hk', hindex'.trans hindex⟩

/-- A thread at the beginning of `onClientDisconnected` runs through it. -/
theorem Inv.disconnects (h : Inv p s) (hk : (s.client k).disconnects = true) :
    Disconnects p k s := by
  constructor
  · exact fun tr s' hs => (h.disconnects_steps hs hk).2.1
  · intro tr s' s'' hs hpc hstep
    obtain ⟨h', -, hindex⟩ := h.disconnects_steps hs hk
    obtain ⟨sock, hi⟩ := h'.threads.exists_connected (k := k) (by rw [hpc]; rfl)
    rw [ThreadPerClient.clientStep, hpc] at hstep
    obtain ⟨⟨server, closed⟩, hremove, rfl⟩ := Option.map_eq_some_iff.mp hstep
    rw [← hindex]
    exact TcpServer.flag_removePeer hi.1 hremove

/-- **The end of a stream in the thread of its client.** -/
theorem disconnects_iff (hrun : (system p).Run tr s) {x : ℕ} {error : ℤ}
    (hpc : s.client k = .handle x (.failed 0 error)) :
    ∃ s', clientStep k s = some s' ∧ (Disconnects p k s' ↔ Socket.lostError error = true) := by
  have h := inv_of_run hrun
  obtain ⟨sock, -, hderef, -⟩ := h.deref (k := k) (by rw [hpc]; rfl)
  rcases hlost : Socket.lostError error with _ | _
  · -- the thread goes on with its loop
    have hs : clientStep k s = some (s.goto k .check) := by
      simp only [clientStep, hpc, hderef, Option.bind_some, Socket.isConnectionLost, hlost]
      rfl
    refine ⟨_, hs, iff_of_false (fun hc => ?_) Bool.false_ne_true⟩
    have hcheck := hc.stays [] _ (.refl _)
    rw [State.goto_client_self] at hcheck
    cases hcheck
  · have hs : clientStep k s = some
        { s.goto k .lockRemove with
          server :=
            s.server.setPeerSocket (s.peerIndex k) { sock with state := .disconnected } } := by
      simp only [clientStep, hpc, hderef, Option.bind_some, Socket.isConnectionLost, hlost]
      rfl
    refine ⟨_, hs, iff_of_true ((h.step (.client k hs)).disconnects ?_) rfl⟩
    simp [State.goto]

end ThreadPerClient

/-! ### The result -/

/-- **A client that has closed its connection is removed exactly if** the `errno` left in the
thread is one of those that `isConnectionLost` recognizes: in the reactor by the dispatch
that receives the end of the stream, in the other server by the thread of the client,
which calls `onClientDisconnected` and nothing else any more. -/
theorem end_of_stream_removes_iff (p : Process) (error : ℤ) :
    (∀ tr s, (Reactor.system p).Run tr s → ∀ e rest i sock accepted, s.batch = e :: rest →
      Reactor.isValidEvent e = true → Reactor.dispatchTarget s e = some i →
      s.server.Connected i sock →
      ∃ s', Reactor.dispatch accepted (.failed 0 error) s = some s' ∧
        (Reactor.Dropped i sock s' ↔ Socket.lostError error = true)) ∧
    ∀ tr s, (ThreadPerClient.system p).Run tr s → ∀ k x,
      s.client k = .handle x (.failed 0 error) →
      ∃ s', ThreadPerClient.clientStep k s = some s' ∧
        (ThreadPerClient.Disconnects p k s' ↔ Socket.lostError error = true) :=
  ⟨fun _ _ hrun _ _ _ _ accepted hbatch hvalid htarget hi =>
      Reactor.dropped_iff hrun hbatch hvalid htarget hi accepted error,
    fun _ _ hrun _ _ hpc => ThreadPerClient.disconnects_iff hrun hpc⟩

/-- With an `ECONNRESET` left over from another peer, the end of a stream is noticed. -/
theorem end_of_stream_removes_left_over :
    ∃ s', Reactor.dispatch none (.failed 0 104) Reactor.peerEvent = some s' ∧
      Reactor.Dropped 0 ⟨5, .connected⟩ s' := by
  obtain ⟨tr, hrun⟩ := Reactor.run_peerEvent
  obtain ⟨s', hs, hiff⟩ := (end_of_stream_removes_iff Reactor.process 104).1 tr _ hrun
    ⟨Reactor.epollIn, 5⟩ [] 0 ⟨5, .connected⟩ none rfl (by decide) rfl ⟨rfl, rfl⟩
  exact ⟨s', hs, hiff.mpr rfl⟩

/-- The only client has closed its connection, and its thread has received the end of the
stream, with no error left over. -/
def ThreadPerClient.clientEnded : State :=
  { clientReceiving.goto 0 (.unlock 0 (.failed 0 0)) with
    stream := Function.update
      (Function.update clientReceiving.stream 0 ⟨[], true, none⟩) 0 ⟨[], true, none⟩ }

/-- The thread has gone on to the beginning of its loop. -/
def ThreadPerClient.clientUnnoticed : State :=
  (runThreads [.client 0, .client 0] clientEnded).get rfl

/-- A thread in `receive` whose client sends nothing and closes its side receives the end of
the stream. -/
theorem ThreadPerClient.run_close_receive {p : Process} {s : State} {tr : List Action}
    (hrun : ((system p).restrict fun _ _ => True).Run tr s) (k peerSocket : ℕ) (sock : Socket)
    (hj : s.connection sock.socketDescriptor < s.connected)
    (hpc : s.client k = .receive peerSocket) (hderef : s.deref k peerSocket = some sock)
    (hstream : s.stream (s.connection sock.socketDescriptor) = ⟨[], false, none⟩) :
    ∃ tr', ((system p).restrict fun _ _ => True).Run tr'
      { s.goto k (.unlock peerSocket (.failed 0 0)) with
        stream := Function.update
          (Function.update s.stream (s.connection sock.socketDescriptor) ⟨[], true, none⟩)
          (s.connection sock.socketDescriptor) ⟨[], true, none⟩ } := by
  have hclosed := hrun.snoc ⟨.close _ hj, trivial⟩
  rw [hstream] at hclosed
  refine ⟨_, hclosed.snoc
    ⟨.receive k peerSocket sock (.failed 0 0) ⟨[], true, none⟩ hpc hderef ?_, trivial⟩⟩
  have hreceives :
      Stream.Receives (sock.socketDescriptor ∉ s.kernel.nonBlocking) ⟨[], true, none⟩
        (.failed 0 0) ⟨[], true, none⟩ := .ended 0 rfl rfl
  simpa only [Function.update_self] using hreceives

theorem ThreadPerClient.run_clientUnnoticed :
    ∃ tr, ((system process).restrict fun _ _ => True).Run tr clientUnnoticed := by
  obtain ⟨tr₁, h₁⟩ := run_clientReceiving
  obtain ⟨tr₂, h₂⟩ := run_close_receive h₁ 0 0 ⟨5, .connected⟩ (by decide) rfl rfl rfl
  have h₃ : ((system process).restrict fun _ _ => True).Run tr₂ clientEnded := h₂
  exact ⟨_, run_runThreads (fun _ _ => trivial) [.client 0, .client 0] h₃ (Option.some_get _).symm⟩

/-- **A client that has closed its connection stays connected**, in both servers, if no
error is left over: the reactor still watches its descriptor, and the thread is back at the
beginning of its loop. -/
theorem end_of_stream_unnoticed :
    (∃ tr s', (Reactor.system Reactor.process).Run tr Reactor.peerEvent ∧
      Reactor.dispatch none (.failed 0 0) Reactor.peerEvent = some s' ∧
      s'.server.Connected 0 ⟨5, .connected⟩ ∧ 5 ∈ s'.kernel.interest) ∧
    ∃ tr, (ThreadPerClient.system ThreadPerClient.process).Run tr ThreadPerClient.clientUnnoticed ∧
      ThreadPerClient.clientUnnoticed.client 0 = .check ∧
      ThreadPerClient.clientUnnoticed.server.Connected 0 ⟨5, .connected⟩ ∧
      (ThreadPerClient.clientUnnoticed.stream 0).ended = true := by
  obtain ⟨tr, hrun⟩ := Reactor.run_peerEvent
  obtain ⟨tr', hrun'⟩ := ThreadPerClient.run_clientUnnoticed
  exact ⟨⟨tr, _, hrun, rfl, ⟨rfl, rfl⟩, by decide⟩, tr', hrun'.of_restrict, rfl, ⟨rfl, rfl⟩, rfl⟩

end Net

end LowLatency
