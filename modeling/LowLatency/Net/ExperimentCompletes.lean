import LowLatency.Foundations.Counting
import LowLatency.Net.Experiment

/-!
# The clients and the server come to an end

The experiment of `LowLatency.Net.Experiment` cannot get stuck: whatever has happened so far,
if the server is alive, the threads can go on until `main` of the clients has returned
(`LowLatency.Net.Experiment.experiment_completes`), and on the way the clients take no more
steps than the numbers that were entered allow. There are two mutexes, one on each side, and a
thread of the server keeps its mutex while it waits for a client, which may itself wait for a
reply. But a client that waits has something to receive or the server has something to reply
to; and a thread of the server that waits with the mutex waits for a client that can go on.
For the reply to a client that has received everything there is room. And on the way no thread
of the server looks for its handle before it has been stored.
-/

namespace LowLatency

namespace Net

namespace Experiment

variable {p : Process} {numberOfClients messageIteration : Int32} {s s' : State} {a : Action}
  {tr : List Action} {b : ClientProgram.ThreadAction} {j k x : ℕ}
  {clients : ClientProgram.State}

/-! ### What the clients have still to do -/

/-- The steps that a thread with `n` messages in all has still to make: nine for each message. -/
def weight (n : ℕ) (c : ClientAutomation.State) : ClientProgram.Place → ℕ
  | .outside =>
    match c.pc with
    | .socket _ => 9 * n + 4
    | .connect _ => 9 * n + 3
    | .iterate => 9 * (n - c.i) + 2
    | .test => 9 * (n - c.i) - 4
    | .receive => 9 * (n - c.i) - 5
    | .quit => 1
    | .done => 0
    | _ => 9 * (n - c.i) - 6
  | .read => 9 * (n - c.i) + 1
  | .write _ => 9 * (n - c.i)
  | .format => 9 * (n - c.i) - 1
  | .send _ => 9 * (n - c.i) - 2
  | .unlock => 9 * (n - c.i) - 3
  | .disconnected => 0

/-- The steps that `main` has still to make, with `n` threads in all. -/
def mainWeight (n : ℕ) (s : ClientProgram.State) : ℕ :=
  match s.main with
  | .create => n - s.threads + n + 2
  | .join k => n - k + 1
  | .returned => 0

/-- **The steps that the clients have still to make.** -/
def work (numberOfClients messageIteration : Int32) (s : ClientProgram.State) : ℕ :=
  mainWeight numberOfClients.toInt.toNat s +
    ∑ k ∈ Finset.range numberOfClients.toInt.toNat,
      weight messageIteration.toInt.toNat (s.client k) (s.place k)

/-- A thread in the critical section has a message to send, `test` is reached with a result that
is not `0`, and `::connect` with a socket. -/
def Shaped (n : ℕ) (c : ClientAutomation.State) : ClientProgram.Place → Prop
  | .outside => (c.pc = .test → c.res ≠ 0) ∧
    ∀ trial, c.pc = .connect trial → 0 ≤ c.connector.socketDescriptor
  | .read | .write _ | .format | .send _ => c.pc = .iterate ∧ c.i < n
  | .unlock => c.pc = .test ∧ c.res ≠ 0 ∧ c.i < n
  | .disconnected => True

theorem view_i (s : ClientProgram.State) (k : ℕ) : (s.view k).i = (s.client k).i := rfl

@[simp] theorem client_goto (s : ClientProgram.State) (k : ℕ) (place : ClientProgram.Place) :
    (s.goto k place).client = s.client := rfl

/-- A step outside the critical section makes the work less. -/
theorem weight_outside {n : ℕ} {x : ClientAutomation.Action} {c : ClientAutomation.State}
    (hunbroken : Unbroken (s.clients.view k).pc = true)
    (hshaped : Shaped n (s.clients.client k) .outside) (hn : n = messageIteration.toInt.toNat)
    (hsent : (s.clients.client k).pc.inIteration = true → (s.clients.client k).i < n)
    (hout : ClientProgram.IsOutside x)
    (hs : (ClientAutomation.system messageIteration).Step (s.clients.view k) x c)
    (hx : Exchange p k s (.step x) s') :
    ClientProgram.after x = .outside ∧ Shaped n c .outside ∧
      weight n c .outside < weight n (s.clients.client k) .outside := by
  cases hs with
  | socket trial fd hpc hfresh =>
    have hpc₀ : (s.clients.client k).pc = .socket trial := hpc
    refine ⟨rfl, ⟨nofun, fun _ _ => ?_⟩, ?_⟩
    · cases hx with
      | other _ hlocal =>
        obtain ⟨fd, rfl⟩ := Option.ne_none_iff_exists'.mp hlocal
        rw [Socket.create_socketDescriptor]
        exact (hfresh fd rfl).1
    · simp only [weight, hpc₀]
      omega
  | connect trial established hpc =>
    have hpc₀ : (s.clients.client k).pc = .connect trial := hpc
    rw [hpc] at hunbroken
    cases hx with
    | connect server hserver =>
      cases trial with
      | first =>
        refine ⟨rfl, ⟨nofun, nofun⟩, ?_⟩
        show 9 * (n - (s.clients.client k).i) + 2 < _
        simp only [weight, hpc₀]
        omega
      | again => cases hunbroken
    | other _ hlocal => exact hlocal.elim
  | send number hpc hlt => exact hout.elim
  | test hpc hres =>
    have hpc₀ : (s.clients.client k).pc = .test := hpc
    have hlt := hsent (by rw [hpc₀]; rfl)
    refine ⟨rfl, ⟨nofun, nofun⟩, ?_⟩
    simp only [weight, hpc₀, view_i]
    omega
  | receive received hpc hadm =>
    have hpc₀ : (s.clients.client k).pc = .receive := hpc
    have hlt := hsent (by rw [hpc₀]; rfl)
    refine ⟨rfl, ⟨nofun, nofun⟩, ?_⟩
    simp only [weight, hpc₀, view_i]
    omega
  | handle read error hpc | close hpc | reset hpc | resend hpc =>
    rw [hpc] at hunbroken
    cases hunbroken
  | leaveReply bytes hpc =>
    have hpc₀ : (s.clients.client k).pc = .handle (.data bytes) := hpc
    have hlt := hsent (by rw [hpc₀]; rfl)
    refine ⟨rfl, ⟨nofun, nofun⟩, ?_⟩
    simp only [weight, hpc₀, view_i]
    omega
  | leave hpc hres => exact absurd hres (hshaped.1 hpc)
  | quit hpc hlt =>
    have hpc₀ : (s.clients.client k).pc = .iterate := hpc
    refine ⟨rfl, ⟨nofun, nofun⟩, ?_⟩
    simp only [weight, hpc₀]
    omega
  | exit hpc =>
    have hpc₀ : (s.clients.client k).pc = .quit := hpc
    refine ⟨rfl, ⟨nofun, nofun⟩, ?_⟩
    simp only [weight, hpc₀]
    omega
  | other kernel => exact hout.elim

/-- **A step of a thread makes its work less**, and leaves it where it is expected. -/
theorem weight_step (hlink : Link p s) {n : ℕ} (hn : n = messageIteration.toInt.toNat)
    (hshaped : Shaped n (s.clients.client k) (s.clients.place k))
    (hsent : (s.clients.client k).pc.inIteration = true → (s.clients.client k).i < n)
    (hs : ClientProgram.ThreadStep messageIteration k s.clients b clients)
    (hx : Exchange p k s b s') :
    Shaped n (clients.client k) (clients.place k) ∧
      weight n (clients.client k) (clients.place k) <
        weight n (s.clients.client k) (s.clients.place k) := by
  cases hs with
  | step x c hplace hout hs =>
    rw [hplace] at hshaped ⊢
    obtain ⟨hafter, hstep⟩ := weight_outside (hlink.unbroken k) hshaped hn hsent hout hs hx
    rwa [client_setClient, place_goto, hafter]
  | send number c hplace hs =>
    rw [hplace] at hshaped ⊢
    obtain ⟨hpc, hpc', hi, hres, -⟩ := pc_of_send hs
    obtain ⟨-, hlt⟩ := hshaped
    rw [view_i] at hi
    rw [client_setClient, place_goto]
    refine ⟨⟨hpc', by rw [hres]; decide, hi ▸ hlt⟩, ?_⟩
    simp only [weight, hi]
    omega
  | lock hplace hpc hlt =>
    rw [hplace]
    have hlt' : (s.clients.client k).i < n := by omega
    simp only [ClientProgram.State.goto, Function.update_self]
    refine ⟨⟨hpc, hlt'⟩, ?_⟩
    simp only [weight, hpc]
    omega
  | read hplace =>
    rw [hplace] at hshaped ⊢
    rw [place_goto]
    refine ⟨hshaped, ?_⟩
    simp only [weight, client_goto]
    omega
  | write m hplace =>
    rw [hplace] at hshaped ⊢
    simp only [ClientProgram.State.goto, Function.update_self]
    obtain ⟨hpc, hlt⟩ := hshaped
    refine ⟨⟨hpc, hlt⟩, ?_⟩
    simp only [weight]
    omega
  | format hplace =>
    rw [hplace] at hshaped ⊢
    rw [place_goto]
    obtain ⟨hpc, hlt⟩ := hshaped
    refine ⟨⟨hpc, hlt⟩, ?_⟩
    simp only [weight, client_goto]
    omega
  | unlock hplace =>
    rw [hplace] at hshaped ⊢
    simp only [ClientProgram.State.goto, Function.update_self]
    obtain ⟨hpc, hres, hlt⟩ := hshaped
    refine ⟨⟨fun _ => hres, fun trial hc => ?_⟩, ?_⟩
    · cases hpc.symm.trans hc
    simp only [weight, hpc]
    omega
  | disconnect hplace => exact absurd hplace (hlink.placed k)

/-! ### The account -/

/-- The thread has still to create a socket. -/
def atSocket : ClientAutomation.Pc → ℕ
  | .socket _ => 1
  | _ => 0

/-- **The account of the connections**: those of the server are those of the threads, and there
are descriptors for the threads that have none yet. -/
structure Account (p : Process) (numberOfClients messageIteration : Int32) (s : State) :
    Prop where
  shaped : ∀ k, Shaped messageIteration.toInt.toNat (s.clients.client k) (s.clients.place k)
  notCreated : ∀ k, s.clients.threads ≤ k → (s.clients.client k).pc = .socket .first
  onto : ∀ x < s.server.connected, ∃ k < s.clients.threads,
    HasConnected (s.clients.client k).pc = true ∧ s.connection k = x
  ended : ∀ k, (s.clients.client k).pc = .done →
    (s.server.stream (s.connection k)).ended = true
  descriptors : s.server.descriptors ≤ p.base.card + s.server.connected
  opened : s.clients.kernel.opened.card +
    ∑ k ∈ Finset.range numberOfClients.toInt.toNat, atSocket (s.clients.client k).pc ≤ 2 ^ 31
  base : p.base.card + numberOfClients.toInt.toNat ≤ 2 ^ 31
  capacity : ∀ j, ThreadPerClient.replyLength ≤ s.server.capacity j
  joining : ∀ k, s.clients.main = .join k → k ≤ s.clients.threads

theorem account_init (h : (system p numberOfClients messageIteration).Init s) :
    Account p numberOfClients messageIteration s := by
  obtain ⟨⟨-, -, -, -, -, -, -, -, hkernel, hpending, hconnected, -⟩,
    ⟨hclients, hplace, -, -, -, hthreads, hmain⟩, -, hbase, hopened, -, hcapacity⟩ := h
  have hpc : ∀ k, (s.clients.client k).pc = .socket .first := fun k => (hclients k).2.2.1
  refine ⟨fun k => ?_, fun k _ => hpc k, fun x hx => ?_, fun k hk => ?_, ?_, ?_, hbase, hcapacity,
    fun k hk => ?_⟩
  · rw [hplace, Shaped, hpc]
    exact ⟨nofun, nofun⟩
  · rw [hconnected] at hx
    exact absurd hx (Nat.not_lt_zero x)
  · rw [hpc] at hk
    cases hk
  · rw [ThreadPerClient.State.descriptors, hkernel, hpending, hconnected]
    rfl
  · have hsum : ∑ k ∈ Finset.range numberOfClients.toInt.toNat,
        atSocket (s.clients.client k).pc = numberOfClients.toInt.toNat := by
      rw [Finset.sum_congr rfl fun k _ => by rw [hpc k]]
      simp [atSocket]
    rw [hsum]
    exact hopened
  · rw [hmain] at hk
    cases hk

/-- **A step of the server** keeps the account. -/
theorem Account.server (h : Account p numberOfClients messageIteration s) (hlink : Link p s)
    {a : ThreadPerClient.Action} {server : ThreadPerClient.State} (ha : a.IsServer)
    (hs : (ThreadPerClient.system p).Step s.server a server) {toClient : ℕ → List UInt8} :
    Account p numberOfClients messageIteration
      { s with server := server, toClient := toClient } := by
  have hne : a ≠ .connect := by
    rintro rfl
    exact ha
  have hconnected := ThreadPerClient.connected_eq_step hlink.inv hs hne
  refine ⟨h.shaped, h.notCreated, fun x hx => ?_, fun k hk => ?_, ?_, h.opened, h.base, fun j => ?_,
    h.joining⟩
  · exact h.onto x (hconnected ▸ hx)
  · refine ThreadPerClient.ended_step hlink.inv hs (hlink.numbered k ?_) (h.ended k hk)
    rw [hk]
    rfl
  · have hle := ThreadPerClient.descriptors_step hlink.inv hs hne
    have hbefore := h.descriptors
    dsimp only
    omega
  · exact (h.capacity j).trans_eq (congrFun (ThreadPerClient.capacity_eq_step hlink.inv hs) j).symm

/-- **A step of the thread `k`** keeps the account, if it does so for what the thread has. -/
theorem Account.thread (h : Account p numberOfClients messageIteration s) (hlink : Link p s)
    (hk : k < numberOfClients.toInt.toNat) (hlt : k < s.clients.threads)
    (hthreads : s'.clients.threads = s.clients.threads)
    (hmain : s'.clients.main = s.clients.main)
    (hothers : ∀ j, j ≠ k → s'.clients.place j = s.clients.place j ∧
      s'.clients.client j = s.clients.client j)
    (hshaped : Shaped messageIteration.toInt.toNat (s'.clients.client k) (s'.clients.place k))
    (hconnection : ∀ j, HasConnected (s.clients.client j).pc = true →
      s'.connection j = s.connection j)
    (hhas : HasConnected (s.clients.client k).pc = true →
      HasConnected (s'.clients.client k).pc = true)
    (honto : ∀ x < s'.server.connected, x < s.server.connected ∨
      HasConnected (s'.clients.client k).pc = true ∧ s'.connection k = x)
    (hended : ∀ x < s.server.connected, (s.server.stream x).ended = true →
      (s'.server.stream x).ended = true)
    (hdone : (s'.clients.client k).pc = .done →
      (s'.server.stream (s'.connection k)).ended = true)
    (hdescriptors : s'.server.descriptors ≤ p.base.card + s'.server.connected)
    (hcapacity : s'.server.capacity = s.server.capacity)
    (hopened : s'.clients.kernel.opened.card + atSocket (s'.clients.client k).pc ≤
      s.clients.kernel.opened.card + atSocket (s.clients.client k).pc) :
    Account p numberOfClients messageIteration s' := by
  have hdoneHas : ∀ j, (s.clients.client j).pc = .done →
      HasConnected (s.clients.client j).pc = true := by
    intro j hj
    rw [hj]
    rfl
  refine ⟨fun j => ?_, fun j hj => ?_, fun x hx => ?_, fun j hj => ?_, hdescriptors, ?_, h.base,
    hcapacity ▸ h.capacity, fun j hj => ?_⟩
  · rcases eq_or_ne j k with rfl | hne
    · exact hshaped
    · rw [(hothers j hne).1, (hothers j hne).2]
      exact h.shaped j
  · rw [hthreads] at hj
    rw [(hothers j (by omega)).2]
    exact h.notCreated j hj
  · rw [hthreads]
    rcases honto x hx with hx | ⟨hhas', rfl⟩
    · obtain ⟨j, hj, hhas', rfl⟩ := h.onto x hx
      refine ⟨j, hj, ?_, hconnection j hhas'⟩
      rcases eq_or_ne j k with rfl | hne
      · exact hhas hhas'
      · rwa [(hothers j hne).2]
    · exact ⟨k, hlt, hhas', rfl⟩
  · rcases eq_or_ne j k with rfl | hne
    · exact hdone hj
    · rw [(hothers j hne).2] at hj
      rw [hconnection j (hdoneHas j hj)]
      exact hended _ (hlink.numbered j (hdoneHas j hj)) (h.ended j hj)
  · have hsum := Counting.sum_of_moved (S := Finset.range numberOfClients.toInt.toNat)
      (f := fun j => atSocket (s.clients.client j).pc)
      (g := fun j => atSocket (s'.clients.client j).pc) (Finset.mem_range.mpr hk)
      fun j hj => by rw [(hothers j hj).2]
    have hbefore := h.opened
    omega
  · rw [hthreads]
    exact h.joining j (hmain ▸ hj)

/-- **What a step does to the thread**: it stays connected, ends by `exit` only, and opens a
descriptor only at `::socket`. -/
theorem client_step (hlink : Link p s) {n : ℕ}
    (hshaped : Shaped n (s.clients.client k) (s.clients.place k))
    (hs : ClientProgram.ThreadStep messageIteration k s.clients b clients)
    (hx : Exchange p k s b s') :
    (HasConnected (s.clients.client k).pc = true →
      HasConnected (clients.client k).pc = true) ∧
    ((clients.client k).pc = .done → b = .step .exit) ∧
    clients.kernel.opened.card + atSocket (clients.client k).pc ≤
      s.clients.kernel.opened.card + atSocket (s.clients.client k).pc := by
  cases hs with
  | step x c hplace hout hs =>
    rw [client_setClient]
    cases hs with
    | socket trial fd hpc hfresh =>
      have hpc₀ : (s.clients.client k).pc = .socket trial := hpc
      refine ⟨fun hc => ?_, nofun, ?_⟩
      · rw [hpc₀] at hc
        cases hc
      · rw [hpc₀]
        cases fd with
        | none => exact Nat.le_succ _
        | some fd => exact Finset.card_insert_le ..
    | connect trial established hpc =>
      have hpc' := hlink.pc_of hpc
      cases hx with
      | connect server hserver =>
        cases trial with
        | first => exact ⟨fun _ => rfl, nofun, Nat.le_add_right ..⟩
        | again => cases hpc'
      | other _ hlocal => exact hlocal.elim
    | send number hpc hlt => exact hout.elim
    | handle read error hpc => cases hlink.pc_of hpc
    | close hpc => cases hlink.pc_of hpc
    | reset hpc => cases hlink.pc_of hpc
    | resend hpc => cases hlink.pc_of hpc
    | exit hpc =>
      refine ⟨fun _ => rfl, fun _ => rfl, ?_⟩
      exact (s.clients.kernel.card_closeAny_le _).trans (Nat.le_add_right ..)
    | other kernel => exact hout.elim
    | _ => exact ⟨fun _ => rfl, nofun, Nat.le_add_right ..⟩
  | send number c hplace hs =>
    obtain ⟨hpc, hpc', -, -, hkernel⟩ := pc_of_send hs
    rw [client_setClient, hpc']
    refine ⟨fun _ => rfl, nofun, ?_⟩
    show c.kernel.opened.card + 0 ≤ _
    rw [hkernel]
    exact Nat.le_add_right ..
  | lock hplace hpc =>
    refine ⟨id, fun hc => ?_, le_rfl⟩
    cases hpc.symm.trans hc
  | read hplace | write _ hplace | format hplace | unlock hplace =>
    refine ⟨id, fun hc => ?_, le_rfl⟩
    rw [hplace] at hshaped
    cases hshaped.1.symm.trans hc
  | disconnect hplace => exact absurd hplace (hlink.placed k)

/-- **Every step of a thread of the clients** keeps the account. -/
theorem Account.threadStep (h : Account p numberOfClients messageIteration s) (hlink : Link p s)
    (hk : k < numberOfClients.toInt.toNat) (hlt : k < s.clients.threads)
    (hsent : (s.clients.client k).pc.inIteration = true →
      (s.clients.client k).i < messageIteration.toInt.toNat)
    (hs : ClientProgram.ThreadStep messageIteration k s.clients b clients)
    (hx : Exchange p k s b s') :
    Account p numberOfClients messageIteration { s' with clients := clients } := by
  obtain ⟨hthreads, hmain, hothers⟩ := hs.frame
  have hshaped := (weight_step hlink rfl (h.shaped k) hsent hs hx).1
  obtain ⟨hhas, hexit, hopened⟩ := client_step hlink (h.shaped k) hs hx
  -- what the thread does reaches a connection that the server has counted
  have hkeep : ∀ {a : ThreadPerClient.Action} {server : ThreadPerClient.State}
      {toClient : ℕ → List UInt8}, (ThreadPerClient.system p).Step s.server a server →
      a ≠ .connect → (b = .step .exit → (server.stream (s.connection k)).ended = true) →
      Account p numberOfClients messageIteration
        { s with server := server, toClient := toClient, clients := clients } := by
    intro a server toClient hserver hne hended
    have hconnected := ThreadPerClient.connected_eq_step hlink.inv hserver hne
    refine h.thread hlink hk hlt hthreads hmain hothers hshaped (fun _ _ => rfl) hhas
      (fun x hx => .inl (hconnected ▸ hx))
      (fun x hx hx' => ThreadPerClient.ended_step hlink.inv hserver hx hx')
      (fun hdone => hended (hexit hdone)) ?_
      (ThreadPerClient.capacity_eq_step hlink.inv hserver) hopened
    have hle := ThreadPerClient.descriptors_step hlink.inv hserver hne
    have hbefore := h.descriptors
    dsimp only
    omega
  -- and if the server does not notice the step, it has the same connections
  have hsame : b ≠ .step .exit →
      Account p numberOfClients messageIteration { s with clients := clients } := fun hne =>
    h.thread hlink hk hlt hthreads hmain hothers hshaped (fun _ _ => rfl) hhas (fun _ hx => .inl hx)
      (fun _ _ hx => hx) (fun hdone => absurd (hexit hdone) hne) h.descriptors rfl hopened
  cases hx with
  | connect server hserver =>
    have hold : ¬HasConnected (s.clients.client k).pc = true := by
      cases hs with
      | step x c hplace hout hs =>
        cases hs with
        | connect trial established hpc =>
          have hpc₀ : (s.clients.client k).pc = .connect trial := hpc
          rw [hpc₀]
          rintro ⟨⟩
    have hpc : (clients.client k).pc = .iterate := by
      cases hs with
      | step x c hplace hout hs =>
        cases hs with
        | connect trial established hpc =>
          have hpc' := hlink.pc_of hpc
          rw [client_setClient]
          cases trial with
          | first => rfl
          | again => cases hpc'
    have hserver' := hserver
    cases hserver with
    | connect hcapacity =>
      refine h.thread hlink hk hlt hthreads hmain hothers hshaped ?_ hhas ?_
        (fun x hx hx' => ThreadPerClient.ended_step hlink.inv hserver' hx hx') ?_ ?_
        (ThreadPerClient.capacity_eq_step hlink.inv hserver') hopened
      · intro j hj
        refine Function.update_of_ne ?_ ..
        rintro rfl
        exact hold hj
      · intro x hx
        rcases Nat.lt_succ_iff_lt_or_eq.mp hx with hx | rfl
        · exact .inl hx
        · exact .inr ⟨by rw [hpc]; rfl, Function.update_self ..⟩
      · rw [hpc]
        rintro ⟨⟩
      · have hbefore := h.descriptors
        simp only [ThreadPerClient.State.descriptors, List.length_append, List.length_singleton]
          at hbefore ⊢
        omega
  | send number server hserver => exact hkeep hserver (by rintro ⟨⟩) (by rintro ⟨⟩)
  | resend message server hserver => exact hkeep hserver (by rintro ⟨⟩) (by rintro ⟨⟩)
  | quit server hserver => exact hkeep hserver (by rintro ⟨⟩) (by rintro ⟨⟩)
  | receive bytes rest server hto hserver => exact hkeep hserver (by rintro ⟨⟩) (by rintro ⟨⟩)
  | lost read error hlost => exact hsame (by rintro ⟨⟩)
  | exit server hserver | reset error server hserver =>
    refine hkeep hserver (by rintro ⟨⟩) fun _ => ?_
    cases hserver
    dsimp only
    rw [Function.update_self]
  | other _ hlocal =>
    refine hsame ?_
    rintro rfl
    exact hlocal

/-! ### Along a run -/

/-- A step of `main` keeps the account. -/
theorem Account.main (h : Account p numberOfClients messageIteration s)
    (hs : ClientProgram.MainStep numberOfClients s.clients clients) :
    Account p numberOfClients messageIteration { s with clients := clients } := by
  cases hs with
  | create hmain hlt =>
    refine ⟨h.shaped, fun k hk => h.notCreated k (Nat.le_of_succ_le hk), fun x hx => ?_, h.ended,
      h.descriptors, h.opened, h.base, h.capacity, fun k hk => ?_⟩
    · obtain ⟨k, hk, hx⟩ := h.onto x hx
      exact ⟨k, Nat.lt_succ_of_lt hk, hx⟩
    · cases hmain.symm.trans hk
  | created =>
    exact ⟨h.shaped, h.notCreated, h.onto, h.ended, h.descriptors, h.opened, h.base,
      h.capacity, by
      rintro k ⟨⟩
      exact Nat.zero_le _⟩
  | join j hmain hlt =>
    exact ⟨h.shaped, h.notCreated, h.onto, h.ended, h.descriptors, h.opened, h.base,
      h.capacity, by
      rintro k ⟨⟩
      exact hlt⟩
  | returned =>
    exact ⟨h.shaped, h.notCreated, h.onto, h.ended, h.descriptors, h.opened, h.base,
      h.capacity, nofun⟩

section Run

variable (h : (system p numberOfClients messageIteration).Run tr s)

include h

/-- The messages of a thread are counted up to their number. -/
theorem sent_of_run (k : ℕ) :
    ((s.clients.client k).pc.inIteration = true →
      (s.clients.client k).i < messageIteration.toInt.toNat) ∧
    (ClientProgram.numbersOf k (clientActions tr)).length =
      (s.clients.client k).i + (if (s.clients.client k).pc.inIteration = true then 1 else 0) ∧
    (s.clients.client k).i ≤ messageIteration.toInt.toNat := by
  have hclients := clients_of_run h
  have hsent := ClientProgram.sent_of_run ((ClientProgram.parts_of_run hclients).run k)
  have hlength := hsent.length
  rw [ClientProgram.sent_part hclients k, List.length_map] at hlength
  refine ⟨fun hin => ?_, hlength, hsent.le⟩
  have hlt := hsent.lt hin
  rw [view_i] at hlt
  omega

theorem lt_of_lt_threads (hk : k < s.clients.threads) : k < numberOfClients.toInt.toNat :=
  hk.trans_le (ClientProgram.mainInv_of_run (clients_of_run h)).le

end Run

theorem account_of_run (h : (system p numberOfClients messageIteration).Run tr s)
    (halive : s.alive = true) : Account p numberOfClients messageIteration s := by
  refine h.invariant (I := fun _ s => s.alive = true →
    Account p numberOfClients messageIteration s) (fun _ hs _ => account_init hs) ?_ halive
  intro tr s a s' hrun ih hs halive
  have hbefore := alive_of_step hs halive
  have hlink := link_of_run hrun hbefore
  replace ih := ih hbefore
  cases hs with
  | server a server _ ha _ hs => exact ih.server hlink ha hs
  | killed => cases halive
  | main clients hs => exact ih.main hs
  | thread k b clients _ hk hs hx =>
    exact ih.threadStep hlink (lt_of_lt_threads hrun hk) hk (sent_of_run hrun k).1 hs hx
  | alone k b clients hdead => exact absurd halive (ne_true_of_eq_false hdead)

/-- **Every step of the clients makes their work less**, and the server adds none. -/
theorem work_step (h : (system p numberOfClients messageIteration).Run tr s)
    (hs : (system p numberOfClients messageIteration).Step s a s') (halive : s'.alive = true) :
    work numberOfClients messageIteration s'.clients + a.ofClients.toList.length ≤
      work numberOfClients messageIteration s.clients := by
  have hmain := ClientProgram.mainInv_of_run (clients_of_run h)
  have hbefore := alive_of_step hs halive
  cases hs with
  | server => exact le_rfl
  | killed => cases halive
  | alone k b clients hdead => exact absurd halive (ne_true_of_eq_false hdead)
  | main clients hs =>
    have hle := hmain.le
    cases hs with
    | create hpc hlt =>
      simp only [work, mainWeight, hpc, Action.ofClients, Option.toList_some, List.length_singleton]
      omega
    | created hpc hlt =>
      simp only [work, mainWeight, hpc, Action.ofClients, Option.toList_some, List.length_singleton]
      omega
    | join j hpc hlt =>
      simp only [work, mainWeight, hpc, Action.ofClients, Option.toList_some, List.length_singleton]
      omega
    | returned hpc =>
      simp only [work, mainWeight, hpc, Action.ofClients, Option.toList_some, List.length_singleton]
      omega
  | thread k b clients _ hk hs hx =>
    obtain ⟨hthreads, hpc, hothers⟩ := hs.frame
    have hlt := (weight_step (link_of_run h hbefore) rfl ((account_of_run h hbefore).shaped k)
      (sent_of_run h k).1 hs hx).2
    have hsum := Counting.sum_of_moved (S := Finset.range numberOfClients.toInt.toNat)
      (f := fun j => weight messageIteration.toInt.toNat (s.clients.client j) (s.clients.place j))
      (g := fun j => weight messageIteration.toInt.toNat (clients.client j) (clients.place j))
      (Finset.mem_range.mpr (lt_of_lt_threads h hk))
      fun j hj => by rw [(hothers j hj).1, (hothers j hj).2]
    have hsame : mainWeight numberOfClients.toInt.toNat clients =
        mainWeight numberOfClients.toInt.toNat s.clients := by
      rw [mainWeight, hpc, hthreads, mainWeight]
    simp only [work, hsame, Action.ofClients, Option.toList_some, List.length_singleton]
    omega

/-- The steps that the clients make in all, at most. -/
def allWork (numberOfClients messageIteration : Int32) : ℕ :=
  2 * numberOfClients.toInt.toNat + 2 +
    numberOfClients.toInt.toNat * (9 * messageIteration.toInt.toNat + 4)

/-- **What the clients have done and what they have still to do.** -/
theorem length_add_work_le (h : (system p numberOfClients messageIteration).Run tr s)
    (halive : s.alive = true) :
    (clientActions tr).length + work numberOfClients messageIteration s.clients ≤
      allWork numberOfClients messageIteration := by
  refine h.invariant (I := fun tr s => s.alive = true →
    (clientActions tr).length + work numberOfClients messageIteration s.clients ≤
      allWork numberOfClients messageIteration) ?_ ?_ halive
  · rintro s ⟨-, ⟨hclients, hplace, -, -, -, hthreads, hmain⟩, -⟩ -
    have hpc : ∀ k, (s.clients.client k).pc = .socket .first := fun k => (hclients k).2.2.1
    have hsum : ∑ k ∈ Finset.range numberOfClients.toInt.toNat,
        weight messageIteration.toInt.toNat (s.clients.client k) (s.clients.place k) =
        numberOfClients.toInt.toNat * (9 * messageIteration.toInt.toNat + 4) := by
      rw [Finset.sum_const_nat (m := 9 * messageIteration.toInt.toNat + 4), Finset.card_range]
      intro k _
      rw [hplace]
      simp only [weight, hpc]
    have hfirst : mainWeight numberOfClients.toInt.toNat s.clients =
        2 * numberOfClients.toInt.toNat + 2 := by
      simp only [mainWeight, hmain, hthreads]
      omega
    rw [work, hsum, hfirst]
    exact (Nat.zero_add _).le
  · intro tr s a s' hrun ih hs halive
    have hstep := work_step hrun hs halive
    replace ih := ih (alive_of_step hs halive)
    rw [clientActions, ClientProgram.filterMap_concat, ← clientActions, List.length_append]
    omega

/-! ### The clients can go on -/

/-- Some thread of the clients, or `main`, can make a step. -/
def CanMove (p : Process) (numberOfClients messageIteration : Int32) (s : State) : Prop :=
  ∃ a s', (system p numberOfClients messageIteration).Step s (.client a) s' ∧ s'.alive = true

theorem canMove_of_thread (halive : s.alive = true) (hk : k < s.clients.threads)
    (hs : ClientProgram.ThreadStep messageIteration k s.clients b clients)
    (hx : Exchange p k s b s') : CanMove p numberOfClients messageIteration s :=
  ⟨_, _, .thread k b clients halive hk hs hx, hx.alive.trans halive⟩

/-- A descriptor that is not open. -/
theorem exists_fresh {kernel : Kernel} (h : kernel.opened.card < 2 ^ 31) :
    ∃ fd, kernel.Fresh fd := by
  have hcard : kernel.opened.card < (Finset.Ico (0 : ℤ) (2 ^ 31)).card := by
    rw [Int.card_Ico]
    omega
  obtain ⟨fd, hfd, hnew⟩ := Finset.exists_mem_notMem_of_card_lt_card hcard
  obtain ⟨hnonneg, hlt⟩ := Finset.mem_Ico.mp hfd
  exact ⟨fd, hnonneg, hlt, hnew⟩

/-- What a client sends is taken by the network. -/
theorem Link.exists_send (h : Link p s) (huses : Uses (s.clients.client k).pc = true)
    (bytes : List UInt8) :
    ∃ server, (ThreadPerClient.system p).Step s.server (.send (s.connection k) bytes) server := by
  obtain ⟨r, hr, -⟩ := h.lookedAfter k huses
  exact ⟨_, .send (s.connection k) bytes hr.lt hr.ended⟩

section Run

variable (h : (system p numberOfClients messageIteration).Run tr s) (halive : s.alive = true)

include h halive

/-- **The counter has room** for the message of a thread that is in the critical section. -/
theorem messageCounter_lt
    (hroom : numberOfClients.toInt.toNat * messageIteration.toInt.toNat < 2 ^ 31) {n : ℕ}
    (hplace : s.clients.place k = .write n) : n + 1 < 2 ^ 31 := by
  have hclients := clients_of_run h
  have hmain := ClientProgram.mainInv_of_run hclients
  have hk : k < s.clients.threads := by
    by_contra hc
    cases hplace.symm.trans (hmain.notCreated k (not_lt.mp hc))
  have hknows := (ClientProgram.counterInv_of_run hclients).knows k
  rw [hplace] at hknows
  obtain ⟨rfl, hnumbers⟩ := hknows
  have hlength : (ClientProgram.numbers (clientActions tr)).length = s.clients.messageCounter := by
    rw [hnumbers, List.length_range']
  rw [ClientProgram.length_numbers_eq_sum (ClientProgram.lt_threads_of_taken hclients)] at hlength
  -- no thread has sent more messages than it has, and this one has one left
  have hle : ∀ j ∈ Finset.range s.clients.threads,
      (ClientProgram.numbersOf j (clientActions tr)).length ≤ messageIteration.toInt.toNat := by
    intro j _
    obtain ⟨hlt, hcount, hle⟩ := sent_of_run h j
    rw [hcount]
    split_ifs with hin
    · exact hlt hin
    · exact hle
  have hlt : (ClientProgram.numbersOf k (clientActions tr)).length <
      messageIteration.toInt.toNat := by
    have hshaped := (account_of_run h halive).shaped k
    rw [hplace] at hshaped
    obtain ⟨hpc, hlt⟩ := hshaped
    rw [(sent_of_run h k).2.1, hpc]
    exact hlt
  have hsum := Finset.sum_lt_sum hle ⟨k, Finset.mem_range.mpr hk, hlt⟩
  rw [hlength, Finset.sum_const_nat fun _ _ => rfl, Finset.card_range] at hsum
  have hmul := Nat.mul_le_mul_right messageIteration.toInt.toNat hmain.le
  omega

/-- **The holder of `messageCounterMutex` can go on.** -/
theorem canMove_of_held
    (hroom : numberOfClients.toInt.toNat * messageIteration.toInt.toNat < 2 ^ 31)
    (hmutex : s.clients.messageCounterMutex = some k) :
    CanMove p numberOfClients messageIteration s := by
  have hclients := clients_of_run h
  have hin := ((ClientProgram.counterInv_of_run hclients).guards k).mp hmutex
  have hshaped := (account_of_run h halive).shaped k
  have hk : k < s.clients.threads := by
    by_contra hc
    rw [(ClientProgram.mainInv_of_run hclients).notCreated k (not_lt.mp hc)] at hin
    exact hin
  cases hplace : s.clients.place k with
  | outside | disconnected =>
    rw [hplace] at hin
    exact hin.elim
  | read => exact canMove_of_thread halive hk (.read hplace) (.other _ trivial)
  | write n =>
    exact canMove_of_thread halive hk (.write n hplace (messageCounter_lt h halive hroom hplace))
      (.other _ trivial)
  | format => exact canMove_of_thread halive hk (.format hplace) (.other _ trivial)
  | send n =>
    rw [hplace] at hshaped
    obtain ⟨hpc, hlt⟩ := hshaped
    obtain ⟨server, hserver⟩ :=
      (link_of_run h halive).exists_send (k := k) (by rw [hpc]; rfl) (Session.message n)
    have hlt' : ((s.clients.view k).i : ℤ) < messageIteration.toInt := by
      rw [view_i]
      omega
    exact canMove_of_thread halive hk (.send n _ hplace (.send n hpc hlt')) (.send n server hserver)
  | unlock => exact canMove_of_thread halive hk (.unlock hplace) (.other _ trivial)

/-- While a thread has not connected, the server has a descriptor for it. -/
theorem connected_lt (hk : k < s.clients.threads)
    (hhas : ¬HasConnected (s.clients.client k).pc = true) :
    s.server.connected < numberOfClients.toInt.toNat := by
  have hsub : Finset.range s.server.connected ⊆
      ((Finset.range s.clients.threads).erase k).image s.connection := by
    intro x hx
    obtain ⟨j, hj, hhas', rfl⟩ := (account_of_run h halive).onto x (Finset.mem_range.mp hx)
    refine Finset.mem_image_of_mem _ (Finset.mem_erase.mpr ⟨?_, Finset.mem_range.mpr hj⟩)
    rintro rfl
    exact hhas hhas'
  have hcard := (Finset.card_le_card hsub).trans Finset.card_image_le
  rw [Finset.card_range, Finset.card_erase_of_mem (Finset.mem_range.mpr hk),
    Finset.card_range] at hcard
  have hlt := lt_of_lt_threads h hk
  have hle := (ClientProgram.mainInv_of_run (clients_of_run h)).le
  omega

/-- **A thread that has not returned can go on**, while the mutex is free, unless it is in
`receive` with nothing to receive. -/
theorem canMove_or_receives (hk : k < s.clients.threads)
    (hmutex : s.clients.messageCounterMutex = none) (hreturned : ¬s.clients.Returned k) :
    CanMove p numberOfClients messageIteration s ∨
      (s.clients.client k).pc = .receive ∧ s.clients.place k = .outside ∧
        s.toClient (s.connection k) = [] := by
  have hlink := link_of_run h halive
  have haccount := account_of_run h halive
  have hunbroken := hlink.unbroken k
  have hplace : s.clients.place k = .outside := by
    have hguards := (ClientProgram.counterInv_of_run (clients_of_run h)).guards k
    rw [hmutex] at hguards
    cases hplace : s.clients.place k with
    | outside => rfl
    | disconnected => exact absurd hplace (hlink.placed k)
    | _ =>
      rw [hplace] at hguards
      cases hguards.mpr trivial
  have hshaped := haccount.shaped k
  rw [hplace] at hshaped
  have hmove : ∀ {x : ClientAutomation.Action} {c : ClientAutomation.State} {s' : State},
      (ClientAutomation.system messageIteration).Step (s.clients.view k) x c →
      ClientProgram.IsOutside x → Exchange p k s (.step x) s' →
      CanMove p numberOfClients messageIteration s :=
    fun hs hout hx => canMove_of_thread halive hk (.step _ _ hplace hout hs) hx
  cases hpc : (s.clients.client k).pc with
  | socket trial =>
    have hcard : s.clients.kernel.opened.card < 2 ^ 31 := by
      have hle := Finset.single_le_sum (f := fun j => atSocket (s.clients.client j).pc)
        (fun _ _ => Nat.zero_le _) (Finset.mem_range.mpr (lt_of_lt_threads h hk))
      have hone : atSocket (s.clients.client k).pc = 1 := by rw [hpc]; rfl
      have hopened := haccount.opened
      rw [hone] at hle
      omega
    obtain ⟨fd, hfd⟩ := exists_fresh hcard
    exact .inl (hmove (.socket trial (some fd) hpc (by rintro _ ⟨⟩; exact hfd)) trivial
      (.other _ nofun))
  | connect trial =>
    have hcapacity : s.server.kernel.opened.card + s.server.pending.length < 2 ^ 31 := by
      have hlt := connected_lt h halive hk (by rw [hpc]; nofun)
      have hle := haccount.descriptors
      have hbase := haccount.base
      rw [ThreadPerClient.State.descriptors] at hle
      omega
    exact .inl (hmove (.connect trial true hpc fun _ => hshaped.2 trial hpc) trivial
      (.connect _ (.connect hcapacity)))
  | iterate =>
    by_cases hlt : ((s.clients.client k).i : ℤ) < messageIteration.toInt
    · exact .inl (canMove_of_thread halive hk (.lock hplace hpc hlt hmutex) (.other _ trivial))
    · obtain ⟨server, hserver⟩ := hlink.exists_send (k := k) (by rw [hpc]; rfl) Session.quit
      exact .inl (hmove (.quit hpc hlt) trivial (.quit server hserver))
  | test => exact .inl (hmove (.test hpc (hshaped.1 hpc)) trivial (.other _ trivial))
  | receive =>
    cases hto : s.toClient (s.connection k) with
    | nil => exact .inr ⟨rfl, hplace, rfl⟩
    | cons b rest =>
      have hadm : (Received.data [b]).Admissible := ⟨Nat.one_pos, by simp⟩
      obtain ⟨-, -, hcounted, -⟩ := hlink.lookedAfter k (by rw [hpc]; rfl)
      rw [hto] at hcounted
      have hle : [b].length ≤ (s.server.replies (s.connection k)).outstanding :=
        hcounted ▸ Nat.le_add_left ..
      exact .inl (hmove (.receive (.data [b]) hpc hadm) trivial
        (.receive [b] rest _ hto (.read _ _ hle)))
  | handle received =>
    cases received with
    | data bytes => exact .inl (hmove (.leaveReply bytes hpc) trivial (.other _ trivial))
    | failed => rw [hpc] at hunbroken; cases hunbroken
  | quit =>
    have hlt := hlink.numbered k (by rw [hpc]; rfl)
    exact .inl (hmove (.exit hpc) trivial (.exit _ (.leave _ hlt)))
  | done => exact absurd ⟨hpc, hplace⟩ hreturned
  | close | reset | resend =>
    rw [hpc] at hunbroken
    cases hunbroken

/-- **The clients can go on**, unless a thread is in `receive` with nothing to receive. -/
theorem canMove_or_exists_receives
    (hroom : numberOfClients.toInt.toNat * messageIteration.toInt.toNat < 2 ^ 31)
    (hreturned : s.clients.main ≠ .returned) :
    CanMove p numberOfClients messageIteration s ∨ ∃ k < s.clients.threads,
      (s.clients.client k).pc = .receive ∧ s.clients.messageCounterMutex = none ∧
        s.toClient (s.connection k) = [] := by
  cases hmain : s.clients.main with
  | returned => exact absurd hmain hreturned
  | create =>
    by_cases hlt : (s.clients.threads : ℤ) < numberOfClients.toInt
    · exact .inl ⟨_, _, .main _ (.create hmain hlt), halive⟩
    · exact .inl ⟨_, _, .main _ (.created hmain hlt), halive⟩
  | join k =>
    cases hmutex : s.clients.messageCounterMutex with
    | some j => exact .inl (canMove_of_held h halive hroom hmutex)
    | none =>
      rcases ((account_of_run h halive).joining k hmain).lt_or_eq with hk | rfl
      · by_cases hdone : s.clients.Returned k
        · exact .inl ⟨_, _, .main _ (.join k hmain hk hdone.1 hdone.2), halive⟩
        · rcases canMove_or_receives h halive hk hmutex hdone with hmove | ⟨hpc, -, hto⟩
          · exact .inl hmove
          · exact .inr ⟨k, hk, hpc, rfl, hto⟩
      · exact .inl ⟨_, _, .main _ (.returned hmain), halive⟩

end Run

/-! ### The server goes on until the clients can -/

/-- What the clients do is at most a step for the server. -/
theorem Exchange.server_step (hx : Exchange p k s b s') : s'.server = s.server ∨
    ∃ a, (ThreadPerClient.system p).Step s.server a s'.server := by
  cases hx with
  | lost | other => exact .inl rfl
  | connect _ hs | send _ _ hs | resend _ _ hs | quit _ hs | exit _ hs | reset _ _ hs =>
    exact .inr ⟨_, hs⟩
  | receive _ _ _ _ hs => exact .inr ⟨_, hs⟩

/-- **The server runs its program.** -/
theorem server_of_run (h : (system p numberOfClients messageIteration).Run tr s) :
    (ThreadPerClient.system p).Reachable s.server := by
  refine h.invariant (I := fun _ s => (ThreadPerClient.system p).Reachable s.server) ?_ ?_
  · rintro s ⟨hserver, -⟩
    exact ⟨[], .start hserver⟩
  rintro tr s a s' - ⟨tr₁, h₁⟩ hs
  cases hs with
  | server a server _ _ _ hs => exact ⟨_, h₁.snoc hs⟩
  | killed | main | alone => exact ⟨tr₁, h₁⟩
  | thread k b clients _ _ _ hx =>
    rcases hx.server_step with heq | ⟨a, hs⟩
    · exact heq ▸ ⟨tr₁, h₁⟩
    · exact ⟨_, h₁.snoc hs⟩

/-- While the lock is free, no thread of the server looks behind the end of `m_clientThreads`. -/
theorem not_outOfBounds (h : (system p numberOfClients messageIteration).Run tr s)
    (hfree : s.server.peerSocketsLock = none) (k : ℕ) : ¬OutOfBounds s.server k := by
  rintro ⟨hpc, hle⟩
  obtain ⟨tr₁, h₁⟩ := server_of_run h
  exact hle.not_gt ((ThreadPerClient.handles_of_run h₁).peerIndex_lt
    (ThreadPerClient.inv_of_run h₁) hfree (by rw [hpc]; nofun))

/-- **The steps of the server are steps of the two together.** The peers of the clients that use
their connections stay. -/
theorem exists_steps (h : (system p numberOfClients messageIteration).Run tr s)
    (halive : s.alive = true) {trS : List ThreadPerClient.Action}
    {server : ThreadPerClient.State} (hp : ThreadPerClient.Proceeds p s.server trS server) :
    ∃ tr' toClient, (system p numberOfClients messageIteration).Steps s tr'
      { s with server := server, toClient := toClient } ∧
      ∀ k i sock, Uses (s.clients.client k).pc = true → s.server.server.Connected i sock →
        s.server.connection sock.socketDescriptor = s.connection k →
        server.server.Connected i sock ∧
          server.connection sock.socketDescriptor = s.connection k := by
  generalize hfirst : s.server = first at hp
  induction hp generalizing tr s with
  | refl first =>
    subst hfirst
    exact ⟨[], s.toClient, .refl s, fun k i sock _ hi hx => ⟨hi, hx⟩⟩
  | @head first second last a trS hs hproceeds ih =>
    subst hfirst
    obtain ⟨hs, ha, hset⟩ := hs
    have hin : ∀ k, a = .client k → ¬OutOfBounds s.server k := by
      rintro k rfl hout
      exact not_outOfBounds h (hset k rfl hout.1) k hout
    have hstep : (system p numberOfClients messageIteration).Step s (.server a) _ :=
      .server a second halive ha hin hs
    obtain ⟨tr', toClient, hrest, hstay⟩ := ih (h.snoc hstep) halive rfl
    refine ⟨_, toClient, .head hstep hrest, fun k i sock huses hi hx => ?_⟩
    have hlink := link_of_run h halive
    obtain ⟨r, hr, -⟩ := hlink.lookedAfter k huses
    obtain ⟨hi', hx'⟩ := hr.connected_step hlink.inv hs ha hi hx
    exact hstay k i sock huses hi' hx'

/-- **The threads of the server can go on until the clients can.** -/
def Enables (p : Process) (numberOfClients messageIteration : Int32) (s : State) : Prop :=
  ∃ tr' s', (system p numberOfClients messageIteration).Steps s tr' s' ∧
    s'.clients = s.clients ∧ CanMove p numberOfClients messageIteration s'

theorem Enables.of_canMove (h : CanMove p numberOfClients messageIteration s) :
    Enables p numberOfClients messageIteration s :=
  ⟨[], s, .refl s, rfl, h⟩

theorem Enables.trans {tr' : List Action}
    (hsteps : (system p numberOfClients messageIteration).Steps s tr' s')
    (hclients : s'.clients = s.clients) (h : Enables p numberOfClients messageIteration s') :
    Enables p numberOfClients messageIteration s := by
  obtain ⟨tr₁, s₁, hsteps₁, hclients₁, hmove⟩ := h
  exact ⟨_, s₁, hsteps.trans hsteps₁, hclients₁.trans hclients, hmove⟩

section Run

variable (h : (system p numberOfClients messageIteration).Run tr s) (halive : s.alive = true)

include h halive

/-- A thread that has something to receive can go on. -/
theorem canMove_of_toClient (hk : k < s.clients.threads)
    (hpc : (s.clients.client k).pc = .receive) (hmutex : s.clients.messageCounterMutex = none)
    (hto : s.toClient (s.connection k) ≠ []) :
    CanMove p numberOfClients messageIteration s := by
  have hreturned : ¬s.clients.Returned k := fun hc => by cases hpc.symm.trans hc.1
  rcases canMove_or_receives h halive hk hmutex hreturned with hmove | ⟨-, -, hnil⟩
  · exact hmove
  · exact absurd hnil hto

/-- **A thread of the server that waits with the lock waits for a client that can go on.** -/
theorem canMove_of_waits (hmutex : s.clients.messageCounterMutex = none) {l : ℕ} {sock : Socket}
    (hwaits : ThreadPerClient.Waits s.server l sock) :
    CanMove p numberOfClients messageIteration s := by
  have hlink := link_of_run h halive
  obtain ⟨x, hpc, hderef, hquiet⟩ := hwaits
  have hpointer : (s.server.client l).pointer = some x := by rw [hpc]; rfl
  obtain ⟨-, hx⟩ := hlink.inv.of_deref hpointer hderef
  rw [hx] at hquiet
  obtain ⟨hinbox, hended, -⟩ := hquiet
  obtain ⟨k, hk, hhas, rfl⟩ := (account_of_run h halive).onto x (hlink.inv.lt_connected hpointer)
  have hreturned : ¬s.clients.Returned k := by
    intro hc
    rw [(account_of_run h halive).ended k hc.1] at hended
    cases hended
  rcases canMove_or_receives h halive hk hmutex hreturned with hmove | ⟨hreceive, -, hnil⟩
  · exact hmove
  · -- everything has been replied to, and the reply been received
    obtain ⟨r, hr, -, hawaits⟩ := hlink.lookedAfter k (by rw [hreceive]; rfl)
    have hchunk : ∀ j, (s.server.client j).chunk (s.connection k) = none := by
      intro j
      rw [Option.eq_none_iff_forall_not_mem]
      intro chunk hj
      obtain rfl := hlink.inv.eq_of_pointer (ThreadPerClient.ClientPc.pointer_of_chunk hj) hpointer
      rw [hpc] at hj
      cases hj
    rcases hawaits (by rw [hreceive]; rfl) with hto | hto
    · exact absurd hnil hto
    · exact absurd ((hr.linked.quiet hr.lt hchunk).trans hinbox) hto

/-- For the reply to a client that has received everything there is room. -/
theorem full_eq_false (huses : Uses (s.clients.client k).pc = true)
    (hto : s.toClient (s.connection k) = []) : s.server.full (s.connection k) = false := by
  obtain ⟨-, -, hcounted, -⟩ := (link_of_run h halive).lookedAfter k huses
  rw [hto, List.length_nil] at hcounted
  refine Bool.eq_false_of_not_eq_true fun hfull => ?_
  obtain ⟨-, hlt⟩ := ThreadPerClient.State.full_eq_true.mp hfull
  rw [hcounted, Nat.zero_add] at hlt
  exact hlt.not_ge ((account_of_run h halive).capacity (s.connection k))

/-- A thread of the server that has received something replies to it, unless there is still
something to receive for the client. -/
theorem enables_of_handle (hk : k < s.clients.threads)
    (hpc : (s.clients.client k).pc = .receive) (hmutex : s.clients.messageCounterMutex = none)
    {l : ℕ} {chunk : List UInt8}
    (hl : s.server.client l = .handle (s.connection k) (.data chunk)) :
    Enables p numberOfClients messageIteration s := by
  by_cases hto : s.toClient (s.connection k) = []
  · have hfull := full_eq_false h halive (k := k) (by rw [hpc]; rfl) hto
    have hin : ∀ j, ThreadPerClient.Action.client l = .client j → ¬OutOfBounds s.server j := by
      rintro _ ⟨⟩ ⟨hc, -⟩
      cases hl.symm.trans hc
    have hstep : (system p numberOfClients messageIteration).Step s (.server (.client l)) _ :=
      .server (.client l) _ halive trivial hin
        (.client l (((link_of_run h halive).inv.clientStep_reply hl).mpr ⟨hfull, rfl⟩))
    refine .trans (.single hstep) rfl (.of_canMove ?_)
    refine canMove_of_toClient (h.snoc hstep) halive hk hpc hmutex ?_
    dsimp only
    rw [replied_self hl]
    exact List.append_ne_nil_of_right_ne_nil _ (by decide)
  · exact .of_canMove (canMove_of_toClient h halive hk hpc hmutex hto)

/-- A thread of the server that has received something, while the lock is free, is at its reply. -/
theorem enables_of_chunk (hk : k < s.clients.threads)
    (hpc : (s.clients.client k).pc = .receive) (hmutex : s.clients.messageCounterMutex = none)
    (hfree : s.server.peerSocketsLock = none) {l : ℕ} {chunk : List UInt8}
    (hl : (s.server.client l).chunk (s.connection k) = some chunk) :
    Enables p numberOfClients messageIteration s := by
  cases hpcl : s.server.client l with
  | handle y received =>
    rw [hpcl] at hl
    cases received with
    | data bytes =>
      obtain rfl : y = s.connection k :=
        Option.some_inj.mp (ThreadPerClient.ClientPc.pointer_of_chunk hl)
      exact enables_of_handle h halive hk hpc hmutex hpcl
    | failed => cases hl
  | unlock y received =>
    have hholds := ((link_of_run h halive).inv.threads.guards (.client l)).mpr
      (by simp [ThreadPerClient.State.pc, hpcl])
    cases hfree.symm.trans hholds
  | _ =>
    rw [hpcl] at hl
    cases hl

/-- **A client that has been added is replied to**, once the lock is free. -/
theorem enables_of_connected (hk : k < s.clients.threads)
    (hpc : (s.clients.client k).pc = .receive) (hmutex : s.clients.messageCounterMutex = none)
    (hfree : s.server.peerSocketsLock = none) {i : ℕ} {sock : Socket}
    (hi : s.server.server.Connected i sock)
    (hx : s.server.connection sock.socketDescriptor = s.connection k) :
    Enables p numberOfClients messageIteration s := by
  have hlink := link_of_run h halive
  have huses : Uses (s.clients.client k).pc = true := by rw [hpc]; rfl
  obtain ⟨r, hr, -, hawaits⟩ := hlink.lookedAfter k huses
  rcases hawaits (by rw [hpc]; rfl) with hto | hto
  · exact .of_canMove (canMove_of_toClient h halive hk hpc hmutex hto)
  by_cases hchunk : ∃ l chunk, (s.server.client l).chunk (s.connection k) = some chunk
  · obtain ⟨l, chunk, hl⟩ := hchunk
    exact enables_of_chunk h halive hk hpc hmutex hfree hl
  have hnone : ∀ l, (s.server.client l).chunk (s.connection k) = none := by
    intro l
    rw [Option.eq_none_iff_forall_not_mem]
    exact fun chunk hl => hchunk ⟨l, chunk, hl⟩
  -- what has not been replied to can be received, a byte of it
  obtain ⟨byte, rest, hinbox⟩ : ∃ byte rest, s.server.unread sock = [byte] ++ rest := by
    rw [ThreadPerClient.State.unread, hx, ← hr.linked.quiet hr.lt hnone]
    exact List.exists_cons_of_ne_nil hto
  have hnot : ¬ThreadPerClient.Owes (s.server.connection sock.socketDescriptor) s.server := by
    rintro ⟨l, hl⟩
    exact hl (hx ▸ hnone l)
  obtain ⟨l, y, server₁, hserves₁, hfree₁, hpcl, hslot⟩ := ThreadPerClient.ready_of_free hlink.inv
    hfree hi (hr.attended hlink.inv hi hx) fun hc => absurd hc hnot
  obtain ⟨server₂, hserves₂, hpcl₂, hslot₂⟩ := ThreadPerClient.serves_of_lock hserves₁.inv hfree₁
    hserves₁.connected hserves₁.attended hpcl
  have hserves := hserves₁.trans hserves₂
  rw [← show server₂.unread sock = s.server.unread sock from hserves.unread] at hinbox
  obtain ⟨server₃, hserves₃, -, hpcl₃⟩ := ThreadPerClient.serves_of_receive hserves.inv
    hserves.connected hserves.attended hpcl₂ (hslot₂.trans hslot) (by simp) (by simp)
    (ThreadPerClient.isQuit_singleton byte) hinbox
  rw [hserves.connection, hx] at hpcl₃
  obtain ⟨trS, hproceeds, -⟩ := hserves.trans hserves₃
  obtain ⟨tr', toClient, hsteps, -⟩ := exists_steps h halive hproceeds
  exact .trans hsteps rfl (enables_of_handle (h.append hsteps) halive hk hpc hmutex hpcl₃)

/-- Once the lock is free, and this is brought about. -/
theorem enables_of_free (hmutex : s.clients.messageCounterMutex = none)
    (hfree : ∀ tr' s', (system p numberOfClients messageIteration).Run tr' s' →
      s'.alive = true → s'.clients = s.clients → s'.connection = s.connection →
      s'.server.peerSocketsLock = none →
      (∀ k i sock, Uses (s.clients.client k).pc = true → s.server.server.Connected i sock →
        s.server.connection sock.socketDescriptor = s.connection k →
        s'.server.server.Connected i sock ∧
          s'.server.connection sock.socketDescriptor = s.connection k) →
      Enables p numberOfClients messageIteration s') :
    Enables p numberOfClients messageIteration s := by
  have hlink := link_of_run h halive
  by_cases hwaits : ∃ l sock, ThreadPerClient.Waits s.server l sock
  · obtain ⟨l, sock, hwaits⟩ := hwaits
    exact .of_canMove (canMove_of_waits h halive hmutex hwaits)
  · obtain ⟨trS, server, hproceeds, -, hlock, -⟩ := ThreadPerClient.frees_of_not_waits hlink.inv
      fun l sock hl => hwaits ⟨l, sock, hl⟩
    obtain ⟨tr', toClient, hsteps, hstay⟩ := exists_steps h halive hproceeds
    exact .trans hsteps rfl (hfree _ _ (h.append hsteps) halive rfl rfl hlock hstay)

/-- A client that waits to be added is added, and then replied to. -/
theorem enables_of_waiting (hk : k < s.clients.threads)
    (hpc : (s.clients.client k).pc = .receive) (hmutex : s.clients.messageCounterMutex = none)
    (hfree : s.server.peerSocketsLock = none) (hwaiting : s.server.Waiting (s.connection k)) :
    Enables p numberOfClients messageIteration s := by
  have hlink := link_of_run h halive
  have huses : Uses (s.clients.client k).pc = true := by rw [hpc]; rfl
  have hadded : ∃ trS server, ThreadPerClient.Proceeds p s.server trS server ∧
      ∃ i sock, server.server.Connected i sock ∧
        server.connection sock.socketDescriptor = s.connection k := by
    rcases hwaiting with hpending | ⟨sock, hhand, hx⟩
    · exact ThreadPerClient.exists_added hlink.inv hfree hpending
    · cases hacceptor : s.server.acceptor with
      | lock peer =>
        obtain ⟨trS, server, hproceeds, i, hi, hconnection⟩ :=
          ThreadPerClient.exists_added_of_lock hlink.inv hfree hacceptor
        rw [hacceptor] at hhand
        cases hhand
        exact ⟨trS, server, hproceeds, i, sock, hi, hconnection ▸ hx⟩
      | addPeer peer =>
        have hholds := (hlink.inv.threads.guards .acceptor).mpr
          (by simp [ThreadPerClient.State.pc, hacceptor])
        cases hfree.symm.trans hholds
      | _ =>
        rw [hacceptor] at hhand
        cases hhand
  obtain ⟨trS, server, hproceeds, i, sock, hi, hx⟩ := hadded
  obtain ⟨tr', toClient, hsteps, -⟩ := exists_steps h halive hproceeds
  refine .trans hsteps rfl (enables_of_free (h.append hsteps) halive hmutex ?_)
  intro tr₁ s₁ h₁ halive₁ hclients hconnection hlock hstay
  obtain ⟨hi₁, hx₁⟩ := hstay k i sock huses hi hx
  rw [← hclients] at hk hpc hmutex
  exact enables_of_connected h₁ halive₁ hk hpc hmutex hlock hi₁ (hx₁.trans (hconnection ▸ rfl))

/-- **A client that waits for a reply gets one**, if the server goes on. -/
theorem enables_of_receives (hk : k < s.clients.threads)
    (hpc : (s.clients.client k).pc = .receive) (hmutex : s.clients.messageCounterMutex = none) :
    Enables p numberOfClients messageIteration s := by
  refine enables_of_free h halive hmutex ?_
  intro tr₁ s₁ h₁ halive₁ hclients hconnection hlock _
  rw [← hclients] at hk hpc hmutex
  obtain ⟨r, hr, -⟩ := (link_of_run h₁ halive₁).lookedAfter k (by rw [hpc]; rfl)
  rcases hr.present with hwaiting | ⟨i, sock, hi, hx⟩
  · exact enables_of_waiting h₁ halive₁ hk hpc hmutex hlock hwaiting
  · exact enables_of_connected h₁ halive₁ hk hpc hmutex hlock hi hx

/-- **The clients can go on**, perhaps after some steps of the server, until `main` has
returned. -/
theorem enables_of_not_returned
    (hroom : numberOfClients.toInt.toNat * messageIteration.toInt.toNat < 2 ^ 31)
    (hreturned : s.clients.main ≠ .returned) :
    Enables p numberOfClients messageIteration s := by
  rcases canMove_or_exists_receives h halive hroom hreturned with hmove | ⟨k, hk, hpc, hmutex, -⟩
  · exact .of_canMove hmove
  · exact enables_of_receives h halive hk hpc hmutex

end Run

/-! ### The main result -/

/-- **The experiment comes to an end whatever has happened so far**, if the server is alive: from
every state that a run leads to, the threads of the two processes can go on, with the server alive,
until `main` of the clients has returned; and until then the clients make no more steps than the
two numbers allow. -/
theorem experiment_completes
    (hroom : numberOfClients.toInt.toNat * messageIteration.toInt.toNat < 2 ^ 31)
    (h : (system p numberOfClients messageIteration).Run tr s) (halive : s.alive = true) :
    (clientActions tr).length ≤ allWork numberOfClients messageIteration ∧
      ∃ tr' s', (system p numberOfClients messageIteration).Steps s tr' s' ∧
        s'.clients.main = .returned ∧ s'.alive = true := by
  refine ⟨(Nat.le_add_right ..).trans (length_add_work_le h halive), ?_⟩
  -- by induction on what the clients have still to do
  generalize hwork : work numberOfClients messageIteration s.clients = n
  induction n using Nat.strong_induction_on generalizing tr s with
  | h n ih =>
    by_cases hreturned : s.clients.main = .returned
    · exact ⟨[], s, .refl s, hreturned, halive⟩
    · obtain ⟨tr₁, s₁, hsteps₁, hclients, a, s₂, hs, halive₂⟩ :=
        enables_of_not_returned h halive hroom hreturned
      have h₁ := h.append hsteps₁
      have hless := work_step h₁ hs halive₂
      rw [hclients, hwork, Action.ofClients, Option.toList_some, List.length_singleton] at hless
      obtain ⟨tr₃, s₃, hsteps₃, hend⟩ := ih _ hless (h₁.snoc hs) halive₂ rfl
      exact ⟨_, s₃, (hsteps₁.trans (.single hs)).trans hsteps₃, hend⟩

/-- The one client with one message comes to its end, in seventeen steps at most. -/
theorem experiment_completes_first : ∃ tr s, (system ThreadPerClient.process 1 1).Run tr s ∧
    s.clients.main = .returned ∧ (clientActions tr).length ≤ 17 := by
  obtain ⟨tr, s, h, halive, -⟩ := run_entered
  obtain ⟨-, tr', s', hsteps, hreturned, halive'⟩ := experiment_completes (by decide) h halive
  have h' := h.append hsteps
  exact ⟨_, s', h', hreturned, (experiment_completes (by decide) h' halive').1⟩

end Experiment

end Net

end LowLatency
