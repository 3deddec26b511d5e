import LowLatency.Net.ClientDialogue
import LowLatency.Net.Independence

/-!
# A connection that is looked after

What the thread-per-client server does for a client that has connected and has given no reason to
disconnect it: it has closed neither its side nor its socket, nothing on the connection has failed,
and no `q` has been sent (`LowLatency.Net.ThreadPerClient.Served`). The connection is taken off the
queue, gets a slot and a thread, and keeps them; every `receive` from it returns bytes. This goes
on, in every order of the steps of the server and of the other clients, for as long as the client
gives no reason (`LowLatency.Net.ThreadPerClient.Served.step`,
`LowLatency.Net.ThreadPerClient.Served.send`).
-/

namespace LowLatency

namespace Net

namespace ThreadPerClient

variable {p : Process} {s s' : State} {r r' : Session.State} {a : Action} {x k : ℕ}

/-- The server has the connection `x`: it is waiting to be added, or that of a peer. -/
def State.Present (s : State) (x : ℕ) : Prop :=
  s.Waiting x ∨
    ∃ i sock, s.server.Connected i sock ∧ s.connection sock.socketDescriptor = x

/-- **The connection `x` is looked after.** What has been sent on it and not been replied to is
`r.toServer`. -/
structure Served (x : ℕ) (r : Session.State) (s : State) : Prop where
  lt : x < s.connected
  present : s.Present x
  ended : (s.stream x).ended = false
  error : (s.stream x).error = none
  there : (s.replies x).gone = false
  linked : Linked x s r
  letters : 113 ∉ r.toServer
  heard : Heard x s
  retains : Retains x s

/-! ### The streams -/

/-- **What a `receive` does to the streams**: the peers are in blocking mode. -/
theorem receive_cases (hinv : Inv p s) {y : ℕ} {received : Received}
    (hs : (system p).Step s (.receive k y received) s') :
    ∃ st, (s.stream y).Receives True received st ∧ s'.stream = Function.update s.stream y st := by
  cases hs with
  | receive _ _ sock _ st hpc hderef hst =>
    obtain ⟨hk, rfl⟩ := hinv.of_deref (by rw [hpc]; rfl) hderef
    have hblocking : sock.socketDescriptor ∉ s.kernel.nonBlocking := fun hc =>
      (hinv.connections.peers.peer _ sock hk).2.2.2 (hinv.connections.blocking hc)
    rw [eq_true hblocking] at hst
    exact ⟨st, hst, rfl⟩

/-- **The other steps of the server** leave the streams alone. -/
theorem stream_eq_step (hinv : Inv p s) (hs : (system p).Step s a s') (ha : a.IsServer)
    (hne : ∀ k y received, a ≠ .receive k y received) : s'.stream = s.stream := by
  cases hs with
  | connect | send | close | fail | read | leave => exact ha.elim
  | receive k y sock received => exact absurd rfl (hne k y received)
  | accept accepted hpc hpending =>
    rcases accept_cases hinv.connections hpending with ⟨kernel, -, heq, -⟩ |
      ⟨fd, j, pending, kernel, -, -, heq, -⟩
    all_goals rw [heq]
  | acceptor hs =>
    rcases acceptorStep_cases hinv.threads.running hs with - | - | - | - | - | -
    all_goals rfl
  | client k hs =>
    rcases clientStep_cases hinv.threads.running hs with - | - | - | - | - | -
    all_goals rfl

/-- **The steps of the server that are no reply** to the client `x` send it nothing. -/
theorem replies_eq_step (hinv : Inv p s) (hs : (system p).Step s a s') (ha : a.IsServer)
    (hno : ∀ k chunk, a = .client k → s.client k ≠ .handle x (.data chunk)) :
    s'.replies x = s.replies x := by
  cases hs with
  | connect | send | close | fail | read | leave => exact ha.elim
  | receive => rfl
  | accept accepted hpc hpending =>
    rcases accept_cases hinv.connections hpending with ⟨kernel, -, heq, -⟩ |
      ⟨fd, j, pending, kernel, -, -, heq, -⟩
    all_goals rw [heq]
  | acceptor hs =>
    rcases acceptorStep_cases hinv.threads.running hs with - | - | - | - | - | -
    all_goals rfl
  | client k hs =>
    rcases clientStep_cases hinv.threads.running hs with - | - | - | - | - |
      ⟨pc, y, bytes, sock, -, -, -, hpc, hderef, -, -⟩
    case reply =>
      obtain ⟨-, rfl⟩ := hinv.of_deref (by rw [hpc]; rfl) hderef
      refine State.reply_replies_of_ne _ ?_
      rintro rfl
      exact hno k bytes rfl hpc
    all_goals rfl

/-- **A reply** is what is sent. -/
theorem replies_of_reply (hinv : Inv p s) {chunk : List UInt8}
    (hk : s.client k = .handle x (.data chunk)) (hs : clientStep k s = some s') :
    s'.replies x =
      { s.replies x with outstanding := (s.replies x).outstanding + replyLength } := by
  obtain ⟨-, rfl⟩ := (hinv.clientStep_reply hk).mp hs
  exact State.reply_replies_self ..

/-! ### No reason to disconnect -/

/-- A chunk without a `q` is not `quit`. -/
theorem isQuit_of_notMem {chunk : List UInt8} (h : 113 ∉ chunk) : isQuit chunk = false := by
  by_contra hc
  have htake : chunk.takeWhile (· ≠ 0) = [113, 117, 105, 116] := by
    simpa [isQuit] using hc
  refine h ((List.takeWhile_prefix (· ≠ (0 : UInt8))).subset ?_)
  rw [htake]
  exact List.mem_cons_self

/-- What has arrived and not been received is a part of what has not been replied to. -/
theorem Served.inbox_subset (h : Served x r s) : (s.stream x).inbox ⊆ r.toServer := by
  by_cases hall : ∀ k, (s.client k).chunk x = none
  · rw [h.linked.quiet h.lt hall]
    exact List.Subset.refl _
  · obtain ⟨k, hk⟩ := not_forall.mp hall
    obtain ⟨chunk, hchunk⟩ := Option.ne_none_iff_exists'.mp hk
    rw [(h.linked.busy k chunk hchunk).2]
    exact List.subset_append_right ..

/-- There is no `q` in a chunk that a thread has in hand. -/
theorem Served.notMem_chunk (h : Served x r s) {chunk : List UInt8}
    (hk : (s.client k).chunk x = some chunk) : 113 ∉ chunk := by
  intro hmem
  refine h.letters ?_
  rw [(h.linked.busy k chunk hk).2]
  exact List.mem_append_left _ hmem

/-- **A `receive` from the connection returns bytes**, without a `q`. -/
theorem Served.receives (h : Served x r s) {received : Received} {st : Stream}
    (hst : (s.stream x).Receives True received st) :
    ∃ chunk, received = .data chunk ∧ 113 ∉ chunk ∧ st.ended = false ∧ st.error = none := by
  cases hst with
  | data chunk rest hpos hle hinbox =>
    refine ⟨chunk, rfl, fun hmem => h.letters (h.inbox_subset ?_), h.ended, h.error⟩
    rw [hinbox]
    exact List.mem_append_left _ hmem
  | ended error hinbox hended =>
    rw [h.ended] at hended
    cases hended
  | error error herror =>
    rw [h.error] at herror
    cases herror
  | wouldBlock hnot => exact absurd trivial hnot

/-- The step in which a thread receives from the connection. -/
theorem Served.receive_step (h : Served x r s) (hinv : Inv p s) {received : Received}
    (hs : (system p).Step s (.receive k x received) s') :
    ∃ chunk, received = .data chunk ∧ 113 ∉ chunk ∧
      (s'.stream x).ended = false ∧ (s'.stream x).error = none := by
  obtain ⟨st, hst, hstream⟩ := receive_cases hinv hs
  rw [hstream, Function.update_self]
  exact h.receives hst

theorem Served.delivers (h : Served x r s) (hinv : Inv p s) (hs : (system p).Step s a s') :
    Delivers x s a := by
  rintro k read error rfl
  obtain ⟨chunk, hchunk, -⟩ := h.receive_step hinv hs
  cases hchunk

theorem Served.isQuit (h : Served x r s) {chunk : List UInt8}
    (hk : s.client k = .handle x (.data chunk)) : isQuit chunk = false :=
  isQuit_of_notMem (h.notMem_chunk (k := k) (by rw [hk]; exact if_pos rfl))

/-- **No thread is about to disconnect the client.** -/
theorem Served.attended (h : Served x r s) (hinv : Inv p s) {i : ℕ} {sock : Socket}
    (hi : s.server.Connected i sock) (hx : s.connection sock.socketDescriptor = x) :
    Attended s i := by
  rintro k hlive rfl
  have hslot : s.peerSocket (s.peerIndex k) = x := (hinv.connections.peerSocket _ sock hi).trans hx
  have hretains := h.retains k hlive hslot
  have hreceived : ∀ y received, (s.client k).pointer = some y →
      (s.client k).received = some received → leaving received = false := by
    intro y received hpointer hreceived
    obtain rfl : y = x := (hinv.threads.pointer k y hpointer).trans hslot
    obtain ⟨chunk, rfl⟩ := h.heard k received hpointer hreceived
    refine isQuit_of_notMem (h.notMem_chunk (k := k) ?_)
    cases hpc : s.client k with
    | unlock z _ | handle z _ =>
      rw [hpc] at hpointer hreceived
      cases hpointer
      cases hreceived
      exact if_pos rfl
    | _ =>
      rw [hpc] at hreceived
      cases hreceived
  cases hpc : s.client k with
  | unlock y received | handle y received =>
    rw [hpc] at hreceived
    exact hreceived y received rfl rfl
  | lockRemove | removePeer =>
    rw [hpc] at hretains
    cases hretains
  | _ => rfl

/-! ### The connection stays -/

/-- A step after which the queue is longer, and the acceptor and the peers are as they were. -/
theorem State.Present.frame (h : s.Present x) (hpending : s.pending ⊆ s'.pending)
    (hacceptor : s'.acceptor = s.acceptor) (hserver : s'.server = s.server)
    (hconnection : s'.connection = s.connection) : s'.Present x := by
  rcases h with (hx | ⟨sock, hhand, hx⟩) | ⟨i, sock, hi, hx⟩
  · exact .inl (.inl (hpending hx))
  · exact .inl (.inr ⟨sock, hacceptor ▸ hhand, hconnection ▸ hx⟩)
  · exact .inr ⟨i, sock, hserver ▸ hi, hconnection ▸ hx⟩

/-- **A connection that is waiting** goes on waiting or is added. -/
theorem State.Waiting.step (h : s.Waiting x) (hinv : Inv p s) (hs : (system p).Step s a s') :
    s'.Present x := by
  have hframe : ∀ {s' : State}, s.pending ⊆ s'.pending → s'.acceptor = s.acceptor →
      s'.connection = s.connection → s'.Present x := by
    intro s' hpending hacceptor hconnection
    rcases h with hx | ⟨sock, hhand, hx⟩
    · exact .inl (.inl (hpending hx))
    · exact .inl (.inr ⟨sock, hacceptor ▸ hhand, hconnection ▸ hx⟩)
  -- the acceptor has nothing in hand
  have hqueue : ∀ {s' : State}, s.acceptor.hand = none → s'.pending = s.pending → s'.Present x := by
    intro s' hhand hpending
    rcases h with hx | ⟨sock, hsock, -⟩
    · exact .inl (.inl (hpending ▸ hx))
    · rw [hhand] at hsock
      cases hsock
  cases hs with
  | connect => exact hframe (List.subset_append_left ..) rfl rfl
  | send | close | fail | receive | read | leave => exact hframe (List.Subset.refl _) rfl rfl
  | accept accepted hpc hpending =>
    have hhand : s.acceptor.hand = none := by rw [hpc]; rfl
    rcases accept_cases hinv.connections hpending with ⟨kernel, -, heq, -⟩ |
      ⟨fd, j, pending, kernel, -, hpending, heq, -⟩
    · rw [heq]
      exact hqueue hhand rfl
    · rw [heq]
      rcases h with hx | ⟨sock, hsock, -⟩
      · rw [hpending] at hx
        rcases List.mem_cons.mp hx with rfl | hx
        · exact .inl (.inr ⟨_, rfl, Function.update_self ..⟩)
        · exact .inl (.inl hx)
      · rw [hhand] at hsock
        cases hsock
  | acceptor hs =>
    rcases acceptorStep_cases hinv.threads.running hs with hpc | ⟨peer, hpc, -⟩ |
      ⟨peer, i, server, closed, hpc, hadd⟩ | ⟨i, hpc⟩ | ⟨j, hpc⟩ | hpc
    · exact hqueue (by rw [hpc]; rfl) rfl
    · rcases h with hx | ⟨sock, hhand, hx⟩
      · exact .inl (.inl hx)
      · rw [hpc] at hhand
        exact .inl (.inr ⟨sock, hhand, hx⟩)
    · rcases h with hx | ⟨sock, hhand, hx⟩
      · exact .inl (.inl hx)
      · -- the connection in hand is added
        rw [hpc] at hhand
        cases hhand
        obtain ⟨-, -, hserver, -⟩ := hinv.connections.addPeer hpc hadd
        exact .inr ⟨i, peer, (hserver i peer).mpr (.inl ⟨rfl, rfl⟩), hx⟩
    · exact hqueue (by rw [hpc]; rfl) rfl
    · exact hqueue (by rw [hpc]; rfl) rfl
    · exact hqueue (by rw [hpc]; rfl) rfl
  | client k hs =>
    rcases clientStep_cases hinv.threads.running hs with - | - | - | - | - | -
    all_goals exact hframe (List.Subset.refl _) rfl rfl

/-- **A peer that is looked after stays**, whatever the server does. -/
theorem Served.connected_step (h : Served x r s) (hinv : Inv p s) (hs : (system p).Step s a s')
    (ha : a.IsServer) {i : ℕ} {sock : Socket} (hi : s.server.Connected i sock)
    (hx : s.connection sock.socketDescriptor = x) :
    s'.server.Connected i sock ∧ s'.connection sock.socketDescriptor = x := by
  have hkeeps : Keeps p i sock s [a] s' := by
    refine keeps_step hinv hi (h.attended hinv hi hx) hs ha ?_
    rintro k y received rfl rfl
    have hpc : (s.client k).pointer = some y := by
      cases hs with
      | receive _ _ _ _ _ hpc => rw [hpc]; rfl
    obtain rfl : y = x := by
      rw [hinv.threads.pointer k y hpc, hinv.connections.peerSocket _ sock hi, hx]
    obtain ⟨chunk, rfl, hchunk, -⟩ := h.receive_step hinv hs
    exact isQuit_of_notMem hchunk
  exact ⟨hkeeps.connected, hkeeps.connection.trans hx⟩

/-- **A connection that is looked after is not lost** in a step of the server. -/
theorem Served.present_step (h : Served x r s) (hinv : Inv p s) (hs : (system p).Step s a s')
    (ha : a.IsServer) : s'.Present x := by
  rcases h.present with hwaiting | ⟨i, sock, hi, hx⟩
  · exact hwaiting.step hinv hs
  · exact .inr ⟨i, sock, h.connected_step hinv hs ha hi hx⟩

/-! ### The steps -/

theorem connected_le_step (hinv : Inv p s) (hs : (system p).Step s a s') :
    s.connected ≤ s'.connected := by
  by_cases ha : a = .connect
  · subst ha
    cases hs
    exact Nat.le_succ _
  · exact (connected_eq_step hinv hs ha).ge

/-- A step after which the connection is there, and what has been sent on it is accounted for. -/
theorem Served.keep (h : Served x r s) (hinv : Inv p s) (hs : (system p).Step s a s')
    (hpresent : s'.Present x) (hended : (s'.stream x).ended = false)
    (herror : (s'.stream x).error = none) (hthere : (s'.replies x).gone = false)
    (hlinked : Linked x s' r') (hletters : 113 ∉ r'.toServer) : Served x r' s' where
  lt := h.lt.trans_le (connected_le_step hinv hs)
  present := hpresent
  ended := hended
  error := herror
  there := hthere
  linked := hlinked
  letters := hletters
  heard := h.heard.step hinv hs (h.delivers hinv hs)
  retains := h.retains.step hinv h.heard hs fun _ _ _ hk => h.isQuit hk

/-- **Another client connects.** -/
theorem Served.connect (h : Served x r s) (hinv : Inv p s) (hs : (system p).Step s .connect s') :
    Served x r s' := by
  have hlinked := h.linked.other hinv hs nofun nofun nofun
  cases hs with
  | connect hcapacity =>
    have hstream : Function.update s.stream s.connected .silent x = s.stream x :=
      Function.update_of_ne h.lt.ne ..
    have hreplies : Function.update s.replies s.connected .none x = s.replies x :=
      Function.update_of_ne h.lt.ne ..
    exact h.keep hinv (.connect hcapacity)
      (h.present.frame (List.subset_append_left ..) rfl rfl rfl)
      ((congrArg Stream.ended hstream).trans h.ended)
      ((congrArg Stream.error hstream).trans h.error)
      ((congrArg Replies.gone hreplies).trans h.there) hlinked h.letters

/-- **Its client sends** something without a `q`. -/
theorem Served.send (h : Served x r s) (hinv : Inv p s) {bytes : List UInt8}
    (hbytes : 113 ∉ bytes) (hs : (system p).Step s (.send x bytes) s') :
    Served x { r with toServer := r.toServer ++ bytes } s' := by
  cases hs with
  | send _ _ hlt hended =>
    refine h.keep hinv (.send x bytes hlt hended)
      (h.present.frame (List.Subset.refl _) rfl rfl rfl) ?_ ?_ h.there (h.linked.send hlt rfl) ?_
    · dsimp only
      rw [Function.update_self]
      exact h.ended
    · dsimp only
      rw [Function.update_self]
      exact h.error
    · exact fun hmem => (List.mem_append.mp hmem).elim h.letters hbytes

/-- **A client reads** some of the replies, this one or another. -/
theorem Served.read (h : Served x r s) (hinv : Inv p s) {y n : ℕ}
    (hs : (system p).Step s (.read y n) s') : Served x r s' := by
  have hlinked := h.linked.other hinv hs nofun nofun nofun
  cases hs with
  | read _ _ hn =>
    refine h.keep hinv (.read y n hn) (h.present.frame (List.Subset.refl _) rfl rfl rfl) h.ended
      h.error ?_ hlinked h.letters
    dsimp only
    rcases eq_or_ne x y with rfl | hne
    · rw [Function.update_self]
      exact h.there
    · rw [Function.update_of_ne hne]
      exact h.there

/-- A step of another client that is not a `read`. -/
inductive Action.IsOf (y : ℕ) : Action → Prop
  | send (bytes : List UInt8) : IsOf y (.send y bytes)
  | close : IsOf y (.close y)
  | fail (error : ℤ) : IsOf y (.fail y error)
  | leave : IsOf y (.leave y)

/-- What another client does has nothing to do with the replies to this one. -/
theorem replies_of_isOf {y : ℕ} (hs : (system p).Step s a s') (ha : a.IsOf y) (hy : x ≠ y) :
    s'.replies x = s.replies x := by
  cases ha with
  | send | close =>
    cases hs
    rfl
  | fail | leave =>
    cases hs
    exact Function.update_of_ne hy ..

/-- **Another client sends, or its connection ends.** -/
theorem Served.other (h : Served x r s) (hinv : Inv p s) {y : ℕ} (hy : y ≠ x) (ha : a.IsOf y)
    (hs : (system p).Step s a s') : Served x r s' := by
  have hreplies := replies_of_isOf hs ha hy.symm
  have hkeep : Linked x s' r → s.pending ⊆ s'.pending → s'.acceptor = s.acceptor →
      s'.server = s.server → s'.connection = s.connection → s'.stream x = s.stream x →
      Served x r s' := by
    intro hlinked hpending hacceptor hserver hconnection hstream
    exact h.keep hinv hs (h.present.frame hpending hacceptor hserver hconnection)
      (hstream ▸ h.ended) (hstream ▸ h.error) (hreplies ▸ h.there) hlinked h.letters
  have hstream : ∀ st, Function.update s.stream y st x = s.stream x := fun _ =>
    Function.update_of_ne hy.symm ..
  cases ha with
  | send bytes =>
    have hlinked := h.linked.other hinv hs (by rintro _ ⟨⟩; exact hy rfl) nofun nofun
    cases hs
    exact hkeep hlinked (List.Subset.refl _) rfl rfl rfl (hstream _)
  | close | fail | leave =>
    have hlinked := h.linked.other hinv hs nofun nofun nofun
    cases hs
    exact hkeep hlinked (List.Subset.refl _) rfl rfl rfl (hstream _)

/-- What the steps of the server do to the stream of the connection. -/
theorem Served.stream_step (h : Served x r s) (hinv : Inv p s) (hs : (system p).Step s a s')
    (ha : a.IsServer) : (s'.stream x).ended = false ∧ (s'.stream x).error = none := by
  cases a with
  | receive k y received =>
    rcases eq_or_ne y x with rfl | hne
    · obtain ⟨-, -, -, hstream⟩ := h.receive_step hinv hs
      exact hstream
    · obtain ⟨st, -, hstream⟩ := receive_cases hinv hs
      rw [hstream, Function.update_of_ne hne.symm]
      exact ⟨h.ended, h.error⟩
  | _ =>
    rw [stream_eq_step hinv hs ha nofun]
    exact ⟨h.ended, h.error⟩

/-- **A step of the server is the reply to a chunk** received from the connection, or leaves what
has not been replied to as it was. -/
theorem Served.step (h : Served x r s) (hinv : Inv p s) (hs : (system p).Step s a s')
    (ha : a.IsServer) :
    (∃ k chunk, a = .client k ∧ s.client k = .handle x (.data chunk) ∧
      Served x (r.handleClient chunk (s.stream x).inbox) s') ∨
    (∀ k chunk, a = .client k → s.client k ≠ .handle x (.data chunk)) ∧ Served x r s' := by
  have hpresent := h.present_step hinv hs ha
  obtain ⟨hended, herror⟩ := h.stream_step hinv hs ha
  by_cases hreply : ∃ k chunk, a = .client k ∧ s.client k = .handle x (.data chunk)
  · obtain ⟨k, chunk, rfl, hk⟩ := hreply
    refine .inl ⟨k, chunk, rfl, hk, ?_⟩
    have hto : r.toServer = chunk ++ (s.stream x).inbox :=
      (h.linked.busy k chunk (by rw [hk]; exact if_pos rfl)).2
    have hclient : clientStep k s = some s' := by
      cases hs with
      | client _ hs => exact hs
    have hthere : (s'.replies x).gone = false := by
      rw [replies_of_reply hinv hk hclient]
      exact h.there
    exact h.keep hinv hs hpresent hended herror hthere
      (h.linked.reply hinv hk hto hclient) fun hmem => h.letters (h.inbox_subset hmem)
  · have hno : ∀ k chunk, a = .client k → s.client k ≠ .handle x (.data chunk) :=
      fun k chunk ha hk => hreply ⟨k, chunk, ha, hk⟩
    have hthere : (s'.replies x).gone = false := by
      rw [replies_eq_step hinv hs ha hno]
      exact h.there
    refine .inr ⟨hno, h.keep hinv hs hpresent hended herror hthere ?_ h.letters⟩
    cases a with
    | connect | send | close | fail | read | leave => exact ha.elim
    | accept | acceptor => exact h.linked.other hinv hs nofun nofun nofun
    | receive => exact h.linked.receive hinv hs
    | client k =>
      cases hs with
      | client _ hs => exact h.linked.clientStep hinv hs fun chunk => hno k chunk rfl

/-- **A client that connects is looked after.** -/
theorem Inv.served_connect (hinv : Inv p s) (hs : (system p).Step s .connect s') :
    Served s.connected (Session.start []) s' := by
  have hpointer : ∀ k, (s.client k).pointer ≠ some s.connected := fun k hk =>
    (hinv.lt_connected hk).false
  have hchunk : ∀ k, (s.client k).chunk s.connected = none := by
    intro k
    rw [Option.eq_none_iff_forall_not_mem]
    exact fun chunk hk => hpointer k (ClientPc.pointer_of_chunk hk)
  cases hs with
  | connect =>
    have hstream : Function.update s.stream s.connected .silent s.connected = .silent :=
      Function.update_self ..
    refine ⟨Nat.lt_succ_self _, .inl (.inl (List.mem_append_right _ List.mem_cons_self)), ?_, ?_,
      ?_, ⟨fun _ => rfl, fun _ _ => ?_, fun k chunk hk => ?_⟩, List.not_mem_nil,
      fun k _ hk => absurd hk (hpointer k), fun k hlive hslot => ?_⟩
    · exact congrArg Stream.ended hstream
    · exact congrArg Stream.error hstream
    · exact congrArg Replies.gone (Function.update_self s.connected Replies.none s.replies)
    · exact (congrArg Stream.inbox hstream).symm
    · rw [hchunk k] at hk
      cases hk
    · -- the slots of the threads have older connections
      obtain ⟨sock, hi⟩ := hinv.threads.exists_connected hlive
      obtain ⟨-, -, hopen, hbase⟩ := hinv.connections.peers.peer _ sock hi
      have hlt := (hinv.connections.accepted _ hopen hbase).1
      rw [← hinv.connections.peerSocket _ sock hi, hslot] at hlt
      exact absurd hlt (lt_irrefl _)

/-- **A stream that has ended** stays so. -/
theorem ended_step (hinv : Inv p s) (hs : (system p).Step s a s') (hx : x < s.connected)
    (hended : (s.stream x).ended = true) : (s'.stream x).ended = true := by
  -- a stream that is changed is ended as before, or now
  have hupdate : ∀ {y : ℕ} {st : Stream}, (y = x → st.ended = true) →
      (Function.update s.stream y st x).ended = true := by
    intro y st hst
    rcases eq_or_ne x y with rfl | hne
    · rw [Function.update_self]
      exact hst rfl
    · rwa [Function.update_of_ne hne]
  cases a with
  | connect =>
    cases hs
    exact hupdate fun hc => absurd hx (hc ▸ lt_irrefl _)
  | send =>
    cases hs
    exact hupdate fun hc => hc ▸ hended
  | close | fail | leave =>
    cases hs
    exact hupdate fun _ => rfl
  | read =>
    cases hs
    exact hended
  | receive k y received =>
    obtain ⟨st, hst, hstream⟩ := receive_cases hinv hs
    rw [hstream]
    refine hupdate fun hc => ?_
    rw [hc] at hst
    cases hst <;> exact hended
  | _ =>
    rw [stream_eq_step hinv hs trivial nofun]
    exact hended

/-! ### What is needed -/

/-- **The room that the kernel has** for the replies stays what it is. -/
theorem capacity_eq_step (hinv : Inv p s) (hs : (system p).Step s a s') :
    s'.capacity = s.capacity := by
  cases hs with
  | connect | send | close | fail | receive | read | leave => rfl
  | accept accepted hpc hpending =>
    rcases accept_cases hinv.connections hpending with ⟨kernel, -, heq, -⟩ |
      ⟨fd, j, pending, kernel, -, -, heq, -⟩
    all_goals rw [heq]
  | acceptor hs =>
    rcases acceptorStep_cases hinv.threads.running hs with - | - | - | - | - | -
    all_goals rfl
  | client k hs =>
    rcases clientStep_cases hinv.threads.running hs with - | - | - | - | - | -
    all_goals rfl

/-- The descriptors that the server has open, and those it is going to open for the clients that
have connected. -/
def State.descriptors (s : State) : ℕ := s.kernel.opened.card + s.pending.length

/-- **The server needs no more descriptors** as long as no other client connects. -/
theorem descriptors_step (hinv : Inv p s) (hs : (system p).Step s a s') (ha : a ≠ .connect) :
    s'.descriptors ≤ s.descriptors := by
  cases hs with
  | connect => exact absurd rfl ha
  | send | close | fail | receive | read | leave => exact le_rfl
  | accept accepted hpc hpending =>
    rcases accept_cases hinv.connections hpending with ⟨kernel, -, heq, hopened, -⟩ |
      ⟨fd, j, pending, kernel, -, hqueue, heq, hopened, -⟩
    · rw [heq, State.descriptors, State.descriptors]
      dsimp only
      rw [hopened]
    · rw [heq, State.descriptors, State.descriptors]
      dsimp only
      rw [hopened, hqueue, List.length_cons]
      have hcard := Finset.card_insert_le fd s.kernel.opened
      omega
  | acceptor hs =>
    rcases acceptorStep_cases hinv.threads.running hs with - | - |
      ⟨peer, i, server, closed, hpc, hadd⟩ | - | - | -
    case addPeer => exact Nat.add_le_add_right (s.kernel.card_closeAny_le closed) _
    all_goals exact le_rfl
  | client k hs =>
    rcases clientStep_cases hinv.threads.running hs with - | - | - | - |
      ⟨server, closed, hpc, hremove⟩ | -
    case remove => exact Nat.add_le_add_right (s.kernel.card_closeAny_le closed) _
    all_goals exact le_rfl

end ThreadPerClient

end Net

end LowLatency
