import LowLatency.Spsc.CounterRuns
import LowLatency.Spsc.Encodings

/-!
# One operation after the other, as runs

The functions of `LowLatency.Spsc.Encodings` run an operation at once, the systems of
`LowLatency.Spsc.ModuloRing` and `LowLatency.Spsc.CounterRing` access by access. This file
says that the functions are what the systems do when the accesses of two operations are not
mixed: whatever the list of operations, each system has a run that calls them one after the
other and returns the results of the functions
(`LowLatency.Spsc.ModuloRing.exists_serial_run`,
`LowLatency.Spsc.CounterRing.exists_serial_run`). In the second, the loads return the last
messages, which every memory order allows.
-/

namespace LowLatency

namespace Spsc

open QueueAction

/-- The thread that makes the call. -/
def TryOp.side : TryOp → Side
  | .tryPush _ => .producer
  | .tryPop => .consumer

/-- A call and its return. -/
def TryOp.events (op : TryOp) (res : QueueRes Int64) :
    List (Event Side (QueueOp Int64) (QueueRes Int64)) :=
  [.call op.side op.op, .ret op.side res]

/-- **The history of operations that run one after the other.** -/
def serial (ops : List TryOp) (results : List (QueueRes Int64)) :
    List (Event Side (QueueOp Int64) (QueueRes Int64)) :=
  (List.zipWith TryOp.events ops results).flatten

variable {N : RingSize} {tr : List Action}

/-! ### The wrapped indices -/

namespace ModuloRing

/-- The fields of a state. -/
def State.fields (s : State) : Fields := ⟨s.write, s.read, s.buffer⟩

/-- No operation is running. -/
def State.Resting (s : State) : Prop := s.producer = .idle ∧ s.consumer = .idle

variable {s : State}

/-- **One operation**, from its call to its return. -/
theorem run_exec (h : (system N).Run tr s) (hrest : s.Resting) (op : TryOp) :
    ∃ tr' s', (system N).Run tr' s' ∧ s'.Resting ∧ s'.fields = (exec N op s.fields).2 ∧
      history tr' = history tr ++ op.events (exec N op s.fields).1 := by
  obtain ⟨write, read, buffer, producer, consumer⟩ := s
  obtain ⟨rfl, rfl⟩ : producer = .idle ∧ consumer = .idle := hrest
  have hfields : State.fields ⟨write, read, buffer, .idle, .idle⟩ = ⟨write, read, buffer⟩ := rfl
  rw [hfields]
  cases op with
  | tryPush v =>
    have h1 := h.snoc (.pushCall (.tryPush v) rfl)
    have h2 := h1.snoc (.producer rfl)
    by_cases hne : increment N write.toInt32 ≠ read
    · have h3 := h2.snoc (.producer (if_pos hne))
      have h4 := h3.snoc (.producer rfl)
      have h5 := h4.snoc (.producer rfl)
      have h6 := h5.snoc (.producer rfl)
      rw [exec_push (f := ⟨write, read, buffer⟩) v hne]
      refine ⟨_, _, h6, ⟨rfl, rfl⟩, rfl, ?_⟩
      simp [history, List.filterMap_cons, event?, TryOp.events, TryOp.side, TryOp.op,
        PushCall.op, PushCall.accepted]
    · have h3 := h2.snoc (.producer (if_neg hne))
      have h4 := h3.snoc (.producer rfl)
      rw [exec_push_full (f := ⟨write, read, buffer⟩) v (not_not.mp hne)]
      refine ⟨_, _, h4, ⟨rfl, rfl⟩, rfl, ?_⟩
      simp [history, List.filterMap_cons, event?, TryOp.events, TryOp.side, TryOp.op, PushCall.op]
  | tryPop =>
    have h1 := h.snoc (.popCall .tryPop rfl)
    have h2 := h1.snoc (.consumer rfl)
    by_cases heq : read = write
    · have h3 := h2.snoc (.consumer (if_pos heq))
      have h4 := h3.snoc (.consumer rfl)
      rw [exec_pop_empty (f := ⟨write, read, buffer⟩) heq]
      refine ⟨_, _, h4, ⟨rfl, rfl⟩, rfl, ?_⟩
      simp [history, List.filterMap_cons, event?, TryOp.events, TryOp.side, TryOp.op, PopCall.op]
    · have h3 := h2.snoc (.consumer (if_neg heq))
      have h4 := h3.snoc (.consumer rfl)
      have h5 := h4.snoc (.consumer rfl)
      have h6 := h5.snoc (.consumer rfl)
      rw [exec_pop (f := ⟨write, read, buffer⟩) heq]
      refine ⟨_, _, h6, ⟨rfl, rfl⟩, rfl, ?_⟩
      simp [history, List.filterMap_cons, event?, TryOp.events, TryOp.side, TryOp.op,
        PopCall.op, PopCall.taken]

/-- **Any list of operations**, one after the other. -/
theorem exists_serial_run (h : (system N).Run tr s) (hrest : s.Resting) (ops : List TryOp) :
    ∃ tr' s', (system N).Run tr' s' ∧
      history tr' = history tr ++ serial ops (Machine.results (exec N) ops s.fields) := by
  induction ops generalizing tr s with
  | nil => exact ⟨tr, s, h, by simp [serial]⟩
  | cons op ops ih =>
    obtain ⟨tr₁, s₁, h₁, hrest₁, hfields, hhistory⟩ := run_exec h hrest op
    obtain ⟨tr₂, s₂, h₂, hhistory₂⟩ := ih h₁ hrest₁
    refine ⟨tr₂, s₂, h₂, ?_⟩
    rw [hhistory₂, hhistory, hfields, List.append_assoc]
    rfl

end ModuloRing

/-! ### The running counters -/

namespace CounterRing

open ReleaseAcquire

/-- The fields of a state, as a thread sees them that has observed everything. -/
def State.fields (s : State) : Fields where
  write := latest s.writeLog
  read := latest s.readLog
  buffer i := (s.slots i).getLastD 0

/-- No operation is running. -/
def State.Resting (s : State) : Prop := s.producer = .idle ∧ s.consumer = .idle

variable {o : Order} {s : State}

@[simp] theorem latest_concat (log : List (Message Int64 Int64)) (m : Message Int64 Int64) :
    latest (log ++ [m]) = m.value := by
  rw [latest, List.getLast?_concat]
  rfl

/-- The last values of the slots after one more write. -/
theorem getLastD_update (slots : Int64 → List Int64) (i v : Int64) :
    (fun j => (Function.update slots i (slots i ++ [v]) j).getLastD 0) =
      Function.update (fun j => (slots j).getLastD 0) i v := by
  funext j
  rcases eq_or_ne j i with rfl | hne
  · rw [Function.update_self, Function.update_self, List.getLastD_concat]
  · rw [Function.update_of_ne hne, Function.update_of_ne hne]

/-- **One `try_push`**, from its call to its return. -/
theorem run_tryPush (h : (system o N).Run tr s) (hlt : (published tr).length < 2 ^ 31)
    (hrest : s.Resting) (v : Int64) :
    ∃ tr' s', (system o N).Run tr' s' ∧ s'.Resting ∧
      s'.fields = (exec N (.tryPush v) s.fields).2 ∧
      history tr' = history tr ++ TryOp.events (.tryPush v) (exec N (.tryPush v) s.fields).1 ∧
      (published tr').length =
        (published tr).length + pushCost (exec N (.tryPush v) s.fields).1 := by
  have hinv := inv_of_run h hlt
  obtain ⟨hidle, hidle'⟩ := hrest
  obtain ⟨m, hm, hval⟩ := hinv.readLog _ le_rfl
  rw [← hinv.latest_read] at hval
  have hread : Readable o s.readLog s.producerSeen (QueueAction.popped tr).length :=
    readable_last o hinv.producerSeen hinv.readLog_length
  have h1 := h.snoc (.pushCall (.tryPush v) hidle)
  have h2 := h1.snoc (.producer 0 rfl)
  by_cases htest : latest s.writeLog - latest s.readLog ≤ N.size - 1
  · have htest' : latest s.writeLog - m.value ≤ N.size - 1 := by rwa [hval]
    have h3 := h2.snoc (.producer (QueueAction.popped tr).length
      (by simp only [producerStep, hread, hm, htest', if_true, Option.map_some]; rfl))
    have h4 := h3.snoc (.producer 0 rfl)
    have h5 := h4.snoc (.producer 0 rfl)
    have h6 := h5.snoc (.producer 0 rfl)
    rw [exec_push (f := s.fields) v htest]
    refine ⟨_, _, h6, ⟨rfl, hidle'⟩, ?_, ?_, ?_⟩
    · simp only [State.fields, latest_concat, getLastD_update]
      rfl
    · simp [history, List.filterMap_cons, event?, TryOp.events, TryOp.side, TryOp.op,
        PushCall.op, PushCall.accepted]
    · simp [published, List.filterMap_cons, published?, pushCost]
  · have htest' : ¬latest s.writeLog - m.value ≤ N.size - 1 := by rwa [hval]
    have h3 := h2.snoc (.producer (QueueAction.popped tr).length
      (by simp only [producerStep, hread, hm, htest', if_true, if_false, Option.map_some]; rfl))
    have h4 := h3.snoc (.producer 0 rfl)
    rw [exec_push_full (f := s.fields) v htest]
    refine ⟨_, _, h4, ⟨rfl, hidle'⟩, rfl, ?_, ?_⟩
    · simp [history, List.filterMap_cons, event?, TryOp.events, TryOp.side, TryOp.op, PushCall.op]
    · simp [published, List.filterMap_cons, published?, pushCost]

/-- **One `try_pop`**, from its call to its return. -/
theorem run_tryPop (h : (system o N).Run tr s) (hlt : (published tr).length < 2 ^ 31)
    (hrest : s.Resting) :
    ∃ tr' s', (system o N).Run tr' s' ∧ s'.Resting ∧
      s'.fields = (exec N .tryPop s.fields).2 ∧
      history tr' = history tr ++ TryOp.events .tryPop (exec N .tryPop s.fields).1 ∧
      (published tr').length = (published tr).length := by
  have hinv := inv_of_run h hlt
  obtain ⟨hidle, hidle'⟩ := hrest
  obtain ⟨m, hm, hval, -⟩ := hinv.writeLog _ le_rfl
  rw [← hinv.latest_write] at hval
  have hread : Readable o s.writeLog s.consumerSeen (published tr).length :=
    readable_last o hinv.consumerSeen_le hinv.writeLog_length
  have h1 := h.snoc (.popCall .tryPop hidle')
  have h2 := h1.snoc (.consumer 0 rfl)
  by_cases htest : latest s.readLog = latest s.writeLog
  · have htest' : latest s.readLog = m.value := htest.trans hval.symm
    have h3 := h2.snoc (.consumer (published tr).length
      (by simp only [consumerStep, hread, hm, htest', if_true, Option.map_some]; rfl))
    have h4 := h3.snoc (.consumer 0 rfl)
    rw [exec_pop_empty (f := s.fields) htest]
    refine ⟨_, _, h4, ⟨hidle, rfl⟩, rfl, ?_, ?_⟩
    · simp [history, List.filterMap_cons, event?, TryOp.events, TryOp.side, TryOp.op, PopCall.op]
    · simp [published, List.filterMap_cons, published?]
  · have htest' : ¬latest s.readLog = m.value := fun hc => htest (hc.trans hval)
    obtain ⟨k, hview, hv⟩ := (viewsInv_of_run h).exists_read_last (List.mem_of_getElem? hm)
      (latest s.readLog % N.size)
    have h3 := h2.snoc (.consumer (published tr).length
      (by simp only [consumerStep, hread, hm, htest', if_true, if_false, Option.map_some]; rfl))
    have h4 := h3.snoc (.consumer k
      (by simp only [consumerStep, hview, if_true, hv, Option.map_some]; rfl))
    have h5 := h4.snoc (.consumer 0 rfl)
    have h6 := h5.snoc (.consumer 0 rfl)
    rw [exec_pop (f := s.fields) htest]
    refine ⟨_, _, h6, ⟨hidle, rfl⟩, ?_, ?_, ?_⟩
    · simp only [State.fields, latest_concat]
    · simp [history, List.filterMap_cons, event?, TryOp.events, TryOp.side, TryOp.op,
        PopCall.op, PopCall.taken, State.fields]
    · simp [published, List.filterMap_cons, published?]

/-- **One operation**, from its call to its return. -/
theorem run_exec (h : (system o N).Run tr s) (hlt : (published tr).length < 2 ^ 31)
    (hrest : s.Resting) (op : TryOp) :
    ∃ tr' s', (system o N).Run tr' s' ∧ s'.Resting ∧ s'.fields = (exec N op s.fields).2 ∧
      history tr' = history tr ++ op.events (exec N op s.fields).1 ∧
      (published tr').length = (published tr).length + pushCost (exec N op s.fields).1 := by
  cases op with
  | tryPush v => exact run_tryPush h hlt hrest v
  | tryPop => exact run_tryPop h hlt hrest

/-- **Any list of operations**, one after the other, while fewer than `2 ^ 31` pushes
succeed. -/
theorem exists_serial_run (h : (system o N).Run tr s) (hrest : s.Resting) (ops : List TryOp)
    (hlt : (published tr).length +
      Machine.total pushCost (Machine.results (exec N) ops s.fields) < 2 ^ 31) :
    ∃ tr' s', (system o N).Run tr' s' ∧
      history tr' = history tr ++ serial ops (Machine.results (exec N) ops s.fields) := by
  induction ops generalizing tr s with
  | nil => exact ⟨tr, s, h, by simp [serial]⟩
  | cons op ops ih =>
    rw [Machine.results, Machine.total_cons, ← Nat.add_assoc] at hlt
    obtain ⟨tr₁, s₁, h₁, hrest₁, hfields, hhistory, hlen⟩ := run_exec h (by omega) hrest op
    obtain ⟨tr₂, s₂, h₂, hhistory₂⟩ := ih h₁ hrest₁ (by rw [hlen, hfields]; exact hlt)
    refine ⟨tr₂, s₂, h₂, ?_⟩
    rw [hhistory₂, hhistory, hfields, List.append_assoc]
    rfl

end CounterRing

end Spsc

end LowLatency
