import LowLatency.FalseSharing.Layout
import LowLatency.Foundations.Counting
import LowLatency.Foundations.ForkJoin
import LowLatency.Foundations.NestedLoops

/-!
# Three threads that count

The program `false_sharing.cpp`: `main` creates three threads, each of which increments its member
of `data` in two nested loops, and then joins them. `data.d1++` is a load and a store, and the
steps of the threads come in any order. A thread function that comes to its end is taken to return.

The members have no byte in common, so each thread runs as it would alone
(`LowLatency.FalseSharing.alone_of_run`), with `CACHE_LINE_ALIGNED` and without it, and the program
comes to the same end. What the macro decides is whether the threads write to common cache lines
(`LowLatency.FalseSharing.alignment_separates_lines_only`).
-/

namespace LowLatency

namespace FalseSharing

/-- The bound of both loops. -/
def ITERATION : Int32 := 10000

/-- Where a thread stands. -/
inductive Pc where
  /-- At a test of the loops. -/
  | loop (pc : NestedLoops.Pc) : Pc
  /-- In the inner loop, at the step that stores, with the value that was loaded. -/
  | store (i j : Int32) (value : BitVec 32) : Pc

/-- The memory with `data`, and the threads. -/
structure State where
  memory : ByteMemory
  thread : Member → Pc

/-- What happens next. -/
inductive Action where
  /-- A test of the outer loop, or the last one of the inner loop. -/
  | test (m : Member) : Action
  | load (m : Member) : Action
  | store (m : Member) (j : Int32) : Action

/-- The thread goes on to `pc`. -/
def State.goto (s : State) (m : Member) (pc : Pc) : State :=
  { s with thread := Function.update s.thread m pc }

section Step

variable (CACHE_LINE_ALIGNED : Bool) (data : Address) (iteration : Int32)

/-- The next step of the thread that increments a member. -/
def count (m : Member) (s : State) : Option (Action × State) :=
  match s.thread m with
  | .loop (.outer i) =>
    some (.test m, s.goto m (.loop (if i < iteration then .inner i 0 else .done)))
  | .loop (.inner i j) =>
    if j < iteration then
      some (.load m, s.goto m (.store i j (s.memory.load (address CACHE_LINE_ALIGNED data m) 32)))
    else some (.test m, s.goto m (.loop (.outer (i + 1))))
  | .loop .done => none
  | .store i j value =>
    some (.store m j,
      { s.goto m (.loop (.inner i (j + 1))) with
        memory := s.memory.store (address CACHE_LINE_ALIGNED data m) (value + 1) })

/-- `thread1`. -/
def thread1 : State → Option (Action × State) := count CACHE_LINE_ALIGNED data iteration .d1

/-- `thread2`. -/
def thread2 : State → Option (Action × State) := count CACHE_LINE_ALIGNED data iteration .d2

/-- `thread3`. -/
def thread3 : State → Option (Action × State) := count CACHE_LINE_ALIGNED data iteration .d3

/-- The threads in the order in which `main` creates and joins them. -/
def start : Fin 3 → State → Option (Action × State)
  | 0 => thread1 CACHE_LINE_ALIGNED data iteration
  | 1 => thread2 CACHE_LINE_ALIGNED data iteration
  | 2 => thread3 CACHE_LINE_ALIGNED data iteration

/-- The member that a thread increments. -/
def member : Fin 3 → Member
  | 0 => .d1
  | 1 => .d2
  | 2 => .d3

theorem start_eq (k : Fin 3) :
    start CACHE_LINE_ALIGNED data iteration k =
      count CACHE_LINE_ALIGNED data iteration (member k) := by
  match k with
  | 0 | 1 | 2 => rfl

/-- `data` is static, so its members are `0` at first. -/
def Init (s : State) : Prop :=
  (∀ m, s.memory.load (address CACHE_LINE_ALIGNED data m) 32 = 0) ∧
    ∀ m, s.thread m = .loop (.outer 0)

/-- A step of a thread. -/
def Next (k : Fin 3) (s : State) (a : Action) (s' : State) : Prop :=
  start CACHE_LINE_ALIGNED data iteration k s = some (a, s')

/-- The thread has returned. -/
def Done (k : Fin 3) (s : State) : Prop := s.thread (member k) = .loop .done

/-- **The program.** -/
def system : TransitionSystem (ForkJoin.State State) (Option Action) :=
  ForkJoin.system (Init CACHE_LINE_ALIGNED data) (Next CACHE_LINE_ALIGNED data iteration) Done

/-- What a step of a thread can be. -/
inductive Cases (m : Member) (s : State) : Action → State → Prop
  | enter (i : Int32) : s.thread m = .loop (.outer i) → i < iteration →
      Cases m s (.test m) (s.goto m (.loop (.inner i 0)))
  | leave (i : Int32) : s.thread m = .loop (.outer i) → ¬i < iteration →
      Cases m s (.test m) (s.goto m (.loop .done))
  | load (i j : Int32) : s.thread m = .loop (.inner i j) → j < iteration →
      Cases m s (.load m)
        (s.goto m (.store i j (s.memory.load (address CACHE_LINE_ALIGNED data m) 32)))
  | next (i j : Int32) : s.thread m = .loop (.inner i j) → ¬j < iteration →
      Cases m s (.test m) (s.goto m (.loop (.outer (i + 1))))
  | store (i j : Int32) (value : BitVec 32) : s.thread m = .store i j value →
      Cases m s (.store m j)
        { s.goto m (.loop (.inner i (j + 1))) with
          memory := s.memory.store (address CACHE_LINE_ALIGNED data m) (value + 1) }

end Step

variable {CACHE_LINE_ALIGNED : Bool} {data : Address} {iteration : Int32} {m n : Member}
  {s s' : State} {a : Action} {tr : List Action}

theorem count_cases (h : count CACHE_LINE_ALIGNED data iteration m s = some (a, s')) :
    Cases CACHE_LINE_ALIGNED data iteration m s a s' := by
  cases hpc : s.thread m with
  | loop pc =>
    cases pc with
    | outer i =>
      simp only [count, hpc] at h
      obtain ⟨rfl, rfl⟩ := Prod.mk.inj (Option.some.inj h)
      by_cases hi : i < iteration
      · rw [if_pos hi]
        exact .enter i hpc hi
      · rw [if_neg hi]
        exact .leave i hpc hi
    | inner i j =>
      by_cases hj : j < iteration
      · simp only [count, hpc, if_pos hj] at h
        obtain ⟨rfl, rfl⟩ := Prod.mk.inj (Option.some.inj h)
        exact .load i j hpc hj
      · simp only [count, hpc, if_neg hj] at h
        obtain ⟨rfl, rfl⟩ := Prod.mk.inj (Option.some.inj h)
        exact .next i j hpc hj
    | done => simp [count, hpc] at h
  | store i j value =>
    simp only [count, hpc] at h
    obtain ⟨rfl, rfl⟩ := Prod.mk.inj (Option.some.inj h)
    exact .store i j value hpc

/-- A thread that has not returned is never held up. -/
theorem exists_count (CACHE_LINE_ALIGNED : Bool) (data : Address) (iteration : Int32)
    (h : s.thread m ≠ .loop .done) :
    ∃ a s', count CACHE_LINE_ALIGNED data iteration m s = some (a, s') := by
  cases hpc : s.thread m with
  | loop pc =>
    cases pc with
    | outer i => exact ⟨_, _, by rw [count, hpc]⟩
    | inner i j =>
      by_cases hj : j < iteration
      · exact ⟨_, _, by rw [count, hpc]; exact if_pos hj⟩
      · exact ⟨_, _, by rw [count, hpc]; exact if_neg hj⟩
    | done => exact absurd hpc h
  | store i j value => exact ⟨_, _, by rw [count, hpc]⟩

/-! ### Each thread by itself -/

/-- What a step is for the loops of a thread. -/
def shows (m : Member) : Action → Option (Option Int32)
  | .test n => if n = m then some none else none
  | .store n j => if n = m then some (some j) else none
  | .load _ => none

/-- `data.d1++`, in one step. -/
def plusOne (_ : Int32) (value : BitVec 32) : BitVec 32 := value + 1

/-- The thread stands where the loops do; what it has loaded is the value of the member. -/
def StandsAt (iteration : Int32) (r : NestedLoops.State (BitVec 32)) : Pc → Prop
  | .loop pc => r.pc = pc
  | .store i j value => r.pc = .inner i j ∧ j < iteration ∧ value = r.obj

/-- **The simulation** of the loops of a thread. -/
structure Rel (CACHE_LINE_ALIGNED : Bool) (data : Address) (iteration : Int32) (m : Member)
    (s : State) (r : NestedLoops.State (BitVec 32)) : Prop where
  value : s.memory.load (address CACHE_LINE_ALIGNED data m) 32 = r.obj
  stands : StandsAt iteration r (s.thread m)

variable {r : NestedLoops.State (BitVec 32)}

/-- **A step of the thread** is one of its loops, or the load. -/
theorem Rel.own (h : Rel CACHE_LINE_ALIGNED data iteration m s r)
    (hs : Cases CACHE_LINE_ALIGNED data iteration m s a s') :
    shows m a = none ∧ Rel CACHE_LINE_ALIGNED data iteration m s' r ∨
      ∃ x r', shows m a = some x ∧ NestedLoops.Cases iteration plusOne r x r' ∧
        Rel CACHE_LINE_ALIGNED data iteration m s' r' := by
  obtain ⟨hvalue, hstands⟩ := h
  have hself : ∀ pc, (s.goto m pc).thread m = pc := fun pc => Function.update_self ..
  cases hs with
  | enter i hpc hi =>
    rw [hpc] at hstands
    refine .inr ⟨none, _, if_pos rfl, .enter i hstands hi, hvalue, ?_⟩
    rw [hself]
    rfl
  | leave i hpc hi =>
    rw [hpc] at hstands
    refine .inr ⟨none, _, if_pos rfl, .leave i hstands hi, hvalue, ?_⟩
    rw [hself]
    rfl
  | load i j hpc hj =>
    rw [hpc] at hstands
    refine .inl ⟨rfl, hvalue, ?_⟩
    rw [hself]
    exact ⟨hstands, hj, hvalue⟩
  | next i j hpc hj =>
    rw [hpc] at hstands
    refine .inr ⟨none, _, if_pos rfl, .next i j hstands hj, hvalue, ?_⟩
    rw [hself]
    rfl
  | store i j value hpc =>
    rw [hpc] at hstands
    obtain ⟨hpc', hj, rfl⟩ := hstands
    refine .inr ⟨some j, _, if_pos rfl, .body i j hpc' hj, ?_, ?_⟩
    · exact ByteMemory.load_store_self _ (by decide)
    · dsimp only
      rw [hself]
      rfl

/-- **A step of another thread** leaves the thread and its member alone. -/
theorem Rel.other (h : Rel CACHE_LINE_ALIGNED data iteration m s r)
    (hplaced : Placed CACHE_LINE_ALIGNED data) (hne : n ≠ m)
    (hs : Cases CACHE_LINE_ALIGNED data iteration n s a s') :
    shows m a = none ∧ Rel CACHE_LINE_ALIGNED data iteration m s' r := by
  have hthread : ∀ pc, (s.goto n pc).thread m = s.thread m := fun pc =>
    Function.update_of_ne hne.symm ..
  have hkeep : ∀ pc, Rel CACHE_LINE_ALIGNED data iteration m (s.goto n pc) r := fun pc =>
    ⟨h.value, by rw [hthread]; exact h.stands⟩
  cases hs with
  | enter | leave | next => exact ⟨if_neg hne, hkeep _⟩
  | load => exact ⟨rfl, hkeep _⟩
  | store i j value =>
    refine ⟨if_neg hne, ?_, (hkeep _).stands⟩
    rw [← h.value]
    exact ByteMemory.load_store_of_apart (n := 4) (k := 4) (by decide) (by decide)
      (apart hplaced hne.symm) _

/-- The threads by themselves. -/
abbrev threads (CACHE_LINE_ALIGNED : Bool) (data : Address) (iteration : Int32) :
    TransitionSystem State Action :=
  ForkJoin.threads (Init CACHE_LINE_ALIGNED data) (Next CACHE_LINE_ALIGNED data iteration)

/-- **Each thread runs as it would alone**: what it does to its member is a run of two nested
loops around an increment. -/
theorem alone_of_run (hplaced : Placed CACHE_LINE_ALIGNED data)
    (h : (threads CACHE_LINE_ALIGNED data iteration).Run tr s) (m : Member) :
    ∃ r, (NestedLoops.system iteration plusOne 0).Run (tr.filterMap (shows m)) r ∧
      Rel CACHE_LINE_ALIGNED data iteration m s r := by
  refine h.simulate (shows m) (Rel CACHE_LINE_ALIGNED data iteration m) ?_ ?_
  · rintro s ⟨hmemory, hthread⟩
    refine ⟨_, rfl, hmemory m, ?_⟩
    rw [hthread]
    rfl
  · rintro s a s' r hrel ⟨k, hs⟩
    rw [Next, start_eq] at hs
    rcases eq_or_ne (member k) m with rfl | hne
    · rcases hrel.own (count_cases hs) with hquiet | ⟨x, r', hx, hr, hrel'⟩
      · exact .inl hquiet
      · exact .inr ⟨x, r', hx, hr.step, hrel'⟩
    · exact .inl (hrel.other hplaced hne (count_cases hs))

/-! ### The values -/

/-- The step stores to the member. -/
def Action.stores (m : Member) : Action → Bool
  | .store n _ => n = m
  | _ => false

/-- **How often a member has been incremented.** -/
def increments (m : Member) (tr : List Action) : ℕ := tr.countP (Action.stores m)

theorem length_arguments (m : Member) (tr : List Action) :
    (NestedLoops.arguments (tr.filterMap (shows m))).length = increments m tr := by
  rw [NestedLoops.arguments, List.filterMap_filterMap, List.length_filterMap_eq_countP, increments]
  refine List.countP_congr fun a _ => ?_
  cases a with
  | test n | store n j =>
    by_cases hn : n = m
    · simp [shows, Action.stores, hn]
    · simp [shows, Action.stores, hn]
  | load n => rfl

/-- Increments, one after the other. -/
theorem foldl_plusOne (js : List Int32) (value : BitVec 32) :
    js.foldl (fun value j => plusOne j value) value = value + BitVec.ofNat 32 js.length := by
  induction js generalizing value with
  | nil => exact (BitVec.add_zero value).symm
  | cons j js ih =>
    rw [List.foldl_cons, ih, plusOne, List.length_cons, ← BitVec.ofNat_add_ofNat,
      BitVec.add_comm (BitVec.ofNat 32 js.length), BitVec.add_assoc]
    rfl

/-- **No increment of a member is lost.** -/
theorem value_of_run (hplaced : Placed CACHE_LINE_ALIGNED data)
    (h : (threads CACHE_LINE_ALIGNED data iteration).Run tr s) (m : Member) :
    s.memory.load (address CACHE_LINE_ALIGNED data m) 32 = BitVec.ofNat 32 (increments m tr) := by
  obtain ⟨r, hrun, hrel⟩ := alone_of_run hplaced h m
  rw [hrel.value, NestedLoops.obj_of_run hrun, foldl_plusOne, length_arguments]
  exact BitVec.zero_add _

/-- A thread that has returned has made all its increments. -/
theorem increments_of_done (hplaced : Placed CACHE_LINE_ALIGNED data)
    (h : (threads CACHE_LINE_ALIGNED data iteration).Run tr s) (hdone : s.thread m = .loop .done) :
    increments m tr = NestedLoops.bound iteration * NestedLoops.bound iteration := by
  obtain ⟨r, hrun, hrel⟩ := alone_of_run hplaced h m
  have hpc : r.pc = .done := by
    have hstands := hrel.stands
    rwa [hdone] at hstands
  obtain ⟨i, j, hat, harguments⟩ := NestedLoops.inv_of_run hrun
  rw [hpc] at hat
  obtain ⟨rfl, rfl⟩ := hat
  have hlength := congrArg List.length harguments
  rw [List.length_map, length_arguments, List.length_map] at hlength
  rw [hlength]
  simp [NestedLoops.rounds]

/-! ### The end of the program -/

/-- The steps that a thread has still to make, at most: the loads are steps besides those of the
loops. -/
def weight (iteration : Int32) : Pc → ℕ
  | .loop pc => 2 * NestedLoops.remaining iteration (⟨pc, 0⟩ : NestedLoops.State (BitVec 32))
  | .store i j _ =>
    2 * NestedLoops.remaining iteration (⟨.inner i j, 0⟩ : NestedLoops.State (BitVec 32)) - 1

/-- A step of a thread makes its weight less. -/
theorem weight_lt (h : Rel CACHE_LINE_ALIGNED data iteration m s r)
    (hinv : ∃ i j, NestedLoops.At (NestedLoops.bound iteration) i j r.pc)
    (hs : Cases CACHE_LINE_ALIGNED data iteration m s a s') :
    ∃ pc, s'.thread = Function.update s.thread m pc ∧
      weight iteration pc < weight iteration (s.thread m) := by
  have hstands := h.stands
  -- one of the steps of the loops
  have hless : ∀ {pc pc' : NestedLoops.Pc} {x : Option Int32} {value : BitVec 32},
      r.pc = pc → NestedLoops.Cases iteration plusOne ⟨pc, 0⟩ x ⟨pc', value⟩ →
      NestedLoops.remaining iteration (⟨pc', 0⟩ : NestedLoops.State (BitVec 32)) <
        NestedLoops.remaining iteration (⟨pc, 0⟩ : NestedLoops.State (BitVec 32)) := by
    intro pc pc' x value hpc hcases
    have hlt := NestedLoops.remaining_lt (hpc ▸ hinv) hcases.step
    exact hlt
  cases hs with
  | enter i hpc hi =>
    rw [hpc] at hstands ⊢
    have hlt := hless hstands (.enter i rfl hi)
    exact ⟨_, rfl, by simp only [weight]; omega⟩
  | leave i hpc hi =>
    rw [hpc] at hstands ⊢
    have hlt := hless hstands (.leave i rfl hi)
    exact ⟨_, rfl, by simp only [weight]; omega⟩
  | load i j hpc hj =>
    rw [hpc] at hstands ⊢
    have hlt := hless hstands (.body i j rfl hj)
    exact ⟨_, rfl, by simp only [weight]; omega⟩
  | next i j hpc hj =>
    rw [hpc] at hstands ⊢
    have hlt := hless hstands (.next i j rfl hj)
    exact ⟨_, rfl, by simp only [weight]; omega⟩
  | store i j value hpc =>
    rw [hpc] at hstands ⊢
    have hlt := hless hstands.1 (.body i j rfl hstands.2.1)
    exact ⟨_, rfl, by simp only [weight]; omega⟩

/-- The steps that the threads make in all, at most. -/
def work (iteration : Int32) : ℕ :=
  3 * (2 * (NestedLoops.bound iteration * (NestedLoops.bound iteration + 2) + 1))

/-- **The threads come to an end.** -/
theorem ends (hplaced : Placed CACHE_LINE_ALIGNED data) (iteration : Int32) :
    ForkJoin.Ends (Init CACHE_LINE_ALIGNED data) (Next CACHE_LINE_ALIGNED data iteration) Done
      (fun s => Counting.total (weight iteration) s.thread) (work iteration) where
  init_le := by
    rintro s ⟨-, hthread⟩
    have hall : s.thread = fun _ => .loop (.outer 0) := funext hthread
    rw [hall, Counting.total_const]
    exact le_rfl
  less := by
    intro tr s k a s' h hs
    rw [Next, start_eq] at hs
    obtain ⟨r, hrun, hrel⟩ := alone_of_run hplaced h (member k)
    obtain ⟨i, j, hat, -⟩ := NestedLoops.inv_of_run hrun
    obtain ⟨pc, hthread, hlt⟩ := weight_lt hrel ⟨i, j, hat⟩ (count_cases hs)
    have htotal := Counting.total_update (weight iteration) s.thread (member k) pc
    rw [hthread]
    omega
  stays := by
    intro s k a s' l hs hdone
    rw [Next, start_eq] at hs
    rcases eq_or_ne (member l) (member k) with heq | hne
    · -- a thread that has returned takes no step
      rw [Done, heq] at hdone
      simp [count, hdone] at hs
    · rcases count_cases hs with - | - | - | - | -
      all_goals exact (Function.update_of_ne hne ..).trans hdone
  rest := by
    intro tr s _ hstuck k
    by_contra hlive
    obtain ⟨a, s', hs⟩ := exists_count CACHE_LINE_ALIGNED data iteration hlive
    exact hstuck k a s' (by rw [Next, start_eq]; exact hs)

/-- **What is expected of the program**, of a run and the state it leads to. -/
structure Counts (CACHE_LINE_ALIGNED : Bool) (data : Address) (iteration : Int32)
    (tr : List (Option Action)) (s : ForkJoin.State State) : Prop where
  /-- Each thread runs as it would alone. -/
  alone : ∀ m, ∃ r,
    (NestedLoops.system iteration plusOne 0).Run ((tr.filterMap id).filterMap (shows m)) r ∧
      s.obj.memory.load (address CACHE_LINE_ALIGNED data m) 32 = r.obj
  /-- No increment is lost. -/
  value : ∀ m, s.obj.memory.load (address CACHE_LINE_ALIGNED data m) 32 =
    BitVec.ofNat 32 (increments m (tr.filterMap id))
  /-- The program comes to its end, whatever the schedule. -/
  length_le : tr.length ≤ 7 + work iteration
  returned : (∀ a s', ¬(system CACHE_LINE_ALIGNED data iteration).Step s a s') → s.Returned 3
  /-- In the end, every member has been incremented in every round of its loops. -/
  total : s.Returned 3 → ∀ m, s.obj.memory.load (address CACHE_LINE_ALIGNED data m) 32 =
    BitVec.ofNat 32 (NestedLoops.bound iteration * NestedLoops.bound iteration)

/-- **`CACHE_LINE_ALIGNED` separates the cache lines, and changes nothing else**: with it and
without it, and wherever `data` stands, the program does what is expected; but some two threads
write to a common cache line exactly without it. -/
theorem alignment_separates_lines_only (hplaced : Placed CACHE_LINE_ALIGNED data)
    {tr : List (Option Action)} {s : ForkJoin.State State}
    (h : (system CACHE_LINE_ALIGNED data iteration).Run tr s) :
    Counts CACHE_LINE_ALIGNED data iteration tr s ∧
      ((∃ m n, m ≠ n ∧ Shares CACHE_LINE_ALIGNED data m n) ↔ CACHE_LINE_ALIGNED = false) := by
  have hends := ends hplaced iteration
  have hthreads := ForkJoin.threads_of_run h
  refine ⟨⟨fun m => ?_, value_of_run hplaced hthreads, hends.length_le h, hends.returned h,
    fun hreturned m => ?_⟩, exists_shares_iff hplaced⟩
  · obtain ⟨r, hrun, hrel⟩ := alone_of_run hplaced hthreads m
    exact ⟨r, hrun, hrel.value⟩
  · obtain ⟨k, rfl⟩ : ∃ k, member k = m := by
      cases m with
      | d1 => exact ⟨0, rfl⟩
      | d2 => exact ⟨1, rfl⟩
      | d3 => exact ⟨2, rfl⟩
    have hdone := hends.done h hreturned k
    rw [value_of_run hplaced hthreads, increments_of_done hplaced hthreads hdone]

/-- Without the macro the program leaves a hundred millions in every member as well, and some two
members are on one line. -/
theorem alignment_separates_lines_only_unaligned :
    ∃ tr s, (system false 0 ITERATION).Run tr s ∧ s.Returned 3 ∧
      (∀ m, s.obj.memory.load (address false 0 m) 32 = 100000000) ∧
      ∃ m n, m ≠ n ∧ Shares false 0 m n := by
  have hplaced : Placed false 0 := ⟨by decide, by decide⟩
  have hzero : ∀ m, ByteMemory.load (fun _ => 0) (address false 0 m) 32 = 0 := by
    intro m
    refine BitVec.eq_of_getLsbD_eq fun i hi => ?_
    rw [ByteMemory.getLsbD_load _ _ hi]
    simp
  have hstart : (system false 0 ITERATION).Run []
      ⟨⟨fun _ => 0, fun _ => .loop (.outer 0)⟩, .create 0⟩ := .start ⟨⟨hzero, fun _ => rfl⟩, rfl⟩
  obtain ⟨tr, s, hsteps, hreturned⟩ := (ends hplaced ITERATION).exists_returned hstart
  have h := hstart.append hsteps
  obtain ⟨hcounts, hshares⟩ := alignment_separates_lines_only hplaced h
  refine ⟨_, s, h, hreturned, fun m => ?_, hshares.mpr rfl⟩
  rw [hcounts.total hreturned m]
  decide

end FalseSharing

end LowLatency
