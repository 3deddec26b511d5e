import LowLatency.Foundations.Rest
import LowLatency.Foundations.Simulation
import Mathlib.Algebra.Order.Ring.Nat

/-!
# Fork and join

A `main` that creates `n` threads in a loop and then joins them in a second one. The threads take
their steps on a common state, each from its creation on, and `main` waits at a join until the
thread is done.

What is known of the threads by themselves (`ForkJoin.threads`) is known of the whole: a run of
the whole is one of the threads (`ForkJoin.threads_of_run`). If each of their steps decreases a
number, and they are all done when none of them can go on, then the whole comes to its end under
every schedule (`ForkJoin.Ends.length_le`, `ForkJoin.Ends.returned`), and then all threads are done
(`ForkJoin.Ends.done`).
-/

namespace ForkJoin

/-- Where `main` stands. -/
inductive Main where
  /-- At the test of the loop that creates the threads. -/
  | create (k : ℕ) : Main
  /-- At the join of a thread, or behind the last one. -/
  | join (k : ℕ) : Main

/-- The state of the threads, and `main`. -/
structure State (σ : Type*) where
  obj : σ
  main : Main

/-- The number of threads that have been created. -/
def Main.created (n : ℕ) : Main → ℕ
  | .create k => k
  | .join _ => n

/-- The steps that `main` has still to make. -/
def Main.left (n : ℕ) : Main → ℕ
  | .create k => (n - k) + 1 + n
  | .join k => n - k

variable {σ α : Type*} {n : ℕ}

/-- **The threads by themselves.** -/
def threads (Init : σ → Prop) (Next : Fin n → σ → α → σ → Prop) : TransitionSystem σ α where
  Init := Init
  Step o a o' := ∃ t, Next t o a o'

/-- The steps of the threads that have been created, and of `main`. -/
inductive Step (Next : Fin n → σ → α → σ → Prop) (Done : Fin n → σ → Prop) :
    State σ → Option α → State σ → Prop
  | thread {s : State σ} (t : Fin n) (a : α) (o : σ) : t.val < s.main.created n →
      Next t s.obj a o → Step Next Done s (some a) { s with obj := o }
  | create {s : State σ} (k : ℕ) : s.main = .create k → k < n →
      Step Next Done s none { s with main := .create (k + 1) }
  | created {s : State σ} : s.main = .create n →
      Step Next Done s none { s with main := .join 0 }
  | join {s : State σ} (t : Fin n) : s.main = .join t.val → Done t s.obj →
      Step Next Done s none { s with main := .join (t.val + 1) }

/-- **The threads, and the `main` that creates and joins them.** -/
def system (Init : σ → Prop) (Next : Fin n → σ → α → σ → Prop) (Done : Fin n → σ → Prop) :
    TransitionSystem (State σ) (Option α) where
  Init s := Init s.obj ∧ s.main = .create 0
  Step := Step Next Done

/-- `main` is behind the last join. -/
def State.Returned (n : ℕ) (s : State σ) : Prop := s.main = .join n

variable {Init : σ → Prop} {Next : Fin n → σ → α → σ → Prop} {Done : Fin n → σ → Prop}
  {μ : σ → ℕ} {B : ℕ} {s s' : State σ} {a : Option α} {tr : List (Option α)}

/-- **A run of the whole is a run of the threads.** -/
theorem threads_of_run (h : (system Init Next Done).Run tr s) :
    (threads Init Next).Run (tr.filterMap id) s.obj := by
  obtain ⟨o, hrun, rfl⟩ : ∃ o, (threads Init Next).Run (tr.filterMap id) o ∧ s.obj = o := by
    refine h.simulate id (fun s o => s.obj = o) ?_ ?_
    · rintro s ⟨hinit, -⟩
      exact ⟨s.obj, hinit, rfl⟩
    · rintro s a s' o rfl hs
      cases hs with
      | thread t a o ht hs => exact .inr ⟨a, o, rfl, ⟨t, hs⟩, rfl⟩
      | create | created | join => exact .inl ⟨rfl, rfl⟩
  exact hrun

/-- **Threads that come to an end**, within `B` steps. -/
structure Ends (Init : σ → Prop) (Next : Fin n → σ → α → σ → Prop) (Done : Fin n → σ → Prop)
    (μ : σ → ℕ) (B : ℕ) : Prop where
  init_le : ∀ o, Init o → μ o ≤ B
  less : ∀ tr o t a o', (threads Init Next).Run tr o → Next t o a o' → μ o' < μ o
  stays : ∀ o t a o' u, Next t o a o' → Done u o → Done u o'
  rest : ∀ tr o, (threads Init Next).Run tr o → (∀ t a o', ¬Next t o a o') → ∀ t, Done t o

/-- **Every step of the whole** makes less of what is left. -/
theorem Ends.left_lt (hends : Ends Init Next Done μ B) (h : (system Init Next Done).Run tr s)
    (hs : Step Next Done s a s') : s'.main.left n + μ s'.obj < s.main.left n + μ s.obj := by
  cases hs with
  | thread t a o ht hs =>
    have hlt := hends.less _ _ t a o (threads_of_run h) hs
    dsimp only
    omega
  | create k hmain hk =>
    simp only [hmain, Main.left]
    omega
  | created hmain =>
    simp only [hmain, Main.left]
    omega
  | join t hmain hdone =>
    have ht := t.isLt
    simp only [hmain, Main.left]
    omega

/-- **The whole takes no more steps** than the threads and `main` have to make. -/
theorem Ends.length_le (hends : Ends Init Next Done μ B) (h : (system Init Next Done).Run tr s) :
    tr.length ≤ 2 * n + 1 + B := by
  have hleft : tr.length + (s.main.left n + μ s.obj) ≤ 2 * n + 1 + B := by
    refine h.invariant (I := fun tr s => tr.length + (s.main.left n + μ s.obj) ≤ 2 * n + 1 + B)
      ?_ ?_
    · rintro s ⟨hinit, hmain⟩
      have hle := hends.init_le _ hinit
      simp only [hmain, Main.left, List.length_nil]
      omega
    · intro tr s a s' hrun ih hs
      have hlt := hends.left_lt hrun hs
      rw [List.length_append, List.length_singleton]
      omega
  exact (Nat.le_add_right ..).trans hleft

/-- Where `main` stands, and for whom it has waited. -/
structure MainInv (n : ℕ) (Done : Fin n → σ → Prop) (s : State σ) : Prop where
  create : ∀ k, s.main = .create k → k ≤ n
  join : ∀ k, s.main = .join k → k ≤ n ∧ ∀ t : Fin n, t.val < k → Done t s.obj

theorem Ends.mainInv_of_run (hends : Ends Init Next Done μ B)
    (h : (system Init Next Done).Run tr s) : MainInv n Done s := by
  refine h.invariant (I := fun _ s => MainInv n Done s) ?_ ?_
  · rintro s ⟨-, hmain⟩
    refine ⟨fun k hk => ?_, fun k hk => ?_⟩
    · rw [hmain] at hk
      cases hk
      exact Nat.zero_le n
    · rw [hmain] at hk
      cases hk
  · intro tr s a s' hrun ih hs
    cases hs with
    | thread t a o ht hs =>
      refine ⟨ih.create, fun k hk => ?_⟩
      obtain ⟨hle, hdone⟩ := ih.join k hk
      exact ⟨hle, fun u hu => hends.stays _ t a o u hs (hdone u hu)⟩
    | create k hmain hk =>
      refine ⟨?_, nofun⟩
      rintro _ ⟨⟩
      exact hk
    | created hmain =>
      refine ⟨nofun, ?_⟩
      rintro _ ⟨⟩
      exact ⟨Nat.zero_le n, fun t ht => absurd ht (Nat.not_lt_zero _)⟩
    | join t hmain hdone =>
      refine ⟨nofun, ?_⟩
      rintro _ ⟨⟩
      refine ⟨t.isLt, fun u hu => ?_⟩
      rcases Nat.lt_succ_iff_lt_or_eq.mp hu with hlt | heq
      · exact (ih.join _ hmain).2 u hlt
      · obtain rfl := Fin.ext heq
        exact hdone

/-- **When `main` has returned**, all threads are done. -/
theorem Ends.done (hends : Ends Init Next Done μ B) (h : (system Init Next Done).Run tr s)
    (hreturned : s.Returned n) (t : Fin n) : Done t s.obj :=
  ((hends.mainInv_of_run h).join n hreturned).2 t t.isLt

/-- **A run that cannot go on** is over. -/
theorem Ends.returned (hends : Ends Init Next Done μ B) (h : (system Init Next Done).Run tr s)
    (hstuck : ∀ a s', ¬Step Next Done s a s') : s.Returned n := by
  have hinv := hends.mainInv_of_run h
  cases hmain : s.main with
  | create k =>
    rcases (hinv.create k hmain).lt_or_eq with hlt | rfl
    · exact absurd (.create k hmain hlt) (hstuck _ _)
    · exact absurd (.created hmain) (hstuck _ _)
  | join k =>
    -- all threads have been created, and none of them can go on
    have hdone : ∀ t, Done t s.obj := by
      refine hends.rest _ _ (threads_of_run h) fun t a o hs => ?_
      refine hstuck _ _ (.thread t a o ?_ hs)
      rw [hmain]
      exact t.isLt
    rcases (hinv.join k hmain).1.lt_or_eq with hlt | rfl
    · exact absurd (.join ⟨k, hlt⟩ hmain (hdone _)) (hstuck _ _)
    · exact hmain

/-- **The whole can come to its end**, whatever has happened so far. -/
theorem Ends.exists_returned (hends : Ends Init Next Done μ B)
    (h : (system Init Next Done).Run tr s) :
    ∃ tr' s', (system Init Next Done).Steps s tr' s' ∧ s'.Returned n := by
  obtain ⟨tr', s', hsteps, -, ⟨tr₁, hrun⟩, hrest⟩ := TransitionSystem.exists_rest
    (M := system Init Next Done) (A := fun _ => True)
    (P := fun s => ∃ tr, (system Init Next Done).Run tr s)
    (μ := fun s => s.main.left n + μ s.obj) (fun s a s' _ ⟨tr, hrun⟩ hs => ⟨_, hrun.snoc hs⟩)
    (fun s a s' _ ⟨tr, hrun⟩ hs => hends.left_lt hrun hs) ⟨tr, h⟩
  exact ⟨tr', s', hsteps, hends.returned hrun fun a s'' => hrest a s'' trivial⟩

end ForkJoin
