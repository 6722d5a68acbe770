import RaftStore.Lib.Ensures

namespace RaftStore

/-!
# Runs of steps that may fail

A system is a function `step : σ → α → Except ε σ`, and a step that ends with an exception is the
last one of its run.  A run is recorded as the list of steps that were attempted, each with the
state before it, and what the last of them led to.

* `Attempts begins admissible step` — the runs.
* `Attempts.invariant` — what holds throughout a run all of whose steps meet a condition.
* `Attempts.forall_iff` — two properties of steps that agree as long as one of them holds.
* `Attempts.exists_foldlM` — a run from the actions it takes.
-/

universe u v w

variable {ε : Type u} {σ : Type v} {α : Type w}

/-- A step that was attempted. -/
structure Attempt (σ : Type v) (α : Type w) where
  before : σ
  action : α

/-- The runs, with the steps attempted and what the last of them led to. -/
inductive Attempts (begins : Except ε σ → Prop) (admissible : σ → α → Prop)
    (step : σ → α → Except ε σ) : List (Attempt σ α) → Except ε σ → Prop
  | start {result : Except ε σ} (h : begins result) : Attempts begins admissible step [] result
  | step {attempts : List (Attempt σ α)} {s : σ} {a : α}
      (h : Attempts begins admissible step attempts (.ok s)) (ha : admissible s a) :
      Attempts begins admissible step (attempts ++ [⟨s, a⟩]) (step s a)

namespace Attempts

variable {begins : Except ε σ → Prop} {admissible : σ → α → Prop} {step : σ → α → Except ε σ}
  {attempts : List (Attempt σ α)} {result : Except ε σ} {P : σ → Prop} {C Q : Attempt σ α → Prop}

/-- **Invariant rule.**  What holds at the start and is kept by every step that meets `C` holds
    throughout a run whose steps meet `C`. -/
theorem invariant (hbegins : ∀ s, begins (.ok s) → P s)
    (hstep : ∀ s a s', P s → admissible s a → C ⟨s, a⟩ → step s a = .ok s' → P s')
    (h : Attempts begins admissible step attempts result) (hC : ∀ x ∈ attempts, C x) :
    (∀ s, result = .ok s → P s) ∧ ∀ x ∈ attempts, P x.before ∧ admissible x.before x.action := by
  induction h with
  | start h =>
    refine ⟨fun s hs => hbegins s ?_, by simp⟩
    rwa [← hs]
  | @step attempts s a h ha ih =>
    obtain ⟨hinit, hlast⟩ := List.forall_mem_append.mp hC
    obtain ⟨hs, hattempts⟩ := ih hinit
    have hP : P s := hs s rfl
    refine ⟨fun s' hs' => hstep s a s' hP ha (hlast _ (List.mem_singleton_self _)) hs', ?_⟩
    rw [List.forall_mem_append, List.forall_mem_singleton]
    exact ⟨hattempts, hP, ha⟩

/-- If `C` keeps an invariant, and under the invariant a step has `Q` exactly if it meets `C`, then
    all steps of a run have `Q` exactly if all meet `C`. -/
theorem forall_iff (hbegins : ∀ s, begins (.ok s) → P s)
    (hstep : ∀ s a s', P s → admissible s a → C ⟨s, a⟩ → step s a = .ok s' → P s')
    (hiff : ∀ s a, P s → admissible s a → (Q ⟨s, a⟩ ↔ C ⟨s, a⟩))
    (h : Attempts begins admissible step attempts result) :
    (∀ x ∈ attempts, Q x) ↔ ∀ x ∈ attempts, C x := by
  induction h with
  | start => simp
  | @step attempts s a h ha ih =>
    rw [List.forall_mem_append, List.forall_mem_append, List.forall_mem_singleton,
      List.forall_mem_singleton, ih]
    refine and_congr_right fun hC => ?_
    exact hiff s a ((invariant hbegins hstep h hC).1 s rfl) ha

/-- A run goes on with actions that succeed. -/
theorem exists_foldlM {s s' : σ}
    (h : Attempts begins (fun _ _ => True) step attempts (.ok s)) (actions : List α)
    (hs' : actions.foldlM step s = .ok s') :
    ∃ attempts, Attempts begins (fun _ _ => True) step attempts (.ok s') := by
  induction actions generalizing attempts s with
  | nil =>
    obtain rfl := Except.ok.inj hs'
    exact ⟨attempts, h⟩
  | cons a actions ih =>
    rw [List.foldlM_cons] at hs'
    cases ha : step s a with
    | error fault =>
      rw [ha] at hs'
      cases hs'
    | ok next =>
      rw [ha] at hs'
      exact ih (ha ▸ Attempts.step h trivial) hs'

end Attempts

end RaftStore
