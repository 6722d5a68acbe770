import Mathlib.Logic.Relation

namespace RaftStore

/-!
# Transition systems given by a partial step function

A system is a function `step : σ → α → Option σ`; `step s a = none` says that the action `a`
is not enabled in `s`.  A guard `ok : σ → α → Prop` restricts which actions a run may take,
so that "in every run whose steps all meet a condition" is one more transition system.

* `Reach step ok s₀ s` — some run of guarded steps leads from `s₀` to `s`.
* `runFrom step ok s₀ as` — the executable run; `Reach.of_runFrom` turns its result into a
  reachable state.
* `Reach.invariant` — the induction rule every invariant of the development goes through.
* `Reach.exists_of_measure` — a run that lowers a measure ends in a final state.
* `Reach.simulation` — a forward simulation carries reachability to an abstract relation.
-/

variable {σ α τ : Type*} {step : σ → α → Option σ} {ok : σ → α → Prop} {s₀ : σ}

/-- States reached from `s₀` by steps that meet the guard `ok`. -/
inductive Reach (step : σ → α → Option σ) (ok : σ → α → Prop) (s₀ : σ) : σ → Prop
  | refl : Reach step ok s₀ s₀
  | tail {s s' : σ} {a : α} : Reach step ok s₀ s → ok s a → step s a = some s' →
      Reach step ok s₀ s'

/-- The guard that every step meets. -/
def anyStep (_ : σ) (_ : α) : Prop := True

instance (s : σ) (a : α) : Decidable (anyStep s a) := inferInstanceAs (Decidable True)

/-- Run the actions in order; `none` as soon as one is not enabled or fails the guard. -/
def runFrom (step : σ → α → Option σ) (ok : σ → α → Prop) [∀ s a, Decidable (ok s a)]
    (s : σ) : List α → Option σ
  | [] => some s
  | a :: as =>
    if ok s a then
      match step s a with
      | some s' => runFrom step ok s' as
      | none => none
    else none

/-- Runs compose. -/
theorem Reach.trans {s s' : σ} (h : Reach step ok s₀ s) (h' : Reach step ok s s') :
    Reach step ok s₀ s' := by
  induction h' with
  | refl => exact h
  | tail _ hok hs ih => exact ih.tail hok hs

/-- The state an executable run ends in is reachable. -/
theorem Reach.of_runFrom [∀ s a, Decidable (ok s a)] {as : List α} {s s' : σ}
    (h : runFrom step ok s as = some s') : Reach step ok s s' := by
  induction as generalizing s with
  | nil =>
    rw [runFrom, Option.some.injEq] at h
    subst h
    exact .refl
  | cons a as ih =>
    rw [runFrom] at h
    by_cases hok : ok s a
    · rw [if_pos hok] at h
      cases hs : step s a with
      | none => rw [hs] at h; cases h
      | some t =>
        rw [hs] at h
        exact (Reach.refl.tail hok hs).trans (ih h)
    · rw [if_neg hok] at h
      cases h

/-- What an executable run shows of its last state holds in a reachable state. -/
theorem Reach.exists_of_runFrom {β : Type*} [∀ s a, Decidable (ok s a)] {f : σ → β} {as : List α}
    {s : σ} {b : β} (h : (runFrom step ok s as).map f = some b) :
    ∃ s', Reach step ok s s' ∧ f s' = b := by
  obtain ⟨s', hs', hb⟩ := Option.map_eq_some_iff.mp h
  exact ⟨s', .of_runFrom hs', hb⟩

/-- Loosening the guard keeps every run. -/
theorem Reach.mono {ok' : σ → α → Prop} (himp : ∀ s a, ok s a → ok' s a) {s : σ}
    (h : Reach step ok s₀ s) : Reach step ok' s₀ s := by
  induction h with
  | refl => exact .refl
  | tail _ hok hs ih => exact ih.tail (himp _ _ hok) hs

/-- A guarded run is in particular a run. -/
theorem Reach.any {s : σ} (h : Reach step ok s₀ s) : Reach step anyStep s₀ s :=
  h.mono fun _ _ _ => trivial

/-- **Invariant rule.**  What holds at the start and is kept by every guarded step from a
    reachable state holds in every reachable state. -/
theorem Reach.invariant {P : σ → Prop} (h₀ : P s₀)
    (hstep : ∀ s a s', Reach step ok s₀ s → P s → ok s a → step s a = some s' → P s')
    {s : σ} (h : Reach step ok s₀ s) : P s := by
  induction h with
  | refl => exact h₀
  | tail hr hok hs ih => exact hstep _ _ _ hr ih hok hs

/-- **Progress rule.**  When every state with `P` is final or has a step that keeps `P` and lowers
    the measure `m`, a final state is reached. -/
theorem Reach.exists_of_measure {P Q : σ → Prop} (m : σ → Nat)
    (hstep : ∀ s, P s → Q s ∨ ∃ a s', ok s a ∧ step s a = some s' ∧ P s' ∧ m s' < m s)
    {s : σ} (h : P s) : ∃ s', Reach step ok s s' ∧ P s' ∧ Q s' := by
  induction hm : m s using Nat.strongRecOn generalizing s with
  | ind k ih =>
    rcases hstep s h with hQ | ⟨a, s', hok, hs, hP, hlt⟩
    · exact ⟨s, .refl, h, hQ⟩
    · obtain ⟨t, ht, hPt, hQt⟩ := ih (m s') (hm ▸ hlt) hP rfl
      exact ⟨t, (Reach.refl.tail hok hs).trans ht, hPt, hQt⟩

/-- **Simulation rule.**  When every guarded step is matched by abstract steps that restore
    `R`, each reachable state is related to an abstract state reached from `t₀`. -/
theorem Reach.simulation {R : σ → τ → Prop} {next : τ → τ → Prop} {t₀ : τ} (h₀ : R s₀ t₀)
    (hstep : ∀ s a s' t, Reach step ok s₀ s → Relation.ReflTransGen next t₀ t → R s t →
      ok s a → step s a = some s' → ∃ t', Relation.ReflTransGen next t t' ∧ R s' t')
    {s : σ} (h : Reach step ok s₀ s) :
    ∃ t, Relation.ReflTransGen next t₀ t ∧ R s t := by
  induction h with
  | refl => exact ⟨t₀, .refl, h₀⟩
  | tail hr hok hs ih =>
    obtain ⟨t, ht, hR⟩ := ih
    obtain ⟨t', ht', hR'⟩ := hstep _ _ _ t hr ht hR hok hs
    exact ⟨t', ht.trans ht', hR'⟩

end RaftStore
