import Mathlib.Order.Basic
import Mathlib.Tactic.Common
import RaftStore.Lib.Transition

namespace RaftStore

/-!
# Runs as sequences of states

`Reach` says where a run leads; some statements are about all states of one run together.  A
*trace* is a run given by its states, with idle steps allowed, so that a finite run is a trace
whose last state repeats.

* `IsTrace.reach` — later states of a trace are reached from the earlier ones.
* `Reach.exists_trace` — every reachable state lies on a trace.
* `IsTrace.simulation` — a forward simulation carries a whole trace to an abstract run.
-/

open Relation (ReflTransGen)

variable {σ α τ : Type*} {step : σ → α → Option σ} {ok : σ → α → Prop}

/-- The states of a run, each the one before or a step after it. -/
def IsTrace (step : σ → α → Option σ) (ok : σ → α → Prop) (run : ℕ → σ) : Prop :=
  ∀ k, run (k + 1) = run k ∨ ∃ a, ok (run k) a ∧ step (run k) a = some (run (k + 1))

/-- Each state of a trace leads to the later ones. -/
theorem IsTrace.reach {run : ℕ → σ} (h : IsTrace step ok run) {j k : ℕ} (hjk : j ≤ k) :
    Reach step ok (run j) (run k) := by
  induction hjk with
  | refl => exact .refl
  | @step k _ ih =>
    rcases h k with heq | ⟨a, hok, hs⟩
    · rwa [heq]
    · exact ih.tail hok hs

/-- Every reachable state lies on a trace from the start. -/
theorem Reach.exists_trace {s₀ s : σ} (h : Reach step ok s₀ s) :
    ∃ (run : ℕ → σ) (N : ℕ), IsTrace step ok run ∧ run 0 = s₀ ∧ ∀ k, N ≤ k → run k = s := by
  induction h with
  | refl => exact ⟨fun _ => s₀, 0, fun _ => Or.inl rfl, rfl, fun _ _ => rfl⟩
  | @tail s s' a _ hok hs ih =>
    obtain ⟨run, N, hrun, hzero, hlast⟩ := ih
    refine ⟨fun k => if k ≤ N then run k else s', N + 1, fun k => ?_, hzero, fun k hk => ?_⟩
    · show (if k + 1 ≤ N then run (k + 1) else s') = (if k ≤ N then run k else s') ∨ ∃ b,
        ok (if k ≤ N then run k else s') b ∧
          step (if k ≤ N then run k else s') b = some (if k + 1 ≤ N then run (k + 1) else s')
      rcases Nat.lt_trichotomy k N with hlt | rfl | hgt
      · rw [if_pos (Nat.le_of_lt hlt), if_pos (Nat.succ_le_of_lt hlt)]
        exact hrun k
      · right
        rw [if_pos (Nat.le_refl k), if_neg (Nat.not_succ_le_self k), hlast k (Nat.le_refl k)]
        exact ⟨a, hok, hs⟩
      · left
        rw [if_neg (Nat.not_le_of_lt hgt), if_neg (Nat.not_le_of_lt (Nat.lt_succ_of_lt hgt))]
    · exact if_neg (Nat.not_le_of_lt hk)

/-- **Simulation rule.**  When every guarded step is matched by abstract steps that restore `R`,
    the states of a trace are related to those of an abstract run. -/
theorem IsTrace.simulation {R : σ → τ → Prop} {next : τ → τ → Prop} {run : ℕ → σ} {t₀ : τ}
    (h : IsTrace step ok run) (h₀ : R (run 0) t₀)
    (hstep : ∀ s a s' t, Reach step ok (run 0) s → ReflTransGen next t₀ t → R s t →
      ok s a → step s a = some s' → ∃ t', ReflTransGen next t t' ∧ R s' t') :
    ∃ abs : ℕ → τ, abs 0 = t₀ ∧ ∀ k, ReflTransGen next t₀ (abs k) ∧ R (run k) (abs k) ∧
      ReflTransGen next (abs k) (abs (k + 1)) := by
  have hone : ∀ (k : ℕ) (t : {t // ReflTransGen next t₀ t ∧ R (run k) t}),
      ∃ t' : {t // ReflTransGen next t₀ t ∧ R (run (k + 1)) t}, ReflTransGen next t.1 t'.1 := by
    rintro k ⟨t, ht, hR⟩
    rcases h k with heq | ⟨a, hok, hs⟩
    · exact ⟨⟨t, ht, heq ▸ hR⟩, .refl⟩
    · obtain ⟨t', ht', hR'⟩ := hstep _ a _ t (h.reach (Nat.zero_le k)) ht hR hok hs
      exact ⟨⟨t', ht.trans ht', hR'⟩, ht'⟩
  choose pick hpick using hone
  -- the abstract state of each round is picked from that of the round before
  let abs : (k : ℕ) → {t // ReflTransGen next t₀ t ∧ R (run k) t} :=
    fun k => Nat.rec ⟨t₀, .refl, h₀⟩ pick k
  exact ⟨fun k => (abs k).1, rfl, fun k => ⟨(abs k).2.1, (abs k).2.2, hpick k (abs k)⟩⟩

end RaftStore
