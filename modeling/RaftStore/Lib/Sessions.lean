import Mathlib.Data.List.Basic
import Mathlib.Order.Basic
import Mathlib.Tactic.Common

namespace RaftStore

/-!
# Numbered requests in a log

A log whose entries carry a client and a number.  A server that keeps, for each client, the
highest number it has run drops an entry exactly if something at least as new of that client
came before.

* `Covered` — the log has an entry of the client with at least the number.
* `Covered.mono`, `Covered.down` — it stays so in a longer log and for a smaller number.
* `covered_concat`, `covered_take_succ` — one more entry.
-/

variable {α κ ν : Type*} {client : α → κ} {number : α → ν} {log log' : List α} {c : κ} {r r' : ν}
  {e : α} {n m : ℕ}

section

variable [LE ν]

/-- The log has an entry of client `c` with number `r` or a higher one. -/
def Covered (client : α → κ) (number : α → ν) (log : List α) (c : κ) (r : ν) : Prop :=
  ∃ e ∈ log, client e = c ∧ r ≤ number e

/-- Nothing is covered by nothing. -/
theorem not_covered_nil : ¬ Covered client number [] c r := by
  rintro ⟨e, he, -⟩
  cases he

/-- What a part covers the whole covers. -/
theorem Covered.mono (h : Covered client number log c r) (hsub : log ⊆ log') :
    Covered client number log' c r := by
  obtain ⟨e, he, hc, hr⟩ := h
  exact ⟨e, hsub he, hc, hr⟩

/-- What one more request covers. -/
theorem covered_concat : Covered client number (log ++ [e]) c r ↔
    Covered client number log c r ∨ client e = c ∧ r ≤ number e := by
  constructor
  · rintro ⟨e', he', hc, hr⟩
    rcases List.mem_append.mp he' with he' | he'
    · exact Or.inl ⟨e', he', hc, hr⟩
    · obtain rfl := List.mem_singleton.mp he'
      exact Or.inr ⟨hc, hr⟩
  · rintro (h | ⟨hc, hr⟩)
    · exact h.mono fun x hx => List.mem_append_left _ hx
    · exact ⟨e, List.mem_append_right _ (List.mem_singleton_self e), hc, hr⟩

/-- The first `n + 1` entries. -/
theorem covered_take_succ (he : log[n]? = some e) :
    Covered client number (log.take (n + 1)) c r ↔
      Covered client number (log.take n) c r ∨ client e = c ∧ r ≤ number e := by
  rw [List.take_add_one, he, Option.toList_some, covered_concat]

/-- What is covered early is covered later. -/
theorem Covered.take_mono (h : Covered client number (log.take n) c r) (hle : n ≤ m) :
    Covered client number (log.take m) c r :=
  h.mono (List.take_subset_take_left log hle)

/-- What the first `n` entries cover and the first `m` do not. -/
theorem Covered.lt_of_not (h : Covered client number (log.take n) c r)
    (hnot : ¬ Covered client number (log.take m) c r) : m < n := by
  by_contra hle
  exact hnot (h.take_mono (Nat.le_of_not_lt hle))

/-- The entry that covers a number, with its place. -/
theorem Covered.exists_getElem? (h : Covered client number (log.take n) c r) :
    ∃ p < n, ∃ e, log[p]? = some e ∧ client e = c ∧ r ≤ number e := by
  obtain ⟨e, he, hc, hr⟩ := h
  obtain ⟨p, hp⟩ := List.mem_iff_getElem?.mp he
  rw [List.getElem?_take] at hp
  split at hp
  · exact ⟨p, ‹_›, e, hp, hc, hr⟩
  · cases hp

end

variable [Preorder ν]

/-- Lower numbers are covered too. -/
theorem Covered.down (h : Covered client number log c r) (hle : r' ≤ r) :
    Covered client number log c r' := by
  obtain ⟨e, he, hc, hr⟩ := h
  exact ⟨e, he, hc, hle.trans hr⟩

/-- The first `n` entries cover every entry among them. -/
theorem covered_of_lt (he : log[m]? = some e) (hlt : m < n) :
    Covered client number (log.take n) (client e) (number e) := by
  refine ⟨e, List.mem_of_getElem? (i := m) ?_, rfl, le_rfl⟩
  rw [List.getElem?_take, if_pos hlt, he]

end RaftStore
