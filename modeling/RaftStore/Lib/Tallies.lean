import Mathlib.Algebra.Group.Nat.Defs
import Mathlib.Tactic.Common

namespace RaftStore

/-!
# Tallies

The sum of a weight over a list, for lists from which elements are taken, to which they are added,
and in which one is replaced.  Nothing here names a repository.

* `tally` — the sum.
* `tally_eraseP`, `tally_eraseIdx`, `tally_set` — one element is taken out or replaced.
* `exists_of_tally_pos`, `index_unique` — where the weight is.
-/

variable {α : Type*} {g : α → ℕ} {l l' : List α} {a b : α} {i j : ℕ}

/-- The sum of a weight over a list. -/
def tally (g : α → ℕ) : List α → ℕ
  | [] => 0
  | a :: l => g a + tally g l

/-- Nothing weighs nothing. -/
@[simp] theorem tally_nil (g : α → ℕ) : tally g [] = 0 := rfl

/-- The first element and the rest. -/
@[simp] theorem tally_cons (g : α → ℕ) (a : α) (l : List α) : tally g (a :: l) = g a + tally g l :=
  rfl

/-- Of two lists the sum is the sum of both. -/
@[simp] theorem tally_append (g : α → ℕ) (l l' : List α) :
    tally g (l ++ l') = tally g l + tally g l' := by
  induction l with
  | nil => rw [List.nil_append, tally_nil, Nat.zero_add]
  | cons a l ih => rw [List.cons_append, tally_cons, tally_cons, ih, Nat.add_assoc]

/-- The weight of an image, taken before. -/
@[simp] theorem tally_map {β : Type*} (g : β → ℕ) (f : α → β) (l : List α) :
    tally g (l.map f) = tally (fun a => g (f a)) l := by
  induction l with
  | nil => rfl
  | cons a l ih => rw [List.map_cons, tally_cons, tally_cons, ih]

/-- Elements without weight weigh nothing. -/
theorem tally_replicate (ha : g a = 0) (n : ℕ) : tally g (List.replicate n a) = 0 := by
  induction n with
  | zero => rfl
  | succ n ih => rw [List.replicate_succ, tally_cons, ha, ih]

/-- A list that is cut in two keeps its weight. -/
theorem tally_take_add_drop (g : α → ℕ) (n : ℕ) (l : List α) :
    tally g (l.take n) + tally g (l.drop n) = tally g l := by
  rw [← tally_append, List.take_append_drop]

/-- The first element that satisfies `p` is taken out. -/
theorem tally_eraseP {p : α → Bool} (h : l.find? p = some a) :
    tally g (l.eraseP p) + g a = tally g l := by
  induction l with
  | nil => cases h
  | cons x l ih =>
    rw [List.find?_cons] at h
    cases hx : p x with
    | true =>
      rw [hx] at h
      obtain rfl := Option.some.inj h
      rw [List.eraseP_cons_of_pos hx, tally_cons, Nat.add_comm]
    | false =>
      rw [hx] at h
      rw [List.eraseP_cons_of_neg (by simp [hx]), tally_cons, tally_cons, ← ih h]
      omega

/-- An element without weight can be erased. -/
theorem tally_erase [DecidableEq α] (ha : g a = 0) (l : List α) :
    tally g (l.erase a) = tally g l := by
  induction l with
  | nil => rfl
  | cons x l ih =>
    by_cases hx : x = a
    · rw [hx, List.erase_cons_head, tally_cons, ha, Nat.zero_add]
    · rw [List.erase_cons_tail (by simp [hx]), tally_cons, tally_cons, ih]

/-- The element at a position, and the others. -/
theorem tally_eraseIdx (h : l[i]? = some a) : tally g l = g a + tally g (l.eraseIdx i) := by
  induction l generalizing i with
  | nil => cases h
  | cons x l ih =>
    cases i with
    | zero =>
      obtain rfl := Option.some.inj h
      rw [List.eraseIdx_cons_zero, tally_cons]
    | succ i =>
      rw [List.eraseIdx_cons_succ, tally_cons, tally_cons, ih (i := i) h]
      omega

/-- The list with one element set: the new one, and all others. -/
theorem tally_set (h : l[i]? = some a) (b : α) :
    tally g (l.set i b) = g b + tally g (l.eraseIdx i) := by
  have hlt := (List.getElem?_eq_some_iff.mp h).1
  rw [tally_eraseIdx (List.getElem?_set_self hlt), List.eraseIdx_set_eq]

/-- A larger weight has a larger sum. -/
theorem tally_mono {g' : α → ℕ} (h : ∀ a, g a ≤ g' a) (l : List α) : tally g l ≤ tally g' l := by
  induction l with
  | nil => exact Nat.le_refl 0
  | cons x l ih =>
    rw [tally_cons, tally_cons]
    exact Nat.add_le_add (h x) ih

/-- An element weighs at most as much as the list. -/
theorem le_tally (h : l[i]? = some a) : g a ≤ tally g l := by
  induction l generalizing i with
  | nil => cases h
  | cons x l ih =>
    rw [tally_cons]
    cases i with
    | zero =>
      obtain rfl := Option.some.inj h
      omega
    | succ i => exact Nat.le_trans (ih (i := i) h) (Nat.le_add_left _ _)

/-- Only the weights of the elements matter. -/
theorem tally_congr {w : α → ℕ} (h : ∀ a ∈ l, w a = g a) : tally w l = tally g l := by
  induction l with
  | nil => rfl
  | cons x l ih =>
    obtain ⟨hx, hl⟩ := List.forall_mem_cons.mp h
    rw [tally_cons, tally_cons, hx, ih hl]

/-- A weight that grows at one key only, and there by at most 1. -/
theorem tally_le_succ {β : Type*} {key : α → β} {b : β} {w : α → ℕ} (hkeys : (l.map key).Nodup)
    (hsame : ∀ a ∈ l, key a ≠ b → w a = g a) (hle : ∀ a ∈ l, w a ≤ g a + 1) :
    tally w l ≤ tally g l + 1 := by
  induction l with
  | nil => exact Nat.zero_le _
  | cons x l ih =>
    rw [List.map_cons, List.nodup_cons] at hkeys
    obtain ⟨hx, hl⟩ := List.forall_mem_cons.mp hle
    obtain ⟨hkx, hkl⟩ := List.forall_mem_cons.mp hsame
    rw [tally_cons, tally_cons]
    by_cases hkey : key x = b
    · -- the other elements have other keys
      have hrest : tally w l = tally g l := by
        refine tally_congr fun a ha => hkl a ha fun heq => hkeys.1 ?_
        rw [hkey, ← heq]
        exact List.mem_map_of_mem ha
      omega
    · have hrest := ih hkeys.2 hkl hl
      have hsame := hkx hkey
      omega

/-- A positive tally comes from somewhere. -/
theorem exists_of_tally_pos (h : 0 < tally g l) : ∃ (i : ℕ) (a : α), l[i]? = some a ∧ 0 < g a := by
  induction l with
  | nil => cases h
  | cons x l ih =>
    by_cases hx : 0 < g x
    · exact ⟨0, x, rfl, hx⟩
    · rw [tally_cons] at h
      obtain ⟨i, a, ha, hpos⟩ := ih (by omega)
      exact ⟨i + 1, a, ha, hpos⟩

/-- If the tally is 1 at most, one position has the weight. -/
theorem index_unique (hl : tally g l ≤ 1) (hi : l[i]? = some a) (hj : l[j]? = some b)
    (ha : 0 < g a) (hb : 0 < g b) : i = j := by
  induction l generalizing i j with
  | nil => cases hi
  | cons x l ih =>
    rw [tally_cons] at hl
    cases i with
    | zero =>
      cases j with
      | zero => rfl
      | succ j =>
        obtain rfl := Option.some.inj hi
        have hle := le_tally (g := g) (l := l) (i := j) hj
        omega
    | succ i =>
      cases j with
      | zero =>
        obtain rfl := Option.some.inj hj
        have hle := le_tally (g := g) (l := l) (i := i) hi
        omega
      | succ j => rw [ih (i := i) (j := j) (by omega) hi hj]

end RaftStore
