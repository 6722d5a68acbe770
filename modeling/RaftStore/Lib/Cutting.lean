import Mathlib.Data.List.DropRight

namespace RaftStore

/-!
# Cutting lists

What is left of a list when its ends are taken off, and the pieces of bounded length that a list is
cut into.  Nothing here names a repository.

* `strip` — without the elements at both ends that satisfy a predicate.
* `exists_strip`, `strip_eq` — a list as what is taken off and what is left.
* `separator_induction`, `mem_splitOn` — a list at the elements that separate its parts.
* `pieces` — pieces of `n` elements, and a last one of fewer.
* `find?_pieces` — what is found among the pieces of a list that is no longer than `n`.
-/

variable {α : Type*}

/-! ## Both ends -/

section strip

variable {p : α → Bool} {l a b : List α}

/-- The list without the elements at its ends that satisfy `p`. -/
def strip (p : α → Bool) (l : List α) : List α := (l.dropWhile p).rdropWhile p

/-- Neither the first nor the last element satisfies `p`. -/
def Tight (p : α → Bool) (l : List α) : Prop :=
  (∀ x ∈ l.head?, p x = false) ∧ ∀ x ∈ l.getLast?, p x = false

/-- What is dropped from the left can stand in front of anything. -/
theorem dropWhile_append_left (ha : ∀ x ∈ a, p x = true) :
    (a ++ l).dropWhile p = l.dropWhile p := by
  rw [List.dropWhile_append, List.dropWhile_eq_nil_iff.mpr ha]
  rfl

/-- What is dropped from the right can stand behind anything. -/
theorem rdropWhile_append_right (hb : ∀ x ∈ b, p x = true) :
    (l ++ b).rdropWhile p = l.rdropWhile p := by
  simp only [List.rdropWhile, List.reverse_append]
  rw [dropWhile_append_left (fun x hx => hb x (List.mem_reverse.mp hx))]

/-- Nothing is dropped if the first element stays. -/
theorem dropWhile_of_head (h : ∀ x ∈ l.head?, p x = false) : l.dropWhile p = l := by
  cases l with
  | nil => rfl
  | cons x l => simp [h x rfl]

/-- Nothing is dropped if the last element stays. -/
theorem rdropWhile_of_getLast (h : ∀ x ∈ l.getLast?, p x = false) : l.rdropWhile p = l := by
  rw [List.rdropWhile, dropWhile_of_head, List.reverse_reverse]
  rwa [List.head?_reverse]

/-- What is left between the two ends. -/
theorem strip_eq {m : List α} (ha : ∀ x ∈ a, p x = true) (hb : ∀ x ∈ b, p x = true)
    (hm : Tight p m) : strip p (a ++ (m ++ b)) = m := by
  rw [strip, dropWhile_append_left ha]
  cases m with
  | nil =>
    rw [List.nil_append, List.dropWhile_eq_nil_iff.mpr hb]
    rfl
  | cons x m =>
    have hhead : ∀ y ∈ ((x :: m) ++ b).head?, p y = false := hm.1
    rw [dropWhile_of_head hhead, rdropWhile_append_right hb, rdropWhile_of_getLast hm.2]

/-- A list is what is dropped from the left and what stays. -/
theorem exists_dropWhile (p : α → Bool) (l : List α) :
    ∃ a m, l = a ++ m ∧ (∀ x ∈ a, p x = true) ∧ ∀ x ∈ m.head?, p x = false := by
  refine ⟨l.takeWhile p, l.dropWhile p, List.takeWhile_append_dropWhile.symm,
    fun x hx => List.mem_takeWhile_imp hx, fun x hx => ?_⟩
  have hnot := List.head?_dropWhile_not p l
  rwa [Option.mem_def.mp hx] at hnot

/-- A list is what stays and what is dropped from the right. -/
theorem exists_rdropWhile (p : α → Bool) (l : List α) :
    ∃ m b, l = m ++ b ∧ (∀ x ∈ b, p x = true) ∧ ∀ x ∈ m.getLast?, p x = false := by
  obtain ⟨b, m, hl, hb, hm⟩ := exists_dropWhile p l.reverse
  refine ⟨m.reverse, b.reverse, ?_, fun x hx => hb x (List.mem_reverse.mp hx), ?_⟩
  · rw [← List.reverse_append, ← hl, List.reverse_reverse]
  · rwa [List.getLast?_reverse]

/-- A list as its two ends and what is left. -/
theorem exists_strip (p : α → Bool) (l : List α) :
    ∃ a b, l = a ++ (strip p l ++ b) ∧ (∀ x ∈ a, p x = true) ∧ (∀ x ∈ b, p x = true) ∧
      Tight p (strip p l) := by
  obtain ⟨a, l', hl, ha, hhead⟩ := exists_dropWhile p l
  obtain ⟨m, b, hl', hb, hlast⟩ := exists_rdropWhile p l'
  have hm : Tight p m := by
    refine ⟨fun x hx => hhead x ?_, hlast⟩
    rw [hl']
    cases m with
    | nil => cases hx
    | cons y m => exact hx
  have hstrip : strip p l = m := by
    rw [hl, hl']
    exact strip_eq ha hb hm
  exact ⟨a, b, by rw [hstrip, ← hl', ← hl], ha, hb, hstrip ▸ hm⟩

/-- What is stripped can stand in front. -/
theorem strip_append_left (ha : ∀ x ∈ a, p x = true) : strip p (a ++ l) = strip p l := by
  rw [strip, dropWhile_append_left ha, strip]

/-- What is stripped can stand behind. -/
theorem strip_append_right (hb : ∀ x ∈ b, p x = true) : strip p (l ++ b) = strip p l := by
  obtain ⟨a, c, hl, ha, hc, hm⟩ := exists_strip p l
  have happend : l ++ b = a ++ (strip p l ++ (c ++ b)) := by
    conv_lhs => rw [hl]
    simp
  rw [happend]
  exact strip_eq ha (List.forall_mem_append.mpr ⟨hc, hb⟩) hm

/-- Nothing is left iff everything is stripped. -/
theorem strip_eq_nil_iff : strip p l = [] ↔ ∀ x ∈ l, p x = true := by
  constructor
  · intro h
    obtain ⟨a, b, hl, ha, hb, -⟩ := exists_strip p l
    rw [h] at hl
    rw [hl]
    exact List.forall_mem_append.mpr ⟨ha, hb⟩
  · intro h
    rw [strip, List.dropWhile_eq_nil_iff.mpr h]
    rfl

end strip

/-! ## At a separator -/

/-- Every list is one without the separator, or starts with such a list and the separator. -/
theorem separator_induction [DecidableEq α] (sep : α) {motive : List α → Prop}
    (last : ∀ l, sep ∉ l → motive l)
    (cons : ∀ l rest, sep ∉ l → motive rest → motive (l ++ sep :: rest)) (l : List α) :
    motive l := by
  induction hlen : l.length using Nat.strong_induction_on generalizing l with
  | _ len ih =>
    by_cases hmem : sep ∈ l
    · obtain ⟨line, rest, rfl, hline⟩ := List.eq_append_cons_of_mem hmem
      refine cons line rest hline (ih rest.length ?_ rest rfl)
      simp only [List.length_append, List.length_cons] at hlen
      omega
    · exact last l hmem

/-- A line has no separator, and its elements are those of the text. -/
theorem mem_splitOn [DecidableEq α] {sep : α} {l line : List α} (h : line ∈ l.splitOn sep) :
    sep ∉ line ∧ ∀ x ∈ line, x ∈ l := by
  induction l using separator_induction sep with
  | last l hl =>
    rw [List.splitOn_eq_singleton hl] at h
    rw [List.mem_singleton.mp h]
    exact ⟨hl, fun x hx => hx⟩
  | cons l rest hl ih =>
    rw [List.splitOn_append_cons_self_of_not_mem hl] at h
    rcases List.mem_cons.mp h with rfl | h
    · exact ⟨hl, fun x hx => List.mem_append_left _ hx⟩
    · obtain ⟨hsep, hmem⟩ := ih h
      exact ⟨hsep, fun x hx => List.mem_append_right _ (List.mem_cons_of_mem _ (hmem x hx))⟩

/-! ## Pieces -/

section pieces

variable {n : ℕ} {l : List α}

/-- Pieces of `n` elements each, and a last one of fewer, which is marked. -/
def pieces (n : ℕ) (l : List α) : List (List α × Bool) :=
  if l.length < n ∨ n = 0 then [(l, true)] else (l.take n, false) :: pieces n (l.drop n)
termination_by l.length
decreasing_by
  rw [List.length_drop]
  omega

/-- A short list is one piece, the last. -/
theorem pieces_of_lt (h : l.length < n) : pieces n l = [(l, true)] := by
  rw [pieces, if_pos (.inl h)]

/-- A long list is a whole piece and the pieces of the rest. -/
theorem pieces_of_le (hn : 0 < n) (h : n ≤ l.length) :
    pieces n l = (l.take n, false) :: pieces n (l.drop n) := by
  rw [pieces, if_neg (by omega)]

/-- No piece is longer than asked for. -/
theorem length_le_of_mem_pieces (hn : 0 < n) {piece : List α × Bool} (h : piece ∈ pieces n l) :
    piece.1.length ≤ n := by
  induction l using pieces.induct n with
  | case1 l hl =>
    rw [pieces, if_pos hl] at h
    rw [List.mem_singleton.mp h]
    show l.length ≤ n
    omega
  | case2 l hl ih =>
    rw [pieces, if_neg hl] at h
    rcases List.mem_cons.mp h with rfl | h
    · show (l.take n).length ≤ n
      rw [List.length_take]
      omega
    · exact ih h

/-- The last piece is shorter. -/
theorem length_lt_of_mem_pieces (hn : 0 < n) {piece : List α × Bool} (h : piece ∈ pieces n l)
    (hlast : piece.2 = true) : piece.1.length < n := by
  induction l using pieces.induct n with
  | case1 l hl =>
    rw [pieces, if_pos hl] at h
    rw [List.mem_singleton.mp h]
    exact hl.resolve_right hn.ne'
  | case2 l hl ih =>
    rw [pieces, if_neg hl] at h
    rcases List.mem_cons.mp h with rfl | h
    · cases hlast
    · exact ih h

/-- The pieces have the elements of the list. -/
theorem flatten_pieces (n : ℕ) (l : List α) : ((pieces n l).map Prod.fst).flatten = l := by
  induction l using pieces.induct n with
  | case1 l hl =>
    rw [pieces, if_pos hl]
    simp
  | case2 l hl ih =>
    rw [pieces, if_neg hl, List.map_cons, List.flatten_cons, ih, List.take_append_drop]

/-- The elements of a piece are those of the list. -/
theorem mem_of_mem_pieces {piece : List α × Bool} (h : piece ∈ pieces n l) {x : α}
    (hx : x ∈ piece.1) : x ∈ l := by
  rw [← flatten_pieces n l]
  exact List.mem_flatten.mpr ⟨piece.1, List.mem_map_of_mem h, hx⟩

/-- A list that is no longer than `n` is one piece, perhaps with an empty one after it. -/
theorem find?_pieces (hn : 0 < n) (hl : l.length ≤ n) {q : List α → Bool} (hq : q [] = false) :
    ((pieces n l).map Prod.fst).find? q = [l].find? q := by
  rcases Nat.lt_or_eq_of_le hl with hlt | heq
  · rw [pieces_of_lt hlt]
    rfl
  · have hdrop : l.drop n = [] := List.drop_eq_nil_of_le hl
    rw [pieces_of_le hn heq.ge, hdrop, pieces_of_lt (by simpa using hn), List.take_of_length_le hl]
    cases hql : q l <;> simp [hql, hq]

end pieces

end RaftStore
