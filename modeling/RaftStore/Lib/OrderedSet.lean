import Mathlib.Data.List.Sort
import Mathlib.Data.List.InsertIdx
import Mathlib.Data.List.Perm.Basic

namespace RaftStore

/-!
# Ordered sets of references

A set kept in the order of a comparison, whose elements are references: the comparison looks at
what they refer to, so that a change of the referent can change the place of the reference.
Positions stand for iterators, and the length of the list for the end of the set.

* `lowerBound`, `find`, `insert` — the search and the insertion, by the comparison alone.
* `find_of_mem`, `eraseIdx_find` — a member of an ordered set is found, and erased alone.
* `insert_perm`, `Ordered.insert` — a new element goes in, and the set stays ordered.
* `take_findIdx_not`, `drop_findIdx_not` — a cut of the set is a filter.
-/

namespace OrderedSet

variable {α τ : Type*} (less : τ → τ → Bool) (deref : α → τ)

/-- The first position whose element does not come before `x`. -/
def lowerBound (x : τ) (l : List α) : ℕ := l.findIdx fun a => !less (deref a) x

/-- The position of the element that is neither before nor after `x`, or the end. -/
def find (x : τ) (l : List α) : ℕ :=
  let it := lowerBound less deref x l
  match l[it]? with
  | some a => if less x (deref a) then l.length else it
  | none => l.length

/-- Insertion, with the position of the new element or of the one that is in its place. -/
def insert (a : α) (l : List α) : List α × ℕ :=
  let it := lowerBound less deref (deref a) l
  if find less deref (deref a) l = l.length then (l.insertIdx it a, it) else (l, it)

/-- Every element comes before all that follow it. -/
def Ordered (l : List α) : Prop := l.Pairwise fun a b => less (deref a) (deref b) = true

instance (l : List α) : Decidable (Ordered less deref l) :=
  inferInstanceAs (Decidable (List.Pairwise _ l))

/-! ## Cuts -/

section cut

variable {α : Type*} {p : α → Bool} {l : List α}

/-- What precedes the cut, when an element that satisfies `p` has only such before it. -/
theorem take_findIdx_not (hl : l.Pairwise fun a b => p b = true → p a = true) :
    l.take (l.findIdx fun a => !p a) = l.filter p := by
  induction l with
  | nil => rfl
  | cons a l ih =>
    obtain ⟨ha, hl⟩ := List.pairwise_cons.mp hl
    by_cases hp : p a = true
    · simp [List.findIdx_cons, hp, ih hl]
    · have hnone : l.filter p = [] :=
        List.filter_eq_nil_iff.mpr fun b hb hpb => hp (ha b hb hpb)
      simp [List.findIdx_cons, hp, hnone]

/-- What follows the cut. -/
theorem drop_findIdx_not (hl : l.Pairwise fun a b => p b = true → p a = true) :
    l.drop (l.findIdx fun a => !p a) = l.filter fun a => !p a := by
  induction l with
  | nil => rfl
  | cons a l ih =>
    obtain ⟨ha, hl⟩ := List.pairwise_cons.mp hl
    by_cases hp : p a = true
    · simp [List.findIdx_cons, hp, ih hl]
    · have hall : l.filter (fun b => !p b) = l :=
        List.filter_eq_self.mpr fun b hb => by simpa using fun hpb => hp (ha b hb hpb)
      simp [List.findIdx_cons, hp, hall]

/-- In an ordered list the elements of an initial part are those with its property. -/
theorem takeWhile_eq_filter (hl : l.Pairwise fun a b => p b = true → p a = true) :
    l.takeWhile p = l.filter p := by
  rw [List.takeWhile_eq_take_findIdx_not, take_findIdx_not hl]

/-- Inserting cuts the list in two. -/
theorem insertIdx_eq_take_drop {a : α} {i : ℕ} (h : i ≤ l.length) :
    l.insertIdx i a = l.take i ++ a :: l.drop i := by
  induction i generalizing l with
  | zero => simp
  | succ i ih =>
    cases l with
    | nil => simp at h
    | cons b l => simp [ih (Nat.le_of_succ_le_succ h)]

end cut

/-! ## Search, erasure and insertion

The comparison is that of a key in a linear order. -/

section key

variable {less deref} {κ : Type*} [LinearOrder κ] {key : τ → κ}
  (hless : ∀ x y, less x y = true ↔ key x < key y)

/-- A part of an ordered set is ordered. -/
theorem Ordered.sublist {l l' : List α} (hl : Ordered less deref l) (h : l'.Sublist l) :
    Ordered less deref l' :=
  List.Pairwise.sublist h hl

include hless

/-- In an ordered set the elements before `x` come first. -/
theorem Ordered.below {l : List α} (hl : Ordered less deref l) (x : τ) :
    l.Pairwise fun a b => less (deref b) x = true → less (deref a) x = true := by
  apply hl.imp
  intro a b hab hb
  rw [hless] at hab hb ⊢
  exact hab.trans hb

/-- A member of an ordered set is where the search ends. -/
theorem find_of_mem {pre post : List α} {a : α} (hl : Ordered less deref (pre ++ a :: post)) :
    find less deref (deref a) (pre ++ a :: post) = pre.length := by
  have hirr : less (deref a) (deref a) = false := by
    rw [Bool.eq_false_iff, ne_eq, hless]
    exact lt_irrefl _
  have hpre : ∀ b ∈ pre, less (deref b) (deref a) = true := fun b hb =>
    (List.pairwise_append.mp hl).2.2 b hb a (by simp)
  have hlower : lowerBound less deref (deref a) (pre ++ a :: post) = pre.length := by
    have hend : pre.findIdx (fun b => !less (deref b) (deref a)) = pre.length :=
      List.findIdx_eq_length_of_false fun b hb => by simp [hpre b hb]
    simp [lowerBound, List.findIdx_append, hend, List.findIdx_cons, hirr]
  simp [find, hlower, hirr]

/-- Erasing at the position found for a member takes this member out and no other. -/
theorem eraseIdx_find [DecidableEq α] {l : List α} {a : α} (hl : Ordered less deref l)
    (ha : a ∈ l) :
    find less deref (deref a) l < l.length ∧
      l.eraseIdx (find less deref (deref a) l) = l.erase a := by
  obtain ⟨pre, post, rfl⟩ := List.append_of_mem ha
  have hnot : a ∉ pre := by
    intro hmem
    have hlt := (List.pairwise_append.mp hl).2.2 a hmem a (by simp)
    exact lt_irrefl _ ((hless _ _).mp hlt)
  rw [find_of_mem hless hl, List.eraseIdx_append_of_length_le le_rfl,
    List.erase_append_right _ hnot]
  simp

/-- The search runs to the end if no element has the key. -/
theorem find_eq_length {l : List α} {x : τ} (h : ∀ b ∈ l, key (deref b) ≠ key x) :
    find less deref x l = l.length := by
  simp only [find]
  split
  case h_1 b hb =>
    have hge := List.findIdx_of_getElem?_eq_some hb
    rw [Bool.not_eq_true', Bool.eq_false_iff, ne_eq, hless, not_lt] at hge
    have hlt : less x (deref b) = true :=
      (hless _ _).mpr (lt_of_le_of_ne hge (h b (List.mem_of_getElem? hb)).symm)
    rw [if_pos hlt]
  case h_2 => rfl

section insert

variable {l : List α} {a : α} (h : ∀ b ∈ l, key (deref b) ≠ key (deref a))

include h

/-- An element is inserted at its lower bound. -/
theorem insert_eq :
    insert less deref a l =
      (l.insertIdx (lowerBound less deref (deref a) l) a, lowerBound less deref (deref a) l) := by
  rw [insert, if_pos (find_eq_length hless h)]

/-- An element with a key of its own goes into the set. -/
theorem insert_perm : (insert less deref a l).1.Perm (a :: l) := by
  rw [insert_eq hless h]
  exact List.perm_insertIdx a l List.findIdx_le_length

/-- The set with a new element is ordered: the elements below its key, it, and the others. -/
theorem Ordered.insert (hl : Ordered less deref l) :
    Ordered less deref (insert less deref a l).1 := by
  have hbelow := hl.below hless (deref a)
  have hsplit : (OrderedSet.insert less deref a l).1 =
      l.filter (fun b => less (deref b) (deref a)) ++
        a :: l.filter fun b => !less (deref b) (deref a) := by
    rw [insert_eq hless h, ← take_findIdx_not hbelow, ← drop_findIdx_not hbelow]
    exact insertIdx_eq_take_drop List.findIdx_le_length
  rw [hsplit]
  have hafter : ∀ b ∈ l.filter (fun b => !less (deref b) (deref a)), less (deref a) (deref b) := by
    intro b hb
    obtain ⟨hmem, hge⟩ := List.mem_filter.mp hb
    rw [Bool.not_eq_true', Bool.eq_false_iff, ne_eq, hless, not_lt] at hge
    exact (hless _ _).mpr (lt_of_le_of_ne hge (h b hmem).symm)
  refine List.pairwise_append.mpr ⟨hl.sublist List.filter_sublist,
    List.pairwise_cons.mpr ⟨hafter, hl.sublist List.filter_sublist⟩, fun b hb c hc => ?_⟩
  have hba := (List.mem_filter.mp hb).2
  rcases List.mem_cons.mp hc with rfl | hc
  · exact hba
  · rw [hless] at hba ⊢
    exact hba.trans ((hless _ _).mp (hafter c hc))

end insert

end key

end OrderedSet

end RaftStore
