import Mathlib.Data.List.Nodup

namespace RaftStore

/-!
# Lists with levels

Nodes in a row, each with a height; at every level below its height a node points to the next
node that is high enough.  Nothing here names a repository: `α` is any type of nodes, `height` and
`next` say how high a node is and where it points to.

* `firstAt`, `lastAt` — the first and the last node of a list that reach a level.
* `Linked` — every pointer leads to the first node behind that reaches the level.
* `Linked.next_lastAt` — where the last node of a front part points to.
* `Linked.insert`, `Linked.erase` — the pointers after a node is put between two parts, or taken
  out from there.
-/

section

variable {α : Type*} (height : α → ℕ)

/-- The first node that reaches level `i`. -/
def firstAt (i : ℕ) (xs : List α) : Option α := xs.find? fun x => i < height x

/-- The last node that reaches level `i`. -/
def lastAt (i : ℕ) (xs : List α) : Option α := xs.reverse.find? fun x => i < height x

/-- Every node points, at each level below its height, to the first node behind it there. -/
def Linked (next : α → ℕ → Option α) (xs : List α) : Prop :=
  ∀ p x q, xs = p ++ x :: q → ∀ i < height x, next x i = firstAt height i q

variable {height} {i : ℕ} {x y : α} {xs p q : List α}

/-! ### The first and the last node of a level -/

/-- There is nothing to come to. -/
@[simp]
theorem firstAt_nil : firstAt height i [] = none := rfl

/-- An element that is high enough is the first. -/
theorem firstAt_cons_of_lt (h : i < height x) : firstAt height i (x :: xs) = some x := by
  simp [firstAt, h]

/-- An element that is too low is passed over. -/
theorem firstAt_cons_of_le (h : height x ≤ i) :
    firstAt height i (x :: xs) = firstAt height i xs := by
  simp [firstAt, Nat.not_lt.mpr h]

/-- So are several. -/
theorem firstAt_append_of_le (h : ∀ y ∈ p, height y ≤ i) :
    firstAt height i (p ++ q) = firstAt height i q := by
  have hnone : p.find? (fun x => decide (i < height x)) = none := by simpa using h
  rw [firstAt, List.find?_append, hnone]
  rfl

/-- What follows a part with a node of the level does not matter. -/
theorem firstAt_append_of_exists (h : ∃ y ∈ p, i < height y) :
    firstAt height i (p ++ q) = firstAt height i p := by
  have hsome : (p.find? fun x => decide (i < height x)).isSome = true := by simpa using h
  rw [firstAt, List.find?_append, Option.or_of_isSome hsome]
  rfl

/-- The first element of a level is one that is high enough. -/
theorem firstAt_eq_some (h : firstAt height i xs = some x) : x ∈ xs ∧ i < height x :=
  ⟨List.mem_of_find?_eq_some h, by simpa using List.find?_some h⟩

/-- There is no first element iff all are too low. -/
theorem firstAt_eq_none : firstAt height i xs = none ↔ ∀ y ∈ xs, height y ≤ i := by
  simp [firstAt]

/-- The last element is the new one, if that is high enough. -/
theorem lastAt_concat :
    lastAt height i (p ++ [x]) = if i < height x then some x else lastAt height i p := by
  rw [lastAt, List.reverse_append, List.reverse_singleton, List.singleton_append, List.find?_cons]
  by_cases h : i < height x
  · simp [h]
  · simp [h, lastAt]

/-- Behind the last node of a level no other node reaches it. -/
theorem lastAt_eq_some (h : lastAt height i p = some x) :
    i < height x ∧ ∃ p₁ p₂, p = p₁ ++ x :: p₂ ∧ ∀ y ∈ p₂, height y ≤ i := by
  obtain ⟨hx, p₂, p₁, hp, hlow⟩ := List.find?_eq_some_iff_append.mp h
  refine ⟨by simpa using hx, p₁.reverse, p₂.reverse, ?_, fun y hy => ?_⟩
  · have hrev := congrArg List.reverse hp
    simpa using hrev
  · simpa using hlow y (List.mem_reverse.mp hy)

/-- The last element is one behind which all are too low. -/
theorem lastAt_of_split (hx : i < height x) {p₁ p₂ : List α} (hp : p = p₁ ++ x :: p₂)
    (hlow : ∀ y ∈ p₂, height y ≤ i) : lastAt height i p = some x := by
  refine List.find?_eq_some_iff_append.mpr
    ⟨by simpa using hx, p₂.reverse, p₁.reverse, by simp [hp], fun y hy => ?_⟩
  simpa using hlow y (List.mem_reverse.mp hy)

/-- What precedes a part with a node of the level does not matter. -/
theorem lastAt_append_of_exists (h : ∃ y ∈ q, i < height y) :
    lastAt height i (p ++ q) = lastAt height i q := by
  have hsome : (q.reverse.find? fun x => decide (i < height x)).isSome = true := by simpa using h
  rw [lastAt, List.reverse_append, List.find?_append, Option.or_of_isSome hsome]
  rfl

/-- A part whose first node reaches the level has a last one. -/
theorem exists_lastAt (h : i < height x) : ∃ y, lastAt height i (x :: p) = some y :=
  Option.isSome_iff_exists.mp (by simp [lastAt, h])

/-- The first element is the last of its level if all behind it are too low. -/
theorem lastAt_cons_of_le (hlow : ∀ y ∈ p, height y ≤ i) (hx : i < height x) :
    lastAt height i (x :: p) = some x :=
  lastAt_of_split hx (List.nil_append _).symm hlow

/-- The last node of a level is the last one of a lower level in a front part. -/
theorem lastAt_lower {j : ℕ} (hj : j ≤ i) (h : lastAt height i p = some x) :
    ∃ p₁ p₂, p = p₁ ++ p₂ ∧ lastAt height j p₁ = some x := by
  obtain ⟨hx, p₁, p₂, hp, _⟩ := lastAt_eq_some h
  refine ⟨p₁ ++ [x], p₂, by simp [hp], ?_⟩
  rw [lastAt_concat, if_pos (by omega)]

/-- The last element of a level is in the list. -/
theorem lastAt_mem (h : lastAt height i p = some x) : x ∈ p := by
  obtain ⟨_, p₁, p₂, rfl, _⟩ := lastAt_eq_some h
  exact List.mem_append_right _ (List.mem_cons_self ..)

/-- Only the heights of the elements matter to the first. -/
theorem firstAt_congr {height' : α → ℕ} (h : ∀ y ∈ xs, height' y = height y) :
    firstAt height' i xs = firstAt height i xs := by
  induction xs with
  | nil => rfl
  | cons x xs ih =>
    have ih := ih fun y hy => h y (List.mem_cons_of_mem _ hy)
    rw [firstAt, firstAt, List.find?_cons, List.find?_cons, h x (List.mem_cons_self ..)]
    rw [firstAt, firstAt] at ih
    rw [ih]

/-- Only the heights of the elements matter to the last. -/
theorem lastAt_congr {height' : α → ℕ} (h : ∀ y ∈ p, height' y = height y) :
    lastAt height' i p = lastAt height i p :=
  firstAt_congr fun y hy => h y (List.mem_reverse.mp hy)

end

/-! ### Linked nodes -/

section

variable {α : Type*} {height : α → ℕ} {next : α → ℕ → Option α} {i : ℕ} {x y : α}
  {xs p q : List α}

/-- The last node of the front part points to the first one of the back part. -/
theorem Linked.next_lastAt (h : Linked height next (p ++ q)) (hx : lastAt height i p = some x) :
    next x i = firstAt height i q := by
  obtain ⟨hlt, p₁, p₂, rfl, hlow⟩ := lastAt_eq_some hx
  rw [h p₁ x (p₂ ++ q) (by simp) i hlt, firstAt_append_of_le hlow]

/-- Linked nodes depend on nothing but their heights and pointers. -/
theorem Linked.congr {height' : α → ℕ} {next' : α → ℕ → Option α} (h : Linked height next xs)
    (hheight : ∀ y ∈ xs, height' y = height y)
    (hnext : ∀ y ∈ xs, ∀ i < height y, next' y i = next y i) : Linked height' next' xs := by
  intro p x q hsplit i hi
  have hmem : ∀ y ∈ x :: q, y ∈ xs := fun y hy => hsplit ▸ List.mem_append_right p hy
  rw [hheight x (hmem x (List.mem_cons_self ..))] at hi
  rw [hnext x (hmem x (List.mem_cons_self ..)) i hi, h p x q hsplit i hi]
  exact (firstAt_congr fun y hy => hheight y (hmem y (List.mem_cons_of_mem _ hy))).symm

/-- A node of two parts belongs to the front part or to the back part. -/
theorem append_split {p₁ q₁ : List α} (h : p ++ q = p₁ ++ x :: q₁) :
    (∃ r, p = p₁ ++ x :: r ∧ q₁ = r ++ q) ∨ ∃ r, p₁ = p ++ r ∧ q = r ++ x :: q₁ := by
  rcases List.append_eq_append_iff.mp h with ⟨r, hp, hq⟩ | ⟨r, hp, hq⟩
  · exact Or.inr ⟨r, hp, hq⟩
  · cases r with
    | nil => exact Or.inr ⟨[], by simpa using hp.symm, hq.symm⟩
    | cons z r =>
      rw [List.cons_append] at hq
      obtain ⟨rfl, hrest⟩ := List.cons.inj hq
      exact Or.inl ⟨r, hp, hrest⟩

/-- A node with a node of the level behind it is not the last one. -/
theorem lastAt_ne_of_exists {r : List α} (hnodup : (p ++ x :: r).Nodup)
    (hex : ∃ y ∈ r, i < height y) : lastAt height i (p ++ x :: r) ≠ some x := by
  intro hlast
  rw [← List.singleton_append, ← List.append_assoc, lastAt_append_of_exists hex] at hlast
  exact (List.nodup_cons.mp (List.nodup_append.mp hnodup).2.1).1 (lastAt_mem hlast)

/-- No node of the back part is the last one of the front part. -/
theorem lastAt_ne_of_mem_back (hnodup : (p ++ q).Nodup) (hx : x ∈ q) :
    lastAt height i p ≠ some x :=
  fun hlast => (List.nodup_append.mp hnodup).2.2 x (lastAt_mem hlast) x hx rfl

/-- **Insertion.**  The new node takes over the pointers of the last nodes before it, which point
    to it from now on. -/
theorem Linked.insert {next' : α → ℕ → Option α} (h : Linked height next (p ++ q))
    (hnodup : (p ++ q).Nodup) (hy : ∀ i < height y, next' y i = firstAt height i q)
    (hlast : ∀ i < height y, ∀ x, lastAt height i p = some x → next' x i = some y)
    (hother : ∀ i, ∀ x ∈ p ++ q, (i < height y → lastAt height i p ≠ some x) →
      next' x i = next x i) : Linked height next' (p ++ y :: q) := by
  intro p₁ x q₁ hsplit i hi
  rcases append_split hsplit with ⟨r, rfl, rfl⟩ | ⟨r, rfl, hr⟩
  -- is `x` the last node before the new one that reaches level `i`?
  · by_cases hlow : ∀ y ∈ r, height y ≤ i
    · have hlast' : lastAt height i (p₁ ++ x :: r) = some x := lastAt_of_split hi rfl hlow
      rw [firstAt_append_of_le hlow]
      by_cases hiy : i < height y
      · rw [hlast i hiy x hlast', firstAt_cons_of_lt hiy]
      · rw [hother i x (by simp) fun hlt => absurd hlt hiy, h.next_lastAt hlast',
          firstAt_cons_of_le (Nat.not_lt.mp hiy)]
    -- a node of `r` reaches the level, so `x` points to it as before
    · have hex : ∃ y ∈ r, i < height y := by simpa using hlow
      have hnot := lastAt_ne_of_exists (List.nodup_append.mp hnodup).1 hex
      rw [hother i x (by simp) fun _ => hnot, h p₁ x (r ++ q) (by simp) i hi,
        firstAt_append_of_exists hex, firstAt_append_of_exists hex]
  · cases r with
    | nil =>
      obtain ⟨rfl, rfl⟩ := List.cons.inj hr
      exact hy i hi
    | cons z r =>
      obtain ⟨rfl, rfl⟩ := List.cons.inj hr
      have hnot : lastAt height i p ≠ some x := lastAt_ne_of_mem_back hnodup (by simp)
      rw [hother i x (by simp) fun _ => hnot, h (p ++ r) x q₁ (by simp) i hi]

/-- **Removal.**  The last nodes before the removed one take over its pointers. -/
theorem Linked.erase {next' : α → ℕ → Option α} (h : Linked height next (p ++ y :: q))
    (hnodup : (p ++ y :: q).Nodup)
    (hlast : ∀ i < height y, ∀ x, lastAt height i p = some x → next' x i = next y i)
    (hother : ∀ i, ∀ x ∈ p ++ q, (i < height y → lastAt height i p ≠ some x) →
      next' x i = next x i) : Linked height next' (p ++ q) := by
  intro p₁ x q₁ hsplit i hi
  rcases append_split hsplit with ⟨r, rfl, rfl⟩ | ⟨r, rfl, rfl⟩
  · by_cases hlow : ∀ y ∈ r, height y ≤ i
    · have hlast' : lastAt height i (p₁ ++ x :: r) = some x := lastAt_of_split hi rfl hlow
      rw [firstAt_append_of_le hlow]
      by_cases hiy : i < height y
      · rw [hlast i hiy x hlast', h _ y q rfl i hiy]
      · rw [hother i x (by simp) fun hlt => absurd hlt hiy, h.next_lastAt hlast',
          firstAt_cons_of_le (Nat.not_lt.mp hiy)]
    · have hex : ∃ y ∈ r, i < height y := by simpa using hlow
      have hnot := lastAt_ne_of_exists (List.nodup_append.mp hnodup).1 hex
      rw [hother i x (by simp) fun _ => hnot, h p₁ x (r ++ y :: q) (by simp) i hi,
        firstAt_append_of_exists hex, firstAt_append_of_exists hex]
  · have hnot : lastAt height i p ≠ some x := lastAt_ne_of_mem_back hnodup (by simp)
    rw [hother i x (by simp) fun _ => hnot, h (p ++ y :: r) x q₁ (by simp) i hi]

end

end RaftStore
