import Mathlib.Tactic.Common
import RaftStore.Model.SkipListHeap

namespace RaftStore

/-!
# Writing the forward pointers

What the loops over the levels of the skip list leave in the memory, pointer by pointer.

* `SkipListHeap.height`, `SkipListHeap.next`, `SkipListHeap.data` — a node as the number of its
  pointers, where they lead, and its key and value.
* `SkipListHeap.SameNodes` — two memories that differ in pointers only.
* `exists_setForward` — one assignment; `exists_linkLevels`, `exists_unlinkLevels` — the loops.
-/

namespace SkipListHeap

variable {K V : Type} {s s' s'' : SkipListHeap K V} {p : Place} {i : ℕ} {a : ℕ}

/-! ### Reading the memory -/

/-- The number of forward pointers. -/
def height (s : SkipListHeap K V) (p : Place) : ℕ := ((s.forwards p).map List.length).getD 0

/-- The node a pointer leads to. -/
def next (s : SkipListHeap K V) (p : Place) (i : ℕ) : Option Place :=
  (s.forward p i).join.map Place.node

/-- The key and the value at an address. -/
def data (s : SkipListHeap K V) (a : ℕ) : Option (K × V) :=
  (s.node a).map fun node => (node.key, node.value)

/-- The pointers of a node are those below its height. -/
theorem isSome_forward : (s.forward p i).isSome = true ↔ i < s.height p := by
  rw [forward, height]
  cases s.forwards p with
  | none => simp
  | some forward => simp

/-- There is a pointer below the height. -/
theorem exists_forward (h : i < s.height p) : ∃ q, s.forward p i = some q :=
  Option.isSome_iff_exists.mp (isSome_forward.mpr h)

/-- Below the height a pointer is what `next` says. -/
theorem forward_of_next {q : Option ℕ} (h : i < s.height p)
    (hnext : s.next p i = q.map Place.node) : s.forward p i = some q := by
  obtain ⟨q', hq'⟩ := exists_forward h
  rw [next, hq', Option.join_some] at hnext
  rw [hq']
  cases q <;> cases q' <;> simp_all

/-- The node behind a pointer is the one it names. -/
theorem next_of_forward {q : Option ℕ} (h : s.forward p i = some q) :
    s.next p i = q.map Place.node := by
  rw [next, h, Option.join_some]

/-- Equal pointers lead to the same node. -/
theorem next_congr {p' : Place} (h : s'.forward p' i = s.forward p i) :
    s'.next p' i = s.next p i := by
  rw [next, next, h]

/-- Data at an address is that of a node. -/
theorem exists_node_of_data {k : K} {v : V} (h : s.data a = some (k, v)) :
    ∃ node, s.node a = some node ∧ node.key = k ∧ node.value = v := by
  obtain ⟨node, hnode, hdata⟩ := Option.map_eq_some_iff.mp h
  exact ⟨node, hnode, congrArg Prod.fst hdata, congrArg Prod.snd hdata⟩

/-- Nodes lie in the memory. -/
theorem lt_length_of_node {node : Node K V} (h : s.node a = some node) : a < s.nodes.length := by
  rw [SkipListHeap.node, Option.join_eq_some_iff] at h
  exact (List.getElem?_eq_some_iff.mp h).1

/-! ### Assignments -/

/-- The memories hold the same nodes with the same heights; their pointers may differ. -/
structure SameNodes (s s' : SkipListHeap K V) : Prop where
  maxLevel : s'.maxLevel = s.maxLevel
  skipListLevel : s'.skipListLevel = s.skipListLevel
  elementCount : s'.elementCount = s.elementCount
  length : s'.nodes.length = s.nodes.length
  height : ∀ p, s'.height p = s.height p
  data : ∀ a, s'.data a = s.data a

/-- A memory has its own nodes. -/
theorem SameNodes.refl (s : SkipListHeap K V) : SameNodes s s :=
  { maxLevel := rfl, skipListLevel := rfl, elementCount := rfl, length := rfl
    height := fun _ => rfl, data := fun _ => rfl }

/-- Having the same nodes is transitive. -/
theorem SameNodes.trans (h : SameNodes s s') (h' : SameNodes s' s'') : SameNodes s s'' :=
  { maxLevel := h'.maxLevel.trans h.maxLevel
    skipListLevel := h'.skipListLevel.trans h.skipListLevel
    elementCount := h'.elementCount.trans h.elementCount
    length := h'.length.trans h.length
    height := fun p => (h'.height p).trans (h.height p)
    data := fun a => (h'.data a).trans (h.data a) }

/-- The node at an address, after one is written. -/
theorem node_set {node : Node K V} {b : ℕ} {nodes : List (Option (Node K V))}
    (h : b < nodes.length) :
    (nodes.set b (some node))[a]?.join = if a = b then some node else nodes[a]?.join := by
  by_cases hab : a = b
  · subst hab
    simp [h]
  · rw [List.getElem?_set_ne (Ne.symm hab), if_neg hab]

/-- **Spec of an assignment.**  It changes one pointer. -/
theorem exists_setForward (h : i < s.height p) (q : Option ℕ) :
    ∃ s', s.setForward p i q = some s' ∧ SameNodes s s' ∧
      ∀ p' j, s'.forward p' j = if p' = p ∧ j = i then some q else s.forward p' j := by
  obtain ⟨q₀, hq₀⟩ := exists_forward h
  cases p with
  | header =>
    refine ⟨{ s with header := s.header.set i q }, ?_, ?_, ?_⟩
    · simp [setForward, hq₀]
    · refine { SameNodes.refl s with height := fun p => ?_ }
      cases p with
      | header => simp [height, forwards]
      | node a => rfl
    · intro p' j
      cases p' with
      | header =>
        have hi : i < s.header.length := h
        by_cases hj : j = i
        · simp [forward, forwards, hj, hi]
        · simp [forward, forwards, hj, Ne.symm hj]
      | node a => simp [forward, forwards, node]
  | node a =>
    obtain ⟨node, hnode⟩ : ∃ node, s.node a = some node := by
      cases hnode : s.node a with
      | none => simp [height, forwards, hnode] at h
      | some node => exact ⟨node, rfl⟩
    have hi : i < node.forward.length := by simpa [height, forwards, hnode] using h
    -- only the node at `a` changes, in its array alone
    have hset : ∀ a', SkipListHeap.node
        { s with nodes := s.nodes.set a (some { node with forward := node.forward.set i q }) } a' =
        if a' = a then some { node with forward := node.forward.set i q } else s.node a' :=
      fun a' => node_set (lt_length_of_node hnode)
    refine ⟨{ s with nodes := s.nodes.set a (some { node with forward := node.forward.set i q }) },
      ?_, ?_, ?_⟩
    · simp [setForward, hq₀, hnode]
    · refine { SameNodes.refl s with
               length := List.length_set, height := fun p => ?_, data := fun a' => ?_ }
      · cases p with
        | header => rfl
        | node a' =>
          rw [height, height, forwards, forwards, hset]
          by_cases ha : a' = a
          · simp [ha, hnode]
          · simp [ha]
      · rw [data, data, hset]
        by_cases ha : a' = a
        · simp [ha, hnode]
        · simp [ha]
    · intro p' j
      cases p' with
      | header => simp [forward, forwards]
      | node a' =>
        rw [forward, forward, forwards, forwards, hset]
        by_cases ha : a' = a
        · by_cases hj : j = i
          · simp [ha, hj, hi]
          · simp [ha, hj, Ne.symm hj, hnode]
        · simp [ha]

/-! ### The loops over the levels -/

section

variable {update : List (Option Place)} {place : ℕ → Place}

/-- **Linking.**  After the rounds below level `n` the new node has the pointers that the places
    had, and these point to it. -/
theorem exists_linkLevels {n : ℕ} (hupdate : ∀ i < n, update[i]? = some (some (place i)))
    (hplace : ∀ i < n, i < s.height (place i)) (hnew : n ≤ s.height (.node a))
    (hne : ∀ i < n, place i ≠ .node a) :
    ∃ s', (List.range n).foldlM (linkLevel a update) s = some s' ∧ SameNodes s s' ∧
      ∀ p i, s'.forward p i =
        if i < n ∧ p = .node a then s.forward (place i) i
        else if i < n ∧ p = place i then some (some a) else s.forward p i := by
  induction n with
  | zero => exact ⟨s, rfl, SameNodes.refl s, fun p i => by simp⟩
  | succ n ih =>
    obtain ⟨s₁, hs₁, hsame₁, hforward₁⟩ := ih (fun i hi => hupdate i (by omega))
      (fun i hi => hplace i (by omega)) (by omega) fun i hi => hne i (by omega)
    -- the round on level `n` reads and writes pointers of this level only
    have hprev : s₁.forward (place n) n = s.forward (place n) n := by
      rw [hforward₁, if_neg (by simp), if_neg (by simp)]
    obtain ⟨q, hq⟩ := exists_forward (hplace n (Nat.lt_succ_self n))
    obtain ⟨s₂, hs₂, hsame₂, hforward₂⟩ := exists_setForward (s := s₁) (p := .node a) (i := n)
      (by rw [hsame₁.height]; omega) q
    obtain ⟨s₃, hs₃, hsame₃, hforward₃⟩ := exists_setForward (s := s₂) (p := place n) (i := n)
      (by rw [hsame₂.height, hsame₁.height]; exact hplace n (Nat.lt_succ_self n)) (some a)
    have hround : linkLevel a update s₁ n = some s₃ := by
      simp [linkLevel, hupdate n (Nat.lt_succ_self n), hprev, hq, hs₂, hs₃]
    refine ⟨s₃, ?_, (hsame₁.trans hsame₂).trans hsame₃, fun p i => ?_⟩
    · rw [List.range_succ, List.foldlM_append, hs₁]
      simpa using hround
    · rw [hforward₃, hforward₂, hforward₁]
      have hnen := hne n (Nat.lt_succ_self n)
      by_cases hi : i = n
      · subst hi
        by_cases hpa : p = .node a
        · subst hpa
          simp [Ne.symm hnen, hq]
        · by_cases hpp : p = place i
          · simp [hpp, hnen]
          · simp [hpa, hpp]
      · have hlt : i < n + 1 ↔ i < n := by omega
        simp [hi, hlt]

/-- **Unlinking.**  The loop from level `j` on, in a memory where the places point to the node at
    exactly the levels below its height, hands them the pointers of the node. -/
theorem exists_unlinkLevels (s : SkipListHeap K V) (a j n : ℕ)
    (update : List (Option Place)) (place : ℕ → Place)
    (hupdate : ∀ i, j ≤ i → i < j + n → update[i]? = some (some (place i)))
    (hplace : ∀ i, j ≤ i → i < j + n → i < s.height (place i))
    (hne : ∀ i, j ≤ i → i < j + n → place i ≠ .node a)
    (hpoint : ∀ i, j ≤ i → i < j + n → (s.forward (place i) i = some (some a) ↔
      i < s.height (.node a)))
    (hheight : s.height (.node a) ≤ j + n) :
    ∃ s', unlinkLevels a update (List.range' j n) s = some s' ∧ SameNodes s s' ∧
      ∀ p i, s'.forward p i =
        if j ≤ i ∧ i < s.height (.node a) ∧ p = place i then s.forward (.node a) i
        else s.forward p i := by
  induction n generalizing s j with
  | zero =>
    refine ⟨s, rfl, SameNodes.refl s, fun p i => ?_⟩
    rw [if_neg (by omega)]
  | succ n ih =>
    have hj : j < j + (n + 1) := by omega
    obtain ⟨q, hq⟩ := exists_forward (hplace j (Nat.le_refl j) hj)
    rw [List.range'_succ, unlinkLevels]
    by_cases hlow : j < s.height (.node a)
    · -- the node is taken out of level `j`, and the levels above are as they were
      have hqa : s.forward (place j) j = some (some a) := (hpoint j (Nat.le_refl j) hj).mpr hlow
      obtain ⟨q', hq'⟩ := exists_forward hlow
      obtain ⟨s₁, hs₁, hsame₁, hforward₁⟩ :=
        exists_setForward (s := s) (hplace j (Nat.le_refl j) hj) q'
      have hkeep : ∀ p i, j + 1 ≤ i → s₁.forward p i = s.forward p i := by
        intro p i hi
        rw [hforward₁, if_neg (by omega)]
      obtain ⟨s₂, hs₂, hsame₂, hforward₂⟩ := ih (s := s₁) (j := j + 1)
        (fun i h₁ h₂ => hupdate i (by omega) (by omega))
        (fun i h₁ h₂ => by rw [hsame₁.height]; exact hplace i (by omega) (by omega))
        (fun i h₁ h₂ => hne i (by omega) (by omega))
        (fun i h₁ h₂ => by
          rw [hkeep _ _ h₁, hsame₁.height]
          exact hpoint i (by omega) (by omega))
        (by rw [hsame₁.height]; omega)
      refine ⟨s₂, ?_, hsame₁.trans hsame₂, fun p i => ?_⟩
      · simp [hupdate j (Nat.le_refl j) hj, hqa, hq', hs₁, hs₂]
      · rw [hforward₂, hsame₁.height]
        by_cases hi : i = j
        · subst hi
          rw [if_neg (by omega), hforward₁]
          by_cases hp : p = place i
          · simp [hp, hlow, hq']
          · simp [hp]
        · by_cases hji : j + 1 ≤ i
          · have hle : j ≤ i := by omega
            simp only [hkeep _ _ hji, hji, hle, true_and]
          · have hle : ¬ j ≤ i := by omega
            rw [if_neg (by omega), if_neg (by omega), hforward₁, if_neg (by omega)]
    · -- the first level that the node does not reach ends the loop
      have hqa : q ≠ some a := by
        rintro rfl
        exact hlow ((hpoint j (Nat.le_refl j) hj).mp hq)
      refine ⟨s, ?_, SameNodes.refl s, fun p i => ?_⟩
      · simp [hupdate j (Nat.le_refl j) hj, hq, hqa]
      · rw [if_neg (by omega)]

/-- **Raising.**  The new levels get the header. -/
theorem getElem?_raise (m n j : ℕ) (update : List (Option Place)) :
    ((List.range' m n).foldl (fun update i => update.set i (some Place.header)) update)[j]? =
      if m ≤ j ∧ j < m + n ∧ j < update.length then some (some Place.header) else update[j]? := by
  induction n generalizing m update with
  | zero => rw [if_neg (by omega)]; rfl
  | succ n ih =>
    rw [List.range'_succ, List.foldl_cons, ih, List.length_set]
    by_cases hj : j = m
    · subst hj
      by_cases hlen : j < update.length
      · rw [if_neg (by omega), if_pos (by omega), List.getElem?_set_self hlen]
      · rw [if_neg (by omega), if_neg (by omega), List.getElem?_eq_none (by simp; omega),
          List.getElem?_eq_none (by omega)]
    · rw [List.getElem?_set_ne (Ne.symm hj)]
      by_cases hin : m + 1 ≤ j ∧ j < m + 1 + n ∧ j < update.length
      · rw [if_pos hin, if_pos (by omega)]
      · rw [if_neg hin, if_neg (by omega)]

end

/-! ### Allocation -/

/-- The memory with a new node behind the others, and with room for its level. -/
def allocate (s : SkipListHeap K V) (key : K) (value : V) (randomLevel : ℕ) : SkipListHeap K V :=
  { s with
    skipListLevel := max s.skipListLevel randomLevel
    nodes := s.nodes ++
      [some { key, value, forward := List.replicate (randomLevel + 1) none }] }

/-- `linkNode` allocates the node and then links it on each of its levels. -/
theorem linkNode_eq (s : SkipListHeap K V) (key : K) (value : V) (update : List (Option Place))
    (randomLevel : ℕ) :
    s.linkNode key value update randomLevel =
      ((List.range (randomLevel + 1)).foldlM (linkLevel s.nodes.length
        ((List.range' (s.skipListLevel + 1) (randomLevel - s.skipListLevel)).foldl
          (fun update i => update.set i (some Place.header)) update))
        (s.allocate key value randomLevel)).bind
          fun s => some { s with elementCount := s.elementCount + 1 } := by
  unfold linkNode allocate
  by_cases h : s.skipListLevel < randomLevel
  · rw [if_pos h, Nat.max_eq_right (Nat.le_of_lt h)]
    rfl
  · have hzero : randomLevel - s.skipListLevel = 0 := by omega
    rw [if_neg h, hzero, Nat.max_eq_left (by omega)]
    rfl

section

variable {key : K} {value : V} {randomLevel : ℕ}

/-- The new node has null pointers, and the others are as before. -/
theorem node_allocate (a : ℕ) :
    (s.allocate key value randomLevel).node a =
      if a = s.nodes.length then
        some { key, value, forward := List.replicate (randomLevel + 1) none }
      else s.node a := by
  unfold allocate node
  by_cases ha : a = s.nodes.length
  · subst ha
    simp
  · rw [if_neg ha]
    by_cases hlt : a < s.nodes.length
    · rw [List.getElem?_append_left hlt]
    · rw [List.getElem?_eq_none (by simp; omega), List.getElem?_eq_none (by omega)]

/-- The new node has the height that was asked for. -/
theorem height_allocate (p : Place) :
    (s.allocate key value randomLevel).height p =
      if p = .node s.nodes.length then randomLevel + 1 else s.height p := by
  cases p with
  | header => rfl
  | node a =>
    rw [height, height, forwards, forwards, node_allocate]
    by_cases ha : a = s.nodes.length
    · simp [ha]
    · simp [ha]

/-- The new node has the key and the value. -/
theorem data_allocate (a : ℕ) :
    (s.allocate key value randomLevel).data a =
      if a = s.nodes.length then some (key, value) else s.data a := by
  rw [data, data, node_allocate]
  split <;> rfl

/-- The pointers of the others are as before. -/
theorem forward_allocate (h : p ≠ .node s.nodes.length) :
    (s.allocate key value randomLevel).forward p i = s.forward p i := by
  cases p with
  | header => rfl
  | node a =>
    have ha : a ≠ s.nodes.length := fun ha => h (ha ▸ rfl)
    rw [forward, forward, forwards, forwards, node_allocate, if_neg ha]

end

/-! ### Deletion -/

/-- **Lowering.**  The loop stops at a level above which the header points nowhere. -/
theorem exists_lowerLevel (s : SkipListHeap K V) (level : ℕ)
    (h : ∀ i ≤ level, i < s.height .header) :
    ∃ l ≤ level, s.lowerLevel level = some l ∧
      ∀ i, l < i → i ≤ level → s.forward .header i = some none := by
  induction level with
  | zero => exact ⟨0, Nat.le_refl 0, rfl, fun i hlt hle => absurd hlt (by omega)⟩
  | succ level ih =>
    obtain ⟨q, hq⟩ := exists_forward (h (level + 1) (Nat.le_refl _))
    cases q with
    | none =>
      obtain ⟨l, hl, hlower, hempty⟩ := ih fun i hi => h i (by omega)
      refine ⟨l, by omega, ?_, fun i hlt hle => ?_⟩
      · simp [lowerLevel, hq, hlower]
      · by_cases hi : i = level + 1
        · rw [hi, hq]
        · exact hempty i hlt (by omega)
    | some a =>
      refine ⟨level + 1, Nat.le_refl _, ?_, fun i hlt hle => absurd hlt (by omega)⟩
      simp [lowerLevel, hq]

/-- The memory without the node at `a`. -/
def free (s : SkipListHeap K V) (a : ℕ) : SkipListHeap K V :=
  { s with nodes := s.nodes.set a none, elementCount := s.elementCount - 1 }

/-- Freeing a node leaves the others. -/
theorem node_free {a' : ℕ} (h : a' ≠ a) : (s.free a).node a' = s.node a' := by
  rw [node, free, List.getElem?_set_ne (Ne.symm h)]
  rfl

/-- Freeing a node leaves the heights of the others. -/
theorem height_free (h : p ≠ .node a) : (s.free a).height p = s.height p := by
  cases p with
  | header => rfl
  | node a' =>
    have ha : a' ≠ a := fun ha => h (ha ▸ rfl)
    rw [height, height, forwards, forwards, node_free ha]

/-- Freeing a node leaves the keys and values of the others. -/
theorem data_free {a' : ℕ} (h : a' ≠ a) : (s.free a).data a' = s.data a' := by
  rw [data, data, node_free h]

/-- Freeing a node leaves the pointers of the others. -/
theorem forward_free (h : p ≠ .node a) : (s.free a).forward p i = s.forward p i := by
  cases p with
  | header => rfl
  | node a' =>
    have ha : a' ≠ a := fun ha => h (ha ▸ rfl)
    rw [forward, forward, forwards, forwards, node_free ha]

end SkipListHeap

end RaftStore
