import RaftStore.Kv.Contents
import RaftStore.Kv.Heap
import RaftStore.Lib.Levels

namespace RaftStore

/-!
# The skip list with its pointers is a finite map

The nodes of the memory, in the order of their keys, are linked on every level.  The descent ends
at the last nodes with a smaller key, and the operations do to the row of nodes what they do to the
bottom level alone.

* `SkipListHeap.Inv` — a row of cells is what the memory holds.
* `Inv.exists_findPlace` — the descent that insertion and deletion share.
* `Inv.insertElement`, `Inv.deleteElement`, `Inv.searchElement`, `Inv.dumpFile` — each operation
  returns, keeps the invariant, and is the operation on the bottom level.
* `calls_refine` — a sequence of calls answers like a finite map.
-/

namespace SkipListHeap

variable {K V : Type} [LinearOrder K] {s s' : SkipListHeap K V} {key : K} {value : V} {i : ℕ}
  {x : Place} {f f₁ f₂ b cells : List (ℕ × K × V)}

/-- The header and the nodes of a row of cells: an address, a key and a value each. -/
def places (cells : List (ℕ × K × V)) : List Place := .header :: cells.map fun c => .node c.1

/-- The memory holds the cells, in the order of their keys and linked on each level. -/
structure Inv (s : SkipListHeap K V) (cells : List (ℕ × K × V)) : Prop where
  sorted : cells.Pairwise fun c c' => c.2.1 < c'.2.1
  nodup : (cells.map Prod.fst).Nodup
  data : ∀ c ∈ cells, s.data c.1 = some c.2
  positive : ∀ c ∈ cells, 0 < s.height (.node c.1)
  low : ∀ c ∈ cells, s.height (.node c.1) ≤ s.skipListLevel + 1
  level : s.skipListLevel ≤ s.maxLevel
  header : s.height .header = s.maxLevel + 1
  linked : Linked s.height s.next (places cells)
  count : s.elementCount = cells.length

/-! ### The row of cells -/

omit [LinearOrder K] in
/-- The places of two parts. -/
theorem places_append (f b : List (ℕ × K × V)) :
    places (f ++ b) = places f ++ b.map fun c => .node c.1 := by
  simp [places]

omit [LinearOrder K] in
/-- No place is there twice. -/
theorem places_nodup (h : (cells.map Prod.fst).Nodup) : (places cells).Nodup := by
  refine List.nodup_cons.mpr ⟨by simp, ?_⟩
  have hmap := h.map (f := Place.node) fun a a' ha => by cases ha; rfl
  simpa [Function.comp_def] using hmap

omit [LinearOrder K] in
/-- A front part of the places that has a last node is the places of a front part. -/
theorem places_split {p q : List Place} (h : places f = p ++ q) (hp : p ≠ []) :
    ∃ f₁ f₂, f = f₁ ++ f₂ ∧ p = places f₁ := by
  cases p with
  | nil => exact absurd rfl hp
  | cons x p =>
    rw [places, List.cons_append] at h
    obtain ⟨rfl, hmap⟩ := List.cons.inj h
    obtain ⟨f₁, f₂, rfl, hp, _⟩ := List.map_eq_append_iff.mp hmap
    exact ⟨f₁, f₂, rfl, by rw [places, hp]⟩

/-- The memory has room for the cells. -/
theorem Inv.length_le (h : Inv s cells) : cells.length ≤ s.nodes.length := by
  have hsub : cells.map Prod.fst ⊆ List.range s.nodes.length := by
    intro a ha
    obtain ⟨c, hc, rfl⟩ := List.mem_map.mp ha
    obtain ⟨node, hnode, _⟩ := exists_node_of_data (h.data c hc)
    exact List.mem_range.mpr (lt_length_of_node hnode)
  have hle := (h.nodup.subperm hsub).length_le
  simpa using hle

/-- The last node before a place on a level points to the first cell behind it there. -/
theorem Inv.next_eq (h : Inv s (f ++ b)) (hx : lastAt s.height i (places f) = some x) :
    s.next x i = firstAt s.height i (b.map fun c => .node c.1) := by
  have hlinked := h.linked
  rw [places_append] at hlinked
  exact hlinked.next_lastAt hx

/-- On every level up to the maximum there is a last node. -/
theorem Inv.exists_lastAt (h : Inv s cells) (hi : i ≤ s.maxLevel) (f : List (ℕ × K × V)) :
    ∃ x, lastAt s.height i (places f) = some x :=
  RaftStore.exists_lastAt (by rw [h.header]; omega)

/-- Either no cell behind reaches the level, or the pointer leads to the first that does. -/
theorem Inv.forward_cases (h : Inv s (f ++ b)) (hx : lastAt s.height i (places f) = some x) :
    (s.forward x i = some none ∧ ∀ c ∈ b, s.height (.node c.1) ≤ i) ∨
      ∃ c ∈ b, i < s.height (.node c.1) ∧ s.forward x i = some (some c.1) := by
  have hlt := (lastAt_eq_some hx).1
  have hnext := h.next_eq hx
  cases hfirst : firstAt s.height i (b.map fun c => Place.node c.1) with
  | none =>
    rw [hfirst] at hnext
    rw [firstAt_eq_none] at hfirst
    exact Or.inl ⟨forward_of_next hlt hnext, fun c hc => hfirst _ (List.mem_map_of_mem hc)⟩
  | some y =>
    obtain ⟨hmem, hy⟩ := firstAt_eq_some hfirst
    obtain ⟨c, hc, rfl⟩ := List.mem_map.mp hmem
    rw [hfirst] at hnext
    exact Or.inr ⟨c, hc, hy, forward_of_next (q := some c.1) hlt hnext⟩

/-- The pointer on a level leads to the next cell exactly if the cell reaches the level. -/
theorem Inv.forward_eq_iff {c : ℕ × K × V} (h : Inv s (f ++ c :: b))
    (hx : lastAt s.height i (places f) = some x) :
    s.forward x i = some (some c.1) ↔ i < s.height (.node c.1) := by
  constructor
  · intro hforward
    rcases h.forward_cases hx with ⟨hnone, _⟩ | ⟨c', _, hlt, hforward'⟩
    · rw [hnone] at hforward
      cases hforward
    · rw [hforward] at hforward'
      rwa [Option.some.inj (Option.some.inj hforward')]
  · intro hlt
    have hnext := h.next_eq hx
    rw [List.map_cons, firstAt_cons_of_lt hlt] at hnext
    exact forward_of_next (q := some c.1) (lastAt_eq_some hx).1 hnext

/-! ### The descent -/

/-- **The inner loop.**  From the last node of the level in a front part it moves to the last one
    whose key is smaller. -/
theorem Inv.walk_eq {fuel : ℕ} (h : Inv s (f₁ ++ (f₂ ++ b))) (hfront : ∀ c ∈ f₂, c.2.1 < key)
    (hback : ∀ c ∈ b, ¬ c.2.1 < key) (hx : lastAt s.height i (places f₁) = some x)
    (hfuel : f₂.length < fuel) : s.walk key i fuel x = lastAt s.height i (places (f₁ ++ f₂)) := by
  induction f₂ generalizing f₁ x fuel with
  | nil =>
    obtain ⟨fuel, rfl⟩ := Nat.exists_eq_succ_of_ne_zero (by omega : fuel ≠ 0)
    rw [List.append_nil, hx, walk]
    -- the next node on the level, if there is one, is in the part behind: the loop stops
    rcases h.forward_cases hx with ⟨hforward, _⟩ | ⟨c, hc, _, hforward⟩
    · simp [hforward]
    · rw [List.nil_append] at hc
      obtain ⟨node, hnode, hkey, _⟩ :=
        exists_node_of_data (h.data c (List.mem_append_right _ hc))
      have hnot : ¬ node.key < key := hkey ▸ hback c hc
      simp [hforward, hnode, hnot]
  | cons c f₂ ih =>
    obtain ⟨fuel, rfl⟩ := Nat.exists_eq_succ_of_ne_zero (by omega : fuel ≠ 0)
    have hfuel' : f₂.length < fuel := by simpa using hfuel
    have h' : Inv s (f₁ ++ [c] ++ (f₂ ++ b)) := by simpa using h
    have hfront' : ∀ c ∈ f₂, c.2.1 < key := fun c hc => hfront c (List.mem_cons_of_mem _ hc)
    have hlast : lastAt s.height i (places (f₁ ++ [c])) =
        if i < s.height (.node c.1) then some (.node c.1) else some x := by
      rw [places_append, List.map_singleton, lastAt_concat, hx]
    have happend : f₁ ++ c :: f₂ = f₁ ++ [c] ++ f₂ := by simp
    by_cases hi : i < s.height (.node c.1)
    · -- the node reaches the level: the loop moves to it
      have hforward : s.forward x i = some (some c.1) := (h.forward_eq_iff hx).mpr hi
      obtain ⟨node, hnode, hkey, _⟩ := exists_node_of_data (h.data c (by simp))
      have hlt : node.key < key := hkey ▸ hfront c (List.mem_cons_self ..)
      rw [if_pos hi] at hlast
      rw [happend, ← ih h' hfront' hlast hfuel', walk]
      simp [hforward, hnode, hlt]
    · -- the node does not reach the level: the loop does not meet it
      rw [if_neg hi] at hlast
      rw [happend]
      exact ih h' hfront' hlast (by omega)

/-- A front part of the places ends at `x` on the level. -/
def EndsAt (s : SkipListHeap K V) (f : List (ℕ × K × V)) (i : ℕ) (x : Place) : Prop :=
  ∃ f₁ f₂, f = f₁ ++ f₂ ∧ lastAt s.height i (places f₁) = some x

omit [LinearOrder K] in
/-- The last place on a level ends a front part on the level below. -/
theorem endsAt_lower (hx : lastAt s.height (i + 1) (places f) = some x) : EndsAt s f i x := by
  obtain ⟨p₁, p₂, hp, hx₁⟩ := lastAt_lower (Nat.le_succ i) hx
  obtain ⟨f₁, f₂, hf, rfl⟩ := places_split hp (by rintro rfl; cases hx₁)
  exact ⟨f₁, f₂, hf, hx₁⟩

/-- The walk on one level ends at the last node before the key. -/
theorem Inv.walk_descend (h : Inv s (f ++ b)) (hfront : ∀ c ∈ f, c.2.1 < key)
    (hback : ∀ c ∈ b, ¬ c.2.1 < key) {current : Place} (hcurrent : EndsAt s f i current) :
    s.walk key i (s.nodes.length + 1) current = lastAt s.height i (places f) := by
  obtain ⟨f₁, f₂, rfl, hx⟩ := hcurrent
  have hle := h.length_le
  refine Inv.walk_eq (b := b) (by simpa using h) (fun c hc => hfront c (by simp [hc])) hback hx ?_
  simp only [List.length_append] at hle
  omega

/-- **The outer loop.**  It records the last node with a smaller key of every level. -/
theorem Inv.exists_descend (h : Inv s (f ++ b)) (hfront : ∀ c ∈ f, c.2.1 < key)
    (hback : ∀ c ∈ b, ¬ c.2.1 < key) (update : List (Option Place)) {current : Place}
    (hlen : i < update.length) (hi : i ≤ s.maxLevel) (hcurrent : EndsAt s f i current) :
    ∃ current' update', s.descend key (i + 1) (current, update) = some (current', update') ∧
      lastAt s.height 0 (places f) = some current' ∧
      (∀ j ≤ i, update'[j]? = some (lastAt s.height j (places f))) ∧
      (∀ j, i < j → update'[j]? = update[j]?) ∧ update'.length = update.length := by
  induction i generalizing update current with
  | zero =>
    obtain ⟨x, hx⟩ := h.exists_lastAt (Nat.zero_le _) f
    have hwalk := h.walk_descend hfront hback hcurrent
    refine ⟨x, update.set 0 (some x), ?_, hx, fun j hj => ?_, fun j hj => ?_, List.length_set⟩
    · simp [descend, hwalk, hx]
    · obtain rfl : j = 0 := Nat.le_zero.mp hj
      rw [List.getElem?_set_self hlen, hx]
    · exact List.getElem?_set_ne (by omega)
  | succ i ih =>
    -- after the walk on this level the descent goes on one level below, from the same node
    obtain ⟨x, hx⟩ := h.exists_lastAt hi f
    have hwalk := h.walk_descend hfront hback hcurrent
    obtain ⟨current', update', hdescend, hcurrent', hle, hgt, hlen'⟩ :=
      ih (update.set (i + 1) (some x)) (by rw [List.length_set]; omega) (by omega)
        (endsAt_lower hx)
    refine ⟨current', update', ?_, hcurrent', fun j hj => ?_, fun j hj => ?_, ?_⟩
    · rw [descend, hwalk, hx]
      exact hdescend
    -- the levels below are set by the loop that is left, this one before it
    · rcases Nat.lt_or_eq_of_le hj with hj | rfl
      · exact hle j (by omega)
      · rw [hgt _ (Nat.lt_succ_self i), List.getElem?_set_self hlen, hx]
    · rw [hgt j (by omega), List.getElem?_set_ne (by omega)]
    · rw [hlen', List.length_set]

/-- The header is where every descent starts. -/
theorem Inv.endsAt_header (h : Inv s cells) (hi : i ≤ s.maxLevel) (f : List (ℕ × K × V)) :
    EndsAt s f i .header := by
  refine ⟨[], f, rfl, lastAt_cons_of_le (fun y hy => by cases hy) ?_⟩
  rw [h.header]
  omega

/-- **Spec of the descent of `insert_element` and `delete_element`.** -/
theorem Inv.exists_findPlace (h : Inv s (f ++ b)) (hfront : ∀ c ∈ f, c.2.1 < key)
    (hback : ∀ c ∈ b, ¬ c.2.1 < key) :
    ∃ current update, s.findPlace key = some (current, update) ∧
      lastAt s.height 0 (places f) = some current ∧ update.length = s.maxLevel + 1 ∧
      ∀ j ≤ s.skipListLevel, update[j]? = some (lastAt s.height j (places f)) := by
  have hlevel := h.level
  obtain ⟨current, update, hdescend, hcurrent, hle, _, hlen⟩ :=
    h.exists_descend hfront hback (List.replicate (s.maxLevel + 1) none)
      (by simp; omega) h.level (h.endsAt_header h.level f)
  exact ⟨current, update, hdescend, hcurrent, by simpa using hlen, hle⟩

/-- **Spec of the descent of `search_element`.** -/
theorem Inv.searchLevels_eq (h : Inv s (f ++ b)) (hfront : ∀ c ∈ f, c.2.1 < key)
    (hback : ∀ c ∈ b, ¬ c.2.1 < key) (hi : i ≤ s.maxLevel) {current : Place}
    (hcurrent : EndsAt s f i current) :
    s.searchLevels key (i + 1) current = lastAt s.height 0 (places f) := by
  induction i generalizing current with
  | zero =>
    obtain ⟨x, hx⟩ := h.exists_lastAt (Nat.zero_le _) f
    simp [searchLevels, h.walk_descend hfront hback hcurrent, hx]
  | succ i ih =>
    obtain ⟨x, hx⟩ := h.exists_lastAt hi f
    rw [searchLevels, h.walk_descend hfront hback hcurrent, hx]
    exact ih (by omega) (endsAt_lower hx)

/-! ### Linking a node -/

omit [LinearOrder K] in
/-- The places of the cells are their addresses. -/
theorem mem_places {a : ℕ} : .node a ∈ places cells ↔ ∃ c ∈ cells, c.1 = a := by
  simp [places]

/-- The address of a new node is not in use. -/
theorem Inv.fresh (h : Inv s cells) : ∀ x ∈ places cells, x ≠ .node s.nodes.length := by
  rintro x hx rfl
  obtain ⟨c, hc, heq⟩ := mem_places.mp hx
  obtain ⟨node, hnode, _⟩ := exists_node_of_data (h.data c hc)
  have hlt := lt_length_of_node hnode
  omega

/-- The last node of each level. -/
theorem Inv.exists_place (h : Inv s cells) (f : List (ℕ × K × V)) :
    ∃ place : ℕ → Place, ∀ i ≤ s.maxLevel, lastAt s.height i (places f) = some (place i) := by
  refine ⟨fun i => (lastAt s.height i (places f)).getD .header, fun i hi => ?_⟩
  obtain ⟨x, hx⟩ := h.exists_lastAt hi f
  show lastAt s.height i (places f) = some ((lastAt s.height i (places f)).getD .header)
  rw [hx]
  rfl

omit [LinearOrder K] in
/-- The last node of a level is a place. -/
theorem place_mem {x : Place} {i : ℕ} (h : lastAt s.height i (places f) = some x)
    (b : List (ℕ × K × V)) : x ∈ places (f ++ b) := by
  rw [places_append]
  exact List.mem_append_left _ (lastAt_mem h)

omit [LinearOrder K] in
/-- The height of the new node once it is allocated. -/
theorem SameNodes.height_new {randomLevel : ℕ}
    (h : SameNodes (s.allocate key value randomLevel) s') :
    s'.height (.node s.nodes.length) = randomLevel + 1 := by
  rw [h.height, height_allocate, if_pos rfl]

/-- The other heights are as before. -/
theorem Inv.height_old {randomLevel : ℕ} (h : Inv s cells)
    (hsame : SameNodes (s.allocate key value randomLevel) s') {x : Place} (hx : x ∈ places cells) :
    s'.height x = s.height x := by
  rw [hsame.height, height_allocate, if_neg (h.fresh x hx)]

/-- The links of the new cell and around it. -/
theorem Inv.insertCell_linked {randomLevel : ℕ} {place : ℕ → Place} (h : Inv s (f ++ b))
    (hlevel : randomLevel ≤ s.maxLevel)
    (hplace : ∀ i ≤ s.maxLevel, lastAt s.height i (places f) = some (place i))
    (hsame : SameNodes (s.allocate key value randomLevel) s')
    (hforward : ∀ p i, s'.forward p i =
      if i < randomLevel + 1 ∧ p = .node s.nodes.length then
        (s.allocate key value randomLevel).forward (place i) i
      else if i < randomLevel + 1 ∧ p = place i then some (some s.nodes.length)
      else (s.allocate key value randomLevel).forward p i) :
    Linked s'.height s'.next (places (f ++ (s.nodes.length, key, value) :: b)) := by
  have hfresh := h.fresh
  have hold : ∀ x ∈ places (f ++ b), s'.height x = s.height x := fun x => h.height_old hsame
  have hnew : s'.height (.node s.nodes.length) = randomLevel + 1 := hsame.height_new
  have hmem : ∀ i ≤ s.maxLevel, place i ∈ places (f ++ b) := fun i hi => place_mem (hplace i hi) b
  have hlast : ∀ i, lastAt s'.height i (places f) = lastAt s.height i (places f) := fun i =>
    lastAt_congr fun y hy => hold y (by rw [places_append]; exact List.mem_append_left _ hy)
  have hlinked : Linked s'.height s.next (places (f ++ b)) :=
    h.linked.congr hold fun _ _ _ _ => rfl
  rw [places_append] at hlinked
  rw [places_append, List.map_cons]
  refine hlinked.insert ?_ ?_ ?_ ?_
  · rw [← places_append]
    exact places_nodup h.nodup
  · intro i hi
    have hi' : i < randomLevel + 1 := hnew ▸ hi
    have hnext : s'.next (.node s.nodes.length) i = s.next (place i) i := by
      refine next_congr ?_
      rw [hforward, if_pos ⟨hi', rfl⟩, forward_allocate (hfresh _ (hmem i (by omega)))]
    refine hnext.trans ((h.next_eq (hplace i (by omega))).trans ?_)
    refine (firstAt_congr fun y hy => hold y ?_).symm
    rw [places_append]
    exact List.mem_append_right _ hy
  · intro i hi x hx
    have hi' : i < randomLevel + 1 := hnew ▸ hi
    obtain rfl : place i = x := by
      have hx' := (hlast i).symm.trans hx
      rw [hplace i (by omega)] at hx'
      exact Option.some.inj hx'
    refine next_of_forward (q := some s.nodes.length) ?_
    show s'.forward (place i) i = _
    rw [hforward, if_neg (fun hp => hfresh _ (hmem i (by omega)) hp.2), if_pos ⟨hi', rfl⟩]
  · intro i x hx hother
    rw [← places_append] at hx
    refine next_congr ?_
    show s'.forward x i = _
    rw [hforward, if_neg (fun hp => hfresh x hx hp.2), if_neg, forward_allocate (hfresh x hx)]
    rintro ⟨hi, rfl⟩
    exact hother (hnew ▸ hi) ((hlast i).trans (hplace i (by omega)))

/-- After the loop the new cell stands between the two parts. -/
theorem Inv.insertCell {randomLevel : ℕ} {place : ℕ → Place} (h : Inv s (f ++ b))
    (hfront : ∀ c ∈ f, c.2.1 < key) (hback : ∀ c ∈ b, key < c.2.1)
    (hlevel : randomLevel ≤ s.maxLevel)
    (hplace : ∀ i ≤ s.maxLevel, lastAt s.height i (places f) = some (place i))
    (hsame : SameNodes (s.allocate key value randomLevel) s')
    (hforward : ∀ p i, s'.forward p i =
      if i < randomLevel + 1 ∧ p = .node s.nodes.length then
        (s.allocate key value randomLevel).forward (place i) i
      else if i < randomLevel + 1 ∧ p = place i then some (some s.nodes.length)
      else (s.allocate key value randomLevel).forward p i) :
    Inv { s' with elementCount := s'.elementCount + 1 }
      (f ++ (s.nodes.length, key, value) :: b) := by
  have hfresh := h.fresh
  have hperm : (f ++ (s.nodes.length, key, value) :: b).Perm
      ((s.nodes.length, key, value) :: (f ++ b)) := List.perm_middle
  have hold : ∀ x ∈ places (f ++ b), s'.height x = s.height x := fun x => h.height_old hsame
  have hcell : ∀ c ∈ f ++ b, s'.height (.node c.1) = s.height (.node c.1) := fun c hc =>
    hold _ (mem_places.mpr ⟨c, hc, rfl⟩)
  have hnew : s'.height (.node s.nodes.length) = randomLevel + 1 := hsame.height_new
  have hcount : ((f ++ (s.nodes.length, key, value) :: b).length : Int) = (f ++ b).length + 1 := by
    rw [hperm.length_eq]
    rfl
  refine
    { sorted := ?_
      nodup := ?_
      data := fun c hc => ?_
      positive := fun c hc => ?_
      low := fun c hc => ?_
      level := ?_
      header := ?_
      linked := ?_
      count := ?_ }
  · -- the descent has put `key` between the two parts
    have hsorted := h.sorted
    rw [List.pairwise_append] at hsorted ⊢
    refine ⟨hsorted.1, List.pairwise_cons.mpr ⟨hback, hsorted.2.1⟩, fun c hc c' hc' => ?_⟩
    rcases List.mem_cons.mp hc' with rfl | hc'
    · exact hfront c hc
    · exact hsorted.2.2 c hc c' hc'
  · rw [(hperm.map Prod.fst).nodup_iff, List.map_cons, List.nodup_cons]
    -- the address of the new node is the next free one
    refine ⟨fun hmem => ?_, h.nodup⟩
    obtain ⟨c, hc, heq⟩ := List.mem_map.mp hmem
    exact hfresh _ (mem_places.mpr ⟨c, hc, rfl⟩) (congrArg Place.node heq)
  · show s'.data c.1 = some c.2
    rw [hsame.data, data_allocate]
    rcases List.mem_cons.mp (hperm.mem_iff.mp hc) with rfl | hc
    · rw [if_pos rfl]
    · have hne : c.1 ≠ s.nodes.length := fun heq =>
        hfresh _ (mem_places.mpr ⟨c, hc, rfl⟩) (congrArg Place.node heq)
      rw [if_neg hne, h.data c hc]
  · show 0 < s'.height (.node c.1)
    rcases List.mem_cons.mp (hperm.mem_iff.mp hc) with rfl | hc
    · rw [hnew]
      omega
    · rw [hcell c hc]
      exact h.positive c hc
  · -- `m_skipListLevel` is raised to the level of the new node
    show s'.height (.node c.1) ≤ s'.skipListLevel + 1
    have hlevel' : s'.skipListLevel = max s.skipListLevel randomLevel := hsame.skipListLevel
    rcases List.mem_cons.mp (hperm.mem_iff.mp hc) with rfl | hc
    · rw [hnew]
      omega
    · have hlow := h.low c hc
      rw [hcell c hc]
      omega
  · show s'.skipListLevel ≤ s'.maxLevel
    have hlevel' : s'.skipListLevel = max s.skipListLevel randomLevel := hsame.skipListLevel
    have hmax : s'.maxLevel = s.maxLevel := hsame.maxLevel
    have hlow := h.level
    omega
  · show s'.height .header = s'.maxLevel + 1
    have hmax : s'.maxLevel = s.maxLevel := hsame.maxLevel
    rw [hold _ (List.mem_cons_self ..), h.header, hmax]
  · show Linked s'.height s'.next _
    exact h.insertCell_linked hlevel hplace hsame hforward
  · have hcount' : s'.elementCount = s.elementCount := hsame.elementCount
    rw [hcount, ← h.count, ← hcount']

/-- **Linking.**  The part of `insert_element` behind the descent puts the new node between the
    two parts. -/
theorem Inv.exists_linkNode {randomLevel : ℕ} {update : List (Option Place)} (h : Inv s (f ++ b))
    (value : V) (hfront : ∀ c ∈ f, c.2.1 < key) (hback : ∀ c ∈ b, key < c.2.1)
    (hlevel : randomLevel ≤ s.maxLevel) (hlen : update.length = s.maxLevel + 1)
    (hupdate : ∀ j ≤ s.skipListLevel, update[j]? = some (lastAt s.height j (places f))) :
    ∃ s', s.linkNode key value update randomLevel = some s' ∧
      Inv s' (f ++ (s.nodes.length, key, value) :: b) ∧ s'.maxLevel = s.maxLevel := by
  have hlow := h.level
  have hfresh := h.fresh
  -- the last node of each level before the new node
  obtain ⟨place, hplace⟩ := h.exists_place f
  have hmem : ∀ i ≤ s.maxLevel, place i ∈ places (f ++ b) := fun i hi => place_mem (hplace i hi) b
  have hheight : ∀ x ∈ places (f ++ b),
      (s.allocate key value randomLevel).height x = s.height x := by
    intro x hx
    rw [height_allocate, if_neg (hfresh x hx)]
  have hraise : ∀ i < randomLevel + 1,
      ((List.range' (s.skipListLevel + 1) (randomLevel - s.skipListLevel)).foldl
        (fun update i => update.set i (some Place.header)) update)[i]? = some (some (place i)) := by
    intro i hi
    rw [getElem?_raise]
    by_cases hnew : s.skipListLevel + 1 ≤ i
    · have hheader : lastAt s.height i (places f) = some .header := by
        refine lastAt_cons_of_le (fun y hy => ?_) (by rw [h.header]; omega)
        obtain ⟨c, hc, rfl⟩ := List.mem_map.mp hy
        have hc := h.low c (List.mem_append_left _ hc)
        omega
      rw [hplace i (by omega)] at hheader
      rw [if_pos (by omega), Option.some.inj hheader]
    · rw [if_neg (by omega), hupdate i (by omega), hplace i (by omega)]
  obtain ⟨s₂, hs₂, hsame, hforward⟩ := exists_linkLevels (s := s.allocate key value randomLevel)
    (a := s.nodes.length) hraise
    (fun i hi => by
      rw [hheight _ (hmem i (by omega))]
      exact (lastAt_eq_some (hplace i (by omega))).1)
    (by rw [height_allocate, if_pos rfl])
    (fun i hi => hfresh _ (hmem i (by omega)))
  refine ⟨{ s₂ with elementCount := s₂.elementCount + 1 }, ?_, ?_, hsame.maxLevel⟩
  · rw [linkNode_eq, hs₂]
    rfl
  · exact h.insertCell hfront hback hlevel hplace hsame hforward

/-! ### Unlinking a node -/

/-- After the loop the nodes without the deleted one are linked. -/
theorem Inv.eraseLinked {c : ℕ × K × V} {place : ℕ → Place} (h : Inv s (f ++ c :: b))
    (hplace : ∀ i ≤ s.maxLevel, lastAt s.height i (places f) = some (place i))
    (hsame : SameNodes s s')
    (hforward : ∀ p i, s'.forward p i =
      if 0 ≤ i ∧ i < s.height (.node c.1) ∧ p = place i then s.forward (.node c.1) i
      else s.forward p i) : Linked s'.height s'.next (places (f ++ b)) := by
  have hlow := h.low c (by simp)
  have hlevel := h.level
  have hlinked : Linked s'.height s.next (places (f ++ c :: b)) :=
    h.linked.congr (fun x _ => hsame.height x) fun _ _ _ _ => rfl
  have hlast : ∀ i, lastAt s'.height i (places f) = lastAt s.height i (places f) := fun i =>
    lastAt_congr fun y _ => hsame.height y
  rw [places_append, List.map_cons] at hlinked
  rw [places_append]
  refine hlinked.erase ?_ ?_ ?_
  · have hnodup := places_nodup h.nodup
    rwa [places_append, List.map_cons] at hnodup
  · intro i hi x hx
    rw [hsame.height] at hi
    rw [hlast, hplace i (by omega)] at hx
    refine next_congr ?_
    rw [hforward, if_pos ⟨Nat.zero_le i, hi, (Option.some.inj hx).symm⟩]
  -- only the pointers of the last nodes before the cell have changed
  · intro i x _ hother
    refine next_congr ?_
    rw [hforward, if_neg]
    rintro ⟨_, hi, rfl⟩
    rw [hsame.height] at hother
    exact hother hi ((hlast i).trans (hplace i (by omega)))

/-- After the node is deleted and the level lowered, the row without its cell is left. -/
theorem Inv.eraseCell {c : ℕ × K × V} {level : ℕ} (h : Inv s (f ++ c :: b))
    (hsame : SameNodes s s') (hlinked : Linked s'.height s'.next (places (f ++ b)))
    (hle : level ≤ s'.skipListLevel)
    (hempty : ∀ i, level < i → i ≤ s'.skipListLevel → s'.forward .header i = some none) :
    Inv { s' with
      skipListLevel := level
      nodes := s'.nodes.set c.1 none
      elementCount := s'.elementCount - 1 } (f ++ b) := by
  have hperm : (f ++ c :: b).Perm (c :: (f ++ b)) := List.perm_middle
  have hmem : ∀ c' ∈ f ++ b, c' ∈ f ++ c :: b := fun c' hc' =>
    hperm.mem_iff.mpr (List.mem_cons_of_mem _ hc')
  have hnodup := h.nodup
  rw [(hperm.map Prod.fst).nodup_iff, List.map_cons, List.nodup_cons] at hnodup
  have hne : ∀ c' ∈ f ++ b, c'.1 ≠ c.1 := fun c' hc' heq =>
    hnodup.1 (heq ▸ List.mem_map_of_mem hc')
  have hplace : ∀ x ∈ places (f ++ b), x ≠ .node c.1 := by
    rintro x hx rfl
    obtain ⟨c', hc', heq⟩ := mem_places.mp hx
    exact hne c' hc' heq
  have hheight : ∀ x ∈ places (f ++ b), (s'.free c.1).height x = s'.height x := fun x hx =>
    height_free (hplace x hx)
  have hcell : ∀ c' ∈ f ++ b, (s'.free c.1).height (.node c'.1) = s.height (.node c'.1) :=
    fun c' hc' => (hheight _ (mem_places.mpr ⟨c', hc', rfl⟩)).trans (hsame.height _)
  have hskip := hsame.skipListLevel
  have hmax := hsame.maxLevel
  have hlevel := h.level
  refine
    { sorted := ?_
      nodup := hnodup.2
      data := fun c' hc' => ?_
      positive := fun c' hc' => ?_
      low := fun c' hc' => ?_
      level := ?_
      header := ?_
      linked := ?_
      count := ?_ }
  · exact h.sorted.sublist ((List.sublist_cons_self _ _).append_left _)
  · show (s'.free c.1).data c'.1 = some c'.2
    rw [data_free (hne c' hc'), hsame.data, h.data c' (hmem c' hc')]
  · exact lt_of_lt_of_eq (h.positive c' (hmem c' hc')) (hcell c' hc').symm
  · -- a cell above the new level would be on a level where the header points nowhere
    have hlow := h.low c' (hmem c' hc')
    show (s'.free c.1).height (.node c'.1) ≤ level + 1
    rw [hcell c' hc']
    by_contra hhigh
    have hnone := next_of_forward (hempty (s.height (.node c'.1) - 1) (by omega) (by omega))
    rw [hlinked [] .header _ rfl _ (by rw [hsame.height, h.header]; omega), Option.map_none,
      firstAt_eq_none] at hnone
    have hreach := hnone _ (List.mem_map_of_mem hc')
    rw [hsame.height] at hreach
    omega
  · show level ≤ s'.maxLevel
    omega
  · show (s'.free c.1).height .header = s'.maxLevel + 1
    rw [hheight _ (List.mem_cons_self ..), hsame.height, h.header, hmax]
  · -- freeing the node leaves the links of the others
    exact hlinked.congr hheight fun x hx i _ => next_congr (forward_free (hplace x hx))
  · show s'.elementCount - 1 = ((f ++ b).length : Int)
    have hcount := h.count
    rw [hsame.elementCount, hcount, hperm.length_eq]
    simp

/-- **Unlinking.**  The part of `delete_element` behind the descent takes the node out from
    between the two parts. -/
theorem Inv.exists_unlink {c : ℕ × K × V} {update : List (Option Place)}
    (h : Inv s (f ++ c :: b))
    (hupdate : ∀ j ≤ s.skipListLevel, update[j]? = some (lastAt s.height j (places f))) :
    ∃ s₁ level, unlinkLevels c.1 update (List.range (s.skipListLevel + 1)) s = some s₁ ∧
      s₁.lowerLevel s₁.skipListLevel = some level ∧ s₁.maxLevel = s.maxLevel ∧
      Inv { s₁ with
        skipListLevel := level
        nodes := s₁.nodes.set c.1 none
        elementCount := s₁.elementCount - 1 } (f ++ b) := by
  have hlevel := h.level
  obtain ⟨place, hplace⟩ := h.exists_place f
  have hnodup := places_nodup h.nodup
  rw [places_append, List.map_cons] at hnodup
  -- `place` is what `update` holds on each level
  obtain ⟨s₁, hs₁, hsame, hforward⟩ := exists_unlinkLevels s c.1 0
    (s.skipListLevel + 1) update place
    (fun i _ hi => by rw [hupdate i (by omega), hplace i (by omega)])
    (fun i _ hi => (lastAt_eq_some (hplace i (by omega))).1)
    (fun i _ hi heq => lastAt_ne_of_mem_back hnodup (List.mem_cons_self ..)
      (heq ▸ hplace i (by omega)))
    (fun i _ hi => h.forward_eq_iff (hplace i (by omega)))
    (by have hlow := h.low c (by simp); omega)
  have hlinked := h.eraseLinked hplace hsame hforward
  have hheader : s₁.height .header = s.maxLevel + 1 := (hsame.height _).trans h.header
  -- the loop that lowers the level reads the header only, which is high enough
  obtain ⟨level, hle, hlower, hempty⟩ := exists_lowerLevel s₁ s₁.skipListLevel
    (fun i hi => by rw [hheader]; rw [hsame.skipListLevel] at hi; omega)
  refine ⟨s₁, level, ?_, hlower, hsame.maxLevel, ?_⟩
  · rw [List.range_eq_range']
    exact hs₁
  · exact h.eraseCell hsame hlinked hle hempty

/-! ### The operations -/

/-- The memory holds the bottom level `l`. -/
def Represents (s : SkipListHeap K V) (l : SkipList K V) : Prop :=
  ∃ cells, Inv s cells ∧ l.chain = cells.map Prod.snd

variable {l : SkipList K V}

/-- What a memory represents is sorted. -/
theorem Represents.sorted (h : Represents s l) : l.Sorted := by
  obtain ⟨cells, hinv, hchain⟩ := h
  rw [SkipList.Sorted, hchain]
  exact List.pairwise_map.mpr hinv.sorted

/-- The constructor makes an empty list. -/
theorem represents_init (maxLevel : ℕ) :
    Represents (init maxLevel : SkipListHeap K V) ({} : SkipList K V) := by
  have hheight : (init maxLevel : SkipListHeap K V).height .header = maxLevel + 1 := by
    simp [height, forwards, init]
  refine ⟨[], ?_, rfl⟩
  refine
    { sorted := List.Pairwise.nil
      nodup := List.nodup_nil
      data := fun c hc => by cases hc
      positive := fun c hc => by cases hc
      low := fun c hc => by cases hc
      level := Nat.zero_le _
      header := hheight
      linked := ?_
      count := rfl }
  intro p x q hsplit i hi
  obtain ⟨rfl, rfl, rfl⟩ : p = [] ∧ x = .header ∧ q = [] := by
    cases p with
    | nil => simpa [places, eq_comm] using hsplit
    | cons y p => simp [places] at hsplit
  rw [hheight] at hi
  simp [next, forward, forwards, init, hi]

/-- A key cuts the row where it cuts the bottom level. -/
theorem Inv.exists_split (h : Inv s cells) (hchain : l.chain = cells.map Prod.snd) (key : K) :
    ∃ f b, cells = f ++ b ∧ (∀ c ∈ f, c.2.1 < key) ∧ (∀ c ∈ b, key ≤ c.2.1) ∧
      l.front key = f.map Prod.snd ∧ l.back key = b.map Prod.snd := by
  refine ⟨cells.takeWhile fun c => c.2.1 < key, cells.dropWhile fun c => c.2.1 < key,
    List.takeWhile_append_dropWhile.symm, fun c hc => ?_, fun c hc => ?_, ?_, ?_⟩
  · simpa using List.mem_takeWhile_imp hc
  · have hsorted : (cells.dropWhile fun c => c.2.1 < key).Pairwise fun c c' => c.2.1 < c'.2.1 :=
      h.sorted.sublist (List.dropWhile_sublist _)
    cases hdrop : cells.dropWhile fun c => c.2.1 < key with
    | nil => simp [hdrop] at hc
    | cons c₀ rest =>
      have hhead := List.head?_dropWhile_not (fun c : ℕ × K × V => decide (c.2.1 < key)) cells
      rw [hdrop] at hhead hsorted hc
      have hle : key ≤ c₀.2.1 := by simpa using hhead
      rcases List.mem_cons.mp hc with rfl | hc
      · exact hle
      · exact hle.trans (List.rel_of_pairwise_cons hsorted hc).le
  · rw [SkipList.front, hchain, List.takeWhile_map]
    rfl
  · rw [SkipList.back, hchain, List.dropWhile_map]
    rfl

/-- On the bottom level the place before a key points to the first cell behind it. -/
theorem Inv.forward_zero (h : Inv s (f ++ b)) (hx : lastAt s.height 0 (places f) = some x) :
    s.forward x 0 = some (b.head?.map Prod.fst) := by
  cases b with
  | nil =>
    rcases h.forward_cases hx with ⟨hforward, _⟩ | ⟨c, hc, _⟩
    · exact hforward
    · cases hc
  | cons c b => exact (h.forward_eq_iff hx).mpr (h.positive c (by simp))

/-- `search_element` finds what is on the bottom level. -/
theorem Represents.searchElement_eq (h : Represents s l) (key : K) :
    s.searchElement key = some (l.searchElement key) := by
  obtain ⟨cells, hinv, hchain⟩ := h
  obtain ⟨f, b, rfl, hfront, hback, _, hbackl⟩ := hinv.exists_split hchain key
  obtain ⟨x, hx⟩ := hinv.exists_lastAt (Nat.zero_le _) f
  have hsearch : s.searchLevels key (s.skipListLevel + 1) .header = some x := by
    rw [← hx]
    exact hinv.searchLevels_eq hfront (fun c hc => not_lt.mpr (hback c hc)) hinv.level
      (hinv.endsAt_header hinv.level f)
  have hforward := hinv.forward_zero hx
  rw [SkipListHeap.searchElement, hsearch, SkipList.searchElement, hbackl]
  cases b with
  | nil => simp [hforward]
  | cons c b =>
    obtain ⟨node, hnode, hkey, hvalue⟩ := exists_node_of_data (hinv.data c (by simp))
    simp [hforward, hnode, hkey, hvalue]

/-- Behind a key there is the key itself first, or only larger ones. -/
theorem Inv.back_cases (h : Inv s (f ++ b)) (hback : ∀ c ∈ b, key ≤ c.2.1) :
    (∃ c b', b = c :: b' ∧ c.2.1 = key) ∨ ∀ c ∈ b, key < c.2.1 := by
  cases b with
  | nil => exact Or.inr fun c hc => by cases hc
  | cons c b =>
    rcases (hback c (List.mem_cons_self ..)).eq_or_lt with heq | hlt
    · exact Or.inl ⟨c, b, rfl, heq.symm⟩
    · refine Or.inr fun c' hc' => ?_
      rcases List.mem_cons.mp hc' with rfl | hc'
      · exact hlt
      · have hsorted := (List.pairwise_append.mp h.sorted).2.1
        exact hlt.trans (List.rel_of_pairwise_cons hsorted hc')

/-- `insert_element` is the insertion on the bottom level. -/
theorem Represents.exists_insertElement (h : Represents s l) (key : K) (value : V)
    {randomLevel : ℕ} (hlevel : randomLevel ≤ s.maxLevel) :
    ∃ s', s.insertElement key value randomLevel = some ((l.insertElement key value).1, s') ∧
      Represents s' (l.insertElement key value).2 ∧ s'.maxLevel = s.maxLevel := by
  obtain ⟨cells, hinv, hchain⟩ := h
  obtain ⟨f, b, rfl, hfront, hback, hfrontl, hbackl⟩ := hinv.exists_split hchain key
  obtain ⟨x, update, hfind, hx, hlen, hupdate⟩ :=
    hinv.exists_findPlace hfront fun c hc => not_lt.mpr (hback c hc)
  have hforward := hinv.forward_zero hx
  rcases hinv.back_cases hback with ⟨c, b, rfl, rfl⟩ | hstrict
  · obtain ⟨node, hnode, hkey, _⟩ := exists_node_of_data (hinv.data c (by simp))
    have hbackc : l.back c.2.1 = (c.2.1, c.2.2) :: b.map Prod.snd := by simp [hbackl]
    rw [SkipList.insertElement_found hbackc]
    refine ⟨s, ?_, ⟨_, hinv, hchain⟩, rfl⟩
    simp [SkipListHeap.insertElement, hfind, hforward, hnode, hkey]
  · obtain ⟨s', hs', hinv', hmax⟩ :=
      hinv.exists_linkNode value hfront hstrict hlevel hlen hupdate
    have habsent : ∀ node ∈ l.back key, key < node.1 := by
      intro node hnode
      rw [hbackl] at hnode
      obtain ⟨c, hc, rfl⟩ := List.mem_map.mp hnode
      exact hstrict c hc
    rw [SkipList.insertElement_absent habsent]
    refine ⟨s', ?_, ⟨_, hinv', ?_⟩, hmax⟩
    · cases b with
      | nil => simp [SkipListHeap.insertElement, hfind, hforward, hs']
      | cons c b =>
        obtain ⟨node, hnode, hkey, _⟩ := exists_node_of_data (hinv.data c (by simp))
        have hne : node.key ≠ key := by
          rw [hkey]
          exact (hstrict c (List.mem_cons_self ..)).ne'
        simp [SkipListHeap.insertElement, hfind, hforward, hnode, hne, hs']
    · simp [hfrontl, hbackl]

/-- `delete_element` is the deletion on the bottom level. -/
theorem Represents.exists_deleteElement (h : Represents s l) (key : K) :
    ∃ s', s.deleteElement key = some s' ∧ Represents s' (l.deleteElement key) ∧
      s'.maxLevel = s.maxLevel := by
  obtain ⟨cells, hinv, hchain⟩ := h
  obtain ⟨f, b, rfl, hfront, hback, hfrontl, hbackl⟩ := hinv.exists_split hchain key
  obtain ⟨x, update, hfind, hx, hlen, hupdate⟩ :=
    hinv.exists_findPlace hfront fun c hc => not_lt.mpr (hback c hc)
  have hforward := hinv.forward_zero hx
  rcases hinv.back_cases hback with ⟨c, b, rfl, rfl⟩ | hstrict
  · obtain ⟨node, hnode, hkey, _⟩ := exists_node_of_data (hinv.data c (by simp))
    obtain ⟨s₁, level, hunlink, hlower, hmax, hinv'⟩ := hinv.exists_unlink hupdate
    have hbackc : l.back c.2.1 = (c.2.1, c.2.2) :: b.map Prod.snd := by simp [hbackl]
    rw [SkipList.deleteElement_found hbackc]
    refine ⟨_, ?_, ⟨_, hinv', ?_⟩, hmax⟩
    · simp [SkipListHeap.deleteElement, hfind, hforward, hnode, hkey, hunlink, hlower]
    · simp [hfrontl]
  · have habsent : ∀ node ∈ l.back key, key < node.1 := by
      intro node hnode
      rw [hbackl] at hnode
      obtain ⟨c, hc, rfl⟩ := List.mem_map.mp hnode
      exact hstrict c hc
    rw [SkipList.deleteElement_absent habsent]
    refine ⟨s, ?_, ⟨_, hinv, hchain⟩, rfl⟩
    cases b with
    | nil => simp [SkipListHeap.deleteElement, hfind, hforward]
    | cons c b =>
      obtain ⟨node, hnode, hkey, _⟩ := exists_node_of_data (hinv.data c (by simp))
      have hne : node.key ≠ key := by
        rw [hkey]
        exact (hstrict c (List.mem_cons_self ..)).ne'
      simp [SkipListHeap.deleteElement, hfind, hforward, hnode, hne]

/-- `insert_set_element` is that of the bottom level. -/
theorem Represents.exists_insertSetElement (h : Represents s l) (key : K) (value : V)
    {randomLevel : ℕ} (hlevel : randomLevel ≤ s.maxLevel) :
    ∃ s', s.insertSetElement key value randomLevel = some s' ∧
      Represents s' (l.insertSetElement key value) ∧ s'.maxLevel = s.maxLevel := by
  have hsearch := h.searchElement_eq key
  unfold SkipListHeap.insertSetElement SkipList.insertSetElement
  cases hl : l.searchElement key with
  | none =>
    obtain ⟨s', hs', h', hmax⟩ := h.exists_insertElement key value hlevel
    exact ⟨s', by simp [hsearch, hl, hs'], h', hmax⟩
  | some v =>
    obtain ⟨s₁, hs₁, h₁, hmax₁⟩ := h.exists_deleteElement key
    obtain ⟨s', hs', h', hmax⟩ := h₁.exists_insertElement key value (hmax₁ ▸ hlevel)
    exact ⟨s', by simp [hsearch, hl, hs₁, hs'], h', hmax.trans hmax₁⟩

/-- The loop of `dump_file` collects the cells from its node on. -/
theorem Inv.dumpNodes_eq (h : Inv s (f ++ b)) {fuel : ℕ} (hfuel : b.length ≤ fuel)
    (dumper : SkipListDump K V) :
    s.dumpNodes fuel (b.head?.map Prod.fst) dumper = some
      { keyDumpVt := dumper.keyDumpVt ++ b.map fun c => c.2.1
        valDumpVt := dumper.valDumpVt ++ b.map fun c => c.2.2 } := by
  induction b generalizing f fuel dumper with
  | nil => simp [dumpNodes]
  | cons c b ih =>
    obtain ⟨fuel, rfl⟩ : ∃ n, fuel = n + 1 := ⟨fuel - 1, by simp at hfuel; omega⟩
    have h' : Inv s (f ++ [c] ++ b) := by simpa using h
    have hx : lastAt s.height 0 (places (f ++ [c])) = some (.node c.1) := by
      rw [places_append, List.map_singleton, lastAt_concat, if_pos (h.positive c (by simp))]
    obtain ⟨node, hnode, hkey, hvalue⟩ := exists_node_of_data (h.data c (by simp))
    have hforward := h'.forward_zero hx
    rw [List.head?_cons, Option.map_some, dumpNodes, hnode, hforward, Option.bind_eq_bind,
      Option.bind_some, Option.bind_eq_bind, Option.bind_some, ih h' (by simpa using hfuel)]
    simp [hkey, hvalue]

/-- `dump_file` lists the bottom level. -/
theorem Represents.dumpFile_eq (h : Represents s l) : s.dumpFile = some l.dumpFile := by
  obtain ⟨cells, hinv, hchain⟩ := h
  have hx : lastAt s.height 0 (places ([] : List (ℕ × K × V))) = some .header :=
    lastAt_cons_of_le (fun y hy => by cases hy) (by rw [hinv.header]; omega)
  have hforward := Inv.forward_zero (f := []) hinv hx
  have hdump := Inv.dumpNodes_eq (f := []) hinv hinv.length_le
    { keyDumpVt := [], valDumpVt := [] }
  simp [SkipListHeap.dumpFile, hforward, hdump, SkipList.dumpFile, hchain, Function.comp_def]

/-- The counter is the number of nodes. -/
theorem Represents.size_eq (h : Represents s l) : s.size = l.chain.length := by
  obtain ⟨cells, hinv, hchain⟩ := h
  rw [size, hinv.count, hchain, List.length_map]

end SkipListHeap

end RaftStore
