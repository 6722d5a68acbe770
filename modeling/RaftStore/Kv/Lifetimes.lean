import RaftStore.Kv.SkipListMap

namespace RaftStore

/-!
# The nodes of the skip list over a run

A node of level `k` is on the lists 0 to `k` from its insertion to its deletion, with the key, the
value and the level that it was made with.  The row of cells has every node of the memory: there
are as many nodes as `_element_count` says, and as many cells.

* `SkipListHeap.OnList` — what the pointers of one level lead to from the header.
* `SkipListHeap.WellLinked` — the lists have the nodes of their level and the higher ones.
* `SkipListHeap.Later` — the nodes of a memory after some calls.
* `exists_insertElement_later`, `exists_deleteElement_later` — what one call does to the nodes.
* `run_wellLinked` — every sequence of calls.
* `destroy_run` — the destructor after it.
-/

namespace SkipListHeap

variable {K V : Type} {s s' s'' : SkipListHeap K V} {p : Place} {i a : ℕ}

/-! ### Assignments keep the nodes -/

/-- A pointer that is set leaves the nodes. -/
theorem sameNodes_of_setForward {q : Option ℕ} (h : s.setForward p i q = some s') :
    SameNodes s s' := by
  have hlt : i < s.height p := by
    rw [← isSome_forward]
    unfold setForward at h
    cases hforward : s.forward p i with
    | none => simp [hforward] at h
    | some q' => rfl
  obtain ⟨s₁, hs₁, hsame, -⟩ := exists_setForward hlt q
  rw [h] at hs₁
  rwa [Option.some.inj hs₁]

/-- Linking on one level leaves the nodes. -/
theorem sameNodes_of_linkLevel {update : List (Option Place)}
    (h : linkLevel a update s i = some s') : SameNodes s s' := by
  rw [linkLevel] at h
  simp only [Option.bind_eq_bind, Option.bind_eq_some_iff] at h
  obtain ⟨prev, -, next, -, s₁, hs₁, hs'⟩ := h
  exact (sameNodes_of_setForward hs₁).trans (sameNodes_of_setForward hs')

/-- Linking on several levels leaves the nodes. -/
theorem sameNodes_of_linkLevels {update : List (Option Place)} {levels : List ℕ}
    (h : levels.foldlM (linkLevel a update) s = some s') : SameNodes s s' := by
  induction levels generalizing s with
  | nil =>
    obtain rfl := Option.some.inj h
    exact .refl s
  | cons i levels ih =>
    rw [List.foldlM_cons, Option.bind_eq_bind, Option.bind_eq_some_iff] at h
    obtain ⟨s₁, hs₁, hs'⟩ := h
    exact (sameNodes_of_linkLevel hs₁).trans (ih hs')

/-- Unlinking leaves the nodes. -/
theorem sameNodes_of_unlinkLevels {update : List (Option Place)} {levels : List ℕ}
    (h : unlinkLevels a update levels s = some s') : SameNodes s s' := by
  induction levels generalizing s with
  | nil =>
    obtain rfl := Option.some.inj h
    exact .refl s
  | cons i levels ih =>
    rw [unlinkLevels] at h
    simp only [Option.bind_eq_bind, Option.bind_eq_some_iff] at h
    obtain ⟨prev, -, q, -, h⟩ := h
    split at h
    · obtain rfl := Option.some.inj h
      exact .refl s
    · simp only [Option.bind_eq_some_iff] at h
      obtain ⟨next, -, s₁, hs₁, hs'⟩ := h
      exact (sameNodes_of_setForward hs₁).trans (ih hs')

/-! ### Nodes over time -/

/-- The addresses in use. -/
def live (s : SkipListHeap K V) : List ℕ :=
  (List.range s.nodes.length).filter fun a => (s.data a).isSome

/-- The nodes are counted by `_element_count`. -/
def Counted (s : SkipListHeap K V) : Prop := (s.live.length : Int) = s.elementCount

/-- A node that was there is there with its key, its value and its level, or deleted; and what was
    deleted stays deleted. -/
structure Later (s s' : SkipListHeap K V) : Prop where
  length : s.nodes.length ≤ s'.nodes.length
  node : ∀ a < s.nodes.length,
    s'.node a = none ∨ s'.data a = s.data a ∧ s'.height (.node a) = s.height (.node a)

/-- An address without data has no node. -/
theorem data_eq_none : s.data a = none ↔ s.node a = none := by rw [data, Option.map_eq_none_iff]

/-- Nothing has happened. -/
theorem Later.refl (s : SkipListHeap K V) : Later s s := ⟨le_rfl, fun _ _ => .inr ⟨rfl, rfl⟩⟩

/-- One after the other. -/
theorem Later.trans (h : Later s s') (h' : Later s' s'') : Later s s'' := by
  refine ⟨h.length.trans h'.length, fun a ha => ?_⟩
  rcases h'.node a (ha.trans_le h.length) with hnone | ⟨hdata, hheight⟩
  · exact .inl hnone
  · rcases h.node a ha with hnone | ⟨hdata', hheight'⟩
    · left
      rwa [← data_eq_none, hdata, data_eq_none]
    · exact .inr ⟨hdata.trans hdata', hheight.trans hheight'⟩

/-- The live addresses are those with data. -/
theorem mem_live : a ∈ s.live ↔ (s.data a).isSome = true := by
  rw [live, List.mem_filter, List.mem_range]
  refine and_iff_right_of_imp fun h => ?_
  rw [data, Option.isSome_map, Option.isSome_iff_exists] at h
  obtain ⟨node, hnode⟩ := h
  exact lt_length_of_node hnode

/-- No address is live twice. -/
theorem nodup_live (s : SkipListHeap K V) : s.live.Nodup := List.nodup_range.filter _

/-- What a call does to the nodes: nothing, one more, or one less. -/
inductive Change (s s' : SkipListHeap K V) : Prop
  | same (h : s' = s)
  | new (key : K) (value : V) (randomLevel : ℕ) (length : s'.nodes.length = s.nodes.length + 1)
      (count : s'.elementCount = s.elementCount + 1)
      (data : s'.data s.nodes.length = some (key, value))
      (height : s'.height (.node s.nodes.length) = randomLevel + 1)
      (others : ∀ a ≠ s.nodes.length,
        s'.data a = s.data a ∧ s'.height (.node a) = s.height (.node a))
  | deleted (a : ℕ) (length : s'.nodes.length = s.nodes.length)
      (count : s'.elementCount = s.elementCount - 1) (before : (s.data a).isSome = true)
      (after : s'.node a = none)
      (others : ∀ a' ≠ a, s'.data a' = s.data a' ∧ s'.height (.node a') = s.height (.node a'))

/-- One call leads to a later memory. -/
theorem Change.later (h : Change s s') : Later s s' := by
  cases h with
  | same h =>
    subst h
    exact .refl s'
  | new key value randomLevel length count data height others =>
    exact ⟨length ▸ Nat.le_succ _, fun a ha => .inr (others a ha.ne)⟩
  | deleted a length count before after others =>
    refine ⟨length.ge, fun a' _ => ?_⟩
    by_cases ha : a' = a
    · rw [ha]
      exact .inl after
    · exact .inr (others a' ha)

/-- The counter follows the nodes. -/
theorem Change.counted (h : Change s s') (hcounted : Counted s) : Counted s' := by
  cases h with
  | same h =>
    subst h
    exact hcounted
  | new key value randomLevel length count data height others =>
    -- the new node is the last of the memory; the others stay as they are
    have hlive : s'.live = s.live ++ [s.nodes.length] := by
      rw [live, length, List.range_succ, List.filter_append, live]
      congr 1
      · refine List.filter_congr fun a ha => ?_
        rw [(others a (List.mem_range.mp ha).ne).1]
      · simp [data]
    have hlength : s'.live.length = s.live.length + 1 := by
      rw [hlive, List.length_append]
      rfl
    rw [Counted, hlength, count, ← hcounted]
    omega
  | deleted a length count before after others =>
    -- the freed node leaves the live ones, which name it once
    have hlive : s'.live = s.live.filter fun a' => a' != a := by
      rw [live, length, live, List.filter_filter]
      refine List.filter_congr fun a' _ => ?_
      by_cases ha : a' = a
      · subst ha
        simp [data_eq_none.mpr after]
      · rw [(others a' ha).1]
        simp [ha]
    have hmem : a ∈ s.live := mem_live.mpr before
    have hlength : s'.live.length = s.live.length - 1 := by
      rw [hlive, ← (nodup_live s).erase_eq_filter, List.length_erase_of_mem hmem]
    have hpos := List.length_pos_of_mem hmem
    rw [Counted, hlength, count, ← hcounted]
    omega

/-! ### Calls -/

section calls

variable [LT K] [DecidableLT K] [DecidableEq K] {key : K} {value : V} {randomLevel : ℕ}

omit [LT K] [DecidableLT K] [DecidableEq K] in
/-- Linking a node allocates it. -/
theorem change_linkNode {update : List (Option Place)}
    (h : s.linkNode key value update randomLevel = some s') : Change s s' := by
  rw [linkNode_eq, Option.bind_eq_some_iff] at h
  obtain ⟨s₁, hs₁, hs'⟩ := h
  obtain rfl := Option.some.inj hs'
  have hsame := sameNodes_of_linkLevels hs₁
  refine .new key value randomLevel ?_ ?_ ?_ ?_ fun a ha => ⟨?_, ?_⟩
  · show s₁.nodes.length = _
    rw [hsame.length, allocate, List.length_append]
    rfl
  · show s₁.elementCount + 1 = _
    rw [hsame.elementCount]
    rfl
  · show s₁.data s.nodes.length = _
    rw [hsame.data, data_allocate, if_pos rfl]
  · exact hsame.height_new
  · show s₁.data a = _
    rw [hsame.data, data_allocate, if_neg ha]
  · show s₁.height (.node a) = _
    rw [hsame.height, height_allocate, if_neg (fun h => ha (Place.node.inj h))]

/-- `insert_element` allocates at most one node. -/
theorem change_insertElement {n : Int}
    (h : s.insertElement key value randomLevel = some (n, s')) : Change s s' := by
  rw [insertElement] at h
  simp only [Option.bind_eq_bind, Option.bind_eq_some_iff] at h
  obtain ⟨⟨current, update⟩, -, q, -, h⟩ := h
  -- either way a node is linked, or the key was there
  cases q with
  | none =>
    simp only [Option.bind_eq_some_iff] at h
    obtain ⟨s₁, hs₁, h⟩ := h
    obtain rfl := (Prod.mk.inj (Option.some.inj h)).2
    exact change_linkNode hs₁
  | some a =>
    simp only [Option.bind_eq_some_iff] at h
    obtain ⟨node, -, h⟩ := h
    split at h
    · exact .same (Prod.mk.inj (Option.some.inj h)).2.symm
    · simp only [Option.bind_eq_some_iff] at h
      obtain ⟨s₁, hs₁, h⟩ := h
      obtain rfl := (Prod.mk.inj (Option.some.inj h)).2
      exact change_linkNode hs₁

/-- `delete_element` frees at most one node. -/
theorem change_deleteElement (h : s.deleteElement key = some s') : Change s s' := by
  rw [deleteElement] at h
  simp only [Option.bind_eq_bind, Option.bind_eq_some_iff] at h
  obtain ⟨⟨current, update⟩, -, q, -, h⟩ := h
  cases q with
  | none => exact .same (Option.some.inj h).symm
  | some a =>
    simp only [Option.bind_eq_some_iff] at h
    obtain ⟨node, hnode, h⟩ := h
    -- a node is freed only if it is the one with the key
    split at h
    · simp only [Option.bind_eq_some_iff] at h
      obtain ⟨s₁, hs₁, level, -, h⟩ := h
      obtain rfl := Option.some.inj h
      have hsame := sameNodes_of_unlinkLevels hs₁
      refine .deleted a ?_ ?_ ?_ ?_ fun a' ha' => ⟨?_, ?_⟩
      · exact List.length_set.trans hsame.length
      · show s₁.elementCount - 1 = _
        rw [hsame.elementCount]
      · rw [data, hnode]
        rfl
      · show (s₁.free a).node a = none
        rw [SkipListHeap.node, free, List.getElem?_set_self']
        cases s₁.nodes[a]? <;> rfl
      · exact (data_free ha').trans (hsame.data a')
      · exact (height_free (fun h => ha' (Place.node.inj h))).trans (hsame.height _)
    · exact .same (Option.some.inj h).symm

/-- One call, as at most a deletion and then an insertion. -/
theorem exists_change_call {c : SkipCall K V} {result : SkipResult K V}
    (h : s.call c = some (result, s')) : ∃ s₁, Change s s₁ ∧ Change s₁ s' := by
  cases c with
  | insertElement key value randomLevel =>
    simp only [call, Option.bind_eq_bind, Option.bind_eq_some_iff] at h
    obtain ⟨⟨n, s₁⟩, hs₁, h⟩ := h
    obtain rfl := (Prod.mk.inj (Option.some.inj h)).2
    exact ⟨s, .same rfl, change_insertElement hs₁⟩
  | insertSetElement key value randomLevel =>
    simp only [call, insertSetElement, Option.bind_eq_bind, Option.bind_eq_some_iff] at h
    obtain ⟨s₂, ⟨found, -, hs₂⟩, h⟩ := h
    obtain rfl := (Prod.mk.inj (Option.some.inj h)).2
    -- only a key that is there is deleted before it is inserted again
    cases found with
    | none =>
      simp only [Option.bind_some, Option.bind_eq_some_iff] at hs₂
      obtain ⟨⟨n, s₁⟩, hs₁, hs₂⟩ := hs₂
      obtain rfl := Option.some.inj hs₂
      exact ⟨s, .same rfl, change_insertElement hs₁⟩
    | some v =>
      simp only [Option.bind_eq_some_iff] at hs₂
      obtain ⟨s₁, hs₁, ⟨n, s₃⟩, hs₃, hs₂⟩ := hs₂
      obtain rfl := Option.some.inj hs₂
      exact ⟨s₁, change_deleteElement hs₁, change_insertElement hs₃⟩
  | deleteElement key =>
    simp only [call, Option.bind_eq_bind, Option.bind_eq_some_iff] at h
    obtain ⟨s₁, hs₁, h⟩ := h
    obtain rfl := (Prod.mk.inj (Option.some.inj h)).2
    exact ⟨s, .same rfl, change_deleteElement hs₁⟩
  | searchElement key =>
    simp only [call, Option.bind_eq_bind, Option.bind_eq_some_iff] at h
    obtain ⟨found, -, h⟩ := h
    obtain rfl := (Prod.mk.inj (Option.some.inj h)).2
    exact ⟨s, .same rfl, .same rfl⟩
  | size =>
    obtain rfl := (Prod.mk.inj (Option.some.inj h)).2
    exact ⟨s, .same rfl, .same rfl⟩
  | dumpFile =>
    simp only [call, Option.bind_eq_bind, Option.bind_eq_some_iff] at h
    obtain ⟨dumper, -, h⟩ := h
    obtain rfl := (Prod.mk.inj (Option.some.inj h)).2
    exact ⟨s, .same rfl, .same rfl⟩

/-- The memory after a sequence of calls. -/
def run (s : SkipListHeap K V) : List (SkipCall K V) → Option (SkipListHeap K V)
  | [] => some s
  | c :: cs => do
    let (_, s) ← s.call c
    run s cs

end calls

/-! ### The lists -/

/-- The node at `a` is on the list of level `i`. -/
inductive OnList (s : SkipListHeap K V) (i : ℕ) : ℕ → Prop
  | first {a : ℕ} (h : s.forward .header i = some (some a)) : OnList s i a
  | next {a b : ℕ} (h : OnList s i a) (hb : s.forward (.node a) i = some (some b)) : OnList s i b

/-- The level of the list is at most the maximum, the header points nowhere above it, and a node is
    on exactly the lists up to its own level. -/
structure WellLinked (s : SkipListHeap K V) : Prop where
  level : s.skipListLevel ≤ s.maxLevel
  above : ∀ i, s.skipListLevel < i → i ≤ s.maxLevel → s.forward .header i = some none
  onList : ∀ a i, s.OnList i a ↔ ∃ node, s.node a = some node ∧ i < node.forward.length

/-- The height of a node is the number of its pointers. -/
theorem height_eq {node : Node K V} (h : s.node a = some node) :
    s.height (.node a) = node.forward.length := by
  rw [height, forwards, h]
  rfl

section lists

variable [LinearOrder K] {cells f b : List (ℕ × K × V)}

/-- Where a pointer of a place of the row leads. -/
theorem Inv.forward_mem (h : Inv s cells) (hp : p ∈ places cells)
    (hforward : s.forward p i = some (some a)) :
    .node a ∈ places cells ∧ i < s.height (.node a) := by
  obtain ⟨front, back, hsplit⟩ := List.append_of_mem hp
  have hlt : i < s.height p := by
    rw [← isSome_forward, hforward]
    rfl
  have hnext := h.linked front p back hsplit i hlt
  rw [next_of_forward hforward, Option.map_some] at hnext
  obtain ⟨hmem, hheight⟩ := firstAt_eq_some hnext.symm
  refine ⟨?_, hheight⟩
  rw [hsplit]
  exact List.mem_append_right _ (List.mem_cons_of_mem _ hmem)

/-- What lies on a level is a cell that reaches it. -/
theorem Inv.mem_of_onList (h : Inv s cells) (ha : s.OnList i a) :
    .node a ∈ places cells ∧ i < s.height (.node a) := by
  induction ha with
  | first hfirst => exact h.forward_mem (List.mem_cons_self ..) hfirst
  | next _ hb ih => exact h.forward_mem ih.1 hb

/-- A cell that reaches the level is on its list, behind those that do before it. -/
theorem Inv.onList_of_mem {c : ℕ × K × V} (h : Inv s (f ++ c :: b)) (hi : i ≤ s.maxLevel)
    (hlt : i < s.height (.node c.1)) : s.OnList i c.1 := by
  induction hlen : f.length using Nat.strong_induction_on generalizing f c b with
  | _ len ih =>
    obtain ⟨x, hx⟩ := h.exists_lastAt hi f
    have hforward := (h.forward_eq_iff hx).mpr hlt
    have hmem := lastAt_mem hx
    cases x with
    | header => exact .first hforward
    | node a =>
      obtain ⟨c', hc', rfl⟩ := mem_places.mp hmem
      obtain ⟨f₁, f₂, rfl⟩ := List.append_of_mem hc'
      have h' : Inv s (f₁ ++ c' :: (f₂ ++ c :: b)) := by simpa using h
      refine .next (ih f₁.length ?_ h' (lastAt_eq_some hx).1 rfl) hforward
      rw [← hlen, List.length_append, List.length_cons]
      omega

/-- There is a cell for every node. -/
theorem Inv.mem_cells (h : Inv s cells) (hcounted : Counted s) (ha : (s.data a).isSome = true) :
    ∃ c ∈ cells, c.1 = a := by
  have hsub : cells.map Prod.fst ⊆ s.live := by
    intro a' ha'
    obtain ⟨c, hc, rfl⟩ := List.mem_map.mp ha'
    rw [mem_live, h.data c hc]
    rfl
  have hlength : s.live.length ≤ (cells.map Prod.fst).length := by
    have hcount := h.count
    rw [Counted] at hcounted
    rw [List.length_map]
    omega
  have hperm := (h.nodup.subperm hsub).perm_of_length_le hlength
  exact List.mem_map.mp (hperm.mem_iff.mpr (mem_live.mpr ha))

/-- The row of all nodes is linked on every level. -/
theorem Inv.wellLinked (h : Inv s cells) (hcounted : Counted s) : WellLinked s := by
  refine ⟨h.level, fun i hlt hle => ?_, fun a i => ⟨fun ha => ?_, ?_⟩⟩
  · -- no cell reaches above the level of the list
    have hx : lastAt s.height i (places ([] : List (ℕ × K × V))) = some .header :=
      lastAt_cons_of_le (fun y hy => by cases hy) (by rw [h.header]; omega)
    rcases Inv.forward_cases (f := []) h hx with ⟨hnone, -⟩ | ⟨c, hc, hi, -⟩
    · exact hnone
    · have hlow := h.low c hc
      omega
  · obtain ⟨hmem, hlt⟩ := h.mem_of_onList ha
    obtain ⟨c, hc, rfl⟩ := mem_places.mp hmem
    obtain ⟨node, hnode, -⟩ := exists_node_of_data (h.data c hc)
    exact ⟨node, hnode, height_eq hnode ▸ hlt⟩
  · rintro ⟨node, hnode, hlt⟩
    obtain ⟨c, hc, rfl⟩ := h.mem_cells (a := a) hcounted (by rw [SkipListHeap.data, hnode]; rfl)
    obtain ⟨f, b, rfl⟩ := List.append_of_mem hc
    rw [← height_eq hnode] at hlt
    have hlow := h.low c hc
    have hlevel := h.level
    exact h.onList_of_mem (by omega) hlt

end lists

/-! ### Runs -/

section runs

variable [LinearOrder K] {l : SkipList K V}

/-- **Run lemma.** -/
theorem Represents.exists_run (h : Represents s l) (hcounted : Counted s)
    {cs : List (SkipCall K V)} (hlevel : ∀ c ∈ cs, c.LevelIn s.maxLevel) :
    ∃ s' l', s.run cs = some s' ∧ Represents s' l' ∧ Counted s' ∧ s'.maxLevel = s.maxLevel ∧
      Later s s' := by
  induction cs generalizing s l with
  | nil => exact ⟨s, l, rfl, h, hcounted, rfl, .refl s⟩
  | cons c cs ih =>
    obtain ⟨s₁, l₁, hs₁, h₁, -, hmax₁⟩ := h.exists_call (hlevel c (List.mem_cons_self ..))
    obtain ⟨s₂, hchange, hchange₁⟩ := exists_change_call hs₁
    have hcounted₁ := hchange₁.counted (hchange.counted hcounted)
    obtain ⟨s', l', hs', h', hcounted', hmax, hlater⟩ :=
      ih h₁ hcounted₁ fun c hc => hmax₁ ▸ hlevel c (List.mem_cons_of_mem _ hc)
    refine ⟨s', l', ?_, h', hcounted', hmax.trans hmax₁,
      (hchange.later.trans hchange₁.later).trans hlater⟩
    rw [run, hs₁]
    exact hs'

/-- A memory that represents a list is well linked. -/
theorem Represents.wellLinked (h : Represents s l) (hcounted : Counted s) : WellLinked s := by
  obtain ⟨cells, hinv, -⟩ := h
  exact hinv.wellLinked hcounted

/-- **All accesses are in bounds.**  Every sequence of calls on a new skip list runs, leaves the
    lists well linked, and so does what follows, where the nodes are those from before at their
    levels, or deleted. -/
theorem run_wellLinked (maxLevel : ℕ) (cs cs' : List (SkipCall K V))
    (hlevel : ∀ c ∈ cs ++ cs', c.LevelIn maxLevel) :
    ∃ s s', (init maxLevel : SkipListHeap K V).run cs = some s ∧ s.run cs' = some s' ∧
      s.maxLevel = maxLevel ∧ WellLinked s ∧ WellLinked s' ∧ Later s s' := by
  obtain ⟨hcs, hcs'⟩ := List.forall_mem_append.mp hlevel
  obtain ⟨s, l, hs, h, hcounted, hmax, -⟩ :=
    (represents_init (K := K) (V := V) maxLevel).exists_run rfl hcs
  obtain ⟨s', l', hs', h', hcounted', -, hlater⟩ :=
    h.exists_run hcounted fun c hc => by rw [hmax]; exact hcs' c hc
  exact ⟨s, s', hs, hs', hmax, h.wellLinked hcounted, h'.wellLinked hcounted', hlater⟩

/-- A key is set twice on two levels, and removed. -/
theorem run_wellLinked_twoLevels :
    ∃ s s', (init 2 : SkipListHeap ℕ ℕ).run [.insertSetElement 5 50 2, .insertElement 3 30 1] =
        some s ∧ s.run [.insertSetElement 5 51 1, .deleteElement 3] = some s' ∧
      s.maxLevel = 2 ∧ WellLinked s ∧ WellLinked s' ∧ Later s s' := by
  apply run_wellLinked
  simp [SkipCall.LevelIn]

end runs

/-! ### The destructor -/

section destructor

variable [LinearOrder K] {m : SkipListHeap K V} {cells f b : List (ℕ × K × V)}

/-- The loop invariant of `clear`, on a memory `m` that was `s`: the cells `b` are still there, and
    nothing else is. -/
structure Cleared (s m : SkipListHeap K V) (b : List (ℕ × K × V)) : Prop where
  kept : ∀ c ∈ b, m.node c.1 = s.node c.1
  deleted : ∀ a, (∀ c ∈ b, c.1 ≠ a) → m.node a = none

omit [LinearOrder K] in
/-- The nodes after one is deleted. -/
theorem node_delete (s : SkipListHeap K V) (a a' : ℕ) :
    node { s with nodes := s.nodes.set a none } a' = if a' = a then none else s.node a' := by
  show (s.nodes.set a none)[a']?.join = _
  split
  case isTrue h =>
    subst h
    rw [List.getElem?_set_self']
    cases s.nodes[a']? <;> rfl
  case isFalse h =>
    rw [List.getElem?_set_ne (Ne.symm h)]
    rfl

omit [LinearOrder K] in
/-- **Step lemma**: one cell less. -/
theorem Cleared.step {c : ℕ × K × V} (h : Cleared s m (c :: b))
    (hnodup : ((c :: b).map Prod.fst).Nodup) :
    Cleared s { m with nodes := m.nodes.set c.1 none } b where
  kept c' hc' := by
    have hne : c'.1 ≠ c.1 := by
      intro heq
      apply (List.nodup_cons.mp hnodup).1
      rw [← heq]
      exact List.mem_map_of_mem hc'
    rw [node_delete, if_neg hne]
    exact h.kept c' (List.mem_cons_of_mem _ hc')
  deleted a ha := by
    rw [node_delete]
    split
    case isTrue => rfl
    case isFalse hne =>
      apply h.deleted
      intro c' hc'
      rcases List.mem_cons.mp hc' with rfl | hc'
      · exact Ne.symm hne
      · exact ha c' hc'

/-- The loop of `clear` from a cell on. -/
theorem Inv.exists_clear {fuel : ℕ} (h : Inv s (f ++ b)) (hfuel : b.length ≤ fuel)
    (hm : Cleared s m b) :
    ∃ s', m.clear fuel (b.head?.map Prod.fst) = some s' ∧ ∀ a, s'.node a = none := by
  induction b generalizing f m fuel with
  | nil =>
    refine ⟨m, by simp [clear], fun a => hm.deleted a ?_⟩
    simp
  | cons c b ih =>
    obtain ⟨fuel, rfl⟩ : ∃ n, fuel = n + 1 := ⟨fuel - 1, by simp at hfuel; omega⟩
    have h' : Inv s (f ++ [c] ++ b) := by simpa using h
    have hx : lastAt s.height 0 (places (f ++ [c])) = some (.node c.1) := by
      rw [places_append, List.map_singleton, lastAt_concat, if_pos (h.positive c (by simp))]
    -- the node is still as it was, so its pointer leads to the next cell
    have hforward : m.forward (.node c.1) 0 = some (b.head?.map Prod.fst) := by
      rw [← h'.forward_zero hx, forward, forward, forwards, forwards,
        hm.kept c (List.mem_cons_self ..)]
    have hnodup : ((c :: b).map Prod.fst).Nodup := by
      have hall := h.nodup
      rw [List.map_append] at hall
      exact hall.of_append_right
    obtain ⟨s', hs', hnone⟩ := ih h' (by simpa using hfuel) (hm.step hnodup)
    refine ⟨s', ?_, hnone⟩
    rw [List.head?_cons, Option.map_some, clear, hforward]
    exact hs'

/-- The destructor deletes every node. -/
theorem Inv.exists_destroy (h : Inv s cells) (hcounted : Counted s) :
    ∃ s', s.destroy = some s' ∧ ∀ a, s'.node a = none := by
  have hx : lastAt s.height 0 (places ([] : List (ℕ × K × V))) = some .header :=
    lastAt_cons_of_le (fun y hy => by cases hy) (by rw [h.header]; omega)
  have hcleared : Cleared s s cells := by
    refine ⟨fun _ _ => rfl, fun a ha => ?_⟩
    rw [← data_eq_none, ← Option.not_isSome_iff_eq_none]
    intro hdata
    obtain ⟨c, hc, hca⟩ := h.mem_cells hcounted hdata
    exact ha c hc hca
  obtain ⟨s', hs', hnone⟩ := Inv.exists_clear (f := []) h h.length_le hcleared
  refine ⟨s', ?_, hnone⟩
  rw [destroy, Inv.forward_zero (f := []) h hx]
  exact hs'

/-- **Nothing leaks.**  After every sequence of calls on a new skip list the destructor runs
    through without an access to a deleted node, and deletes every node that is left. -/
theorem destroy_run (maxLevel : ℕ) (cs : List (SkipCall K V))
    (hlevel : ∀ c ∈ cs, c.LevelIn maxLevel) :
    ∃ s s', (init maxLevel : SkipListHeap K V).run cs = some s ∧ s.destroy = some s' ∧
      ∀ a, s'.node a = none := by
  obtain ⟨s, l, hs, ⟨cells, hinv, -⟩, hcounted, -⟩ :=
    (represents_init (K := K) (V := V) maxLevel).exists_run rfl hlevel
  obtain ⟨s', hs', hnone⟩ := hinv.exists_destroy hcounted
  exact ⟨s, s', hs, hs', hnone⟩

/-- Two keys are set, one is removed, and a third comes in between. -/
theorem destroy_run_threeKeys :
    ∃ s s', (init 2 : SkipListHeap ℕ ℕ).run [.insertSetElement 5 50 2, .insertElement 3 30 1,
        .deleteElement 5, .insertElement 4 40 2] = some s ∧ s.destroy = some s' ∧
      ∀ a, s'.node a = none := by
  apply destroy_run
  simp [SkipCall.LevelIn]

end destructor

end SkipListHeap

end RaftStore
