import Mathlib.Data.Finmap
import Mathlib.Data.List.TakeWhile
import Mathlib.Data.String.Basic
import RaftStore.Model.SkipList

namespace RaftStore

/-!
# The contents of the skip list as a finite map

A list whose keys strictly ascend stands for a finite map, and the operations on it are those of
the map.

* `SkipList.Sorted` — the keys strictly ascend; every operation keeps this.
* `searchElement_insertElement`, `searchElement_deleteElement`, `searchElement_insertSetElement`,
  `searchElement_loadFile` — what a search finds after an operation.
* `SkipList.toFinmap` — the map; an operation on the list is the operation on it.
-/

namespace SkipList

variable {K V : Type} [LinearOrder K] {l : SkipList K V} {k k' : K} {v v' : V}

/-- The keys strictly ascend. -/
def Sorted (l : SkipList K V) : Prop := l.chain.Pairwise fun a b => a.1 < b.1

/-- The empty list is sorted. -/
theorem sorted_empty : ({} : SkipList K V).Sorted := List.Pairwise.nil

/-! ### The place of a key -/

/-- The list is what lies before a key and the rest. -/
theorem front_append_back (l : SkipList K V) (k : K) : l.front k ++ l.back k = l.chain :=
  List.takeWhile_append_dropWhile

/-- What lies before a key is smaller. -/
theorem lt_of_mem_front {node : K × V} (h : node ∈ l.front k) : node.1 < k := by
  simpa using List.mem_takeWhile_imp h

/-- In a sorted list the key is the first behind the walk, or everything there is larger. -/
theorem Sorted.back_cases (h : l.Sorted) (k : K) :
    (∃ v rest, l.back k = (k, v) :: rest ∧ ∀ node ∈ rest, k < node.1) ∨
      ∀ node ∈ l.back k, k < node.1 := by
  have hsorted : (l.back k).Pairwise fun a b => a.1 < b.1 :=
    h.sublist (List.dropWhile_sublist _)
  cases hback : l.back k with
  | nil => exact Or.inr fun node hnode => by cases hnode
  | cons node rest =>
    rw [hback, List.pairwise_cons] at hsorted
    have hge : ¬ node.1 < k := by
      have hhead := List.head?_dropWhile_not (fun node : K × V => decide (node.1 < k)) l.chain
      rw [show l.chain.dropWhile _ = node :: rest from hback, List.head?_cons] at hhead
      simpa using hhead
    rcases (not_lt.mp hge).eq_or_lt with heq | hlt
    · obtain ⟨k', v⟩ := node
      obtain rfl : k = k' := heq
      exact Or.inl ⟨v, rest, rfl, hsorted.1⟩
    · refine Or.inr fun node' hnode' => ?_
      rcases List.mem_cons.mp hnode' with rfl | hmem
      · exact hlt
      · exact hlt.trans (hsorted.1 node' hmem)

/-- A key that the rest is above is not in the list. -/
theorem not_mem_of_absent (h : ∀ node ∈ l.back k, k < node.1) : (k, v) ∉ l.chain := by
  rw [← front_append_back l k, List.mem_append]
  rintro (hmem | hmem)
  · exact absurd (lt_of_mem_front hmem) (lt_irrefl k)
  · exact absurd (h _ hmem) (lt_irrefl k)

/-! ### The operations at these places -/

/-- A key at the head of the rest is found. -/
theorem searchElement_found {rest : List (K × V)} (h : l.back k = (k, v) :: rest) :
    l.searchElement k = some v := by
  rw [searchElement, h]
  exact if_pos rfl

/-- A key that is not there is not found. -/
theorem searchElement_absent (h : ∀ node ∈ l.back k, k < node.1) : l.searchElement k = none := by
  rw [searchElement]
  cases hback : l.back k with
  | nil => rfl
  | cons node rest =>
    have hlt := h node (hback ▸ List.mem_cons_self ..)
    exact if_neg hlt.ne'

/-- A key that is there keeps its value. -/
theorem insertElement_found {rest : List (K × V)} (h : l.back k = (k, v) :: rest) :
    l.insertElement k v' = (1, l) := by
  rw [insertElement, h]
  exact if_pos rfl

/-- A key that is not there is put in its place. -/
theorem insertElement_absent (h : ∀ node ∈ l.back k, k < node.1) :
    l.insertElement k v = (0, { chain := l.front k ++ (k, v) :: l.back k }) := by
  rw [insertElement]
  cases hback : l.back k with
  | nil => rfl
  | cons node rest =>
    have hlt := h node (hback ▸ List.mem_cons_self ..)
    exact if_neg hlt.ne'

/-- A key that is there is taken out. -/
theorem deleteElement_found {rest : List (K × V)} (h : l.back k = (k, v) :: rest) :
    l.deleteElement k = { chain := l.front k ++ rest } := by
  rw [deleteElement, h]
  exact if_pos rfl

/-- A key that is not there leaves the list alone. -/
theorem deleteElement_absent (h : ∀ node ∈ l.back k, k < node.1) : l.deleteElement k = l := by
  rw [deleteElement]
  cases hback : l.back k with
  | nil => rfl
  | cons node rest =>
    have hlt := h node (hback ▸ List.mem_cons_self ..)
    exact if_neg hlt.ne'

/-! ### What a search finds -/

/-- A search finds what is in the list. -/
theorem Sorted.searchElement_eq_some (h : l.Sorted) :
    l.searchElement k = some v ↔ (k, v) ∈ l.chain := by
  rcases h.back_cases k with ⟨v', rest, hback, hrest⟩ | habsent
  · rw [searchElement_found hback, Option.some.injEq, ← front_append_back l k, hback]
    constructor
    · rintro rfl
      exact List.mem_append_right _ (List.mem_cons_self ..)
    · intro hmem
      rcases List.mem_append.mp hmem with hmem | hmem
      · exact absurd (lt_of_mem_front hmem) (lt_irrefl k)
      · rcases List.mem_cons.mp hmem with heq | hmem
        · exact (Prod.mk.inj heq).2.symm
        · exact absurd (hrest _ hmem) (lt_irrefl k)
  · rw [searchElement_absent habsent]
    exact iff_of_false (by simp) (not_mem_of_absent habsent)

/-- Two sorted lists that hold the same pairs answer alike. -/
theorem Sorted.searchElement_congr {l' : SkipList K V} (h : l.Sorted) (h' : l'.Sorted)
    (heq : ∀ v, (k, v) ∈ l.chain ↔ (k', v) ∈ l'.chain) :
    l.searchElement k = l'.searchElement k' := by
  ext v
  exact h.searchElement_eq_some.trans ((heq v).trans h'.searchElement_eq_some.symm)

/-- Putting a node at its place keeps the list sorted. -/
theorem Sorted.insert (h : l.Sorted) (habsent : ∀ node ∈ l.back k, k < node.1) :
    ({ chain := l.front k ++ (k, v) :: l.back k } : SkipList K V).Sorted := by
  have hchain : (l.front k ++ l.back k).Pairwise fun a b => a.1 < b.1 := by
    rw [front_append_back]
    exact h
  rw [List.pairwise_append] at hchain
  refine List.pairwise_append.mpr ⟨hchain.1, List.pairwise_cons.mpr ⟨habsent, hchain.2.1⟩, ?_⟩
  intro a ha b hb
  rcases List.mem_cons.mp hb with rfl | hb
  · exact lt_of_mem_front ha
  · exact hchain.2.2 a ha b hb

/-- Taking a node out keeps the list sorted. -/
theorem Sorted.remove (h : l.Sorted) {rest : List (K × V)} (hback : l.back k = (k, v) :: rest) :
    ({ chain := l.front k ++ rest } : SkipList K V).Sorted := by
  refine h.sublist ?_
  rw [← front_append_back l k, hback]
  exact (List.sublist_cons_self _ _).append_left _

/-- `insert_element` keeps the order. -/
theorem Sorted.insertElement (h : l.Sorted) (k : K) (v : V) : (l.insertElement k v).2.Sorted := by
  rcases h.back_cases k with ⟨v', rest, hback, _⟩ | habsent
  · rw [insertElement_found hback]
    exact h
  · rw [insertElement_absent habsent]
    exact h.insert habsent

/-- `delete_element` keeps the order. -/
theorem Sorted.deleteElement (h : l.Sorted) (k : K) : (l.deleteElement k).Sorted := by
  rcases h.back_cases k with ⟨v', rest, hback, _⟩ | habsent
  · rw [deleteElement_found hback]
    exact h.remove hback
  · rw [deleteElement_absent habsent]
    exact h

/-- `insert_set_element` keeps the order. -/
theorem Sorted.insertSetElement (h : l.Sorted) (k : K) (v : V) :
    (l.insertSetElement k v).Sorted := by
  unfold SkipList.insertSetElement
  split
  · exact (h.deleteElement k).insertElement k v
  · exact h.insertElement k v

/-- After an insertion the key has its old value, or the new one if it had none. -/
theorem Sorted.searchElement_insertElement (h : l.Sorted) (k : K) (v : V) (k' : K) :
    (l.insertElement k v).2.searchElement k' =
      if k' = k then some ((l.searchElement k).getD v) else l.searchElement k' := by
  rcases h.back_cases k with ⟨v', rest, hback, _⟩ | habsent
  · rw [insertElement_found hback, searchElement_found hback]
    split
    · rename_i heq
      rw [heq, searchElement_found hback]
      rfl
    · rfl
  · have hsorted := h.insert (v := v) habsent
    rw [insertElement_absent habsent, searchElement_absent habsent]
    split
    · rename_i heq
      rw [hsorted.searchElement_eq_some, heq]
      exact List.mem_append_right _ (List.mem_cons_self ..)
    · rename_i hne
      refine hsorted.searchElement_congr h fun w => ?_
      rw [← front_append_back l k]
      simp [hne]

/-- After a deletion the key is not bound. -/
theorem Sorted.searchElement_deleteElement (h : l.Sorted) (k k' : K) :
    (l.deleteElement k).searchElement k' = if k' = k then none else l.searchElement k' := by
  rcases h.back_cases k with ⟨v', rest, hback, hrest⟩ | habsent
  · have hsorted := h.remove hback
    rw [deleteElement_found hback]
    split
    · rename_i heq
      refine Option.eq_none_iff_forall_ne_some.mpr fun w hw => ?_
      rw [hsorted.searchElement_eq_some, heq, List.mem_append] at hw
      rcases hw with hmem | hmem
      · exact absurd (lt_of_mem_front hmem) (lt_irrefl k)
      · exact absurd (hrest _ hmem) (lt_irrefl k)
    · rename_i hne
      refine hsorted.searchElement_congr h fun w => ?_
      rw [← front_append_back l k, hback]
      simp [hne]
  · rw [deleteElement_absent habsent]
    split
    · rename_i heq
      rw [heq, searchElement_absent habsent]
    · rfl

/-- Setting a key binds it to the value. -/
theorem Sorted.searchElement_insertSetElement (h : l.Sorted) (k : K) (v : V) (k' : K) :
    (l.insertSetElement k v).searchElement k' = if k' = k then some v else l.searchElement k' := by
  unfold SkipList.insertSetElement
  split
  · rw [(h.deleteElement k).searchElement_insertElement, h.searchElement_deleteElement, if_pos rfl,
      h.searchElement_deleteElement]
    split <;> rfl
  · rename_i hnone
    rw [h.searchElement_insertElement, hnone]
    rfl

/-- Loading a dump inserts each key with itself as the value, and keeps what is there. -/
theorem Sorted.loadFile {l : SkipList K K} (h : l.Sorted) (dumper : SkipListDump K K) :
    (l.loadFile dumper).Sorted := by
  unfold SkipList.loadFile
  induction dumper.keyDumpVt generalizing l with
  | nil => exact h
  | cons key keys ih => exact ih (h.insertElement key key)

/-- What is found after `load_file`: what was there, or a dumped key as its own value. -/
theorem Sorted.searchElement_loadFile {l : SkipList K K} (h : l.Sorted)
    (dumper : SkipListDump K K) (k : K) :
    (l.loadFile dumper).searchElement k =
      (l.searchElement k).or (if k ∈ dumper.keyDumpVt then some k else none) := by
  unfold SkipList.loadFile
  induction dumper.keyDumpVt generalizing l with
  | nil => simp
  | cons key keys ih =>
    rw [List.foldl_cons, ih (h.insertElement key key), h.searchElement_insertElement]
    by_cases heq : k = key
    · subst heq
      cases hs : l.searchElement k <;> simp
    · simp [heq]

/-! ### The finite map -/

/-- The map the list stands for. -/
def toFinmap (l : SkipList K V) : Finmap fun _ : K => V :=
  (l.chain.map fun node => (⟨node.1, node.2⟩ : Sigma fun _ : K => V)).toFinmap

/-- No key is there twice. -/
theorem Sorted.nodupKeys (h : l.Sorted) :
    (l.chain.map fun node => (⟨node.1, node.2⟩ : Sigma fun _ : K => V)).NodupKeys := by
  rw [List.NodupKeys, List.keys, List.map_map]
  exact (List.pairwise_map.mpr h).imp fun hlt => hlt.ne

/-- A lookup in the map is a search of the list. -/
theorem Sorted.lookup_toFinmap (h : l.Sorted) (k : K) :
    l.toFinmap.lookup k = l.searchElement k := by
  ext v
  rw [h.searchElement_eq_some, toFinmap, Finmap.dlookup_list_toFinmap, ← Option.mem_def,
    List.mem_dlookup_iff h.nodupKeys]
  simp

/-- The keys of the map are those that are found. -/
theorem Sorted.mem_toFinmap (h : l.Sorted) (k : K) :
    k ∈ l.toFinmap ↔ ∃ v, l.searchElement k = some v := by
  rw [Finmap.mem_iff, h.lookup_toFinmap]

/-- An insertion binds the key unless it is bound. -/
theorem Sorted.toFinmap_insertElement (h : l.Sorted) (k : K) (v : V) :
    (l.insertElement k v).2.toFinmap =
      if k ∈ l.toFinmap then l.toFinmap else l.toFinmap.insert k v := by
  refine Finmap.ext_lookup fun k' => ?_
  rw [(h.insertElement k v).lookup_toFinmap, h.searchElement_insertElement]
  by_cases hmem : k ∈ l.toFinmap
  · obtain ⟨w, hw⟩ := (h.mem_toFinmap k).mp hmem
    rw [if_pos hmem, h.lookup_toFinmap, hw]
    split
    · rename_i heq
      rw [heq, hw]
      rfl
    · rfl
  · have hnone := Finmap.lookup_eq_none.mpr hmem
    rw [h.lookup_toFinmap] at hnone
    rw [if_neg hmem, hnone]
    split
    · rename_i heq
      rw [heq, Finmap.lookup_insert]
      rfl
    · rename_i hne
      rw [Finmap.lookup_insert_of_ne _ hne, h.lookup_toFinmap]

/-- `insert_element` returns 1 if the key is bound and 0 otherwise. -/
theorem Sorted.insertElement_fst (h : l.Sorted) (k : K) (v : V) :
    (l.insertElement k v).1 = if k ∈ l.toFinmap then 1 else 0 := by
  rcases h.back_cases k with ⟨v', rest, hback, _⟩ | habsent
  · rw [insertElement_found hback, if_pos]
    exact (h.mem_toFinmap k).mpr ⟨v', searchElement_found hback⟩
  · rw [insertElement_absent habsent, if_neg]
    rw [← Finmap.lookup_eq_none, h.lookup_toFinmap, searchElement_absent habsent]

/-- `delete_element` erases the key from the map. -/
theorem Sorted.toFinmap_deleteElement (h : l.Sorted) (k : K) :
    (l.deleteElement k).toFinmap = l.toFinmap.erase k := by
  refine Finmap.ext_lookup fun k' => ?_
  rw [(h.deleteElement k).lookup_toFinmap, h.searchElement_deleteElement]
  split
  · rename_i heq
    rw [heq, Finmap.lookup_erase]
  · rename_i hne
    rw [Finmap.lookup_erase_ne hne, h.lookup_toFinmap]

/-- `insert_set_element` sets the key in the map. -/
theorem Sorted.toFinmap_insertSetElement (h : l.Sorted) (k : K) (v : V) :
    (l.insertSetElement k v).toFinmap = l.toFinmap.insert k v := by
  refine Finmap.ext_lookup fun k' => ?_
  rw [(h.insertSetElement k v).lookup_toFinmap, h.searchElement_insertSetElement]
  split
  · rename_i heq
    rw [heq, Finmap.lookup_insert]
  · rename_i hne
    rw [Finmap.lookup_insert_of_ne _ hne, h.lookup_toFinmap]

/-- The keys of the chain are different. -/
theorem Sorted.nodup_keys (h : l.Sorted) : (l.chain.map Prod.fst).Nodup :=
  (List.pairwise_map.mpr h).imp fun hlt => hlt.ne

/-- The keys of the map are those of the chain. -/
theorem Sorted.keys_toFinmap (h : l.Sorted) :
    l.toFinmap.keys = (l.chain.map Prod.fst).toFinset := by
  ext k
  rw [Finmap.mem_keys, h.mem_toFinmap, List.mem_toFinset]
  simp [h.searchElement_eq_some]

/-- The list has one node for each bound key. -/
theorem Sorted.card_toFinmap (h : l.Sorted) : l.toFinmap.keys.card = l.chain.length := by
  rw [h.keys_toFinmap, List.toFinset_card_of_nodup h.nodup_keys, List.length_map]

end SkipList

end RaftStore
