import Mathlib.Data.Finset.Sort
import RaftStore.Kv.HeapRefinement

namespace RaftStore

/-!
# Calls of the skip list against a finite map

The reference for the skip list is a finite map: what each call returns and leaves there.

* `dumpMap`, `mapCall`, `mapCalls` — the calls on a finite map.
* `SkipListHeap.calls_refine` — every sequence of calls on a new skip list, with any levels up to
  the maximum, answers like the map.
* `getRandomLevel_bounds` — the levels that are drawn are of this kind.
-/

variable {K V : Type} [LinearOrder K]

/-! ### The reference -/

/-- The bindings of a map in the order of the keys. -/
def dumpMap (m : Finmap fun _ : K => V) : SkipListDump K V where
  keyDumpVt := m.keys.sort (· ≤ ·)
  valDumpVt := (m.keys.sort (· ≤ ·)).filterMap m.lookup

/-- What a call returns and leaves, on a finite map. -/
def mapCall (m : Finmap fun _ : K => V) :
    SkipCall K V → SkipResult K V × Finmap fun _ : K => V
  | .insertElement key value _ => if key ∈ m then (.int 1, m) else (.int 0, m.insert key value)
  | .insertSetElement key value _ => (.void, m.insert key value)
  | .deleteElement key => (.void, m.erase key)
  | .searchElement key => (.found (m.lookup key), m)
  | .size => (.int m.keys.card, m)
  | .dumpFile => (.dump (dumpMap m), m)

/-- The results of a sequence of calls on a finite map. -/
def mapCalls (m : Finmap fun _ : K => V) : List (SkipCall K V) → List (SkipResult K V)
  | [] => []
  | c :: cs => (mapCall m c).1 :: mapCalls (mapCall m c).2 cs

/-- A dump lists the keys in strictly ascending order, and each binding. -/
theorem dumpMap_bindings (m : Finmap fun _ : K => V) :
    (dumpMap m).keyDumpVt.Pairwise (· < ·) ∧
      (dumpMap m).keyDumpVt.map m.lookup = (dumpMap m).valDumpVt.map some ∧
      ∀ k, k ∈ (dumpMap m).keyDumpVt ↔ k ∈ m := by
  refine ⟨?_, ?_, fun k => ?_⟩
  · exact m.keys.sortedLT_sort.pairwise
  · have hbound : ∀ k ∈ m.keys.sort (· ≤ ·), (m.lookup k).isSome = true := by
      intro k hk
      rw [Finset.mem_sort, Finmap.mem_keys] at hk
      exact Option.isSome_iff_exists.mpr (Finmap.mem_iff.mp hk)
    show (m.keys.sort (· ≤ ·)).map m.lookup = ((m.keys.sort (· ≤ ·)).filterMap m.lookup).map some
    generalize m.keys.sort (· ≤ ·) = keys at hbound
    induction keys with
    | nil => rfl
    | cons k keys ih =>
      obtain ⟨v, hv⟩ := Option.isSome_iff_exists.mp (hbound k (List.mem_cons_self ..))
      have ih := ih fun k hk => hbound k (List.mem_cons_of_mem _ hk)
      simp [hv, ih]
  · exact (Finset.mem_sort _).trans Finmap.mem_keys

/-- The level drawn for an insertion lies between 1 and the maximum. -/
def SkipCall.LevelIn (maxLevel : ℕ) : SkipCall K V → Prop
  | .insertElement _ _ randomLevel => 1 ≤ randomLevel ∧ randomLevel ≤ maxLevel
  | .insertSetElement _ _ randomLevel => 1 ≤ randomLevel ∧ randomLevel ≤ maxLevel
  | _ => True

/-! ### The simulation -/

/-- A sorted list dumps the bindings of its map. -/
theorem SkipList.Sorted.dumpFile_eq {l : SkipList K V} (h : l.Sorted) :
    l.dumpFile = dumpMap l.toFinmap := by
  have hsort : l.toFinmap.keys.sort (· ≤ ·) = l.chain.map Prod.fst := by
    rw [h.keys_toFinmap, List.toFinset_sort (· ≤ ·) h.nodup_keys]
    exact (List.pairwise_map.mpr h).imp fun hlt => hlt.le
  have hlookup : ∀ node ∈ l.chain, l.toFinmap.lookup node.1 = some node.2 := by
    intro node hnode
    rw [h.lookup_toFinmap]
    exact h.searchElement_eq_some.mpr hnode
  have hvalues : (l.chain.map Prod.fst).filterMap l.toFinmap.lookup = l.chain.map Prod.snd := by
    rw [List.filterMap_map, ← List.filterMap_eq_map]
    exact List.filterMap_congr hlookup
  rw [dumpMap, hsort, hvalues]
  rfl

namespace SkipListHeap

/-- **Step lemma.**  A call on a memory that holds `l` answers like the map of `l`. -/
theorem Represents.exists_call {s : SkipListHeap K V} {l : SkipList K V} (h : Represents s l)
    {c : SkipCall K V} (hlevel : c.LevelIn s.maxLevel) :
    ∃ s' l', s.call c = some ((mapCall l.toFinmap c).1, s') ∧ Represents s' l' ∧
      l'.toFinmap = (mapCall l.toFinmap c).2 ∧ s'.maxLevel = s.maxLevel := by
  have hsorted := h.sorted
  cases c with
  | insertElement key value randomLevel =>
    obtain ⟨s', hs', h', hmax⟩ := h.exists_insertElement key value hlevel.2
    refine ⟨s', _, ?_, h', ?_, hmax⟩
    -- the return code says whether the key was bound
    · rw [hsorted.insertElement_fst] at hs'
      simp only [call, mapCall, hs']
      by_cases hmem : key ∈ l.toFinmap
      · simp [hmem]
      · simp [hmem]
    · rw [hsorted.toFinmap_insertElement, mapCall]
      split <;> rfl
  | insertSetElement key value randomLevel =>
    obtain ⟨s', hs', h', hmax⟩ := h.exists_insertSetElement key value hlevel.2
    exact ⟨s', _, by simp [call, mapCall, hs'], h', hsorted.toFinmap_insertSetElement key value,
      hmax⟩
  | deleteElement key =>
    obtain ⟨s', hs', h', hmax⟩ := h.exists_deleteElement key
    exact ⟨s', _, by simp [call, mapCall, hs'], h', hsorted.toFinmap_deleteElement key, hmax⟩
  | searchElement key =>
    refine ⟨s, l, ?_, h, rfl, rfl⟩
    simp [call, mapCall, h.searchElement_eq, hsorted.lookup_toFinmap]
  | size =>
    refine ⟨s, l, ?_, h, rfl, rfl⟩
    simp [call, mapCall, h.size_eq, hsorted.card_toFinmap]
  | dumpFile =>
    refine ⟨s, l, ?_, h, rfl, rfl⟩
    simp [call, mapCall, h.dumpFile_eq, hsorted.dumpFile_eq]

/-- **Run lemma.** -/
theorem Represents.calls_eq {s : SkipListHeap K V} {l : SkipList K V} (h : Represents s l)
    {cs : List (SkipCall K V)} (hlevel : ∀ c ∈ cs, c.LevelIn s.maxLevel) :
    s.calls cs = some (mapCalls l.toFinmap cs) := by
  induction cs generalizing s l with
  | nil => rfl
  | cons c cs ih =>
    obtain ⟨s', l', hs', h', hmap, hmax⟩ := h.exists_call (hlevel c (List.mem_cons_self ..))
    have hrest := ih h' fun c hc => hmax ▸ hlevel c (List.mem_cons_of_mem _ hc)
    simp [calls, mapCalls, hs', hrest, hmap]

/-- **Refinement.**  Every sequence of calls on a new skip list answers like a finite map. -/
theorem calls_refine (maxLevel : ℕ) (cs : List (SkipCall K V))
    (hlevel : ∀ c ∈ cs, c.LevelIn maxLevel) :
    (init maxLevel : SkipListHeap K V).calls cs = some (mapCalls ∅ cs) :=
  (represents_init maxLevel).calls_eq hlevel

/-- Keys are inserted, set, removed and looked for on two levels. -/
theorem calls_refine_twoLevels :
    (init 2 : SkipListHeap ℕ ℕ).calls
        [.insertElement 5 50 1, .insertSetElement 3 30 2, .deleteElement 5, .searchElement 3,
          .dumpFile] =
      some (mapCalls ∅ [.insertElement 5 50 1, .insertSetElement 3 30 2, .deleteElement 5,
        .searchElement 3, .dumpFile]) := by
  apply calls_refine
  simp [SkipCall.LevelIn]

end SkipListHeap

/-! ### The levels that are drawn -/

/-- The loop ends at the maximum or at an even seed, and never above the maximum. -/
theorem randomLevelLoop_bounds {maxLevel k : ℕ} (fuel : ℕ) (seed : UInt32) (hk : k ≤ maxLevel)
    (hfuel : maxLevel ≤ k + fuel) :
    k ≤ (randomLevelLoop maxLevel fuel seed k).1 ∧
      (randomLevelLoop maxLevel fuel seed k).1 ≤ maxLevel ∧
      ((randomLevelLoop maxLevel fuel seed k).2 &&& 1 = 0 ∨
        (randomLevelLoop maxLevel fuel seed k).1 = maxLevel) := by
  induction fuel generalizing k seed with
  | zero =>
    have heq : k = maxLevel := by omega
    exact ⟨le_rfl, hk, Or.inr heq⟩
  | succ fuel ih =>
    rw [randomLevelLoop]
    by_cases hstep : seed &&& 1 ≠ 0 ∧ k < maxLevel
    · rw [if_pos hstep]
      obtain ⟨hle, hmax, hend⟩ :=
        ih (k := k + 1) (seed >>> 1) (Nat.succ_le_of_lt hstep.2) (by omega)
      exact ⟨by omega, hmax, hend⟩
    · rw [if_neg hstep]
      refine ⟨le_rfl, hk, ?_⟩
      by_cases hodd : seed &&& 1 = 0
      · exact Or.inl hodd
      · have hge : ¬ k < maxLevel := fun hlt => hstep ⟨hodd, hlt⟩
        exact Or.inr (by omega)

/-- `get_random_level` draws a level between 1 and the maximum. -/
theorem getRandomLevel_bounds {maxLevel : ℕ} (h : 1 ≤ maxLevel) (seed : UInt32) :
    1 ≤ (getRandomLevel maxLevel seed).1 ∧ (getRandomLevel maxLevel seed).1 ≤ maxLevel := by
  obtain ⟨hle, hmax, _⟩ := randomLevelLoop_bounds maxLevel
    ((seed ^^^ (seed <<< 13) ^^^ ((seed ^^^ (seed <<< 13)) >>> 17)) ^^^
      ((seed ^^^ (seed <<< 13) ^^^ ((seed ^^^ (seed <<< 13)) >>> 17)) <<< 5)) h (by omega)
  exact ⟨hle, hmax⟩

end RaftStore
