import RaftStore.Kv.AtMostOnce
import RaftStore.Kv.Contents

namespace RaftStore

/-!
# Snapshots of the server

What `MakeSnapShot` writes, and what `ReadSnapShotToInstall` makes of it.  `load_file` inserts
`keyDumpVt_[i]` as the value of the key, and inserts into the list that is there.

* `KvServer.searchElement_install` — what a search finds after the installation.
* `KvProcess.reach_sorted` — the keys of a server strictly ascend in every run.
* `KvServer.snapshot_round_trip_iff` — a fresh server gets the contents back exactly if each value
  is its key.
* `KvServer.install_replaces_iff` — exactly which earlier contents an installation replaces.
-/

namespace KvServer

variable [KvArchive]

/-! ### Installing -/

/-- **Spec of the installation.**  The dumped keys are loaded into the list, and the table is
    replaced. -/
theorem readSnapShotToInstall_makeSnapShot [LawfulKvArchive] (s t : KvServer) :
    t.readSnapShotToInstall s.makeSnapShot = some
      { t with
        skipList := t.skipList.loadFile s.skipList.dumpFile
        lastRequestId := s.lastRequestId } := by
  have hne : s.makeSnapShot ≠ "" := LawfulKvArchive.record_ne_empty _
  have hload : loadSkipList t.skipList (KvArchive.dumpAsString s.skipList.dumpFile) =
      some (t.skipList.loadFile s.skipList.dumpFile) := by
    rw [loadSkipList, if_neg (LawfulKvArchive.dump_ne_empty _), LawfulKvArchive.dump_asString]
    rfl
  rw [readSnapShotToInstall, if_neg hne, parseFromString, makeSnapShot,
    LawfulKvArchive.record_asString, Option.bind_eq_bind, Option.bind_some]
  dsimp only
  rw [hload]
  rfl

omit [KvArchive] in
/-- A dump names the keys a search finds. -/
theorem mem_dumpFile {l : SkipList String String} (h : l.Sorted) (k : String) :
    k ∈ l.dumpFile.keyDumpVt ↔ (l.searchElement k).isSome = true := by
  rw [Option.isSome_iff_exists, SkipList.dumpFile]
  simp [h.searchElement_eq_some]

omit [KvArchive] in
/-- After an installation a key has its earlier value; without one it has itself as the value if
    the snapshot binds it. -/
theorem searchElement_install {l l' : SkipList String String} (h : l.Sorted) (h' : l'.Sorted)
    (k : String) :
    (l'.loadFile l.dumpFile).searchElement k =
      (l'.searchElement k).or ((l.searchElement k).map fun _ => k) := by
  rw [h'.searchElement_loadFile]
  simp only [mem_dumpFile h]
  cases l.searchElement k <;> rfl

/-- An installation keeps the keys in order, whatever the message holds. -/
theorem getSnapShotFromRaft_sorted {s s' : KvServer} {message : ApplyMsg}
    (h : s.skipList.Sorted) (hs : s.getSnapShotFromRaft message = some s') :
    s'.skipList.Sorted := by
  rw [getSnapShotFromRaft, condInstallSnapshot, if_pos rfl] at hs
  obtain ⟨t, ht, rfl⟩ := Option.map_eq_some_iff.mp hs
  show t.skipList.Sorted
  rw [readSnapShotToInstall] at ht
  split at ht
  · rw [← Option.some.inj ht]
    exact h
  · obtain ⟨record, _, ht⟩ := Option.bind_eq_some_iff.mp ht
    obtain ⟨skipList, hload, ht⟩ := Option.bind_eq_some_iff.mp ht
    rw [← Option.some.inj ht]
    show skipList.Sorted
    rw [loadSkipList] at hload
    split at hload
    · rw [← Option.some.inj hload]
      exact h
    · obtain ⟨d, _, rfl⟩ := Option.map_eq_some_iff.mp hload
      exact h.loadFile d

end KvServer

/-- **Run lemma.**  In every run the keys of the server strictly ascend. -/
theorem KvProcess.reach_sorted [KvArchive] {maxRaftState : Int} {s : KvProcess}
    (h : Reach KvProcess.step anyStep (KvProcess.init maxRaftState) s) :
    s.server.skipList.Sorted := by
  refine h.invariant (P := fun s => s.server.skipList.Sorted) SkipList.sorted_empty
    fun s a s' _ hsorted _ hs => ?_
  show s'.view.skipList.Sorted
  have hchange := KvProcess.step_change hs
  generalize s'.view = view at hchange ⊢
  cases hchange with
  | installed _ hserver => exact KvServer.getSnapShotFromRaft_sorted hsorted hserver
  | wrote => exact SkipList.Sorted.insertSetElement hsorted _ _
  | _ => exact hsorted

namespace KvServer

variable [KvArchive]

/-! ### A fresh server -/

omit [KvArchive] in
/-- The second server answers every search like the first, and has its table. -/
structure SameContents (s t : KvServer) : Prop where
  search : ∀ k, t.skipList.searchElement k = s.skipList.searchElement k
  table : t.lastRequestId = s.lastRequestId

omit [KvArchive] in
/-- Having the same contents is symmetric. -/
theorem SameContents.symm {s t : KvServer} (h : SameContents s t) : SameContents t s :=
  { search := fun k => (h.search k).symm, table := h.table.symm }

omit [KvArchive] in
/-- Having the same contents is transitive. -/
theorem SameContents.trans {s t u : KvServer} (h : SameContents s t) (h' : SameContents t u) :
    SameContents s u :=
  { search := fun k => (h'.search k).trans (h.search k), table := h'.table.trans h.table }

/-- **Round trip.**  A fresh server installs the snapshot, and has the contents of the first one
    if and only if each of its values is the key it belongs to. -/
theorem snapshot_round_trip_iff [LawfulKvArchive] (s : KvServer) (hs : s.skipList.Sorted)
    (maxRaftState : Int) :
    ∃ t, ({ maxRaftState } : KvServer).readSnapShotToInstall s.makeSnapShot = some t ∧
      (SameContents s t ↔ ∀ k v, s.skipList.searchElement k = some v → v = k) := by
  refine ⟨_, readSnapShotToInstall_makeSnapShot s _, fun h k v hv => ?_, fun h => ?_⟩
  · have hsearch := h.search k
    rw [searchElement_install hs SkipList.sorted_empty, hv] at hsearch
    exact (Option.some.inj hsearch).symm
  · refine { search := fun k => ?_, table := rfl }
    rw [searchElement_install hs SkipList.sorted_empty]
    show (s.skipList.searchElement k).map (fun _ => k) = s.skipList.searchElement k
    cases hv : s.skipList.searchElement k with
    | none => rfl
    | some v =>
      rw [h k v hv]
      rfl

omit [KvArchive] in
/-- A server that holds one key. -/
def oneKey (key value : String) : KvServer :=
  { maxRaftState := 1000, skipList := { chain := [(key, value)] } }

omit [KvArchive] in
/-- A list of one key is sorted. -/
theorem sorted_oneKey (key value : String) : (oneKey key value).skipList.Sorted :=
  List.pairwise_singleton _ _

omit [KvArchive] in
/-- The contents of a server whose only key has itself as the value come back. -/
theorem snapshot_round_trip_iff_sameValue :
    letI := textKvArchive
    ∃ t, ({ maxRaftState := 1000 } : KvServer).readSnapShotToInstall
        (oneKey "k" "k").makeSnapShot = some t ∧
      (SameContents (oneKey "k" "k") t ↔
        ∀ k v, (oneKey "k" "k").skipList.searchElement k = some v → v = k) := by
  let := textKvArchive
  have := lawful_textKvArchive
  exact snapshot_round_trip_iff (oneKey "k" "k") (sorted_oneKey "k" "k") 1000

omit [KvArchive] in
/-- The value of a key is lost: a fresh server answers with the key. -/
theorem snapshot_loses_values :
    letI := textKvArchive
    ∃ t, ({ maxRaftState := 1000 } : KvServer).readSnapShotToInstall
        (oneKey "k" "v").makeSnapShot = some t ∧
      t.skipList.searchElement "k" = some "k" ∧ ¬ SameContents (oneKey "k" "v") t := by
  let := textKvArchive
  have := lawful_textKvArchive
  have hsearch : (({} : SkipList String String).loadFile
      (oneKey "k" "v").skipList.dumpFile).searchElement "k" = some "k" := by decide
  refine ⟨_, readSnapShotToInstall_makeSnapShot _ _, hsearch, fun h => ?_⟩
  have hsame := h.search "k"
  rw [hsearch] at hsame
  revert hsame
  decide

/-! ### A server with earlier contents -/

/-- Neither server answers anything that a fresh server would not answer after the installation of
    the snapshot of `s`. -/
structure Replaced (s t₁ t₂ : KvServer) : Prop where
  alike : SameContents t₁ t₂
  fresh : ∀ t, ({ maxRaftState := 0 } : KvServer).readSnapShotToInstall s.makeSnapShot = some t →
    SameContents t t₁ ∧ SameContents t t₂

omit [KvArchive] in
/-- The server holds nothing but keys of the snapshot, each with itself as its value. -/
def Covered (s t : KvServer) : Prop :=
  ∀ k v, t.skipList.searchElement k = some v →
    v = k ∧ (s.skipList.searchElement k).isSome = true

omit [KvArchive] in
/-- The servers hold the same value of the key, or the key is one of the snapshot and each of them
    holds it with itself as the value or does not hold it. -/
def Alike (s t₁ t₂ : KvServer) (k : String) : Prop :=
  t₁.skipList.searchElement k = t₂.skipList.searchElement k ∨
    ((s.skipList.searchElement k).isSome = true ∧
      (∀ v ∈ t₁.skipList.searchElement k, v = k) ∧ ∀ v ∈ t₂.skipList.searchElement k, v = k)

omit [KvArchive] in
/-- Keys that were held before win over those of the snapshot. -/
theorem install_alike_iff (o o₁ o₂ : Option String) (k : String) :
    o₁.or (o.map fun _ => k) = o₂.or (o.map fun _ => k) ↔
      o₁ = o₂ ∨ (o.isSome = true ∧ (∀ v ∈ o₁, v = k) ∧ ∀ v ∈ o₂, v = k) := by
  cases o <;> cases o₁ <;> cases o₂ <;> simp <;> grind

omit [KvArchive] in
/-- What was held before is not seen exactly if the snapshot says the same. -/
theorem install_covered_iff (o o' : Option String) (k : String) :
    o'.or (o.map fun _ => k) = o.map (fun _ => k) ↔ ∀ v, o' = some v → v = k ∧ o.isSome = true := by
  cases o <;> cases o' <;> simp

omit [KvArchive] in
/-- A server that has loaded the snapshot answers like a fresh one exactly if it was covered. -/
theorem sameContents_fresh_iff {s t t' : KvServer} {maxRaftState : Int} (hs : s.skipList.Sorted)
    (ht : t.skipList.Sorted) (hskip : t'.skipList = t.skipList.loadFile s.skipList.dumpFile)
    (htable : t'.lastRequestId = s.lastRequestId) :
    SameContents
        { maxRaftState
          skipList := ({} : SkipList String String).loadFile s.skipList.dumpFile
          lastRequestId := s.lastRequestId } t' ↔ Covered s t := by
  have hempty : ∀ k, (({} : SkipList String String).loadFile s.skipList.dumpFile).searchElement k =
      (s.skipList.searchElement k).map fun _ => k :=
    searchElement_install hs SkipList.sorted_empty
  constructor
  · intro h k
    have hsearch := h.search k
    rw [hempty, hskip, searchElement_install hs ht] at hsearch
    exact (install_covered_iff _ _ k).mp hsearch
  · intro h
    refine { search := fun k => ?_, table := htable }
    rw [hempty, hskip, searchElement_install hs ht]
    exact (install_covered_iff _ _ k).mpr (h k)

/-- **Installing a snapshot.**  Two servers that install one snapshot have the same contents
    afterwards exactly if they were alike on each key; nothing of what they held survives exactly
    if it was covered by the snapshot. -/
theorem install_replaces_iff [LawfulKvArchive] {s t₁ t₂ : KvServer} (hs : s.skipList.Sorted)
    (h₁ : t₁.skipList.Sorted) (h₂ : t₂.skipList.Sorted) {message : ApplyMsg}
    (hmessage : message.snapshot = s.makeSnapShot) :
    ∃ t₁' t₂', t₁.getSnapShotFromRaft message = some t₁' ∧
      t₂.getSnapShotFromRaft message = some t₂' ∧
      (SameContents t₁' t₂' ↔ ∀ k, Alike s t₁ t₂ k) ∧
      (Replaced s t₁' t₂' ↔ Covered s t₁ ∧ Covered s t₂) := by
  have hinstall : ∀ t : KvServer, t.getSnapShotFromRaft message = some
      { t with
        skipList := t.skipList.loadFile s.skipList.dumpFile
        lastRequestId := s.lastRequestId
        lastSnapShotRaftLogIndex := message.snapshotIndex } := by
    intro t
    rw [getSnapShotFromRaft, condInstallSnapshot, if_pos rfl, hmessage,
      readSnapShotToInstall_makeSnapShot]
    rfl
  have hcovered : ∀ t : KvServer, t.skipList.Sorted →
      (SameContents
        { maxRaftState := 0
          skipList := ({} : SkipList String String).loadFile s.skipList.dumpFile
          lastRequestId := s.lastRequestId }
        { t with
          skipList := t.skipList.loadFile s.skipList.dumpFile
          lastRequestId := s.lastRequestId
          lastSnapShotRaftLogIndex := message.snapshotIndex } ↔ Covered s t) := by
    intro t ht
    apply sameContents_fresh_iff hs ht
    · rfl
    · rfl
  refine ⟨_, _, hinstall t₁, hinstall t₂, ?_, ?_⟩
  · constructor
    · -- the table of request ids is the one of the snapshot, so the searches decide
      intro h k
      have hsearch := h.search k
      rw [searchElement_install hs h₂, searchElement_install hs h₁] at hsearch
      exact (install_alike_iff _ _ _ k).mp hsearch.symm
    · intro h
      refine { search := fun k => ?_, table := rfl }
      rw [searchElement_install hs h₂, searchElement_install hs h₁]
      exact ((install_alike_iff _ _ _ k).mpr (h k)).symm
  · constructor
    · intro h
      obtain ⟨hsame₁, hsame₂⟩ := h.fresh _ (readSnapShotToInstall_makeSnapShot s _)
      exact ⟨(hcovered t₁ h₁).mp hsame₁, (hcovered t₂ h₂).mp hsame₂⟩
    · rintro ⟨hcov₁, hcov₂⟩
      have hsame₁ := (hcovered t₁ h₁).mpr hcov₁
      have hsame₂ := (hcovered t₂ h₂).mpr hcov₂
      refine { alike := hsame₁.symm.trans hsame₂, fresh := fun t ht => ?_ }
      rw [readSnapShotToInstall_makeSnapShot, Option.some.injEq] at ht
      rw [← ht]
      exact ⟨hsame₁, hsame₂⟩

/-- The message that carries the snapshot of a server. -/
def snapshotMsg (s : KvServer) : ApplyMsg :=
  { snapshotValid := true, snapshot := s.makeSnapShot, snapshotTerm := 1, snapshotIndex := 1 }

omit [KvArchive] in
/-- A server with the keys of the snapshot and an empty one install it. -/
theorem install_replaces_iff_emptyServer :
    letI := textKvArchive
    ∃ t₁' t₂',
      (oneKey "k" "k").getSnapShotFromRaft (snapshotMsg (oneKey "k" "v")) = some t₁' ∧
      ({ maxRaftState := 1000 } : KvServer).getSnapShotFromRaft (snapshotMsg (oneKey "k" "v")) =
        some t₂' ∧
      (SameContents t₁' t₂' ↔
        ∀ k, Alike (oneKey "k" "v") (oneKey "k" "k") { maxRaftState := 1000 } k) ∧
      (Replaced (oneKey "k" "v") t₁' t₂' ↔ Covered (oneKey "k" "v") (oneKey "k" "k") ∧
        Covered (oneKey "k" "v") { maxRaftState := 1000 }) := by
  let := textKvArchive
  have := lawful_textKvArchive
  exact install_replaces_iff (sorted_oneKey "k" "v") (sorted_oneKey "k" "k")
    SkipList.sorted_empty rfl

omit [KvArchive] in
/-- A key that the snapshot does not bind survives on the server that held it. -/
theorem install_keeps_keys :
    letI := textKvArchive
    ∃ t₁' t₂',
      (oneKey "x" "old").getSnapShotFromRaft (snapshotMsg (oneKey "k" "v")) = some t₁' ∧
      ({ maxRaftState := 1000 } : KvServer).getSnapShotFromRaft (snapshotMsg (oneKey "k" "v")) =
        some t₂' ∧
      t₁'.skipList.searchElement "x" = some "old" ∧ t₂'.skipList.searchElement "x" = none ∧
      ¬ SameContents t₁' t₂' := by
  let := textKvArchive
  have hrun₁ : ((oneKey "x" "old").getSnapShotFromRaft (snapshotMsg (oneKey "k" "v"))).map
      (fun t => t.skipList.searchElement "x") = some (some "old") := by
    decide +kernel
  have hrun₂ : (({ maxRaftState := 1000 } : KvServer).getSnapShotFromRaft
      (snapshotMsg (oneKey "k" "v"))).map (fun t => t.skipList.searchElement "x") = some none := by
    decide +kernel
  obtain ⟨t₁', ht₁, hsearch₁⟩ := Option.map_eq_some_iff.mp hrun₁
  obtain ⟨t₂', ht₂, hsearch₂⟩ := Option.map_eq_some_iff.mp hrun₂
  refine ⟨t₁', t₂', ht₁, ht₂, hsearch₁, hsearch₂, fun h => ?_⟩
  have hsame := h.search "x"
  rw [hsearch₁, hsearch₂] at hsame
  cases hsame

end KvServer

end RaftStore
