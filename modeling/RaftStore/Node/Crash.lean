import RaftStore.Model.Persister

namespace RaftStore

/-!
# Crashes while the persister saves

`Save` and `SaveRaftState` truncate the old files before they write the new contents, and the
new contents are sure to be in the files only after the flush at the end.

* `Persister.run_saveActions`, `Persister.run_saveRaftStateActions` — all actions together are
  what `Persister.save` and `Persister.saveRaftState` do to the files.
* `Persister.found_complete_iff` — the crash points that leave a complete pair.
* `Persister.saves_crashSafe_iff` — the contents for which every crash point does;
  `Persister.not_crashSafe` says that raft states that are not empty are not among them.
-/

/-- What a stream has passed on of a string inserted while it held nothing back. -/
def passedOn (spill : List Char → ℕ) (data : String) : String :=
  String.ofList (data.toList.take (spill data.toList))

/-- Of nothing nothing is passed on. -/
@[simp] theorem passedOn_empty (spill : List Char → ℕ) : passedOn spill "" = "" := by
  simp [passedOn]

/-- All of a string is passed on at once, or nothing. -/
def InOnePiece (spill : List Char → ℕ) (data : String) : Prop :=
  passedOn spill data = "" ∨ passedOn spill data = data

namespace Persister

variable {spill : List Char → ℕ}

/-! ### All actions together -/

/-- After `Save` the files hold both texts. -/
theorem save_disk (p : Persister) (raftstate snapshot : String) :
    (p.save raftstate snapshot).disk = ⟨raftstate, snapshot⟩ := by
  simp [save, clearRaftStateAndSnapshot, clearRaftState, clearSnapshot, openOut]

/-- After `SaveRaftState` the one file holds the text. -/
theorem saveRaftState_disk (p : Persister) (data : String) :
    (p.saveRaftState data).disk = { p.disk with raftStateFile := data } := by
  simp [saveRaftState, clearRaftState, openOut]

/-- The actions of `Save` replace both files and leave nothing in the streams. -/
theorem run_saveActions (p : Persister) (raftstate snapshot : String) :
    p.disk.streams.run spill (saveActions raftstate snapshot) =
      (p.save raftstate snapshot).disk.streams := by
  rw [save_disk]
  ext f
  all_goals
    cases f <;>
      simp [saveActions, clearRaftStateAndSnapshotActions, clearRaftStateActions,
        clearSnapshotActions, Streams.run, Streams.act, Disk.streams]

/-- The actions of `SaveRaftState` replace its file and leave nothing in the streams. -/
theorem run_saveRaftStateActions (p : Persister) (data : String) :
    p.disk.streams.run spill (saveRaftStateActions data) =
      (p.saveRaftState data).disk.streams := by
  rw [saveRaftState_disk]
  ext f
  all_goals
    cases f <;>
      simp [saveRaftStateActions, clearRaftStateActions, Streams.run, Streams.act, Disk.streams]

/-! ### What a crash leaves -/

/-- The files when the process ends after `k` actions of `Save`. -/
theorem afterCrash_saveActions (d : Disk) (raftstate snapshot : String) (k : ℕ) :
    d.afterCrash spill (saveActions raftstate snapshot) k = match k with
      | 0 | 1 => d
      | 2 | 3 => ⟨"", d.snapshotFile⟩
      | 4 => ⟨"", ""⟩
      | 5 => ⟨passedOn spill raftstate, ""⟩
      | 6 => ⟨passedOn spill raftstate, passedOn spill snapshot⟩
      | 7 => ⟨raftstate, passedOn spill snapshot⟩
      | _ => ⟨raftstate, snapshot⟩ := by
  match k with
  | 0 | 1 | 2 | 3 | 4 | 5 | 6 | 7 =>
    simp [Disk.afterCrash, diskOf, saveActions, clearRaftStateAndSnapshotActions,
      clearRaftStateActions, clearSnapshotActions, Streams.run, Streams.act, Disk.streams, passedOn]
  | k + 8 =>
    simp [Disk.afterCrash, diskOf, saveActions, clearRaftStateAndSnapshotActions,
      clearRaftStateActions, clearSnapshotActions, Streams.run, Streams.act, Disk.streams]

/-- The files when the process ends after `k` actions of `SaveRaftState`. -/
theorem afterCrash_saveRaftStateActions (d : Disk) (data : String) (k : ℕ) :
    d.afterCrash spill (saveRaftStateActions data) k = match k with
      | 0 | 1 => d
      | 2 => { d with raftStateFile := "" }
      | 3 => { d with raftStateFile := passedOn spill data }
      | _ => { d with raftStateFile := data } := by
  match k with
  | 0 | 1 | 2 | 3 =>
    simp [Disk.afterCrash, diskOf, saveRaftStateActions, clearRaftStateActions, Streams.run,
      Streams.act, Disk.streams, passedOn]
  | k + 4 =>
    simp [Disk.afterCrash, diskOf, saveRaftStateActions, clearRaftStateActions, Streams.run,
      Streams.act, Disk.streams]

/-- The crash points of `Save` that leave a complete pair: those before the first truncation and
    after the last flush, and in between those at which the strings happen to coincide. -/
def SaveKeepsPair (spill : List Char → ℕ) (old : Disk) (raftstate snapshot : String) : ℕ → Prop
  | 0 | 1 => True
  | 2 | 3 => old.raftStateFile = "" ∨ raftstate = "" ∧ old.snapshotFile = snapshot
  | 4 => old.raftStateFile = "" ∧ old.snapshotFile = "" ∨ raftstate = "" ∧ snapshot = ""
  | 5 => passedOn spill raftstate = old.raftStateFile ∧ old.snapshotFile = "" ∨
      passedOn spill raftstate = raftstate ∧ snapshot = ""
  | 6 => passedOn spill raftstate = old.raftStateFile ∧
        passedOn spill snapshot = old.snapshotFile ∨
      passedOn spill raftstate = raftstate ∧ passedOn spill snapshot = snapshot
  | 7 => raftstate = old.raftStateFile ∧ passedOn spill snapshot = old.snapshotFile ∨
      passedOn spill snapshot = snapshot
  | _ => True

/-- The crash points of `SaveRaftState` that leave a complete pair. -/
def SaveRaftStateKeepsPair (spill : List Char → ℕ) (old : Disk) (data : String) : ℕ → Prop
  | 2 => old.raftStateFile = "" ∨ data = ""
  | 3 => passedOn spill data = old.raftStateFile ∨ passedOn spill data = data
  | _ => True

/-- The pair is kept iff the files are as before or as after the call. -/
theorem saveKeepsPair_iff {old : Disk} {raftstate snapshot : String} {k : ℕ} :
    SaveKeepsPair spill old raftstate snapshot k ↔
      (old.afterCrash spill (saveActions raftstate snapshot) k = old ∨
        old.afterCrash spill (saveActions raftstate snapshot) k = ⟨raftstate, snapshot⟩) := by
  obtain ⟨oldState, oldSnapshot⟩ := old
  rw [afterCrash_saveActions]
  match k with
  | 0 | 1 => exact iff_of_true trivial (Or.inl rfl)
  | 2 | 3 | 4 | 5 | 6 | 7 => simp [SaveKeepsPair, eq_comm]
  | k + 8 => exact iff_of_true trivial (Or.inr rfl)

/-- The same for `SaveRaftState`. -/
theorem saveRaftStateKeepsPair_iff {old : Disk} {data : String} {k : ℕ} :
    SaveRaftStateKeepsPair spill old data k ↔
      (old.afterCrash spill (saveRaftStateActions data) k = old ∨
        old.afterCrash spill (saveRaftStateActions data) k =
          { old with raftStateFile := data }) := by
  obtain ⟨oldState, oldSnapshot⟩ := old
  rw [afterCrash_saveRaftStateActions]
  match k with
  | 0 | 1 => exact iff_of_true trivial (Or.inl rfl)
  | 2 | 3 => simp [SaveRaftStateKeepsPair, eq_comm]
  | k + 4 => exact iff_of_true trivial (Or.inr rfl)

/-- **Crashes while saving.**  The pair found after a crash is the complete old one or the
    complete new one exactly at these crash points. -/
theorem found_complete_iff (spill : List Char → ℕ) (old : Disk) (raftstate snapshot : String)
    (k : ℕ) :
    ((old.afterCrash spill (saveActions raftstate snapshot) k = old ∨
        old.afterCrash spill (saveActions raftstate snapshot) k = ⟨raftstate, snapshot⟩) ↔
      SaveKeepsPair spill old raftstate snapshot k) ∧
    ((old.afterCrash spill (saveRaftStateActions raftstate) k = old ∨
        old.afterCrash spill (saveRaftStateActions raftstate) k =
          { old with raftStateFile := raftstate }) ↔
      SaveRaftStateKeepsPair spill old raftstate k) :=
  ⟨saveKeepsPair_iff.symm, saveRaftStateKeepsPair_iff.symm⟩

/-- A crash after the first truncation leaves neither the old nor the new pair. -/
theorem crash_after_truncation :
    let old : Disk := ⟨"a", "b"⟩
    let found := old.afterCrash (fun _ => 0) (saveActions "c" "d") 2
    let found' := old.afterCrash (fun _ => 0) (saveRaftStateActions "c") 2
    (found = ⟨"", "b"⟩ ∧ found ≠ old ∧ found ≠ ⟨"c", "d"⟩) ∧
      (found' = ⟨"", "b"⟩ ∧ found' ≠ old ∧ found' ≠ ⟨"c", "b"⟩) := by
  decide

/-! ### Every crash point -/

/-- Only the files matter to what is found. -/
theorem diskOf_eq_iff {s s' : Streams OutStream Char} :
    diskOf s = diskOf s' ↔ s.file = s'.file := by
  simp only [diskOf, Disk.mk.injEq, String.ofList_inj]
  constructor
  · rintro ⟨hstate, hsnapshot⟩
    funext f
    cases f
    · exact hstate
    · exact hsnapshot
  · intro h
    rw [h]
    exact ⟨rfl, rfl⟩

/-- What is found is what was written. -/
@[simp] theorem diskOf_streams (d : Disk) : diskOf d.streams = d := by
  simp [diskOf, Disk.streams]

/-- Safety in terms of what is found. -/
theorem crashSafe_iff (d : Disk) (actions : List (FileAction OutStream Char)) :
    d.streams.CrashSafe spill actions ↔ ∀ k, d.afterCrash spill actions k = d ∨
      d.afterCrash spill actions k = diskOf (d.streams.run spill actions) := by
  refine forall_congr' fun k => or_congr ?_ diskOf_eq_iff.symm
  rw [← diskOf_eq_iff, diskOf_streams]
  rfl

/-- A raft state that is not empty, saved over another one, is lost at some crash point. -/
theorem not_crashSafe (p : Persister) {raftstate : String} (snapshot : String)
    (hold : p.disk.raftStateFile ≠ "") (hnew : raftstate ≠ "") :
    ¬ p.disk.streams.CrashSafe spill (saveActions raftstate snapshot) ∧
      ¬ p.disk.streams.CrashSafe spill (saveRaftStateActions raftstate) := by
  have hold : p.disk.streams.file .raftState ≠ [] := by simpa [Disk.streams] using hold
  constructor
  · apply Streams.not_crashSafe_of_truncate (f := .raftState) _ hold
    · rw [run_saveActions, save_disk]
      simpa [Disk.streams] using hnew
    · simp [saveActions, clearRaftStateAndSnapshotActions, clearRaftStateActions]
  · apply Streams.not_crashSafe_of_truncate (f := .raftState) _ hold
    · rw [run_saveRaftStateActions, saveRaftState_disk]
      simpa [Disk.streams] using hnew
    · simp [saveRaftStateActions, clearRaftStateActions]

/-- The pair is kept at every point of `Save` only if at most one text is written, over nothing and
    in one piece. -/
theorem forall_saveKeepsPair_iff {old : Disk} {raftstate snapshot : String} :
    (∀ k, SaveKeepsPair spill old raftstate snapshot k) ↔
      (raftstate = "" ∧ snapshot = "" ∧ (old.raftStateFile = "" ∨ old.snapshotFile = "")) ∨
        (old.raftStateFile = "" ∧ old.snapshotFile = "" ∧
          (snapshot = "" ∧ InOnePiece spill raftstate ∨
            raftstate = "" ∧ InOnePiece spill snapshot)) := by
  unfold InOnePiece
  constructor
  · intro h
    -- one crash point between any two actions that matter
    have hfirst := h 2
    have hboth := h 4
    have hstate := h 5
    have hsnapshot := h 6
    have hflushed := h 7
    simp only [SaveKeepsPair] at hfirst hboth hstate hsnapshot hflushed
    grind [passedOn_empty]
  · intro h k
    match k with
    | 0 | 1 => trivial
    | 2 | 3 | 4 | 5 | 6 | 7 =>
      simp only [SaveKeepsPair]
      grind [passedOn_empty]
    | k + 8 => trivial

/-- The same for `SaveRaftState`. -/
theorem forall_saveRaftStateKeepsPair_iff {old : Disk} {data : String} :
    (∀ k, SaveRaftStateKeepsPair spill old data k) ↔
      data = "" ∨ old.raftStateFile = "" ∧ InOnePiece spill data := by
  unfold InOnePiece
  constructor
  · intro h
    have htruncated := h 2
    have hinserted := h 3
    simp only [SaveRaftStateKeepsPair] at htruncated hinserted
    grind
  · intro h k
    match k with
    | 0 | 1 => trivial
    | 2 | 3 =>
      simp only [SaveRaftStateKeepsPair]
      grind [passedOn_empty]
    | k + 4 => trivial

/-- Every crash point leaves a complete pair exactly if at most one of the strings involved is not
    empty, and a new one is passed on in one piece. -/
theorem saves_crashSafe_iff (p : Persister) (raftstate snapshot : String) :
    (p.disk.streams.CrashSafe spill (saveActions raftstate snapshot) ↔
      (raftstate = "" ∧ snapshot = "" ∧
          (p.disk.raftStateFile = "" ∨ p.disk.snapshotFile = "")) ∨
        (p.disk.raftStateFile = "" ∧ p.disk.snapshotFile = "" ∧
          (snapshot = "" ∧ InOnePiece spill raftstate ∨
            raftstate = "" ∧ InOnePiece spill snapshot))) ∧
    (p.disk.streams.CrashSafe spill (saveRaftStateActions raftstate) ↔
      raftstate = "" ∨ p.disk.raftStateFile = "" ∧ InOnePiece spill raftstate) := by
  rw [crashSafe_iff, crashSafe_iff, run_saveActions, run_saveRaftStateActions, diskOf_streams,
    diskOf_streams, save_disk, saveRaftState_disk, ← forall_saveKeepsPair_iff,
    ← forall_saveRaftStateKeepsPair_iff]
  exact ⟨forall_congr' fun _ => saveKeepsPair_iff.symm,
    forall_congr' fun _ => saveRaftStateKeepsPair_iff.symm⟩

end Persister

end RaftStore
