import RaftStore.Node.Fields

namespace RaftStore

/-!
# The handlers called by the service

`Start`, `Snapshot` and `getApplyLogs`, each as one equation or one list of outcomes.

* `Raft.applyMsgOf` — the message `getApplyLogs` emits for an entry.
* `Raft.getApplyLogs_eq` — it emits the entries between `m_lastApplied` and `m_commitIndex`,
  in order, and moves `m_lastApplied` there.
-/

namespace Raft

variable {n : ℕ}

section handlers

variable [RaftArchive]

/-! ### `Start` -/

/-- The entry `Start` appends. -/
def newEntry (rf : Raft n) (command : String) : LogEntry :=
  { command, logTerm := rf.currentTerm, logIndex := rf.getLastLogIndex + 1 }

/-- The state after `Start` on a leader. -/
def started (rf : Raft n) (command : String) : Raft n :=
  ({ rf with logs := rf.logs ++ [rf.newEntry command] } : Raft n).persist

/-- `Start` at a leader appends the command. -/
theorem start_leader {rf : Raft n} (h : rf.status = .leader) (command : String) :
    rf.start command = (rf.started command, rf.getLastLogIndex + 1, rf.currentTerm, true) := by
  unfold start
  rw [if_neg (not_not.mpr h)]
  rfl

/-- `Start` at any other node refuses. -/
theorem start_not_leader {rf : Raft n} (h : rf.status ≠ .leader) (command : String) :
    rf.start command = (rf, -1, -1, false) :=
  if_pos h

/-- The log after `Start` is contiguous and one entry longer. -/
theorem LogWF.started {rf : Raft n} (h : rf.LogWF) (command : String) :
    (rf.started command).LogWF ∧ (rf.started command).getLastLogIndex = rf.getLastLogIndex + 1 := by
  have hlast := h.getLastLogIndex
  have hwf : (rf.started command).LogWF :=
    ⟨h.nonneg, h.contiguous.append (by simp only [newEntry]; omega)⟩
  refine ⟨hwf, ?_⟩
  rw [hwf.getLastLogIndex, hlast]
  simp only [Raft.started, persist_logs, persist_lastSnapshotIncludeIndex, List.length_append,
    List.length_cons, List.length_nil]
  omega

/-- `Start` adds the new entry behind the end and changes no other. -/
theorem LogWF.entryAt_started {rf : Raft n} (h : rf.LogWF) (command : String) (i : Int) :
    (rf.started command).entryAt i =
      if i = rf.getLastLogIndex + 1 then some (rf.newEntry command) else rf.entryAt i := by
  have hlast := h.getLastLogIndex
  simp only [Raft.started, persist_entryAt]
  unfold entryAt
  dsimp only
  by_cases hi : rf.lastSnapshotIncludeIndex < i
  · rw [if_pos hi, if_pos hi]
    rcases lt_trichotomy i (rf.getLastLogIndex + 1) with hlt | heq | hgt
    · rw [if_neg (by omega), List.getElem?_append_left (by omega)]
    · rw [if_pos heq, show (i - rf.lastSnapshotIncludeIndex - 1).toNat = rf.logs.length by omega]
      simp
    · rw [if_neg (by omega), List.getElem?_eq_none (by simp; omega),
        List.getElem?_eq_none (by omega)]
  · rw [if_neg hi, if_neg hi, if_neg (by omega)]

/-! ### `Snapshot` -/

/-- The ways `Snapshot` returns. -/
inductive SnapshotOutcome (rf : Raft n) (index : Int) (data : String) : Raft n → Prop
  | ignored (hwhy : index ≤ rf.lastSnapshotIncludeIndex ∨ rf.commitIndex < index) :
      SnapshotOutcome rf index data rf
  | compacted (hidx : rf.lastSnapshotIncludeIndex < index) (hcommit : index ≤ rf.commitIndex)
      (e : LogEntry) (he : rf.entryAt index = some e) :
      SnapshotOutcome rf index data ((rf.cutAt index e.logTerm).saveSnapshot data)

omit [RaftArchive] in
/-- The copy loop of `Snapshot` reads the part of the log above `index`. -/
theorem LogWF.mapM_logAt {rf : Raft n} (h : rf.LogWF) {index : Int}
    (hidx : rf.lastSnapshotIncludeIndex < index) (hlast : index ≤ rf.getLastLogIndex) :
    ((List.range (rf.getLastLogIndex - index).toNat).mapM fun (k : ℕ) =>
        rf.logAt (index + 1 + k)) =
      .ok (rf.logs.drop (index - rf.lastSnapshotIncludeIndex).toNat) := by
  have hlen := h.getLastLogIndex
  obtain ⟨d, hd⟩ : ∃ d, d = (index - rf.lastSnapshotIncludeIndex).toNat := ⟨_, rfl⟩
  rw [show (rf.getLastLogIndex - index).toNat = rf.logs.length - d by omega, ← hd]
  have hread : ∀ k ∈ List.range (rf.logs.length - d),
      rf.logAt (index + 1 + (k : ℕ)) = .ok (rf.logs.drop d)[k]! := by
    intro k hk
    have hk := List.mem_range.mp hk
    have hget : rf.logs[d + k]? = some rf.logs[d + k] := List.getElem?_eq_getElem (by omega)
    rw [h.logAt_eq_ok, show index + 1 + (k : Int) = rf.lastSnapshotIncludeIndex + 1 + (d + k : ℕ)
      by omega, ← getElem?_eq_entryAt, hget]
    congr 1
    rw [List.getElem!_eq_getElem?_getD, List.getElem?_drop, hget]
    rfl
  rw [Exec.mapM_ok hread]
  congr 1
  refine List.ext_getElem (by simp) fun k hk _ => ?_
  have hk' : k < (rf.logs.drop d).length := by simpa using hk
  rw [List.getElem_map, List.getElem_range, getElem!_pos (rf.logs.drop d) k hk']

/-- Cutting the log at an entry it holds does not fault. -/
theorem LogWF.snapshot_compacted {rf : Raft n} (h : rf.LogWF) {index : Int} {e : LogEntry}
    (he : rf.entryAt index = some e) (hcommit : index ≤ rf.commitIndex) (data : String) :
    rf.snapshot index data = .ok ((rf.cutAt index e.logTerm).saveSnapshot data) := by
  obtain ⟨hidx, hle⟩ := h.entryAt_bounds he
  have hlast := h.getLastLogIndex
  unfold snapshot
  rw [if_neg (by omega)]
  dsimp only
  rw [h.logAt_eq_ok.mpr he, Exec.ok_bind, h.mapM_logAt hidx hle, Exec.ok_bind, myAssert,
    if_pos (by simp only [saveSnapshot_logs, saveSnapshot_lastSnapshotIncludeIndex,
      List.length_drop]; omega), Exec.ok_bind]
  rfl

/-- `Snapshot` never faults, and returns in one of the listed ways. -/
theorem snapshot_outcome {rf : Raft n} (h : rf.LogWF)
    (hcommit : rf.commitIndex ≤ rf.getLastLogIndex) (index : Int) (data : String) :
    ∃ rf', rf.snapshot index data = .ok rf' ∧ SnapshotOutcome rf index data rf' := by
  by_cases hwhy : index ≤ rf.lastSnapshotIncludeIndex ∨ rf.commitIndex < index
  · exact ⟨rf, if_pos hwhy, .ignored hwhy⟩
  · obtain ⟨hidx, hle⟩ : rf.lastSnapshotIncludeIndex < index ∧ index ≤ rf.commitIndex := by omega
    obtain ⟨e, he⟩ := h.exists_entryAt hidx (by omega)
    exact ⟨_, h.snapshot_compacted he hle data, .compacted hidx hle e he⟩

/-! ### `getApplyLogs` -/

end handlers

/-- The message `getApplyLogs` emits for an entry. -/
def applyMsgOf (e : LogEntry) : ApplyMsg :=
  { commandValid := true
    snapshotValid := false
    command := e.command
    commandIndex := e.logIndex }

/-- The loop of `getApplyLogs` emits the next `fuel` entries. -/
theorem LogWF.applyLoop_eq {rf : Raft n} (h : rf.LogWF) {fuel : ℕ}
    (happlied : rf.lastSnapshotIncludeIndex ≤ rf.lastApplied)
    (hlast : rf.lastApplied + fuel ≤ rf.getLastLogIndex) :
    applyLoop fuel rf = .ok ({ rf with lastApplied := rf.lastApplied + fuel },
      ((rf.logs.drop (rf.lastApplied - rf.lastSnapshotIncludeIndex).toNat).take fuel).map
        applyMsgOf) := by
  induction fuel generalizing rf with
  | zero => simp [applyLoop]
  | succ fuel ih =>
    push_cast at hlast
    have hlen := h.getLastLogIndex
    obtain ⟨e, he⟩ := h.exists_entryAt (i := rf.lastApplied + 1) (by omega) (by omega)
    have hidx := h.logIndex_entryAt he
    have hnext : ({ rf with lastApplied := rf.lastApplied + 1 } : Raft n).LogWF :=
      ⟨h.nonneg, h.contiguous⟩
    have hrest := ih hnext (by dsimp only; omega)
      (by change rf.lastApplied + 1 + fuel ≤ rf.getLastLogIndex; omega)
    -- the entry applied in this round is the first of those that are left
    have hdrop : rf.logs.drop (rf.lastApplied - rf.lastSnapshotIncludeIndex).toNat =
        e :: rf.logs.drop (rf.lastApplied + 1 - rf.lastSnapshotIncludeIndex).toNat := by
      rw [entryAt, if_pos (by omega), show rf.lastApplied + 1 - rf.lastSnapshotIncludeIndex - 1 =
        rf.lastApplied - rf.lastSnapshotIncludeIndex by omega] at he
      obtain ⟨hk, rfl⟩ := List.getElem?_eq_some_iff.mp he
      rw [List.drop_eq_getElem_cons hk]
      congr 2
      omega
    unfold applyLoop
    dsimp only
    rw [hnext.logAt_eq_ok.mpr (show _ = some e from he), Exec.ok_bind, myAssert, if_pos hidx,
      Exec.ok_bind, hrest, Exec.ok_bind, hdrop, List.take_succ_cons, List.map_cons, Exec.pure_eq_ok]
    simp only [applyMsgOf, hidx]
    congr 2
    push_cast
    omega

/-- The entries `getApplyLogs` collects. -/
def applicable (rf : Raft n) : List LogEntry :=
  (rf.logs.drop (rf.lastApplied - rf.lastSnapshotIncludeIndex).toNat).take
    (rf.commitIndex - rf.lastApplied).toNat

/-- `getApplyLogs` emits the committed entries not yet applied, and does not fault. -/
theorem IndexWF.getApplyLogs_eq {rf : Raft n} (h : rf.IndexWF) :
    rf.getApplyLogs =
      .ok ({ rf with lastApplied := rf.commitIndex }, rf.applicable.map applyMsgOf) := by
  have happlied := h.applied
  have hcommit := h.committed
  have hlast := h.last
  unfold getApplyLogs
  rw [myAssert, if_pos hlast, Exec.ok_bind, h.toLogWF.applyLoop_eq happlied (by omega),
    show rf.lastApplied + ((rf.commitIndex - rf.lastApplied).toNat : Int) = rf.commitIndex by omega]
  rfl

/-- Each of these entries is in the log, above `m_lastApplied` and at most at the commit
    index. -/
theorem IndexWF.entryAt_of_mem_applicable {rf : Raft n} (h : rf.IndexWF) {e : LogEntry}
    (he : e ∈ rf.applicable) :
    rf.entryAt e.logIndex = some e ∧ rf.lastApplied < e.logIndex ∧ e.logIndex ≤ rf.commitIndex := by
  have happlied := h.applied
  obtain ⟨k, hk⟩ := List.getElem?_of_mem he
  rw [applicable, List.getElem?_take] at hk
  split at hk
  · rename_i hlt
    rw [List.getElem?_drop] at hk
    have hidx := h.contiguous _ e hk
    push_cast at hidx
    exact ⟨h.toLogWF.exists_entryAt_of_mem (List.mem_of_getElem? hk), by omega, by omega⟩
  · simp at hk

end Raft

end RaftStore
