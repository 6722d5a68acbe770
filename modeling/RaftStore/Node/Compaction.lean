import RaftStore.Model.Archive
import RaftStore.Node.Moves

namespace RaftStore

/-!
# Cutting the log

`Snapshot` and `InstallSnapshot` both move the snapshot point up and forget the entries below it
(`Raft.cutAt`).

* `Raft.Transparent` — what a reader of the log, and a peer that is not behind the cut, cannot
  notice; `Raft.snapshot_transparent` says that `Snapshot` is such a change or none at all.
* `Raft.entriesAbove`, `Raft.matchingSuffix` — the entries above an index, all of them or only if
  the log agrees with a snapshot there.
* `Raft.installSnapshot_suffix` — `InstallSnapshot` keeps the entries above the snapshot whatever
  they were appended to.
-/

namespace Raft

variable {n : ℕ}

/-! ### Reading a log after the cut -/

/-- The terms from the cut on are as before. -/
theorem termAt_cutAt {rf : Raft n} {index term : Int} (hidx : rf.lastSnapshotIncludeIndex ≤ index)
    (hterm : rf.termAt index = some term) {i : Int} (hi : index ≤ i) :
    (rf.cutAt index term).termAt i = rf.termAt i := by
  unfold termAt
  rw [cutAt_lastSnapshotIncludeIndex, cutAt_lastSnapshotIncludeTerm, entryAt_cutAt hidx]
  by_cases heq : i = index
  · -- the new snapshot point
    subst heq
    rw [if_pos rfl]
    exact hterm.symm
  · rw [if_neg heq, if_pos (by omega), if_neg (by omega)]

/-- The term of an index is that of its entry. -/
theorem LogWF.entryAt_termAt {rf : Raft n} (h : rf.LogWF) {i : Int} {e : LogEntry}
    (he : rf.entryAt i = some e) : rf.termAt i = some e.logTerm := by
  have := (h.entryAt_bounds he).1
  rw [termAt, if_neg (by omega), he]
  rfl

/-- A leader's request to a peer whose entries follow an index that is not below the cut. -/
theorem appendArgs_cutAt {rf : Raft n} {index : Int} (hidx : rf.lastSnapshotIncludeIndex ≤ index)
    (hcommit : index ≤ rf.commitIndex) (term : Int) {prev : Int} (hprev : index ≤ prev)
    (prevTerm : Int) :
    (rf.cutAt index term).appendArgs prev prevTerm = rf.appendArgs prev prevTerm := by
  have hdrop : (rf.cutAt index term).logs.drop (prev - index).toNat =
      rf.logs.drop (prev - rf.lastSnapshotIncludeIndex).toNat := by
    rw [cutAt_logs, List.drop_drop]
    congr 1
    omega
  unfold appendArgs
  rw [cutAt_lastSnapshotIncludeIndex, hdrop, cutAt_commitIndex, max_eq_left hcommit]
  rfl

/-! ### `Snapshot` -/

section transparent

/-- After the log has been cut at `index`, every reading function answers as before for an index
    that is not below it, and so does `doHeartBeat` for a peer that is not behind it. -/
structure Transparent (rf rf' : Raft n) (index : Int) : Prop where
  lastIndex : rf'.getLastLogIndex = rf.getLastLogIndex
  lastTerm : rf'.getLastLogTerm = rf.getLastLogTerm
  term : ∀ i, index ≤ i → rf'.getLogTermFromLogIndex i = rf.getLogTermFromLogIndex i
  entry : ∀ i, index < i → rf'.logAt i = rf.logAt i
  heartBeat : ∀ j, index < rf.nextIndex j → rf'.heartBeatTo j = rf.heartBeatTo j

/-- A cut at a committed entry is transparent. -/
theorem LogWF.transparent_cutAt {rf : Raft n} (h : rf.LogWF) {index : Int} {e : LogEntry}
    (he : rf.entryAt index = some e) (hcommit : index ≤ rf.commitIndex) :
    rf.Transparent (rf.cutAt index e.logTerm) index := by
  obtain ⟨hidx, hle⟩ := h.entryAt_bounds he
  have hterm := h.entryAt_termAt he
  have hcut := h.cutAt hidx.le e.logTerm
  have hlast : (rf.cutAt index e.logTerm).getLastLogIndex = rf.getLastLogIndex := by
    rw [h.getLastLogIndex_cutAt hidx.le, max_eq_left hle]
  have hsame : ∀ {i}, index ≤ i → (rf.cutAt index e.logTerm).termAt i = rf.termAt i :=
    fun hi => termAt_cutAt hidx.le hterm hi
  refine { lastIndex := hlast, lastTerm := ?_, term := ?_, entry := ?_, heartBeat := ?_ }
  · have hboth := hcut.termAt_last
    rw [hlast, hsame hle, h.termAt_last, Option.some.injEq] at hboth
    exact hboth.symm
  · intro i hi
    rw [hcut.getLogTermFromLogIndex_eq, h.getLogTermFromLogIndex_eq, hsame hi]
  · intro i hi
    rw [hcut.logAt_eq, h.logAt_eq, entryAt_cutAt hidx.le, if_pos hi]
  · intro j hj
    rw [hcut.heartBeatTo_eq (by simpa using hj), h.heartBeatTo_eq (hidx.trans hj), cutAt_nextIndex,
      hsame (by omega)]
    -- the same term is read; the request is the same as well
    cases rf.termAt (rf.nextIndex j - 1) with
    | none => rfl
    | some t =>
      show Except.ok (HeartBeat.append ((rf.cutAt index e.logTerm).appendArgs _ t)) = _
      rw [appendArgs_cutAt hidx.le hcommit _ (by omega)]

variable [RaftArchive]

/-- **Compaction is transparent.**  When `Snapshot` accepts, a log that holds the index stays
    the same for its readers from there on; when it rejects, it changes nothing. -/
theorem snapshot_transparent {rf : Raft n} (h : rf.LogWF) (index : Int) (data : String) :
    (rf.lastSnapshotIncludeIndex < index ∧ index ≤ rf.commitIndex →
      (rf.commitIndex ≤ rf.getLastLogIndex → ∃ rf', rf.snapshot index data = .ok rf') ∧
      ∀ rf', rf.snapshot index data = .ok rf' → rf.Transparent rf' index) ∧
    (¬ (rf.lastSnapshotIncludeIndex < index ∧ index ≤ rf.commitIndex) →
      rf.snapshot index data = .ok rf) := by
  constructor
  · rintro ⟨hidx, hcommit⟩
    refine ⟨fun hlast => ?_, fun rf' hok => ?_⟩
    · obtain ⟨e, he⟩ := h.exists_entryAt hidx (hcommit.trans hlast)
      exact ⟨_, h.snapshot_compacted he hcommit data⟩
    · -- the first access to the log already needs an entry at `index`
      obtain ⟨e, he⟩ : ∃ e, rf.entryAt index = some e := by
        unfold snapshot at hok
        rw [if_neg (by omega)] at hok
        obtain ⟨e, he, _⟩ := Exec.bind_eq_ok.mp hok
        exact ⟨e, h.logAt_eq_ok.mp he⟩
      rw [h.snapshot_compacted he hcommit] at hok
      cases hok
      have hcut := h.transparent_cutAt he hcommit
      exact ⟨hcut.lastIndex, hcut.lastTerm, hcut.term, hcut.entry, hcut.heartBeat⟩
  · intro hreject
    unfold snapshot
    rw [if_pos (by omega)]

end transparent

/-! ### `InstallSnapshot` -/

/-- The entries above `index`. -/
def entriesAbove (rf : Raft n) (index : Int) : List LogEntry :=
  rf.logs.filter fun e => index < e.logIndex

/-- The entries above `index` if the log holds an entry of that term there, and none otherwise. -/
def matchingSuffix (rf : Raft n) (index term : Int) : List LogEntry :=
  if (rf.entryAt index).map LogEntry.logTerm = some term then rf.entriesAbove index else []

/-- The entries above an index are what is left when the part up to it is dropped. -/
theorem LogWF.entriesAbove_eq {rf : Raft n} (h : rf.LogWF) {index : Int}
    (hidx : rf.lastSnapshotIncludeIndex ≤ index) :
    rf.entriesAbove index = rf.logs.drop (index - rf.lastSnapshotIncludeIndex).toNat := by
  obtain ⟨k, hk⟩ : ∃ k : ℕ, k = (index - rf.lastSnapshotIncludeIndex).toNat := ⟨_, rfl⟩
  rw [← hk, entriesAbove]
  -- indices run up from the snapshot point, so the filter cuts at one place
  conv_lhs => rw [← List.take_append_drop k rf.logs]
  have hlow : (rf.logs.take k).filter (fun e => decide (index < e.logIndex)) = [] := by
    rw [List.filter_eq_nil_iff]
    intro e he
    obtain ⟨m, hm⟩ := List.getElem?_of_mem he
    have hlt : m < k := by
      have := (List.getElem?_eq_some_iff.mp hm).1
      rw [List.length_take] at this
      omega
    rw [List.getElem?_take_of_lt hlt] at hm
    have := h.contiguous m e hm
    simp only [decide_eq_true_eq]
    omega
  have hhigh : (rf.logs.drop k).filter (fun e => decide (index < e.logIndex)) = rf.logs.drop k := by
    rw [List.filter_eq_self]
    intro e he
    obtain ⟨m, hm⟩ := List.getElem?_of_mem he
    have := h.contiguous.drop k m e hm
    simp only [decide_eq_true_eq]
    omega
  rw [List.filter_append, hlow, hhigh, List.nil_append]

/-- No entry lies above an index the log does not reach beyond. -/
theorem LogWF.entriesAbove_eq_nil_iff {rf : Raft n} (h : rf.LogWF) {index : Int}
    (hidx : rf.lastSnapshotIncludeIndex ≤ index) :
    rf.entriesAbove index = [] ↔ rf.getLastLogIndex ≤ index := by
  rw [h.entriesAbove_eq hidx, List.drop_eq_nil_iff, h.getLastLogIndex]
  omega

/-- All entries above an index are the ones Raft keeps exactly if there are none or the log
    agrees at the index. -/
theorem LogWF.entriesAbove_eq_matchingSuffix_iff {rf : Raft n} (h : rf.LogWF) {index term : Int}
    (hidx : rf.lastSnapshotIncludeIndex ≤ index) :
    rf.entriesAbove index = rf.matchingSuffix index term ↔
      rf.getLastLogIndex ≤ index ∨ (rf.entryAt index).map LogEntry.logTerm = some term := by
  unfold matchingSuffix
  by_cases hmatch : (rf.entryAt index).map LogEntry.logTerm = some term
  · simp [hmatch]
  · rw [if_neg hmatch, h.entriesAbove_eq_nil_iff hidx]
    simp [hmatch]

variable [RaftArchive]

/-- **What an installed snapshot leaves.**  A snapshot that is accepted leaves exactly the
    entries above its index, numbered on from it; the commit and the last applied index do not
    go down.  The term it carries is not compared with the log. -/
theorem installSnapshot_suffix {rf : Raft n} (h : rf.LogWF) {args : InstallSnapshotRequest}
    (hterm : rf.currentTerm ≤ args.term)
    (hidx : rf.lastSnapshotIncludeIndex < args.lastSnapShotIncludeIndex) :
    ∃ rf' reply msg, rf.installSnapshot args = .ok (rf', reply, msg) ∧
      rf'.logs = rf.entriesAbove args.lastSnapShotIncludeIndex ∧
      (rf'.logs = rf.matchingSuffix args.lastSnapShotIncludeIndex args.lastSnapShotIncludeTerm ↔
        rf.getLastLogIndex ≤ args.lastSnapShotIncludeIndex ∨
          (rf.entryAt args.lastSnapShotIncludeIndex).map LogEntry.logTerm =
            some args.lastSnapShotIncludeTerm) ∧
      rf'.lastSnapshotIncludeIndex = args.lastSnapShotIncludeIndex ∧
      Contiguous rf'.lastSnapshotIncludeIndex rf'.logs ∧
      rf.commitIndex ≤ rf'.commitIndex ∧ rf.lastApplied ≤ rf'.lastApplied := by
  obtain ⟨rf', reply, msg, hok, hout⟩ := installSnapshot_outcome h args
  refine ⟨rf', reply, msg, hok, ?_⟩
  -- the two refusals contradict the hypotheses
  cases hout with
  | stale hstale => omega
  | old _ hold => omega
  | installed =>
    have hlogs : (rf.installed args).logs = rf.entriesAbove args.lastSnapShotIncludeIndex := by
      rw [h.entriesAbove_eq hidx.le]
      simp [Raft.installed]
    have hnew : (rf.installed args).lastSnapshotIncludeIndex = args.lastSnapShotIncludeIndex := rfl
    refine ⟨hlogs, ?_, hnew, ?_, ?_, ?_⟩
    · rw [hlogs]
      exact h.entriesAbove_eq_matchingSuffix_iff hidx.le
    · rw [hnew, hlogs, h.entriesAbove_eq hidx.le]
      exact (h.cutAt hidx.le 0).contiguous
    · simp [Raft.installed]
    · simp [Raft.installed]

end Raft

/-! ### A snapshot of another history -/

/-- A node without a snapshot that holds three entries of term 1. -/
def threeEntries {n : ℕ} (me : Fin n) : Raft n :=
  { Raft.fresh me {} with
    currentTerm := 1
    logs := [⟨"f", 1, 1⟩, ⟨"g", 1, 2⟩, ⟨"h", 1, 3⟩]
    commitIndex := 2 }

/-- The log of the example is well formed. -/
theorem threeEntries_logWF {n : ℕ} (me : Fin n) : (threeEntries me).LogWF where
  nonneg := le_rfl
  contiguous := contiguous_cons.mpr ⟨rfl, contiguous_cons.mpr ⟨rfl,
    contiguous_cons.mpr ⟨rfl, contiguous_nil _⟩⟩⟩

/-- The snapshot of another leader up to index 2. -/
def snapshotAtTwo (lastTerm : Int) : InstallSnapshotRequest :=
  { leaderId := 1, term := 3, lastSnapShotIncludeIndex := 2, lastSnapShotIncludeTerm := lastTerm,
    data := "s" }

/-- The node compacts its first entry. -/
theorem snapshot_transparent_threeEntries :
    letI := textRaftArchive
    ∃ rf' : Raft 3, (threeEntries 0).snapshot 1 "s" = .ok rf' ∧
      (threeEntries 0).Transparent rf' 1 := by
  let := textRaftArchive
  obtain ⟨hreturns, hsame⟩ := (Raft.snapshot_transparent (threeEntries_logWF (0 : Fin 3)) 1 "s").1
    ⟨by decide, by decide⟩
  obtain ⟨rf', hok⟩ := hreturns (by decide)
  exact ⟨rf', hok, hsame rf' hok⟩

/-- It installs a snapshot that ends with an entry of its own. -/
theorem installSnapshot_suffix_threeEntries :
    letI := textRaftArchive
    ∃ (rf' : Raft 3) (reply : InstallSnapshotResponse) (msg : Option ApplyMsg),
      (threeEntries 0).installSnapshot (snapshotAtTwo 1) = .ok (rf', reply, msg) ∧
      rf'.logs = (threeEntries (0 : Fin 3)).entriesAbove 2 := by
  let := textRaftArchive
  have hterm : (threeEntries (0 : Fin 3)).currentTerm ≤ (snapshotAtTwo 1).term := by decide
  obtain ⟨rf', reply, msg, hok, hlogs, _⟩ := Raft.installSnapshot_suffix
    (threeEntries_logWF (0 : Fin 3)) hterm (by decide)
  exact ⟨rf', reply, msg, hok, hlogs⟩

/-- A snapshot whose entry at index 2 has term 2 keeps the entry above it all the same. -/
theorem installSnapshot_keeps_mismatch :
    letI := textRaftArchive
    ∃ (rf' : Raft 3) (reply : InstallSnapshotResponse) (msg : Option ApplyMsg),
      (threeEntries 0).installSnapshot (snapshotAtTwo 2) = .ok (rf', reply, msg) ∧
      rf'.logs = [⟨"h", 1, 3⟩] ∧ (threeEntries (0 : Fin 3)).matchingSuffix 2 2 = [] := by
  let := textRaftArchive
  exact ⟨_, _, _, rfl, by decide, by decide⟩

end RaftStore
