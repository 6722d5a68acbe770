import RaftStore.Node.Fields

namespace RaftStore

/-!
# The handlers of the receiving side

One inductive predicate for each handler, listing the ways it returns with the new state, the
reply and the facts it tested.  Later proofs take a handler apart through its `…_outcome`
theorem and never unfold it.

* `AppendEntriesArgs.WF` — the shape of the requests `doHeartBeat` builds.
* `Raft.requestVote_outcome`, `Raft.appendEntries1_outcome`, `Raft.installSnapshot_outcome`.
* `Raft.appendEntries1_below_snapshot` — the one request of that shape on which a handler
  ends the process.
-/

namespace Raft

variable {n : ℕ}

/-! ### `RequestVote` -/

section requestVote

variable [RaftArchive]

/-- The ways `RequestVote` returns. -/
inductive RequestVoteOutcome (rf : Raft n) (args : RequestVoteArgs) :
    Raft n → RequestVoteReply → Prop
  | stale (hterm : args.term < rf.currentTerm) :
      RequestVoteOutcome rf args rf.persist { term := rf.currentTerm, voteState := expire }
  | refused (hterm : rf.currentTerm ≤ args.term)
      (hwhy : (rf.observe args.term).upToDate args.lastLogIndex args.lastLogTerm = false ∨
        (rf.observe args.term).votedFor ≠ -1 ∧
          (rf.observe args.term).votedFor ≠ args.candidateId) :
      RequestVoteOutcome rf args (rf.observe args.term).persist
        { term := args.term, voteState := voted }
  | granted (hterm : rf.currentTerm ≤ args.term)
      (hlog : rf.upToDate args.lastLogIndex args.lastLogTerm = true)
      (hvote : (rf.observe args.term).votedFor = -1 ∨
        (rf.observe args.term).votedFor = args.candidateId) :
      RequestVoteOutcome rf args
        ({ rf.observe args.term with votedFor := args.candidateId } : Raft n).persist
        { term := args.term, voteState := normal, voteGranted := true }

omit [RaftArchive] in
/-- Seeing a term does not change how up to date the log is. -/
theorem observe_upToDate (rf : Raft n) (term index t : Int) :
    (rf.observe term).upToDate index t = rf.upToDate index t := by
  simp [upToDate]

/-- `RequestVote` never faults, and returns in one of the listed ways. -/
theorem requestVote_outcome (rf : Raft n) (args : RequestVoteArgs) :
    ∃ rf' reply, rf.requestVote args = .ok (rf', reply) ∧ RequestVoteOutcome rf args rf' reply := by
  simp only [requestVote]
  by_cases hterm : args.term < rf.currentTerm
  · rw [if_pos hterm]
    exact ⟨_, _, rfl, .stale hterm⟩
  have hle := not_lt.mp hterm
  have hcur := observe_currentTerm hle
  rw [if_neg hterm, myAssert, if_pos hcur.symm, Exec.ok_bind]
  by_cases hlog : (rf.observe args.term).upToDate args.lastLogIndex args.lastLogTerm = true
  · rw [if_neg (by simp [hlog])]
    by_cases hvote : (rf.observe args.term).votedFor ≠ -1 ∧
        (rf.observe args.term).votedFor ≠ args.candidateId
    · rw [if_pos hvote, hcur]
      exact ⟨_, _, rfl, .refused hle (Or.inr hvote)⟩
    · rw [if_neg hvote]
      refine ⟨_, _, rfl, ?_⟩
      simpa only [hcur] using
        RequestVoteOutcome.granted hle (by rwa [← observe_upToDate rf args.term]) (by tauto)
  · rw [if_pos (by simpa using hlog), hcur]
    exact ⟨_, _, rfl, .refused hle (Or.inl (by simpa using hlog))⟩

end requestVote

end Raft

/-! ### `AppendEntries1` -/

/-- The shape of the requests `doHeartBeat` builds. -/
structure AppendEntriesArgs.WF (args : AppendEntriesArgs) : Prop where
  nonneg : 0 ≤ args.prevLogIndex
  zero : args.prevLogIndex = 0 → args.prevLogTerm = 0
  contiguous : Contiguous args.prevLogIndex args.entries
  commit : args.leaderCommit ≤ args.prevLogIndex + args.entries.length

namespace Raft

variable {n : ℕ} [RaftArchive]

/-- The state after `AppendEntries1` has accepted a request. -/
def accept (rf : Raft n) (args : AppendEntriesArgs) : Raft n :=
  { rf.follow args.term with
    logs := rf.mergedLogs args.prevLogIndex args.entries
    commitIndex := max rf.commitIndex args.leaderCommit }

/-- The ways `AppendEntries1` returns. -/
inductive AppendEntriesOutcome (rf : Raft n) (args : AppendEntriesArgs) :
    Raft n → AppendEntriesReply → Prop
  | stale (hterm : args.term < rf.currentTerm) :
      AppendEntriesOutcome rf args rf
        { appState := appNormal, term := rf.currentTerm, updateNextIndex := -100 }
  | tooShort (hterm : rf.currentTerm ≤ args.term) (hlast : rf.getLastLogIndex < args.prevLogIndex) :
      AppendEntriesOutcome rf args (rf.follow args.term).persist
        { appState := appNormal, term := args.term, updateNextIndex := rf.getLastLogIndex + 1 }
  | mismatch (hterm : rf.currentTerm ≤ args.term)
      (hsnap : rf.lastSnapshotIncludeIndex ≤ args.prevLogIndex)
      (hlast : args.prevLogIndex ≤ rf.getLastLogIndex)
      (hprev : rf.termAt args.prevLogIndex ≠ some args.prevLogTerm) (next : Int)
      (hnext : next ≤ args.prevLogIndex)
      (hnext' : next = args.prevLogIndex ∨ rf.lastSnapshotIncludeIndex < next) :
      AppendEntriesOutcome rf args (rf.follow args.term).persist
        { appState := appNormal, term := args.term, updateNextIndex := next }
  | accepted (hterm : rf.currentTerm ≤ args.term)
      (hsnap : rf.lastSnapshotIncludeIndex ≤ args.prevLogIndex)
      (hlast : args.prevLogIndex ≤ rf.getLastLogIndex)
      (hprev : rf.termAt args.prevLogIndex = some args.prevLogTerm)
      (hclash : ∀ e ∈ args.entries, rf.NoClash e) :
      AppendEntriesOutcome rf args (rf.accept args).persist
        { appState := appNormal, term := args.term, success := true }

omit [RaftArchive] in
/-- Following a leader does not change what an entry clashes with. -/
theorem follow_noClash (rf : Raft n) (term : Int) (e : LogEntry) :
    (rf.follow term).NoClash e ↔ rf.NoClash e := by
  simp only [NoClash, follow_entryAt]

omit [RaftArchive] in
/-- Following a leader does not change the merge. -/
theorem follow_mergedLogs (rf : Raft n) (term prev : Int) (es : List LogEntry) :
    (rf.follow term).mergedLogs prev es = rf.mergedLogs prev es := by
  simp only [mergedLogs, follow_logs, follow_lastSnapshotIncludeIndex]

/-- A request whose `prevLogIndex` lies below the snapshot point faults in `matchLog`. -/
theorem appendEntries1_below_snapshot {rf : Raft n} (h : rf.LogWF) {args : AppendEntriesArgs}
    (hterm : rf.currentTerm ≤ args.term)
    (hprev : args.prevLogIndex < rf.lastSnapshotIncludeIndex) :
    rf.appendEntries1 args = .error .myAssert := by
  have hlast := h.snapshot_le_last
  simp only [appendEntries1, appendEntriesInTerm]
  rw [if_neg (not_lt.mpr hterm), myAssert, if_pos (observe_currentTerm hterm).symm, Exec.ok_bind,
    if_neg (by rw [follow_getLastLogIndex]; omega), matchLog, myAssert, if_neg]
  · rfl
  · rw [follow_lastSnapshotIncludeIndex]
    omega

omit [RaftArchive] in
/-- Taking the minimum with the last index changes nothing for a commit index the log reaches. -/
theorem followCommit_eq {rf : Raft n} {c : Int} (h : c ≤ rf.getLastLogIndex) :
    rf.followCommit c = { rf with commitIndex := max rf.commitIndex c } := by
  unfold followCommit
  split
  · rw [min_eq_left h, max_eq_right (by omega)]
  · rw [max_eq_left (by omega)]

omit [RaftArchive] in
/-- The commit index does not move the last index. -/
@[simp] theorem followCommit_getLastLogIndex (rf : Raft n) (c : Int) :
    (rf.followCommit c).getLastLogIndex = rf.getLastLogIndex := by
  unfold followCommit
  split <;> rfl

/-- The matching branch of `AppendEntries1`, with the term already handled: only the assert on
    the commit index is left. -/
theorem appendEntriesInTerm_matched {rf : Raft n} (h : rf.LogWF) {args : AppendEntriesArgs}
    (hes : Contiguous args.prevLogIndex args.entries)
    (hsnap : rf.lastSnapshotIncludeIndex ≤ args.prevLogIndex)
    (hlast : args.prevLogIndex ≤ rf.getLastLogIndex)
    (hprev : rf.termAt args.prevLogIndex = some args.prevLogTerm)
    (hclash : ∀ e ∈ args.entries, rf.NoClash e) {rf' : Raft n}
    (hrf' : rf' = { rf with logs := rf.mergedLogs args.prevLogIndex args.entries }) :
    rf'.getLastLogIndex = max rf.getLastLogIndex (args.prevLogIndex + args.entries.length) ∧
      rf.appendEntriesInTerm args = do
        myAssert ((rf'.followCommit args.leaderCommit).commitIndex ≤ rf'.getLastLogIndex)
        return ((rf'.followCommit args.leaderCommit).persist,
          { appState := appNormal
            term := (rf'.followCommit args.leaderCommit).currentTerm
            success := true }) := by
  have hmatch : rf.matchLog args.prevLogIndex args.prevLogTerm = .ok true :=
    h.matchLog_eq_ok.mpr ⟨_, hprev, by simp⟩
  have hmerge : rf.mergeEntries args.entries = .ok rf' :=
    (h.mergeEntries_eq_ok hes hsnap hlast).mpr ⟨hclash, hrf'⟩
  -- the merged log reaches both its old end and the last entry received
  have hlen : rf'.getLastLogIndex =
      max rf.getLastLogIndex (args.prevLogIndex + args.entries.length) := by
    rw [← h.length_merged hsnap hlast, hrf']
    exact (h.with_logs (h.merged hsnap hlast hes)).getLastLogIndex
  refine ⟨hlen, ?_⟩
  unfold appendEntriesInTerm
  rw [if_neg (not_lt.mpr hlast), if_neg (not_lt.mpr hsnap), hmatch, Exec.ok_bind, if_pos rfl,
    hmerge, Exec.ok_bind, myAssert, if_pos (by omega), Exec.ok_bind]
  simp only [followCommit_getLastLogIndex]

/-- The accepting branch of `AppendEntries1`, with the term already handled. -/
theorem appendEntriesInTerm_accepted {rf : Raft n} (h : rf.LogWF)
    (hcommit : rf.commitIndex ≤ rf.getLastLogIndex) {args : AppendEntriesArgs} (ha : args.WF)
    (hsnap : rf.lastSnapshotIncludeIndex ≤ args.prevLogIndex)
    (hlast : args.prevLogIndex ≤ rf.getLastLogIndex)
    (hprev : rf.termAt args.prevLogIndex = some args.prevLogTerm)
    (hclash : ∀ e ∈ args.entries, rf.NoClash e) :
    rf.appendEntriesInTerm args = .ok
      (({ rf with
          logs := rf.mergedLogs args.prevLogIndex args.entries
          commitIndex := max rf.commitIndex args.leaderCommit } : Raft n).persist,
        { appState := appNormal, term := rf.currentTerm, success := true }) := by
  obtain ⟨rf', hrf'⟩ : ∃ rf', rf' =
    ({ rf with logs := rf.mergedLogs args.prevLogIndex args.entries } : Raft n) := ⟨_, rfl⟩
  obtain ⟨hlen, hgo⟩ := appendEntriesInTerm_matched h ha.contiguous hsnap hlast hprev hclash hrf'
  have hlc := ha.commit
  have hc : rf'.commitIndex = rf.commitIndex := by rw [hrf']
  have hfollow : rf'.followCommit args.leaderCommit =
      { rf' with commitIndex := max rf'.commitIndex args.leaderCommit } :=
    followCommit_eq (by omega)
  rw [hgo, hfollow, myAssert, if_pos (by dsimp only; omega), Exec.ok_bind, hrf']
  rfl

/-- What makes `AppendEntries1` fault on a request that is not stale: its `prevLogIndex` lies
    below the snapshot point, or it matches there and brings an entry that clashes. -/
def Rejects (rf : Raft n) (args : AppendEntriesArgs) : Prop :=
  rf.currentTerm ≤ args.term ∧ (args.prevLogIndex < rf.lastSnapshotIncludeIndex ∨
    rf.termAt args.prevLogIndex = some args.prevLogTerm ∧ ∃ e ∈ args.entries, ¬ rf.NoClash e)

/-- A request that is rejected faults. -/
theorem Rejects.fault {rf : Raft n} (h : rf.LogWF) {args : AppendEntriesArgs} (ha : args.WF)
    (hrej : rf.Rejects args) : ∃ f, rf.appendEntries1 args = .error f := by
  obtain ⟨hle, hwhy⟩ := hrej
  by_cases hbelow : args.prevLogIndex < rf.lastSnapshotIncludeIndex
  · exact ⟨_, appendEntries1_below_snapshot h hle hbelow⟩
  obtain ⟨ht, e, he, hclash⟩ := hwhy.resolve_left hbelow
  have hwf := h.follow args.term
  obtain ⟨hsnap, hlast⟩ := h.termAt_isSome.mp (by rw [ht]; rfl)
  have hmatch : (rf.follow args.term).matchLog args.prevLogIndex args.prevLogTerm = .ok true :=
    hwf.matchLog_eq_ok.mpr ⟨_, by rw [follow_termAt, ht], by simp⟩
  cases hmerge : (rf.follow args.term).mergeEntries args.entries with
  | ok rf' =>
    have hno := ((hwf.mergeEntries_eq_ok ha.contiguous (by simpa using hsnap)
      (by simpa using hlast)).mp hmerge).1 e he
    exact absurd ((follow_noClash rf _ e).mp hno) hclash
  | error f =>
    refine ⟨f, ?_⟩
    unfold appendEntries1 appendEntriesInTerm
    rw [if_neg (not_lt.mpr hle), myAssert, if_pos (observe_currentTerm hle).symm, Exec.ok_bind,
      if_neg (by simpa using hlast), if_neg (by simpa using hsnap), hmatch, Exec.ok_bind,
      if_pos rfl, hmerge]
    rfl

/-- In every other case `AppendEntries1` returns. -/
theorem appendEntries1_outcome {rf : Raft n} (h : rf.LogWF)
    (hcommit : rf.commitIndex ≤ rf.getLastLogIndex) {args : AppendEntriesArgs} (ha : args.WF)
    (hno : ¬ rf.Rejects args) :
    ∃ rf' reply, rf.appendEntries1 args = .ok (rf', reply) ∧
      AppendEntriesOutcome rf args rf' reply := by
  by_cases hterm : args.term < rf.currentTerm
  · exact ⟨_, _, if_pos hterm, .stale hterm⟩
  have hle := not_lt.mp hterm
  have hsnap : rf.lastSnapshotIncludeIndex ≤ args.prevLogIndex :=
    not_lt.mp fun hlt => hno ⟨hle, Or.inl hlt⟩
  have hwf := h.follow args.term
  have hcur := follow_currentTerm hle
  have hgo : rf.appendEntries1 args = (rf.follow args.term).appendEntriesInTerm args := by
    unfold appendEntries1
    rw [if_neg hterm, myAssert, if_pos (observe_currentTerm hle).symm, Exec.ok_bind]
  rw [hgo]
  by_cases hlast : rf.getLastLogIndex < args.prevLogIndex
  · refine ⟨_, _, if_pos (by simpa using hlast), ?_⟩
    simp only [hcur, follow_getLastLogIndex]
    exact .tooShort hle hlast
  have hlast' := not_lt.mp hlast
  obtain ⟨t, ht⟩ := h.exists_termAt hsnap hlast'
  by_cases hmatch : args.prevLogTerm = t
  · subst hmatch
    -- a clash would be a rejection
    have hclash : ∀ e ∈ args.entries, rf.NoClash e := fun e he =>
      not_not.mp fun hc => hno ⟨hle, Or.inr ⟨ht, e, he, hc⟩⟩
    have hok := appendEntriesInTerm_accepted hwf (by simpa using hcommit) ha (by simpa using hsnap)
      (by simpa using hlast') (by simpa using ht)
      (fun e he => (follow_noClash rf _ e).mpr (hclash e he))
    rw [follow_mergedLogs, follow_commitIndex] at hok
    have hout : AppendEntriesOutcome rf args (rf.accept args).persist
        { appState := appNormal, term := (rf.follow args.term).currentTerm, success := true } := by
      rw [hcur]
      exact .accepted hle hsnap hlast' ht hclash
    exact ⟨_, _, hok, hout⟩
  · unfold appendEntriesInTerm
    rw [follow_getLastLogIndex, follow_lastSnapshotIncludeIndex, hcur, if_neg hlast,
      if_neg (not_lt.mpr hsnap), hwf.matchLog_eq_ok.mpr ⟨t, by rw [follow_termAt, ht], rfl⟩,
      Exec.ok_bind, if_neg (by simpa using hmatch)]
    -- the back-off loop has one round for each index down to the snapshot point
    have hfuel : ((args.prevLogIndex - rf.lastSnapshotIncludeIndex + 1).toNat : Int) =
        args.prevLogIndex - (rf.follow args.term).lastSnapshotIncludeIndex + 1 := by
      rw [follow_lastSnapshotIncludeIndex]
      omega
    obtain ⟨r, hr, hrle, hrsnap⟩ := hwf.backOff_bounds hfuel le_rfl (by simpa using hsnap)
      (by simpa using hlast')
    dsimp only
    rw [hr, Exec.ok_bind]
    refine ⟨_, _, rfl, .mismatch hle hsnap hlast' ?_ r hrle (by simpa using hrsnap)⟩
    rw [ht]
    simpa [eq_comm] using hmatch

/-! ### `InstallSnapshot` -/

/-- The state after `InstallSnapshot` has accepted a snapshot. -/
def installed (rf : Raft n) (args : InstallSnapshotRequest) : Raft n :=
  ((rf.heed args.term).cutAt args.lastSnapShotIncludeIndex
    args.lastSnapShotIncludeTerm).saveSnapshot args.data

/-- The ways `InstallSnapshot` returns. -/
inductive InstallSnapshotOutcome (rf : Raft n) (args : InstallSnapshotRequest) :
    Raft n → InstallSnapshotResponse → Option ApplyMsg → Prop
  | stale (hterm : args.term < rf.currentTerm) :
      InstallSnapshotOutcome rf args rf { term := rf.currentTerm } none
  | old (hterm : rf.currentTerm ≤ args.term)
      (hidx : args.lastSnapShotIncludeIndex ≤ rf.lastSnapshotIncludeIndex) :
      InstallSnapshotOutcome rf args (rf.heed args.term) {} none
  | installed (hterm : rf.currentTerm ≤ args.term)
      (hidx : rf.lastSnapshotIncludeIndex < args.lastSnapShotIncludeIndex) :
      InstallSnapshotOutcome rf args (rf.installed args) { term := args.term }
        (some (snapshotMsg args))

/-- Cutting the log at a snapshot that lies above the snapshot point does not fault. -/
theorem LogWF.installAccepted_eq {rf : Raft n} (h : rf.LogWF) {args : InstallSnapshotRequest}
    (hidx : rf.lastSnapshotIncludeIndex < args.lastSnapShotIncludeIndex) :
    rf.installAccepted args = .ok ((rf.cutAt args.lastSnapShotIncludeIndex
      args.lastSnapShotIncludeTerm).saveSnapshot args.data) := by
  have hlast := h.getLastLogIndex
  unfold installAccepted
  by_cases hcut : args.lastSnapShotIncludeIndex < rf.getLastLogIndex
  · have hk : (args.lastSnapShotIncludeIndex - rf.lastSnapshotIncludeIndex - 1).toNat + 1 =
        (args.lastSnapShotIncludeIndex - rf.lastSnapshotIncludeIndex).toNat := by omega
    dsimp only
    rw [if_pos hcut, LogWF.getSlicesIndexFromLogIndex_eq_ok.mpr ⟨⟨hidx, hcut.le⟩, rfl⟩,
      Exec.ok_bind, hk]
    rfl
  · have hnil : rf.logs.drop
        (args.lastSnapShotIncludeIndex - rf.lastSnapshotIncludeIndex).toNat = [] :=
      List.drop_eq_nil_of_le (by omega)
    dsimp only
    rw [if_neg hcut, ← hnil]
    rfl

/-- `InstallSnapshot` never faults, and returns in one of the listed ways. -/
theorem installSnapshot_outcome {rf : Raft n} (h : rf.LogWF) (args : InstallSnapshotRequest) :
    ∃ rf' reply msg, rf.installSnapshot args = .ok (rf', reply, msg) ∧
      InstallSnapshotOutcome rf args rf' reply msg := by
  rw [installSnapshot_eq]
  by_cases hterm : args.term < rf.currentTerm
  · exact ⟨_, _, _, if_pos hterm, .stale hterm⟩
  have hle := not_lt.mp hterm
  rw [if_neg hterm, heed_lastSnapshotIncludeIndex]
  by_cases hidx : args.lastSnapShotIncludeIndex ≤ rf.lastSnapshotIncludeIndex
  · exact ⟨_, _, _, if_pos hidx, .old hle hidx⟩
  · have hlt := not_le.mp hidx
    have hwf : (rf.heed args.term).LogWF :=
      ⟨by simpa using h.nonneg, by simpa using h.contiguous⟩
    refine ⟨_, _, _, ?_, .installed hle hlt⟩
    rw [if_neg hidx, hwf.installAccepted_eq (by simpa using hlt), Exec.ok_bind,
      saveSnapshot_currentTerm, cutAt_currentTerm, heed_currentTerm hle]
    rfl

end Raft

end RaftStore
