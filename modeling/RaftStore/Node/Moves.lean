import RaftStore.Node.Receiving
import RaftStore.Node.Sending
import RaftStore.Node.Service

namespace RaftStore

/-!
# What one handler does to its node

`Raft.Moves` collects the ways in which a handler that returns can change the state of its node.
Each fact below is one case analysis over it, and everything that is about one node alone
follows from these facts.

* `Moves.indexWF` — the log stays contiguous and the indices stay in order.
* `Moves.last_le` — the last index never goes down: merging keeps what lies beyond the received
  entries, and a snapshot that cuts the log moves the end with it.
* `Moves.term_vote` — the term never goes down, and within a term a vote once given stays.
-/

namespace Raft

variable {n : ℕ}

/-! ### The states the handlers end in -/

section fields

variable [RaftArchive]

/-- The state in which `doElection` leaves a node that does not lead. -/
theorem doElection_fst {rf : Raft n} (h : rf.status ≠ .leader) :
    rf.doElection.1 = ({ rf with
      status := .candidate
      currentTerm := rf.currentTerm + 1
      votedFor := rf.me.val } : Raft n).persist := by
  unfold doElection
  rw [if_neg h]

/-- The requests of `doElection`. -/
theorem doElection_snd {rf : Raft n} (h : rf.status ≠ .leader) :
    rf.doElection.2 = rf.otherPeers.map fun i =>
      (i, { term := rf.currentTerm + 1
            candidateId := rf.me.val
            lastLogIndex := rf.getLastLogIndex
            lastLogTerm := rf.getLastLogTerm }) := by
  unfold doElection
  rw [if_neg h]
  rfl

end fields

section accept

variable (rf : Raft n) (args : AppendEntriesArgs)

/-- A follower keeps its own number. -/
@[simp] theorem accept_me : (rf.accept args).me = rf.me := follow_me rf args.term
/-- Who accepts entries follows. -/
@[simp] theorem accept_status : (rf.accept args).status = .follower := rfl
/-- The log behind the accepted entries is the merged one. -/
@[simp] theorem accept_logs :
    (rf.accept args).logs = rf.mergedLogs args.prevLogIndex args.entries := rfl
/-- The commit index rises to the leader's. -/
@[simp] theorem accept_commitIndex :
    (rf.accept args).commitIndex = max rf.commitIndex args.leaderCommit := rfl
/-- Accepting entries applies none. -/
@[simp] theorem accept_lastApplied : (rf.accept args).lastApplied = rf.lastApplied :=
  follow_lastApplied rf args.term
/-- The snapshot point stays where it is. -/
@[simp] theorem accept_lastSnapshotIncludeIndex :
    (rf.accept args).lastSnapshotIncludeIndex = rf.lastSnapshotIncludeIndex :=
  follow_lastSnapshotIncludeIndex rf args.term
/-- So does its term. -/
@[simp] theorem accept_lastSnapshotIncludeTerm :
    (rf.accept args).lastSnapshotIncludeTerm = rf.lastSnapshotIncludeTerm :=
  follow_lastSnapshotIncludeTerm rf args.term

/-- The vote is free again in a newer term, and kept in the same. -/
theorem accept_votedFor :
    (rf.accept args).votedFor = if rf.currentTerm < args.term then -1 else rf.votedFor :=
  follow_votedFor rf args.term

/-- A request that is not behind leaves the follower in the leader's term. -/
theorem accept_currentTerm {rf : Raft n} {args : AppendEntriesArgs}
    (h : rf.currentTerm ≤ args.term) : (rf.accept args).currentTerm = args.term :=
  follow_currentTerm h

/-- The index order of the accepted state, and its last index. -/
theorem IndexWF.accept {rf : Raft n} (h : rf.IndexWF) {args : AppendEntriesArgs} (ha : args.WF)
    (hsnap : rf.lastSnapshotIncludeIndex ≤ args.prevLogIndex)
    (hlast : args.prevLogIndex ≤ rf.getLastLogIndex) :
    (rf.accept args).IndexWF ∧ (rf.accept args).getLastLogIndex =
      max rf.getLastLogIndex (args.prevLogIndex + args.entries.length) := by
  have hlog : (rf.accept args).LogWF :=
    ⟨by simpa using h.nonneg, by simpa using h.toLogWF.merged hsnap hlast ha.contiguous⟩
  have hend : (rf.accept args).getLastLogIndex =
      max rf.getLastLogIndex (args.prevLogIndex + args.entries.length) := by
    rw [← h.toLogWF.length_merged hsnap hlast, hlog.getLastLogIndex, accept_logs,
      accept_lastSnapshotIncludeIndex]
  refine ⟨{ hlog with zero := ?_, applied := ?_, committed := ?_, last := ?_ }, hend⟩
  · simpa using h.zero
  · simpa using h.applied
  · rw [accept_lastApplied, accept_commitIndex]
    exact h.committed.trans (le_max_left _ _)
  · rw [hend, accept_commitIndex]
    exact max_le_max h.last ha.commit

/-- What the accepted log holds at an index. -/
theorem LogWF.entryAt_accept {rf : Raft n} (h : rf.LogWF) {args : AppendEntriesArgs}
    (hsnap : rf.lastSnapshotIncludeIndex ≤ args.prevLogIndex)
    (hlast : args.prevLogIndex ≤ rf.getLastLogIndex) (i : Int) :
    (rf.accept args).entryAt i =
      if args.prevLogIndex < i ∧ i ≤ args.prevLogIndex + args.entries.length then
        args.entries[(i - args.prevLogIndex - 1).toNat]?
      else rf.entryAt i := by
  rw [← h.entryAt_merged hsnap hlast]
  simp only [entryAt, accept_lastSnapshotIncludeIndex, accept_logs]

end accept

/-! ### The messages stay inside the log -/

/-- The requests of a leader have the shape `AppendEntries1` relies on and reach to the end of
    its log. -/
theorem IndexWF.appendArgs {rf : Raft n} (h : rf.IndexWF) {prev prevTerm : Int}
    (ht : rf.termAt prev = some prevTerm) :
    (rf.appendArgs prev prevTerm).WF ∧
      prev + (rf.appendArgs prev prevTerm).entries.length = rf.getLastLogIndex := by
  obtain ⟨hsnap, hle⟩ := h.toLogWF.termAt_isSome.mp (by rw [ht]; rfl)
  have hnonneg := h.nonneg
  have hlen := h.toLogWF.getLastLogIndex
  have hend : prev + (rf.appendArgs prev prevTerm).entries.length = rf.getLastLogIndex := by
    simp only [Raft.appendArgs, List.length_drop]
    omega
  have hdrop := h.contiguous.drop (prev - rf.lastSnapshotIncludeIndex).toNat
  rw [show rf.lastSnapshotIncludeIndex + ((prev - rf.lastSnapshotIncludeIndex).toNat : Int) = prev
    by omega] at hdrop
  refine ⟨{ nonneg := hnonneg.trans hsnap, zero := fun h0 => ?_, contiguous := hdrop,
            commit := ?_ }, hend⟩
  · -- index 0 can only be the snapshot point of a node without a snapshot
    have h0 : prev = 0 := h0
    have hzero := h.zero (by omega)
    rw [termAt, if_pos (by omega), hzero] at ht
    exact (Option.some.inj ht).symm
  · have hlast := h.last
    calc rf.commitIndex ≤ rf.getLastLogIndex := hlast
      _ = prev + (rf.appendArgs prev prevTerm).entries.length := hend.symm

/-- A refusal of `AppendEntries1` that asks the leader to back off names an index between 1
    and the `prevLogIndex` it refuses. -/
theorem AppendEntriesOutcome.refused [RaftArchive] {rf rf' : Raft n} {args : AppendEntriesArgs}
    {reply : AppendEntriesReply} (hwf : rf.IndexWF) (ha : args.WF)
    (hout : rf.AppendEntriesOutcome args rf' reply) (hfail : reply.success = false)
    (hnext : reply.updateNextIndex ≠ -100) :
    1 ≤ reply.updateNextIndex ∧ reply.updateNextIndex ≤ args.prevLogIndex := by
  have hnonneg := hwf.nonneg
  have hsnap := hwf.toLogWF.snapshot_le_last
  cases hout with
  | stale => exact absurd rfl hnext
  | tooShort hterm hlast => exact ⟨by dsimp only; omega, by dsimp only; omega⟩
  | mismatch hterm hsnap hlast hprev next hle hor =>
    refine ⟨?_, hle⟩
    dsimp only
    rcases hor with rfl | hlt
    · -- a mismatch at index 0 would contradict the common empty beginning of all logs
      have hprev0 := ha.nonneg
      by_contra h0
      have hzero : args.prevLogIndex = 0 := by omega
      refine hprev ?_
      rw [termAt, if_pos (by omega), hwf.zero (by omega), ha.zero hzero]
    · omega
  | accepted => cases hfail

variable [RaftArchive]

/-- The changes of a node's state by a handler that returns. -/
inductive Moves (rf : Raft n) : Raft n → Prop
  | elect (hstatus : rf.status ≠ .leader) : Moves rf rf.doElection.1
  | requestVote {args : RequestVoteArgs} {rf' : Raft n} {reply : RequestVoteReply}
      (hout : RequestVoteOutcome rf args rf' reply) : Moves rf rf'
  | voteReply {reply : RequestVoteReply} {votedNum count : Int} {rf' : Raft n}
      (hout : VoteReplyOutcome rf reply votedNum rf' count) : Moves rf rf'
  | appendEntries1 {args : AppendEntriesArgs} {rf' : Raft n} {reply : AppendEntriesReply}
      (ha : args.WF) (hout : AppendEntriesOutcome rf args rf' reply) : Moves rf rf'
  | appendReply {server : Fin n} {args : AppendEntriesArgs} {reply : AppendEntriesReply}
      {appendNums count : Int} {rf' : Raft n}
      (ha : args.WF) (hsent : args.prevLogIndex + args.entries.length ≤ rf.getLastLogIndex)
      (hrefused : reply.success = false → reply.updateNextIndex ≠ -100 →
        1 ≤ reply.updateNextIndex ∧ reply.updateNextIndex ≤ args.prevLogIndex)
      (hout : AppendReplyOutcome rf server args reply appendNums rf' count) : Moves rf rf'
  | readSnapshot : Moves rf rf.leaderSendSnapShot.1
  | installSnapshot {args : InstallSnapshotRequest} {rf' : Raft n}
      {reply : InstallSnapshotResponse} {message : Option ApplyMsg}
      (hout : InstallSnapshotOutcome rf args rf' reply message) : Moves rf rf'
  | snapshotReply {server : Fin n} {args : InstallSnapshotRequest}
      {reply : InstallSnapshotResponse} {rf' : Raft n}
      (hidx : 0 ≤ args.lastSnapShotIncludeIndex ∧
        args.lastSnapShotIncludeIndex ≤ rf.getLastLogIndex)
      (hout : SnapshotReplyOutcome rf server args reply rf') : Moves rf rf'
  | start (hstatus : rf.status = .leader) (command : String) : Moves rf (rf.started command)
  | snapshot {index : Int} {data : String} {rf' : Raft n}
      (hout : SnapshotOutcome rf index data rf') : Moves rf rf'
  | apply : Moves rf { rf with lastApplied := rf.commitIndex }

/-- No handler changes the number of its node. -/
theorem Moves.me {rf rf' : Raft n} (h : rf.Moves rf') : rf'.me = rf.me := by
  cases h with
  | elect hstatus => rw [doElection_fst hstatus]; rfl
  | requestVote hout => cases hout <;> simp
  | voteReply hout => cases hout <;> simp
  | appendEntries1 ha hout => cases hout <;> simp
  | appendReply ha hsent hrefused hout => cases hout <;> simp
  | readSnapshot => rfl
  | installSnapshot hout => cases hout <;> simp [installed]
  | snapshotReply hidx hout => cases hout <;> simp
  | start => rfl
  | snapshot hout => cases hout <;> simp
  | apply => rfl

/-- The last index after a move; it never goes down. -/
theorem Moves.last_le {rf rf' : Raft n} (hwf : rf.IndexWF) (h : rf.Moves rf') :
    rf.getLastLogIndex ≤ rf'.getLastLogIndex := by
  cases h with
  | elect hstatus => rw [doElection_fst hstatus]; exact le_rfl
  | requestVote hout =>
    cases hout with
    | stale => exact le_rfl
    | refused => exact (observe_getLastLogIndex rf _).ge
    | granted => exact (observe_getLastLogIndex rf _).ge
  | voteReply hout => cases hout <;> exact le_rfl
  | appendEntries1 ha hout =>
    cases hout with
    | stale => exact le_rfl
    | tooShort => exact (follow_getLastLogIndex rf _).ge
    | mismatch => exact (follow_getLastLogIndex rf _).ge
    | accepted hterm hsnap hlast =>
      rw [persist_getLastLogIndex, (hwf.accept ha hsnap hlast).2]
      exact le_max_left _ _
  | appendReply ha hsent hrefused hout =>
    cases hout with
    | majority => simp
    | stepDown | ignored | backOff | counted => exact le_rfl
  | readSnapshot => exact le_rfl
  | @installSnapshot args _ _ _ hout =>
    cases hout with
    | stale => exact le_rfl
    | old => exact (heed_getLastLogIndex rf _).ge
    | installed hterm hidx =>
      have hheed : (rf.heed args.term).LogWF :=
        ⟨by simpa using hwf.nonneg, by simpa using hwf.contiguous⟩
      rw [installed, saveSnapshot_getLastLogIndex,
        hheed.getLastLogIndex_cutAt (by simpa using hidx.le), heed_getLastLogIndex]
      exact le_max_left _ _
  | snapshotReply hidx hout => cases hout <;> exact le_rfl
  | start _ command =>
    rw [(hwf.toLogWF.started command).2]
    omega
  | snapshot hout =>
    cases hout with
    | ignored => exact le_rfl
    | compacted hidx =>
      rw [saveSnapshot_getLastLogIndex, hwf.toLogWF.getLastLogIndex_cutAt hidx.le]
      exact le_max_left _ _
  | apply => exact le_rfl

/-- `IndexWF` survives the term handling of `InstallSnapshot`. -/
theorem IndexWF.heed {rf : Raft n} (h : rf.IndexWF) (term : Int) : (rf.heed term).IndexWF :=
  h.congr (by simp) (by simp) (by simp) (by simp) (by simp)

/-- Every move keeps the log contiguous and the indices in order. -/
theorem Moves.indexWF {rf rf' : Raft n} (hwf : rf.IndexWF) (h : rf.Moves rf') : rf'.IndexWF := by
  cases h with
  | elect hstatus =>
    rw [doElection_fst hstatus]
    exact hwf.congr rfl rfl rfl rfl rfl
  | requestVote hout =>
    cases hout <;> exact hwf.congr (by simp) (by simp) (by simp) (by simp) (by simp)
  | voteReply hout => cases hout <;> exact hwf.congr rfl rfl rfl rfl rfl
  | appendEntries1 ha hout =>
    cases hout with
    | stale => exact hwf
    | tooShort => exact hwf.congr (by simp) (by simp) (by simp) (by simp) (by simp)
    | mismatch => exact hwf.congr (by simp) (by simp) (by simp) (by simp) (by simp)
    | accepted hterm hsnap hlast =>
      exact (hwf.accept ha hsnap hlast).1.congr rfl rfl rfl rfl rfl
  | appendReply ha hsent hrefused hout =>
    cases hout with
    | stepDown | ignored | backOff | counted => exact hwf.congr rfl rfl rfl rfl rfl
    | majority =>
      -- `m_commitIndex` moves to the end of what was sent, which is inside the log
      have hlast := hwf.last
      refine { nonneg := ?_, contiguous := ?_, zero := ?_, applied := ?_, committed := ?_,
               last := ?_ }
      · simpa using hwf.nonneg
      · simpa using hwf.contiguous
      · simpa using hwf.zero
      · simpa using hwf.applied
      · have hcommitted := hwf.committed
        rw [commitRound_lastApplied, commitRound_commitIndex, recordMatch_lastApplied,
          recordMatch_commitIndex]
        split <;> omega
      · rw [commitRound_getLastLogIndex, commitRound_commitIndex, recordMatch_getLastLogIndex,
          recordMatch_commitIndex]
        split <;> omega
  | readSnapshot => exact hwf.congr rfl rfl rfl rfl rfl
  | @installSnapshot args _ _ _ hout =>
    cases hout with
    | stale => exact hwf
    | old => exact hwf.heed args.term
    | installed hterm hidx =>
      exact ((hwf.heed args.term).cutAt (by simpa using hidx) _).congr rfl rfl rfl rfl rfl
  | snapshotReply hidx hout => cases hout <;> exact hwf.congr rfl rfl rfl rfl rfl
  | start _ command =>
    obtain ⟨hlog, hend⟩ := hwf.toLogWF.started command
    have hlast := hwf.last
    exact { hlog with
            zero := hwf.zero
            applied := hwf.applied
            committed := hwf.committed
            last := by rw [hend]; exact (hlast.trans (by omega)) }
  | snapshot hout =>
    cases hout with
    | ignored => exact hwf
    | compacted hidx => exact (hwf.cutAt hidx _).congr rfl rfl rfl rfl rfl
  | apply =>
    exact { hwf with
            applied := hwf.applied.trans hwf.committed
            committed := le_rfl }

/-- What a leader keeps for each peer lies inside its log. -/
def Tracks (rf : Raft n) : Prop :=
  ∀ j, 1 ≤ rf.nextIndex j ∧ rf.nextIndex j ≤ rf.getLastLogIndex + 1 ∧
    rf.matchIndex j ≤ rf.getLastLogIndex

omit [RaftArchive] in
/-- `Tracks` with one peer's slots replaced by values inside the log. -/
theorem Tracks.update {rf rf' : Raft n} (h : rf.Tracks) {server : Fin n} {next matched : Int}
    (hnext : rf'.nextIndex = Function.update rf.nextIndex server next)
    (hmatch : rf'.matchIndex = Function.update rf.matchIndex server matched)
    (hlast : rf'.getLastLogIndex = rf.getLastLogIndex) (h₁ : 1 ≤ next)
    (h₂ : next ≤ rf.getLastLogIndex + 1) (h₃ : matched ≤ rf.getLastLogIndex) : rf'.Tracks := by
  intro j
  rw [hnext, hmatch, hlast]
  by_cases hj : j = server
  · subst hj
    rw [Function.update_self, Function.update_self]
    exact ⟨h₁, h₂, h₃⟩
  · rw [Function.update_of_ne hj, Function.update_of_ne hj]
    exact h j

omit [RaftArchive] in
/-- An index that the log reaches can be recorded for a peer. -/
theorem Tracks.recordMatch {rf : Raft n} (h : rf.Tracks) (server : Fin n) {index : Int}
    (h₀ : 0 ≤ index) (hlast : index ≤ rf.getLastLogIndex) :
    (rf.recordMatch server index).Tracks := by
  have hmatch := (h server).2.2
  exact h.update rfl rfl rfl (by omega) (by omega)
    (by omega)

omit [RaftArchive] in
/-- `Tracks` survives when the slots stay and the log does not shrink. -/
theorem Tracks.congr {rf rf' : Raft n} (h : rf.Tracks) (hnext : rf'.nextIndex = rf.nextIndex)
    (hmatch : rf'.matchIndex = rf.matchIndex)
    (hlast : rf.getLastLogIndex ≤ rf'.getLastLogIndex) : rf'.Tracks := by
  intro j
  have := h j
  rw [hnext, hmatch]
  omega

/-! ### Who leads after a handler -/

/-- A node that leads in `rf'` already led in `rf`, in the same term. -/
def StillLeads (rf rf' : Raft n) : Prop :=
  rf'.status = .leader → rf.status = .leader ∧ rf'.currentTerm = rf.currentTerm

omit [RaftArchive] in
/-- Nothing has changed. -/
theorem StillLeads.refl (rf : Raft n) : rf.StillLeads rf := fun h => ⟨h, rfl⟩

omit [RaftArchive] in
/-- Who sees a newer term leads no more, and who sees none is as before. -/
theorem observe_leads (rf : Raft n) (term : Int) : rf.StillLeads (rf.observe term) := by
  intro h
  unfold observe at h ⊢
  split at h
  · cases h
  · rename_i hle
    rw [if_neg hle]
    exact ⟨h, rfl⟩

/-- A candidate does not lead. -/
theorem doElection_leads {rf : Raft n} (hstatus : rf.status ≠ .leader) :
    rf.StillLeads rf.doElection.1 := by
  intro h
  rw [doElection_fst hstatus] at h
  cases h

/-- Answering a vote makes nobody leader. -/
theorem RequestVoteOutcome.leads {rf rf' : Raft n} {args : RequestVoteArgs}
    {reply : RequestVoteReply} (hout : rf.RequestVoteOutcome args rf' reply) :
    rf.StillLeads rf' := by
  cases hout with
  | stale => exact StillLeads.refl rf
  | refused | granted => exact rf.observe_leads args.term

/-- Neither does answering a request for entries. -/
theorem AppendEntriesOutcome.leads {rf rf' : Raft n} {args : AppendEntriesArgs}
    {reply : AppendEntriesReply} (hout : rf.AppendEntriesOutcome args rf' reply) :
    rf.StillLeads rf' := by
  cases hout with
  | stale => exact .refl rf
  | tooShort | mismatch | accepted => exact fun h => by cases h

/-- The reply to a request for entries leaves the leader in its term, or deposes it. -/
theorem AppendReplyOutcome.leads {rf rf' : Raft n} {server : Fin n} {args : AppendEntriesArgs}
    {reply : AppendEntriesReply} {appendNums count : Int}
    (hout : rf.AppendReplyOutcome server args reply appendNums rf' count) :
    rf.StillLeads rf' := by
  cases hout with
  | stepDown => exact fun h => by cases h
  | ignored | backOff | counted => exact StillLeads.refl rf
  | majority => exact fun h => ⟨by simpa using h, by simp⟩

/-- A snapshot makes nobody leader. -/
theorem InstallSnapshotOutcome.leads {rf rf' : Raft n} {args : InstallSnapshotRequest}
    {reply : InstallSnapshotResponse} {msg : Option ApplyMsg}
    (hout : rf.InstallSnapshotOutcome args rf' reply msg) : rf.StillLeads rf' := by
  cases hout with
  | stale => exact .refl rf
  | old | installed => exact fun h => by cases h

/-- The reply to a snapshot leaves the leader in its term, or deposes it. -/
theorem SnapshotReplyOutcome.leads {rf rf' : Raft n} {server : Fin n}
    {args : InstallSnapshotRequest} {reply : InstallSnapshotResponse}
    (hout : rf.SnapshotReplyOutcome server args reply rf') : rf.StillLeads rf' := by
  cases hout with
  | ignored | recorded => exact StillLeads.refl rf
  | stepDown => exact fun h => by cases h

/-- The server's own snapshot leaves the leader in its term. -/
theorem SnapshotOutcome.leads {rf rf' : Raft n} {index : Int} {data : String}
    (hout : rf.SnapshotOutcome index data rf') : rf.StillLeads rf' := by
  cases hout <;> exact StillLeads.refl rf

/-! ### The log of a leader -/

/-- The log of `rf'` continues that of `rf`: nothing is lost but a beginning that has gone into
    the snapshot. -/
structure Extends (rf rf' : Raft n) : Prop where
  snap : rf.lastSnapshotIncludeIndex ≤ rf'.lastSnapshotIncludeIndex
  last : rf.getLastLogIndex ≤ rf'.getLastLogIndex
  entryAt : ∀ i, rf'.lastSnapshotIncludeIndex < i → i ≤ rf.getLastLogIndex →
    rf'.entryAt i = rf.entryAt i

omit [RaftArchive] in
/-- A log extends itself. -/
theorem Extends.refl (rf : Raft n) : rf.Extends rf := ⟨le_rfl, le_rfl, fun _ _ _ => rfl⟩

omit [RaftArchive] in
/-- Extensions compose: an entry above the second snapshot point is above the first. -/
theorem Extends.trans {rf rf' rf'' : Raft n} (h : rf.Extends rf') (h' : rf'.Extends rf'') :
    rf.Extends rf'' where
  snap := h.snap.trans h'.snap
  last := h.last.trans h'.last
  entryAt i hi hle := by
    rw [h'.entryAt i hi (hle.trans h.last), h.entryAt i (h'.snap.trans_lt hi) hle]

omit [RaftArchive] in
/-- A handler that touches neither the log nor the snapshot point continues the log. -/
theorem Extends.of_logs {rf rf' : Raft n} (hlogs : rf'.logs = rf.logs)
    (hsnap : rf'.lastSnapshotIncludeIndex = rf.lastSnapshotIncludeIndex) : rf.Extends rf' where
  snap := hsnap.ge
  last := by
    unfold getLastLogIndex getLastLogIndexAndTerm
    rw [hlogs, hsnap]
    split <;> exact le_rfl
  entryAt i _ _ := by
    unfold Raft.entryAt
    rw [hlogs, hsnap]

/-! A handler other than `AppendEntries1` continues the log. -/

/-- A vote leaves the log alone. -/
theorem RequestVoteOutcome.extends {rf rf' : Raft n} {args : RequestVoteArgs}
    {reply : RequestVoteReply} (hout : rf.RequestVoteOutcome args rf' reply) : rf.Extends rf' := by
  cases hout <;> exact .of_logs (by simp) (by simp)

/-- So does the reply to a vote request, also when it elects a leader. -/
theorem VoteReplyOutcome.extends {rf rf' : Raft n} {reply : RequestVoteReply}
    {votedNum count : Int} (hout : rf.VoteReplyOutcome reply votedNum rf' count) :
    rf.Extends rf' := by
  cases hout <;> exact .of_logs (by simp) (by simp)

/-- So does the reply to a request for entries. -/
theorem AppendReplyOutcome.extends {rf rf' : Raft n} {server : Fin n} {args : AppendEntriesArgs}
    {reply : AppendEntriesReply} {appendNums count : Int}
    (hout : rf.AppendReplyOutcome server args reply appendNums rf' count) : rf.Extends rf' := by
  cases hout <;> exact .of_logs (by simp) (by simp)

/-- A snapshot from the leader cuts the log from below, and only there. -/
theorem InstallSnapshotOutcome.extends {rf rf' : Raft n} {args : InstallSnapshotRequest}
    {reply : InstallSnapshotResponse} {msg : Option ApplyMsg} (hwf : rf.IndexWF)
    (hout : rf.InstallSnapshotOutcome args rf' reply msg) : rf.Extends rf' := by
  have hle := (Moves.installSnapshot hout).last_le hwf
  cases hout with
  | stale => exact .refl rf
  | old => exact .of_logs (by simp) (by simp)
  | installed hterm hidx =>
    have hcut : (rf.heed args.term).lastSnapshotIncludeIndex ≤ args.lastSnapShotIncludeIndex := by
      rw [heed_lastSnapshotIncludeIndex]
      exact hidx.le
    refine ⟨hidx.le, hle, fun i hi _ => ?_⟩
    rw [Raft.installed, saveSnapshot_entryAt, entryAt_cutAt hcut,
      if_pos (by simpa [Raft.installed] using hi)]
    simp [entryAt]

/-- The reply to a snapshot leaves the log alone. -/
theorem SnapshotReplyOutcome.extends {rf rf' : Raft n} {server : Fin n}
    {args : InstallSnapshotRequest} {reply : InstallSnapshotResponse}
    (hout : rf.SnapshotReplyOutcome server args reply rf') : rf.Extends rf' := by
  cases hout <;> exact .of_logs (by simp) (by simp)

/-- The server's own snapshot cuts the log from below, and only there. -/
theorem SnapshotOutcome.extends {rf rf' : Raft n} {index : Int} {data : String}
    (hwf : rf.IndexWF) (hout : rf.SnapshotOutcome index data rf') : rf.Extends rf' := by
  have hle := (Moves.snapshot hout).last_le hwf
  cases hout with
  | ignored => exact .refl rf
  | compacted hidx =>
    refine ⟨hidx.le, hle, fun i hi _ => ?_⟩
    rw [saveSnapshot_entryAt, entryAt_cutAt hidx.le, if_pos (by simpa using hi)]

/-- `Start` appends above everything there was. -/
theorem started_extends {rf : Raft n} (hwf : rf.IndexWF) (command : String) :
    rf.Extends (rf.started command) := by
  have hlast := (hwf.toLogWF.started command).2
  refine ⟨le_rfl, by omega, fun i _ hi => ?_⟩
  rw [hwf.toLogWF.entryAt_started, if_neg (by omega)]

/-- A node that leads after a handler has continued its log. -/
theorem Moves.extends {rf rf' : Raft n} (hwf : rf.IndexWF) (h : rf.Moves rf')
    (hlead : rf'.status = .leader) : rf.Extends rf' := by
  cases h with
  | elect hstatus => simp [doElection_fst hstatus] at hlead
  | requestVote hout => exact hout.extends
  | voteReply hout => exact hout.extends
  | appendEntries1 ha hout =>
    cases hout with
    | stale => exact .refl rf
    | tooShort | mismatch | accepted => cases hlead
  | appendReply ha hsent hrefused hout => exact hout.extends
  | readSnapshot => exact .of_logs rfl rfl
  | installSnapshot hout => exact hout.extends hwf
  | snapshotReply hidx hout => exact hout.extends
  | start hstatus command => exact started_extends hwf command
  | snapshot hout => exact hout.extends hwf
  | apply => exact .of_logs rfl rfl

/-! ### What a leader keeps for its peers -/

/-- A move keeps what a leader keeps for its peers inside its log. -/
theorem Moves.tracks {rf rf' : Raft n} (hwf : rf.IndexWF) (h : rf.Moves rf')
    (htracks : rf.status = .leader → rf.Tracks) (hleader : rf'.status = .leader) :
    rf'.Tracks := by
  have hnonneg := hwf.nonneg
  have hsnap := hwf.toLogWF.snapshot_le_last
  have hle := h.last_le hwf
  cases h with
  | elect hstatus => simp [doElection_fst hstatus] at hleader
  | requestVote hout =>
    cases hout with
    | stale => exact (htracks hleader).congr rfl rfl hle
    | refused | granted =>
      exact (htracks (rf.observe_leads _ hleader).1).congr (by simp) (observe_matchIndex rf _) hle
  | voteReply hout =>
    cases hout with
    | stepDown => cases hleader
    | ignored | counted => exact htracks hleader
    | elected =>
      -- a new leader starts every peer at the end of its log and at 0
      intro j
      have hend : rf.becomeLeader.persist.getLastLogIndex = rf.getLastLogIndex := rfl
      have hnext : rf.becomeLeader.persist.nextIndex j = rf.getLastLogIndex + 1 := rfl
      have hmatch : rf.becomeLeader.persist.matchIndex j = 0 := rfl
      omega
  | appendEntries1 ha hout =>
    cases hout with
    | stale => exact htracks hleader
    | tooShort | mismatch | accepted => cases hleader
  | @appendReply server args _ _ _ _ ha hsent hrefused hout =>
    have hprev := ha.nonneg
    cases hout with
    | stepDown => cases hleader
    | ignored => exact htracks hleader
    | backOff hterm hstatus hfail hnext =>
      -- the index comes from the follower, so that it is in range is a premise of the move
      obtain ⟨h₁, h₂⟩ := hrefused hfail hnext
      exact (htracks hstatus).update rfl (Function.update_eq_self server rf.matchIndex).symm rfl
        h₁ (by omega) (htracks hstatus server).2.2
    | counted hterm hstatus => exact (htracks hstatus).recordMatch server (by omega) hsent
    | majority hterm hstatus =>
      exact ((htracks hstatus).recordMatch server
        (show 0 ≤ args.prevLogIndex + args.entries.length by omega) hsent).congr (by simp) (by simp)
        (by simp)
  | readSnapshot => exact (htracks hleader).congr rfl rfl hle
  | installSnapshot hout =>
    cases hout with
    | stale => exact htracks hleader
    | old | installed => cases hleader
  | snapshotReply hidx hout =>
    cases hout with
    | ignored => exact htracks hleader
    | stepDown => cases hleader
    | recorded hstatus =>
      exact (htracks hstatus).update rfl rfl rfl (by omega) (by omega) hidx.2
  | start hstatus => exact (htracks hstatus).congr rfl rfl hle
  | snapshot hout =>
    cases hout with
    | ignored => exact htracks hleader
    | compacted => exact (htracks hleader).congr rfl rfl hle
  | apply => exact (htracks hleader).congr rfl rfl hle

/-- A later state of a node: a larger term, or the same term with the vote unless it was free. -/
def TermLE (rf rf' : Raft n) : Prop :=
  rf.currentTerm < rf'.currentTerm ∨
    rf.currentTerm = rf'.currentTerm ∧ (rf'.votedFor = rf.votedFor ∨ rf.votedFor = -1)

omit [RaftArchive] in
/-- Term and vote are as before. -/
theorem TermLE.of_eq {rf rf' : Raft n} (ht : rf'.currentTerm = rf.currentTerm)
    (hv : rf'.votedFor = rf.votedFor) : rf.TermLE rf' :=
  Or.inr ⟨ht.symm, Or.inl hv⟩

omit [RaftArchive] in
/-- Following a term that is not smaller. -/
theorem TermLE.of_term {rf rf' : Raft n} {term : Int} (hle : rf.currentTerm ≤ term)
    (ht : rf'.currentTerm = term)
    (hv : rf'.votedFor = if rf.currentTerm < term then -1 else rf.votedFor) : rf.TermLE rf' := by
  rcases lt_or_eq_of_le hle with hlt | heq
  · exact Or.inl (ht ▸ hlt)
  · rw [if_neg (by omega)] at hv
    exact TermLE.of_eq (ht.trans heq.symm) hv

/-- No move lowers the term, and none takes a vote back within a term. -/
theorem Moves.term_vote {rf rf' : Raft n} (h : rf.Moves rf') : rf.TermLE rf' := by
  cases h with
  | elect hstatus =>
    rw [doElection_fst hstatus]
    exact Or.inl (Int.lt_succ _)
  | @requestVote args _ _ hout =>
    cases hout with
    | stale => exact .of_eq rfl rfl
    | refused hterm =>
      exact .of_term hterm (by simpa using observe_currentTerm hterm)
        (by simpa using observe_votedFor rf args.term)
    | granted hterm hlog hvote =>
      rcases lt_or_eq_of_le hterm with hlt | heq
      · exact Or.inl (by simpa [observe_currentTerm hterm] using hlt)
      · -- within the term the vote is given only if it was free or for the same candidate
        have hobs : (rf.observe args.term).votedFor = rf.votedFor := by
          rw [observe_votedFor, if_neg (by omega)]
        rw [hobs] at hvote
        refine Or.inr ⟨by simpa [observe_currentTerm hterm] using heq, ?_⟩
        rcases hvote with hfree | hsame
        · exact Or.inr hfree
        · exact Or.inl hsame.symm
  | voteReply hout =>
    cases hout with
    | stepDown hterm => exact Or.inl hterm
    | ignored | counted | elected => exact .of_eq rfl rfl
  | @appendEntries1 args _ _ ha hout =>
    cases hout with
    | stale => exact .of_eq rfl rfl
    | tooShort hterm | mismatch hterm =>
      exact .of_term hterm (follow_currentTerm hterm) (follow_votedFor rf args.term)
    | accepted hterm =>
      exact .of_term hterm (accept_currentTerm hterm) (accept_votedFor rf args)
  | appendReply ha hsent hrefused hout =>
    cases hout with
    | stepDown hterm => exact Or.inl hterm
    | ignored | backOff | counted => exact .of_eq rfl rfl
    | majority => exact .of_eq (by simp) (by simp)
  | readSnapshot => exact .of_eq rfl rfl
  | @installSnapshot args _ _ _ hout =>
    cases hout with
    | stale => exact .of_eq rfl rfl
    | old hterm | installed hterm =>
      exact .of_term hterm (heed_currentTerm hterm) (heed_votedFor rf args.term)
  | snapshotReply hidx hout =>
    cases hout with
    | ignored => exact .of_eq rfl rfl
    | stepDown hterm => exact Or.inl hterm
    | recorded => exact .of_eq rfl rfl
  | start => exact .of_eq rfl rfl
  | snapshot hout => cases hout <;> exact .of_eq rfl rfl
  | apply => exact .of_eq rfl rfl

end Raft

end RaftStore
