import RaftStore.Node.Moves

namespace RaftStore

/-!
# What a handler does not take back

Monotonicity of one node, and what a leader knows about its peers.

* `Raft.Represented` — the log and the indices of a node, in the source's own terms.
* `Raft.NotLowered` — the five fields that only grow; `Moves.notLowered` says that every handler
  keeps them.
* `Raft.Progress` — what a leader keeps for the other peers: `m_nextIndex` in range and above
  `m_matchIndex`.
* `Raft.sendAppendEntriesReply_refused`, `Raft.leaderSendSnapShotReply_recorded` — the two
  replies that overwrite these slots without looking at them.
-/

namespace Raft

variable {n : ℕ}

/-! ### The representation of the log -/

/-- Position `k` of `m_logs` holds the entry with index `m_lastSnapshotIncludeIndex + 1 + k`, and
    the indices are in order. -/
structure Represented (rf : Raft n) : Prop where
  position : ∀ (k : ℕ) (e : LogEntry), rf.logs[k]? = some e →
    e.logIndex = rf.lastSnapshotIncludeIndex + 1 + k
  applied : rf.lastSnapshotIncludeIndex ≤ rf.lastApplied
  committed : rf.lastApplied ≤ rf.commitIndex
  last : rf.commitIndex ≤ rf.getLastLogIndex

/-- A node whose indices are in order represents a log. -/
theorem IndexWF.represented {rf : Raft n} (h : rf.IndexWF) : rf.Represented where
  position := h.contiguous
  applied := h.applied
  committed := h.committed
  last := h.last

/-! ### Fields that only grow -/

/-- `rf'` has lowered none of the term and the four indices of `rf`. -/
structure NotLowered (rf rf' : Raft n) : Prop where
  currentTerm : rf.currentTerm ≤ rf'.currentTerm
  snapshot : rf.lastSnapshotIncludeIndex ≤ rf'.lastSnapshotIncludeIndex
  applied : rf.lastApplied ≤ rf'.lastApplied
  commit : rf.commitIndex ≤ rf'.commitIndex
  last : rf.getLastLogIndex ≤ rf'.getLastLogIndex

/-- Nothing has changed. -/
theorem NotLowered.refl (rf : Raft n) : rf.NotLowered rf := ⟨le_rfl, le_rfl, le_rfl, le_rfl, le_rfl⟩

/-- One after the other. -/
theorem NotLowered.trans {rf rf' rf'' : Raft n} (h : rf.NotLowered rf') (h' : rf'.NotLowered rf'') :
    rf.NotLowered rf'' where
  currentTerm := h.currentTerm.trans h'.currentTerm
  snapshot := h.snapshot.trans h'.snapshot
  applied := h.applied.trans h'.applied
  commit := h.commit.trans h'.commit
  last := h.last.trans h'.last

/-- The term is not lower. -/
theorem TermLE.le {rf rf' : Raft n} (h : rf.TermLE rf') : rf.currentTerm ≤ rf'.currentTerm := by
  rcases h with hlt | ⟨heq, _⟩
  · exact hlt.le
  · exact heq.le

section moves

variable [RaftArchive]

/-- What a move does to the snapshot point, the last applied and the commit index. -/
theorem Moves.indices_le {rf rf' : Raft n} (hwf : rf.IndexWF) (h : rf.Moves rf') :
    rf.lastSnapshotIncludeIndex ≤ rf'.lastSnapshotIncludeIndex ∧
      rf.lastApplied ≤ rf'.lastApplied ∧ rf.commitIndex ≤ rf'.commitIndex := by
  cases h with
  | elect hstatus =>
    rw [doElection_fst hstatus]
    exact ⟨le_rfl, le_rfl, le_rfl⟩
  | requestVote hout => cases hout <;> simp
  | voteReply hout => cases hout <;> simp
  | appendEntries1 ha hout =>
    cases hout with
    | stale => exact ⟨le_rfl, le_rfl, le_rfl⟩
    | tooShort | mismatch => simp
    | accepted =>
      -- the commit index becomes the larger of its old value and the leader's
      refine ⟨?_, ?_, ?_⟩
      · simp
      · simp
      · rw [persist_commitIndex, accept_commitIndex]
        exact le_max_left _ _
  | appendReply ha hsent hrefused hout =>
    cases hout with
    | stepDown | ignored | backOff | counted => exact ⟨le_rfl, le_rfl, le_rfl⟩
    | majority =>
      refine ⟨?_, ?_, ?_⟩
      · simp
      · simp
      · rw [commitRound_commitIndex, recordMatch_commitIndex]
        split
        · exact le_max_left _ _
        · exact le_rfl
  | readSnapshot => exact ⟨le_rfl, le_rfl, le_rfl⟩
  | installSnapshot hout =>
    cases hout with
    | stale => exact ⟨le_rfl, le_rfl, le_rfl⟩
    | old => simp
    | installed hterm hidx =>
      refine ⟨hidx.le, ?_, ?_⟩
      · simp [installed]
      · simp [installed]
  | snapshotReply hidx hout => cases hout <;> exact ⟨le_rfl, le_rfl, le_rfl⟩
  | start => exact ⟨le_rfl, le_rfl, le_rfl⟩
  | snapshot hout =>
    cases hout with
    | ignored => exact ⟨le_rfl, le_rfl, le_rfl⟩
    | compacted hidx =>
      refine ⟨hidx.le, ?_, ?_⟩
      · simp
      · simp
  | apply => exact ⟨le_rfl, hwf.committed, le_rfl⟩

/-- **No handler lowers the term or one of the indices.** -/
theorem Moves.notLowered {rf rf' : Raft n} (hwf : rf.IndexWF) (h : rf.Moves rf') :
    rf.NotLowered rf' := by
  obtain ⟨hsnap, happlied, hcommit⟩ := h.indices_le hwf
  exact ⟨h.term_vote.le, hsnap, happlied, hcommit, h.last_le hwf⟩

end moves

/-! ### What a leader knows about its peers -/

/-- For every other peer, `m_nextIndex` is in range and above `m_matchIndex`. -/
def Progress (rf : Raft n) : Prop :=
  ∀ j, j ≠ rf.me → 1 ≤ rf.nextIndex j ∧ rf.nextIndex j ≤ rf.getLastLogIndex + 1 ∧
    rf.matchIndex j < rf.nextIndex j

/-- What `rf'` knows every other peer to hold is at least what `rf` knew. -/
def MatchKept (rf rf' : Raft n) : Prop :=
  ∀ j, j ≠ rf.me → rf.matchIndex j ≤ rf'.matchIndex j

/-- The state in which the reply part of `sendAppendEntries` takes over the index a refusal
    names. -/
def BacksOff (rf : Raft n) (reply : AppendEntriesReply) : Prop :=
  reply.appState ≠ disconnected ∧ reply.term = rf.currentTerm ∧ rf.status = .leader ∧
    reply.success = false ∧ reply.updateNextIndex ≠ -100

instance (rf : Raft n) (reply : AppendEntriesReply) : Decidable (rf.BacksOff reply) :=
  inferInstanceAs (Decidable (_ ∧ _ ∧ _ ∧ _ ∧ _))

/-- The state in which the reply part of `leaderSendSnapShot` records the snapshot index. -/
def Records (rf : Raft n) (args : InstallSnapshotRequest) (reply : InstallSnapshotResponse) :
    Prop :=
  rf.status = .leader ∧ rf.currentTerm = args.term ∧ reply.term ≤ rf.currentTerm

instance (rf : Raft n) (args : InstallSnapshotRequest) (reply : InstallSnapshotResponse) :
    Decidable (rf.Records args reply) :=
  inferInstanceAs (Decidable (_ ∧ _ ∧ _))

section replies

variable [RaftArchive]

/-- What a refusal does to the slots of the peer. -/
theorem sendAppendEntriesReply_refused {rf : Raft n} {reply : AppendEntriesReply}
    (h : rf.BacksOff reply) (server : Fin n) (args : AppendEntriesArgs) (appendNums : Int) :
    rf.sendAppendEntriesReply server args reply appendNums =
      .ok ({ rf with
        nextIndex := Function.update rf.nextIndex server reply.updateNextIndex }, appendNums) := by
  obtain ⟨hstate, hterm, hstatus, hfail, hnext⟩ := h
  unfold sendAppendEntriesReply
  rw [if_neg hstate, if_neg (by omega), if_neg (by omega), if_neg (not_not.mpr hstatus), myAssert,
    if_pos hterm, Exec.ok_bind, if_pos (by simp [hfail]), if_pos hnext]
  rfl

/-- What an accepted snapshot does to the slots of the peer. -/
theorem leaderSendSnapShotReply_recorded {rf : Raft n} {args : InstallSnapshotRequest}
    {reply : InstallSnapshotResponse} (h : rf.Records args reply) (server : Fin n) :
    rf.leaderSendSnapShotReply server args reply =
      { rf with
        matchIndex := Function.update rf.matchIndex server args.lastSnapShotIncludeIndex
        nextIndex := Function.update rf.nextIndex server (args.lastSnapShotIncludeIndex + 1) } := by
  obtain ⟨hstatus, hterm, hle⟩ := h
  unfold leaderSendSnapShotReply
  rw [if_neg (by simp [hstatus, hterm]), if_neg (not_lt.mpr hle)]

end replies

/-! ### Advancing -/

/-- If `rf'` leads, its slots are in order, and it has not lowered those of the same reign. -/
def Advances (rf rf' : Raft n) : Prop :=
  (rf.status = .leader → rf.Progress) → rf'.status = .leader → rf'.Progress ∧
    (rf.status = .leader → rf.MatchKept rf')

/-- A longer log leaves the slots in order. -/
theorem Progress.congr {rf rf' : Raft n} (h : rf.Progress) (hme : rf'.me = rf.me)
    (hnext : rf'.nextIndex = rf.nextIndex) (hmatch : rf'.matchIndex = rf.matchIndex)
    (hlast : rf.getLastLogIndex ≤ rf'.getLastLogIndex) : rf'.Progress := by
  intro j hj
  have := h j (hme ▸ hj)
  rw [hnext, hmatch]
  omega

/-- `Progress` with one peer's slots replaced by values in order. -/
theorem Progress.update {rf rf' : Raft n} (h : rf.Progress) (hme : rf'.me = rf.me)
    {server : Fin n} {next matched : Int}
    (hnext : rf'.nextIndex = Function.update rf.nextIndex server next)
    (hmatch : rf'.matchIndex = Function.update rf.matchIndex server matched)
    (hlast : rf'.getLastLogIndex = rf.getLastLogIndex) (h₁ : 1 ≤ next)
    (h₂ : next ≤ rf.getLastLogIndex + 1) (h₃ : matched < next) : rf'.Progress := by
  intro j hj
  rw [hnext, hmatch, hlast]
  by_cases hs : j = server
  · subst hs
    rw [Function.update_self, Function.update_self]
    exact ⟨h₁, h₂, h₃⟩
  · rw [Function.update_of_ne hs, Function.update_of_ne hs]
    exact h j (hme ▸ hj)

/-- The match indices are as before. -/
theorem MatchKept.of_eq {rf rf' : Raft n} (h : rf'.matchIndex = rf.matchIndex) :
    rf.MatchKept rf' := fun j _ => by rw [h]

/-- One match index has risen. -/
theorem MatchKept.update {rf rf' : Raft n} {server : Fin n} {matched : Int}
    (h : rf'.matchIndex = Function.update rf.matchIndex server matched)
    (hle : rf.matchIndex server ≤ matched) : rf.MatchKept rf' := by
  intro j _
  rw [h]
  by_cases hs : j = server
  · rw [hs, Function.update_self]
    exact hle
  · rw [Function.update_of_ne hs]

/-- A handler that leaves the slots alone. -/
theorem Advances.of_slots {rf rf' : Raft n} (hleads : rf.StillLeads rf') (hme : rf'.me = rf.me)
    (hnext : rf'.nextIndex = rf.nextIndex) (hmatch : rf'.matchIndex = rf.matchIndex)
    (hlast : rf.getLastLogIndex ≤ rf'.getLastLogIndex) : rf.Advances rf' := by
  intro hp hlead
  have hold := hp (hleads hlead).1
  exact ⟨hold.congr hme hnext hmatch hlast, fun _ => .of_eq hmatch⟩

/-- Of a node that does not lead nothing is asked. -/
theorem Advances.of_not_leader {rf rf' : Raft n} (h : rf'.status ≠ .leader) : rf.Advances rf' :=
  fun _ hlead => absurd hlead h

/-- Nothing has changed. -/
theorem Advances.refl (rf : Raft n) : rf.Advances rf := .of_slots (.refl rf) rfl rfl rfl le_rfl

variable [RaftArchive]

/-- A new leader starts with nothing known to match. -/
theorem VoteReplyOutcome.advances {rf rf' : Raft n} {reply : RequestVoteReply}
    {votedNum count : Int} (hwf : rf.IndexWF)
    (hout : rf.VoteReplyOutcome reply votedNum rf' count) : rf.Advances rf' := by
  cases hout with
  | stepDown => exact .of_not_leader (by simp)
  | ignored | counted => exact .refl rf
  | elected hterm hgranted hnum hstatus =>
    have hnonneg := hwf.nonneg
    have hsnap := hwf.toLogWF.snapshot_le_last
    intro _ _
    refine ⟨fun j _ => ?_, fun hlead => absurd hlead hstatus⟩
    have hend : rf.becomeLeader.persist.getLastLogIndex = rf.getLastLogIndex := rfl
    have hnext : rf.becomeLeader.persist.nextIndex j = rf.getLastLogIndex + 1 := rfl
    have hmatch : rf.becomeLeader.persist.matchIndex j = 0 := rfl
    omega

/-- Who answers a request for entries does not lead, or is as before. -/
theorem AppendEntriesOutcome.advances {rf rf' : Raft n} {args : AppendEntriesArgs}
    {reply : AppendEntriesReply} (hout : rf.AppendEntriesOutcome args rf' reply) :
    rf.Advances rf' := by
  cases hout with
  | stale => exact .refl rf
  | tooShort | mismatch | accepted => exact .of_not_leader (by simp)

/-- Who answers a snapshot does not lead, or is as before. -/
theorem InstallSnapshotOutcome.advances {rf rf' : Raft n} {args : InstallSnapshotRequest}
    {reply : InstallSnapshotResponse} {msg : Option ApplyMsg}
    (hout : rf.InstallSnapshotOutcome args rf' reply msg) : rf.Advances rf' := by
  cases hout with
  | stale => exact .refl rf
  | old => exact .of_not_leader (by simp)
  | installed => exact .of_not_leader fun h => by cases h

/-- The reply part of `sendAppendEntries` advances if a refusal names an index above what the
    server is known to hold. -/
theorem AppendReplyOutcome.advances {rf rf' : Raft n} {server : Fin n} {args : AppendEntriesArgs}
    {reply : AppendEntriesReply} {appendNums count : Int}
    (hout : rf.AppendReplyOutcome server args reply appendNums rf' count)
    (htracks : rf.status = .leader → rf.Tracks) (ha : args.WF)
    (hsent : args.prevLogIndex + args.entries.length ≤ rf.getLastLogIndex)
    (hrefused : reply.success = false → reply.updateNextIndex ≠ -100 →
      1 ≤ reply.updateNextIndex ∧ reply.updateNextIndex ≤ args.prevLogIndex)
    (hstate : reply.appState ≠ disconnected)
    (hok : rf.BacksOff reply → rf.matchIndex server < reply.updateNextIndex) :
    rf.Advances rf' := by
  have hprev := ha.nonneg
  cases hout with
  | stepDown => exact .of_not_leader (by simp)
  | ignored => exact .refl rf
  | backOff hterm hstatus hfail hnext =>
    -- `matchIndex < nextIndex` survives as the refusal names an index above `matchIndex`
    intro hp _
    obtain ⟨h₁, h₂⟩ := hrefused hfail hnext
    have hgt := hok ⟨hstate, hterm, hstatus, hfail, hnext⟩
    refine ⟨?_, fun _ => .of_eq rfl⟩
    exact (hp hstatus).update rfl rfl (Function.update_eq_self server rf.matchIndex).symm rfl h₁
      (by omega) hgt
  | counted hterm hstatus =>
    -- `nextIndex` follows `matchIndex`, which takes the maximum
    intro hp _
    have hmatch := (htracks hstatus server).2.2
    refine ⟨?_, fun _ => .update rfl (le_max_left _ _)⟩
    exact (hp hstatus).update rfl rfl rfl rfl (by omega) (by omega) (by omega)
  | majority hterm hstatus =>
    intro hp _
    have hmatch := (htracks hstatus server).2.2
    refine ⟨?_, fun _ => .update (commitRound_matchIndex _ _) (le_max_left _ _)⟩
    exact (hp hstatus).update (by simp) (commitRound_nextIndex _ _) (commitRound_matchIndex _ _)
      (by simp) (by omega) (by omega) (by omega)

/-- A reply of a disconnected call changes nothing; any other is one of the outcomes. -/
theorem sendAppendEntriesReply_advances {rf rf' : Raft n} {server : Fin n}
    {args : AppendEntriesArgs} {reply : AppendEntriesReply} {appendNums count : Int}
    (hgo : rf.sendAppendEntriesReply server args reply appendNums = .ok (rf', count))
    (hcommit : rf.commitIndex ≤ rf.getLastLogIndex) (htracks : rf.status = .leader → rf.Tracks)
    (ha : args.WF) (hsent : args.prevLogIndex + args.entries.length ≤ rf.getLastLogIndex)
    (hrefused : reply.success = false → reply.updateNextIndex ≠ -100 →
      1 ≤ reply.updateNextIndex ∧ reply.updateNextIndex ≤ args.prevLogIndex)
    (hok : rf.BacksOff reply → rf.matchIndex server < reply.updateNextIndex) :
    rf.Advances rf' := by
  by_cases hstate : reply.appState = disconnected
  · rw [sendAppendEntriesReply, if_pos hstate] at hgo
    cases hgo
    exact .refl rf
  · obtain ⟨rf₁, count₁, hgo₁, hout⟩ := rf.sendAppendEntriesReply_outcome server args reply
      appendNums hcommit (fun hc => (htracks hc.2.1 server).2.2) fun _ => hsent
    rw [hgo] at hgo₁
    cases hgo₁
    exact hout.advances htracks ha hsent hrefused hstate hok

/-- The reply part of `leaderSendSnapShot` advances if the snapshot covers what the server is
    known to hold. -/
theorem leaderSendSnapShotReply_advances {rf : Raft n} {server : Fin n}
    {args : InstallSnapshotRequest} {reply : InstallSnapshotResponse}
    (hidx : 0 ≤ args.lastSnapShotIncludeIndex ∧
      args.lastSnapShotIncludeIndex ≤ rf.getLastLogIndex)
    (hok : rf.Records args reply → rf.matchIndex server ≤ args.lastSnapShotIncludeIndex) :
    rf.Advances (rf.leaderSendSnapShotReply server args reply) := by
  by_cases hrec : rf.Records args reply
  · rw [leaderSendSnapShotReply_recorded hrec]
    intro hp _
    refine ⟨?_, fun _ => .update rfl (hok hrec)⟩
    exact (hp hrec.1).update rfl rfl rfl rfl (by omega) (by omega) (by omega)
  · unfold leaderSendSnapShotReply
    split
    · exact .refl rf
    · rename_i hgo
      split
      · exact .of_not_leader (by simp)
      · exact absurd ⟨by tauto, by tauto, by omega⟩ hrec

end Raft

end RaftStore
