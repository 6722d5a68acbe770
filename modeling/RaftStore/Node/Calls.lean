import RaftStore.Node.Durability
import RaftStore.Node.Moves

namespace RaftStore

/-!
# What one call does to a node's indices

The calls of `NodeCall` with messages as peers build them, and what each can do to the node.

* `NodeCall.WellFormed` — requests have the shape `doHeartBeat` gives them, and a reply belongs to
  a request that brought nothing beyond the end of the node's log; nothing is asked of the reply.
* `NodeCall.Outcome`, `nodeStep_outcome` — the inversion lemma: one constructor for each handler.
* `NodeCall.Outcome.indexWF`, `NodeCall.Outcome.last_le` — indices stay in order, and the last
  index never goes down.
* `heartBeat_wellFormed` — a request that `doHeartBeat` builds is well formed, and so is its reply
  at any later time.
-/

variable {n : ℕ}

/-- What a call relies on in its messages. -/
def NodeCall.WellFormed (rf : Raft n) : NodeCall n → Prop
  | .appendEntries1 args => args.WF
  | .sendAppendEntriesReply _ args _ _ =>
    args.WF ∧ args.prevLogIndex + args.entries.length ≤ rf.getLastLogIndex
  | _ => True

variable [RaftArchive]

/-- The ways a call returns. -/
inductive NodeCall.Outcome (rf : Raft n) : NodeCall n → Raft n → Prop
  | appendEntries1 {args : AppendEntriesArgs} {rf' : Raft n} {reply : AppendEntriesReply}
      (ha : args.WF) (hout : rf.AppendEntriesOutcome args rf' reply) :
      Outcome rf (.appendEntries1 args) rf'
  | requestVote {args : RequestVoteArgs} {rf' : Raft n} {reply : RequestVoteReply}
      (hout : rf.RequestVoteOutcome args rf' reply) : Outcome rf (.requestVote args) rf'
  | installSnapshot {args : InstallSnapshotRequest} {rf' : Raft n}
      {reply : InstallSnapshotResponse} {message : Option ApplyMsg}
      (hok : rf.installSnapshot args = .ok (rf', reply, message))
      (hout : rf.InstallSnapshotOutcome args rf' reply message) :
      Outcome rf (.installSnapshot args) rf'
  | snapshot {index : Int} {data : String} {rf' : Raft n}
      (hout : rf.SnapshotOutcome index data rf') : Outcome rf (.snapshot index data) rf'
  | started {command : String} (hstatus : rf.status = .leader) :
      Outcome rf (.start command) (rf.started command)
  | notLeader {command : String} (hstatus : rf.status ≠ .leader) :
      Outcome rf (.start command) rf
  | elected (hstatus : rf.status ≠ .leader) : Outcome rf .doElection rf.doElection.1
  | leading (hstatus : rf.status = .leader) : Outcome rf .doElection rf
  | voteReply {reply : RequestVoteReply} {votedNum count : Int} {rf' : Raft n}
      (hout : rf.VoteReplyOutcome reply votedNum rf' count) :
      Outcome rf (.sendRequestVoteReply reply votedNum) rf'
  | appendReply {server : Fin n} {args : AppendEntriesArgs} {reply : AppendEntriesReply}
      {appendNums count : Int} {rf' : Raft n}
      (hsent : args.WF ∧ args.prevLogIndex + args.entries.length ≤ rf.getLastLogIndex)
      (hout : rf.AppendReplyOutcome server args reply appendNums rf' count) :
      Outcome rf (.sendAppendEntriesReply server args reply appendNums) rf'
  | sendSnapshot : Outcome rf .leaderSendSnapShot rf.leaderSendSnapShot.1
  | snapshotReply {server : Fin n} {args : InstallSnapshotRequest}
      {reply : InstallSnapshotResponse} {rf' : Raft n}
      (hout : rf.SnapshotReplyOutcome server args reply rf') :
      Outcome rf (.leaderSendSnapShotReply server args reply) rf'
  | heartBeat : Outcome rf .doHeartBeat rf
  | apply : Outcome rf .getApplyLogs { rf with lastApplied := rf.commitIndex }

namespace Raft

omit [RaftArchive] in
/-- A reply part of `sendAppendEntries` that returns, whatever `m_matchIndex` held. -/
theorem AppendReplyOutcome.of_ok [RaftArchive] {rf rf' : Raft n} {server : Fin n}
    {args : AppendEntriesArgs} {reply : AppendEntriesReply} {appendNums count : Int}
    (hcommit : rf.commitIndex ≤ rf.getLastLogIndex)
    (hsent : args.prevLogIndex + args.entries.length ≤ rf.getLastLogIndex)
    (h : rf.sendAppendEntriesReply server args reply appendNums = .ok (rf', count)) :
    rf.AppendReplyOutcome server args reply appendNums rf' count := by
  by_cases hmatch : rf.Counts reply → rf.matchIndex server ≤ rf.getLastLogIndex
  · obtain ⟨rf₁, count₁, hok, hout⟩ := rf.sendAppendEntriesReply_outcome server args reply
      appendNums hcommit hmatch fun _ => hsent
    obtain ⟨rfl, rfl⟩ := Prod.mk.inj (Except.ok.inj (hok.symm.trans h))
    exact hout
  · -- a larger `m_matchIndex` would fail the assert on `m_nextIndex`
    push Not at hmatch
    obtain ⟨⟨hterm, hstatus, hsucc⟩, hlt⟩ := hmatch
    have hbound : ¬ (rf.recordMatch server
        (args.prevLogIndex + args.entries.length)).nextIndex server ≤ rf.getLastLogIndex + 1 := by
      simp only [recordMatch, Function.update_self]
      omega
    unfold sendAppendEntriesReply at h
    split at h
    · obtain ⟨rfl, rfl⟩ := Prod.mk.inj (Except.ok.inj h)
      exact .ignored
    · rw [if_neg (by omega), if_neg (by omega), if_neg (not_not.mpr hstatus), myAssert,
        if_pos hterm.symm, Exec.ok_bind, if_neg (by simp [hsucc])] at h
      dsimp only at h
      rw [recordMatch_getLastLogIndex, myAssert, if_neg hbound] at h
      cases h

end Raft

/-- **Inversion.**  A well-formed call that returns does so in one of the listed ways. -/
theorem nodeStep_outcome {rf rf' : Raft n} {call : NodeCall n} (hwf : rf.IndexWF)
    (hok : call.WellFormed rf) (h : nodeStep rf call = some rf') : call.Outcome rf rf' := by
  have hrun := run_of_nodeStep h
  have hcommit := hwf.last
  cases call with
  | appendEntries1 args =>
    obtain ⟨_, hres, rfl⟩ := Exec.map_eq_ok.mp hrun
    -- a request that is rejected ends the call at an assert
    by_cases hrej : rf.Rejects args
    · obtain ⟨_, herr⟩ := hrej.fault hwf.toLogWF hok
      rw [herr] at hres
      cases hres
    · obtain ⟨_, _, hres', hout⟩ :=
        Raft.appendEntries1_outcome hwf.toLogWF hcommit hok hrej
      rw [Except.ok.inj (hres.symm.trans hres')]
      exact .appendEntries1 hok hout
  | requestVote args =>
    obtain ⟨_, hres, rfl⟩ := Exec.map_eq_ok.mp hrun
    obtain ⟨_, _, hres', hout⟩ := rf.requestVote_outcome args
    rw [Except.ok.inj (hres.symm.trans hres')]
    exact .requestVote hout
  | installSnapshot args =>
    obtain ⟨_, hres, rfl⟩ := Exec.map_eq_ok.mp hrun
    obtain ⟨_, _, _, hres', hout⟩ := Raft.installSnapshot_outcome hwf.toLogWF args
    rw [Except.ok.inj (hres.symm.trans hres')]
    exact .installSnapshot hres' hout
  | snapshot index data =>
    obtain ⟨_, hres', hout⟩ := Raft.snapshot_outcome hwf.toLogWF hcommit index data
    rw [Except.ok.inj (hrun.symm.trans hres')]
    exact .snapshot hout
  | start command =>
    rw [← Except.ok.inj hrun]
    by_cases hstatus : rf.status = .leader
    · rw [Raft.start_leader hstatus]
      exact .started hstatus
    · rw [Raft.start_not_leader hstatus]
      exact .notLeader hstatus
  | doElection =>
    rw [← Except.ok.inj hrun]
    by_cases hstatus : rf.status = .leader
    · rw [Raft.doElection, if_pos hstatus]
      exact .leading hstatus
    · exact .elected hstatus
  | sendRequestVoteReply reply votedNum =>
    obtain ⟨_, hres, rfl⟩ := Exec.map_eq_ok.mp hrun
    by_cases htwice : rf.TwiceElected reply votedNum
    · rw [Raft.sendRequestVoteReply_fault htwice] at hres
      cases hres
    · obtain ⟨_, _, hres', hout⟩ := Raft.sendRequestVoteReply_outcome htwice
      rw [Except.ok.inj (hres.symm.trans hres')]
      exact .voteReply hout
  | sendAppendEntriesReply server args reply appendNums =>
    obtain ⟨_, hres, rfl⟩ := Exec.map_eq_ok.mp hrun
    exact .appendReply hok (.of_ok hcommit hok.2 hres)
  | leaderSendSnapShot =>
    rw [← Except.ok.inj hrun]
    exact .sendSnapshot
  | leaderSendSnapShotReply server args reply =>
    rw [← Except.ok.inj hrun]
    exact .snapshotReply (rf.leaderSendSnapShotReply_outcome server args reply)
  | doHeartBeat =>
    obtain ⟨_, -, rfl⟩ := Exec.map_eq_ok.mp hrun
    exact .heartBeat
  | getApplyLogs =>
    obtain ⟨_, hres, rfl⟩ := Exec.map_eq_ok.mp hrun
    rw [Except.ok.inj (hres.symm.trans hwf.getApplyLogs_eq)]
    exact .apply

namespace NodeCall

/-- An outcome is a move of the node, or changes what it keeps for its peers at most. -/
theorem Outcome.moves {rf rf' : Raft n} {call : NodeCall n} (hwf : rf.IndexWF)
    (h : call.Outcome rf rf') :
    rf.Moves rf' ∨ ∃ next matched, rf' = { rf with nextIndex := next, matchIndex := matched } := by
  have hlast : 0 ≤ rf.getLastLogIndex := hwf.nonneg.trans hwf.toLogWF.snapshot_le_last
  cases h with
  | appendEntries1 ha hout => exact Or.inl (.appendEntries1 ha hout)
  | requestVote hout => exact Or.inl (.requestVote hout)
  | installSnapshot hok hout => exact Or.inl (.installSnapshot hout)
  | snapshot hout => exact Or.inl (.snapshot hout)
  | started hstatus => exact Or.inl (.start hstatus _)
  | notLeader => exact Or.inr ⟨_, _, rfl⟩
  | elected hstatus => exact Or.inl (.elect hstatus)
  | leading => exact Or.inr ⟨_, _, rfl⟩
  | voteReply hout => exact Or.inl (.voteReply hout)
  | @appendReply server args reply appendNums count _ hsent hout =>
    cases hout with
    | stepDown hterm =>
      -- the state is the same for any other reply of that term
      have hout : rf.AppendReplyOutcome server args { reply with success := true } appendNums
          (rf.stepDown reply.term).persist appendNums := .stepDown hterm
      exact Or.inl (.appendReply hsent.1 hsent.2 (fun hf => by cases hf) hout)
    | ignored => exact Or.inr ⟨_, _, rfl⟩
    | backOff => exact Or.inr ⟨_, _, rfl⟩
    | counted => exact Or.inr ⟨_, _, rfl⟩
    | majority hterm hstatus hsucc hnum =>
      exact Or.inl (.appendReply hsent.1 hsent.2 (fun hf => by rw [hsucc] at hf; cases hf)
        (.majority hterm hstatus hsucc hnum))
  | sendSnapshot => exact Or.inl .readSnapshot
  | @snapshotReply server args reply _ hout =>
    cases hout with
    | ignored => exact Or.inr ⟨_, _, rfl⟩
    | stepDown hterm =>
      have hout : rf.SnapshotReplyOutcome server { args with lastSnapShotIncludeIndex := 0 } reply
          (rf.stepDown reply.term).persist := .stepDown hterm
      exact Or.inl (.snapshotReply ⟨le_rfl, hlast⟩ hout)
    | recorded => exact Or.inr ⟨_, _, rfl⟩
  | heartBeat => exact Or.inr ⟨_, _, rfl⟩
  | apply => exact Or.inl .apply

/-- A call keeps the log contiguous and the indices in order. -/
theorem Outcome.indexWF {rf rf' : Raft n} {call : NodeCall n} (hwf : rf.IndexWF)
    (h : call.Outcome rf rf') : rf'.IndexWF := by
  rcases h.moves hwf with hmoves | ⟨next, matched, rfl⟩
  · exact hmoves.indexWF hwf
  · exact hwf.congr rfl rfl rfl rfl rfl

/-- A call never takes the last index down. -/
theorem Outcome.last_le {rf rf' : Raft n} {call : NodeCall n} (hwf : rf.IndexWF)
    (h : call.Outcome rf rf') : rf.getLastLogIndex ≤ rf'.getLastLogIndex := by
  rcases h.moves hwf with hmoves | ⟨next, matched, rfl⟩
  · exact hmoves.last_le hwf
  · exact le_rfl

end NodeCall

omit [RaftArchive] in
/-- A node without persisted data has its indices in order. -/
theorem Raft.indexWF_fresh (me : Fin n) (p : Persister) : (Raft.fresh me p).IndexWF where
  nonneg := le_rfl
  contiguous := fun k e he => by cases he
  zero := fun _ => rfl
  applied := le_rfl
  committed := le_rfl
  last := le_rfl

omit [RaftArchive] in
/-- The requests that `doHeartBeat` builds, and the replies to them, are well formed for as long
    as the end of the log has not moved back. -/
theorem heartBeat_wellFormed {rf rf' : Raft n} (hwf : rf.IndexWF) {prev prevTerm : Int}
    (ht : rf.termAt prev = some prevTerm) (hle : rf.getLastLogIndex ≤ rf'.getLastLogIndex)
    (server : Fin n) (reply : AppendEntriesReply) (appendNums : Int) :
    (NodeCall.appendEntries1 (rf.appendArgs prev prevTerm)).WellFormed rf' ∧
      (NodeCall.sendAppendEntriesReply server (rf.appendArgs prev prevTerm) reply
        appendNums).WellFormed rf' := by
  obtain ⟨hargs, hend⟩ := hwf.appendArgs ht
  exact ⟨hargs, hargs, hend.trans_le hle⟩

end RaftStore
