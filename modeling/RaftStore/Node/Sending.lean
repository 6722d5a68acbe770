import RaftStore.Node.Fields

namespace RaftStore

/-!
# The handlers of the sending side

The reply parts of `sendRequestVote`, `sendAppendEntries` and `leaderSendSnapShot`, and the
requests `doHeartBeat` builds, each with the ways it returns.

* `Raft.sendRequestVoteReply_outcome` and its converse `Raft.sendRequestVoteReply_fault`: the
  reply of a vote faults only on a majority counted by a node that already leads.
* `Raft.sendAppendEntriesReply_outcome` — under the bounds that keep its two asserts true.
* `Raft.doHeartBeat_outcome` — with every `nextIndex` in range, each peer gets a snapshot or
  all entries from its `nextIndex` on.
-/

namespace Raft

variable {n : ℕ}

/-! ### Fields -/

section fields

variable (rf : Raft n)

/-- Stepping down keeps the node's number. -/
@[simp] theorem stepDown_me (term : Int) : (rf.stepDown term).me = rf.me := rfl
/-- The node that steps down enters the term of the reply. -/
@[simp] theorem stepDown_currentTerm (term : Int) : (rf.stepDown term).currentTerm = term := rfl
/-- Its vote is free again. -/
@[simp] theorem stepDown_votedFor (term : Int) : (rf.stepDown term).votedFor = -1 := rfl
/-- Stepping down keeps the log. -/
@[simp] theorem stepDown_logs (term : Int) : (rf.stepDown term).logs = rf.logs := rfl
/-- The node follows. -/
@[simp] theorem stepDown_status (term : Int) : (rf.stepDown term).status = .follower := rfl
/-- Stepping down takes no commit back. -/
@[simp] theorem stepDown_commitIndex (term : Int) :
    (rf.stepDown term).commitIndex = rf.commitIndex := rfl
/-- Stepping down applies nothing. -/
@[simp] theorem stepDown_lastApplied (term : Int) :
    (rf.stepDown term).lastApplied = rf.lastApplied := rfl
/-- Stepping down leaves the snapshot point. -/
@[simp] theorem stepDown_lastSnapshotIncludeIndex (term : Int) :
    (rf.stepDown term).lastSnapshotIncludeIndex = rf.lastSnapshotIncludeIndex := rfl
/-- Stepping down leaves the term of the snapshot point. -/
@[simp] theorem stepDown_lastSnapshotIncludeTerm (term : Int) :
    (rf.stepDown term).lastSnapshotIncludeTerm = rf.lastSnapshotIncludeTerm := rfl

/-- Becoming leader keeps the node's number. -/
@[simp] theorem becomeLeader_me : rf.becomeLeader.me = rf.me := rfl
/-- The leader is in the term it stood in. -/
@[simp] theorem becomeLeader_currentTerm : rf.becomeLeader.currentTerm = rf.currentTerm := rfl
/-- It keeps the vote for itself. -/
@[simp] theorem becomeLeader_votedFor : rf.becomeLeader.votedFor = rf.votedFor := rfl
/-- Becoming leader appends nothing. -/
@[simp] theorem becomeLeader_logs : rf.becomeLeader.logs = rf.logs := rfl
/-- The node leads. -/
@[simp] theorem becomeLeader_status : rf.becomeLeader.status = .leader := rfl
/-- Becoming leader commits nothing. -/
@[simp] theorem becomeLeader_commitIndex : rf.becomeLeader.commitIndex = rf.commitIndex := rfl
/-- Becoming leader applies nothing. -/
@[simp] theorem becomeLeader_lastApplied : rf.becomeLeader.lastApplied = rf.lastApplied := rfl
/-- Becoming leader leaves the snapshot point. -/
@[simp] theorem becomeLeader_lastSnapshotIncludeIndex :
    rf.becomeLeader.lastSnapshotIncludeIndex = rf.lastSnapshotIncludeIndex := rfl
/-- Becoming leader leaves the term of the snapshot point. -/
@[simp] theorem becomeLeader_lastSnapshotIncludeTerm :
    rf.becomeLeader.lastSnapshotIncludeTerm = rf.lastSnapshotIncludeTerm := rfl

variable (server : Fin n) (index : Int)

/-- Recording how far a peer has got keeps the node's number. -/
@[simp] theorem recordMatch_me : (rf.recordMatch server index).me = rf.me := rfl
/-- Recording keeps the term. -/
@[simp] theorem recordMatch_currentTerm :
    (rf.recordMatch server index).currentTerm = rf.currentTerm := rfl
/-- Recording keeps the vote. -/
@[simp] theorem recordMatch_votedFor :
    (rf.recordMatch server index).votedFor = rf.votedFor := rfl
/-- Recording keeps the log. -/
@[simp] theorem recordMatch_logs : (rf.recordMatch server index).logs = rf.logs := rfl
/-- Recording keeps the status. -/
@[simp] theorem recordMatch_status : (rf.recordMatch server index).status = rf.status := rfl
/-- Recording alone commits nothing. -/
@[simp] theorem recordMatch_commitIndex :
    (rf.recordMatch server index).commitIndex = rf.commitIndex := rfl
/-- Recording applies nothing. -/
@[simp] theorem recordMatch_lastApplied :
    (rf.recordMatch server index).lastApplied = rf.lastApplied := rfl
/-- Recording leaves the snapshot point. -/
@[simp] theorem recordMatch_lastSnapshotIncludeIndex :
    (rf.recordMatch server index).lastSnapshotIncludeIndex = rf.lastSnapshotIncludeIndex := rfl
/-- Recording leaves the term of the snapshot point. -/
@[simp] theorem recordMatch_lastSnapshotIncludeTerm :
    (rf.recordMatch server index).lastSnapshotIncludeTerm = rf.lastSnapshotIncludeTerm := rfl
/-- Recording leaves the last index. -/
@[simp] theorem recordMatch_getLastLogIndex :
    (rf.recordMatch server index).getLastLogIndex = rf.getLastLogIndex := rfl

variable (args : AppendEntriesArgs)

/-- `commitRound` moves the commit index and nothing else. -/
theorem commitRound_eq :
    rf.commitRound args = { rf with commitIndex := (rf.commitRound args).commitIndex } := by
  unfold commitRound
  split <;> rfl

/-- The commit rule keeps the node's number. -/
@[simp] theorem commitRound_me : (rf.commitRound args).me = rf.me := by
  rw [commitRound_eq]
/-- The commit rule keeps the term. -/
@[simp] theorem commitRound_currentTerm :
    (rf.commitRound args).currentTerm = rf.currentTerm := by
  rw [commitRound_eq]
/-- The commit rule keeps the vote. -/
@[simp] theorem commitRound_votedFor : (rf.commitRound args).votedFor = rf.votedFor := by
  rw [commitRound_eq]
/-- The commit rule keeps the log. -/
@[simp] theorem commitRound_logs : (rf.commitRound args).logs = rf.logs := by
  rw [commitRound_eq]
/-- The commit rule keeps the status. -/
@[simp] theorem commitRound_status : (rf.commitRound args).status = rf.status := by
  rw [commitRound_eq]
/-- The commit rule applies nothing. -/
@[simp] theorem commitRound_lastApplied :
    (rf.commitRound args).lastApplied = rf.lastApplied := by
  rw [commitRound_eq]
/-- The commit rule keeps what is to be sent next. -/
@[simp] theorem commitRound_nextIndex : (rf.commitRound args).nextIndex = rf.nextIndex := by
  rw [commitRound_eq]
/-- The commit rule keeps how far each peer has got. -/
@[simp] theorem commitRound_matchIndex : (rf.commitRound args).matchIndex = rf.matchIndex := by
  rw [commitRound_eq]
/-- The commit rule leaves the snapshot point. -/
@[simp] theorem commitRound_lastSnapshotIncludeIndex :
    (rf.commitRound args).lastSnapshotIncludeIndex = rf.lastSnapshotIncludeIndex := by
  rw [commitRound_eq]
/-- The commit rule leaves the term of the snapshot point. -/
@[simp] theorem commitRound_lastSnapshotIncludeTerm :
    (rf.commitRound args).lastSnapshotIncludeTerm = rf.lastSnapshotIncludeTerm := by
  rw [commitRound_eq]
/-- The commit rule leaves the last index. -/
@[simp] theorem commitRound_getLastLogIndex :
    (rf.commitRound args).getLastLogIndex = rf.getLastLogIndex := by
  rw [commitRound_eq]
  rfl

/-- The commit index after a round: raised only if the last entry sent is of the current
    term. -/
theorem commitRound_commitIndex :
    (rf.commitRound args).commitIndex =
      if args.entries.getLast?.map LogEntry.logTerm = some rf.currentTerm then
        max rf.commitIndex (args.prevLogIndex + args.entries.length)
      else rf.commitIndex := by
  unfold commitRound
  split <;> rfl

end fields

/-! ### `sendRequestVote` -/

section handlers

variable [RaftArchive]

/-- The ways the reply part of `sendRequestVote` returns. -/
inductive VoteReplyOutcome (rf : Raft n) (reply : RequestVoteReply) (votedNum : Int) :
    Raft n → Int → Prop
  | stepDown (hterm : rf.currentTerm < reply.term) :
      VoteReplyOutcome rf reply votedNum (rf.stepDown reply.term).persist votedNum
  | ignored (hwhy : reply.term < rf.currentTerm ∨ reply.voteGranted = false) :
      VoteReplyOutcome rf reply votedNum rf votedNum
  | counted (hterm : reply.term = rf.currentTerm) (hgranted : reply.voteGranted = true)
      (hnum : votedNum + 1 < (n / 2 + 1 : ℕ)) :
      VoteReplyOutcome rf reply votedNum rf (votedNum + 1)
  | elected (hterm : reply.term = rf.currentTerm) (hgranted : reply.voteGranted = true)
      (hnum : (n / 2 + 1 : ℕ) ≤ votedNum + 1) (hstatus : rf.status ≠ .leader) :
      VoteReplyOutcome rf reply votedNum rf.becomeLeader.persist 0

/-- A counted majority on a node that already leads. -/
def TwiceElected (rf : Raft n) (reply : RequestVoteReply) (votedNum : Int) : Prop :=
  reply.term = rf.currentTerm ∧ reply.voteGranted = true ∧
    (n / 2 + 1 : ℕ) ≤ votedNum + 1 ∧ rf.status = .leader

/-- A majority counted by a node that already leads ends its process. -/
theorem sendRequestVoteReply_fault {rf : Raft n} {reply : RequestVoteReply} {votedNum : Int}
    (h : rf.TwiceElected reply votedNum) :
    rf.sendRequestVoteReply reply votedNum = .error .myAssert := by
  obtain ⟨hterm, hgranted, hnum, hstatus⟩ := h
  unfold sendRequestVoteReply
  rw [if_neg (by omega), if_neg (by omega), myAssert, if_pos hterm, Exec.ok_bind,
    if_neg (by simp [hgranted])]
  dsimp only
  rw [if_pos hnum, if_pos hstatus]
  rfl

/-- In every other case the reply part of `sendRequestVote` returns. -/
theorem sendRequestVoteReply_outcome {rf : Raft n} {reply : RequestVoteReply} {votedNum : Int}
    (h : ¬ rf.TwiceElected reply votedNum) :
    ∃ rf' count, rf.sendRequestVoteReply reply votedNum = .ok (rf', count) ∧
      VoteReplyOutcome rf reply votedNum rf' count := by
  unfold sendRequestVoteReply
  by_cases hgt : rf.currentTerm < reply.term
  · rw [if_pos hgt]
    exact ⟨_, _, rfl, .stepDown hgt⟩
  by_cases hlt : reply.term < rf.currentTerm
  · rw [if_neg hgt, if_pos hlt]
    exact ⟨_, _, rfl, .ignored (Or.inl hlt)⟩
  have hterm : reply.term = rf.currentTerm := by omega
  rw [if_neg hgt, if_neg hlt, myAssert, if_pos hterm, Exec.ok_bind]
  cases hgranted : reply.voteGranted with
  | false =>
    rw [if_pos (by simp)]
    exact ⟨_, _, rfl, .ignored (Or.inr hgranted)⟩
  | true =>
    rw [if_neg (by simp)]
    dsimp only
    by_cases hnum : (n / 2 + 1 : ℕ) ≤ votedNum + 1
    -- a node that is elected twice in one term is the fault that `h` excludes
    · have hstatus : rf.status ≠ .leader := fun hs => h ⟨hterm, hgranted, hnum, hs⟩
      rw [if_pos hnum, if_neg hstatus]
      exact ⟨_, _, rfl, .elected hterm hgranted hnum hstatus⟩
    · rw [if_neg hnum]
      exact ⟨_, _, rfl, .counted hterm hgranted (not_le.mp hnum)⟩

/-! ### `sendAppendEntries` -/

/-- The ways the reply part of `sendAppendEntries` returns. -/
inductive AppendReplyOutcome (rf : Raft n) (server : Fin n) (args : AppendEntriesArgs)
    (reply : AppendEntriesReply) (appendNums : Int) : Raft n → Int → Prop
  | stepDown (hterm : rf.currentTerm < reply.term) :
      AppendReplyOutcome rf server args reply appendNums (rf.stepDown reply.term).persist
        appendNums
  | ignored : AppendReplyOutcome rf server args reply appendNums rf appendNums
  | backOff (hterm : reply.term = rf.currentTerm) (hstatus : rf.status = .leader)
      (hfail : reply.success = false) (hnext : reply.updateNextIndex ≠ -100) :
      AppendReplyOutcome rf server args reply appendNums
        { rf with nextIndex := Function.update rf.nextIndex server reply.updateNextIndex }
        appendNums
  | counted (hterm : reply.term = rf.currentTerm) (hstatus : rf.status = .leader)
      (hsucc : reply.success = true) (hnum : appendNums + 1 < (1 + n / 2 : ℕ)) :
      AppendReplyOutcome rf server args reply appendNums
        (rf.recordMatch server (args.prevLogIndex + args.entries.length)) (appendNums + 1)
  | majority (hterm : reply.term = rf.currentTerm) (hstatus : rf.status = .leader)
      (hsucc : reply.success = true) (hnum : (1 + n / 2 : ℕ) ≤ appendNums + 1) :
      AppendReplyOutcome rf server args reply appendNums
        ((rf.recordMatch server (args.prevLogIndex + args.entries.length)).commitRound args) 0

/-- The state in which the reply part of `sendAppendEntries` counts a success. -/
def Counts (rf : Raft n) (reply : AppendEntriesReply) : Prop :=
  rf.currentTerm = reply.term ∧ rf.status = .leader ∧ reply.success = true

instance (rf : Raft n) (reply : AppendEntriesReply) : Decidable (rf.Counts reply) :=
  inferInstanceAs (Decidable (_ ∧ _ ∧ _))

/-- While neither the entries sent nor what was recorded for the server lie beyond the end of
    the log, the reply part of `sendAppendEntries` does not fault. -/
theorem sendAppendEntriesReply_outcome (rf : Raft n) (server : Fin n) (args : AppendEntriesArgs)
    (reply : AppendEntriesReply) (appendNums : Int)
    (hcommit : rf.commitIndex ≤ rf.getLastLogIndex)
    (hmatch : rf.Counts reply → rf.matchIndex server ≤ rf.getLastLogIndex)
    (hsent : rf.Counts reply → args.prevLogIndex + args.entries.length ≤ rf.getLastLogIndex) :
    ∃ rf' count, rf.sendAppendEntriesReply server args reply appendNums = .ok (rf', count) ∧
      AppendReplyOutcome rf server args reply appendNums rf' count := by
  unfold sendAppendEntriesReply
  by_cases hdisc : reply.appState = disconnected
  · rw [if_pos hdisc]
    exact ⟨_, _, rfl, .ignored⟩
  by_cases hgt : rf.currentTerm < reply.term
  · rw [if_neg hdisc, if_pos hgt]
    exact ⟨_, _, rfl, .stepDown hgt⟩
  by_cases hlt : reply.term < rf.currentTerm
  · rw [if_neg hdisc, if_neg hgt, if_pos hlt]
    exact ⟨_, _, rfl, .ignored⟩
  by_cases hstatus : rf.status = .leader
  · have hterm : reply.term = rf.currentTerm := by omega
    rw [if_neg hdisc, if_neg hgt, if_neg hlt, if_neg (not_not.mpr hstatus), myAssert,
      if_pos hterm, Exec.ok_bind]
    cases hsucc : reply.success with
    | false =>
      rw [if_pos (by simp)]
      by_cases hnext : reply.updateNextIndex ≠ -100
      · rw [if_pos hnext]
        exact ⟨_, _, rfl, .backOff hterm hstatus hsucc hnext⟩
      · rw [if_neg hnext]
        exact ⟨_, _, rfl, .ignored⟩
    | true =>
      have hc : rf.Counts reply := ⟨hterm.symm, hstatus, hsucc⟩
      -- the first assert: `m_nextIndex` is at most one above the end of the log
      have hbound : (rf.recordMatch server
          (args.prevLogIndex + args.entries.length)).nextIndex server ≤ rf.getLastLogIndex + 1 := by
        have := hmatch hc
        have := hsent hc
        simp only [recordMatch, Function.update_self]
        omega
      rw [if_neg (by simp)]
      dsimp only
      rw [recordMatch_getLastLogIndex, myAssert, if_pos hbound, Exec.ok_bind]
      by_cases hnum : (1 + n / 2 : ℕ) ≤ appendNums + 1
      · -- the second assert: `m_commitIndex` is inside the log
        have hbound' : ((rf.recordMatch server
            (args.prevLogIndex + args.entries.length)).commitRound args).commitIndex ≤
              rf.getLastLogIndex := by
          have := hsent hc
          rw [commitRound_commitIndex]
          split
          · simp only [recordMatch_commitIndex]
            omega
          · exact hcommit
        rw [if_pos hnum, myAssert, if_pos hbound', Exec.ok_bind]
        exact ⟨_, _, rfl, .majority hterm hstatus hsucc hnum⟩
      · rw [if_neg hnum]
        exact ⟨_, _, rfl, .counted hterm hstatus hsucc (not_le.mp hnum)⟩
  · rw [if_neg hdisc, if_neg hgt, if_neg hlt, if_pos hstatus]
    exact ⟨_, _, rfl, .ignored⟩

/-! ### `doHeartBeat` -/

end handlers

/-- The request for a peer whose entries follow index `prev`. -/
def appendArgs (rf : Raft n) (prev prevTerm : Int) : AppendEntriesArgs :=
  { term := rf.currentTerm
    leaderId := rf.me.val
    prevLogIndex := prev
    prevLogTerm := prevTerm
    entries := rf.logs.drop (prev - rf.lastSnapshotIncludeIndex).toNat
    leaderCommit := rf.commitIndex }

/-- The entries of a heartbeat are the leader's, index by index. -/
theorem getElem?_appendArgs {rf : Raft n} {prev i : Int} (prevTerm : Int)
    (hsnap : rf.lastSnapshotIncludeIndex ≤ prev) (hi : prev < i) :
    (rf.appendArgs prev prevTerm).entries[(i - prev - 1).toNat]? = rf.entryAt i := by
  rw [entryAt, if_pos (by omega), appendArgs, List.getElem?_drop]
  congr 1
  omega

/-- What `doHeartBeat` does for one peer. -/
inductive HeartBeatOutcome (rf : Raft n) (i : Fin n) : HeartBeat → Prop
  | snapshot (hnext : rf.nextIndex i ≤ rf.lastSnapshotIncludeIndex) :
      HeartBeatOutcome rf i .snapshot
  | append (hnext : rf.lastSnapshotIncludeIndex < rf.nextIndex i) (prevTerm : Int)
      (hterm : rf.termAt (rf.nextIndex i - 1) = some prevTerm) :
      HeartBeatOutcome rf i (.append (rf.appendArgs (rf.nextIndex i - 1) prevTerm))

/-- `getPrevLogInfo` returns the index before `m_nextIndex[server]` and its term. -/
theorem LogWF.getPrevLogInfo_eq_ok {rf : Raft n} (h : rf.LogWF) {i : Fin n} {t : Int}
    (ht : rf.termAt (rf.nextIndex i - 1) = some t) :
    rf.getPrevLogInfo i = .ok (rf.nextIndex i - 1, t) := by
  unfold termAt at ht
  unfold getPrevLogInfo
  by_cases hi : rf.nextIndex i = rf.lastSnapshotIncludeIndex + 1
  · rw [if_pos (by omega), Option.some.injEq] at ht
    rw [if_pos hi, Exec.pure_eq_ok, ht, hi, Int.add_sub_cancel]
  · rw [if_neg (by omega)] at ht
    obtain ⟨e, he, rfl⟩ := Option.map_eq_some_iff.mp ht
    rw [if_neg hi]
    dsimp only
    rw [h.logAt_eq_ok.mpr he, Exec.ok_bind]
    rfl

/-- With `m_nextIndex[i]` in range, the round of `doHeartBeat` for peer `i` does not fault. -/
theorem LogWF.heartBeatTo_outcome {rf : Raft n} (h : rf.LogWF) {i : Fin n}
    (h₁ : 1 ≤ rf.nextIndex i) (h₂ : rf.nextIndex i ≤ rf.getLastLogIndex + 1) :
    ∃ hb, rf.heartBeatTo i = .ok hb ∧ HeartBeatOutcome rf i hb := by
  have hlast := h.getLastLogIndex
  unfold heartBeatTo
  rw [myAssert, if_pos h₁, Exec.ok_bind]
  -- the peer lacks entries that are compacted: it gets the snapshot
  by_cases hnext : rf.nextIndex i ≤ rf.lastSnapshotIncludeIndex
  · rw [if_pos hnext]
    exact ⟨_, rfl, .snapshot hnext⟩
  have hlt := not_le.mp hnext
  obtain ⟨t, ht⟩ := h.exists_termAt (i := rf.nextIndex i - 1) (by omega) (by omega)
  refine ⟨_, ?_, .append hlt t ht⟩
  rw [if_neg hnext, h.getPrevLogInfo_eq_ok ht, Exec.ok_bind]
  dsimp only
  -- behind the snapshot point the slice starts at the entry after `prevLogIndex`
  by_cases hprev : rf.nextIndex i - 1 ≠ rf.lastSnapshotIncludeIndex
  · have hk : (rf.nextIndex i - 1 - rf.lastSnapshotIncludeIndex - 1).toNat + 1 =
        (rf.nextIndex i - 1 - rf.lastSnapshotIncludeIndex).toNat := by omega
    rw [if_pos hprev, LogWF.getSlicesIndexFromLogIndex_eq_ok.mpr ⟨⟨by omega, by omega⟩, rfl⟩,
      Exec.ok_bind, hk]
    change (do myAssert _; _) = _
    rw [myAssert, if_pos (by rw [List.length_drop]; omega), Exec.ok_bind]
    rfl
  -- at the snapshot point the whole log is sent
  · have hk : (rf.nextIndex i - 1 - rf.lastSnapshotIncludeIndex).toNat = 0 := by omega
    rw [if_neg hprev]
    change (do myAssert _; _) = _
    rw [myAssert, if_pos (by omega), Exec.ok_bind, appendArgs, hk, List.drop_zero]
    rfl

/-- Above the snapshot point the round for peer `i` sends the entries from `m_nextIndex[i]` on, or
    fails an assert because the log does not reach the index before it. -/
theorem LogWF.heartBeatTo_eq {rf : Raft n} (h : rf.LogWF) {i : Fin n}
    (hnext : rf.lastSnapshotIncludeIndex < rf.nextIndex i) :
    rf.heartBeatTo i = match rf.termAt (rf.nextIndex i - 1) with
      | some t => .ok (.append (rf.appendArgs (rf.nextIndex i - 1) t))
      | none => .error .myAssert := by
  have hnonneg := h.nonneg
  have hsnap := h.snapshot_le_last
  cases ht : rf.termAt (rf.nextIndex i - 1) with
  | some t =>
    obtain ⟨_, hlast⟩ := h.termAt_isSome.mp (by rw [ht]; rfl)
    obtain ⟨hb, hok, hout⟩ := h.heartBeatTo_outcome (i := i) (by omega) (by omega)
    rw [hok]
    cases hout with
    | snapshot hle => omega
    | append _ prevTerm hterm =>
      rw [ht, Option.some.injEq] at hterm
      rw [hterm]
  | none =>
    -- only `getPrevLogInfo` reads the log, beyond its end
    have hout : ¬ rf.nextIndex i - 1 ≤ rf.getLastLogIndex := fun hle => by
      obtain ⟨t, ht'⟩ := h.exists_termAt (i := rf.nextIndex i - 1) (by omega) hle
      rw [ht] at ht'
      cases ht'
    have hentry : rf.entryAt (rf.nextIndex i - 1) = none := by
      rw [Option.eq_none_iff_forall_ne_some]
      intro e he
      exact hout (h.entryAt_bounds he).2
    unfold heartBeatTo getPrevLogInfo
    rw [myAssert, if_pos (by omega), Exec.ok_bind, if_neg (by omega), if_neg (by omega)]
    dsimp only
    rw [h.logAt_eq, hentry]
    rfl

/-- With every `m_nextIndex` in range, `doHeartBeat` of a leader serves each other peer. -/
theorem LogWF.doHeartBeat_outcome {rf : Raft n} (h : rf.LogWF) (hstatus : rf.status = .leader)
    (hnext : ∀ i, i ≠ rf.me → 1 ≤ rf.nextIndex i ∧ rf.nextIndex i ≤ rf.getLastLogIndex + 1) :
    ∃ calls, rf.doHeartBeat = .ok calls ∧ calls.map Prod.fst = rf.otherPeers ∧
      ∀ c ∈ calls, HeartBeatOutcome rf c.1 c.2 := by
  have hpeer : ∀ i, i ≠ rf.me → ∃ hb, rf.heartBeatTo i = .ok hb ∧ HeartBeatOutcome rf i hb :=
    fun i hi => h.heartBeatTo_outcome (hnext i hi).1 (hnext i hi).2
  have hne : Nonempty HeartBeat := ⟨.snapshot⟩
  choose! f hf hout using hpeer
  have hmem : ∀ i ∈ rf.otherPeers, i ≠ rf.me := fun i hi => by
    simpa [otherPeers] using hi
  refine ⟨rf.otherPeers.map fun i => (i, f i), ?_, ?_, ?_⟩
  · unfold doHeartBeat
    rw [if_pos hstatus]
    refine Exec.mapM_ok fun i hi => ?_
    rw [hf i (hmem i hi), Exec.ok_bind]
    rfl
  · rw [List.map_map]
    exact List.map_id _
  · intro c hc
    obtain ⟨i, hi, rfl⟩ := List.mem_map.mp hc
    exact hout i (hmem i hi)

/-! ### `leaderSendSnapShot` -/

variable [RaftArchive]

/-- The ways the reply part of `leaderSendSnapShot` returns. -/
inductive SnapshotReplyOutcome (rf : Raft n) (server : Fin n) (args : InstallSnapshotRequest)
    (reply : InstallSnapshotResponse) : Raft n → Prop
  | ignored : SnapshotReplyOutcome rf server args reply rf
  | stepDown (hterm : rf.currentTerm < reply.term) :
      SnapshotReplyOutcome rf server args reply (rf.stepDown reply.term).persist
  | recorded (hstatus : rf.status = .leader) (hterm : rf.currentTerm = args.term) :
      SnapshotReplyOutcome rf server args reply
        { rf with
          matchIndex := Function.update rf.matchIndex server args.lastSnapShotIncludeIndex
          nextIndex := Function.update rf.nextIndex server (args.lastSnapShotIncludeIndex + 1) }

/-- **The reply part of `leaderSendSnapShot`** has one of these outcomes. -/
theorem leaderSendSnapShotReply_outcome (rf : Raft n) (server : Fin n)
    (args : InstallSnapshotRequest) (reply : InstallSnapshotResponse) :
    SnapshotReplyOutcome rf server args reply (rf.leaderSendSnapShotReply server args reply) := by
  unfold leaderSendSnapShotReply
  split
  · exact .ignored
  · rename_i hgo
    split
    · rename_i hterm
      exact .stepDown hterm
    · exact .recorded (by tauto) (by tauto)

end Raft

end RaftStore
