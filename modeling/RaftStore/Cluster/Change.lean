import RaftStore.Lib.Consensus
import RaftStore.Model.Cluster
import RaftStore.Node.Moves

namespace RaftStore

/-!
# What one step can do to the cluster

* `Cluster.Shape` — every node's indices are in order, a leader's `m_nextIndex` and
  `m_matchIndex` stay inside its log, and so does every message it has sent.
* `Cluster.Change s a s'` — the ways action `a` takes `s` to `s'`, with the outcome of the
  handler it runs; `Cluster.Faults` names the two handlers that can end a process.
* `Cluster.step_change` — under `Shape` the step is one of these.  Every later invariant is a
  case analysis over `Change` and never unfolds `Cluster.step`.
* `Cluster.shape_reach` — `Shape` holds in every reachable state of every run.
-/

namespace Cluster

variable {n : ℕ}

/-! ### Fields -/

/-- Setting a node updates that one. -/
@[simp] theorem setNode_nodes (s : Cluster n) (i : Fin n) (rf : Raft n) :
    (s.setNode i rf).nodes = Function.update s.nodes i rf := rfl
/-- Setting a node ends no process. -/
@[simp] theorem setNode_exited (s : Cluster n) (i : Fin n) (rf : Raft n) :
    (s.setNode i rf).exited = s.exited := rfl
/-- Setting a node counts no vote. -/
@[simp] theorem setNode_votedNums (s : Cluster n) (i : Fin n) (rf : Raft n) :
    (s.setNode i rf).votedNums = s.votedNums := rfl
/-- Setting a node counts no success. -/
@[simp] theorem setNode_appendNums (s : Cluster n) (i : Fin n) (rf : Raft n) :
    (s.setNode i rf).appendNums = s.appendNums := rfl
/-- Setting a node leaves the vote calls. -/
@[simp] theorem setNode_voteCalls (s : Cluster n) (i : Fin n) (rf : Raft n) :
    (s.setNode i rf).voteCalls = s.voteCalls := rfl
/-- Setting a node leaves the calls for entries. -/
@[simp] theorem setNode_appendCalls (s : Cluster n) (i : Fin n) (rf : Raft n) :
    (s.setNode i rf).appendCalls = s.appendCalls := rfl
/-- Setting a node leaves the calls for snapshots. -/
@[simp] theorem setNode_snapCalls (s : Cluster n) (i : Fin n) (rf : Raft n) :
    (s.setNode i rf).snapCalls = s.snapCalls := rfl
/-- Setting a node is not an event. -/
@[simp] theorem setNode_history (s : Cluster n) (i : Fin n) (rf : Raft n) :
    (s.setNode i rf).history = s.history := rfl

/-- What relates a node to itself and the one node that has moved to its new state relates every
    node to its new state. -/
theorem update_rel {R : Raft n → Raft n → Prop} (hrefl : ∀ rf, R rf rf) {s : Cluster n}
    {j : Fin n} {rf : Raft n} (h : R (s.nodes j) rf) (i : Fin n) :
    R (s.nodes i) (Function.update s.nodes j rf i) := by
  by_cases hij : i = j
  · subst hij
    rwa [Function.update_self]
  · rw [Function.update_of_ne hij]
    exact hrefl _

/-! ### Changes -/

/-- The two handlers that can end the process of node `i`: a majority of votes counted by a
    leader, and an `AppendEntries1` that rejects its request. -/
inductive Faults (s : Cluster n) : Step n → Fin n → Prop
  | sendRequestVote {c : ℕ} {call : Call n RequestVoteArgs RequestVoteReply}
      {reply : RequestVoteReply} {round : Round n} (hc : s.voteCalls[c]? = some call)
      (hreply : call.reply = some reply) (hround : s.votedNums[call.round]? = some round)
      (hret : call.returned = false)
      (htwice : (s.nodes call.caller).TwiceElected reply round.count) :
      Faults s (.sendRequestVote c) call.caller
  | appendEntries1 {c : ℕ} {call : Call n AppendEntriesArgs AppendEntriesReply}
      (hc : s.appendCalls[c]? = some call) (hreply : call.reply = none)
      (hrej : (s.nodes call.server).Rejects call.args) :
      Faults s (.appendEntries1 c) call.server

/-! ### The threads of an election and of a heartbeat -/

/-- A round that was there stays at its position when one is appended. -/
theorem getElem?_append_round {l : List (Round n)} {r : ℕ} {round new : Round n}
    (h : l[r]? = some round) : (l ++ [new])[r]? = some round := by
  rw [List.getElem?_append_left (List.getElem?_eq_some_iff.mp h).1, h]

/-- The vote requests of a candidate. -/
theorem mem_voteSends [RaftArchive] {rf : Raft n} (hstatus : rf.status ≠ .leader) {i : Fin n}
    {round : ℕ} {call : Call n RequestVoteArgs RequestVoteReply}
    (h : call ∈ voteSends i round rf.doElection.2) :
    ∃ j, j ≠ rf.me ∧ call =
      { caller := i
        server := j
        round
        args := { term := rf.currentTerm + 1
                  candidateId := rf.me.val
                  lastLogIndex := rf.getLastLogIndex
                  lastLogTerm := rf.getLastLogTerm } } := by
  rw [voteSends, Raft.doElection_snd hstatus, List.map_map] at h
  obtain ⟨j, hj, rfl⟩ := List.mem_map.mp h
  exact ⟨j, by simpa [Raft.otherPeers] using hj, rfl⟩

/-- Each request for entries goes to another peer and follows that peer's `m_nextIndex`. -/
theorem mem_appendSends {rf : Raft n} {i : Fin n} {round : ℕ}
    {calls : List (Fin n × Raft.HeartBeat)} (hpeers : calls.map Prod.fst = rf.otherPeers)
    (hout : ∀ c ∈ calls, rf.HeartBeatOutcome c.1 c.2)
    {call : Call n AppendEntriesArgs AppendEntriesReply}
    (h : call ∈ appendSends i round calls) :
    ∃ j prevTerm, j ≠ rf.me ∧ rf.lastSnapshotIncludeIndex < rf.nextIndex j ∧
      rf.termAt (rf.nextIndex j - 1) = some prevTerm ∧
      call = { caller := i, server := j, round,
               args := rf.appendArgs (rf.nextIndex j - 1) prevTerm } := by
  obtain ⟨⟨j, hb⟩, hmem, hcall⟩ := List.mem_filterMap.mp h
  have hj : j ∈ rf.otherPeers := hpeers ▸ List.mem_map_of_mem hmem
  have hj : j ≠ rf.me := by simpa [Raft.otherPeers] using hj
  cases hb with
  | snapshot => cases hcall
  | append args =>
    cases hcall
    generalize hx : Raft.HeartBeat.append args = x at hmem
    have ho : rf.HeartBeatOutcome j x := hout _ hmem
    cases ho with
    | snapshot => cases hx
    | append hnext prevTerm hterm =>
      cases hx
      exact ⟨j, prevTerm, hj, hnext, hterm, rfl⟩

/-- Each thread for a snapshot is for another peer, and has built no request yet. -/
theorem mem_snapshotSends {rf : Raft n} {i : Fin n} {calls : List (Fin n × Raft.HeartBeat)}
    (hpeers : calls.map Prod.fst = rf.otherPeers)
    {call : Call n (Option InstallSnapshotRequest) InstallSnapshotResponse}
    (h : call ∈ snapshotSends i calls) :
    ∃ j, j ≠ rf.me ∧ call = { caller := i, server := j, round := 0, args := none } := by
  obtain ⟨⟨j, hb⟩, hmem, hcall⟩ := List.mem_filterMap.mp h
  have hj : j ∈ rf.otherPeers := hpeers ▸ List.mem_map_of_mem hmem
  have hj : j ≠ rf.me := by simpa [Raft.otherPeers] using hj
  cases hb with
  | snapshot => exact ⟨j, hj, (Option.some.inj hcall).symm⟩
  | append args => cases hcall

variable [RaftArchive]

/-- The ways a step ends. -/
inductive Change (s : Cluster n) : Step n → Cluster n → Prop
  | idle {a : Step n} : Change s a s
  | exit {a : Step n} {i : Fin n} (hi : s.exited i = false) (hf : s.Faults a i) :
      Change s a (s.exit i)
  | doElection {i : Fin n} (hstatus : (s.nodes i).status ≠ .leader) :
      Change s (.doElection i)
        { s.setNode i (s.nodes i).doElection.1 with
          votedNums := s.votedNums ++
            [{ count := 1, owner := i, built := (s.nodes i).doElection.1 }]
          voteCalls := s.voteCalls ++
            voteSends i s.votedNums.length (s.nodes i).doElection.2 }
  | requestVote {c : ℕ} {call : Call n RequestVoteArgs RequestVoteReply} {rf : Raft n}
      {reply : RequestVoteReply} (hc : s.voteCalls[c]? = some call) (hreply : call.reply = none)
      (hout : (s.nodes call.server).RequestVoteOutcome call.args rf reply) :
      Change s (.requestVote c)
        { s.setNode call.server rf with
          voteCalls := s.voteCalls.set c { call with reply := some reply, after := some rf } }
  | sendRequestVote {c : ℕ} {call : Call n RequestVoteArgs RequestVoteReply}
      {reply : RequestVoteReply} {round : Round n} {rf : Raft n} {count : Int}
      (hc : s.voteCalls[c]? = some call) (hreply : call.reply = some reply)
      (hround : s.votedNums[call.round]? = some round) (hret : call.returned = false)
      (hout : (s.nodes call.caller).VoteReplyOutcome reply round.count rf count) :
      Change s (.sendRequestVote c)
        { s.setNode call.caller rf with
          votedNums := s.votedNums.set call.round { round with count }
          voteCalls := s.voteCalls.set c { call with returned := true }
          history := s.history ++
            if (s.nodes call.caller).status ≠ .leader ∧ rf.status = .leader then
              [.elected call.caller rf.currentTerm]
            else [] }
  | doHeartBeat {i : Fin n} {calls : List (Fin n × Raft.HeartBeat)}
      (hstatus : (s.nodes i).status = .leader)
      (hpeers : calls.map Prod.fst = (s.nodes i).otherPeers)
      (hout : ∀ c ∈ calls, (s.nodes i).HeartBeatOutcome c.1 c.2) :
      Change s (.doHeartBeat i)
        { s with
          appendNums := s.appendNums ++ [{ count := 1, owner := i, built := s.nodes i }]
          appendCalls := s.appendCalls ++ appendSends i s.appendNums.length calls
          snapCalls := s.snapCalls ++ snapshotSends i calls }
  | appendEntries1 {c : ℕ} {call : Call n AppendEntriesArgs AppendEntriesReply} {rf : Raft n}
      {reply : AppendEntriesReply} (hc : s.appendCalls[c]? = some call)
      (hreply : call.reply = none)
      (hout : (s.nodes call.server).AppendEntriesOutcome call.args rf reply) :
      Change s (.appendEntries1 c)
        { s.setNode call.server rf with
          appendCalls := s.appendCalls.set c { call with reply := some reply, after := some rf } }
  | sendAppendEntries {c : ℕ} {call : Call n AppendEntriesArgs AppendEntriesReply}
      {reply : AppendEntriesReply} {round : Round n} {rf : Raft n} {count : Int}
      (hc : s.appendCalls[c]? = some call) (hreply : call.reply = some reply)
      (hround : s.appendNums[call.round]? = some round) (hret : call.returned = false)
      (hout : (s.nodes call.caller).AppendReplyOutcome call.server call.args reply round.count
        rf count) :
      Change s (.sendAppendEntries c)
        { s.setNode call.caller rf with
          appendNums := s.appendNums.set call.round { round with count }
          appendCalls := s.appendCalls.set c { call with returned := true } }
  | leaderSendSnapShot {c : ℕ}
      {call : Call n (Option InstallSnapshotRequest) InstallSnapshotResponse}
      (hc : s.snapCalls[c]? = some call) (hargs : call.args = none) :
      Change s (.leaderSendSnapShot c)
        { s.setNode call.caller (s.nodes call.caller).leaderSendSnapShot.1 with
          snapCalls := s.snapCalls.set c
            { call with args := some (s.nodes call.caller).leaderSendSnapShot.2 } }
  | installSnapshot {c : ℕ}
      {call : Call n (Option InstallSnapshotRequest) InstallSnapshotResponse}
      {args : InstallSnapshotRequest} {rf : Raft n} {reply : InstallSnapshotResponse}
      {msg : Option ApplyMsg} (hc : s.snapCalls[c]? = some call) (hargs : call.args = some args)
      (hreply : call.reply = none)
      (hout : (s.nodes call.server).InstallSnapshotOutcome args rf reply msg) :
      Change s (.installSnapshot c)
        { s.setNode call.server rf with
          snapCalls := s.snapCalls.set c { call with reply := some reply, after := some rf }
          history := s.history ++ msg.toList.map (.pushed call.server) }
  | leaderSendSnapShotReply {c : ℕ}
      {call : Call n (Option InstallSnapshotRequest) InstallSnapshotResponse}
      {args : InstallSnapshotRequest} {reply : InstallSnapshotResponse} {rf : Raft n}
      (hc : s.snapCalls[c]? = some call) (hargs : call.args = some args)
      (hreply : call.reply = some reply) (hret : call.returned = false)
      (hout : (s.nodes call.caller).SnapshotReplyOutcome call.server args reply rf) :
      Change s (.leaderSendSnapShotReply c)
        { s.setNode call.caller rf with
          snapCalls := s.snapCalls.set c { call with returned := true } }
  | start {i : Fin n} {command : String} (hstatus : (s.nodes i).status = .leader) :
      Change s (.start i command)
        { s.setNode i ((s.nodes i).started command) with
          history := s.history ++ [.started i ((s.nodes i).newEntry command)] }
  | snapshot {i : Fin n} {index : Int} {data : String} {rf : Raft n}
      (hout : (s.nodes i).SnapshotOutcome index data rf) :
      Change s (.snapshot i index data) (s.setNode i rf)
  | getApplyLogs {i : Fin n} :
      Change s (.getApplyLogs i)
        { s.setNode i { s.nodes i with lastApplied := (s.nodes i).commitIndex } with
          history := s.history ++
            ((s.nodes i).applicable.map Raft.applyMsgOf).map (.applied i) }

/-! ### The shape of the cluster -/

omit [RaftArchive]

/-- A request for entries and its refusal stay inside the log of the node that sent it. -/
structure AppendShape (s : Cluster n) (call : Call n AppendEntriesArgs AppendEntriesReply) :
    Prop where
  args : call.args.WF
  sent : call.args.prevLogIndex + call.args.entries.length ≤
    (s.nodes call.caller).getLastLogIndex
  refused : ∀ reply, call.reply = some reply → reply.success = false →
    reply.updateNextIndex ≠ -100 → 1 ≤ reply.updateNextIndex ∧
      reply.updateNextIndex ≤ call.args.prevLogIndex

/-- A snapshot request stays inside the log of the node that sent it. -/
def SnapShape (s : Cluster n)
    (call : Call n (Option InstallSnapshotRequest) InstallSnapshotResponse) : Prop :=
  ∀ args, call.args = some args → 0 ≤ args.lastSnapShotIncludeIndex ∧
    args.lastSnapShotIncludeIndex ≤ (s.nodes call.caller).getLastLogIndex

/-- The indices of every node and message are in range. -/
structure Shape (s : Cluster n) : Prop where
  node : ∀ i, (s.nodes i).IndexWF
  me : ∀ i, (s.nodes i).me = i
  leader : ∀ i, (s.nodes i).status = .leader → (s.nodes i).Tracks
  append : ∀ call ∈ s.appendCalls, s.AppendShape call
  snap : ∀ call ∈ s.snapCalls, s.SnapShape call

/-! ### Every step is a change -/

section steps

variable [RaftArchive] {s s' : Cluster n}

/-- `doElection` is one of the changes. -/
theorem stepDoElection_change {i : Fin n} (hs : s.stepDoElection i = some s') :
    Change s (.doElection i) s' := by
  unfold stepDoElection at hs
  split at hs
  · cases hs
  · split at hs
    · cases hs
      exact .idle
    · rename_i hstatus
      cases hs
      exact .doElection hstatus

/-- The answer to a vote request is one of the changes. -/
theorem stepRequestVote_change {c : ℕ} (hs : s.stepRequestVote c = some s') :
    Change s (.requestVote c) s' := by
  unfold stepRequestVote at hs
  obtain ⟨call, hc, hs⟩ := Option.bind_eq_some_iff.mp hs
  split at hs
  · cases hs
  · rename_i hgo
    obtain ⟨rf, reply, hok, hout⟩ := (s.nodes call.server).requestVote_outcome call.args
    rw [hok] at hs
    cases hs
    exact .requestVote hc (by simpa using (not_or.mp hgo).2) hout

/-- So is the reply to one, which may also end the process. -/
theorem stepSendRequestVote_change {c : ℕ} (hs : s.stepSendRequestVote c = some s') :
    Change s (.sendRequestVote c) s' := by
  unfold stepSendRequestVote at hs
  obtain ⟨call, hc, hs⟩ := Option.bind_eq_some_iff.mp hs
  obtain ⟨reply, hreply, hs⟩ := Option.bind_eq_some_iff.mp hs
  obtain ⟨round, hround, hs⟩ := Option.bind_eq_some_iff.mp hs
  split at hs
  · cases hs
  · rename_i hgo
    obtain ⟨halive, hret⟩ := not_or.mp hgo
    rw [Bool.not_eq_true] at halive hret
    by_cases htwice : (s.nodes call.caller).TwiceElected reply round.count
    · rw [Raft.sendRequestVoteReply_fault htwice] at hs
      cases hs
      exact .exit halive (.sendRequestVote hc hreply hround hret htwice)
    · obtain ⟨rf, count, hok, hout⟩ := Raft.sendRequestVoteReply_outcome htwice
      rw [hok] at hs
      cases hs
      exact .sendRequestVote hc hreply hround hret hout

/-- `doHeartBeat` is one of the changes, as long as every `m_nextIndex` is in range. -/
theorem stepDoHeartBeat_change (h : s.Shape) {i : Fin n} (hs : s.stepDoHeartBeat i = some s') :
    Change s (.doHeartBeat i) s' := by
  unfold stepDoHeartBeat at hs
  split at hs
  · cases hs
  · split at hs
    · cases hs
      exact .idle
    · rename_i hstatus
      rw [not_not] at hstatus
      obtain ⟨calls, hok, hpeers, hout⟩ := (h.node i).toLogWF.doHeartBeat_outcome hstatus
        fun j _ => ⟨(h.leader i hstatus j).1, (h.leader i hstatus j).2.1⟩
      rw [hok] at hs
      cases hs
      exact .doHeartBeat hstatus hpeers hout

/-- The answer to a request for entries is one of the changes, or ends the process. -/
theorem stepAppendEntries1_change (h : s.Shape) {c : ℕ} (hs : s.stepAppendEntries1 c = some s') :
    Change s (.appendEntries1 c) s' := by
  unfold stepAppendEntries1 at hs
  obtain ⟨call, hc, hs⟩ := Option.bind_eq_some_iff.mp hs
  have hargs := (h.append call (List.mem_of_getElem? hc)).args
  have hnode := h.node call.server
  split at hs
  · cases hs
  · rename_i hgo
    obtain ⟨halive, hreply⟩ := not_or.mp hgo
    rw [Bool.not_eq_true] at halive
    have hreply : call.reply = none := by simpa using hreply
    by_cases hrej : (s.nodes call.server).Rejects call.args
    · obtain ⟨f, hf⟩ := Raft.Rejects.fault hnode.toLogWF hargs hrej
      rw [hf] at hs
      cases hs
      exact .exit halive (.appendEntries1 hc hreply hrej)
    · obtain ⟨rf, reply, hok, hout⟩ :=
        Raft.appendEntries1_outcome hnode.toLogWF hnode.last hargs hrej
      rw [hok] at hs
      cases hs
      exact .appendEntries1 hc hreply hout

/-- The reply part of `sendAppendEntries` does not fault, and the step stores what it returns. -/
theorem stepSendAppendEntries_ok (h : s.Shape) {c : ℕ}
    (hs : s.stepSendAppendEntries c = some s') :
    ∃ call reply round rf count, s.appendCalls[c]? = some call ∧ call.reply = some reply ∧
      s.appendNums[call.round]? = some round ∧ call.returned = false ∧
      (s.nodes call.caller).sendAppendEntriesReply call.server call.args reply round.count =
        .ok (rf, count) ∧
      s' = { s.setNode call.caller rf with
        appendNums := s.appendNums.set call.round { round with count }
        appendCalls := s.appendCalls.set c { call with returned := true } } := by
  unfold stepSendAppendEntries at hs
  obtain ⟨call, hc, hs⟩ := Option.bind_eq_some_iff.mp hs
  obtain ⟨reply, hreply, hs⟩ := Option.bind_eq_some_iff.mp hs
  obtain ⟨round, hround, hs⟩ := Option.bind_eq_some_iff.mp hs
  split at hs
  · cases hs
  · rename_i hgo
    have hret : call.returned = false := by simpa using (not_or.mp hgo).2
    obtain ⟨rf, count, hok, _⟩ := Raft.sendAppendEntriesReply_outcome
      (s.nodes call.caller) call.server call.args reply round.count (h.node _).last
      (fun hcounts => (h.leader _ hcounts.2.1 call.server).2.2)
      (fun _ => (h.append call (List.mem_of_getElem? hc)).sent)
    rw [hok] at hs
    cases hs
    exact ⟨call, reply, round, rf, count, hc, hreply, hround, hret, hok, rfl⟩

/-- The reply to a request for entries is one of the changes: its asserts hold. -/
theorem stepSendAppendEntries_change (h : s.Shape) {c : ℕ}
    (hs : s.stepSendAppendEntries c = some s') : Change s (.sendAppendEntries c) s' := by
  obtain ⟨call, reply, round, rf, count, hc, hreply, hround, hret, hok, rfl⟩ :=
    stepSendAppendEntries_ok h hs
  obtain ⟨rf', count', hok', hout⟩ := Raft.sendAppendEntriesReply_outcome
    (s.nodes call.caller) call.server call.args reply round.count (h.node _).last
    (fun hcounts => (h.leader _ hcounts.2.1 call.server).2.2)
    (fun _ => (h.append call (List.mem_of_getElem? hc)).sent)
  rw [hok] at hok'
  cases hok'
  exact .sendAppendEntries hc hreply hround hret hout

/-- Building the request for a snapshot is one of the changes, -/
theorem stepLeaderSendSnapShot_change {c : ℕ}
    (hs : s.stepLeaderSendSnapShot c = some s') : Change s (.leaderSendSnapShot c) s' := by
  unfold stepLeaderSendSnapShot at hs
  obtain ⟨call, hc, hs⟩ := Option.bind_eq_some_iff.mp hs
  split at hs
  · cases hs
  · rename_i hgo
    cases hs
    exact .leaderSendSnapShot hc (by simpa using (not_or.mp hgo).2)

/-- The answer to a snapshot is one of the changes. -/
theorem stepInstallSnapshot_change (h : s.Shape) {c : ℕ}
    (hs : s.stepInstallSnapshot c = some s') : Change s (.installSnapshot c) s' := by
  unfold stepInstallSnapshot at hs
  obtain ⟨call, hc, hs⟩ := Option.bind_eq_some_iff.mp hs
  obtain ⟨args, hargs, hs⟩ := Option.bind_eq_some_iff.mp hs
  split at hs
  · cases hs
  · rename_i hgo
    obtain ⟨rf, reply, msg, hok, hout⟩ :=
      Raft.installSnapshot_outcome (h.node call.server).toLogWF args
    rw [hok] at hs
    cases hs
    exact .installSnapshot hc hargs (by simpa using (not_or.mp hgo).2) hout

/-- The step of a snapshot reply stores what `leaderSendSnapShotReply` returns. -/
theorem stepLeaderSendSnapShotReply_ok {c : ℕ} (hs : s.stepLeaderSendSnapShotReply c = some s') :
    ∃ call args reply, s.snapCalls[c]? = some call ∧ call.args = some args ∧
      call.reply = some reply ∧ call.returned = false ∧
      s' = { s.setNode call.caller
          ((s.nodes call.caller).leaderSendSnapShotReply call.server args reply) with
        snapCalls := s.snapCalls.set c { call with returned := true } } := by
  unfold stepLeaderSendSnapShotReply at hs
  obtain ⟨call, hc, hs⟩ := Option.bind_eq_some_iff.mp hs
  obtain ⟨args, hargs, hs⟩ := Option.bind_eq_some_iff.mp hs
  obtain ⟨reply, hreply, hs⟩ := Option.bind_eq_some_iff.mp hs
  split at hs
  · cases hs
  · rename_i hgo
    cases hs
    exact ⟨call, args, reply, hc, hargs, hreply, by simpa using (not_or.mp hgo).2, rfl⟩

/-- The reply to a snapshot is one of the changes. -/
theorem stepLeaderSendSnapShotReply_change {c : ℕ}
    (hs : s.stepLeaderSendSnapShotReply c = some s') :
    Change s (.leaderSendSnapShotReply c) s' := by
  obtain ⟨call, args, reply, hc, hargs, hreply, hret, rfl⟩ := stepLeaderSendSnapShotReply_ok hs
  exact .leaderSendSnapShotReply hc hargs hreply hret
    (Raft.leaderSendSnapShotReply_outcome _ _ _ _)

/-- `Start` is one of the changes. -/
theorem stepStart_change {i : Fin n} {command : String} (hs : s.stepStart i command = some s') :
    Change s (.start i command) s' := by
  unfold stepStart at hs
  split at hs
  · cases hs
  · by_cases hstatus : (s.nodes i).status = .leader
    · rw [Raft.start_leader hstatus] at hs
      cases hs
      exact .start hstatus
    · rw [Raft.start_not_leader hstatus] at hs
      cases hs
      have hsame :
          ({ s.setNode i (s.nodes i) with history := s.history ++ [] } : Cluster n) = s := by
        simp [setNode]
      simp only [Bool.false_eq_true, if_false]
      rw [hsame]
      exact .idle

/-- So is the server's own snapshot, whose assert holds. -/
theorem stepSnapshot_change (h : s.Shape) {i : Fin n} {index : Int} {data : String}
    (hs : s.stepSnapshot i index data = some s') : Change s (.snapshot i index data) s' := by
  unfold stepSnapshot at hs
  split at hs
  · cases hs
  · obtain ⟨rf, hok, hout⟩ :=
      Raft.snapshot_outcome (h.node i).toLogWF (h.node i).last index data
    rw [hok] at hs
    cases hs
    exact .snapshot hout

/-- So is `getApplyLogs`, which finds every entry that it looks for. -/
theorem stepGetApplyLogs_change (h : s.Shape) {i : Fin n} (hs : s.stepGetApplyLogs i = some s') :
    Change s (.getApplyLogs i) s' := by
  unfold stepGetApplyLogs at hs
  split at hs
  · cases hs
  · rw [(h.node i).getApplyLogs_eq] at hs
    cases hs
    exact .getApplyLogs

/-- **Step inversion.**  With every index in range, a step of the cluster is one of the listed
    changes. -/
theorem step_change (h : s.Shape) {a : Step n} (hs : s.step a = some s') : Change s a s' := by
  cases a with
  | doElection i => exact stepDoElection_change hs
  | requestVote c => exact stepRequestVote_change hs
  | sendRequestVote c => exact stepSendRequestVote_change hs
  | doHeartBeat i => exact stepDoHeartBeat_change h hs
  | appendEntries1 c => exact stepAppendEntries1_change h hs
  | sendAppendEntries c => exact stepSendAppendEntries_change h hs
  | leaderSendSnapShot c => exact stepLeaderSendSnapShot_change hs
  | installSnapshot c => exact stepInstallSnapshot_change h hs
  | leaderSendSnapShotReply c => exact stepLeaderSendSnapShotReply_change hs
  | start i command => exact stepStart_change hs
  | snapshot i index data => exact stepSnapshot_change h hs
  | getApplyLogs i => exact stepGetApplyLogs_change h hs

end steps

/-! ### The shape is kept -/

section shape

variable [RaftArchive] {s s' : Cluster n} {a : Step n}

/-- A step moves at most the node whose handler it runs. -/
theorem Change.moves (h : s.Shape) (hc : Change s a s') (i : Fin n) :
    s'.nodes i = s.nodes i ∨ (s.nodes i).Moves (s'.nodes i) := by
  have hone : ∀ {j : Fin n} {rf : Raft n}, (s.nodes j).Moves rf →
      Function.update s.nodes j rf i = s.nodes i ∨
        (s.nodes i).Moves (Function.update s.nodes j rf i) := fun hm =>
    update_rel (R := fun rf rf' => rf' = rf ∨ rf.Moves rf') (fun _ => Or.inl rfl) (Or.inr hm) i
  cases hc with
  | idle | exit | doHeartBeat => exact Or.inl rfl
  | doElection hstatus => exact hone (.elect hstatus)
  | requestVote hc hreply hout => exact hone (.requestVote hout)
  | sendRequestVote hc hreply hround hret hout => exact hone (.voteReply hout)
  | appendEntries1 hc hreply hout =>
    exact hone (.appendEntries1 (h.append _ (List.mem_of_getElem? hc)).args hout)
  | sendAppendEntries hc hreply hround hret hout =>
    have hshape := h.append _ (List.mem_of_getElem? hc)
    exact hone (.appendReply hshape.args hshape.sent (hshape.refused _ hreply) hout)
  | leaderSendSnapShot => exact hone .readSnapshot
  | installSnapshot hc hargs hreply hout => exact hone (.installSnapshot hout)
  | leaderSendSnapShotReply hc hargs hreply hret hout =>
    exact hone (.snapshotReply (h.snap _ (List.mem_of_getElem? hc) _ hargs) hout)
  | start hstatus => exact hone (.start hstatus _)
  | snapshot hout => exact hone (.snapshot hout)
  | getApplyLogs => exact hone .apply

/-- A step only adds to the history. -/
theorem Change.history_mono (hc : Change s a s') {ev : Event n} (h : ev ∈ s.history) :
    ev ∈ s'.history := by
  cases hc with
  | sendRequestVote | installSnapshot | start | getApplyLogs =>
    exact List.mem_append_left _ h
  | _ => exact h

/-- The last index of a node never goes down. -/
theorem Change.last_le (h : s.Shape) (hc : Change s a s') (i : Fin n) :
    (s.nodes i).getLastLogIndex ≤ (s'.nodes i).getLastLogIndex := by
  rcases hc.moves h i with heq | hm
  · rw [heq]
  · exact hm.last_le (h.node i)

omit [RaftArchive] in
/-- A request for entries stays inside its sender's log as the log grows. -/
theorem AppendShape.mono {call : Call n AppendEntriesArgs AppendEntriesReply}
    (hcall : s.AppendShape call)
    (hlast : ∀ i, (s.nodes i).getLastLogIndex ≤ (s'.nodes i).getLastLogIndex) :
    s'.AppendShape call :=
  { hcall with sent := hcall.sent.trans (hlast _) }

omit [RaftArchive] in
/-- So does a snapshot. -/
theorem SnapShape.mono {call : Call n (Option InstallSnapshotRequest) InstallSnapshotResponse}
    (hcall : s.SnapShape call)
    (hlast : ∀ i, (s.nodes i).getLastLogIndex ≤ (s'.nodes i).getLastLogIndex) :
    s'.SnapShape call :=
  fun args hargs => ⟨(hcall args hargs).1, (hcall args hargs).2.trans (hlast _)⟩

/-- The append calls after a step. -/
theorem Change.appendShape (h : s.Shape) (hc : Change s a s') :
    ∀ call ∈ s'.appendCalls, s'.AppendShape call := by
  have hle := hc.last_le h
  have hold : ∀ call ∈ s.appendCalls, s'.AppendShape call := fun call hcall =>
    (h.append call hcall).mono hle
  cases hc with
  | doHeartBeat hstatus hpeers hout =>
    intro call hcall
    rcases List.mem_append.mp hcall with hcall | hcall
    · exact hold call hcall
    · obtain ⟨j, prevTerm, _, _, hterm, rfl⟩ := mem_appendSends hpeers hout hcall
      obtain ⟨hargs, hend⟩ := (h.node _).appendArgs hterm
      -- a new request carries a suffix of the leader's log, and has no reply yet
      exact { args := hargs, sent := hend.le, refused := fun _ hreply => by cases hreply }
  | @appendEntries1 c call rf reply hc hreply hout =>
    intro call' hcall'
    rcases List.mem_or_eq_of_mem_set hcall' with hcall' | rfl
    · exact hold call' hcall'
    -- a refusal names an index from 1 to `prevLogIndex`
    · have hshape := hold call (List.mem_of_getElem? hc)
      refine { args := hshape.args, sent := hshape.sent, refused := fun reply' heq => ?_ }
      cases heq
      exact hout.refused (h.node _) hshape.args
  | @sendAppendEntries c call _ _ _ _ hc =>
    intro call' hcall'
    rcases List.mem_or_eq_of_mem_set hcall' with hcall' | rfl
    · exact hold call' hcall'
    · have hshape := hold call (List.mem_of_getElem? hc)
      exact { args := hshape.args, sent := hshape.sent, refused := hshape.refused }
  | _ => exact hold

/-- The snapshot calls after a step. -/
theorem Change.snapShape (h : s.Shape) (hc : Change s a s') :
    ∀ call ∈ s'.snapCalls, s'.SnapShape call := by
  have hle := hc.last_le h
  have hold : ∀ call ∈ s.snapCalls, s'.SnapShape call := fun call hcall =>
    (h.snap call hcall).mono hle
  cases hc with
  | doHeartBeat hstatus hpeers hout =>
    intro call hcall
    rcases List.mem_append.mp hcall with hcall | hcall
    · exact hold call hcall
    · obtain ⟨j, _, rfl⟩ := mem_snapshotSends hpeers hcall
      intro args hargs
      cases hargs
  | @leaderSendSnapShot c call hc hargs =>
    intro call' hcall'
    rcases List.mem_or_eq_of_mem_set hcall' with hcall' | rfl
    · exact hold call' hcall'
    · intro args hargs'
      cases hargs'
      -- the arguments are the snapshot point of the node, which its log does not fall below
      have hnode := h.node call.caller
      exact ⟨hnode.nonneg, hnode.toLogWF.snapshot_le_last.trans (hle call.caller)⟩
  | @installSnapshot c call _ _ _ _ hc | @leaderSendSnapShotReply c call _ _ _ hc =>
    intro call' hcall'
    rcases List.mem_or_eq_of_mem_set hcall' with hcall' | rfl
    · exact hold call' hcall'
    · exact hold call (List.mem_of_getElem? hc)
  | _ => exact hold

/-- A step keeps every index in range. -/
theorem Change.shape (h : s.Shape) (hc : Change s a s') : s'.Shape where
  node i := by
    rcases hc.moves h i with heq | hm
    · rw [heq]
      exact h.node i
    · exact hm.indexWF (h.node i)
  me i := by
    rcases hc.moves h i with heq | hm
    · rw [heq, h.me i]
    · rw [hm.me, h.me i]
  leader i hstatus := by
    rcases hc.moves h i with heq | hm
    · rw [heq] at hstatus ⊢
      exact h.leader i hstatus
    · exact hm.tracks (h.node i) (h.leader i) hstatus
  append := hc.appendShape h
  snap := hc.snapShape h

omit [RaftArchive] in
/-- The shape holds at the start: there is no entry and no message. -/
theorem shape_init (n : ℕ) : (init n).Shape where
  node i :=
    { nonneg := le_rfl
      contiguous := contiguous_nil _
      zero := fun _ => rfl
      applied := le_rfl
      committed := le_rfl
      last := le_rfl }
  me _ := rfl
  leader i hstatus := by cases hstatus
  append := by simp [init]
  snap := by simp [init]

/-- **The indices are in range in every reachable state.** -/
theorem shape_reach {ok : Cluster n → Step n → Prop} (h : Reach step ok (init n) s) : s.Shape :=
  h.invariant (shape_init n) fun _ _ _ _ hshape _ hs => (step_change hshape hs).shape hshape

/-- Steps from a reachable state are changes. -/
theorem reach_change {ok : Cluster n → Step n → Prop} (h : Reach step ok (init n) s)
    (hs : s.step a = some s') : Change s a s' :=
  step_change (shape_reach h) hs

end shape

end Cluster

end RaftStore
