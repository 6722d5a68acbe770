import RaftStore.Lib.Transition
import RaftStore.Model.Raft

namespace RaftStore

/-!
# A cluster of Raft nodes

The `n` nodes of a cluster, the RPC threads they have started and the messages in flight.
Every handler runs under its node's lock, so one step of the cluster is one handler, or one
half of a function that releases the lock around its RPC.

* `Call` — one RPC thread: the request, the reply once the server has answered, and whether
  the caller has processed it.  A call is never removed: a request or a reply that is lost is
  a call that no later step advances, and calls advance in any order.
* `Round` — the `shared_ptr<int>` that the threads of one `doElection` or `doHeartBeat` share.
* `Cluster.step` — the executable step; `none` when the action is not enabled.  A fault in a
  handler ends that node's process (`exited`), after which it takes no step.

The runs are without restarts: a node that has exited stays so, and none comes back with what its
persister holds.  What a restart finds is `Model.ServerProcess` and `Node.Crash`.

`Round.owner`, `Round.built`, `Call.after` and `Cluster.history` record what happened, for
statements about a run; no step reads them.
-/

/-- A counter shared by the RPC threads of one round, with the node that allocated it and that
    node's state when it started the threads. -/
structure Round (n : ℕ) where
  count : Int
  owner : Fin n
  built : Raft n

/-- One RPC thread.  `round` is the counter it holds; `after` is the state in which the server
    answered. -/
structure Call (n : ℕ) (Args Reply : Type) where
  caller : Fin n
  server : Fin n
  round : ℕ
  args : Args
  reply : Option Reply := none
  after : Option (Raft n) := none
  returned : Bool := false

/-- Events of a run. -/
inductive Event (n : ℕ)
  /-- `sendRequestVote` set `m_status` to `Leader` while `m_currentTerm` was `term`. -/
  | elected (i : Fin n) (term : Int)
  /-- `Start` appended an entry. -/
  | started (i : Fin n) (e : LogEntry)
  /-- `getApplyLogs` emitted a message. -/
  | applied (i : Fin n) (msg : ApplyMsg)
  /-- `InstallSnapshot` handed a message to a detached `pushMsgToKvServer`. -/
  | pushed (i : Fin n) (msg : ApplyMsg)
  deriving DecidableEq

/-- The cluster. -/
structure Cluster (n : ℕ) where
  nodes : Fin n → Raft n
  exited : Fin n → Bool
  votedNums : List (Round n)
  appendNums : List (Round n)
  voteCalls : List (Call n RequestVoteArgs RequestVoteReply)
  appendCalls : List (Call n AppendEntriesArgs AppendEntriesReply)
  /-- `args` is `none` until the thread has taken the lock and built the request. -/
  snapCalls : List (Call n (Option InstallSnapshotRequest) InstallSnapshotResponse)
  history : List (Event n)

/-- The actions; a call is named by its position in its list. -/
inductive Step (n : ℕ)
  | doElection (i : Fin n)
  | requestVote (c : ℕ)
  | sendRequestVote (c : ℕ)
  | doHeartBeat (i : Fin n)
  | appendEntries1 (c : ℕ)
  | sendAppendEntries (c : ℕ)
  | leaderSendSnapShot (c : ℕ)
  | installSnapshot (c : ℕ)
  | leaderSendSnapShotReply (c : ℕ)
  | start (i : Fin n) (command : String)
  | snapshot (i : Fin n) (index : Int) (data : String)
  | getApplyLogs (i : Fin n)
  deriving DecidableEq, Repr

namespace Cluster

variable {n : ℕ}

/-- All nodes just after `init` on empty files, no thread started. -/
def init (n : ℕ) : Cluster n where
  nodes := fun i => Raft.fresh i (Persister.construct {})
  exited := fun _ => false
  votedNums := []
  appendNums := []
  voteCalls := []
  appendCalls := []
  snapCalls := []
  history := []

/-- Node `i` goes from its state to `rf`. -/
def setNode (s : Cluster n) (i : Fin n) (rf : Raft n) : Cluster n :=
  { s with nodes := Function.update s.nodes i rf }

/-- The process of node `i` ends. -/
def exit (s : Cluster n) (i : Fin n) : Cluster n :=
  { s with exited := Function.update s.exited i true }

/-- The `sendRequestVote` threads of one election. -/
def voteSends (i : Fin n) (round : ℕ) (requests : List (Fin n × RequestVoteArgs)) :
    List (Call n RequestVoteArgs RequestVoteReply) :=
  requests.map fun (j, args) => { caller := i, server := j, round, args }

/-- The `leaderSendSnapShot` threads of one heartbeat round. -/
def snapshotSends (i : Fin n) (calls : List (Fin n × Raft.HeartBeat)) :
    List (Call n (Option InstallSnapshotRequest) InstallSnapshotResponse) :=
  calls.filterMap fun
    | (j, .snapshot) => some { caller := i, server := j, round := 0, args := none }
    | (_, .append _) => none

/-- The `sendAppendEntries` threads of one heartbeat round. -/
def appendSends (i : Fin n) (round : ℕ) (calls : List (Fin n × Raft.HeartBeat)) :
    List (Call n AppendEntriesArgs AppendEntriesReply) :=
  calls.filterMap fun
    | (_, .snapshot) => none
    | (j, .append args) => some { caller := i, server := j, round, args }

variable [RaftArchive]

/-- `doElection` on node `i`. -/
def stepDoElection (s : Cluster n) (i : Fin n) : Option (Cluster n) :=
  if s.exited i then none
  else if (s.nodes i).status = .leader then some s
  else
    let (rf, requests) := (s.nodes i).doElection
    some { s.setNode i rf with
      votedNums := s.votedNums ++ [{ count := 1, owner := i, built := rf }]
      voteCalls := s.voteCalls ++ voteSends i s.votedNums.length requests }

/-- The request of vote call `c` reaches its server. -/
def stepRequestVote (s : Cluster n) (c : ℕ) : Option (Cluster n) := do
  let call ← s.voteCalls[c]?
  if s.exited call.server ∨ call.reply.isSome then none
  else
    match (s.nodes call.server).requestVote call.args with
    | .error _ => some (s.exit call.server)
    | .ok (rf, reply) =>
      some { s.setNode call.server rf with
        voteCalls := s.voteCalls.set c { call with reply := some reply, after := some rf } }

/-- The reply of vote call `c` reaches its caller. -/
def stepSendRequestVote (s : Cluster n) (c : ℕ) : Option (Cluster n) := do
  let call ← s.voteCalls[c]?
  let reply ← call.reply
  let round ← s.votedNums[call.round]?
  if s.exited call.caller ∨ call.returned then none
  else
    match (s.nodes call.caller).sendRequestVoteReply reply round.count with
    | .error _ => some (s.exit call.caller)
    | .ok (rf, count) =>
      some { s.setNode call.caller rf with
        votedNums := s.votedNums.set call.round { round with count }
        voteCalls := s.voteCalls.set c { call with returned := true }
        history := s.history ++
          if (s.nodes call.caller).status ≠ .leader ∧ rf.status = .leader then
            [.elected call.caller rf.currentTerm]
          else [] }

/-- `doHeartBeat` on node `i`. -/
def stepDoHeartBeat (s : Cluster n) (i : Fin n) : Option (Cluster n) :=
  if s.exited i then none
  else if (s.nodes i).status ≠ .leader then some s
  else
    match (s.nodes i).doHeartBeat with
    | .error _ => some (s.exit i)
    | .ok calls =>
      some { s with
        appendNums := s.appendNums ++ [{ count := 1, owner := i, built := s.nodes i }]
        appendCalls := s.appendCalls ++ appendSends i s.appendNums.length calls
        snapCalls := s.snapCalls ++ snapshotSends i calls }

/-- The request of append call `c` reaches its server. -/
def stepAppendEntries1 (s : Cluster n) (c : ℕ) : Option (Cluster n) := do
  let call ← s.appendCalls[c]?
  if s.exited call.server ∨ call.reply.isSome then none
  else
    match (s.nodes call.server).appendEntries1 call.args with
    | .error _ => some (s.exit call.server)
    | .ok (rf, reply) =>
      some { s.setNode call.server rf with
        appendCalls := s.appendCalls.set c { call with reply := some reply, after := some rf } }

/-- The reply of append call `c` reaches its caller. -/
def stepSendAppendEntries (s : Cluster n) (c : ℕ) : Option (Cluster n) := do
  let call ← s.appendCalls[c]?
  let reply ← call.reply
  let round ← s.appendNums[call.round]?
  if s.exited call.caller ∨ call.returned then none
  else
    match (s.nodes call.caller).sendAppendEntriesReply call.server call.args reply
        round.count with
    | .error _ => some (s.exit call.caller)
    | .ok (rf, count) =>
      some { s.setNode call.caller rf with
        appendNums := s.appendNums.set call.round { round with count }
        appendCalls := s.appendCalls.set c { call with returned := true } }

omit [RaftArchive] in
/-- Snapshot thread `c` takes the lock and builds its request. -/
def stepLeaderSendSnapShot (s : Cluster n) (c : ℕ) : Option (Cluster n) := do
  let call ← s.snapCalls[c]?
  if s.exited call.caller ∨ call.args.isSome then none
  else
    let (rf, args) := (s.nodes call.caller).leaderSendSnapShot
    some { s.setNode call.caller rf with
      snapCalls := s.snapCalls.set c { call with args := some args } }

/-- The request of snapshot call `c` reaches its server. -/
def stepInstallSnapshot (s : Cluster n) (c : ℕ) : Option (Cluster n) := do
  let call ← s.snapCalls[c]?
  let args ← call.args
  if s.exited call.server ∨ call.reply.isSome then none
  else
    match (s.nodes call.server).installSnapshot args with
    | .error _ => some (s.exit call.server)
    | .ok (rf, reply, msg) =>
      some { s.setNode call.server rf with
        snapCalls := s.snapCalls.set c { call with reply := some reply, after := some rf }
        history := s.history ++ msg.toList.map (.pushed call.server) }

/-- The reply of snapshot call `c` reaches its caller. -/
def stepLeaderSendSnapShotReply (s : Cluster n) (c : ℕ) : Option (Cluster n) := do
  let call ← s.snapCalls[c]?
  let args ← call.args
  let reply ← call.reply
  if s.exited call.caller ∨ call.returned then none
  else
    some { s.setNode call.caller
        ((s.nodes call.caller).leaderSendSnapShotReply call.server args reply) with
      snapCalls := s.snapCalls.set c { call with returned := true } }

/-- The service calls `Start` on node `i`. -/
def stepStart (s : Cluster n) (i : Fin n) (command : String) : Option (Cluster n) :=
  if s.exited i then none
  else
    let (rf, newLogIndex, newLogTerm, isLeader) := (s.nodes i).start command
    some { s.setNode i rf with
      history := s.history ++
        if isLeader then
          [.started i { command, logTerm := newLogTerm, logIndex := newLogIndex }]
        else [] }

/-- The service calls `Snapshot` on node `i`. -/
def stepSnapshot (s : Cluster n) (i : Fin n) (index : Int) (data : String) :
    Option (Cluster n) :=
  if s.exited i then none
  else
    match (s.nodes i).snapshot index data with
    | .error _ => some (s.exit i)
    | .ok rf => some (s.setNode i rf)

omit [RaftArchive] in
/-- `applierTicker` collects what is to be applied on node `i`. -/
def stepGetApplyLogs (s : Cluster n) (i : Fin n) : Option (Cluster n) :=
  if s.exited i then none
  else
    match (s.nodes i).getApplyLogs with
    | .error _ => some (s.exit i)
    | .ok (rf, msgs) =>
      some { s.setNode i rf with history := s.history ++ msgs.map (.applied i) }

/-- One step of the cluster. -/
def step (s : Cluster n) : Step n → Option (Cluster n)
  | .doElection i => s.stepDoElection i
  | .requestVote c => s.stepRequestVote c
  | .sendRequestVote c => s.stepSendRequestVote c
  | .doHeartBeat i => s.stepDoHeartBeat i
  | .appendEntries1 c => s.stepAppendEntries1 c
  | .sendAppendEntries c => s.stepSendAppendEntries c
  | .leaderSendSnapShot c => s.stepLeaderSendSnapShot c
  | .installSnapshot c => s.stepInstallSnapshot c
  | .leaderSendSnapShotReply c => s.stepLeaderSendSnapShotReply c
  | .start i command => s.stepStart i command
  | .snapshot i index data => s.stepSnapshot i index data
  | .getApplyLogs i => s.stepGetApplyLogs i

end Cluster

end RaftStore
