import RaftStore.Model.Cluster
import RaftStore.Model.Tickers

namespace RaftStore

/-!
# A cluster with its timers

The cluster with the two tickers of each node and one clock, which `boot` sets the monotonic clocks
apart from.  `doElection` is called by a ticker; `doHeartBeat` is called by a ticker, or by the
thread that `sendRequestVote` starts.

* `Cluster.electionReset`, `Cluster.heartBeatReset` — the node whose handler assigns the time to
  `m_lastResetElectionTime` or `m_lastResetHearBeatTime`.
* `TimedCluster.step` — the executable step.

`appendSent` and `snapSent` record when each call was started, for conditions on runs; no step
reads them.
-/

namespace Cluster

variable {n : ℕ} [RaftArchive]

/-- The assignments to `m_lastResetElectionTime`. -/
def electionReset (s : Cluster n) : Step n → Option (Fin n)
  | .doElection i => if (s.nodes i).status = .leader then none else some i
  | .requestVote c => do
    let call ← s.voteCalls[c]?
    match (s.nodes call.server).requestVote call.args with
    | .error _ => none
    | .ok (_, reply) => if reply.voteGranted then some call.server else none
  | .appendEntries1 c => do
    let call ← s.appendCalls[c]?
    if call.args.term < (s.nodes call.server).currentTerm then none else some call.server
  | .installSnapshot c => do
    let call ← s.snapCalls[c]?
    let args ← call.args
    if args.term < (s.nodes call.server).currentTerm then none else some call.server
  | .leaderSendSnapShotReply c => do
    let call ← s.snapCalls[c]?
    let args ← call.args
    let reply ← call.reply
    let rf := s.nodes call.caller
    if rf.status ≠ .leader ∨ rf.currentTerm ≠ args.term then none
    else if rf.currentTerm < reply.term then some call.caller
    else none
  | _ => none

omit [RaftArchive] in
/-- The assignments to `m_lastResetHearBeatTime`. -/
def heartBeatReset (s : Cluster n) : Step n → Option (Fin n)
  | .doHeartBeat i => if (s.nodes i).status = .leader then some i else none
  | _ => none

end Cluster

/-- The cluster with its clock and its tickers. -/
structure TimedCluster (n : ℕ) where
  cluster : Cluster n
  now : ℕ
  election : Fin n → Ticker
  heartBeat : Fin n → Ticker
  appendSent : List ℕ
  snapSent : List ℕ

/-- The actions. -/
inductive TimedStep (n : ℕ)
  | tick (ns : ℕ)
  | electionTimeOutTicker (i : Fin n) (move : TickerMove)
  | leaderHearBeatTicker (i : Fin n) (move : TickerMove)
  | run (a : Step n)
  deriving DecidableEq, Repr

namespace TimedCluster

variable {n : ℕ}

/-- All nodes just after `init`. -/
def init (n now : ℕ) : TimedCluster n where
  cluster := Cluster.init n
  now
  election := fun _ => { lastReset := now }
  heartBeat := fun _ => { lastReset := now }
  appendSent := []
  snapSent := []

/-- One of the nodes assigns the time. -/
def resetAt (tickers : Fin n → Ticker) (now : ℕ) : Option (Fin n) → Fin n → Ticker
  | none => tickers
  | some i => Function.update tickers i ((tickers i).reset now)

variable [RaftArchive]

/-- A handler runs. -/
def runHandler (s : TimedCluster n) (a : Step n) : Option (TimedCluster n) := do
  let cluster ← s.cluster.step a
  return { s with
    cluster
    election := resetAt s.election s.now (s.cluster.electionReset a)
    heartBeat := resetAt s.heartBeat s.now (s.cluster.heartBeatReset a)
    appendSent := s.appendSent ++
      List.replicate (cluster.appendCalls.length - s.appendSent.length) s.now
    snapSent := s.snapSent ++
      List.replicate (cluster.snapCalls.length - s.snapSent.length) s.now }

/-- A fiber calls the handler at the end of a turn of its loop. -/
def endTurn (s : TimedCluster n) (move : TickerMove) (a : Step n) : Option (TimedCluster n) :=
  if move = .fire then s.runHandler a else some s

/-- One step. -/
def step (boot : Fin n → ℕ) (s : TimedCluster n) : TimedStep n → Option (TimedCluster n)
  | .tick ns => some { s with now := s.now + ns }
  | .electionTimeOutTicker i move =>
    if s.cluster.exited i then none
    else do
      let ticker ← (s.election i).step electionTimeOutTicker (boot i) s.now
        (s.cluster.nodes i).status move
      let s ← s.endTurn move (.doElection i)
      return { s with election := Function.update s.election i ticker }
  | .leaderHearBeatTicker i move =>
    if s.cluster.exited i then none
    else do
      let ticker ← (s.heartBeat i).step leaderHearBeatTicker (boot i) s.now
        (s.cluster.nodes i).status move
      let s ← s.endTurn move (.doHeartBeat i)
      return { s with heartBeat := Function.update s.heartBeat i ticker }
  | .run (.doElection _) => none
  | .run a => s.runHandler a

end TimedCluster

end RaftStore
