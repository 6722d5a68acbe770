import Mathlib.Algebra.Group.Nat.Defs
import Mathlib.Data.Fintype.Basic
import Mathlib.Data.List.FinRange
import Mathlib.Logic.Function.Basic
import RaftStore.Model.Persister

namespace RaftStore

/-!
# One Raft node

Embeds `raft.h` and `raft.cpp`: the state of a node and each handler as a function of that
state.  A handler runs under `m_mtx`, so it is one atomic function; a function that releases
the lock around its RPC (`sendRequestVote`, `sendAppendEntries`, `leaderSendSnapShot`) is cut
there, and the part after the RPC is the definition named `…Reply`.

* `Exec` — a computation that a false `myAssert` ends, as `std::exit` does; an access past the
  end of `m_logs` is the second fault.
* `RaftArchive` — the Boost archive of the persisted record and the protobuf encoding of a log
  entry, which are not part of this repository.
* `Raft n` — the members of the class on a cluster of `n` peers.  `m_nextIndex` and
  `m_matchIndex` get one slot for each peer in `init` and are never resized, hence functions on
  `Fin n`.  The two timers and the RPC stubs are left out: no handler reads them.

Terms and indices are `int` in the source and integers here: the runs are those in which no term
and no index reaches 2³¹, since an `int` that overflows has no defined value.
-/

/-! ### Faults -/

/-- How a handler can end the process or leave defined behaviour. -/
inductive Fault
  | myAssert
  | outOfRange
  deriving DecidableEq, Repr

/-- A handler's result, or the fault that ended it. -/
abbrev Exec (α : Type) := Except Fault α

/-- `myAssert(condition, message)`: a false condition exits the process. -/
def myAssert (condition : Prop) [Decidable condition] : Exec Unit :=
  if condition then .ok () else .error .myAssert

/-! ### Messages -/

/-- `raftRpcProctoc::LogEntry`. -/
structure LogEntry where
  command : String
  logTerm : Int
  logIndex : Int
  deriving DecidableEq, Repr, Inhabited

/-- `AppendEntriesArgs`. -/
structure AppendEntriesArgs where
  term : Int
  leaderId : Int
  prevLogIndex : Int
  prevLogTerm : Int
  entries : List LogEntry
  leaderCommit : Int
  deriving DecidableEq, Repr

/-- `AppendEntriesReply`; a field that is never set reads as 0 or `false`. -/
structure AppendEntriesReply where
  term : Int := 0
  success : Bool := false
  updateNextIndex : Int := 0
  appState : Int := 0
  deriving DecidableEq, Repr

/-- `RequestVoteArgs`. -/
structure RequestVoteArgs where
  term : Int
  candidateId : Int
  lastLogIndex : Int
  lastLogTerm : Int
  deriving DecidableEq, Repr

/-- `RequestVoteReply`. -/
structure RequestVoteReply where
  term : Int := 0
  voteGranted : Bool := false
  voteState : Int := 0
  deriving DecidableEq, Repr

/-- `InstallSnapshotRequest`. -/
structure InstallSnapshotRequest where
  leaderId : Int
  term : Int
  lastSnapShotIncludeIndex : Int
  lastSnapShotIncludeTerm : Int
  data : String
  deriving DecidableEq, Repr

/-- `InstallSnapshotResponse`. -/
structure InstallSnapshotResponse where
  term : Int := 0
  deriving DecidableEq, Repr

/-- `ApplyMsg`, with the defaults of its constructor. -/
structure ApplyMsg where
  commandValid : Bool := false
  command : String := ""
  commandIndex : Int := -1
  snapshotValid : Bool := false
  snapshot : String := ""
  snapshotTerm : Int := -1
  snapshotIndex : Int := -1
  deriving DecidableEq, Repr

/-- `Disconnected` and `AppNormal`. -/
def disconnected : Int := 0
/-- `AppNormal`. -/
def appNormal : Int := 1

/-- `Voted`, `Expire` and `Normal`. -/
def voted : Int := 1
/-- `Expire`. -/
def expire : Int := 2
/-- `Normal`. -/
def normal : Int := 3

/-! ### State -/

/-- `enum Status`. -/
inductive Status
  | follower
  | candidate
  | leader
  deriving DecidableEq, Repr

/-- The record `BoostPersistRaftNode` that is archived, without its unused map. -/
structure BoostPersistRaftNode where
  currentTerm : Int
  votedFor : Int
  lastSnapshotIncludeIndex : Int
  lastSnapshotIncludeTerm : Int
  logs : List String
  deriving DecidableEq, Repr

/-- The encodings a node relies on: `text_oarchive` and `text_iarchive` on the persisted
    record (a `none` stands for the exception the latter throws), and the protobuf encoding of
    one entry. -/
class RaftArchive where
  oarchive : BoostPersistRaftNode → String
  iarchive : String → Option BoostPersistRaftNode
  serializeAsString : LogEntry → String
  parseFromString : String → LogEntry

/-- The encodings round-trip, and an archive starts with a header, so it is not empty. -/
class LawfulRaftArchive [RaftArchive] : Prop where
  iarchive_oarchive : ∀ b, RaftArchive.iarchive (RaftArchive.oarchive b) = some b
  oarchive_ne_empty : ∀ b, RaftArchive.oarchive b ≠ ""
  parse_serialize : ∀ e, RaftArchive.parseFromString (RaftArchive.serializeAsString e) = e

/-- The members of the class `Raft`. -/
structure Raft (n : ℕ) where
  me : Fin n
  currentTerm : Int
  votedFor : Int
  logs : List LogEntry
  commitIndex : Int
  lastApplied : Int
  nextIndex : Fin n → Int
  matchIndex : Fin n → Int
  status : Status
  lastSnapshotIncludeIndex : Int
  lastSnapshotIncludeTerm : Int
  persister : Persister

namespace Raft

variable {n : ℕ}

/-! ### Log positions -/

/-- `getLastLogIndexAndTerm`. -/
def getLastLogIndexAndTerm (rf : Raft n) : Int × Int :=
  match rf.logs.getLast? with
  | none => (rf.lastSnapshotIncludeIndex, rf.lastSnapshotIncludeTerm)
  | some e => (e.logIndex, e.logTerm)

/-- `getLastLogIndex`. -/
def getLastLogIndex (rf : Raft n) : Int := rf.getLastLogIndexAndTerm.1

/-- `getLastLogTerm`. -/
def getLastLogTerm (rf : Raft n) : Int := rf.getLastLogIndexAndTerm.2

/-- `getNewCommandIndex`. -/
def getNewCommandIndex (rf : Raft n) : Int := rf.getLastLogIndex + 1

/-- `getSlicesIndexFromLogIndex`: the position in `m_logs` of a logical index. -/
def getSlicesIndexFromLogIndex (rf : Raft n) (logIndex : Int) : Exec ℕ := do
  myAssert (rf.lastSnapshotIncludeIndex < logIndex)
  myAssert (logIndex ≤ rf.getLastLogIndex)
  return (logIndex - rf.lastSnapshotIncludeIndex - 1).toNat

/-- `m_logs[getSlicesIndexFromLogIndex(logIndex)]`. -/
def logAt (rf : Raft n) (logIndex : Int) : Exec LogEntry := do
  let k ← rf.getSlicesIndexFromLogIndex logIndex
  match rf.logs[k]? with
  | some e => return e
  | none => .error .outOfRange

/-- `getLogTermFromLogIndex`. -/
def getLogTermFromLogIndex (rf : Raft n) (logIndex : Int) : Exec Int := do
  myAssert (rf.lastSnapshotIncludeIndex ≤ logIndex)
  myAssert (logIndex ≤ rf.getLastLogIndex)
  -- the entry at the snapshot point is gone, its term is kept
  if logIndex = rf.lastSnapshotIncludeIndex then
    return rf.lastSnapshotIncludeTerm
  else
    let e ← rf.logAt logIndex
    return e.logTerm

/-- `matchLog`. -/
def matchLog (rf : Raft n) (logIndex logTerm : Int) : Exec Bool := do
  myAssert (rf.lastSnapshotIncludeIndex ≤ logIndex ∧ logIndex ≤ rf.getLastLogIndex)
  let t ← rf.getLogTermFromLogIndex logIndex
  return decide (logTerm = t)

/-- `UpToDate`. -/
def upToDate (rf : Raft n) (index term : Int) : Bool :=
  decide (rf.getLastLogTerm < term ∨ (term = rf.getLastLogTerm ∧ rf.getLastLogIndex ≤ index))

/-- `getPrevLogInfo`. -/
def getPrevLogInfo (rf : Raft n) (server : Fin n) : Exec (Int × Int) := do
  -- the entry before the first one of `m_logs` is the snapshot point
  if rf.nextIndex server = rf.lastSnapshotIncludeIndex + 1 then
    return (rf.lastSnapshotIncludeIndex, rf.lastSnapshotIncludeTerm)
  else
    let preIndex := rf.nextIndex server - 1
    let e ← rf.logAt preIndex
    return (preIndex, e.logTerm)

/-- The peers a loop over `m_peers` talks to: all but the node itself. -/
def otherPeers (rf : Raft n) : List (Fin n) := (List.finRange n).filter (· ≠ rf.me)

/-! ### Persistence -/

section persistence

variable [RaftArchive]

/-- `persistData`. -/
def persistData (rf : Raft n) : String :=
  RaftArchive.oarchive
    { currentTerm := rf.currentTerm
      votedFor := rf.votedFor
      lastSnapshotIncludeIndex := rf.lastSnapshotIncludeIndex
      lastSnapshotIncludeTerm := rf.lastSnapshotIncludeTerm
      logs := rf.logs.map RaftArchive.serializeAsString }

/-- `persist`. -/
def persist (rf : Raft n) : Raft n :=
  { rf with persister := rf.persister.saveRaftState rf.persistData }

/-- `GetRaftStateSize`: the `long long` of the persister is returned as an `int`. -/
def getRaftStateSize (rf : Raft n) : Int := rf.persister.getRaftStateSize.bmod (2 ^ 32)

/-- `m_persister->Save(persistData(), snapshot)`. -/
def saveSnapshot (rf : Raft n) (data : String) : Raft n :=
  { rf with persister := rf.persister.save rf.persistData data }

/-- `readPersist`; `none` stands for the exception of an unreadable archive. -/
def readPersist (rf : Raft n) (data : String) : Option (Raft n) :=
  if data = "" then some rf
  else
    match RaftArchive.iarchive data with
    | none => none
    | some b =>
      some { rf with
        currentTerm := b.currentTerm
        votedFor := b.votedFor
        lastSnapshotIncludeIndex := b.lastSnapshotIncludeIndex
        lastSnapshotIncludeTerm := b.lastSnapshotIncludeTerm
        logs := b.logs.map RaftArchive.parseFromString }

/-- The values `init` gives the members before it reads the persisted state. -/
def fresh (me : Fin n) (persister : Persister) : Raft n :=
  { me
    currentTerm := 0
    votedFor := -1
    logs := []
    commitIndex := 0
    lastApplied := 0
    nextIndex := fun _ => 0
    matchIndex := fun _ => 0
    status := .follower
    lastSnapshotIncludeIndex := 0
    lastSnapshotIncludeTerm := 0
    persister }

/-- `init`, up to the point where the background loops are started. -/
def init (me : Fin n) (persister : Persister) : Option (Raft n) := do
  let rf ← (fresh me persister).readPersist persister.readRaftState
  if 0 < rf.lastSnapshotIncludeIndex then
    return { rf with lastApplied := rf.lastSnapshotIncludeIndex }
  else
    return rf

end persistence

/-- The three assignments on meeting a larger term: follow it and forget the vote. -/
def stepDown (rf : Raft n) (term : Int) : Raft n :=
  { rf with status := .follower, currentTerm := term, votedFor := -1 }

/-- `if (args->term() > m_currentTerm) { … }` around these assignments. -/
def observe (rf : Raft n) (term : Int) : Raft n :=
  if rf.currentTerm < term then rf.stepDown term else rf

/-- Adopt the term of a request from a leader and become its follower. -/
def follow (rf : Raft n) (term : Int) : Raft n :=
  { rf.observe term with status := .follower }

/-! ### Handlers of the receiving side -/

/-- One round of the merge loop of `AppendEntries1`: append the entry, or write it over the
    one that holds its index if the terms differ. -/
def mergeEntry (rf : Raft n) (log : LogEntry) : Exec (Raft n) := do
  if rf.getLastLogIndex < log.logIndex then
    return { rf with logs := rf.logs ++ [log] }
  else
    let k ← rf.getSlicesIndexFromLogIndex log.logIndex
    let cur ← rf.logAt log.logIndex
    -- the same index and term with two commands
    myAssert (¬ (cur.logTerm = log.logTerm ∧ cur.command ≠ log.command))
    -- the entries behind it stay: nothing is truncated
    if cur.logTerm ≠ log.logTerm then
      return { rf with logs := rf.logs.set k log }
    else
      return rf

/-- The merge loop of `AppendEntries1`. -/
def mergeEntries (rf : Raft n) : List LogEntry → Exec (Raft n)
  | [] => .ok rf
  | e :: es => do
    let rf ← rf.mergeEntry e
    rf.mergeEntries es

/-- The back-off loop of `AppendEntries1`, `fuel` rounds from `index` downwards: the index
    after the last one whose term differs from that at `prev`, or `prev`. -/
def backOff (rf : Raft n) (prev : Int) : ℕ → Int → Exec Int
  | 0, _ => .ok prev
  | fuel + 1, index => do
    let t ← rf.getLogTermFromLogIndex index
    let tPrev ← rf.getLogTermFromLogIndex prev
    if t ≠ tPrev then
      return index + 1
    else
      rf.backOff prev fuel (index - 1)

variable [RaftArchive]

/-- The commit step of `AppendEntries1`. -/
def followCommit (rf : Raft n) (leaderCommit : Int) : Raft n :=
  if rf.commitIndex < leaderCommit then
    { rf with commitIndex := min leaderCommit rf.getLastLogIndex }
  else rf

/-- `AppendEntries1` after the term handling: the log is compared, merged or refused. -/
def appendEntriesInTerm (rf : Raft n) (args : AppendEntriesArgs) :
    Exec (Raft n × AppendEntriesReply) :=
  let reply : AppendEntriesReply := { appState := appNormal }
  if rf.getLastLogIndex < args.prevLogIndex then
    .ok (rf.persist,
      { reply with
        success := false
        term := rf.currentTerm
        updateNextIndex := rf.getLastLogIndex + 1 })
  else do
    -- The branch for a `prevLogIndex` below the snapshot has no `return`: it fills in the
    -- refusal and falls through to `matchLog`.
    let reply :=
      if args.prevLogIndex < rf.lastSnapshotIncludeIndex then
        { reply with
          success := false
          term := rf.currentTerm
          updateNextIndex := rf.lastSnapshotIncludeIndex + 1 }
      else reply
    if ← rf.matchLog args.prevLogIndex args.prevLogTerm then
      let rf ← rf.mergeEntries args.entries
      myAssert (args.prevLogIndex + args.entries.length ≤ rf.getLastLogIndex)
      let rf := rf.followCommit args.leaderCommit
      myAssert (rf.commitIndex ≤ rf.getLastLogIndex)
      return (rf.persist, { reply with success := true, term := rf.currentTerm })
    else
      let rounds := (args.prevLogIndex - rf.lastSnapshotIncludeIndex + 1).toNat
      let next ← rf.backOff args.prevLogIndex rounds args.prevLogIndex
      return (rf.persist,
        { reply with updateNextIndex := next, success := false, term := rf.currentTerm })

/-- `AppendEntries1`. -/
def appendEntries1 (rf : Raft n) (args : AppendEntriesArgs) :
    Exec (Raft n × AppendEntriesReply) :=
  if args.term < rf.currentTerm then
    .ok (rf,
      { appState := appNormal
        success := false
        term := rf.currentTerm
        updateNextIndex := -100 })
  else do
    myAssert (args.term = (rf.observe args.term).currentTerm)
    (rf.follow args.term).appendEntriesInTerm args

/-- `RequestVote`. -/
def requestVote (rf : Raft n) (args : RequestVoteArgs) : Exec (Raft n × RequestVoteReply) :=
  if args.term < rf.currentTerm then
    .ok (rf.persist, { term := rf.currentTerm, voteState := expire, voteGranted := false })
  else do
    let rf := rf.observe args.term
    myAssert (args.term = rf.currentTerm)
    if !rf.upToDate args.lastLogIndex args.lastLogTerm then
      return (rf.persist, { term := rf.currentTerm, voteState := voted, voteGranted := false })
    else if rf.votedFor ≠ -1 ∧ rf.votedFor ≠ args.candidateId then
      return (rf.persist, { term := rf.currentTerm, voteState := voted, voteGranted := false })
    else
      let rf := { rf with votedFor := args.candidateId }
      return (rf.persist, { term := rf.currentTerm, voteState := normal, voteGranted := true })

/-- `InstallSnapshot` once the snapshot is accepted: cut the log, move the indices, save. -/
def installAccepted (rf : Raft n) (args : InstallSnapshotRequest) : Exec (Raft n) := do
  let logs ←
    -- entries behind the snapshot stay, whatever their term
    if args.lastSnapShotIncludeIndex < rf.getLastLogIndex then do
      let k ← rf.getSlicesIndexFromLogIndex args.lastSnapShotIncludeIndex
      pure (rf.logs.drop (k + 1))
    else pure []
  let rf := { rf with
    logs
    commitIndex := max rf.commitIndex args.lastSnapShotIncludeIndex
    lastApplied := max rf.lastApplied args.lastSnapShotIncludeIndex
    lastSnapshotIncludeIndex := args.lastSnapShotIncludeIndex
    lastSnapshotIncludeTerm := args.lastSnapShotIncludeTerm }
  return rf.saveSnapshot args.data

/-- `InstallSnapshot`; the third component is the message handed to the detached
    `pushMsgToKvServer` thread. -/
def installSnapshot (rf : Raft n) (args : InstallSnapshotRequest) :
    Exec (Raft n × InstallSnapshotResponse × Option ApplyMsg) :=
  if args.term < rf.currentTerm then
    .ok (rf, { term := rf.currentTerm }, none)
  else
    let rf := if rf.currentTerm < args.term then (rf.stepDown args.term).persist else rf
    let rf := { rf with status := .follower }
    if args.lastSnapShotIncludeIndex ≤ rf.lastSnapshotIncludeIndex then
      .ok (rf, {}, none)
    else do
      let rf ← rf.installAccepted args
      let msg : ApplyMsg :=
        { snapshotValid := true
          snapshot := args.data
          snapshotTerm := args.lastSnapShotIncludeTerm
          snapshotIndex := args.lastSnapShotIncludeIndex }
      return (rf, { term := rf.currentTerm }, some msg)

/-! ### Handlers of the sending side -/

/-- `doElection`: the new state and the requests handed to the `sendRequestVote` threads. -/
def doElection (rf : Raft n) : Raft n × List (Fin n × RequestVoteArgs) :=
  if rf.status = .leader then (rf, [])
  else
    let rf := { rf with
      status := .candidate
      currentTerm := rf.currentTerm + 1
      votedFor := rf.me.val }
    let rf := rf.persist
    (rf, rf.otherPeers.map fun i =>
      (i, { term := rf.currentTerm
            candidateId := rf.me.val
            lastLogIndex := rf.getLastLogIndexAndTerm.1
            lastLogTerm := rf.getLastLogIndexAndTerm.2 }))

omit [RaftArchive] in
/-- The assignments of `sendRequestVote` on a majority. -/
def becomeLeader (rf : Raft n) : Raft n :=
  { rf with
    status := .leader
    nextIndex := fun _ => rf.getLastLogIndex + 1
    matchIndex := fun _ => 0 }

/-- `sendRequestVote` after a successful RPC: the new state and the new `*votedNum`. -/
def sendRequestVoteReply (rf : Raft n) (reply : RequestVoteReply) (votedNum : Int) :
    Exec (Raft n × Int) :=
  if rf.currentTerm < reply.term then .ok ((rf.stepDown reply.term).persist, votedNum)
  else if reply.term < rf.currentTerm then .ok (rf, votedNum)
  else do
    myAssert (reply.term = rf.currentTerm)
    if !reply.voteGranted then
      return (rf, votedNum)
    else
      -- the counter is that of the round the call belongs to, in whatever term it was built
      let votedNum := votedNum + 1
      if (n / 2 + 1 : ℕ) ≤ votedNum then
        if rf.status = .leader then myAssert False
        -- the counter starts again, so that the same round does not elect twice
        return (rf.becomeLeader.persist, 0)
      else
        return (rf, votedNum)

/-- What `doHeartBeat` starts a thread for: a snapshot, or entries. -/
inductive HeartBeat
  | snapshot
  | append (args : AppendEntriesArgs)
  deriving DecidableEq, Repr

/-- The round of `doHeartBeat` for one peer. -/
def heartBeatTo (rf : Raft n) (i : Fin n) : Exec HeartBeat := do
  myAssert (1 ≤ rf.nextIndex i)
  if rf.nextIndex i ≤ rf.lastSnapshotIncludeIndex then
    return .snapshot
  else
    let (preLogIndex, prevLogTerm) ← rf.getPrevLogInfo i
    let entries ←
      -- always up to the end of the log
      if preLogIndex ≠ rf.lastSnapshotIncludeIndex then do
        let k ← rf.getSlicesIndexFromLogIndex preLogIndex
        pure (rf.logs.drop (k + 1))
      else pure rf.logs
    myAssert (preLogIndex + entries.length = rf.getLastLogIndex)
    return .append
      { term := rf.currentTerm
        leaderId := rf.me.val
        prevLogIndex := preLogIndex
        prevLogTerm := prevLogTerm
        entries
        leaderCommit := rf.commitIndex }

/-- `doHeartBeat`: the calls handed to the `leaderSendSnapShot` and `sendAppendEntries`
    threads.  The state does not change. -/
def doHeartBeat (rf : Raft n) : Exec (List (Fin n × HeartBeat)) :=
  if rf.status = .leader then
    rf.otherPeers.mapM fun i => do return (i, ← rf.heartBeatTo i)
  else .ok []

omit [RaftArchive] in
/-- The progress bookkeeping of `sendAppendEntries` on a success. -/
def recordMatch (rf : Raft n) (server : Fin n) (index : Int) : Raft n :=
  let matched := max (rf.matchIndex server) index
  { rf with
    matchIndex := Function.update rf.matchIndex server matched
    nextIndex := Function.update rf.nextIndex server (matched + 1) }

omit [RaftArchive] in
/-- The commit step of `sendAppendEntries` on a majority: only if the last entry sent is of
    the current term. -/
def commitRound (rf : Raft n) (args : AppendEntriesArgs) : Raft n :=
  if args.entries.getLast?.map LogEntry.logTerm = some rf.currentTerm then
    { rf with commitIndex := max rf.commitIndex (args.prevLogIndex + args.entries.length) }
  else rf

omit [RaftArchive] in
/-- The inner loop of `leaderUpdateCommitIndex`: the number of nodes that hold `index`. -/
def holders (rf : Raft n) (index : Int) : ℕ :=
  (List.finRange n).countP fun i => decide (i = rf.me ∨ index ≤ rf.matchIndex i)

omit [RaftArchive] in
/-- The outer loop of `leaderUpdateCommitIndex`, from `fuel` entries above
    `m_lastSnapshotIncludeIndex` down. -/
def updateCommitLoop (rf : Raft n) : ℕ → Exec (Raft n)
  | 0 => .ok rf
  | fuel + 1 => do
    -- from the last index downwards, so the first hit is the largest
    let index := rf.lastSnapshotIncludeIndex + (fuel + 1)
    if n / 2 + 1 ≤ rf.holders index then
      let term ← rf.getLogTermFromLogIndex index
      if term = rf.currentTerm then return { rf with commitIndex := index }
      else rf.updateCommitLoop fuel
    else rf.updateCommitLoop fuel

omit [RaftArchive] in
/-- `leaderUpdateCommitIndex`. -/
def leaderUpdateCommitIndex (rf : Raft n) : Exec (Raft n) :=
  -- the index is reset before the search
  let rf := { rf with commitIndex := rf.lastSnapshotIncludeIndex }
  rf.updateCommitLoop (rf.getLastLogIndex - rf.lastSnapshotIncludeIndex).toNat

/-- `sendAppendEntries` after a successful RPC: the new state and the new `*appendNums`. -/
def sendAppendEntriesReply (rf : Raft n) (server : Fin n) (args : AppendEntriesArgs)
    (reply : AppendEntriesReply) (appendNums : Int) : Exec (Raft n × Int) :=
  if reply.appState = disconnected then .ok (rf, appendNums)
  else if rf.currentTerm < reply.term then .ok ((rf.stepDown reply.term).persist, appendNums)
  else if reply.term < rf.currentTerm then .ok (rf, appendNums)
  else if rf.status ≠ .leader then .ok (rf, appendNums)
  else do
    myAssert (reply.term = rf.currentTerm)
    if !reply.success then
      -- -100 is what a stale request is answered with
      if reply.updateNextIndex ≠ -100 then
        return ({ rf with
          nextIndex := Function.update rf.nextIndex server reply.updateNextIndex }, appendNums)
      else
        return (rf, appendNums)
    else
      -- from here on a success
      let appendNums := appendNums + 1
      let rf := rf.recordMatch server (args.prevLogIndex + args.entries.length)
      let lastLogIndex := rf.getLastLogIndex
      myAssert (rf.nextIndex server ≤ lastLogIndex + 1)
      if (1 + n / 2 : ℕ) ≤ appendNums then
        let rf := rf.commitRound args
        myAssert (rf.commitIndex ≤ lastLogIndex)
        return (rf, 0)
      else
        return (rf, appendNums)

/-- `leaderSendSnapShot` up to its RPC: the request, built under the lock.  Reading the
    snapshot changes the persister. -/
def leaderSendSnapShot (rf : Raft n) : Raft n × InstallSnapshotRequest :=
  ({ rf with persister := rf.persister.readSnapshot.2 },
    { leaderId := rf.me.val
      term := rf.currentTerm
      lastSnapShotIncludeIndex := rf.lastSnapshotIncludeIndex
      lastSnapShotIncludeTerm := rf.lastSnapshotIncludeTerm
      data := rf.persister.readSnapshot.1 })

/-- `leaderSendSnapShot` after a successful RPC. -/
def leaderSendSnapShotReply (rf : Raft n) (server : Fin n) (args : InstallSnapshotRequest)
    (reply : InstallSnapshotResponse) : Raft n :=
  if rf.status ≠ .leader ∨ rf.currentTerm ≠ args.term then rf
  else if rf.currentTerm < reply.term then (rf.stepDown reply.term).persist
  else
    { rf with
      -- assigned, not the maximum that `sendAppendEntries` takes
      matchIndex := Function.update rf.matchIndex server args.lastSnapShotIncludeIndex
      nextIndex := Function.update rf.nextIndex server (args.lastSnapShotIncludeIndex + 1) }

/-! ### Handlers called by the service -/

/-- `Start`: the new state, `*newLogIndex`, `*newLogTerm` and `*isLeader`. -/
def start (rf : Raft n) (command : String) : Raft n × Int × Int × Bool :=
  if rf.status ≠ .leader then (rf, -1, -1, false)
  else
    let newLogEntry : LogEntry :=
      { command, logTerm := rf.currentTerm, logIndex := rf.getNewCommandIndex }
    let rf := { rf with logs := rf.logs ++ [newLogEntry] }
    (rf.persist, newLogEntry.logIndex, newLogEntry.logTerm, true)

/-- `Snapshot`. -/
def snapshot (rf : Raft n) (index : Int) (data : String) : Exec (Raft n) :=
  if index ≤ rf.lastSnapshotIncludeIndex ∨ rf.commitIndex < index then .ok rf
  else do
    let lastLogIndex := rf.getLastLogIndex
    let e ← rf.logAt index
    -- one `getSlicesIndexFromLogIndex` for each entry that stays
    let trunckedLogs ←
      (List.range (lastLogIndex - index).toNat).mapM fun (k : ℕ) => rf.logAt (index + 1 + k)
    let rf := { rf with
      lastSnapshotIncludeIndex := index
      lastSnapshotIncludeTerm := e.logTerm
      logs := trunckedLogs
      commitIndex := max rf.commitIndex index
      lastApplied := max rf.lastApplied index }
    let rf := rf.saveSnapshot data
    myAssert (rf.logs.length + rf.lastSnapshotIncludeIndex = lastLogIndex)
    return rf

omit [RaftArchive] in
/-- The loop of `getApplyLogs`, `fuel` rounds of it. -/
def applyLoop : ℕ → Raft n → Exec (Raft n × List ApplyMsg)
  | 0, rf => .ok (rf, [])
  | fuel + 1, rf => do
    let rf := { rf with lastApplied := rf.lastApplied + 1 }
    let e ← rf.logAt rf.lastApplied
    myAssert (e.logIndex = rf.lastApplied)
    let applyMsg : ApplyMsg :=
      { commandValid := true
        snapshotValid := false
        command := e.command
        commandIndex := rf.lastApplied }
    let (rf, applyMsgs) ← applyLoop fuel rf
    return (rf, applyMsg :: applyMsgs)

omit [RaftArchive] in
/-- `getApplyLogs`: the new state and the messages for the service. -/
def getApplyLogs (rf : Raft n) : Exec (Raft n × List ApplyMsg) := do
  myAssert (rf.commitIndex ≤ rf.getLastLogIndex)
  applyLoop (rf.commitIndex - rf.lastApplied).toNat rf

end Raft

end RaftStore
