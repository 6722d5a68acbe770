import Mathlib.Data.Finmap
import RaftStore.Model.Raft
import RaftStore.Model.SkipList

namespace RaftStore

/-!
# The key-value server

Embeds `kvServer.h` and `kvServer.cpp`: the state of a `KvServer`, the functions that run under
`m_mtx`, and the threads that call them.  `GetCommandFromRaft`, `Get` and `PutAppend` take and
release the lock several times; each is cut at these places into the steps of a thread with a
program counter.

* `KvArchive` — the Boost archives of an `Op`, of a `SkipListDump` and of the server.
* `KvServer` — the members; an unordered map is a `Finmap`, and a `LockQueue` that
  `waitApplyCh` points to lives in `channels` at its address.
* `ApplyThread`, `Handler` — where the apply thread and the RPC handlers stand.
* `KvProcess.step` — one step of one of these threads; what `Start` and `GetState` answer, when
  a wait times out and the size of the raft state are parameters of the steps.

`KvProcess.commands`, `KvProcess.executions` and `KvProcess.snapshots` record what was passed to
`GetCommandFromRaft`, which `Put` and `Append` ran and what was passed to `Raft::Snapshot`; no
step reads them.
-/

/-- `Op`, with the integer 0 where the source leaves `RequestId` uninitialised. -/
structure Op where
  operation : String := ""
  key : String := ""
  value : String := ""
  clientId : String := ""
  requestId : Int := 0
  deriving DecidableEq, Repr

/-- The fields `KvServer::serialize` archives. -/
structure KvRecord where
  serializedKVData : String
  lastRequestId : Finmap fun _ : String => Int

/-- The Boost archives the server relies on; `none` stands for the exception of an unreadable
    archive. -/
class KvArchive where
  asString : Op → String
  opOfString : String → Option Op
  dumpAsString : SkipListDump String String → String
  dumpOfString : String → Option (SkipListDump String String)
  recordAsString : KvRecord → String
  recordOfString : String → Option KvRecord

/-- The reply of a handler; `PutAppendReply` has no `value`. -/
structure KvReply where
  err : String
  value : String := ""
  deriving DecidableEq, Repr

/-- The archives round-trip, and none is empty. -/
class LawfulKvArchive [KvArchive] : Prop where
  op_asString : ∀ op, KvArchive.opOfString (KvArchive.asString op) = some op
  dump_asString : ∀ d, KvArchive.dumpOfString (KvArchive.dumpAsString d) = some d
  dump_ne_empty : ∀ d, KvArchive.dumpAsString d ≠ ""
  record_asString : ∀ r, KvArchive.recordOfString (KvArchive.recordAsString r) = some r
  record_ne_empty : ∀ r, KvArchive.recordAsString r ≠ ""

/-- The members of the class `KvServer`. -/
structure KvServer where
  maxRaftState : Int
  skipList : SkipList String String := {}
  /-- The address of the queue of each waited-for index. -/
  waitApplyCh : Finmap fun _ : Int => ℕ := ∅
  /-- The queues by address; `none` once deleted. -/
  channels : List (Option (List Op)) := []
  lastRequestId : Finmap fun _ : String => Int := ∅
  lastSnapShotRaftLogIndex : Int := 0

namespace KvServer

/-- `OK`, `ErrNoKey` and `ErrWrongLeader`. -/
def ok : String := "OK"
/-- `ErrNoKey`. -/
def errNoKey : String := "ErrNoKey"
/-- `ErrWrongLeader`. -/
def errWrongLeader : String := "ErrWrongLeader"

/-! ### Functions under the lock -/

/-- `ExecuteAppendOpOnKVDB`. -/
def executeAppendOpOnKVDB (s : KvServer) (op : Op) : KvServer :=
  { s with
    -- the value is replaced, as for `Put`: the concatenation is commented out
    skipList := s.skipList.insertSetElement op.key op.value
    lastRequestId := s.lastRequestId.insert op.clientId op.requestId }

/-- `ExecutePutOpOnKVDB`. -/
def executePutOpOnKVDB (s : KvServer) (op : Op) : KvServer :=
  { s with
    skipList := s.skipList.insertSetElement op.key op.value
    lastRequestId := s.lastRequestId.insert op.clientId op.requestId }

/-- `ExecuteGetOpOnKVDB`: the new state, and `*value` where `*exist` is set. -/
def executeGetOpOnKVDB (s : KvServer) (op : Op) : KvServer × Option String :=
  ({ s with lastRequestId := s.lastRequestId.insert op.clientId op.requestId },
    s.skipList.searchElement op.key)

/-- The reply of a `Get` that has read the state machine. -/
def getReply (value : Option String) : KvReply :=
  match value with
  | some value => { err := ok, value }
  | none => { err := errNoKey, value := "" }

/-- `ifRequestDuplicate`. -/
def ifRequestDuplicate (s : KvServer) (clientId : String) (requestId : Int) : Bool :=
  match s.lastRequestId.lookup clientId with
  -- a client that is not in the table has made no request
  | none => false
  | some last => decide (requestId ≤ last)

/-- The two tests of `GetCommandFromRaft` on `op.Operation`. -/
def executeOp (s : KvServer) (op : Op) : KvServer :=
  let s := if op.operation = "Put" then s.executePutOpOnKVDB op else s
  if op.operation = "Append" then s.executeAppendOpOnKVDB op else s

/-- `SendMessageToWaitChan`. -/
def sendMessageToWaitChan (s : KvServer) (op : Op) (raftIndex : Int) : KvServer :=
  match s.waitApplyCh.lookup raftIndex with
  | none => s
  | some ch => { s with channels := s.channels.modify ch (Option.map (· ++ [op])) }

/-- The insertion into `waitApplyCh` that `Get` and `PutAppend` begin with: the new state and the
    queue to wait on. -/
def openWaitChan (s : KvServer) (raftIndex : Int) : KvServer × ℕ :=
  match s.waitApplyCh.lookup raftIndex with
  | some ch => (s, ch)
  | none =>
    ({ s with
        waitApplyCh := s.waitApplyCh.insert raftIndex s.channels.length
        channels := s.channels ++ [some []] },
      s.channels.length)

/-- The erasure from `waitApplyCh` that `Get` and `PutAppend` end with; deleting the null pointer
    that `operator[]` makes for a missing index does nothing. -/
def closeWaitChan (s : KvServer) (raftIndex : Int) : KvServer :=
  match s.waitApplyCh.lookup raftIndex with
  -- the queue is deleted even if another handler waits on it
  | some ch =>
    { s with
      waitApplyCh := s.waitApplyCh.erase raftIndex
      channels := s.channels.set ch none }
  | none => s

variable [KvArchive]

/-- `MakeSnapShot`. -/
def makeSnapShot (s : KvServer) : String :=
  KvArchive.recordAsString
    { serializedKVData := KvArchive.dumpAsString s.skipList.dumpFile
      lastRequestId := s.lastRequestId }

/-- `IfNeedToSendSnapShotCommand`: the snapshot handed to `Raft::Snapshot`, if there is one. -/
def ifNeedToSendSnapShotCommand (s : KvServer) (raftStateSize : Int) : Option String :=
  if s.maxRaftState < 10 * raftStateSize then some s.makeSnapShot else none

/-- `SkipList::load_file` on an encoded dump. -/
def loadSkipList (l : SkipList String String) (dumpStr : String) :
    Option (SkipList String String) :=
  if dumpStr = "" then some l
  else (KvArchive.dumpOfString dumpStr).map l.loadFile

/-- `KvServer::parseFromString`. -/
def parseFromString (s : KvServer) (str : String) : Option KvServer := do
  let record ← KvArchive.recordOfString str
  let skipList ← loadSkipList s.skipList record.serializedKVData
  return { s with skipList, lastRequestId := record.lastRequestId }

/-- `ReadSnapShotToInstall`. -/
def readSnapShotToInstall (s : KvServer) (snapshot : String) : Option KvServer :=
  if snapshot = "" then some s else s.parseFromString snapshot

/-- `Raft::CondInstallSnapshot`. -/
def condInstallSnapshot (_lastIncludedTerm _lastIncludedIndex : Int) (_snapshot : String) : Bool :=
  true

/-- `GetSnapShotFromRaft`. -/
def getSnapShotFromRaft (s : KvServer) (message : ApplyMsg) : Option KvServer :=
  if condInstallSnapshot message.snapshotTerm message.snapshotIndex message.snapshot then
    (s.readSnapShotToInstall message.snapshot).map fun s =>
      { s with lastSnapShotRaftLogIndex := message.snapshotIndex }
  else some s

end KvServer

/-! ### Threads -/

/-- Where the thread of `ReadRaftApplyCommandLoop` stands inside `GetCommandFromRaft`. -/
inductive ApplyThread
  | idle
  /-- Before the call of `ifRequestDuplicate`. -/
  | received (op : Op) (index : Int)
  /-- The request is no duplicate; before the tests on the operation. -/
  | executing (op : Op) (index : Int)
  /-- Before the size test. -/
  | executed (op : Op) (index : Int)
  /-- Before `SendMessageToWaitChan`. -/
  | notifying (op : Op) (index : Int)
  deriving DecidableEq, Repr

/-- Where a `Get` or `PutAppend` handler stands after `Start` has returned with `isLeader`. -/
inductive HandlerPc
  /-- Before the insertion into `waitApplyCh`. -/
  | started
  /-- In `timeOutPop` on a queue. -/
  | waiting (ch : ℕ)
  /-- After a timeout and, in `Get`, `GetState`; before `ifRequestDuplicate`. -/
  | timedOut (isLeader : Bool)
  /-- Before `ExecuteGetOpOnKVDB`. -/
  | executing
  /-- Before the erasure from `waitApplyCh`. -/
  | answered
  | returned
  deriving DecidableEq, Repr

/-- A handler. -/
structure Handler where
  isGet : Bool
  op : Op
  raftIndex : Int
  pc : HandlerPc
  reply : Option KvReply := none
  deriving DecidableEq, Repr

namespace Handler

/-- A handler after `Start`; without `isLeader` it answers at once. -/
def begin (isGet : Bool) (op : Op) (raftIndex : Int) (isLeader : Bool) : Handler :=
  if isLeader then { isGet, op, raftIndex, pc := .started }
  else { isGet, op, raftIndex, pc := .returned, reply := some { err := KvServer.errWrongLeader } }

/-- What a handler does with an operation taken from its queue: it compares, then answers or, in
    `Get`, goes on to read the state machine. -/
def popped (handler : Handler) (raftCommitOp : Op) : Handler :=
  if raftCommitOp.clientId = handler.op.clientId ∧
      raftCommitOp.requestId = handler.op.requestId then
    if handler.isGet then { handler with pc := .executing }
    else { handler with pc := .answered, reply := some { err := KvServer.ok } }
  -- another request was committed at the index that was waited for
  else { handler with pc := .answered, reply := some { err := KvServer.errWrongLeader } }

/-- What a handler does after a timeout, given the answer of `ifRequestDuplicate`.  In `PutAppend`
    `DPrintf` comes first and is given the `int` `RequestId` for a `%s`, which is undefined: a
    process that dies of it is one that makes no more steps, and one that survives goes on as
    here. -/
def afterTimeOut (handler : Handler) (isLeader duplicate : Bool) : Handler :=
  if handler.isGet then
    if duplicate && isLeader then { handler with pc := .executing }
    else { handler with pc := .answered, reply := some { err := KvServer.errWrongLeader } }
  else
    { handler with
      pc := .answered
      reply := some { err := if duplicate then KvServer.ok else KvServer.errWrongLeader } }

end Handler

/-- The server process: its state, its threads and what they have done. -/
structure KvProcess where
  server : KvServer
  applyThread : ApplyThread := .idle
  handlers : List Handler := []
  commands : List ApplyMsg := []
  executions : List Op := []
  snapshots : List (Int × String) := []

/-- The steps of a server process; a handler is named by its position in the list. -/
inductive KvStep
  | getCommandFromRaft (message : ApplyMsg)
  | getSnapShotFromRaft (message : ApplyMsg)
  | ifRequestDuplicate
  | executeOp
  | ifNeedToSendSnapShotCommand (raftStateSize : Int)
  | sendMessageToWaitChan
  | get (key clientId : String) (requestId raftIndex : Int) (isLeader : Bool)
  | putAppend (operation key value clientId : String) (requestId raftIndex : Int)
      (isLeader : Bool)
  | openWaitChan (h : ℕ)
  | timeOutPop (h : ℕ)
  | timeOut (h : ℕ) (isLeader : Bool)
  | answerTimedOut (h : ℕ)
  | executeGet (h : ℕ)
  | closeWaitChan (h : ℕ)
  deriving DecidableEq, Repr

namespace KvProcess

/-- A server process just after its constructor, which finds an empty snapshot file. -/
def init (maxRaftState : Int) : KvProcess where
  server := { maxRaftState }

/-- Replace handler `h`. -/
def setHandler (s : KvProcess) (h : ℕ) (handler : Handler) : KvProcess :=
  { s with handlers := s.handlers.set h handler }

/-- Handler `h` inserts its queue. -/
def stepOpenWaitChan (s : KvProcess) (h : ℕ) : Option KvProcess := do
  let handler ← s.handlers[h]?
  if handler.pc = .started then
    let (server, ch) := s.server.openWaitChan handler.raftIndex
    some { s.setHandler h { handler with pc := .waiting ch } with server }
  else none

/-- Handler `h` takes an operation from its queue. -/
def stepTimeOutPop (s : KvProcess) (h : ℕ) : Option KvProcess := do
  let handler ← s.handlers[h]?
  match handler.pc with
  | .waiting ch =>
    match s.server.channels[ch]? with
    | some (some (raftCommitOp :: rest)) =>
      some { s.setHandler h (handler.popped raftCommitOp) with
        server := { s.server with channels := s.server.channels.set ch (some rest) } }
    | _ => none
  | _ => none

/-- The wait of handler `h` times out; this can happen although an operation was pushed since. -/
def stepTimeOut (s : KvProcess) (h : ℕ) (isLeader : Bool) : Option KvProcess := do
  let handler ← s.handlers[h]?
  match handler.pc with
  | .waiting _ => some (s.setHandler h { handler with pc := .timedOut isLeader })
  | _ => none

/-- Handler `h` calls `ifRequestDuplicate` after its timeout. -/
def stepAnswerTimedOut (s : KvProcess) (h : ℕ) : Option KvProcess := do
  let handler ← s.handlers[h]?
  match handler.pc with
  | .timedOut isLeader =>
    let duplicate := s.server.ifRequestDuplicate handler.op.clientId handler.op.requestId
    some (s.setHandler h (handler.afterTimeOut isLeader duplicate))
  | _ => none

/-- Handler `h` calls `ExecuteGetOpOnKVDB`. -/
def stepExecuteGet (s : KvProcess) (h : ℕ) : Option KvProcess := do
  let handler ← s.handlers[h]?
  if handler.pc = .executing then
    let (server, value) := s.server.executeGetOpOnKVDB handler.op
    some { s.setHandler h
        { handler with pc := .answered, reply := some (KvServer.getReply value) } with server }
  else none

/-- Handler `h` erases its queue and returns. -/
def stepCloseWaitChan (s : KvProcess) (h : ℕ) : Option KvProcess := do
  let handler ← s.handlers[h]?
  if handler.pc = .answered then
    some { s.setHandler h { handler with pc := .returned } with
      server := s.server.closeWaitChan handler.raftIndex }
  else none

variable [KvArchive]

/-- `GetCommandFromRaft` up to the test on the index. -/
def stepGetCommandFromRaft (s : KvProcess) (message : ApplyMsg) : Option KvProcess := do
  if s.applyThread ≠ .idle then none
  let op ← KvArchive.opOfString message.command
  let s := { s with commands := s.commands ++ [message] }
  -- covered by the snapshot: skipped without an answer to anybody
  if message.commandIndex ≤ s.server.lastSnapShotRaftLogIndex then some s
  else some { s with applyThread := .received op message.commandIndex }

/-- `GetSnapShotFromRaft`. -/
def stepGetSnapShotFromRaft (s : KvProcess) (message : ApplyMsg) : Option KvProcess := do
  if s.applyThread ≠ .idle then none
  let server ← s.server.getSnapShotFromRaft message
  some { s with server }

omit [KvArchive] in
/-- The call of `ifRequestDuplicate` in `GetCommandFromRaft`. -/
def stepIfRequestDuplicate (s : KvProcess) : Option KvProcess :=
  match s.applyThread with
  | .received op index =>
    if s.server.ifRequestDuplicate op.clientId op.requestId then
      -- a duplicate goes on to the size test, and its waiting handler is answered
      some { s with applyThread := .executed op index }
    else some { s with applyThread := .executing op index }
  | _ => none

omit [KvArchive] in
/-- The call of `ExecutePutOpOnKVDB` or `ExecuteAppendOpOnKVDB`, if there is one. -/
def stepExecuteOp (s : KvProcess) : Option KvProcess :=
  match s.applyThread with
  | .executing op index =>
    some { s with
      server := s.server.executeOp op
      applyThread := .executed op index
      executions := s.executions ++
        if op.operation = "Put" ∨ op.operation = "Append" then [op] else [] }
  | _ => none

/-- The size test and what follows from it; making a snapshot leaves the server as it is. -/
def stepIfNeedToSendSnapShotCommand (s : KvProcess) (raftStateSize : Int) : Option KvProcess :=
  match s.applyThread with
  | .executed op index =>
    let snapshot :=
      if s.server.maxRaftState ≠ -1 then s.server.ifNeedToSendSnapShotCommand raftStateSize
      else none
    some { s with
      applyThread := .notifying op index
      snapshots := s.snapshots ++ snapshot.toList.map (index, ·) }
  | _ => none

omit [KvArchive] in
/-- The call of `SendMessageToWaitChan`, which ends `GetCommandFromRaft`. -/
def stepSendMessageToWaitChan (s : KvProcess) : Option KvProcess :=
  match s.applyThread with
  | .notifying op index =>
    some { s with server := s.server.sendMessageToWaitChan op index, applyThread := .idle }
  | _ => none

/-- One step of the process. -/
def step (s : KvProcess) : KvStep → Option KvProcess
  | .getCommandFromRaft message => s.stepGetCommandFromRaft message
  | .getSnapShotFromRaft message => s.stepGetSnapShotFromRaft message
  | .ifRequestDuplicate => s.stepIfRequestDuplicate
  | .executeOp => s.stepExecuteOp
  | .ifNeedToSendSnapShotCommand size => s.stepIfNeedToSendSnapShotCommand size
  | .sendMessageToWaitChan => s.stepSendMessageToWaitChan
  | .get key clientId requestId raftIndex isLeader =>
    some { s with
      handlers := s.handlers ++
        [.begin true { operation := "Get", key, value := "", clientId, requestId } raftIndex
          isLeader] }
  | .putAppend operation key value clientId requestId raftIndex isLeader =>
    some { s with
      handlers := s.handlers ++
        [.begin false { operation, key, value, clientId, requestId } raftIndex isLeader] }
  | .openWaitChan h => s.stepOpenWaitChan h
  | .timeOutPop h => s.stepTimeOutPop h
  | .timeOut h isLeader => s.stepTimeOut h isLeader
  | .answerTimedOut h => s.stepAnswerTimedOut h
  | .executeGet h => s.stepExecuteGet h
  | .closeWaitChan h => s.stepCloseWaitChan h

end KvProcess

end RaftStore
