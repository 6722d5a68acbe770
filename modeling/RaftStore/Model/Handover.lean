import RaftStore.Model.KvServer

namespace RaftStore

/-!
# From a Raft node to its server

One process: a Raft node, its server, and the queue `applyChan` between them.  Two kinds of
threads push to that queue without holding `m_mtx`: `applierTicker`, which has collected its
messages under the lock before, and one detached `pushMsgToKvServer` for each snapshot that
`InstallSnapshot` accepts.

* `Handover` — the node, what `applierTicker` has collected and not yet pushed, the detached
  threads that have not yet pushed, the queue and the server.
* `Handover.step` — the executable step; `none` when the action is not enabled or ends the
  process.

`Handover.cover` and `Handover.pushed` record the index the server's state stands for and the
highest index pushed; no step reads them.
-/

/-- A Raft node, its server and the queue between them. -/
structure Handover (n : ℕ) where
  raft : Raft n
  /-- What `applierTicker` still has to push. -/
  applyMsgs : List ApplyMsg := []
  /-- The `pushMsgToKvServer` threads that have not pushed yet. -/
  detached : List ApplyMsg := []
  applyChan : List ApplyMsg := []
  kv : KvProcess
  cover : Int := 0
  pushed : Int := 0

/-- The steps of the process. -/
inductive HandoverStep
  | appendEntries1 (args : AppendEntriesArgs)
  | installSnapshot (args : InstallSnapshotRequest)
  | snapshot (index : Int) (data : String)
  | getApplyLogs
  | push
  | pushMsgToKvServer (k : ℕ)
  | pop
  /-- A step of the server that takes nothing from the queue. -/
  | kv (a : KvStep)
  deriving DecidableEq, Repr

namespace Handover

variable {n : ℕ}

/-- A process just after its start on empty files. -/
def init (me : Fin n) (maxRaftState : Int) : Handover n where
  raft := Raft.fresh me (Persister.construct {})
  kv := KvProcess.init maxRaftState

/-- The index a message brings the server to. -/
def indexOf (message : ApplyMsg) : Int :=
  if message.commandValid then message.commandIndex else message.snapshotIndex

/-- Push a message. -/
def pushMsg (s : Handover n) (message : ApplyMsg) : Handover n :=
  { s with
    applyChan := s.applyChan ++ [message]
    pushed := max s.pushed (indexOf message) }

/-- `applierTicker` collects, once it has pushed everything it had. -/
def stepGetApplyLogs (s : Handover n) : Option (Handover n) :=
  if s.applyMsgs = [] then
    match s.raft.getApplyLogs with
    | .error _ => none
    | .ok (raft, applyMsgs) => some { s with raft, applyMsgs }
  else none

/-- `applierTicker` pushes its next message. -/
def stepPush (s : Handover n) : Option (Handover n) :=
  match s.applyMsgs with
  | [] => none
  | message :: applyMsgs => some ({ s with applyMsgs }.pushMsg message)

/-- The detached thread `k` pushes its message and ends. -/
def stepPushMsgToKvServer (s : Handover n) (k : ℕ) : Option (Handover n) := do
  let message ← s.detached[k]?
  some ({ s with detached := s.detached.eraseIdx k }.pushMsg message)

/-- The service has applied `index` and calls `Snapshot`. -/
def stepSnapshot [RaftArchive] (s : Handover n) (index : Int) (data : String) :
    Option (Handover n) :=
  if index ≤ s.raft.lastApplied then
    match s.raft.snapshot index data with
    | .error _ => none
    | .ok raft => some { s with raft }
  else none

variable [KvArchive]

/-- `ReadRaftApplyCommandLoop` takes a message; each message is a command or a snapshot. -/
def stepPop (s : Handover n) : Option (Handover n) :=
  match s.applyChan with
  | [] => none
  | message :: applyChan =>
    let s := { s with applyChan }
    if message.commandValid then do
      let kv ← s.kv.stepGetCommandFromRaft message
      if message.commandIndex ≤ s.kv.server.lastSnapShotRaftLogIndex then some { s with kv }
      else some { s with kv, cover := message.commandIndex }
    else if message.snapshotValid then do
      let kv ← s.kv.stepGetSnapShotFromRaft message
      some { s with kv, cover := message.snapshotIndex }
    else some s

/-- A step of the server's threads inside a command. -/
def stepKv (s : Handover n) : KvStep → Option (Handover n)
  | .getCommandFromRaft _ | .getSnapShotFromRaft _ => none
  | a => (s.kv.step a).map fun kv => { s with kv }

variable [RaftArchive]

/-- One step of the process. -/
def step (s : Handover n) : HandoverStep → Option (Handover n)
  | .appendEntries1 args =>
    match s.raft.appendEntries1 args with
    | .error _ => none
    | .ok (raft, _) => some { s with raft }
  | .installSnapshot args =>
    match s.raft.installSnapshot args with
    | .error _ => none
    | .ok (raft, _, message) => some { s with raft, detached := s.detached ++ message.toList }
  | .snapshot index data => s.stepSnapshot index data
  | .getApplyLogs => s.stepGetApplyLogs
  | .push => s.stepPush
  | .pushMsgToKvServer k => s.stepPushMsgToKvServer k
  | .pop => s.stepPop
  | .kv a => s.stepKv a

end Handover

end RaftStore
