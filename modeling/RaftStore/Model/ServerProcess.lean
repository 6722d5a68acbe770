import RaftStore.Model.Clerk
import RaftStore.Node.Durability

namespace RaftStore

/-!
# A node and its server, with the calls of `Start` between them

One process in which the handlers of RPC requests ask the node for a log index: `Get` and
`PutAppend` begin with `m_raftNode->Start`, and wait for the index that it returns.

* `ServerProcess` — the node and the server process.
* `ServerProcess.step` — one step of either; the messages that the apply thread is handed, the
  sizes it is told and what `GetState` answers are parameters.

`ServerProcess.issued` records the indices that `Start` has returned with `isLeader`; no step reads
it.
-/

/-- A Raft node and its server. -/
structure ServerProcess (n : ℕ) where
  raft : Raft n
  kv : KvProcess
  issued : List Int := []

/-- The steps of the process. -/
inductive ProcessStep (n : ℕ)
  /-- A call of the node that comes from elsewhere than a handler of the server. -/
  | raft (call : NodeCall n)
  /-- A request arrives: the operation is made and passed to `Start`. -/
  | serve (args : KvArgs)
  /-- Any other step of the server. -/
  | kv (a : KvStep)

/-- The step begins a handler. -/
def KvStep.begins : KvStep → Bool
  | .get _ _ _ _ _ => true
  | .putAppend _ _ _ _ _ _ _ => true
  | _ => false

namespace ServerProcess

variable {n : ℕ} [RaftArchive] [KvArchive]

omit [KvArchive] in
/-- What `Start` returns with `isLeader`. -/
def startIndices (rf : Raft n) (command : String) : List Int :=
  let (_, newLogIndex, _, isLeader) := rf.start command
  if isLeader then [newLogIndex] else []

omit [KvArchive] in
/-- A call of the node. -/
def stepRaft (s : ServerProcess n) (call : NodeCall n) : Option (ServerProcess n) :=
  (nodeStep s.raft call).map fun raft =>
    { s with
      raft
      issued := s.issued ++
        match call with
        | .start command => startIndices s.raft command
        | _ => [] }

/-- `KvServer::Get` and `KvServer::PutAppend` up to the test of `isLeader`. -/
def stepServe (s : ServerProcess n) (args : KvArgs) : Option (ServerProcess n) :=
  let command := KvArchive.asString args.op
  let (raft, raftIndex, _, isLeader) := s.raft.start command
  (s.kv.step (args.step raftIndex isLeader)).map fun kv =>
    { raft, kv, issued := s.issued ++ startIndices s.raft command }

/-- One step. -/
def step (s : ServerProcess n) : ProcessStep n → Option (ServerProcess n)
  | .raft call => s.stepRaft call
  | .serve args => s.stepServe args
  | .kv a => if a.begins then none else (s.kv.step a).map fun kv => { s with kv }

end ServerProcess

end RaftStore
