import RaftStore.Model.Clerk

namespace RaftStore

/-!
# Clients and servers above a replicated log

The whole store: processes that run one `Clerk` each, the RPCs they have sent, the `KvServer`
processes that take them, and a correct replicated log in place of the Raft nodes.  The log is
one sequence.  A handler whose `Start` answers `isLeader`, rightly or wrongly, proposes its
operation at the index that `Start` gives; a proposal can be committed when the log has reached
its index, so that it comes after everything committed before.  Every server is passed the
entries in order, or a snapshot of another server that stands for more of them than it has.

* `Store` — the parties and the log.
* `Store.step` — one step of a party or of the log; which request arrives when, which RPC
  fails, what `Start` answers and which proposal is committed are parameters of the steps.

`Store.calls`, `Store.answers` and `Server.executed` record the calls that began and returned
and the calls whose entry a server ran; no step reads them but for the arguments of a call.
-/

/-- A call of a clerk. -/
structure KvCall where
  client : ℕ
  args : KvArgs
  /-- How many entries were committed when the call began. -/
  start : ℕ
  deriving DecidableEq, Repr

/-- The return of a call: which server answered what. -/
structure Answer where
  call : ℕ
  server : ℕ
  reply : KvReply
  deriving DecidableEq, Repr

/-- An RPC that was sent. -/
structure Rpc where
  call : ℕ
  server : ℕ
  /-- The handler that took it. -/
  handler : Option ℕ := none
  deriving DecidableEq, Repr

/-- A process with its clerk, and the RPC it waits for. -/
structure Client where
  clerk : Clerk
  waiting : Option ℕ := none
  deriving DecidableEq, Repr

/-- An entry of the log, and the call it comes from. -/
structure Entry where
  call : ℕ
  op : Op
  deriving DecidableEq, Repr

/-- What `Start` has appended. -/
structure Proposal where
  entry : Entry
  raftIndex : Int
  deriving DecidableEq, Repr

/-- A server. -/
structure Server where
  process : KvProcess
  /-- How many entries it has been passed or has a snapshot of. -/
  applied : ℕ := 0
  executed : List ℕ := []

/-- The clients, the servers and the log. -/
structure Store where
  clients : List Client
  servers : List Server
  calls : List KvCall := []
  answers : List Answer := []
  rpcs : List Rpc := []
  proposals : List Proposal := []
  log : List Entry := []

/-- The steps of the store. -/
inductive StoreStep
  /-- A process that is not inside a call makes one. -/
  | call (i : ℕ) (c : ClerkCall)
  /-- An RPC arrives, and `Start` answers. -/
  | receive (k : ℕ) (raftIndex : Int) (isLeader : Bool)
  /-- The RPC of a process fails or, with `ok`, returns a reply without any field. -/
  | lose (i : ℕ) (ok : Bool)
  /-- The RPC of a process returns the reply of its handler. -/
  | reply (i : ℕ)
  | commit (k : ℕ)
  /-- A server is passed the next entry. -/
  | apply (j : ℕ)
  /-- A server is passed the snapshot with number `m` of another. -/
  | install (j j' m : ℕ) (snapshotTerm : Int)
  /-- A step of a server that takes neither a request nor a message. -/
  | serve (j : ℕ) (a : KvStep)
  deriving DecidableEq, Repr

/-- The steps of a server that take neither a request nor a message from `applyChan`. -/
def KvStep.isInternal : KvStep → Bool
  | .get .. | .putAppend .. | .getCommandFromRaft _ | .getSnapShotFromRaft _ => false
  | _ => true

namespace Server

/-- The call whose entry a step runs. -/
def run (server : Server) (log : List Entry) (a : KvStep) : List ℕ :=
  match a, server.process.applyThread with
  | .executeOp, .executing op _ =>
    if op.operation = "Put" ∨ op.operation = "Append" then
      (log[server.applied - 1]?).toList.map Entry.call
    else []
  | _, _ => []

end Server

namespace Store

/-- The store just after its start. -/
def init (clerks : List Clerk) (maxRaftStates : List Int) : Store where
  clients := clerks.map fun clerk => { clerk }
  servers := maxRaftStates.map fun maxRaftState => { process := .init maxRaftState }

/-- A call of process `i` enters its loop. -/
def stepCall (s : Store) (i : ℕ) (c : ClerkCall) : Option Store := do
  let client ← s.clients[i]?
  -- one call at a time: a `Clerk` blocks in its loop
  if client.waiting ≠ none then none
  let (clerk, args) := client.clerk.call c
  some { s with
    clients := s.clients.set i { clerk, waiting := some s.rpcs.length }
    calls := s.calls ++ [{ client := i, args, start := s.log.length }]
    rpcs := s.rpcs ++ [{ call := s.calls.length, server := clerk.recentLeaderId }] }

/-- The RPC that process `i` waits for has returned. -/
def turn (s : Store) (i : ℕ) (client : Client) (rpc : Rpc) (call : KvCall)
    (reply : Option KvReply) : Store :=
  match client.clerk.turn call.args s.servers.length rpc.server reply with
  | .retry server =>
    { s with
      clients := s.clients.set i { client with waiting := some s.rpcs.length }
      rpcs := s.rpcs ++ [{ call := rpc.call, server }] }
  | .done clerk =>
    { s with
      clients := s.clients.set i { clerk }
      answers := s.answers ++
        reply.toList.map fun reply => { call := rpc.call, server := rpc.server, reply } }

/-- The RPC of process `i` returns without what its handler has to say. -/
def stepLose (s : Store) (i : ℕ) (ok : Bool) : Option Store := do
  let client ← s.clients[i]?
  let k ← client.waiting
  let rpc ← s.rpcs[k]?
  let call ← s.calls[rpc.call]?
  some (s.turn i client rpc call (if ok then some { err := "" } else none))

/-- The RPC of process `i` returns the reply. -/
def stepReply (s : Store) (i : ℕ) : Option Store := do
  let client ← s.clients[i]?
  let k ← client.waiting
  let rpc ← s.rpcs[k]?
  let call ← s.calls[rpc.call]?
  let server ← s.servers[rpc.server]?
  let h ← rpc.handler
  let handler ← server.process.handlers[h]?
  if handler.pc ≠ .returned then none
  let reply ← handler.reply
  some (s.turn i client rpc call (some reply))

/-- Proposal `k` is committed. -/
def stepCommit (s : Store) (k : ℕ) : Option Store := do
  let proposal ← s.proposals[k]?
  -- a proposal at an index that is taken is never committed
  if proposal.raftIndex = s.log.length + 1 then some { s with log := s.log ++ [proposal.entry] }
  else none

variable [KvArchive]

/-- RPC `k` arrives. -/
def stepReceive (s : Store) (k : ℕ) (raftIndex : Int) (isLeader : Bool) : Option Store := do
  let rpc ← s.rpcs[k]?
  if rpc.handler ≠ none then none
  let call ← s.calls[rpc.call]?
  let server ← s.servers[rpc.server]?
  let process ← server.process.step (call.args.step raftIndex isLeader)
  some { s with
    rpcs := s.rpcs.set k { rpc with handler := some server.process.handlers.length }
    servers := s.servers.set rpc.server { server with process }
    proposals := s.proposals ++
      if isLeader then [{ entry := { call := rpc.call, op := call.args.op }, raftIndex }] else [] }

/-- Server `j` is passed the next entry. -/
def stepApply (s : Store) (j : ℕ) : Option Store := do
  let server ← s.servers[j]?
  let entry ← s.log[server.applied]?
  let process ← server.process.step (.getCommandFromRaft
    { commandValid := true, command := KvArchive.asString entry.op,
      commandIndex := server.applied + 1 })
  some { s with
    servers := s.servers.set j { server with process, applied := server.applied + 1 } }

/-- Server `j` is passed a snapshot of server `j'`. -/
def stepInstall (s : Store) (j j' m : ℕ) (snapshotTerm : Int) : Option Store := do
  let server ← s.servers[j]?
  let other ← s.servers[j']?
  let (snapshotIndex, snapshot) ← other.process.snapshots[m]?
  -- only a snapshot that stands for more than the server has is passed to it
  if snapshotIndex ≤ server.applied then none
  let process ← server.process.step (.getSnapShotFromRaft
    { snapshotValid := true, snapshot, snapshotTerm, snapshotIndex })
  some { s with
    servers := s.servers.set j { server with process, applied := snapshotIndex.toNat } }

/-- Server `j` makes a step of its own. -/
def stepServe (s : Store) (j : ℕ) (a : KvStep) : Option Store := do
  let server ← s.servers[j]?
  if a.isInternal then
    let process ← server.process.step a
    some { s with
      servers := s.servers.set j
        { server with process, executed := server.executed ++ server.run s.log a } }
  else none

/-- One step of the store. -/
def step (s : Store) : StoreStep → Option Store
  | .call i c => s.stepCall i c
  | .receive k raftIndex isLeader => s.stepReceive k raftIndex isLeader
  | .lose i ok => s.stepLose i ok
  | .reply i => s.stepReply i
  | .commit k => s.stepCommit k
  | .apply j => s.stepApply j
  | .install j j' m snapshotTerm => s.stepInstall j j' m snapshotTerm
  | .serve j a => s.stepServe j a

end Store

end RaftStore
