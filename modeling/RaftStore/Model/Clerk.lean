import RaftStore.Model.KvServer

namespace RaftStore

/-!
# The client

Embeds `clerk.h` and `clerk.cpp`: the constructor with the client id it draws, and the loops of
`Clerk::Get` and `Clerk::PutAppend`, each cut where the clerk waits for the reply to an RPC.

* `Clerk` — the members but the connections; a server is named by its place in `m_servers`.
* `KvArgs` — the arguments of the two RPCs, and what their handlers make of them.
* `Clerk.call` — what comes before the loop.
* `Clerk.turn` — one turn of the loop, once the RPC has returned.

`m_requestId` is an `int`: a clerk makes fewer than 2³¹ calls, so the number does not overflow.
-/

/-- `GetArgs` and `PutAppendArgs`. -/
inductive KvArgs
  | get (key clientId : String) (requestId : Int)
  | putAppend (key value op clientId : String) (requestId : Int)
  deriving DecidableEq, Repr

namespace KvArgs

/-- The request is a `Get`. -/
def isGet : KvArgs → Bool
  | .get .. => true
  | .putAppend .. => false

/-- The operation that `KvServer::Get` and `KvServer::PutAppend` make of their arguments. -/
def op : KvArgs → Op
  | .get key clientId requestId => { operation := "Get", key, value := "", clientId, requestId }
  | .putAppend key value op clientId requestId =>
    { operation := op, key, value, clientId, requestId }

/-- The step of a server that takes the request, with the answer of `Start`. -/
def step (raftIndex : Int) (isLeader : Bool) : KvArgs → KvStep
  | .get key clientId requestId => .get key clientId requestId raftIndex isLeader
  | .putAppend key value op clientId requestId =>
    .putAppend op key value clientId requestId raftIndex isLeader

end KvArgs

/-- The members of the class `Clerk`. -/
structure Clerk where
  clientId : String
  requestId : Int := 0
  recentLeaderId : ℕ := 0
  deriving DecidableEq, Repr

/-- The calls a program can make. -/
inductive ClerkCall
  | get (key : String)
  | put (key value : String)
  | append (key value : String)
  deriving DecidableEq, Repr

/-- What a turn of a loop comes to. -/
inductive LoopTurn
  /-- One more RPC, to the given server. -/
  | retry (server : ℕ)
  /-- The call returns. -/
  | done (clerk : Clerk)
  deriving DecidableEq, Repr

namespace Clerk

/-- `Uuid`, on what `rand()` returns the first, second and so on time. -/
def uuid (rand : ℕ → Int) : String :=
  toString (rand 0) ++ toString (rand 1) ++ toString (rand 2) ++ toString (rand 3)

/-- `Clerk::Clerk`. -/
def construct (rand : ℕ → Int) : Clerk where
  clientId := uuid rand

/-! ### Before the loop -/

/-- `Clerk::Get`. -/
def get (c : Clerk) (key : String) : Clerk × KvArgs :=
  let requestId := c.requestId + 1
  ({ c with requestId }, .get key c.clientId requestId)

/-- `Clerk::PutAppend`. -/
def putAppend (c : Clerk) (key value op : String) : Clerk × KvArgs :=
  let requestId := c.requestId + 1
  ({ c with requestId }, .putAppend key value op c.clientId requestId)

/-- `Clerk::Put`. -/
def put (c : Clerk) (key value : String) : Clerk × KvArgs := c.putAppend key value "Put"

/-- `Clerk::Append`. -/
def append (c : Clerk) (key value : String) : Clerk × KvArgs := c.putAppend key value "Append"

/-- The clerk and the arguments of the RPCs with which a call enters its loop. -/
def call (c : Clerk) : ClerkCall → Clerk × KvArgs
  | .get key => c.get key
  | .put key value => c.put key value
  | .append key value => c.append key value

/-! ### The loops -/

/-- The body of the loop of `Clerk::Get` after the RPC to `server`, one of `size`; `none` stands
    for a failed RPC.  What `Clerk::Get` returns is the value of the reply, which is empty for a
    missing key. -/
def getTurn (c : Clerk) (size server : ℕ) : Option KvReply → LoopTurn
  | none => .retry ((server + 1) % size)
  | some reply =>
    if reply.err = KvServer.errWrongLeader then .retry ((server + 1) % size)
    else if reply.err = KvServer.errNoKey then .done c
    else if reply.err = KvServer.ok then .done { c with recentLeaderId := server }
    else .retry server

/-- The body of the loop of `Clerk::PutAppend`. -/
def putAppendTurn (c : Clerk) (size server : ℕ) : Option KvReply → LoopTurn
  | none => .retry ((server + 1) % size)
  | some reply =>
    if reply.err = KvServer.errWrongLeader then .retry ((server + 1) % size)
    else if reply.err = KvServer.ok then .done { c with recentLeaderId := server }
    else .retry server

/-- The loop of the call with the given arguments. -/
def turn (c : Clerk) (args : KvArgs) (size server : ℕ) (reply : Option KvReply) : LoopTurn :=
  if args.isGet then c.getTurn size server reply else c.putAppendTurn size server reply

end Clerk

end RaftStore
