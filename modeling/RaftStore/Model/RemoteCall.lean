import RaftStore.Model.Messages

namespace RaftStore

/-!
# Remote calls

Embeds what lies between a stub and the service it calls: the descriptors and the generated
`CallMethod` of `raftRpc` and `kvServerRpc`, `RpcProvider::NotifyService`, `OnMessage` with the call
of the service behind it, and `MprpcChannel::CallMethod` as a whole.

* `RpcService`, `RpcMethod` — the descriptors.
* `RpcProvider.notifyService`, `RpcProvider.serve` — the server: which methods it knows, and what it
  does with the chunks that arrive.
* `RemoteCall.callMethod` — one call: how the request is cut on its way, and what `connect`, `send`
  and `recv` return, are parameters.
-/

/-! ### Descriptors -/

/-- The services. -/
inductive RpcService
  | raftRpc
  | kvServerRpc
  deriving DecidableEq, Repr

/-- The methods. -/
inductive RpcMethod
  | appendEntries
  | installSnapshot
  | requestVote
  | putAppend
  | get
  deriving DecidableEq, Repr

/-- The bytes of a name in a descriptor. -/
def descriptorName (name : String) : Bytes := name.toList.map fun c => UInt8.ofNat c.toNat

namespace RpcService

/-- `ServiceDescriptor::name`. -/
def name : RpcService → Bytes
  | .raftRpc => descriptorName "raftRpc"
  | .kvServerRpc => descriptorName "kvServerRpc"

/-- The methods in the order of their index. -/
def methods : RpcService → List RpcMethod
  | .raftRpc => [.appendEntries, .installSnapshot, .requestVote]
  | .kvServerRpc => [.putAppend, .get]

end RpcService

namespace RpcMethod

/-- `MethodDescriptor::service`. -/
def service : RpcMethod → RpcService
  | .appendEntries | .installSnapshot | .requestVote => .raftRpc
  | .putAppend | .get => .kvServerRpc

/-- `MethodDescriptor::name`. -/
def name : RpcMethod → Bytes
  | .appendEntries => descriptorName "AppendEntries"
  | .installSnapshot => descriptorName "InstallSnapshot"
  | .requestVote => descriptorName "RequestVote"
  | .putAppend => descriptorName "PutAppend"
  | .get => descriptorName "Get"

/-- `GetRequestPrototype`. -/
def request : RpcMethod → MessageType
  | .appendEntries => .appendEntriesArgs
  | .installSnapshot => .installSnapshotRequest
  | .requestVote => .requestVoteArgs
  | .putAppend => .putAppendArgs
  | .get => .getArgs

/-- `GetResponsePrototype`. -/
def response : RpcMethod → MessageType
  | .appendEntries => .appendEntriesReply
  | .installSnapshot => .installSnapshotResponse
  | .requestVote => .requestVoteReply
  | .putAppend => .putAppendReply
  | .get => .getReply

end RpcMethod

/-- What the service objects do: the methods that override those of the generated classes, on a
    state `S`. -/
abbrev Handlers (S : Type) :=
  (method : RpcMethod) → method.request.Data → S → method.response.Data × S

/-! ### The server -/

variable [Protobuf] {S : Type}

/-- The methods of a service by name. -/
def ServiceInfo.ofService (service : RpcService) : ServiceInfo where
  methodMap := service.methods.map fun method =>
    (method.name, fun args => (method.request.parseFromString args).isSome)

namespace RpcProvider

/-- `NotifyService`: `insert` leaves a name that is there. -/
def notifyService (p : RpcProvider) (service : RpcService) : RpcProvider :=
  if (p.serviceMap.lookup service.name).isSome then p
  else { serviceMap := p.serviceMap ++ [(service.name, .ofService service)] }

/-- The provider of `KvServer::KvServer`. -/
def ofKvServer : RpcProvider :=
  (RpcProvider.notifyService { serviceMap := [] } .kvServerRpc).notifyService .raftRpc

/-- The method that the names of a request stand for. -/
def findMethod (request : RpcRequest) : Option RpcMethod :=
  (RpcService.kvServerRpc.methods ++ RpcService.raftRpc.methods).find? fun method =>
    method.service.name == request.serviceName && method.name == request.methodName

/-- The end of `OnMessage`: the service is called, and `SendRpcResponse` sends what it returns. -/
def callService (h : Handlers S) (request : RpcRequest) (s : S) : Bytes × S :=
  match findMethod request with
  | none => ([], s)
  | some method =>
    match method.request.parseFromString request.args with
    | none => ([], s)
    | some args =>
      let (response, s) := h method args s
      ((method.response.serializeToString response).getD [], s)

/-- The requests that are dispatched while chunks arrive, and what is sent for them. -/
def serve (p : RpcProvider) (h : Handlers S) (s : S) (chunks : List Bytes) : Bytes × S :=
  (p.deliver [] chunks).foldl
    (fun (sent, s) request =>
      let (bytes, s) := callService h request s
      (sent ++ bytes, s))
    ([], s)

end RpcProvider

/-! ### The client -/

/-- A call of a stub: the chunks in which its request arrives, and the rest of what it meets. -/
structure RemoteCall where
  method : RpcMethod
  request : method.request.Data
  chunks : List Bytes
  env : CallEnv

namespace RemoteCall

/-- What `CallMethod` sends; `none` where a serialisation fails. -/
def frame (c : RemoteCall) : Option Bytes := do
  let args ← c.method.request.serializeToString c.request
  callFrame { serviceName := c.method.service.name, methodName := c.method.name, args }

/-- `CallMethod` on a channel to the provider: how it ends, the channel, and the state of the
    server.  `none` if the chunks are not the request, or what comes back is not what the server
    sends. -/
def callMethod (p : RpcProvider) (h : Handlers S) (ch : MprpcChannel) (s : S) (n : ℕ)
    (c : RemoteCall) : Option (CallEnd c.method.response.Data × MprpcChannel × S) :=
  -- the connection is opened by the first call that finds none
  let ch := if ch.connected then ch else { connected := c.env.connect }
  if ch.connected then
    match c.frame with
    | none => some (.returned none, ch, s)
    | some frame =>
      let (ch, sent) := ch.sendLoop c.env.resends
      if sent then
        let (wire, s) := p.serve h s c.chunks
        if c.chunks.flatten = frame ∧ c.env.wire = wire then
          (ch.receive n c.env).map fun (received, ch) =>
            (.ofReceived c.method.response.parseFromString received, ch, s)
        else none
      else some (.returned none, ch, s)
  else some (.returned none, ch, s)

/-- A caller's calls on one channel, one after the other; `none` also behind an overflow. -/
def callMethods (p : RpcProvider) (h : Handlers S) (ch : MprpcChannel) (s : S) (n : ℕ) :
    List RemoteCall → Option (List (Σ method : RpcMethod, Option method.response.Data) ×
      MprpcChannel × S)
  | [] => some ([], ch, s)
  | c :: calls => do
    let (ending, ch, s) ← c.callMethod p h ch s n
    match ending with
    | .returned response =>
      let (responses, ch, s) ← callMethods p h ch s (n + 1) calls
      return (⟨c.method, response⟩ :: responses, ch, s)
    | .overflow => none

end RemoteCall

end RaftStore
