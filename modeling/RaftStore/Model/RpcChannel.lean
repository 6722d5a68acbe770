import RaftStore.Model.Rpc

namespace RaftStore

/-!
# The channel of a client

Embeds `MprpcChannel::CallMethod` from the connection to the parsing of the response, for one caller
and for several threads on one connected channel, and `RpcProvider::SendRpcResponse`.

* `Message` — the codec of a response; `InstallSnapshotResponse` is one, with its generated code.
* `CallEnd.ofParse` — what `CallMethod` makes of the bytes that `recv` has returned.
* `MprpcChannel.callMethod` — one call: what `connect`, `send` and `recv` return is a parameter.
  Every byte on its way to the client is marked with the number of the call it answers, which
  nothing reads.
* `SharedChannel.step` — one step of one of the threads inside `CallMethod`, or of the server.
-/

/-! ### Messages -/

/-- `SerializeToString` and `ParseFromArray` of a message type; `none` where they return `false`. -/
class Message (M : Type) where
  serializeToString : M → Option Bytes
  parseFromArray : Bytes → Option M

/-- The codec round-trips, and no part of a serialisation that ends earlier parses to the message:
    each field that is written is one that is set. -/
class LawfulMessage (M : Type) [Message M] : Prop where
  parse_serialize : ∀ (m : M) bytes, Message.serializeToString m = some bytes →
    Message.parseFromArray bytes = some m
  parse_take : ∀ (m : M) bytes k, Message.serializeToString m = some bytes → k < bytes.length →
    Message.parseFromArray (bytes.take k) ≠ some m

/-- `raftRpcProctoc::InstallSnapshotResponse`, with its field at its width. -/
structure RaftRpcProctoc.InstallSnapshotResponse where
  term : Int32 := 0
  deriving DecidableEq

namespace RaftRpcProctoc.InstallSnapshotResponse

/-- `_InternalSerialize`: an `int32` is extended to 64 bits. -/
def asString (m : InstallSnapshotResponse) : Bytes :=
  if m.term = 0 then [] else 8 :: writeVarint 9 m.term.toInt64.toUInt64.toNat

variable [Protobuf]

/-- The loop of `_InternalParse`. -/
def parseLoop : ℕ → InstallSnapshotResponse → Bytes → Option InstallSnapshotResponse
  | _, m, [] => some m
  | 0, _, _ :: _ => none
  | fuel + 1, m, byte :: input => do
    let (tag, input) ← readVarint32 5 (byte :: input)
    if tag = 8 then
      let (n, input) ← readVarint 10 input
      parseLoop fuel { m with term := (UInt64.ofNat n).toInt64.toInt32 } input
    else if tag = 0 ∨ tag % 8 = 4 then none
    else
      let input ← Protobuf.unknownFieldParse tag input
      parseLoop fuel m input

instance : Message InstallSnapshotResponse where
  serializeToString m := some m.asString
  parseFromArray input := parseLoop input.length {} input

end RaftRpcProctoc.InstallSnapshotResponse

/-- `SendRpcResponse`: what it puts on the connection, which is nothing if the serialisation fails
    or has no bytes. -/
def sendRpcResponse {M : Type} [Message M] (response : M) : Bytes :=
  (Message.serializeToString response).getD []

/-! ### The end of a call -/

/-- How `CallMethod` ends: it returns, with the response or (`none`) after `SetFailed`, or it writes
    behind the end of `errtxt`, which is undefined. -/
inductive CallEnd (M : Type)
  | returned (response : Option M)
  | overflow
  deriving DecidableEq

/-- The text of a parse error fits into `errtxt[1050]`.  Its `%s` reads `recv_buf[1024]` up to a 0
    byte, which is one of the received bytes or one behind them. -/
def fitsErrtxt (bytes : Bytes) : Bool := decide (bytes.length < 1024) || bytes.contains 0

/-- `CallMethod` behind `recv`, given what `ParseFromArray` makes of the received bytes. -/
def CallEnd.ofParse {M : Type} (parsed : Option M) (bytes : Bytes) : CallEnd M :=
  match parsed with
  | some response => .returned (some response)
  | none => if fitsErrtxt bytes then .returned none else .overflow

/-- The same from what `recv` has put into `recv_buf`; `none` stands for its failure, or an earlier
    one. -/
def CallEnd.ofReceived {M : Type} (parse : Bytes → Option M) :
    Option (List (ℕ × UInt8)) → CallEnd M
  | none => .returned none
  | some bytes => .ofParse (parse (bytes.map Prod.snd)) (bytes.map Prod.snd)

/-! ### One caller -/

/-- What `recv` returns: -1, or a size; 0 stands for the end of the stream. -/
inductive Recv
  | error
  | size (k : ℕ)
  deriving DecidableEq, Repr

/-- What a call meets: whether a first connection succeeds, one entry for each failing `send` that
    says whether the connection after it succeeds, the bytes of the response, how many of them the
    peer sends before it closes the connection (all, and no close, for `none`), and what `recv`
    returns. -/
structure CallEnv where
  connect : Bool := true
  resends : List Bool := []
  wire : Bytes
  closesAfter : Option ℕ := none
  recv : Recv
  deriving DecidableEq, Repr

/-- `MprpcChannel`: `connected` is `m_clientFd != -1`; of the socket, whether the peer has closed
    it, and the bytes to receive. -/
structure MprpcChannel where
  connected : Bool := false
  peerClosed : Bool := false
  incoming : List (ℕ × UInt8) := []
  deriving DecidableEq, Repr

namespace MprpcChannel

/-- The loop that connects again while `send` fails; also whether the request was sent. -/
def sendLoop (ch : MprpcChannel) : List Bool → MprpcChannel × Bool
  | [] => (ch, true)
  | connect :: resends =>
    -- a new socket: what was left on the old one is gone
    if connect then sendLoop { connected := true } resends else ({ connected := false }, false)

/-- The part of a response that arrives. -/
def arriving (ch : MprpcChannel) (env : CallEnv) : Bytes :=
  if ch.peerClosed then []
  else
    match env.closesAfter with
    | none => env.wire
    | some j => env.wire.take j

/-- The call of `recv`: what is put into `recv_buf`, or `none` for an error, and the channel after
    it.  It returns a part from the front of what is there, at most 1024 bytes, and the end of the
    stream only if nothing is there and the peer has closed it. -/
def receive (ch : MprpcChannel) (call : ℕ) (env : CallEnv) :
    Option (Option (List (ℕ × UInt8)) × MprpcChannel) :=
  match env.recv with
  | .error => some (none, { connected := false })
  | .size k =>
    let incoming := ch.incoming ++ (ch.arriving env).map (call, ·)
    let peerClosed := ch.peerClosed || env.closesAfter.isSome
    if k ≤ 1024 ∧ k ≤ incoming.length ∧ (k = 0 → incoming = [] ∧ peerClosed = true) then
      some (some (incoming.take k), { ch with peerClosed, incoming := incoming.drop k })
    else none

/-- `CallMethod` up to the parsing: the bytes received, or `none` after `SetFailed`. -/
def transfer (ch : MprpcChannel) (call : ℕ) (env : CallEnv) :
    Option (Option (List (ℕ × UInt8)) × MprpcChannel) :=
  -- the connection is opened by the first call that finds none
  let ch := if ch.connected then ch else { connected := env.connect }
  if ch.connected then
    let (ch, sent) := ch.sendLoop env.resends
    if sent then ch.receive call env else some (none, ch)
  else some (none, ch)

/-- `CallMethod`: how it ends, and the channel.  A response that cannot be parsed leaves the
    connection as it is. -/
def callMethod (M : Type) [Message M] (ch : MprpcChannel) (call : ℕ) (env : CallEnv) :
    Option (CallEnd M × MprpcChannel) :=
  (ch.transfer call env).map fun (received, ch) =>
    (.ofReceived Message.parseFromArray received, ch)

/-- The bytes that a sequence of calls receives. -/
def transfers (ch : MprpcChannel) (call : ℕ) : List CallEnv → Option (List (ℕ × UInt8))
  | [] => some []
  | env :: envs => do
    let (received, ch) ← ch.transfer call env
    return received.getD [] ++ (← ch.transfers (call + 1) envs)

end MprpcChannel

/-! ### Several threads -/

/-- Where a thread stands inside `CallMethod` on a connected channel. -/
inductive CallPhase (M : Type)
  /-- Before `send`. -/
  | started
  /-- Before `recv`. -/
  | sent
  | ended (ending : CallEnd M)

/-- A call: its method, and where its thread stands. -/
structure ChannelCall {T : Type} (M : T → Type) where
  method : T
  phase : CallPhase (M method) := .started

/-- A channel in use: `replies` are the replies on their way to the client.  The calls by number in
    the order of their `send`s, the answers by the server, and how many replies have been received,
    are recorded. -/
structure SharedChannel {T : Type} (M : T → Type) where
  calls : List (ChannelCall M) := []
  replies : List Bytes := []
  sends : List ℕ := []
  answers : List (Σ t, M t) := []
  received : ℕ := 0

/-- The steps: a thread enters `CallMethod`, calls `send` or `recv`, or the server answers the next
    request; `reply` says what it answers to each kind of request. -/
inductive ChannelStep {T : Type} (M : T → Type)
  | callMethod (method : T)
  | send (i : ℕ)
  | answer (reply : (t : T) → M t)
  | recv (i : ℕ)

namespace SharedChannel

variable {T : Type} {M : T → Type} [∀ t, Message (M t)]

/-- Thread `i` sends its request. -/
def stepSend (s : SharedChannel M) (i : ℕ) : Option (SharedChannel M) := do
  let call ← s.calls[i]?
  match call.phase with
  | .started =>
    some { s with calls := s.calls.set i { call with phase := .sent }, sends := s.sends ++ [i] }
  | _ => none

/-- The server answers the first request without an answer. -/
def stepAnswer (s : SharedChannel M) (reply : (t : T) → M t) : Option (SharedChannel M) := do
  let i ← s.sends[s.answers.length]?
  let call ← s.calls[i]?
  let bytes := sendRpcResponse (reply call.method)
  some { s with
    -- a send of no bytes puts nothing on the connection
    replies := s.replies ++ if bytes = [] then [] else [bytes]
    answers := s.answers ++ [⟨call.method, reply call.method⟩] }

/-- Thread `i` receives the next reply and parses it. -/
def stepRecv (s : SharedChannel M) (i : ℕ) : Option (SharedChannel M) := do
  let call ← s.calls[i]?
  match call.phase, s.replies with
  | .sent, bytes :: replies =>
    some { s with
      calls := s.calls.set i
        { call with phase := .ended (.ofParse (Message.parseFromArray bytes) bytes) }
      replies
      received := s.received + 1 }
  | _, _ => none

/-- One step. -/
def step (s : SharedChannel M) : ChannelStep M → Option (SharedChannel M)
  | .callMethod method => some { s with calls := s.calls ++ [{ method }] }
  | .send i => s.stepSend i
  | .answer reply => s.stepAnswer reply
  | .recv i => s.stepRecv i

end SharedChannel

end RaftStore
