import RaftStore.Lib.Varint

namespace RaftStore

/-!
# The framing of requests

Embeds what `MprpcChannel::CallMethod` sends, what `RpcProvider::OnMessage` makes of the bytes
that arrive, and the generated code of `RpcHeader` in between.  Of the protobuf library, varints and
`CodedInputStream` follow its documentation; what it does with unknown fields is a parameter.

* `RpcHeader.serializeToString`, `RpcHeader.parseFromString` — the codec of the header.
* `callFrame` — the bytes of one request.
* `parseRequest` — the parsing steps of `OnMessage`.
* `RpcProvider.onMessage` — one call of `OnMessage`: the request it dispatches, and what it leaves
  in the buffer.
* `RpcProvider.deliver` — the calls for the chunks that arrive on one connection.
-/

/-- `UnknownFieldParse`: what follows the unknown field with a tag; `none` stands for the null
    pointer. -/
class Protobuf where
  unknownFieldParse : UInt32 → Bytes → Option Bytes

/-- The parser of an unknown field moves forward. -/
class LawfulProtobuf [Protobuf] : Prop where
  length_unknown : ∀ tag bytes rest, Protobuf.unknownFieldParse tag bytes = some rest →
    rest.length ≤ bytes.length

/-! ### The wire format -/

/-- `CodedOutputStream::WriteVarint32`. -/
def writeVarint32 (n : UInt32) : Bytes := writeVarint 4 n.toNat

/-- A varint of at most `k` bytes, cut to 32 bits. -/
def readVarint32 (k : ℕ) (input : Bytes) : Option (UInt32 × Bytes) :=
  (readVarint k input).map fun (n, rest) => (UInt32.ofNat n, rest)

/-- A field of type `bytes`; the empty string is left out. -/
def bytesField (tag : UInt8) (str : Bytes) : Bytes :=
  if str = [] then [] else tag :: writeVarint32 (UInt32.ofNat str.length) ++ str

/-- A field of type `uint32`; zero is left out. -/
def uint32Field (tag : UInt8) (n : UInt32) : Bytes :=
  if n = 0 then [] else tag :: writeVarint32 n

/-- `InlineGreedyStringParser`: a size below 2 GiB and so many bytes. -/
def inlineGreedyStringParser (input : Bytes) : Option (Bytes × Bytes) := do
  let (size, input) ← readVarint 5 input
  if 2 ^ 31 ≤ size ∨ input.length < size then none
  return (input.take size, input.drop size)

/-! ### The header -/

/-- `RPC::RpcHeader`. -/
structure RpcHeader where
  serviceName : Bytes := []
  methodName : Bytes := []
  argsSize : UInt32 := 0
  deriving DecidableEq, Repr

namespace RpcHeader

/-- `_InternalSerialize`. -/
def asString (h : RpcHeader) : Bytes :=
  bytesField 10 h.serviceName ++ bytesField 18 h.methodName ++ uint32Field 24 h.argsSize

/-- `SerializeToString`; `none` where it returns `false`. -/
def serializeToString (h : RpcHeader) : Option Bytes :=
  if h.asString.length < 2 ^ 31 then some h.asString else none

variable [Protobuf]

/-- The loop of `_InternalParse`; every round takes at least the byte of a tag. -/
def parseLoop : ℕ → RpcHeader → Bytes → Option RpcHeader
  | _, h, [] => some h
  | 0, _, _ :: _ => none
  | fuel + 1, h, byte :: input => do
    let (tag, input) ← readVarint32 5 (byte :: input)
    if tag = 10 then
      let (str, input) ← inlineGreedyStringParser input
      parseLoop fuel { h with serviceName := str } input
    else if tag = 18 then
      let (str, input) ← inlineGreedyStringParser input
      parseLoop fuel { h with methodName := str } input
    else if tag = 24 then
      let (n, input) ← readVarint32 10 input
      parseLoop fuel { h with argsSize := n } input
    else if tag = 0 ∨ tag % 8 = 4 then none
    else
      let input ← Protobuf.unknownFieldParse tag input
      parseLoop fuel h input

/-- `ParseFromString`; `none` where it returns `false`. -/
def parseFromString (input : Bytes) : Option RpcHeader := parseLoop input.length {} input

end RpcHeader

/-! ### The client -/

/-- A request as `CallMethod` sees it: the names of the descriptor, and the serialised message. -/
structure RpcRequest where
  serviceName : Bytes
  methodName : Bytes
  args : Bytes
  deriving DecidableEq, Repr

/-- The string that `CallMethod` sends; `none` where a serialisation fails. -/
def callFrame (request : RpcRequest) : Option Bytes := do
  if 2 ^ 31 ≤ request.args.length then none
  let header : RpcHeader :=
    { serviceName := request.serviceName
      methodName := request.methodName
      argsSize := UInt32.ofNat request.args.length }
  let headerStr ← header.serializeToString
  return writeVarint32 (UInt32.ofNat headerStr.length) ++ headerStr ++ request.args

/-! ### The server -/

/-- `ArrayInputStream` over a whole string.  The size is passed as an `int`; a negative one leaves
    nothing to read. -/
def arrayInput (buffer : Bytes) : Bytes :=
  if buffer.length % 2 ^ 32 < 2 ^ 31 then buffer.take (buffer.length % 2 ^ 32) else []

/-- `CodedInputStream::ReadString`: whether it succeeds, the string, and what follows.  A size from
    2 GiB on is negative, and a failing read keeps what there was. -/
def readString (input : Bytes) (size : UInt32) : Bool × Bytes × Bytes :=
  if 2 ^ 31 ≤ size.toNat then (false, [], input)
  else if size.toNat ≤ input.length then (true, input.take size.toNat, input.drop size.toNat)
  else (false, input, [])

/-- `ReadVarint32` on a variable that is read although the result is ignored: a failing read
    stores 2^32 - 1. -/
def readHeaderSize (input : Bytes) : UInt32 × Bytes :=
  (readVarint32 10 input).getD (4294967295, [])

/-- The parsing steps of `OnMessage`: the service, the method and the arguments that it finds in a
    buffer. -/
def parseRequest [Protobuf] (buffer : Bytes) : Option RpcRequest :=
  let (headerSize, input) := readHeaderSize (arrayInput buffer)
  -- the result of this read is not tested
  let (_, headerStr, input) := readString input headerSize
  match RpcHeader.parseFromString headerStr with
  | none => none
  | some header =>
    -- what follows the arguments is dropped with the buffer
    let (readArgsSuccess, args, _) := readString input header.argsSize
    if readArgsSuccess then
      some { serviceName := header.serviceName, methodName := header.methodName, args }
    else none

/-- `ServiceInfo`: the methods by name, each with the test whether its request message can be
    parsed. -/
structure ServiceInfo where
  methodMap : List (Bytes × (Bytes → Bool))

/-- `RpcProvider`: the services by name. -/
structure RpcProvider where
  serviceMap : List (Bytes × ServiceInfo)

namespace RpcProvider

/-- The lookups of `OnMessage`, and the parsing of the arguments. -/
def serves (p : RpcProvider) (request : RpcRequest) : Bool :=
  match p.serviceMap.lookup request.serviceName with
  | none => false
  | some service =>
    match service.methodMap.lookup request.methodName with
    | none => false
    | some parses => parses request.args

variable [Protobuf]

/-- `OnMessage`: the request whose method is called, and the bytes left in the buffer.  All bytes
    are taken, and one frame is parsed. -/
def onMessage (p : RpcProvider) (buffer : Bytes) : Option RpcRequest × Bytes :=
  match parseRequest buffer with
  | none => (none, [])
  | some request => if p.serves request then (some request, []) else (none, [])

/-- The requests dispatched on a connection while chunks arrive behind what is in the buffer. -/
def deliver (p : RpcProvider) : Bytes → List Bytes → List RpcRequest
  | _, [] => []
  | buffer, chunk :: chunks =>
    let (request, buffer) := p.onMessage (buffer ++ chunk)
    request.toList ++ deliver p buffer chunks

end RpcProvider

end RaftStore
