import RaftStore.Lib.Wire
import RaftStore.Model.RpcChannel

namespace RaftStore

/-!
# The messages of the RPCs

The messages of `raftRPC.proto`, `kvServerRPC.proto` and `rpcheader.proto` with the data their
generated classes hold, and the generated `_InternalSerialize`, `_InternalParse`, `ByteSizeLong` and
`MergeFrom`, which go through the fields one by one.  Fields of type `bytes` are byte strings here,
and an `int32` has 32 bits.  Unknown fields are skipped and not kept.

* `RaftRpcProctoc`, `RaftKVRpcProctoc` — the messages of the first two files, each with its fields:
  the key, and the member it stands for.
* `MessageType` — the types of message, with what the generated code does for each.
-/

/-- `UnknownFieldParse` for the parser of records. -/
def unknownField [Protobuf] (key : ℕ) : Bytes → Option Bytes :=
  Protobuf.unknownFieldParse (UInt32.ofNat key)

namespace RaftRpcProctoc

/-! ### `raftRPC.proto` -/

/-- `LogEntry`. -/
structure LogEntry where
  command : Bytes := []
  logTerm : Int32 := 0
  logIndex : Int32 := 0
  deriving DecidableEq

/-- The fields of `LogEntry`. -/
def LogEntry.message : WireMessage LogEntry where
  empty := {}
  fields :=
    [.bytes 10 LogEntry.command (fun m v => { m with command := v }) (by decide),
      .int32 16 LogEntry.logTerm (fun m v => { m with logTerm := v }) (by decide),
      .int32 24 LogEntry.logIndex (fun m v => { m with logIndex := v }) (by decide)]
  keys := by decide
  merge_empty m := by
    rw [mergeFields_bytes rfl, mergeFields_int32 rfl, mergeFields_int32 rfl, mergeFields_nil]
  values_empty f hf := by
    simp only [List.mem_cons, List.not_mem_nil, or_false] at hf
    rcases hf with rfl | rfl | rfl <;> rfl
  values_put f hf g hg hne m v := by
    simp only [List.mem_cons, List.not_mem_nil, or_false] at hf hg
    rcases hf with rfl | rfl | rfl <;> rcases hg with rfl | rfl | rfl <;>
      first | rfl | exact absurd rfl hne

/-- `AppendEntriesArgs`. -/
structure AppendEntriesArgs where
  term : Int32 := 0
  leaderId : Int32 := 0
  prevLogIndex : Int32 := 0
  prevLogTerm : Int32 := 0
  entries : List LogEntry := []
  leaderCommit : Int32 := 0
  deriving DecidableEq

/-- The fields of `AppendEntriesArgs`. -/
def AppendEntriesArgs.message [Protobuf] : WireMessage AppendEntriesArgs where
  empty := {}
  fields :=
    [.int32 8 AppendEntriesArgs.term (fun m v => { m with term := v }) (by decide),
      .int32 16 AppendEntriesArgs.leaderId (fun m v => { m with leaderId := v }) (by decide),
      .int32 24 AppendEntriesArgs.prevLogIndex
        (fun m v => { m with prevLogIndex := v }) (by decide),
      .int32 32 AppendEntriesArgs.prevLogTerm (fun m v => { m with prevLogTerm := v }) (by decide),
      .repeated unknownField LogEntry.message 42 AppendEntriesArgs.entries
        (fun m v => { m with entries := v }) (fun _ _ => rfl) (by decide),
      .int32 48 AppendEntriesArgs.leaderCommit
        (fun m v => { m with leaderCommit := v }) (by decide)]
  keys := by
    show [8, 16, 24, 32, 42, 48].Nodup
    decide
  merge_empty m := by
    rw [mergeFields_int32 rfl, mergeFields_int32 rfl, mergeFields_int32 rfl, mergeFields_int32 rfl,
      mergeFields_cons, WireField.merge_repeated, mergeFields_int32 rfl, mergeFields_nil]
    · rfl
    · exact fun _ _ _ => rfl
    · exact fun _ => rfl
  values_empty f hf := by
    simp only [List.mem_cons, List.not_mem_nil, or_false] at hf
    rcases hf with rfl | rfl | rfl | rfl | rfl | rfl <;> rfl
  values_put f hf g hg hne m v := by
    simp only [List.mem_cons, List.not_mem_nil, or_false] at hf hg
    rcases hf with rfl | rfl | rfl | rfl | rfl | rfl <;>
      rcases hg with rfl | rfl | rfl | rfl | rfl | rfl <;>
      first | rfl | exact absurd rfl hne

/-- `AppendEntriesReply`. -/
structure AppendEntriesReply where
  term : Int32 := 0
  success : Bool := false
  updateNextIndex : Int32 := 0
  appState : Int32 := 0
  deriving DecidableEq

/-- The fields of `AppendEntriesReply`. -/
def AppendEntriesReply.message : WireMessage AppendEntriesReply where
  empty := {}
  fields :=
    [.int32 8 AppendEntriesReply.term (fun m v => { m with term := v }) (by decide),
      .bool 16 AppendEntriesReply.success (fun m v => { m with success := v }) (by decide),
      .int32 24 AppendEntriesReply.updateNextIndex
        (fun m v => { m with updateNextIndex := v }) (by decide),
      .int32 32 AppendEntriesReply.appState (fun m v => { m with appState := v }) (by decide)]
  keys := by decide
  merge_empty m := by
    rw [mergeFields_int32 rfl, mergeFields_bool rfl, mergeFields_int32 rfl, mergeFields_int32 rfl,
      mergeFields_nil]
  values_empty f hf := by
    simp only [List.mem_cons, List.not_mem_nil, or_false] at hf
    rcases hf with rfl | rfl | rfl | rfl <;> rfl
  values_put f hf g hg hne m v := by
    simp only [List.mem_cons, List.not_mem_nil, or_false] at hf hg
    rcases hf with rfl | rfl | rfl | rfl <;> rcases hg with rfl | rfl | rfl | rfl <;>
      first | rfl | exact absurd rfl hne

/-- `RequestVoteArgs`. -/
structure RequestVoteArgs where
  term : Int32 := 0
  candidateId : Int32 := 0
  lastLogIndex : Int32 := 0
  lastLogTerm : Int32 := 0
  deriving DecidableEq

/-- The fields of `RequestVoteArgs`. -/
def RequestVoteArgs.message : WireMessage RequestVoteArgs where
  empty := {}
  fields :=
    [.int32 8 RequestVoteArgs.term (fun m v => { m with term := v }) (by decide),
      .int32 16 RequestVoteArgs.candidateId (fun m v => { m with candidateId := v }) (by decide),
      .int32 24 RequestVoteArgs.lastLogIndex (fun m v => { m with lastLogIndex := v }) (by decide),
      .int32 32 RequestVoteArgs.lastLogTerm (fun m v => { m with lastLogTerm := v }) (by decide)]
  keys := by decide
  merge_empty m := by
    rw [mergeFields_int32 rfl, mergeFields_int32 rfl, mergeFields_int32 rfl, mergeFields_int32 rfl,
      mergeFields_nil]
  values_empty f hf := by
    simp only [List.mem_cons, List.not_mem_nil, or_false] at hf
    rcases hf with rfl | rfl | rfl | rfl <;> rfl
  values_put f hf g hg hne m v := by
    simp only [List.mem_cons, List.not_mem_nil, or_false] at hf hg
    rcases hf with rfl | rfl | rfl | rfl <;> rcases hg with rfl | rfl | rfl | rfl <;>
      first | rfl | exact absurd rfl hne

/-- `RequestVoteReply`. -/
structure RequestVoteReply where
  term : Int32 := 0
  voteGranted : Bool := false
  voteState : Int32 := 0
  deriving DecidableEq

/-- The fields of `RequestVoteReply`. -/
def RequestVoteReply.message : WireMessage RequestVoteReply where
  empty := {}
  fields :=
    [.int32 8 RequestVoteReply.term (fun m v => { m with term := v }) (by decide),
      .bool 16 RequestVoteReply.voteGranted (fun m v => { m with voteGranted := v }) (by decide),
      .int32 24 RequestVoteReply.voteState (fun m v => { m with voteState := v }) (by decide)]
  keys := by decide
  merge_empty m := by
    rw [mergeFields_int32 rfl, mergeFields_bool rfl, mergeFields_int32 rfl, mergeFields_nil]
  values_empty f hf := by
    simp only [List.mem_cons, List.not_mem_nil, or_false] at hf
    rcases hf with rfl | rfl | rfl <;> rfl
  values_put f hf g hg hne m v := by
    simp only [List.mem_cons, List.not_mem_nil, or_false] at hf hg
    rcases hf with rfl | rfl | rfl <;> rcases hg with rfl | rfl | rfl <;>
      first | rfl | exact absurd rfl hne

/-- `InstallSnapshotRequest`. -/
structure InstallSnapshotRequest where
  leaderId : Int32 := 0
  term : Int32 := 0
  lastSnapShotIncludeIndex : Int32 := 0
  lastSnapShotIncludeTerm : Int32 := 0
  data : Bytes := []
  deriving DecidableEq

/-- The fields of `InstallSnapshotRequest`. -/
def InstallSnapshotRequest.message : WireMessage InstallSnapshotRequest where
  empty := {}
  fields :=
    [.int32 8 InstallSnapshotRequest.leaderId (fun m v => { m with leaderId := v }) (by decide),
      .int32 16 InstallSnapshotRequest.term (fun m v => { m with term := v }) (by decide),
      .int32 24 InstallSnapshotRequest.lastSnapShotIncludeIndex
        (fun m v => { m with lastSnapShotIncludeIndex := v }) (by decide),
      .int32 32 InstallSnapshotRequest.lastSnapShotIncludeTerm
        (fun m v => { m with lastSnapShotIncludeTerm := v }) (by decide),
      .bytes 42 InstallSnapshotRequest.data (fun m v => { m with data := v }) (by decide)]
  keys := by decide
  merge_empty m := by
    rw [mergeFields_int32 rfl, mergeFields_int32 rfl, mergeFields_int32 rfl, mergeFields_int32 rfl,
      mergeFields_bytes rfl, mergeFields_nil]
  values_empty f hf := by
    simp only [List.mem_cons, List.not_mem_nil, or_false] at hf
    rcases hf with rfl | rfl | rfl | rfl | rfl <;> rfl
  values_put f hf g hg hne m v := by
    simp only [List.mem_cons, List.not_mem_nil, or_false] at hf hg
    rcases hf with rfl | rfl | rfl | rfl | rfl <;> rcases hg with rfl | rfl | rfl | rfl | rfl <;>
      first | rfl | exact absurd rfl hne

/-- The fields of `InstallSnapshotResponse`. -/
def InstallSnapshotResponse.message : WireMessage InstallSnapshotResponse where
  empty := {}
  fields :=
    [.int32 8 InstallSnapshotResponse.term (fun m v => { m with term := v }) (by decide)]
  keys := by decide
  merge_empty m := by
    rw [mergeFields_int32 rfl, mergeFields_nil]
  values_empty f hf := by
    rw [List.mem_singleton.mp hf]
    rfl
  values_put f hf g hg hne m v := by
    rw [List.mem_singleton.mp hf, List.mem_singleton.mp hg] at hne
    exact absurd rfl hne

end RaftRpcProctoc

namespace RaftKVRpcProctoc

/-! ### `kvServerRPC.proto` -/

/-- `GetArgs`. -/
structure GetArgs where
  key : Bytes := []
  clientId : Bytes := []
  requestId : Int32 := 0
  deriving DecidableEq

/-- The fields of `GetArgs`. -/
def GetArgs.message : WireMessage GetArgs where
  empty := {}
  fields :=
    [.bytes 10 GetArgs.key (fun m v => { m with key := v }) (by decide),
      .bytes 18 GetArgs.clientId (fun m v => { m with clientId := v }) (by decide),
      .int32 24 GetArgs.requestId (fun m v => { m with requestId := v }) (by decide)]
  keys := by decide
  merge_empty m := by
    rw [mergeFields_bytes rfl, mergeFields_bytes rfl, mergeFields_int32 rfl, mergeFields_nil]
  values_empty f hf := by
    simp only [List.mem_cons, List.not_mem_nil, or_false] at hf
    rcases hf with rfl | rfl | rfl <;> rfl
  values_put f hf g hg hne m v := by
    simp only [List.mem_cons, List.not_mem_nil, or_false] at hf hg
    rcases hf with rfl | rfl | rfl <;> rcases hg with rfl | rfl | rfl <;>
      first | rfl | exact absurd rfl hne

/-- `GetReply`. -/
structure GetReply where
  err : Bytes := []
  value : Bytes := []
  deriving DecidableEq

/-- The fields of `GetReply`. -/
def GetReply.message : WireMessage GetReply where
  empty := {}
  fields :=
    [.bytes 10 GetReply.err (fun m v => { m with err := v }) (by decide),
      .bytes 18 GetReply.value (fun m v => { m with value := v }) (by decide)]
  keys := by decide
  merge_empty m := by
    rw [mergeFields_bytes rfl, mergeFields_bytes rfl, mergeFields_nil]
  values_empty f hf := by
    simp only [List.mem_cons, List.not_mem_nil, or_false] at hf
    rcases hf with rfl | rfl <;> rfl
  values_put f hf g hg hne m v := by
    simp only [List.mem_cons, List.not_mem_nil, or_false] at hf hg
    rcases hf with rfl | rfl <;> rcases hg with rfl | rfl <;>
      first | rfl | exact absurd rfl hne

/-- `PutAppendArgs`. -/
structure PutAppendArgs where
  key : Bytes := []
  value : Bytes := []
  op : Bytes := []
  clientId : Bytes := []
  requestId : Int32 := 0
  deriving DecidableEq

/-- The fields of `PutAppendArgs`. -/
def PutAppendArgs.message : WireMessage PutAppendArgs where
  empty := {}
  fields :=
    [.bytes 10 PutAppendArgs.key (fun m v => { m with key := v }) (by decide),
      .bytes 18 PutAppendArgs.value (fun m v => { m with value := v }) (by decide),
      .bytes 26 PutAppendArgs.op (fun m v => { m with op := v }) (by decide),
      .bytes 34 PutAppendArgs.clientId (fun m v => { m with clientId := v }) (by decide),
      .int32 40 PutAppendArgs.requestId (fun m v => { m with requestId := v }) (by decide)]
  keys := by decide
  merge_empty m := by
    rw [mergeFields_bytes rfl, mergeFields_bytes rfl, mergeFields_bytes rfl, mergeFields_bytes rfl,
      mergeFields_int32 rfl, mergeFields_nil]
  values_empty f hf := by
    simp only [List.mem_cons, List.not_mem_nil, or_false] at hf
    rcases hf with rfl | rfl | rfl | rfl | rfl <;> rfl
  values_put f hf g hg hne m v := by
    simp only [List.mem_cons, List.not_mem_nil, or_false] at hf hg
    rcases hf with rfl | rfl | rfl | rfl | rfl <;> rcases hg with rfl | rfl | rfl | rfl | rfl <;>
      first | rfl | exact absurd rfl hne

/-- `PutAppendReply`. -/
structure PutAppendReply where
  err : Bytes := []
  deriving DecidableEq

/-- The fields of `PutAppendReply`. -/
def PutAppendReply.message : WireMessage PutAppendReply where
  empty := {}
  fields :=
    [.bytes 10 PutAppendReply.err (fun m v => { m with err := v }) (by decide)]
  keys := by decide
  merge_empty m := by
    rw [mergeFields_bytes rfl, mergeFields_nil]
  values_empty f hf := by
    rw [List.mem_singleton.mp hf]
    rfl
  values_put f hf g hg hne m v := by
    rw [List.mem_singleton.mp hf, List.mem_singleton.mp hg] at hne
    exact absurd rfl hne

end RaftKVRpcProctoc

/-! ### `rpcheader.proto` -/

/-- The fields of `RpcHeader`. -/
def RpcHeader.message : WireMessage RpcHeader where
  empty := {}
  fields :=
    [.bytes 10 RpcHeader.serviceName (fun m v => { m with serviceName := v }) (by decide),
      .bytes 18 RpcHeader.methodName (fun m v => { m with methodName := v }) (by decide),
      .uint32 24 RpcHeader.argsSize (fun m v => { m with argsSize := v }) (by decide)]
  keys := by decide
  merge_empty m := by
    rw [mergeFields_bytes rfl, mergeFields_bytes rfl, mergeFields_uint32 rfl, mergeFields_nil]
  values_empty f hf := by
    simp only [List.mem_cons, List.not_mem_nil, or_false] at hf
    rcases hf with rfl | rfl | rfl <;> rfl
  values_put f hf g hg hne m v := by
    simp only [List.mem_cons, List.not_mem_nil, or_false] at hf hg
    rcases hf with rfl | rfl | rfl <;> rcases hg with rfl | rfl | rfl <;>
      first | rfl | exact absurd rfl hne

/-! ### The generated code -/

/-- The types of message. -/
inductive MessageType
  | rpcHeader
  | logEntry
  | appendEntriesArgs
  | appendEntriesReply
  | requestVoteArgs
  | requestVoteReply
  | installSnapshotRequest
  | installSnapshotResponse
  | getArgs
  | getReply
  | putAppendArgs
  | putAppendReply
  deriving DecidableEq, Repr

namespace MessageType

/-- The data of a message. -/
def Data : MessageType → Type
  | .rpcHeader => RpcHeader
  | .logEntry => RaftRpcProctoc.LogEntry
  | .appendEntriesArgs => RaftRpcProctoc.AppendEntriesArgs
  | .appendEntriesReply => RaftRpcProctoc.AppendEntriesReply
  | .requestVoteArgs => RaftRpcProctoc.RequestVoteArgs
  | .requestVoteReply => RaftRpcProctoc.RequestVoteReply
  | .installSnapshotRequest => RaftRpcProctoc.InstallSnapshotRequest
  | .installSnapshotResponse => RaftRpcProctoc.InstallSnapshotResponse
  | .getArgs => RaftKVRpcProctoc.GetArgs
  | .getReply => RaftKVRpcProctoc.GetReply
  | .putAppendArgs => RaftKVRpcProctoc.PutAppendArgs
  | .putAppendReply => RaftKVRpcProctoc.PutAppendReply

variable [Protobuf]

/-- The fields of each type. -/
def message : (t : MessageType) → WireMessage t.Data
  | .rpcHeader => RpcHeader.message
  | .logEntry => RaftRpcProctoc.LogEntry.message
  | .appendEntriesArgs => RaftRpcProctoc.AppendEntriesArgs.message
  | .appendEntriesReply => RaftRpcProctoc.AppendEntriesReply.message
  | .requestVoteArgs => RaftRpcProctoc.RequestVoteArgs.message
  | .requestVoteReply => RaftRpcProctoc.RequestVoteReply.message
  | .installSnapshotRequest => RaftRpcProctoc.InstallSnapshotRequest.message
  | .installSnapshotResponse => RaftRpcProctoc.InstallSnapshotResponse.message
  | .getArgs => RaftKVRpcProctoc.GetArgs.message
  | .getReply => RaftKVRpcProctoc.GetReply.message
  | .putAppendArgs => RaftKVRpcProctoc.PutAppendArgs.message
  | .putAppendReply => RaftKVRpcProctoc.PutAppendReply.message

variable (t : MessageType)

/-- `SerializeToString`; `none` where it returns `false`. -/
def serializeToString (m : t.Data) : Option Bytes := t.message.serializeToString m

/-- `ParseFromString`; `none` where it returns `false`. -/
def parseFromString (input : Bytes) : Option t.Data := t.message.parse unknownField input

/-- `ByteSizeLong`. -/
def byteSizeLong (m : t.Data) : ℕ := t.message.byteSize m

/-- `MergeFrom`. -/
def mergeFrom (m source : t.Data) : t.Data := t.message.mergeFrom m source

end MessageType

end RaftStore
