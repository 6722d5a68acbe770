import RaftStore.Model.Messages
import RaftStore.Rpc.Framing

namespace RaftStore

/-!
# Codecs of the messages

The generated code of every message has a round trip, and what it reads from a part of a message is
not the message.

* `RpcHeader.parseFromString_eq`, `InstallSnapshotResponse.parseFromArray_eq` — the codecs that the
  framing and the channel use are those of the messages.
* `MessageType.lawfulMessage` — every message is one that the channel can carry.
* `MessageType.codec` — **the codecs**.
-/

/-! ### The codecs of the framing and of the channel -/

/-- A number is compared by its lowest 32 bits. -/
theorem toNat_eq_iff_ofNat {n k : ℕ} (hk : k < 2 ^ 32) : UInt32.ofNat n = UInt32.ofNat k ↔
    n % 2 ^ 32 = k := by
  rw [← UInt32.toNat_inj, UInt32.toNat_ofNat', UInt32.toNat_ofNat', Nat.mod_eq_of_lt hk]

/-- The end of a group, or no key: the test on the key with 32 bits. -/
theorem tag_end_iff (n : ℕ) :
    (UInt32.ofNat n = 0 ∨ UInt32.ofNat n % 8 = 4) ↔ (n % 2 ^ 32 = 0 ∨ n % 2 ^ 32 % 8 = 4) := by
  rw [← UInt32.toNat_inj, ← UInt32.toNat_inj, UInt32.toNat_mod, UInt32.toNat_ofNat']
  rfl

/-- Only the lowest 32 bits of the key of an unknown field matter. -/
theorem unknownField_mod [Protobuf] (n : ℕ) :
    unknownField (n % 2 ^ 32) = Protobuf.unknownFieldParse (UInt32.ofNat n) := by
  have hmod : UInt32.ofNat (n % 2 ^ 32) = UInt32.ofNat n := by
    rw [← UInt32.toNat_inj, UInt32.toNat_ofNat', UInt32.toNat_ofNat', Nat.mod_mod]
  rw [unknownField, hmod]

/-- A string is read with its length in front. -/
theorem inlineGreedyStringParser_eq (input : Bytes) :
    inlineGreedyStringParser input = readPrefixed input := rfl

/-- A field of bytes is written with its length in front, unless it is empty. -/
theorem bytesField_eq (tag : UInt8) (str : Bytes) :
    bytesField tag str = if str = [] then [] else tag :: prefixed str := by
  rw [bytesField, writeVarint32, UInt32.toNat_ofNat']
  rfl

namespace RpcHeader

/-- The header is written as its fields are. -/
theorem asString_eq (h : RpcHeader) : h.asString = message.serialize h := by
  have hbytes : ∀ (tag : UInt8) (str : Bytes), bytesField tag str =
      (if str = [] then [] else [str]).flatMap fun str => tag :: prefixed str := by
    intro tag str
    rw [bytesField_eq]
    split
    · rfl
    · rw [List.flatMap_singleton]
  have hsize : uint32Field 24 h.argsSize =
      (if h.argsSize = 0 then [] else [h.argsSize]).flatMap fun n => 24 :: writeVarint 4 n.toNat := by
    rw [uint32Field]
    split
    · rfl
    · rw [List.flatMap_singleton]
      rfl
  rw [asString, hbytes, hbytes, hsize, List.append_assoc]
  show _ = _ ++ (_ ++ (_ ++ []))
  rw [List.append_nil]
  rfl

/-- So it is under the size limit. -/
theorem serializeToString_eq (h : RpcHeader) :
    h.serializeToString = message.serializeToString h := by
  rw [serializeToString, asString_eq]
  rfl

variable [Protobuf]

/-- The loop over the fields of the header is that of the fields. -/
theorem parseLoop_eq (fuel : ℕ) (h : RpcHeader) (input : Bytes) :
    parseLoop fuel h input = message.parseLoop unknownField fuel h input := by
  -- both loops spend one unit of fuel on a field
  induction fuel generalizing h input with
  | zero => cases input <;> rfl
  | succ fuel ih =>
    cases input with
    | nil => rfl
    | cons byte input =>
      rw [parseLoop, WireMessage.parseLoop, readVarint32, WireMessage.readKey]
      cases readVarint 5 (byte :: input) with
      | none => rfl
      | some read =>
        obtain ⟨n, rest⟩ := read
        have htag₁ : UInt32.ofNat n = 10 ↔ n % 2 ^ 32 = 10 :=
          toNat_eq_iff_ofNat (k := 10) (by omega)
        have htag₂ : UInt32.ofNat n = 18 ↔ n % 2 ^ 32 = 18 :=
          toNat_eq_iff_ofNat (k := 18) (by omega)
        have htag₃ : UInt32.ofNat n = 24 ↔ n % 2 ^ 32 = 24 :=
          toNat_eq_iff_ofNat (k := 24) (by omega)
        simp only [Option.map_some, Option.bind_eq_bind, Option.bind_some]
        by_cases hservice : n % 2 ^ 32 = 10
        · rw [if_pos (htag₁.mpr hservice), hservice]
          show _ = (readPrefixed rest).bind _
          simp only [ih]
          rfl
        · rw [if_neg (mt htag₁.mp hservice)]
          by_cases hmethod : n % 2 ^ 32 = 18
          · rw [if_pos (htag₂.mpr hmethod), hmethod]
            show _ = (readPrefixed rest).bind _
            simp only [ih]
            rfl
          · rw [if_neg (mt htag₂.mp hmethod)]
            by_cases hargs : n % 2 ^ 32 = 24
            · rw [if_pos (htag₃.mpr hargs), hargs]
              show _ = ((readVarint 10 rest).map _).bind _
              rw [readVarint32]
              simp only [ih]
              rfl
            · have hfind : (message.fields.find? fun f => f.key == n % 2 ^ 32) = none := by
                rw [List.find?_eq_none]
                intro f hf
                simp only [message, List.mem_cons, List.not_mem_nil, or_false] at hf
                rcases hf with rfl | rfl | rfl
                · exact fun heq => hservice (beq_iff_eq.mp heq).symm
                · exact fun heq => hmethod (beq_iff_eq.mp heq).symm
                · exact fun heq => hargs (beq_iff_eq.mp heq).symm
              rw [if_neg (mt htag₃.mp hargs), hfind]
              simp only [tag_end_iff, unknownField_mod, ih]

/-- The header is read as its fields are. -/
theorem parseFromString_eq (input : Bytes) :
    parseFromString input = message.parse unknownField input :=
  parseLoop_eq input.length {} input

end RpcHeader

namespace RaftRpcProctoc.InstallSnapshotResponse

/-- The reply to a snapshot is written as its fields are. -/
theorem asString_eq (m : InstallSnapshotResponse) : m.asString = message.serialize m := by
  show _ = ((if m.term = 0 then [] else [m.term]).flatMap fun n =>
    8 :: writeVarint 9 n.toInt64.toUInt64.toNat) ++ []
  rw [asString, List.append_nil]
  split
  · rfl
  · rw [List.flatMap_singleton]

variable [Protobuf]

/-- The loop over its fields is that of the fields. -/
theorem parseLoop_eq (fuel : ℕ) (m : InstallSnapshotResponse) (input : Bytes) :
    parseLoop fuel m input = message.parseLoop unknownField fuel m input := by
  induction fuel generalizing m input with
  | zero => cases input <;> rfl
  | succ fuel ih =>
    cases input with
    | nil => rfl
    | cons byte input =>
      rw [parseLoop, WireMessage.parseLoop, readVarint32, WireMessage.readKey]
      cases readVarint 5 (byte :: input) with
      | none => rfl
      | some read =>
        obtain ⟨n, rest⟩ := read
        -- the source switches on the tag as `uint32`
        have htag : UInt32.ofNat n = 8 ↔ n % 2 ^ 32 = 8 := toNat_eq_iff_ofNat (k := 8) (by omega)
        simp only [Option.map_some, Option.bind_eq_bind, Option.bind_some]
        by_cases hterm : n % 2 ^ 32 = 8
        -- the 64-bit value is cut to `int32`, as for every `int32` field
        · have hcut : ∀ k, (UInt64.ofNat k).toInt64.toInt32 = Int32.ofNat k := by
            intro k
            rw [UInt64.toInt64_ofNat', Int64.toInt32_ofNat']
          rw [if_pos (htag.mpr hterm), hterm]
          show _ = ((readVarint 10 rest).map _).bind _
          simp only [ih, hcut]
          cases readVarint 10 rest <;> rfl
        · have hfind : (message.fields.find? fun f => f.key == n % 2 ^ 32) = none := by
            rw [List.find?_eq_none]
            intro f hf
            rw [List.mem_singleton.mp hf]
            exact fun heq => hterm (beq_iff_eq.mp heq).symm
          rw [if_neg (mt htag.mp hterm), hfind]
          simp only [tag_end_iff, unknownField_mod, ih]

/-- The reply to a snapshot is read as its fields are. -/
theorem parseFromArray_eq (input : Bytes) :
    Message.parseFromArray input = message.parse unknownField input :=
  parseLoop_eq input.length {} input

end RaftRpcProctoc.InstallSnapshotResponse

/-! ### All messages -/

namespace MessageType

variable [Protobuf] {t : MessageType}

/-- A message serialises iff it is below the size limit, to the string of its fields. -/
theorem serializeToString_eq_some {m : t.Data} {str : Bytes} :
    t.serializeToString m = some str ↔
      (t.message.serialize m).length < 2 ^ 31 ∧ t.message.serialize m = str := by
  rw [serializeToString, WireMessage.serializeToString]
  split
  · rename_i hlt
    rw [Option.some.injEq, and_iff_right hlt]
  · rename_i hlt
    exact iff_of_false (by simp) fun h => hlt h.1

instance (t : MessageType) : Message t.Data where
  serializeToString := t.serializeToString
  parseFromArray := t.parseFromString

/-- Every message is one that the channel can carry. -/
theorem lawfulMessage (t : MessageType) : LawfulMessage t.Data where
  parse_serialize m str h := by
    obtain ⟨hlt, rfl⟩ := serializeToString_eq_some.mp h
    exact WireMessage.parse_serialize hlt
  parse_take m str k h hk := by
    obtain ⟨hlt, rfl⟩ := serializeToString_eq_some.mp h
    exact WireMessage.parse_take hlt hk

/-- **The codecs.**  What `SerializeToString` returns is read back as the message, has the size that
    `ByteSizeLong` says, is read as something else or not at all where it ends too early, and is
    merged with the message behind it. -/
theorem codec (t : MessageType) {m : t.Data} {str : Bytes} (h : t.serializeToString m = some str) :
    t.parseFromString str = some m ∧ str.length = t.byteSizeLong m ∧
      (∀ i < str.length, t.parseFromString (str.take i) ≠ some m) ∧
      ∀ m₂ str₂, t.serializeToString m₂ = some str₂ →
        t.parseFromString (str ++ str₂) = some (t.mergeFrom m m₂) := by
  obtain ⟨hlt, rfl⟩ := serializeToString_eq_some.mp h
  refine ⟨WireMessage.parse_serialize hlt, WireMessage.length_serialize _ m,
    fun i hi => WireMessage.parse_take hlt hi, ?_⟩
  intro m₂ str₂ h₂
  obtain ⟨hlt₂, rfl⟩ := serializeToString_eq_some.mp h₂
  exact WireMessage.parse_append hlt hlt₂

omit [Protobuf] in
/-- A request of the leader of term 2 with one entry, behind an entry of term -1. -/
def oneEntry : RaftRpcProctoc.AppendEntriesArgs where
  term := 2
  prevLogTerm := -1
  entries := [{ command := [97], logTerm := 2, logIndex := 1 }]

omit [Protobuf] in
/-- A request for entries with one entry, as it is on the wire. -/
def oneEntryString : Bytes :=
  [8, 2, 32, 255, 255, 255, 255, 255, 255, 255, 255, 255, 1, 42, 7, 10, 1, 97, 16, 2, 24, 1]

omit [Protobuf] in
/-- The request on its own, cut short, and twice. -/
theorem codec_oneEntry :
    letI := wireProtobuf
    appendEntriesArgs.parseFromString oneEntryString = some oneEntry ∧
      oneEntryString.length = appendEntriesArgs.byteSizeLong oneEntry ∧
      (∀ i < oneEntryString.length,
        appendEntriesArgs.parseFromString (oneEntryString.take i) ≠ some oneEntry) ∧
      appendEntriesArgs.parseFromString (oneEntryString ++ oneEntryString) =
        some { oneEntry with entries := oneEntry.entries ++ oneEntry.entries } := by
  let := wireProtobuf
  have hstr : appendEntriesArgs.serializeToString oneEntry = some oneEntryString := by
    decide
  obtain ⟨hparse, hsize, hcut, happend⟩ := codec appendEntriesArgs hstr
  exact ⟨hparse, hsize, hcut, happend oneEntry oneEntryString hstr⟩

end MessageType

end RaftStore
