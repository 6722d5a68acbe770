import RaftStore.Model.Rpc

namespace RaftStore

/-!
# Frames and chunks

`OnMessage` takes the whole buffer and parses one frame, so the requests come through exactly if
TCP cuts the bytes between the frames, and no frame reaches the size that an `int` cannot hold.

* `RpcHeader.parseFromString_asString`, `RpcHeader.length_asString_le` — the header round-trips,
  and nothing shorter parses to it.
* `parseRequest_append`, `parseRequest_eq_some` — the parsing steps on a frame, and on any buffer.
* `RpcProvider.onMessage_callFrame` — a chunk that is one frame.
* `RpcProvider.length_callFrame_le` — a chunk from which a request is dispatched is no shorter than
  its frame.
* `RpcProvider.deliver_eq_iff` — the requests dispatched are those sent exactly if every chunk is
  one frame, of less than 2 GiB.
-/

/-! ### Fields -/

/-- A size below 2³¹ fits. -/
theorem toNat_ofNat_of_lt {n : ℕ} (h : n < 2 ^ 31) : (UInt32.ofNat n).toNat = n := by
  rw [UInt32.toNat_ofNat']
  omega

/-- A varint is read back, whatever follows. -/
theorem readVarint32_writeVarint32 {k : ℕ} (hk : 4 < k) (n : UInt32) (rest : Bytes) :
    readVarint32 k (writeVarint32 n ++ rest) = some (n, rest) := by
  have hn := n.toNat_lt
  rw [readVarint32, writeVarint32, readVarint_writeVarint (by omega) hk]
  simp

/-- A varint that was read is below what its length allows. -/
theorem readVarint32_lt {k : ℕ} {n : UInt32} {input rest : Bytes}
    (h : readVarint32 k input = some (n, rest)) :
    ∃ c, input.length = c + 1 + rest.length ∧ n.toNat < 128 ^ (c + 1) := by
  obtain ⟨⟨m, rest'⟩, hm, heq⟩ := Option.map_eq_some_iff.mp h
  obtain ⟨rfl, rfl⟩ := Prod.mk.inj heq
  obtain ⟨c, hlen, hlt⟩ := readVarint_lt hm
  have hmod : (UInt32.ofNat m).toNat ≤ m := by
    rw [UInt32.toNat_ofNat']
    exact Nat.mod_le _ _
  exact ⟨c, hlen, by omega⟩

/-- A number that is small enough is written in as few bytes. -/
theorem length_writeVarint32_le {n : UInt32} {c : ℕ} (h : n.toNat < 128 ^ (c + 1)) :
    (writeVarint32 n).length ≤ c + 1 := length_writeVarint_le h

/-- A field of bytes is as long as its key, the length and the bytes. -/
theorem length_bytesField (tag : UInt8) (str : Bytes) :
    (bytesField tag str).length ≤
      1 + (writeVarint32 (UInt32.ofNat str.length)).length + str.length := by
  rw [bytesField]
  split
  · exact Nat.zero_le _
  · rw [List.length_append, List.length_cons]
    omega

/-- A number field is as long as its key and the number. -/
theorem length_uint32Field (tag : UInt8) (n : UInt32) :
    (uint32Field tag n).length ≤ 1 + (writeVarint32 n).length := by
  rw [uint32Field]
  split
  · exact Nat.zero_le _
  · rw [List.length_cons]
    omega

/-- A string is read back, whatever follows. -/
theorem inlineGreedyStringParser_append {str : Bytes} (h : str.length < 2 ^ 31) (rest : Bytes) :
    inlineGreedyStringParser (writeVarint32 (UInt32.ofNat str.length) ++ (str ++ rest)) =
      some (str, rest) := by
  have hread : readVarint 5 (writeVarint32 (UInt32.ofNat str.length) ++ (str ++ rest)) =
      some (str.length, str ++ rest) := by
    rw [writeVarint32, toNat_ofNat_of_lt h]
    exact readVarint_writeVarint (by omega) (by omega) _
  have hnot : ¬ (2 ^ 31 ≤ str.length ∨ (str ++ rest).length < str.length) := by
    rw [List.length_append]
    omega
  rw [inlineGreedyStringParser, hread, Option.bind_eq_bind, Option.bind_some]
  dsimp only
  rw [if_neg hnot, List.take_left, List.drop_left]
  rfl

/-- A string that is parsed takes no less than its encoding. -/
theorem inlineGreedyStringParser_length {input str rest : Bytes}
    (h : inlineGreedyStringParser input = some (str, rest)) :
    (writeVarint32 (UInt32.ofNat str.length)).length + str.length + rest.length ≤
      input.length := by
  obtain ⟨⟨size, input'⟩, hread, h⟩ := Option.bind_eq_some_iff.mp h
  dsimp only at h
  split at h
  · cases h
  · rename_i hsize
    obtain ⟨rfl, rfl⟩ := Prod.mk.inj (Option.some.inj h)
    obtain ⟨c, hlen, hlt⟩ := readVarint_lt hread
    have htake : (input'.take size).length = size := by
      rw [List.length_take]
      omega
    have hvarint : (writeVarint32 (UInt32.ofNat size)).length ≤ c + 1 :=
      length_writeVarint32_le (by rwa [toNat_ofNat_of_lt (by omega)])
    rw [htake, List.length_drop]
    omega

namespace RpcHeader

variable [Protobuf] {h h' : RpcHeader} {fuel : ℕ} {str rest input : Bytes}

/-! ### The header round-trips -/

omit [Protobuf] in
/-- A tag below 128 is one byte. -/
theorem readTag (tag : UInt8) (ht : tag.toNat < 128) (rest : Bytes) :
    readVarint32 5 (tag :: rest) = some (UInt32.ofNat tag.toNat, rest) := by
  rw [readVarint32, readVarint, if_pos ht]
  rfl

/-- At the end of the bytes the header is complete. -/
theorem parseLoop_nil (fuel : ℕ) (h : RpcHeader) : parseLoop fuel h [] = some h := by
  cases fuel <;> rfl

/-- Behind its key the service name is read. -/
theorem parseLoop_serviceName (h : RpcHeader) (fuel : ℕ) (input : Bytes) :
    parseLoop (fuel + 1) h (10 :: input) = (inlineGreedyStringParser input).bind
      fun (str, input) => parseLoop fuel { h with serviceName := str } input := by
  rw [parseLoop, readTag 10 (by decide), Option.bind_eq_bind, Option.bind_some]
  rfl

/-- Behind its key the method name is read. -/
theorem parseLoop_methodName (h : RpcHeader) (fuel : ℕ) (input : Bytes) :
    parseLoop (fuel + 1) h (18 :: input) = (inlineGreedyStringParser input).bind
      fun (str, input) => parseLoop fuel { h with methodName := str } input := by
  rw [parseLoop, readTag 18 (by decide), Option.bind_eq_bind, Option.bind_some]
  rfl

/-- Behind its key the size of the arguments is read. -/
theorem parseLoop_argsSize (h : RpcHeader) (fuel : ℕ) (input : Bytes) :
    parseLoop (fuel + 1) h (24 :: input) = (readVarint32 10 input).bind
      fun (n, input) => parseLoop fuel { h with argsSize := n } input := by
  rw [parseLoop, readTag 24 (by decide), Option.bind_eq_bind, Option.bind_some]
  rfl

/-- A field of type `bytes` in front of the input is stored. -/
theorem exists_parse_bytesField (h : RpcHeader) (tag : UInt8) (set : Bytes → RpcHeader)
    (str rest : Bytes) (hempty : set [] = h)
    (hround : ∀ fuel input, parseLoop (fuel + 1) h (tag :: input) =
      (inlineGreedyStringParser input).bind fun (str, input) => parseLoop fuel (set str) input)
    (hlen : str.length < 2 ^ 31) (hfuel : (bytesField tag str ++ rest).length ≤ fuel) :
    ∃ fuel', rest.length ≤ fuel' ∧
      parseLoop fuel h (bytesField tag str ++ rest) = parseLoop fuel' (set str) rest := by
  by_cases hstr : str = []
  · subst hstr
    refine ⟨fuel, by simpa [bytesField] using hfuel, ?_⟩
    rw [bytesField, if_pos rfl, List.nil_append, hempty]
  · rw [bytesField, if_neg hstr, List.append_assoc, List.cons_append] at hfuel ⊢
    obtain ⟨fuel, rfl⟩ : ∃ n, fuel = n + 1 := ⟨fuel - 1, by simp at hfuel; omega⟩
    refine ⟨fuel, by simp at hfuel; omega, ?_⟩
    rw [hround, inlineGreedyStringParser_append hlen, Option.bind_some]

/-- The field of the arguments' size ends the header. -/
theorem parse_uint32Field (hsize : h.argsSize = 0) {n : UInt32}
    (hfuel : (uint32Field 24 n).length ≤ fuel) :
    parseLoop fuel h (uint32Field 24 n) = some { h with argsSize := n } := by
  by_cases hn : n = 0
  · subst hn
    rw [uint32Field, if_pos rfl, parseLoop_nil, ← hsize]
  · rw [uint32Field, if_neg hn] at hfuel ⊢
    obtain ⟨fuel, rfl⟩ : ∃ m, fuel = m + 1 := ⟨fuel - 1, by simp at hfuel; omega⟩
    have hread := readVarint32_writeVarint32 (k := 10) (by omega) n []
    rw [List.append_nil] at hread
    rw [parseLoop_argsSize, hread, Option.bind_some]
    exact parseLoop_nil _ _

/-- **Round trip.** -/
theorem parseFromString_asString (h : RpcHeader) (hlen : h.asString.length < 2 ^ 31) :
    parseFromString h.asString = some h := by
  -- a name fits into its field, so both names are below 2^31 bytes too
  have hname : ∀ tag : UInt8, ∀ str : Bytes, str.length ≤ (bytesField tag str).length := by
    intro tag str
    rw [bytesField]
    split
    · rename_i hstr
      simp [hstr]
    · simp
      omega
  have hservice := hname 10 h.serviceName
  have hmethod := hname 18 h.methodName
  simp only [asString, List.length_append] at hlen
  have hfuel : (bytesField 10 h.serviceName ++
      (bytesField 18 h.methodName ++ uint32Field 24 h.argsSize)).length ≤ h.asString.length := by
    simp [asString]
  -- one field after the other, each with the fuel that the one before has left
  obtain ⟨fuel₁, hfuel₁, hparse₁⟩ := exists_parse_bytesField {} 10
    (fun str => { ({} : RpcHeader) with serviceName := str }) h.serviceName
    (bytesField 18 h.methodName ++ uint32Field 24 h.argsSize)
    rfl (fun fuel input => parseLoop_serviceName _ fuel input) (by omega) hfuel
  obtain ⟨fuel₂, hfuel₂, hparse₂⟩ := exists_parse_bytesField
    { ({} : RpcHeader) with serviceName := h.serviceName } 18
    (fun str => { ({} : RpcHeader) with serviceName := h.serviceName, methodName := str }) _ _
    rfl (fun fuel input => parseLoop_methodName _ fuel input) (by omega) hfuel₁
  have hparse₃ := parse_uint32Field
    (h := { ({} : RpcHeader) with serviceName := h.serviceName, methodName := h.methodName })
    rfl hfuel₂
  rw [parseFromString]
  nth_rewrite 2 [asString]
  rw [List.append_assoc, hparse₁, hparse₂, hparse₃]

/-! ### Nothing shorter parses to a header -/

omit [Protobuf] in
/-- How much longer the header gets with a service name. -/
theorem length_setService (h : RpcHeader) (str : Bytes) :
    ({ h with serviceName := str } : RpcHeader).asString.length ≤ h.asString.length + 1 +
      (writeVarint32 (UInt32.ofNat str.length)).length + str.length := by
  have hfield := length_bytesField 10 str
  simp only [asString, List.length_append]
  omega

omit [Protobuf] in
/-- How much longer the header gets with a method name. -/
theorem length_setMethod (h : RpcHeader) (str : Bytes) :
    ({ h with methodName := str } : RpcHeader).asString.length ≤ h.asString.length + 1 +
      (writeVarint32 (UInt32.ofNat str.length)).length + str.length := by
  have hfield := length_bytesField 18 str
  simp only [asString, List.length_append]
  omega

omit [Protobuf] in
/-- How much longer the header gets with a size of the arguments. -/
theorem length_setArgsSize (h : RpcHeader) (n : UInt32) :
    ({ h with argsSize := n } : RpcHeader).asString.length ≤
      h.asString.length + 1 + (writeVarint32 n).length := by
  have hfield := length_uint32Field 24 n
  simp only [asString, List.length_append]
  omega

/-- **Step and run lemma of the loop.**  A round adds to the header no more than it takes from the
    input. -/
theorem length_parseLoop_le [LawfulProtobuf] (hparse : parseLoop fuel h input = some h') :
    h'.asString.length ≤ h.asString.length + input.length := by
  induction fuel generalizing h input with
  | zero =>
    cases input with
    | nil => rw [← Option.some.inj hparse]; omega
    | cons byte input => cases hparse
  | succ fuel ih =>
    cases input with
    | nil => rw [← Option.some.inj hparse]; omega
    | cons byte input =>
      rw [parseLoop] at hparse
      obtain ⟨⟨tag, input₁⟩, htag, hparse⟩ := Option.bind_eq_some_iff.mp hparse
      -- each field is at least as long in the input as it is when written again
      obtain ⟨c, hlen, _⟩ := readVarint32_lt htag
      dsimp only at hparse
      split at hparse
      · obtain ⟨⟨str, input₂⟩, hstr, hparse⟩ := Option.bind_eq_some_iff.mp hparse
        have hle := inlineGreedyStringParser_length hstr
        have hset := length_setService h str
        dsimp only at hparse
        have hrest := ih hparse
        omega
      · split at hparse
        · obtain ⟨⟨str, input₂⟩, hstr, hparse⟩ := Option.bind_eq_some_iff.mp hparse
          have hle := inlineGreedyStringParser_length hstr
          have hset := length_setMethod h str
          dsimp only at hparse
          have hrest := ih hparse
          omega
        · split at hparse
          · obtain ⟨⟨n, input₂⟩, hn, hparse⟩ := Option.bind_eq_some_iff.mp hparse
            obtain ⟨c', hlen', hlt⟩ := readVarint32_lt hn
            have hle := length_writeVarint32_le hlt
            have hset := length_setArgsSize h n
            dsimp only at hparse
            have hrest := ih hparse
            omega
          · split at hparse
            · cases hparse
            · obtain ⟨input₂, hskip, hparse⟩ := Option.bind_eq_some_iff.mp hparse
              have hle := LawfulProtobuf.length_unknown _ _ _ hskip
              have hrest := ih hparse
              omega

/-- No string shorter than its serialisation parses to a header. -/
theorem length_asString_le [LawfulProtobuf] (hparse : parseFromString input = some h) :
    h.asString.length ≤ input.length := by
  have hle := length_parseLoop_le hparse
  have hempty : ({} : RpcHeader).asString.length = 0 := rfl
  omega

end RpcHeader

/-! ### Unknown fields -/

/-- Unknown fields by wire type; groups are refused. -/
def skipField (tag : UInt32) (input : Bytes) : Option Bytes :=
  if tag % 8 = 0 then (readVarint 10 input).map Prod.snd
  else if tag % 8 = 1 then if 8 ≤ input.length then some (input.drop 8) else none
  else if tag % 8 = 2 then (inlineGreedyStringParser input).map Prod.snd
  else if tag % 8 = 5 then if 4 ≤ input.length then some (input.drop 4) else none
  else none

/-- A protobuf library that skips unknown fields by their wire type. -/
abbrev wireProtobuf : Protobuf where
  unknownFieldParse := skipField

/-- It is lawful. -/
theorem lawful_wireProtobuf : @LawfulProtobuf wireProtobuf := by
  let := wireProtobuf
  constructor
  intro tag input rest h
  replace h : skipField tag input = some rest := h
  rw [skipField] at h
  -- by the wire type of the tag: a varint, eight bytes, a prefixed string, four bytes
  split at h
  · obtain ⟨⟨n, rest'⟩, hread, rfl⟩ := Option.map_eq_some_iff.mp h
    obtain ⟨c, hlen, _⟩ := readVarint_lt hread
    dsimp only
    omega
  · split at h
    · split at h
      · rw [← Option.some.inj h, List.length_drop]
        omega
      · cases h
    · split at h
      · obtain ⟨⟨str, rest'⟩, hparse, rfl⟩ := Option.map_eq_some_iff.mp h
        have hle := inlineGreedyStringParser_length hparse
        dsimp only
        omega
      · split at h
        · split at h
          · rw [← Option.some.inj h, List.length_drop]
            omega
          · cases h
        · cases h

/-! ### One chunk -/

/-- The header of a request. -/
def RpcRequest.header (request : RpcRequest) : RpcHeader where
  serviceName := request.serviceName
  methodName := request.methodName
  argsSize := UInt32.ofNat request.args.length

/-- **Spec of the encoding.** -/
theorem callFrame_eq_some {request : RpcRequest} {frame : Bytes} :
    callFrame request = some frame ↔
      request.args.length < 2 ^ 31 ∧ request.header.asString.length < 2 ^ 31 ∧
        writeVarint32 (UInt32.ofNat request.header.asString.length) ++
          request.header.asString ++ request.args = frame := by
  unfold callFrame
  by_cases hargs : 2 ^ 31 ≤ request.args.length
  · rw [if_pos hargs]
    exact iff_of_false (by rintro ⟨⟩) fun h => absurd h.1 (by omega)
  · rw [if_neg hargs]
    show (request.header.serializeToString.bind fun headerStr =>
      some (writeVarint32 (UInt32.ofNat headerStr.length) ++ headerStr ++ request.args)) =
        some frame ↔ _
    rw [RpcHeader.serializeToString]
    by_cases hheader : request.header.asString.length < 2 ^ 31
    · rw [if_pos hheader, Option.bind_some, Option.some.injEq]
      exact ⟨fun h => ⟨by omega, hheader, h⟩, fun h => h.2.2⟩
    · rw [if_neg hheader]
      exact iff_of_false (by rintro ⟨⟩) fun h => absurd h.2.1 hheader

section parsing

variable {request : RpcRequest} {frame chunk : Bytes}

/-! ### The parsing steps -/

/-- A buffer below 2 GiB is read as it is. -/
theorem arrayInput_eq (h : chunk.length < 2 ^ 31) : arrayInput chunk = chunk := by
  rw [arrayInput, Nat.mod_eq_of_lt (by omega), if_pos h, List.take_length]

/-- What is read of a buffer is a beginning of it, and below 2 GiB. -/
theorem arrayInput_isPrefix (chunk : Bytes) :
    arrayInput chunk <+: chunk ∧ (arrayInput chunk).length < 2 ^ 31 := by
  rw [arrayInput]
  split
  · refine ⟨List.take_prefix _ _, ?_⟩
    rw [List.length_take]
    omega
  · exact ⟨List.nil_prefix, by simp⟩

/-- A read of the bytes in front. -/
theorem readString_append {str : Bytes} (h : str.length < 2 ^ 31) (rest : Bytes) :
    readString (str ++ rest) (UInt32.ofNat str.length) = (true, str, rest) := by
  rw [readString, toNat_ofNat_of_lt h, if_neg (by omega), if_pos (by simp), List.take_left,
    List.drop_left]

/-- The size of the header is read back, whatever follows. -/
theorem readHeaderSize_append (n : UInt32) (rest : Bytes) :
    readHeaderSize (writeVarint32 n ++ rest) = (n, rest) := by
  rw [readHeaderSize, readVarint32_writeVarint32 (by omega)]
  rfl

/-- The size of a string that is there takes no more bytes than those read for it; if none could be
    read there is no string. -/
theorem readHeaderSize_length {n : UInt32} {rest : Bytes} {m : ℕ}
    (h : readHeaderSize chunk = (n, rest)) (hn : m ≤ n.toNat) (hrest : m ≤ rest.length)
    (hm : m < 2 ^ 31) :
    (writeVarint32 (UInt32.ofNat m)).length + rest.length ≤ max 1 chunk.length := by
  rw [readHeaderSize] at h
  cases hread : readVarint32 10 chunk with
  | none =>
    rw [hread] at h
    obtain ⟨rfl, rfl⟩ := Prod.mk.inj h
    obtain rfl : m = 0 := Nat.le_zero.mp hrest
    have hone : (writeVarint32 (UInt32.ofNat 0)).length ≤ 0 + 1 :=
      length_writeVarint32_le (by decide)
    rw [List.length_nil]
    omega
  | some read =>
    rw [hread, Option.getD_some] at h
    subst h
    obtain ⟨c, hlen, hlt⟩ := readVarint32_lt hread
    have hvarint : (writeVarint32 (UInt32.ofNat m)).length ≤ c + 1 :=
      length_writeVarint32_le (by rw [toNat_ofNat_of_lt hm]; omega)
    omega

/-- What a read returns fits into what was there, and into the size asked for. -/
theorem readString_length {input str rest : Bytes} {size : UInt32} {success : Bool}
    (h : readString input size = (success, str, rest)) :
    str.length + rest.length ≤ input.length ∧ str.length ≤ size.toNat ∧
      (success = true → str.length = size.toNat) := by
  rw [readString] at h
  split at h
  · obtain ⟨rfl, rfl, rfl⟩ : false = success ∧ [] = str ∧ input = rest := by simpa using h
    simp
  · split at h
    · obtain ⟨rfl, rfl, rfl⟩ : true = success ∧ input.take size.toNat = str ∧
          input.drop size.toNat = rest := by simpa using h
      simp only [List.length_take, List.length_drop]
      omega
    · obtain ⟨rfl, rfl, rfl⟩ : false = success ∧ input = str ∧ [] = rest := by simpa using h
      simp
      omega

variable [Protobuf]

/-- **A frame in front.**  The parsing steps find the request of the frame, whatever follows. -/
theorem parseRequest_append (h : callFrame request = some frame) (more : Bytes)
    (hlen : (frame ++ more).length < 2 ^ 31) : parseRequest (frame ++ more) = some request := by
  obtain ⟨hargs, hheader, rfl⟩ := callFrame_eq_some.mp h
  rw [parseRequest, arrayInput_eq hlen, List.append_assoc, List.append_assoc,
    readHeaderSize_append]
  dsimp only
  rw [readString_append hheader]
  dsimp only
  rw [RpcHeader.parseFromString_asString _ hheader]
  dsimp only
  rw [show request.header.argsSize = UInt32.ofNat request.args.length from rfl,
    readString_append hargs]
  rfl

/-- **Inversion.**  What the parsing steps read to find a request. -/
theorem parseRequest_eq_some : parseRequest chunk = some request ↔
    ∃ headerSize input ok headerStr input₁ header rest,
      readHeaderSize (arrayInput chunk) = (headerSize, input) ∧
      readString input headerSize = (ok, headerStr, input₁) ∧
      RpcHeader.parseFromString headerStr = some header ∧
      readString input₁ header.argsSize = (true, request.args, rest) ∧
      header.serviceName = request.serviceName ∧ header.methodName = request.methodName := by
  constructor
  · intro h
    rw [parseRequest] at h
    obtain ⟨headerSize, input, hsize⟩ :
      ∃ n rest, readHeaderSize (arrayInput chunk) = (n, rest) := ⟨_, _, rfl⟩
    obtain ⟨ok, headerStr, input₁, hstr⟩ :
      ∃ ok str rest, readString input headerSize = (ok, str, rest) := ⟨_, _, _, rfl⟩
    rw [hsize] at h
    dsimp only at h
    rw [hstr] at h
    dsimp only at h
    cases hparse : RpcHeader.parseFromString headerStr with
    | none =>
      rw [hparse] at h
      cases h
    | some header =>
      rw [hparse] at h
      dsimp only at h
      obtain ⟨success, args, rest, hargs⟩ :
        ∃ ok str rest, readString input₁ header.argsSize = (ok, str, rest) := ⟨_, _, _, rfl⟩
      rw [hargs] at h
      dsimp only at h
      split at h
      · rename_i hsuccess
        subst hsuccess
        obtain rfl := Option.some.inj h
        exact ⟨_, _, _, _, _, header, rest, hsize, hstr, hparse, hargs, rfl, rfl⟩
      · cases h
  · rintro ⟨headerSize, input, ok, headerStr, input₁, header, rest, hsize, hstr, hparse, hargs,
      hservice, hmethod⟩
    rw [parseRequest, hsize]
    dsimp only
    rw [hstr]
    dsimp only
    rw [hparse]
    dsimp only
    rw [hargs]
    dsimp only
    rw [if_pos rfl, hservice, hmethod]

end parsing

namespace RpcProvider

variable [Protobuf] {p : RpcProvider} {request : RpcRequest} {frame chunk : Bytes}

/-- What is dispatched is what the parsing steps find, if it is served. -/
theorem onMessage_fst :
    (p.onMessage chunk).1 = some request ↔
      parseRequest chunk = some request ∧ p.serves request = true := by
  rw [onMessage]
  cases hparse : parseRequest chunk with
  | none => simp
  | some found =>
    dsimp only
    by_cases hserves : p.serves found = true
    · rw [if_pos hserves]
      constructor
      · rintro h
        obtain rfl := Option.some.inj h
        exact ⟨rfl, hserves⟩
      · exact fun h => h.1
    · rw [if_neg hserves]
      constructor
      · rintro ⟨⟩
      · rintro ⟨h, hserved⟩
        obtain rfl := Option.some.inj h
        exact absurd hserved hserves

/-- **One frame.**  A chunk that is a frame is dispatched if the provider serves the request. -/
theorem onMessage_callFrame (h : callFrame request = some frame) (hlen : frame.length < 2 ^ 31) :
    p.onMessage frame = (if p.serves request then some request else none, []) := by
  have hparse := parseRequest_append h [] (by rwa [List.append_nil])
  rw [List.append_nil] at hparse
  rw [onMessage, hparse]
  dsimp only
  cases p.serves request <;> rfl

/-- **Any chunk.**  What is dispatched from a chunk is served, and its frame is no longer than the
    chunk, and shorter from 2 GiB on. -/
theorem length_callFrame_le [LawfulProtobuf] (hne : chunk ≠ [])
    (h : (p.onMessage chunk).1 = some request) :
    p.serves request = true ∧ ∀ frame, callFrame request = some frame →
      frame.length ≤ chunk.length ∧ (frame.length = chunk.length → chunk.length < 2 ^ 31) := by
  obtain ⟨hparse, hserves⟩ := onMessage_fst.mp h
  obtain ⟨headerSize, input, ok, headerStr, input₁, header, rest, hsize, hstr, hheader, hargs,
    hservice, hmethod⟩ := parseRequest_eq_some.mp hparse
  refine ⟨hserves, fun frame hframe => ?_⟩
  obtain ⟨hpre, hshort⟩ := arrayInput_isPrefix chunk
  obtain ⟨_, hbound, rfl⟩ := callFrame_eq_some.mp hframe
  -- the parts of the frame were read one behind the other
  have hlen₁ := readString_length hstr
  have hlen₂ := readString_length hargs
  have hle := RpcHeader.length_asString_le hheader
  have heq : request.header = header := by
    rw [RpcRequest.header, ← hservice, ← hmethod, hlen₂.2.2 rfl, UInt32.ofNat_toNat]
  rw [heq] at hbound ⊢
  have hvarint := readHeaderSize_length hsize (m := header.asString.length) (by omega)
    (by omega) hbound
  have hchunk := List.length_pos_iff.mpr hne
  have hcut := hpre.length_le
  simp only [List.length_append]
  constructor
  · omega
  · intro heq
    by_contra hbig
    omega

/-! ### All chunks -/

/-- `OnMessage` leaves nothing in the buffer. -/
theorem onMessage_snd (p : RpcProvider) (buffer : Bytes) : (p.onMessage buffer).2 = [] := by
  unfold onMessage
  split
  · rfl
  · split <;> rfl

/-- `OnMessage` drains its buffer, so every chunk is looked at on its own. -/
theorem deliver_cons (p : RpcProvider) (chunk : Bytes) (chunks : List Bytes) :
    p.deliver [] (chunk :: chunks) = (p.onMessage chunk).1.toList ++ p.deliver [] chunks := by
  rw [deliver, List.nil_append]
  dsimp only
  rw [onMessage_snd]

/-- **Counting.**  The frames of what is dispatched are no longer than the chunks, and if they are
    as long then chunk by chunk, with no chunk from 2 GiB on. -/
theorem length_deliver [LawfulProtobuf] {chunks frames : List Bytes}
    (hne : ∀ chunk ∈ chunks, chunk ≠ [])
    (hframes : (p.deliver [] chunks).map callFrame = frames.map some) :
    frames.flatten.length ≤ chunks.flatten.length ∧
      (frames.flatten.length = chunks.flatten.length →
        frames.map List.length = chunks.map List.length ∧
          ∀ chunk ∈ chunks, chunk.length < 2 ^ 31) ∧
      ∀ request ∈ p.deliver [] chunks, p.serves request = true := by
  induction chunks generalizing frames with
  | nil =>
    obtain rfl : frames = [] := by simpa [deliver] using hframes.symm
    exact ⟨Nat.le_refl _, fun _ => ⟨rfl, fun chunk hmem => by cases hmem⟩,
      fun request hmem => by cases hmem⟩
  | cons chunk chunks ih =>
    have hchunk := List.length_pos_iff.mpr (hne chunk (List.mem_cons_self ..))
    have hne' : ∀ chunk ∈ chunks, chunk ≠ [] := fun c hc => hne c (List.mem_cons_of_mem _ hc)
    rw [deliver_cons] at hframes ⊢
    cases hdispatch : (p.onMessage chunk).1 with
    | none =>
      -- a chunk that is not dispatched only adds to what was sent
      rw [hdispatch, Option.toList_none, List.nil_append] at hframes
      obtain ⟨hle, _, hserves⟩ := ih hne' hframes
      rw [List.flatten_cons, List.length_append]
      exact ⟨by omega, fun heq => by omega, hserves⟩
    | some request =>
      rw [hdispatch, Option.toList_some, List.singleton_append, List.map_cons] at hframes
      obtain ⟨frame, frames, rfl, hframe, hframes⟩ := List.map_eq_cons_iff.mp hframes.symm
      obtain ⟨hle, heq, hserves⟩ := ih hne' hframes.symm
      obtain ⟨hserves₀, hle₀⟩ := length_callFrame_le (hne chunk (List.mem_cons_self ..)) hdispatch
      obtain ⟨hle₀, hshort⟩ := hle₀ frame hframe.symm
      simp only [List.flatten_cons, List.length_append, List.map_cons]
      refine ⟨by omega, fun htotal => ?_, fun request' hmem => ?_⟩
      · have hsame : frame.length = chunk.length := by omega
        obtain ⟨hlengths, hbound⟩ := heq (by omega)
        refine ⟨by rw [hlengths, hsame], fun chunk' hmem => ?_⟩
        rcases List.mem_cons.mp hmem with rfl | hmem
        · exact hshort hsame
        · exact hbound chunk' hmem
      · rw [Option.toList_some, List.singleton_append] at hmem
        rcases List.mem_cons.mp hmem with rfl | hmem
        · exact hserves₀
        · exact hserves request' hmem

/-- Chunks that are frames are dispatched one by one. -/
theorem deliver_frames {requests : List RpcRequest} {frames : List Bytes}
    (hframes : requests.map callFrame = frames.map some)
    (hshort : ∀ frame ∈ frames, frame.length < 2 ^ 31)
    (hserves : ∀ request ∈ requests, p.serves request = true) :
    p.deliver [] frames = requests := by
  induction requests generalizing frames with
  | nil =>
    obtain rfl : frames = [] := by simpa using hframes.symm
    rfl
  | cons request requests ih =>
    obtain ⟨frame, frames, rfl, hframe, hframes⟩ := List.map_eq_cons_iff.mp hframes.symm
    have hrest := ih hframes.symm (fun f hf => hshort f (List.mem_cons_of_mem _ hf))
      fun r hr => hserves r (List.mem_cons_of_mem _ hr)
    rw [deliver_cons, onMessage_callFrame hframe.symm (hshort frame (List.mem_cons_self ..)),
      if_pos (hserves request (List.mem_cons_self ..)), hrest]
    rfl

/-- **Segmentation.**  However the bytes of the requests are cut into chunks, what is dispatched is
    what was sent if and only if every chunk is one frame, of less than 2 GiB, and the provider
    serves every request. -/
theorem deliver_eq_iff [LawfulProtobuf] (p : RpcProvider) {requests : List RpcRequest}
    {frames chunks : List Bytes} (hframes : requests.map callFrame = frames.map some)
    (hne : ∀ chunk ∈ chunks, chunk ≠ []) (hsplit : chunks.flatten = frames.flatten) :
    p.deliver [] chunks = requests ↔
      chunks = frames ∧ (∀ chunk ∈ chunks, chunk.length < 2 ^ 31) ∧
        ∀ request ∈ requests, p.serves request = true := by
  constructor
  · rintro rfl
    obtain ⟨_, hequal, hserves⟩ := length_deliver hne hframes
    obtain ⟨hlengths, hshort⟩ := hequal (by rw [hsplit])
    exact ⟨List.eq_iff_flatten_eq.mpr ⟨hsplit, hlengths.symm⟩, hshort, hserves⟩
  · rintro ⟨rfl, hshort, hserves⟩
    exact deliver_frames hframes hshort hserves

/-! ### Runs -/

omit [Protobuf] in
/-- The bytes of a name. -/
def nameBytes (name : String) : Bytes := name.toList.map fun c => UInt8.ofNat c.toNat

omit [Protobuf] in
/-- A `Get` for the key `k` by client `c`. -/
def getCall (requestId : UInt8) : RpcRequest where
  serviceName := nameBytes "kvServerRpc"
  methodName := nameBytes "Get"
  args := [10, 1, 107, 18, 1, 99, 24, requestId]

omit [Protobuf] in
/-- A provider of the method `Get`, which parses every argument of these runs. -/
def kvProvider : RpcProvider where
  serviceMap := [(nameBytes "kvServerRpc", { methodMap := [(nameBytes "Get", fun _ => true)] })]

omit [Protobuf] in
/-- The frames of two calls. -/
def twoFrames : List Bytes :=
  [getCall 1, getCall 2].map fun request => (callFrame request).getD []

omit [Protobuf] in
/-- Two frames that arrive one by one. -/
theorem deliver_eq_iff_oneByOne :
    letI := wireProtobuf
    kvProvider.deliver [] twoFrames = [getCall 1, getCall 2] := by
  let := wireProtobuf
  have := lawful_wireProtobuf
  refine (deliver_eq_iff kvProvider ?_ ?_ rfl).mpr ⟨rfl, ?_, ?_⟩
  · decide
  · decide
  · decide
  · decide

omit [Protobuf] in
/-- Two frames that arrive in one chunk: the second request is lost. -/
theorem merged_frames_lose_request :
    letI := wireProtobuf
    [getCall 1, getCall 2].map callFrame = twoFrames.map some ∧
      [twoFrames.flatten].flatten = twoFrames.flatten ∧
      kvProvider.deliver [] [twoFrames.flatten] = [getCall 1] ∧
      kvProvider.deliver [] [twoFrames.flatten] ≠ [getCall 1, getCall 2] := by
  let := wireProtobuf
  decide

end RpcProvider

end RaftStore
