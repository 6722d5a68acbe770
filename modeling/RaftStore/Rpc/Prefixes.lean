import RaftStore.Rpc.Framing

namespace RaftStore

/-!
# Whole frames and cut ones

What `OnMessage` makes of a buffer that begins with a frame, and of one that does not.  Of its three
reads only the last is tested, and protobuf parses a header that is cut behind a field.

* `CompleteFrame`, `CutHeader` — a buffer that begins with a whole frame; one whose header is cut
  short and parses all the same, as a header without arguments.
* `parseRequest_iff` — these are the two ways to find a request.
* `frame_roundTrip` — a frame and what follows it, in one buffer.
* `RpcProvider.dispatches_whole_frames_iff` — when only whole frames are dispatched.
-/

section frames

variable [Protobuf] {buffer frame : Bytes} {request : RpcRequest}

/-- The buffer begins with a whole frame: the size of the header, so many bytes that parse as a
    header, and as many bytes of arguments as the header says. -/
def CompleteFrame (buffer : Bytes) (request : RpcRequest) : Prop :=
  ∃ (size : UInt32) (rest : Bytes) (header : RpcHeader),
    readVarint32 10 buffer = some (size, rest) ∧ size.toNat ≤ rest.length ∧
    RpcHeader.parseFromString (rest.take size.toNat) = some header ∧
    header.argsSize.toNat ≤ (rest.drop size.toNat).length ∧
    request =
      { serviceName := header.serviceName
        methodName := header.methodName
        args := (rest.drop size.toNat).take header.argsSize.toNat }

/-- The header is not all there, and what there is of it parses as a header of a request without
    arguments. -/
def CutHeader (buffer : Bytes) (request : RpcRequest) : Prop :=
  ∃ header, (readHeaderSize buffer).2.length < (readHeaderSize buffer).1.toNat ∧
    RpcHeader.parseFromString
      (readString (readHeaderSize buffer).2 (readHeaderSize buffer).1).2.1 = some header ∧
    header.argsSize = 0 ∧
    request = { serviceName := header.serviceName, methodName := header.methodName, args := [] }

/-! ### Reading -/

omit [Protobuf] in
/-- A read that succeeds finds as many bytes as it asks for. -/
theorem readString_eq_true {input str rest : Bytes} {size : UInt32} (hshort : input.length < 2 ^ 31) :
    readString input size = (true, str, rest) ↔
      size.toNat ≤ input.length ∧ input.take size.toNat = str ∧ input.drop size.toNat = rest := by
  rw [readString]
  by_cases hneg : 2 ^ 31 ≤ size.toNat
  · rw [if_pos hneg]
    constructor
    · simp
    · rintro ⟨hle, _⟩
      omega
  · rw [if_neg hneg]
    by_cases hle : size.toNat ≤ input.length
    · rw [if_pos hle]
      simp [hle]
    · rw [if_neg hle]
      simp [hle]

omit [Protobuf] in
/-- A read that asks for too much takes nothing, or all there is. -/
theorem readString_of_lt {input : Bytes} {size : UInt32} (hlt : input.length < size.toNat) :
    readString input size = (false, [], input) ∨ readString input size = (false, input, []) := by
  rw [readString]
  split
  · exact Or.inl rfl
  · exact Or.inr (if_neg (by omega))

omit [Protobuf] in
/-- Reading nothing leaves everything. -/
theorem readString_zero (input : Bytes) : readString input 0 = (true, [], input) := by
  simp [readString]

omit [Protobuf] in
/-- A size of at most 0 is 0. -/
theorem eq_zero_of_toNat {size : UInt32} (h : size.toNat ≤ 0) : size = 0 :=
  UInt32.toNat_inj.mp (Nat.le_zero.mp h)

omit [Protobuf] in
/-- Where the size that is read does not exceed what follows, there was a size to read. -/
theorem readVarint32_of_le (h : (readHeaderSize buffer).1.toNat ≤ (readHeaderSize buffer).2.length) :
    readVarint32 10 buffer = some (readHeaderSize buffer) := by
  unfold readHeaderSize at h ⊢
  cases hread : readVarint32 10 buffer with
  | none =>
    rw [hread] at h
    exact absurd h (by decide)
  | some read => rfl

omit [Protobuf] in
/-- The size of the header is the varint in front. -/
theorem readHeaderSize_eq {size : UInt32} {rest : Bytes}
    (h : readVarint32 10 buffer = some (size, rest)) : readHeaderSize buffer = (size, rest) := by
  rw [readHeaderSize, h]
  rfl

omit [Protobuf] in
/-- What follows the size is no longer than the buffer. -/
theorem length_readHeaderSize_le : (readHeaderSize buffer).2.length ≤ buffer.length := by
  unfold readHeaderSize
  cases hread : readVarint32 10 buffer with
  | none => exact Nat.zero_le _
  | some read =>
    obtain ⟨size, rest⟩ := read
    obtain ⟨c, hlen, _⟩ := readVarint32_lt hread
    rw [Option.getD_some]
    show rest.length ≤ buffer.length
    omega

/-! ### The two ways to find a request -/

/-- A whole frame has a whole header. -/
theorem CompleteFrame.not_cutHeader {request' : RpcRequest} (h : CompleteFrame buffer request) :
    ¬ CutHeader buffer request' := by
  rintro ⟨_, hlt, _⟩
  obtain ⟨size, rest, header, hread, hle, _⟩ := h
  rw [readHeaderSize_eq hread] at hlt
  exact absurd hle (Nat.not_le_of_lt hlt)

/-- **Parsing.**  A request is found in a whole frame, or in a header that is cut short. -/
theorem parseRequest_iff : parseRequest buffer = some request ↔
    CompleteFrame (arrayInput buffer) request ∨ CutHeader (arrayInput buffer) request := by
  have hshort := (arrayInput_isPrefix buffer).2
  rw [parseRequest_eq_some]
  generalize arrayInput buffer = input at hshort ⊢
  have hrest : (readHeaderSize input).2.length < 2 ^ 31 :=
    Nat.lt_of_le_of_lt length_readHeaderSize_le hshort
  constructor
  · rintro ⟨size, rest, ok, headerStr, rest₁, header, rest₂, hsize, hstr, hparse, hargs, hservice,
      hmethod⟩
    rw [hsize] at hrest
    have hrest : rest.length < 2 ^ 31 := hrest
    by_cases hle : size.toNat ≤ rest.length
    · -- the whole header was there
      obtain ⟨rfl, rfl, rfl⟩ : ok = true ∧ headerStr = rest.take size.toNat ∧
          rest₁ = rest.drop size.toNat := by
        have hread := (readString_eq_true hrest).mpr ⟨hle, rfl, rfl⟩
        simpa using hstr.symm.trans hread
      have hdrop : (rest.drop size.toNat).length < 2 ^ 31 := by
        rw [List.length_drop]
        omega
      obtain ⟨hle₂, htake, _⟩ := (readString_eq_true hdrop).mp hargs
      have hread : readVarint32 10 input = some (size, rest) := by
        rw [← hsize]
        exact readVarint32_of_le (by rwa [hsize])
      refine Or.inl ⟨size, rest, header, hread, hle, hparse, hle₂, ?_⟩
      rw [hservice, hmethod, htake]
    · -- the header was cut short, and nothing is left for the arguments
      have hlt := Nat.lt_of_not_le hle
      have hzero : header.argsSize = 0 := by
        rcases readString_of_lt hlt with hcut | hcut
        · obtain ⟨-, rfl, -⟩ : ok = false ∧ headerStr = [] ∧ rest₁ = rest := by
            simpa using hstr.symm.trans hcut
          rw [← Option.some.inj hparse]
        · obtain ⟨-, -, rfl⟩ : ok = false ∧ headerStr = rest ∧ rest₁ = [] := by
            simpa using hstr.symm.trans hcut
          exact eq_zero_of_toNat ((readString_eq_true (by simp)).mp hargs).1
      rw [hzero, readString_zero] at hargs
      have hnone : request.args = [] := (Prod.mk.inj (Prod.mk.inj hargs).2).1.symm
      refine Or.inr ⟨header, by rwa [hsize], ?_, hzero, ?_⟩
      · rw [hsize]
        dsimp only
        rw [hstr]
        exact hparse
      · rw [hservice, hmethod, ← hnone]
  · rintro (⟨size, rest, header, hread, hle, hparse, hle₂, rfl⟩ | ⟨header, hlt, hparse, hzero, rfl⟩)
    · have hsize := readHeaderSize_eq hread
      rw [hsize] at hrest
      have hrest : rest.length < 2 ^ 31 := hrest
      have hdrop : (rest.drop size.toNat).length < 2 ^ 31 := by
        rw [List.length_drop]
        omega
      exact ⟨size, rest, true, _, _, header, _, hsize,
        (readString_eq_true hrest).mpr ⟨hle, rfl, rfl⟩, hparse,
        (readString_eq_true hdrop).mpr ⟨hle₂, rfl, rfl⟩, rfl, rfl⟩
    · -- whatever was read of the header, no bytes are asked for afterwards
      obtain ⟨size, rest, hsize⟩ : ∃ n rest, readHeaderSize input = (n, rest) := ⟨_, _, rfl⟩
      obtain ⟨ok, str, rest₁, hstr⟩ : ∃ ok str rest₁, readString rest size = (ok, str, rest₁) :=
        ⟨_, _, _, rfl⟩
      rw [hsize] at hparse
      dsimp only at hparse
      rw [hstr] at hparse
      refine ⟨size, rest, ok, str, rest₁, header, rest₁, hsize, hstr, hparse, ?_, rfl, rfl⟩
      rw [hzero]
      exact readString_zero rest₁

omit [Protobuf] in
/-- A varint is read the same with more behind it. -/
theorem readVarint32_append {k : ℕ} {input rest : Bytes} {n : UInt32}
    (h : readVarint32 k input = some (n, rest)) (more : Bytes) :
    readVarint32 k (input ++ more) = some (n, rest ++ more) := by
  obtain ⟨⟨m, rest'⟩, hm, heq⟩ := Option.map_eq_some_iff.mp h
  obtain ⟨rfl, rfl⟩ := Prod.mk.inj heq
  rw [readVarint32, readVarint_append hm, Option.map_some]

/-- A whole frame stays one if more follows. -/
theorem CompleteFrame.of_prefix {input : Bytes} (h : CompleteFrame input request)
    (hpre : input <+: buffer) : CompleteFrame buffer request := by
  obtain ⟨more, rfl⟩ := hpre
  obtain ⟨size, rest, header, hread, hle, hparse, hle₂, rfl⟩ := h
  have hdrop : (rest ++ more).drop size.toNat = rest.drop size.toNat ++ more :=
    List.drop_append_of_le_length hle
  refine ⟨size, rest ++ more, header, readVarint32_append hread more, ?_, ?_, ?_, ?_⟩
  · rw [List.length_append]
    omega
  · rwa [List.take_append_of_le_length hle]
  · rw [hdrop, List.length_append]
    omega
  · rw [hdrop, List.take_append_of_le_length hle₂]

/-- A buffer that begins with a beginning of a frame begins with a whole frame only if that is all
    of it. -/
theorem CompleteFrame.length_le (h : CompleteFrame buffer request) {call : RpcRequest}
    (hframe : callFrame call = some frame) (hpre : buffer <+: frame) :
    frame.length ≤ buffer.length := by
  obtain ⟨size, rest, header, hread, hle, hparse, hle₂, _⟩ := h
  obtain ⟨more, hmore⟩ := hpre
  obtain ⟨hargs, hheader, hbytes⟩ := callFrame_eq_some.mp hframe
  -- the size and the header that are read are those of the frame
  have hread' := readVarint32_append hread more
  rw [hmore, ← hbytes, List.append_assoc, readVarint32_writeVarint32 (by omega)] at hread'
  obtain ⟨hsize, htail⟩ := Prod.mk.inj (Option.some.inj hread')
  have hsize' : size.toNat = call.header.asString.length := by
    rw [← hsize, toNat_ofNat_of_lt hheader]
  have htake : rest.take size.toNat = call.header.asString := by
    have htake := congrArg (List.take size.toNat) htail
    rw [hsize', List.take_left, List.take_append_of_le_length (by omega)] at htake
    rw [hsize', ← htake]
  rw [htake, RpcHeader.parseFromString_asString _ hheader] at hparse
  obtain rfl := Option.some.inj hparse
  -- so that the arguments reach to the end of the frame
  have hargsSize : call.header.argsSize.toNat = call.args.length := toNat_ofNat_of_lt hargs
  have hlen := congrArg List.length htail
  have htotal := congrArg List.length hmore
  rw [List.length_append, List.length_append] at hlen
  rw [List.length_drop] at hle₂
  rw [List.length_append] at htotal
  omega

/-! ### A frame and what follows it -/

/-- **Round trip.**  A frame with further bytes behind it, below 2 GiB together, is decoded to its
    request, which is dispatched if it is served. -/
theorem frame_roundTrip (p : RpcProvider) (hframe : callFrame request = some frame) (more : Bytes)
    (hlen : (frame ++ more).length < 2 ^ 31) :
    parseRequest (frame ++ more) = some request ∧
      (p.onMessage (frame ++ more)).1 = if p.serves request then some request else none := by
  have hparse := parseRequest_append hframe more hlen
  refine ⟨hparse, ?_⟩
  rw [RpcProvider.onMessage, hparse]
  dsimp only
  cases p.serves request <;> rfl

/-- A buffer whose size is negative as an `int` is not read. -/
theorem parseRequest_twoGiB (hlo : 2 ^ 31 ≤ buffer.length) (hhi : buffer.length < 2 ^ 32) :
    parseRequest buffer = some { serviceName := [], methodName := [], args := [] } := by
  have hempty : arrayInput buffer = [] := by
    rw [arrayInput, Nat.mod_eq_of_lt hhi, if_neg (by omega)]
  rw [parseRequest, hempty]
  rfl

end frames

/-! ### What is dispatched -/

namespace RpcProvider

section dispatch

variable [Protobuf]

/-- **Whole frames.**  What `OnMessage` dispatches is the frame that the buffer begins with, unless
    the header is cut short and the request that is left of it is served; and of a frame whose end
    is missing nothing is dispatched, with the same exception. -/
theorem dispatches_whole_frames_iff (p : RpcProvider) (buffer : Bytes) :
    ((∀ request, (p.onMessage buffer).1 = some request → CompleteFrame buffer request) ↔
      ∀ request, CutHeader (arrayInput buffer) request → p.serves request = true →
        CompleteFrame buffer request) ∧
    ∀ call frame, callFrame call = some frame → buffer <+: frame → buffer ≠ frame →
      ((p.onMessage buffer).1 = none ↔
        ∀ request, CutHeader (arrayInput buffer) request → p.serves request = false) := by
  have hinput := (arrayInput_isPrefix buffer).1
  refine ⟨⟨fun h request hcut hserves => ?_, fun h request hdispatch => ?_⟩,
    fun call frame hframe hpre hne => ⟨fun hnone request hcut => ?_, fun h => ?_⟩⟩
  · exact h request (onMessage_fst.mpr ⟨parseRequest_iff.mpr (Or.inr hcut), hserves⟩)
  · obtain ⟨hparse, hserves⟩ := onMessage_fst.mp hdispatch
    rcases parseRequest_iff.mp hparse with hwhole | hcut
    · exact hwhole.of_prefix hinput
    · exact h request hcut hserves
  · by_contra hserves
    have hdispatch := onMessage_fst.mpr
      ⟨parseRequest_iff.mpr (Or.inr hcut), (Bool.not_eq_false _).mp hserves⟩
    rw [hnone] at hdispatch
    cases hdispatch
  · cases hdispatch : (p.onMessage buffer).1 with
    | none => rfl
    | some request =>
      obtain ⟨hparse, hserves⟩ := onMessage_fst.mp hdispatch
      rcases parseRequest_iff.mp hparse with hwhole | hcut
      · -- a whole frame would be all of it
        have hle := (hwhole.of_prefix hinput).length_le hframe hpre
        exact absurd (hpre.eq_of_length_le hle) hne
      · rw [h request hcut] at hserves
        cases hserves

end dispatch

/-! ### Runs -/

/-- A frame, and another one behind it. -/
theorem frame_roundTrip_twoFrames :
    letI := wireProtobuf
    parseRequest twoFrames.flatten = some (getCall 1) := by
  let := wireProtobuf
  have hframe : callFrame (getCall 1) = some ((callFrame (getCall 1)).getD []) := by
    decide
  exact (frame_roundTrip kvProvider hframe ((callFrame (getCall 2)).getD [])
    (by decide)).1

/-- With arguments of one byte less than 2 GiB the frame is not read at all. -/
theorem frame_roundTrip_large :
    letI := wireProtobuf
    ∃ args : Bytes, args.length < 2 ^ 31 ∧ ∃ frame,
      callFrame { getCall 1 with args } = some frame ∧
      kvProvider.serves { getCall 1 with args } = true ∧
      parseRequest frame ≠ some { getCall 1 with args } ∧
      (kvProvider.onMessage frame).1 = none := by
  let := wireProtobuf
  obtain ⟨args, hlen⟩ : ∃ args : Bytes, args.length = 2 ^ 31 - 1 :=
    ⟨List.replicate (2 ^ 31 - 1) 0, List.length_replicate ..⟩
  have hheader : RpcRequest.header { getCall 1 with args } =
      { serviceName := nameBytes "kvServerRpc"
        methodName := nameBytes "Get"
        argsSize := 2147483647 } := by
    simp [RpcRequest.header, getCall, hlen]
  have hsize : (RpcRequest.header { getCall 1 with args }).asString.length = 24 := by
    rw [hheader]
    decide
  obtain ⟨frame, hbytes⟩ : ∃ frame, writeVarint32 (UInt32.ofNat
      (RpcRequest.header { getCall 1 with args }).asString.length) ++
    (RpcRequest.header { getCall 1 with args }).asString ++ args = frame := ⟨_, rfl⟩
  have hframe : callFrame { getCall 1 with args } = some frame :=
    callFrame_eq_some.mpr ⟨show args.length < 2 ^ 31 by omega, by omega, hbytes⟩
  have htotal : frame.length = 1 + 24 + (2 ^ 31 - 1) := by
    have hone : (writeVarint32 (UInt32.ofNat 24)).length = 1 := by decide
    rw [← hbytes, List.length_append, List.length_append, hsize, hone, hlen]
  have hparse := parseRequest_twoGiB (show 2 ^ 31 ≤ frame.length by omega) (by omega)
  refine ⟨args, by omega, frame, hframe, rfl, ?_, ?_⟩
  · rw [hparse]
    intro h
    have hname : [] = nameBytes "Get" := congrArg RpcRequest.methodName (Option.some.inj h)
    exact absurd hname (by decide)
  · rw [onMessage, hparse]
    rfl

/-- The frame of a `Get` without its arguments and without the field of their size. -/
theorem dispatches_cut_header :
    letI := wireProtobuf
    let frame := (callFrame (getCall 1)).getD []
    callFrame (getCall 1) = some frame ∧
      (kvProvider.onMessage (frame.take 19)).1 = some { getCall 1 with args := [] } := by
  let := wireProtobuf
  decide

end RpcProvider

end RaftStore
