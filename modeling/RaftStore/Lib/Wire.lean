import Mathlib.Data.List.Nodup
import RaftStore.Lib.Tallies
import RaftStore.Lib.Varint

namespace RaftStore

/-!
# Messages as records

A message is written field by field, each value as a record: a key of one byte and the encoding of
the value.  The reader takes record after record, whatever their order, and stores what it finds;
a record with an unknown key is left to a parameter.  Nothing here names a repository.

* `WireField` — a field, with the laws that a value is read back from its encoding and from no
  part of it, and that storing one value adds at most one.
* `WireField.bytes`, `.int32`, `.uint32`, `.bool`, `.repeated` — the kinds of field.
* `WireMessage` — the fields of a type of message; the laws are that merging a message into the
  empty one gives it back, and that storing a value leaves the other fields alone.
* `WireMessage.parse_serialize`, `parse_append` — **round trip**, and two messages one after the
  other are read as their merge.
* `WireMessage.parse_take` — a message that ends too early is not read as the message.
* `WireMessage.length_serialize` — the size that is computed in advance.
-/

/-! ### Sizes -/

/-- The number of bytes of a varint: `floor(log2(n)) / 7 + 1`. -/
def varintSize (n : ℕ) : ℕ := n.log2 / 7 + 1

/-- A number below 128 takes one byte. -/
theorem varintSize_of_lt {n : ℕ} (h : n < 128) : varintSize n = 1 := by
  have hlog : n.log2 < 7 := by
    by_cases hn : n = 0
    · subst hn
      decide
    · exact (Nat.log2_lt hn).mpr (by omega)
  rw [varintSize, Nat.div_eq_of_lt hlog]

/-- Seven bits more are one byte more. -/
theorem varintSize_div {n : ℕ} (h : 128 ≤ n) : varintSize n = varintSize (n / 128) + 1 := by
  have hlog : n.log2 = (n / 128).log2 + 7 := by
    have hpos : n / 128 ≠ 0 := by omega
    have hlow := Nat.log2_self_le hpos
    have hhigh : n / 128 < 2 ^ ((n / 128).log2 + 1) := Nat.lt_log2_self
    refine (Nat.log2_eq_iff (by omega)).mpr ⟨?_, ?_⟩
    · rw [Nat.pow_add]
      omega
    · rw [show (n / 128).log2 + 7 + 1 = (n / 128).log2 + 1 + 7 by omega, Nat.pow_add]
      omega
  rw [varintSize, varintSize, hlog]
  omega

/-- A varint is as long as its size says. -/
theorem length_writeVarint {k n : ℕ} (h : n < 128 ^ (k + 1)) :
    (writeVarint k n).length = varintSize n := by
  induction k generalizing n with
  | zero => rw [varintSize_of_lt (by simpa using h), writeVarint, List.length_singleton]
  | succ k ih =>
    rw [writeVarint]
    split
    · rename_i hsmall
      rw [varintSize_of_lt hsmall, List.length_singleton]
    · rename_i hlarge
      have hdiv : n / 128 < 128 ^ (k + 1) := by
        rw [Nat.pow_succ] at h
        omega
      rw [List.length_cons, ih hdiv, ← varintSize_div (by omega)]

/-! ### Strings with their length in front -/

/-- The length as 32 bits, and the bytes. -/
def prefixed (str : Bytes) : Bytes := writeVarint 4 (str.length % 2 ^ 32) ++ str

/-- Bytes with their length in front, and what follows. -/
def readPrefixed (input : Bytes) : Option (Bytes × Bytes) := do
  let (size, input) ← readVarint 5 input
  if 2 ^ 31 ≤ size ∨ input.length < size then none
  return (input.take size, input.drop size)

/-- The size of bytes with their length in front. -/
def prefixedSize (length : ℕ) : ℕ := varintSize (length % 2 ^ 32) + length

/-- They are as long as their size says. -/
theorem length_prefixed (str : Bytes) : (prefixed str).length = prefixedSize str.length := by
  have hlt : str.length % 2 ^ 32 < 128 ^ (4 + 1) := by omega
  rw [prefixed, List.length_append, length_writeVarint hlt, prefixedSize]

/-- They are read back, whatever follows. -/
theorem readPrefixed_prefixed {str : Bytes} (h : str.length < 2 ^ 31) (rest : Bytes) :
    readPrefixed (prefixed str ++ rest) = some (str, rest) := by
  have hmod : str.length % 2 ^ 32 = str.length := Nat.mod_eq_of_lt (by omega)
  have hread : readVarint 5 (writeVarint 4 str.length ++ (str ++ rest)) =
      some (str.length, str ++ rest) :=
    readVarint_writeVarint (by omega) (by omega) _
  have hnot : ¬ (2 ^ 31 ≤ str.length ∨ (str ++ rest).length < str.length) := by
    rw [List.length_append]
    omega
  rw [readPrefixed, prefixed, hmod, List.append_assoc, hread, Option.bind_eq_bind, Option.bind_some]
  dsimp only
  rw [if_neg hnot, List.take_left, List.drop_left]
  rfl

/-- A string that ends too early cannot be read. -/
theorem readPrefixed_take {str : Bytes} (h : str.length < 2 ^ 31) {i : ℕ}
    (hi : i < (prefixed str).length) : readPrefixed ((prefixed str).take i) = none := by
  have hmod : str.length % 2 ^ 32 = str.length := Nat.mod_eq_of_lt (by omega)
  rw [prefixed, hmod] at hi ⊢
  rw [List.length_append] at hi
  by_cases hsize : i < (writeVarint 4 str.length).length
  · -- not even the size is there
    rw [List.take_append_of_le_length (Nat.le_of_lt hsize), readPrefixed, readVarint_take 5 hsize]
    rfl
  · have hread := readVarint_writeVarint (k := 4) (n := str.length) (j := 5) (by omega) (by omega)
      (str.take (i - (writeVarint 4 str.length).length))
    have hshort : (str.take (i - (writeVarint 4 str.length).length)).length < str.length := by
      rw [List.length_take]
      omega
    rw [List.take_append, List.take_of_length_le (Nat.le_of_not_lt hsize), readPrefixed, hread,
      Option.bind_eq_bind, Option.bind_some]
    dsimp only
    rw [if_pos (Or.inr hshort)]
    rfl

/-! ### Fields -/

/-- A field of messages `M`.  A singular field has no value if it is the default. -/
structure WireField (M : Type) where
  Value : Type
  /-- the number of the field and the wire type of its values -/
  key : ℕ
  values : M → List Value
  put : M → Value → M
  encode : Value → Bytes
  decode : Bytes → Option (Value × Bytes)
  size : Value → ℕ
  key_pos : 0 < key
  key_lt : key < 128
  decode_encode : ∀ v rest, (encode v).length < 2 ^ 31 → decode (encode v ++ rest) = some (v, rest)
  decode_take : ∀ v i, (encode v).length < 2 ^ 31 → i < (encode v).length →
    decode ((encode v).take i) = none
  length_encode : ∀ v, (encode v).length = size v
  values_put : ∀ m v, (values (put m v)).length ≤ (values m).length + 1

namespace WireField

variable {M : Type}

/-- A record: the key and a value. -/
def record (f : WireField M) (v : f.Value) : Bytes := UInt8.ofNat f.key :: f.encode v

/-- What a message has to say about the field. -/
def write (f : WireField M) (m : M) : Bytes := (f.values m).flatMap f.record

/-- The values that `m` has are put into `acc`. -/
def merge (f : WireField M) (acc m : M) : M := (f.values m).foldl f.put acc

/-- `bytes`. -/
def bytes (key : ℕ) (get : M → Bytes) (put : M → Bytes → M) (hkey : 0 < key ∧ key < 128) :
    WireField M where
  Value := Bytes
  key
  values m := if get m = [] then [] else [get m]
  put
  encode := prefixed
  decode := readPrefixed
  size str := prefixedSize str.length
  key_pos := hkey.1
  key_lt := hkey.2
  decode_encode str rest h := by
    refine readPrefixed_prefixed (Nat.lt_of_le_of_lt ?_ h) rest
    rw [prefixed, List.length_append]
    omega
  decode_take str i h hi := by
    refine readPrefixed_take (Nat.lt_of_le_of_lt ?_ h) hi
    rw [prefixed, List.length_append]
    omega
  length_encode := length_prefixed
  values_put m v := by
    split <;> simp

/-- What is left of the 64 bits is the number. -/
theorem ofNat_toInt64 (v : Int32) : Int32.ofNat v.toInt64.toUInt64.toNat = v := by
  apply Int32.toBitVec_inj.mp
  show BitVec.ofNat 32 (v.toBitVec.signExtend 64).toNat = v.toBitVec
  rw [BitVec.ofNat_toNat]
  ext i hi
  simp only [BitVec.getElem_setWidth, BitVec.getLsbD_signExtend]
  simp [hi, BitVec.getLsbD_eq_getElem]
  omega

/-- `int32`; a negative number is extended to 64 bits. -/
def int32 (key : ℕ) (get : M → Int32) (put : M → Int32 → M) (hkey : 0 < key ∧ key < 128) :
    WireField M where
  Value := Int32
  key
  values m := if get m = 0 then [] else [get m]
  put
  encode v := writeVarint 9 v.toInt64.toUInt64.toNat
  decode input := (readVarint 10 input).map fun (n, rest) => (Int32.ofNat n, rest)
  size v := varintSize v.toInt64.toUInt64.toNat
  key_pos := hkey.1
  key_lt := hkey.2
  decode_encode v rest _ := by
    have hlt := v.toInt64.toUInt64.toNat_lt
    rw [readVarint_writeVarint (by omega) (by omega), Option.map_some]
    dsimp only
    rw [ofNat_toInt64]
  decode_take v i _ hi := by rw [readVarint_take 10 hi, Option.map_none]
  length_encode v := by
    have hlt := v.toInt64.toUInt64.toNat_lt
    exact length_writeVarint (by omega)
  values_put m v := by
    split <;> simp

/-- `uint32`. -/
def uint32 (key : ℕ) (get : M → UInt32) (put : M → UInt32 → M) (hkey : 0 < key ∧ key < 128) :
    WireField M where
  Value := UInt32
  key
  values m := if get m = 0 then [] else [get m]
  put
  encode v := writeVarint 4 v.toNat
  decode input := (readVarint 10 input).map fun (n, rest) => (UInt32.ofNat n, rest)
  size v := varintSize v.toNat
  key_pos := hkey.1
  key_lt := hkey.2
  decode_encode v rest _ := by
    have hlt := v.toNat_lt
    rw [readVarint_writeVarint (by omega) (by omega), Option.map_some]
    simp
  decode_take v i _ hi := by rw [readVarint_take 10 hi, Option.map_none]
  length_encode v := by
    have hlt := v.toNat_lt
    exact length_writeVarint (by omega)
  values_put m v := by
    split <;> simp

/-- `bool`; any other number than 0 is read as `true`. -/
def bool (key : ℕ) (get : M → Bool) (put : M → Bool → M) (hkey : 0 < key ∧ key < 128) :
    WireField M where
  Value := Bool
  key
  values m := if get m then [true] else []
  put
  encode v := [if v then 1 else 0]
  decode input := (readVarint 10 input).map fun (n, rest) => (decide (n % 2 ^ 64 ≠ 0), rest)
  size _ := 1
  key_pos := hkey.1
  key_lt := hkey.2
  decode_encode v rest _ := by
    cases v with
    | false => rfl
    | true => rfl
  decode_take v i _ hi := by
    rw [List.length_singleton, Nat.lt_one_iff] at hi
    subst hi
    rfl
  length_encode _ := rfl
  values_put m v := by
    split <;> simp

end WireField

/-! ### Messages -/

/-- What `m` says is put into `acc`, field by field. -/
def mergeFields {M : Type} (fields : List (WireField M)) (acc m : M) : M :=
  fields.foldl (fun acc f => f.merge acc m) acc

section merge

variable {M : Type} {key : ℕ} {hkey : 0 < key ∧ key < 128} {fields : List (WireField M)} {acc m : M}

/-- Without fields nothing is merged. -/
@[simp] theorem mergeFields_nil : mergeFields [] acc m = acc := rfl

/-- The first field is merged, and then the others. -/
theorem mergeFields_cons (f : WireField M) :
    mergeFields (f :: fields) acc m = mergeFields fields (f.merge acc m) m := rfl

/-- A singular field is merged into a message that has its default there. -/
theorem mergeFields_bytes {get : M → Bytes} {put : M → Bytes → M} (h : put acc [] = acc) :
    mergeFields (.bytes key get put hkey :: fields) acc m =
      mergeFields fields (put acc (get m)) m := by
  show mergeFields fields ((if get m = [] then [] else [get m]).foldl put acc) m = _
  split
  · rename_i hm
    rw [hm, h, List.foldl_nil]
  · rfl

/-- An `int32` field is replaced unless it is 0. -/
theorem mergeFields_int32 {get : M → Int32} {put : M → Int32 → M} (h : put acc 0 = acc) :
    mergeFields (.int32 key get put hkey :: fields) acc m =
      mergeFields fields (put acc (get m)) m := by
  show mergeFields fields ((if get m = 0 then [] else [get m]).foldl put acc) m = _
  split
  · rename_i hm
    rw [hm, h, List.foldl_nil]
  · rfl

/-- A `uint32` field is replaced unless it is 0. -/
theorem mergeFields_uint32 {get : M → UInt32} {put : M → UInt32 → M} (h : put acc 0 = acc) :
    mergeFields (.uint32 key get put hkey :: fields) acc m =
      mergeFields fields (put acc (get m)) m := by
  show mergeFields fields ((if get m = 0 then [] else [get m]).foldl put acc) m = _
  split
  · rename_i hm
    rw [hm, h, List.foldl_nil]
  · rfl

/-- A `bool` field is replaced unless it is false. -/
theorem mergeFields_bool {get : M → Bool} {put : M → Bool → M} (h : put acc false = acc) :
    mergeFields (.bool key get put hkey :: fields) acc m =
      mergeFields fields (put acc (get m)) m := by
  show mergeFields fields ((if get m then [true] else []).foldl put acc) m = _
  cases hm : get m with
  | false => rw [if_neg Bool.false_ne_true, h, List.foldl_nil]
  | true => rfl

end merge

/-- A type of messages. -/
structure WireMessage (M : Type) where
  empty : M
  fields : List (WireField M)
  keys : (fields.map (·.key)).Nodup
  merge_empty : ∀ m, mergeFields fields empty m = m
  values_empty : ∀ f ∈ fields, f.values empty = []
  values_put : ∀ f ∈ fields, ∀ g ∈ fields, g.key ≠ f.key →
    ∀ m v, g.values (f.put m v) = g.values m

namespace WireMessage

variable {M : Type} (c : WireMessage M) (unknown : ℕ → Bytes → Option Bytes)

/-- The fields one after another. -/
def serialize (m : M) : Bytes := c.fields.flatMap fun f => f.write m

/-- Each field of the one message is merged into the other. -/
def mergeFrom (acc m : M) : M := mergeFields c.fields acc m

/-- The size that is computed before the message is written. -/
def byteSize (m : M) : ℕ :=
  tally (fun f => tally (fun v => 1 + f.size v) (f.values m)) c.fields

/-- The key of a record, of which 32 bits count. -/
def readKey (input : Bytes) : Option (ℕ × Bytes) :=
  (readVarint 5 input).map fun (n, rest) => (n % 2 ^ 32, rest)

/-- The records in `input`, put into `acc`; every round takes at least the byte of a key. -/
def parseLoop : ℕ → M → Bytes → Option M
  | _, acc, [] => some acc
  | 0, _, _ :: _ => none
  | fuel + 1, acc, byte :: input => do
    let (key, input) ← readKey (byte :: input)
    match c.fields.find? fun f => f.key == key with
    | some f =>
      let (v, input) ← f.decode input
      parseLoop fuel (f.put acc v) input
    | none =>
      -- the end of a group, or no key
      if key = 0 ∨ key % 8 = 4 then none
      else
        let input ← unknown key input
        parseLoop fuel acc input

/-- A message is read from the first to the last byte. -/
def parse (input : Bytes) : Option M := c.parseLoop unknown input.length c.empty input

/-- `none` for a message that is too large. -/
def serializeToString (m : M) : Option Bytes :=
  if (c.serialize m).length < 2 ^ 31 then some (c.serialize m) else none

variable {c unknown} {f : WireField M} {acc m : M} {fuel : ℕ}

/-- A key of one byte is read. -/
theorem readKey_cons {key : ℕ} (h : key < 128) (rest : Bytes) :
    readKey (UInt8.ofNat key :: rest) = some (key, rest) := by
  rw [readKey, readVarint_last h, Option.map_some]
  dsimp only
  rw [Nat.mod_eq_of_lt (by omega)]

/-- A field is found by its key. -/
theorem find?_key {fields : List (WireField M)} (hkeys : (fields.map (·.key)).Nodup)
    (hf : f ∈ fields) : (fields.find? fun g => g.key == f.key) = some f := by
  induction fields with
  | nil => cases hf
  | cons g fields ih =>
    rw [List.map_cons, List.nodup_cons] at hkeys
    rw [List.find?_cons]
    rcases List.mem_cons.mp hf with rfl | hmem
    · simp
    · have hne : g.key ≠ f.key := fun heq =>
        hkeys.1 (heq ▸ List.mem_map_of_mem hmem)
      rw [beq_eq_false_iff_ne.mpr hne]
      exact ih hkeys.2 hmem

/-- A record is taken. -/
theorem parseLoop_record (hf : f ∈ c.fields) (v : f.Value) (hv : (f.encode v).length < 2 ^ 31)
    (rest : Bytes) :
    c.parseLoop unknown (fuel + 1) acc (f.record v ++ rest) =
      c.parseLoop unknown fuel (f.put acc v) rest := by
  rw [WireField.record, List.cons_append, parseLoop, readKey_cons f.key_lt, Option.bind_eq_bind,
    Option.bind_some]
  dsimp only
  rw [find?_key c.keys hf]
  dsimp only
  rw [f.decode_encode v rest hv, Option.bind_eq_bind, Option.bind_some]

/-- A record that is cut is not: of its first byte nothing is left, or not all of the value. -/
theorem parseLoop_record_take (hf : f ∈ c.fields) (v : f.Value) (hv : (f.encode v).length < 2 ^ 31)
    {i : ℕ} (hpos : 0 < i) (hi : i < (f.record v).length) :
    c.parseLoop unknown fuel acc ((f.record v).take i) = none := by
  obtain ⟨i, rfl⟩ : ∃ j, i = j + 1 := ⟨i - 1, by omega⟩
  rw [WireField.record, List.length_cons] at hi
  rw [WireField.record, List.take_succ_cons]
  cases fuel with
  | zero => rfl
  | succ fuel =>
    rw [parseLoop, readKey_cons f.key_lt, Option.bind_eq_bind, Option.bind_some]
    dsimp only
    rw [find?_key c.keys hf]
    dsimp only
    rw [f.decode_take v i hv (by omega)]
    rfl

/-! ### The records of a message -/

/-- The records of a message, with their fields. -/
def records (c : WireMessage M) (m : M) : List (Σ f : WireField M, f.Value) :=
  c.fields.flatMap fun f => (f.values m).map fun v => ⟨f, v⟩

/-- A record is a field with one of its values. -/
theorem mem_records {r : Σ f : WireField M, f.Value} :
    r ∈ c.records m ↔ r.1 ∈ c.fields ∧ r.2 ∈ r.1.values m := by
  obtain ⟨f, v⟩ := r
  simp only [records, List.mem_flatMap, List.mem_map]
  constructor
  · rintro ⟨g, hg, w, hw, heq⟩
    cases heq
    exact ⟨hg, hw⟩
  · rintro ⟨hf, hv⟩
    exact ⟨f, hf, v, hv, rfl⟩

/-- A message is written record by record. -/
theorem serialize_eq (c : WireMessage M) (m : M) :
    c.serialize m = (c.records m).flatMap fun r => r.1.record r.2 := by
  simp only [serialize, records, List.flatMap_assoc, List.flatMap_map]
  rfl

/-- A message is merged record by record. -/
theorem mergeFrom_eq (c : WireMessage M) (acc m : M) :
    c.mergeFrom acc m = (c.records m).foldl (fun acc r => r.1.put acc r.2) acc := by
  rw [mergeFrom, mergeFields, records, List.foldl_flatMap]
  simp only [List.foldl_map]
  rfl

/-- Records are taken in their order. -/
theorem parseLoop_records (rs : List (Σ f : WireField M, f.Value))
    (hrs : ∀ r ∈ rs, r.1 ∈ c.fields ∧ (r.1.encode r.2).length < 2 ^ 31) (acc : M) (rest : Bytes) :
    c.parseLoop unknown (fuel + rs.length) acc ((rs.flatMap fun r => r.1.record r.2) ++ rest) =
      c.parseLoop unknown fuel (rs.foldl (fun acc r => r.1.put acc r.2) acc) rest := by
  induction rs generalizing acc with
  | nil => rfl
  | cons r rs ih =>
    obtain ⟨⟨hf, hv⟩, hrs⟩ := List.forall_mem_cons.mp hrs
    rw [List.flatMap_cons, List.append_assoc, List.length_cons, ← Nat.add_assoc,
      parseLoop_record hf r.2 hv, ih hrs, List.foldl_cons]

/-! ### Sizes of messages -/

/-- The length of what is written is the sum over the parts. -/
theorem length_flatMap_eq {α β : Type*} (g : α → List β) (l : List α) :
    (l.flatMap g).length = tally (fun a => (g a).length) l := by
  induction l with
  | nil => rfl
  | cons a l ih => rw [List.flatMap_cons, List.length_append, tally_cons, ih]

/-- **The size is right.** -/
theorem length_serialize (c : WireMessage M) (m : M) :
    (c.serialize m).length = c.byteSize m := by
  have hrecord : ∀ (f : WireField M) (v : f.Value), (f.record v).length = 1 + f.size v := by
    intro f v
    rw [WireField.record, List.length_cons, f.length_encode, Nat.add_comm]
  have hwrite : ∀ f : WireField M,
      (f.write m).length = tally (fun v => 1 + f.size v) (f.values m) := by
    intro f
    rw [WireField.write, length_flatMap_eq]
    simp only [hrecord]
  rw [serialize, length_flatMap_eq, byteSize]
  simp only [hwrite]

/-- No value is larger than the message. -/
theorem encode_lt (h : (c.serialize m).length < 2 ^ 31) :
    ∀ r ∈ c.records m, r.1 ∈ c.fields ∧ (r.1.encode r.2).length < 2 ^ 31 := by
  intro r hr
  obtain ⟨hf, hv⟩ := mem_records.mp hr
  obtain ⟨i, hi⟩ := List.getElem?_of_mem hf
  obtain ⟨j, hj⟩ := List.getElem?_of_mem hv
  refine ⟨hf, Nat.lt_of_le_of_lt ?_ h⟩
  rw [length_serialize, byteSize, r.1.length_encode]
  calc r.1.size r.2 ≤ 1 + r.1.size r.2 := Nat.le_add_left _ _
    _ ≤ tally (fun v => 1 + r.1.size v) (r.1.values m) := le_tally (g := fun v => 1 + r.1.size v) hj
    _ ≤ _ := le_tally (g := fun f => tally (fun v => 1 + f.size v) (f.values m)) hi

/-- There are no more records than bytes. -/
theorem length_records_le (c : WireMessage M) (m : M) :
    (c.records m).length ≤ (c.serialize m).length := by
  rw [serialize_eq]
  induction c.records m with
  | nil => exact Nat.le_refl 0
  | cons r rs ih =>
    rw [List.flatMap_cons, List.length_append, List.length_cons, WireField.record, List.length_cons]
    omega

/-! ### Round trips -/

/-- A message in front of the input is put into `acc`. -/
theorem parseLoop_serialize (h : (c.serialize m).length < 2 ^ 31) (acc : M) (rest : Bytes) :
    c.parseLoop unknown (fuel + (c.records m).length) acc (c.serialize m ++ rest) =
      c.parseLoop unknown fuel (c.mergeFrom acc m) rest := by
  rw [serialize_eq, mergeFrom_eq]
  exact parseLoop_records _ (encode_lt h) acc rest

/-- At the end of the bytes the message is complete. -/
theorem parseLoop_nil (fuel : ℕ) (acc : M) : c.parseLoop unknown fuel acc [] = some acc := by
  cases fuel <;> rfl

/-- Two messages one after the other are read as the first with the second merged into it. -/
theorem parse_append {m' : M} (h : (c.serialize m).length < 2 ^ 31)
    (h' : (c.serialize m').length < 2 ^ 31) :
    c.parse unknown (c.serialize m ++ c.serialize m') = some (c.mergeFrom m m') := by
  have hle := length_records_le c m
  have hle' := length_records_le c m'
  obtain ⟨fuel, hfuel⟩ : ∃ fuel, (c.serialize m ++ c.serialize m').length =
      fuel + (c.records m').length + (c.records m).length := by
    refine ⟨(c.serialize m ++ c.serialize m').length -
      ((c.records m').length + (c.records m).length), ?_⟩
    rw [List.length_append]
    omega
  have hlast : c.parseLoop unknown (fuel + (c.records m').length) m (c.serialize m' ++ []) =
      c.parseLoop unknown fuel (c.mergeFrom m m') [] := parseLoop_serialize h' m []
  rw [List.append_nil, parseLoop_nil] at hlast
  rw [parse, hfuel, parseLoop_serialize h, mergeFrom, c.merge_empty, hlast]

/-- **Round trip.** -/
theorem parse_serialize (h : (c.serialize m).length < 2 ^ 31) :
    c.parse unknown (c.serialize m) = some m := by
  have hle := length_records_le c m
  obtain ⟨fuel, hfuel⟩ : ∃ fuel, (c.serialize m).length = fuel + (c.records m).length :=
    ⟨(c.serialize m).length - (c.records m).length, by omega⟩
  have hparse : c.parseLoop unknown (fuel + (c.records m).length) c.empty (c.serialize m ++ []) =
      c.parseLoop unknown fuel (c.mergeFrom c.empty m) [] := parseLoop_serialize h c.empty []
  rw [List.append_nil, parseLoop_nil, mergeFrom, c.merge_empty] at hparse
  rw [parse, hfuel, hparse]

/-! ### Messages that end too early -/

/-- The number of values of a message. -/
def count (c : WireMessage M) (m : M) : ℕ := (c.records m).length

/-- The number of records is the sum over the fields. -/
theorem count_eq (c : WireMessage M) (m : M) :
    c.count m = tally (fun f => (f.values m).length) c.fields := by
  rw [count, records, length_flatMap_eq]
  simp only [List.length_map]

/-- The empty message has no record. -/
theorem count_empty (c : WireMessage M) : c.count c.empty = 0 := by
  rw [count, List.length_eq_zero_iff, records, List.flatMap_eq_nil_iff]
  intro f hf
  rw [c.values_empty f hf, List.map_nil]

/-- Storing a value adds at most one: the other fields keep theirs. -/
theorem count_put (hf : f ∈ c.fields) (m : M) (v : f.Value) :
    c.count (f.put m v) ≤ c.count m + 1 := by
  rw [count_eq, count_eq]
  refine tally_le_succ (b := f.key) c.keys ?_ ?_
  · intro g hg hne
    rw [c.values_put f hf g hg hne]
  · intro g hg
    by_cases hkey : g.key = f.key
    · have hgf : g = f := by
        have hfind := find?_key c.keys hg
        rw [hkey, find?_key c.keys hf] at hfind
        exact (Option.some.inj hfind).symm
      subst hgf
      exact g.values_put m v
    · rw [c.values_put f hf g hg hkey]
      exact Nat.le_succ _

/-- What is read from records that end too early has fewer values. -/
theorem count_parseLoop_take (rs : List (Σ f : WireField M, f.Value))
    (hrs : ∀ r ∈ rs, r.1 ∈ c.fields ∧ (r.1.encode r.2).length < 2 ^ 31) {i : ℕ}
    (hi : i < (rs.flatMap fun r => r.1.record r.2).length) {acc m : M}
    (hparse : c.parseLoop unknown fuel acc ((rs.flatMap fun r => r.1.record r.2).take i) = some m) :
    c.count m < c.count acc + rs.length := by
  induction rs generalizing acc fuel i with
  | nil => exact absurd hi (Nat.not_lt_zero _)
  | cons r rs ih =>
    obtain ⟨⟨hf, hv⟩, hrs⟩ := List.forall_mem_cons.mp hrs
    rw [List.flatMap_cons] at hi hparse
    rw [List.length_cons]
    by_cases hzero : i = 0
    · -- nothing is there
      subst hzero
      rw [List.take_zero, parseLoop_nil] at hparse
      obtain rfl := Option.some.inj hparse
      omega
    · by_cases hcut : i < (r.1.record r.2).length
      · -- the first record is cut
        rw [List.take_append_of_le_length (Nat.le_of_lt hcut),
          parseLoop_record_take hf r.2 hv (by omega) hcut] at hparse
        cases hparse
      · rw [List.length_append] at hi
        rw [List.take_append, List.take_of_length_le (Nat.le_of_not_lt hcut)] at hparse
        cases fuel with
        | zero => cases hparse
        | succ fuel =>
          rw [parseLoop_record hf r.2 hv] at hparse
          have hrest := ih hrs (by omega) hparse
          have hput := count_put hf acc r.2
          omega

/-- **A message that ends too early is not read as the message.** -/
theorem parse_take (h : (c.serialize m).length < 2 ^ 31) {i : ℕ}
    (hi : i < (c.serialize m).length) : c.parse unknown ((c.serialize m).take i) ≠ some m := by
  intro hparse
  rw [serialize_eq] at hi
  rw [parse, serialize_eq] at hparse
  have hlt := count_parseLoop_take _ (encode_lt h) hi hparse
  rw [count_empty, Nat.zero_add] at hlt
  exact Nat.lt_irrefl _ hlt

end WireMessage

/-! ### Messages within messages -/

namespace WireField

variable {M N : Type}

/-- A field whose values are messages themselves, each with its size in front. -/
def repeated (unknown : ℕ → Bytes → Option Bytes) (c : WireMessage N) (key : ℕ)
    (get : M → List N) (put : M → List N → M) (hget : ∀ m l, get (put m l) = l)
    (hkey : 0 < key ∧ key < 128) : WireField M where
  Value := N
  key
  values := get
  put m n := put m (get m ++ [n])
  encode n := prefixed (c.serialize n)
  decode input := (readPrefixed input).bind fun (str, rest) =>
    (c.parse unknown str).map fun n => (n, rest)
  size n := prefixedSize (c.byteSize n)
  key_pos := hkey.1
  key_lt := hkey.2
  decode_encode n rest h := by
    have hlt : (c.serialize n).length < 2 ^ 31 := by
      refine Nat.lt_of_le_of_lt ?_ h
      rw [prefixed, List.length_append]
      omega
    rw [readPrefixed_prefixed hlt, Option.bind_some]
    dsimp only
    rw [WireMessage.parse_serialize hlt, Option.map_some]
  decode_take n i h hi := by
    have hlt : (c.serialize n).length < 2 ^ 31 := by
      refine Nat.lt_of_le_of_lt ?_ h
      rw [prefixed, List.length_append]
      omega
    rw [readPrefixed_take hlt hi, Option.bind_none]
  length_encode n := by rw [length_prefixed, WireMessage.length_serialize]
  values_put m n := by
    rw [hget, List.length_append]
    exact Nat.le_refl _

/-- Merging adds the messages at the end. -/
theorem merge_repeated {unknown : ℕ → Bytes → Option Bytes} {c : WireMessage N} {key : ℕ}
    {get : M → List N} {put : M → List N → M} {hget : ∀ m l, get (put m l) = l}
    {hkey : 0 < key ∧ key < 128} (hput : ∀ m l l', put (put m l) l' = put m l')
    (hself : ∀ m, put m (get m) = m) (acc m : M) :
    (repeated unknown c key get put hget hkey).merge acc m = put acc (get acc ++ get m) := by
  show (get m).foldl (fun acc n => put acc (get acc ++ [n])) acc = put acc (get acc ++ get m)
  induction get m generalizing acc with
  | nil => rw [List.foldl_nil, List.append_nil, hself]
  | cons n l ih => rw [List.foldl_cons, ih, hget, hput, List.append_assoc, List.singleton_append]

end WireField

end RaftStore
