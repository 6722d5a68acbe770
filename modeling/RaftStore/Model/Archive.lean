import Mathlib.Data.Finset.Sort
import Mathlib.Data.String.Basic
import RaftStore.Lib.TextArchive
import RaftStore.Model.KvServer

namespace RaftStore

/-!
# Text archives of the records

One concrete `RaftArchive` and one concrete `KvArchive`: the header and the fields a Boost text
archive writes, in the order of each `serialize`, without the tokens for class versions, and
the three fields of a `LogEntry` one after another.  An unordered map is written in the order
of its keys.

* `textRaftArchive`, `textKvArchive` — the instances; they are not global ones, statements stay
  about any archive.
* `lawful_textRaftArchive`, `lawful_textKvArchive` — they round-trip.
-/

/-- The fields of the persisted record in the order of `serialize`. -/
def recordCodec : Codec BoostPersistRaftNode :=
  (Codec.int.pair (Codec.int.pair (Codec.int.pair (Codec.int.pair Codec.str.list)))).imap
    (fun (currentTerm, votedFor, index, term, logs) =>
      { currentTerm, votedFor, lastSnapshotIncludeIndex := index,
        lastSnapshotIncludeTerm := term, logs })
    (fun b => (b.currentTerm, b.votedFor, b.lastSnapshotIncludeIndex, b.lastSnapshotIncludeTerm,
      b.logs))
    fun _ => rfl

/-- The fields of a log entry. -/
def entryCodec : Codec LogEntry :=
  (Codec.str.pair (Codec.int.pair Codec.int)).imap
    (fun (command, logTerm, logIndex) => { command, logTerm, logIndex })
    (fun e => (e.command, e.logTerm, e.logIndex))
    fun _ => rfl

/-- What a text archive starts with. -/
def archiveHeader : String := "22 serialization::archive 19 0 0 "

/-- The text archive as the encoding of a node's state. -/
abbrev textRaftArchive : RaftArchive where
  oarchive := recordCodec.encode archiveHeader
  iarchive := recordCodec.decode archiveHeader
  serializeAsString := entryCodec.encode ""
  parseFromString text := (entryCodec.decode "" text).getD default

/-- The text archive of a node reads back what it writes. -/
theorem lawful_textRaftArchive : @LawfulRaftArchive textRaftArchive :=
  letI := textRaftArchive
  { iarchive_oarchive := fun b => recordCodec.decode_encode archiveHeader b
    oarchive_ne_empty := fun b => recordCodec.encode_ne_empty (by decide) b
    parse_serialize := fun e => by
      change (entryCodec.decode "" (entryCodec.encode "" e)).getD default = e
      rw [entryCodec.decode_encode]
      rfl }

/-! ### The server -/

/-- The fields of an operation. -/
def opCodec : Codec Op :=
  (Codec.str.pair (Codec.str.pair (Codec.str.pair (Codec.str.pair Codec.int)))).imap
    (fun (operation, key, value, clientId, requestId) =>
      { operation, key, value, clientId, requestId })
    (fun op => (op.operation, op.key, op.value, op.clientId, op.requestId))
    fun _ => rfl

/-- The two vectors of a dump. -/
def dumpCodec : Codec (SkipListDump String String) :=
  (Codec.str.list.pair Codec.str.list).imap
    (fun (keyDumpVt, valDumpVt) => { keyDumpVt, valDumpVt })
    (fun d => (d.keyDumpVt, d.valDumpVt))
    fun _ => rfl

/-- The entries of a table in the order of its keys. -/
def sortedEntries (table : Finmap fun _ : String => Int) : List (Σ _ : String, Int) :=
  (table.keys.sort (· ≤ ·)).filterMap fun k => (table.lookup k).map fun v => ⟨k, v⟩

/-- Looking a key up in the list of the values of some keys. -/
theorem dlookup_filterMap (f : String → Option Int) (ks : List String) (a : String) :
    (ks.filterMap fun k => (f k).map fun v => (⟨k, v⟩ : Σ _ : String, Int)).dlookup a =
      if a ∈ ks then f a else none := by
  induction ks with
  | nil => simp
  | cons k ks ih =>
    rw [List.filterMap_cons]
    by_cases hak : a = k
    · subst hak
      cases hf : f a with
      | none =>
        simp only [Option.map_none]
        rw [ih, hf]
        simp
      | some v => simp
    · cases hf : f k with
      | none =>
        simp only [Option.map_none]
        rw [ih]
        simp [hak]
      | some v =>
        simp only [Option.map_some]
        rw [List.dlookup_cons_ne _ _ hak, ih]
        simp [hak]

/-- The sorted entries make up the table. -/
theorem toFinmap_sortedEntries (table : Finmap fun _ : String => Int) :
    (sortedEntries table).toFinmap = table := by
  refine Finmap.ext_lookup fun a => ?_
  rw [Finmap.dlookup_list_toFinmap, sortedEntries, dlookup_filterMap]
  split
  · rfl
  · rename_i ha
    rw [Finset.mem_sort, Finmap.mem_keys] at ha
    exact (Finmap.lookup_eq_none.mpr ha).symm

/-- A table as the list of its entries. -/
def tableCodec : Codec (Finmap fun _ : String => Int) :=
  ((Codec.str.pair Codec.int).imap (fun p => (⟨p.1, p.2⟩ : Σ _ : String, Int))
    (fun e => (e.1, e.2)) fun _ => rfl).list.imap List.toFinmap sortedEntries
      toFinmap_sortedEntries

/-- The fields of the server in the order of `serialize`. -/
def kvRecordCodec : Codec KvRecord :=
  (Codec.str.pair tableCodec).imap
    (fun (serializedKVData, lastRequestId) => { serializedKVData, lastRequestId })
    (fun r => (r.serializedKVData, r.lastRequestId))
    fun _ => rfl

/-- The text archives of the server. -/
abbrev textKvArchive : KvArchive where
  asString := opCodec.encode archiveHeader
  opOfString := opCodec.decode archiveHeader
  dumpAsString := dumpCodec.encode archiveHeader
  dumpOfString := dumpCodec.decode archiveHeader
  recordAsString := kvRecordCodec.encode archiveHeader
  recordOfString := kvRecordCodec.decode archiveHeader

/-- The text archive of a server reads back what it writes. -/
theorem lawful_textKvArchive : @LawfulKvArchive textKvArchive :=
  letI := textKvArchive
  { op_asString := opCodec.decode_encode archiveHeader
    dump_asString := dumpCodec.decode_encode archiveHeader
    dump_ne_empty := dumpCodec.encode_ne_empty (by decide)
    record_asString := kvRecordCodec.decode_encode archiveHeader
    record_ne_empty := kvRecordCodec.encode_ne_empty (by decide) }

end RaftStore
