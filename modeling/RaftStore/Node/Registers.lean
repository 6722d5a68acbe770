import Mathlib.Data.List.TakeWhile
import RaftStore.Model.Persister

namespace RaftStore

/-!
# The persister as a pair of registers

What the calls of one `Persister` return, against a store that simply keeps the last raft state
and the last snapshot it was given.

* `PersisterCall`, `Persister.results` — the calls and what they return.
* `Registers` — the abstract store; reading it changes nothing.
* `PlainReads` — the condition: a string that is read back has no blank in it, and a snapshot
  that is not empty is read at most once, because reopening the stream empties the file.
* `results_eq_iff` — the persister answers as the registers do exactly under this condition.
-/

/-- A call on a `Persister`. -/
inductive PersisterCall
  | save (raftstate snapshot : String)
  | saveRaftState (data : String)
  | readSnapshot
  | readRaftState
  deriving DecidableEq, Repr

namespace Persister

/-- One call: the object afterwards, and the string a read returns. -/
def call (p : Persister) : PersisterCall → Persister × Option String
  | .save raftstate snapshot => (p.save raftstate snapshot, none)
  | .saveRaftState data => (p.saveRaftState data, none)
  | .readSnapshot => (p.readSnapshot.2, some p.readSnapshot.1)
  | .readRaftState => (p, some p.readRaftState)

/-- What a sequence of calls returns. -/
def results (p : Persister) : List PersisterCall → List (Option String)
  | [] => []
  | c :: cs => (p.call c).2 :: (p.call c).1.results cs

end Persister

/-- The store the persister is meant to be. -/
structure Registers where
  raftState : String := ""
  snapshot : String := ""
  deriving DecidableEq, Repr

namespace Registers

/-- One call on the registers. -/
def call (r : Registers) : PersisterCall → Registers × Option String
  | .save raftstate snapshot => ({ raftState := raftstate, snapshot }, none)
  | .saveRaftState data => ({ r with raftState := data }, none)
  | .readSnapshot => (r, some r.snapshot)
  | .readRaftState => (r, some r.raftState)

/-- What a sequence of calls returns. -/
def results (r : Registers) : List PersisterCall → List (Option String)
  | [] => []
  | c :: cs => (r.call c).2 :: (r.call c).1.results cs

end Registers

/-! ### The condition -/

/-- No character of the string is a blank. -/
def Unbroken (s : String) : Prop := ∀ c ∈ s.toList, isSpace c = false

instance (s : String) : Decidable (Unbroken s) :=
  List.decidableBAll (fun c => isSpace c = false) s.toList

/-- Whether the snapshot has been read since it was saved, after one more call. -/
def snapshotRead (read : Bool) : PersisterCall → Bool
  | .save _ _ => false
  | .readSnapshot => true
  | .saveRaftState _ | .readRaftState => read

/-- The calls are such that every string they read back is unbroken, and every snapshot they
    read for the second time is empty; `r` and `read` stand for the calls before. -/
def PlainReads (r : Registers) (read : Bool) : List PersisterCall → Prop
  | [] => True
  | .readSnapshot :: cs =>
    (r.snapshot = "" ∨ Unbroken r.snapshot ∧ read = false) ∧ PlainReads r true cs
  | .readRaftState :: cs => Unbroken r.raftState ∧ PlainReads r read cs
  | c :: cs => PlainReads (r.call c).1 (snapshotRead read c) cs

/-! ### Reading a word -/

/-- Reading a file with `operator>>` returns it whole if and only if it has no blank. -/
theorem readWord_eq_self {s : String} : readWord s = s ↔ Unbroken s := by
  unfold readWord Unbroken
  constructor
  · intro h c hc
    rw [← h, String.toList_ofList] at hc
    simpa using List.mem_takeWhile_imp hc
  · intro h
    have hdrop : s.toList.dropWhile isSpace = s.toList := by
      rw [List.dropWhile_eq_self_iff]
      intro hlen
      simp [h _ (List.getElem_mem hlen)]
    have htake : s.toList.takeWhile (fun c => !isSpace c) = s.toList :=
      List.takeWhile_eq_self_iff.mpr fun c hc => by simp [h c hc]
    rw [hdrop, htake, String.ofList_toList]

/-- In an empty file there is no word. -/
@[simp] theorem readWord_empty : readWord "" = "" := rfl

/-! ### The persister and the registers -/

/-- The files between two calls: the raft state is there, and so is the snapshot unless it has
    been read. -/
structure Stores (p : Persister) (r : Registers) (read : Bool) : Prop where
  raftState : p.disk.raftStateFile = r.raftState
  snapshot : p.disk.snapshotFile = if read then "" else r.snapshot

/-- A persister starts with empty files. -/
theorem stores_construct (disk : Disk) : Stores (Persister.construct disk) {} false where
  raftState := rfl
  snapshot := rfl

/-- **Step lemma.**  Every call keeps the files in step with the registers. -/
theorem Stores.call {p : Persister} {r : Registers} {read : Bool} (h : Stores p r read)
    (c : PersisterCall) : Stores (p.call c).1 (r.call c).1 (snapshotRead read c) := by
  cases c with
  | save raftstate snapshot =>
    exact { raftState := String.empty_append, snapshot := String.empty_append }
  | saveRaftState data => exact { raftState := String.empty_append, snapshot := h.snapshot }
  | readSnapshot => exact { raftState := h.raftState, snapshot := rfl }
  | readRaftState => exact h

/-- A read of the snapshot returns it if and only if there is nothing to lose. -/
theorem Stores.readSnapshot {p : Persister} {r : Registers} {read : Bool} (h : Stores p r read) :
    p.readSnapshot.1 = r.snapshot ↔ r.snapshot = "" ∨ Unbroken r.snapshot ∧ read = false := by
  have hfile : p.readSnapshot.1 = readWord (if read then "" else r.snapshot) := by
    rw [← h.snapshot]
    rfl
  rw [hfile]
  cases read with
  | true =>
    rw [if_pos rfl, readWord_empty]
    constructor
    · exact fun hs => Or.inl hs.symm
    · rintro (hs | ⟨_, hread⟩)
      · exact hs.symm
      · cases hread
  | false =>
    rw [if_neg (by decide), readWord_eq_self]
    constructor
    · exact fun hs => Or.inr ⟨hs, rfl⟩
    · rintro (hs | ⟨hs, _⟩)
      · rw [hs]
        exact readWord_eq_self.mp readWord_empty
      · exact hs

/-- A read of the raft state returns it if and only if it has no blank. -/
theorem Stores.readRaftState {p : Persister} {r : Registers} {read : Bool} (h : Stores p r read) :
    p.readRaftState = r.raftState ↔ Unbroken r.raftState := by
  rw [Persister.readRaftState, h.raftState, readWord_eq_self]

/-- The answers of a sequence of calls, from any state on. -/
theorem Stores.results_iff {p : Persister} {r : Registers} {read : Bool} (h : Stores p r read)
    (cs : List PersisterCall) : p.results cs = r.results cs ↔ PlainReads r read cs := by
  induction cs generalizing p r read with
  | nil => exact iff_of_true rfl trivial
  | cons c cs ih =>
    have hrest := ih (h.call c)
    rw [Persister.results, Registers.results, List.cons.injEq, hrest]
    cases c with
    | save | saveRaftState => exact and_iff_right rfl
    | readSnapshot => exact and_congr (Option.some_inj.trans h.readSnapshot) Iff.rfl
    | readRaftState => exact and_congr (Option.some_inj.trans h.readRaftState) Iff.rfl

/-- **The persister as a pair of registers.**  A sequence of calls on a new persister returns
    what the two registers return if and only if it reads plainly. -/
theorem results_eq_iff (disk : Disk) (cs : List PersisterCall) :
    (Persister.construct disk).results cs = Registers.results {} cs ↔ PlainReads {} false cs :=
  (stores_construct disk).results_iff cs

/-- An archive contains blanks, and the persister returns only what stands before the first. -/
theorem archive_read_back_cut :
    (Persister.construct {}).results [.save "22 serialization::archive" "s", .readRaftState] ≠
      Registers.results {} [.save "22 serialization::archive" "s", .readRaftState] := by
  decide

end RaftStore
