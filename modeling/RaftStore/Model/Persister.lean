import RaftStore.Lib.Streams

namespace RaftStore

/-!
# The persister

Embeds `Persister.cpp`: the two files of a node, the cached size of the raft state, and the
operations that open, truncate, write and read them.  A `std::string` is a `String`, one
character for each byte.

* `Disk` — the contents of the two files, which is all that outlives the process.
* `Persister` — the object; `handed` is a history of the arguments of `save` and
  `saveRaftState`, latest first, which no operation reads.
* `saveActions`, `saveRaftStateActions` — the actions on the output streams that these two
  consist of, between which the process may end.
-/

/-- The files `raftstatePersist{me}.txt` and `snapshotPersist{me}.txt`. -/
structure Disk where
  raftStateFile : String := ""
  snapshotFile : String := ""
  deriving DecidableEq, Repr

/-- The `Persister` object of one process. -/
structure Persister where
  disk : Disk := {}
  raftStateSize : Int := 0
  handed : List (String × Option String) := []
  deriving DecidableEq, Repr

/-- `std::isspace` of the classic locale. -/
def isSpace (c : Char) : Bool :=
  c = ' ' || c = '\t' || c = '\n' || c = '\x0b' || c = '\x0c' || c = '\r'

/-- What `ifs >> s` stores in `s`: leading blanks are skipped and reading stops at the next
    one. -/
def readWord (file : String) : String :=
  String.ofList ((file.toList.dropWhile isSpace).takeWhile fun c => !isSpace c)

/-- `std::ofstream::open`, with `ios::out | ios::trunc` and with the default mode `ios::out`
    alike: the file is emptied. -/
def openOut (_ : String) : String := ""

namespace Persister

/-- `clearRaftState`: reset the size and reopen the raft state file, truncating it. -/
def clearRaftState (p : Persister) : Persister :=
  { p with
    raftStateSize := 0
    disk := { p.disk with raftStateFile := openOut p.disk.raftStateFile } }

/-- `clearSnapshot`: reopen the snapshot file, truncating it. -/
def clearSnapshot (p : Persister) : Persister :=
  { p with disk := { p.disk with snapshotFile := openOut p.disk.snapshotFile } }

/-- `clearRaftStateAndSnapshot`. -/
def clearRaftStateAndSnapshot (p : Persister) : Persister :=
  p.clearRaftState.clearSnapshot

/-- `Save`: replace both files.  `m_raftStateSize` keeps the 0 that clearing left. -/
def save (p : Persister) (raftstate snapshot : String) : Persister :=
  let p' := p.clearRaftStateAndSnapshot
  { p' with
    disk := { raftStateFile := p'.disk.raftStateFile ++ raftstate
              snapshotFile := p'.disk.snapshotFile ++ snapshot }
    handed := (raftstate, some snapshot) :: p'.handed }

/-- `SaveRaftState`: replace the raft state file and add its size to the cleared counter. -/
def saveRaftState (p : Persister) (data : String) : Persister :=
  let p' := p.clearRaftState
  { p' with
    disk := { p'.disk with raftStateFile := p'.disk.raftStateFile ++ data }
    raftStateSize := p'.raftStateSize + data.length
    handed := (data, none) :: p'.handed }

/-- `ReadSnapshot`: the first word of the file.  The output stream is closed before and
    opened again after the read, and opening it truncates the file. -/
def readSnapshot (p : Persister) : String × Persister :=
  (readWord p.disk.snapshotFile,
    { p with disk := { p.disk with snapshotFile := openOut p.disk.snapshotFile } })

/-- `ReadRaftState`: the first word of the file. -/
def readRaftState (p : Persister) : String := readWord p.disk.raftStateFile

/-- `RaftStateSize`. -/
def getRaftStateSize (p : Persister) : Int := p.raftStateSize

/-- The constructor, run over whatever files an earlier process left: both are opened with
    `ios::out | ios::trunc`, closed, and opened again as output streams. -/
def construct (disk : Disk) : Persister :=
  { disk := { raftStateFile := openOut (openOut disk.raftStateFile)
              snapshotFile := openOut (openOut disk.snapshotFile) }
    raftStateSize := 0
    handed := [] }

/-- The raft state most recently handed to `Save` or `SaveRaftState`, empty before the
    first. -/
def lastRaftState (p : Persister) : String :=
  match p.handed with
  | [] => ""
  | (data, _) :: _ => data

/-- The snapshot most recently handed to `Save`, empty before the first. -/
def lastSnapshot (p : Persister) : String :=
  (p.handed.findSome? Prod.snd).getD ""

/-- `SaveRaftState` hands over its text. -/
@[simp] theorem lastRaftState_saveRaftState (p : Persister) (data : String) :
    (p.saveRaftState data).lastRaftState = data := rfl

/-- So does `Save`. -/
@[simp] theorem lastRaftState_save (p : Persister) (data snapshot : String) :
    (p.save data snapshot).lastRaftState = data := rfl

/-- Reading hands over nothing. -/
@[simp] theorem lastRaftState_readSnapshot (p : Persister) :
    p.readSnapshot.2.lastRaftState = p.lastRaftState := rfl

/-- `SaveRaftState` hands over no snapshot. -/
@[simp] theorem lastSnapshot_saveRaftState (p : Persister) (data : String) :
    (p.saveRaftState data).lastSnapshot = p.lastSnapshot := rfl

/-- `Save` hands over its snapshot. -/
@[simp] theorem lastSnapshot_save (p : Persister) (data snapshot : String) :
    (p.save data snapshot).lastSnapshot = snapshot := rfl

/-- Reading hands over no snapshot. -/
@[simp] theorem lastSnapshot_readSnapshot (p : Persister) :
    p.readSnapshot.2.lastSnapshot = p.lastSnapshot := rfl

end Persister

/-! ### The output streams -/

/-- `m_raftStateOutStream` and `m_snapshotOutStream`. -/
inductive OutStream
  | raftState
  | snapshot
  deriving DecidableEq, Repr

/-- The streams over the files of a disk, nothing held back. -/
def Disk.streams (d : Disk) : Streams OutStream Char where
  file
    | .raftState => d.raftStateFile.toList
    | .snapshot => d.snapshotFile.toList
  buffer _ := []

/-- The files behind the streams. -/
def diskOf (s : Streams OutStream Char) : Disk where
  raftStateFile := String.ofList (s.file .raftState)
  snapshotFile := String.ofList (s.file .snapshot)

namespace Persister

/-- The actions of `clearRaftState`. -/
def clearRaftStateActions : List (FileAction OutStream Char) :=
  [.close .raftState, .openTrunc .raftState]

/-- The actions of `clearSnapshot`. -/
def clearSnapshotActions : List (FileAction OutStream Char) :=
  [.close .snapshot, .openTrunc .snapshot]

/-- The actions of `clearRaftStateAndSnapshot`. -/
def clearRaftStateAndSnapshotActions : List (FileAction OutStream Char) :=
  clearRaftStateActions ++ clearSnapshotActions

/-- The actions of `Save`. -/
def saveActions (raftstate snapshot : String) : List (FileAction OutStream Char) :=
  clearRaftStateAndSnapshotActions ++
    [.insert .raftState raftstate.toList, .insert .snapshot snapshot.toList,
      .flush .raftState, .flush .snapshot]

/-- The actions of `SaveRaftState`. -/
def saveRaftStateActions (data : String) : List (FileAction OutStream Char) :=
  clearRaftStateActions ++ [.insert .raftState data.toList, .flush .raftState]

end Persister

/-- The files found when the process ends after `k` actions. -/
def Disk.afterCrash (d : Disk) (spill : List Char → Nat)
    (actions : List (FileAction OutStream Char)) (k : Nat) : Disk :=
  diskOf (d.streams.run spill (actions.take k))

end RaftStore
