import Mathlib.Data.List.Basic

namespace RaftStore

/-!
# The contents of the skip list

Embeds what `skipList.h` does to the bottom level of the list, which holds every node in
the order of the keys.  The levels above it only shorten the way to a place in this level, and
no result depends on them: each operation walks to the last node with a smaller key and looks
at the one behind it.

* `SkipList` — the bottom level, with `searchElement`, `insertElement`, `deleteElement` and
  `insertSetElement`.
* `SkipListDump`, `dumpFile`, `loadFile` — the two vectors that are archived, and the loop that
  inserts what was read.  The encoding itself belongs to the archive.
-/

/-- The key-value pairs of a skip list, front to back. -/
structure SkipList (K V : Type) where
  chain : List (K × V) := []
  deriving DecidableEq, Repr

/-- `SkipListDump`: all keys, and all values. -/
structure SkipListDump (K V : Type) where
  keyDumpVt : List K
  valDumpVt : List V
  deriving DecidableEq, Repr

namespace SkipList

variable {K V : Type} [LT K] [DecidableLT K] [DecidableEq K]

/-- The nodes the walk passes: those with a smaller key. -/
def front (l : SkipList K V) (key : K) : List (K × V) :=
  l.chain.takeWhile fun node => node.1 < key

/-- The nodes from `current->forward[0]` on when the walk ends. -/
def back (l : SkipList K V) (key : K) : List (K × V) :=
  l.chain.dropWhile fun node => node.1 < key

/-- `search_element`: the value, or `none` where the source returns `false`. -/
def searchElement (l : SkipList K V) (key : K) : Option V :=
  match l.back key with
  | [] => none
  | (k, v) :: _ => if k = key then some v else none

/-- `insert_element`: 1 and no change if the key is there, else 0 and a new node. -/
def insertElement (l : SkipList K V) (key : K) (value : V) : Int × SkipList K V :=
  match l.back key with
  | [] => (0, { chain := l.front key ++ [(key, value)] })
  | (k, v) :: rest =>
    if k = key then (1, l)
    else (0, { chain := l.front key ++ (key, value) :: (k, v) :: rest })

/-- `delete_element`. -/
def deleteElement (l : SkipList K V) (key : K) : SkipList K V :=
  match l.back key with
  | [] => l
  | (k, _) :: rest => if k = key then { chain := l.front key ++ rest } else l

/-- `insert_set_element`: delete the key if it is there, then insert it. -/
def insertSetElement (l : SkipList K V) (key : K) (value : V) : SkipList K V :=
  match l.searchElement key with
  | some _ => ((l.deleteElement key).insertElement key value).2
  | none => (l.insertElement key value).2

omit [LT K] [DecidableLT K] [DecidableEq K] in
/-- `dump_file` up to the encoding. -/
def dumpFile (l : SkipList K V) : SkipListDump K V where
  keyDumpVt := l.chain.map Prod.fst
  valDumpVt := l.chain.map Prod.snd

/-- `load_file` after the decoding.  The loop inserts `keyDumpVt_[i]` as the key and as the
    value; the list is not cleared before. -/
def loadFile (l : SkipList K K) (dumper : SkipListDump K K) : SkipList K K :=
  dumper.keyDumpVt.foldl (fun l key => (l.insertElement key key).2) l

end SkipList

end RaftStore
