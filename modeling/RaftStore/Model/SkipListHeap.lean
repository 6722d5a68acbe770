import RaftStore.Model.SkipList

namespace RaftStore

/-!
# The nodes of the skip list

Embeds `skipList.h` with its pointers: the nodes lie in a memory under their addresses, each with
an array of forward pointers, and the header is a node of its own.  A null or dangling pointer and
an index outside an array make an operation return `none`, and so would a loop that does not end;
`Kv.HeapRefinement` shows that none of this happens.

* `Node`, `SkipListHeap` — a node, and the members of the class `SkipList`.
* `descend`, `insertElement`, `deleteElement`, `insertSetElement`, `searchElement`, `dumpFile`,
  `size` — the member functions; what `get_random_level` returns is a parameter of those that call
  it.
* `getRandomLevel` — that function.
* `clear`, `destroy` — the destructor.
* `SkipCall`, `SkipListHeap.calls` — sequences of calls.

`_max_level` is an `int` below `INT_MAX`, so the length `_max_level + 1` of the arrays does not
overflow, and neither does `_element_count`.
-/

/-- `Node`: `forward` holds `node_level + 1` pointers. -/
structure Node (K V : Type) where
  key : K
  value : V
  forward : List (Option ℕ)
  deriving DecidableEq, Repr

/-- What a variable of type `Node *` that is not null points to. -/
inductive Place
  | header
  | node (a : ℕ)
  deriving DecidableEq, Repr

/-- The members of the class `SkipList`.  `nodes` is the memory by address, `none` once deleted;
    of the header only the forward pointers are ever used. -/
structure SkipListHeap (K V : Type) where
  maxLevel : ℕ
  skipListLevel : ℕ := 0
  header : List (Option ℕ)
  nodes : List (Option (Node K V)) := []
  elementCount : Int := 0
  deriving DecidableEq, Repr

namespace SkipListHeap

variable {K V : Type}

/-- The constructor. -/
def init (maxLevel : ℕ) : SkipListHeap K V where
  maxLevel
  header := List.replicate (maxLevel + 1) none

/-- The node at an address. -/
def node (s : SkipListHeap K V) (a : ℕ) : Option (Node K V) := s.nodes[a]?.join

/-- The array `p->forward`. -/
def forwards (s : SkipListHeap K V) : Place → Option (List (Option ℕ))
  | .header => some s.header
  | .node a => (s.node a).map Node.forward

/-- `p->forward[i]`; the null pointer is `some none`. -/
def forward (s : SkipListHeap K V) (p : Place) (i : ℕ) : Option (Option ℕ) :=
  (s.forwards p).bind fun forward => forward[i]?

/-- `p->forward[i] = q`. -/
def setForward (s : SkipListHeap K V) (p : Place) (i : ℕ) (q : Option ℕ) :
    Option (SkipListHeap K V) := do
  let _ ← s.forward p i
  match p with
  | .header => return { s with header := s.header.set i q }
  | .node a =>
    let node ← s.node a
    return { s with nodes := s.nodes.set a (some { node with forward := node.forward.set i q }) }

variable [LT K] [DecidableLT K] [DecidableEq K]

/-- The inner loop on level `i`: move right while the next key is smaller. -/
def walk (s : SkipListHeap K V) (key : K) (i : ℕ) : ℕ → Place → Option Place
  | 0, _ => none
  | fuel + 1, current => do
    match ← s.forward current i with
    | none => return current
    | some a =>
      let next ← s.node a
      if next.key < key then walk s key i fuel (.node a) else return current

/-- The outer loop from level `i - 1` down to 0; it records the places in `update`. -/
def descend (s : SkipListHeap K V) (key : K) :
    ℕ → Place × List (Option Place) → Option (Place × List (Option Place))
  | 0, state => some state
  | i + 1, (current, update) => do
    let current ← s.walk key i (s.nodes.length + 1) current
    descend s key i (current, update.set i (some current))

/-- The beginning that `insert_element` and `delete_element` share: `current` and `update`. -/
def findPlace (s : SkipListHeap K V) (key : K) : Option (Place × List (Option Place)) :=
  s.descend key (s.skipListLevel + 1) (.header, List.replicate (s.maxLevel + 1) none)

omit [LT K] [DecidableLT K] [DecidableEq K] in
/-- One round of the loop that links the new node. -/
def linkLevel (a : ℕ) (update : List (Option Place)) (s : SkipListHeap K V) (i : ℕ) :
    Option (SkipListHeap K V) := do
  let prev ← update[i]?.join
  let next ← s.forward prev i
  let s ← s.setForward (.node a) i next
  s.setForward prev i (some a)

omit [LT K] [DecidableLT K] [DecidableEq K] in
/-- `insert_element` from `get_random_level` on. -/
def linkNode (s : SkipListHeap K V) (key : K) (value : V) (update : List (Option Place))
    (randomLevel : ℕ) : Option (SkipListHeap K V) := do
  let (s, update) :=
    -- on levels that are new the place before is the header
    if s.skipListLevel < randomLevel then
      ({ s with skipListLevel := randomLevel },
        (List.range' (s.skipListLevel + 1) (randomLevel - s.skipListLevel)).foldl
          (fun update i => update.set i (some Place.header)) update)
    else (s, update)
  let a := s.nodes.length
  let node : Node K V := { key, value, forward := List.replicate (randomLevel + 1) none }
  let s ← (List.range (randomLevel + 1)).foldlM (linkLevel a update)
    { s with nodes := s.nodes ++ [some node] }
  return { s with elementCount := s.elementCount + 1 }

/-- `insert_element`. -/
def insertElement (s : SkipListHeap K V) (key : K) (value : V) (randomLevel : ℕ) :
    Option (Int × SkipListHeap K V) := do
  let (current, update) ← s.findPlace key
  match ← s.forward current 0 with
  | none => return (0, ← s.linkNode key value update randomLevel)
  | some a =>
    let node ← s.node a
    -- an existing key keeps its value
    if node.key = key then return (1, s)
    else return (0, ← s.linkNode key value update randomLevel)

omit [LT K] [DecidableLT K] [DecidableEq K] in
/-- The loop that takes the node at `a` out of the levels from `i` on; it breaks at the first level
    where the place before does not point to it. -/
def unlinkLevels (a : ℕ) (update : List (Option Place)) :
    List ℕ → SkipListHeap K V → Option (SkipListHeap K V)
  | [], s => some s
  | i :: levels, s => do
    let prev ← update[i]?.join
    if (← s.forward prev i) ≠ some a then return s
    let next ← s.forward (.node a) i
    unlinkLevels a update levels (← s.setForward prev i next)

omit [LT K] [DecidableLT K] [DecidableEq K] in
/-- The loop that lowers `_skip_list_level` past empty levels. -/
def lowerLevel (s : SkipListHeap K V) : ℕ → Option ℕ
  | 0 => some 0
  | level + 1 => do
    match ← s.forward .header (level + 1) with
    | none => lowerLevel s level
    | some _ => return level + 1

/-- `delete_element`. -/
def deleteElement (s : SkipListHeap K V) (key : K) : Option (SkipListHeap K V) := do
  let (current, update) ← s.findPlace key
  match ← s.forward current 0 with
  | none => return s
  | some a =>
    let node ← s.node a
    if node.key = key then
      let s ← unlinkLevels a update (List.range (s.skipListLevel + 1)) s
      let skipListLevel ← s.lowerLevel s.skipListLevel
      return { s with
        skipListLevel
        nodes := s.nodes.set a none
        elementCount := s.elementCount - 1 }
    else return s

/-- The outer loop of `search_element`, from level `i - 1` down to 0. -/
def searchLevels (s : SkipListHeap K V) (key : K) : ℕ → Place → Option Place
  | 0, current => some current
  | i + 1, current => do
    searchLevels s key i (← s.walk key i (s.nodes.length + 1) current)

/-- `search_element`: the value, if it returns `true`. -/
def searchElement (s : SkipListHeap K V) (key : K) : Option (Option V) := do
  let current ← s.searchLevels key (s.skipListLevel + 1) .header
  match ← s.forward current 0 with
  | none => return none
  | some a =>
    let node ← s.node a
    return if node.key = key then some node.value else none

/-- `insert_set_element`. -/
def insertSetElement (s : SkipListHeap K V) (key : K) (value : V) (randomLevel : ℕ) :
    Option (SkipListHeap K V) := do
  -- delete and insert again, rather than assign
  let s ← match ← s.searchElement key with
    | some _ => s.deleteElement key
    | none => some s
  return (← s.insertElement key value randomLevel).2

omit [LT K] [DecidableLT K] [DecidableEq K] in
/-- The loop of `dump_file`. -/
def dumpNodes (s : SkipListHeap K V) : ℕ → Option ℕ → SkipListDump K V →
    Option (SkipListDump K V)
  | _, none, dumper => some dumper
  | 0, some _, _ => none
  | fuel + 1, some a, dumper => do
    let node ← s.node a
    let next ← s.forward (.node a) 0
    dumpNodes s fuel next
      { keyDumpVt := dumper.keyDumpVt ++ [node.key]
        valDumpVt := dumper.valDumpVt ++ [node.value] }

omit [LT K] [DecidableLT K] [DecidableEq K] in
/-- `dump_file` up to the encoding. -/
def dumpFile (s : SkipListHeap K V) : Option (SkipListDump K V) := do
  s.dumpNodes s.nodes.length (← s.forward .header 0) { keyDumpVt := [], valDumpVt := [] }

omit [LT K] [DecidableLT K] [DecidableEq K] in
/-- `size`. -/
def size (s : SkipListHeap K V) : Int := s.elementCount

omit [LT K] [DecidableLT K] [DecidableEq K] in
/-- `clear`: the loop that deletes the nodes from one on, and reads the pointer to the next one
    first. -/
def clear (s : SkipListHeap K V) : ℕ → Option ℕ → Option (SkipListHeap K V)
  | _, none => some s
  | 0, some _ => none
  | fuel + 1, some a => do
    let next ← s.forward (.node a) 0
    clear { s with nodes := s.nodes.set a none } fuel next

omit [LT K] [DecidableLT K] [DecidableEq K] in
/-- The destructor up to the header: the memory that it leaves. -/
def destroy (s : SkipListHeap K V) : Option (SkipListHeap K V) := do
  s.clear s.nodes.length (← s.forward .header 0)

end SkipListHeap

/-! ### `get_random_level` -/

/-- The loop of `get_random_level`, with the bits of `seed` from the lowest on. -/
def randomLevelLoop (maxLevel : ℕ) : ℕ → UInt32 → ℕ → ℕ × UInt32
  | 0, seed, k => (k, seed)
  | fuel + 1, seed, k =>
    if seed &&& 1 ≠ 0 ∧ k < maxLevel then randomLevelLoop maxLevel fuel (seed >>> 1) (k + 1)
    else (k, seed)

/-- `get_random_level` on the static `seed`: the level and the new `seed`.  The loop stops once
    the level is `_max_level`. -/
def getRandomLevel (maxLevel : ℕ) (seed : UInt32) : ℕ × UInt32 :=
  let seed := seed ^^^ (seed <<< 13)
  let seed := seed ^^^ (seed >>> 17)
  let seed := seed ^^^ (seed <<< 5)
  randomLevelLoop maxLevel maxLevel seed 1

/-! ### Sequences of calls -/

/-- A call of a member function, with the level `get_random_level` returns if it is called. -/
inductive SkipCall (K V : Type)
  | insertElement (key : K) (value : V) (randomLevel : ℕ)
  | insertSetElement (key : K) (value : V) (randomLevel : ℕ)
  | deleteElement (key : K)
  | searchElement (key : K)
  | size
  | dumpFile
  deriving DecidableEq, Repr

/-- What a call returns. -/
inductive SkipResult (K V : Type)
  | void
  | int (n : Int)
  | found (value : Option V)
  | dump (dumper : SkipListDump K V)
  deriving DecidableEq, Repr

namespace SkipListHeap

variable {K V : Type} [LT K] [DecidableLT K] [DecidableEq K]

/-- One call. -/
def call (s : SkipListHeap K V) : SkipCall K V → Option (SkipResult K V × SkipListHeap K V)
  | .insertElement key value randomLevel => do
    let (n, s) ← s.insertElement key value randomLevel
    return (.int n, s)
  | .insertSetElement key value randomLevel => do
    return (.void, ← s.insertSetElement key value randomLevel)
  | .deleteElement key => do return (.void, ← s.deleteElement key)
  | .searchElement key => do return (.found (← s.searchElement key), s)
  | .size => some (.int s.size, s)
  | .dumpFile => do return (.dump (← s.dumpFile), s)

/-- The results of a sequence of calls. -/
def calls (s : SkipListHeap K V) : List (SkipCall K V) → Option (List (SkipResult K V))
  | [] => some []
  | c :: cs => do
    let (result, s) ← s.call c
    return result :: (← calls s cs)

end SkipListHeap

end RaftStore
