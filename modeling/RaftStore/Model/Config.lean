import RaftStore.Model.IdleWait
import RaftStore.Lib.Varint

namespace RaftStore

/-!
# The configuration file

`MprpcConfig`: `LoadConfigFile` with its loop over `fgets` and `feof`, `Trim` and `Load`.  A file is
its contents, a position in a string is a `size_t` until the source makes it an `int`, and
`std::unordered_map` is a list of pairs with one pair for each key.

* `CFile`, `fgets` — a stream, and one call with a buffer.
* `findChar`, `findFirstNotOf`, `findLastNotOf`, `substr` — of `std::string`.
* `MprpcConfig.parseLine` — the body of the loop, up to the insertion.
* `MprpcConfig.loadConfigFile`, `MprpcConfig.load` — the file, and a key.
-/

/-! ## Characters and strings -/

/-- `' '`. -/
def spaceChar : UInt8 := 32

/-- `'\n'`. -/
def newlineChar : UInt8 := 10

/-- `'#'`. -/
def hashChar : UInt8 := 35

/-- `'='`. -/
def equalsChar : UInt8 := 61

/-- `std::string::npos`. -/
def npos : ℕ := 2 ^ 64 - 1

/-- The constructor from a `char *`. -/
def cString (buf : Bytes) : Bytes := buf.takeWhile (· ≠ 0)

/-- `find(c, pos)`. -/
def findChar (c : UInt8) (s : Bytes) (pos : ℕ) : ℕ :=
  match (s.drop pos).findIdx? (· == c) with
  | none => npos
  | some i => pos + i

/-- `find_first_not_of(c)`. -/
def findFirstNotOf (c : UInt8) (s : Bytes) : ℕ :=
  match s.findIdx? (· != c) with
  | none => npos
  | some i => i

/-- `find_last_not_of(c)`. -/
def findLastNotOf (c : UInt8) (s : Bytes) : ℕ :=
  match s.reverse.findIdx? (· != c) with
  | none => npos
  | some i => s.length - 1 - i

/-- `substr(pos, count)`. -/
def substr (s : Bytes) (pos count : ℕ) : Bytes := (s.drop pos).take count

/-! ## Streams -/

/-- A `FILE`: what has not been read, and the end-of-file indicator. -/
structure CFile where
  rest : Bytes
  eof : Bool := false

/-- `fgets` with room for `n` characters and the null: what is in the buffer, which was empty, and
    the stream after the call. -/
def fgets : ℕ → Bytes → Bytes × CFile
  | 0, rest => ([], { rest })
  | _ + 1, [] => ([], { rest := [], eof := true })
  | n + 1, c :: rest =>
    if c = newlineChar then ([c], { rest })
    else
      let (buf, pf) := fgets n rest
      (c :: buf, pf)

/-- The characters that are left, and one more if `feof` is false. -/
def CFile.left (pf : CFile) : ℕ := pf.rest.length + (!pf.eof).toNat

/-- `fgets` leaves at most what there was. -/
theorem left_fgets_le (n : ℕ) (rest : Bytes) : (fgets n rest).2.left ≤ rest.length + 1 := by
  induction n generalizing rest with
  | zero => exact le_rfl
  | succ n ih =>
    cases rest with
    | nil => exact Nat.zero_le _
    | cons c rest =>
      rw [fgets]
      split
      · exact Nat.le_succ _
      · exact (ih rest).trans (Nat.le_succ _)

/-- Every call comes closer to the end of the file. -/
theorem left_fgets_lt (n : ℕ) (rest : Bytes) : (fgets (n + 1) rest).2.left < rest.length + 1 := by
  cases rest with
  | nil => exact Nat.zero_lt_one
  | cons c rest =>
    rw [fgets]
    split
    · exact Nat.lt_succ_self _
    · exact Nat.lt_succ_of_le (left_fgets_le n rest)

/-! ## The parser -/

/-- `MprpcConfig`. -/
structure MprpcConfig where
  configMap : List (Bytes × Bytes) := []

namespace MprpcConfig

/-- `Trim`. -/
def trim (srcBuf : Bytes) : Bytes :=
  let idx := toInt (findFirstNotOf spaceChar srcBuf)
  let srcBuf :=
    if idx ≠ -1 then substr srcBuf (toUInt64 idx) (toUInt64 (srcBuf.length - idx)) else srcBuf
  let idx := toInt (findLastNotOf spaceChar srcBuf)
  if idx ≠ -1 then substr srcBuf 0 (toUInt64 (idx + 1)) else srcBuf

/-- The key and the value that are inserted for what `fgets` left in the buffer, if any. -/
def parseLine (buf : Bytes) : Option (Bytes × Bytes) :=
  let readBuf := trim (cString buf)
  if readBuf.head? = some hashChar ∨ readBuf.isEmpty then none
  else
    let idx := toInt (findChar equalsChar readBuf 0)
    if idx = -1 then none
    else
      let key := trim (substr readBuf 0 (toUInt64 idx))
      let endidx := toInt (findChar newlineChar readBuf (toUInt64 idx))
      let value := trim (substr readBuf (toUInt64 (idx + 1)) (toUInt64 (endidx - idx - 1)))
      some (key, value)

/-- `m_configMap.insert`, which keeps a pair that is there. -/
def insert (config : MprpcConfig) (entry : Bytes × Bytes) : MprpcConfig :=
  if (config.configMap.lookup entry.1).isSome then config
  else { configMap := entry :: config.configMap }

/-- The body of the loop. -/
def addLine (config : MprpcConfig) (buf : Bytes) : MprpcConfig :=
  (parseLine buf).elim config config.insert

/-- `while (!feof(pf))`, with a buffer of 512 characters. -/
def readLoop (config : MprpcConfig) (pf : CFile) : MprpcConfig :=
  if pf.eof then config
  else readLoop (config.addLine (fgets 511 pf.rest).1) (fgets 511 pf.rest).2
termination_by pf.left
decreasing_by
  rename_i heof
  have hleft : pf.left = pf.rest.length + 1 := by simp [CFile.left, heof]
  rw [hleft]
  exact left_fgets_lt 510 pf.rest

/-- `LoadConfigFile`; the process exits if the file cannot be opened. -/
def loadConfigFile (config : MprpcConfig) (configFile : Option Bytes) : Option MprpcConfig :=
  configFile.map fun content => config.readLoop { rest := content }

/-- `Load`. -/
def load (config : MprpcConfig) (key : Bytes) : Bytes := (config.configMap.lookup key).getD []

end MprpcConfig

end RaftStore
