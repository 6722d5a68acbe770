import Mathlib.Tactic.Common

namespace RaftStore

/-!
# Text archives

A text archive writes a value as a sequence of blank-terminated tokens and reads it back from
the front of a text.  `Codec α` carries the law that reading undoes writing, whatever follows,
so codecs are put together without proving it again.

* `Codec.nat`, `Codec.int`, `Codec.str` — decimal numbers, and strings behind their length.
* `Codec.pair`, `Codec.list`, `Codec.imap` — a value after a value, a list behind its length,
  and a codec carried along a pair of inverse functions.
* `Codec.encode`, `Codec.decode` — whole texts behind a fixed header; `decode_encode` is the
  round trip and `encode_ne_empty` the reason no archive is empty.
-/

/-- A way to write values and to read them back from the front of a text. -/
structure Codec (α : Type) where
  write : α → List Char
  read : List Char → Option (α × List Char)
  read_write : ∀ (a : α) (rest : List Char), read (write a ++ rest) = some (a, rest)

namespace Codec

variable {α β : Type}

/-! ### Numbers -/

/-- The digits of `n` and a blank. -/
def writeNat (n : ℕ) : List Char := Nat.toDigits 10 n ++ [' ']

/-- The number in front of the first character that is no digit, which is skipped. -/
def readNat (text : List Char) : ℕ × List Char :=
  (Nat.ofDigitChars 10 (text.takeWhile Char.isDigit) 0, (text.dropWhile Char.isDigit).tail)

/-- A number is read back. -/
theorem readNat_writeNat (n : ℕ) (rest : List Char) :
    readNat (writeNat n ++ rest) = (n, rest) := by
  have hdigits : ∀ c ∈ Nat.toDigits 10 n, c.isDigit = true := fun c hc =>
    Nat.isDigit_of_mem_toDigits (by omega) (by omega) hc
  rw [readNat, writeNat, List.append_assoc, List.takeWhile_append_of_pos hdigits,
    List.dropWhile_append_of_pos hdigits]
  simp

/-- A negative number is written with a sign in front. -/
def writeInt : Int → List Char
  | .ofNat n => writeNat n
  | .negSucc n => '-' :: writeNat (n + 1)

/-- An integer, with a sign in front if it is negative. -/
def readInt : List Char → Int × List Char
  | '-' :: text => (-((readNat text).1 : Int), (readNat text).2)
  | text => ((readNat text).1, (readNat text).2)

/-- An integer is read back. -/
theorem readInt_writeInt (i : Int) (rest : List Char) :
    readInt (writeInt i ++ rest) = (i, rest) := by
  cases i with
  | ofNat n =>
    have hne : ∀ t, writeNat n ++ rest ≠ '-' :: t := by
      intro t h
      cases hd : Nat.toDigits 10 n with
      | nil => exact absurd hd Nat.toDigits_ne_nil
      | cons c cs =>
        have hc : c.isDigit = true :=
          Nat.isDigit_of_mem_toDigits (b := 10) (n := n) (by omega) (by omega) (by rw [hd]; simp)
        rw [writeNat, hd, List.cons_append, List.cons_append, List.cons.injEq] at h
        rw [h.1] at hc
        exact absurd hc (by decide)
    rw [writeInt, readInt.eq_2 _ hne, readNat_writeNat]
    rfl
  | negSucc n =>
    rw [writeInt, List.cons_append, readInt, readNat_writeNat]
    simp [Int.negSucc_eq]

/-- Integers in decimal. -/
def int : Codec Int where
  write := writeInt
  read text := some (readInt text)
  read_write i rest := by rw [readInt_writeInt]

/-! ### Combinations -/

/-- One value after another. -/
def pair (a : Codec α) (b : Codec β) : Codec (α × β) where
  write p := a.write p.1 ++ b.write p.2
  read text := do
    let (x, text) ← a.read text
    let (y, text) ← b.read text
    return ((x, y), text)
  read_write p rest := by
    rw [List.append_assoc, a.read_write, Option.bind_eq_bind, Option.bind_some]
    dsimp only
    rw [b.read_write]
    rfl

/-- A codec carried along a pair of inverse functions. -/
def imap (a : Codec α) (f : α → β) (g : β → α) (h : ∀ x, f (g x) = x) : Codec β where
  write x := a.write (g x)
  read text := (a.read text).map fun (x, rest) => (f x, rest)
  read_write x rest := by
    rw [a.read_write, Option.map_some]
    dsimp only
    rw [h]

/-- `k` values, one after another. -/
def readMany (a : Codec α) : ℕ → List Char → Option (List α × List Char)
  | 0, text => some ([], text)
  | k + 1, text => do
    let (x, text) ← a.read text
    let (xs, text) ← readMany a k text
    return (x :: xs, text)

/-- A list is read back. -/
theorem readMany_write (a : Codec α) (xs : List α) (rest : List Char) :
    readMany a xs.length (xs.flatMap a.write ++ rest) = some (xs, rest) := by
  induction xs with
  | nil => rfl
  | cons x xs ih =>
    rw [List.length_cons, List.flatMap_cons, List.append_assoc, readMany, a.read_write,
      Option.bind_eq_bind, Option.bind_some]
    dsimp only
    rw [ih]
    rfl

/-- A list behind its length. -/
def list (a : Codec α) : Codec (List α) where
  write xs := writeNat xs.length ++ xs.flatMap a.write
  read text := readMany a (readNat text).1 (readNat text).2
  read_write xs rest := by
    rw [List.append_assoc, readNat_writeNat]
    exact readMany_write a xs rest

/-- A character as itself. -/
def char : Codec Char where
  write c := [c]
  read
    | [] => none
    | c :: text => some (c, text)
  read_write _ _ := rfl

/-- A value and a blank. -/
def spaced (a : Codec α) : Codec α where
  write x := a.write x ++ [' ']
  read text := (a.read text).map fun (x, rest) => (x, rest.tail)
  read_write x rest := by
    rw [List.append_assoc, a.read_write, Option.map_some]
    rfl

/-- A string behind its length. -/
def str : Codec String :=
  ((list char).imap String.ofList String.toList fun _ => String.ofList_toList).spaced

/-! ### Whole texts -/

/-- The text of a value behind a header. -/
def encode (a : Codec α) (header : String) (x : α) : String :=
  String.ofList (header.toList ++ a.write x)

/-- The value of a text behind a header; whatever follows the value is ignored. -/
def decode (a : Codec α) (header text : String) : Option α :=
  (a.read (text.toList.drop header.length)).map Prod.fst

/-- What is archived is read back. -/
theorem decode_encode (a : Codec α) (header : String) (x : α) :
    a.decode header (a.encode header x) = some x := by
  have hread := a.read_write x []
  rw [List.append_nil] at hread
  rw [decode, encode, String.toList_ofList, ← String.length_toList, List.drop_left, hread]
  rfl

/-- An archive is not empty. -/
theorem encode_ne_empty (a : Codec α) {header : String} (h : header ≠ "") (x : α) :
    a.encode header x ≠ "" := by
  intro he
  have hlist := congrArg String.toList he
  rw [encode, String.toList_ofList] at hlist
  have hnil := (List.append_eq_nil_iff.mp hlist).1
  exact h (String.toList_inj.mp hnil)

end Codec

end RaftStore
