import Mathlib.Algebra.Group.Nat.Defs
import Mathlib.Data.List.Basic
import Mathlib.Tactic.Common

namespace RaftStore

/-!
# Base-128 varints

Numbers as bytes with seven payload bits each, the lowest first; every byte but the last has the
high bit set.  Nothing here names a repository.

* `writeVarint`, `readVarint` — the shortest encoding, and a reader of at most `k` bytes.
* `readVarint_writeVarint`, `readVarint_take` — the reader takes exactly what was written, and
  nothing shorter.
* `readVarint_append` — what follows a varint does not matter to the reader.
* `length_writeVarint_le`, `readVarint_lt` — no encoding of a number is shorter than the written
  one.
-/

/-- Texts and buffers. -/
abbrev Bytes := List UInt8

/-- The varint of `n` in at most `k + 1` bytes. -/
def writeVarint : ℕ → ℕ → Bytes
  | 0, n => [UInt8.ofNat n]
  | k + 1, n =>
    if n < 128 then [UInt8.ofNat n] else UInt8.ofNat (n % 128 + 128) :: writeVarint k (n / 128)

/-- A varint of at most `k` bytes: the number, and what follows it. -/
def readVarint : ℕ → Bytes → Option (ℕ × Bytes)
  | 0, _ => none
  | _ + 1, [] => none
  | k + 1, byte :: rest =>
    if byte.toNat < 128 then some (byte.toNat, rest)
    else (readVarint k rest).map fun (n, rest) => (byte.toNat - 128 + 128 * n, rest)

variable {k n c : ℕ} {bytes rest : Bytes}

/-- A last byte is read. -/
theorem readVarint_last {j : ℕ} (hn : n < 128) (rest : Bytes) :
    readVarint (j + 1) (UInt8.ofNat n :: rest) = some (n, rest) := by
  have hbyte : (UInt8.ofNat n).toNat = n := by
    rw [UInt8.toNat_ofNat']
    omega
  rw [readVarint, hbyte, if_pos hn]

/-- The reader takes what was written, whatever follows. -/
theorem readVarint_writeVarint {j : ℕ} (hn : n < 128 ^ (k + 1)) (hj : k < j) (rest : Bytes) :
    readVarint j (writeVarint k n ++ rest) = some (n, rest) := by
  induction k generalizing j n with
  | zero =>
    obtain ⟨j, rfl⟩ : ∃ j', j = j' + 1 := ⟨j - 1, by omega⟩
    exact readVarint_last (by simpa using hn) rest
  | succ k ih =>
    obtain ⟨j, rfl⟩ : ∃ j', j = j' + 1 := ⟨j - 1, by omega⟩
    rw [writeVarint]
    by_cases hsmall : n < 128
    · rw [if_pos hsmall]
      exact readVarint_last hsmall rest
    · have hbyte : (UInt8.ofNat (n % 128 + 128)).toNat = n % 128 + 128 := by
        rw [UInt8.toNat_ofNat']
        omega
      have hdiv : n / 128 < 128 ^ (k + 1) := by
        rw [Nat.pow_succ] at hn
        omega
      have hrest := ih (j := j) hdiv (by omega)
      rw [if_neg hsmall, List.cons_append, readVarint, hbyte, if_neg (by omega), hrest,
        Option.map_some]
      dsimp only
      rw [Option.some.injEq, Prod.mk.injEq]
      exact ⟨by omega, rfl⟩

/-- What has been read is read again if more follows. -/
theorem readVarint_append (h : readVarint k bytes = some (n, rest)) (more : Bytes) :
    readVarint k (bytes ++ more) = some (n, rest ++ more) := by
  induction k generalizing bytes n with
  | zero => cases h
  | succ k ih =>
    cases bytes with
    | nil => cases h
    | cons byte bytes =>
      rw [readVarint] at h
      rw [List.cons_append, readVarint]
      split at h
      · rename_i hsmall
        obtain ⟨rfl, rfl⟩ := Prod.mk.inj (Option.some.inj h)
        rw [if_pos hsmall]
      · rename_i hlarge
        obtain ⟨⟨m, rest'⟩, hm, heq⟩ := Option.map_eq_some_iff.mp h
        obtain ⟨rfl, rfl⟩ := Prod.mk.inj heq
        rw [if_neg hlarge, ih hm, Option.map_some]

/-- A varint that ends too early cannot be read. -/
theorem readVarint_take {i : ℕ} (j : ℕ) (hi : i < (writeVarint k n).length) :
    readVarint j ((writeVarint k n).take i) = none := by
  induction k generalizing i j n with
  | zero =>
    obtain rfl : i = 0 := by
      simp [writeVarint] at hi
      exact hi
    cases j <;> rfl
  | succ k ih =>
    cases i with
    | zero => cases j <;> rfl
    -- the first byte is read in both cases; it is the last one only if the number is small
    | succ i =>
      rw [writeVarint] at hi ⊢
      by_cases hsmall : n < 128
      · rw [if_pos hsmall] at hi
        simp at hi
      · rw [if_neg hsmall] at hi ⊢
        cases j with
        | zero => rfl
        | succ j =>
          have hbyte : (UInt8.ofNat (n % 128 + 128)).toNat = n % 128 + 128 := by
            rw [UInt8.toNat_ofNat']
            omega
          rw [List.take_succ_cons, readVarint, hbyte, if_neg (by omega),
            ih j (by simpa using hi)]
          rfl

/-- A number of `c + 1` payload groups takes at most so many bytes. -/
theorem length_writeVarint_le (hn : n < 128 ^ (c + 1)) : (writeVarint k n).length ≤ c + 1 := by
  induction c generalizing k n with
  | zero =>
    have hsmall : n < 128 := by simpa using hn
    cases k with
    | zero => simp [writeVarint]
    | succ k => simp [writeVarint, hsmall]
  | succ c ih =>
    cases k with
    | zero => simp [writeVarint]
    | succ k =>
      rw [writeVarint]
      split
      · simp
      · have hdiv : n / 128 < 128 ^ (c + 1) := by
          rw [Nat.pow_succ] at hn
          omega
        have hle := ih (k := k) hdiv
        simpa using hle

/-- A number that is read fits into the bytes it was read from. -/
theorem readVarint_lt (h : readVarint k bytes = some (n, rest)) :
    ∃ c, bytes.length = c + 1 + rest.length ∧ n < 128 ^ (c + 1) := by
  induction k generalizing bytes n with
  | zero => cases h
  | succ k ih =>
    cases bytes with
    | nil => cases h
    | cons byte bytes =>
      rw [readVarint] at h
      split at h
      · rename_i hsmall
        obtain ⟨rfl, rfl⟩ := Prod.mk.inj (Option.some.inj h)
        exact ⟨0, by simp; omega, by simpa using hsmall⟩
      · obtain ⟨⟨m, rest'⟩, hm, heq⟩ := Option.map_eq_some_iff.mp h
        obtain ⟨rfl, rfl⟩ := Prod.mk.inj heq
        obtain ⟨c, hlen, hlt⟩ := ih hm
        have hbyte := byte.toNat_lt
        refine ⟨c + 1, by simp [hlen]; omega, ?_⟩
        rw [Nat.pow_succ]
        omega

end RaftStore
