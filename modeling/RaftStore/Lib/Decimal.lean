import RaftStore.Lib.Varint

namespace RaftStore

/-!
# Decimal numbers as bytes

The digits of a number without zeros in front, a sign before a negative one, and a reader that
stops at the first byte that is no digit.  Nothing here names a repository.

* `digits`, `digitsValue` — the digits of a number, and their value.
* `decimal`, `readDecimal` — the same with a sign.
* `readDecimal_decimal` — a number is read back.
* `digits_injective`, `length_digits_le` — different numbers differ, and how long they are.
-/

/-- One of `'0'` to `'9'`. -/
def isDigit (c : UInt8) : Bool := decide (48 ≤ c.toNat) && decide (c.toNat < 58)

/-- The digit of a number below ten. -/
def digitByte (d : ℕ) : UInt8 := UInt8.ofNat (48 + d)

/-- The digits of `n`. -/
def digits (n : ℕ) : Bytes :=
  if n < 10 then [digitByte n] else digits (n / 10) ++ [digitByte (n % 10)]

/-- The value of digits. -/
def digitsValue (s : Bytes) : ℕ := s.foldl (fun value c => 10 * value + (c.toNat - 48)) 0

/-- `'-'`. -/
def minusChar : UInt8 := 45

/-- `'+'`. -/
def plusChar : UInt8 := 43

/-- An integer. -/
def decimal (n : ℤ) : Bytes := if n < 0 then minusChar :: digits n.natAbs else digits n.natAbs

/-- A sign, if there is one, and digits up to the first other byte. -/
def readDecimal (s : Bytes) : ℤ :=
  let unsigned := if s.head? = some minusChar ∨ s.head? = some plusChar then s.tail else s
  let value : ℤ := digitsValue (unsigned.takeWhile isDigit)
  if s.head? = some minusChar then -value else value

variable {n : ℕ}

/-- The byte of a digit. -/
theorem toNat_digitByte (h : n < 10) : (digitByte n).toNat = 48 + n := by
  rw [digitByte, UInt8.toNat_ofNat']
  omega

/-- The byte of a digit is one. -/
theorem isDigit_digitByte (h : n < 10) : isDigit (digitByte n) = true := by
  simp only [isDigit, toNat_digitByte h, Bool.and_eq_true, decide_eq_true_eq]
  omega

/-- A number is written with digits. -/
theorem isDigit_of_mem_digits (n : ℕ) : ∀ c ∈ digits n, isDigit c = true := by
  fun_induction digits n with
  | case1 n h =>
    intro c hc
    rw [List.mem_singleton.mp hc]
    exact isDigit_digitByte h
  | case2 n h ih =>
    intro c hc
    rcases List.mem_append.mp hc with hc | hc
    · exact ih c hc
    · rw [List.mem_singleton.mp hc]
      exact isDigit_digitByte (Nat.mod_lt n (by decide))

/-- A number is read back. -/
theorem digitsValue_digits (n : ℕ) : digitsValue (digits n) = n := by
  fun_induction digits n with
  | case1 n h =>
    show 10 * 0 + ((digitByte n).toNat - 48) = n
    rw [toNat_digitByte h]
    omega
  | case2 n h ih =>
    rw [digitsValue] at ih ⊢
    rw [List.foldl_append, ih]
    show 10 * (n / 10) + ((digitByte (n % 10)).toNat - 48) = n
    rw [toNat_digitByte (Nat.mod_lt n (by decide))]
    omega

/-- Different numbers have different digits. -/
theorem digits_injective {m : ℕ} (h : digits m = digits n) : m = n := by
  rw [← digitsValue_digits m, h, digitsValue_digits]

/-- A number has at least one digit. -/
theorem digits_ne_nil (n : ℕ) : digits n ≠ [] := by
  rw [digits]
  split <;> simp

/-- How many digits a number has. -/
theorem length_digits_le {k : ℕ} (h : n < 10 ^ (k + 1)) : (digits n).length ≤ k + 1 := by
  induction k generalizing n with
  | zero =>
    rw [digits, if_pos (by omega)]
    exact Nat.le_refl 1
  | succ k ih =>
    rw [digits]
    split
    · simp
    · have hlen := ih (n := n / 10) (by omega)
      simp only [List.length_append, List.length_singleton]
      omega

/-- The digits, if something else follows. -/
theorem takeWhile_digits {rest : Bytes} (h : ∀ c ∈ rest.head?, isDigit c = false) (n : ℕ) :
    (digits n ++ rest).takeWhile isDigit = digits n := by
  rw [List.takeWhile_append_of_pos (isDigit_of_mem_digits n)]
  cases rest with
  | nil => simp
  | cons c rest => simp [h c rfl]

/-- A number starts with a digit. -/
theorem head?_digits_ne {c : UInt8} (hc : isDigit c = false) (n : ℕ) :
    (digits n).head? ≠ some c := by
  intro h
  have hdigit := isDigit_of_mem_digits n c (List.mem_of_mem_head? h)
  rw [hc] at hdigit
  cases hdigit

/-- **A number is read back.** -/
theorem readDecimal_decimal (n : ℤ) : readDecimal (decimal n) = n := by
  have htake : (digits n.natAbs).takeWhile isDigit = digits n.natAbs := by
    simpa using takeWhile_digits (show ∀ c ∈ ([] : Bytes).head?, _ by simp) n.natAbs
  rw [decimal]
  split
  case isTrue h =>
    simp only [readDecimal, List.head?_cons, true_or, if_true, List.tail_cons, htake,
      digitsValue_digits]
    omega
  case isFalse h =>
    have hminus : (digits n.natAbs).head? ≠ some minusChar := head?_digits_ne (by decide) _
    have hplus : (digits n.natAbs).head? ≠ some plusChar := head?_digits_ne (by decide) _
    simp only [readDecimal, hminus, hplus, or_self, if_false, htake, digitsValue_digits]
    omega

end RaftStore
