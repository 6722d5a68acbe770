import Mathlib.Data.Nat.Basic
import Mathlib.Tactic.Common

namespace RaftStore

/-!
# Words combined with their own shifts

A word that equals its own shift is zero: a shift to the left fills the lowest bits with zeros, and
these spread from bit to bit; a shift to the right divides.  So the steps of a xorshift generator
never turn a word into zero that is not zero already.

* `eq_zero_of_eq_shiftLeft`, `eq_zero_of_eq_ushiftRight` — words of any width.
* `xor_shiftLeft_ne_zero`, `xor_shiftRight_ne_zero` — one step of a generator.
-/

variable {w k : ℕ}

/-- Only 0 is its own shift to the left. -/
theorem eq_zero_of_eq_shiftLeft (hk : 0 < k) {x : BitVec w} (h : x = x <<< k) :
    x = 0#w := by
  have hbit : ∀ i, x.getLsbD i = false := by
    intro i
    -- the bit is that of a lower position, or is filled in
    induction i using Nat.strongRecOn with
    | ind i ih =>
      rw [h, BitVec.getLsbD_shiftLeft]
      by_cases hi : i < k
      · simp [hi]
      · simp [ih (i - k) (by omega)]
  apply BitVec.eq_of_getLsbD_eq
  intro i _
  simp [hbit i]

/-- Only 0 is its own shift to the right. -/
theorem eq_zero_of_eq_ushiftRight (hk : 0 < k) {x : BitVec w} (h : x = x >>> k) :
    x = 0#w := by
  have hdiv : x.toNat = x.toNat / 2 ^ k := by
    rw [← Nat.shiftRight_eq_div_pow, ← BitVec.toNat_ushiftRight, ← h]
  apply BitVec.eq_of_toNat_eq
  show x.toNat = (0#w).toNat
  by_contra hne
  have hpos : 0 < x.toNat := by
    apply Nat.pos_of_ne_zero
    simpa using hne
  have hlt := Nat.div_lt_self hpos (Nat.one_lt_two_pow (Nat.ne_of_gt hk))
  omega

variable {x n : UInt32}

/-- The step to the left does not lead to 0. -/
theorem xor_shiftLeft_ne_zero (hn : 0 < (n.toBitVec % 32).toNat) (h : x ≠ 0) :
    x ^^^ (x <<< n) ≠ 0 := by
  intro hzero
  rw [UInt32.xor_eq_zero_iff] at hzero
  have hbits : x.toBitVec = x.toBitVec <<< (n.toBitVec % 32).toNat :=
    congrArg UInt32.toBitVec hzero
  exact h (UInt32.toBitVec_inj.mp (eq_zero_of_eq_shiftLeft hn hbits))

/-- The step to the right does not lead to 0. -/
theorem xor_shiftRight_ne_zero (hn : 0 < (n.toBitVec % 32).toNat) (h : x ≠ 0) :
    x ^^^ (x >>> n) ≠ 0 := by
  intro hzero
  rw [UInt32.xor_eq_zero_iff] at hzero
  have hbits : x.toBitVec = x.toBitVec >>> (n.toBitVec % 32).toNat :=
    congrArg UInt32.toBitVec hzero
  exact h (UInt32.toBitVec_inj.mp (eq_zero_of_eq_ushiftRight hn hbits))

end RaftStore
