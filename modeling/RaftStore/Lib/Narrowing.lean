import Mathlib.Algebra.Group.Nat.Defs
import Mathlib.Algebra.Ring.Int.Defs

namespace RaftStore

/-!
# Sizes as an `int`

A `size_t` or `long long` that is converted to an `int` keeps its lower 32 bits, with the sign
that they have: `Int.bmod` at `2 ^ 32`.
-/

/-- Cutting a size to an `int` does not raise it. -/
theorem bmod_le_of_nonneg {size : Int} (h : 0 ≤ size) : size.bmod (2 ^ 32) ≤ size := by
  rw [Int.bmod]
  split <;> omega

/-- A size below `2 ^ 31` is kept. -/
theorem bmod_eq_of_lt {size : Int} (h : 0 ≤ size) (hlt : size < 2 ^ 31) :
    size.bmod (2 ^ 32) = size := by
  rw [Int.bmod]
  split <;> omega

/-- The sign is bit 31. -/
theorem bmod_nonneg_iff {size : Int} : 0 ≤ size.bmod (2 ^ 32) ↔ size % 2 ^ 32 < 2 ^ 31 := by
  rw [Int.bmod]
  split <;> omega

/-- A value of an `int` passes through a `uint64_t` unchanged. -/
theorem bmod_emod_eq {n : Int} (hge : -2 ^ 31 ≤ n) (hlt : n < 2 ^ 31) :
    (n % 2 ^ 64).bmod (2 ^ 32) = n := by
  rw [Int.bmod]
  split <;> omega

end RaftStore
