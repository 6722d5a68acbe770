import RaftStore.Kv.SkipListMap
import RaftStore.Lib.Xorshift

namespace RaftStore

/-!
# The seed of `get_random_level`

All lists of one type share the static `seed`, and zero is a state that it never leaves.  The
xorshift step does not lead there, but the loop that follows shifts the same word to the right for
every level it adds, and can shift out all its bits.

* `xorshift`, `seedAt` — the step, and the seed after a number of calls.
* `AllOnes` — after the step nothing but ones is left, no more than the loop can shift out.
* `randomLevelLoop_seed_eq_zero` — the loop ends with zero exactly then.
* `seedAt_ne_zero_iff` — the seed never becomes zero exactly if no call meets such a word.
-/

/-- The three shifts of `get_random_level`. -/
def xorshift (seed : UInt32) : UInt32 :=
  let seed := seed ^^^ (seed <<< 13)
  let seed := seed ^^^ (seed >>> 17)
  seed ^^^ (seed <<< 5)

/-- The level is drawn from the bits of the next seed. -/
theorem getRandomLevel_eq (maxLevel : ℕ) (seed : UInt32) :
    getRandomLevel maxLevel seed = randomLevelLoop maxLevel maxLevel (xorshift seed) 1 := rfl

/-- The seed after a number of calls, the `i`-th of them on a list of maximum `maxLevel i`. -/
def seedAt (maxLevel : ℕ → ℕ) (seed : UInt32) : ℕ → UInt32
  | 0 => seed
  | i + 1 => (getRandomLevel (maxLevel i) (seedAt maxLevel seed i)).2

/-- After the xorshift step the word is a block of ones at the lower end, fewer than the maximum. -/
def AllOnes (maxLevel : ℕ) (seed : UInt32) : Prop :=
  ∃ j < maxLevel, 0 < j ∧ (xorshift seed).toNat = 2 ^ j - 1

instance (maxLevel : ℕ) (seed : UInt32) : Decidable (AllOnes maxLevel seed) :=
  inferInstanceAs (Decidable (∃ j < maxLevel, 0 < j ∧ (xorshift seed).toNat = 2 ^ j - 1))

/-- The three shifts alone do not lead to 0. -/
theorem xorshift_ne_zero {seed : UInt32} (h : seed ≠ 0) : xorshift seed ≠ 0 := by
  apply xor_shiftLeft_ne_zero (by decide)
  apply xor_shiftRight_ne_zero (by decide)
  exact xor_shiftLeft_ne_zero (by decide) h

/-- The bit that the loop tests. -/
theorem and_one_ne_zero_iff {seed : UInt32} : seed &&& 1 ≠ 0 ↔ seed.toNat % 2 = 1 := by
  have hbit : (seed &&& 1).toNat = seed.toNat % 2 := by
    rw [UInt32.toNat_and]
    exact Nat.and_one_is_mod seed.toNat
  rw [← UInt32.toNat_inj.ne, hbit]
  show seed.toNat % 2 ≠ 0 ↔ _
  omega

/-- A seed is 0 iff its value is. -/
theorem eq_zero_iff_toNat {seed : UInt32} : seed = 0 ↔ seed.toNat = 0 := UInt32.toNat_inj.symm

/-- The loop ends with zero exactly from a block of ones that it can shift out. -/
theorem randomLevelLoop_seed_eq_zero {maxLevel k : ℕ} (fuel : ℕ) (seed : UInt32)
    (hk : k ≤ maxLevel) (hfuel : maxLevel ≤ k + fuel) :
    (randomLevelLoop maxLevel fuel seed k).2 = 0 ↔
      ∃ j, k + j ≤ maxLevel ∧ seed.toNat = 2 ^ j - 1 := by
  induction fuel generalizing k seed with
  | zero =>
    show seed = 0 ↔ _
    rw [eq_zero_iff_toNat]
    constructor
    · intro h
      exact ⟨0, hk, h⟩
    · rintro ⟨j, hj, hseed⟩
      obtain rfl : j = 0 := by omega
      exact hseed
  | succ fuel ih =>
    rw [randomLevelLoop]
    by_cases hstep : seed &&& 1 ≠ 0 ∧ k < maxLevel
    · obtain ⟨hodd, hlt⟩ := hstep
      rw [if_pos ⟨hodd, hlt⟩, ih (k := k + 1) (seed >>> 1) hlt (by omega)]
      have hodd := and_one_ne_zero_iff.mp hodd
      have hshift : (seed >>> 1).toNat = seed.toNat / 2 := by
        rw [UInt32.toNat_shiftRight]
        exact Nat.shiftRight_eq_div_pow _ 1
      rw [hshift]
      -- one more bit below
      constructor
      · rintro ⟨j, hj, hseed⟩
        have hpos := Nat.two_pow_pos j
        exact ⟨j + 1, by omega, by rw [Nat.pow_succ]; omega⟩
      · rintro ⟨j, hj, hseed⟩
        cases j with
        | zero => simp [hseed] at hodd
        | succ j =>
          have hpos := Nat.two_pow_pos j
          rw [Nat.pow_succ] at hseed
          exact ⟨j, by omega, by omega⟩
    · rw [if_neg hstep]
      show seed = 0 ↔ _
      rw [eq_zero_iff_toNat]
      constructor
      · intro h
        exact ⟨0, hk, h⟩
      · rintro ⟨j, hj, hseed⟩
        cases j with
        | zero => exact hseed
        | succ j =>
          have hpos := Nat.two_pow_pos j
          rw [Nat.pow_succ] at hseed
          exact absurd ⟨and_one_ne_zero_iff.mpr (by omega), by omega⟩ hstep

/-- One call, from a seed that is not zero. -/
theorem getRandomLevel_seed_eq_zero {maxLevel : ℕ} (hmax : 1 ≤ maxLevel) {seed : UInt32}
    (hseed : seed ≠ 0) : (getRandomLevel maxLevel seed).2 = 0 ↔ AllOnes maxLevel seed := by
  rw [getRandomLevel_eq, randomLevelLoop_seed_eq_zero maxLevel (xorshift seed) hmax (by omega)]
  constructor
  · rintro ⟨j, hj, hones⟩
    refine ⟨j, by omega, Nat.pos_of_ne_zero ?_, hones⟩
    rintro rfl
    exact xorshift_ne_zero hseed (eq_zero_iff_toNat.mpr hones)
  · rintro ⟨j, hj, -, hones⟩
    exact ⟨j, by omega, hones⟩

/-- **The level generator never gets stuck**, if no call meets a block of ones that its loop shifts
    out, and only then; the levels are in their bounds anyway. -/
theorem seedAt_ne_zero_iff {maxLevel : ℕ → ℕ} (hmax : ∀ i, 1 ≤ maxLevel i) {seed : UInt32}
    (hseed : seed ≠ 0) (n : ℕ) :
    (∀ i < n, seedAt maxLevel seed (i + 1) ≠ 0 ∧
      1 ≤ (getRandomLevel (maxLevel i) (seedAt maxLevel seed i)).1 ∧
      (getRandomLevel (maxLevel i) (seedAt maxLevel seed i)).1 ≤ maxLevel i) ↔
    ∀ i < n, ¬ AllOnes (maxLevel i) (seedAt maxLevel seed i) := by
  induction n with
  | zero => simp
  | succ n ih =>
    rw [Nat.forall_lt_succ_right, Nat.forall_lt_succ_right, ih]
    refine and_congr_right fun hnot => ?_
    have hne : seedAt maxLevel seed n ≠ 0 := by
      cases n with
      | zero => exact hseed
      | succ n => exact (ih.mpr hnot n (Nat.lt_succ_self n)).1
    have hzero := getRandomLevel_seed_eq_zero (hmax n) hne
    have hbounds := getRandomLevel_bounds (hmax n) (seedAt maxLevel seed n)
    show (getRandomLevel (maxLevel n) (seedAt maxLevel seed n)).2 ≠ 0 ∧ _ ↔ _
    rw [Ne, hzero]
    exact and_iff_left hbounds

/-- Two calls on a list of maximum 6. -/
theorem seedAt_ne_zero_iff_two : seedAt (fun _ => 6) 1 2 ≠ 0 :=
  ((seedAt_ne_zero_iff (fun _ => by decide) (by decide) 2).mpr (by decide) 1 (by decide)).1

/-- The step turns this seed into 1, and the loop shifts the one bit out. -/
theorem seedAt_eq_zero :
    ¬ ∀ maxLevel ≥ 2, ∀ seed : UInt32, seed ≠ 0 → ∀ n,
      seedAt (fun _ => maxLevel) seed n ≠ 0 := by
  intro hall
  exact hall 2 le_rfl 4071982377 (by decide) 1 (by decide)

end RaftStore
