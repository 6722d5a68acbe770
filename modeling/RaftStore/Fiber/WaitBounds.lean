import RaftStore.Model.IdleWait
import RaftStore.Fiber.TimerRuns
import RaftStore.Lib.Narrowing

namespace RaftStore

/-!
# The wait of the idle loop is bounded

The interval to the next timer is a `uint64_t`, and its lower 32 bits are what is compared with
`MAX_TIMEOUT`, as an `int`.  The argument of `epoll_wait` is right exactly if bit 31 of the interval
is clear, or if the interval is the value that stands for no timer.

* `InBounds` — an argument of `epoll_wait` as it should be.
* `TimerManager.getNextTimer_eq` — the interval is the one to the earliest deadline.
* `TimerManager.Narrow` — the interval passes the conversion.
* `waitArgs_inBounds_iff`, `TimerManager.idleWait_bounded_iff` — the first wait and every retry.
-/

variable {β : Type}

/-- Between 0 and `MAX_TIMEOUT`, and not beyond the interval. -/
def InBounds (interval : ℕ) (arg : ℤ) : Prop := 0 ≤ arg ∧ arg ≤ 5000 ∧ arg ≤ interval

/-- The conversion to `int` is not negative iff the 32nd bit is not set. -/
theorem toInt_nonneg_iff {n : ℕ} : 0 ≤ toInt n ↔ n % 2 ^ 32 < 2 ^ 31 := by
  have h : 0 ≤ toInt n ↔ (n : ℤ) % 2 ^ 32 < 2 ^ 31 := bmod_nonneg_iff
  omega

/-- The conversion never makes a number larger. -/
theorem toInt_le (n : ℕ) : toInt n ≤ n := bmod_le_of_nonneg (Int.natCast_nonneg n)

/-- A number that is an `int` comes back. -/
theorem toInt_toUInt64 {n : ℤ} (hge : -2 ^ 31 ≤ n) (hlt : n < 2 ^ 31) : toInt (toUInt64 n) = n := by
  have hpos : 0 ≤ n % 2 ^ 64 := Int.emod_nonneg n (by decide)
  have hcast : (toUInt64 n : ℤ) = n % 2 ^ 64 := Int.toNat_of_nonneg hpos
  have hback : toInt (toUInt64 n) = (n % 2 ^ 64).bmod (2 ^ 32) := congrArg (Int.bmod · _) hcast
  exact hback.trans (bmod_emod_eq hge hlt)

/-- The result of the conversion is an `int`. -/
theorem neg_le_toInt (n : ℕ) : -2 ^ 31 ≤ toInt n ∧ toInt n < 2 ^ 31 := by
  have hge : -(((2 ^ 32 : ℕ) : ℤ) / 2) ≤ toInt n := Int.le_bmod (by decide)
  have hlt : toInt n < (((2 ^ 32 : ℕ) : ℤ) + 1) / 2 := Int.bmod_lt (by decide)
  omega

/-! ## The clamp -/

/-- The value that stands for no timer gives the longest wait. -/
theorem clampTimeout_sentinel : clampTimeout (2 ^ 64 - 1) = 5000 := by
  rw [clampTimeout, if_neg (by simp)]
  rfl

/-- What is passed after the clamp, if the argument is not the value that stands for no timer. -/
theorem toInt_clampTimeout {n : ℕ} (hn : n ≠ 2 ^ 64 - 1) :
    toInt (clampTimeout n) = min (toInt n) 5000 := by
  obtain ⟨hge, hlt⟩ := neg_le_toInt n
  rw [clampTimeout, if_pos hn, maxTimeout]
  apply toInt_toUInt64 <;> omega

/-- A short wait is the same `int`. -/
theorem toInt_of_le {n : ℕ} (hn : n ≤ 5000) : toInt n = n :=
  bmod_eq_of_lt (Int.natCast_nonneg n) (by omega)

/-- An interval that is not negative as an `int` is clamped to `MAX_TIMEOUT`. -/
theorem clampTimeout_of_nonneg {n : ℕ} (hn : n ≠ 2 ^ 64 - 1) (hpos : 0 ≤ toInt n) :
    clampTimeout n ≤ 5000 ∧ clampTimeout n ≤ n := by
  have hcast : (clampTimeout n : ℤ) = min (toInt n) 5000 := by
    unfold clampTimeout
    rewrite [if_pos hn, toUInt64, maxTimeout]
    omega
  have hle := toInt_le n
  omega

/-- A retry passes the same argument again. -/
theorem eq_of_mem_waitArgs {interrupts n : ℕ} (hn : clampTimeout n ≤ 5000) {arg : ℤ}
    (harg : arg ∈ waitArgs interrupts n) : arg = clampTimeout n := by
  induction interrupts generalizing n with
  | zero =>
    rw [List.mem_singleton.mp harg]
    exact toInt_of_le hn
  | succ interrupts ih =>
    rcases List.mem_cons.mp harg with hfirst | harg
    · rw [hfirst]
      exact toInt_of_le hn
    · have hpos : 0 ≤ toInt (clampTimeout n) := by
        rw [toInt_of_le hn]
        exact Int.natCast_nonneg _
      have hne : clampTimeout n ≠ 2 ^ 64 - 1 := by omega
      have hagain := toInt_clampTimeout hne
      have hle := (clampTimeout_of_nonneg hne hpos).1
      rw [toInt_of_le hn, toInt_of_le hle] at hagain
      rw [ih hle harg, hagain]
      omega

/-- The first wait of a round and every retry. -/
theorem waitArgs_inBounds_iff (interrupts interval : ℕ) :
    (∀ arg ∈ waitArgs interrupts interval, InBounds interval arg) ↔
      interval = 2 ^ 64 - 1 ∨ interval % 2 ^ 32 < 2 ^ 31 := by
  constructor
  · intro h
    have hfirst : toInt (clampTimeout interval) ∈ waitArgs interrupts interval := by
      cases interrupts <;> exact List.mem_cons_self ..
    obtain ⟨hpos, -⟩ := h _ hfirst
    by_cases hne : interval = 2 ^ 64 - 1
    · exact .inl hne
    · rw [toInt_clampTimeout hne] at hpos
      exact .inr (toInt_nonneg_iff.mp (by omega))
  · intro h arg harg
    have hclamp : clampTimeout interval ≤ 5000 ∧ clampTimeout interval ≤ interval := by
      by_cases hne : interval = 2 ^ 64 - 1
      · rw [hne, clampTimeout_sentinel]
        omega
      · exact clampTimeout_of_nonneg hne (toInt_nonneg_iff.mpr (h.resolve_left hne))
    rw [eq_of_mem_waitArgs hclamp.1 harg, InBounds]
    omega

/-! ## A round -/

namespace TimerManager

variable {m : TimerManager β}

/-- With the clock at `now` the interval to the first timer of the set passes the conversion to
    `int`, or is the value that stands for no timer. -/
def Narrow (m : TimerManager β) (now : ℕ) : Prop :=
  ∀ first ∈ m.timers.head?, ∀ t ∈ m.timer first,
    t.next - now = 2 ^ 64 - 1 ∨ (t.next - now) % 2 ^ 32 < 2 ^ 31

/-- The interval to the earliest deadline, and the largest value if there is no timer. -/
def Earliest (m : TimerManager β) (now interval : ℕ) : Prop :=
  (m.timers = [] ∧ interval = 2 ^ 64 - 1 ∨
    ∃ id ∈ m.timers, ∃ t, m.timer id = some t ∧ interval = t.next - now) ∧
  ∀ id ∈ m.timers, ∀ t, m.timer id = some t → interval ≤ t.next - now

/-- `getNextTimer` of an ordered set. -/
theorem getNextTimer_eq (h : m.Exact) (now : ℕ) :
    ∃ interval, m.getNextTimer now = some (interval, { m with tickled := false }) ∧
      m.Earliest now interval ∧
      (interval = 2 ^ 64 - 1 ∨ interval % 2 ^ 32 < 2 ^ 31 ↔ m.Narrow now) := by
  obtain ⟨hmem, hordered⟩ := h
  cases htimers : m.timers with
  | nil =>
    exact ⟨2 ^ 64 - 1, by simp [getNextTimer, htimers], ⟨.inl ⟨htimers, rfl⟩, by simp [htimers]⟩,
      by simp [Narrow, htimers]⟩
  | cons first rest =>
    have hfirst : first ∈ m.timers := by simp [htimers]
    obtain ⟨t, ht, -⟩ := (hmem first).mp hfirst
    refine ⟨t.next - now, ?_, ⟨.inr ⟨first, hfirst, t, ht, rfl⟩, fun id hid u hu => ?_⟩,
      by simp [Narrow, htimers, ht]⟩
    · simp only [getNextTimer, htimers]
      rw [← htimers]
      show (m.timer first).bind _ = _
      rw [ht, Option.bind_some]
      split
      case isTrue hge =>
        rw [Nat.sub_eq_zero_of_le hge]
        rfl
      case isFalse => rfl
    -- the first timer is the earliest, as the set is ordered by due time
    · rw [htimers] at hid hordered
      rcases List.mem_cons.mp hid with rfl | hid
      · rw [ht] at hu
        rw [Option.some.inj hu]
      · obtain ⟨t₁, u₁, ht₁, hu₁, hlt⟩ := (List.pairwise_cons.mp hordered).1 id hid
        rw [ht] at ht₁
        rw [hu] at hu₁
        obtain rfl := Option.some.inj ht₁
        obtain rfl := Option.some.inj hu₁
        omega

/-- Not beyond any deadline is not beyond the interval to the earliest. -/
theorem inBounds_iff {now interval : ℕ} (h : m.Earliest now interval) (arg : ℤ) :
    (0 ≤ arg ∧ arg ≤ 5000 ∧
      ∀ id ∈ m.timers, ∀ t, m.timer id = some t → arg ≤ (t.next - now : ℕ)) ↔
      InBounds interval arg := by
  obtain ⟨hcase, hle⟩ := h
  refine and_congr_right fun _ => and_congr_right fun hmax => ⟨fun hall => ?_, fun harg => ?_⟩
  · rcases hcase with ⟨-, rfl⟩ | ⟨id, hid, t, ht, rfl⟩
    · omega
    · exact hall id hid t ht
  · intro id hid t ht
    have hinterval := hle id hid t ht
    omega

/-- **The idle loop's wait is bounded**, on the first call of a round and on every retry, if the
    interval to the earliest deadline passes the conversion, and only then. -/
theorem idleWait_bounded_iff (h : m.Exact) (pendingEventCnt : ℕ) (schedulerStopping : Bool)
    (now interrupts : ℕ) :
    ∃ args m', m.idleWait pendingEventCnt schedulerStopping now interrupts = some (args, m') ∧
      ((∀ arg ∈ args, 0 ≤ arg ∧ arg ≤ 5000 ∧
          ∀ id ∈ m.timers, ∀ t, m.timer id = some t → arg ≤ (t.next - now : ℕ)) ↔
        m.Narrow now) := by
  obtain ⟨interval, hnext, hearliest, hnarrow⟩ := getNextTimer_eq h now
  rw [← hnarrow]
  simp only [idleWait, stopping, hnext, Option.bind_eq_bind, Option.bind_some, Option.pure_def]
  split
  case isTrue hstop =>
    -- the loop ends only when there is no timer
    refine ⟨[], _, rfl, iff_of_true (by simp) (.inl ?_)⟩
    simp only [Bool.and_eq_true, beq_iff_eq] at hstop
    exact hstop.1.1
  case isFalse =>
    refine ⟨waitArgs interrupts interval, _, rfl, ?_⟩
    rw [← waitArgs_inBounds_iff interrupts interval]
    exact forall₂_congr fun arg _ => inBounds_iff hearliest arg

section oneTimer

/-- One timer, which expires at `next`. -/
private def waiting (next : ℕ) : TimerManager String :=
  { objects := [{ next, cb := some "cb", addr := 100 }], timers := [0] }

/-- Its manager is in order. -/
private theorem exact_waiting (next : ℕ) : (waiting next).Exact := by
  refine ⟨fun id => ?_, List.pairwise_singleton _ _⟩
  cases id <;> simp [waiting, timer]

/-- What `idle` passes to `epoll_wait` there. -/
private theorem idleWait_waiting {next : ℕ} (h : next ≠ 0) :
    (waiting next).idleWait 0 false 0 0 = some (waitArgs 0 next, waiting next) := by
  simp [idleWait, stopping, getNextTimer, waiting, timer, h]

/-- A timer that is due in 2 ms, and one interruption. -/
theorem idleWait_bounded_iff_soon :
    ∃ args m', (waiting 12).idleWait 0 false 10 1 = some (args, m') ∧
      ∀ arg ∈ args, 0 ≤ arg ∧ arg ≤ 5000 := by
  obtain ⟨args, m', hwait, hiff⟩ := idleWait_bounded_iff (exact_waiting 12) 0 false 10 1
  refine ⟨args, m', hwait, fun arg harg => ?_⟩
  obtain ⟨hpos, hmax, -⟩ := hiff.mpr (by simp [Narrow, waiting, timer]) arg harg
  exact ⟨hpos, hmax⟩

/-- The deadline is 2 ^ 31 ms ahead, and the wait has no end. -/
theorem idleWait_endless :
    ¬ ∀ (m : TimerManager String) (now interrupts : ℕ) (args : List ℤ) (m' : TimerManager String),
      m.Exact → now < 2 ^ 64 → (∀ id t, m.timer id = some t → t.next < 2 ^ 64) →
      m.idleWait 0 false now interrupts = some (args, m') → ∀ arg ∈ args, 0 ≤ arg := by
  intro hall
  have hnext : ∀ id t, (waiting (2 ^ 31)).timer id = some t → t.next < 2 ^ 64 := by
    intro id t ht
    cases id with
    | zero =>
      obtain rfl := Option.some.inj ht
      show 2 ^ 31 < 2 ^ 64
      omega
    | succ id => simp [waiting, timer] at ht
  have hpos := hall (waiting (2 ^ 31)) 0 0 (waitArgs 0 (2 ^ 31)) (waiting (2 ^ 31))
    (exact_waiting _) (by omega) hnext (idleWait_waiting (by omega)) _ (List.mem_singleton_self _)
  rw [toInt_clampTimeout (by omega)] at hpos
  have hbit : 0 ≤ toInt (2 ^ 31) := by omega
  have hlt := toInt_nonneg_iff.mp hbit
  omega

end oneTimer

end TimerManager

end RaftStore
