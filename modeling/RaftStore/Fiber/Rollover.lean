import RaftStore.Fiber.Expiry

namespace RaftStore

/-!
# Threads that share a timer manager

A thread in `listExpiredCb` reads the clock, tests the set under the read lock and does the rest
under the write lock; a thread in `addTimer` constructs the timer, which reads the clock, and
inserts it under the write lock.  Between these steps other threads take theirs, so the locked
sections need not come in the order of the readings.

* `TimerThreads` — the manager with what the threads hold between their steps.
* `TimerThreads.Run` — the runs, with a record of every locked section of `listExpiredCb`.
* `Listing.NoneEarly`, `Listing.Steady` — nothing was handed out early; no rollover is seen.
* `none_early_iff` — the first holds of all sections of a run exactly if the second does.
-/

variable {β : Type}

/-- The shared manager.  `clock` is the largest reading so far; `unchecked` and `checked` hold the
    readings of the calls of `listExpiredCb` before and after the test under the read lock, and
    `pending` the timers that `addTimer` has constructed and not inserted. -/
structure TimerThreads (β : Type) where
  manager : TimerManager β
  clock : ℕ
  unchecked : List ℕ := []
  checked : List ℕ := []
  pending : List ℕ := []

/-- A step of some thread. -/
inductive TimerAction (β : Type)
  | read (now : ℕ)
  | check (now : ℕ)
  | expire (now addr : ℕ)
  | construct (ms : ℕ) (cb : Option β) (recurring : Bool) (addr now : ℕ)
  | insert (id : ℕ)
  | cancel (id : ℕ)
  | refresh (id now : ℕ)
  | reset (id ms : ℕ) (fromNow : Bool) (now : ℕ)

/-- A locked section of `listExpiredCb`: the manager before it, the largest reading so far, its own
    reading and what it took out. -/
structure Listing (β : Type) where
  before : TimerManager β
  clock : ℕ
  now : ℕ
  expired : List ℕ
  deriving DecidableEq, Repr

namespace TimerThreads

variable (s : TimerThreads β)

/-- What a step needs: the clock does not go back and has 64 bits, a new timer has an address of
    its own, and only timers that `addTimer` has returned are cancelled. -/
def Admissible : TimerAction β → Prop
  | .read now => s.clock ≤ now ∧ now < 2 ^ 64
  | .check now => now ∈ s.unchecked
  | .expire now _ => now ∈ s.checked
  | .construct _ _ _ addr now => (s.clock ≤ now ∧ now < 2 ^ 64) ∧
      ∀ j ∈ s.manager.timers ++ s.pending, s.manager.addrOf j ≠ some addr
  | .insert id => id ∈ s.pending
  | .cancel id => id < s.manager.objects.length ∧ id ∉ s.pending
  | .refresh id now => id < s.manager.objects.length ∧ s.clock ≤ now ∧ now < 2 ^ 64
  | .reset id _ _ now => id < s.manager.objects.length ∧ s.clock ≤ now ∧ now < 2 ^ 64

instance : DecidablePred s.Admissible
  | .read now => inferInstanceAs (Decidable (s.clock ≤ now ∧ now < 2 ^ 64))
  | .check now => inferInstanceAs (Decidable (now ∈ s.unchecked))
  | .expire now _ => inferInstanceAs (Decidable (now ∈ s.checked))
  | .construct _ _ _ addr now => inferInstanceAs (Decidable ((s.clock ≤ now ∧ now < 2 ^ 64) ∧
      ∀ j ∈ s.manager.timers ++ s.pending, s.manager.addrOf j ≠ some addr))
  | .insert id => inferInstanceAs (Decidable (id ∈ s.pending))
  | .cancel id => inferInstanceAs (Decidable (id < s.manager.objects.length ∧ id ∉ s.pending))
  | .refresh id now =>
    inferInstanceAs (Decidable (id < s.manager.objects.length ∧ s.clock ≤ now ∧ now < 2 ^ 64))
  | .reset id _ _ now =>
    inferInstanceAs (Decidable (id < s.manager.objects.length ∧ s.clock ≤ now ∧ now < 2 ^ 64))

/-- One step, with the record of a locked section.  `Timer::reset` tests without the lock whether
    there is anything to do and then does nothing, so only the rest is a step here. -/
def step : TimerAction β → Option (List (Listing β) × TimerThreads β)
  | .read now => some ([], { s with clock := now, unchecked := now :: s.unchecked })
  | .check now =>
    let s := { s with unchecked := s.unchecked.erase now }
    some ([], if s.manager.timers.isEmpty then s else { s with checked := now :: s.checked })
  | .expire now addr =>
    (s.manager.listExpiredLocked now addr []).map fun r =>
      ([⟨s.manager, s.clock, now, r.expired⟩],
        { s with manager := r.manager, checked := s.checked.erase now })
  | .construct ms cb recurring addr now =>
    let (manager, timer) := s.manager.construct ms cb recurring addr now
    some ([], { s with manager, clock := now, pending := timer :: s.pending })
  | .insert id =>
    some ([], { s with
      manager := (s.manager.addTimerLocked id).2
      pending := s.pending.erase id })
  | .cancel id => (s.manager.cancel id).map fun r => ([], { s with manager := r.2 })
  | .refresh id now =>
    -- The clock is read on the way to `true` only.
    (s.manager.refresh id now).map fun r =>
      ([], { s with manager := r.2, clock := if r.1 then now else s.clock })
  | .reset id ms fromNow now =>
    (s.manager.resetLocked id ms fromNow now).map fun r =>
      let read := r.1 && fromNow && (s.manager.timer id).any (·.cb.isSome)
      ([], { s with manager := r.2, clock := if read then now else s.clock })

/-- The runs, with the locked sections of `listExpiredCb` in order. -/
inductive Run : List (Listing β) → TimerThreads β → Prop
  | start {now : ℕ} (hnow : now < 2 ^ 64) : Run [] { manager := .create now, clock := now }
  | step {listings : List (Listing β)} {s : TimerThreads β} (h : Run listings s)
      {a : TimerAction β} {new : List (Listing β)} {s' : TimerThreads β} (ha : s.Admissible a)
      (hstep : s.step a = some (new, s')) : Run (listings ++ new) s'

end TimerThreads

namespace Listing

/-- Every timer handed out has its deadline within the largest reading. -/
def NoneEarly (r : Listing β) : Prop :=
  ∀ id ∈ r.expired, ∀ t, r.before.timer id = some t → t.next ≤ r.clock

/-- The reading is not behind the previous time, or that is at least an hour and the reading at
    most an hour behind it; or no deadline in the set is beyond the largest reading. -/
def Steady (r : Listing β) : Prop :=
  r.before.previouseTime ≤ r.now ∨
    (60 * 60 * 1000 ≤ r.before.previouseTime ∧ r.before.previouseTime - 60 * 60 * 1000 ≤ r.now) ∨
    ∀ id ∈ r.before.timers, ∀ t, r.before.timer id = some t → t.next ≤ r.clock

end Listing

namespace TimerThreads

/-! ## The invariant -/

/-- The set is in order whatever the callbacks, and no reading is beyond the clock. -/
structure Inv (s : TimerThreads β) : Prop where
  manager : s.manager.Inv (fun _ => True) s.pending
  clock : s.clock < 2 ^ 64
  previouse : s.manager.previouseTime ≤ s.clock
  readings : ∀ now ∈ s.unchecked ++ s.checked, now ≤ s.clock

/-- The record of a locked section: a set in order, times within the clock, and what the section
    hands out according to `handedOut`. -/
structure Listed (r : Listing β) : Prop where
  inv : ∃ out, r.before.Inv (fun _ => True) out
  clock : r.clock < 2 ^ 64
  previouse : r.before.previouseTime ≤ r.clock
  now : r.now ≤ r.clock
  expired : r.expired = r.before.handedOut r.now

variable {s s' : TimerThreads β} {a : TimerAction β} {new : List (Listing β)}

/-- A later manager at a later time. -/
theorem Inv.later (h : s.Inv) {m' : TimerManager β} {clock : ℕ}
    (hinv : m'.Inv (fun _ => True) s.pending) (hlater : s.manager.Later m')
    (hle : s.clock ≤ clock) (hlt : clock < 2 ^ 64) :
    Inv { s with manager := m', clock } where
  manager := hinv
  clock := hlt
  previouse := hlater.previouseTime.trans_le (h.previouse.trans hle)
  readings now hnow := (h.readings now hnow).trans hle

/-- Every step keeps the invariant, and its record is as it should be. -/
theorem Inv.step (h : s.Inv) (ha : s.Admissible a) :
    ∃ new s', s.step a = some (new, s') ∧ s'.Inv ∧ ∀ r ∈ new, Listed r := by
  cases a with
  | read now =>
    refine ⟨[], _, rfl, ⟨h.manager, ha.2, h.previouse.trans ha.1, fun n hn => ?_⟩, by simp⟩
    rcases List.mem_cons.mp hn with rfl | hn
    · exact le_rfl
    · exact (h.readings n hn).trans ha.1
  | check now =>
    -- a reading goes from the one list to the other, or is dropped if there is no timer
    have herase : ∀ n ∈ s.unchecked.erase now ++ s.checked, n ≤ s.clock := fun n hn =>
      h.readings n ((List.Sublist.append_right List.erase_sublist _).subset hn)
    refine ⟨[], _, rfl, ?_, by simp⟩
    dsimp only
    split
    · exact ⟨h.manager, h.clock, h.previouse, herase⟩
    · refine ⟨h.manager, h.clock, h.previouse, fun n hn => ?_⟩
      rcases List.mem_cons.mp (List.perm_middle.mem_iff.mp hn) with rfl | hn
      · exact h.readings n (List.mem_append_left _ ha)
      · exact herase n hn
  | expire now addr =>
    have hnow : now ≤ s.clock := h.readings now (List.mem_append_right _ ha)
    obtain ⟨m', hlist, hinv, htime, -⟩ := h.manager.listExpiredLocked now addr []
    have hstep : s.step (.expire now addr) =
        some ([⟨s.manager, s.clock, now, s.manager.handedOut now⟩],
          { s with manager := m', checked := s.checked.erase now }) := by
      simp [TimerThreads.step, hlist]
    refine ⟨_, _, hstep, ?_, ?_⟩
    · refine ⟨hinv, h.clock, ?_, fun n hn => ?_⟩
      · show m'.previouseTime ≤ s.clock
        rw [htime]
        split
        · exact h.previouse
        · exact hnow
      · exact h.readings n ((List.Sublist.append_left List.erase_sublist _).subset hn)
    · intro r hr
      obtain rfl := List.mem_singleton.mp hr
      exact ⟨⟨_, h.manager⟩, h.clock, h.previouse, hnow, rfl⟩
  | construct ms cb recurring addr now =>
    refine ⟨[], _, rfl, ?_, by simp⟩
    exact ⟨h.manager.construct trivial ha.2, ha.1.2, h.previouse.trans ha.1.1,
      fun n hn => (h.readings n hn).trans ha.1.1⟩
  | insert id =>
    -- the timer was constructed before, and is not in the set yet
    have hcons := h.manager.perm (List.perm_cons_erase ha).symm
    have hlater := TimerManager.Later.addTimerLocked s.manager id
    exact ⟨[], _, rfl, ⟨hcons.addTimerLocked, h.clock, hlater.previouseTime.trans_le h.previouse,
      h.readings⟩, by simp⟩
  | cancel id =>
    obtain ⟨t, ht⟩ := TimerManager.exists_timer ha.1
    by_cases hcb : t.cb = none
    · refine ⟨[], s, ?_, h, by simp⟩
      simp [TimerThreads.step, TimerManager.cancel_disarmed ht hcb]
    -- an armed timer that no thread is about to insert is in the set
    · have hsome := Option.isSome_iff_ne_none.mpr hcb
      have hid := (List.mem_append.mp (h.manager.complete id t ht hsome)).resolve_right ha.2
      obtain ⟨m', hcancel, hinv, hlater, -⟩ := h.manager.cancel ht hsome hid
      refine ⟨[], _, ?_, h.later hinv hlater le_rfl h.clock, by simp⟩
      simp [TimerThreads.step, hcancel]
  | refresh id now =>
    obtain ⟨t, ht⟩ := TimerManager.exists_timer ha.1
    obtain ⟨b, m', hrefresh, -, hinv, hlater⟩ := h.manager.refresh ht now
    refine ⟨[], { s with manager := m', clock := if b then now else s.clock }, ?_,
      h.later hinv hlater ?_ ?_, by simp⟩
    · simp [TimerThreads.step, hrefresh]
    · split
      · exact ha.2.1
      · exact le_rfl
    · split
      · exact ha.2.2
      · exact h.clock
  | reset id ms fromNow now =>
    obtain ⟨t, ht⟩ := TimerManager.exists_timer ha.1
    obtain ⟨b, m', hreset, -, hinv, hlater⟩ := h.manager.resetLocked ht ms fromNow now
    let read := b && fromNow && (s.manager.timer id).any (·.cb.isSome)
    refine ⟨[], { s with manager := m', clock := if read then now else s.clock }, ?_,
      h.later hinv hlater ?_ ?_, by simp⟩
    · simp [TimerThreads.step, hreset, read]
    · split
      · exact ha.2.1
      · exact le_rfl
    · split
      · exact ha.2.2
      · exact h.clock

/-- What holds after every run, and of every listing in it. -/
theorem Run.inv {listings : List (Listing β)} (h : Run listings s) :
    s.Inv ∧ ∀ r ∈ listings, Listed r := by
  induction h with
  | @start now hnow =>
    refine ⟨⟨⟨List.Pairwise.nil, by simp [TimerManager.create], fun id t ht => ?_,
      by simp [TimerManager.create]⟩, hnow, le_rfl, by simp⟩, by simp⟩
    simp [TimerManager.timer, TimerManager.create] at ht
  | step _ ha hstep ih =>
    obtain ⟨hinv, hlisted⟩ := ih
    obtain ⟨new', s'', hstep', hinv', hnew⟩ := hinv.step ha
    rw [hstep, Option.some.injEq, Prod.mk.injEq] at hstep'
    obtain ⟨rfl, rfl⟩ := hstep'
    refine ⟨hinv', fun r hr => ?_⟩
    rcases List.mem_append.mp hr with hr | hr
    · exact hlisted r hr
    · exact hnew r hr

/-! ## Nothing early -/

/-- When a rollover is seen: the difference of an hour is taken modulo `2 ^ 64`, so it is not behind
    a previous time within the first hour. -/
theorem rollover_iff (m : TimerManager β) (now : ℕ) (hprev : m.previouseTime < 2 ^ 64) :
    (m.detectClockRolllover now).1 = true ↔ now < m.previouseTime ∧
      ¬ (60 * 60 * 1000 ≤ m.previouseTime ∧ m.previouseTime - 60 * 60 * 1000 ≤ now) := by
  simp only [TimerManager.detectClockRolllover, Bool.and_eq_true, decide_eq_true_eq]
  refine and_congr_right fun hlt => ?_
  by_cases hhour : 60 * 60 * 1000 ≤ m.previouseTime
  · have hmod : (m.previouseTime + 2 ^ 64 - 60 * 60 * 1000) % 2 ^ 64 =
        m.previouseTime - 60 * 60 * 1000 := by omega
    omega
  · have hmod : (m.previouseTime + 2 ^ 64 - 60 * 60 * 1000) % 2 ^ 64 =
        m.previouseTime + 2 ^ 64 - 60 * 60 * 1000 := by omega
    omega

/-- No callback is early iff the clock is steady. -/
theorem Listed.noneEarly_iff_steady {r : Listing β} (h : Listed r) : r.NoneEarly ↔ r.Steady := by
  have hroll := rollover_iff r.before r.now (h.previouse.trans_lt h.clock)
  by_cases hseen : (r.before.detectClockRolllover r.now).1 = true
  · -- The whole set is handed out.
    have hall : r.expired = r.before.timers := by
      rw [h.expired, TimerManager.handedOut, if_pos hseen]
    have hback := hroll.mp hseen
    rw [Listing.NoneEarly, hall]
    refine ⟨fun hearly => .inr (.inr hearly), fun hsteady => ?_⟩
    rcases hsteady with hle | hhour | hdue
    · exact absurd hle (not_le.mpr hback.1)
    · exact absurd hhour hback.2
    · exact hdue
  · have hdue : r.expired = r.before.timers.filter (r.before.due r.now) := by
      rw [h.expired, TimerManager.handedOut, if_neg hseen]
    constructor
    · intro _
      by_cases hle : r.before.previouseTime ≤ r.now
      · exact .inl hle
      · by_contra hno
        exact hseen (hroll.mpr ⟨not_le.mp hle, fun hhour => hno (.inr (.inl hhour))⟩)
    · intro _ id hid t ht
      rw [hdue] at hid
      have hnext := (List.mem_filter.mp hid).2
      simp only [TimerManager.due, ht, Option.any_some, decide_eq_true_eq] at hnext
      exact hnext.trans h.now

/-- **No timer fires early**, if no locked section sees a rollover with a deadline beyond the
    largest reading in the set, and only then: all sections of a run hand out nothing early exactly
    if all are steady. -/
theorem Run.none_early_iff {listings : List (Listing β)} (h : Run listings s) :
    (∀ r ∈ listings, r.NoneEarly) ↔ ∀ r ∈ listings, r.Steady :=
  forall₂_congr fun r hr => Listed.noneEarly_iff_steady (h.inv.2 r hr)

section twoReadings

/-- A timer of five seconds, armed one second after boot. -/
private def waiting : TimerManager String :=
  { objects := [{ ms := 5000, next := 6000, cb := some "later", addr := 100 }]
    timers := [0]
    tickled := true
    previouseTime := 1000 }

/-- The state when two threads have read the clock and found the set not empty. -/
private theorem run_twoReadings :
    Run [] { manager := waiting, clock := 1002, checked := [1001, 1002] } := by
  have hstart : Run [] { manager := (.create 1000 : TimerManager String), clock := 1000 } :=
    .start (by decide)
  have hcreated := hstart.step (a := .construct 5000 (some "later") false 100 1000)
    (by decide) rfl
  have harmed : Run [] { manager := waiting, clock := 1000 } :=
    hcreated.step (a := .insert 0) (by decide) rfl
  have hfirst := harmed.step (a := .read 1001) (by decide) rfl
  have hsecond := hfirst.step (a := .read 1002) (by decide) rfl
  have hchecked := hsecond.step (a := .check 1002) (by decide) rfl
  exact hchecked.step (a := .check 1001) (by decide) rfl

/-- The thread that read the clock last takes the lock first. -/
private theorem run_lastFirst :
    Run [⟨waiting, 1002, 1002, []⟩]
      { manager := { waiting with previouseTime := 1002 }, clock := 1002, checked := [1001] } :=
  run_twoReadings.step (a := .expire 1002 300) (by decide) rfl

/-- Where the thread that read the clock last lists first, nothing is handed out early. -/
theorem none_early_iff_lastFirst : (⟨waiting, 1002, 1002, []⟩ : Listing String).NoneEarly :=
  run_lastFirst.none_early_iff.mpr
    (fun r hr => by obtain rfl := List.mem_singleton.mp hr; exact .inl (by decide)) _
    (List.mem_singleton_self _)

/-- The other thread's reading is one millisecond behind the previous time, which is within the
    first hour: the timer of five seconds is handed out after two milliseconds. -/
theorem none_early_staleReading :
    ¬ ∀ (listings : List (Listing String)) (s : TimerThreads String), Run listings s →
      ∀ r ∈ listings, r.NoneEarly := by
  intro hall
  have hrun : Run ([⟨waiting, 1002, 1002, []⟩] ++
      [⟨{ waiting with previouseTime := 1002 }, 1002, 1001, [0]⟩]) _ :=
    run_lastFirst.step (a := .expire 1001 300) (by decide) rfl
  have hle := hall _ _ hrun _ (List.mem_append_right _ (List.mem_singleton_self _)) 0 (by decide) _
    rfl
  exact absurd hle (by decide)

end twoReadings

end TimerThreads

end RaftStore
