import RaftStore.Model.Tickers

namespace RaftStore

/-!
# The timeouts of the tickers

* `Ticker.Change` — what one step of a loop can do.
* `Ticker.Early`, `Ticker.Due` — a wait is neither much shorter nor longer than the timeout.
* `never_early` — a loop calls `doElection` or `doHeartBeat` only when the time since the last
  assignment to its member reaches the timeout, up to the rounding of the `usleep`s.
* `in_time` — it calls them in time, if the fiber is woken in time.
* `time_passes` — the loop does not spin for ever in between.
-/

namespace Ticker

variable {k : TickerKind} {boot now now' : ℕ} {status : Status} {t t' : Ticker}

/-! ### One step -/

/-- The steps of a loop. -/
inductive Change (k : TickerKind) (boot now : ℕ) (status : Status) (t : Ticker) :
    TickerMove → Ticker → Prop
  | nap (hphase : t.phase = .testing) (hidle : k.idle status = true) :
      Change k boot now status t .test { t with phase := .napping (usleep boot now k.nap) }
  | leave (hphase : t.phase = .testing) (hidle : k.idle status = false) :
      Change k boot now status t .test { t with phase := .reading }
  | endNap {expiry : ℕ} (hphase : t.phase = .napping expiry)
      (hexpired : expiry ≤ getElapsedMS boot now) :
      Change k boot now status t .wake { t with phase := .testing }
  | endSleep {wakeTime expiry : ℕ} (hphase : t.phase = .sleeping wakeTime expiry)
      (hexpired : expiry ≤ getElapsedMS boot now) :
      Change k boot now status t .wake { t with phase := .comparing wakeTime }
  | sleep {timeout : ℕ} (hphase : t.phase = .reading) (hmin : k.minTimeout ≤ timeout)
      (hmax : timeout ≤ k.maxTimeout) (hlong : 1000000 < t.suitableSleepTime timeout now) :
      Change k boot now status t (.read timeout) { t with
        phase := .sleeping now
          (usleep boot now (t.suitableSleepTime timeout now / 1000).toNat) }
  | skip {timeout : ℕ} (hphase : t.phase = .reading) (hmin : k.minTimeout ≤ timeout)
      (hmax : timeout ≤ k.maxTimeout) (hshort : t.suitableSleepTime timeout now ≤ 1000000) :
      Change k boot now status t (.read timeout) { t with phase := .comparing now }
  | again {wakeTime : ℕ} (hphase : t.phase = .comparing wakeTime)
      (hlater : wakeTime < t.lastReset) :
      Change k boot now status t .compare { t with phase := .testing }
  | decide {wakeTime : ℕ} (hphase : t.phase = .comparing wakeTime)
      (hearlier : t.lastReset ≤ wakeTime) :
      Change k boot now status t .compare { t with phase := .firing }
  | fire (hphase : t.phase = .firing) (hidle : k.idle status = false) :
      Change k boot now status t .fire { lastReset := now, phase := .testing }
  | miss (hphase : t.phase = .firing) (hidle : k.idle status = true) :
      Change k boot now status t .fire { t with phase := .testing }

/-- Every step is one of these. -/
theorem step_change {move : TickerMove} (h : t.step k boot now status move = some t') :
    Change k boot now status t move t' := by
  revert h
  fun_cases Ticker.step k boot now status t move <;> intro h
  all_goals try cases h
  case case1.refl hphase =>
    split
    case isTrue hidle => exact .nap hphase hidle
    case isFalse hidle => exact .leave hphase ((Bool.not_eq_true _).mp hidle)
  case case3.refl expiry hphase hexpired => exact .endNap hphase hexpired
  case case5.refl wakeTime expiry hphase hexpired => exact .endSleep hphase hexpired
  case case8.refl timeout hphase hbounds suitable =>
    split
    case isTrue hlong => exact .sleep hphase hbounds.1 hbounds.2 hlong
    case isFalse hshort => exact .skip hphase hbounds.1 hbounds.2 (not_lt.mp hshort)
  case case11.refl wakeTime hphase =>
    split
    case isTrue hlater => exact .again hphase hlater
    case isFalse hearlier => exact .decide hphase (not_lt.mp hearlier)
  case case13.refl hphase =>
    split
    case isTrue hidle => exact .miss hphase hidle
    case isFalse hidle => exact .fire hphase ((Bool.not_eq_true _).mp hidle)

/-- No step sets the time of the last reset ahead. -/
theorem Change.past {move : TickerMove} (h : Change k boot now status t move t')
    (hpast : t.lastReset ≤ now) : t'.lastReset ≤ now := by
  cases h with
  | fire => exact le_rfl
  | _ => exact hpast

/-- Only the last step of a turn assigns the time. -/
theorem Change.lastReset {move : TickerMove} (h : Change k boot now status t move t')
    (hmove : move ≠ .fire) : t'.lastReset = t.lastReset := by
  cases h with
  | fire => exact absurd rfl hmove
  | _ => rfl

/-- Who fires was about to. -/
theorem Change.firing (h : Change k boot now status t .fire t') : t.phase = .firing := by
  cases h with
  | fire hphase => exact hphase
  | miss hphase => exact hphase

/-- A fiber that fires holds no reading of the clock. -/
theorem wakeTime_of_firing (h : t.phase = .firing) : t.wakeTime = none := by
  rw [Ticker.wakeTime, h]

/-! ### Never early -/

/-- The last assignment lies in the past; and unless it counts as one after the clock was read, a
    wait ends when the timeout is over, but for the two roundings to milliseconds. -/
structure Early (after : ℕ → ℕ → Prop) (k : TickerKind) (boot now : ℕ) (t : Ticker) : Prop where
  past : t.lastReset ≤ now
  sleeping : ∀ wakeTime expiry, t.phase = .sleeping wakeTime expiry → wakeTime ≤ now ∧
    (after wakeTime t.lastReset ∨
      boot + t.lastReset + milliseconds k.minTimeout < (expiry + 2) * 1000000)
  comparing : ∀ wakeTime, t.phase = .comparing wakeTime → wakeTime ≤ now ∧
    (after wakeTime t.lastReset ∨ t.lastReset + milliseconds k.minTimeout < now + 2000000)

variable {after : ℕ → ℕ → Prop}

/-- Nothing is known where the loop holds no reading of the clock. -/
theorem early_of_phase (hpast : t.lastReset ≤ now) (hphase : t.wakeTime = none) :
    Early after k boot now t where
  past := hpast
  sleeping wakeTime expiry h := by
    rw [Ticker.wakeTime, h] at hphase
    cases hphase
  comparing wakeTime h := by
    rw [Ticker.wakeTime, h] at hphase
    cases hphase

/-- It holds on as time goes by. -/
theorem Early.mono (h : Early after k boot now t) (hle : now ≤ now') :
    Early after k boot now' t where
  past := h.past.trans hle
  sleeping wakeTime expiry hphase := by
    obtain ⟨hwake, hwait⟩ := h.sleeping wakeTime expiry hphase
    exact ⟨hwake.trans hle, hwait⟩
  comparing wakeTime hphase := by
    obtain ⟨hwake, hwait⟩ := h.comparing wakeTime hphase
    exact ⟨hwake.trans hle, hwait.imp_right fun hlt => by omega⟩

/-- A reset keeps it, if it comes after the time that the loop remembers. -/
theorem Early.reset (h : Early after k boot now t)
    (hafter : ∀ wakeTime ∈ t.wakeTime, wakeTime ≤ now → after wakeTime now) :
    Early after k boot now (t.reset now) where
  past := le_rfl
  sleeping wakeTime expiry hphase := by
    have hwake : wakeTime ≤ now := (h.sleeping wakeTime expiry hphase).1
    have hmem : wakeTime ∈ t.wakeTime := by
      rw [Ticker.wakeTime, show t.phase = .sleeping wakeTime expiry from hphase]
      rfl
    exact ⟨hwake, .inl (hafter wakeTime hmem hwake)⟩
  comparing wakeTime hphase := by
    have hwake : wakeTime ≤ now := (h.comparing wakeTime hphase).1
    have hmem : wakeTime ∈ t.wakeTime := by
      rw [Ticker.wakeTime, show t.phase = .comparing wakeTime from hphase]
      rfl
    exact ⟨hwake, .inl (hafter wakeTime hmem hwake)⟩

/-- A sleep that begins now is long enough. -/
theorem lt_expiry {timeout : ℕ} (hmin : k.minTimeout ≤ timeout) :
    boot + t.lastReset + milliseconds k.minTimeout <
      (usleep boot now (t.suitableSleepTime timeout now / 1000).toNat + 2) * 1000000 := by
  have hsuitable : t.suitableSleepTime timeout now =
      (milliseconds timeout : ℤ) + t.lastReset - now := rfl
  rw [usleep, getElapsedMS]
  simp only [milliseconds] at hsuitable ⊢
  omega

/-- **Step lemma.** -/
theorem Early.step {move : TickerMove} (h : Early after k boot now t)
    (hc : Change k boot now status t move t') : Early after k boot now t' := by
  cases hc with
  | nap | leave | endNap | again | decide | miss => exact early_of_phase h.past rfl
  | fire => exact early_of_phase le_rfl rfl
  | endSleep hphase hexpired =>
    refine ⟨h.past, fun _ _ hphase' => (by cases hphase'), fun wakeTime hphase' => ?_⟩
    cases hphase'
    obtain ⟨hwake, hwait⟩ := h.sleeping _ _ hphase
    refine ⟨hwake, hwait.imp_right fun hlt => ?_⟩
    rw [getElapsedMS] at hexpired
    show t.lastReset + _ < _
    omega
  | sleep hphase hmin hmax hlong =>
    refine ⟨h.past, fun wakeTime expiry hphase' => ?_, fun _ hphase' => (by cases hphase')⟩
    cases hphase'
    exact ⟨le_rfl, .inr (lt_expiry hmin)⟩
  | skip hphase hmin hmax hshort =>
    refine ⟨h.past, fun _ _ hphase' => (by cases hphase'), fun wakeTime hphase' => ?_⟩
    cases hphase'
    refine ⟨le_rfl, .inr ?_⟩
    rw [suitableSleepTime] at hshort
    simp only [milliseconds] at hshort ⊢
    omega

/-- The decision to fire. -/
theorem Early.decide (h : Early after k boot now t)
    (hstep : t.step k boot now status .compare = some t') (hfiring : t'.phase = .firing) :
    ∃ wakeTime, t.phase = .comparing wakeTime ∧ t.lastReset ≤ wakeTime ∧ wakeTime ≤ now ∧
      (after wakeTime t.lastReset ∨ t.lastReset + milliseconds k.minTimeout < now + 2000000) := by
  cases step_change hstep with
  | again hphase => cases hfiring
  | decide hphase hearlier =>
    obtain ⟨hwake, hwait⟩ := h.comparing _ hphase
    exact ⟨_, hphase, hearlier, hwake, hwait⟩

/-! ### In time -/

/-- A nap is no longer than its argument says, and the other wait ends when the longest timeout is
    over. -/
structure Due (k : TickerKind) (boot now : ℕ) (t : Ticker) : Prop where
  napping : ∀ expiry, t.phase = .napping expiry →
    expiry * 1000000 ≤ boot + now + milliseconds (k.nap / 1000)
  sleeping : ∀ wakeTime expiry, t.phase = .sleeping wakeTime expiry →
    expiry * 1000000 ≤ boot + t.lastReset + milliseconds k.maxTimeout

/-- It holds on as time goes by. -/
theorem Due.mono (h : Due k boot now t) (hle : now ≤ now') : Due k boot now' t where
  napping expiry hphase := (h.napping expiry hphase).trans (by omega)
  sleeping := h.sleeping

/-- A reset keeps it. -/
theorem Due.reset (h : Due k boot now t) (hpast : t.lastReset ≤ now) :
    Due k boot now (t.reset now) where
  napping := h.napping
  sleeping wakeTime expiry hphase := by
    have hle := h.sleeping wakeTime expiry hphase
    show _ ≤ boot + now + _
    omega

/-- A nap that begins now. -/
theorem nap_le : usleep boot now k.nap * 1000000 ≤ boot + now + milliseconds (k.nap / 1000) := by
  rw [usleep, getElapsedMS, milliseconds]
  omega

/-- A sleep that begins now is not too long. -/
theorem expiry_le {timeout : ℕ} (hmax : timeout ≤ k.maxTimeout)
    (hlong : 1000000 < t.suitableSleepTime timeout now) :
    usleep boot now (t.suitableSleepTime timeout now / 1000).toNat * 1000000 ≤
      boot + t.lastReset + milliseconds k.maxTimeout := by
  have hsuitable : t.suitableSleepTime timeout now =
      (milliseconds timeout : ℤ) + t.lastReset - now := rfl
  rw [usleep, getElapsedMS]
  simp only [milliseconds] at hsuitable ⊢
  omega

/-- **Step lemma.** -/
theorem Due.step {move : TickerMove} (hc : Change k boot now status t move t') :
    Due k boot now t' := by
  cases hc with
  | nap =>
    refine ⟨fun expiry hphase => ?_, fun _ _ hphase => (by cases hphase)⟩
    cases hphase
    exact nap_le
  | sleep hphase hmin hmax hlong =>
    refine ⟨fun _ hphase => (by cases hphase), fun wakeTime expiry hphase => ?_⟩
    cases hphase
    exact expiry_le hmax hlong
  | _ => exact ⟨fun _ hphase => (by cases hphase), fun _ _ hphase => (by cases hphase)⟩

variable {slack since ns : ℕ}

/-- Since the time `since` the inner loop is over, or just about to be; so the timeout cannot have
    been over for long. -/
structure OnTime (k : TickerKind) (boot slack since now : ℕ) (t : Ticker) : Prop where
  past : t.lastReset ≤ now
  reached : now ≤ max (t.lastReset + milliseconds k.maxTimeout)
    (since + milliseconds (k.nap / 1000)) + slack
  due : Due k boot since t

/-- From now on such a loop is on time. -/
theorem Due.onTime (h : Due k boot now t) (hpast : t.lastReset ≤ now) :
    OnTime k boot slack now now t where
  past := hpast
  reached := by omega
  due := h

/-- A reset leaves the loop on time. -/
theorem OnTime.reset (h : OnTime k boot slack since now t) :
    OnTime k boot slack since now (t.reset now) where
  past := le_rfl
  reached := by
    show now ≤ max (now + _) _ + slack
    omega
  due := by
    refine ⟨h.due.napping, fun wakeTime expiry hphase => ?_⟩
    have hle := h.due.sleeping wakeTime expiry hphase
    have hpast := h.past
    show _ ≤ boot + now + _
    omega

/-- Time that goes on leaves the loop on time, if the fiber is woken in time. -/
theorem OnTime.tick (h : OnTime k boot slack since now t)
    (hprompt : t.prompt boot slack now ns = true) :
    OnTime k boot slack since (now + ns) t := by
  have hreached := h.reached
  refine ⟨h.past.trans (by omega), ?_, h.due⟩
  revert hprompt
  fun_cases Ticker.prompt boot slack now t ns <;> intro hprompt
  case case1 expiry hphase =>
    have hprompt := of_decide_eq_true hprompt
    have hle := h.due.napping expiry hphase
    omega
  case case2 wakeTime expiry hphase =>
    have hprompt := of_decide_eq_true hprompt
    have hle := h.due.sleeping wakeTime expiry hphase
    omega
  case case3 =>
    rw [beq_iff_eq.mp hprompt]
    exact hreached

/-- **Step lemma**, outside the inner loop. -/
theorem OnTime.step {move : TickerMove} (h : OnTime k boot slack since now t)
    (hactive : k.idle status = false) (hc : Change k boot now status t move t') :
    OnTime k boot slack since now t' := by
  have hreached := h.reached
  cases hc with
  | nap hphase hidle =>
    rw [hactive] at hidle
    cases hidle
  | fire =>
    refine ⟨le_rfl, ?_, fun _ hphase => (by cases hphase), fun _ _ hphase => (by cases hphase)⟩
    show now ≤ max (now + _) _ + slack
    omega
  | sleep hphase hmin hmax hlong =>
    refine ⟨h.past, hreached, fun _ hphase => (by cases hphase), fun wakeTime expiry hphase => ?_⟩
    cases hphase
    exact expiry_le hmax hlong
  | _ =>
    exact ⟨h.past, hreached, fun _ hphase => (by cases hphase), fun _ _ hphase => (by cases hphase)⟩

end Ticker

/-! ### Runs of a node -/

namespace TimedNode

variable {k : TickerKind} {boot slack now₀ : ℕ} {s s₀ s' : TimedNode} {move : TimedMove}

/-- What a step of the node does to the clock and the ticker. -/
theorem step_ticker (h : s.step k boot move = some s') :
    (∃ ns, move = .tick ns ∧ s'.now = s.now + ns ∧ s'.ticker = s.ticker) ∨
    (∃ m, move = .ticker m ∧ s'.now = s.now ∧
      Ticker.Change k boot s.now s.status s.ticker m s'.ticker) ∨
    s'.now = s.now ∧ (s'.ticker = s.ticker.reset s.now ∨ s'.ticker = s.ticker) := by
  cases move with
  | tick ns =>
    obtain rfl := Option.some.inj h
    exact .inl ⟨ns, rfl, rfl, rfl⟩
  | ticker m =>
    obtain ⟨t', ht', hs'⟩ := Option.bind_eq_some_iff.mp h
    obtain rfl := Option.some.inj hs'
    exact .inr (.inl ⟨m, rfl, rfl, Ticker.step_change ht'⟩)
  | reset =>
    obtain rfl := Option.some.inj h
    exact .inr (.inr ⟨rfl, .inl rfl⟩)
  | become status =>
    obtain rfl := Option.some.inj h
    exact .inr (.inr ⟨rfl, .inr rfl⟩)

/-- No wait of the loop ends too early, in any run. -/
theorem early_reach {ok : TimedNode → TimedMove → Prop}
    (h : Reach (step k boot) ok (init now₀) s) : s.ticker.Early (· ≤ ·) k boot s.now := by
  have hinit : (init now₀).ticker.Early (· ≤ ·) k boot now₀ := Ticker.early_of_phase le_rfl rfl
  refine Reach.invariant (P := fun s => s.ticker.Early (· ≤ ·) k boot s.now) hinit ?_ h
  intro s a s' _ hs _ hstep
  rcases step_ticker hstep with ⟨ns, -, hnow, ht⟩ | ⟨m, -, hnow, hc⟩ | ⟨hnow, ht | ht⟩
  · rw [ht, hnow]
    exact hs.mono (Nat.le_add_right ..)
  · rw [hnow]
    exact hs.step hc
  · rw [ht, hnow]
    exact hs.reset fun _ _ hle => hle
  · rw [ht, hnow]
    exact hs

/-- No wait of the loop is too long, in any run. -/
theorem due_reach {ok : TimedNode → TimedMove → Prop}
    (h : Reach (step k boot) ok (init now₀) s) : s.ticker.Due k boot s.now := by
  refine Reach.invariant (P := fun s => s.ticker.Due k boot s.now)
    ⟨fun _ hphase => (by cases hphase), fun _ _ hphase => (by cases hphase)⟩ ?_ h
  intro s a s' hr hs _ hstep
  rcases step_ticker hstep with ⟨ns, -, hnow, ht⟩ | ⟨m, -, hnow, hc⟩ | ⟨hnow, ht | ht⟩
  · rw [ht, hnow]
    exact hs.mono (Nat.le_add_right ..)
  · rw [hnow]
    exact .step hc
  · rw [ht, hnow]
    exact hs.reset (early_reach hr).past
  · rw [ht, hnow]
    exact hs

/-- **Never early.**  When a loop decides to call `doElection` or `doHeartBeat`, nothing was
    assigned to its member after it read the clock, and the last assignment lies the timeout back,
    but for less than two milliseconds; unless it fell into the very nanosecond of the reading. -/
theorem never_early (h : Reach (step k boot) anyStep (init now₀) s)
    (hstep : s.step k boot (.ticker .compare) = some s') (hfiring : s'.ticker.phase = .firing) :
    ∃ wakeTime, s.ticker.phase = .comparing wakeTime ∧ s.ticker.lastReset ≤ wakeTime ∧
      wakeTime ≤ s.now ∧ (s.ticker.lastReset = wakeTime ∨
        s.ticker.lastReset + milliseconds k.minTimeout < s.now + milliseconds 2) := by
  obtain ⟨t', ht', hs'⟩ := Option.bind_eq_some_iff.mp hstep
  obtain rfl := Option.some.inj hs'
  obtain ⟨wakeTime, hphase, hearlier, hwake, hwait⟩ := (early_reach h).decide ht' hfiring
  exact ⟨wakeTime, hphase, hearlier, hwake, hwait.imp_left fun hle => le_antisymm hearlier hle⟩

/-- A follower stands 299 ms after it began to wait. -/
theorem never_early_firstElection :
    ∃ wakeTime, TickerPhase.comparing 5 = .comparing wakeTime ∧ 0 ≤ wakeTime ∧
      wakeTime ≤ 299000000 ∧
        (0 = wakeTime ∨ 0 + milliseconds 300 < 299000000 + milliseconds 2) := by
  have h : Reach (step electionTimeOutTicker 0) anyStep (init 0)
      { now := 299000000, status := .follower,
        ticker := { lastReset := 0, phase := .comparing 5 } } := by
    refine .of_runFrom (show runFrom _ _ _ [.tick 5, .ticker .test, .ticker (.read 300),
      .tick 298999995, .ticker .wake] = some _ from ?_)
    rfl
  exact never_early h rfl rfl

/-- **Run lemma.** -/
theorem le_of_active (h₀ : Reach (step k boot) anyStep (init now₀) s₀)
    (h : Reach (step k boot) (fun s a => prompt boot slack s a = true ∧ k.idle s.status = false)
      s₀ s) :
    s.now ≤ max (s.ticker.lastReset + milliseconds k.maxTimeout)
      (s₀.now + milliseconds (k.nap / 1000)) + slack := by
  suffices hontime : s.ticker.OnTime k boot slack s₀.now s.now from hontime.reached
  refine Reach.invariant (P := fun s => s.ticker.OnTime k boot slack s₀.now s.now)
    ((due_reach h₀).onTime (early_reach h₀).past) ?_ h
  intro s a s' _ hs hok hstep
  rcases step_ticker hstep with ⟨ns, rfl, hnow, ht⟩ | ⟨m, -, hnow, hc⟩ | ⟨hnow, ht | ht⟩
  · rw [ht, hnow]
    exact hs.tick hok.1
  · rw [hnow]
    exact hs.step hok.2 hc
  · rw [ht, hnow]
    exact hs.reset
  · rw [ht, hnow]
    exact hs

/-! ### Time passes -/

/-- A run of the ticker alone, woken in time, leads to a later time. -/
def Later (k : TickerKind) (boot slack : ℕ) (s : TimedNode) : Prop :=
  ∃ s', Reach (step k boot) (fun s a => prompt boot slack s a = true ∧ a.own = true) s s' ∧
    s.now < s'.now

/-- Time passes if it does after a step of the loop. -/
theorem Later.of_ticker (m : TickerMove) (s₁ : TimedNode)
    (hstep : s.step k boot (.ticker m) = some s₁) (h : Later k boot slack s₁) :
    Later k boot slack s := by
  obtain ⟨s', hr, hlt⟩ := h
  have hnow : s₁.now = s.now := by
    obtain ⟨t', -, hs₁⟩ := Option.bind_eq_some_iff.mp hstep
    rw [← Option.some.inj hs₁]
  exact ⟨s', (Reach.refl.tail ⟨rfl, rfl⟩ hstep).trans hr, hnow ▸ hlt⟩

/-- The clock goes on. -/
theorem later_of_prompt (h : s.ticker.prompt boot slack s.now 1 = true) : Later k boot slack s :=
  ⟨{ s with now := s.now + 1 }, Reach.refl.tail (a := .tick 1) ⟨h, rfl⟩ rfl, Nat.lt_succ_self _⟩

/-- A wait that begins now lets the clock go on. -/
theorem lt_usleep (hslack : 1000000 ≤ slack) (boot now usec : ℕ) :
    boot + now + 1 ≤ usleep boot now usec * 1000000 + slack := by
  rw [usleep, getElapsedMS]
  omega

/-- Time passes in the nap of a loop that has nothing to do. -/
theorem later_idle (hslack : 1000000 ≤ slack) (hphase : s.ticker.phase = .testing)
    (hidle : k.idle s.status = true) : Later k boot slack s := by
  refine .of_ticker .test { s with ticker := { s.ticker with
    phase := .napping (usleep boot s.now k.nap) } } ?_ (later_of_prompt ?_)
  · simp [step, Ticker.step, hphase, hidle]
  · exact decide_eq_true (lt_usleep hslack ..)

/-- A long wait. -/
theorem later_sleep (hslack : 1000000 ≤ slack) (hphase : s.ticker.phase = .reading)
    (hlong : 1000000 < s.ticker.suitableSleepTime k.minTimeout s.now) : Later k boot slack s := by
  refine .of_ticker (.read k.minTimeout) { s with ticker := { s.ticker with
    phase := .sleeping s.now
      (usleep boot s.now (s.ticker.suitableSleepTime k.minTimeout s.now / 1000).toNat) } }
    ?_ (later_of_prompt ?_)
  · simp [step, Ticker.step, hphase, k.le, hlong]
  · exact decide_eq_true (lt_usleep hslack ..)

/-- The wait after an assignment just now. -/
theorem later_reset (hslack : 1000000 ≤ slack) (hphase : s.ticker.phase = .testing)
    (hactive : k.idle s.status = false) (hreset : s.ticker.lastReset = s.now) :
    Later k boot slack s := by
  refine .of_ticker .test { s with ticker := { s.ticker with
    phase := .reading } } ?_ (later_sleep hslack rfl ?_)
  · simp [step, Ticker.step, hphase, hactive]
  · have htwo := k.two_le
    show 1000000 < (milliseconds k.minTimeout : ℤ) + s.ticker.lastReset - s.now
    rw [hreset, milliseconds]
    omega

/-- Time passes after the loop has fired. -/
theorem later_firing (hslack : 1000000 ≤ slack) (hphase : s.ticker.phase = .firing) :
    Later k boot slack s := by
  cases hidle : k.idle s.status with
  | true =>
    refine .of_ticker .fire { s with
      status := k.after s.status
      ticker := { s.ticker with phase := .testing } } ?_ (later_idle hslack rfl ?_)
    · simp [step, Ticker.step, hphase, hidle]
    · rw [k.idle_after, hidle]
  | false =>
    refine .of_ticker .fire { s with
      status := k.after s.status
      ticker := { lastReset := s.now, phase := .testing } } ?_ (later_reset hslack rfl ?_ rfl)
    · simp [step, Ticker.step, hphase, hidle]
    · rw [k.idle_after, hidle]

/-- Time passes after the loop has read the clock. -/
theorem later_reading (hslack : 1000000 ≤ slack) (hphase : s.ticker.phase = .reading) :
    Later k boot slack s := by
  by_cases hlong : 1000000 < s.ticker.suitableSleepTime k.minTimeout s.now
  · exact later_sleep hslack hphase hlong
  · have hpast : ¬s.now < s.ticker.lastReset := by
      have htwo := k.two_le
      rw [Ticker.suitableSleepTime, milliseconds] at hlong
      omega
    refine .of_ticker (.read k.minTimeout) { s with ticker := { s.ticker with
      phase := .comparing s.now } } ?_ (.of_ticker .compare { s with
        ticker := { s.ticker with phase := .firing } } ?_ (later_firing hslack rfl))
    · simp [step, Ticker.step, hphase, k.le, hlong]
    · simp [step, Ticker.step, hpast]

/-- Time passes after the loop has tested the status. -/
theorem later_testing (hslack : 1000000 ≤ slack) (hphase : s.ticker.phase = .testing) :
    Later k boot slack s := by
  cases hidle : k.idle s.status with
  | true => exact later_idle hslack hphase hidle
  | false =>
    refine .of_ticker .test { s with ticker := { s.ticker with
      phase := .reading } } ?_ (later_reading hslack rfl)
    simp [step, Ticker.step, hphase, hidle]

/-- Time passes after the loop has compared the times. -/
theorem later_comparing (hslack : 1000000 ≤ slack) {wakeTime : ℕ}
    (hphase : s.ticker.phase = .comparing wakeTime) : Later k boot slack s := by
  by_cases hlater : wakeTime < s.ticker.lastReset
  · refine .of_ticker .compare { s with ticker := { s.ticker with
      phase := .testing } } ?_ (later_testing hslack rfl)
    simp [step, Ticker.step, hphase, hlater]
  · refine .of_ticker .compare { s with ticker := { s.ticker with
      phase := .firing } } ?_ (later_firing hslack rfl)
    simp [step, Ticker.step, hphase, hlater]

/-- Time passes from every state of the loop. -/
theorem later (hslack : 1000000 ≤ slack) (s : TimedNode) : Later k boot slack s := by
  -- a wait that has come to its end is over
  have hexpired : ∀ {expiry : ℕ}, ¬boot + s.now + 1 ≤ expiry * 1000000 + slack →
      expiry ≤ getElapsedMS boot s.now := by
    intro expiry h
    rw [getElapsedMS]
    omega
  cases hphase : s.ticker.phase with
  | testing => exact later_testing hslack hphase
  | reading => exact later_reading hslack hphase
  | comparing wakeTime => exact later_comparing hslack hphase
  | firing => exact later_firing hslack hphase
  | napping expiry =>
    by_cases hle : boot + s.now + 1 ≤ expiry * 1000000 + slack
    · apply later_of_prompt
      simp [Ticker.prompt, hphase, hle]
    · refine .of_ticker .wake { s with ticker := { s.ticker with
        phase := .testing } } ?_ (later_testing hslack rfl)
      simp [step, Ticker.step, hphase, hexpired hle]
  | sleeping wakeTime expiry =>
    by_cases hle : boot + s.now + 1 ≤ expiry * 1000000 + slack
    · apply later_of_prompt
      simp [Ticker.prompt, hphase, hle]
    · refine .of_ticker .wake { s with ticker := { s.ticker with
        phase := .comparing wakeTime } } ?_ (later_comparing hslack rfl)
      simp [step, Ticker.step, hphase, hexpired hle]

/-- **Time passes.**  A fiber that may be woken a millisecond late never keeps the clock from
    going on. -/
theorem time_passes (hslack : 1000000 ≤ slack) (s : TimedNode) (time : ℕ) :
    ∃ s', Reach (step k boot) (fun s a => prompt boot slack s a = true ∧ a.own = true) s s' ∧
      time ≤ s'.now := by
  induction time with
  | zero => exact ⟨s, .refl, Nat.zero_le _⟩
  | succ time ih =>
    obtain ⟨s₁, hr₁, hle⟩ := ih
    have hlater : Later k boot slack s₁ := later hslack s₁
    obtain ⟨s', hr, hlt⟩ := hlater
    exact ⟨s', hr₁.trans hr, by omega⟩

/-- **In time.**  While the status is not one that the loop idles in, and the fiber is woken at most
    `slack` late, the last assignment never lies further back than the longest timeout, counted from
    the end of a last nap; and if `slack` is at least a millisecond, the loop does not keep the clock
    from going on. -/
theorem in_time (h₀ : Reach (step k boot) anyStep (init now₀) s₀)
    (h : Reach (step k boot) (fun s a => prompt boot slack s a = true ∧ k.idle s.status = false)
      s₀ s) :
    s.now ≤ max (s.ticker.lastReset + milliseconds k.maxTimeout)
      (s₀.now + milliseconds (k.nap / 1000)) + slack ∧
    (milliseconds 1 ≤ slack → ∀ time, ∃ s',
      Reach (step k boot) (fun s a => prompt boot slack s a = true ∧ a.own = true) s s' ∧
        time ≤ s'.now) :=
  ⟨le_of_active h₀ h, fun hslack => time_passes hslack s⟩

/-- A follower hears nothing for 500 ms, and is about to stand. -/
theorem in_time_firstElection :
    (500000000 : ℕ) ≤ max (0 + milliseconds 500) (5 + milliseconds 0) + 1000000 ∧
    (milliseconds 1 ≤ 1000000 → ∀ time, ∃ s', Reach (step electionTimeOutTicker 0)
      (fun s a => prompt 0 1000000 s a = true ∧ a.own = true)
      { now := 500000000, status := .follower, ticker := { lastReset := 0, phase := .firing } } s' ∧
        time ≤ s'.now) := by
  have h₀ : Reach (step electionTimeOutTicker 0) anyStep (init 0)
      { now := 5, status := .follower, ticker := { lastReset := 0 } } :=
    .of_runFrom (show runFrom _ _ _ [.tick 5] = some _ from rfl)
  have h : Reach (step electionTimeOutTicker 0)
      (fun s a => prompt 0 1000000 s a = true ∧ electionTimeOutTicker.idle s.status = false)
      { now := 5, status := .follower, ticker := { lastReset := 0 } }
      { now := 500000000, status := .follower,
        ticker := { lastReset := 0, phase := .firing } } := by
    refine .of_runFrom (show runFrom _ _ _ [.ticker .test, .ticker (.read 500), .tick 499999995,
      .ticker .wake, .ticker .compare] = some _ from ?_)
    rfl
  exact in_time h₀ h

end TimedNode

end RaftStore
