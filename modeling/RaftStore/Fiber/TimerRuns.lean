import RaftStore.Fiber.Expiry

namespace RaftStore

/-!
# Runs of one timer manager

Operations one after the other, with clock readings that do not decrease.  The history records
which timers were handed out and which were cancelled.

* `TimerManager.call` — one operation; `TimerRun` — the runs.
* `Inv.call` — no operation faults, and what each does to the timers.
* `History` — what the timers say about the history.
* `TimerRun.timers_exact` — the set, the next call of `listExpiredCb`, and the history.
-/

variable {β : Type}

/-- The operations; a timer is named by the pointer that `addTimer` returned. -/
inductive TimerCall (β : Type)
  | addTimer (ms : ℕ) (cb : Option β) (recurring : Bool) (addr : ℕ)
  | cancel (id : ℕ)
  | refresh (id : ℕ)
  | reset (id ms : ℕ) (fromNow : Bool)
  | listExpiredCb (addr : ℕ)

/-- What is recorded: a timer whose callback was handed out, and one whose `cancel` returned
    true. -/
inductive TimerEvent
  | handed (id : ℕ)
  | cancelled (id : ℕ)
  deriving DecidableEq, Repr

namespace TimerManager

/-- One operation, with what is recorded. -/
def call (m : TimerManager β) (now : ℕ) :
    TimerCall β → Option (List TimerEvent × TimerManager β)
  | .addTimer ms cb recurring addr => some ([], (m.addTimer ms cb recurring addr now).1)
  | .cancel id => (m.cancel id).map fun r => (if r.1 then [.cancelled id] else [], r.2)
  | .refresh id => (m.refresh id now).map fun r => ([], r.2)
  | .reset id ms fromNow => (m.reset id ms fromNow now).map fun r => ([], r.2)
  | .listExpiredCb addr =>
    (m.listExpiredCb now addr []).map fun r => (r.expired.map .handed, r.manager)

/-- What the caller provides: a callback that is not empty, and a pointer that was returned.  The
    address of a new timer is not that of one in the set. -/
def Admissible (m : TimerManager β) : TimerCall β → Prop
  | .addTimer _ cb _ addr => cb.isSome ∧ ∀ j ∈ m.timers, m.addrOf j ≠ some addr
  | .cancel id => id < m.objects.length
  | .refresh id => id < m.objects.length
  | .reset id _ _ => id < m.objects.length
  | .listExpiredCb _ => True

instance (m : TimerManager β) : DecidablePred m.Admissible
  | .addTimer _ cb _ addr =>
    inferInstanceAs (Decidable (cb.isSome ∧ ∀ j ∈ m.timers, m.addrOf j ≠ some addr))
  | .cancel id => inferInstanceAs (Decidable (id < m.objects.length))
  | .refresh id => inferInstanceAs (Decidable (id < m.objects.length))
  | .reset id _ _ => inferInstanceAs (Decidable (id < m.objects.length))
  | .listExpiredCb _ => inferInstanceAs (Decidable True)

/-- The set holds exactly the timers whose callback is set, in strict order of deadline and
    address. -/
def Exact (m : TimerManager β) : Prop :=
  (∀ id, id ∈ m.timers ↔ ∃ t, m.timer id = some t ∧ t.cb.isSome) ∧
    m.timers.Pairwise fun a b => ∃ t u, m.timer a = some t ∧ m.timer b = some u ∧
      (t.next < u.next ∨ t.next = u.next ∧ t.addr < u.addr)

variable {m m' : TimerManager β} {now : ℕ}

/-- With nothing outside, the set holds exactly the armed timers. -/
theorem Inv.exact (h : m.Inv (fun cb => cb.isSome) []) : m.Exact := by
  have harmed : ∀ id ∈ m.timers, ∃ t, m.timer id = some t ∧ t.cb.isSome := fun id hid =>
    h.armed id (List.mem_append_left _ hid)
  refine ⟨fun id => ⟨harmed id, fun ⟨t, ht, hcb⟩ => h.mem ht hcb⟩, ?_⟩
  refine List.Pairwise.imp_of_mem ?_ h.ordered
  intro a b ha hb hab
  obtain ⟨t, ht, -⟩ := harmed a ha
  obtain ⟨u, hu, -⟩ := harmed b hb
  rw [ht, hu, Timer.comparator_iff] at hab
  exact ⟨t, u, ht, hu, Prod.Lex.toLex_lt_toLex.mp (WithBot.coe_lt_coe.mp hab)⟩

/-- A timer without a callback is not in the set. -/
theorem Inv.notMem_of_disarmed (h : m.Inv (fun cb => cb.isSome) []) {id : ℕ} {t : Timer β}
    (ht : m.timer id = some t) (hcb : t.cb = none) : id ∉ m.timers := by
  intro hid
  obtain ⟨t', ht', hcb'⟩ := h.armed id (List.mem_append_left _ hid)
  rw [ht, Option.some.injEq] at ht'
  subst ht'
  simp [hcb] at hcb'

/-! ## One operation -/

/-- What an operation does to the timers, with what is recorded of it. -/
structure Effect (m m' : TimerManager β) (events : List TimerEvent) : Prop where
  later : ∀ id t, m.timer id = some t → ∃ t', m'.timer id = some t' ∧ t.Later t'
  handed : ∀ id, .handed id ∈ events → id ∈ m.timers ∧
    ∀ t', m'.timer id = some t' → t'.recurring = false → t'.cb = none
  cancelled : ∀ id, .cancelled id ∈ events → ∃ t', m'.timer id = some t' ∧ t'.cb = none
  nodup : events.Nodup
  single : ∀ id, .cancelled id ∈ events → events = [.cancelled id]

/-- An operation of which nothing is recorded. -/
theorem Later.effect (h : m.Later m') : m.Effect m' [] where
  later := h.timer
  handed id hid := by simp at hid
  cancelled id hid := by simp at hid
  nodup := List.nodup_nil
  single id hid := by simp at hid

/-- No rollover is seen if the clock has not gone back. -/
theorem handedOut_eq_filter (h : m.previouseTime ≤ now) :
    m.handedOut now = m.timers.filter (m.due now) := by
  rw [handedOut, if_neg]
  simp [detectClockRolllover, h.not_gt]

/-- `listExpiredCb`, in the order of the locked section. -/
theorem Inv.effect_listExpiredCb (h : m.Inv (fun cb => cb.isSome) [])
    (hprev : m.previouseTime ≤ now)
    (htimer : ∀ j, m'.timer j =
      if j ∈ m.handedOut now then (m.timer j).map (Timer.fired now) else m.timer j) :
    m.Effect m' ((m.handedOut now).map .handed) := by
  have hsub : ∀ j ∈ m.handedOut now, j ∈ m.timers := by
    rw [handedOut_eq_filter hprev]
    exact fun j hj => List.mem_of_mem_filter hj
  refine ⟨fun id t ht => ?_, fun id hid => ?_, fun id hid => ?_, ?_, fun id hid => ?_⟩
  · rw [htimer, ht]
    split
    · exact ⟨t.fired now, rfl, t.later_fired now⟩
    · exact ⟨t, rfl, .refl t⟩
  · have hid : id ∈ m.handedOut now := by simpa using hid
    refine ⟨hsub id hid, fun t' ht' hrec => ?_⟩
    rw [htimer, if_pos hid] at ht'
    obtain ⟨t, -, rfl⟩ := Option.map_eq_some_iff.mp ht'
    -- a timer that fires keeps its kind, and only a recurring one stays armed
    have hkind := (t.later_fired now).recurring
    rw [hrec] at hkind
    simp [Timer.fired, ← hkind]
  · simp at hid
  · refine List.Nodup.map (fun a b hab => by simpa using hab) ?_
    rw [handedOut_eq_filter hprev]
    exact (by simpa using h.nodup : m.timers.Nodup).filter _
  · simp at hid

/-- No operation faults, and the invariant is kept. -/
theorem Inv.call (h : m.Inv (fun cb => cb.isSome) []) (hprev : m.previouseTime ≤ now)
    {c : TimerCall β} (hc : m.Admissible c) :
    ∃ events m', m.call now c = some (events, m') ∧ m'.Inv (fun cb => cb.isSome) [] ∧
      m'.previouseTime ≤ now ∧ m.Effect m' events := by
  cases c with
  | addTimer ms cb recurring addr =>
    have hlater := Later.addTimer m ms cb recurring addr now
    exact ⟨[], _, rfl, h.addTimer hc.1 (by simpa using hc.2),
      hlater.previouseTime.trans_le hprev, hlater.effect⟩
  | cancel id =>
    obtain ⟨t, ht⟩ := exists_timer hc
    -- a timer without a callback is left alone
    by_cases hcb : t.cb = none
    · refine ⟨[], m, ?_, h, hprev, (Later.refl m).effect⟩
      simp [TimerManager.call, cancel_disarmed ht hcb]
    · have hsome := Option.isSome_iff_ne_none.mpr hcb
      obtain ⟨m', hcancel, hinv, hlater, hnone⟩ := h.cancel ht hsome (h.mem ht hsome)
      refine ⟨[.cancelled id], m', ?_, hinv, hlater.previouseTime.trans_le hprev, ?_⟩
      · simp [TimerManager.call, hcancel]
      · refine ⟨hlater.timer, by simp, fun j hj => ?_, by simp, fun j hj => ?_⟩
        · obtain rfl : j = id := by simpa using hj
          obtain ⟨t', ht', -⟩ := hlater.timer j t ht
          exact ⟨t', ht', hnone t' ht'⟩
        · obtain rfl : j = id := by simpa using hj
          rfl
  | refresh id =>
    obtain ⟨t, ht⟩ := exists_timer hc
    obtain ⟨b, m', hrefresh, -, hinv, hlater⟩ := h.refresh ht now
    refine ⟨[], m', ?_, hinv, hlater.previouseTime.trans_le hprev, hlater.effect⟩
    simp [TimerManager.call, hrefresh]
  | reset id ms fromNow =>
    obtain ⟨t, ht⟩ := exists_timer hc
    obtain ⟨b, m', hreset, -, hinv, hlater⟩ := h.reset ht ms fromNow now
    refine ⟨[], m', ?_, hinv, hlater.previouseTime.trans_le hprev, hlater.effect⟩
    simp [TimerManager.call, hreset]
  | listExpiredCb addr =>
    obtain ⟨m', hlist, hinv, htime, htimer⟩ := h.listExpiredLocked now addr []
    -- the clock has not gone back, so the front of the set is what is due
    refine ⟨_, m', ?_, hinv, ?_, h.effect_listExpiredCb hprev htimer⟩
    · simp [TimerManager.call, listExpiredCb_eq, hlist]
    · rw [htime]
      split
      · exact hprev
      · exact le_rfl

/-! ## The history -/

/-- What the timers say about the history. -/
structure History (history : List TimerEvent) (m : TimerManager β) : Prop where
  handed : ∀ id, .handed id ∈ history →
    ∃ t, m.timer id = some t ∧ (t.recurring = false → t.cb = none)
  cancelled : ∀ id, .cancelled id ∈ history → ∃ t, m.timer id = some t ∧ t.cb = none
  once : ∀ id t, m.timer id = some t → t.recurring = false → history.count (.handed id) ≤ 1
  after : history.Pairwise fun e e' => ∀ id, e = .cancelled id → e' ≠ .handed id

/-- There is no history where a run begins. -/
theorem History.nil (m : TimerManager β) : History [] m where
  handed id hid := by simp at hid
  cancelled id hid := by simp at hid
  once id t _ _ := by simp
  after := List.Pairwise.nil

/-- An operation continues the history. -/
theorem History.append {history events : List TimerEvent} (h : History history m)
    (hinv : m.Inv (fun cb => cb.isSome) []) (heff : m.Effect m' events) :
    History (history ++ events) m' where
  handed id hid := by
    rcases List.mem_append.mp hid with hid | hid
    · obtain ⟨t, ht, hspent⟩ := h.handed id hid
      obtain ⟨t', ht', hlater⟩ := heff.later id t ht
      refine ⟨t', ht', fun hrec => ?_⟩
      have hnone := hspent (hlater.recurring.symm.trans hrec)
      exact hlater.cb.elim (fun heq => heq.trans hnone) fun heq => heq
    · obtain ⟨hmem, hspent⟩ := heff.handed id hid
      obtain ⟨t, ht, -⟩ := hinv.armed id (List.mem_append_left _ hmem)
      obtain ⟨t', ht', -⟩ := heff.later id t ht
      exact ⟨t', ht', hspent t' ht'⟩
  cancelled id hid := by
    rcases List.mem_append.mp hid with hid | hid
    · obtain ⟨t, ht, hnone⟩ := h.cancelled id hid
      obtain ⟨t', ht', hlater⟩ := heff.later id t ht
      exact ⟨t', ht', hlater.cb.elim (fun heq => heq.trans hnone) fun heq => heq⟩
    · exact heff.cancelled id hid
  once id t' ht' hrec := by
    rw [List.count_append]
    by_cases hid : .handed id ∈ events
    · -- It was armed, so it had not been handed out before.
      obtain ⟨hmem, -⟩ := heff.handed id hid
      obtain ⟨t, ht, hcb⟩ := hinv.armed id (List.mem_append_left _ hmem)
      have hzero : history.count (.handed id) = 0 := by
        refine List.count_eq_zero_of_not_mem fun hold => ?_
        obtain ⟨u, hu, hspent⟩ := h.handed id hold
        obtain rfl : u = t := Option.some.inj (hu.symm.trans ht)
        obtain ⟨u', hu', hlater⟩ := heff.later id u hu
        obtain rfl : u' = t' := Option.some.inj (hu'.symm.trans ht')
        simp [hspent (hlater.recurring.symm.trans hrec)] at hcb
      have hone := List.nodup_iff_count_le_one.mp heff.nodup (.handed id)
      omega
    · rw [List.count_eq_zero_of_not_mem hid]
      by_cases hold : .handed id ∈ history
      · obtain ⟨t, ht, -⟩ := h.handed id hold
        obtain ⟨u', hu', hlater⟩ := heff.later id t ht
        obtain rfl : u' = t' := Option.some.inj (hu'.symm.trans ht')
        exact h.once id t ht (hlater.recurring.symm.trans hrec)
      · simp [List.count_eq_zero_of_not_mem hold]
  after := by
    refine List.pairwise_append.mpr ⟨h.after, ?_, fun e he e' he' id heq heq' => ?_⟩
    · by_cases hex : ∃ id, TimerEvent.cancelled id ∈ events
      · obtain ⟨id, hid⟩ := hex
        rw [heff.single id hid]
        exact List.pairwise_singleton _ _
      · refine List.pairwise_of_forall_mem_list fun e he e' _ id heq => ?_
        exact absurd ⟨id, heq ▸ he⟩ hex
    · subst heq heq'
      obtain ⟨t, ht, hnone⟩ := h.cancelled id he
      exact hinv.notMem_of_disarmed ht hnone (heff.handed id he').1

end TimerManager

/-! ## Runs -/

/-- The runs of one manager: what is recorded, the last clock reading and the manager. -/
inductive TimerRun : List TimerEvent → ℕ → TimerManager β → Prop
  | start (now : ℕ) : TimerRun [] now (.create now)
  | call {history : List TimerEvent} {last : ℕ} {m : TimerManager β} (h : TimerRun history last m)
      {now : ℕ} {c : TimerCall β} {events : List TimerEvent} {m' : TimerManager β}
      (hnow : last ≤ now) (hc : m.Admissible c) (hcall : m.call now c = some (events, m')) :
      TimerRun (history ++ events) now m'

namespace TimerRun

open TimerManager

variable {history : List TimerEvent} {last : ℕ} {m : TimerManager β}

/-- What holds after every run. -/
theorem inv (h : TimerRun history last m) :
    m.Inv (fun cb => cb.isSome) [] ∧ m.previouseTime ≤ last ∧ History history m := by
  induction h with
  | start now =>
    refine ⟨⟨List.Pairwise.nil, by simp [create], fun id t ht => ?_, by simp [create]⟩, le_rfl,
      .nil _⟩
    simp [timer, create] at ht
  | @call history last m h now c events m' hnow hc hcall ih =>
    obtain ⟨hinv, hprev, hhist⟩ := ih
    obtain ⟨events', m'', hcall', hinv', hprev', heff⟩ := hinv.call (hprev.trans hnow) hc
    rw [hcall, Option.some.injEq, Prod.mk.injEq] at hcall'
    obtain ⟨rfl, rfl⟩ := hcall'
    exact ⟨hinv', hprev', hhist.append hinv heff⟩

/-- **Timer manager exactness.**  In every run the set is exact, no operation faults, and what
    `listExpiredCb` hands out are the callbacks of the timers whose deadline has been reached, in
    the order of the set; these and no others are re-armed or disarmed.  A one-shot timer is handed
    out at most once, and none is after its `cancel` returned true. -/
theorem timers_exact (h : TimerRun history last m) :
    m.Exact ∧
      (∀ now c, last ≤ now → m.Admissible c → (m.call now c).isSome) ∧
      (∀ now addr cbs, last ≤ now →
        let expired := m.timers.filter (m.due now)
        ∃ m', m.listExpiredCb now addr cbs =
            some ⟨expired, cbs ++ expired.map m.callback, m'⟩ ∧ m'.Exact ∧
          ∀ id, m'.timer id =
            if id ∈ expired then (m.timer id).map (Timer.fired now) else m.timer id) ∧
      (∀ id t, m.timer id = some t → t.recurring = false → history.count (.handed id) ≤ 1) ∧
      ∀ id before rest, history = before ++ .cancelled id :: rest → .handed id ∉ rest := by
  obtain ⟨hinv, hprev, hhist⟩ := h.inv
  refine ⟨hinv.exact, fun now c hnow hc => ?_, fun now addr cbs hnow => ?_, hhist.once,
    fun id before rest heq hmem => ?_⟩
  · obtain ⟨events, m', hcall, -⟩ := hinv.call (hprev.trans hnow) hc
    rw [hcall]
    rfl
  · obtain ⟨m', hlist, hinv', -, htimer⟩ := hinv.listExpiredLocked now addr cbs
    rw [handedOut_eq_filter (hprev.trans hnow)] at hlist htimer
    exact ⟨m', by rw [listExpiredCb_eq, hlist], hinv'.exact, htimer⟩
  · have hafter := hhist.after
    rw [heq, List.pairwise_append, List.pairwise_cons] at hafter
    exact hafter.2.1.1 _ hmem id rfl rfl

/-- One timer is armed. -/
private def oneArmed : TimerManager String where
  objects := [{ ms := 5, next := 15, addr := 200, cb := some "once" }]
  timers := [0]
  tickled := true
  previouseTime := 10

/-- A second one, recurring, is armed for the same time. -/
private def bothArmed : TimerManager String where
  objects := oneArmed.objects ++
    [{ recurring := true, ms := 5, next := 15, addr := 100, cb := some "again" }]
  timers := [1, 0]
  tickled := true
  previouseTime := 10

/-- Both have expired, and the recurring one is armed again. -/
private def bothFired : TimerManager String where
  objects := [{ ms := 5, next := 15, addr := 200 },
    { recurring := true, ms := 5, next := 20, addr := 100, cb := some "again" }]
  timers := [1]
  tickled := true
  previouseTime := 15

/-- The callbacks are handed out in the order of the addresses. -/
private theorem listExpiredCb_bothArmed :
    bothArmed.call 15 (.listExpiredCb 150) = some ([.handed 1, .handed 0], bothFired) := rfl

/-- A run in which a one-shot timer and a recurring one of the same deadline are handed out, and the
    recurring one is cancelled. -/
theorem timers_exact_twoTimers :
    let once : Timer String := { ms := 5, next := 15, addr := 200 }
    let again : Timer String := { recurring := true, ms := 5, next := 20, addr := 100 }
    ({ objects := [once, again], timers := [], tickled := true, previouseTime := 15 } :
        TimerManager String).Exact ∧
      ([.handed 1, .handed 0, .cancelled 1] : List TimerEvent).count (.handed 0) ≤ 1 := by
  intro once again
  have hfirst : TimerRun [] 10 oneArmed :=
    (start 10).call (c := .addTimer 5 (some "once") false 200) le_rfl (by decide) rfl
  have hsecond : TimerRun [] 10 bothArmed :=
    hfirst.call (c := .addTimer 5 (some "again") true 100) le_rfl (by decide) rfl
  have hlist : TimerRun [.handed 1, .handed 0] 15 bothFired :=
    hsecond.call (c := .listExpiredCb 150) (by decide) trivial listExpiredCb_bothArmed
  have hcancel : TimerRun [.handed 1, .handed 0, .cancelled 1] 17
      { objects := [once, again], timers := [], tickled := true, previouseTime := 15 } :=
    hlist.call (c := .cancel 1) (by decide) (by decide) rfl
  have hexact := hcancel.timers_exact
  exact ⟨hexact.1, hexact.2.2.2.1 0 once rfl rfl⟩

end TimerRun

end RaftStore
