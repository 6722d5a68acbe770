import RaftStore.Fiber.Timers

namespace RaftStore

/-!
# What `listExpiredCb` hands out

`listExpiredCb` cuts the set at a temporary timer whose address is arbitrary, moves the cut over
the timers of the same deadline, and goes through what lies before it.

* `Inv.fire`, `Inv.expireLoop` — one round of the loop and the loop.
* `take_cut` — the cut is a filter by the deadline, whatever the address.
* `Inv.listExpiredCb` — the timers handed out, the callbacks, and every timer afterwards.
-/

variable {β : Type}

/-- A timer after it has been handed out. -/
def Timer.fired (now : ℕ) (t : Timer β) : Timer β :=
  if t.recurring then { t with next := (now + t.ms) % 2 ^ 64 } else { t with cb := none }

/-- A timer that has fired is later. -/
theorem Timer.later_fired (now : ℕ) (t : Timer β) : t.Later (t.fired now) := by
  rw [Timer.fired]
  split
  · exact ⟨rfl, rfl, .inl rfl⟩
  · exact ⟨rfl, rfl, .inr rfl⟩

namespace TimerManager

variable {m : TimerManager β} {P : Option β → Prop} {out : List ℕ} {id now : ℕ}

/-- The callback of a timer. -/
def callback (m : TimerManager β) (id : ℕ) : Option β := (m.timer id).bind (·.cb)

/-- The deadline has been reached. -/
def due (m : TimerManager β) (now id : ℕ) : Bool := (m.timer id).any (·.next ≤ now)

/-- What a call that reads `now` hands out. -/
def handedOut (m : TimerManager β) (now : ℕ) : List ℕ :=
  if (m.detectClockRolllover now).1 then m.timers else m.timers.filter (m.due now)

/-! ## The loop -/

/-- A timer that fires is in the set again if it recurs. -/
theorem Inv.fire (h : m.Inv P (id :: out)) {t : Timer β} (ht : m.timer id = some t) (now : ℕ) :
    (m.fire now id t).Inv P out ∧ (m.fire now id t).previouseTime = m.previouseTime ∧
      ∀ j, (m.fire now id t).timer j =
        if j = id then some (t.fired now) else m.timer j := by
  by_cases hrec : t.recurring = true
  · have hfire : m.fire now id t =
        ((m.setTimer id fun t => { t with next := (now + t.ms) % 2 ^ 64 }).insert id).1 :=
      if_pos hrec
    rw [hfire]
    have hset := h.setTimer (f := fun t => { t with next := (now + t.ms) % 2 ^ 64 })
      (fun _ => rfl) fun _ => rfl
    refine ⟨hset.insert, rfl, fun j => ?_⟩
    rw [insert_eq, timer_withTimers, timer_setTimer, ht]
    simp [Timer.fired, hrec]
  · have hfire : m.fire now id t = m.setTimer id fun t => { t with cb := none } := if_neg hrec
    rw [hfire]
    refine ⟨h.disarm, rfl, fun j => ?_⟩
    rw [timer_setTimer, ht]
    simp [Timer.fired, hrec]

/-- The loop: every timer of `expired` has been handed out, in this order. -/
theorem Inv.expireLoop {expired : List ℕ} {m : TimerManager β} (h : m.Inv P (expired ++ out))
    (now : ℕ) (cbs : List (Option β)) :
    ∃ m', expireLoop now expired cbs m = some (cbs ++ expired.map m.callback, m') ∧
      m'.Inv P out ∧ m'.previouseTime = m.previouseTime ∧
      ∀ j, m'.timer j = if j ∈ expired then (m.timer j).map (Timer.fired now) else m.timer j := by
  induction expired generalizing m cbs with
  | nil => exact ⟨m, by simp [TimerManager.expireLoop], h, rfl, by simp⟩
  | cons id expired ih =>
    obtain ⟨t, ht, -⟩ := h.armed id (by simp)
    obtain ⟨hinv, hprev, htimer⟩ := Inv.fire h ht now
    -- no timer stands twice in the set, so those that are left have not fired yet
    have hid : id ∉ expired := by
      have hnodup := (List.nodup_append.mp h.nodup).2.1
      exact fun hmem => (List.nodup_cons.mp hnodup).1 (List.mem_append_left _ hmem)
    have hold : ∀ j ∈ expired, (m.fire now id t).timer j = m.timer j := fun j hj => by
      rw [htimer, if_neg (ne_of_mem_of_not_mem hj hid)]
    obtain ⟨m', hloop, hinv', hprev', htimer'⟩ := ih hinv (cbs ++ [t.cb])
    refine ⟨m', ?_, hinv', hprev'.trans hprev, fun j => ?_⟩
    · have hmap : expired.map (m.fire now id t).callback = expired.map m.callback :=
        List.map_congr_left fun j hj => by rw [callback, hold j hj, callback]
      simp [TimerManager.expireLoop, ht, hloop, hmap, callback]
    · rw [htimer']
      by_cases hj : j ∈ expired
      · simp [hj, hold j hj]
      · by_cases hji : j = id
        · subst hji
          simp [hj, htimer, ht]
        · simp [hj, hji, htimer]

/-! ## The cut -/

/-- What the timer made of the current time is compared with. -/
theorem comparator_ofNext (t : Timer β) (now addr : ℕ) :
    Timer.comparator (some t) (some (Timer.ofNext now addr)) = true ↔
      t.next < now ∨ t.next = now ∧ t.addr < addr := by
  rw [Timer.comparator_iff]
  simp [Timer.key, Timer.ofNext, Prod.Lex.toLex_lt_toLex]

/-- Deadlines do not decrease along the set. -/
theorem Inv.next_le (h : m.Inv P out) : m.timers.Pairwise fun a b =>
    ∀ t ∈ m.timer a, ∀ u ∈ m.timer b, t.next ≤ u.next := by
  apply List.Pairwise.imp _ h.ordered
  intro a b hab t ht u hu
  rw [Option.mem_def.mp ht, Option.mem_def.mp hu, Timer.comparator_iff] at hab
  have hlex := WithBot.coe_lt_coe.mp hab
  rw [Prod.Lex.toLex_lt_toLex] at hlex
  rcases hlex with hlt | ⟨heq, -⟩
  · exact hlt.le
  · exact heq.le

/-- The timers before the cut are those whose deadline has been reached. -/
theorem Inv.take_cut (h : m.Inv P out) (now addr : ℕ) :
    m.timers.take (m.expiredEnd false now addr) = m.timers.filter (m.due now) := by
  let it := m.lowerBound (Timer.ofNext now addr)
  let below : ℕ → Bool := fun id => Timer.comparator (m.timer id) (some (Timer.ofNext now addr))
  let same : ℕ → Bool := fun id => (m.timer id).any (·.next == now)
  have hbelow := h.ordered.below Timer.comparator_iff (some (Timer.ofNext now addr))
  have htake : m.timers.take it = m.timers.filter below := OrderedSet.take_findIdx_not hbelow
  have hdrop : m.timers.drop it = m.timers.filter fun id => !below id :=
    OrderedSet.drop_findIdx_not hbelow
  have htimer : ∀ id ∈ m.timers, ∃ t, m.timer id = some t := fun id hid => by
    obtain ⟨t, ht, -⟩ := h.armed id (List.mem_append_left _ hid)
    exact ⟨t, ht⟩
  -- Behind the lower bound the timers of this very deadline come first.
  have hsame : ((m.timers.drop it).takeWhile same) = (m.timers.drop it).filter same := by
    apply OrderedSet.takeWhile_eq_filter
    rw [hdrop]
    have hle := h.next_le.sublist (List.filter_sublist (p := fun id => !below id))
    refine List.Pairwise.imp_of_mem ?_ hle
    intro a b ha hb hab hsb
    obtain ⟨ha, hna⟩ := List.mem_filter.mp ha
    obtain ⟨t, ht⟩ := htimer a ha
    obtain ⟨u, hu⟩ := htimer b (List.mem_filter.mp hb).1
    have htu := hab t ht u hu
    simp only [below, ht, Bool.not_eq_true', Bool.eq_false_iff, ne_eq, comparator_ofNext] at hna
    simp only [same, hu, ht, Option.any_some, beq_iff_eq] at hsb ⊢
    omega
  have hwhole : m.timers.filter below ++ m.timers.filter (fun id => !below id) = m.timers := by
    rw [← htake, ← hdrop, List.take_append_drop]
  have hfirst : m.timers.filter below = (m.timers.filter below).filter (m.due now) := by
    refine (List.filter_eq_self.mpr fun a ha => ?_).symm
    obtain ⟨ha, hb⟩ := List.mem_filter.mp ha
    obtain ⟨t, ht⟩ := htimer a ha
    simp only [below, ht, comparator_ofNext] at hb
    simp only [due, ht, Option.any_some, decide_eq_true_eq]
    omega
  have hsecond : (m.timers.filter fun id => !below id).filter same =
      (m.timers.filter fun id => !below id).filter (m.due now) := by
    refine List.filter_congr fun a ha => ?_
    obtain ⟨ha, hb⟩ := List.mem_filter.mp ha
    obtain ⟨t, ht⟩ := htimer a ha
    simp only [below, ht, Bool.not_eq_true', Bool.eq_false_iff, ne_eq, comparator_ofNext] at hb
    rw [Bool.eq_iff_iff]
    simp only [same, due, ht, Option.any_some, beq_iff_eq, decide_eq_true_eq]
    omega
  calc m.timers.take (m.expiredEnd false now addr)
      _ = m.timers.take (it + ((m.timers.drop it).takeWhile same).length) := by
        simp [expiredEnd, it, same]
      _ = m.timers.take it ++ (m.timers.drop it).takeWhile same := by
        rw [List.take_add, ← List.prefix_iff_eq_take.mp (List.takeWhile_prefix same)]
      _ = m.timers.filter below ++ (m.timers.filter fun id => !below id).filter same := by
        rw [hsame, htake, hdrop]
      _ = (m.timers.filter below ++ m.timers.filter fun id => !below id).filter (m.due now) := by
        rw [List.filter_append, ← hfirst, hsecond]
      _ = m.timers.filter (m.due now) := by rw [hwhole]

/-! ## The locked section -/

/-- If the first timer is not due, none is. -/
theorem Inv.filter_due_eq_nil (h : m.Inv P out) {first : ℕ} {rest : List ℕ} {t : Timer β}
    (htimers : m.timers = first :: rest) (ht : m.timer first = some t) (hlt : now < t.next) :
    m.timers.filter (m.due now) = [] := by
  have hle := h.next_le
  rw [htimers, List.pairwise_cons] at hle
  rw [List.filter_eq_nil_iff, htimers]
  intro a ha hdue
  obtain ⟨u, hu, -⟩ := h.armed a (List.mem_append_left _ (htimers ▸ ha))
  simp only [due, hu, Option.any_some, decide_eq_true_eq] at hdue
  rcases List.mem_cons.mp ha with rfl | ha
  · rw [ht, Option.some.injEq] at hu
    subst hu
    omega
  · have htu := hle.1 a ha t ht u hu
    omega

/-- The check of the clock leaves the set. -/
@[simp] theorem timers_detectClockRolllover (m : TimerManager β) (now : ℕ) :
    (m.detectClockRolllover now).2.timers = m.timers := rfl

/-- The check of the clock notes the time. -/
@[simp] theorem previouseTime_detectClockRolllover (m : TimerManager β) (now : ℕ) :
    (m.detectClockRolllover now).2.previouseTime = now := rfl

/-- The check of the clock keeps the invariant. -/
theorem Inv.detectClockRolllover (h : m.Inv P out) (now : ℕ) :
    (m.detectClockRolllover now).2.Inv P out :=
  ⟨h.ordered, h.armed, h.complete, h.addrs⟩

/-- The section on a set that is not empty, after the previous time has been moved on. -/
theorem listExpiredLocked_cons {first : ℕ} {rest : List ℕ} {t : Timer β}
    (htimers : m.timers = first :: rest) (ht : m.timer first = some t) (addr : ℕ)
    (cbs : List (Option β)) :
    let r := m.detectClockRolllover now
    let it := r.2.expiredEnd r.1 now addr
    m.listExpiredLocked now addr cbs =
      if (!r.1 && decide (now < t.next)) = true then some ⟨[], cbs, r.2⟩
      else (expireLoop now (r.2.timers.take it) cbs (r.2.withTimers (r.2.timers.drop it))).bind
        fun c => some ⟨r.2.timers.take it, c.1, c.2⟩ := by
  intro r it
  rw [listExpiredLocked]
  split
  case h_1 hnil => simp [htimers] at hnil
  case h_2 first' rest' heq =>
    obtain ⟨rfl, rfl⟩ : first = first' ∧ rest = rest' := by simpa [htimers] using heq
    show (m.timer first).bind _ = _
    rw [ht]
    rfl

/-- `listExpiredCb` under the lock: what it hands out, and every timer afterwards. -/
theorem Inv.listExpiredLocked (h : m.Inv P out) (now addr : ℕ) (cbs : List (Option β)) :
    ∃ m', m.listExpiredLocked now addr cbs =
        some ⟨m.handedOut now, cbs ++ (m.handedOut now).map m.callback, m'⟩ ∧
      m'.Inv P out ∧ (m'.previouseTime = if m.timers = [] then m.previouseTime else now) ∧
      ∀ j, m'.timer j =
        if j ∈ m.handedOut now then (m.timer j).map (Timer.fired now) else m.timer j := by
  cases htimers : m.timers with
  | nil =>
    have hnone : m.handedOut now = [] := by simp [handedOut, htimers]
    exact ⟨m, by simp [TimerManager.listExpiredLocked, htimers, hnone], h, rfl, by simp [hnone]⟩
  | cons first rest =>
    obtain ⟨t, ht, -⟩ := h.armed first (by simp [htimers])
    let m₁ := (m.detectClockRolllover now).2
    have hinv : m₁.Inv P out := h.detectClockRolllover now
    rw [listExpiredLocked_cons htimers ht]
    split
    -- no timer is due and the clock has not rolled over: only `previouseTime_` moves
    case isTrue hearly =>
      rw [Bool.and_eq_true, Bool.not_eq_true', decide_eq_true_eq] at hearly
      have hnone : m.handedOut now = [] := by
        rw [handedOut, if_neg (by simp [hearly.1])]
        exact h.filter_due_eq_nil htimers ht hearly.2
      refine ⟨m₁, by simp [hnone, m₁], hinv, by simp [m₁], fun j => ?_⟩
      rw [hnone, if_neg List.not_mem_nil]
      rfl
    -- what is cut off the front is what is handed out; the loop then works on the rest of the set
    case isFalse =>
      let it := m₁.expiredEnd (m.detectClockRolllover now).1 now addr
      have hcut : m₁.timers.take it = m.handedOut now := by
        rw [handedOut]
        split
        case isTrue hroll => simp [it, hroll, expiredEnd, m₁]
        case isFalse hroll =>
          have hcut := hinv.take_cut now addr
          rw [← Bool.not_eq_true _ |>.mp hroll] at hcut
          exact hcut
      have hperm : (m₁.timers.drop it ++ (m.handedOut now ++ out)).Perm (m₁.timers ++ out) := by
        rw [← hcut, ← List.append_assoc]
        apply List.Perm.append_right
        exact List.perm_append_comm.trans (by rw [List.take_append_drop])
      have hloopInv := hinv.withTimers hperm (hinv.ordered.sublist (List.drop_sublist _ _))
      obtain ⟨m', hloop, hinv', hprev, htimer⟩ := hloopInv.expireLoop now cbs
      refine ⟨m', ?_, hinv', by simpa [m₁] using hprev, htimer⟩
      rw [hcut, hloop]
      rfl

/-- `listExpiredCb` by one thread alone does the same. -/
theorem listExpiredCb_eq (m : TimerManager β) (now addr : ℕ) (cbs : List (Option β)) :
    m.listExpiredCb now addr cbs = m.listExpiredLocked now addr cbs := by
  rw [listExpiredCb]
  split
  case isTrue hempty =>
    rw [List.isEmpty_iff] at hempty
    simp [listExpiredLocked, hempty]
  case isFalse => rfl

end TimerManager

end RaftStore
