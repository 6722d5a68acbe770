import RaftStore.Model.HookedCalls

namespace RaftStore

/-!
# What hooked calls return

Whatever the descriptor does and whenever timers expire, a hooked call returns the first outcome of
its system calls that does not mean to wait, or -1: with `ETIMEDOUT` only if a timer of its own has
expired.  Nothing that a system call has transferred is lost, and nothing of a call is left when it
returns.

A call with a timeout waits for ever only if a callback of its own comes too early, when the event
is not registered yet.

* `HookedCall.Justified`, `HookedCall.Ok` — what is kept of one call.
* `HookedFd.Inv` — the same for all calls, and which call is registered.
* `HookedFd.returned_of_reach` — **what the calls return**.
* `HookedCall.Pending`, `HookedFd.Timely` — who will wake a call, and callbacks that are not early.
* `HookedFd.times_out` — **a timeout is not lost**, and `HookedFd.timeout_lost`, where it is.
-/

/-! ## One call -/

/-- The outcome means to wait. -/
def HookKind.blocks (kind : HookKind) (outcome : IOOutcome) : Bool :=
  match kind with
  | .io => outcome == .error eintr || outcome == .error eagain
  | .connect => outcome == .error einprogress

/-- After a failed `addEvent`, `do_io` returns and `connect` asks the socket. -/
theorem HookKind.unregistered_cases (kind : HookKind) (errno : ℕ) :
    kind = .io ∧ kind.unregistered errno = .done (.notRegistered errno) ∨
      kind = .connect ∧ kind.unregistered errno = .sockopt := by
  cases kind
  · exact .inl ⟨rfl, rfl⟩
  · exact .inr ⟨rfl, rfl⟩

/-- When it is resumed, `do_io` tries again and `connect` asks the socket. -/
theorem HookKind.resumed_cases (kind : HookKind) :
    kind = .io ∧ kind.resumed = .trying ∨ kind = .connect ∧ kind.resumed = .sockopt := by
  cases kind
  · exact .inl ⟨rfl, rfl⟩
  · exact .inr ⟨rfl, rfl⟩

/-- A timer may be armed. -/
def HookPhase.mayArm : HookPhase → Bool
  | registering | waiting | woken | failed _ => true
  | _ => false

/-- It has expired. -/
def TimerStage.fired : TimerStage → Bool
  | armed | dropped => false
  | _ => true

namespace HookedCall

variable {c c' : HookedCall} {m : HookMove} {t : ℕ}

/-- All system calls so far mean to wait. -/
def Blocked (c : HookedCall) : Prop := ∀ outcome ∈ c.outcomes, c.kind.blocks outcome = true

/-- What the outcomes have to do with where the call is. -/
def JustifiedAt (c : HookedCall) : HookPhase → Prop
  | .direct => c.managed = false ∧ c.outcomes = []
  | .sockopt => c.managed = true ∧ c.kind = .connect ∧ c.Blocked
  | .done (.returned outcome) => ∃ before, c.outcomes = before ++ [outcome] ∧
      (∀ o ∈ before, c.kind.blocks o = true) ∧ (c.managed = false → before = []) ∧
      (c.managed = true → c.kind = .io → c.kind.blocks outcome = false)
  | .done .timedOut => c.managed = true ∧ c.timed = true ∧ c.Blocked ∧
      ∃ stage ∈ c.timers, stage.fired = true
  | .done (.notRegistered _) => c.managed = true ∧ c.kind = .io ∧ c.Blocked
  | .done .badFd => c.managed = false ∧ c.outcomes = []
  | _ => c.managed = true ∧ c.Blocked

/-- The same for the phase that it has. -/
def Justified (c : HookedCall) : Prop := c.JustifiedAt c.phase

/-- What is kept of a call. -/
structure Ok (c : HookedCall) : Prop where
  justified : c.Justified
  /-- only the last timer is armed, and only around the wait -/
  armed : ∀ t, c.timers[t]? = some .armed → t + 1 = c.timers.length ∧ c.phase.mayArm = true
  flag : c.cancelled = true → ∃ stage ∈ c.timers, stage.fired = true
  untimed : c.timed = false → c.timers = []

/-- A stage that is not replaced is still there. -/
theorem mem_set {l : List TimerStage} {old new stage : TimerStage} (ht : l[t]? = some old)
    (hmem : stage ∈ l) (hne : stage ≠ old) : stage ∈ l.set t new := by
  obtain ⟨i, hi⟩ := List.mem_iff_getElem?.mp hmem
  apply List.mem_iff_getElem?.mpr
  refine ⟨i, ?_⟩
  have hit : t ≠ i := by
    rintro rfl
    rw [ht] at hi
    exact hne (Option.some.inj hi).symm
  rw [List.getElem?_set_ne hit, hi]

/-- The new stage is there. -/
theorem self_mem_set {l : List TimerStage} {old : TimerStage} (ht : l[t]? = some old)
    (new : TimerStage) : new ∈ l.set t new :=
  List.mem_set (List.getElem?_eq_some_iff.mp ht).1 new

/-- A timer that has expired stays so. -/
theorem Justified.setTimers (h : c.Justified) {timers : List TimerStage}
    (hfired : (∃ stage ∈ c.timers, stage.fired = true) → ∃ stage ∈ timers, stage.fired = true)
    (cancelled : Bool) : Justified { c with cancelled, timers } := by
  rw [Justified] at h
  show JustifiedAt _ c.phase
  cases hphase : c.phase with
  | done result =>
    rw [hphase] at h
    cases result with
    | timedOut => exact ⟨h.1, h.2.1, h.2.2.1, hfired h.2.2.2⟩
    | _ => exact h
  | _ =>
    rw [hphase] at h
    exact h

/-- A timer leaves the stage `armed`, or is behind it. -/
theorem Ok.setTimer (h : c.Ok) {old new : TimerStage} (ht : c.timers[t]? = some old)
    (hnew : new.fired = true) (cancelled : Bool) :
    Ok { c with cancelled, timers := c.timers.set t new } where
  justified := h.justified.setTimers (fun _ => ⟨new, self_mem_set ht new, hnew⟩) cancelled
  armed := by
    intro i hi
    rw [List.length_set]
    apply h.armed
    by_cases hit : t = i
    · subst hit
      rw [List.getElem?_set_self (List.getElem?_eq_some_iff.mp ht).1, Option.some.injEq] at hi
      rw [hi] at hnew
      cases hnew
    · rwa [List.getElem?_set_ne hit] at hi
  flag := fun _ => ⟨new, self_mem_set ht new, hnew⟩
  untimed := by
    intro huntimed
    have hnil := h.untimed huntimed
    rw [hnil] at ht
    cases ht

/-- `Timer::cancel` of the last timer: none is armed any more. -/
theorem Ok.armed_cancel (h : c.Ok) :
    (c.timers.modify (c.timers.length - 1) TimerStage.cancel)[t]? ≠ some .armed := by
  intro hmodify
  rw [List.getElem?_modify] at hmodify
  obtain ⟨stage, hstage, hcancel⟩ := Option.map_eq_some_iff.mp hmodify
  split at hcancel
  · cases stage <;> cases hcancel
  · subst hcancel
    have hlast := (h.armed t hstage).1
    omega

/-- Cancelling does not change whether a timer has expired. -/
theorem fired_cancel {stage : TimerStage} : stage.cancel.fired = stage.fired := by
  cases stage <;> rfl

/-- Nor does cancelling the last one of several. -/
theorem exists_fired_cancel (h : ∃ stage ∈ c.timers, stage.fired = true) :
    ∃ stage ∈ c.timers.modify (c.timers.length - 1) TimerStage.cancel, stage.fired = true := by
  obtain ⟨stage, hmem, hfired⟩ := h
  obtain ⟨i, hi⟩ := List.mem_iff_getElem?.mp hmem
  by_cases hlast : c.timers.length - 1 = i
  · refine ⟨stage.cancel, List.mem_iff_getElem?.mpr ⟨i, ?_⟩, by rw [fired_cancel, hfired]⟩
    rw [List.getElem?_modify, hi]
    show some (if _ then _ else _) = _
    rw [if_pos hlast]
  · refine ⟨stage, List.mem_iff_getElem?.mpr ⟨i, ?_⟩, hfired⟩
    rw [List.getElem?_modify, hi]
    show some (if _ then _ else _) = _
    rw [if_neg hlast]

/-- One more outcome that means to wait. -/
theorem Blocked.concat (h : c.Blocked) {outcome : IOOutcome} (ho : c.kind.blocks outcome = true)
    {phase : HookPhase} : Blocked { c with phase, outcomes := c.outcomes ++ [outcome] } := by
  intro o hmem
  rcases List.mem_append.mp hmem with hmem | hmem
  · exact h o hmem
  · rw [List.mem_singleton.mp hmem]
    exact ho

/-- What follows a system call: the call waits if it has to, and else returns the outcome. -/
theorem justified_after (hmanaged : c.managed = true) (h : c.Blocked) (outcome : IOOutcome) :
    Justified { c with
      phase := c.kind.after outcome
      outcomes := c.outcomes ++ [outcome] } := by
  show JustifiedAt _ (c.kind.after outcome)
  have hblocked : c.kind.blocks outcome = true →
      (c.managed = true ∧ Blocked { c with
        phase := c.kind.after outcome
        outcomes := c.outcomes ++ [outcome] }) := fun hblocks => ⟨hmanaged, h.concat hblocks⟩
  -- a call that does not wait returns what the system call has just answered
  have hreturned : (c.kind = .io → c.kind.blocks outcome = false) →
      JustifiedAt { c with
        phase := c.kind.after outcome
        outcomes := c.outcomes ++ [outcome] } (.done (.returned outcome)) := by
    intro hio
    refine ⟨c.outcomes, rfl, h, fun hfalse => ?_, fun _ => hio⟩
    exact absurd (hfalse.symm.trans hmanaged) (by decide)
  generalize hafter : c.kind.after outcome = phase at hblocked hreturned ⊢
  -- `do_io` goes round after `EINTR` and waits after `EAGAIN`; `connect` waits after `EINPROGRESS`
  cases hkind : c.kind with
  | io =>
    rw [hkind] at hafter hblocked hreturned
    by_cases hintr : outcome = .error eintr
    · obtain rfl : .trying = phase := by rw [← hafter, HookKind.after, if_pos hintr]
      exact hblocked (by rw [hintr]; rfl)
    · by_cases hagain : outcome = .error eagain
      · obtain rfl : .again = phase := by
          rw [← hafter, HookKind.after, if_neg hintr, if_pos hagain]
        exact hblocked (by rw [hagain]; rfl)
      · obtain rfl : .done (.returned outcome) = phase := by
          rw [← hafter, HookKind.after, if_neg hintr, if_neg hagain]
        apply hreturned
        intro _
        rw [HookKind.blocks, Bool.or_eq_false_iff]
        exact ⟨beq_false_of_ne hintr, beq_false_of_ne hagain⟩
  | connect =>
    rw [hkind] at hafter hblocked hreturned
    by_cases hprogress : outcome = .error einprogress
    · obtain rfl : .again = phase := by rw [← hafter, HookKind.after, if_pos hprogress]
      exact hblocked (by rw [hprogress]; rfl)
    · obtain rfl : .done (.returned outcome) = phase := by
        rw [← hafter, HookKind.after, if_neg hprogress]
      exact hreturned fun hio => by cases hio

/-- A call that has not armed a timer yet, or whose timers are over, goes on. -/
theorem Ok.setPhase (h : c.Ok) {phase : HookPhase} {outcomes : List IOOutcome}
    (harm : c.phase.mayArm = true → phase.mayArm = true)
    (hjustified : Justified { c with phase, outcomes }) : Ok { c with phase, outcomes } where
  justified := hjustified
  armed t ht := ⟨(h.armed t ht).1, harm (h.armed t ht).2⟩
  flag := h.flag
  untimed := h.untimed

/-- The timer is cancelled. -/
theorem Ok.cancelTimer (h : c.Ok) {phase : HookPhase}
    (hjustified : Justified { c with
      phase
      timers := c.timers.modify (c.timers.length - 1) TimerStage.cancel }) :
    Ok { c with
      phase
      timers := c.timers.modify (c.timers.length - 1) TimerStage.cancel } where
  justified := hjustified
  armed _ ht := absurd ht h.armed_cancel
  flag hflag := exists_fired_cancel (h.flag hflag)
  untimed huntimed := by
    show c.timers.modify _ _ = []
    rw [h.untimed huntimed, List.modify_nil]

/-- A timer is armed, if there is a timeout. -/
theorem Ok.addConditionTimer (h : c.Ok) (hphase : c.phase = .again) :
    Ok { c with
      phase := .registering
      timers := if c.timed then c.timers ++ [TimerStage.armed] else c.timers } := by
  have hjustified := h.justified
  rw [Justified, hphase] at hjustified
  -- the timers of earlier rounds have been cancelled or have fired
  have hnone : ∀ t : ℕ, c.timers[t]? ≠ some TimerStage.armed := by
    intro t ht
    have harm := (h.armed t ht).2
    rw [hphase] at harm
    cases harm
  refine ⟨hjustified, fun t ht => ?_, fun hflag => ?_, fun huntimed => ?_⟩
  · dsimp only at ht ⊢
    split at ht
    case isTrue htimed =>
      rw [if_pos htimed]
      refine ⟨?_, rfl⟩
      -- so an armed one is the new one, which stands last
      by_cases hlt : t < c.timers.length
      · rw [List.getElem?_append_left hlt] at ht
        exact absurd ht (hnone t)
      · have hlen := (List.getElem?_eq_some_iff.mp ht).1
        rw [List.length_append, List.length_singleton] at hlen ⊢
        omega
    case isFalse => exact absurd ht (hnone t)
  · obtain ⟨stage, hmem, hfired⟩ := h.flag hflag
    refine ⟨stage, ?_, hfired⟩
    show stage ∈ if c.timed = true then _ else _
    split
    · exact List.mem_append_left _ hmem
    · exact hmem
  · have hfalse : ¬ c.timed = true := (Bool.not_eq_true _).mpr huntimed
    show (if c.timed = true then _ else _) = []
    rw [if_neg hfalse]
    exact h.untimed huntimed

/-- **One step** of a call or of one of its callbacks. -/
theorem Ok.move (h : c.Ok) (hm : c.move m = some c') : c'.Ok := by
  have hjustified := h.justified
  rw [Justified] at hjustified
  revert hm
  fun_cases HookedCall.move c m <;> intro hm
  all_goals try cases hm
  case case1 outcome hphase =>
    -- the hook is not in charge
    rw [hphase] at hjustified
    obtain ⟨hmanaged, hnil⟩ := hjustified
    refine h.setPhase (by rw [hphase]; exact id) ⟨[], by rw [hnil], by simp, fun _ => rfl, ?_⟩
    intro htrue
    exact absurd (hmanaged.symm.trans htrue) (by decide)
  case case2 outcome hphase =>
    rw [hphase] at hjustified
    obtain ⟨hmanaged, hkind, hblocked⟩ := hjustified
    refine h.setPhase (by rw [hphase]; exact id) ⟨c.outcomes, rfl, hblocked, ?_, ?_⟩
    · intro hfalse
      exact absurd (hfalse.symm.trans hmanaged) (by decide)
    · intro _ hio
      exact absurd (hkind.symm.trans hio) (by decide)
  case case3 outcome hphase =>
    rw [hphase] at hjustified
    exact h.setPhase (by rw [hphase]; exact fun hfalse => by cases hfalse)
      (justified_after hjustified.1 hjustified.2 outcome)
  case case5 hphase => exact h.addConditionTimer hphase
  case case7 hphase =>
    rw [hphase] at hjustified
    exact h.cancelTimer hjustified
  case case8 errno hphase =>
    rw [hphase] at hjustified
    apply h.cancelTimer
    rcases c.kind.unregistered_cases errno with ⟨hkind, hnext⟩ | ⟨hkind, hnext⟩
    · rw [hnext]
      exact ⟨hjustified.1, hkind, hjustified.2⟩
    · rw [hnext]
      exact ⟨hjustified.1, hkind, hjustified.2⟩
  case case10 hphase =>
    rw [hphase] at hjustified
    refine h.setPhase (by rw [hphase]; exact fun hfalse => by cases hfalse) ?_
    by_cases hcancelled : c.cancelled = true
    · rw [if_pos hcancelled]
      -- a callback has set the flag
      obtain ⟨stage, hmem, hfired⟩ := h.flag hcancelled
      have htimed : c.timed = true := by
        rw [← Bool.not_eq_false]
        intro huntimed
        rw [h.untimed huntimed] at hmem
        cases hmem
      exact ⟨hjustified.1, htimed, hjustified.2, stage, hmem, hfired⟩
    · rw [if_neg hcancelled]
      rcases c.kind.resumed_cases with ⟨hkind, hnext⟩ | ⟨hkind, hnext⟩
      · rw [hnext]
        exact hjustified
      · rw [hnext]
        exact ⟨hjustified.1, hkind, hjustified.2⟩
  case case12 t ht => exact h.setTimer ht rfl c.cancelled
  case case14 t ht => exact h.setTimer ht (by split <;> rfl) c.cancelled
  case case16 t ht => exact h.setTimer ht (by split <;> rfl) c.cancelled
  case case18 t ht => exact h.setTimer ht rfl true

/-- A call at its beginning. -/
theorem ok_entry (kind : HookKind) (hookEnable : Bool) (ctx : Option FdCtx) (timed : Bool) :
    Ok { kind, managed := kind.entry hookEnable ctx == .trying, timed,
         phase := kind.entry hookEnable ctx } := by
  refine ⟨?_, fun t ht => (by cases ht), fun hflag => (by cases hflag), fun _ => rfl⟩
  have hentry : kind.entry hookEnable ctx = .direct ∨ kind.entry hookEnable ctx = .done .badFd ∨
      kind.entry hookEnable ctx = .trying := by
    fun_cases HookKind.entry kind hookEnable ctx <;> simp
  rcases hentry with hentry | hentry | hentry
  · rw [hentry]
    exact ⟨rfl, rfl⟩
  · rw [hentry]
    exact ⟨rfl, rfl⟩
  · rw [hentry]
    exact ⟨rfl, fun o ho => by cases ho⟩

/-- The event is registered, or cannot be, or is triggered. -/
theorem Ok.wait (h : c.Ok) {phase : HookPhase} (harm : phase.mayArm = true)
    (hold : c.phase = .registering ∨ c.phase = .waiting) : Ok { c with phase } := by
  have hjustified := h.justified
  have hblocked : c.managed = true ∧ c.Blocked := by
    rcases hold with hold | hold <;>
    · rw [Justified, hold] at hjustified
      exact hjustified
  refine h.setPhase (fun _ => harm) ?_
  show JustifiedAt _ phase
  cases phase <;> first | exact hblocked | cases harm

end HookedCall

/-! ## All calls -/

namespace HookedFd

variable {s s' : HookedFd} {a : HookStep} {k t : ℕ} {c c' : HookedCall}

/-- Every call is as it should be, the registered one is the one that waits, and the process has
    ended only if another one was to be registered. -/
structure Inv (s : HookedFd) : Prop where
  call : ∀ (k : ℕ) (c : HookedCall), s.calls[k]? = some c → c.Ok
  registered : ∀ k : ℕ, s.registered = some k ↔ ∃ c : HookedCall, s.calls[k]? = some c ∧
    c.phase = .waiting
  panicked : s.panicked = true → ∃ i j : ℕ, ∃ c d : HookedCall, s.calls[i]? = some c ∧
    c.phase = .waiting ∧ s.calls[j]? = some d ∧ d.phase = .registering

/-- The calls after one is set. -/
theorem getElem?_setCall (hk : s.calls[k]? = some c) (c' : HookedCall) (i : ℕ) :
    (s.calls.set k c')[i]? = if i = k then some c' else s.calls[i]? := by
  split
  case isTrue h =>
    subst h
    exact List.getElem?_set_self (List.getElem?_eq_some_iff.mp hk).1
  case isFalse h => exact List.getElem?_set_ne (Ne.symm h)

/-- A call that neither waits nor begins to. -/
theorem Inv.setCall (hs : s.Inv) (hpanicked : s.panicked = false) (hk : s.calls[k]? = some c)
    (hc : c'.Ok) (hwaiting : c'.phase = .waiting ↔ c.phase = .waiting) : (s.setCall k c').Inv := by
  refine ⟨fun i d hd => ?_, fun i => ?_, fun h => ?_⟩
  · rw [HookedFd.setCall, getElem?_setCall hk] at hd
    split at hd
    · exact Option.some.inj hd ▸ hc
    · exact hs.call i d hd
  · show s.registered = some i ↔ _
    rw [hs.registered i, HookedFd.setCall, getElem?_setCall hk]
    split
    case isTrue hik =>
      subst hik
      rw [hk]
      simp only [Option.some.injEq, exists_eq_left', hwaiting]
    case isFalse => rfl
  · exact absurd (hpanicked.symm.trans h) (by decide)

/-- `triggerEvent`. -/
theorem Inv.trigger (hs : s.Inv) (hpanicked : s.panicked = false) : s.trigger.Inv := by
  rw [HookedFd.trigger]
  split
  case h_1 => exact hs
  case h_2 k hregistered =>
    obtain ⟨c, hk, hphase⟩ := (hs.registered k).mp hregistered
    refine ⟨fun i d hd => ?_, fun i => ?_, fun h => ?_⟩
    · rw [List.getElem?_modify] at hd
      obtain ⟨d', hd', rfl⟩ := Option.map_eq_some_iff.mp hd
      split
      case isTrue hki =>
        subst hki
        exact (hs.call k d' hd').wait rfl (.inr (Option.some.inj (hk.symm.trans hd') ▸ hphase))
      case isFalse => exact hs.call i d' hd'
    · refine ⟨fun h => (by cases h), fun h => ?_⟩
      obtain ⟨d, hd, hwaiting⟩ := h
      rw [List.getElem?_modify] at hd
      obtain ⟨d', hd', rfl⟩ := Option.map_eq_some_iff.mp hd
      split at hwaiting
      case isTrue => cases hwaiting
      case isFalse hki =>
        -- no other call waits
        have hi := (hs.registered i).mpr ⟨d', hd', hwaiting⟩
        rw [hregistered] at hi
        exact absurd (Option.some.inj hi) hki
    · exact absurd (hpanicked.symm.trans h) (by decide)

/-- No step but `addEvent` and `triggerEvent` changes whether a call waits. -/
theorem waiting_move {m : HookMove} (hm : c.move m = some c') :
    c'.phase = .waiting ↔ c.phase = .waiting := by
  have hafter : ∀ (kind : HookKind) outcome, kind.after outcome ≠ .waiting := by
    intro kind outcome
    fun_cases HookKind.after kind outcome <;> exact fun h => by cases h
  revert hm
  fun_cases HookedCall.move c m <;> intro hm
  all_goals try cases hm
  case case3 outcome hphase =>
    rw [hphase]
    exact iff_of_false (hafter _ _) (by decide)
  case case8 errno hphase =>
    rw [hphase]
    cases c.kind <;> exact iff_of_false (fun h => by cases h) (fun h => by cases h)
  case case10 hphase =>
    rw [hphase]
    split
    · exact iff_of_false (fun h => by cases h) (by decide)
    · cases c.kind <;> exact iff_of_false (fun h => by cases h) (by decide)
  all_goals simp_all

/-- A call that enters does not wait yet. -/
theorem Inv.enter (hs : s.Inv) (hpanicked : s.panicked = false) (hc : c.Ok)
    (hphase : c.phase ≠ .waiting) : Inv { s with calls := s.calls ++ [c] } := by
  have hget : ∀ (i : ℕ) (d : HookedCall), (s.calls ++ [c])[i]? = some d →
      s.calls[i]? = some d ∨ d = c := by
    intro i d hd
    rcases Nat.lt_or_ge i s.calls.length with hlt | hge
    · rw [List.getElem?_append_left hlt] at hd
      exact .inl hd
    · right
      have hmem := List.mem_of_getElem? hd
      rw [List.getElem?_append_right hge] at hd
      exact List.mem_singleton.mp (List.mem_of_getElem? hd)
  refine ⟨fun i d hd => ?_, fun i => ?_, fun h => ?_⟩
  · rcases hget i d hd with hd | rfl
    · exact hs.call i d hd
    · exact hc
  -- the registered call is among the old ones, as the new one does not wait
  · show s.registered = some i ↔ _
    rw [hs.registered i]
    constructor
    · rintro ⟨d, hd, hwaiting⟩
      exact ⟨d, List.getElem?_append_left (List.getElem?_eq_some_iff.mp hd).1 ▸ hd, hwaiting⟩
    · rintro ⟨d, hd, hwaiting⟩
      rcases hget i d hd with hd | rfl
      · exact ⟨d, hd, hwaiting⟩
      · exact absurd hwaiting hphase
  · exact absurd (hpanicked.symm.trans h) (by decide)

/-- The fiber of a call is registered, and no other one is. -/
theorem Inv.register (hs : s.Inv) (hpanicked : s.panicked = false) (hk : s.calls[k]? = some c)
    (hphase : c.phase = .registering) (hnone : s.registered = none) :
    Inv { s.setCall k { c with phase := .waiting } with registered := some k } := by
  refine ⟨fun i d hd => ?_, fun i => ?_, fun h => ?_⟩
  · rw [HookedFd.setCall, getElem?_setCall hk] at hd
    split at hd
    · obtain rfl := Option.some.inj hd
      exact (hs.call k c hk).wait rfl (.inl hphase)
    · exact hs.call i d hd
  · rw [HookedFd.setCall, getElem?_setCall hk]
    show some k = some i ↔ _
    split
    case isTrue hik =>
      subst hik
      exact iff_of_true rfl ⟨_, rfl, rfl⟩
    case isFalse hik =>
      refine iff_of_false (fun h => hik (Option.some.inj h).symm) fun h => ?_
      have hi := (hs.registered i).mpr h
      rw [hnone] at hi
      cases hi
  · exact absurd (hpanicked.symm.trans h) (by decide)

/-- No call waits on entry. -/
theorem entry_ne_waiting (kind : HookKind) (hookEnable : Bool) (ctx : Option FdCtx) :
    kind.entry hookEnable ctx ≠ .waiting := by
  fun_cases HookKind.entry kind hookEnable ctx <;> exact fun h => by cases h

/-- **One step.** -/
theorem Inv.step (hs : s.Inv) (h : s.step a = some s') : s'.Inv := by
  have hrunning : ¬ s.panicked = true → s.panicked = false := (Bool.not_eq_true _).mp
  revert h
  fun_cases HookedFd.step s a <;> intro h
  all_goals try cases h
  case case2.refl kind hookEnable ctx timeout hpanicked =>
    exact hs.enter (hrunning hpanicked) (HookedCall.ok_entry kind hookEnable ctx _)
      (entry_ne_waiting kind hookEnable ctx)
  case case4 k m hpanicked c hk =>
    obtain ⟨c', hm, rfl⟩ := Option.map_eq_some_iff.mp h
    exact hs.setCall (hrunning hpanicked) hk ((hs.call k c hk).move hm) (waiting_move hm)
  case case7.refl k error hpanicked c hk hphase hsome =>
    -- the process ends here
    obtain ⟨i, hi⟩ := Option.isSome_iff_exists.mp hsome
    obtain ⟨d, hd, hwaiting⟩ := (hs.registered i).mp hi
    exact ⟨hs.call, hs.registered, fun _ => ⟨i, k, d, c, hd, hwaiting, hk, hphase⟩⟩
  case case8.refl k hpanicked c hk hphase hnone errno =>
    refine hs.setCall (hrunning hpanicked) hk ((hs.call k c hk).wait rfl (.inl hphase)) ?_
    rw [hphase]
    exact iff_of_false (fun h => by cases h) (fun h => by cases h)
  case case9.refl k hpanicked c hk hphase hnone =>
    exact hs.register (hrunning hpanicked) hk hphase (Option.not_isSome_iff_eq_none.mp hnone)
  case case13.refl hpanicked => exact hs.trigger (hrunning hpanicked)
  case case15.refl k t error hpanicked c hk ht s₁ =>
    have hfinished : TimerStage.finished.fired = true := rfl
    have hset := hs.setCall (hrunning hpanicked) hk
      ((hs.call k c hk).setTimer ht hfinished c.cancelled) Iff.rfl
    split
    · exact hset
    · exact hset.trigger (hrunning hpanicked)

/-- Every reachable state is as it should be. -/
theorem inv_reach (h : Reach step anyStep {} s) : s.Inv := by
  refine Reach.invariant ?_ (fun s a s' _ hs _ hstep => hs.step hstep) h
  refine ⟨fun k c hk => (by cases hk), fun k => ?_, fun h => (by cases h)⟩
  exact iff_of_false (fun h => by cases h) (fun ⟨c, hk, _⟩ => by cases hk)

/-- **What hooked calls return**: the first outcome that does not mean to wait, or -1 with a reason.
    A call that has returned is not registered and has no timer that is armed, and the process ends
    only if a call is to wait where another one waits. -/
theorem returned_of_reach (h : Reach step anyStep {} s) :
    (∀ (k : ℕ) (c : HookedCall), s.calls[k]? = some c → c.Justified ∧
      ∀ result, c.phase = .done result →
        s.registered ≠ some k ∧ TimerStage.armed ∉ c.timers) ∧
      (s.panicked = true → ∃ (i j : ℕ) (c d : HookedCall), s.calls[i]? = some c ∧
        c.phase = .waiting ∧ s.calls[j]? = some d ∧ d.phase = .registering) := by
  have hs := inv_reach h
  refine ⟨fun k c hk => ⟨(hs.call k c hk).justified, fun result hdone => ⟨fun hk' => ?_, ?_⟩⟩,
    hs.panicked⟩
  · obtain ⟨d, hd, hwaiting⟩ := (hs.registered k).mp hk'
    rw [← Option.some.inj (hk.symm.trans hd), hdone] at hwaiting
    cases hwaiting
  · intro hmem
    obtain ⟨t, ht⟩ := List.mem_iff_getElem?.mp hmem
    have harm := ((hs.call k c hk).armed t ht).2
    rw [hdone] at harm
    cases harm

/-- A socket that waits at most as long as its timeout is. -/
def socketCtx : FdCtx := { isInit := true, isSocket := true, sysNonblock := true }

/-- `recv` is interrupted, waits, and returns five bytes. -/
theorem returned_of_reach_recv : ∃ s : HookedFd, Reach HookedFd.step anyStep {} s ∧
    (s.calls[0]?).map HookedCall.phase = some (.done (.returned (.value 5))) ∧
    (∀ (k : ℕ) (c : HookedCall), s.calls[k]? = some c → c.Justified ∧
      ∀ result, c.phase = .done result →
        s.registered ≠ some k ∧ TimerStage.armed ∉ c.timers) ∧
      (s.panicked = true → ∃ (i j : ℕ) (c d : HookedCall), s.calls[i]? = some c ∧
        c.phase = .waiting ∧ s.calls[j]? = some d ∧ d.phase = .registering) := by
  have hrun : (runFrom HookedFd.step anyStep {} [.enter .io true (some socketCtx) (some 100),
      .move 0 (.attempt (.error eintr)), .move 0 (.attempt (.error eagain)),
      .move 0 .addConditionTimer, .addEvent 0 none, .trigger, .move 0 .cancelTimer,
      .move 0 .check, .move 0 (.attempt (.value 5))]).map
      (fun s => (s.calls[0]?).map HookedCall.phase) =
        some (some (.done (.returned (.value 5)))) := by
    decide
  obtain ⟨s, hs, hphase⟩ := Reach.exists_of_runFrom hrun
  exact ⟨s, hs, hphase, returned_of_reach hs⟩

end HookedFd

/-! ## Who wakes a call -/

namespace HookPhase

/-- The call may still wait. -/
def mayWait : HookPhase → Bool
  | trying | again | registering | waiting => true
  | _ => false

/-- The timer is armed, and the call waits or is about to. -/
def timing : HookPhase → Bool
  | registering | waiting => true
  | _ => false

end HookPhase

/-- The callback of the timer will set the flag and cancel the event, unless the flag is set. -/
def TimerStage.coming : TimerStage → Bool
  | armed | expired | locked | tested => true
  | _ => false

/-- How many steps lead from here to the end of the call. -/
def TimerStage.left : TimerStage → ℕ
  | armed => 6
  | expired => 5
  | locked => 4
  | tested => 3
  | _ => 2

namespace HookedCall

variable {c c' : HookedCall} {m : HookMove} {t : ℕ}

/-- How many steps of the call and of the callback of its timer `t` are left. -/
def stepsLeft (t : ℕ) (c : HookedCall) : ℕ :=
  match c.phase with
  | .waiting => 2 + ((c.timers[t]?).map TimerStage.left).getD 0
  | .woken => 2
  | .checking => 1
  | _ => 0

/-- Whoever has set the flag is about to cancel the event, and somebody comes who will set it. -/
structure Pending (c : HookedCall) : Prop where
  flag : c.phase.mayWait = true → c.cancelled = true → TimerStage.flagged ∈ c.timers
  wake : c.phase.timing = true → c.timed = true → c.cancelled = false →
    ∃ stage ∈ c.timers, stage.coming = true

/-- Nothing is owed to a call that will not wait. -/
theorem Pending.of_phase (phase : HookPhase) (hphase : phase.mayWait = false) {d : HookedCall}
    (hd : d.phase = phase) : d.Pending := by
  subst hd
  refine ⟨fun h => absurd (h.symm.trans hphase) (by decide), fun h => ?_⟩
  have htiming : d.phase.mayWait = true := by
    cases hphase' : d.phase <;> rw [hphase'] at h <;> first | rfl | cases h
  exact absurd (htiming.symm.trans hphase) (by decide)

/-- A timer goes on towards `cancelEvent`. -/
theorem Pending.setTimer (h : c.Pending) {old new : TimerStage} (ht : c.timers[t]? = some old)
    (hold : old ≠ .flagged)
    (hnew : c.phase.mayWait = true → c.cancelled = false → old.coming = true → new.coming = true) :
    Pending { c with timers := c.timers.set t new } where
  flag hphase hcancelled := mem_set ht (h.flag hphase hcancelled) (Ne.symm hold)
  wake hphase htimed hcancelled := by
    obtain ⟨stage, hmem, hcoming⟩ := h.wake hphase htimed hcancelled
    by_cases hstage : stage = old
    · have hmay : c.phase.mayWait = true := by
        revert hphase
        show c.phase.timing = true → _
        cases c.phase <;> first | exact fun _ => rfl | exact fun h => by cases h
      exact ⟨new, self_mem_set ht new, hnew hmay hcancelled (hstage ▸ hcoming)⟩
    · exact ⟨stage, mem_set ht hmem hstage, hcoming⟩

/-- The call goes on where no timer is armed. -/
theorem Pending.setPhase (h : c.Pending) {phase : HookPhase}
    (hmay : phase.mayWait = true → c.phase.mayWait = true) (htiming : phase.timing = false)
    (outcomes : List IOOutcome) : Pending { c with phase, outcomes } where
  flag hphase hcancelled := h.flag (hmay hphase) hcancelled
  wake hphase := absurd (hphase.symm.trans htiming) (by decide)

/-- **One step**, of the call or of one of its callbacks. -/
theorem Pending.move (h : c.Pending) (hm : c.move m = some c') : c'.Pending := by
  revert hm
  fun_cases HookedCall.move c m <;> intro hm
  all_goals try cases hm
  case case1.refl => exact .of_phase (.done _) rfl rfl
  case case2.refl => exact .of_phase (.done _) rfl rfl
  -- whatever the system call returns, no timer is armed in the phase that follows
  case case3.refl outcome hphase =>
    have hafter : (c.kind.after outcome).timing = false := by
      fun_cases HookKind.after c.kind outcome <;> rfl
    exact h.setPhase (fun _ => by rw [hphase]; rfl) hafter _
  -- `addConditionTimer`: the new timer is armed, and an old one that has set the flag stays
  case case5.refl hphase =>
    have hmay : c.phase.mayWait = true := by rw [hphase]; rfl
    refine ⟨fun _ hcancelled => ?_, fun _ htimed _ => ?_⟩
    · show TimerStage.flagged ∈ if c.timed = true then _ else _
      split
      · exact List.mem_append_left _ (h.flag hmay hcancelled)
      · exact h.flag hmay hcancelled
    · refine ⟨.armed, ?_, rfl⟩
      show TimerStage.armed ∈ if c.timed = true then _ else _
      rw [if_pos htimed]
      simp
  case case7.refl => exact .of_phase .checking rfl rfl
  case case8.refl errno hphase =>
    rcases c.kind.unregistered_cases errno with ⟨-, hnext⟩ | ⟨-, hnext⟩
    · exact .of_phase (.done _) rfl hnext
    · exact .of_phase .sockopt rfl hnext
  -- the fiber runs again and reads the flag first
  case case10.refl hphase =>
    by_cases hcancelled : c.cancelled = true
    · exact .of_phase (.done .timedOut) rfl (if_pos hcancelled)
    · rcases c.kind.resumed_cases with ⟨-, hnext⟩ | ⟨-, hnext⟩
      · rw [if_neg hcancelled, hnext]
        exact ⟨fun _ h => absurd h hcancelled, fun h => by cases h⟩
      · exact .of_phase .sockopt rfl ((if_neg hcancelled).trans hnext)
  case case12.refl t ht =>
    exact h.setTimer ht (by decide) fun _ _ _ => rfl
  -- the weak pointer of the callback can be locked, as the call still waits
  case case14.refl t ht =>
    refine h.setTimer ht (by decide) fun hphase _ _ => ?_
    have halive : c.alive = true := by
      rw [alive, Bool.or_eq_true]
      left
      generalize c.phase = phase at hphase ⊢
      cases phase <;> first | rfl | cases hphase
    rw [if_pos halive]
    rfl
  -- the flag is not yet set, so the callback goes on
  case case16.refl t ht =>
    refine h.setTimer ht (by decide) fun _ hcancelled _ => ?_
    rw [if_neg (by rw [hcancelled]; decide)]
    rfl
  case case18.refl t ht =>
    exact ⟨fun _ _ => self_mem_set ht _, fun _ _ hfalse => by cases hfalse⟩

end HookedCall

namespace HookedFd

variable {s s' : HookedFd} {a : HookStep} {k t : ℕ} {c c' : HookedCall}

/-- No callback cancels the event before its own call is registered, or fails to. -/
def timely (s : HookedFd) : HookStep → Bool
  | .cancelEvent k _ error =>
    !error && (s.calls[k]?).all fun c => !c.phase.mayWait || c.phase == .waiting
  | _ => true

/-- The condition on a step, as a proposition. -/
def Timely (s : HookedFd) (a : HookStep) : Prop := s.timely a = true

instance (s : HookedFd) (a : HookStep) : Decidable (Timely s a) :=
  inferInstanceAs (Decidable (_ = _))

/-- Every call that may wait is owed its wake-up. -/
def AllPending (s : HookedFd) : Prop := ∀ (k : ℕ) (c : HookedCall), s.calls[k]? = some c → c.Pending

/-- It is enough to look at the call that moves. -/
theorem AllPending.setCall (hs : s.AllPending) (hk : s.calls[k]? = some c) (hc : c'.Pending) :
    (s.setCall k c').AllPending := by
  intro i d hd
  rw [HookedFd.setCall, getElem?_setCall hk] at hd
  split at hd
  · exact Option.some.inj hd ▸ hc
  · exact hs i d hd

/-- The registered call waits no longer; only the others have to be pending before. -/
theorem allPending_trigger (hs : ∀ (i : ℕ) (c : HookedCall), s.calls[i]? = some c →
    s.registered ≠ some i → c.Pending) : s.trigger.AllPending := by
  intro i d hd
  rw [HookedFd.trigger] at hd
  split at hd
  case h_1 hnone => exact hs i d hd (by rw [hnone]; exact fun h => by cases h)
  case h_2 k hregistered =>
    rw [List.getElem?_modify] at hd
    obtain ⟨d', hd', rfl⟩ := Option.map_eq_some_iff.mp hd
    split
    case isTrue => exact .of_phase .woken rfl rfl
    case isFalse hki =>
      exact hs i d' hd' (by rw [hregistered]; exact fun h => hki (Option.some.inj h))

/-- **One step**, unless it is an early callback. -/
theorem AllPending.step (hs : s.AllPending) (hinv : s.Inv) (htimely : Timely s a)
    (h : s.step a = some s') : s'.AllPending := by
  revert h
  fun_cases HookedFd.step s a <;> intro h
  all_goals try cases h
  case case2.refl kind hookEnable ctx timeout hpanicked =>
    intro i d hd
    rcases Nat.lt_or_ge i s.calls.length with hlt | hge
    · rw [List.getElem?_append_left hlt] at hd
      exact hs i d hd
    · rw [List.getElem?_append_right hge] at hd
      obtain rfl := List.mem_singleton.mp (List.mem_of_getElem? hd)
      refine ⟨fun _ hcancelled => (by cases hcancelled), fun htiming => absurd htiming ?_⟩
      show ¬ (kind.entry hookEnable ctx).timing = true
      fun_cases HookKind.entry kind hookEnable ctx <;> decide
  case case4 k m hpanicked c hk =>
    obtain ⟨c', hm, rfl⟩ := Option.map_eq_some_iff.mp h
    exact hs.setCall hk ((hs k c hk).move hm)
  case case7.refl => exact hs
  case case8.refl k hpanicked c hk hphase hnone errno =>
    exact hs.setCall hk (.of_phase (.failed errno) rfl rfl)
  case case9.refl k hpanicked c hk hphase hnone =>
    have hc := hs k c hk
    refine hs.setCall hk ⟨fun _ => hc.flag ?_, fun _ => hc.wake ?_⟩
    · rw [hphase]
      rfl
    · rw [hphase]
      rfl
  case case13.refl => exact allPending_trigger fun i c hi _ => hs i c hi
  case case15.refl k t error hpanicked c hk ht s₁ =>
    rw [Timely, timely, Bool.and_eq_true, hk] at htimely
    obtain ⟨herror, hphase⟩ := htimely
    rw [if_neg (by simpa using herror)]
    apply allPending_trigger
    intro i d hd hregistered
    rw [show s₁.calls = s.calls.set k _ from rfl, getElem?_setCall hk] at hd
    split at hd
    case isTrue hik =>
      -- the call does not wait any more
      obtain rfl := Option.some.inj hd
      subst hik
      refine .of_phase c.phase ?_ rfl
      rw [← Bool.not_eq_true]
      intro hmay
      have hwaiting : c.phase = .waiting := by simpa [hmay] using hphase
      exact hregistered ((hinv.registered i).mpr ⟨c, hk, hwaiting⟩)
    case isFalse => exact hs i d hd

/-- Every call is owed its wake-up in every run whose callbacks are timely. -/
theorem allPending_reach (h : Reach step Timely {} s) : s.AllPending := by
  refine Reach.invariant (fun k c hk => (by cases hk)) ?_ h
  exact fun s a s' hr hs htimely hstep => hs.step (inv_reach hr.any) htimely hstep

/-! ### The timeout -/

/-- A step of call `k` behind its wait, or of the callback of its timer `t`. -/
def Own (k t : ℕ) : HookStep → Prop
  | .move i .cancelTimer | .move i .check => i = k
  | .move i (.expire j) | .move i (.lock j) | .move i (.test j) | .move i (.flag j) =>
    i = k ∧ j = t
  | .cancelEvent i j error => i = k ∧ j = t ∧ error = false
  | _ => False

/-- The timer, or the flag that its callback has set, will end the call. -/
def TimingOut (k t : ℕ) (s : HookedFd) (c : HookedCall) : Prop :=
  (c.phase = .waiting ∧ s.registered = some k ∧ ∃ stage, c.timers[t]? = some stage ∧
    (stage.coming = true ∧ c.cancelled = false ∨ stage = .flagged ∧ c.cancelled = true)) ∨
  ((c.phase = .woken ∨ c.phase = .checking ∨ c.phase = .done .timedOut) ∧ c.cancelled = true)

/-- How many steps are left. -/
def stepsLeft (k t : ℕ) (s : HookedFd) : ℕ := ((s.calls[k]?).map (HookedCall.stepsLeft t)).getD 0

/-- The next state is on the way, and closer to the end. -/
def Closer (k t : ℕ) (s : HookedFd) : Prop :=
  ∃ a s', Own k t a ∧ s.step a = some s' ∧
    (s'.panicked = false ∧ ∃ c, s'.calls[k]? = some c ∧ TimingOut k t s' c) ∧
    stepsLeft k t s' < stepsLeft k t s

/-- A move of the call or of the callback of its timer brings the end closer. -/
theorem closer_move (hpanicked : s.panicked = false) (hk : s.calls[k]? = some c) {m : HookMove}
    (hown : Own k t (.move k m)) (hm : c.move m = some c')
    (hout : TimingOut k t (s.setCall k c') c') (hleft : c'.stepsLeft t < c.stepsLeft t) :
    Closer k t s := by
  have hself : (s.setCall k c').calls[k]? = some c' := by
    rw [setCall, getElem?_setCall hk, if_pos rfl]
  refine ⟨.move k m, s.setCall k c', hown, ?_, ⟨hpanicked, c', hself, hout⟩, ?_⟩
  · rw [HookedFd.step, if_neg (by rw [hpanicked]; decide), hk]
    show (c.move m).map _ = _
    rw [hm]
    rfl
  · rw [stepsLeft, stepsLeft, hself, hk]
    exact hleft

/-- The timer's next step, while the call waits. -/
theorem closer_timer (hpanicked : s.panicked = false) (hk : s.calls[k]? = some c)
    (hphase : c.phase = .waiting) (hregistered : s.registered = some k) {m : HookMove}
    (hown : Own k t (.move k m)) {old new : TimerStage} (ht : c.timers[t]? = some old)
    {cancelled : Bool} (hm : c.move m = some { c with cancelled, timers := c.timers.set t new })
    (hnew : new.coming = true ∧ cancelled = false ∨ new = .flagged ∧ cancelled = true)
    (hleft : new.left < old.left) : Closer k t s := by
  have hget : (c.timers.set t new)[t]? = some new :=
    List.getElem?_set_self (List.getElem?_eq_some_iff.mp ht).1
  apply closer_move hpanicked hk hown hm
  · exact .inl ⟨hphase, hregistered, new, hget, hnew⟩
  · simp only [HookedCall.stepsLeft, hphase, hget, ht, Option.map_some, Option.getD_some]
    omega

/-- The callback cancels the event, and the call is woken. -/
theorem closer_cancelEvent (hpanicked : s.panicked = false) (hk : s.calls[k]? = some c)
    (hphase : c.phase = .waiting) (hregistered : s.registered = some k)
    (ht : c.timers[t]? = some .flagged) (hcancelled : c.cancelled = true) : Closer k t s := by
  -- the step leaves the timer finished and the call woken
  let c' : HookedCall := { c with phase := .woken, timers := c.timers.set t .finished }
  let s' : HookedFd := (s.setCall k { c with timers := c.timers.set t .finished }).trigger
  have hstep : s.step (.cancelEvent k t false) = some s' := by
    rw [HookedFd.step, if_neg (by rw [hpanicked]; decide), hk]
    simp only [ht, Bool.false_eq_true, if_false]
    rfl
  have hs' : s' = { s with
      calls := (s.calls.set k { c with timers := c.timers.set t .finished }).modify k
        fun c => { c with phase := .woken }
      registered := none } := by
    show HookedFd.trigger _ = _
    rw [HookedFd.trigger]
    simp only [setCall, hregistered]
  have hself : s'.calls[k]? = some c' := by
    rw [hs']
    show (List.modify _ _ _)[k]? = _
    rw [List.getElem?_modify, getElem?_setCall hk, if_pos rfl]
    show some (if k = k then _ else _) = _
    rw [if_pos rfl]
  refine ⟨.cancelEvent k t false, s', ⟨rfl, rfl, rfl⟩, hstep, ⟨?_, c', hself, ?_⟩, ?_⟩
  · rw [hs']
    exact hpanicked
  · exact .inr ⟨.inl rfl, hcancelled⟩
  -- two steps are left, `cancelTimer` and `check`
  · rw [stepsLeft, stepsLeft, hself, hk]
    simp only [Option.map_some, Option.getD_some, HookedCall.stepsLeft, hphase, ht]
    show 2 < 2 + 2
    decide

/-- A step lies ahead until the call has returned. -/
theorem TimingOut.closer (hpanicked : s.panicked = false) (hk : s.calls[k]? = some c)
    (h : TimingOut k t s c) : c.phase = .done .timedOut ∨ Closer k t s := by
  rcases h with ⟨hphase, hregistered, stage, ht, hstage⟩ | ⟨hphase, hcancelled⟩
  · right
    -- the timer has the steps up to the flag before it, then `cancelEvent`
    rcases hstage with ⟨hcoming, hcancelled⟩ | ⟨rfl, hcancelled⟩
    · have halive : c.alive = true := by
        rw [HookedCall.alive, hphase]
        rfl
      cases stage with
      | armed =>
        have hm : c.move (.expire t) = some { c with timers := c.timers.set t .expired } := by
          rw [HookedCall.move, ht]
        exact closer_timer hpanicked hk hphase hregistered (m := .expire t) ⟨rfl, rfl⟩ ht hm
          (.inl ⟨rfl, hcancelled⟩) (by decide)
      | expired =>
        have hm : c.move (.lock t) = some { c with timers := c.timers.set t .locked } := by
          rw [HookedCall.move, ht]
          simp only [halive, if_true]
        exact closer_timer hpanicked hk hphase hregistered (m := .lock t) ⟨rfl, rfl⟩ ht hm
          (.inl ⟨rfl, hcancelled⟩) (by decide)
      | locked =>
        have hm : c.move (.test t) = some { c with timers := c.timers.set t .tested } := by
          rw [HookedCall.move, ht]
          simp only [hcancelled, Bool.false_eq_true, if_false]
        exact closer_timer hpanicked hk hphase hregistered (m := .test t) ⟨rfl, rfl⟩ ht hm
          (.inl ⟨rfl, hcancelled⟩) (by decide)
      | tested =>
        have hm : c.move (.flag t) =
            some { c with cancelled := true, timers := c.timers.set t .flagged } := by
          rw [HookedCall.move, ht]
        exact closer_timer hpanicked hk hphase hregistered (m := .flag t) ⟨rfl, rfl⟩ ht hm
          (.inr ⟨rfl, rfl⟩) (by decide)
      | _ => cases hcoming
    · exact closer_cancelEvent hpanicked hk hphase hregistered ht hcancelled
  · rcases hphase with hphase | hphase | hphase
    · right
      have hm : c.move .cancelTimer = some { c with
          phase := .checking
          timers := c.timers.modify (c.timers.length - 1) TimerStage.cancel } := by
        rw [HookedCall.move, hphase]
      refine closer_move hpanicked hk (m := .cancelTimer) rfl hm
        (.inr ⟨.inr (.inl rfl), hcancelled⟩) ?_
      simp only [HookedCall.stepsLeft, hphase]
      decide
    · right
      have hm : c.move .check = some { c with phase := .done .timedOut } := by
        rw [HookedCall.move, hphase]
        simp only [hcancelled, if_true]
      refine closer_move hpanicked hk (m := .check) rfl hm (.inr ⟨.inr (.inr rfl), hcancelled⟩) ?_
      simp only [HookedCall.stepsLeft, hphase]
      decide
    · exact .inl hphase

/-- **A timeout is not lost.**  If no callback has come too early, a call that waits with a timeout
    returns `ETIMEDOUT` by steps of its own and of one of its timers, if nothing else happens. -/
theorem times_out (h : Reach step Timely {} s) (hpanicked : s.panicked = false)
    (hk : s.calls[k]? = some c) (hphase : c.phase = .waiting) (htimed : c.timed = true) :
    ∃ t s' c', Reach step (fun _ => Own k t) s s' ∧ s'.calls[k]? = some c' ∧
      c'.phase = .done .timedOut := by
  have hpending := allPending_reach h k c hk
  have hregistered := ((inv_reach h.any).registered k).mpr ⟨c, hk, hphase⟩
  -- the timer that ends the call
  obtain ⟨t, hout⟩ : ∃ t, TimingOut k t s c := by
    by_cases hcancelled : c.cancelled = true
    · obtain ⟨t, ht⟩ := List.mem_iff_getElem?.mp (hpending.flag (by rw [hphase]; rfl) hcancelled)
      exact ⟨t, .inl ⟨hphase, hregistered, _, ht, .inr ⟨rfl, hcancelled⟩⟩⟩
    · rw [Bool.not_eq_true] at hcancelled
      obtain ⟨stage, hmem, hcoming⟩ := hpending.wake (by rw [hphase]; rfl) htimed hcancelled
      obtain ⟨t, ht⟩ := List.mem_iff_getElem?.mp hmem
      exact ⟨t, .inl ⟨hphase, hregistered, stage, ht, .inl ⟨hcoming, hcancelled⟩⟩⟩
  obtain ⟨s', hr, -, c', hk', hdone⟩ := Reach.exists_of_measure
    (P := fun s => s.panicked = false ∧ ∃ c, s.calls[k]? = some c ∧ TimingOut k t s c)
    (Q := fun s => ∃ c, s.calls[k]? = some c ∧ c.phase = .done .timedOut) (stepsLeft k t)
    (fun s hs => by
      obtain ⟨hpanicked, c, hk, hout⟩ := hs
      exact (hout.closer hpanicked hk).imp (fun hdone => ⟨c, hk, hdone⟩) id)
    (s := s) ⟨hpanicked, c, hk, hout⟩
  exact ⟨t, s', c', hr, hk', hdone⟩

/-- `recv` waits with a timeout. -/
theorem times_out_recv : ∃ (s s' : HookedFd) (t : ℕ) (c' : HookedCall),
    Reach HookedFd.step Timely {} s ∧ Reach HookedFd.step (fun _ => Own 0 t) s s' ∧
    s'.calls[0]? = some c' ∧ c'.phase = .done .timedOut := by
  have hrun : (runFrom HookedFd.step Timely {} [.enter .io true (some socketCtx) (some 100),
      .move 0 (.attempt (.error eagain)), .move 0 .addConditionTimer, .addEvent 0 none]).map
      (fun s => (s.panicked, s.calls[0]?)) = some (false, some
        { kind := .io, managed := true, timed := true, phase := .waiting, timers := [.armed],
          outcomes := [.error eagain] }) := by
    decide
  obtain ⟨s, hs, hstate⟩ := Reach.exists_of_runFrom hrun
  obtain ⟨hpanicked, hk⟩ := Prod.mk.inj hstate
  obtain ⟨t, s', c', hr, hk', hdone⟩ := times_out hs hpanicked hk rfl rfl
  exact ⟨s, s', t, c', hs, hr, hk', hdone⟩

/-- The timer of `recv` expires between `addConditionTimer` and `addEvent`: the call waits, and no
    timer is left. -/
theorem timeout_lost : ∃ (s : HookedFd) (c : HookedCall), Reach HookedFd.step anyStep {} s ∧
    s.calls[0]? = some c ∧ c.phase = .waiting ∧ c.timed = true ∧
    ∀ stage ∈ c.timers, stage = .finished := by
  have hrun : (runFrom HookedFd.step anyStep {} [.enter .io true (some socketCtx) (some 0),
      .move 0 (.attempt (.error eagain)), .move 0 .addConditionTimer, .move 0 (.expire 0),
      .move 0 (.lock 0), .move 0 (.test 0), .move 0 (.flag 0), .cancelEvent 0 0 false,
      .addEvent 0 none]).map (fun s => s.calls[0]?) = some (some
        { kind := .io, managed := true, timed := true, phase := .waiting, cancelled := true,
          timers := [.finished], outcomes := [.error eagain] }) := by
    decide
  obtain ⟨s, hs, hk⟩ := Reach.exists_of_runFrom hrun
  exact ⟨s, _, hs, hk, rfl, rfl, by simp⟩

end HookedFd

end RaftStore
