import RaftStore.Lib.Tallies
import RaftStore.Model.Shutdown

namespace RaftStore

/-!
# Nothing is left behind

When the threads of a pool have ended, what was submitted has run.  The three reads of `stopping`
are not one, so this has to be carried by the threads that will still read: as long as a timer is
armed, some thread has all three reads before it, as long as an event is pending two, as long as a
task waits one.

* `PoolThread.reads` — the reads that a thread has before it.
* `PoolShared.move_owes` — what a move makes it owe, its thread owes.
* `ThreadPool.stop_orderly` — **shutdown**: of every run in which nothing is submitted from outside
  behind `stop`, if there is one thread or no thread takes a task behind the end of its idle fiber.
* `ThreadPool.timer_left_behind`, `ThreadPool.task_left_behind` — with two threads and a late task a
  timer is left, and a task that is submitted too late waits for ever.
-/

namespace PoolThread

/-- The reads of `stopping` between here and the end of the thread. -/
def reads : PoolThread → ℕ
  | .scheduling false | .running false | .readTimers | .waiting | .expired _ | .triggered => 3
  | .readPending => 2
  | .readTasks => 1
  | .scheduling true | .running true | .ended => 0

/-- The thread counts as active. -/
def active : PoolThread → ℕ
  | .running _ => 1
  | _ => 0

/-- The thread has triggered an event that still counts as pending. -/
def unsettled : PoolThread → ℕ
  | .triggered => 1
  | _ => 0

end PoolThread

namespace PoolShared

variable {g g' : PoolShared} {t : ℕ} {w w' : PoolThread} {a : PoolMove}

/-- The moves behind which a thread has not all its reads before it: one of the three reads has
    found nothing, or the idle fiber has ended. -/
inductive Lowers (g : PoolShared) : PoolShared → PoolThread → PoolThread → Prop
  | readTimers (hnone : g.timers = 0) : Lowers g g .readTimers .readPending
  | readPending (hnone : g.pendingEventCnt = 0) : Lowers g g .readPending .readTasks
  | readTasks (hstop : g.isStopped = true) (hnone : g.tasks = []) (hactive : g.activeThreadCnt = 0) :
      Lowers g g .readTasks (.scheduling true)
  | late {thread : Option ℕ} (htask : g.tasks.find? (eligible t) = some thread) :
      Lowers g { g with
        tasks := g.tasks.eraseP (eligible t)
        activeThreadCnt := g.activeThreadCnt + 1 } (.scheduling true) (.running true)
  | ended : Lowers g g (.scheduling true) .ended

/-- **Inversion.**  A move lowers the reads of its thread, or leaves it all of them. -/
theorem move_cases (h : g.move t w a = some (g', w')) (hlate : w ≠ .running true) :
    w'.reads = 3 ∨ Lowers (t := t) g g' w w' := by
  have hrunning : ∀ {idleTerm}, w = .running idleTerm → (PoolThread.running idleTerm).reads = 3 := by
    rintro (_ | _) rfl
    · rfl
    · exact absurd rfl hlate
  revert h
  fun_cases move g t w a <;> intro h
  all_goals try cases h
  all_goals try exact Or.inl rfl
  all_goals try exact Or.inl (hrunning rfl)
  -- the idle fiber has ended: the thread takes a task late, or ends
  case case1.refl idleTerm _ htask =>
    cases idleTerm with
    | false => exact Or.inl rfl
    | true => exact Or.inr (.late htask)
  case case2.refl idleTerm _ =>
    cases idleTerm with
    | false => exact Or.inl rfl
    | true => exact Or.inr .ended
  case case11.refl idleTerm =>
    cases idleTerm with
    | false => exact Or.inl rfl
    | true => exact absurd rfl hlate
  -- `stopping` reads the timers, the pending events and the tasks, in this order
  case case12.refl =>
    split
    · rename_i hnone
      exact Or.inr (.readTimers hnone)
    · exact Or.inl rfl
  case case13.refl =>
    split
    · rename_i hnone
      exact Or.inr (.readPending hnone)
    · exact Or.inl rfl
  case case14.refl =>
    split
    · rename_i hnone
      exact Or.inr (.readTasks hnone.1 (List.isEmpty_iff.mp hnone.2.1) hnone.2.2)
    · exact Or.inl rfl

/-- Who gives up a read has found nothing there. -/
theorem Lowers.owes (h : Lowers (t := t) g g' w w') :
    (0 < g'.timers → 0 < g.timers ∧ (3 ≤ w.reads → 3 ≤ w'.reads)) ∧
      (0 < g'.pendingEventCnt → 0 < g.pendingEventCnt ∧ (2 ≤ w.reads → 2 ≤ w'.reads)) ∧
      (g'.tasks ≠ [] → g.tasks ≠ [] ∧ (1 ≤ w.reads → 1 ≤ w'.reads)) := by
  cases h with
  | readTimers hnone => simp [PoolThread.reads, hnone]
  | readPending hnone => simp [PoolThread.reads, hnone]
  | readTasks hstop hnone hactive => simp [PoolThread.reads, hnone]
  | late htask =>
    refine ⟨fun h => ⟨h, fun h => h⟩, fun h => ⟨h, fun h => h⟩, fun h => ⟨?_, fun h => h⟩⟩
    rintro heq
    exact h (by rw [heq]; rfl)
  | ended => simp [PoolThread.reads]

/-- What threads count is what is counted. -/
theorem move_counts (h : g.move t w a = some (g', w')) (hactive : w.active ≤ g.activeThreadCnt)
    (hpending : g.events + w.unsettled ≤ g.pendingEventCnt) :
    g'.isStopped = g.isStopped ∧
      g'.activeThreadCnt + w.active = g.activeThreadCnt + w'.active ∧
      g'.pendingEventCnt + g.events + w.unsettled =
        g.pendingEventCnt + g'.events + w'.unsettled := by
  revert h
  fun_cases move g t w a <;> intro h
  all_goals try cases h
  all_goals try split
  all_goals
    refine ⟨rfl, ?_, ?_⟩ <;>
      simp only [PoolThread.active, PoolThread.unsettled, schedule] at hactive hpending ⊢ <;> omega

end PoolShared

/-! ### The pool -/

namespace ThreadPool

variable {s s' : ThreadPool} {t n : ℕ} {w w' : PoolThread}

/-- Someone has at least `k` reads before it. -/
def Reads (s : ThreadPool) (k : ℕ) : Prop := ∃ w ∈ s.threads, k ≤ w.reads

/-- **The invariant.** -/
structure Orderly (s : ThreadPool) : Prop where
  timers : 0 < s.shared.timers → s.Reads 3
  pending : 0 < s.shared.pendingEventCnt → s.Reads 2
  tasks : s.shared.tasks ≠ [] → s.Reads 1
  /-- no thread ends before `stop` -/
  stopped : s.shared.isStopped = false → ∀ w ∈ s.threads, 1 ≤ w.reads
  /-- no task runs behind the end of an idle fiber -/
  late : ∀ w ∈ s.threads, w ≠ .running true
  active : s.shared.activeThreadCnt = tally PoolThread.active s.threads
  unsettled : s.shared.pendingEventCnt =
    s.shared.events + tally PoolThread.unsettled s.threads
  threads : s.threads ≠ []

/-- A thread takes a task only before its idle fiber has ended. -/
def InTime (s : ThreadPool) (action : PoolAction) : Prop :=
  ∀ t a, action = .move t a → s.threads[t]? = some (.scheduling true) →
    s.shared.tasks.find? (PoolShared.eligible t) = none

/-- Code outside submits nothing behind `stop`. -/
def SubmitsBefore (s : ThreadPool) : PoolAction → Prop
  | .submit _ => s.shared.isStopped = false
  | _ => True

instance (s : ThreadPool) (a : PoolAction) : Decidable (SubmitsBefore s a) :=
  match a with
  | .submit _ => inferInstanceAs (Decidable (s.shared.isStopped = false))
  | .stop | .move _ _ => inferInstanceAs (Decidable True)

/-- The pool is in order at the start. -/
theorem orderly_start (hn : 0 < n) : (start n).Orderly where
  timers h := absurd h (Nat.lt_irrefl 0)
  pending h := absurd h (Nat.lt_irrefl 0)
  tasks h := absurd rfl h
  stopped _ w hw := by
    rw [List.eq_of_mem_replicate hw]
    decide
  late w hw := by
    rw [List.eq_of_mem_replicate hw]
    decide
  active := by
    have hnone : PoolThread.active (.scheduling false) = 0 := rfl
    exact (tally_replicate hnone n).symm
  unsettled := by
    have hnone : PoolThread.unsettled (.scheduling false) = 0 := rfl
    exact ((Nat.zero_add _).trans (tally_replicate hnone n)).symm
  threads h := by
    have hlen := congrArg List.length h
    rw [start, List.length_replicate] at hlen
    exact absurd hlen (Nat.ne_of_gt hn)

/-- A thread that moves on still reads. -/
theorem Reads.set {k : ℕ} {g : PoolShared} (h : s.Reads k) (ht : s.threads[t]? = some w)
    (hw : k ≤ w.reads → k ≤ w'.reads) : Reads ⟨g, s.threads.set t w'⟩ k := by
  obtain ⟨v, hv, hk⟩ := h
  obtain ⟨i, hi⟩ := List.getElem?_of_mem hv
  by_cases hit : i = t
  · subst hit
    obtain rfl : v = w := Option.some.inj (hi.symm.trans ht)
    exact ⟨w', List.mem_of_getElem? (List.getElem?_set_self (List.getElem?_eq_some_iff.mp ht).1),
      hw hk⟩
  · refine ⟨v, List.mem_of_getElem? (i := i) ?_, hk⟩
    rw [List.getElem?_set_ne (Ne.symm hit), hi]

/-- A thread that reads now reads. -/
theorem reads_of_set {k : ℕ} {g : PoolShared} (ht : s.threads[t]? = some w) (hw : k ≤ w'.reads) :
    Reads ⟨g, s.threads.set t w'⟩ k :=
  ⟨w', List.mem_of_getElem? (List.getElem?_set_self (List.getElem?_eq_some_iff.mp ht).1), hw⟩

/-- **Step lemma** for the moves of threads. -/
theorem Orderly.move {g : PoolShared} {a : PoolMove} (hs : s.Orderly)
    (ht : s.threads[t]? = some w) (hmove : s.shared.move t w a = some (g, w'))
    (hin : InTime s (.move t a)) : Orderly ⟨g, s.threads.set t w'⟩ := by
  have hmem := List.mem_of_getElem? ht
  have hactive := tally_eraseIdx (g := PoolThread.active) ht
  have hunsettled := tally_eraseIdx (g := PoolThread.unsettled) ht
  rw [← hs.active] at hactive
  have hpending := hs.unsettled
  obtain ⟨hstop, hcount, hevents⟩ :=
    PoolShared.move_counts hmove (by omega) (by rw [hpending, hunsettled]; omega)
  have hcases := PoolShared.move_cases hmove (hs.late w hmem)
  refine ⟨?_, ?_, ?_, ?_, ?_, ?_, ?_, ?_⟩
  -- the three counters of work: where one is positive, some thread still has its test to do
  · intro hpos
    rcases hcases with hall | hlow
    · exact reads_of_set ht (by omega)
    · exact (hs.timers (hlow.owes.1 hpos).1).set ht (hlow.owes.1 hpos).2
  · intro hpos
    rcases hcases with hall | hlow
    · exact reads_of_set ht (by omega)
    · exact (hs.pending (hlow.owes.2.1 hpos).1).set ht (hlow.owes.2.1 hpos).2
  · intro hne
    rcases hcases with hall | hlow
    · exact reads_of_set ht (by omega)
    · exact (hs.tasks (hlow.owes.2.2 hne).1).set ht (hlow.owes.2.2 hne).2
  -- before `stop` no thread is past the test of `isStopped_`
  · intro hrun v hv
    have hbefore := hs.stopped (hstop.symm.trans hrun)
    rcases List.mem_or_eq_of_mem_set hv with hv | rfl
    · exact hbefore v hv
    · have hw := hbefore w hmem
      rcases hcases with hall | hlow
      · omega
      · cases hlow with
        | readTimers => decide
        | readPending => decide
        | readTasks hstopped =>
          rw [hrun] at hstopped
          cases hstopped
        | late => exact hw
        | ended => exact hw
  -- no thread takes a task after its idle fiber has ended: that move is not in time
  · intro v hv
    rcases List.mem_or_eq_of_mem_set hv with hv | rfl
    · exact hs.late v hv
    · rintro rfl
      rcases hcases with hall | hlow
      · cases hall
      · cases hlow with
        | late htask =>
          rw [hin t a rfl ht] at htask
          cases htask
  -- each counter is a sum over the threads, of which one has moved
  · show g.activeThreadCnt = tally PoolThread.active (s.threads.set t w')
    rw [tally_set ht]
    omega
  · show g.pendingEventCnt = g.events + tally PoolThread.unsettled (s.threads.set t w')
    rw [tally_set ht]
    omega
  · intro hnil
    have hlen := congrArg List.length hnil
    rw [List.length_set, List.length_nil, List.length_eq_zero_iff] at hlen
    exact hs.threads hlen

/-- Code outside only submits tasks, and before `stop`, when every thread still reads. -/
theorem Orderly.submit (hs : s.Orderly) (hrun : s.shared.isStopped = false)
    (thread : Option ℕ) : Orderly { s with shared := s.shared.schedule thread } where
  timers := hs.timers
  pending := hs.pending
  tasks _ := by
    obtain ⟨w, hw⟩ := List.exists_mem_of_ne_nil _ hs.threads
    exact ⟨w, hw, hs.stopped hrun w hw⟩
  stopped := hs.stopped
  late := hs.late
  active := hs.active
  unsettled := hs.unsettled
  threads := hs.threads

/-- **Step lemma.** -/
theorem Orderly.step {a : PoolAction} (hs : s.Orderly) (hin : InTime s a)
    (hbefore : SubmitsBefore s a) (h : s.step a = some s') : s'.Orderly := by
  cases a with
  | submit thread =>
    obtain rfl := Option.some.inj h
    exact hs.submit hbefore thread
  | stop =>
    obtain rfl := Option.some.inj h
    refine ⟨hs.timers, hs.pending, hs.tasks, fun hrun => ?_, hs.late, hs.active, hs.unsettled,
      hs.threads⟩
    cases hrun
  | move t a =>
    obtain ⟨w, ht, h⟩ := Option.bind_eq_some_iff.mp h
    obtain ⟨⟨g, w'⟩, hmove, h⟩ := Option.bind_eq_some_iff.mp h
    obtain rfl := Option.some.inj h
    exact hs.move ht hmove hin

/-- A thread that is alone finds no task behind the end of its idle fiber. -/
theorem Orderly.inTime (hs : s.Orderly) (hone : s.threads.length = 1) (a : PoolAction) :
    InTime s a := by
  rintro t _ _ ht
  obtain ⟨w, hw⟩ := List.length_eq_one_iff.mp hone
  have hnone : s.shared.tasks = [] := by
    by_contra hne
    obtain ⟨v, hv, hreads⟩ := hs.tasks hne
    have hmem := List.mem_of_getElem? ht
    rw [hw] at hv hmem
    rw [List.mem_singleton.mp hv, ← List.mem_singleton.mp hmem] at hreads
    cases hreads
  rw [hnone, List.find?_nil]

/-- **Run lemma.** -/
theorem orderly_of_reach (hn : 0 < n)
    (h : Reach step (fun s a => (s.threads.length = 1 ∨ InTime s a) ∧ SubmitsBefore s a)
      (start n) s) : s.Orderly :=
  h.invariant (orderly_start hn) fun _ a _ _ hs hok hstep =>
    hs.step (hok.1.elim (fun hone => hs.inTime hone a) id) hok.2 hstep

/-- **Shutdown.**  When all threads have ended no task waits or runs, no timer is armed, and no event
    is registered or pending.  Each step is one of a pool of one thread, or lets no thread take a
    task behind the end of its idle fiber; and none is a submission from outside behind `stop`. -/
theorem stop_orderly (hn : 0 < n)
    (h : Reach step (fun s a => (s.threads.length = 1 ∨ InTime s a) ∧ SubmitsBefore s a)
      (start n) s)
    (hended : ∀ w ∈ s.threads, w = .ended) :
    s.shared.isStopped = true ∧ s.shared.tasks = [] ∧ s.shared.activeThreadCnt = 0 ∧
      s.shared.timers = 0 ∧ s.shared.events = 0 ∧ s.shared.pendingEventCnt = 0 := by
  have hs := orderly_of_reach hn h
  have hnone : ∀ k, 0 < k → ¬ s.Reads k := by
    rintro k hk ⟨w, hw, hreads⟩
    rw [hended w hw] at hreads
    exact absurd hk (Nat.not_lt_of_le hreads)
  have hzero : ∀ g : PoolThread → ℕ, g .ended = 0 → tally g s.threads = 0 := by
    intro g hg
    rw [List.eq_replicate_of_mem hended, tally_replicate hg]
  have hpending : s.shared.pendingEventCnt = 0 :=
    Nat.eq_zero_of_not_pos fun hpos => hnone 2 (by omega) (hs.pending hpos)
  refine ⟨?_, ?_, ?_, ?_, ?_, hpending⟩
  · -- some thread has ended, so `stop` has been called
    obtain ⟨w, hw⟩ := List.exists_mem_of_ne_nil _ hs.threads
    by_contra hrun
    have hreads := hs.stopped ((Bool.not_eq_true _).mp hrun) w hw
    rw [hended w hw] at hreads
    cases hreads
  · by_contra hne
    exact hnone 1 (by omega) (hs.tasks hne)
  · rw [hs.active, hzero _ rfl]
  · exact Nat.eq_zero_of_not_pos fun hpos => hnone 3 (by omega) (hs.timers hpos)
  · have hunsettled := hs.unsettled
    omega

/-- A task arms a timer, `stop` is called, and the timer expires. -/
def timerRun : List PoolAction :=
  [.submit none, .move 0 .dequeue, .move 0 .addTimer, .stop, .move 0 .finish, .move 0 .dequeue,
    .move 0 .read, .move 0 (.listExpiredCb 1 0), .move 0 .enqueue, .move 0 .idleYield,
    .move 0 .dequeue, .move 0 .finish, .move 0 .dequeue, .move 0 .read, .move 0 .read,
    .move 0 .read, .move 0 .dequeue]

/-- The thread ends behind the callback. -/
theorem stop_orderly_timer : ∃ s : ThreadPool, s.threads = [.ended] ∧
    s.shared.isStopped = true ∧ s.shared.tasks = [] ∧ s.shared.activeThreadCnt = 0 ∧
      s.shared.timers = 0 ∧ s.shared.events = 0 ∧ s.shared.pendingEventCnt = 0 := by
  have hrun : (runFrom step (fun s a => s.threads.length = 1 ∧ SubmitsBefore s a) (start 1)
      timerRun).map ThreadPool.threads = some [.ended] := by
    decide
  obtain ⟨s, hs, hended⟩ := Reach.exists_of_runFrom hrun
  refine ⟨s, hended, stop_orderly (n := 1) (by omega)
    (hs.mono fun _ _ hok => ⟨Or.inl hok.1, hok.2⟩) ?_⟩
  rw [hended]
  exact fun w hw => List.mem_singleton.mp hw

/-- Thread 1 reads while the callback of an expired timer is in the hands of thread 0, and runs it
    behind the end of its idle fiber; meanwhile thread 0 reads. -/
def lateRun : List PoolAction :=
  [.submit none, .move 0 .dequeue, .move 0 .addTimer, .move 0 .finish, .stop, .move 0 .dequeue,
    .move 0 .read, .move 0 (.listExpiredCb 1 0), .move 1 .dequeue, .move 1 .read, .move 1 .read,
    .move 1 .read, .move 0 .enqueue, .move 0 .idleYield, .move 1 .dequeue, .move 0 .dequeue,
    .move 0 .read, .move 1 .addTimer, .move 1 .finish, .move 0 .read, .move 0 .read,
    .move 0 .dequeue, .move 1 .dequeue]

/-- **The first condition is needed**: both threads have ended, and a timer is armed. -/
theorem timer_left_behind : ∃ s : ThreadPool, Reach step SubmitsBefore (start 2) s ∧
    s.threads = [.ended, .ended] ∧ s.shared.timers = 1 := by
  have hrun : (runFrom step SubmitsBefore (start 2) lateRun).map
      (fun s => (s.threads, s.shared.timers)) = some ([.ended, .ended], 1) := by
    decide
  obtain ⟨s, hs, heq⟩ := Reach.exists_of_runFrom hrun
  exact ⟨s, hs, (Prod.mk.inj heq).1, (Prod.mk.inj heq).2⟩

/-- **So is the second**: a task is submitted when the only thread has ended. -/
theorem task_left_behind : ∃ s : ThreadPool,
    Reach step (fun s _ => s.threads.length = 1) (start 1) s ∧
    s.threads = [.ended] ∧ s.shared.tasks = [none] := by
  have hrun : (runFrom step (fun s _ => s.threads.length = 1) (start 1)
      [.stop, .move 0 .dequeue, .move 0 .read, .move 0 .read, .move 0 .read, .move 0 .dequeue,
        .submit none]).map (fun s => (s.threads, s.shared.tasks)) = some ([.ended], [none]) := by
    decide
  obtain ⟨s, hs, heq⟩ := Reach.exists_of_runFrom hrun
  exact ⟨s, hs, (Prod.mk.inj heq).1, (Prod.mk.inj heq).2⟩

end ThreadPool

end RaftStore
