import RaftStore.Fiber.Wakeups

namespace RaftStore

/-!
# No wake-up is lost

`Wakeups` bounds how often a fiber is named.  Here the count is exact: it is 1 for every fiber that
has not ended, in every state of every run, also in one whose last step panics.  So a fiber that
waits in the hook of `sleep` or in `do_io` always has its timer, its event, its task or the thread
that is about to schedule it, and never two of them.

* `Scheduler.mentions` — how often a fiber is named by what the threads share, held, or run before
  it has armed anything.
* `Scheduler.Kept.step` — every step moves this count from one place to another.
* `SchedulerRun.never_lost` — the count is 1 until the fiber ends, and `resume` never panics.
-/

/-- What the count has to be for a fiber in this state. -/
def FiberState.due : Option FiberState → ℕ
  | some .ready | some .running => 1
  | _ => 0

namespace Worker

/-- How often the thread names the fiber, has taken it, or runs it without having armed anything. -/
def mentions (f : ℕ) (w : Worker) : ℕ := w.carries f + w.holds f + w.runs f

/-- A thread that has nothing names nothing. -/
@[simp] theorem mentions_scheduling (f : ℕ) : Worker.scheduling.mentions f = 0 := rfl

/-- A thread names what it has taken. -/
@[simp] theorem mentions_taken (f : ℕ) (work : Work) :
    (Worker.taken work).mentions f = work.names f := by
  cases work <;> simp [mentions, carries, holds, runs, Work.names]

/-- A thread names the fiber that it runs. -/
@[simp] theorem mentions_running (f g : ℕ) :
    (Worker.running g).mentions f = (Work.fiber g).names f := by
  simp [mentions, carries, holds, runs, Work.names]

/-- A fiber that has armed something is named by that. -/
@[simp] theorem mentions_armed (f g : ℕ) : (Worker.armed g).mentions f = 0 := rfl

/-- A thread names what the callback names. -/
@[simp] theorem mentions_calling (f : ℕ) (cb : Callback) :
    (Worker.calling cb).mentions f = (Work.cb cb).names f := rfl

/-- The idle fiber names what it is about to schedule. -/
@[simp] theorem mentions_idle (f : ℕ) (pending : List Work) :
    (Worker.idle pending).mentions f = tally (Work.names f) pending := rfl

end Worker

namespace Scheduler

variable {s s' : Scheduler} {t : ℕ} {w w' : Worker}

/-- How often the fiber is named, held, or run before it has armed anything. -/
def mentions (s : Scheduler) (f : ℕ) : ℕ := s.loose f + tally (Worker.mentions f) s.threads

/-- Every fiber that has not ended is mentioned once, and no other number is. -/
def Kept (s : Scheduler) : Prop := ∀ f, s.mentions f = FiberState.due s.fibers[f]?

/-! ### Steps -/

/-- A step of one thread: what it adds to the count is what the fiber's state asks for. -/
theorem Kept.move (h : s.Kept) (ht : s.threads[t]? = some w)
    (hthreads : s'.threads = s.threads.set t w')
    (hmove : ∀ f, s'.loose f + w'.mentions f + FiberState.due s.fibers[f]? =
      s.loose f + w.mentions f + FiberState.due s'.fibers[f]?) : s'.Kept := by
  intro f
  have hf := h f
  have hone := hmove f
  rw [mentions, tally_eraseIdx (g := Worker.mentions f) ht] at hf
  rw [mentions, hthreads, tally_set ht]
  omega

/-- A step of one thread that passes on what it has. -/
theorem Kept.transfer (h : s.Kept) (ht : s.threads[t]? = some w)
    (hthreads : s'.threads = s.threads.set t w') (hfibers : s'.fibers = s.fibers)
    (hnames : ∀ f, s'.loose f + w'.mentions f = s.loose f + w.mentions f) : s'.Kept := by
  refine h.move ht hthreads fun f => ?_
  rw [hfibers, hnames]

/-- A step that changes no thread, no fiber, and not how often one is named. -/
theorem Kept.same (h : s.Kept) (hthreads : s'.threads = s.threads) (hfibers : s'.fibers = s.fibers)
    (hloose : ∀ f, s'.loose f = s.loose f) : s'.Kept := by
  intro f
  rw [mentions, hthreads, hfibers, hloose]
  exact h f

/-- A fiber in one live state is set to another. -/
theorem due_setState {g : ℕ} {state : FiberState} (hstate : state ≠ .term)
    (hlive : g < s.fibers.length → s.fibers[g]? ≠ some .term) (f : ℕ) :
    FiberState.due (s.setState g state).fibers[f]? = FiberState.due s.fibers[f]? := by
  rw [getElem?_setState]
  split
  case isTrue hand =>
    obtain ⟨rfl, hlt⟩ := hand
    have hlive := hlive hlt
    rw [List.getElem?_eq_getElem hlt] at hlive ⊢
    cases state <;> cases hold : s.fibers[f] <;> simp_all [FiberState.due]
  case isFalse => rfl

/-- A fiber is created, and named once. -/
theorem due_create (state : FiberState) (hstate : state ≠ .term) (f : ℕ) :
    FiberState.due (s.fibers ++ [state])[f]? =
      FiberState.due s.fibers[f]? + (Work.fiber s.fibers.length).names f := by
  rw [getElem?_create]
  by_cases hnew : s.fibers.length = f
  · subst hnew
    rw [if_pos rfl, List.getElem?_eq_none (Nat.le_refl _)]
    cases state <;> simp_all [FiberState.due, Work.names]
  · rw [if_neg hnew]
    simp [Work.names, hnew]

/-- A task is taken by a thread that has none. -/
theorem Kept.dequeue (h : s.Kept) (ht : s.threads[t]? = some .scheduling)
    (hs' : s.dequeue t = .ok s') : s'.Kept := by
  rw [Scheduler.dequeue] at hs'
  split at hs'
  case h_1 =>
    obtain rfl := Except.ok.inj hs'
    exact h.transfer ht rfl rfl fun f => by simp
  case h_2 task hfind =>
    have hkept : Scheduler.Kept
        { s.setThread t (.taken task.work) with tasks := s.tasks.eraseP (eligible t) } := by
      refine h.transfer ht rfl rfl fun f => ?_
      rw [Worker.mentions_taken, Worker.mentions_scheduling, Nat.add_zero]
      exact loose_eraseTask hfind _ f
    split at hs'
    case h_1 =>
      split at hs'
      case isTrue => exact Except.ok.inj hs' ▸ hkept
      case isFalse => cases hs'
    case h_2 => exact Except.ok.inj hs' ▸ hkept

/-- A fiber that is held runs, or a new one. -/
theorem Kept.resume {work : Work} (h : s.Kept) (ht : s.threads[t]? = some (.taken work))
    (hs' : s.resume t work = .ok s') : s'.Kept := by
  cases work with
  | fiber g =>
    rw [Scheduler.resume] at hs'
    split at hs'
    case isTrue hlive =>
      obtain rfl := Except.ok.inj hs'
      -- the hold on the fiber becomes a running fiber
      refine h.move ht rfl fun f => ?_
      show s.loose f + _ + _ = _ + _ + FiberState.due (s.setState g .running).fibers[f]?
      rw [due_setState (by simp) fun _ => hlive.1]
      simp
    case isFalse => cases hs'
  | cb cb =>
    cases cb with
    | code =>
      obtain rfl := Except.ok.inj hs'
      -- a callback gets a new fiber, which no queue or context names
      refine h.move ht rfl fun f => ?_
      show s.loose f + _ + _ = _ + _ + FiberState.due (s.fibers ++ [FiberState.running])[f]?
      rw [due_create _ (by simp)]
      simp [Work.names]
      omega
    | wake | timeout =>
      -- the known callbacks do not yield, so the thread keeps the fiber that they name
      obtain rfl := Except.ok.inj hs'
      exact h.transfer ht rfl rfl fun f => by simp

/-- The fiber yields: it was live, since the thread ran it. -/
theorem Kept.yield {g : ℕ} (h : s.Kept) (hinv : s.Inv) (ht : s.threads[t]? = some (.armed g)) :
    ((s.setState g .ready).setThread t .scheduling).Kept := by
  have hrunning : s.fibers[g]? = some .running := by
    refine (hinv g).running ?_
    have hle := le_tally (g := Worker.occupies g) ht
    simp only [Worker.occupies, if_true] at hle
    omega
  refine h.move ht rfl fun f => ?_
  show s.loose f + _ + _ = _ + _ + FiberState.due (s.setState g .ready).fibers[f]?
  rw [due_setState (by simp) fun _ => by simp [hrunning]]
  simp

/-- The fiber ends, on a thread that runs it without having armed anything. -/
theorem Kept.terminate {g : ℕ} (h : s.Kept) (hinv : s.Inv)
    (ht : s.threads[t]? = some (.running g)) :
    ((s.setState g .term).setThread t .scheduling).Kept := by
  have hrunning : s.fibers[g]? = some .running := by
    refine (hinv g).running ?_
    have hle := le_tally (g := Worker.occupies g) ht
    simp only [Worker.occupies, if_true] at hle
    omega
  refine h.move ht rfl fun f => ?_
  show s.loose f + _ + _ = _ + _ + FiberState.due (s.setState g .term).fibers[f]?
  rw [getElem?_setState]
  by_cases hfg : f = g
  · subst hfg
    have hlt := (List.getElem?_eq_some_iff.mp hrunning).1
    rw [if_pos ⟨rfl, hlt⟩, hrunning]
    simp [FiberState.due, Work.names]
  · rw [if_neg fun hand => hfg hand.1]
    simp [Work.names, Ne.symm hfg]

/-- A callback schedules the fiber that it names. -/
theorem Kept.callback {cb : Callback} (h : s.Kept) (ht : s.threads[t]? = some (.calling cb))
    (alive : Bool) : ((s.callback cb alive).setThread t .scheduling).Kept := by
  cases cb with
  | wake g =>
    refine h.transfer ht rfl rfl fun f => ?_
    show (s.scheduler (.fiber g) none).loose f + 0 = _
    rw [loose_scheduler]
    rfl
  | timeout fd event =>
    show ((if alive then s.cancelEvent fd event else s).setThread t .scheduling).Kept
    cases alive with
    | false => exact h.transfer ht rfl rfl fun f => rfl
    | true =>
      have hthreads : ((s.cancelEvent fd event).setThread t .scheduling).threads =
          s.threads.set t .scheduling := congrArg (List.set · t _) (threads_cancelEvent fd event)
      refine h.transfer ht hthreads (fibers_cancelEvent fd event) fun f => ?_
      show (s.cancelEvent fd event).loose f + 0 = s.loose f + 0
      rw [loose_cancelEvent]
  | code => exact h.transfer ht rfl rfl fun f => rfl

/-- Any thread submits a new fiber, which the task names. -/
theorem Kept.submitFiber (h : s.Kept) (thread : Option ℕ) :
    ({ s with fibers := s.fibers ++ [FiberState.ready] }.scheduler (.fiber s.fibers.length)
      thread).Kept := by
  intro f
  have hf := h f
  rw [mentions, loose_scheduler]
  show s.loose f + _ + tally _ s.threads = FiberState.due (s.fibers ++ [FiberState.ready])[f]?
  rw [due_create _ (by simp), ← hf, mentions]
  omega

/-- A fiber that arms something passes its name on to it. -/
theorem Kept.arm {g : ℕ} (h : s.Kept) (ht : s.threads[t]? = some (.running g))
    (hthreads : s'.threads = s.threads.set t (.armed g)) (hfibers : s'.fibers = s.fibers)
    (hloose : ∀ f, s'.loose f = s.loose f + (Work.fiber g).names f) : s'.Kept := by
  refine h.transfer ht hthreads hfibers fun f => ?_
  rw [hloose, Worker.mentions_armed, Worker.mentions_running, Nat.add_zero]

/-- The idle fiber takes the callbacks of the timers that expired. -/
theorem Kept.expire {pending : List Work} (h : s.Kept)
    (ht : s.threads[t]? = some (.idle pending)) (n : ℕ) :
    ({ s with timers := s.timers.drop n }.setThread t
      (.idle (pending ++ (s.timers.take n).map Work.cb))).Kept := by
  refine h.transfer ht rfl rfl fun f => ?_
  have hsplit := tally_take_add_drop (fun cb => (Work.cb cb).names f) n s.timers
  rw [loose_setThread, Worker.mentions_idle, Worker.mentions_idle, tally_append, tally_map]
  simp only [loose]
  omega

/-- The idle fiber takes the fiber of an event. -/
theorem Kept.dispatch {pending : List Work} {fd g : ℕ} {event : IOEvent} {key : ℕ × IOEvent}
    (h : s.Kept) (ht : s.threads[t]? = some (.idle pending))
    (hfind : s.findEvent fd event = some (key, g)) :
    ((s.eraseEvent fd event).setThread t (.idle (pending ++ [.fiber g]))).Kept := by
  refine h.transfer ht rfl rfl fun f => ?_
  have herase := loose_eraseEvent (f := f) hfind
  simp only [loose_setThread, Worker.mentions_idle, tally_append, tally_cons, tally_nil]
  omega

/-- The idle fiber schedules what it took. -/
theorem Kept.enqueue {work : Work} {pending : List Work} (h : s.Kept)
    (ht : s.threads[t]? = some (.idle (work :: pending))) :
    ((s.scheduler work none).setThread t (.idle pending)).Kept := by
  refine h.transfer ht rfl rfl fun f => ?_
  simp only [loose_setThread, loose_scheduler, Worker.mentions_idle, tally_cons]
  omega

/-- **Every step keeps the count.** -/
theorem Kept.step {a : SchedulerAction} (h : s.Kept) (hinv : s.Inv) (hs' : s.step a = .ok s') :
    s'.Kept := by
  cases step_change hs' with
  | idle => exact h
  | submitFiber thread => exact h.submitFiber thread
  | submitCode => exact h.same rfl rfl fun f => loose_scheduler _ _
  | dequeue ht hdequeue => exact h.dequeue ht hdequeue
  | resume ht hresume => exact h.resume ht hresume
  | addTimer before ht => exact h.arm ht rfl rfl fun f => loose_insertTimer before _
  | addConditionTimer before fd event =>
    exact h.same rfl rfl fun f => loose_insertTimer before (.timeout fd event)
  | addEvent fd event ht => exact h.arm ht rfl rfl fun f => loose_addEvent fd _ event _
  | yield ht => exact h.yield hinv ht
  | cancelTimer fd event => exact h.same rfl rfl (loose_eraseTimer fd event)
  | cancelEvent fd event =>
    exact h.same (threads_cancelEvent fd event) (fibers_cancelEvent fd event)
      fun f => loose_cancelEvent fd event
  | terminate ht => exact h.terminate hinv ht
  | callback alive ht => exact h.callback ht alive
  | expire n ht => exact h.expire ht n
  | dispatch ht hfind => exact h.dispatch ht hfind
  | enqueue ht => exact h.enqueue ht
  | idleYield ht => exact h.transfer ht rfl rfl fun f => by simp

/-- There is no fiber at the start. -/
theorem kept_start (n : ℕ) : (start n).Kept := by
  intro f
  have hloose : (start n).loose f = 0 := rfl
  rw [mentions, hloose, Nat.zero_add]
  exact tally_replicate (g := Worker.mentions f) rfl n

/-! ### The place of a fiber -/

/-- What can name a fiber. -/
inductive Place
  | timer (cb : Callback)
  | event (fiber : ℕ)
  | task (work : Work)
  | thread (w : Worker)
  deriving DecidableEq, Repr

/-- How often it does. -/
def Place.names (f : ℕ) : Place → ℕ
  | .timer cb => (Work.cb cb).names f
  | .event g => (Work.fiber g).names f
  | .task work => work.names f
  | .thread w => w.mentions f

/-- All timers, events, tasks and threads. -/
def places (s : Scheduler) : List Place :=
  s.timers.map .timer ++ s.events.map (fun entry => .event entry.2) ++
    s.tasks.map (fun task => .task task.work) ++ s.threads.map .thread

/-- The count is the sum over the places. -/
theorem mentions_eq (s : Scheduler) (f : ℕ) : s.mentions f = tally (Place.names f) s.places := by
  simp only [places, tally_append, tally_map]
  rfl

/-- The fiber is named at position `k` of these. -/
def NamedAt (s : Scheduler) (f k : ℕ) : Prop := ∃ p, s.places[k]? = some p ∧ 0 < p.names f

/-- A fiber that is mentioned once is named in one place. -/
theorem namedAt_unique {f : ℕ} (h : s.mentions f = 1) : ∃! k, s.NamedAt f k := by
  rw [mentions_eq] at h
  obtain ⟨k, p, hk, hpos⟩ := exists_of_tally_pos (g := Place.names f) (l := s.places) (by omega)
  refine ⟨k, ⟨p, hk, hpos⟩, ?_⟩
  rintro k' ⟨p', hk', hpos'⟩
  exact index_unique (g := Place.names f) (by omega) hk' hk hpos' hpos

/-- A fiber that is not mentioned is named nowhere. -/
theorem not_namedAt {f : ℕ} (h : s.mentions f = 0) (k : ℕ) : ¬ s.NamedAt f k := by
  rw [mentions_eq] at h
  rintro ⟨p, hk, hpos⟩
  have hle := le_tally (g := Place.names f) hk
  omega

/-- The fiber of a task that a thread has taken is ready, whatever else has happened. -/
theorem Inv.resume_ready {g : ℕ} (h : s.Inv) (ht : s.threads[t]? = some (.taken (.fiber g))) :
    s.fibers[g]? = some .ready := by
  refine (h g).ready ?_
  have hle := le_tally (g := Worker.holds g) ht
  simp only [Worker.holds, if_true] at hle
  omega

/-- `resume` never finds a fiber that runs or has ended. -/
theorem Inv.not_resumeState (h : s.Inv) (a : SchedulerAction) :
    s.step a ≠ .error .resumeState := by
  intro hfault
  cases a with
  | resume t =>
    simp only [Scheduler.step] at hfault
    split at hfault
    case h_1 work ht =>
      cases work with
      | fiber g =>
        -- a fiber that a thread has taken is ready
        have hready := h.resume_ready ht
        rw [Scheduler.resume, if_pos (by simp [hready])] at hfault
        cases hfault
      | cb cb => cases cb <;> cases hfault
    case h_2 => cases hfault
  | dequeue t =>
    simp only [Scheduler.step, Scheduler.dequeue] at hfault
    repeat' split at hfault
    all_goals cases hfault
  | addEvent t fd event =>
    simp only [Scheduler.step] at hfault
    repeat' split at hfault
    all_goals cases hfault
  | submitFiber | submitCode => cases hfault
  | addTimer | addConditionTimer | yield | cancelTimer | cancelEvent | terminate | callback
  | expire | dispatch | enqueue | idleYield =>
    simp only [Scheduler.step] at hfault
    split at hfault <;> cases hfault

end Scheduler

/-! ## Runs -/

/-- A fiber that waits is named in one place, one that runs does so on one thread, and one that has
    ended is named nowhere. -/
structure Scheduler.NoneLost (s : Scheduler) : Prop where
  ready : ∀ f, s.fibers[f]? = some .ready → s.mentions f = 1 ∧ ∃! k, s.NamedAt f k
  running : ∀ f, s.fibers[f]? = some .running → s.mentions f = 1 ∧ ∃! t, s.RunsOn f t
  ended : ∀ f, s.fibers[f]? = some .term → ∀ k, ¬ s.NamedAt f k

namespace Scheduler

variable {s : Scheduler} {f : ℕ}

/-- A fiber that runs does so on a thread. -/
theorem Inv.exists_runsOn (h : s.Inv) (hf : s.fibers[f]? = some .running) :
    ∃ t, s.RunsOn f t := by
  have hbalanced := h f
  rw [hf] at hbalanced
  obtain ⟨-, -, hoccupied⟩ := hbalanced
  obtain ⟨t, w, ht, hpos⟩ :=
    exists_of_tally_pos (g := Worker.occupies f) (l := s.threads) (by omega)
  refine ⟨t, ?_⟩
  cases w with
  | running g =>
    have hg : g = f := by
      by_contra hne
      simp [Worker.occupies, hne] at hpos
    exact Or.inl (hg ▸ ht)
  | armed g =>
    have hg : g = f := by
      by_contra hne
      simp [Worker.occupies, hne] at hpos
    exact Or.inr (hg ▸ ht)
  | scheduling | taken | calling | idle => cases hpos

/-- A fiber that is mentioned once is in one place. -/
theorem Kept.noneLost (h : s.Kept) (hinv : s.Inv) : s.NoneLost where
  ready f hf := by
    have hone : s.mentions f = 1 := (h f).trans (congrArg FiberState.due hf)
    exact ⟨hone, namedAt_unique hone⟩
  running f hf := by
    have hone : s.mentions f = 1 := (h f).trans (congrArg FiberState.due hf)
    obtain ⟨t, ht⟩ := hinv.exists_runsOn hf
    exact ⟨hone, t, ht, fun t' ht' => hinv.runsOn_unique ht' ht⟩
  ended f hf := not_namedAt ((h f).trans (congrArg FiberState.due hf))

end Scheduler

namespace SchedulerRun

variable {attempts : List SchedulerAttempt} {result : Except SchedulerFault Scheduler}

/-- **No wake-up is lost.**  In every state of every run a fiber that waits is named exactly once by
    a timer, an event, a task or a thread, and one that has ended no more; and `resume` never finds
    a fiber in another state than ready. -/
theorem never_lost (h : SchedulerRun attempts result) :
    (∀ s, result = .ok s → s.NoneLost) ∧
      ∀ x ∈ attempts, x.before.NoneLost ∧ x.before.step x.action ≠ .error .resumeState := by
  obtain ⟨hlast, hall⟩ := Attempts.invariant (P := fun s => s.Kept ∧ s.Inv) (C := fun _ => True)
    (fun s hs => by
      refine ⟨?_, inv_begins s hs⟩
      obtain ⟨n, hn⟩ := hs
      obtain rfl := Except.ok.inj hn
      exact Scheduler.kept_start n)
    (fun s a s' hP _ _ hs' => ⟨hP.1.step hP.2 hs', hP.2.step hs'⟩) h (fun _ _ => trivial)
  refine ⟨fun s hs => (hlast s hs).1.noneLost (hlast s hs).2, fun x hx => ?_⟩
  obtain ⟨⟨hkept, hinv⟩, _⟩ := hall x hx
  exact ⟨hkept.noneLost hinv, hinv.not_resumeState x.action⟩

/-- A fiber has called `sleep`: its timer names it. -/
theorem never_lost_sleeper :
    Scheduler.NoneLost { fibers := [.ready], timers := [.wake 0], threads := [.scheduling] } := by
  have hstart : SchedulerRun [] (.ok (Scheduler.start 1)) := .start ⟨1, rfl⟩
  have hsleep : [SchedulerAction.submitFiber none, .dequeue 0, .resume 0, .addTimer 0 0,
      .yield 0].foldlM Scheduler.step (Scheduler.start 1) =
        .ok { fibers := [.ready], timers := [.wake 0], threads := [.scheduling] } := by
    decide
  obtain ⟨attempts, hrun⟩ := hstart.exists_foldlM _ hsleep
  exact (never_lost hrun).1 _ rfl

end SchedulerRun

end RaftStore
