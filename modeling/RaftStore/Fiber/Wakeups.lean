import RaftStore.Model.Scheduler
import RaftStore.Lib.Attempts
import RaftStore.Lib.Tallies

namespace RaftStore

/-!
# Fibers that are dequeued

A fiber that waits is named by one timer, event, callback or task, and by nothing else while it
runs, until it arms a timer or an event again.  Between that and `yield` it still runs, and its
task may already have come to the list: then `run` ends the process.

* `Scheduler.loose`, `Worker.carries` — how often a fiber is named, in what the threads share and
  in what they hold.
* `Balanced` — what is kept of each fiber, in each of its states.
* `Scheduler.Inv.step` — every step keeps it.
* `SchedulerAttempt.Fits`, `dequeues_ready_iff` — exactly when only ready fibers are dequeued.
-/

/-! ## Where a fiber is named -/

/-- Running the work makes the fiber run, or puts it on the list. -/
def Work.names (f : ℕ) : Work → ℕ
  | .fiber g => if g = f then 1 else 0
  | .cb (.wake g) => if g = f then 1 else 0
  | .cb _ => 0

namespace Worker

/-- How often the fiber is named by what the thread has yet to schedule. -/
def carries (f : ℕ) : Worker → ℕ
  | .taken (.cb cb) => (Work.cb cb).names f
  | .calling cb => (Work.cb cb).names f
  | .idle pending => tally (Work.names f) pending
  | _ => 0

/-- The thread has taken the fiber from the list. -/
def holds (f : ℕ) : Worker → ℕ
  | .taken (.fiber g) => if g = f then 1 else 0
  | _ => 0

/-- The thread runs the fiber, before it arms anything. -/
def runs (f : ℕ) : Worker → ℕ
  | .running g => if g = f then 1 else 0
  | _ => 0

/-- The thread runs the fiber. -/
def occupies (f : ℕ) : Worker → ℕ
  | .running g | .armed g => if g = f then 1 else 0
  | _ => 0

/-- The thread has to do with no other fiber. -/
def About (g : ℕ) (w : Worker) : Prop :=
  ∀ f, g ≠ f → w.carries f = 0 ∧ w.holds f = 0 ∧ w.occupies f = 0 ∧ w.runs f = 0

/-- A thread that has nothing has to do with no fiber. -/
theorem about_scheduling (g : ℕ) : Worker.scheduling.About g := fun _ _ => ⟨rfl, rfl, rfl, rfl⟩

/-- A thread that has taken a fiber has to do with that one. -/
theorem about_taken (g : ℕ) : (Worker.taken (.fiber g)).About g :=
  fun _ hf => ⟨rfl, if_neg hf, rfl, rfl⟩

/-- A thread that runs a fiber has to do with that one. -/
theorem about_running (g : ℕ) : (Worker.running g).About g :=
  fun _ hf => ⟨rfl, rfl, if_neg hf, if_neg hf⟩

/-- So has a thread whose fiber has armed something. -/
theorem about_armed (g : ℕ) : (Worker.armed g).About g :=
  fun _ hf => ⟨rfl, rfl, if_neg hf, rfl⟩

/-- A fiber that has not armed anything runs. -/
theorem runs_le_occupies (f : ℕ) (w : Worker) : w.runs f ≤ w.occupies f := by
  cases w <;> simp [runs, occupies]

end Worker

/-- What holds of a fiber that is named `tokens` times, held by `held` threads and run by
    `occupied`, `running` of them before the fiber arms anything. -/
def Balanced (state : Option FiberState) (tokens held occupied running : ℕ) : Prop :=
  match state with
  | some .ready => tokens + held ≤ 1 ∧ occupied = 0 ∧ running = 0
  | some .running => tokens + running ≤ 1 ∧ held = 0 ∧ occupied = 1
  | _ => tokens = 0 ∧ held = 0 ∧ occupied = 0 ∧ running = 0

/-- The numbers alone matter. -/
theorem Balanced.of_eq {state : Option FiberState} {k h o r k' h' o' r' : ℕ}
    (hb : Balanced state k h o r) (hk : k' = k) (hh : h' = h) (ho : o' = o) (hr : r' = r) :
    Balanced state k' h' o' r' := by
  rwa [hk, hh, ho, hr]

/-- Only ready fibers are held, and only running ones run. -/
theorem Balanced.ready {state : Option FiberState} {k h o r : ℕ} (hb : Balanced state k h o r)
    (hh : 0 < h) : state = some .ready := by
  unfold Balanced at hb
  split at hb
  · rfl
  · omega
  · omega

/-- A fiber that runs on a thread is running. -/
theorem Balanced.running {state : Option FiberState} {k h o r : ℕ} (hb : Balanced state k h o r)
    (ho : 0 < o) : state = some .running := by
  unfold Balanced at hb
  split at hb
  · omega
  · rfl
  · omega

/-- A fiber that is named and not ready is running. -/
theorem Balanced.running_of_named {state : Option FiberState} {k h o r : ℕ}
    (hb : Balanced state k h o r) (hk : 0 < k) (hstate : state ≠ some .ready) :
    state = some .running := by
  unfold Balanced at hb
  split at hb
  · contradiction
  · rfl
  · omega

/-- A fiber runs on one thread at most. -/
theorem Balanced.occupied_le {state : Option FiberState} {k h o r : ℕ}
    (hb : Balanced state k h o r) : o ≤ 1 := by
  unfold Balanced at hb
  split at hb <;> omega

/-- Nothing names a fiber that is still to be created. -/
theorem Balanced.fresh {fibers : List FiberState} {k h o r : ℕ}
    (hb : Balanced fibers[fibers.length]? k h o r) : k = 0 ∧ h = 0 ∧ o = 0 ∧ r = 0 := by
  rwa [List.getElem?_eq_none (Nat.le_refl _)] at hb

namespace Scheduler

variable {s s' : Scheduler} {t f : ℕ} {w w' : Worker}

/-- How often the fiber is named by a timer, an event or a task. -/
def loose (s : Scheduler) (f : ℕ) : ℕ :=
  tally (fun cb => (Work.cb cb).names f) s.timers +
    tally (fun entry => (Work.fiber entry.2).names f) s.events +
    tally (fun task => task.work.names f) s.tasks

/-- The invariant. -/
def Inv (s : Scheduler) : Prop :=
  ∀ f, Balanced s.fibers[f]? (s.loose f + tally (Worker.carries f) s.threads)
    (tally (Worker.holds f) s.threads) (tally (Worker.occupies f) s.threads)
    (tally (Worker.runs f) s.threads)

/-- A step of one thread: it is enough to look at that thread, whatever the others have. -/
theorem Inv.move (h : s.Inv) (ht : s.threads[t]? = some w)
    (hthreads : s'.threads = s.threads.set t w')
    (hmove : ∀ f tokens held occupied running, running ≤ occupied →
      Balanced s.fibers[f]? (s.loose f + (w.carries f + tokens)) (w.holds f + held)
        (w.occupies f + occupied) (w.runs f + running) →
      Balanced s'.fibers[f]? (s'.loose f + (w'.carries f + tokens)) (w'.holds f + held)
        (w'.occupies f + occupied) (w'.runs f + running)) : s'.Inv := by
  intro f
  have hf := h f
  rw [tally_eraseIdx (g := Worker.carries f) ht, tally_eraseIdx (g := Worker.holds f) ht,
    tally_eraseIdx (g := Worker.occupies f) ht, tally_eraseIdx (g := Worker.runs f) ht] at hf
  rw [hthreads, tally_set ht, tally_set ht, tally_set ht, tally_set ht]
  exact hmove f _ _ _ _ (tally_mono (Worker.runs_le_occupies f) _) hf

/-- A step of one thread that neither takes a fiber nor ends one, and passes on what it has. -/
theorem Inv.transfer (h : s.Inv) (ht : s.threads[t]? = some w)
    (hthreads : s'.threads = s.threads.set t w') (hfibers : s'.fibers = s.fibers)
    (hholds : ∀ f, w'.holds f = w.holds f) (hoccupies : ∀ f, w'.occupies f = w.occupies f)
    (hruns : ∀ f, w'.runs f = w.runs f)
    (hnames : ∀ f, s'.loose f + w'.carries f = s.loose f + w.carries f) : s'.Inv := by
  refine h.move ht hthreads fun f tokens held occupied running _ hf => ?_
  rw [hfibers, hholds, hoccupies, hruns, ← Nat.add_assoc, hnames, Nat.add_assoc]
  exact hf

/-- A step that changes no thread, no fiber, and not how often one is named. -/
theorem Inv.keep (h : s.Inv) (hthreads : s'.threads = s.threads) (hfibers : s'.fibers = s.fibers)
    (hloose : ∀ f, s'.loose f = s.loose f) : s'.Inv := by
  intro f
  rw [hthreads, hfibers, hloose]
  exact h f

/-! ### What the threads share -/

/-- What the threads hold is not shared. -/
@[simp] theorem loose_setThread : (s.setThread t w).loose f = s.loose f := rfl

/-- The state of a fiber does not name it. -/
@[simp] theorem loose_setState (g : ℕ) (state : FiberState) :
    (s.setState g state).loose f = s.loose f := rfl

/-- A task that is added names its fiber. -/
@[simp] theorem loose_scheduler (work : Work) (thread : Option ℕ) :
    (s.scheduler work thread).loose f = s.loose f + work.names f := by
  simp only [loose, scheduler, tally_append, tally_cons, tally_nil]
  omega

/-- A timer that is added names its fiber. -/
@[simp] theorem loose_insertTimer (before : ℕ) (cb : Callback) :
    (s.insertTimer before cb).loose f = s.loose f + (Work.cb cb).names f := by
  have hsplit := tally_take_add_drop (fun cb => (Work.cb cb).names f) before s.timers
  simp only [loose, insertTimer, tally_append, tally_cons]
  omega

/-- An event that is erased no longer names its fiber. -/
theorem loose_eraseEvent {fd g : ℕ} {event : IOEvent} {key : ℕ × IOEvent}
    (h : s.findEvent fd event = some (key, g)) :
    (s.eraseEvent fd event).loose f + (Work.fiber g).names f = s.loose f := by
  have herase : _ + (Work.fiber g).names f = _ :=
    tally_eraseP (g := fun entry => (Work.fiber entry.2).names f) h
  simp only [loose, eraseEvent]
  omega

/-- The condition timer of an event names no fiber. -/
theorem loose_eraseTimer (fd : ℕ) (event : IOEvent) (f : ℕ) :
    Scheduler.loose { s with timers := s.timers.erase (.timeout fd event) } f = s.loose f := by
  have herase : tally _ (s.timers.erase (.timeout fd event)) = _ :=
    tally_erase (g := fun cb => (Work.cb cb).names f) rfl s.timers
  rw [loose, loose, herase]

/-- A task that is taken no longer names its fiber. -/
theorem loose_eraseTask {task : SchedulerTask} (h : s.tasks.find? (eligible t) = some task)
    (w : Worker) (f : ℕ) :
    Scheduler.loose { s.setThread t w with tasks := s.tasks.eraseP (eligible t) } f +
      task.work.names f = s.loose f := by
  have herase := tally_eraseP (g := fun task => task.work.names f) h
  simp only [loose, setThread]
  omega

/-- An event that is cancelled names its fiber as a task. -/
@[simp] theorem loose_cancelEvent (fd : ℕ) (event : IOEvent) :
    (s.cancelEvent fd event).loose f = s.loose f := by
  unfold cancelEvent
  split
  case h_1 => rfl
  case h_2 key g h => rw [loose_scheduler, loose_eraseEvent h]

/-- Cancelling an event moves no thread. -/
theorem threads_cancelEvent (fd : ℕ) (event : IOEvent) :
    (s.cancelEvent fd event).threads = s.threads := by
  unfold cancelEvent
  split <;> rfl

/-- Cancelling an event changes no fiber. -/
theorem fibers_cancelEvent (fd : ℕ) (event : IOEvent) :
    (s.cancelEvent fd event).fibers = s.fibers := by
  unfold cancelEvent
  split <;> rfl

/-! ### What one step can do -/

/-- The ways action `a` takes `s` to `s'`, when it does not end the process: a thread that is not
    at the start of the action leaves the state as it is. -/
inductive Change (s : Scheduler) : SchedulerAction → Scheduler → Prop
  | idle {a : SchedulerAction} : Change s a s
  | submitFiber (thread : Option ℕ) :
      Change s (.submitFiber thread)
        ({ s with fibers := s.fibers ++ [FiberState.ready] }.scheduler (.fiber s.fibers.length)
          thread)
  | submitCode (thread : Option ℕ) :
      Change s (.submitCode thread) (s.scheduler (.cb .code) thread)
  | dequeue {t : ℕ} {s' : Scheduler} (ht : s.threads[t]? = some .scheduling)
      (hs' : s.dequeue t = .ok s') : Change s (.dequeue t) s'
  | resume {t : ℕ} {work : Work} {s' : Scheduler} (ht : s.threads[t]? = some (.taken work))
      (hs' : s.resume t work = .ok s') : Change s (.resume t) s'
  | addTimer {t g : ℕ} (before : ℕ) (ht : s.threads[t]? = some (.running g)) :
      Change s (.addTimer t before) ((s.insertTimer before (.wake g)).setThread t (.armed g))
  | addConditionTimer {t : ℕ} (before fd : ℕ) (event : IOEvent) :
      Change s (.addConditionTimer t before fd event)
        (s.insertTimer before (.timeout fd event))
  | addEvent {t g : ℕ} (fd : ℕ) (event : IOEvent) (ht : s.threads[t]? = some (.running g)) :
      Change s (.addEvent t fd event)
        ({ s with events := s.events ++ [((fd, event), g)] }.setThread t (.armed g))
  | yield {t g : ℕ} (ht : s.threads[t]? = some (.armed g)) :
      Change s (.yield t) ((s.setState g .ready).setThread t .scheduling)
  | cancelTimer {t : ℕ} (fd : ℕ) (event : IOEvent) :
      Change s (.cancelTimer t fd event)
        { s with timers := s.timers.erase (.timeout fd event) }
  | cancelEvent {t : ℕ} (fd : ℕ) (event : IOEvent) :
      Change s (.cancelEvent t fd event) (s.cancelEvent fd event)
  | terminate {t g : ℕ} (ht : s.threads[t]? = some (.running g)) :
      Change s (.terminate t) ((s.setState g .term).setThread t .scheduling)
  | callback {t : ℕ} {cb : Callback} (alive : Bool) (ht : s.threads[t]? = some (.calling cb)) :
      Change s (.callback t alive) ((s.callback cb alive).setThread t .scheduling)
  | expire {t : ℕ} {pending : List Work} (n : ℕ) (ht : s.threads[t]? = some (.idle pending)) :
      Change s (.expire t n)
        ({ s with timers := s.timers.drop n }.setThread t
          (.idle (pending ++ (s.timers.take n).map Work.cb)))
  | dispatch {t fd g : ℕ} {event : IOEvent} {key : ℕ × IOEvent} {pending : List Work}
      (ht : s.threads[t]? = some (.idle pending))
      (hfind : s.findEvent fd event = some (key, g)) :
      Change s (.dispatch t fd event)
        ((s.eraseEvent fd event).setThread t (.idle (pending ++ [.fiber g])))
  | enqueue {t : ℕ} {work : Work} {pending : List Work}
      (ht : s.threads[t]? = some (.idle (work :: pending))) :
      Change s (.enqueue t) ((s.scheduler work none).setThread t (.idle pending))
  | idleYield {t : ℕ} (ht : s.threads[t]? = some (.idle [])) :
      Change s (.idleYield t) (s.setThread t .scheduling)

/-- **Inversion of a step**: every invariant below is a case analysis over `Change` and never
    unfolds `Scheduler.step`. -/
theorem step_change {a : SchedulerAction} (h : s.step a = .ok s') : Change s a s' := by
  cases a with
  | submitFiber thread => exact Except.ok.inj h ▸ .submitFiber thread
  | submitCode thread => exact Except.ok.inj h ▸ .submitCode thread
  | addEvent t fd event =>
    simp only [Scheduler.step] at h
    split at h
    case h_1 g ht =>
      split at h
      case isTrue => cases h
      case isFalse => exact Except.ok.inj h ▸ .addEvent fd event ht
    case h_2 => exact Except.ok.inj h ▸ .idle
  | dispatch t fd event =>
    simp only [Scheduler.step] at h
    split at h
    case h_1 pending key g ht hfind => exact Except.ok.inj h ▸ .dispatch ht hfind
    case h_2 => exact Except.ok.inj h ▸ .idle
  | dequeue | resume | addTimer | addConditionTimer | yield | cancelTimer | cancelEvent
  | terminate | callback | expire | enqueue | idleYield =>
    -- one thread at the start of the action, or nothing
    simp only [Scheduler.step] at h
    split at h
    case h_2 => exact Except.ok.inj h ▸ .idle
    case h_1 => first
      | exact .dequeue ‹_› h
      | exact .resume ‹_› h
      | (obtain rfl := Except.ok.inj h; constructor; assumption)
      | (obtain rfl := Except.ok.inj h; constructor)

/-! ### Steps -/

/-- The state of one fiber is set. -/
theorem getElem?_setState (g : ℕ) (state : FiberState) (f : ℕ) :
    (s.setState g state).fibers[f]? =
      if f = g ∧ f < s.fibers.length then some state else s.fibers[f]? := by
  rw [setState, List.getElem?_set]
  by_cases hf : f = g
  · subst hf
    by_cases hlt : f < s.fibers.length
    · simp [hlt]
    · simp [hlt]
  · simp [hf, Ne.symm hf]

/-- A step of one thread that sets the state of the fiber it has to do with. -/
theorem Inv.setState {g : ℕ} {state : FiberState} (h : s.Inv) (ht : s.threads[t]? = some w)
    (hw : w.About g) (hw' : w'.About g)
    (hself : ∀ tokens held occupied running, running ≤ occupied →
      Balanced s.fibers[g]? (s.loose g + (w.carries g + tokens)) (w.holds g + held)
        (w.occupies g + occupied) (w.runs g + running) →
      g < s.fibers.length ∧
        Balanced (some state) (s.loose g + (w'.carries g + tokens)) (w'.holds g + held)
          (w'.occupies g + occupied) (w'.runs g + running)) :
    ((s.setState g state).setThread t w').Inv := by
  refine h.move ht rfl fun f tokens held occupied running hle hf => ?_
  show Balanced (s.setState g state).fibers[f]? (s.loose f + _) _ _ _
  rw [getElem?_setState]
  by_cases hfg : g = f
  · subst hfg
    obtain ⟨hlt, hbalanced⟩ := hself tokens held occupied running hle hf
    rwa [if_pos ⟨rfl, hlt⟩]
  · -- nothing changes for the other fibers
    obtain ⟨hcarries, hholds, hoccupies, hruns⟩ := hw f hfg
    obtain ⟨hcarries', hholds', hoccupies', hruns'⟩ := hw' f hfg
    rw [hcarries, hholds, hoccupies, hruns] at hf
    rwa [if_neg (fun hand => hfg hand.1.symm), hcarries', hholds', hoccupies', hruns']

/-- A fiber is created. -/
theorem getElem?_create (state : FiberState) (f : ℕ) :
    (s.fibers ++ [state])[f]? = if s.fibers.length = f then some state else s.fibers[f]? := by
  rw [List.getElem?_append]
  by_cases hlt : f < s.fibers.length
  · rw [if_pos hlt, if_neg (by omega)]
  · rw [if_neg hlt, List.getElem?_eq_none (Nat.le_of_not_lt hlt)]
    by_cases hf : s.fibers.length = f
    · simp [hf]
    · rw [if_neg hf, List.getElem?_eq_none (by rw [List.length_singleton]; omega)]

/-- Any thread submits a new fiber. -/
theorem Inv.submitFiber (h : s.Inv) (thread : Option ℕ) :
    ({ s with fibers := s.fibers ++ [FiberState.ready] }.scheduler (.fiber s.fibers.length)
      thread).Inv := by
  intro f
  have hf := h f
  rw [loose_scheduler]
  show Balanced (s.fibers ++ [FiberState.ready])[f]? (s.loose f + _ + tally _ s.threads)
    (tally _ s.threads) _ _
  rw [getElem?_create]
  by_cases hnew : s.fibers.length = f
  · subst hnew
    obtain ⟨htokens, hheld, hoccupied, hrunning⟩ := Balanced.fresh hf
    simp only [Work.names, if_true]
    exact ⟨by omega, hoccupied, hrunning⟩
  · simp only [Work.names, if_neg hnew]
    exact hf

/-- A task is taken by a thread that has none. -/
theorem Inv.dequeue (h : s.Inv) (ht : s.threads[t]? = some .scheduling)
    (hs' : s.dequeue t = .ok s') : s'.Inv := by
  rw [Scheduler.dequeue] at hs'
  split at hs'
  case h_1 hfind =>
    obtain rfl := Except.ok.inj hs'
    exact h.transfer ht rfl rfl (fun _ => rfl) (fun _ => rfl) (fun _ => rfl) fun _ => rfl
  case h_2 task hfind =>
    split at hs'
    case h_1 fiber hwork =>
      split at hs'
      case isTrue hready =>
        obtain rfl := Except.ok.inj hs'
        refine h.move ht rfl fun f tokens held occupied running _ hf => ?_
        have hloose := loose_eraseTask hfind (.taken task.work) f
        rw [hwork] at hloose ⊢
        show Balanced s.fibers[f]? _ _ _ _
        simp only [Worker.carries, Worker.holds, Worker.occupies, Worker.runs, Work.names]
          at hf hloose ⊢
        by_cases hfg : fiber = f
        · -- the fiber is held now, and no longer on the list
          rw [← hfg] at hf hloose ⊢
          rw [hready] at hf ⊢
          rw [if_pos rfl] at hloose ⊢
          obtain ⟨htokens, hoccupied, hrunning⟩ := hf
          exact ⟨by omega, hoccupied, hrunning⟩
        · rw [if_neg hfg] at hloose ⊢
          exact hf.of_eq (by omega) rfl rfl rfl
      case isFalse => cases hs'
    case h_2 cb hwork =>
      obtain rfl := Except.ok.inj hs'
      rw [hwork]
      refine h.transfer ht rfl rfl (fun _ => rfl) (fun _ => rfl) (fun _ => rfl) fun f => ?_
      have hloose := loose_eraseTask hfind (.taken (.cb cb)) f
      rw [hwork] at hloose
      exact hloose

/-- A fiber that is held runs, or a new one. -/
theorem Inv.resume {work : Work} (h : s.Inv) (ht : s.threads[t]? = some (.taken work))
    (hs' : s.resume t work = .ok s') : s'.Inv := by
  cases work with
  | fiber g =>
    rw [Scheduler.resume] at hs'
    split at hs'
    case isTrue =>
      obtain rfl := Except.ok.inj hs'
      -- who holds a fiber has taken its only name from the list
      refine h.setState ht (Worker.about_taken g) (Worker.about_running g)
        fun tokens held occupied running hle hg => ?_
      simp only [Worker.carries, Worker.holds, Worker.occupies, Worker.runs, if_true] at hg ⊢
      have hready := hg.ready (by omega)
      have hlt := (List.getElem?_eq_some_iff.mp hready).1
      rw [hready] at hg
      obtain ⟨htokens, hoccupied, hrunning⟩ := hg
      exact ⟨hlt, by omega, by omega, by omega⟩
    case isFalse => cases hs'
  | cb cb =>
    cases cb with
    | code =>
      obtain rfl := Except.ok.inj hs'
      refine h.move ht rfl fun f tokens held occupied running hle hf => ?_
      show Balanced (s.fibers ++ [FiberState.running])[f]? (s.loose f + _) _ _ _
      rw [getElem?_create]
      simp only [Worker.carries, Worker.holds, Worker.occupies, Worker.runs, Work.names] at hf ⊢
      by_cases hnew : s.fibers.length = f
      · subst hnew
        obtain ⟨htokens, hheld, hoccupied, hrunning⟩ := Balanced.fresh hf
        rw [if_pos rfl, if_pos rfl]
        exact ⟨by omega, by omega, by omega⟩
      · rwa [if_neg hnew, if_neg hnew]
    | wake g =>
      obtain rfl := Except.ok.inj hs'
      exact h.transfer ht rfl rfl (fun _ => rfl) (fun _ => rfl) (fun _ => rfl) fun _ => rfl
    | timeout fd event =>
      obtain rfl := Except.ok.inj hs'
      exact h.transfer ht rfl rfl (fun _ => rfl) (fun _ => rfl) (fun _ => rfl) fun _ => rfl

/-- A fiber arms a timer or an event, which names it. -/
theorem Inv.arm {g : ℕ} (h : s.Inv) (ht : s.threads[t]? = some (.running g))
    (hthreads : s'.threads = s.threads.set t (.armed g)) (hfibers : s'.fibers = s.fibers)
    (hloose : ∀ f, s'.loose f = s.loose f + (Work.fiber g).names f) : s'.Inv := by
  refine h.move ht hthreads fun f tokens held occupied running hle hf => ?_
  rw [hfibers, hloose]
  simp only [Worker.carries, Worker.holds, Worker.occupies, Worker.runs, Work.names] at hf ⊢
  by_cases hfg : g = f
  · rw [if_pos hfg] at hf ⊢
    have hrunning := hf.running (by omega)
    rw [hrunning] at hf ⊢
    obtain ⟨htokens, hheld, hoccupied⟩ := hf
    exact ⟨by omega, hheld, hoccupied⟩
  · rw [if_neg hfg] at hf ⊢
    exact hf

/-- The fiber yields, and is ready. -/
theorem Inv.yield {g : ℕ} (h : s.Inv) (ht : s.threads[t]? = some (.armed g)) :
    ((s.setState g .ready).setThread t .scheduling).Inv := by
  -- it may be named again already, by what it has armed or by its task
  refine h.setState ht (Worker.about_armed g) (Worker.about_scheduling g)
    fun tokens held occupied running hle hg => ?_
  simp only [Worker.carries, Worker.holds, Worker.occupies, Worker.runs, if_true] at hg ⊢
  have hrunning := hg.running (by omega)
  have hlt := (List.getElem?_eq_some_iff.mp hrunning).1
  rw [hrunning] at hg
  obtain ⟨htokens, hheld, hoccupied⟩ := hg
  exact ⟨hlt, by omega, by omega, by omega⟩

/-- The fiber ends. -/
theorem Inv.terminate {g : ℕ} (h : s.Inv) (ht : s.threads[t]? = some (.running g)) :
    ((s.setState g .term).setThread t .scheduling).Inv := by
  refine h.setState ht (Worker.about_running g) (Worker.about_scheduling g)
    fun tokens held occupied running hle hg => ?_
  simp only [Worker.carries, Worker.holds, Worker.occupies, Worker.runs, if_true] at hg ⊢
  have hrunning := hg.running (by omega)
  have hlt := (List.getElem?_eq_some_iff.mp hrunning).1
  rw [hrunning] at hg
  -- it ran without having armed anything, so nothing names it
  obtain ⟨htokens, hheld, hoccupied⟩ := hg
  exact ⟨hlt, by omega, by omega, by omega, by omega⟩

/-- A callback schedules the fiber that it names. -/
theorem Inv.callback {cb : Callback} (h : s.Inv) (ht : s.threads[t]? = some (.calling cb))
    (alive : Bool) : ((s.callback cb alive).setThread t .scheduling).Inv := by
  cases cb with
  | wake g =>
    refine h.transfer ht rfl rfl (fun _ => rfl) (fun _ => rfl) (fun _ => rfl) fun f => ?_
    show (s.scheduler (.fiber g) none).loose f + 0 = _
    rw [loose_scheduler]
    rfl
  | timeout fd event =>
    show ((if alive then s.cancelEvent fd event else s).setThread t .scheduling).Inv
    cases alive with
    | false => exact h.transfer ht rfl rfl (fun _ => rfl) (fun _ => rfl) (fun _ => rfl) fun _ => rfl
    | true =>
      have hthreads : ((s.cancelEvent fd event).setThread t .scheduling).threads =
          s.threads.set t .scheduling := congrArg (List.set · t _) (threads_cancelEvent fd event)
      refine h.transfer ht hthreads (fibers_cancelEvent fd event) (fun _ => rfl) (fun _ => rfl)
        (fun _ => rfl) fun f => ?_
      show (s.cancelEvent fd event).loose f + 0 = s.loose f + 0
      rw [loose_cancelEvent]
  | code => exact h.transfer ht rfl rfl (fun _ => rfl) (fun _ => rfl) (fun _ => rfl) fun _ => rfl

/-- The idle fiber takes the callbacks of the timers that expired. -/
theorem Inv.expire {pending : List Work} (h : s.Inv) (ht : s.threads[t]? = some (.idle pending))
    (n : ℕ) :
    ({ s with timers := s.timers.drop n }.setThread t
      (.idle (pending ++ (s.timers.take n).map Work.cb))).Inv := by
  refine h.transfer ht rfl rfl (fun _ => rfl) (fun _ => rfl) (fun _ => rfl) fun f => ?_
  have hsplit := tally_take_add_drop (fun cb => (Work.cb cb).names f) n s.timers
  rw [loose_setThread]
  simp only [loose, Worker.carries, tally_append, tally_map]
  omega

/-- The idle fiber takes the fiber of an event. -/
theorem Inv.dispatch {pending : List Work} {fd g : ℕ} {event : IOEvent} {key : ℕ × IOEvent}
    (h : s.Inv) (ht : s.threads[t]? = some (.idle pending))
    (hfind : s.findEvent fd event = some (key, g)) :
    ((s.eraseEvent fd event).setThread t (.idle (pending ++ [.fiber g]))).Inv := by
  refine h.transfer ht rfl rfl (fun _ => rfl) (fun _ => rfl) (fun _ => rfl) fun f => ?_
  have herase := loose_eraseEvent (f := f) hfind
  simp only [loose_setThread, Worker.carries, tally_append, tally_cons, tally_nil]
  omega

/-- The idle fiber schedules what it took. -/
theorem Inv.enqueue {work : Work} {pending : List Work} (h : s.Inv)
    (ht : s.threads[t]? = some (.idle (work :: pending))) :
    ((s.scheduler work none).setThread t (.idle pending)).Inv := by
  refine h.transfer ht rfl rfl (fun _ => rfl) (fun _ => rfl) (fun _ => rfl) fun f => ?_
  simp only [loose_setThread, loose_scheduler, Worker.carries, tally_cons]
  omega

/-- An event that is added names its fiber. -/
theorem loose_addEvent (fd g : ℕ) (event : IOEvent) (w : Worker) :
    ({ s with events := s.events ++ [((fd, event), g)] }.setThread t w).loose f =
      s.loose f + (Work.fiber g).names f := by
  rw [loose_setThread]
  simp only [loose, tally_append, tally_cons, tally_nil]
  omega

/-- **Every step keeps the invariant.** -/
theorem Inv.step {a : SchedulerAction} (h : s.Inv) (hs' : s.step a = .ok s') : s'.Inv := by
  cases step_change hs' with
  | idle => exact h
  | submitFiber thread => exact h.submitFiber thread
  | submitCode => exact h.keep rfl rfl fun f => loose_scheduler _ _
  | dequeue ht hdequeue => exact h.dequeue ht hdequeue
  | resume ht hresume => exact h.resume ht hresume
  | addTimer before ht => exact h.arm ht rfl rfl fun f => loose_insertTimer before _
  | addConditionTimer before fd event =>
    exact h.keep rfl rfl fun f => loose_insertTimer before (.timeout fd event)
  | addEvent fd event ht => exact h.arm ht rfl rfl fun f => loose_addEvent fd _ event _
  | yield ht => exact h.yield ht
  | cancelTimer fd event => exact h.keep rfl rfl (loose_eraseTimer fd event)
  | cancelEvent fd event =>
    exact h.keep (threads_cancelEvent fd event) (fibers_cancelEvent fd event)
      fun f => loose_cancelEvent fd event
  | terminate ht => exact h.terminate ht
  | callback alive ht => exact h.callback ht alive
  | expire n ht => exact h.expire ht n
  | dispatch ht hfind => exact h.dispatch ht hfind
  | enqueue ht => exact h.enqueue ht
  | idleYield ht =>
    exact h.transfer ht rfl rfl (fun _ => rfl) (fun _ => rfl) (fun _ => rfl) fun _ => rfl

/-- Nothing names a fiber at the start, and there is none. -/
theorem inv_start (n : ℕ) : (start n).Inv := by
  intro f
  have hzero : ∀ g : Worker → ℕ, g .scheduling = 0 → tally g (start n).threads = 0 :=
    fun g hg => tally_replicate hg n
  have hloose : (start n).loose f = 0 := rfl
  have hcarries : tally (Worker.carries f) (start n).threads = 0 := hzero _ rfl
  exact ⟨by omega, hzero _ rfl, hzero _ rfl, hzero _ rfl⟩

/-! ### Fibers that are taken -/

/-- The thread is about to take the fiber from the list. -/
def Takes (s : Scheduler) (t f : ℕ) : Prop :=
  s.threads[t]? = some .scheduling ∧
    ∃ thread, s.tasks.find? (eligible t) = some { work := .fiber f, thread }

/-- The fiber runs on the thread. -/
def RunsOn (s : Scheduler) (f t : ℕ) : Prop :=
  s.threads[t]? = some (.running f) ∨ s.threads[t]? = some (.armed f)

/-- The only way to `"fiber task state error"`. -/
theorem takes_of_fault (h : s.step (.dequeue t) = .error .fiberTaskState) :
    ∃ f, s.Takes t f ∧ s.fibers[f]? ≠ some .ready := by
  simp only [Scheduler.step] at h
  split at h
  case h_1 ht =>
    rw [Scheduler.dequeue] at h
    split at h
    case h_1 => cases h
    case h_2 task hfind =>
      split at h
      case h_1 f hwork =>
        split at h
        case isTrue => cases h
        case isFalse hready => exact ⟨f, ⟨ht, task.thread, hwork ▸ hfind⟩, hready⟩
      case h_2 => cases h
  case h_2 => cases h

/-- No fiber runs on two threads. -/
theorem Inv.runsOn_unique (h : s.Inv) {t' : ℕ} (ht : s.RunsOn f t) (ht' : s.RunsOn f t') :
    t = t' := by
  have hoccupies : ∀ t, s.RunsOn f t → ∃ w, s.threads[t]? = some w ∧ 0 < w.occupies f := by
    rintro t (ht | ht)
    · exact ⟨_, ht, by simp [Worker.occupies]⟩
    · exact ⟨_, ht, by simp [Worker.occupies]⟩
  obtain ⟨w, hw, hpos⟩ := hoccupies t ht
  obtain ⟨w', hw', hpos'⟩ := hoccupies t' ht'
  exact index_unique (h f).occupied_le hw hw' hpos hpos'

/-- **A fiber that is taken is ready**, unless a thread still has to yield from it. -/
theorem Inv.ready_iff (h : s.Inv) (htakes : s.Takes t f) :
    s.fibers[f]? = some .ready ↔ ∀ t' : ℕ, s.threads[t']? ≠ some (.armed f) := by
  obtain ⟨-, thread, hfind⟩ := htakes
  have hf := h f
  have hnamed : 1 ≤ s.loose f := by
    have hloose := loose_eraseTask hfind .scheduling f
    simp only [Work.names, if_true] at hloose
    omega
  constructor
  · intro hready t' ht'
    rw [hready] at hf
    obtain ⟨-, hoccupied, -⟩ := hf
    have hle := le_tally (g := Worker.occupies f) ht'
    simp only [Worker.occupies, if_true] at hle
    omega
  · intro hnone
    by_contra hready
    -- the fiber is named, so it runs, on a thread that has armed something
    have hrunning := hf.running_of_named (by omega) hready
    rw [hrunning] at hf
    obtain ⟨htokens, -, hoccupied⟩ := hf
    obtain ⟨t', w, hw, hpos⟩ :=
      exists_of_tally_pos (g := Worker.occupies f) (l := s.threads) (by omega)
    have hle := le_tally (g := Worker.runs f) hw
    cases w with
    | armed g =>
      have hg : g = f := by
        by_contra hne
        simp [Worker.occupies, hne] at hpos
      exact hnone t' (hg ▸ hw)
    | running g =>
      simp only [Worker.occupies, Worker.runs] at hpos hle
      omega
    | scheduling | taken | calling | idle => cases hpos

end Scheduler

/-! ## Runs -/

/-- An action, and the state it is tried in. -/
abbrev SchedulerAttempt := Attempt Scheduler SchedulerAction

namespace SchedulerAttempt

variable (x : SchedulerAttempt)

/-- A fiber that is taken is ready, the panic of `run` does not fire, and no fiber runs on two
    threads. -/
structure Safe : Prop where
  ready : ∀ t f, x.action = .dequeue t → x.before.Takes t f → x.before.fibers[f]? = some .ready
  noPanic : ∀ t, x.action = .dequeue t → x.before.step x.action ≠ .error .fiberTaskState
  once : ∀ f t t', x.before.RunsOn f t → x.before.RunsOn f t' → t = t'

/-- No fiber is taken from the list before it has yielded. -/
def Fits : Prop :=
  ∀ t f, x.action = .dequeue t → x.before.Takes t f →
    ∀ t' : ℕ, x.before.threads[t']? ≠ some (.armed f)

end SchedulerAttempt

/-- Any number of threads take their steps in any order. -/
abbrev SchedulerRun (attempts : List SchedulerAttempt)
    (result : Except SchedulerFault Scheduler) : Prop :=
  Attempts (fun result => ∃ n, result = .ok (Scheduler.start n)) (fun _ _ => True)
    Scheduler.step attempts result

namespace SchedulerRun

variable {attempts : List SchedulerAttempt} {result : Except SchedulerFault Scheduler}

/-- The invariant holds where a run begins. -/
theorem inv_begins (s : Scheduler)
    (h : ∃ n, (Except.ok s : Except SchedulerFault Scheduler) = .ok (Scheduler.start n)) :
    s.Inv := by
  obtain ⟨n, hn⟩ := h
  obtain rfl := Except.ok.inj hn
  exact Scheduler.inv_start n

/-- **Only ready fibers are dequeued**, in every run in which no fiber is taken before it has
    yielded, and only then. -/
theorem dequeues_ready_iff (h : SchedulerRun attempts result) :
    (∀ x ∈ attempts, x.Safe) ↔ ∀ x ∈ attempts, x.Fits := by
  refine Attempts.forall_iff inv_begins ?_ ?_ h
  · intro s a s' hinv _ _ hs'
    exact hinv.step hs'
  · intro s a hinv _
    constructor
    · intro hsafe t f ha htakes
      exact (hinv.ready_iff htakes).mp (hsafe.ready t f ha htakes)
    · intro hfits
      have hready : ∀ t f, a = .dequeue t → s.Takes t f → s.fibers[f]? = some .ready :=
        fun t f ha htakes => (hinv.ready_iff htakes).mpr (hfits t f ha htakes)
      refine ⟨hready, ?_, fun f t t' => hinv.runsOn_unique⟩
      rintro t rfl hfault
      obtain ⟨f, htakes, hnot⟩ := Scheduler.takes_of_fault hfault
      exact hnot (hready t f rfl htakes)

section sleeper

/-- A run goes on. -/
private theorem run_steps {s s' : Scheduler} (h : SchedulerRun attempts (.ok s))
    (actions : List SchedulerAction) (hs' : actions.foldlM Scheduler.step s = .ok s') :
    ∃ attempts, SchedulerRun attempts (.ok s') := by
  induction actions generalizing attempts s with
  | nil =>
    obtain rfl := Except.ok.inj hs'
    exact ⟨attempts, h⟩
  | cons a actions ih =>
    rw [List.foldlM_cons] at hs'
    cases ha : s.step a with
    | error fault =>
      rw [ha] at hs'
      cases hs'
    | ok next =>
      rw [ha] at hs'
      exact ih (ha ▸ Attempts.step h trivial) hs'

/-- One fiber has been submitted, and one thread has nothing to do. -/
private def submitted : Scheduler where
  fibers := [.ready]
  tasks := [{ work := .fiber 0 }]
  threads := [.scheduling]

/-- One thread takes a fiber that was submitted. -/
theorem dequeues_ready_iff_submitted : SchedulerAttempt.Safe ⟨submitted, .dequeue 0⟩ := by
  have hstart : SchedulerRun [] (.ok (Scheduler.start 1)) := .start ⟨1, rfl⟩
  have hsubmitted : SchedulerRun [⟨Scheduler.start 1, .submitFiber none⟩] (.ok submitted) :=
    .step hstart trivial
  have hrun : SchedulerRun _ (submitted.step (.dequeue 0)) := .step hsubmitted trivial
  refine (dequeues_ready_iff hrun).mpr ?_ _ (List.mem_append_right _ (List.mem_singleton_self _))
  intro x hx
  rcases List.mem_append.mp hx with hx | hx
  · obtain rfl := List.mem_singleton.mp hx
    rintro t f ⟨⟩
  · obtain rfl := List.mem_singleton.mp hx
    rintro t f - - t' ht'
    have hmem : Worker.armed f ∈ [Worker.scheduling] := List.mem_of_getElem? ht'
    cases List.mem_singleton.mp hmem

/-- Fiber 0 calls `sleep` on thread 0.  Thread 1 lets the timer expire, runs its callback, and comes
    to the task of the fiber before thread 0 yields. -/
theorem dequeue_running_fiber :
    ¬ ∀ (attempts : List SchedulerAttempt) (result : Except SchedulerFault Scheduler),
        SchedulerRun attempts result → ∀ x ∈ attempts, x.Safe := by
  intro hall
  let woken : Scheduler :=
    { fibers := [.running]
      tasks := [{ work := .fiber 0 }]
      threads := [.armed 0, .scheduling] }
  have hstart : SchedulerRun [] (.ok (Scheduler.start 2)) := .start ⟨2, rfl⟩
  obtain ⟨attempts, hwoken⟩ : ∃ attempts, SchedulerRun attempts (.ok woken) :=
    run_steps hstart [.submitFiber none, .dequeue 0, .resume 0, .addTimer 0 0,
      .dequeue 1, .expire 1 1, .enqueue 1, .idleYield 1, .dequeue 1, .resume 1, .callback 1 true]
      (by decide)
  have hlast : SchedulerRun _ (woken.step (.dequeue 1)) := .step hwoken trivial
  have hsafe := hall _ _ hlast _ (List.mem_append_right _ (List.mem_singleton_self _))
  exact hsafe.noPanic 1 rfl rfl

end sleeper

end SchedulerRun

end RaftStore
