import RaftStore.Model.IOManager

namespace RaftStore

/-!
# The scheduler

`Scheduler::run` on any number of threads, `Fiber::resume` and `Fiber::yield`, and the hooks that
make a fiber wait: `sleep`, `usleep`, `nanosleep` and `do_io`.  What a fiber does otherwise is left
open.  The steps are those that a lock makes atomic; the threads take them in any order.  `yield` is
one step too: `Fiber::yield` stores `READY` and then switches contexts without a lock, and a thread
that resumes the fiber in between is left out.

* `FiberState`, `Callback`, `SchedulerTask` — the fibers and the tasks.
* `Worker` — where a thread is between two of its steps.
* `Scheduler` — what the threads share; timers are in the order of their deadlines.
* `SchedulerAction`, `Scheduler.step` — the steps.
-/

/-- `Fiber::State`. -/
inductive FiberState
  | ready
  | running
  | term
  deriving DecidableEq, Repr

/-- A `std::function<void()>` that a timer has or that is scheduled. -/
inductive Callback
  /-- `std::bind(&IOManager::scheduler, iom, fiber, -1)` of the hooks of `sleep` and its kind -/
  | wake (fiber : ℕ)
  /-- the lambda of `do_io`, which cancels an event -/
  | timeout (fd : ℕ) (event : IOEvent)
  /-- any other code -/
  | code
  deriving DecidableEq, Repr

/-- `fiber_` or `cb_` of a task. -/
inductive Work
  | fiber (fiber : ℕ)
  | cb (cb : Callback)
  deriving DecidableEq, Repr

/-- `SchedulerTask`; a thread of -1 is `none`. -/
structure SchedulerTask where
  work : Work
  thread : Option ℕ := none
  deriving DecidableEq, Repr

/-- Where a thread is. -/
inductive Worker
  /-- at the beginning of the loop of `run` -/
  | scheduling
  /-- with a task that was taken from the list -/
  | taken (work : Work)
  /-- in a fiber -/
  | running (fiber : ℕ)
  /-- in a fiber, between `addTimer` or `addEvent` and `yield` -/
  | armed (fiber : ℕ)
  /-- in a callback that does not wait, in a fiber of its own -/
  | calling (cb : Callback)
  /-- in the idle fiber, with what remains to be scheduled -/
  | idle (pending : List Work)
  deriving DecidableEq, Repr

/-- The calls of `CondPanic` whose condition is false. -/
inductive SchedulerFault
  /-- `"fiber task state error"` -/
  | fiberTaskState
  /-- `"state error"` of `resume` -/
  | resumeState
  /-- `addEvent` of an event that is registered -/
  | addEvent
  deriving DecidableEq, Repr

/-- What the threads share, and the threads.  `events` has the fiber of each registered event. -/
structure Scheduler where
  fibers : List FiberState := []
  timers : List Callback := []
  events : List ((ℕ × IOEvent) × ℕ) := []
  tasks : List SchedulerTask := []
  threads : List Worker
  deriving DecidableEq, Repr

/-- A step; the first argument is the thread that takes it. -/
inductive SchedulerAction
  /-- Some thread submits a new fiber, or other code, for a thread or for any. -/
  | submitFiber (thread : Option ℕ)
  | submitCode (thread : Option ℕ)
  /-- The locked part of `run`. -/
  | dequeue (t : ℕ)
  /-- `resume` of the task's fiber, or of a new one for its callback. -/
  | resume (t : ℕ)
  /-- The hook of `sleep` adds its timer behind `before` others. -/
  | addTimer (t before : ℕ)
  /-- `do_io` adds a timer for its timeout. -/
  | addConditionTimer (t before fd : ℕ) (event : IOEvent)
  /-- `do_io` registers an event. -/
  | addEvent (t fd : ℕ) (event : IOEvent)
  | yield (t : ℕ)
  /-- `do_io` cancels its timer once it is back. -/
  | cancelTimer (t fd : ℕ) (event : IOEvent)
  /-- A fiber cancels an event, as `close` does. -/
  | cancelEvent (t fd : ℕ) (event : IOEvent)
  /-- The function of a fiber returns. -/
  | terminate (t : ℕ)
  /-- The callback runs; `alive` says whether `do_io` still waits and has not timed out. -/
  | callback (t : ℕ) (alive : Bool)
  /-- `listExpiredCb` in the idle fiber takes the first `n` timers. -/
  | expire (t n : ℕ)
  /-- `triggerEvent` in the idle fiber. -/
  | dispatch (t fd : ℕ) (event : IOEvent)
  /-- The idle fiber schedules what comes next. -/
  | enqueue (t : ℕ)
  | idleYield (t : ℕ)
  deriving DecidableEq, Repr

namespace Scheduler

variable (s : Scheduler)

/-- The state with one thread moved on. -/
def setThread (t : ℕ) (w : Worker) : Scheduler := { s with threads := s.threads.set t w }

/-- The state with one fiber in another state. -/
def setState (fiber : ℕ) (state : FiberState) : Scheduler :=
  { s with fibers := s.fibers.set fiber state }

/-- `schedulerNoLock`. -/
def scheduler (work : Work) (thread : Option ℕ) : Scheduler :=
  { s with tasks := s.tasks ++ [{ work, thread }] }

/-- The insertion of a timer behind those with earlier deadlines. -/
def insertTimer (before : ℕ) (cb : Callback) : Scheduler :=
  { s with timers := s.timers.take before ++ cb :: s.timers.drop before }

/-- The task may run on the thread. -/
def eligible (t : ℕ) (task : SchedulerTask) : Bool := task.thread == none || task.thread == some t

/-- The entry of an event. -/
def findEvent (fd : ℕ) (event : IOEvent) : Option ((ℕ × IOEvent) × ℕ) :=
  s.events.find? fun entry => entry.1 == (fd, event)

/-- The state with one event taken out. -/
def eraseEvent (fd : ℕ) (event : IOEvent) : Scheduler :=
  { s with events := s.events.eraseP fun entry => entry.1 == (fd, event) }

/-- `cancelEvent`, which schedules the fiber if the event is registered. -/
def cancelEvent (fd : ℕ) (event : IOEvent) : Scheduler :=
  match s.findEvent fd event with
  | none => s
  | some (_, fiber) => (s.eraseEvent fd event).scheduler (.fiber fiber) none

/-- The first task that is not for another thread, if there is one. -/
def dequeue (t : ℕ) : Except SchedulerFault Scheduler :=
  match s.tasks.find? (eligible t) with
  | none => .ok (s.setThread t (.idle []))
  | some task =>
    match task.work with
    | .fiber fiber =>
      if s.fibers[fiber]? = some .ready then
        .ok { s.setThread t (.taken task.work) with tasks := s.tasks.eraseP (eligible t) }
      else .error .fiberTaskState
    | .cb _ => .ok { s.setThread t (.taken task.work) with tasks := s.tasks.eraseP (eligible t) }

/-- `Fiber::resume`; other code than the known callbacks gets a fiber. -/
def resume (t : ℕ) (work : Work) : Except SchedulerFault Scheduler :=
  match work with
  | .fiber fiber =>
    if s.fibers[fiber]? ≠ some .term ∧ s.fibers[fiber]? ≠ some .running then
      .ok ((s.setState fiber .running).setThread t (.running fiber))
    else .error .resumeState
  | .cb .code =>
    .ok ({ s with fibers := s.fibers ++ [FiberState.running] }.setThread t
      (.running s.fibers.length))
  | .cb cb => .ok (s.setThread t (.calling cb))

/-- The callback of a timer. -/
def callback (cb : Callback) (alive : Bool) : Scheduler :=
  match cb with
  | .wake fiber => s.scheduler (.fiber fiber) none
  | .timeout fd event => if alive then s.cancelEvent fd event else s
  | .code => s

/-- One step.  What a thread cannot do where it is changes nothing. -/
def step : SchedulerAction → Except SchedulerFault Scheduler
  | .submitFiber thread =>
    .ok ({ s with fibers := s.fibers ++ [FiberState.ready] }.scheduler (.fiber s.fibers.length)
      thread)
  | .submitCode thread => .ok (s.scheduler (.cb .code) thread)
  | .dequeue t =>
    match s.threads[t]? with
    | some .scheduling => s.dequeue t
    | _ => .ok s
  | .resume t =>
    match s.threads[t]? with
    | some (.taken work) => s.resume t work
    | _ => .ok s
  | .addTimer t before =>
    match s.threads[t]? with
    | some (.running fiber) =>
      .ok ((s.insertTimer before (.wake fiber)).setThread t (.armed fiber))
    | _ => .ok s
  | .addConditionTimer t before fd event =>
    match s.threads[t]? with
    | some (.running _) => .ok (s.insertTimer before (.timeout fd event))
    | _ => .ok s
  | .addEvent t fd event =>
    match s.threads[t]? with
    | some (.running fiber) =>
      if (s.findEvent fd event).isSome then .error .addEvent
      else
        .ok ({ s with events := s.events ++ [((fd, event), fiber)] }.setThread t (.armed fiber))
    | _ => .ok s
  | .yield t =>
    match s.threads[t]? with
    | some (.armed fiber) => .ok ((s.setState fiber .ready).setThread t .scheduling)
    | _ => .ok s
  | .cancelTimer t fd event =>
    match s.threads[t]? with
    | some (.running _) => .ok { s with timers := s.timers.erase (.timeout fd event) }
    | _ => .ok s
  | .cancelEvent t fd event =>
    match s.threads[t]? with
    | some (.running _) => .ok (s.cancelEvent fd event)
    | _ => .ok s
  | .terminate t =>
    match s.threads[t]? with
    | some (.running fiber) => .ok ((s.setState fiber .term).setThread t .scheduling)
    | _ => .ok s
  | .callback t alive =>
    match s.threads[t]? with
    | some (.calling cb) => .ok ((s.callback cb alive).setThread t .scheduling)
    | _ => .ok s
  | .expire t n =>
    match s.threads[t]? with
    | some (.idle pending) =>
      .ok ({ s with timers := s.timers.drop n }.setThread t
        (.idle (pending ++ (s.timers.take n).map Work.cb)))
    | _ => .ok s
  | .dispatch t fd event =>
    match s.threads[t]?, s.findEvent fd event with
    | some (.idle pending), some (_, fiber) =>
      .ok ((s.eraseEvent fd event).setThread t (.idle (pending ++ [.fiber fiber])))
    | _, _ => .ok s
  | .enqueue t =>
    match s.threads[t]? with
    | some (.idle (work :: pending)) =>
      .ok ((s.scheduler work none).setThread t (.idle pending))
    | _ => .ok s
  | .idleYield t =>
    match s.threads[t]? with
    | some (.idle []) => .ok (s.setThread t .scheduling)
    | _ => .ok s

/-- `n` threads that start, and no fiber yet. -/
def start (n : ℕ) : Scheduler := { threads := List.replicate n .scheduling }

end Scheduler

end RaftStore
