import Mathlib.Algebra.Group.Nat.Defs
import RaftStore.Lib.Transition

namespace RaftStore

/-!
# The end of the worker threads

Embeds what decides when a thread of the pool ends: the loop of `Scheduler::run` with its idle
fiber, the loop of `IOManager::idle`, the three reads of `IOManager::stopping`, and
`Scheduler::stop`.  What a task does is open: it may submit tasks, arm and cancel timers, and
register and cancel events.  Code outside may submit a task at any time.

* `PoolThread` — where a thread is.
* `PoolShared` — what the threads share, as far as `stopping` reads it.
* `PoolAction`, `ThreadPool.step` — the steps.
-/

/-- Where a thread is; `idleTerm` says whether its idle fiber has ended. -/
inductive PoolThread
  /-- at the beginning of the loop of `run` -/
  | scheduling (idleTerm : Bool)
  /-- with a task -/
  | running (idleTerm : Bool)
  /-- in `stopping`, before `getNextTimer` -/
  | readTimers
  /-- in `stopping`, before `pendingEventCnt_` -/
  | readPending
  /-- in `stopping`, before `Scheduler::stopping` -/
  | readTasks
  /-- in `epoll_wait` -/
  | waiting
  /-- behind `listExpiredCb`, with so many callbacks to schedule -/
  | expired (cbs : ℕ)
  /-- behind `triggerEvent`, before `--pendingEventCnt_` -/
  | triggered
  /-- behind `run` -/
  | ended
  deriving DecidableEq, Repr

/-- What the threads share.  A task is known by its thread only; `events` counts the events that are
    registered. -/
structure PoolShared where
  isStopped : Bool := false
  tasks : List (Option ℕ) := []
  activeThreadCnt : ℕ := 0
  timers : ℕ := 0
  events : ℕ := 0
  pendingEventCnt : ℕ := 0
  deriving DecidableEq, Repr

/-- The pool. -/
structure ThreadPool where
  shared : PoolShared := {}
  threads : List PoolThread
  deriving DecidableEq, Repr

/-- What a thread does next. -/
inductive PoolMove
  /-- The locked part of `run`, and what follows if there is no task. -/
  | dequeue
  /-- A task submits a task. -/
  | schedule (thread : Option ℕ)
  | addTimer
  | cancelTimer
  | addEvent
  | delEvent
  /-- `cancelEvent`, which schedules a task. -/
  | cancelEvent
  /-- The task returns or waits. -/
  | finish
  /-- The next read of `stopping`. -/
  | read
  /-- `epoll_wait` returns; `listExpiredCb` takes `n` timers, of which `recurring` are armed again. -/
  | listExpiredCb (n recurring : ℕ)
  /-- An expired callback is scheduled. -/
  | enqueue
  | triggerEvent
  /-- `--pendingEventCnt_`. -/
  | settle
  | idleYield
  deriving DecidableEq, Repr

/-- The steps. -/
inductive PoolAction
  /-- Code outside submits a task. -/
  | submit (thread : Option ℕ)
  /-- `Scheduler::stop` up to the waiting for the threads. -/
  | stop
  | move (t : ℕ) (a : PoolMove)
  deriving DecidableEq, Repr

namespace PoolShared

variable (g : PoolShared)

/-- The state with one more task. -/
def schedule (thread : Option ℕ) : PoolShared := { g with tasks := g.tasks ++ [thread] }

/-- The task may run on thread `t`. -/
def eligible (t : ℕ) (thread : Option ℕ) : Bool := thread == none || thread == some t

/-- One move of thread `t`. -/
def move (t : ℕ) : PoolThread → PoolMove → Option (PoolShared × PoolThread)
  | .scheduling idleTerm, .dequeue =>
    match g.tasks.find? (eligible t) with
    | some _ =>
      some ({ g with
        tasks := g.tasks.eraseP (eligible t)
        activeThreadCnt := g.activeThreadCnt + 1 }, .running idleTerm)
    | none => some (g, if idleTerm then .ended else .readTimers)
  | .running idleTerm, .schedule thread => some (g.schedule thread, .running idleTerm)
  | .running idleTerm, .addTimer => some ({ g with timers := g.timers + 1 }, .running idleTerm)
  | .running idleTerm, .cancelTimer => some ({ g with timers := g.timers - 1 }, .running idleTerm)
  | .running idleTerm, .addEvent =>
    some ({ g with events := g.events + 1, pendingEventCnt := g.pendingEventCnt + 1 },
      .running idleTerm)
  | .running idleTerm, .delEvent =>
    if 0 < g.events then
      some ({ g with events := g.events - 1, pendingEventCnt := g.pendingEventCnt - 1 },
        .running idleTerm)
    else none
  | .running idleTerm, .cancelEvent =>
    if 0 < g.events then
      some ({ g.schedule none with
        events := g.events - 1
        pendingEventCnt := g.pendingEventCnt - 1 }, .running idleTerm)
    else none
  | .running idleTerm, .finish =>
    some ({ g with activeThreadCnt := g.activeThreadCnt - 1 }, .scheduling idleTerm)
  | .readTimers, .read => some (g, if g.timers = 0 then .readPending else .waiting)
  | .readPending, .read => some (g, if g.pendingEventCnt = 0 then .readTasks else .waiting)
  | .readTasks, .read =>
    -- the idle fiber ends, and the loop of `run` goes on
    some (g, if g.isStopped ∧ g.tasks.isEmpty ∧ g.activeThreadCnt = 0 then .scheduling true
      else .waiting)
  | .waiting, .listExpiredCb n recurring =>
    if recurring ≤ n ∧ n ≤ g.timers then
      some ({ g with timers := g.timers - n + recurring }, .expired n)
    else none
  | .expired (cbs + 1), .enqueue => some (g.schedule none, .expired cbs)
  | .expired 0, .triggerEvent =>
    if 0 < g.events then some ({ g.schedule none with events := g.events - 1 }, .triggered)
    else none
  | .triggered, .settle => some ({ g with pendingEventCnt := g.pendingEventCnt - 1 }, .expired 0)
  | .expired 0, .idleYield => some (g, .scheduling false)
  | _, _ => none

end PoolShared

namespace ThreadPool

/-- One step. -/
def step (s : ThreadPool) : PoolAction → Option ThreadPool
  | .submit thread => some { s with shared := s.shared.schedule thread }
  | .stop => some { s with shared := { s.shared with isStopped := true } }
  | .move t a => do
    let w ← s.threads[t]?
    let (shared, w) ← s.shared.move t w a
    return { shared, threads := s.threads.set t w }

/-- `n` threads that start. -/
def start (n : ℕ) : ThreadPool := { threads := List.replicate n (.scheduling false) }

end ThreadPool

end RaftStore
