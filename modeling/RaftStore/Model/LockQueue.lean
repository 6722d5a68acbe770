import Mathlib.Algebra.Group.Nat.Defs
import RaftStore.Lib.Transition

namespace RaftStore

/-!
# The blocking queue

Embeds `LockQueue` for any number of consumers: what a thread does while it holds the mutex is one
step, and a wait on the condition variable is where it lets go of it.  A wait may end without a
notification, and `wait_until` may say that the time is up although there was one.

* `QueueThread` — where a consumer is.
* `LockQueue.step` — the steps of consumers and producers; what was pushed and what was returned is
  recorded.
-/

/-- Where a consumer is; `timed` for `timeOutPop`, else `Pop`. -/
inductive QueueThread
  /-- in no call -/
  | outside
  /-- in the wait on `m_condvariable` -/
  | waiting (timed : Bool)
  /-- no longer waiting, because it was notified or without that, and about to look at the queue
      again -/
  | woken (timed notified : Bool)
  deriving DecidableEq, Repr

/-- `LockQueue` and its consumers. -/
structure LockQueue (T : Type) where
  queue : List T := []
  threads : List QueueThread
  pushed : List T := []
  popped : List (ℕ × T) := []

/-- The steps. -/
inductive QueueStep (T : Type)
  /-- `Push`; `notify_one` ends the wait of a thread that waits, if there is one. -/
  | push (data : T) (notified : Option ℕ)
  /-- A call of `Pop` or `timeOutPop` up to its wait or its return. -/
  | pop (i : ℕ)
  | timeOutPop (i : ℕ)
  /-- A wait that ends without a notification. -/
  | wakeUp (i : ℕ)
  /-- The next look at the queue behind a wait. -/
  | resume (i : ℕ)
  /-- `wait_until` returns `timeout`, and `timeOutPop` returns `false`. -/
  | timeout (i : ℕ)

namespace LockQueue

variable {T : Type}

/-- The loop around the wait, from the test on. -/
def take (s : LockQueue T) (i : ℕ) (timed : Bool) : LockQueue T :=
  match s.queue with
  | [] => { s with threads := s.threads.set i (.waiting timed) }
  | data :: queue =>
    { s with
      queue
      threads := s.threads.set i .outside
      popped := s.popped ++ [(i, data)] }

/-- Some thread waits. -/
def hasWaiting (s : LockQueue T) : Bool :=
  s.threads.any fun w => w == .waiting false || w == .waiting true

/-- One step. -/
def step (s : LockQueue T) : QueueStep T → Option (LockQueue T)
  | .push data none =>
    if s.hasWaiting then none
    else some { s with queue := s.queue ++ [data], pushed := s.pushed ++ [data] }
  | .push data (some i) =>
    match s.threads[i]? with
    | some (.waiting timed) =>
      some { s with
        queue := s.queue ++ [data]
        threads := s.threads.set i (.woken timed true)
        pushed := s.pushed ++ [data] }
    | _ => none
  | .pop i =>
    match s.threads[i]? with
    | some .outside => some (s.take i false)
    | _ => none
  | .timeOutPop i =>
    match s.threads[i]? with
    | some .outside => some (s.take i true)
    | _ => none
  | .wakeUp i =>
    match s.threads[i]? with
    | some (.waiting timed) => some { s with threads := s.threads.set i (.woken timed false) }
    | _ => none
  | .resume i =>
    match s.threads[i]? with
    | some (.woken timed _) => some (s.take i timed)
    | _ => none
  | .timeout i =>
    match s.threads[i]? with
    | some (.waiting true) | some (.woken true _) =>
      some { s with threads := s.threads.set i .outside }
    | _ => none

/-- An empty queue with `n` consumers. -/
def start (n : ℕ) : LockQueue T := { threads := List.replicate n .outside }

end LockQueue

end RaftStore
