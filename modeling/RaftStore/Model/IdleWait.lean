import RaftStore.Model.Timer

namespace RaftStore

/-!
# The wait of the idle loop

One round of `IOManager::idle` up to the end of `epoll_wait`.  What `GetElapsedMS` and
`Scheduler::stopping` return, the counter of pending events and the number of times that
`epoll_wait` is interrupted are parameters.

* `TimerManager.stopping` — `IOManager::stopping`, with the interval to the next timer.
* `clampTimeout`, `waitArgs` — the clamp, and the arguments of the calls of `epoll_wait`.
* `TimerManager.idleWait` — the round.
-/

/-- A `uint64_t` converted to an `int`. -/
def toInt (n : ℕ) : ℤ := Int.bmod n (2 ^ 32)

/-- An `int` converted to a `uint64_t`. -/
def toUInt64 (n : ℤ) : ℕ := (n % (2 ^ 64 : ℕ)).toNat

/-- `MAX_TIMEOUT`. -/
def maxTimeout : ℤ := 5000

/-- The assignment to `next_timeout` before `epoll_wait`. -/
def clampTimeout (nextTimeout : ℕ) : ℕ :=
  if nextTimeout ≠ 2 ^ 64 - 1 then toUInt64 (min (toInt nextTimeout) maxTimeout)
  else toUInt64 maxTimeout

/-- The last arguments of the calls of `epoll_wait`, one more than are interrupted. -/
def waitArgs : ℕ → ℕ → List ℤ
  | 0, nextTimeout => [toInt (clampTimeout nextTimeout)]
  | interrupts + 1, nextTimeout =>
    let nextTimeout := clampTimeout nextTimeout
    toInt nextTimeout :: waitArgs interrupts nextTimeout

namespace TimerManager

variable {β : Type} (m : TimerManager β)

/-- `IOManager::stopping(timeout)`, with the timeout. -/
def stopping (pendingEventCnt : ℕ) (schedulerStopping : Bool) (now : ℕ) :
    Option (Bool × ℕ × TimerManager β) := do
  let (timeout, m) ← m.getNextTimer now
  return (timeout == 2 ^ 64 - 1 && pendingEventCnt == 0 && schedulerStopping, timeout, m)

/-- A round of `idle`: nothing is waited for if the loop ends. -/
def idleWait (pendingEventCnt : ℕ) (schedulerStopping : Bool) (now interrupts : ℕ) :
    Option (List ℤ × TimerManager β) := do
  let (stop, nextTimeout, m) ← m.stopping pendingEventCnt schedulerStopping now
  if stop then return ([], m) else return (waitArgs interrupts nextTimeout, m)

end TimerManager

end RaftStore
