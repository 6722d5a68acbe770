import RaftStore.Lib.Transition
import RaftStore.Model.Raft

namespace RaftStore

/-!
# The two tickers

Embeds `electionTimeOutTicker` and `leaderHearBeatTicker`, the loops of the two fibers that call
`doElection` and `doHeartBeat`.  A step is one block under the lock, one unlocked access to a
member that other threads write, or the end of a `usleep`; other threads move in between.  Time is
in nanoseconds.  The system clock and the monotonic clock, which is `boot` ahead of it, are not
adjusted; what the random number generator draws is a parameter.  To read the clock and to arm the
`usleep` that follows is one step, so no time passes between the two; in the runs of `prompt` none
passes in any step of the loop itself, nor while it waits for the lock.

* `usleep` — the hook: a timer of whole milliseconds.
* `TickerKind` — where the two loops differ.
* `Ticker.step` — one loop.
* `TimedNode.step` — the loop with the clock and the other threads of its node.
-/

/-! ## Times -/

/-- `debugMul`. -/
def debugMul : ℕ := 1

/-- `HeartBeatTimeout`. -/
def heartBeatTimeout : ℕ := 25 * debugMul

/-- `minRandomizedElectionTime`. -/
def minRandomizedElectionTime : ℕ := 300 * debugMul

/-- `maxRandomizedElectionTime`. -/
def maxRandomizedElectionTime : ℕ := 500 * debugMul

/-- `std::chrono::milliseconds`. -/
def milliseconds (n : ℕ) : ℕ := n * 1000000

/-- `GetElapsedMS`. -/
def getElapsedMS (boot now : ℕ) : ℕ := (boot + now) / 1000000

/-- `usleep` on a fiber: when its timer expires, as `GetElapsedMS` tells it. -/
def usleep (boot now usec : ℕ) : ℕ := getElapsedMS boot now + usec / 1000

/-! ## The loops -/

/-- What the two loops do differently. -/
structure TickerKind where
  /-- The condition of the inner loop; what is called at the end of a turn does nothing under it. -/
  idle : Status → Bool
  /-- The argument of the `usleep` in the inner loop. -/
  nap : ℕ
  /-- The bounds on the timeout, in milliseconds. -/
  minTimeout : ℕ
  maxTimeout : ℕ
  /-- `m_status` after what is called at the end of a turn. -/
  after : Status → Status
  idle_after : ∀ status, idle (after status) = idle status
  two_le : 2 ≤ minTimeout
  le : minTimeout ≤ maxTimeout

/-- `electionTimeOutTicker`. -/
def electionTimeOutTicker : TickerKind where
  idle := fun status => status == .leader
  nap := heartBeatTimeout
  minTimeout := minRandomizedElectionTime
  maxTimeout := maxRandomizedElectionTime
  after := fun status => if status = .leader then status else .candidate
  idle_after := fun status => by cases status <;> rfl
  two_le := by decide
  le := by decide

/-- `leaderHearBeatTicker`. -/
def leaderHearBeatTicker : TickerKind where
  idle := fun status => status != .leader
  nap := 1000 * heartBeatTimeout
  minTimeout := heartBeatTimeout
  maxTimeout := heartBeatTimeout
  after := fun status => status
  idle_after := fun _ => rfl
  two_le := by decide
  le := le_rfl

/-- Where a loop is. -/
inductive TickerPhase
  /-- at the condition of the inner loop -/
  | testing
  /-- in the `usleep` of the inner loop, up to the given time -/
  | napping (expiry : ℕ)
  /-- before the block that reads the clock -/
  | reading
  /-- in the other `usleep` -/
  | sleeping (wakeTime expiry : ℕ)
  /-- before the comparison with `wakeTime` -/
  | comparing (wakeTime : ℕ)
  /-- before `doElection` or `doHeartBeat` -/
  | firing
  deriving DecidableEq, Repr

/-- A loop, with the member that it times: `m_lastResetElectionTime` or
    `m_lastResetHearBeatTime`. -/
structure Ticker where
  lastReset : ℕ
  phase : TickerPhase := .testing
  deriving DecidableEq, Repr

/-- The steps of a loop. -/
inductive TickerMove
  | test
  | wake
  /-- The block under the lock, with the timeout it draws, and the test of `suitableSleepTime`. -/
  | read (timeout : ℕ)
  | compare
  | fire
  deriving DecidableEq, Repr

namespace Ticker

/-- `suitableSleepTime`. -/
def suitableSleepTime (t : Ticker) (timeout now : ℕ) : ℤ :=
  (milliseconds timeout : ℤ) + t.lastReset - now

/-- The `wakeTime` that the loop holds. -/
def wakeTime (t : Ticker) : Option ℕ :=
  match t.phase with
  | .sleeping wakeTime _ => some wakeTime
  | .comparing wakeTime => some wakeTime
  | _ => none

/-- The assignment of `now()` to the member. -/
def reset (t : Ticker) (now : ℕ) : Ticker := { t with lastReset := now }

/-- A step at the given time, with the `m_status` of the node. -/
def step (k : TickerKind) (boot now : ℕ) (status : Status) (t : Ticker) :
    TickerMove → Option Ticker
  | .test =>
    match t.phase with
    | .testing => some { t with
        phase := if k.idle status then .napping (usleep boot now k.nap) else .reading }
    | _ => none
  | .wake =>
    match t.phase with
    | .napping expiry =>
      if expiry ≤ getElapsedMS boot now then some { t with phase := .testing } else none
    | .sleeping wakeTime expiry =>
      if expiry ≤ getElapsedMS boot now then some { t with phase := .comparing wakeTime } else none
    | _ => none
  | .read timeout =>
    match t.phase with
    | .reading =>
      if k.minTimeout ≤ timeout ∧ timeout ≤ k.maxTimeout then
        let suitable := t.suitableSleepTime timeout now
        some { t with
          phase := if 1000000 < suitable
            then .sleeping now (usleep boot now (suitable / 1000).toNat)
            else .comparing now }
      else none
    | _ => none
  | .compare =>
    match t.phase with
    | .comparing wakeTime =>
      some { t with phase := if wakeTime < t.lastReset then .testing else .firing }
    | _ => none
  | .fire =>
    match t.phase with
    | .firing => some
        { lastReset := if k.idle status then t.lastReset else now
          phase := .testing }
    | _ => none

/-- Whether the clock can go on by `ns` if the fiber is woken at most `slack` late and needs no
    time for its own steps. -/
def prompt (boot slack now : ℕ) (t : Ticker) (ns : ℕ) : Bool :=
  match t.phase with
  | .napping expiry => decide (boot + now + ns ≤ expiry * 1000000 + slack)
  | .sleeping _ expiry => decide (boot + now + ns ≤ expiry * 1000000 + slack)
  | _ => ns == 0

end Ticker

/-! ## One node -/

/-- A node as one of its tickers sees it. -/
structure TimedNode where
  now : ℕ
  status : Status
  ticker : Ticker
  deriving DecidableEq, Repr

/-- What can happen. -/
inductive TimedMove
  /-- Time passes. -/
  | tick (ns : ℕ)
  /-- The ticker moves. -/
  | ticker (move : TickerMove)
  /-- Another thread assigns `now()`. -/
  | reset
  /-- Another thread assigns `m_status`. -/
  | become (status : Status)
  deriving DecidableEq, Repr

/-- The clock and the ticker, without the other threads. -/
def TimedMove.own : TimedMove → Bool
  | .tick _ => true
  | .ticker _ => true
  | _ => false

namespace TimedNode

/-- After `Raft::init`. -/
def init (now : ℕ) : TimedNode where
  now
  status := .follower
  ticker := { lastReset := now }

/-- One step. -/
def step (k : TickerKind) (boot : ℕ) (s : TimedNode) : TimedMove → Option TimedNode
  | .tick ns => some { s with now := s.now + ns }
  | .ticker move => do
    let ticker ← s.ticker.step k boot s.now s.status move
    return { s with ticker, status := if move = .fire then k.after s.status else s.status }
  | .reset => some { s with ticker := s.ticker.reset s.now }
  | .become status => some { s with status }

/-- The steps of runs in which the fiber is woken at most `slack` late. -/
def prompt (boot slack : ℕ) (s : TimedNode) : TimedMove → Bool
  | .tick ns => s.ticker.prompt boot slack s.now ns
  | _ => true

end TimedNode

end RaftStore
