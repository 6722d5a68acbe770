import RaftStore.Model.FdManager
import RaftStore.Lib.Transition

namespace RaftStore

/-!
# Blocking calls

Embeds `do_io` and `connect_with_timeout` for any number of fibers that use one descriptor for one
kind of event, with the timers that they arm and the callbacks of those that expire.  A step is what
a lock makes atomic or one access to `tinfo`; fibers, callbacks and the idle threads take theirs in
any order.  The system call behind a hook returns anything, and so does `epoll_ctl`.

* `HookKind.entry`, `HookKind.after` — the tests before the first call, and what follows an outcome.
* `TimerStage`, `HookedCall` — where a timer and a call are.
* `HookedCall.move` — the steps of one call and of its timers.
* `HookedFd.step` — the same with the registration of the event.
-/

/-! ## Outcomes -/

/-- What a system call returns: a number, or -1 with `errno`. -/
inductive IOOutcome
  | value (n : ℕ)
  | error (errno : ℕ)
  deriving DecidableEq, Repr

/-- `EINTR`. -/
def eintr : ℕ := 4

/-- `EAGAIN`. -/
def eagain : ℕ := 11

/-- `EINPROGRESS`. -/
def einprogress : ℕ := 115

/-- How a hooked call ends. -/
inductive HookResult
  /-- with the outcome of the system call -/
  | returned (outcome : IOOutcome)
  /-- -1 with `ETIMEDOUT` -/
  | timedOut
  /-- -1 with the error of `epoll_ctl` -/
  | notRegistered (errno : ℕ)
  /-- -1 with `EBADF` -/
  | badFd
  deriving DecidableEq, Repr

/-- Where a call is. -/
inductive HookPhase
  /-- before the system call, whose outcome is returned as it is -/
  | direct
  /-- before the system call -/
  | trying
  /-- behind an outcome that means to wait -/
  | again
  /-- before `addEvent` -/
  | registering
  /-- behind `addEvent` -/
  | waiting
  /-- scheduled by `triggerEvent`, before `timer->cancel()` -/
  | woken
  /-- before the test of `tinfo` -/
  | checking
  /-- behind `addEvent`, which failed -/
  | failed (errno : ℕ)
  /-- before `getsockopt` -/
  | sockopt
  | done (result : HookResult)
  deriving DecidableEq, Repr

/-- `do_io`, or `connect_with_timeout`. -/
inductive HookKind
  | io
  | connect
  deriving DecidableEq, Repr

namespace HookKind

/-- The tests at the beginning. -/
def entry (kind : HookKind) (hookEnable : Bool) (ctx : Option FdCtx) : HookPhase :=
  if !hookEnable then .direct
  else
    match kind, ctx with
    | .io, none => .direct
    | .connect, none => .done .badFd
    | _, some ctx =>
      if ctx.isClosed then .done .badFd
      else if !ctx.isSocket || ctx.userNonblock then .direct
      else .trying

/-- What follows the first system call, and in `do_io` each further one. -/
def after (kind : HookKind) (outcome : IOOutcome) : HookPhase :=
  match kind with
  | .io =>
    if outcome = .error eintr then .trying
    else if outcome = .error eagain then .again
    else .done (.returned outcome)
  | .connect => if outcome = .error einprogress then .again else .done (.returned outcome)

/-- What follows the wait, unless it timed out. -/
def resumed : HookKind → HookPhase
  | .io => .trying
  | .connect => .sockopt

/-- What follows an `addEvent` that failed, once the timer is cancelled. -/
def unregistered (kind : HookKind) (errno : ℕ) : HookPhase :=
  match kind with
  | .io => .done (.notRegistered errno)
  | .connect => .sockopt

end HookKind

/-! ## One call -/

/-- Where a timer of `addConditionTimer` is. -/
inductive TimerStage
  | armed
  /-- taken by `listExpiredCb`, before `winfo.lock()` -/
  | expired
  /-- before the test of `tinfo` -/
  | locked
  /-- before the assignment to `tinfo` -/
  | tested
  /-- before `cancelEvent` -/
  | flagged
  | finished
  /-- cancelled before it expired -/
  | dropped
  deriving DecidableEq, Repr

namespace TimerStage

/-- The callback has a pointer to `tinfo`. -/
def holds : TimerStage → Bool
  | locked | tested | flagged => true
  | _ => false

/-- `Timer::cancel`. -/
def cancel : TimerStage → TimerStage
  | armed => dropped
  | stage => stage

end TimerStage

/-- A call, with `tinfo` and the timers that it has armed; `outcomes` are those of its system
    calls. -/
structure HookedCall where
  kind : HookKind
  /-- the tests at the beginning left it to the hook to wait -/
  managed : Bool
  /-- the timeout is not -1 -/
  timed : Bool
  phase : HookPhase
  cancelled : Bool := false
  timers : List TimerStage := []
  outcomes : List IOOutcome := []
  deriving DecidableEq, Repr

/-- A step of a call, or of the callback of its timer number `t`. -/
inductive HookMove
  | attempt (outcome : IOOutcome)
  | addConditionTimer
  | cancelTimer
  | check
  | expire (t : ℕ)
  | lock (t : ℕ)
  | test (t : ℕ)
  | flag (t : ℕ)
  deriving DecidableEq, Repr

namespace HookedCall

variable (c : HookedCall)

/-- `tinfo` exists. -/
def alive : Bool :=
  (match c.phase with
    | .done _ => false
    | _ => true) || c.timers.any TimerStage.holds

/-- One step. -/
def move : HookMove → Option HookedCall
  | .attempt outcome =>
    match c.phase with
    | .direct | .sockopt =>
      some { c with
        phase := .done (.returned outcome)
        outcomes := c.outcomes ++ [outcome] }
    | .trying =>
      some { c with
        phase := c.kind.after outcome
        outcomes := c.outcomes ++ [outcome] }
    | _ => none
  | .addConditionTimer =>
    match c.phase with
    | .again =>
      some { c with
        phase := .registering
        timers := if c.timed then c.timers ++ [.armed] else c.timers }
    | _ => none
  | .cancelTimer =>
    match c.phase with
    | .woken =>
      some { c with
        phase := .checking
        timers := c.timers.modify (c.timers.length - 1) TimerStage.cancel }
    | .failed errno =>
      some { c with
        phase := c.kind.unregistered errno
        timers := c.timers.modify (c.timers.length - 1) TimerStage.cancel }
    | _ => none
  | .check =>
    match c.phase with
    | .checking =>
      some { c with phase := if c.cancelled then .done .timedOut else c.kind.resumed }
    | _ => none
  | .expire t =>
    match c.timers[t]? with
    | some .armed => some { c with timers := c.timers.set t .expired }
    | _ => none
  | .lock t =>
    match c.timers[t]? with
    | some .expired =>
      some { c with timers := c.timers.set t (if c.alive then .locked else .finished) }
    | _ => none
  | .test t =>
    match c.timers[t]? with
    | some .locked =>
      some { c with timers := c.timers.set t (if c.cancelled then .finished else .tested) }
    | _ => none
  | .flag t =>
    match c.timers[t]? with
    | some .tested => some { c with cancelled := true, timers := c.timers.set t .flagged }
    | _ => none

end HookedCall

/-! ## The descriptor -/

/-- The calls, and the one whose fiber is registered; `panicked` says that a `CondPanic` of
    `addEvent` has ended the process. -/
structure HookedFd where
  calls : List HookedCall := []
  registered : Option ℕ := none
  panicked : Bool := false
  deriving DecidableEq, Repr

/-- The steps. -/
inductive HookStep
  /-- A call of a hook; a timeout of -1 is `none`. -/
  | enter (kind : HookKind) (hookEnable : Bool) (ctx : Option FdCtx) (timeout : Option ℕ)
  | move (k : ℕ) (m : HookMove)
  /-- `addEvent`, with the error of `epoll_ctl`. -/
  | addEvent (k : ℕ) (error : Option ℕ)
  /-- `triggerEvent`, by an idle thread or by other code that cancels the event. -/
  | trigger
  /-- `cancelEvent` in a callback; `error` says that `epoll_ctl` fails. -/
  | cancelEvent (k t : ℕ) (error : Bool)
  deriving DecidableEq

namespace HookedFd

variable (s : HookedFd)

/-- The state with one call moved on. -/
def setCall (k : ℕ) (c : HookedCall) : HookedFd := { s with calls := s.calls.set k c }

/-- `triggerEvent`, if the event is registered. -/
def trigger : HookedFd :=
  match s.registered with
  | none => s
  | some k =>
    { s with
      calls := s.calls.modify k fun c => { c with phase := .woken }
      registered := none }

/-- One step. -/
def step : HookStep → Option HookedFd
  | .enter kind hookEnable ctx timeout =>
    if s.panicked then none
    else
      some { s with
        calls := s.calls ++
          [{ kind
             managed := kind.entry hookEnable ctx == .trying
             timed := timeout.isSome
             phase := kind.entry hookEnable ctx }] }
  | .move k m =>
    if s.panicked then none
    else
      match s.calls[k]? with
      | some c => (c.move m).map (s.setCall k)
      | none => none
  | .addEvent k error =>
    if s.panicked then none
    else
      match s.calls[k]? with
      | some c =>
        match c.phase with
        | .registering =>
          if s.registered.isSome then some { s with panicked := true }
          else
            match error with
            | some errno => some (s.setCall k { c with phase := .failed errno })
            | none => some { s.setCall k { c with phase := .waiting } with registered := some k }
        | _ => none
      | none => none
  | .trigger => if s.panicked then none else some s.trigger
  | .cancelEvent k t error =>
    if s.panicked then none
    else
      match s.calls[k]? with
      | some c =>
        match c.timers[t]? with
        | some .flagged =>
          let s := s.setCall k { c with timers := c.timers.set t .finished }
          some (if error then s else s.trigger)
        | _ => none
      | none => none

end HookedFd

end RaftStore
