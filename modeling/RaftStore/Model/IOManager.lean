import Mathlib.Algebra.Group.Nat.Defs

namespace RaftStore

/-!
# The IO manager

`FdContext` and `IOManager`: the events that fibers wait for on file descriptors, and the sections
of `addEvent`, `delEvent`, `cancelEvent`, `cancelAll` and `idle` that run under the lock of one
`FdContext`.

* `Events` — a mask of `READ` and `WRITE`, whose bits are those of `EPOLLIN` and `EPOLLOUT`.
* `Epoll`, `LinuxEpoll` — a kernel as it answers `epoll_ctl`, and the one of the documentation.
* `IOManager.addEventLocked` and the like — from the lock of the `FdContext` on.
* `IOManager.addEvent` and the like — with the search in `fdContexts_`, by one thread alone.

A pointer to an `FdContext` is its number in the order of creation.  What is passed to
`Scheduler::scheduler` is collected in `tasks`.
-/

/-- `Event`. -/
inductive IOEvent
  | none
  | read
  | write
  deriving DecidableEq, Repr

/-- A value of `FdContext::events`, which has a bit for `READ` and one for `WRITE`. -/
@[ext] structure Events where
  read : Bool := false
  write : Bool := false
  deriving DecidableEq, Repr

namespace Events

instance : EmptyCollection Events := ⟨⟨false, false⟩⟩

instance : Union Events := ⟨fun a b => ⟨a.read || b.read, a.write || b.write⟩⟩

instance : Inter Events := ⟨fun a b => ⟨a.read && b.read, a.write && b.write⟩⟩

instance : SDiff Events := ⟨fun a b => ⟨a.read && !b.read, a.write && !b.write⟩⟩

/-- The number of bits. -/
def card (a : Events) : ℕ := a.read.toNat + a.write.toNat

/-- `events & event`. -/
def has (a : Events) : IOEvent → Bool
  | .none => false
  | .read => a.read
  | .write => a.write

end Events

/-- The bits of an `Event`. -/
def IOEvent.mask : IOEvent → Events
  | .none => ∅
  | .read => { read := true }
  | .write => { write := true }

/-- `EventContext`; null pointers and an empty callback are `none`. -/
structure EventContext (β : Type) where
  scheduler : Option ℕ := none
  fiber : Option ℕ := none
  cb : Option β := none
  deriving DecidableEq, Repr

/-- A task as it is passed to `Scheduler::scheduler`. -/
inductive Task (β : Type)
  | fiber (fiber : Option ℕ)
  | cb (cb : β)
  deriving DecidableEq, Repr

/-- What ends the process: the calls of `CondPanic` whose condition is false, an index past the end
    of `fdContexts_` and a null pointer. -/
inductive IOFault
  /-- `"getContext error: unknow event"` -/
  | unknownEvent
  /-- `"event hasn't been registed"` -/
  | notRegistered
  /-- `"epoll_ctl error"` -/
  | epollCtl
  /-- `"addevent error, fd = "` -/
  | registered
  /-- `"event_ctx is nullptr"` -/
  | contextInUse
  /-- `"state="` -/
  | notRunning
  /-- `"fd not totally clear"` -/
  | notClear
  | outOfBounds
  | nullPointer
  deriving DecidableEq, Repr

/-- `CondPanic`. -/
def condPanic (condition : Prop) [Decidable condition] (err : IOFault) : Except IOFault Unit :=
  if condition then .ok () else .error err

/-- `++` of a `size_t`. -/
def sizeInc (n : ℕ) : ℕ := (n + 1) % 2 ^ 64

/-- `--` of a `size_t`. -/
def sizeDec (n : ℕ) : ℕ := (n + (2 ^ 64 - 1)) % 2 ^ 64

/-- `FdContext`. -/
structure FdContext (β : Type) where
  read : EventContext β := {}
  write : EventContext β := {}
  fd : ℕ := 0
  events : Events := ∅
  deriving DecidableEq, Repr

namespace FdContext

variable {β : Type} (ctx : FdContext β)

/-- `FdContext::getEveContext`. -/
def getEveContext : IOEvent → Except IOFault (EventContext β)
  | .read => .ok ctx.read
  | .write => .ok ctx.write
  | .none => .error .unknownEvent

/-- An assignment through the reference that `getEveContext` returns. -/
def setEveContext (eventCtx : EventContext β) : IOEvent → FdContext β
  | .read => { ctx with read := eventCtx }
  | .write => { ctx with write := eventCtx }
  | .none => ctx

/-- `FdContext::resetEveContext`. -/
def resetEveContext (event : IOEvent) : FdContext β := ctx.setEveContext {} event

/-- `FdContext::triggerEvent`, with the scheduler and what it is passed. -/
def triggerEvent (event : IOEvent) : Except IOFault ((ℕ × Task β) × FdContext β) := do
  condPanic (ctx.events.has event) .notRegistered
  let ctx := { ctx with events := ctx.events \ event.mask }
  let eventCtx ← ctx.getEveContext event
  match eventCtx.scheduler with
  | none => .error .nullPointer
  | some scheduler =>
    let task := match eventCtx.cb with
      | some cb => .cb cb
      | none => .fiber eventCtx.fiber
    return ((scheduler, task), ctx.resetEveContext event)

end FdContext

/-! ## The kernel -/

/-- The operations of `epoll_ctl`. -/
inductive EpollOp
  | add
  | mod
  | del
  deriving DecidableEq, Repr

/-- `epoll_event::events`: `EPOLLIN` and `EPOLLOUT`, and the mode flags that are used. -/
structure EpollMask where
  events : Events := ∅
  et : Bool := false
  exclusive : Bool := false
  deriving DecidableEq, Repr

/-- The arguments of a call of `epoll_ctl`. -/
structure EpollCall where
  op : EpollOp
  fd : ℕ
  mask : EpollMask
  deriving DecidableEq, Repr

/-- A kernel: whether a call of `epoll_ctl` succeeds, and the state after it. -/
class Epoll (K : Type) where
  ctl : EpollCall → K → Bool × K

/-- An interest list of Linux, by descriptor, with the calls that were rejected. -/
structure LinuxEpoll where
  interest : List (ℕ × EpollMask) := []
  rejected : List EpollCall := []
  deriving DecidableEq, Repr

namespace LinuxEpoll

/-- `EEXIST`, `ENOENT` and `EINVAL` as `epoll_ctl(2)` has them for descriptors that are open. -/
def accepts (k : LinuxEpoll) (call : EpollCall) : Bool :=
  match call.op, k.interest.lookup call.fd with
  | .add, none => true
  | .add, some _ => false
  | .mod, none => false
  | .mod, some mask => !mask.exclusive && !call.mask.exclusive
  | .del, none => false
  | .del, some _ => true

/-- The interest list after a call that is accepted. -/
def update (k : LinuxEpoll) (call : EpollCall) : List (ℕ × EpollMask) :=
  let others := k.interest.filter fun i => i.1 ≠ call.fd
  if call.op = .del then others else (call.fd, call.mask) :: others

instance : Epoll LinuxEpoll where
  ctl call k :=
    if k.accepts call then (true, { k with interest := k.update call })
    else (false, { k with rejected := k.rejected ++ [call] })

end LinuxEpoll

/-- An event that `epoll_wait` has reported. -/
structure Report where
  ctx : ℕ
  events : Events := ∅
  err : Bool := false
  hup : Bool := false
  deriving DecidableEq, Repr

/-- The thread that calls `addEvent`: `Scheduler::GetThis()`, `Fiber::GetThis()` and whether this
    fiber is in state `RUNNING`. -/
structure Caller where
  scheduler : ℕ
  fiber : ℕ
  running : Bool := true
  deriving DecidableEq, Repr

/-! ## The manager -/

/-- `IOManager`, with the objects that it has created. -/
structure IOManager (β K : Type) where
  objects : List (FdContext β) := []
  fdContexts : List ℕ := []
  pendingEventCnt : ℕ := 0
  tickleFd : ℕ
  tasks : List (ℕ × Task β) := []
  kernel : K
  deriving DecidableEq, Repr

namespace IOManager

variable {β K : Type}

section

variable (m : IOManager β K)

/-- The object that a pointer refers to. -/
def context (p : ℕ) : Except IOFault (FdContext β) :=
  match m.objects[p]? with
  | some ctx => .ok ctx
  | none => .error .nullPointer

/-- The object that a pointer refers to is assigned to. -/
def setContext (p : ℕ) (ctx : FdContext β) : IOManager β K :=
  { m with objects := m.objects.set p ctx }

/-- `triggerEvent` and `--pendingEventCnt_`, which follows it everywhere. -/
def trigger (p : ℕ) (event : IOEvent) : Except IOFault (IOManager β K) := do
  let ctx ← m.context p
  let (task, ctx) ← ctx.triggerEvent event
  return { m.setContext p ctx with
    tasks := m.tasks ++ [task]
    pendingEventCnt := sizeDec m.pendingEventCnt }

/-- `IOManager::contextResize`. -/
def contextResize (size : ℕ) : IOManager β K :=
  let kept := m.fdContexts.take size
  let added := List.range (size - kept.length)
  { m with
    objects := m.objects ++ added.map fun i => { fd := kept.length + i }
    fdContexts := kept ++ added.map fun i => m.objects.length + i }

/-- `(int)fdContexts_.size()`. -/
def size : ℤ := Int.bmod m.fdContexts.length (2 ^ 32)

/-- `fdContexts_[fd]`. -/
def contextAt (fd : ℕ) : Except IOFault ℕ :=
  match m.fdContexts[fd]? with
  | some p => .ok p
  | none => .error .outOfBounds

/-- The write-locked part of the search in `addEvent`; `fd * 1.5` is cut to an integer. -/
def growFor (fd : ℕ) : IOManager β K := m.contextResize (fd * 3 / 2)

end

variable [Epoll K]

/-- A call of `epoll_ctl`. -/
def epollCtl (m : IOManager β K) (call : EpollCall) : Bool × IOManager β K :=
  let (ok, kernel) := Epoll.ctl call m.kernel
  (ok, { m with kernel })

/-- `IOManager::IOManager`, with the read end of the pipe. -/
def create (tickleFd : ℕ) (kernel : K) : Except IOFault (IOManager β K) := do
  let m : IOManager β K := { tickleFd, kernel }
  let (ok, m) := m.epollCtl ⟨.add, tickleFd, { events := IOEvent.read.mask, et := true }⟩
  condPanic ok .epollCtl
  return m.contextResize 32

variable (m : IOManager β K)

/-! ### Under the lock of an `FdContext` -/

/-- The call of `epoll_ctl` in `addEvent`. -/
def addCall (fd : ℕ) (events : Events) (event : IOEvent) : EpollCall :=
  ⟨if events ≠ ∅ then .mod else .add, fd,
    { et := true, exclusive := true, events := events ∪ event.mask }⟩

/-- `IOManager::addEvent` from the lock on. -/
def addEventLocked (p fd : ℕ) (event : IOEvent) (cb : Option β) (caller : Caller) :
    Except IOFault (ℤ × IOManager β K) := do
  let ctx ← m.context p
  condPanic (!ctx.events.has event) .registered
  let (ok, m) := m.epollCtl (addCall fd ctx.events event)
  if !ok then
    return (-1, m)
  else
    let m := { m with pendingEventCnt := sizeInc m.pendingEventCnt }
    let ctx := { ctx with events := ctx.events ∪ event.mask }
    let eventCtx ← ctx.getEveContext event
    condPanic (eventCtx.scheduler.isNone ∧ eventCtx.fiber.isNone ∧ eventCtx.cb.isNone) .contextInUse
    let eventCtx := { eventCtx with scheduler := some caller.scheduler }
    match cb with
    | some cb =>
      let eventCtx := { eventCtx with cb := some cb }
      return (0, m.setContext p (ctx.setEveContext eventCtx event))
    | none =>
      condPanic caller.running .notRunning
      let eventCtx := { eventCtx with fiber := some caller.fiber }
      return (0, m.setContext p (ctx.setEveContext eventCtx event))

/-- The call of `epoll_ctl` in `delEvent`, `cancelEvent` and `idle`. -/
def removeCall (fd : ℕ) (newEvents : Events) : EpollCall :=
  ⟨if newEvents ≠ ∅ then .mod else .del, fd, { et := true, events := newEvents }⟩

/-- `IOManager::delEvent` from the lock on. -/
def delEventLocked (p fd : ℕ) (event : IOEvent) : Except IOFault (Bool × IOManager β K) := do
  let ctx ← m.context p
  if !ctx.events.has event then
    return (false, m)
  else
    let newEvents := ctx.events \ event.mask
    let (ok, m) := m.epollCtl (removeCall fd newEvents)
    if !ok then
      return (false, m)
    else
      let m := { m with pendingEventCnt := sizeDec m.pendingEventCnt }
      let ctx := { ctx with events := newEvents }
      let _ ← ctx.getEveContext event
      return (true, m.setContext p (ctx.resetEveContext event))

/-- `IOManager::cancelEvent` from the lock on. -/
def cancelEventLocked (p fd : ℕ) (event : IOEvent) : Except IOFault (Bool × IOManager β K) := do
  let ctx ← m.context p
  if !ctx.events.has event then
    return (false, m)
  else
    let newEvents := ctx.events \ event.mask
    let (ok, m) := m.epollCtl (removeCall fd newEvents)
    if !ok then
      return (false, m)
    else
      let m ← m.trigger p event
      return (true, m)

/-- `triggerEvent` if a bit is set. -/
def triggerIf (p : ℕ) (event : IOEvent) (bit : Bool) : Except IOFault (IOManager β K) :=
  if bit then m.trigger p event else .ok m

/-- `triggerEvent` for the events of a mask, `READ` first. -/
def triggerAll (p : ℕ) (events : Events) : Except IOFault (IOManager β K) := do
  let m ← m.triggerIf p .read events.read
  m.triggerIf p .write events.write

/-- `IOManager::cancelAll` from the lock on. -/
def cancelAllLocked (p fd : ℕ) : Except IOFault (Bool × IOManager β K) := do
  let ctx ← m.context p
  if ctx.events = ∅ then
    return (false, m)
  else
    let (ok, m) := m.epollCtl ⟨.del, fd, {}⟩
    if !ok then
      return (false, m)
    else
      let m ← m.triggerAll p ctx.events
      let ctx ← m.context p
      condPanic (ctx.events = ∅) .notClear
      return (true, m)

/-- `real_events` of `idle`: with `EPOLLERR` or `EPOLLHUP` what is registered counts as reported. -/
def Report.realEvents (r : Report) (registered : Events) : Events :=
  if r.err || r.hup then r.events ∪ registered else r.events

/-- The loop body of `idle` for a report that is not about the pipe. -/
def dispatch (r : Report) : Except IOFault (IOManager β K) := do
  let ctx ← m.context r.ctx
  let realEvents := Report.realEvents r ctx.events
  if ctx.events ∩ realEvents = ∅ then
    return m
  else
    let leftEvents := ctx.events \ realEvents
    let (ok, m) := m.epollCtl (removeCall ctx.fd leftEvents)
    if !ok then
      return m
    else
      m.triggerAll r.ctx realEvents

/-! ### By one thread alone -/

/-- `IOManager::addEvent`. -/
def addEvent (fd : ℕ) (event : IOEvent) (cb : Option β) (caller : Caller) :
    Except IOFault (ℤ × IOManager β K) := do
  let m := if m.size > fd then m else m.growFor fd
  let p ← m.contextAt fd
  m.addEventLocked p fd event cb caller

/-- The search in `delEvent`, `cancelEvent` and `cancelAll`. -/
def withContext (fd : ℕ) (f : ℕ → Except IOFault (Bool × IOManager β K)) :
    Except IOFault (Bool × IOManager β K) :=
  if m.size ≤ fd then .ok (false, m)
  else do
    let p ← m.contextAt fd
    f p

/-- `IOManager::delEvent`. -/
def delEvent (fd : ℕ) (event : IOEvent) : Except IOFault (Bool × IOManager β K) :=
  m.withContext fd fun p => m.delEventLocked p fd event

/-- `IOManager::cancelEvent`. -/
def cancelEvent (fd : ℕ) (event : IOEvent) : Except IOFault (Bool × IOManager β K) :=
  m.withContext fd fun p => m.cancelEventLocked p fd event

/-- `IOManager::cancelAll`. -/
def cancelAll (fd : ℕ) : Except IOFault (Bool × IOManager β K) :=
  m.withContext fd fun p => m.cancelAllLocked p fd

end IOManager

end RaftStore
