import RaftStore.Lib.OrderedSet
import Mathlib.Algebra.Group.Nat.Defs

namespace RaftStore

/-!
# Timers and their manager

`Timer` and `TimerManager`.  A timer is referred to by its number, in the order in which timers are
created; the set `timers_` holds such numbers in the order of `Timer::Comparator`.

* `Timer.comparator` — by the deadline, then by the address of the object.
* `TimerManager.cancel`, `refresh`, `reset`, `addTimer`, `listExpiredCb`, `getNextTimer` — the
  operations; what `GetElapsedMS` returns and the address of a new object are parameters.

All times are `uint64_t`, so sums and differences are taken modulo `2 ^ 64`.  `none` is a fault: a
null pointer followed or the end of the set erased.
-/

/-- `Timer`; an empty `cb_` is `none`. -/
structure Timer (β : Type) where
  recurring : Bool := false
  ms : ℕ := 0
  next : ℕ := 0
  cb : Option β := none
  addr : ℕ
  deriving DecidableEq, Repr

namespace Timer

variable {β : Type}

/-- `Timer::Timer(ms, cb, recuring, manager)`. -/
def create (ms : ℕ) (cb : Option β) (recurring : Bool) (addr now : ℕ) : Timer β :=
  { recurring, ms, next := (now + ms) % 2 ^ 64, cb, addr }

/-- `Timer::Timer(next)`, for a comparison. -/
def ofNext (next addr : ℕ) : Timer β := { next, addr }

/-- `Timer::Comparator`; `none` is a null pointer. -/
def comparator : Option (Timer β) → Option (Timer β) → Bool
  | none, none => false
  | none, some _ => true
  | some _, none => false
  | some lhs, some rhs =>
    if lhs.next < rhs.next then true
    else if rhs.next < lhs.next then false
    else lhs.addr < rhs.addr

end Timer

/-- `TimerManager`, with the timers created so far. -/
structure TimerManager (β : Type) where
  objects : List (Timer β) := []
  timers : List ℕ := []
  tickled : Bool := false
  previouseTime : ℕ := 0
  deriving DecidableEq, Repr

/-- What a call of `listExpiredCb` leaves: its `expired`, the callbacks and the manager. -/
structure Expiry (β : Type) where
  expired : List ℕ
  cbs : List (Option β)
  manager : TimerManager β
  deriving DecidableEq, Repr

namespace TimerManager

variable {β : Type}

/-- `TimerManager::TimerManager`. -/
def create (now : ℕ) : TimerManager β := { previouseTime := now }

variable (m : TimerManager β)

/-- The timer that a pointer refers to. -/
def timer (id : ℕ) : Option (Timer β) := m.objects[id]?

/-- An assignment to fields of a timer. -/
def setTimer (id : ℕ) (f : Timer β → Timer β) : TimerManager β :=
  { m with objects := m.objects.modify id f }

/-- `timers_.find`. -/
def find (id : ℕ) : ℕ := OrderedSet.find Timer.comparator m.timer (m.timer id) m.timers

/-- `timers_.lower_bound`. -/
def lowerBound (t : Timer β) : ℕ :=
  OrderedSet.lowerBound Timer.comparator m.timer (some t) m.timers

/-- `timers_.erase(it)`. -/
def erase (it : ℕ) : Option (TimerManager β) :=
  if it < m.timers.length then some { m with timers := m.timers.eraseIdx it } else none

/-- `timers_.insert`, with the position. -/
def insert (id : ℕ) : TimerManager β × ℕ :=
  let (timers, it) := OrderedSet.insert Timer.comparator m.timer id m.timers
  ({ m with timers }, it)

/-- `TimerManager::addTimer(val, lock)`, with `at_front`. -/
def addTimerLocked (id : ℕ) : Bool × TimerManager β :=
  let (m, it) := m.insert id
  let atFront := it == 0 && !m.tickled
  (atFront, if atFront then { m with tickled := true } else m)

/-- `new Timer(ms, cb, recurring, this)`, with the pointer. -/
def construct (ms : ℕ) (cb : Option β) (recurring : Bool) (addr now : ℕ) : TimerManager β × ℕ :=
  ({ m with objects := m.objects ++ [Timer.create ms cb recurring addr now] }, m.objects.length)

/-- `TimerManager::addTimer(ms, cb, recurring)`. -/
def addTimer (ms : ℕ) (cb : Option β) (recurring : Bool) (addr now : ℕ) : TimerManager β × ℕ :=
  let (m, timer) := m.construct ms cb recurring addr now
  ((m.addTimerLocked timer).2, timer)

/-- `Timer::cancel`. -/
def cancel (id : ℕ) : Option (Bool × TimerManager β) := do
  let t ← m.timer id
  if t.cb.isSome then
    let m := m.setTimer id fun t => { t with cb := none }
    let it := m.find id
    let m ← m.erase it
    return (true, m)
  else
    return (false, m)

/-- `Timer::refresh`. -/
def refresh (id now : ℕ) : Option (Bool × TimerManager β) := do
  let t ← m.timer id
  if t.cb.isNone then
    return (false, m)
  else
    let it := m.find id
    if it = m.timers.length then
      return (false, m)
    else
      let m ← m.erase it
      let m := m.setTimer id fun t => { t with next := (now + t.ms) % 2 ^ 64 }
      return (true, (m.insert id).1)

/-- `Timer::reset` from the lock on. -/
def resetLocked (id ms : ℕ) (fromNow : Bool) (now : ℕ) : Option (Bool × TimerManager β) := do
  let t ← m.timer id
  if t.cb.isNone then
    return (true, m)
  else
    let it := m.find id
    if it = m.timers.length then
      return (false, m)
    else
      let m ← m.erase it
      let start := if fromNow then now else (t.next + 2 ^ 64 - t.ms) % 2 ^ 64
      let m := m.setTimer id fun t => { t with ms, next := (start + ms) % 2 ^ 64 }
      return (true, (m.addTimerLocked id).2)

/-- `Timer::reset`. -/
def reset (id ms : ℕ) (fromNow : Bool) (now : ℕ) : Option (Bool × TimerManager β) := do
  let t ← m.timer id
  if ms = t.ms ∧ !fromNow then
    return (true, m)
  else
    m.resetLocked id ms fromNow now

/-- `TimerManager::detectClockRolllover`. -/
def detectClockRolllover (now : ℕ) : Bool × TimerManager β :=
  (now < m.previouseTime && now < (m.previouseTime + 2 ^ 64 - 60 * 60 * 1000) % 2 ^ 64,
    { m with previouseTime := now })

/-- One round of the loop of `listExpiredCb` over `expired`, after the callback has been taken. -/
def fire (now id : ℕ) (t : Timer β) : TimerManager β :=
  if t.recurring then
    ((m.setTimer id fun t => { t with next := (now + t.ms) % 2 ^ 64 }).insert id).1
  else
    m.setTimer id fun t => { t with cb := none }

/-- The loop of `listExpiredCb` over `expired`. -/
def expireLoop (now : ℕ) :
    List ℕ → List (Option β) → TimerManager β → Option (List (Option β) × TimerManager β)
  | [], cbs, m => some (cbs, m)
  | id :: expired, cbs, m => do
    let t ← m.timer id
    expireLoop now expired (cbs ++ [t.cb]) (m.fire now id t)

/-- `it` of `listExpiredCb`, after the loop that moves it over the timers of the same deadline. -/
def expiredEnd (rollover : Bool) (now addr : ℕ) : ℕ :=
  let it := if rollover then m.timers.length else m.lowerBound (Timer.ofNext now addr)
  it + ((m.timers.drop it).takeWhile fun id => (m.timer id).any (·.next == now)).length

/-- `TimerManager::listExpiredCb` under the write lock, with `now_ms` read before. -/
def listExpiredLocked (now addr : ℕ) (cbs : List (Option β)) : Option (Expiry β) :=
  match m.timers with
  | [] => some ⟨[], cbs, m⟩
  | first :: _ => do
    let (rollover, m) := m.detectClockRolllover now
    let t ← m.timer first
    if !rollover && now < t.next then
      return ⟨[], cbs, m⟩
    else
      let it := m.expiredEnd rollover now addr
      let expired := m.timers.take it
      let (cbs, m) ← expireLoop now expired cbs { m with timers := m.timers.drop it }
      return ⟨expired, cbs, m⟩

/-- `TimerManager::listExpiredCb`, by one thread alone. -/
def listExpiredCb (now addr : ℕ) (cbs : List (Option β)) : Option (Expiry β) :=
  if m.timers.isEmpty then some ⟨[], cbs, m⟩ else m.listExpiredLocked now addr cbs

/-- `TimerManager::getNextTimer`. -/
def getNextTimer (now : ℕ) : Option (ℕ × TimerManager β) :=
  let m := { m with tickled := false }
  match m.timers with
  | [] => some (2 ^ 64 - 1, m)
  | first :: _ => do
    let next ← m.timer first
    if now ≥ next.next then return (0, m) else return (next.next - now, m)

end TimerManager

end RaftStore
