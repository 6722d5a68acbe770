import RaftStore.Fiber.Events
import RaftStore.Lib.Attempts

namespace RaftStore

/-!
# Threads that share the IO manager

Threads in `addEvent`, `delEvent`, `cancelEvent` and `cancelAll` and in the loop of `idle`, whose
sections under the locks of the contexts come in any order.  What `epoll_wait` reports is kept until
a thread comes to dispatch it.  The kernel is arbitrary.

* `IOThreads` — the manager and the reports on their way.
* `IORun` — the runs, with every step that was attempted; a fault ends a run.
* `IOAttempt.Current` — the step is not the dispatch of a stale report.
* `accounted_iff` — the counter and the contexts are right throughout, and `triggerEvent` is called
  for registered events only, exactly if all steps are current.
-/

variable {β K : Type}

/-- The manager and what `epoll_wait` has reported and no thread has dispatched yet. -/
structure IOThreads (β K : Type) where
  manager : IOManager β K
  reported : List Report := []

/-- A step of some thread.  The sections begin with the pointer that the search in `fdContexts_`
    returned. -/
inductive IOAction (β : Type)
  | addEvent (p fd : ℕ) (event : IOEvent) (cb : Option β) (caller : Caller)
  | delEvent (p fd : ℕ) (event : IOEvent)
  | cancelEvent (p fd : ℕ) (event : IOEvent)
  | cancelAll (p fd : ℕ)
  | resize (size : ℕ)
  | wait (reports : List Report)
  | dispatch (r : Report)

namespace IOManager

/-- The counter, a `size_t`, is the number of bits set in all contexts, and exactly the event
    contexts of these bits are not empty. -/
def Accounted (m : IOManager β K) : Prop :=
  m.pendingEventCnt = m.registered % 2 ^ 64 ∧
    ∀ ctx ∈ m.objects,
      (ctx.events.read = true ↔
        ctx.read.scheduler.isSome ∨ ctx.read.fiber.isSome ∨ ctx.read.cb.isSome) ∧
      (ctx.events.write = true ↔
        ctx.write.scheduler.isSome ∨ ctx.write.fiber.isSome ∨ ctx.write.cb.isSome)

end IOManager

namespace IOThreads

variable (s : IOThreads β K)

/-- The pointers are those of objects; the kernel reports events that are registered, apart from
    errors; what is dispatched has been reported. -/
def Admissible : IOAction β → Prop
  | .addEvent p _ _ _ _ => p < s.manager.objects.length
  | .delEvent p _ _ => p < s.manager.objects.length
  | .cancelEvent p _ _ => p < s.manager.objects.length
  | .cancelAll p _ => p < s.manager.objects.length
  | .resize _ => True
  | .wait reports => ∀ r ∈ reports, ∃ ctx, s.manager.objects[r.ctx]? = some ctx ∧
      ∀ e, r.events.has e = true → ctx.events.has e = true
  | .dispatch r => r ∈ s.reported

variable [Epoll K]

/-- One step. -/
def step : IOAction β → Except IOFault (IOThreads β K)
  | .addEvent p fd event cb caller => do
    let (_, manager) ← s.manager.addEventLocked p fd event cb caller
    return { s with manager }
  | .delEvent p fd event => do
    let (_, manager) ← s.manager.delEventLocked p fd event
    return { s with manager }
  | .cancelEvent p fd event => do
    let (_, manager) ← s.manager.cancelEventLocked p fd event
    return { s with manager }
  | .cancelAll p fd => do
    let (_, manager) ← s.manager.cancelAllLocked p fd
    return { s with manager }
  | .resize size => .ok { s with manager := s.manager.contextResize size }
  | .wait reports => .ok { s with reported := s.reported ++ reports }
  | .dispatch r => do
    let manager ← s.manager.dispatch r
    return { manager, reported := s.reported.erase r }

end IOThreads

/-- A step that was attempted. -/
abbrev IOAttempt (β K : Type) := Attempt (IOThreads β K) (IOAction β)

/-- The step is not the dispatch of a report that meets the registered events and names one that is
    no longer registered (nor is the call of `epoll_ctl` rejected). -/
def IOAttempt.Current [Epoll K] (x : IOAttempt β K) : Prop :=
  match x.action with
  | .dispatch r => ∀ ctx, x.before.manager.objects[r.ctx]? = some ctx →
      ¬ x.before.manager.Stale r ctx
  | _ => True

/-- The runs, with the steps attempted and what the last of them led to. -/
def IORun [Epoll K] : List (IOAttempt β K) → Except IOFault (IOThreads β K) → Prop :=
  Attempts
    (fun result => ∃ tickleFd kernel, result =
      (IOManager.create tickleFd kernel).map fun manager => { manager })
    IOThreads.Admissible fun s a => s.step a

/-! ## The invariant -/

namespace IOManager

variable {m : IOManager β K}

/-- A context that has just been made is consistent. -/
theorem FdContext.consistent_new (fd : ℕ) : ({ fd } : FdContext β).Consistent := by
  intro e
  cases e <;> exact ⟨fun h => by simp [Events.has] at h, fun _ => rfl⟩

/-- Resizing the table registers nothing. -/
theorem registered_contextResize (m : IOManager β K) (size : ℕ) :
    (m.contextResize size).registered = m.registered := by
  simp only [registered, IOManager.contextResize, List.map_append, List.sum_append, List.map_map]
  rw [Nat.add_eq_left, List.sum_eq_zero_iff]
  intro n hn
  obtain ⟨i, -, rfl⟩ := List.mem_map.mp hn
  rfl

/-- Resizing the table keeps the invariant. -/
theorem Inv.contextResize (h : m.Inv) (size : ℕ) : (m.contextResize size).Inv where
  count := by
    rw [registered_contextResize]
    exact h.count
  consistent := by
    intro ctx hctx
    rcases List.mem_append.mp hctx with hctx | hctx
    · exact h.consistent ctx hctx
    · obtain ⟨i, -, rfl⟩ := List.mem_map.mp hctx
      exact FdContext.consistent_new _

/-- The invariant says that the count is right. -/
theorem Inv.accounted (h : m.Inv) : m.Accounted := by
  refine ⟨h.count, fun ctx hctx => ?_⟩
  have hslot : ∀ e, ctx.events.has e = true ↔ (ctx.slot e).scheduler.isSome ∨
      (ctx.slot e).fiber.isSome ∨ (ctx.slot e).cb.isSome := by
    intro e
    refine ⟨fun hhas => .inl ((h.consistent ctx hctx e).1 hhas).1, fun hsome => ?_⟩
    by_contra hnot
    have hempty := (h.consistent ctx hctx e).2 (by simpa using hnot)
    simp [hempty] at hsome
  exact ⟨hslot .read, hslot .write⟩

end IOManager

namespace IOThreads

variable {s s' : IOThreads β K}

/-- The manager is as it should be, and reports are about its objects. -/
structure Inv (s : IOThreads β K) : Prop where
  manager : s.manager.Inv
  reported : ∀ r ∈ s.reported, r.ctx < s.manager.objects.length

/-- There is a context at every address. -/
theorem exists_context {m : IOManager β K} {p : ℕ} (hp : p < m.objects.length) :
    ∃ ctx, m.objects[p]? = some ctx := ⟨_, List.getElem?_eq_getElem hp⟩

/-- A section is a step of the threads. -/
theorem Inv.locked (h : s.Inv) {α : Type} {x : Except IOFault (α × IOManager β K)}
    (hx : Ensures (· ≠ .notRegistered)
      (fun r => r.2.Inv ∧ r.2.objects.length = s.manager.objects.length) x) :
    Ensures (· ≠ .notRegistered) IOThreads.Inv
      (do
        let (_, manager) ← x
        return { s with manager }) :=
  hx.bind fun r hr => ⟨hr.1, fun r' hr' => by
    show r'.ctx < r.2.objects.length
    rw [hr.2]
    exact h.reported r' hr'⟩

variable [Epoll K]

/-- A section leaves the objects in their places. -/
theorem length_of_sectioned {m m' : IOManager β K} {p : ℕ} {call : EpollCall} {events : Events}
    (h : m.Sectioned m' p call events) : m'.objects.length = m.objects.length := by
  rcases h with ⟨-, rfl⟩ | htook
  · rfl
  · obtain ⟨ctx, ctx', -, hobjects, -⟩ := htook.objects
    rw [hobjects, List.length_set]

/-- A step that is current keeps the invariant, or is ended by another `CondPanic`. -/
theorem Inv.step (h : s.Inv) {a : IOAction β} (ha : s.Admissible a)
    (hcur : IOAttempt.Current ⟨s, a⟩) :
    Ensures (· ≠ .notRegistered) IOThreads.Inv (s.step a) := by
  cases a with
  | addEvent p fd event cb caller =>
    obtain ⟨ctx, hctx⟩ := exists_context ha
    refine h.locked ((h.manager.addEventLocked hctx fd cb caller).imp ?_ fun r hr => ?_)
    · rintro f hf rfl
      exact hf
    · exact ⟨hr.1, length_of_sectioned hr.2.2⟩
  | delEvent p fd event =>
    obtain ⟨ctx, hctx⟩ := exists_context ha
    refine h.locked ((h.manager.delEventLocked hctx fd).imp (fun _ hf => hf.elim)
      fun r hr => ⟨hr.1, ?_⟩)
    rcases hr.2 with ⟨-, heq⟩ | ⟨-, hsec⟩
    · rw [heq]
    · exact length_of_sectioned hsec
  | cancelEvent p fd event =>
    obtain ⟨ctx, hctx⟩ := exists_context ha
    refine h.locked ((h.manager.cancelEventLocked hctx fd).imp (fun _ hf => hf.elim)
      fun r hr => ⟨hr.1, ?_⟩)
    rcases hr.2 with ⟨-, heq⟩ | ⟨-, hsec⟩
    · rw [heq]
    · exact length_of_sectioned hsec
  | cancelAll p fd =>
    obtain ⟨ctx, hctx⟩ := exists_context ha
    refine h.locked ((h.manager.cancelAllLocked hctx fd).imp (fun _ hf => hf.elim)
      fun r hr => ⟨hr.1, ?_⟩)
    rcases hr.2 with ⟨-, heq⟩ | ⟨-, hsec⟩
    · rw [heq]
    · exact length_of_sectioned hsec
  | resize size =>
    refine ⟨h.manager.contextResize size, fun r hr => ?_⟩
    show r.ctx < (s.manager.objects ++ _).length
    rw [List.length_append]
    exact (h.reported r hr).trans_le (Nat.le_add_right _ _)
  | wait reports =>
    refine ⟨h.manager, fun r hr => ?_⟩
    rcases List.mem_append.mp hr with hr | hr
    · exact h.reported r hr
    · obtain ⟨ctx, hctx, -⟩ := ha r hr
      exact (List.getElem?_eq_some_iff.mp hctx).1
  | dispatch r =>
    obtain ⟨ctx, hctx⟩ := exists_context (h.reported r ha)
    have hdispatch := (h.manager.dispatch hctx (hcur ctx hctx)).imp
      (F := (· ≠ .notRegistered)) (fun _ hf => hf.elim) fun _ hm' => hm'
    refine hdispatch.bind fun m' hm' => ⟨hm'.1, fun r' hr' => ?_⟩
    have hlen : m'.objects.length = s.manager.objects.length := by
      rcases hm'.2 with ⟨-, heq⟩ | ⟨-, hsec⟩
      · rw [heq]
      · exact length_of_sectioned hsec
    show r'.ctx < m'.objects.length
    rw [hlen]
    exact h.reported r' (List.mem_of_mem_erase hr')

/-- A step that is not current ends the process in `triggerEvent`. -/
theorem Inv.step_error (h : s.Inv) {a : IOAction β} (hcur : ¬ IOAttempt.Current ⟨s, a⟩) :
    s.step a = .error .notRegistered := by
  cases a with
  | dispatch r =>
    obtain ⟨ctx, hctx, hstale⟩ : ∃ ctx, s.manager.objects[r.ctx]? = some ctx ∧
        s.manager.Stale r ctx := by simpa [IOAttempt.Current] using hcur
    rw [IOThreads.step, h.manager.dispatch_error hctx hstale]
    rfl
  | _ => exact absurd trivial hcur

end IOThreads

/-! ## Runs -/

namespace IORun

open IOThreads

variable [Epoll K] {attempts : List (IOAttempt β K)} {result : Except IOFault (IOThreads β K)}

/-- One more action of a run. -/
theorem step {s : IOThreads β K} (h : IORun attempts (.ok s)) {a : IOAction β}
    (ha : s.Admissible a) : IORun (attempts ++ [⟨s, a⟩]) (s.step a) := Attempts.step h ha

/-- The constructor ensures the invariant. -/
theorem inv_create (tickleFd : ℕ) (kernel : K) :
    Ensures (fun _ => True) (fun m => m.Inv)
      (IOManager.create tickleFd kernel : Except IOFault (IOManager β K)) := by
  let call : EpollCall := ⟨.add, tickleFd, { events := IOEvent.read.mask, et := true }⟩
  have hempty : (IOManager.afterCall { tickleFd, kernel } call : IOManager β K).Inv :=
    ⟨rfl, by simp [IOManager.afterCall]⟩
  rw [IOManager.create]
  exact (IOManager.ensures_condPanic fun _ => trivial).bind fun _ _ => hempty.contextResize 32

/-- The invariant holds where a run begins. -/
theorem inv_begins (s : IOThreads β K)
    (h : ∃ tickleFd kernel, Except.ok s =
      (IOManager.create tickleFd kernel).map fun manager => { manager }) : s.Inv := by
  obtain ⟨tickleFd, kernel, h⟩ := h
  obtain ⟨m, hm, rfl⟩ := (inv_create tickleFd kernel).of_map_eq_ok h.symm
  exact ⟨hm, by simp⟩

/-- An action on what is still there keeps the invariant. -/
theorem inv_step (s : IOThreads β K) (a : IOAction β) (s' : IOThreads β K) (h : s.Inv)
    (ha : s.Admissible a) (hcur : IOAttempt.Current ⟨s, a⟩) (hs' : s.step a = .ok s') : s'.Inv :=
  (h.step ha hcur).of_ok hs'

/-- What is claimed of one step, and when it holds. -/
theorem accounted_step (s : IOThreads β K) (a : IOAction β) (h : s.Inv) (ha : s.Admissible a) :
    s.manager.Accounted ∧ s.step a ≠ .error .notRegistered ↔ IOAttempt.Current ⟨s, a⟩ := by
  constructor
  · rintro ⟨-, hcalls⟩
    by_contra hcur
    exact hcalls (h.step_error hcur)
  · intro hcur
    exact ⟨h.manager.accounted, fun herror => (h.step ha hcur).of_error herror rfl⟩

/-- **IO event accounting**, if every step is current, and only then. -/
theorem accounted_iff (h : IORun attempts result) :
    ((∀ s, result = .ok s → s.manager.Accounted) ∧
      ∀ x ∈ attempts, x.before.manager.Accounted ∧
        x.before.step x.action ≠ .error .notRegistered) ↔ ∀ x ∈ attempts, x.Current := by
  have hiff := h.forall_iff (Q := fun x => x.before.manager.Accounted ∧
    x.before.step x.action ≠ .error .notRegistered) inv_begins inv_step accounted_step
  constructor
  · rintro ⟨-, hattempts⟩
    exact hiff.mp hattempts
  · intro hcur
    obtain ⟨hresult, -⟩ := h.invariant inv_begins inv_step hcur
    exact ⟨fun s hs => (hresult s hs).manager.accounted, hiff.mpr hcur⟩

section hangUp

/-- The pipe, as the constructor registers it. -/
private def tickle : ℕ × EpollMask := (3, { events := { read := true }, et := true })

/-- The manager of a process in which only descriptor 7 is used. -/
private def using7 (ctx : FdContext String) (count : ℕ) (interest : List (ℕ × EpollMask)) :
    IOManager String LinuxEpoll :=
  { objects := ((List.range 32).map fun fd => { fd }).set 7 ctx
    fdContexts := List.range 32
    pendingEventCnt := count
    tickleFd := 3
    kernel := { interest } }

/-- A fiber waits to read from descriptor 7. -/
private def reading : IOManager String LinuxEpoll :=
  using7
    { read := { scheduler := some 1, cb := some "reader" }, fd := 7, events := { read := true } }
    1 [(7, { events := { read := true }, et := true, exclusive := true }), tickle]

/-- A fiber waits to write to descriptor 7. -/
private def writing : IOManager String LinuxEpoll :=
  using7
    { write := { scheduler := some 1, cb := some "writer" }, fd := 7, events := { write := true } }
    1 [(7, { events := { write := true }, et := true, exclusive := true }), tickle]

/-- The peer has sent something and closed the connection. -/
private def hangUp : Report := { ctx := 7, events := { read := true }, hup := true }

/-- The fiber that makes the calls. -/
private def caller : Caller := { scheduler := 1, fiber := 1 }

/-- The table reaches past descriptor 7. -/
private theorem lt_seven {ctx : FdContext String} {count : ℕ} {interest : List (ℕ × EpollMask)} :
    7 < (using7 ctx count interest).objects.length := by
  simp [using7]

/-- The run in which the reader comes to wait. -/
private theorem run_reading :
    IORun
      [⟨{ manager := using7 { fd := 7 } 0 [tickle] }, .addEvent 7 7 .read (some "reader") caller⟩]
      (.ok { manager := reading }) :=
  have hstart : IORun [] (.ok { manager := using7 { fd := 7 } 0 [tickle] }) :=
    .start ⟨3, {}, rfl⟩
  hstart.step (a := .addEvent 7 7 .read (some "reader") caller) lt_seven

/-- The count is right while one reader waits. -/
theorem accounted_iff_oneReader : reading.Accounted :=
  (run_reading.accounted_iff.mpr fun x hx => by
    obtain rfl := List.mem_singleton.mp hx
    trivial).1 _ rfl

/-- Between the report and its dispatch another thread deletes the event and waits for the other
    one, which the hang-up counts as reported. -/
theorem accounted_iff_hangUp :
    ¬ ∀ (attempts : List (IOAttempt String LinuxEpoll))
        (result : Except IOFault (IOThreads String LinuxEpoll)), IORun attempts result →
      ∀ x ∈ attempts, x.before.step x.action ≠ .error .notRegistered := by
  intro hall
  have hreported : IORun _ (.ok { manager := reading, reported := [hangUp] }) :=
    run_reading.step (a := .wait [hangUp]) (by
      intro r hr
      obtain rfl := List.mem_singleton.mp hr
      exact ⟨_, rfl, fun e he => he⟩)
  have hdeleted :
      IORun _ (.ok { manager := using7 { fd := 7 } 0 [tickle], reported := [hangUp] }) :=
    hreported.step (a := .delEvent 7 7 .read) lt_seven
  have hwriting : IORun _ (.ok { manager := writing, reported := [hangUp] }) :=
    hdeleted.step (a := .addEvent 7 7 .write (some "writer") caller) lt_seven
  have hdispatched := hwriting.step (a := .dispatch hangUp) (List.mem_singleton_self _)
  exact hall _ _ hdispatched _ (List.mem_append_right _ (List.mem_singleton_self _)) rfl

end hangUp

end IORun

end RaftStore
