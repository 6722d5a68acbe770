import RaftStore.Model.IOManager
import RaftStore.Lib.Ensures
import Mathlib.Algebra.Order.BigOperators.Group.List
import Mathlib.Algebra.Order.Ring.Nat

namespace RaftStore

/-!
# The locked sections of the IO manager

Every section under the lock of an `FdContext` makes at most one call of `epoll_ctl`, and if this
is accepted it changes the registered events of this one context, the event contexts that belong
to them and the counter.

* `FdContext.Consistent` — an event context holds a waiter exactly if its event is registered.
* `IOManager.Inv` — every context is consistent and the counter is the number of events.
* `IOManager.Refused`, `IOManager.Took` — a call was rejected, or was accepted and leaves the
  context with the given events.
* `Inv.addEventLocked`, `Inv.delEventLocked`, `Inv.cancelEventLocked`, `Inv.cancelAllLocked`,
  `Inv.dispatch` — the sections.
-/

/-! ## Masks -/

namespace Events

variable (a b : Events) (e e' : IOEvent)

/-- The empty set has no event. -/
@[simp] theorem has_empty : (∅ : Events).has e = false := by cases e <;> rfl

/-- A union has the events of both. -/
@[simp] theorem has_union : (a ∪ b).has e = (a.has e || b.has e) := by cases e <;> rfl

/-- An intersection has the events that both have. -/
@[simp] theorem has_inter : (a ∩ b).has e = (a.has e && b.has e) := by cases e <;> rfl

/-- A difference has the events that only the first has. -/
@[simp] theorem has_sdiff : (a \ b).has e = (a.has e && !b.has e) := by cases e <;> rfl

/-- `NONE` is in no set. -/
@[simp] theorem has_none : a.has .none = false := rfl

/-- The bit of an event is that event. -/
@[simp] theorem has_mask : e'.mask.has e = decide (e = e' ∧ e ≠ .none) := by
  cases e <;> cases e' <;> rfl

variable {a b e}

/-- Sets with the same events are equal. -/
theorem ext_has (h : ∀ e, a.has e = b.has e) : a = b := Events.ext (h .read) (h .write)

/-- A set is empty iff it has no event. -/
theorem eq_empty_iff : a = ∅ ↔ ∀ e, a.has e = false :=
  ⟨fun h e => by simp [h], fun h => ext_has fun e => by simp [h e]⟩

/-- The empty set counts 0. -/
@[simp] theorem card_empty : (∅ : Events).card = 0 := rfl

/-- A new event counts 1. -/
theorem card_union_mask (h : a.has e = false) (he : e ≠ .none) :
    (a ∪ e.mask).card = a.card + 1 := by
  obtain ⟨r, w⟩ := a
  cases e with
  | none => exact absurd rfl he
  | read => cases w <;> cases h <;> rfl
  | write => cases r <;> cases h <;> rfl

/-- An event that is removed counted 1. -/
theorem card_sdiff_mask (h : a.has e = true) : (a \ e.mask).card + 1 = a.card := by
  obtain ⟨r, w⟩ := a
  cases e with
  | none => cases h
  | read => cases w <;> cases h <;> rfl
  | write => cases r <;> cases h <;> rfl

end Events

/-! ## One context -/

variable {β K : Type}

/-- There is a waiter: a scheduler, and a fiber or a callback. -/
def EventContext.Waiting (c : EventContext β) : Prop :=
  c.scheduler.isSome ∧ (c.fiber.isSome ∨ c.cb.isSome)

namespace FdContext

variable {ctx : FdContext β} {e : IOEvent}

/-- The event context that `getEveContext` refers to. -/
def slot (ctx : FdContext β) : IOEvent → EventContext β
  | .none => {}
  | .read => ctx.read
  | .write => ctx.write

/-- An event context holds a waiter if its event is registered, and is empty if not. -/
def Consistent (ctx : FdContext β) : Prop :=
  ∀ e, (ctx.events.has e = true → (ctx.slot e).Waiting) ∧
    (ctx.events.has e = false → ctx.slot e = {})

/-- The context of a real event is its slot. -/
theorem getEveContext_eq (he : e ≠ .none) : ctx.getEveContext e = .ok (ctx.slot e) := by
  cases e with
  | none => exact absurd rfl he
  | read => rfl
  | write => rfl

/-- An event that is registered is real. -/
theorem ne_none_of_has (h : ctx.events.has e = true) : e ≠ .none := by
  rintro rfl
  simp at h

/-- The slots after one is set. -/
theorem slot_setEveContext (c : EventContext β) (e' : IOEvent) :
    (ctx.setEveContext c e).slot e' = if e' = e ∧ e' ≠ .none then c else ctx.slot e' := by
  cases e <;> cases e' <;> rfl

/-- Setting the events leaves the slots. -/
@[simp] theorem slot_withEvents (a : Events) :
    ({ ctx with events := a } : FdContext β).slot e = ctx.slot e := by cases e <;> rfl

/-- Setting a slot leaves the events. -/
@[simp] theorem events_setEveContext (c : EventContext β) :
    (ctx.setEveContext c e).events = ctx.events := by cases e <;> rfl

/-- Setting a slot leaves the descriptor. -/
@[simp] theorem fd_setEveContext (c : EventContext β) : (ctx.setEveContext c e).fd = ctx.fd := by
  cases e <;> rfl

/-- Resetting a slot leaves the events. -/
@[simp] theorem events_resetEveContext : (ctx.resetEveContext e).events = ctx.events :=
  events_setEveContext _

/-- Resetting a slot leaves the descriptor. -/
@[simp] theorem fd_resetEveContext : (ctx.resetEveContext e).fd = ctx.fd := fd_setEveContext _

/-- A context with the event cleared, bit and waiter. -/
def cleared (ctx : FdContext β) (e : IOEvent) : FdContext β :=
  { ctx with events := ctx.events \ e.mask }.resetEveContext e

/-- Clearing an event removes it. -/
@[simp] theorem events_cleared : (ctx.cleared e).events = ctx.events \ e.mask :=
  events_resetEveContext

/-- Clearing an event leaves the descriptor. -/
@[simp] theorem fd_cleared : (ctx.cleared e).fd = ctx.fd := fd_resetEveContext

/-- Clearing an event keeps events and slots in step. -/
theorem Consistent.cleared (h : ctx.Consistent) (e : IOEvent) : (ctx.cleared e).Consistent := by
  intro e'
  have hslot : (ctx.cleared e).slot e' = if e' = e ∧ e' ≠ .none then {} else ctx.slot e' :=
    slot_setEveContext _ e'
  rw [hslot, events_cleared]
  by_cases heq : e' = e ∧ e' ≠ .none
  · obtain ⟨rfl, hne⟩ := heq
    simp [hne]
  · simpa [heq] using h e'

/-- A context with the event registered for a waiter. -/
theorem Consistent.registered (h : ctx.Consistent) {c : EventContext β} (hc : c.Waiting)
    (he : e ≠ .none) :
    ({ ctx with events := ctx.events ∪ e.mask }.setEveContext c e).Consistent := by
  intro e'
  rw [slot_setEveContext, events_setEveContext]
  by_cases heq : e' = e
  · subst heq
    simp [he, hc]
  · simpa [heq] using h e'

/-- `triggerEvent` of a registered event clears it. -/
theorem Consistent.triggerEvent (h : ctx.Consistent) (hhas : ctx.events.has e = true) :
    ∃ task, ctx.triggerEvent e = .ok (task, ctx.cleared e) := by
  have he := ne_none_of_has hhas
  obtain ⟨hsched, -⟩ := (h e).1 hhas
  obtain ⟨scheduler, hsched⟩ := Option.isSome_iff_exists.mp hsched
  have hget : ({ ctx with events := ctx.events \ e.mask } : FdContext β).getEveContext e =
      .ok (ctx.slot e) := by
    rw [getEveContext_eq he]
    cases e <;> rfl
  cases hcb : (ctx.slot e).cb with
  | none =>
    refine ⟨(scheduler, .fiber (ctx.slot e).fiber), ?_⟩
    simp only [FdContext.triggerEvent, condPanic, hhas, if_true, hget, Except.bind, bind, hsched,
      hcb]
    rfl
  | some cb =>
    refine ⟨(scheduler, .cb cb), ?_⟩
    simp only [FdContext.triggerEvent, condPanic, hhas, if_true, hget, Except.bind, bind, hsched,
      hcb]
    rfl

/-- `triggerEvent` of an event that is not registered ends the process. -/
theorem triggerEvent_error (hhas : ctx.events.has e = false) :
    ctx.triggerEvent e = .error .notRegistered := by
  simp [FdContext.triggerEvent, condPanic, hhas, bind, Except.bind]

end FdContext

/-! ## The manager -/

namespace IOManager

/-- The sum over a list after one element is replaced. -/
theorem sum_map_set {α : Type} {f : α → ℕ} {l : List α} {p : ℕ} {a b : α} (h : l[p]? = some a) :
    ((l.set p b).map f).sum + f a = (l.map f).sum + f b := by
  induction l generalizing p with
  | nil => simp at h
  | cons c l ih =>
    cases p with
    | zero =>
      obtain rfl : c = a := by simpa using h
      simp only [List.set_cons_zero, List.map_cons, List.sum_cons]
      omega
    | succ p =>
      have hrec := ih (p := p) (by simpa using h)
      simp only [List.set_cons_succ, List.map_cons, List.sum_cons]
      omega

/-- The number of events registered in all contexts. -/
def registered (m : IOManager β K) : ℕ := (m.objects.map (·.events.card)).sum

/-- Every context is consistent, and the counter, a `size_t`, is the number of events. -/
structure Inv (m : IOManager β K) : Prop where
  count : m.pendingEventCnt = m.registered % 2 ^ 64
  consistent : ∀ ctx ∈ m.objects, ctx.Consistent

/-- Everything but the objects, the counter and the tasks is the same. -/
structure SameRest (m m' : IOManager β K) : Prop where
  kernel : m'.kernel = m.kernel
  fdContexts : m'.fdContexts = m.fdContexts
  tickleFd : m'.tickleFd = m.tickleFd

/-- Leaving the rest alone is transitive. -/
theorem SameRest.trans {m m' m'' : IOManager β K} (h : m.SameRest m') (h' : m'.SameRest m'') :
    m.SameRest m'' :=
  ⟨h'.kernel.trans h.kernel, h'.fdContexts.trans h.fdContexts, h'.tickleFd.trans h.tickleFd⟩

variable {m m' : IOManager β K} {p : ℕ} {ctx ctx' : FdContext β} {e : IOEvent}

/-- Looking a context up at its address. -/
theorem context_eq (hctx : m.objects[p]? = some ctx) : m.context p = .ok ctx := by
  simp [context, hctx]

/-- Only the contexts and the count matter. -/
theorem Inv.of_objects (h : m.Inv) (hobjects : m'.objects = m.objects)
    (hcount : m'.pendingEventCnt = m.pendingEventCnt) : m'.Inv where
  count := by rw [hcount, h.count, registered, registered, hobjects]
  consistent := by
    rw [hobjects]
    exact h.consistent

/-- Every context is consistent. -/
theorem Inv.consistent_of (h : m.Inv) (hctx : m.objects[p]? = some ctx) : ctx.Consistent :=
  h.consistent ctx (List.mem_of_getElem? hctx)

/-- One context is replaced. -/
theorem Inv.set (h : m.Inv) (hctx : m.objects[p]? = some ctx)
    (hobjects : m'.objects = m.objects.set p ctx') (hcons : ctx'.Consistent)
    (hcount : ∀ n, n + ctx.events.card = m.registered + ctx'.events.card →
      m'.pendingEventCnt = n % 2 ^ 64) : m'.Inv where
  count := by
    apply hcount
    rw [registered, registered, hobjects]
    exact sum_map_set hctx
  consistent := by
    rw [hobjects]
    intro c hc
    rcases List.mem_or_eq_of_mem_set hc with hc | rfl
    · exact h.consistent c hc
    · exact hcons

/-- The events of one context are among all that are registered. -/
theorem card_le_registered (hctx : m.objects[p]? = some ctx) : ctx.events.card ≤ m.registered :=
  List.le_sum_of_mem (List.mem_map_of_mem (List.mem_of_getElem? hctx))

/-! ### Triggering -/

/-- `triggerEvent` and the decrement of the counter. -/
theorem Inv.trigger (h : m.Inv) (hctx : m.objects[p]? = some ctx) (hhas : ctx.events.has e = true) :
    ∃ m', m.trigger p e = .ok m' ∧ m'.Inv ∧ m'.objects = m.objects.set p (ctx.cleared e) ∧
      m.SameRest m' := by
  have hcons := h.consistent_of hctx
  obtain ⟨task, htrigger⟩ := hcons.triggerEvent hhas
  let m' : IOManager β K := { m.setContext p (ctx.cleared e) with
    tasks := m.tasks ++ [task]
    pendingEventCnt := sizeDec m.pendingEventCnt }
  have hok : m.trigger p e = .ok m' := by
    simp [IOManager.trigger, context_eq hctx, htrigger, bind, Except.bind, pure, Except.pure, m']
  refine ⟨m', hok, h.set hctx rfl (hcons.cleared e) fun n hn => ?_, rfl, ⟨rfl, rfl, rfl⟩⟩
  have hcard := Events.card_sdiff_mask hhas
  have hle := card_le_registered hctx
  rw [FdContext.events_cleared] at hn
  show sizeDec m.pendingEventCnt = n % 2 ^ 64
  rw [h.count, sizeDec]
  omega

/-- Triggering an event that is not registered is an error. -/
theorem trigger_error (hctx : m.objects[p]? = some ctx) (hhas : ctx.events.has e = false) :
    m.trigger p e = .error .notRegistered := by
  simp [IOManager.trigger, context_eq hctx, FdContext.triggerEvent_error hhas, bind, Except.bind]

/-- A context that is set is there. -/
theorem getElem?_set_of_some (hctx : m.objects[p]? = some ctx) (ctx' : FdContext β) :
    (m.objects.set p ctx')[p]? = some ctx' := by
  have hlt := (List.getElem?_eq_some_iff.mp hctx).1
  simp [hlt]

/-- Triggering an event if a bit of a mask says so. -/
theorem Inv.triggerIf (h : m.Inv) (hctx : m.objects[p]? = some ctx) {b : Bool}
    (hb : b = true → ctx.events.has e = true) :
    ∃ m' ctx', m.triggerIf p e b = .ok m' ∧ m'.Inv ∧
      m'.objects = m.objects.set p ctx' ∧ ctx'.fd = ctx.fd ∧
      ctx'.events = (if b then ctx.events \ e.mask else ctx.events) ∧ m.SameRest m' := by
  cases b with
  | false =>
    refine ⟨m, ctx, rfl, h, ?_, rfl, rfl, ⟨rfl, rfl, rfl⟩⟩
    obtain ⟨hlt, rfl⟩ := List.getElem?_eq_some_iff.mp hctx
    exact (List.set_getElem_self hlt).symm
  | true =>
    obtain ⟨m', htrigger, hinv, hobjects, hrest⟩ := h.trigger hctx (hb rfl)
    exact ⟨m', ctx.cleared e, htrigger, hinv, hobjects, FdContext.fd_cleared,
      FdContext.events_cleared, hrest⟩

/-- Triggering the events of a mask that are all registered. -/
theorem Inv.triggerAll (h : m.Inv) (hctx : m.objects[p]? = some ctx) {a : Events}
    (ha : ∀ e, a.has e = true → ctx.events.has e = true) :
    ∃ m' ctx', m.triggerAll p a = .ok m' ∧ m'.Inv ∧ m'.objects = m.objects.set p ctx' ∧
      ctx'.fd = ctx.fd ∧ ctx'.events = ctx.events \ a ∧ m.SameRest m' := by
  obtain ⟨m₁, ctx₁, hread, hinv₁, hobjects₁, hfd₁, hevents₁, hrest₁⟩ := h.triggerIf hctx (ha .read)
  have hctx₁ : m₁.objects[p]? = some ctx₁ := by
    rw [hobjects₁]
    exact getElem?_set_of_some hctx ctx₁
  have hwrite : a.has .write = true → ctx₁.events.has .write = true := by
    intro hw
    rw [hevents₁]
    split <;> simp [ha .write hw]
  obtain ⟨m', ctx', hok, hinv, hobjects, hfd, hevents, hrest⟩ := hinv₁.triggerIf hctx₁ hwrite
  refine ⟨m', ctx', ?_, hinv, ?_, hfd.trans hfd₁, ?_, hrest₁.trans hrest⟩
  · show (m.triggerIf p .read (a.has .read)).bind _ = _
    rw [hread]
    exact hok
  · rw [hobjects, hobjects₁, List.set_set]
  · rw [hevents, hevents₁]
    apply Events.ext_has
    intro e
    cases hr : a.has .read <;> cases hw : a.has .write <;> cases e <;> simp [hr, hw]

/-- Triggering the events of a mask that are not all registered. -/
theorem Inv.triggerAll_error (h : m.Inv) (hctx : m.objects[p]? = some ctx) {a : Events}
    (ha : ∃ e, a.has e = true ∧ ctx.events.has e = false) :
    m.triggerAll p a = .error .notRegistered := by
  show (m.triggerIf p .read (a.has .read)).bind _ = _
  by_cases hread : a.has .read = true → ctx.events.has .read = true
  · obtain ⟨m₁, ctx₁, hok, -, hobjects₁, -, hevents₁, -⟩ := h.triggerIf hctx hread
    have hctx₁ : m₁.objects[p]? = some ctx₁ := by
      rw [hobjects₁]
      exact getElem?_set_of_some hctx ctx₁
    obtain ⟨e, hhas, hnot⟩ := ha
    cases e with
    | none => simp at hhas
    | read => simp [hread hhas] at hnot
    | write =>
      have hnot₁ : ctx₁.events.has .write = false := by
        rw [hevents₁]
        split <;> simp [hnot]
      have herror : m₁.triggerIf p .write (a.has .write) = .error .notRegistered := by
        rw [IOManager.triggerIf, if_pos hhas, trigger_error hctx₁ hnot₁]
      rw [hok]
      exact herror
  · obtain ⟨hr, hnot⟩ := Classical.not_imp.mp hread
    rw [IOManager.triggerIf, if_pos hr, trigger_error hctx (by simpa using hnot)]
    rfl

/-! ### The sections -/

section sections

variable [Epoll K]

/-- The call was rejected, and nothing else happened. -/
def Refused (m m' : IOManager β K) (call : EpollCall) : Prop :=
  (Epoll.ctl call m.kernel).1 = false ∧ m' = { m with kernel := (Epoll.ctl call m.kernel).2 }

/-- The call was accepted, and one context is left with the given events. -/
structure Took (m m' : IOManager β K) (p : ℕ) (call : EpollCall) (events : Events) : Prop where
  accepted : (Epoll.ctl call m.kernel).1 = true
  kernel : m'.kernel = (Epoll.ctl call m.kernel).2
  objects : ∃ ctx ctx', m.objects[p]? = some ctx ∧ m'.objects = m.objects.set p ctx' ∧
    ctx'.fd = ctx.fd ∧ ctx'.events = events
  fdContexts : m'.fdContexts = m.fdContexts
  tickleFd : m'.tickleFd = m.tickleFd

/-- What a section does that makes the call and leaves the events if it is accepted. -/
def Sectioned (m m' : IOManager β K) (p : ℕ) (call : EpollCall) (events : Events) : Prop :=
  m.Refused m' call ∨ m.Took m' p call events

/-- The manager after the call. -/
def afterCall (m : IOManager β K) (call : EpollCall) : IOManager β K :=
  { m with kernel := (Epoll.ctl call m.kernel).2 }

/-- A call to the kernel changes no count. -/
theorem Inv.afterCall (h : m.Inv) (call : EpollCall) : (m.afterCall call).Inv :=
  h.of_objects rfl rfl

/-- `epoll_ctl` gives the answer of the kernel and its new state. -/
theorem epollCtl_eq (m : IOManager β K) (call : EpollCall) :
    m.epollCtl call = ((Epoll.ctl call m.kernel).1, m.afterCall call) := rfl

/-- A `CondPanic` ensures its condition. -/
theorem ensures_condPanic {E : IOFault → Prop} {c : Prop} [Decidable c] {f : IOFault}
    (hf : ¬c → E f) : Ensures E (fun _ => c) (condPanic c f) := by
  rw [condPanic]
  exact Ensures.ite (fun hc => hc) hf

/-- The calls of `CondPanic` that end `addEvent`: the event is registered already or is neither
    `READ` nor `WRITE`, or there is no callback and the fiber of the caller is not running. -/
def AddFault (ctx : FdContext β) (e : IOEvent) (cb : Option β) (caller : Caller) : IOFault → Prop
  | .registered => ctx.events.has e = true
  | .unknownEvent => e = .none
  | .notRunning => cb = none ∧ caller.running = false
  | _ => False

/-- `addEvent` from the lock on: unless a `CondPanic` ends the process, the call is made, and the
    event is registered if it is accepted. -/
theorem Inv.addEventLocked (h : m.Inv) (hctx : m.objects[p]? = some ctx) (fd : ℕ)
    (cb : Option β) (caller : Caller) :
    Ensures (AddFault ctx e cb caller)
      (fun r => r.2.Inv ∧ ctx.events.has e = false ∧
        m.Sectioned r.2 p (addCall fd ctx.events e) (ctx.events ∪ e.mask))
      (m.addEventLocked p fd e cb caller) := by
  let call := addCall fd ctx.events e
  have hcons := h.consistent_of hctx
  rw [IOManager.addEventLocked, context_eq hctx, ensures_ok_bind]
  refine (ensures_condPanic fun hhas => by simpa [AddFault] using hhas).bind fun _ hnot => ?_
  have hnot : ctx.events.has e = false := by simpa using hnot
  dsimp only [epollCtl_eq]
  refine Ensures.ite (fun hrefused => ?_) fun haccepted => ?_
  · exact ⟨h.afterCall call, hnot, .inl ⟨by simpa using hrefused, rfl⟩⟩
  have haccepted : (Epoll.ctl call m.kernel).1 = true := by simpa using haccepted
  -- What is left is the registration of a waiter.
  have hregister : ∀ c : EventContext β, e ≠ .none → c.Waiting →
      let ctx' := { ctx with events := ctx.events ∪ e.mask }.setEveContext c e
      let m' := { m.afterCall call with
        pendingEventCnt := sizeInc m.pendingEventCnt }.setContext p ctx'
      m'.Inv ∧ m.Took m' p call (ctx.events ∪ e.mask) := by
    intro c he hc ctx' m'
    have hevents : ctx'.events = ctx.events ∪ e.mask := FdContext.events_setEveContext c
    refine ⟨h.set hctx rfl (hcons.registered hc he) fun n hn => ?_, haccepted, rfl,
      ⟨ctx, ctx', hctx, rfl, FdContext.fd_setEveContext c, hevents⟩, rfl, rfl⟩
    rw [hevents, Events.card_union_mask hnot he] at hn
    show sizeInc m.pendingEventCnt = n % 2 ^ 64
    rw [h.count, sizeInc]
    omega
  by_cases he : e = .none
  · subst he
    show AddFault ctx .none cb caller .unknownEvent
    rfl
  have hget : Ensures (AddFault ctx e cb caller) (· = {})
      (({ ctx with events := ctx.events ∪ e.mask } : FdContext β).getEveContext e) := by
    rw [FdContext.getEveContext_eq he, FdContext.slot_withEvents]
    exact (hcons e).2 hnot
  refine hget.bind fun c hc => ?_
  subst hc
  refine (ensures_condPanic fun hne => absurd ⟨rfl, rfl, rfl⟩ hne).bind fun _ _ => ?_
  cases cb with
  | some cb =>
    obtain ⟨hinv, htook⟩ := hregister { scheduler := some caller.scheduler, cb := some cb } he
      ⟨rfl, .inr rfl⟩
    exact ⟨hinv, hnot, .inr htook⟩
  | none =>
    refine (ensures_condPanic fun hrun => ⟨rfl, by simpa using hrun⟩).bind fun _ _ => ?_
    obtain ⟨hinv, htook⟩ := hregister
      { scheduler := some caller.scheduler, fiber := some caller.fiber } he ⟨rfl, .inl rfl⟩
    exact ⟨hinv, hnot, .inr htook⟩

/-- `delEvent` from the lock on. -/
theorem Inv.delEventLocked (h : m.Inv) (hctx : m.objects[p]? = some ctx) (fd : ℕ) :
    Ensures (fun _ => False)
      (fun r => r.2.Inv ∧ (ctx.events.has e = false ∧ r.2 = m ∨ ctx.events.has e = true ∧
        m.Sectioned r.2 p (removeCall fd (ctx.events \ e.mask)) (ctx.events \ e.mask)))
      (m.delEventLocked p fd e) := by
  let call := removeCall fd (ctx.events \ e.mask)
  have hcons := h.consistent_of hctx
  rw [IOManager.delEventLocked, context_eq hctx, ensures_ok_bind]
  refine Ensures.ite (fun hnot => ?_) fun hhas => ?_
  -- the event is not registered: nothing happens
  · exact ⟨h, .inl ⟨by simpa using hnot, rfl⟩⟩
  have hhas : ctx.events.has e = true := by simpa using hhas
  dsimp only [epollCtl_eq]
  refine Ensures.ite (fun hrefused => ?_) fun haccepted => ?_
  -- the kernel refuses: only the call is recorded
  · exact ⟨h.afterCall call, .inr ⟨hhas, .inl ⟨by simpa using hrefused, rfl⟩⟩⟩
  have haccepted : (Epoll.ctl call m.kernel).1 = true := by simpa using haccepted
  have hget : Ensures (fun _ => False) (fun _ => True)
      (({ ctx with events := ctx.events \ e.mask } : FdContext β).getEveContext e) := by
    rw [FdContext.getEveContext_eq (FdContext.ne_none_of_has hhas)]
    trivial
  refine hget.bind fun _ _ => ?_
  refine ⟨h.set hctx rfl (hcons.cleared e) fun n hn => ?_, .inr ⟨hhas, .inr ⟨haccepted, rfl,
    ⟨ctx, ctx.cleared e, hctx, rfl, FdContext.fd_cleared, FdContext.events_cleared⟩, rfl, rfl⟩⟩⟩
  -- the counter goes down by one event, and so does the number of the registered ones
  have hcard := Events.card_sdiff_mask hhas
  have hle := card_le_registered hctx
  simp only [FdContext.events_resetEveContext] at hn
  show sizeDec m.pendingEventCnt = n % 2 ^ 64
  rw [h.count, sizeDec]
  omega

/-- After an accepted call, triggering registered events leaves the others. -/
theorem Inv.took_triggerAll (h : m.Inv) (hctx : m.objects[p]? = some ctx) {call : EpollCall}
    (haccepted : (Epoll.ctl call m.kernel).1 = true) {a : Events}
    (ha : ∀ e, a.has e = true → ctx.events.has e = true) :
    ∃ m', (m.afterCall call).triggerAll p a = .ok m' ∧ m'.Inv ∧
      m.Took m' p call (ctx.events \ a) := by
  obtain ⟨m', ctx', hok, hinv, hobjects, hfd, hevents, hrest⟩ :=
    (h.afterCall call).triggerAll hctx ha
  exact ⟨m', hok, hinv, haccepted, hrest.kernel, ⟨ctx, ctx', hctx, hobjects, hfd, hevents⟩,
    hrest.fdContexts, hrest.tickleFd⟩

/-- `cancelEvent` from the lock on. -/
theorem Inv.cancelEventLocked (h : m.Inv) (hctx : m.objects[p]? = some ctx) (fd : ℕ) :
    Ensures (fun _ => False)
      (fun r => r.2.Inv ∧ (ctx.events.has e = false ∧ r.2 = m ∨ ctx.events.has e = true ∧
        m.Sectioned r.2 p (removeCall fd (ctx.events \ e.mask)) (ctx.events \ e.mask)))
      (m.cancelEventLocked p fd e) := by
  let call := removeCall fd (ctx.events \ e.mask)
  rw [IOManager.cancelEventLocked, context_eq hctx, ensures_ok_bind]
  refine Ensures.ite (fun hnot => ?_) fun hhas => ?_
  · exact ⟨h, .inl ⟨by simpa using hnot, rfl⟩⟩
  have hhas : ctx.events.has e = true := by simpa using hhas
  dsimp only [epollCtl_eq]
  refine Ensures.ite (fun hrefused => ?_) fun haccepted => ?_
  · exact ⟨h.afterCall call, .inr ⟨hhas, .inl ⟨by simpa using hrefused, rfl⟩⟩⟩
  have haccepted : (Epoll.ctl call m.kernel).1 = true := by simpa using haccepted
  obtain ⟨m', hok, hinv, hobjects, hrest⟩ := (h.afterCall call).trigger hctx hhas
  rw [hok, ensures_ok_bind]
  exact ⟨hinv, .inr ⟨hhas, .inr ⟨haccepted, hrest.kernel,
    ⟨ctx, ctx.cleared e, hctx, hobjects, FdContext.fd_cleared, FdContext.events_cleared⟩,
    hrest.fdContexts, hrest.tickleFd⟩⟩⟩

/-- `cancelAll` from the lock on. -/
theorem Inv.cancelAllLocked (h : m.Inv) (hctx : m.objects[p]? = some ctx) (fd : ℕ) :
    Ensures (fun _ => False)
      (fun r => r.2.Inv ∧ (ctx.events = ∅ ∧ r.2 = m ∨ ctx.events ≠ ∅ ∧
        m.Sectioned r.2 p ⟨.del, fd, {}⟩ ∅))
      (m.cancelAllLocked p fd) := by
  let call : EpollCall := ⟨.del, fd, {}⟩
  rw [IOManager.cancelAllLocked, context_eq hctx, ensures_ok_bind]
  refine Ensures.ite (fun hempty => ⟨h, .inl ⟨hempty, rfl⟩⟩) fun hne => ?_
  dsimp only [epollCtl_eq]
  refine Ensures.ite (fun hrefused => ?_) fun haccepted => ?_
  · exact ⟨h.afterCall call, .inr ⟨hne, .inl ⟨by simpa using hrefused, rfl⟩⟩⟩
  have haccepted : (Epoll.ctl call m.kernel).1 = true := by simpa using haccepted
  obtain ⟨m', hok, hinv, htook⟩ := h.took_triggerAll hctx haccepted fun _ he => he
  have hall : ctx.events \ ctx.events = ∅ := Events.eq_empty_iff.mpr fun e => by simp
  rw [hall] at htook
  rw [hok, ensures_ok_bind]
  obtain ⟨c, ctx', hc, hobjects, -, hevents⟩ := htook.objects
  have hctx' : m'.context p = .ok ctx' := by
    rw [context, hobjects, getElem?_set_of_some hc ctx']
  rw [hctx', ensures_ok_bind]
  exact (ensures_condPanic fun hnot => absurd hevents hnot).bind
    fun _ _ => ⟨hinv, .inr ⟨hne, .inr htook⟩⟩

/-- An error or a hang-up reports every event that is registered. -/
theorem realEvents_has (r : Report) (a : Events) (e : IOEvent) :
    (Report.realEvents r a).has e = (r.events.has e || ((r.err || r.hup) && a.has e)) := by
  rw [Report.realEvents]
  split
  case isTrue h => simp [h]
  case isFalse h => simp [h]

/-- The report and the registered events meet, the call is accepted, and something is reported that
    is no longer registered. -/
def Stale (m : IOManager β K) (r : Report) (ctx : FdContext β) : Prop :=
  let realEvents := Report.realEvents r ctx.events
  ctx.events ∩ realEvents ≠ ∅ ∧
    (Epoll.ctl (removeCall ctx.fd (ctx.events \ realEvents)) m.kernel).1 = true ∧
    ∃ e, r.events.has e = true ∧ ctx.events.has e = false

/-- The loop body of `idle` on a report that is not stale. -/
theorem Inv.dispatch (h : m.Inv) {r : Report} (hctx : m.objects[r.ctx]? = some ctx)
    (hr : ¬ m.Stale r ctx) :
    Ensures (fun _ => False)
      (fun m' => m'.Inv ∧
        let realEvents := Report.realEvents r ctx.events
        let left := ctx.events \ realEvents
        (ctx.events ∩ realEvents = ∅ ∧ m' = m ∨ ctx.events ∩ realEvents ≠ ∅ ∧
          m.Sectioned m' r.ctx (removeCall ctx.fd left) left))
      (m.dispatch r) := by
  let realEvents := Report.realEvents r ctx.events
  let call := removeCall ctx.fd (ctx.events \ realEvents)
  rw [IOManager.dispatch, context_eq hctx, ensures_ok_bind]
  refine Ensures.ite (fun hempty => ⟨h, .inl ⟨hempty, rfl⟩⟩) fun hmeet => ?_
  dsimp only [epollCtl_eq]
  refine Ensures.ite (fun hrefused => ?_) fun haccepted => ?_
  -- the kernel refuses: the loop goes on to the next report
  · exact ⟨h.afterCall call, .inr ⟨hmeet, .inl ⟨by simpa using hrefused, rfl⟩⟩⟩
  have haccepted : (Epoll.ctl call m.kernel).1 = true := by simpa using haccepted
  -- as the report is not stale, what it triggers is registered
  have hsub : ∀ e, realEvents.has e = true → ctx.events.has e = true := by
    intro e he
    by_contra hnot
    have hnot : ctx.events.has e = false := by simpa using hnot
    rw [realEvents_has, hnot, Bool.and_false, Bool.or_false] at he
    exact hr ⟨hmeet, haccepted, e, he, hnot⟩
  obtain ⟨m', hok, hinv, htook⟩ := h.took_triggerAll hctx haccepted hsub
  rw [hok]
  exact ⟨hinv, .inr ⟨hmeet, .inr htook⟩⟩

/-- On a stale report the process ends in `triggerEvent`. -/
theorem Inv.dispatch_error (h : m.Inv) {r : Report} (hctx : m.objects[r.ctx]? = some ctx)
    (hr : m.Stale r ctx) : m.dispatch r = .error .notRegistered := by
  obtain ⟨hmeet, haccepted, e, he, hnot⟩ := hr
  let realEvents := Report.realEvents r ctx.events
  let call := removeCall ctx.fd (ctx.events \ realEvents)
  have hreal : realEvents.has e = true := by rw [realEvents_has, he, Bool.true_or]
  have herror := (h.afterCall call).triggerAll_error hctx ⟨e, hreal, hnot⟩
  have hbody : m.dispatch r = if ctx.events ∩ realEvents = ∅ then .ok m else
      if (!(Epoll.ctl call m.kernel).1) = true then .ok (m.afterCall call)
      else (m.afterCall call).triggerAll r.ctx realEvents := by
    rw [IOManager.dispatch, context_eq hctx]
    rfl
  rw [hbody, if_neg hmeet, haccepted, if_neg (by simp), herror]

end sections

end IOManager

end RaftStore
