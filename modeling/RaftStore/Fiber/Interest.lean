import RaftStore.Fiber.Registry

namespace RaftStore

/-!
# The interest list of the kernel

One thread calls `addEvent`, `delEvent`, `cancelEvent` and `cancelAll` and dispatches what
`epoll_wait` reports, on descriptors that are open; the kernel is that of the documentation.  Three
descriptions of what is waited for are compared: the function from descriptors to events that the
calls stand for, the masks in the table of contexts, and the interest list.

* `IOManager.expects` — a call as it changes the function from descriptors to events.
* `IOManager.Mirrored` — no call of `epoll_ctl` was rejected, and the kernel has the masks of the
  contexts.
* `SerialRun` — the runs; `SerialAttempt.Works`, `SerialAttempt.Fits` — what a step should do, and
  when it does.
* `mirrored_iff` — all steps of a run work exactly if all fit.
-/

variable {β : Type}

/-! ## The kernel -/

namespace LinuxEpoll

variable {k : LinuxEpoll} {call : EpollCall} {fd : ℕ}

/-- The events of the mask of a descriptor, apart from the mode flags. -/
def waited (k : LinuxEpoll) (fd : ℕ) : Option Events := (k.interest.lookup fd).map (·.events)

/-- Without the entries of one descriptor the others are as before. -/
theorem lookup_others (fd' fd : ℕ) (l : List (ℕ × EpollMask)) :
    (l.filter fun i => i.1 ≠ fd').lookup fd = if fd = fd' then none else l.lookup fd := by
  induction l with
  | nil => simp
  | cons i l ih =>
    obtain ⟨j, mask⟩ := i
    by_cases hj : j = fd'
    · rw [List.filter_cons_of_neg (by simp [hj]), ih]
      split
      case isTrue => rfl
      case isFalse hfd => rw [List.lookup_cons, beq_eq_false_iff_ne.mpr (hj ▸ hfd)]
    · rw [List.filter_cons_of_pos (by simp [hj]), List.lookup_cons, List.lookup_cons, ih]
      by_cases hfd : fd = j
      · simp [hfd, hj]
      · simp [beq_eq_false_iff_ne.mpr hfd]

/-- What the kernel waits for on a descriptor after a call that it accepts. -/
theorem lookup_update (k : LinuxEpoll) (call : EpollCall) (fd : ℕ) :
    (k.update call).lookup fd =
      if fd = call.fd then (if call.op = .del then none else some call.mask)
      else k.interest.lookup fd := by
  have hothers := lookup_others call.fd fd k.interest
  dsimp only [update]
  by_cases hop : call.op = .del
  · rw [if_pos hop, if_pos hop, hothers]
  · rw [if_neg hop, if_neg hop, List.lookup_cons]
    by_cases hfd : fd = call.fd
    · rw [if_pos hfd, beq_iff_eq.mpr hfd]
    · rw [if_neg hfd, beq_eq_false_iff_ne.mpr hfd]
      show (List.filter _ _).lookup fd = _
      rw [hothers, if_neg hfd]

/-- `epoll_ctl` succeeds iff the kernel accepts the call. -/
theorem ctl_fst (call : EpollCall) (k : LinuxEpoll) : (Epoll.ctl call k).1 = k.accepts call := by
  show (if k.accepts call then _ else _ : Bool × LinuxEpoll).1 = _
  split
  case isTrue h => exact h.symm
  case isFalse h => simpa using h

/-- A call that is accepted updates the interest list. -/
theorem ctl_snd (h : k.accepts call = true) :
    (Epoll.ctl call k).2 = { k with interest := k.update call } := by
  show (if k.accepts call then _ else _ : Bool × LinuxEpoll).2 = _
  rw [if_pos h]

/-- A call that is not accepted is noted. -/
theorem rejected_ctl (h : k.accepts call = false) : (Epoll.ctl call k).2.rejected ≠ [] := by
  have hctl : (Epoll.ctl call k).2 = { k with rejected := k.rejected ++ [call] } := by
    show (if k.accepts call then _ else _ : Bool × LinuxEpoll).2 = _
    rw [if_neg (by simp [h])]
  simp [hctl]

/-- An `EPOLL_CTL_ADD` is accepted iff the descriptor is not there yet. -/
theorem accepts_add (hop : call.op = .add) : k.accepts call = (k.waited call.fd).isNone := by
  rw [accepts, hop, waited]
  cases k.interest.lookup call.fd <;> rfl

/-- An `EPOLL_CTL_DEL` is accepted iff the descriptor is there. -/
theorem accepts_del (hop : call.op = .del) : k.accepts call = (k.waited call.fd).isSome := by
  rw [accepts, hop, waited]
  cases k.interest.lookup call.fd <;> rfl

/-- A modification with `EPOLLEXCLUSIVE` is rejected. -/
theorem accepts_mod_exclusive (hop : call.op = .mod) (hexclusive : call.mask.exclusive = true) :
    k.accepts call = false := by
  rw [accepts, hop]
  cases k.interest.lookup call.fd with
  | none => rfl
  | some mask => simp [hexclusive]

end LinuxEpoll

/-- An accepted call that leaves a descriptor in the interest list with these events, or takes it
    from the list if there are none. -/
structure EpollCall.Leaves (call : EpollCall) (fd : ℕ) (events : Events) : Prop where
  fd : call.fd = fd
  op : call.op = .del ↔ events = ∅
  events : call.mask.events = events

/-- What is waited for on each descriptor after a call that leaves `events` on one. -/
theorem LinuxEpoll.waited_update {call : EpollCall} {fd : ℕ} {events : Events}
    (h : call.Leaves fd events) (k : LinuxEpoll) (j : ℕ) :
    ({ k with interest := k.update call } : LinuxEpoll).waited j =
      if j = fd then (if events = ∅ then none else some events) else k.waited j := by
  rw [waited, lookup_update, h.fd]
  by_cases hj : j = fd
  · simp only [if_pos hj, h.op]
    split
    case isTrue => rfl
    case isFalse => rw [Option.map_some, h.events]
  · simp only [if_neg hj, waited]

namespace Events

variable {a : Events} {e : IOEvent}

/-- Together with an event there is something to wait for. -/
theorem union_mask_ne_empty (he : e ≠ .none) : a ∪ e.mask ≠ ∅ := by
  intro h
  have hhas := eq_empty_iff.mp h e
  simp [he] at hhas

/-- One event is one bit. -/
theorem card_mask (he : e ≠ .none) : (∅ ∪ e.mask : Events).card = 1 :=
  card_union_mask (has_empty e) he

/-- Of at most one event no two are different. -/
theorem has_unique (hcard : a.card ≤ 1) {e' : IOEvent} (h : a.has e = true)
    (h' : a.has e' = true) : e' = e := by
  obtain ⟨r, w⟩ := a
  cases e <;> cases e' <;> simp_all [card, has]

/-- A mask with one bit at most loses it. -/
theorem sdiff_eq_empty (hcard : a.card ≤ 1) {b : Events} (ha : a.has e = true)
    (hb : b.has e = true) : a \ b = ∅ := by
  apply eq_empty_iff.mpr
  intro e'
  rw [has_sdiff]
  cases h' : a.has e' with
  | false => rfl
  | true => rw [has_unique hcard ha h', hb]; rfl

/-- Removing an event that is not there changes nothing. -/
theorem sdiff_mask_eq (h : a.has e = false) : a \ e.mask = a := by
  apply ext_has
  intro e'
  by_cases he' : e' = e <;> simp [he', h]

/-- Removing an event changes something iff it is there. -/
theorem sdiff_mask_ne_iff : a \ e.mask ≠ a ↔ a.has e = true := by
  constructor
  · intro hne
    by_contra hnot
    exact hne (sdiff_mask_eq (by simpa using hnot))
  · intro hhas heq
    have hcleared := has_sdiff a e.mask e
    simp only [heq, hhas, has_mask, true_and, Bool.true_and] at hcleared
    have he : e = .none := by simpa using hcleared
    simp [he] at hhas

end Events

namespace IOManager

/-- The call that `addEvent` makes leaves the old events and the new one. -/
theorem addCall_leaves (fd : ℕ) (events : Events) {e : IOEvent} (he : e ≠ .none) :
    (addCall fd events e).Leaves fd (events ∪ e.mask) where
  fd := rfl
  op := by
    have hop : (addCall fd events e).op ≠ .del := by
      rw [addCall]
      split <;> simp
    exact iff_of_false hop (Events.union_mask_ne_empty he)
  events := rfl

/-- The call that removes an event leaves the others. -/
theorem removeCall_leaves (fd : ℕ) (events : Events) : (removeCall fd events).Leaves fd events where
  fd := rfl
  op := by
    rw [removeCall]
    split
    case isTrue h => exact iff_of_false (by simp) h
    case isFalse h => exact iff_of_true rfl (by simpa using h)
  events := rfl

end IOManager

/-! ## Calls and runs -/

/-- What one thread does, on descriptors that are open. -/
inductive SerialCall (β : Type)
  | addEvent (fd : ℕ) (event : IOEvent) (cb : Option β) (caller : Caller)
  | delEvent (fd : ℕ) (event : IOEvent)
  | cancelEvent (fd : ℕ) (event : IOEvent)
  | cancelAll (fd : ℕ)
  | dispatch (r : Report)

namespace IOManager

/-- No call of `epoll_ctl` was rejected, and the mask of every descriptor in the interest list is
    `FdContext::events`; the pipe is the manager's own. -/
structure Mirrored (m : IOManager β LinuxEpoll) : Prop where
  rejected : m.kernel.rejected = []
  mask : ∀ fd, fd ≠ m.tickleFd →
    m.kernel.waited fd = if m.eventsOf fd = ∅ then none else some (m.eventsOf fd)

variable (m : IOManager β LinuxEpoll)

/-- An event that is added is not registered, and the fiber that calls is running; a report has the
    context of its descriptor, and events of the mask in the interest list. -/
def Admissible : SerialCall β → Prop
  | .addEvent fd event cb caller =>
    event ≠ .none ∧ (m.eventsOf fd).has event = false ∧ (cb = none → caller.running = true)
  | .delEvent _ _ => True
  | .cancelEvent _ _ => True
  | .cancelAll _ => True
  | .dispatch r => ∃ fd events, fd ≠ m.tickleFd ∧ m.fdContexts[fd]? = some r.ctx ∧
      m.kernel.waited fd = some events ∧ ∀ e, r.events.has e = true → events.has e = true

/-- One call. -/
def serial : SerialCall β → Except IOFault (IOManager β LinuxEpoll)
  | .addEvent fd event cb caller => do
    let (_, m) ← m.addEvent fd event cb caller
    return m
  | .delEvent fd event => do
    let (_, m) ← m.delEvent fd event
    return m
  | .cancelEvent fd event => do
    let (_, m) ← m.cancelEvent fd event
    return m
  | .cancelAll fd => do
    let (_, m) ← m.cancelAll fd
    return m
  | .dispatch r => m.dispatch r

/-- What the descriptors should wait for after a call. -/
def expects : SerialCall β → ℕ → Events
  | .addEvent fd event _ _ => Function.update m.eventsOf fd (m.eventsOf fd ∪ event.mask)
  | .delEvent fd event => Function.update m.eventsOf fd (m.eventsOf fd \ event.mask)
  | .cancelEvent fd event => Function.update m.eventsOf fd (m.eventsOf fd \ event.mask)
  | .cancelAll fd => Function.update m.eventsOf fd ∅
  | .dispatch r =>
    match m.objects[r.ctx]? with
    | some ctx =>
      Function.update m.eventsOf ctx.fd (ctx.events \ Report.realEvents r ctx.events)
    | none => m.eventsOf

end IOManager

/-- A call that was attempted. -/
abbrev SerialAttempt (β : Type) := Attempt (IOManager β LinuxEpoll) (SerialCall β)

namespace SerialAttempt

variable (x : SerialAttempt β)

/-- The call does what is expected of it, and the kernel follows. -/
def Works : Prop :=
  ∃ m, x.before.serial x.action = .ok m ∧ m.Mirrored ∧ m.eventsOf = x.before.expects x.action

/-- An event is added for a descriptor without events, other than the pipe, and if the table is
    resized, then to a size above all descriptors with events.  A registered event that is removed
    belongs to a descriptor below `(int)fdContexts_.size()`. -/
def Fits : Prop :=
  let m := x.before
  match x.action with
  | .addEvent fd _ _ _ => m.eventsOf fd = ∅ ∧ fd ≠ m.tickleFd ∧
      (m.size > fd ∨ fd < fd * 3 / 2 ∧ ∀ j, fd * 3 / 2 ≤ j → m.eventsOf j = ∅)
  | .delEvent fd event => (m.eventsOf fd).has event = true → m.size > fd
  | .cancelEvent fd event => (m.eventsOf fd).has event = true → m.size > fd
  | .cancelAll fd => m.eventsOf fd ≠ ∅ → m.size > fd
  | .dispatch _ => True

end SerialAttempt

/-- The runs, with the calls attempted and what the last of them led to. -/
def SerialRun : List (SerialAttempt β) → Except IOFault (IOManager β LinuxEpoll) → Prop :=
  Attempts (fun result => ∃ tickleFd, result = IOManager.create tickleFd {})
    IOManager.Admissible IOManager.serial

/-! ## One call -/

namespace IOManager

/-- What holds as long as all calls fit: no descriptor has two events. -/
structure Kept (m : IOManager β LinuxEpoll) : Prop extends Tabled m, Mirrored m where
  single : ∀ fd, (m.eventsOf fd).card ≤ 1
  pipe : (m.kernel.waited m.tickleFd).isSome ∧ m.eventsOf m.tickleFd = ∅

variable {m m' : IOManager β LinuxEpoll} {fd p : ℕ} {e : IOEvent} {ctx : FdContext β}
  {call : EpollCall} {events left : Events}

/-- The pipe has no event of a user. -/
theorem Kept.ne_tickleFd (h : m.Kept) (hne : m.eventsOf fd ≠ ∅) : fd ≠ m.tickleFd := by
  rintro rfl
  exact hne h.pipe.2

/-- The kernel does not know a descriptor iff no event is registered on it. -/
theorem Kept.isNone_waited (h : m.Kept) (hfd : fd ≠ m.tickleFd) :
    (m.kernel.waited fd).isNone ↔ m.eventsOf fd = ∅ := by
  rw [h.mask fd hfd]
  split <;> simpa

/-- A section whose call is accepted. -/
theorem took_of_accepts (haccepts : m.kernel.accepts call = true)
    (h : m.Sectioned m' p call events) : m.Took m' p call events := by
  rcases h with ⟨hrefused, -⟩ | htook
  · rw [LinuxEpoll.ctl_fst, haccepts] at hrefused
    cases hrefused
  · exact htook

/-- A section after which no call was rejected. -/
theorem took_of_mirrored (hm' : m'.Mirrored) (h : m.Sectioned m' p call events) :
    m.Took m' p call events := by
  rcases h with ⟨hrefused, rfl⟩ | htook
  · rw [LinuxEpoll.ctl_fst] at hrefused
    exact absurd hm'.rejected (LinuxEpoll.rejected_ctl hrefused)
  · exact htook

/-- An accepted call that leaves the same events in the kernel. -/
theorem Kept.took (h : m.Kept) (hinv : m'.Inv) (hp : m.fdContexts[fd]? = some p)
    (hfd : fd ≠ m.tickleFd) (hcall : call.Leaves fd events) (hcard : events.card ≤ 1)
    (htook : m.Took m' p call events) : m'.Kept := by
  have hevents := h.eventsOf_took hp htook
  have haccepts : m.kernel.accepts call = true := by
    rw [← LinuxEpoll.ctl_fst, htook.accepted]
  have hkernel := htook.kernel.trans (LinuxEpoll.ctl_snd haccepts)
  have hwaited := LinuxEpoll.waited_update hcall m.kernel
  refine { toTabled := h.toTabled.took hinv htook, rejected := ?_, mask := ?_, single := ?_,
           pipe := ?_ }
  · rw [hkernel]
    exact h.rejected
  -- at the descriptor of the call both sides change alike; at the others neither does
  · intro j hj
    rw [htook.tickleFd] at hj
    rw [hkernel, hwaited, hevents]
    by_cases hjfd : j = fd
    · rw [if_pos hjfd, hjfd, Function.update_self]
    · rw [if_neg hjfd, Function.update_of_ne hjfd, h.mask j hj]
  · intro j
    rw [hevents]
    by_cases hjfd : j = fd
    · rw [hjfd, Function.update_self]
      exact hcard
    · rw [Function.update_of_ne hjfd]
      exact h.single j
  · rw [hkernel, hwaited, hevents, htook.tickleFd, if_neg hfd.symm, Function.update_of_ne hfd.symm]
    exact h.pipe

/-- A section that leaves the events, or takes the only one. -/
def Removed (m m' : IOManager β LinuxEpoll) (p fd : ℕ) (events left : Events) : Prop :=
  left = events ∧ m' = m ∨
    events ≠ ∅ ∧ left = ∅ ∧ ∃ call : EpollCall, call.Leaves fd ∅ ∧ m.Sectioned m' p call ∅

/-- Removing events keeps the mirror, and leaves what is left on the one descriptor. -/
theorem Kept.removed (h : m.Kept) (hinv : m'.Inv) (hp : m.fdContexts[fd]? = some p)
    (hm' : m.Removed m' p fd (m.eventsOf fd) left) :
    m'.Kept ∧ m'.eventsOf = Function.update m.eventsOf fd left := by
  rcases hm' with ⟨rfl, rfl⟩ | ⟨hne, rfl, call, hcall, hsec⟩
  · exact ⟨h, (Function.update_eq_self fd m'.eventsOf).symm⟩
  · have hfd := h.ne_tickleFd hne
    have haccepts : m.kernel.accepts call = true := by
      rw [LinuxEpoll.accepts_del (hcall.op.mpr rfl), hcall.fd, h.mask fd hfd, if_neg hne]
      rfl
    have htook := took_of_accepts haccepts hsec
    exact ⟨h.took hinv hp hfd hcall (by simp) htook, h.eventsOf_took hp htook⟩

/-- The section of `delEvent` and `cancelEvent`. -/
theorem Kept.removed_event (h : m.Kept) (hp : m.fdContexts[fd]? = some p)
    (hctx : m.objects[p]? = some ctx)
    (hm' : ctx.events.has e = false ∧ m' = m ∨ ctx.events.has e = true ∧
      m.Sectioned m' p (removeCall fd (ctx.events \ e.mask)) (ctx.events \ e.mask)) :
    m.Removed m' p fd (m.eventsOf fd) (m.eventsOf fd \ e.mask) := by
  have hsingle := h.single fd
  rw [eventsOf_eq hp hctx] at hsingle ⊢
  rcases hm' with ⟨hnot, rfl⟩ | ⟨hhas, hsec⟩
  · exact .inl ⟨Events.sdiff_mask_eq hnot, rfl⟩
  · have hmask : e.mask.has e = true := by simp [FdContext.ne_none_of_has hhas]
    have hempty := Events.sdiff_eq_empty hsingle hhas hmask
    rw [hempty] at hsec ⊢
    refine .inr ⟨?_, rfl, _, removeCall_leaves fd ∅, hsec⟩
    rintro heq
    simp [heq] at hhas

/-- The section of `cancelAll`. -/
theorem removed_all (hp : m.fdContexts[fd]? = some p) (hctx : m.objects[p]? = some ctx)
    (hm' : ctx.events = ∅ ∧ m' = m ∨ ctx.events ≠ ∅ ∧ m.Sectioned m' p ⟨.del, fd, {}⟩ ∅) :
    m.Removed m' p fd (m.eventsOf fd) ∅ := by
  rw [eventsOf_eq hp hctx]
  rcases hm' with ⟨hempty, rfl⟩ | ⟨hne, hsec⟩
  · exact .inl ⟨hempty.symm, rfl⟩
  · exact .inr ⟨hne, rfl, _, ⟨rfl, by simp, rfl⟩, hsec⟩

/-- A section with the search before it. -/
theorem Kept.withContext (h : m.Kept) {f : ℕ → Except IOFault (Bool × IOManager β LinuxEpoll)}
    (hf : ∀ p ctx, m.fdContexts[fd]? = some p → m.objects[p]? = some ctx →
      Ensures (fun _ => False)
        (fun r => r.2.Inv ∧ m.Removed r.2 p fd (m.eventsOf fd) left) (f p))
    (hfits : left ≠ m.eventsOf fd → m.size > fd) :
    ∃ r, m.withContext fd f = .ok r ∧ r.2.Kept ∧
      r.2.eventsOf = Function.update m.eventsOf fd left := by
  by_cases hsize : m.size ≤ fd
  · refine ⟨(false, m), by simp only [IOManager.withContext, if_pos hsize], h, ?_⟩
    have hleft : left = m.eventsOf fd := by
      by_contra hne
      have hlt := hfits hne
      omega
    rw [hleft, Function.update_eq_self]
  · have hlt : fd < m.fdContexts.length := lt_length_of_lt_size (Int.not_le.mp hsize)
    obtain ⟨p, hp⟩ : ∃ p, m.fdContexts[fd]? = some p := ⟨_, List.getElem?_eq_getElem hlt⟩
    obtain ⟨ctx, hctx, -⟩ := h.own hp
    obtain ⟨r, hok, hinv, hremoved⟩ := (hf p ctx hp hctx).exists_ok fun _ => id
    refine ⟨r, ?_, h.removed hinv hp hremoved⟩
    simp only [IOManager.withContext, if_neg hsize, contextAt, hp]
    exact hok

/-- What is left if the search ends before the section. -/
theorem withContext_of_size_le (hsize : m.size ≤ fd)
    (f : ℕ → Except IOFault (Bool × IOManager β LinuxEpoll)) :
    m.withContext fd f = .ok (false, m) := by
  simp only [IOManager.withContext, if_pos hsize]

/-! ### The search of `addEvent` -/

/-- The manager after the search. -/
def grown (m : IOManager β LinuxEpoll) (fd : ℕ) : IOManager β LinuxEpoll :=
  if m.size > fd then m else m.growFor fd

/-- `addEvent` grows the table, looks the context up and goes on under its lock. -/
theorem addEvent_eq (m : IOManager β LinuxEpoll) (fd : ℕ) (e : IOEvent) (cb : Option β)
    (caller : Caller) : m.addEvent fd e cb caller =
      (m.grown fd).contextAt fd >>= fun p => (m.grown fd).addEventLocked p fd e cb caller := by
  rw [IOManager.addEvent, grown]

/-- Growing the table is no call to the kernel. -/
theorem grown_kernel (m : IOManager β LinuxEpoll) (fd : ℕ) : (m.grown fd).kernel = m.kernel := by
  rw [grown]
  split <;> rfl

/-- Growing the table leaves the pipe. -/
theorem grown_tickleFd (m : IOManager β LinuxEpoll) (fd : ℕ) :
    (m.grown fd).tickleFd = m.tickleFd := by
  rw [grown]
  split <;> rfl

/-- Resizing the table keeps the mirror, if no descriptor with an event falls out of it. -/
theorem Kept.contextResize (h : m.Kept) {size : ℕ} (hsize : ∀ j, size ≤ j → m.eventsOf j = ∅) :
    (m.contextResize size).Kept ∧ (m.contextResize size).eventsOf = m.eventsOf := by
  have hevents : (m.contextResize size).eventsOf = m.eventsOf := by
    funext j
    rw [h.toTabled.eventsOf_contextResize]
    split
    case isTrue => rfl
    case isFalse hj => exact (hsize j (Nat.not_lt.mp hj)).symm
  refine ⟨{ toTabled := h.toTabled.contextResize size, rejected := h.rejected, mask := ?_,
            single := ?_, pipe := ?_ }, hevents⟩
  · rw [hevents]
    exact h.mask
  · rw [hevents]
    exact h.single
  · rw [hevents]
    exact h.pipe

/-- So does the growth that `addEvent` may need. -/
theorem Kept.grown (h : m.Kept)
    (hfits : m.size > fd ∨ fd < fd * 3 / 2 ∧ ∀ j, fd * 3 / 2 ≤ j → m.eventsOf j = ∅) :
    (m.grown fd).Kept ∧ (m.grown fd).eventsOf = m.eventsOf ∧
      fd < (m.grown fd).fdContexts.length := by
  rw [IOManager.grown]
  by_cases hsize : m.size > fd
  · rw [if_pos hsize]
    exact ⟨h, rfl, lt_length_of_lt_size hsize⟩
  · obtain ⟨hlt, hempty⟩ := hfits.resolve_left hsize
    obtain ⟨hkept, hevents⟩ := h.contextResize hempty
    rw [if_neg hsize]
    exact ⟨hkept, hevents, by rwa [length_growFor]⟩

/-! ### The calls -/

/-- The section of `addEvent` for a descriptor without events. -/
theorem Kept.addEventLocked (h : m.Kept) (hp : m.fdContexts[fd]? = some p)
    (hfd : fd ≠ m.tickleFd) (hempty : m.eventsOf fd = ∅) (he : e ≠ .none) {cb : Option β}
    {caller : Caller} (hcaller : cb = none → caller.running = true) :
    ∃ r, m.addEventLocked p fd e cb caller = .ok r ∧ r.2.Kept ∧
      r.2.eventsOf = Function.update m.eventsOf fd (m.eventsOf fd ∪ e.mask) := by
  obtain ⟨ctx, hctx, -⟩ := h.own hp
  have hctxEvents : ctx.events = ∅ := by rw [← eventsOf_eq hp hctx, hempty]
  have hlocked := h.inv.addEventLocked hctx (e := e) fd cb caller
  rw [hctxEvents] at hlocked
  -- none of the panics is possible: no event is registered, and a caller without callback runs
  obtain ⟨r, hok, hinv, -, hsec⟩ := hlocked.exists_ok fun f hf => by
    cases f with
    | registered => simp [AddFault, hctxEvents] at hf
    | unknownEvent => exact he hf
    | notRunning =>
      obtain ⟨hcb, hrun⟩ := hf
      rw [hcaller hcb] at hrun
      cases hrun
    | _ => exact hf
  -- without events the call is an `EPOLL_CTL_ADD`, which the kernel accepts
  have hop : (addCall fd ∅ e).op = .add := rfl
  have haccepts : m.kernel.accepts (addCall fd ∅ e) = true := by
    rw [LinuxEpoll.accepts_add hop]
    exact (h.isNone_waited hfd).mpr hempty
  have htook := took_of_accepts haccepts hsec
  refine ⟨r, hok, ?_, ?_⟩
  · exact h.took hinv hp hfd (addCall_leaves fd ∅ he) (Events.card_mask he).le htook
  · rw [h.eventsOf_took hp htook, hempty]

/-- The section of `addEvent` is not rejected for descriptors without events only: one that has
    events would be modified, which `EPOLLEXCLUSIVE` forbids. -/
theorem Tabled.isNone_waited (h : m.Tabled) (hp : m.fdContexts[fd]? = some p) {cb : Option β}
    {caller : Caller} {r : ℤ × IOManager β LinuxEpoll}
    (hok : m.addEventLocked p fd e cb caller = .ok r) (hm' : r.2.Mirrored) :
    (m.kernel.waited fd).isNone ∧ ∀ j, j ≠ fd → r.2.eventsOf j = m.eventsOf j := by
  obtain ⟨ctx, hctx, -⟩ := h.own hp
  obtain ⟨-, -, hsec⟩ := (h.inv.addEventLocked hctx fd cb caller).of_ok hok
  have htook := took_of_mirrored hm' hsec
  have haccepts : m.kernel.accepts (addCall fd ctx.events e) = true := by
    rw [← LinuxEpoll.ctl_fst]
    exact htook.accepted
  have hctxEvents : ctx.events = ∅ := by
    by_contra hne
    have hop : (addCall fd ctx.events e).op = .mod := if_pos hne
    rw [LinuxEpoll.accepts_mod_exclusive hop rfl] at haccepts
    cases haccepts
  rw [hctxEvents, LinuxEpoll.accepts_add rfl] at haccepts
  refine ⟨haccepts, fun j hj => ?_⟩
  rw [h.eventsOf_took hp htook, Function.update_of_ne hj]

/-- `addEvent` of the first event of a descriptor. -/
theorem Kept.addEvent (h : m.Kept) {cb : Option β} {caller : Caller}
    (ha : m.Admissible (.addEvent fd e cb caller))
    (hfits : SerialAttempt.Fits ⟨m, .addEvent fd e cb caller⟩) :
    ∃ r, m.addEvent fd e cb caller = .ok r ∧ r.2.Kept ∧
      r.2.eventsOf = Function.update m.eventsOf fd (m.eventsOf fd ∪ e.mask) := by
  obtain ⟨he, -, hcaller⟩ := ha
  obtain ⟨hempty, hfd, hgrow⟩ := hfits
  obtain ⟨hkept, hevents, hlt⟩ := h.grown hgrow
  obtain ⟨p, hp⟩ : ∃ p, (m.grown fd).fdContexts[fd]? = some p := ⟨_, List.getElem?_eq_getElem hlt⟩
  have hfd' : fd ≠ (m.grown fd).tickleFd := by rwa [grown_tickleFd]
  obtain ⟨r, hok, hkept', hevents'⟩ :=
    hkept.addEventLocked hp hfd' (by rw [hevents, hempty]) he hcaller
  refine ⟨r, ?_, hkept', by rw [hevents', hevents]⟩
  rw [addEvent_eq, contextAt, hp, ok_bind, hok]

/-- What `addEvent` needs in order to work. -/
theorem Kept.fits_of_addEvent (h : m.Kept) {cb : Option β} {caller : Caller}
    {r : ℤ × IOManager β LinuxEpoll} (hok : m.addEvent fd e cb caller = .ok r)
    (hm' : r.2.Mirrored)
    (hevents : r.2.eventsOf = Function.update m.eventsOf fd (m.eventsOf fd ∪ e.mask)) :
    SerialAttempt.Fits ⟨m, .addEvent fd e cb caller⟩ := by
  have htabled : (m.grown fd).Tabled := by
    rw [IOManager.grown]
    split
    · exact h.toTabled
    · exact h.toTabled.contextResize _
  rw [addEvent_eq] at hok
  cases hat : (m.grown fd).contextAt fd with
  | error f =>
    rw [hat] at hok
    cases hok
  | ok p =>
    rw [hat, ok_bind] at hok
    obtain ⟨hnone, hothers⟩ := htabled.isNone_waited (getElem?_of_contextAt hat) hok hm'
    rw [grown_kernel] at hnone
    -- the descriptor of the pipe is always waited for, so `EPOLL_CTL_ADD` would be refused
    have hfd : fd ≠ m.tickleFd := by
      rintro rfl
      have hsome := h.pipe.1
      rw [Option.isNone_iff_eq_none] at hnone
      simp [hnone] at hsome
    refine ⟨(h.isNone_waited hfd).mp hnone, hfd, ?_⟩
    by_cases hsize : m.size > fd
    · exact .inl hsize
    -- the table grows to `fd * 3 / 2`: this must reach `fd`, and forget nothing above it
    have hgrown : m.grown fd = m.growFor fd := if_neg hsize
    have hlt : fd < fd * 3 / 2 := by
      have hlen := lt_length_of_contextAt hat
      rwa [hgrown, length_growFor] at hlen
    refine .inr ⟨hlt, fun j hj => ?_⟩
    have hne : j ≠ fd := (hlt.trans_le hj).ne'
    have hkept : m.eventsOf j = (m.growFor fd).eventsOf j := by
      rw [← hgrown, ← hothers j hne, hevents, Function.update_of_ne hne]
    rw [hkept, growFor, h.toTabled.eventsOf_contextResize, if_neg (Nat.not_lt.mpr hj)]

/-- A report about registered events. -/
theorem Kept.dispatch (h : m.Kept) {r : Report} (ha : m.Admissible (.dispatch r)) :
    ∃ m', m.dispatch r = .ok m' ∧ m'.Kept ∧ m'.eventsOf = m.expects (.dispatch r) := by
  obtain ⟨fd, events, hfd, hp, hwaited, hreported⟩ := ha
  obtain ⟨ctx, hctx, rfl⟩ := h.own hp
  have hevents := eventsOf_eq hp hctx
  -- the kernel waits for what the context holds, as the two agree
  have hregistered : ctx.events = events := by
    rw [h.mask _ hfd, hevents] at hwaited
    split at hwaited
    case isTrue => cases hwaited
    case isFalse => exact Option.some.inj hwaited
  rw [← hregistered] at hreported
  -- so what is reported is held, and the report is not stale
  have hcurrent : ¬ m.Stale r ctx := by
    rintro ⟨-, -, e, hhas, hnot⟩
    rw [hreported e hhas] at hnot
    cases hnot
  obtain ⟨m', hok, hinv, hm'⟩ := (h.inv.dispatch hctx hcurrent).exists_ok fun _ => id
  let realEvents := Report.realEvents r ctx.events
  have hremoved : m.Removed m' r.ctx ctx.fd (m.eventsOf ctx.fd) (ctx.events \ realEvents) := by
    have hsingle := h.single ctx.fd
    rw [hevents] at hsingle ⊢
    -- nothing of the report is held, or the one event is, and `epoll_ctl` deletes the descriptor
    rcases hm' with ⟨hempty, rfl⟩ | ⟨hmeet, hsec⟩
    · refine .inl ⟨Events.ext_has fun e => ?_, rfl⟩
      have hnot := Events.eq_empty_iff.mp hempty e
      rw [Events.has_inter] at hnot
      rw [Events.has_sdiff]
      cases hhas : ctx.events.has e with
      | false => rfl
      | true => simpa [hhas] using hnot
    · obtain ⟨e, he⟩ : ∃ e, (ctx.events ∩ realEvents).has e = true := by
        simpa [Events.eq_empty_iff] using hmeet
      rw [Events.has_inter, Bool.and_eq_true] at he
      have hleft := Events.sdiff_eq_empty hsingle he.1 he.2
      rw [hleft] at hsec ⊢
      refine .inr ⟨?_, rfl, _, removeCall_leaves ctx.fd ∅, hsec⟩
      rintro heq
      simp [heq] at he
  obtain ⟨hkept, hafter⟩ := h.removed hinv hp hremoved
  refine ⟨m', hok, hkept, ?_⟩
  rw [hafter, expects, hctx]

/-- `cancelEvent`, and `delEvent` as far as the masks are concerned. -/
theorem Kept.delEvent (h : m.Kept) (hfits : (m.eventsOf fd).has e = true → m.size > fd) :
    ∃ r, m.delEvent fd e = .ok r ∧ r.2.Kept ∧
      r.2.eventsOf = Function.update m.eventsOf fd (m.eventsOf fd \ e.mask) := by
  refine h.withContext (fun p ctx hp hctx => ?_) fun hne => hfits (Events.sdiff_mask_ne_iff.mp hne)
  exact (h.inv.delEventLocked hctx fd).imp (fun _ => id)
    fun r hr => ⟨hr.1, h.removed_event hp hctx hr.2⟩

/-- `cancelEvent` takes the one event away and keeps the mirror. -/
theorem Kept.cancelEvent (h : m.Kept) (hfits : (m.eventsOf fd).has e = true → m.size > fd) :
    ∃ r, m.cancelEvent fd e = .ok r ∧ r.2.Kept ∧
      r.2.eventsOf = Function.update m.eventsOf fd (m.eventsOf fd \ e.mask) := by
  refine h.withContext (fun p ctx hp hctx => ?_) fun hne => hfits (Events.sdiff_mask_ne_iff.mp hne)
  exact (h.inv.cancelEventLocked hctx fd).imp (fun _ => id)
    fun r hr => ⟨hr.1, h.removed_event hp hctx hr.2⟩

/-- `cancelAll` takes all events of the descriptor away and keeps the mirror. -/
theorem Kept.cancelAll (h : m.Kept) (hfits : m.eventsOf fd ≠ ∅ → m.size > fd) :
    ∃ r, m.cancelAll fd = .ok r ∧ r.2.Kept ∧
      r.2.eventsOf = Function.update m.eventsOf fd ∅ := by
  refine h.withContext (fun p ctx hp hctx => ?_) fun hne => hfits hne.symm
  exact (h.inv.cancelAllLocked hctx fd).imp (fun _ => id)
    fun r hr => ⟨hr.1, removed_all hp hctx hr.2⟩

/-- A call that fits. -/
theorem Kept.step (h : m.Kept) {c : SerialCall β} (ha : m.Admissible c)
    (hfits : SerialAttempt.Fits ⟨m, c⟩) :
    ∃ m', m.serial c = .ok m' ∧ m'.Kept ∧ m'.eventsOf = m.expects c := by
  cases c with
  | addEvent fd e cb caller =>
    obtain ⟨r, hok, hr⟩ := h.addEvent ha hfits
    exact ⟨r.2, by rw [serial, hok, ok_bind]; rfl, hr⟩
  | delEvent fd e =>
    obtain ⟨r, hok, hr⟩ := h.delEvent hfits
    exact ⟨r.2, by rw [serial, hok, ok_bind]; rfl, hr⟩
  | cancelEvent fd e =>
    obtain ⟨r, hok, hr⟩ := h.cancelEvent hfits
    exact ⟨r.2, by rw [serial, hok, ok_bind]; rfl, hr⟩
  | cancelAll fd =>
    obtain ⟨r, hok, hr⟩ := h.cancelAll hfits
    exact ⟨r.2, by rw [serial, hok, ok_bind]; rfl, hr⟩
  | dispatch r => exact h.dispatch ha

/-- A removal that works, of an event that is registered, does not end before the section. -/
theorem size_of_removed {f : ℕ → Except IOFault (Bool × IOManager β LinuxEpoll)}
    (hok : m.withContext fd f >>= (fun r => Except.ok r.2) = .ok m')
    (hevents : m'.eventsOf = Function.update m.eventsOf fd left) (hne : left ≠ m.eventsOf fd) :
    m.size > fd := by
  by_contra hsize
  rw [withContext_of_size_le (Int.not_lt.mp hsize), ok_bind] at hok
  rw [← Except.ok.inj hok] at hevents
  have hsame := congrFun hevents fd
  rw [Function.update_self] at hsame
  exact hne hsame.symm

/-- A call that works. -/
theorem Kept.fits (h : m.Kept) {c : SerialCall β} (hworks : SerialAttempt.Works ⟨m, c⟩) :
    SerialAttempt.Fits ⟨m, c⟩ := by
  obtain ⟨m', hok, hm', hevents⟩ := hworks
  cases c with
  | addEvent fd e cb caller =>
    cases hadd : m.addEvent fd e cb caller with
    | error f =>
      change m.addEvent fd e cb caller >>= _ = _ at hok
      rw [hadd] at hok
      cases hok
    | ok r =>
      change m.addEvent fd e cb caller >>= _ = _ at hok
      rw [hadd, ok_bind] at hok
      obtain rfl : r.2 = m' := Except.ok.inj hok
      exact h.fits_of_addEvent hadd hm' hevents
  | delEvent fd e =>
    intro hhas
    exact size_of_removed hok hevents (Events.sdiff_mask_ne_iff.mpr hhas)
  | cancelEvent fd e =>
    intro hhas
    exact size_of_removed hok hevents (Events.sdiff_mask_ne_iff.mpr hhas)
  | cancelAll fd => exact fun hne => size_of_removed hok hevents hne.symm
  | dispatch r => trivial

/-- A new manager. -/
theorem kept_begins (m : IOManager β LinuxEpoll)
    (h : ∃ tickleFd, Except.ok m = create tickleFd {}) : m.Kept := by
  obtain ⟨tickleFd, h⟩ := h
  let mask : EpollMask := { events := IOEvent.read.mask, et := true }
  let m₀ : IOManager β LinuxEpoll := { tickleFd, kernel := { interest := [(tickleFd, mask)] } }
  have hcreate : create tickleFd {} = .ok (m₀.contextResize 32) := rfl
  obtain rfl := Except.ok.inj (h.trans hcreate)
  have hempty : ∀ fd, m₀.eventsOf fd = ∅ := fun fd => eventsOf_of_length_le (Nat.zero_le fd)
  have hkept : m₀.Kept := {
    inv := ⟨rfl, by simp [m₀]⟩
    own := by simp [m₀]
    rejected := rfl
    mask := fun fd hfd => by
      rw [if_pos (hempty fd), LinuxEpoll.waited]
      simp [m₀, List.lookup_cons, beq_eq_false_iff_ne.mpr hfd]
    single := fun fd => by simp [hempty]
    pipe := ⟨by simp [m₀, LinuxEpoll.waited], hempty _⟩ }
  exact (hkept.contextResize fun j _ => hempty j).1

end IOManager

/-! ## Runs -/

namespace SerialRun

open IOManager

variable {attempts : List (SerialAttempt β)} {result : Except IOFault (IOManager β LinuxEpoll)}

/-- One more call of a serial run. -/
theorem step {m : IOManager β LinuxEpoll} (h : SerialRun attempts (.ok m)) {c : SerialCall β}
    (hc : m.Admissible c) : SerialRun (attempts ++ [⟨m, c⟩]) (m.serial c) := Attempts.step h hc

/-- A call that fits keeps the mirror. -/
theorem kept_step (m : IOManager β LinuxEpoll) (c : SerialCall β) (m' : IOManager β LinuxEpoll)
    (h : m.Kept) (hc : m.Admissible c) (hfits : SerialAttempt.Fits ⟨m, c⟩)
    (hok : m.serial c = .ok m') : m'.Kept := by
  obtain ⟨m'', hok', hkept, -⟩ := h.step hc hfits
  rwa [Except.ok.inj (hok.symm.trans hok')]

/-- From a state that keeps the mirror, a call works iff it fits. -/
theorem works_step (m : IOManager β LinuxEpoll) (c : SerialCall β) (h : m.Kept)
    (hc : m.Admissible c) :
    m.Mirrored ∧ SerialAttempt.Works ⟨m, c⟩ ↔ SerialAttempt.Fits ⟨m, c⟩ := by
  constructor
  · rintro ⟨-, hworks⟩
    exact h.fits hworks
  · intro hfits
    obtain ⟨m', hok, hkept, hevents⟩ := h.step hc hfits
    exact ⟨h.toMirrored, m', hok, hkept.toMirrored, hevents⟩

/-- **The kernel follows the table of contexts**, and every call does what is expected of it, if all
    calls fit, and only then. -/
theorem mirrored_iff (h : SerialRun attempts result) :
    ((∀ m, result = .ok m → m.Mirrored) ∧ ∀ x ∈ attempts, x.before.Mirrored ∧ x.Works) ↔
      ∀ x ∈ attempts, x.Fits := by
  have hiff := h.forall_iff (Q := fun x : SerialAttempt β => x.before.Mirrored ∧ x.Works)
    kept_begins kept_step works_step
  constructor
  · rintro ⟨-, hattempts⟩
    exact hiff.mp hattempts
  · intro hfits
    obtain ⟨hresult, -⟩ := h.invariant kept_begins kept_step hfits
    exact ⟨fun m hm => (hresult m hm).toMirrored, hiff.mpr hfits⟩

section connecting

/-- The pipe, as the constructor registers it. -/
private def listening : ℕ × EpollMask := (3, { events := { read := true }, et := true })

/-- The manager of a process that connects a socket with descriptor 7. -/
private def connecting (ctx : FdContext String) (count : ℕ) (interest : List (ℕ × EpollMask)) :
    IOManager String LinuxEpoll :=
  { objects := ((List.range 32).map fun fd => { fd }).set 7 ctx
    fdContexts := List.range 32
    pendingEventCnt := count
    tickleFd := 3
    kernel := { interest } }

/-- A manager without an event on descriptor 7. -/
private def unconnected : IOManager String LinuxEpoll := connecting { fd := 7 } 0 [listening]

/-- The same with `do_io` waiting to write. -/
private def awaited : IOManager String LinuxEpoll :=
  connecting
    { write := { scheduler := some 1, cb := some "do_io_write" }, fd := 7
      events := { write := true } }
    1 [(7, { events := { write := true }, et := true, exclusive := true }), listening]

/-- The fiber that makes the calls. -/
private def fiber : Caller := { scheduler := 1, fiber := 1 }

/-- The table reaches past descriptor 7. -/
private theorem seven_lt_size {ctx : FdContext String} {count : ℕ}
    {interest : List (ℕ × EpollMask)} : (connecting ctx count interest).size > (7 : ℕ) := by
  have hlen : (connecting ctx count interest).fdContexts.length = 32 := by simp [connecting]
  have hsize : (connecting ctx count interest).size = (32 : ℕ) := by
    unfold size
    rewrite [hlen]
    exact bmod_eq_of_lt (by omega) (by omega)
  rw [hsize]
  decide

/-- `addEvent` on descriptor 7 finds its context. -/
private theorem serial_seven {m : IOManager String LinuxEpoll} (hsize : m.size > (7 : ℕ))
    (hp : m.fdContexts[7]? = some 7) (event : IOEvent) (cb : String) :
    m.serial (.addEvent 7 event (some cb) fiber) =
      m.addEventLocked 7 7 event (some cb) fiber >>= fun r => .ok r.2 := by
  rw [serial, addEvent_eq, grown, if_pos hsize, contextAt, hp, ok_bind]
  rfl

/-- The run from the one to the other. -/
private theorem run_awaited :
    SerialRun [⟨unconnected, .addEvent 7 .write (some "do_io_write") fiber⟩] (.ok awaited) := by
  have hstart : SerialRun [] (.ok unconnected) := .start ⟨3, rfl⟩
  have hok : unconnected.serial (.addEvent 7 .write (some "do_io_write") fiber) = .ok awaited := by
    rw [serial_seven (m := unconnected) seven_lt_size rfl]
    rfl
  have hrun := hstart.step (c := .addEvent 7 .write (some "do_io_write") fiber)
    ⟨by decide, rfl, by simp⟩
  rwa [hok] at hrun

/-- The socket waits for the end of `connect`. -/
theorem mirrored_iff_connecting : awaited.Mirrored :=
  (run_awaited.mirrored_iff.mpr fun x hx => by
    obtain rfl := List.mem_singleton.mp hx
    exact ⟨rfl, by decide, .inl seven_lt_size⟩).1 _ rfl

/-- The example registers `WRITE` and then `READ` for one socket: `EPOLL_CTL_MOD` with
    `EPOLLEXCLUSIVE` is rejected. -/
theorem mirrored_iff_both :
    ¬ ∀ (attempts : List (SerialAttempt String))
        (result : Except IOFault (IOManager String LinuxEpoll)), SerialRun attempts result →
      ∀ x ∈ attempts, x.Works := by
  intro hall
  have hrun := run_awaited.step (c := .addEvent 7 .read (some "do_io_read") fiber)
    ⟨by decide, rfl, by simp⟩
  obtain ⟨m, hok, hm, -⟩ := hall _ _ hrun _ (List.mem_append_right _ (List.mem_singleton_self _))
  change awaited.serial _ = _ at hok
  rw [serial_seven (m := awaited) seven_lt_size rfl] at hok
  have hrejected := hm.rejected
  rw [← Except.ok.inj hok] at hrejected
  cases hrejected

end connecting

end SerialRun

end RaftStore
