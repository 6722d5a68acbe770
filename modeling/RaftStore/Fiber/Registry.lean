import RaftStore.Fiber.Contexts
import Mathlib.Logic.Function.Basic

namespace RaftStore

/-!
# What each descriptor waits for

By one thread alone every descriptor has the context at its place in `fdContexts_`, and the table
of contexts is read as a function from descriptors to events.

* `IOManager.eventsOf` — the registered events of a descriptor.
* `IOManager.Tabled` — the invariant, and every place of the table has a context of its own.
* `Tabled.eventsOf_contextResize`, `Tabled.eventsOf_took` — resizing the table drops the descriptors
  past its end, and an accepted call changes one descriptor.
-/

variable {β K : Type}

namespace IOManager

variable {m m' : IOManager β K} {fd p size : ℕ} {ctx : FdContext β} {events : Events}

/-- The context of a descriptor. -/
def contextOf (m : IOManager β K) (fd : ℕ) : Option (FdContext β) :=
  (m.fdContexts[fd]?).bind fun p => m.objects[p]?

/-- `FdContext::events` of a descriptor, empty if there is no context. -/
def eventsOf (m : IOManager β K) (fd : ℕ) : Events :=
  match m.contextOf fd with
  | some ctx => ctx.events
  | none => ∅

/-- The context of a descriptor lies at the address in the table. -/
theorem contextOf_eq (hp : m.fdContexts[fd]? = some p) : m.contextOf fd = m.objects[p]? := by
  rw [contextOf, hp, Option.bind_some]

/-- The events of a descriptor are those of its context. -/
theorem eventsOf_eq (hp : m.fdContexts[fd]? = some p) (hctx : m.objects[p]? = some ctx) :
    m.eventsOf fd = ctx.events := by
  rw [eventsOf, contextOf_eq hp, hctx]

/-- There is no event behind the end of the table. -/
theorem eventsOf_of_length_le (h : m.fdContexts.length ≤ fd) : m.eventsOf fd = ∅ := by
  rw [eventsOf, contextOf, List.getElem?_eq_none h, Option.bind_none]

/-- A lookup finds what is in the table. -/
theorem getElem?_of_contextAt (h : m.contextAt fd = .ok p) : m.fdContexts[fd]? = some p := by
  rw [contextAt] at h
  split at h
  case h_1 hp => rw [hp, Except.ok.inj h]
  case h_2 => cases h

/-- What holds of the manager whatever the kernel is. -/
structure Tabled (m : IOManager β K) : Prop where
  inv : m.Inv
  own : ∀ {fd p : ℕ}, m.fdContexts[fd]? = some p →
    ∃ ctx : FdContext β, m.objects[p]? = some ctx ∧ ctx.fd = fd

/-! ### Resizing -/

/-- A place of the table after it is resized: what was there, or a new object. -/
theorem getElem?_contextResize (m : IOManager β K) (size fd : ℕ) :
    (m.contextResize size).fdContexts[fd]? =
      if fd < size then
        if fd < m.fdContexts.length then m.fdContexts[fd]?
        else some (m.objects.length + (fd - m.fdContexts.length))
      else none := by
  rw [contextResize]
  simp only [List.getElem?_append, List.length_take, List.getElem?_take, List.getElem?_map]
  by_cases hsize : fd < size
  · by_cases hlen : fd < m.fdContexts.length
    · simp [hsize, hlen]
    · have hkept : min size m.fdContexts.length = m.fdContexts.length := by omega
      have hrange : fd - m.fdContexts.length < size - m.fdContexts.length := by omega
      simp [hsize, hlen, hkept, hrange]
  · have hkept : ¬ fd < min size m.fdContexts.length := by omega
    have hrange : ¬ fd - min size m.fdContexts.length < size - min size m.fdContexts.length := by
      omega
    simp [hsize, hkept, hrange]

/-- The object at a place past the end of the old table. -/
theorem objects_contextResize (hlen : m.fdContexts.length ≤ fd) (hsize : fd < size) :
    (m.contextResize size).objects[m.objects.length + (fd - m.fdContexts.length)]? =
      some { fd } := by
  have hkept : min size m.fdContexts.length = m.fdContexts.length := by omega
  have hrange : fd - m.fdContexts.length < size - m.fdContexts.length := by omega
  have hfd : m.fdContexts.length + (fd - m.fdContexts.length) = fd := by omega
  simp [contextResize, hkept, hrange, hfd]

/-- Resizing the table leaves the contexts. -/
theorem objects_contextResize_of_some (hctx : m.objects[p]? = some ctx) (size : ℕ) :
    (m.contextResize size).objects[p]? = some ctx := by
  have hlt := (List.getElem?_eq_some_iff.mp hctx).1
  rw [contextResize, List.getElem?_append_left hlt, hctx]

/-- Resizing keeps the table in order. -/
theorem Tabled.contextResize (h : m.Tabled) (size : ℕ) : (m.contextResize size).Tabled where
  inv := h.inv.contextResize size
  own := by
    intro fd p hp
    rw [getElem?_contextResize] at hp
    split at hp
    case isFalse => cases hp
    case isTrue hsize =>
      split at hp
      case isTrue hlen =>
        obtain ⟨ctx, hctx, hfd⟩ := h.own hp
        exact ⟨ctx, objects_contextResize_of_some hctx size, hfd⟩
      case isFalse hlen =>
        obtain rfl := Option.some.inj hp
        exact ⟨{ fd }, objects_contextResize (Nat.not_lt.mp hlen) hsize, rfl⟩

/-- Resizing the table drops the descriptors past its end, and no other event. -/
theorem Tabled.eventsOf_contextResize (h : m.Tabled) (size fd : ℕ) :
    (m.contextResize size).eventsOf fd = if fd < size then m.eventsOf fd else ∅ := by
  split
  case isFalse hsize =>
    apply eventsOf_of_length_le
    rw [length_contextResize]
    exact Nat.not_lt.mp hsize
  case isTrue hsize =>
    have hplace := getElem?_contextResize m size fd
    rw [if_pos hsize] at hplace
    by_cases hlen : fd < m.fdContexts.length
    · obtain ⟨p, hp⟩ : ∃ p, m.fdContexts[fd]? = some p := ⟨_, List.getElem?_eq_getElem hlen⟩
      obtain ⟨ctx, hctx, -⟩ := h.own hp
      rw [if_pos hlen, hp] at hplace
      rw [eventsOf_eq hplace (objects_contextResize_of_some hctx size), eventsOf_eq hp hctx]
    · have hlen := Nat.not_lt.mp hlen
      rw [if_neg (Nat.not_lt.mpr hlen)] at hplace
      rw [eventsOf_eq hplace (objects_contextResize hlen hsize), eventsOf_of_length_le hlen]

/-! ### Sections -/

section sections

variable [Epoll K] {call : EpollCall}

/-- Taking an event keeps the table in order. -/
theorem Tabled.took (h : m.Tabled) (hinv : m'.Inv) (htook : m.Took m' p call events) :
    m'.Tabled where
  inv := hinv
  own := by
    intro fd q hq
    rw [htook.fdContexts] at hq
    obtain ⟨c, hc, hfd⟩ := h.own hq
    obtain ⟨ctx, ctx', hctx, hobjects, hfd', -⟩ := htook.objects
    rw [hobjects]
    by_cases hpq : p = q
    · subst hpq
      have heq : ctx = c := Option.some.inj (hctx.symm.trans hc)
      exact ⟨ctx', getElem?_set_of_some hctx ctx', by rw [hfd', heq, hfd]⟩
    · exact ⟨c, by rw [List.getElem?_set_ne hpq, hc], hfd⟩

/-- An accepted call changes the events of one descriptor. -/
theorem Tabled.eventsOf_took (h : m.Tabled) (hp : m.fdContexts[fd]? = some p)
    (htook : m.Took m' p call events) : m'.eventsOf = Function.update m.eventsOf fd events := by
  obtain ⟨ctx, ctx', hctx, hobjects, -, hevents⟩ := htook.objects
  have hfd : ctx.fd = fd := by
    obtain ⟨c, hc, hfd⟩ := h.own hp
    rwa [Option.some.inj (hctx.symm.trans hc)]
  funext j
  by_cases hj : j = fd
  · subst hj
    rw [Function.update_self, ← hevents]
    apply eventsOf_eq (htook.fdContexts.symm ▸ hp)
    rw [hobjects]
    exact getElem?_set_of_some hctx ctx'
  -- another descriptor has another context, as a context knows its descriptor
  · rw [Function.update_of_ne hj]
    have hne : ∀ q, m.fdContexts[j]? = some q → m'.objects[q]? = m.objects[q]? := by
      intro q hq
      obtain ⟨c, hc, hcfd⟩ := h.own hq
      have hpq : p ≠ q := by
        rintro rfl
        rw [hctx] at hc
        exact hj (by rw [← hcfd, ← Option.some.inj hc, hfd])
      rw [hobjects, List.getElem?_set_ne hpq]
    have hcontext : m'.contextOf j = m.contextOf j := by
      rw [contextOf, contextOf, htook.fdContexts]
      exact Option.bind_congr hne
    rw [eventsOf, eventsOf, hcontext]

end sections

end IOManager

end RaftStore
