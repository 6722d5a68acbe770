import RaftStore.Fiber.Accounting
import RaftStore.Lib.Narrowing

namespace RaftStore

/-!
# The table of contexts

A thread in `addEvent` tests the size of `fdContexts_` under the read lock, and if its descriptor is
not below it, resizes the table under the write lock.  In between other threads may have resized it
already, to a size that belongs to their descriptors.

* `LookupThreads` — the manager and the calls between the two locks; `LookupRun` — the runs.
* `LookupAttempt.Keeps` — the step finds a context within bounds, and all contexts keep their
  places.
* `LookupAttempt.Fits` — the table is not larger than what a thread resizes it to.
* `contexts_kept_iff` — the first holds of all steps of a run exactly if the second does.
-/

variable {β K : Type}

/-- The manager, with the descriptors whose size test has failed. -/
structure LookupThreads (β K : Type) where
  manager : IOManager β K
  waiting : List ℕ := []

/-- A step of some thread in `addEvent`. -/
inductive LookupAction
  | test (fd : ℕ)
  | grow (fd : ℕ)
  deriving DecidableEq, Repr

namespace LookupThreads

variable (s : LookupThreads β K)

/-- A thread comes to the write lock after its test. -/
def Admissible : LookupAction → Prop
  | .test _ => True
  | .grow fd => fd ∈ s.waiting

/-- One step, up to `fdContexts_[fd]` if it gets there. -/
def step : LookupAction → Except IOFault (LookupThreads β K)
  | .test fd =>
    if s.manager.size > fd then do
      let _ ← s.manager.contextAt fd
      return s
    else
      .ok { s with waiting := fd :: s.waiting }
  | .grow fd => do
    let manager := s.manager.growFor fd
    let _ ← manager.contextAt fd
    return { manager, waiting := s.waiting.erase fd }

end LookupThreads

/-- A step that was attempted. -/
abbrev LookupAttempt (β K : Type) := Attempt (LookupThreads β K) LookupAction

namespace LookupAttempt

variable (x : LookupAttempt β K)

/-- An index is within bounds, and the table afterwards begins with the table before. -/
def Keeps : Prop :=
  ∃ s', x.before.step x.action = .ok s' ∧
    x.before.manager.fdContexts <+: s'.manager.fdContexts

/-- A thread does not resize the table to less than it has. -/
def Fits : Prop :=
  match x.action with
  | .test _ => True
  | .grow fd => x.before.manager.fdContexts.length ≤ fd * 3 / 2

end LookupAttempt

/-- The runs, with the steps attempted and what the last of them led to. -/
def LookupRun [Epoll K] : List (LookupAttempt β K) → Except IOFault (LookupThreads β K) → Prop :=
  Attempts
    (fun result => ∃ tickleFd kernel, result =
      (IOManager.create tickleFd kernel).map fun manager => { manager })
    LookupThreads.Admissible LookupThreads.step

namespace IOManager

variable {m : IOManager β K} {fd : ℕ}

/-- A descriptor below the size has an entry. -/
theorem lt_length_of_lt_size (h : m.size > fd) : fd < m.fdContexts.length := by
  have hle : m.size ≤ m.fdContexts.length := bmod_le_of_nonneg (Int.natCast_nonneg _)
  omega

/-- An entry leads to a context. -/
theorem exists_contextAt (h : fd < m.fdContexts.length) : ∃ p, m.contextAt fd = .ok p := by
  obtain ⟨p, hp⟩ : ∃ p, m.fdContexts[fd]? = some p := ⟨_, List.getElem?_eq_getElem h⟩
  exact ⟨p, by rw [contextAt, hp]⟩

/-- Who has found a context had an entry. -/
theorem lt_length_of_contextAt {p : ℕ} (h : m.contextAt fd = .ok p) :
    fd < m.fdContexts.length := by
  rw [contextAt] at h
  split at h
  case h_1 hp => exact (List.getElem?_eq_some_iff.mp hp).1
  case h_2 => cases h

/-- The table has the size that was asked for. -/
@[simp] theorem length_contextResize (m : IOManager β K) (size : ℕ) :
    (m.contextResize size).fdContexts.length = size := by
  simp [contextResize]

/-- The table grows to one and a half times the descriptor. -/
theorem length_growFor (m : IOManager β K) (fd : ℕ) :
    (m.growFor fd).fdContexts.length = fd * 3 / 2 := length_contextResize m _

/-- A table that is not cut keeps every context in its place. -/
theorem isPrefix_contextResize {size : ℕ} (h : m.fdContexts.length ≤ size) :
    m.fdContexts <+: (m.contextResize size).fdContexts := by
  rw [contextResize, List.take_of_length_le h]
  exact List.prefix_append _ _

/-- The table of a new manager. -/
theorem create_ensures [Epoll K] (tickleFd : ℕ) (kernel : K) :
    Ensures (fun _ => True) (fun m => m.fdContexts.length = 32)
      (create tickleFd kernel : Except IOFault (IOManager β K)) := by
  rw [create]
  exact (ensures_condPanic fun _ => trivial).bind fun _ _ => length_contextResize _ 32

end IOManager

/-! ## Steps -/

namespace LookupThreads

variable {s : LookupThreads β K} {a : LookupAction}

/-- A thread that finds no entry waits to grow the table. -/
theorem step_test {fd : ℕ} (h : s.manager.fdContexts.length ≤ fd) :
    s.step (.test fd) = .ok { s with waiting := fd :: s.waiting } := by
  have hnot : ¬ s.manager.size > fd := fun hlt =>
    absurd (IOManager.lt_length_of_lt_size hlt) (not_lt.mpr h)
  simp only [LookupThreads.step, if_neg hnot]

/-- A thread that waits grows the table. -/
theorem step_grow {fd : ℕ} (h : fd < fd * 3 / 2) :
    s.step (.grow fd) =
      .ok { manager := s.manager.growFor fd, waiting := s.waiting.erase fd } := by
  obtain ⟨p, hat⟩ := IOManager.exists_contextAt
    (m := s.manager.growFor fd) (h.trans_eq (IOManager.length_growFor _ fd).symm)
  show ((s.manager.growFor fd).contextAt fd).bind _ = _
  rw [hat]
  rfl

/-- What a step that fits does: no index is out of bounds, and nothing is cut. -/
theorem keeps_of_fits (h32 : 32 ≤ s.manager.fdContexts.length)
    (hfits : LookupAttempt.Fits ⟨s, a⟩) : LookupAttempt.Keeps ⟨s, a⟩ := by
  cases a with
  | test fd =>
    by_cases hlt : s.manager.size > fd
    · obtain ⟨p, hat⟩ := IOManager.exists_contextAt (IOManager.lt_length_of_lt_size hlt)
      refine ⟨s, ?_, List.prefix_rfl⟩
      simp only [LookupThreads.step, if_pos hlt, hat]
      rfl
    · refine ⟨{ s with waiting := fd :: s.waiting }, ?_, List.prefix_rfl⟩
      simp only [LookupThreads.step, if_neg hlt]
  | grow fd =>
    have hle : s.manager.fdContexts.length ≤ fd * 3 / 2 := hfits
    have hlt : fd < fd * 3 / 2 := by omega
    exact ⟨_, step_grow hlt, IOManager.isPrefix_contextResize hle⟩

/-- What a step that keeps the contexts must do. -/
theorem fits_of_keeps (h : LookupAttempt.Keeps ⟨s, a⟩) : LookupAttempt.Fits ⟨s, a⟩ := by
  cases a with
  | test fd => trivial
  | grow fd =>
    obtain ⟨s', hstep, hpre⟩ := h
    have hmanager : s'.manager = s.manager.growFor fd := by
      rw [LookupThreads.step] at hstep
      cases hat : (s.manager.growFor fd).contextAt fd with
      | error f => simp [hat, bind, Except.bind] at hstep
      | ok p =>
        simp only [hat, bind, Except.bind, pure, Except.pure, Except.ok.injEq] at hstep
        rw [← hstep]
    have hlen := hpre.length_le
    rw [hmanager, IOManager.length_growFor] at hlen
    exact hlen

/-- As long as all steps fit, the table has the contexts of the beginning. -/
theorem length_step (s : LookupThreads β K) (a : LookupAction) (s' : LookupThreads β K)
    (h32 : 32 ≤ s.manager.fdContexts.length) (_ : s.Admissible a)
    (hfits : LookupAttempt.Fits ⟨s, a⟩) (hs' : s.step a = .ok s') :
    32 ≤ s'.manager.fdContexts.length := by
  obtain ⟨s'', hstep, hpre⟩ := keeps_of_fits h32 hfits
  obtain rfl : s'' = s' := Except.ok.inj (hstep.symm.trans hs')
  exact h32.trans hpre.length_le

end LookupThreads

namespace LookupRun

variable [Epoll K] {attempts : List (LookupAttempt β K)}
  {result : Except IOFault (LookupThreads β K)}

/-- One more action of a run. -/
theorem step {s : LookupThreads β K} (h : LookupRun attempts (.ok s)) {a : LookupAction}
    (ha : s.Admissible a) : LookupRun (attempts ++ [⟨s, a⟩]) (s.step a) := Attempts.step h ha

/-- The table has at least 32 entries where a run begins. -/
theorem length_begins (s : LookupThreads β K)
    (h : ∃ tickleFd kernel, Except.ok s =
      (IOManager.create tickleFd kernel).map fun manager => { manager }) :
    32 ≤ s.manager.fdContexts.length := by
  obtain ⟨tickleFd, kernel, h⟩ := h
  obtain ⟨m, hm, rfl⟩ := (IOManager.create_ensures tickleFd kernel).of_map_eq_ok h.symm
  exact hm.ge

/-- **Contexts are never dropped**, if no thread resizes the table to less than it has, and only
    then. -/
theorem contexts_kept_iff (h : LookupRun attempts result) :
    (∀ x ∈ attempts, x.Keeps) ↔ ∀ x ∈ attempts, x.Fits :=
  h.forall_iff length_begins LookupThreads.length_step fun _ _ h32 _ =>
    ⟨LookupThreads.fits_of_keeps, LookupThreads.keeps_of_fits h32⟩

section twoThreads

/-- A manager on which nothing waits. -/
private def unused : IOManager String LinuxEpoll :=
  { objects := (List.range 32).map fun fd => { fd }
    fdContexts := List.range 32
    tickleFd := 3
    kernel := { interest := [(3, { events := { read := true }, et := true })] } }

/-- The run that has just begun. -/
private theorem run_unused : LookupRun [] (.ok { manager := unused }) :=
  .start ⟨3, {}, rfl⟩

/-- The run in which a thread finds no entry for descriptor 40. -/
private theorem run_forty :
    LookupRun [⟨{ manager := unused }, .test 40⟩] (.ok { manager := unused, waiting := [40] }) := by
  have hrun := run_unused.step (a := .test 40) trivial
  rwa [LookupThreads.step_test (by simp [unused])] at hrun

/-- One thread alone: descriptor 40 takes the table from 32 to 60. -/
theorem contexts_kept_iff_forty :
    LookupAttempt.Keeps ⟨{ manager := unused, waiting := [40] }, .grow 40⟩ :=
  have hrun := run_forty.step (a := .grow 40) (List.mem_singleton_self _)
  hrun.contexts_kept_iff.mpr
    (fun x hx => by
      rcases List.mem_append.mp hx with hx | hx
      · obtain rfl := List.mem_singleton.mp hx
        trivial
      · obtain rfl := List.mem_singleton.mp hx
        show (List.range 32).length ≤ 60
        simp)
    _ (List.mem_append_right _ (List.mem_singleton_self _))

/-- Both threads find 32 contexts; the one with descriptor 100 resizes the table to 150, and then
    the one with descriptor 40 to 60. -/
theorem contexts_kept_iff_shrunk :
    ¬ ∀ (attempts : List (LookupAttempt String LinuxEpoll))
        (result : Except IOFault (LookupThreads String LinuxEpoll)), LookupRun attempts result →
      ∀ x ∈ attempts, x.Keeps := by
  intro hall
  have hboth := run_forty.step (a := .test 100) trivial
  rw [LookupThreads.step_test (by simp [unused])] at hboth
  have hgrown := hboth.step (a := .grow 100) (List.mem_cons_self ..)
  rw [LookupThreads.step_grow (by decide)] at hgrown
  have hshrunk := hgrown.step (a := .grow 40) (List.mem_singleton_self _)
  have hfits := LookupThreads.fits_of_keeps
    (hall _ _ hshrunk _ (List.mem_append_right _ (List.mem_singleton_self _)))
  have hle : (unused.growFor 100).fdContexts.length ≤ 60 := hfits
  rw [IOManager.length_growFor] at hle
  omega

end twoThreads

end LookupRun

end RaftStore
