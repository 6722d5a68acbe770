import RaftStore.Model.FdManager
import RaftStore.Lib.Attempts

namespace RaftStore

/-!
# Hooked sockets stay non-blocking

`F_SETFL` and `FIONBIO` both set the mode that the user sees, but only the first keeps `O_NONBLOCK`
in what it passes to the kernel.  The process is run with a function `asked` beside it: for every
descriptor that came from the hooked `socket` and is open, the mode that an accepted call last asked
for.

* `Process.Faithful` — the kernel does not block on a descriptor, and the user sees the mode asked
  for.
* `Kept` — the same as a property of the context and the open file.
* `Tracked.step` — one call, on any thread and any descriptor.
* `FdAttempt.Fits` — the exact condition; `Tracked.faithful_step_iff` is about one call and
  `sockets_faithful_iff` about all runs.
-/

/-! ## The bit -/

/-- `O_NONBLOCK` is bit 11. -/
theorem nonblock_eq (flags : Flags) : nonblock flags = flags.getLsbD 11 := by
  have hmask : oNonblock = BitVec.twoPow 32 11 := by decide
  have hne : BitVec.twoPow 32 11 ≠ 0#32 := by decide
  rw [nonblock, hmask, BitVec.and_twoPow]
  cases flags.getLsbD 11 <;> simp [hne]

/-- The bit of a union. -/
@[simp] theorem nonblock_or (a b : Flags) : nonblock (a ||| b) = (nonblock a || nonblock b) := by
  simp [nonblock_eq]

/-- The bit of an intersection. -/
@[simp] theorem nonblock_and (a b : Flags) : nonblock (a &&& b) = (nonblock a && nonblock b) := by
  simp [nonblock_eq]

/-- The bit of a complement. -/
@[simp] theorem nonblock_not (a : Flags) : nonblock (~~~a) = !nonblock a := by
  simp [nonblock_eq]

/-- `O_NONBLOCK` is the bit. -/
@[simp] theorem nonblock_oNonblock : nonblock oNonblock = true := by decide

/-- `F_SETFL` can change the bit. -/
@[simp] theorem nonblock_setflMask : nonblock setflMask = true := by decide

/-! ## The kernel -/

namespace Kernel

variable {k : Kernel} {fd : ℕ} {file : OpenFile}

/-- Only the one descriptor is assigned. -/
@[simp] theorem files_assign (fd' : ℕ) (f : Option OpenFile) :
    (k.assign fd f).files fd' = if fd' = fd then f else k.files fd' := by
  simp [assign, Function.update_apply]

/-- `F_GETFL` on an open descriptor gives its flags. -/
theorem fcntlGetfl_eq (h : k.files fd = some file) : k.fcntlGetfl fd = file.flags := by
  rw [fcntlGetfl, h]

/-- `F_SETFL` leaves the other descriptors alone. -/
theorem files_fcntlSetfl (arg : Flags) (accepted : Bool) {fd' : ℕ} (h : fd' ≠ fd) :
    (k.fcntlSetfl fd arg accepted).files fd' = k.files fd' := by
  unfold fcntlSetfl
  split
  · rfl
  · split <;> simp [h]

/-- `FIONBIO` leaves the other descriptors alone. -/
theorem files_ioctlNonbio (v : Flags) (accepted : Bool) {fd' : ℕ} (h : fd' ≠ fd) :
    (k.ioctlNonbio fd v accepted).files fd' = k.files fd' := by
  unfold ioctlNonbio
  split
  · rfl
  · split <;> simp [h]

/-- The bit after `F_SETFL`. -/
theorem exists_files_fcntlSetfl (h : k.files fd = some file) (arg : Flags) (accepted : Bool) :
    ∃ file', (k.fcntlSetfl fd arg accepted).files fd = some file' ∧
      nonblock file'.flags = if accepted then nonblock arg else nonblock file.flags := by
  rw [fcntlSetfl, h]
  cases accepted with
  | false => exact ⟨file, h, rfl⟩
  | true =>
    refine ⟨{ file with flags := file.flags &&& ~~~setflMask ||| arg &&& setflMask }, ?_, ?_⟩
    · simp
    · simp

/-- The bit after `FIONBIO`. -/
theorem exists_files_ioctlNonbio (h : k.files fd = some file) (v : Flags) (accepted : Bool) :
    ∃ file', (k.ioctlNonbio fd v accepted).files fd = some file' ∧
      nonblock file'.flags = if accepted then v != 0#32 else nonblock file.flags := by
  rw [ioctlNonbio, h]
  cases accepted with
  | false => exact ⟨file, h, rfl⟩
  | true =>
    by_cases hv : v = 0#32
    · exact ⟨{ file with flags := file.flags &&& ~~~oNonblock }, by simp [hv], by simp [hv]⟩
    · exact ⟨{ file with flags := file.flags ||| oNonblock }, by simp [hv], by simp [hv]⟩

end Kernel

/-! ## The table -/

namespace FdManager

variable {m : FdManager} {fd fd' : ℕ} {ctx : Option FdCtx} {k : Kernel}

/-- There is no context behind the end of the table. -/
theorem entry_of_length_le (h : m.datas.length ≤ fd) : m.entry fd = none := by
  rw [entry, List.getElem?_eq_none h]
  rfl

/-- A descriptor with a context lies in the table. -/
theorem lt_length_of_entry {c : FdCtx} (h : m.entry fd = some c) : fd < m.datas.length := by
  by_contra hge
  simp [entry_of_length_le (Nat.not_lt.mp hge)] at h

/-- Storing a context changes that one entry. -/
theorem entry_store (h : fd < m.datas.length) (fd' : ℕ) :
    (m.store fd ctx).entry fd' = if fd' = fd then ctx else m.entry fd' := by
  rw [entry, store, List.getElem?_set]
  by_cases hfd : fd' = fd
  · rw [if_pos hfd.symm, if_pos hfd, if_pos (hfd ▸ h)]
    rfl
  · rw [if_neg (Ne.symm hfd), if_neg hfd, entry]

/-- The entry that is there is replaced. -/
theorem entry_store_self {c : FdCtx} (h : m.entry fd = some c) (c' : FdCtx) :
    (m.store fd (some c')).entry fd = some c' := by
  rw [entry_store (lt_length_of_entry h), if_pos rfl]

/-- Deleting a context changes that one entry. -/
theorem entry_del (fd' : ℕ) :
    (m.del fd).entry fd' = if fd' = fd then none else m.entry fd' := by
  rw [del]
  split
  case isTrue h =>
    split
    case isTrue hfd => exact hfd ▸ entry_of_length_le h
    case isFalse => rfl
  case isFalse h => exact entry_store (Nat.not_le.mp h) fd'

/-- A longer table has the same contexts. -/
theorem getElem?_resize {l : List (Option FdCtx)} {n : ℕ} (h : l.length ≤ n) (i : ℕ) :
    (resize l n)[i]?.join = l[i]?.join := by
  rw [resize, List.take_of_length_le h, List.getElem?_append]
  split
  case isTrue => rfl
  case isFalse hi =>
    rw [List.getElem?_eq_none (Nat.not_lt.mp hi), List.getElem?_replicate]
    split <;> rfl

/-- Growing the table changes no context. -/
theorem entry_grow (fd fd' : ℕ) : (m.grow fd).entry fd' = m.entry fd' := by
  have hsize := m.size
  rw [entry, grow, entry]
  show (if fd ≥ m.datas.length then _ else _ : List _)[fd']?.join = _
  split
  case isTrue h => exact getElem?_resize (by omega) fd'
  case isFalse => rfl

/-- The grown table has room for the descriptor. -/
theorem lt_length_grow (fd : ℕ) : fd < (m.grow fd).datas.length := by
  have hsize := m.size
  show fd < (if fd ≥ m.datas.length then _ else _ : List _).length
  split
  case isTrue h =>
    simp only [resize, List.length_append, List.length_take, List.length_replicate]
    omega
  case isFalse h => omega

/-- Without `auto_create` nothing is created. -/
theorem get_false : m.get fd false k = (m.entry fd, m, k) := by
  rw [get]
  by_cases h : m.datas.length ≤ fd
  · simp [h, entry_of_length_le h]
  · simp [h]

/-- A context that is there is returned as it is, also one that an earlier file left. -/
theorem get_true_of_entry {c : FdCtx} (h : m.entry fd = some c) :
    m.get fd true k = (some c, m, k) := by
  have hlt := lt_length_of_entry h
  simp [get, h, Nat.not_le.mpr hlt]

/-- `get` with `auto_create` makes a context where there is none. -/
theorem get_true_of_none (h : m.entry fd = none) :
    m.get fd true k = get.create m fd k := by
  simp [get, h]

end FdManager

/-- The context of a socket that was just made. -/
def FdCtx.ofSocket : FdCtx := { isInit := true, isSocket := true, sysNonblock := true }

/-! ## A call, as it changes the context and the open file of its descriptor -/

namespace Process

variable {s : Process} {fd : ℕ} {ctx : FdCtx} {file : OpenFile}

/-- All contexts of the table are those of sockets, in the mode of the hooks. -/
def Regular (s : Process) : Prop :=
  ∀ fd ctx, s.fdMgr.entry fd = some ctx →
    ctx.sysNonblock = true ∧ ctx.isSocket = true ∧ ctx.isClosed = false

/-- Apart from `fd`, contexts and open files are as before. -/
def Frame (s s' : Process) (fd : ℕ) : Prop :=
  ∀ fd' ≠ fd, s'.fdMgr.entry fd' = s.fdMgr.entry fd' ∧ s'.kernel.files fd' = s.kernel.files fd'

/-- The descriptor has a context, the kernel does not block while the context says so, and `F_GETFL`
    reports the mode `b`. -/
def Faithful (s : Process) (fd : ℕ) (b : Bool) : Prop :=
  (∃ ctx, s.fdMgr.entry fd = some ctx ∧
    (ctx.sysNonblock = true → nonblock (s.kernel.fcntlGetfl fd) = true)) ∧
  nonblock (s.fcntlGetfl fd) = b

/-- The context has the mode `b`, and the kernel does not block. -/
def Kept (s : Process) (fd : ℕ) (b : Bool) : Prop :=
  ∃ ctx file, s.fdMgr.entry fd = some ctx ∧ s.kernel.files fd = some file ∧
    ctx.userNonblock = b ∧ nonblock file.flags = true

/-- The two bits of a descriptor that has a context and is open. -/
theorem kept_iff (hctx : s.fdMgr.entry fd = some ctx) (hfile : s.kernel.files fd = some file)
    (b : Bool) : s.Kept fd b ↔ ctx.userNonblock = b ∧ nonblock file.flags = true := by
  constructor
  · rintro ⟨ctx', file', hctx', hfile', h⟩
    rw [hctx] at hctx'
    rw [hfile] at hfile'
    rwa [Option.some.inj hctx', Option.some.inj hfile']
  · exact fun h => ⟨ctx, file, hctx, hfile, h⟩

/-- Only the context and the file matter. -/
theorem Kept.congr {s' : Process} {b : Bool} (h : s.Kept fd b)
    (hentry : s'.fdMgr.entry fd = s.fdMgr.entry fd)
    (hfiles : s'.kernel.files fd = s.kernel.files fd) : s'.Kept fd b := by
  rwa [Kept, hentry, hfiles]

/-- What `F_GETFL` tells the user of a managed socket is what the user asked for. -/
theorem fcntlGetfl_eq (hreg : s.Regular) (hctx : s.fdMgr.entry fd = some ctx) :
    nonblock (s.fcntlGetfl fd) = ctx.userNonblock := by
  obtain ⟨-, hsocket, hclosed⟩ := hreg fd ctx hctx
  rw [fcntlGetfl, FdManager.get_false, hctx]
  cases huser : ctx.userNonblock <;> simp [handled, hsocket, hclosed, huser]

/-- In terms of the context and the open file. -/
theorem faithful_iff_kept (hreg : s.Regular) (hfile : s.kernel.files fd = some file) (b : Bool) :
    s.Faithful fd b ↔ s.Kept fd b := by
  constructor
  · rintro ⟨⟨ctx, hctx, hnonblock⟩, hb⟩
    rw [fcntlGetfl_eq hreg hctx] at hb
    rw [Kernel.fcntlGetfl_eq hfile] at hnonblock
    exact ⟨ctx, file, hctx, hfile, hb, hnonblock (hreg fd ctx hctx).1⟩
  · rintro ⟨ctx, file', hctx, hfile', hb, hnonblock⟩
    rw [Faithful, fcntlGetfl_eq hreg hctx, Kernel.fcntlGetfl_eq hfile']
    exact ⟨⟨ctx, hctx, fun _ => hnonblock⟩, hb⟩

/-! ### `socket`, `accept`, `close` -/

/-- A descriptor that has a context is managed already. -/
theorem manage_of_entry (h : s.fdMgr.entry fd = some ctx) : s.manage fd = s := by
  rw [manage, FdManager.get_true_of_entry h]

/-- A new context, for a socket that was just made. -/
theorem manage_of_none (h : s.fdMgr.entry fd = none) (hfile : s.kernel.files fd = some file)
    (hsocket : file.isSocket = true) :
    s.Frame (s.manage fd) fd ∧ (s.manage fd).fdMgr.entry fd = some .ofSocket ∧
      ∃ file', (s.manage fd).kernel.files fd = some file' ∧ nonblock file'.flags = true := by
  have hctx : ∃ k', FdCtx.init fd s.kernel = (.ofSocket, k') ∧
      (∀ fd' ≠ fd, k'.files fd' = s.kernel.files fd') ∧
      ∃ file', k'.files fd = some file' ∧ nonblock file'.flags = true := by
    simp only [FdCtx.init, hfile, hsocket, if_true, Kernel.fcntlGetfl_eq hfile]
    cases hbit : nonblock file.flags with
    | true => exact ⟨s.kernel, rfl, fun _ _ => rfl, file, hfile, hbit⟩
    | false =>
      obtain ⟨file', hfile', hbit'⟩ :=
        Kernel.exists_files_fcntlSetfl hfile (file.flags ||| oNonblock) true
      exact ⟨_, rfl, fun fd' hfd' => Kernel.files_fcntlSetfl _ _ hfd', file', hfile',
        by simpa using hbit'⟩
  obtain ⟨k', hinit, hothers, hown⟩ := hctx
  have hmanage : s.manage fd =
      { fdMgr := (s.fdMgr.grow fd).store fd (some .ofSocket), kernel := k' } := by
    rw [manage, FdManager.get_true_of_none h, FdManager.get.create, hinit]
  rw [hmanage]
  refine ⟨fun fd' hfd' => ⟨?_, hothers fd' hfd'⟩, ?_, hown⟩
  · rw [FdManager.entry_store (FdManager.lt_length_grow fd), if_neg hfd', FdManager.entry_grow]
  · rw [FdManager.entry_store (FdManager.lt_length_grow fd), if_pos rfl]

/-- The new socket, before it is looked up in the table. -/
theorem frame_opened (s : Process) (fd : ℕ) (file : OpenFile) : s.Frame (s.opened fd file) fd := by
  intro fd' hfd'
  exact ⟨rfl, by simp [opened, hfd']⟩

/-- What `accept` and the hooked `socket` do with a descriptor that has no context. -/
theorem accept_of_none (h : s.fdMgr.entry fd = none) (flags : Flags) :
    s.Frame (s.accept fd flags) fd ∧ (s.accept fd flags).fdMgr.entry fd = some .ofSocket ∧
      ∃ file', (s.accept fd flags).kernel.files fd = some file' ∧ nonblock file'.flags = true := by
  have hopened : (s.opened fd { isSocket := true, flags }).kernel.files fd =
      some { isSocket := true, flags } := by simp [opened]
  obtain ⟨hframe, hentry, hfile⟩ :=
    manage_of_none (s := s.opened fd { isSocket := true, flags }) h hopened rfl
  refine ⟨fun fd' hfd' => ?_, hentry, hfile⟩
  obtain ⟨hentry', hfiles'⟩ := hframe fd' hfd'
  obtain ⟨hentry'', hfiles''⟩ := frame_opened s fd { isSocket := true, flags } fd' hfd'
  exact ⟨hentry'.trans hentry'', hfiles'.trans hfiles''⟩

/-- `accept` on a number that has a context leaves the new socket as the kernel made it. -/
theorem accept_of_entry (h : s.fdMgr.entry fd = some ctx) (flags : Flags) :
    s.accept fd flags = s.opened fd { isSocket := true, flags } :=
  manage_of_entry (s := s.opened fd { isSocket := true, flags }) h

/-- `accept` touches the one descriptor. -/
theorem frame_accept (s : Process) (fd : ℕ) (flags : Flags) : s.Frame (s.accept fd flags) fd := by
  cases h : s.fdMgr.entry fd with
  | none => exact (accept_of_none h flags).1
  | some ctx =>
    rw [accept_of_entry h]
    exact frame_opened s fd _

/-- A context that is left from an earlier file under the same number is taken for the new one. -/
theorem kept_accept_iff (flags : Flags) :
    (s.accept fd flags).Kept fd false ↔
      ∀ ctx, s.fdMgr.entry fd = some ctx → ctx.userNonblock = false ∧ nonblock flags = true := by
  cases h : s.fdMgr.entry fd with
  | none =>
    obtain ⟨-, hentry, file', hfile', hbit⟩ := accept_of_none h flags
    exact iff_of_true ⟨_, file', hentry, hfile', rfl, hbit⟩ (by simp)
  | some ctx =>
    have hentry : (s.opened fd { isSocket := true, flags }).fdMgr.entry fd = some ctx := h
    have hfile : (s.opened fd { isSocket := true, flags }).kernel.files fd =
        some { isSocket := true, flags } := by simp [opened]
    rw [accept_of_entry h, kept_iff hentry hfile]
    simp

/-- The descriptor that `accept` returns is open. -/
theorem exists_files_accept (s : Process) (fd : ℕ) (flags : Flags) :
    ∃ file, (s.accept fd flags).kernel.files fd = some file := by
  cases h : s.fdMgr.entry fd with
  | none =>
    obtain ⟨-, -, file', hfile', -⟩ := accept_of_none h flags
    exact ⟨file', hfile'⟩
  | some ctx =>
    rw [accept_of_entry h]
    exact ⟨{ isSocket := true, flags }, by simp [opened]⟩

/-- `close` touches the one descriptor. -/
theorem frame_close (s : Process) (hookEnable : Bool) (fd : ℕ) :
    s.Frame (s.close hookEnable fd) fd := by
  intro fd' hfd'
  cases hookEnable with
  | false => exact ⟨rfl, by simp [close, hfd']⟩
  | true =>
    simp only [close, FdManager.get_false, Bool.not_true, Bool.false_eq_true, if_false]
    refine ⟨?_, by simp [hfd']⟩
    split
    case isTrue => rw [FdManager.entry_del, if_neg hfd']
    case isFalse => rfl

/-- A hooked `close` takes the context out of the table, any other leaves it. -/
theorem entry_close (s : Process) (hookEnable : Bool) (fd : ℕ) :
    (s.close hookEnable fd).fdMgr.entry fd = if hookEnable then none else s.fdMgr.entry fd := by
  cases hookEnable with
  | false => rfl
  | true =>
    simp only [close, FdManager.get_false, Bool.not_true, Bool.false_eq_true, if_false, if_true]
    cases hentry : s.fdMgr.entry fd with
    | none => exact hentry
    | some ctx => simp [FdManager.entry_del]

/-! ### `fcntl` and `ioctl` -/

/-- The two hooks store the mode of the user, if the descriptor has a context, and pass the call
    on. -/
theorem fcntlSetfl_of_entry (hreg : s.Regular) (hctx : s.fdMgr.entry fd = some ctx) (arg : Flags)
    (accepted : Bool) :
    s.fcntlSetfl fd arg accepted =
      { fdMgr := s.fdMgr.store fd (some { ctx with userNonblock := nonblock arg })
        kernel := s.kernel.fcntlSetfl fd (arg ||| oNonblock) accepted } := by
  obtain ⟨hsys, hsocket, hclosed⟩ := hreg fd ctx hctx
  rw [fcntlSetfl, FdManager.get_false, hctx]
  simp [handled, hsys, hsocket, hclosed]

/-- `FIONBIO` on a managed socket notes what the user asked for, and passes it on. -/
theorem ioctlNonbio_of_entry (hreg : s.Regular) (hctx : s.fdMgr.entry fd = some ctx) (v : Flags)
    (accepted : Bool) :
    s.ioctlNonbio fd v accepted =
      { fdMgr := s.fdMgr.store fd (some { ctx with userNonblock := v != 0#32 })
        kernel := s.kernel.ioctlNonbio fd v accepted } := by
  obtain ⟨-, hsocket, hclosed⟩ := hreg fd ctx hctx
  rw [ioctlNonbio, FdManager.get_false, hctx]
  simp [handled, hsocket, hclosed]

/-- `F_SETFL` on a descriptor without a context passes through. -/
theorem fcntlSetfl_of_none (hctx : s.fdMgr.entry fd = none) (arg : Flags) (accepted : Bool) :
    s.fcntlSetfl fd arg accepted =
      { s with kernel := s.kernel.fcntlSetfl fd arg accepted } := by
  rw [fcntlSetfl, FdManager.get_false, hctx]

/-- So does `FIONBIO`. -/
theorem ioctlNonbio_of_none (hctx : s.fdMgr.entry fd = none) (v : Flags) (accepted : Bool) :
    s.ioctlNonbio fd v accepted =
      { s with kernel := s.kernel.ioctlNonbio fd v accepted } := by
  rw [ioctlNonbio, FdManager.get_false, hctx]

/-- Of a context, the two hooks change the mode of the user and nothing else. -/
theorem entry_fcntlSetfl (hreg : s.Regular) (fd : ℕ) (arg : Flags) (accepted : Bool) :
    (s.fcntlSetfl fd arg accepted).fdMgr.entry fd =
      (s.fdMgr.entry fd).map fun ctx => { ctx with userNonblock := nonblock arg } := by
  cases hctx : s.fdMgr.entry fd with
  | none =>
    rw [fcntlSetfl_of_none hctx]
    exact hctx
  | some ctx =>
    rw [fcntlSetfl_of_entry hreg hctx, FdManager.entry_store_self hctx]
    rfl

/-- The context after `FIONBIO` is the old one with what the user asked for. -/
theorem entry_ioctlNonbio (hreg : s.Regular) (fd : ℕ) (v : Flags) (accepted : Bool) :
    (s.ioctlNonbio fd v accepted).fdMgr.entry fd =
      (s.fdMgr.entry fd).map fun ctx => { ctx with userNonblock := v != 0#32 } := by
  cases hctx : s.fdMgr.entry fd with
  | none =>
    rw [ioctlNonbio_of_none hctx]
    exact hctx
  | some ctx =>
    rw [ioctlNonbio_of_entry hreg hctx, FdManager.entry_store_self hctx]
    rfl

/-- A new mode of the user in the table, and any change of the open file. -/
theorem frame_store (hctx : s.fdMgr.entry fd = some ctx) (ctx' : FdCtx) {k : Kernel}
    (hk : ∀ fd' ≠ fd, k.files fd' = s.kernel.files fd') :
    s.Frame { fdMgr := s.fdMgr.store fd (some ctx'), kernel := k } fd := by
  intro fd' hfd'
  refine ⟨?_, hk fd' hfd'⟩
  show (s.fdMgr.store fd _).entry fd' = _
  rw [FdManager.entry_store (FdManager.lt_length_of_entry hctx), if_neg hfd']

/-- `F_SETFL` touches the one descriptor. -/
theorem frame_fcntlSetfl (hreg : s.Regular) (arg : Flags) (accepted : Bool) :
    s.Frame (s.fcntlSetfl fd arg accepted) fd := by
  cases hctx : s.fdMgr.entry fd with
  | none =>
    rw [fcntlSetfl_of_none hctx]
    exact fun fd' hfd' => ⟨rfl, Kernel.files_fcntlSetfl arg accepted hfd'⟩
  | some ctx =>
    rw [fcntlSetfl_of_entry hreg hctx]
    exact frame_store hctx _ fun fd' hfd' => Kernel.files_fcntlSetfl _ _ hfd'

/-- `FIONBIO` touches the one descriptor. -/
theorem frame_ioctlNonbio (hreg : s.Regular) (v : Flags) (accepted : Bool) :
    s.Frame (s.ioctlNonbio fd v accepted) fd := by
  cases hctx : s.fdMgr.entry fd with
  | none =>
    rw [ioctlNonbio_of_none hctx]
    exact fun fd' hfd' => ⟨rfl, Kernel.files_ioctlNonbio v accepted hfd'⟩
  | some ctx =>
    rw [ioctlNonbio_of_entry hreg hctx]
    exact frame_store hctx _ fun fd' hfd' => Kernel.files_ioctlNonbio _ _ hfd'

/-- `F_SETFL` keeps the bit of the kernel, also when the call is refused. -/
theorem kept_fcntlSetfl_iff (hreg : s.Regular) {b : Bool} (h : s.Kept fd b) (arg : Flags)
    (accepted b' : Bool) :
    (s.fcntlSetfl fd arg accepted).Kept fd b' ↔ nonblock arg = b' := by
  obtain ⟨ctx, file, hctx, hfile, -, hbit⟩ := h
  obtain ⟨file', hfile', hbit'⟩ :=
    Kernel.exists_files_fcntlSetfl hfile (arg ||| oNonblock) accepted
  rw [fcntlSetfl_of_entry hreg hctx, kept_iff
    (FdManager.entry_store_self hctx { ctx with userNonblock := nonblock arg }) hfile']
  refine and_iff_left ?_
  rw [hbit']
  cases accepted <;> simp [hbit]

/-- `FIONBIO` passes the value of the user on to the kernel. -/
theorem kept_ioctlNonbio_iff (hreg : s.Regular) {b : Bool} (h : s.Kept fd b) (v : Flags)
    (accepted b' : Bool) :
    (s.ioctlNonbio fd v accepted).Kept fd b' ↔
      (v != 0#32) = b' ∧ (accepted = true → v ≠ 0#32) := by
  obtain ⟨ctx, file, hctx, hfile, -, hbit⟩ := h
  obtain ⟨file', hfile', hbit'⟩ := Kernel.exists_files_ioctlNonbio hfile v accepted
  rw [ioctlNonbio_of_entry hreg hctx, kept_iff
    (FdManager.entry_store_self hctx { ctx with userNonblock := v != 0#32 }) hfile']
  refine and_congr_right fun _ => ?_
  rw [hbit']
  cases accepted <;> simp [hbit]

end Process

/-! ## Runs -/

/-- A call on a descriptor; what the system answers is part of it. -/
inductive FdCall
  | socket (hookEnable : Bool) (fd : ℕ) (flags : Flags)
  | accept (fd : ℕ) (flags : Flags)
  /-- Any other call that returns a descriptor. -/
  | opened (fd : ℕ) (file : OpenFile)
  | close (hookEnable : Bool) (fd : ℕ)
  | setfl (fd : ℕ) (arg : Flags) (accepted : Bool)
  | getfl (fd : ℕ)
  | nonbio (fd : ℕ) (v : Flags) (accepted : Bool)
  deriving DecidableEq, Repr

namespace FdCall

/-- The descriptor. -/
def fd : FdCall → ℕ
  | socket _ fd _ | accept fd _ | opened fd _ | close _ fd | setfl fd _ _ | getfl fd
  | nonbio fd _ _ => fd

/-- The mode asked for after the call, as a function of the one before. -/
def asks (before : Option Bool) : FdCall → Option Bool
  | socket hookEnable _ _ => if hookEnable then some false else none
  | accept _ _ | opened _ _ | close _ _ => none
  | setfl _ arg accepted => before.map fun b => if accepted then nonblock arg else b
  | getfl _ => before
  | nonbio _ v accepted => before.map fun b => if accepted then v != 0#32 else b

end FdCall

/-- The hook that a call enters. -/
def Process.call (s : Process) : FdCall → Process
  | .socket hookEnable fd flags => s.socket hookEnable fd flags
  | .accept fd flags => s.accept fd flags
  | .opened fd file => s.opened fd file
  | .close hookEnable fd => s.close hookEnable fd
  | .setfl fd arg accepted => s.fcntlSetfl fd arg accepted
  | .getfl _ => s
  | .nonbio fd v accepted => s.ioctlNonbio fd v accepted

/-- A process, with the modes that were asked for. -/
structure Tracked where
  process : Process
  asked : ℕ → Option Bool

namespace Tracked

variable {t : Tracked}

/-- One call, and what the user has asked for since. -/
def step (t : Tracked) (c : FdCall) : Tracked where
  process := t.process.call c
  asked := Function.update t.asked c.fd (c.asks (t.asked c.fd))

/-- Every socket in question is as the user sees it. -/
def Faithful (t : Tracked) : Prop := ∀ fd b, t.asked fd = some b → t.process.Faithful fd b

/-- The invariant. -/
structure Inv (t : Tracked) : Prop where
  regular : t.process.Regular
  kept : ∀ fd b, t.asked fd = some b → t.process.Kept fd b

end Tracked

/-- A call that is attempted. -/
abbrev FdAttempt := Attempt Tracked FdCall

/-- **The exact condition.**  The hooked `socket` finds no context that an earlier file left in the
    table, or one in the mode of the new socket, which is non-blocking from the start; no accepted
    `FIONBIO` clears the bit; and a refused call asks for the mode that is there already. -/
def FdAttempt.Fits (x : FdAttempt) : Prop :=
  match x.action with
  | .socket true fd flags => ∀ ctx, x.before.process.fdMgr.entry fd = some ctx →
      ctx.userNonblock = false ∧ nonblock flags = true
  | .setfl fd arg false => ∀ b, x.before.asked fd = some b → nonblock arg = b
  | .nonbio fd v accepted => ∀ b, x.before.asked fd = some b →
      if accepted then v ≠ 0#32 else (v != 0#32) = b
  | _ => True

namespace Process

variable {s : Process}

/-- Every call touches the one descriptor that it is about. -/
theorem frame_call (hreg : s.Regular) (c : FdCall) : s.Frame (s.call c) c.fd := by
  cases c with
  | socket hookEnable fd flags =>
    cases hookEnable with
    | false => exact frame_opened s fd _
    | true => exact frame_accept s fd flags
  | accept fd flags => exact frame_accept s fd flags
  | opened fd file => exact frame_opened s fd file
  | close hookEnable fd => exact frame_close s hookEnable fd
  | setfl fd arg accepted => exact frame_fcntlSetfl hreg arg accepted
  | getfl fd => exact fun _ _ => ⟨rfl, rfl⟩
  | nonbio fd v accepted => exact frame_ioctlNonbio hreg v accepted

/-- `accept` makes a new context or leaves the one that there is. -/
theorem accept_entry_or (fd : ℕ) (flags : Flags) :
    (s.accept fd flags).fdMgr.entry fd = some .ofSocket ∨
      (s.accept fd flags).fdMgr.entry fd = s.fdMgr.entry fd := by
  cases h : s.fdMgr.entry fd with
  | none => exact .inl (accept_of_none h flags).2.1
  | some ctx =>
    right
    rw [accept_of_entry h]
    exact h

/-- Only the hooks make contexts, and only for sockets. -/
theorem regular_call (hreg : s.Regular) (c : FdCall) : (s.call c).Regular := by
  -- apart from the descriptor of the call nothing changes
  suffices hown : ∀ ctx', (s.call c).fdMgr.entry c.fd = some ctx' →
      ctx'.sysNonblock = true ∧ ctx'.isSocket = true ∧ ctx'.isClosed = false by
    intro fd' ctx' hctx'
    by_cases hfd' : fd' = c.fd
    · rw [hfd'] at hctx'
      exact hown ctx' hctx'
    · rw [(frame_call hreg c fd' hfd').1] at hctx'
      exact hreg fd' ctx' hctx'
  have haccept : ∀ fd flags ctx', (s.accept fd flags).fdMgr.entry fd = some ctx' →
      ctx'.sysNonblock = true ∧ ctx'.isSocket = true ∧ ctx'.isClosed = false := by
    intro fd flags ctx' hctx'
    rcases accept_entry_or (s := s) fd flags with hnew | hold
    · rw [hnew] at hctx'
      rw [← Option.some.inj hctx']
      exact ⟨rfl, rfl, rfl⟩
    · rw [hold] at hctx'
      exact hreg fd ctx' hctx'
  intro ctx' hctx'
  cases c with
  | socket hookEnable fd flags =>
    cases hookEnable with
    | false => exact hreg fd ctx' hctx'
    | true => exact haccept fd flags ctx' hctx'
  | accept fd flags => exact haccept fd flags ctx' hctx'
  | opened fd file => exact hreg fd ctx' hctx'
  | close hookEnable fd =>
    rw [call, FdCall.fd, entry_close] at hctx'
    cases hookEnable with
    | false => exact hreg fd ctx' hctx'
    | true => simp at hctx'
  | setfl fd arg accepted =>
    rw [call, FdCall.fd, entry_fcntlSetfl hreg] at hctx'
    obtain ⟨ctx, hctx, rfl⟩ := Option.map_eq_some_iff.mp hctx'
    exact hreg fd ctx hctx
  | getfl fd => exact hreg fd ctx' hctx'
  | nonbio fd v accepted =>
    rw [call, FdCall.fd, entry_ioctlNonbio hreg] at hctx'
    obtain ⟨ctx, hctx, rfl⟩ := Option.map_eq_some_iff.mp hctx'
    exact hreg fd ctx hctx

end Process

namespace Tracked

variable {t : Tracked} {c : FdCall}

/-- What was asked for changes for the descriptor of the call, and for no other. -/
theorem asked_step (t : Tracked) (c : FdCall) (fd : ℕ) :
    (t.step c).asked fd = if fd = c.fd then c.asks (t.asked c.fd) else t.asked fd :=
  Function.update_apply t.asked c.fd _ fd

/-- One call, at its own descriptor. -/
theorem kept_own_iff (h : t.Inv) (c : FdCall) :
    (∀ b, c.asks (t.asked c.fd) = some b → (t.process.call c).Kept c.fd b) ↔
      FdAttempt.Fits ⟨t, c⟩ := by
  obtain ⟨hreg, hkept⟩ := h
  cases c with
  | socket hookEnable fd flags =>
    cases hookEnable with
    | false => simp [FdCall.asks, FdAttempt.Fits]
    | true =>
      show (∀ b, some false = some b → (t.process.accept fd flags).Kept fd b) ↔ _
      simpa [FdAttempt.Fits] using Process.kept_accept_iff (s := t.process) flags
  | accept fd flags => simp [FdCall.asks, FdAttempt.Fits]
  | opened fd file => simp [FdCall.asks, FdAttempt.Fits]
  | close hookEnable fd => simp [FdCall.asks, FdAttempt.Fits]
  | getfl fd => exact iff_of_true (hkept fd) trivial
  -- a call that is not accepted leaves the wish of the program as it is
  | setfl fd arg accepted =>
    show (∀ b', (t.asked fd).map _ = some b' →
      (t.process.fcntlSetfl fd arg accepted).Kept fd b') ↔ _
    cases hasked : t.asked fd with
    | none => cases accepted <;> simp [FdAttempt.Fits, hasked]
    | some b =>
      simp only [Process.kept_fcntlSetfl_iff hreg (hkept fd b hasked)]
      cases accepted <;> simp [FdAttempt.Fits, hasked]
  | nonbio fd v accepted =>
    show (∀ b', (t.asked fd).map _ = some b' → (t.process.ioctlNonbio fd v accepted).Kept fd b') ↔ _
    cases hasked : t.asked fd with
    | none => simp [FdAttempt.Fits, hasked]
    | some b =>
      simp only [Process.kept_ioctlNonbio_iff hreg (hkept fd b hasked)]
      cases accepted <;> simp [FdAttempt.Fits, hasked]

/-- A socket in question is open. -/
theorem exists_file (h : t.Inv) {b : Bool} (hasked : c.asks (t.asked c.fd) = some b) :
    ∃ file, (t.process.call c).kernel.files c.fd = some file := by
  obtain ⟨hreg, hkept⟩ := h
  cases c with
  | socket hookEnable fd flags =>
    cases hookEnable with
    | false => simp [FdCall.asks] at hasked
    | true => exact Process.exists_files_accept t.process fd flags
  | accept fd flags => simp [FdCall.asks] at hasked
  | opened fd file => simp [FdCall.asks] at hasked
  | close hookEnable fd => simp [FdCall.asks] at hasked
  | getfl fd =>
    obtain ⟨ctx, file, hctx, hfile, -⟩ := hkept fd b hasked
    exact ⟨file, hfile⟩
  -- the flags of the open file change, the file stays open
  | setfl fd arg accepted =>
    obtain ⟨b', hb', -⟩ := Option.map_eq_some_iff.mp hasked
    obtain ⟨ctx, file, hctx, hfile, -⟩ := hkept fd b' hb'
    obtain ⟨file', hfile', -⟩ :=
      Kernel.exists_files_fcntlSetfl hfile (arg ||| oNonblock) accepted
    refine ⟨file', ?_⟩
    rw [Process.call, Process.fcntlSetfl_of_entry hreg hctx]
    exact hfile'
  | nonbio fd v accepted =>
    obtain ⟨b', hb', -⟩ := Option.map_eq_some_iff.mp hasked
    obtain ⟨ctx, file, hctx, hfile, -⟩ := hkept fd b' hb'
    obtain ⟨file', hfile', -⟩ := Kernel.exists_files_ioctlNonbio hfile v accepted
    refine ⟨file', ?_⟩
    rw [Process.call, Process.ioctlNonbio_of_entry hreg hctx]
    exact hfile'

/-- **One call** keeps all sockets as the user sees them exactly if it fits. -/
theorem faithful_step_iff (h : t.Inv) (c : FdCall) :
    (t.step c).Faithful ↔ FdAttempt.Fits ⟨t, c⟩ := by
  have hreg := Process.regular_call h.regular c
  have hframe := Process.frame_call h.regular c
  rw [← kept_own_iff h c]
  constructor
  · intro hall b hb
    obtain ⟨file, hfile⟩ := exists_file h hb
    rw [← Process.faithful_iff_kept hreg hfile]
    exact hall c.fd b (by rw [asked_step, if_pos rfl, hb])
  · intro hown fd b hb
    rw [asked_step] at hb
    split at hb
    case isTrue hfd =>
      obtain ⟨file, hfile⟩ := exists_file h hb
      rw [hfd]
      exact (Process.faithful_iff_kept hreg hfile b).mpr (hown b hb)
    case isFalse hfd =>
      obtain ⟨hentry, hfiles⟩ := hframe fd hfd
      obtain ⟨ctx, file, hctx, hfile, hmode⟩ := (h.kept fd b hb).congr hentry hfiles
      exact (Process.faithful_iff_kept hreg hfile b).mpr ⟨ctx, file, hctx, hfile, hmode⟩

/-- A call that fits keeps the invariant. -/
theorem inv_step (h : t.Inv) (hfits : FdAttempt.Fits ⟨t, c⟩) : (t.step c).Inv := by
  have hframe := Process.frame_call h.regular c
  refine ⟨Process.regular_call h.regular c, fun fd b hb => ?_⟩
  rw [asked_step] at hb
  split at hb
  case isTrue hfd =>
    rw [hfd]
    exact (kept_own_iff h c).mpr hfits b hb
  case isFalse hfd =>
    obtain ⟨hentry, hfiles⟩ := hframe fd hfd
    exact (h.kept fd b hb).congr hentry hfiles

/-- The process starts with an empty table, and files that nothing is asked of. -/
def Begins (result : Except Empty Tracked) : Prop :=
  ∃ kernel, result = .ok { process := { fdMgr := .empty, kernel }, asked := fun _ => none }

/-- The invariant holds where a run begins. -/
theorem inv_of_begins (h : Begins (.ok t)) : t.Inv := by
  obtain ⟨kernel, ht⟩ := h
  obtain rfl := Except.ok.inj ht
  constructor
  · intro fd ctx hctx
    have hempty : FdManager.empty.entry fd = none := by
      rw [FdManager.entry, FdManager.empty, List.getElem?_replicate]
      split <;> rfl
    rw [hempty] at hctx
    cases hctx
  · intro fd b hb
    cases hb

end Tracked

/-- The calls of a process, in their order. -/
abbrev FdRun (attempts : List FdAttempt) (result : Except Empty Tracked) : Prop :=
  Attempts Tracked.Begins (fun _ _ => True) (fun t c => .ok (t.step c)) attempts result

/-- **Hooked sockets are non-blocking for the kernel and in the mode asked for**, after every call
    of a run, if all calls fit, and only then. -/
theorem sockets_faithful_iff {attempts : List FdAttempt} {result : Except Empty Tracked}
    (h : FdRun attempts result) :
    (∀ x ∈ attempts, (x.before.step x.action).Faithful) ↔ ∀ x ∈ attempts, x.Fits := by
  refine Attempts.forall_iff (P := Tracked.Inv) (fun t ht => Tracked.inv_of_begins ht) ?_ ?_ h
  · intro t c t' hinv _ hfits ht'
    obtain rfl := Except.ok.inj ht'
    exact Tracked.inv_step hinv hfits
  · intro t c hinv _
    exact Tracked.faithful_step_iff hinv c

section oneSocket

/-- A process that has just begun. -/
private def begun : Tracked where
  process := { fdMgr := .empty, kernel := { files := fun _ => none } }
  asked := fun _ => none

/-- Two calls after each other, from there. -/
private theorem attempts_two (c c' : FdCall) :
    FdRun [⟨begun, c⟩, ⟨begun.step c, c'⟩] (.ok ((begun.step c).step c')) := by
  have hstart : FdRun [] (.ok begun) := .start ⟨{ files := fun _ => none }, rfl⟩
  have hfirst : FdRun ([] ++ [⟨begun, c⟩]) (.ok (begun.step c)) := .step hstart trivial
  show FdRun (([] ++ [⟨begun, c⟩]) ++ [⟨begun.step c, c'⟩]) _
  exact .step hfirst trivial

/-- A socket, and `FIONBIO` with 1. -/
theorem sockets_faithful_iff_fionbio :
    ((begun.step (.socket true 3 2#32)).step (.nonbio 3 1#32 true)).process.Faithful 3 true := by
  have hrun := attempts_two (.socket true 3 2#32) (.nonbio 3 1#32 true)
  have hall := (sockets_faithful_iff hrun).mpr (by
    intro x hx
    rcases List.mem_cons.mp hx with rfl | hx
    · intro ctx hctx
      cases hctx
    · obtain rfl := List.mem_singleton.mp hx
      intro b _
      exact (by decide : (1#32 : Flags) ≠ 0#32))
  exact hall _ (List.mem_cons_of_mem _ (List.mem_singleton_self _)) 3 true rfl

/-- A socket, and `FIONBIO` with 0: the kernel blocks, and `getSysNonblock` is still true. -/
theorem nonbio_clears_nonblock :
    ¬ ∀ (attempts : List FdAttempt) (result : Except Empty Tracked), FdRun attempts result →
      ∀ x ∈ attempts, (x.before.step x.action).Faithful := by
  intro hall
  have hlast := hall _ _ (attempts_two (.socket true 3 2#32) (.nonbio 3 0#32 true)) _
    (List.mem_cons_of_mem _ (List.mem_singleton_self _)) 3 false rfl
  obtain ⟨⟨ctx, hctx, hbit⟩, -⟩ := hlast
  obtain rfl : FdCtx.ofSocket = ctx := Option.some.inj hctx
  exact absurd (hbit rfl) (by decide)

end oneSocket

end RaftStore
