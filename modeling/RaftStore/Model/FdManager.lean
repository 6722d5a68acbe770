import Mathlib.Algebra.Group.Nat.Defs
import Mathlib.Logic.Function.Basic

namespace RaftStore

/-!
# Hooked descriptors

`FdCtx`, `FdManager` and the hooks `socket`, `accept`, `close`, `fcntl` and `ioctl`, as far as they
deal with the mode of a descriptor.  The system calls behind the hooks are those of the
documentation; whether `F_SETFL` and `FIONBIO` are accepted is a parameter of the call.

* `OpenFile`, `Kernel` — the open files of the process, with their status flags.
* `FdCtx`, `FdManager` — the context of a descriptor, and the table of the contexts.
* `Process` — both, with one function for each hook.

A call that should return a descriptor and fails changes nothing, and is left out.  So are `dup`,
`dup2` and `F_DUPFD`, after which two descriptors share one open file and its flags: here each
descriptor has a file of its own.
-/

/-- An `int` of flags. -/
abbrev Flags := BitVec 32

/-- `O_NONBLOCK`. -/
def oNonblock : Flags := 0x800#32

/-- The flags that `F_SETFL` can change: `O_APPEND`, `O_NONBLOCK`, `O_ASYNC`, `O_DIRECT` and
    `O_NOATIME`. -/
def setflMask : Flags := 0x46C00#32

/-- `flags & O_NONBLOCK`, converted to a `bool`. -/
def nonblock (flags : Flags) : Bool := flags &&& oNonblock != 0#32

/-! ## The system -/

/-- The file that one descriptor stands for, with its status flags. -/
structure OpenFile where
  isSocket : Bool
  flags : Flags
  deriving DecidableEq, Repr

/-- The files of the open descriptors, no two of which share one. -/
structure Kernel where
  files : ℕ → Option OpenFile

namespace Kernel

variable (k : Kernel)

/-- The descriptor now stands for this file, or is closed. -/
def assign (fd : ℕ) (file : Option OpenFile) : Kernel :=
  { k with files := Function.update k.files fd file }

/-- `fcntl_f(fd, F_GETFL)`. -/
def fcntlGetfl (fd : ℕ) : Flags :=
  match k.files fd with
  | none => BitVec.allOnes 32
  | some file => file.flags

/-- `fcntl_f(fd, F_SETFL, arg)`. -/
def fcntlSetfl (fd : ℕ) (arg : Flags) (accepted : Bool) : Kernel :=
  match k.files fd with
  | none => k
  | some file =>
    if accepted then
      k.assign fd (some { file with flags := file.flags &&& ~~~setflMask ||| arg &&& setflMask })
    else k

/-- `ioctl_f(fd, FIONBIO, &v)`. -/
def ioctlNonbio (fd : ℕ) (v : Flags) (accepted : Bool) : Kernel :=
  match k.files fd with
  | none => k
  | some file =>
    if accepted then
      k.assign fd (some { file with
        flags := if v != 0#32 then file.flags ||| oNonblock else file.flags &&& ~~~oNonblock })
    else k

end Kernel

/-! ## The table of contexts -/

/-- `FdCtx`. -/
structure FdCtx where
  isInit : Bool := false
  isSocket : Bool := false
  sysNonblock : Bool := false
  userNonblock : Bool := false
  isClosed : Bool := false
  recvTimeout : ℕ := 2 ^ 64 - 1
  sendTimeout : ℕ := 2 ^ 64 - 1
  deriving DecidableEq, Repr

/-- The constructor, which calls `FdCtx::init`. -/
def FdCtx.init (fd : ℕ) (k : Kernel) : FdCtx × Kernel :=
  match k.files fd with
  | none => ({}, k)
  | some file =>
    if file.isSocket then
      let flags := k.fcntlGetfl fd
      let k := if !nonblock flags then k.fcntlSetfl fd (flags ||| oNonblock) true else k
      ({ isInit := true, isSocket := true, sysNonblock := true }, k)
    else ({ isInit := true }, k)

/-- `std::vector::resize`. -/
def resize {α : Type} (l : List (Option α)) (n : ℕ) : List (Option α) :=
  l.take n ++ List.replicate (n - l.length) none

/-- `FdManager`: the constructor makes 64 entries, and there are never fewer. -/
structure FdManager where
  datas : List (Option FdCtx)
  size : 64 ≤ datas.length

namespace FdManager

variable (m : FdManager)

/-- The constructor. -/
def empty : FdManager where
  datas := List.replicate 64 none
  size := by simp

/-- An entry. -/
def entry (fd : ℕ) : Option FdCtx := m.datas[fd]?.join

/-- The assignment to `m_datas[fd]`. -/
def store (fd : ℕ) (ctx : Option FdCtx) : FdManager where
  datas := m.datas.set fd ctx
  size := by rw [List.length_set]; exact m.size

/-- `m_datas.resize(fd * 1.5)` if the table is too short. -/
def grow (fd : ℕ) : FdManager where
  datas := if fd ≥ m.datas.length then resize m.datas (fd * 3 / 2) else m.datas
  size := by
    have hsize := m.size
    split
    case isTrue =>
      simp only [resize, List.length_append, List.length_take, List.length_replicate]
      omega
    case isFalse => exact hsize

/-- `FdManager::get`. -/
def get (fd : ℕ) (autoCreate : Bool) (k : Kernel) : Option FdCtx × FdManager × Kernel :=
  if m.datas.length ≤ fd then
    if autoCreate = false then (none, m, k) else create
  else if (m.entry fd).isSome ∨ !autoCreate then (m.entry fd, m, k)
  else create
where
  /-- What follows `lock.unlock()`. -/
  create : Option FdCtx × FdManager × Kernel :=
    let (ctx, k) := FdCtx.init fd k
    (some ctx, (m.grow fd).store fd (some ctx), k)

/-- `FdManager::del`. -/
def del (fd : ℕ) : FdManager := if m.datas.length ≤ fd then m else m.store fd none

end FdManager

/-! ## The hooks -/

/-- The table of the contexts, and the files behind the descriptors. -/
structure Process where
  fdMgr : FdManager
  kernel : Kernel

namespace Process

variable (s : Process)

/-- `FdMgr::GetInstance()->get(fd, true)`. -/
def manage (fd : ℕ) : Process :=
  let (_, fdMgr, kernel) := s.fdMgr.get fd true s.kernel
  { fdMgr, kernel }

/-- Any call that the kernel answers with this descriptor for this file. -/
def opened (fd : ℕ) (file : OpenFile) : Process :=
  { s with kernel := s.kernel.assign fd (some file) }

/-- `socket`, on a thread with hooks or without. -/
def socket (hookEnable : Bool) (fd : ℕ) (flags : Flags) : Process :=
  let s := s.opened fd { isSocket := true, flags }
  if !hookEnable then s else s.manage fd

/-- `accept`, when `do_io` returned a descriptor: the hooks need not be enabled. -/
def accept (fd : ℕ) (flags : Flags) : Process :=
  (s.opened fd { isSocket := true, flags }).manage fd

/-- `close`, on a thread with hooks or without; `cancelAll` does not touch the table. -/
def close (hookEnable : Bool) (fd : ℕ) : Process :=
  if !hookEnable then { s with kernel := s.kernel.assign fd none }
  else
    let (ctx, fdMgr, kernel) := s.fdMgr.get fd false s.kernel
    let fdMgr := if ctx.isSome then fdMgr.del fd else fdMgr
    { fdMgr, kernel := kernel.assign fd none }

/-- `!ctx || ctx->isClose() || !ctx->isSocket()`, negated. -/
def handled (ctx : FdCtx) : Bool := !ctx.isClosed && ctx.isSocket

/-- `fcntl(fd, F_SETFL, arg)`. -/
def fcntlSetfl (fd : ℕ) (arg : Flags) (accepted : Bool) : Process :=
  match s.fdMgr.get fd false s.kernel with
  | (none, fdMgr, kernel) => { fdMgr, kernel := kernel.fcntlSetfl fd arg accepted }
  | (some ctx, fdMgr, kernel) =>
    if !handled ctx then { fdMgr, kernel := kernel.fcntlSetfl fd arg accepted }
    else
      let fdMgr := fdMgr.store fd (some { ctx with userNonblock := nonblock arg })
      let arg := if ctx.sysNonblock then arg ||| oNonblock else arg &&& ~~~oNonblock
      { fdMgr, kernel := kernel.fcntlSetfl fd arg accepted }

/-- What `fcntl(fd, F_GETFL)` returns. -/
def fcntlGetfl (fd : ℕ) : Flags :=
  let arg := s.kernel.fcntlGetfl fd
  match s.fdMgr.get fd false s.kernel with
  | (none, _, _) => arg
  | (some ctx, _, _) =>
    if !handled ctx then arg
    else if ctx.userNonblock then arg ||| oNonblock
    else arg &&& ~~~oNonblock

/-- `ioctl(d, FIONBIO, &v)`. -/
def ioctlNonbio (fd : ℕ) (v : Flags) (accepted : Bool) : Process :=
  let userNonblock := v != 0#32
  match s.fdMgr.get fd false s.kernel with
  | (none, fdMgr, kernel) => { fdMgr, kernel := kernel.ioctlNonbio fd v accepted }
  | (some ctx, fdMgr, kernel) =>
    if !handled ctx then { fdMgr, kernel := kernel.ioctlNonbio fd v accepted }
    else
      let fdMgr := fdMgr.store fd (some { ctx with userNonblock })
      { fdMgr, kernel := kernel.ioctlNonbio fd v accepted }

end Process

end RaftStore
