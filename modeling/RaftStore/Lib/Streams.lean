import Mathlib.Data.List.Basic
import Mathlib.Logic.Function.Basic

namespace RaftStore

/-!
# Files behind buffered output streams

A program writes its files through output streams that hold characters back.  When its process
ends, the files stay and the buffers are lost: what is found then is what the actions so far have
made of the files.

* `FileAction`, `Streams.run` — what a program does to its streams, and what becomes of them.  How
  much of what it holds a stream passes on when characters are inserted is a parameter.
* `Streams.CrashSafe` — wherever the process ends, the files are as before all of the actions or
  as after them.
* `Streams.not_crashSafe_of_truncate` — a file that is overwritten through a truncation is never
  safe.
-/

/-- The output streams of a program: the contents of the files, and what each stream has not
    passed on yet. -/
@[ext]
structure Streams (φ α : Type*) where
  file : φ → List α
  buffer : φ → List α

/-- An action on the stream of a file. -/
inductive FileAction (φ α : Type*)
  | close (f : φ)
  | openTrunc (f : φ)
  | insert (f : φ) (data : List α)
  | flush (f : φ)

namespace Streams

variable {φ α : Type*} [DecidableEq φ] {spill : List α → Nat} {s : Streams φ α}

/-- What an action does.  A stream that holds `held` after an insertion passes on its first
    `spill held` characters. -/
def act (spill : List α → Nat) (s : Streams φ α) : FileAction φ α → Streams φ α
  | .close f | .flush f =>
    { file := Function.update s.file f (s.file f ++ s.buffer f)
      buffer := Function.update s.buffer f [] }
  | .openTrunc f =>
    { file := Function.update s.file f []
      buffer := Function.update s.buffer f [] }
  | .insert f data =>
    let held := s.buffer f ++ data
    { file := Function.update s.file f (s.file f ++ held.take (spill held))
      buffer := Function.update s.buffer f (held.drop (spill held)) }

/-- The actions in order. -/
def run (spill : List α → Nat) (s : Streams φ α) (as : List (FileAction φ α)) : Streams φ α :=
  as.foldl (act spill) s

/-- The actions of two programs one after another. -/
theorem run_append (as bs : List (FileAction φ α)) :
    s.run spill (as ++ bs) = (s.run spill as).run spill bs :=
  List.foldl_append

/-! ### Crashes -/

/-- Wherever the process ends, the files are as before all of the actions or as after them. -/
def CrashSafe (spill : List α → Nat) (s : Streams φ α) (as : List (FileAction φ α)) : Prop :=
  ∀ k, (s.run spill (as.take k)).file = s.file ∨
    (s.run spill (as.take k)).file = (s.run spill as).file

/-- **Overwriting through a truncation.**  Actions that truncate a file with contents and leave
    contents in it are not safe: a crash after the truncation leaves the file empty. -/
theorem not_crashSafe_of_truncate {as : List (FileAction φ α)} {f : φ} (ha : .openTrunc f ∈ as)
    (hold : s.file f ≠ []) (hnew : (s.run spill as).file f ≠ []) : ¬ s.CrashSafe spill as := by
  obtain ⟨before, after, rfl⟩ := List.append_of_mem ha
  intro hsafe
  have hempty : (s.run spill ((before ++ .openTrunc f :: after).take (before.length + 1))).file f =
      [] := by
    have htake : (before ++ .openTrunc f :: after).take (before.length + 1) =
        before ++ [.openTrunc f] := by
      rw [List.take_append, List.take_of_length_le (by omega)]
      simp
    rw [htake, run_append]
    exact Function.update_self ..
  rcases hsafe (before.length + 1) with heq | heq
  · exact hold (heq ▸ hempty)
  · exact hnew (heq ▸ hempty)

end Streams

end RaftStore
