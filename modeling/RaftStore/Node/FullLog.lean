import RaftStore.Lib.ConsensusSteps
import RaftStore.Node.Moves

namespace RaftStore

/-!
# The log of a node before its compaction

A node forgets the entries below its snapshot point.  `Raft.Full rf F` says that `F` is a log the
node could have without compaction: its vector holds `F` from the snapshot point on, and the
term of the snapshot point is that of `F` there.

* `Full.entryAt`, `Full.termAt`, `Full.getLastLogTerm` — what the node reads is what `F` holds.
* `Full.started`, `Full.splice`, `Full.accept` — what the handlers do to `F`.
* `Full.appendArgs` — the requests of a leader, read off `F`.
* `merge_cases` — the merge loop leaves the sender's log or, if that has nothing new, the
  receiver's, unless it meets a conflict and stops before the end of the receiver's log.
-/

instance : Stamped LogEntry := ⟨LogEntry.logTerm⟩

open Consensus (lastTerm)

namespace Raft

variable {n : ℕ}

/-- `F` is the node's log with the entries below the snapshot point. -/
structure Full (rf : Raft n) (F : List LogEntry) : Prop where
  le : rf.lastSnapshotIncludeIndex.toNat ≤ F.length
  logs : rf.logs = F.drop rf.lastSnapshotIncludeIndex.toNat
  term : rf.lastSnapshotIncludeTerm = lastTerm (F.take rf.lastSnapshotIncludeIndex.toNat)

/-- Only the entries and the snapshot point matter. -/
theorem Full.congr {rf rf' : Raft n} {F : List LogEntry} (h : rf.Full F)
    (hlogs : rf'.logs = rf.logs)
    (hsnap : rf'.lastSnapshotIncludeIndex = rf.lastSnapshotIncludeIndex)
    (hterm : rf'.lastSnapshotIncludeTerm = rf.lastSnapshotIncludeTerm) : rf'.Full F where
  le := by rw [hsnap]; exact h.le
  logs := by rw [hsnap, hlogs]; exact h.logs
  term := by rw [hsnap, hterm]; exact h.term

/-- The last index is the length of the full log. -/
theorem Full.length {rf : Raft n} {F : List LogEntry} (h : rf.Full F) (hwf : rf.LogWF) :
    rf.getLastLogIndex = F.length := by
  have hnonneg := hwf.nonneg
  have hle := h.le
  rw [hwf.getLastLogIndex, h.logs, List.length_drop]
  omega

/-- The entry of an index above the snapshot point is the one of the full log. -/
theorem Full.entryAt {rf : Raft n} {F : List LogEntry} (h : rf.Full F) (hwf : rf.LogWF) {i : Int}
    (hi : rf.lastSnapshotIncludeIndex < i) : rf.entryAt i = F[(i - 1).toNat]? := by
  have hnonneg := hwf.nonneg
  rw [Raft.entryAt, if_pos hi, h.logs, List.getElem?_drop]
  congr 1
  omega

/-- The last term up to an entry is the entry's. -/
theorem lastTerm_take {F : List LogEntry} {k : ℕ} {e : LogEntry} (he : F[k]? = some e) :
    lastTerm (F.take (k + 1)) = e.logTerm := by
  have hk := (List.getElem?_eq_some_iff.mp he).1
  have hlen : (F.take (k + 1)).length = k + 1 := by
    rw [List.length_take]
    omega
  refine Consensus.lastTerm_eq hlen ?_
  rw [List.getElem?_take_of_lt (Nat.lt_succ_self k), he]

/-- The term of an index from the snapshot point on is the last one up to it in the full log. -/
theorem Full.termAt {rf : Raft n} {F : List LogEntry} (h : rf.Full F) (hwf : rf.LogWF) {i : Int}
    (hsnap : rf.lastSnapshotIncludeIndex ≤ i) (hlast : i ≤ rf.getLastLogIndex) :
    rf.termAt i = some (lastTerm (F.take i.toNat)) := by
  have hnonneg := hwf.nonneg
  rw [Raft.termAt]
  split
  · rename_i hi
    rw [h.term, hi]
  · obtain ⟨e, he⟩ := hwf.exists_entryAt (i := i) (by omega) hlast
    rw [he]
    rw [h.entryAt hwf (by omega)] at he
    rw [show i.toNat = (i - 1).toNat + 1 by omega, lastTerm_take he]
    rfl

/-- The term of the last entry is the last term of the full log, also with all entries compacted. -/
theorem Full.getLastLogTerm {rf : Raft n} {F : List LogEntry} (h : rf.Full F) :
    rf.getLastLogTerm = lastTerm F := by
  have hle := h.le
  unfold Raft.getLastLogTerm getLastLogIndexAndTerm
  rw [h.logs, lastTerm, List.getLast?_drop]
  by_cases hlen : F.length ≤ rf.lastSnapshotIncludeIndex.toNat
  · rw [if_pos hlen]
    dsimp only
    rw [h.term, List.take_of_length_le hlen, lastTerm]
  · rw [if_neg hlen]
    cases hF : F.getLast? with
    | none =>
      rw [List.getLast?_eq_none_iff] at hF
      simp [hF] at hlen
    | some e => rfl

/-! ### What the handlers do -/

/-- `Start` appends to the full log. -/
theorem Full.started [RaftArchive] {rf : Raft n} {F : List LogEntry} (h : rf.Full F)
    (command : String) : (rf.started command).Full (F ++ [rf.newEntry command]) where
  le := by
    have := h.le
    rw [List.length_append]
    exact this.trans (Nat.le_add_right _ _)
  logs := by
    have hle := h.le
    rw [Raft.started, persist_logs, persist_lastSnapshotIncludeIndex]
    dsimp only
    rw [List.drop_append_of_le_length hle, h.logs]
  term := by
    have hle := h.le
    rw [Raft.started, persist_lastSnapshotIncludeTerm, persist_lastSnapshotIncludeIndex]
    dsimp only
    rw [List.take_append_of_le_length hle, h.term]

/-- Cutting the log at a snapshot replaces its beginning by what the snapshot stands for. -/
theorem Full.splice {rf : Raft n} {F S : List LogEntry} (h : rf.Full F) (hwf : rf.LogWF)
    {index term : Int} (hidx : rf.lastSnapshotIncludeIndex ≤ index) (hlen : index = S.length)
    (hterm : term = lastTerm S) : (rf.cutAt index term).Full (S ++ F.drop S.length) := by
  have hnonneg := hwf.nonneg
  have hnat : index.toNat = S.length := by omega
  refine { le := ?_, logs := ?_, term := ?_ }
  · rw [cutAt_lastSnapshotIncludeIndex, List.length_append]
    omega
  · rw [cutAt_logs, cutAt_lastSnapshotIncludeIndex, h.logs, List.drop_drop, hnat, List.drop_left']
    · congr 1
      omega
    · rfl
  · rw [cutAt_lastSnapshotIncludeTerm, cutAt_lastSnapshotIncludeIndex, hnat, List.take_left',
      hterm]
    rfl

/-- A prefix that is laid over changes nothing. -/
theorem splice_of_isPrefix {F S : List LogEntry} (h : S <+: F) : S ++ F.drop S.length = F := by
  obtain ⟨u, rfl⟩ := h
  rw [List.drop_left' rfl]

/-- What is at least as long replaces everything. -/
theorem splice_of_length_le {F S : List LogEntry} (h : F.length ≤ S.length) :
    S ++ F.drop S.length = S := by
  rw [List.drop_eq_nil_of_le h, List.append_nil]

/-- Laying entries over a log that is cut from below is cutting the log they are laid over. -/
theorem overlay_drop {F es : List LogEntry} {p k : ℕ} (hk : k ≤ p) (hp : p ≤ F.length) :
    overlay (p - k) es (F.drop k) = (overlay p es F).drop k := by
  refine List.ext_getElem? fun j => ?_
  rw [getElem?_overlay (by rw [List.length_drop]; omega), List.getElem?_drop, List.getElem?_drop,
    getElem?_overlay hp]
  by_cases hj : p - k ≤ j ∧ j < p - k + es.length
  · rw [if_pos hj, if_pos (by omega)]
    congr 1
    omega
  · rw [if_neg hj, if_neg (by omega)]

/-- Accepted entries are laid over the full log, wherever it has been compacted. -/
theorem Full.accept {rf : Raft n} {F : List LogEntry} (h : rf.Full F) (hwf : rf.LogWF)
    {args : AppendEntriesArgs} (hsnap : rf.lastSnapshotIncludeIndex ≤ args.prevLogIndex)
    (hlast : args.prevLogIndex ≤ rf.getLastLogIndex) :
    (rf.accept args).Full (overlay args.prevLogIndex.toNat args.entries F) := by
  have hnonneg := hwf.nonneg
  have hlen := h.length hwf
  have hle := h.le
  have hp : args.prevLogIndex.toNat ≤ F.length := by omega
  have hk : rf.lastSnapshotIncludeIndex.toNat ≤ args.prevLogIndex.toNat := by omega
  refine { le := ?_, logs := ?_, term := ?_ }
  · rw [accept_lastSnapshotIncludeIndex, length_overlay hp]
    omega
  · rw [accept_lastSnapshotIncludeIndex, accept_logs, mergedLogs, h.logs, ← overlay_drop hk hp]
    congr 1
    omega
  · rw [accept_lastSnapshotIncludeIndex, accept_lastSnapshotIncludeTerm, h.term, overlay,
      List.append_assoc, List.take_append_of_le_length (by rw [List.length_take]; omega),
      List.take_take, Nat.min_eq_left hk]

/-- The requests of a leader, read off its log. -/
theorem Full.appendArgs {rf : Raft n} {F : List LogEntry} (h : rf.Full F) (hwf : rf.LogWF)
    {prev prevTerm : Int} (ht : rf.termAt prev = some prevTerm) :
    (rf.appendArgs prev prevTerm).entries = F.drop prev.toNat ∧
      prevTerm = lastTerm (F.take prev.toNat) := by
  have hnonneg := hwf.nonneg
  obtain ⟨hsnap, hlast⟩ := hwf.termAt_isSome.mp (by rw [ht]; rfl)
  rw [h.termAt hwf hsnap hlast, Option.some.injEq] at ht
  refine ⟨?_, ht.symm⟩
  calc rf.logs.drop (prev - rf.lastSnapshotIncludeIndex).toNat
      = F.drop (rf.lastSnapshotIncludeIndex.toNat + (prev - rf.lastSnapshotIncludeIndex).toNat) := by
        rw [h.logs, List.drop_drop]
    _ = F.drop prev.toNat := by
        congr 1
        omega

end Raft

/-! ### Merging -/

/-- Entries that continue a common beginning, written over `F`. -/
theorem overlay_of_take {F B : List LogEntry} {p : ℕ} (hp : p ≤ B.length)
    (htake : F.take p = B.take p) : overlay p (B.drop p) F = B ++ F.drop B.length := by
  rw [overlay, htake, List.take_append_drop, List.length_drop, Nat.add_sub_cancel' hp]

/-- **Merging.**  The entries of `B` after position `p` are written over `F`, which agrees with
    `B` up to there.  If no term conflicts where `F` is the longer log, the result is `F`, which
    then contains `B`, or it is `B`. -/
theorem merge_cases {ν : Type*} {t : Consensus ν LogEntry} {F B : List LogEntry}
    (hF : t.Rooted F) (hB : t.Rooted B) {p : ℕ} (hp : p ≤ B.length) (htake : F.take p = B.take p)
    (hcover : B.length < F.length → ∀ k e e', p ≤ k → F[k]? = some e → B[k]? = some e' →
      e.logTerm = e'.logTerm) :
    overlay p (B.drop p) F = F ∧ B <+: F ∨
      overlay p (B.drop p) F = B ∧ (B <+: F → B = F) := by
  rw [overlay_of_take hp htake]
  rcases Nat.lt_or_ge B.length F.length with hlt | hge
  · -- the last common position decides
    have hpre : B <+: F := by
      rcases Nat.lt_or_ge p B.length with hpB | hpB
      · obtain ⟨k, hk⟩ : ∃ k, B.length = k + 1 := ⟨B.length - 1, by omega⟩
        obtain ⟨e, he⟩ : ∃ e, F[k]? = some e := ⟨_, List.getElem?_eq_getElem (by omega)⟩
        obtain ⟨e', he'⟩ : ∃ e', B[k]? = some e' := ⟨_, List.getElem?_eq_getElem (by omega)⟩
        have hmatch := hF.matching hB he he' (hcover hlt k e e' (by omega) he he')
        rw [List.take_of_length_le (l := B) (by omega)] at hmatch
        exact hmatch ▸ List.take_prefix _ _
      · rw [List.take_of_length_le (l := B) hpB] at htake
        exact htake ▸ List.take_prefix _ _
    exact Or.inl ⟨Raft.splice_of_isPrefix hpre, hpre⟩
  · exact Or.inr ⟨Raft.splice_of_length_le hge, fun hpre => hpre.eq_of_length_le hge⟩

end RaftStore
