import Mathlib.Tactic.Common
import RaftStore.Node.Merge

namespace RaftStore

/-!
# What the small state changes leave alone

Simp lemmas that read a field through `observe`, `follow`, `persist`, `saveSnapshot`, `cutAt`
and the other updates the handlers are made of, so that the proofs about the handlers never
unfold them.

* `Raft.heed` — the term handling of `InstallSnapshot`, which is `follow` up to the persister;
  `Raft.installSnapshot_eq` writes the handler with it.
* `Raft.cutAt` — what `InstallSnapshot` and `Snapshot` do to the log and the indices.
* `Raft.IndexWF` — snapshot point, `m_lastApplied`, `m_commitIndex` and the end of the log are
  in order.
-/

namespace Raft

variable {n : ℕ}

section fields

variable (rf : Raft n) (term : Int)

/-- Seeing a term keeps the node's number. -/
@[simp] theorem observe_me : (rf.observe term).me = rf.me := by
  unfold observe; split <;> rfl

/-- Seeing a term keeps the log. -/
@[simp] theorem observe_logs : (rf.observe term).logs = rf.logs := by
  unfold observe; split <;> rfl

/-- Seeing a term keeps the commit index. -/
@[simp] theorem observe_commitIndex : (rf.observe term).commitIndex = rf.commitIndex := by
  unfold observe; split <;> rfl

/-- Seeing a term keeps what was applied. -/
@[simp] theorem observe_lastApplied : (rf.observe term).lastApplied = rf.lastApplied := by
  unfold observe; split <;> rfl

/-- Seeing a term keeps what is to be sent next. -/
@[simp] theorem observe_nextIndex : (rf.observe term).nextIndex = rf.nextIndex := by
  unfold observe; split <;> rfl

/-- Seeing a term keeps how far each peer has got. -/
@[simp] theorem observe_matchIndex : (rf.observe term).matchIndex = rf.matchIndex := by
  unfold observe; split <;> rfl

/-- Seeing a term keeps the snapshot point. -/
@[simp] theorem observe_lastSnapshotIncludeIndex :
    (rf.observe term).lastSnapshotIncludeIndex = rf.lastSnapshotIncludeIndex := by
  unfold observe; split <;> rfl

/-- Seeing a term keeps the term of the snapshot point. -/
@[simp] theorem observe_lastSnapshotIncludeTerm :
    (rf.observe term).lastSnapshotIncludeTerm = rf.lastSnapshotIncludeTerm := by
  unfold observe; split <;> rfl

/-- Seeing a term keeps what the persister holds. -/
@[simp] theorem observe_persister : (rf.observe term).persister = rf.persister := by
  unfold observe; split <;> rfl

/-- Seeing a term keeps the entry of every index. -/
@[simp] theorem observe_entryAt (i : Int) : (rf.observe term).entryAt i = rf.entryAt i := by
  simp [entryAt]

/-- Seeing a term keeps the term of every index. -/
@[simp] theorem observe_termAt (i : Int) : (rf.observe term).termAt i = rf.termAt i := by
  simp [termAt]

/-- Seeing a term keeps the last index. -/
@[simp] theorem observe_getLastLogIndex :
    (rf.observe term).getLastLogIndex = rf.getLastLogIndex := by
  unfold observe; split <;> rfl

/-- Seeing a term keeps the last term. -/
@[simp] theorem observe_getLastLogTerm :
    (rf.observe term).getLastLogTerm = rf.getLastLogTerm := by
  unfold observe; split <;> rfl

/-- A term that is not behind becomes the node's. -/
theorem observe_currentTerm {rf : Raft n} {term : Int} (h : rf.currentTerm ≤ term) :
    (rf.observe term).currentTerm = term := by
  unfold observe
  split
  · rfl
  · omega

/-- A newer term frees the vote. -/
theorem observe_votedFor :
    (rf.observe term).votedFor = if rf.currentTerm < term then -1 else rf.votedFor := by
  unfold observe; split <;> rfl

/-- Following a leader keeps the node's number. -/
@[simp] theorem follow_me : (rf.follow term).me = rf.me := observe_me rf term

/-- Following a leader keeps the log. -/
@[simp] theorem follow_logs : (rf.follow term).logs = rf.logs := observe_logs rf term

/-- Following a leader keeps the commit index. -/
@[simp] theorem follow_commitIndex : (rf.follow term).commitIndex = rf.commitIndex :=
  observe_commitIndex rf term

/-- Following a leader keeps what was applied. -/
@[simp] theorem follow_lastApplied : (rf.follow term).lastApplied = rf.lastApplied :=
  observe_lastApplied rf term

/-- Following a leader keeps the snapshot point. -/
@[simp] theorem follow_lastSnapshotIncludeIndex :
    (rf.follow term).lastSnapshotIncludeIndex = rf.lastSnapshotIncludeIndex :=
  observe_lastSnapshotIncludeIndex rf term

/-- Following a leader keeps the term of the snapshot point. -/
@[simp] theorem follow_lastSnapshotIncludeTerm :
    (rf.follow term).lastSnapshotIncludeTerm = rf.lastSnapshotIncludeTerm :=
  observe_lastSnapshotIncludeTerm rf term

/-- Following a leader keeps what the persister holds. -/
@[simp] theorem follow_persister : (rf.follow term).persister = rf.persister :=
  observe_persister rf term

/-- The node follows. -/
@[simp] theorem follow_status : (rf.follow term).status = .follower := rfl

/-- Following a leader keeps the entry of every index. -/
@[simp] theorem follow_entryAt (i : Int) : (rf.follow term).entryAt i = rf.entryAt i :=
  observe_entryAt rf term i

/-- Following a leader keeps the term of every index. -/
@[simp] theorem follow_termAt (i : Int) : (rf.follow term).termAt i = rf.termAt i :=
  observe_termAt rf term i

/-- Following a leader keeps the last index. -/
@[simp] theorem follow_getLastLogIndex :
    (rf.follow term).getLastLogIndex = rf.getLastLogIndex :=
  observe_getLastLogIndex rf term

/-- A newer term frees the vote. -/
theorem follow_votedFor :
    (rf.follow term).votedFor = if rf.currentTerm < term then -1 else rf.votedFor :=
  observe_votedFor rf term

/-- A leader's term that is not behind becomes the node's. -/
theorem follow_currentTerm {rf : Raft n} {term : Int} (h : rf.currentTerm ≤ term) :
    (rf.follow term).currentTerm = term :=
  observe_currentTerm h

variable [RaftArchive]

/-- Persisting keeps the node's number. -/
@[simp] theorem persist_me : rf.persist.me = rf.me := rfl
/-- Persisting keeps the term. -/
@[simp] theorem persist_currentTerm : rf.persist.currentTerm = rf.currentTerm := rfl
/-- Persisting keeps the vote. -/
@[simp] theorem persist_votedFor : rf.persist.votedFor = rf.votedFor := rfl
/-- Persisting keeps the log. -/
@[simp] theorem persist_logs : rf.persist.logs = rf.logs := rfl
/-- Persisting keeps the commit index. -/
@[simp] theorem persist_commitIndex : rf.persist.commitIndex = rf.commitIndex := rfl
/-- Persisting keeps what was applied. -/
@[simp] theorem persist_lastApplied : rf.persist.lastApplied = rf.lastApplied := rfl
/-- Persisting keeps what is to be sent next. -/
@[simp] theorem persist_nextIndex : rf.persist.nextIndex = rf.nextIndex := rfl
/-- Persisting keeps how far each peer has got. -/
@[simp] theorem persist_matchIndex : rf.persist.matchIndex = rf.matchIndex := rfl
/-- Persisting keeps the status. -/
@[simp] theorem persist_status : rf.persist.status = rf.status := rfl
/-- Persisting keeps the snapshot point. -/
@[simp] theorem persist_lastSnapshotIncludeIndex :
    rf.persist.lastSnapshotIncludeIndex = rf.lastSnapshotIncludeIndex := rfl
/-- Persisting keeps the term of the snapshot point. -/
@[simp] theorem persist_lastSnapshotIncludeTerm :
    rf.persist.lastSnapshotIncludeTerm = rf.lastSnapshotIncludeTerm := rfl
/-- Persisting keeps the entry of every index. -/
@[simp] theorem persist_entryAt (i : Int) : rf.persist.entryAt i = rf.entryAt i := rfl
/-- Persisting keeps the term of every index. -/
@[simp] theorem persist_termAt (i : Int) : rf.persist.termAt i = rf.termAt i := rfl
/-- Persisting keeps the last index. -/
@[simp] theorem persist_getLastLogIndex : rf.persist.getLastLogIndex = rf.getLastLogIndex := rfl


/-- Saving a snapshot keeps the node's number. -/
@[simp] theorem saveSnapshot_me (data : String) : (rf.saveSnapshot data).me = rf.me := rfl
/-- Saving a snapshot keeps the term. -/
@[simp] theorem saveSnapshot_currentTerm (data : String) :
    (rf.saveSnapshot data).currentTerm = rf.currentTerm := rfl
/-- Saving a snapshot keeps the vote. -/
@[simp] theorem saveSnapshot_votedFor (data : String) :
    (rf.saveSnapshot data).votedFor = rf.votedFor := rfl
/-- Saving a snapshot keeps the log. -/
@[simp] theorem saveSnapshot_logs (data : String) : (rf.saveSnapshot data).logs = rf.logs := rfl
/-- Saving a snapshot keeps the commit index. -/
@[simp] theorem saveSnapshot_commitIndex (data : String) :
    (rf.saveSnapshot data).commitIndex = rf.commitIndex := rfl
/-- Saving a snapshot keeps what was applied. -/
@[simp] theorem saveSnapshot_lastApplied (data : String) :
    (rf.saveSnapshot data).lastApplied = rf.lastApplied := rfl
/-- Saving a snapshot keeps what is to be sent next. -/
@[simp] theorem saveSnapshot_nextIndex (data : String) :
    (rf.saveSnapshot data).nextIndex = rf.nextIndex := rfl
/-- Saving a snapshot keeps how far each peer has got. -/
@[simp] theorem saveSnapshot_matchIndex (data : String) :
    (rf.saveSnapshot data).matchIndex = rf.matchIndex := rfl
/-- Saving a snapshot keeps the status. -/
@[simp] theorem saveSnapshot_status (data : String) :
    (rf.saveSnapshot data).status = rf.status := rfl
/-- Saving a snapshot keeps the snapshot point. -/
@[simp] theorem saveSnapshot_lastSnapshotIncludeIndex (data : String) :
    (rf.saveSnapshot data).lastSnapshotIncludeIndex = rf.lastSnapshotIncludeIndex := rfl
/-- Saving a snapshot keeps the term of the snapshot point. -/
@[simp] theorem saveSnapshot_lastSnapshotIncludeTerm (data : String) :
    (rf.saveSnapshot data).lastSnapshotIncludeTerm = rf.lastSnapshotIncludeTerm := rfl
/-- Saving a snapshot keeps the entry of every index. -/
@[simp] theorem saveSnapshot_entryAt (data : String) (i : Int) :
    (rf.saveSnapshot data).entryAt i = rf.entryAt i := rfl
/-- Saving a snapshot keeps the term of every index. -/
@[simp] theorem saveSnapshot_termAt (data : String) (i : Int) :
    (rf.saveSnapshot data).termAt i = rf.termAt i := rfl
/-- Saving a snapshot keeps the last index. -/
@[simp] theorem saveSnapshot_getLastLogIndex (data : String) :
    (rf.saveSnapshot data).getLastLogIndex = rf.getLastLogIndex := rfl

/-- The term handling of `InstallSnapshot`. -/
def heed : Raft n :=
  { (if rf.currentTerm < term then (rf.stepDown term).persist else rf) with status := .follower }

/-- `heed` and `follow` differ in the persister alone. -/
theorem heed_eq_follow :
    rf.heed term = { rf.follow term with persister := (rf.heed term).persister } := by
  unfold heed follow observe
  split <;> rfl

/-- Heeding a snapshot's sender keeps the node's number. -/
@[simp] theorem heed_me : (rf.heed term).me = rf.me := by
  rw [heed_eq_follow]; exact follow_me rf term

/-- Heeding a snapshot's sender keeps the log. -/
@[simp] theorem heed_logs : (rf.heed term).logs = rf.logs := by
  rw [heed_eq_follow]; exact follow_logs rf term

/-- Heeding a snapshot's sender keeps the commit index. -/
@[simp] theorem heed_commitIndex : (rf.heed term).commitIndex = rf.commitIndex := by
  rw [heed_eq_follow]; exact follow_commitIndex rf term

/-- Heeding a snapshot's sender keeps what was applied. -/
@[simp] theorem heed_lastApplied : (rf.heed term).lastApplied = rf.lastApplied := by
  rw [heed_eq_follow]; exact follow_lastApplied rf term

/-- Heeding a snapshot's sender keeps the snapshot point. -/
@[simp] theorem heed_lastSnapshotIncludeIndex :
    (rf.heed term).lastSnapshotIncludeIndex = rf.lastSnapshotIncludeIndex := by
  rw [heed_eq_follow]; exact follow_lastSnapshotIncludeIndex rf term

/-- Heeding a snapshot's sender keeps the term of the snapshot point. -/
@[simp] theorem heed_lastSnapshotIncludeTerm :
    (rf.heed term).lastSnapshotIncludeTerm = rf.lastSnapshotIncludeTerm := by
  rw [heed_eq_follow]; exact follow_lastSnapshotIncludeTerm rf term

/-- The node follows. -/
@[simp] theorem heed_status : (rf.heed term).status = .follower := rfl

/-- Heeding a snapshot's sender keeps the entry of every index. -/
@[simp] theorem heed_entryAt (i : Int) : (rf.heed term).entryAt i = rf.entryAt i := by
  simp [entryAt]

/-- Heeding a snapshot's sender keeps the term of every index. -/
@[simp] theorem heed_termAt (i : Int) : (rf.heed term).termAt i = rf.termAt i := by
  simp [termAt]

/-- Heeding a snapshot's sender keeps the last index. -/
@[simp] theorem heed_getLastLogIndex : (rf.heed term).getLastLogIndex = rf.getLastLogIndex := by
  rw [heed_eq_follow]; exact follow_getLastLogIndex rf term

/-- A newer term frees the vote. -/
theorem heed_votedFor :
    (rf.heed term).votedFor = if rf.currentTerm < term then -1 else rf.votedFor := by
  rw [heed_eq_follow]; exact follow_votedFor rf term

/-- A term that is not behind becomes the node's. -/
theorem heed_currentTerm {rf : Raft n} {term : Int} (h : rf.currentTerm ≤ term) :
    (rf.heed term).currentTerm = term := by
  rw [heed_eq_follow]; exact follow_currentTerm h

end fields

/-- The message `InstallSnapshot` hands to its detached thread. -/
def snapshotMsg (args : InstallSnapshotRequest) : ApplyMsg :=
  { snapshotValid := true
    snapshot := args.data
    snapshotTerm := args.lastSnapShotIncludeTerm
    snapshotIndex := args.lastSnapShotIncludeIndex }

/-- `InstallSnapshot` in terms of `heed`. -/
theorem installSnapshot_eq [RaftArchive] (rf : Raft n) (args : InstallSnapshotRequest) :
    rf.installSnapshot args =
      if args.term < rf.currentTerm then .ok (rf, { term := rf.currentTerm }, none)
      else if args.lastSnapShotIncludeIndex ≤ (rf.heed args.term).lastSnapshotIncludeIndex then
        .ok (rf.heed args.term, {}, none)
      else do
        let rf' ← (rf.heed args.term).installAccepted args
        return (rf', { term := rf'.currentTerm }, some (snapshotMsg args)) :=
  rfl

/-- Seeing a term keeps the log well formed. -/
theorem LogWF.observe {rf : Raft n} (h : rf.LogWF) (term : Int) : (rf.observe term).LogWF :=
  ⟨by simpa using h.nonneg, by simpa using h.contiguous⟩

/-- So does following a leader. -/
theorem LogWF.follow {rf : Raft n} (h : rf.LogWF) (term : Int) : (rf.follow term).LogWF :=
  ⟨(h.observe term).nonneg, (h.observe term).contiguous⟩

/-! ### Cutting the log -/

/-- The log cut after `index`, with the snapshot point there. -/
def cutAt (rf : Raft n) (index term : Int) : Raft n :=
  { rf with
    logs := rf.logs.drop (index - rf.lastSnapshotIncludeIndex).toNat
    commitIndex := max rf.commitIndex index
    lastApplied := max rf.lastApplied index
    lastSnapshotIncludeIndex := index
    lastSnapshotIncludeTerm := term }

section cutAt

variable (rf : Raft n) (index term : Int)

/-- Cutting the log keeps the node's number. -/
@[simp] theorem cutAt_me : (rf.cutAt index term).me = rf.me := rfl
/-- Cutting the log keeps the term. -/
@[simp] theorem cutAt_currentTerm : (rf.cutAt index term).currentTerm = rf.currentTerm := rfl
/-- Cutting the log keeps the vote. -/
@[simp] theorem cutAt_votedFor : (rf.cutAt index term).votedFor = rf.votedFor := rfl
/-- Cutting the log keeps the status. -/
@[simp] theorem cutAt_status : (rf.cutAt index term).status = rf.status := rfl
/-- Cutting the log keeps what is to be sent next. -/
@[simp] theorem cutAt_nextIndex : (rf.cutAt index term).nextIndex = rf.nextIndex := rfl
/-- Cutting the log keeps how far each peer has got. -/
@[simp] theorem cutAt_matchIndex : (rf.cutAt index term).matchIndex = rf.matchIndex := rfl
/-- The entries up to the cut are gone. -/
@[simp] theorem cutAt_logs : (rf.cutAt index term).logs =
    rf.logs.drop (index - rf.lastSnapshotIncludeIndex).toNat := rfl
/-- What was cut off is committed. -/
@[simp] theorem cutAt_commitIndex :
    (rf.cutAt index term).commitIndex = max rf.commitIndex index := rfl
/-- What was cut off is applied. -/
@[simp] theorem cutAt_lastApplied :
    (rf.cutAt index term).lastApplied = max rf.lastApplied index := rfl
/-- The cut is the new snapshot point. -/
@[simp] theorem cutAt_lastSnapshotIncludeIndex :
    (rf.cutAt index term).lastSnapshotIncludeIndex = index := rfl
/-- The new snapshot point has the given term. -/
@[simp] theorem cutAt_lastSnapshotIncludeTerm :
    (rf.cutAt index term).lastSnapshotIncludeTerm = term := rfl

end cutAt

/-- A log that is cut from below stays well formed. -/
theorem LogWF.cutAt {rf : Raft n} (h : rf.LogWF) {index : Int}
    (hidx : rf.lastSnapshotIncludeIndex ≤ index) (term : Int) : (rf.cutAt index term).LogWF where
  nonneg := hidx.trans' h.nonneg
  contiguous := by
    have hdrop := h.contiguous.drop (index - rf.lastSnapshotIncludeIndex).toNat
    rwa [show rf.lastSnapshotIncludeIndex + ((index - rf.lastSnapshotIncludeIndex).toNat : Int) =
      index by omega] at hdrop

/-- The last index stays, unless the cut is above it. -/
theorem LogWF.getLastLogIndex_cutAt {rf : Raft n} (h : rf.LogWF) {index : Int}
    (hidx : rf.lastSnapshotIncludeIndex ≤ index) (term : Int) :
    (rf.cutAt index term).getLastLogIndex = max rf.getLastLogIndex index := by
  rw [(h.cutAt hidx term).getLastLogIndex, h.getLastLogIndex]
  simp only [cutAt_lastSnapshotIncludeIndex, cutAt_logs, List.length_drop]
  omega

/-- The entries above the cut are as before, and the others are gone. -/
theorem entryAt_cutAt {rf : Raft n} {index : Int}
    (hidx : rf.lastSnapshotIncludeIndex ≤ index) (term i : Int) :
    (rf.cutAt index term).entryAt i = if index < i then rf.entryAt i else none := by
  unfold entryAt
  rw [cutAt_lastSnapshotIncludeIndex, cutAt_logs]
  by_cases hi : index < i
  · rw [if_pos hi, if_pos hi, if_pos (by omega), List.getElem?_drop]
    congr 1
    omega
  · rw [if_neg hi, if_neg hi]

/-! ### The order of the indices -/

/-- Snapshot point, last applied index, commit index and end of the log are in order, and a
    node that has no snapshot names term 0 for index 0. -/
structure IndexWF (rf : Raft n) : Prop extends LogWF rf where
  zero : rf.lastSnapshotIncludeIndex = 0 → rf.lastSnapshotIncludeTerm = 0
  applied : rf.lastSnapshotIncludeIndex ≤ rf.lastApplied
  committed : rf.lastApplied ≤ rf.commitIndex
  last : rf.commitIndex ≤ rf.getLastLogIndex

/-- `IndexWF` is about the log and the indices alone. -/
theorem IndexWF.congr {rf rf' : Raft n} (h : rf.IndexWF) (hlogs : rf'.logs = rf.logs)
    (hidx : rf'.lastSnapshotIncludeIndex = rf.lastSnapshotIncludeIndex)
    (hterm : rf'.lastSnapshotIncludeTerm = rf.lastSnapshotIncludeTerm)
    (happlied : rf'.lastApplied = rf.lastApplied) (hcommit : rf'.commitIndex = rf.commitIndex) :
    rf'.IndexWF where
  nonneg := by rw [hidx]; exact h.nonneg
  contiguous := by rw [hidx, hlogs]; exact h.contiguous
  zero := by rw [hidx, hterm]; exact h.zero
  applied := by rw [hidx, happlied]; exact h.applied
  committed := by rw [happlied, hcommit]; exact h.committed
  last := by
    have hlast := h.last
    unfold Raft.getLastLogIndex getLastLogIndexAndTerm at hlast ⊢
    rw [hcommit, hlogs, hidx, hterm]
    exact hlast

/-- The indices stay in order. -/
theorem IndexWF.cutAt {rf : Raft n} (h : rf.IndexWF) {index : Int}
    (hidx : rf.lastSnapshotIncludeIndex < index) (term : Int) : (rf.cutAt index term).IndexWF where
  toLogWF := h.toLogWF.cutAt hidx.le term
  zero := by
    intro h0
    have := h.nonneg
    have : index = 0 := h0
    omega
  applied := le_max_right _ _
  committed := max_le_max h.committed le_rfl
  last := by
    rw [h.toLogWF.getLastLogIndex_cutAt hidx.le]
    exact max_le_max h.last le_rfl

end Raft

end RaftStore
