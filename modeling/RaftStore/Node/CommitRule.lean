import Mathlib.Data.Fintype.Card
import RaftStore.Node.Progress

namespace RaftStore

/-!
# The commit index that the match indices allow

`leaderUpdateCommitIndex` computes a commit index from `m_matchIndex` alone: the last index of
the current term that a majority is known to hold.  The reply part of `sendAppendEntries` does not
use it; it raises the commit index when a counter of one heartbeat reaches a majority.

* `Raft.Committable` — a majority is known to hold the entry, and it is of the current term.
* `LogWF.leaderUpdateCommitIndex_greatest` — `leaderUpdateCommitIndex` finds the last such index.
* `Raft.CommitsAll` — the commit index is at or above every committable index.
* `Raft.Completes` — a success completes the majority for an index above the commit index.
* `Raft.sendAppendEntriesReply_commitsAll` — the reply part leaves nothing to commit exactly if
  the success that completes such a majority also completes the one of its round.
-/

namespace Raft

variable {n : ℕ}

/-! ### `leaderUpdateCommitIndex` -/

/-- The entry at `N` is of the current term, and a majority is known to hold it. -/
def Committable (rf : Raft n) (N : Int) : Prop :=
  rf.lastSnapshotIncludeIndex < N ∧ (rf.entryAt N).map LogEntry.logTerm = some rf.currentTerm ∧
    n / 2 + 1 ≤ rf.holders N

/-- The loop finds the last committable index among those it visits. -/
theorem LogWF.updateCommitLoop_greatest {rf : Raft n} (h : rf.LogWF) (fuel : ℕ)
    (hfuel : rf.lastSnapshotIncludeIndex + fuel ≤ rf.getLastLogIndex) :
    ∃ N, rf.updateCommitLoop fuel = .ok { rf with commitIndex := N } ∧
      ((N = rf.commitIndex ∧ ∀ M, M ≤ rf.lastSnapshotIncludeIndex + fuel → ¬ rf.Committable M) ∨
        (rf.Committable N ∧ ∀ M, M ≤ rf.lastSnapshotIncludeIndex + fuel →
          rf.Committable M → M ≤ N)) := by
  induction fuel with
  | zero =>
    refine ⟨rf.commitIndex, rfl, Or.inl ⟨rfl, fun M hM hc => ?_⟩⟩
    have := hc.1
    omega
  | succ fuel ih =>
    obtain ⟨N, hN, hspec⟩ := ih (by push_cast at hfuel; omega)
    have hbelow : rf.lastSnapshotIncludeIndex < rf.lastSnapshotIncludeIndex + (fuel + 1) := by omega
    obtain ⟨e, he⟩ := h.exists_entryAt hbelow (by push_cast at hfuel; exact hfuel)
    -- the loop goes on below an index that is not committable
    have hskip : ¬ rf.Committable (rf.lastSnapshotIncludeIndex + (fuel + 1)) →
        ((N = rf.commitIndex ∧
            ∀ M, M ≤ rf.lastSnapshotIncludeIndex + (fuel + 1 : ℕ) → ¬ rf.Committable M) ∨
          (rf.Committable N ∧ ∀ M, M ≤ rf.lastSnapshotIncludeIndex + (fuel + 1 : ℕ) →
            rf.Committable M → M ≤ N)) := by
      intro hnot
      have hlower : ∀ M, M ≤ rf.lastSnapshotIncludeIndex + (fuel + 1 : ℕ) → rf.Committable M →
          M ≤ rf.lastSnapshotIncludeIndex + fuel := by
        intro M hM hc
        have hne : M ≠ rf.lastSnapshotIncludeIndex + (fuel + 1) := fun heq => hnot (heq ▸ hc)
        push_cast at hM
        omega
      rcases hspec with ⟨hsame, hnone⟩ | ⟨hc, hmax⟩
      · exact Or.inl ⟨hsame, fun M hM hM' => hnone M (hlower M hM hM') hM'⟩
      · exact Or.inr ⟨hc, fun M hM hM' => hmax M (hlower M hM hM') hM'⟩
    rw [updateCommitLoop]
    by_cases hhold : n / 2 + 1 ≤ rf.holders (rf.lastSnapshotIncludeIndex + (fuel + 1))
    · have hterm : rf.termAt (rf.lastSnapshotIncludeIndex + (fuel + 1)) = some e.logTerm := by
        rw [termAt, if_neg (by omega), he]
        rfl
      rw [if_pos hhold, h.getLogTermFromLogIndex_eq_ok.mpr hterm, Exec.ok_bind]
      by_cases hcur : e.logTerm = rf.currentTerm
      · rw [if_pos hcur]
        refine ⟨_, rfl, Or.inr ⟨⟨hbelow, ?_, hhold⟩, fun M hM _ => by push_cast at hM; exact hM⟩⟩
        rw [he, Option.map_some, hcur]
      · rw [if_neg hcur]
        refine ⟨N, hN, hskip fun hc => hcur ?_⟩
        have hmap := hc.2.1
        rw [he, Option.map_some] at hmap
        exact Option.some.inj hmap
    · rw [if_neg hhold]
      exact ⟨N, hN, hskip fun hc => hhold hc.2.2⟩

/-- `leaderUpdateCommitIndex` sets the commit index to the last committable index, or to the
    snapshot point if there is none. -/
theorem LogWF.leaderUpdateCommitIndex_greatest {rf : Raft n} (h : rf.LogWF) :
    ∃ N, rf.leaderUpdateCommitIndex = .ok { rf with commitIndex := N } ∧
      ((N = rf.lastSnapshotIncludeIndex ∧ ∀ M, ¬ rf.Committable M) ∨
        (rf.Committable N ∧ ∀ M, rf.Committable M → M ≤ N)) := by
  have hlast := h.snapshot_le_last
  have hreset : ({ rf with commitIndex := rf.lastSnapshotIncludeIndex } : Raft n).LogWF :=
    ⟨h.nonneg, h.contiguous⟩
  obtain ⟨N, hN, hspec⟩ := hreset.updateCommitLoop_greatest
    (rf.getLastLogIndex - rf.lastSnapshotIncludeIndex).toNat (by
      show rf.lastSnapshotIncludeIndex + _ ≤ rf.getLastLogIndex
      omega)
  -- every committable index is visited
  have hall : ∀ M, rf.Committable M → M ≤ rf.lastSnapshotIncludeIndex +
      ((rf.getLastLogIndex - rf.lastSnapshotIncludeIndex).toNat : Int) := by
    intro M hM
    obtain ⟨e, he, _⟩ := Option.map_eq_some_iff.mp hM.2.1
    have := (h.entryAt_bounds he).2
    omega
  refine ⟨N, hN, ?_⟩
  rcases hspec with ⟨hsame, hnone⟩ | ⟨hc, hmax⟩
  · exact Or.inl ⟨hsame, fun M hM => hnone M (hall M hM) hM⟩
  · exact Or.inr ⟨hc, fun M hM => hmax M (hall M hM) hM⟩

/-- The commit index is at or above every committable index. -/
def CommitsAll (rf : Raft n) : Prop := ∀ N, rf.Committable N → N ≤ rf.commitIndex

/-- That is, `leaderUpdateCommitIndex` would not raise it. -/
theorem IndexWF.commitsAll_iff {rf : Raft n} (h : rf.IndexWF) :
    (∃ rf', rf.leaderUpdateCommitIndex = .ok rf' ∧ rf'.commitIndex ≤ rf.commitIndex) ↔
      rf.CommitsAll := by
  obtain ⟨N, hN, hspec⟩ := h.toLogWF.leaderUpdateCommitIndex_greatest
  have hsnap : rf.lastSnapshotIncludeIndex ≤ rf.commitIndex := h.applied.trans h.committed
  constructor
  · rintro ⟨rf', hok, hle⟩ M hM
    rw [hN] at hok
    cases hok
    rcases hspec with ⟨_, hnone⟩ | ⟨_, hmax⟩
    · exact absurd hM (hnone M)
    · exact (hmax M hM).trans hle
  · intro hall
    refine ⟨_, hN, ?_⟩
    rcases hspec with ⟨rfl, _⟩ | ⟨hc, _⟩
    · exact hsnap
    · exact hall N hc

/-! ### A success that completes a majority -/

/-- The number of nodes that hold an index, as the size of the set of these nodes. -/
theorem holders_eq_card (rf : Raft n) (N : Int) :
    rf.holders N = (Finset.univ.filter fun i => i = rf.me ∨ N ≤ rf.matchIndex i).card := by
  rw [holders, ← (List.nodup_finRange n).card_eq_countP]
  congr 2
  exact List.toFinset_finRange n

/-- After a success the server holds the indices up to the one recorded for it. -/
theorem holders_recordMatch (rf : Raft n) {server : Fin n} (hne : server ≠ rf.me) (index N : Int) :
    (rf.recordMatch server index).holders N =
      rf.holders N + if rf.matchIndex server < N ∧ N ≤ index then 1 else 0 := by
  have hself : (rf.recordMatch server index).matchIndex server =
      max (rf.matchIndex server) index := Function.update_self ..
  have hothers : ∀ i, i ≠ server →
      (rf.recordMatch server index).matchIndex i = rf.matchIndex i := fun i hi =>
    Function.update_of_ne hi ..
  rw [holders_eq_card, holders_eq_card, recordMatch_me]
  split
  · rename_i hin
    have hnew : server ∉ Finset.univ.filter fun i => i = rf.me ∨ N ≤ rf.matchIndex i := by
      simp [hne, hin.1]
    -- exactly the server is new among the holders
    rw [← Finset.card_insert_of_notMem hnew]
    congr 1
    ext i
    by_cases hi : i = server
    · subst hi
      simp [hself, hin.2]
    · simp [hi, hothers i hi]
  · rename_i hout
    rw [Nat.add_zero]
    congr 1
    ext i
    by_cases hi : i = server
    · subst hi
      have hsame : (N ≤ max (rf.matchIndex i) index) = (N ≤ rf.matchIndex i) := by
        rw [le_max_iff]
        apply propext
        omega
      simp only [Finset.mem_filter, hself, hsame]
    · simp [hothers i hi]

/-- A success of `server` for these entries completes a majority for `N`: one more node makes it
    committable, and `server` is the one. -/
def Completes (rf : Raft n) (server : Fin n) (args : AppendEntriesArgs) (N : Int) : Prop :=
  rf.commitIndex < N ∧ rf.matchIndex server < N ∧ N ≤ args.prevLogIndex + args.entries.length ∧
    (rf.entryAt N).map LogEntry.logTerm = some rf.currentTerm ∧ n / 2 ≤ rf.holders N

instance (rf : Raft n) (server : Fin n) (args : AppendEntriesArgs) (N : Int) :
    Decidable (rf.Completes server args N) :=
  inferInstanceAs (Decidable (_ ∧ _ ∧ _ ∧ _ ∧ _))

/-- Only the indices from the commit index to the end of the request come into question. -/
theorem completes_iff_range {rf : Raft n} {server : Fin n} {args : AppendEntriesArgs} :
    (∃ k ∈ List.range (args.prevLogIndex + args.entries.length - rf.commitIndex).toNat,
      rf.Completes server args (rf.commitIndex + 1 + (k : ℕ))) ↔
        ∃ N, rf.Completes server args N := by
  constructor
  · rintro ⟨k, _, hk⟩
    exact ⟨_, hk⟩
  · rintro ⟨N, hN⟩
    have hlow := hN.1
    have hhigh := hN.2.2.1
    refine ⟨(N - rf.commitIndex - 1).toNat, List.mem_range.mpr (by omega), ?_⟩
    rwa [show rf.commitIndex + 1 + ((N - rf.commitIndex - 1).toNat : Int) = N by omega]

instance (rf : Raft n) (server : Fin n) (args : AppendEntriesArgs) :
    Decidable (∃ N, rf.Completes server args N) :=
  decidable_of_iff _ completes_iff_range

/-- The request ends with an entry of the current term. -/
def EndsInTerm (rf : Raft n) (args : AppendEntriesArgs) : Prop :=
  args.entries.getLast?.map LogEntry.logTerm = some rf.currentTerm

instance (rf : Raft n) (args : AppendEntriesArgs) : Decidable (rf.EndsInTerm args) :=
  inferInstanceAs (Decidable (_ = _))

/-- A request that ends in the leader's term commits up to its end. -/
theorem commitRound_pos {rf : Raft n} {args : AppendEntriesArgs} (h : rf.EndsInTerm args) :
    rf.commitRound args =
      { rf with commitIndex := max rf.commitIndex (args.prevLogIndex + args.entries.length) } :=
  if_pos h

/-- A request that does not commits nothing. -/
theorem commitRound_neg {rf : Raft n} {args : AppendEntriesArgs} (h : ¬ rf.EndsInTerm args) :
    rf.commitRound args = rf :=
  if_neg h

/-- What is committable after a match index has risen. -/
theorem recordMatch_committable {rf : Raft n} {server : Fin n} (hne : server ≠ rf.me)
    (index N : Int) :
    (rf.recordMatch server index).Committable N ↔
      rf.lastSnapshotIncludeIndex < N ∧
        (rf.entryAt N).map LogEntry.logTerm = some rf.currentTerm ∧
          n / 2 + 1 ≤ rf.holders N + if rf.matchIndex server < N ∧ N ≤ index then 1 else 0 := by
  rw [Committable, rf.holders_recordMatch hne]
  rfl

/-- If nothing was left to commit, then after recording a success nothing is left exactly if it
    completes no majority. -/
theorem recordMatch_commitsAll {rf : Raft n} (hwf : rf.IndexWF) (h : rf.CommitsAll)
    {server : Fin n} (hne : server ≠ rf.me) (args : AppendEntriesArgs) :
    (rf.recordMatch server (args.prevLogIndex + args.entries.length)).CommitsAll ↔
      ∀ N, ¬ rf.Completes server args N := by
  have hsnap : rf.lastSnapshotIncludeIndex ≤ rf.commitIndex := hwf.applied.trans hwf.committed
  constructor
  · rintro hall N ⟨hcommit, hmatch, hle, hterm, hhold⟩
    have hnew := hall N ((recordMatch_committable hne _ N).mpr ⟨by omega, hterm, by
      rw [if_pos ⟨hmatch, hle⟩]
      omega⟩)
    rw [recordMatch_commitIndex] at hnew
    omega
  · intro hnone N hN
    rw [recordMatch_commitIndex]
    by_contra hgt
    obtain ⟨hbelow, hterm, hhold⟩ := (recordMatch_committable hne _ N).mp hN
    by_cases hin : rf.matchIndex server < N ∧ N ≤ args.prevLogIndex + args.entries.length
    · rw [if_pos hin] at hhold
      exact hnone N ⟨not_le.mp hgt, hin.1, hin.2, hterm, by omega⟩
    · -- the success changes nothing for `N`
      rw [if_neg hin] at hhold
      exact hgt (h N ⟨hbelow, hterm, hhold⟩)

section reply

variable [RaftArchive]

/-- What the reply part of `sendAppendEntries` makes of a success it counts. -/
theorem sendAppendEntriesReply_counts {rf rf' : Raft n} {server : Fin n} {args : AppendEntriesArgs}
    {reply : AppendEntriesReply} {appendNums count : Int} (hstate : reply.appState ≠ disconnected)
    (h : rf.Counts reply)
    (hok : rf.sendAppendEntriesReply server args reply appendNums = .ok (rf', count)) :
    rf' = if (1 + n / 2 : ℕ) ≤ appendNums + 1 then
        (rf.recordMatch server (args.prevLogIndex + args.entries.length)).commitRound args
      else rf.recordMatch server (args.prevLogIndex + args.entries.length) := by
  obtain ⟨hterm, hstatus, hsucc⟩ := h
  unfold sendAppendEntriesReply at hok
  rw [if_neg hstate, if_neg (by omega), if_neg (by omega), if_neg (not_not.mpr hstatus)] at hok
  obtain ⟨_, _, hok⟩ := Exec.bind_eq_ok.mp hok
  rw [if_neg (by simp [hsucc])] at hok
  obtain ⟨_, _, hok⟩ := Exec.bind_eq_ok.mp hok
  split at hok
  · rename_i hnum
    obtain ⟨_, _, hok⟩ := Exec.bind_eq_ok.mp hok
    rw [if_pos hnum]
    exact (Prod.mk.inj (Exec.pure_eq_ok.mp hok)).1.symm
  · rename_i hnum
    rw [if_neg hnum]
    exact (Prod.mk.inj (Exec.pure_eq_ok.mp hok)).1.symm

/-- After the reply part of `sendAppendEntries` has counted a success, nothing is left to commit
    exactly if the success that completes a majority for an index also completes the majority of
    its round, for a request that ends in the current term. -/
theorem sendAppendEntriesReply_commitsAll {rf rf' : Raft n} (hwf : rf.IndexWF) (h : rf.CommitsAll)
    {server : Fin n} (hne : server ≠ rf.me) {args : AppendEntriesArgs} {reply : AppendEntriesReply}
    {appendNums count : Int} (hstate : reply.appState ≠ disconnected) (hc : rf.Counts reply)
    (hok : rf.sendAppendEntriesReply server args reply appendNums = .ok (rf', count)) :
    rf'.CommitsAll ↔
      ((∃ N, rf.Completes server args N) →
        (1 + n / 2 : ℕ) ≤ appendNums + 1 ∧ rf.EndsInTerm args) := by
  rw [sendAppendEntriesReply_counts hstate hc hok]
  have hrecord := recordMatch_commitsAll hwf h hne args
  by_cases htake : (1 + n / 2 : ℕ) ≤ appendNums + 1 ∧ rf.EndsInTerm args
  · -- the commit index rises to the end of the request
    refine iff_of_true (fun N hN => ?_) fun _ => htake
    rw [if_pos htake.1, commitRound_pos (show (rf.recordMatch _ _).EndsInTerm args from htake.2)]
      at hN ⊢
    show N ≤ max rf.commitIndex (args.prevLogIndex + args.entries.length)
    by_contra hgt
    have hN : (rf.recordMatch server (args.prevLogIndex + args.entries.length)).Committable N := hN
    -- above the request nobody new holds anything, so it was committable before
    obtain ⟨hbelow, hterm, hhold⟩ := (recordMatch_committable hne _ N).mp hN
    rw [if_neg (by omega)] at hhold
    have := h N ⟨hbelow, hterm, hhold⟩
    omega
  · -- the commit index stays
    have hstays : (if (1 + n / 2 : ℕ) ≤ appendNums + 1 then
        (rf.recordMatch server (args.prevLogIndex + args.entries.length)).commitRound args
        else rf.recordMatch server (args.prevLogIndex + args.entries.length)) =
          rf.recordMatch server (args.prevLogIndex + args.entries.length) := by
      by_cases hnum : (1 + n / 2 : ℕ) ≤ appendNums + 1
      · rw [if_pos hnum]
        exact commitRound_neg fun hend => htake ⟨hnum, hend⟩
      · rw [if_neg hnum]
    rw [hstays, hrecord]
    constructor
    · rintro hnone ⟨N, hN⟩
      exact absurd hN (hnone N)
    · exact fun himp N hN => htake (himp ⟨N, hN⟩)

end reply

/-! ### The other handlers -/

/-- If `rf` leaves nothing to commit while it leads, so does `rf'`. -/
def KeepsUp (rf rf' : Raft n) : Prop :=
  (rf.status = .leader → rf.CommitsAll) → rf'.status = .leader → rf'.CommitsAll

/-- A handler that leaves the match indices alone and adds no entry. -/
theorem KeepsUp.of_match {rf rf' : Raft n} (hleads : rf.StillLeads rf') (hme : rf'.me = rf.me)
    (hmatch : rf'.matchIndex = rf.matchIndex)
    (hsnap : rf.lastSnapshotIncludeIndex ≤ rf'.lastSnapshotIncludeIndex)
    (hentry : ∀ N, rf'.lastSnapshotIncludeIndex < N → rf'.entryAt N = rf.entryAt N)
    (hcommit : rf.commitIndex ≤ rf'.commitIndex) : rf.KeepsUp rf' := by
  intro h hlead N ⟨hbelow, hterm, hhold⟩
  obtain ⟨hold, hcur⟩ := hleads hlead
  rw [hentry N hbelow, hcur] at hterm
  have hsame : rf'.holders N = rf.holders N := by
    unfold holders
    rw [hme, hmatch]
  exact (h hold N ⟨by omega, hterm, hsame ▸ hhold⟩).trans hcommit

/-- Of a node that does not lead nothing is asked. -/
theorem KeepsUp.of_not_leader {rf rf' : Raft n} (h : rf'.status ≠ .leader) : rf.KeepsUp rf' :=
  fun _ hlead => absurd hlead h

/-- Nothing has changed. -/
theorem KeepsUp.refl (rf : Raft n) : rf.KeepsUp rf :=
  .of_match (.refl rf) rfl rfl le_rfl (fun _ _ => rfl) le_rfl

/-- Alone a node is no majority of two or more. -/
theorem holders_eq_one {rf : Raft n} {N : Int} (h : ∀ j, j ≠ rf.me → rf.matchIndex j < N) :
    rf.holders N = 1 := by
  rw [holders_eq_card, Finset.card_eq_one]
  refine ⟨rf.me, ?_⟩
  ext i
  have := h i
  simp only [Finset.mem_filter, Finset.mem_univ, true_and, Finset.mem_singleton]
  constructor
  · rintro (hi | hle)
    · exact hi
    · by_contra hi
      have := h i hi
      omega
  · exact Or.inl

section handlers

variable [RaftArchive]

/-- A new leader knows no other node to hold anything. -/
theorem VoteReplyOutcome.keepsUp {rf rf' : Raft n} {reply : RequestVoteReply}
    {votedNum count : Int} (hwf : rf.IndexWF) (htwo : 2 ≤ n)
    (hout : rf.VoteReplyOutcome reply votedNum rf' count) : rf.KeepsUp rf' := by
  cases hout with
  | stepDown => exact .of_not_leader (by simp)
  | ignored | counted => exact .refl rf
  | elected =>
    intro _ _ N ⟨hbelow, _, hhold⟩
    have hnonneg := hwf.nonneg
    have hbelow : rf.lastSnapshotIncludeIndex < N := hbelow
    have hone : rf.becomeLeader.persist.holders N = 1 := by
      apply holders_eq_one
      intro j _
      show (0 : Int) < N
      omega
    omega

/-- Nobody is known to hold a new entry. -/
theorem started_keepsUp {rf : Raft n} (hwf : rf.IndexWF) (htwo : 2 ≤ n)
    (htracks : rf.status = .leader → rf.Tracks) (command : String) :
    rf.KeepsUp (rf.started command) := by
  intro h hlead N ⟨hbelow, hterm, hhold⟩
  have hlead : rf.status = .leader := hlead
  by_cases hN : N = rf.getLastLogIndex + 1
  · have hone : (rf.started command).holders N = 1 := by
      apply holders_eq_one
      intro j _
      show rf.matchIndex j < N
      have := htracks hlead j
      omega
    omega
  · rw [hwf.toLogWF.entryAt_started, if_neg hN] at hterm
    exact h hlead N ⟨hbelow, hterm, hhold⟩

/-- The answer to a snapshot makes nothing committable above what was committed when the
    snapshot was sent. -/
theorem SnapshotReplyOutcome.keepsUp {rf rf' : Raft n} {server : Fin n}
    {args : InstallSnapshotRequest} {reply : InstallSnapshotResponse}
    (hidx : args.lastSnapShotIncludeIndex ≤ rf.commitIndex)
    (hout : rf.SnapshotReplyOutcome server args reply rf') : rf.KeepsUp rf' := by
  cases hout with
  | ignored => exact .refl rf
  | stepDown => exact .of_not_leader (by simp)
  | recorded hstatus =>
    intro h _ N ⟨hbelow, hterm, hhold⟩
    show N ≤ rf.commitIndex
    by_contra hgt
    refine hgt (h hstatus N ⟨hbelow, hterm, hhold.trans ?_⟩)
    -- above the snapshot index the slot of the server counts no more than before
    apply List.countP_mono_left
    intro i _ hi
    simp only [decide_eq_true_eq] at hi ⊢
    rcases hi with hi | hi
    · exact Or.inl hi
    · by_cases hs : i = server
      · subst hs
        rw [Function.update_self] at hi
        omega
      · rw [Function.update_of_ne hs] at hi
        exact Or.inr hi

/-- A reply that is not a success of the current term. -/
theorem sendAppendEntriesReply_keepsUp {rf rf' : Raft n} (hwf : rf.IndexWF) {server : Fin n}
    {args : AppendEntriesArgs} {reply : AppendEntriesReply} {appendNums count : Int}
    (hnot : reply.appState ≠ disconnected → ¬ rf.Counts reply)
    (hok : rf.sendAppendEntriesReply server args reply appendNums = .ok (rf', count)) :
    rf.KeepsUp rf' := by
  by_cases hstate : reply.appState = disconnected
  · unfold sendAppendEntriesReply at hok
    rw [if_pos hstate] at hok
    cases hok
    exact .refl rf
  · have hnot := hnot hstate
    obtain ⟨rf₁, count₁, hok₁, hout⟩ := rf.sendAppendEntriesReply_outcome server args reply
      appendNums hwf.last (fun h => absurd h hnot) fun h => absurd h hnot
    rw [hok] at hok₁
    cases hok₁
    cases hout with
    | stepDown => exact .of_not_leader (by simp)
    | ignored => exact .refl rf
    | backOff => exact .of_match (.refl rf) rfl rfl le_rfl (fun _ _ => rfl) le_rfl
    | counted hterm hstatus hsucc | majority hterm hstatus hsucc =>
      exact absurd ⟨hterm.symm, hstatus, hsucc⟩ hnot

/-- The handlers of messages from other leaders and candidates, and of the service. -/
theorem RequestVoteOutcome.keepsUp {rf rf' : Raft n} {args : RequestVoteArgs}
    {reply : RequestVoteReply} (hout : rf.RequestVoteOutcome args rf' reply) : rf.KeepsUp rf' := by
  refine .of_match hout.leads (Moves.requestVote hout).me ?_ ?_ ?_ ?_
  all_goals cases hout <;> simp [entryAt]

/-- Who answers a request for entries does not lead, or is as before. -/
theorem AppendEntriesOutcome.keepsUp {rf rf' : Raft n} {args : AppendEntriesArgs}
    {reply : AppendEntriesReply} (hout : rf.AppendEntriesOutcome args rf' reply) :
    rf.KeepsUp rf' := by
  cases hout with
  | stale => exact .refl rf
  | tooShort | mismatch | accepted => exact .of_not_leader (by simp)

/-- Who answers a snapshot does not lead, or is as before. -/
theorem InstallSnapshotOutcome.keepsUp {rf rf' : Raft n} {args : InstallSnapshotRequest}
    {reply : InstallSnapshotResponse} {msg : Option ApplyMsg}
    (hout : rf.InstallSnapshotOutcome args rf' reply msg) : rf.KeepsUp rf' := by
  cases hout with
  | stale => exact .refl rf
  | old => exact .of_not_leader (by simp)
  | installed => exact .of_not_leader fun h => by cases h

/-- The server's snapshot takes entries away that are committed. -/
theorem SnapshotOutcome.keepsUp {rf rf' : Raft n} {index : Int} {data : String}
    (hout : rf.SnapshotOutcome index data rf') : rf.KeepsUp rf' := by
  cases hout with
  | ignored => exact .refl rf
  | compacted hidx =>
    refine .of_match (.refl rf) rfl rfl hidx.le (fun N hN => ?_) (by simp)
    rw [saveSnapshot_entryAt, entryAt_cutAt hidx.le, if_pos (by simpa using hN)]

end handlers

end Raft

end RaftStore
