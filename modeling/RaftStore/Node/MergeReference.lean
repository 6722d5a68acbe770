import RaftStore.Model.Archive
import RaftStore.Node.Mirror

namespace RaftStore

/-!
# The merge loop against the merge Raft prescribes

* `mergeSuffix`, `referenceMerge` — the reference: keep what agrees in term, and from the first
  missing or conflicting entry on take exactly the received ones.
* `mergeSuffix_of_present`, `mergeSuffix_of_first` — the two cases in which it is usually
  stated.
* `overlay_eq_referenceMerge_iff` — what the loop of `AppendEntries1` leaves is the reference
  exactly if a request with a conflict reaches the end of the log.
* `Raft.appendEntries1_merges_iff` — the same of the handler.
-/

/-- The received entries `es` merged into the local entries that start at the same index. -/
def mergeSuffix : List LogEntry → List LogEntry → List LogEntry
  | l, [] => l
  | [], es => es
  | x :: l, e :: es => if x.logTerm = e.logTerm then x :: mergeSuffix l es else e :: es

/-- The log after merging `es`, received for the positions from `off` on. -/
def referenceMerge (off : ℕ) (es l : List LogEntry) : List LogEntry :=
  l.take off ++ mergeSuffix (l.drop off) es

/-! ### The reference in two cases -/

/-- The local entry at the position of each of the first `k` received ones has its term. -/
def Agree (k : ℕ) (es l : List LogEntry) : Prop :=
  ∀ m < k, ∃ x e, l[m]? = some x ∧ es[m]? = some e ∧ x.logTerm = e.logTerm

/-- Agreement with a head is agreement of the heads and of the rest. -/
theorem agree_cons {k : ℕ} {x e : LogEntry} {l es : List LogEntry} :
    Agree (k + 1) (e :: es) (x :: l) ↔ x.logTerm = e.logTerm ∧ Agree k es l := by
  constructor
  · intro h
    refine ⟨?_, fun m hm => ?_⟩
    · obtain ⟨x', e', hx, he, hterm⟩ := h 0 (Nat.succ_pos k)
      cases hx
      cases he
      exact hterm
    · obtain ⟨x', e', hx, he, hterm⟩ := h (m + 1) (by omega)
      exact ⟨x', e', hx, he, hterm⟩
  · rintro ⟨hterm, h⟩ m hm
    cases m with
    | zero => exact ⟨x, e, rfl, rfl, hterm⟩
    | succ m =>
      obtain ⟨x', e', hx, he, hterm'⟩ := h m (by omega)
      exact ⟨x', e', hx, he, hterm'⟩

/-- If every received entry is there, nothing changes. -/
theorem mergeSuffix_of_present {es l : List LogEntry} (h : Agree es.length es l) :
    mergeSuffix l es = l := by
  induction es generalizing l with
  | nil => simp [mergeSuffix]
  | cons e es ih =>
    cases l with
    | nil =>
      obtain ⟨x, _, hx, _⟩ := h 0 (Nat.succ_pos _)
      cases hx
    | cons x l =>
      obtain ⟨hterm, hrest⟩ := agree_cons.mp h
      rw [mergeSuffix, if_pos hterm, ih hrest]

/-- If entry `k` is the first that is missing or conflicts, the local log is kept up to there
    and exactly the remaining received entries follow. -/
theorem mergeSuffix_of_first {es l : List LogEntry} {k : ℕ} (h : Agree k es l) {e : LogEntry}
    (he : es[k]? = some e) (hfirst : ∀ x, l[k]? = some x → x.logTerm ≠ e.logTerm) :
    mergeSuffix l es = l.take k ++ es.drop k := by
  induction k generalizing es l with
  | zero =>
    cases es with
    | nil => cases he
    | cons e' es =>
      cases he
      cases l with
      | nil => simp [mergeSuffix]
      | cons x l =>
        rw [mergeSuffix, if_neg (hfirst x rfl), List.take_zero, List.drop_zero, List.nil_append]
  | succ k ih =>
    obtain ⟨x', e', hx, he', _⟩ := h 0 (Nat.succ_pos k)
    cases es with
    | nil => cases he'
    | cons e' es =>
      cases l with
      | nil => cases hx
      | cons x l =>
        obtain ⟨hterm, hrest⟩ := agree_cons.mp h
        rw [mergeSuffix, if_pos hterm, ih hrest he hfirst, List.take_succ_cons, List.drop_succ_cons,
          List.cons_append]

/-! ### The loop and the reference -/

/-- Some received entry conflicts with the local entry at its position. -/
def Conflicting (es l : List LogEntry) : Prop :=
  ∃ (m : ℕ) (x e : LogEntry), l[m]? = some x ∧ es[m]? = some e ∧ x.logTerm ≠ e.logTerm

/-- A conflict is at the first entry or behind it. -/
theorem conflicting_cons {x e : LogEntry} {l es : List LogEntry} :
    Conflicting (e :: es) (x :: l) ↔ x.logTerm ≠ e.logTerm ∨ Conflicting es l := by
  constructor
  · rintro ⟨m, x', e', hx, he, hne⟩
    cases m with
    | zero =>
      cases hx
      cases he
      exact Or.inl hne
    | succ m => exact Or.inr ⟨m, x', e', hx, he, hne⟩
  · rintro (hne | ⟨m, x', e', hx, he, hne⟩)
    · exact ⟨0, x, e, rfl, rfl, hne⟩
    · exact ⟨m + 1, x', e', hx, he, hne⟩

/-- Received entries that agree in term with the local ones at their positions are the same. -/
def SameWhereTermsAgree (es l : List LogEntry) : Prop :=
  ∀ (m : ℕ) (x e : LogEntry), l[m]? = some x → es[m]? = some e → x.logTerm = e.logTerm → x = e

/-- The received entries and the rest of the local log behind them, against the reference. -/
theorem append_drop_eq_mergeSuffix_iff {es l : List LogEntry} (hsame : SameWhereTermsAgree es l) :
    es ++ l.drop es.length = mergeSuffix l es ↔ (Conflicting es l → l.length ≤ es.length) := by
  induction es generalizing l with
  | nil =>
    have hno : ¬ Conflicting [] l := fun ⟨_, _, _, _, he, _⟩ => by cases he
    simp [mergeSuffix, hno]
  | cons e es ih =>
    cases l with
    | nil => simp [mergeSuffix]
    | cons x l =>
      have hrest : SameWhereTermsAgree es l := fun m x' e' hx he => hsame (m + 1) x' e' hx he
      rw [conflicting_cons, List.length_cons, List.drop_succ_cons, List.cons_append, mergeSuffix]
      by_cases hterm : x.logTerm = e.logTerm
      · -- the entry is there already
        obtain rfl := hsame 0 x e rfl rfl hterm
        rw [if_pos rfl, List.cons.injEq, ih hrest]
        simp
      · -- a conflict: the reference ends here, the loop keeps what lies behind
        rw [if_neg hterm, List.cons.injEq]
        simp [hterm, List.drop_eq_nil_iff]

/-- **The overlay against the reference.** -/
theorem overlay_eq_referenceMerge_iff {off : ℕ} {es l : List LogEntry}
    (hsame : SameWhereTermsAgree es (l.drop off)) :
    overlay off es l = referenceMerge off es l ↔
      (Conflicting es (l.drop off) → l.length ≤ off + es.length) := by
  rw [overlay, referenceMerge, List.append_assoc, List.append_right_inj, ← List.drop_drop,
    append_drop_eq_mergeSuffix_iff hsame, List.length_drop]
  refine imp_congr_right fun _ => ?_
  omega

/-! ### The handler -/

namespace Raft

variable {n : ℕ}

/-- The received entry at position `m` has the index of the local entry at its position. -/
theorem LogWF.getElem?_drop_eq_entryAt {rf : Raft n} (h : rf.LogWF) {prev : Int}
    (hsnap : rf.lastSnapshotIncludeIndex ≤ prev) {es : List LogEntry} (hes : Contiguous prev es)
    {m : ℕ} {e : LogEntry} (he : es[m]? = some e) :
    (rf.logs.drop (prev - rf.lastSnapshotIncludeIndex).toNat)[m]? = rf.entryAt e.logIndex := by
  have hidx := hes m e he
  have hnonneg := h.nonneg
  rw [List.getElem?_drop, getElem?_eq_entryAt]
  congr 1
  omega

/-- A conflict is one of an entry with the log. -/
theorem LogWF.conflicting_iff {rf : Raft n} (h : rf.LogWF) {prev : Int}
    (hsnap : rf.lastSnapshotIncludeIndex ≤ prev) {es : List LogEntry} (hes : Contiguous prev es) :
    Conflicting es (rf.logs.drop (prev - rf.lastSnapshotIncludeIndex).toNat) ↔
      ∃ e ∈ es, rf.Conflicts e := by
  constructor
  · rintro ⟨m, x, e, hx, he, hne⟩
    rw [h.getElem?_drop_eq_entryAt hsnap hes he] at hx
    exact ⟨e, List.mem_of_getElem? he, x, hx, hne⟩
  · rintro ⟨e, hmem, x, hx, hne⟩
    obtain ⟨m, he⟩ := List.getElem?_of_mem hmem
    rw [← h.getElem?_drop_eq_entryAt hsnap hes he] at hx
    exact ⟨m, x, e, hx, he, hne⟩

/-- Entries that do not clash are the same where the terms agree. -/
theorem LogWF.sameWhereTermsAgree {rf : Raft n} (h : rf.LogWF) {prev : Int}
    (hsnap : rf.lastSnapshotIncludeIndex ≤ prev) {es : List LogEntry} (hes : Contiguous prev es)
    (hclash : ∀ e ∈ es, rf.NoClash e) :
    SameWhereTermsAgree es (rf.logs.drop (prev - rf.lastSnapshotIncludeIndex).toNat) := by
  intro m x e hx he hterm
  rw [h.getElem?_drop_eq_entryAt hsnap hes he] at hx
  have hcommand := hclash e (List.mem_of_getElem? he) x hx hterm
  have hindex := h.logIndex_entryAt hx
  cases x
  cases e
  simp_all

variable [RaftArchive]

/-- **The merge of `AppendEntries1`.**  On a request of its own term that matches at its
    `prevLogIndex` and whose consecutive entries clash with no local one, the handler returns
    success, and the log it leaves is the reference merge if and only if the request reaches the
    end of the log or conflicts with nothing in it. -/
theorem appendEntries1_merges_iff {rf : Raft n} (h : rf.LogWF) {args : AppendEntriesArgs}
    (hterm : args.term = rf.currentTerm)
    (hmatch : rf.matchLog args.prevLogIndex args.prevLogTerm = .ok true)
    (hes : Contiguous args.prevLogIndex args.entries) (hclash : ∀ e ∈ args.entries, rf.NoClash e) :
    (rf.commitIndex ≤ rf.getLastLogIndex → ∃ rf' reply, rf.appendEntries1 args = .ok (rf', reply)) ∧
    ∀ rf' reply, rf.appendEntries1 args = .ok (rf', reply) → reply.success = true ∧
      (rf'.logs = referenceMerge (args.prevLogIndex - rf.lastSnapshotIncludeIndex).toNat
          args.entries rf.logs ↔
        ((∃ e ∈ args.entries, rf.Conflicts e) →
          rf.getLastLogIndex ≤ args.prevLogIndex + args.entries.length)) := by
  obtain ⟨t, ht, heq⟩ := h.matchLog_eq_ok.mp hmatch
  obtain rfl := of_decide_eq_true heq
  obtain ⟨hsnap, hlast⟩ := h.termAt_isSome.mp (by rw [ht]; rfl)
  have hle : rf.currentTerm ≤ args.term := hterm.ge
  obtain ⟨rf₁, hrf₁⟩ : ∃ rf₁, rf₁ = ({ rf.follow args.term with
      logs := (rf.follow args.term).mergedLogs args.prevLogIndex args.entries } : Raft n) :=
    ⟨_, rfl⟩
  obtain ⟨hlen, hgo⟩ := appendEntriesInTerm_matched (h.follow args.term) hes (by simpa using hsnap)
    (by simpa using hlast) (by simpa using ht)
    (fun e he => (follow_noClash rf _ e).mpr (hclash e he)) hrf₁
  rw [follow_getLastLogIndex] at hlen
  have hhandler : rf.appendEntries1 args = do
      myAssert ((rf₁.followCommit args.leaderCommit).commitIndex ≤ rf₁.getLastLogIndex)
      return ((rf₁.followCommit args.leaderCommit).persist,
        { appState := appNormal
          term := (rf₁.followCommit args.leaderCommit).currentTerm
          success := true }) := by
    unfold appendEntries1
    rw [if_neg (not_lt.mpr hle), myAssert, if_pos (observe_currentTerm hle).symm, Exec.ok_bind, hgo]
  refine ⟨fun hcommit => ?_, fun rf' reply hok => ?_⟩
  · -- the commit index is bounded by the end of the log before and after
    have hbound : (rf₁.followCommit args.leaderCommit).commitIndex ≤ rf₁.getLastLogIndex := by
      have hc : rf₁.commitIndex = rf.commitIndex := by rw [hrf₁, follow_commitIndex]
      unfold followCommit
      split
      · exact min_le_right _ _
      · omega
    rw [hhandler, myAssert, if_pos hbound]
    exact ⟨_, _, rfl⟩
  · rw [hhandler] at hok
    obtain ⟨_, _, hok⟩ := Exec.bind_eq_ok.mp hok
    obtain ⟨rfl, rfl⟩ := Prod.mk.inj (Exec.pure_eq_ok.mp hok)
    refine ⟨rfl, ?_⟩
    -- the loop is an overlay, which keeps what lies behind the entries
    have hlogs : (rf₁.followCommit args.leaderCommit).persist.logs =
        overlay (args.prevLogIndex - rf.lastSnapshotIncludeIndex).toNat args.entries rf.logs := by
      have hm : (rf₁.followCommit args.leaderCommit).logs = rf₁.logs := by
        unfold followCommit
        split <;> rfl
      rw [persist_logs, hm, hrf₁]
      exact follow_mergedLogs rf args.term args.prevLogIndex args.entries
    have hend := h.getLastLogIndex
    rw [hlogs, overlay_eq_referenceMerge_iff (h.sameWhereTermsAgree hsnap hes hclash),
      h.conflicting_iff hsnap hes]
    refine imp_congr_right fun _ => ?_
    omega

end Raft

/-! ### A conflict before the end of the log -/

/-- A follower in term 2 with two entries of term 1. -/
def overtaken {n : ℕ} (me : Fin n) : Raft n :=
  { Raft.fresh me {} with
    currentTerm := 2
    logs := [⟨"f", 1, 1⟩, ⟨"g", 1, 2⟩] }

/-- The request of the leader of term 2 with the given entries from index 1 on. -/
def replacing (entries : List LogEntry) : AppendEntriesArgs :=
  { term := 2, leaderId := 2, prevLogIndex := 0, prevLogTerm := 0, entries, leaderCommit := 0 }

/-- The log of the example is well formed. -/
theorem overtaken_logWF {n : ℕ} (me : Fin n) : (overtaken me).LogWF where
  nonneg := le_rfl
  contiguous := contiguous_cons.mpr ⟨rfl, contiguous_cons.mpr ⟨rfl, contiguous_nil _⟩⟩

/-- Two received entries replace both. -/
theorem appendEntries1_merges_iff_overtaken :
    letI := textRaftArchive
    ∃ (rf' : Raft 3) (reply : AppendEntriesReply),
      (overtaken 0).appendEntries1 (replacing [⟨"x", 2, 1⟩, ⟨"y", 2, 2⟩]) = .ok (rf', reply) ∧
      rf'.logs = referenceMerge 0 [⟨"x", 2, 1⟩, ⟨"y", 2, 2⟩] (overtaken (0 : Fin 3)).logs := by
  let := textRaftArchive
  have hterm : (replacing [⟨"x", 2, 1⟩, ⟨"y", 2, 2⟩]).term = (overtaken (0 : Fin 3)).currentTerm :=
    rfl
  obtain ⟨hreturns, hmerges⟩ := Raft.appendEntries1_merges_iff (overtaken_logWF (0 : Fin 3))
    hterm (by decide)
    (contiguous_cons.mpr ⟨rfl, contiguous_cons.mpr ⟨rfl, contiguous_nil _⟩⟩)
    (by simp [replacing, Raft.NoClash, Raft.entryAt, overtaken, Raft.fresh])
  obtain ⟨rf', reply, hok⟩ := hreturns (by decide)
  exact ⟨rf', reply, hok, (hmerges rf' reply hok).2.mpr fun _ => by decide⟩

/-- One received entry replaces the first and leaves the second behind it. -/
theorem merge_keeps_tail :
    letI := textRaftArchive
    ∃ (rf' : Raft 3) (reply : AppendEntriesReply),
      (overtaken (0 : Fin 3)).LogWF ∧ (overtaken (0 : Fin 3)).matchLog 0 0 = .ok true ∧
      Contiguous 0 [⟨"x", 2, 1⟩] ∧ (overtaken (0 : Fin 3)).NoClash ⟨"x", 2, 1⟩ ∧
      (overtaken 0).appendEntries1 (replacing [⟨"x", 2, 1⟩]) = .ok (rf', reply) ∧
      rf'.logs = [⟨"x", 2, 1⟩, ⟨"g", 1, 2⟩] ∧
      referenceMerge 0 [⟨"x", 2, 1⟩] (overtaken (0 : Fin 3)).logs = [⟨"x", 2, 1⟩] := by
  let := textRaftArchive
  refine ⟨_, _, overtaken_logWF 0, by decide, contiguous_cons.mpr ⟨rfl, contiguous_nil _⟩, ?_, rfl,
    by decide, by decide⟩
  simp [Raft.NoClash, Raft.entryAt, overtaken, Raft.fresh]

end RaftStore
