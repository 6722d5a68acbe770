import Mathlib.Tactic.Common
import RaftStore.Node.Positions

namespace RaftStore

/-!
# The loops of `AppendEntries1`

The merge loop writes the received entries one at a time: an entry beyond the end is appended,
an entry whose index is taken is written over the one that holds it.  Nothing is truncated, so
the loop as a whole is `overlay`: the received entries replace the positions they name and
everything after them stays.  The back-off loop only needs its range.

* `mergeEntries_eq_ok` — the merge loop succeeds exactly when no received entry meets an entry
  with its index and term but another command, and its result is then the overlay.
* `backOff_bounds` — the back-off loop succeeds and returns an index in range.
-/

/-- `es` written over `l` from position `off` on. -/
def overlay (off : ℕ) (es l : List LogEntry) : List LogEntry :=
  l.take off ++ es ++ l.drop (off + es.length)

/-- Nothing is laid over. -/
theorem overlay_nil (off : ℕ) (l : List LogEntry) : overlay off [] l = l := by
  simp [overlay]

/-- The merged log is as long as the longer of the two. -/
theorem length_overlay {off : ℕ} {es l : List LogEntry} (h : off ≤ l.length) :
    (overlay off es l).length = max l.length (off + es.length) := by
  simp only [overlay, List.length_append, List.length_take, List.length_drop]
  omega

/-- Position by position: the received entries where there are any, the old ones elsewhere. -/
theorem getElem?_overlay {off : ℕ} {es l : List LogEntry} (h : off ≤ l.length) (k : ℕ) :
    (overlay off es l)[k]? =
      if off ≤ k ∧ k < off + es.length then es[k - off]? else l[k]? := by
  unfold overlay
  rcases Nat.lt_or_ge k off with hlt | hge
  · rw [if_neg (by omega), List.append_assoc, List.getElem?_append_left (by simp; omega),
      List.getElem?_take_of_lt hlt]
  · rcases Nat.lt_or_ge k (off + es.length) with hlt' | hge'
    · rw [if_pos ⟨hge, hlt'⟩, List.append_assoc, List.getElem?_append_right (by simp; omega),
        List.getElem?_append_left (by simp; omega)]
      simp [Nat.min_eq_left h]
    · rw [if_neg (by omega), List.getElem?_append_right (by simp; omega), List.getElem?_drop]
      congr 1
      simp only [List.length_append, List.length_take]
      omega

/-- Writing a head and then the tail after it is writing the whole list. -/
theorem overlay_cons {off : ℕ} {e : LogEntry} {es l : List LogEntry} (h : off ≤ l.length) :
    overlay (off + 1) es (overlay off [e] l) = overlay off (e :: es) l := by
  have h' : off + 1 ≤ (overlay off [e] l).length := by
    rw [length_overlay h]
    simp
  refine List.ext_getElem? fun k => ?_
  rw [getElem?_overlay h', getElem?_overlay h, getElem?_overlay h]
  simp only [List.length_cons, List.length_nil]
  rcases Nat.lt_trichotomy k off with hlt | rfl | hgt
  · rw [if_neg (by omega), if_neg (by omega), if_neg (by omega)]
  · rw [if_neg (by omega), if_pos (by omega), if_pos (by omega)]
    simp
  · rw [if_neg (c := off ≤ k ∧ k < off + (0 + 1)) (by omega)]
    by_cases hk : k < off + 1 + es.length
    · rw [if_pos (by omega), if_pos (by omega), show k - off = (k - (off + 1)) + 1 by omega,
        List.getElem?_cons_succ]
    · rw [if_neg (by omega), if_neg (by omega)]

/-- Writing back the entry that is already there changes nothing. -/
theorem set_eq_self_of_getElem? {l : List LogEntry} {k : ℕ} {e : LogEntry}
    (h : l[k]? = some e) : l.set k e = l := by
  obtain ⟨hk, rfl⟩ := List.getElem?_eq_some_iff.mp h
  exact List.set_getElem_self hk

/-- Overlaying consecutive entries onto a contiguous log keeps it contiguous. -/
theorem Contiguous.overlay {snap : Int} {l es : List LogEntry} (hl : Contiguous snap l)
    {off : ℕ} (hoff : off ≤ l.length) (hes : Contiguous (snap + off) es) :
    Contiguous snap (overlay off es l) := by
  intro k e hk
  rw [getElem?_overlay hoff] at hk
  split at hk
  · have := hes _ e hk
    omega
  · exact hl k e hk

namespace Raft

variable {n : ℕ}

/-- The received entry `e` does not meet an entry with its index and term but another
    command. -/
def NoClash (rf : Raft n) (e : LogEntry) : Prop :=
  ∀ cur, rf.entryAt e.logIndex = some cur → cur.logTerm = e.logTerm → cur.command = e.command

/-- The log after the merge loop on entries that follow index `prev`. -/
def mergedLogs (rf : Raft n) (prev : Int) (es : List LogEntry) : List LogEntry :=
  overlay (prev - rf.lastSnapshotIncludeIndex).toNat es rf.logs

/-- Without entries nothing is merged. -/
theorem mergedLogs_nil (rf : Raft n) (prev : Int) : rf.mergedLogs prev [] = rf.logs :=
  overlay_nil _ _

/-- A log that is merged with contiguous entries is contiguous. -/
theorem LogWF.merged {rf : Raft n} (h : rf.LogWF) {prev : Int} {es : List LogEntry}
    (h₁ : rf.lastSnapshotIncludeIndex ≤ prev) (h₂ : prev ≤ rf.getLastLogIndex)
    (hes : Contiguous prev es) :
    Contiguous rf.lastSnapshotIncludeIndex (rf.mergedLogs prev es) := by
  have hlast := h.getLastLogIndex
  refine h.contiguous.overlay (by omega) ?_
  rwa [show rf.lastSnapshotIncludeIndex + ((prev - rf.lastSnapshotIncludeIndex).toNat : Int) = prev
    by omega]

/-- Any contiguous log is well formed. -/
theorem LogWF.with_logs {rf : Raft n} (h : rf.LogWF) {l : List LogEntry}
    (hl : Contiguous rf.lastSnapshotIncludeIndex l) : ({ rf with logs := l } : Raft n).LogWF :=
  ⟨h.nonneg, hl⟩

/-- The last index of the merged log. -/
theorem LogWF.length_merged {rf : Raft n} (h : rf.LogWF) {prev : Int} {es : List LogEntry}
    (h₁ : rf.lastSnapshotIncludeIndex ≤ prev) (h₂ : prev ≤ rf.getLastLogIndex) :
    rf.lastSnapshotIncludeIndex + (rf.mergedLogs prev es).length
      = max rf.getLastLogIndex (prev + es.length) := by
  have hlast := h.getLastLogIndex
  rw [mergedLogs, length_overlay (by omega)]
  omega

/-- What the merged log holds at an index. -/
theorem LogWF.entryAt_merged {rf : Raft n} (h : rf.LogWF) {prev : Int} {es : List LogEntry}
    (h₁ : rf.lastSnapshotIncludeIndex ≤ prev) (h₂ : prev ≤ rf.getLastLogIndex) (i : Int) :
    ({ rf with logs := rf.mergedLogs prev es } : Raft n).entryAt i =
      if prev < i ∧ i ≤ prev + es.length then es[(i - prev - 1).toNat]? else rf.entryAt i := by
  have hlast := h.getLastLogIndex
  unfold entryAt
  dsimp only
  by_cases hi : rf.lastSnapshotIncludeIndex < i
  · rw [if_pos hi, if_pos hi, mergedLogs, getElem?_overlay (by omega)]
    by_cases hin : prev < i ∧ i ≤ prev + es.length
    · rw [if_pos (by omega), if_pos hin]
      congr 1
      omega
    · rw [if_neg (by omega), if_neg hin]
  · rw [if_neg hi, if_neg (by omega), if_neg hi]

/-- One round of the merge loop, on the entry that follows `prev`. -/
theorem LogWF.mergeEntry_eq_ok {rf rf' : Raft n} (h : rf.LogWF) {prev : Int} {e : LogEntry}
    (he : e.logIndex = prev + 1) (h₁ : rf.lastSnapshotIncludeIndex ≤ prev)
    (h₂ : prev ≤ rf.getLastLogIndex) :
    rf.mergeEntry e = .ok rf' ↔
      rf.NoClash e ∧ rf' = { rf with logs := rf.mergedLogs prev [e] } := by
  have hlast := h.getLastLogIndex
  unfold mergeEntry
  split
  · -- the entry lies beyond the end and is appended
    rename_i hlt
    have hoff : (prev - rf.lastSnapshotIncludeIndex).toNat = rf.logs.length := by omega
    have hlogs : rf.mergedLogs prev [e] = rf.logs ++ [e] := by
      rw [mergedLogs, hoff, overlay, List.take_length, List.drop_eq_nil_of_le (by simp),
        List.append_nil]
    have hclash : rf.NoClash e := by
      intro cur hcur
      have := h.entryAt_bounds hcur
      omega
    rw [Exec.pure_eq_ok, hlogs]
    exact ⟨fun hr => ⟨hclash, hr.symm⟩, fun hr => hr.2.symm⟩
  · -- the index is taken: by equality of terms the entry stays, otherwise it is replaced
    rename_i hlt
    obtain ⟨cur, hcur⟩ := h.exists_entryAt (i := e.logIndex) (by omega) (by omega)
    have hk : rf.logs[(prev - rf.lastSnapshotIncludeIndex).toNat]? = some cur := by
      rw [entryAt, if_pos (by omega)] at hcur
      rw [← hcur]
      congr 1
      omega
    have hlogs : rf.mergedLogs prev [e] =
        rf.logs.set (prev - rf.lastSnapshotIncludeIndex).toNat e := by
      rw [mergedLogs, overlay, List.set_eq_take_append_cons_drop, if_pos (by omega)]
      simp
    -- one index, one term and one command make the same entry
    have hsame : rf.NoClash e → cur.logTerm = e.logTerm → cur = e := by
      intro hclash ht
      have := hclash cur hcur ht
      have := h.logIndex_entryAt hcur
      cases cur
      cases e
      simp_all
    have hclash_iff : rf.NoClash e ↔ ¬ (cur.logTerm = e.logTerm ∧ cur.command ≠ e.command) := by
      constructor
      · rintro hc ⟨ht, hne⟩
        exact hne (hc cur hcur ht)
      · intro hc cur' hcur' ht
        obtain rfl : cur = cur' := Option.some.inj (hcur.symm.trans hcur')
        by_contra hne
        exact hc ⟨ht, hne⟩
    simp only [Exec.bind_eq_ok, getSlicesIndexFromLogIndex_eq_ok, h.logAt_eq_ok, myAssert_eq_ok,
      exists_const]
    constructor
    · rintro ⟨k, ⟨_, rfl⟩, cur', hcur', hnc, hr⟩
      obtain rfl : cur = cur' := Option.some.inj (hcur.symm.trans hcur')
      refine ⟨hclash_iff.mpr hnc, ?_⟩
      split at hr
      · rw [Exec.pure_eq_ok] at hr
        rw [← hr, hlogs]
        congr 2
        omega
      · rename_i ht
        rw [Exec.pure_eq_ok] at hr
        have := hsame (hclash_iff.mpr hnc) (not_not.mp ht)
        subst this
        rw [← hr, hlogs, set_eq_self_of_getElem? hk]
    · rintro ⟨hnc, rfl⟩
      refine ⟨_, ⟨⟨by omega, by omega⟩, rfl⟩, cur, hcur, hclash_iff.mp hnc, ?_⟩
      rw [hlogs]
      split
      · rw [Exec.pure_eq_ok]
        congr 2
        omega
      · rename_i ht
        have := hsame hnc (not_not.mp ht)
        subst this
        rw [Exec.pure_eq_ok, set_eq_self_of_getElem? hk]

/-- **The merge loop is an overlay.**  On consecutive entries after an index the log reaches,
    it succeeds exactly when no entry clashes, and writes the entries over the log. -/
theorem LogWF.mergeEntries_eq_ok {rf rf' : Raft n} (h : rf.LogWF) {prev : Int}
    {es : List LogEntry} (hes : Contiguous prev es) (h₁ : rf.lastSnapshotIncludeIndex ≤ prev)
    (h₂ : prev ≤ rf.getLastLogIndex) :
    rf.mergeEntries es = .ok rf' ↔
      (∀ e ∈ es, rf.NoClash e) ∧ rf' = { rf with logs := rf.mergedLogs prev es } := by
  induction es generalizing rf prev with
  | nil =>
    rw [mergeEntries, mergedLogs_nil]
    simp [eq_comm]
  | cons e es ih =>
    obtain ⟨he, hes⟩ := contiguous_cons.mp hes
    have hlast := h.getLastLogIndex
    have hone : Contiguous prev [e] := contiguous_cons.mpr ⟨he, contiguous_nil _⟩
    have hwf' : ({ rf with logs := rf.mergedLogs prev [e] } : Raft n).LogWF :=
      h.with_logs (h.merged h₁ h₂ hone)
    have hlast' := hwf'.getLastLogIndex
    have hlen : rf.lastSnapshotIncludeIndex + (rf.mergedLogs prev [e]).length =
        max rf.getLastLogIndex (prev + 1) := h.length_merged h₁ h₂
    dsimp only at hlast'
    -- the entries still to come lie above the one just written
    have hclash : ∀ e' ∈ es, ({ rf with logs := rf.mergedLogs prev [e] } : Raft n).NoClash e' ↔
        rf.NoClash e' := by
      intro e' he'
      obtain ⟨k, hk⟩ := List.getElem?_of_mem he'
      have := hes k e' hk
      unfold NoClash
      rw [h.entryAt_merged h₁ h₂, if_neg (by simp; omega)]
    have hlogs : ({ rf with logs := rf.mergedLogs prev [e] } : Raft n).mergedLogs (prev + 1) es =
        rf.mergedLogs prev (e :: es) := by
      unfold mergedLogs
      dsimp only
      rw [show (prev + 1 - rf.lastSnapshotIncludeIndex).toNat =
        (prev - rf.lastSnapshotIncludeIndex).toNat + 1 by omega]
      exact overlay_cons (by omega)
    rw [mergeEntries, Exec.bind_eq_ok]
    simp only [h.mergeEntry_eq_ok he h₁ h₂, List.forall_mem_cons]
    constructor
    · rintro ⟨_, ⟨hc, rfl⟩, hr⟩
      obtain ⟨hcs, rfl⟩ := (ih hwf' hes (by dsimp only; omega) (by omega)).mp hr
      exact ⟨⟨hc, fun e' he' => (hclash e' he').mp (hcs e' he')⟩, by rw [hlogs]⟩
    · rintro ⟨⟨hc, hcs⟩, rfl⟩
      refine ⟨_, ⟨hc, rfl⟩, (ih hwf' hes (by dsimp only; omega) (by omega)).mpr ⟨?_, by rw [hlogs]⟩⟩
      exact fun e' he' => (hclash e' he').mpr (hcs e' he')

/-- The back-off loop started at `index ≤ prev` with one round for each index down to the
    snapshot point returns `prev` or an index between the snapshot point and `prev`. -/
theorem LogWF.backOff_bounds {rf : Raft n} (h : rf.LogWF) {prev : Int} {fuel : ℕ} {index : Int}
    (hfuel : (fuel : Int) = index - rf.lastSnapshotIncludeIndex + 1) (hle : index ≤ prev)
    (h₁ : rf.lastSnapshotIncludeIndex ≤ prev) (h₂ : prev ≤ rf.getLastLogIndex) :
    ∃ r, rf.backOff prev fuel index = .ok r ∧ r ≤ prev ∧
      (r = prev ∨ rf.lastSnapshotIncludeIndex < r) := by
  induction fuel generalizing index with
  | zero => exact ⟨prev, rfl, le_refl _, Or.inl rfl⟩
  | succ fuel ih =>
    push_cast at hfuel
    obtain ⟨t, ht⟩ := h.exists_termAt (i := index) (by omega) (by omega)
    obtain ⟨p, hp⟩ := h.exists_termAt h₁ h₂
    rw [backOff, h.getLogTermFromLogIndex_eq_ok.mpr ht, Exec.ok_bind,
      h.getLogTermFromLogIndex_eq_ok.mpr hp, Exec.ok_bind]
    split
    · rename_i hne
      have : index ≠ prev := by
        rintro rfl
        exact hne (Option.some.inj (ht.symm.trans hp))
      exact ⟨index + 1, rfl, by omega, Or.inr (by omega)⟩
    · exact ih (by omega) (by omega)

end Raft

end RaftStore
