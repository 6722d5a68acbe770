import Mathlib.Tactic.Common
import RaftStore.Model.Raft

namespace RaftStore

/-!
# Reading a node's log

A node keeps the entries above its snapshot point in a vector and addresses them by their
logical index.  This file replaces that address arithmetic by two partial functions:

* `Contiguous snap l` — position `k` of the vector holds the entry with index `snap + 1 + k`.
* `Raft.entryAt`, `Raft.termAt` — the entry, and the term, that a node holds at a logical
  index; the second also knows the snapshot point.

Under `Contiguous` the reading functions of the source succeed exactly where these are
defined (`logAt_eq_ok`, `getLogTermFromLogIndex_eq_ok`, `matchLog_eq_ok`), so no later proof
unfolds them.
-/

/-! ### Computations that may fault -/

/-- A computation goes through iff both of its halves do. -/
theorem Exec.bind_eq_ok {α β : Type} {x : Exec α} {f : α → Exec β} {b : β} :
    (x >>= f) = .ok b ↔ ∃ a, x = .ok a ∧ f a = .ok b := by
  cases x with
  | error e => simp [bind, Except.bind]
  | ok a => simp [bind, Except.bind]

/-- What is returned is the value. -/
theorem Exec.pure_eq_ok {α : Type} {a b : α} : (pure a : Exec α) = .ok b ↔ a = b := by
  simp [pure, Except.pure]

/-- Behind a half that went through comes the other half. -/
theorem Exec.ok_bind {α β : Type} {a : α} {f : α → Exec β} : ((.ok a : Exec α) >>= f) = f a :=
  rfl

/-- An assert goes through iff its condition holds. -/
theorem myAssert_eq_ok {c : Prop} [Decidable c] {u : Unit} : myAssert c = .ok u ↔ c := by
  unfold myAssert
  split <;> simp_all

/-- A `mapM` succeeds when every element does. -/
theorem Exec.mapM_ok {α β : Type} {f : α → Exec β} {g : α → β} {l : List α}
    (h : ∀ a ∈ l, f a = .ok (g a)) : l.mapM f = .ok (l.map g) := by
  induction l with
  | nil => rfl
  | cons a l ih =>
    rw [List.mapM_cons, h a (by simp), Exec.ok_bind,
      ih fun b hb => h b (by simp [hb]), Exec.ok_bind]
    rfl

/-! ### Contiguous logs -/

/-- The entries carry consecutive indices, starting just above `snap`. -/
def Contiguous (snap : Int) (l : List LogEntry) : Prop :=
  ∀ (k : ℕ) (e : LogEntry), l[k]? = some e → e.logIndex = snap + 1 + k

/-- Nothing lies above the snapshot point. -/
theorem contiguous_nil (snap : Int) : Contiguous snap [] := by
  intro k e h
  simp at h

/-- The first entry is the next one, and the rest is contiguous behind it. -/
theorem contiguous_cons {snap : Int} {e : LogEntry} {l : List LogEntry} :
    Contiguous snap (e :: l) ↔ e.logIndex = snap + 1 ∧ Contiguous (snap + 1) l := by
  constructor
  · intro h
    refine ⟨by simpa using h 0 e rfl, fun k e' hk => ?_⟩
    have := h (k + 1) e' (by simpa using hk)
    push_cast at this
    omega
  · rintro ⟨he, hl⟩ k e' hk
    cases k with
    | zero =>
      obtain rfl : e = e' := by simpa using hk
      simpa using he
    | succ k =>
      have := hl k e' (by simpa using hk)
      push_cast
      omega

/-- Appending the entry that carries the next index keeps a log contiguous. -/
theorem Contiguous.append {snap : Int} {l : List LogEntry} (h : Contiguous snap l)
    {e : LogEntry} (he : e.logIndex = snap + 1 + l.length) : Contiguous snap (l ++ [e]) := by
  intro k e' hk
  rcases Nat.lt_trichotomy k l.length with hlt | rfl | hgt
  · rw [List.getElem?_append_left hlt] at hk
    exact h k e' hk
  · obtain rfl : e = e' := by simpa using hk
    exact he
  · rw [List.getElem?_append_right hgt.le] at hk
    simp [show k - l.length ≠ 0 by omega] at hk

/-- Dropping `k` entries moves the start up by `k`. -/
theorem Contiguous.drop {snap : Int} {l : List LogEntry} (h : Contiguous snap l) (k : ℕ) :
    Contiguous (snap + k) (l.drop k) := by
  intro j e hj
  rw [List.getElem?_drop] at hj
  have := h (k + j) e hj
  push_cast at this
  omega

namespace Raft

variable {n : ℕ}

/-- The entry a node holds at a logical index. -/
def entryAt (rf : Raft n) (i : Int) : Option LogEntry :=
  if rf.lastSnapshotIncludeIndex < i then rf.logs[(i - rf.lastSnapshotIncludeIndex - 1).toNat]?
  else none

/-- The term a node knows for a logical index: that of its snapshot point, or of the entry. -/
def termAt (rf : Raft n) (i : Int) : Option Int :=
  if i = rf.lastSnapshotIncludeIndex then some rf.lastSnapshotIncludeTerm
  else (rf.entryAt i).map LogEntry.logTerm

/-- The indices of the log are consecutive above a non-negative snapshot point. -/
structure LogWF (rf : Raft n) : Prop where
  nonneg : 0 ≤ rf.lastSnapshotIncludeIndex
  contiguous : Contiguous rf.lastSnapshotIncludeIndex rf.logs

/-- The last index is the snapshot point and the number of entries above it. -/
theorem LogWF.getLastLogIndex {rf : Raft n} (h : rf.LogWF) :
    rf.getLastLogIndex = rf.lastSnapshotIncludeIndex + rf.logs.length := by
  unfold Raft.getLastLogIndex getLastLogIndexAndTerm
  cases hl : rf.logs.getLast? with
  | none =>
    rw [List.getLast?_eq_none_iff] at hl
    simp [hl]
  | some e =>
    rw [List.getLast?_eq_getElem?] at hl
    have hpos : rf.logs.length ≠ 0 := by
      intro h0
      rw [List.length_eq_zero_iff.mp h0] at hl
      simp at hl
    have := h.contiguous _ e hl
    dsimp only
    omega

/-- The snapshot point is not above the last index. -/
theorem LogWF.snapshot_le_last {rf : Raft n} (h : rf.LogWF) :
    rf.lastSnapshotIncludeIndex ≤ rf.getLastLogIndex := by
  rw [h.getLastLogIndex]
  omega

/-- The indices that have an entry are those above the snapshot point. -/
theorem LogWF.entryAt_isSome {rf : Raft n} (h : rf.LogWF) {i : Int} :
    (rf.entryAt i).isSome ↔ rf.lastSnapshotIncludeIndex < i ∧ i ≤ rf.getLastLogIndex := by
  rw [h.getLastLogIndex, entryAt]
  split
  · rw [isSome_getElem?]
    omega
  · simp only [Option.isSome_none, Bool.false_eq_true, false_iff]
    omega

/-- The same for one entry. -/
theorem LogWF.entryAt_bounds {rf : Raft n} (h : rf.LogWF) {i : Int} {e : LogEntry}
    (he : rf.entryAt i = some e) :
    rf.lastSnapshotIncludeIndex < i ∧ i ≤ rf.getLastLogIndex := by
  rw [← h.entryAt_isSome, he]
  rfl

/-- Every index above the snapshot point and in the log has an entry. -/
theorem LogWF.exists_entryAt {rf : Raft n} (h : rf.LogWF) {i : Int}
    (h₁ : rf.lastSnapshotIncludeIndex < i) (h₂ : i ≤ rf.getLastLogIndex) :
    ∃ e, rf.entryAt i = some e :=
  Option.isSome_iff_exists.mp (h.entryAt_isSome.mpr ⟨h₁, h₂⟩)

/-- An entry carries the index it lies at. -/
theorem LogWF.logIndex_entryAt {rf : Raft n} (h : rf.LogWF) {i : Int} {e : LogEntry}
    (he : rf.entryAt i = some e) : e.logIndex = i := by
  have hb := h.entryAt_bounds he
  rw [entryAt, if_pos hb.1] at he
  have := h.contiguous _ e he
  omega

/-- The entry at position `k` is the one at index `snap + 1 + k`. -/
theorem getElem?_eq_entryAt (rf : Raft n) (k : ℕ) :
    rf.logs[k]? = rf.entryAt (rf.lastSnapshotIncludeIndex + 1 + k) := by
  rw [entryAt, if_pos (by omega)]
  congr 1
  omega

/-- The entry of an index is in the log. -/
theorem entryAt_mem {rf : Raft n} {i : Int} {e : LogEntry} (he : rf.entryAt i = some e) :
    e ∈ rf.logs := by
  rw [entryAt] at he
  split at he
  · exact List.mem_of_getElem? he
  · simp at he

/-- An entry of the log lies at the index that it carries. -/
theorem LogWF.exists_entryAt_of_mem {rf : Raft n} (h : rf.LogWF) {e : LogEntry}
    (he : e ∈ rf.logs) : rf.entryAt e.logIndex = some e := by
  obtain ⟨k, hk⟩ := List.getElem?_of_mem he
  rw [h.contiguous k e hk, ← getElem?_eq_entryAt, hk]

/-! ### The reading functions -/

/-- The slot of an index, which an assert demands to be above the snapshot point and in the log. -/
theorem LogWF.getSlicesIndexFromLogIndex_eq_ok {rf : Raft n} {i : Int} {k : ℕ} :
    rf.getSlicesIndexFromLogIndex i = .ok k ↔
      (rf.lastSnapshotIncludeIndex < i ∧ i ≤ rf.getLastLogIndex) ∧
        (i - rf.lastSnapshotIncludeIndex - 1).toNat = k := by
  simp only [getSlicesIndexFromLogIndex, Exec.bind_eq_ok, myAssert_eq_ok, Exec.pure_eq_ok,
    exists_const, and_assoc]

/-- The access to `m_logs` gives the entry of the index, and goes through iff there is one. -/
theorem LogWF.logAt_eq_ok {rf : Raft n} (h : rf.LogWF) {i : Int} {e : LogEntry} :
    rf.logAt i = .ok e ↔ rf.entryAt i = some e := by
  unfold logAt
  rw [Exec.bind_eq_ok]
  constructor
  · rintro ⟨k, hk, he⟩
    obtain ⟨⟨hlt, _⟩, rfl⟩ := getSlicesIndexFromLogIndex_eq_ok.mp hk
    rw [entryAt, if_pos hlt]
    cases hl : rf.logs[(i - rf.lastSnapshotIncludeIndex - 1).toNat]? with
    | none => rw [hl] at he; cases he
    | some e' =>
      rw [hl] at he
      rw [Exec.pure_eq_ok.mp he]
  · intro he
    have hb := h.entryAt_bounds he
    refine ⟨_, getSlicesIndexFromLogIndex_eq_ok.mpr ⟨hb, rfl⟩, ?_⟩
    rw [entryAt, if_pos hb.1] at he
    rw [he]
    rfl

/-- Outside of the log the reading functions fail their asserts. -/
theorem LogWF.logAt_eq {rf : Raft n} (h : rf.LogWF) (i : Int) :
    rf.logAt i = match rf.entryAt i with
      | some e => .ok e
      | none => .error .myAssert := by
  cases he : rf.entryAt i with
  | some e => exact h.logAt_eq_ok.mpr he
  | none =>
    have hout : ¬ (rf.lastSnapshotIncludeIndex < i ∧ i ≤ rf.getLastLogIndex) := by
      rw [← h.entryAt_isSome, he]
      simp
    unfold logAt getSlicesIndexFromLogIndex myAssert
    by_cases hlt : rf.lastSnapshotIncludeIndex < i
    · rw [if_pos hlt, if_neg fun hle => hout ⟨hlt, hle⟩]
      rfl
    · rw [if_neg hlt]
      rfl

/-- The indices that have a term are those from the snapshot point on. -/
theorem LogWF.termAt_isSome {rf : Raft n} (h : rf.LogWF) {i : Int} :
    (rf.termAt i).isSome ↔ rf.lastSnapshotIncludeIndex ≤ i ∧ i ≤ rf.getLastLogIndex := by
  have hlast := h.snapshot_le_last
  unfold termAt
  split
  · simp only [Option.isSome_some, true_iff]
    omega
  · rw [Option.isSome_map, h.entryAt_isSome]
    omega

/-- Every index from the snapshot point on and in the log has a term. -/
theorem LogWF.exists_termAt {rf : Raft n} (h : rf.LogWF) {i : Int}
    (h₁ : rf.lastSnapshotIncludeIndex ≤ i) (h₂ : i ≤ rf.getLastLogIndex) :
    ∃ t, rf.termAt i = some t :=
  Option.isSome_iff_exists.mp (h.termAt_isSome.mpr ⟨h₁, h₂⟩)

/-- The function gives the term of the index, and goes through iff there is one. -/
theorem LogWF.getLogTermFromLogIndex_eq_ok {rf : Raft n} (h : rf.LogWF) {i t : Int} :
    rf.getLogTermFromLogIndex i = .ok t ↔ rf.termAt i = some t := by
  have hlast := h.snapshot_le_last
  simp only [getLogTermFromLogIndex, Exec.bind_eq_ok, myAssert_eq_ok, exists_const]
  constructor
  · rintro ⟨_, _, ht⟩
    unfold termAt
    split at ht
    · rename_i hi
      rw [if_pos hi, Exec.pure_eq_ok.mp ht]
    · rename_i hi
      obtain ⟨e, he, ht⟩ := Exec.bind_eq_ok.mp ht
      rw [if_neg hi, h.logAt_eq_ok.mp he, ← Exec.pure_eq_ok.mp ht]
      rfl
  · intro ht
    -- an index that has a term lies between the snapshot point and the last index
    have hb := h.termAt_isSome.mp (by rw [ht]; rfl)
    refine ⟨hb.1, hb.2, ?_⟩
    unfold termAt at ht
    split at ht
    · rename_i hi
      rw [if_pos hi, Exec.pure_eq_ok]
      simpa using ht
    · rename_i hi
      obtain ⟨e, he, rfl⟩ := Option.map_eq_some_iff.mp ht
      rw [if_neg hi, Exec.bind_eq_ok]
      exact ⟨e, h.logAt_eq_ok.mpr he, rfl⟩

/-- The same as an equation: without a term an assert fails. -/
theorem LogWF.getLogTermFromLogIndex_eq {rf : Raft n} (h : rf.LogWF) (i : Int) :
    rf.getLogTermFromLogIndex i = match rf.termAt i with
      | some t => .ok t
      | none => .error .myAssert := by
  cases ht : rf.termAt i with
  | some t => exact h.getLogTermFromLogIndex_eq_ok.mpr ht
  | none =>
    have hout : ¬ (rf.lastSnapshotIncludeIndex ≤ i ∧ i ≤ rf.getLastLogIndex) := by
      rw [← h.termAt_isSome, ht]
      simp
    unfold getLogTermFromLogIndex myAssert
    by_cases hle : rf.lastSnapshotIncludeIndex ≤ i
    · rw [if_pos hle, if_neg fun hlast => hout ⟨hle, hlast⟩]
      rfl
    · rw [if_neg hle]
      rfl

/-- The last term is the term at the last index. -/
theorem LogWF.termAt_last {rf : Raft n} (h : rf.LogWF) :
    rf.termAt rf.getLastLogIndex = some rf.getLastLogTerm := by
  have hlast := h.getLastLogIndex
  unfold termAt getLastLogTerm getLastLogIndexAndTerm
  cases hl : rf.logs.getLast? with
  | none =>
    rw [List.getLast?_eq_none_iff] at hl
    rw [hl, List.length_nil] at hlast
    rw [if_pos (by omega)]
  | some e =>
    rw [List.getLast?_eq_getElem?] at hl
    have hpos := (List.getElem?_eq_some_iff.mp hl).1
    have hk : (rf.getLastLogIndex - rf.lastSnapshotIncludeIndex - 1).toNat = rf.logs.length - 1 := by
      omega
    rw [if_neg (by omega), entryAt, if_pos (by omega), hk, hl]
    rfl

/-- `matchLog` compares with the term of the index, and goes through iff there is one. -/
theorem LogWF.matchLog_eq_ok {rf : Raft n} (h : rf.LogWF) {i t : Int} {b : Bool} :
    rf.matchLog i t = .ok b ↔ ∃ t', rf.termAt i = some t' ∧ decide (t = t') = b := by
  simp only [matchLog, Exec.bind_eq_ok, myAssert_eq_ok, exists_const, Exec.pure_eq_ok,
    h.getLogTermFromLogIndex_eq_ok]
  constructor
  · rintro ⟨_, t', ht, hb⟩
    exact ⟨t', ht, hb⟩
  · rintro ⟨t', ht, hb⟩
    exact ⟨h.termAt_isSome.mp (by rw [ht]; rfl), t', ht, hb⟩

end Raft

end RaftStore
