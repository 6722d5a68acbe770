import Mathlib.Data.Fintype.Card
import Mathlib.Data.List.Nodup

namespace RaftStore

/-!
# Majorities and tallies

* `Majority` — more than half of a finite type; two majorities meet (`Majority.inter`).
* `exists_answerers` — a list of calls in which each peer is asked once a round: as many
  distinct peers answered in a way `p` as there are such calls in the list.  With the asking
  peer they form a majority (`exists_majority`), and never all of them (`countP_lt_card`).
* `countP_set_eq`, `countP_set_add` — the tally after one call of the list is replaced.
* `nodup_keys_append` — the calls of a new round are new.
-/

/-- More than half of the members. -/
def Majority {ν : Type*} [Fintype ν] (Q : Finset ν) : Prop := Fintype.card ν < 2 * Q.card

/-- Two majorities have a member in common. -/
theorem Majority.inter {ν : Type*} [Fintype ν] [DecidableEq ν] {Q Q' : Finset ν}
    (h : Majority Q) (h' : Majority Q') : ∃ j, j ∈ Q ∧ j ∈ Q' := by
  unfold Majority at h h'
  have hmeet : (Q ∩ Q').Nonempty :=
    Finset.inter_nonempty_of_card_lt_card_add_card (Finset.subset_univ Q)
      (Finset.subset_univ Q') (by rw [Finset.card_univ]; omega)
  obtain ⟨j, hj⟩ := hmeet
  exact ⟨j, Finset.mem_inter.mp hj⟩

section tally

variable {β ρ ν : Type*} [DecidableEq ν]

/-- When a list has at most one element for each round and peer, the elements of round `r`
    that satisfy `p` name as many peers as there are of them. -/
theorem exists_answerers {l : List β} {round : β → ρ} {peer : β → ν}
    (hkeys : (l.map fun b => (round b, peer b)).Nodup) {p : β → Bool} {r : ρ}
    (hp : ∀ b ∈ l, p b = true → round b = r) :
    ∃ Q : Finset ν, Q.card = l.countP p ∧ ∀ j ∈ Q, ∃ b ∈ l, p b = true ∧ peer b = j := by
  have hsub : ((l.filter p).map fun b => (round b, peer b)).Nodup :=
    hkeys.sublist (List.filter_sublist.map _)
  -- within one round the peers alone tell the elements apart
  have hround : (l.filter p).map (fun b => (round b, peer b)) =
      ((l.filter p).map peer).map fun j => (r, j) := by
    rw [List.map_map]
    refine List.map_congr_left fun b hb => ?_
    obtain ⟨hmem, hpb⟩ := List.mem_filter.mp hb
    rw [hp b hmem hpb]
    rfl
  rw [hround] at hsub
  have hpeers : ((l.filter p).map peer).Nodup := hsub.of_map
  refine ⟨((l.filter p).map peer).toFinset, ?_, ?_⟩
  · rw [List.toFinset_card_of_nodup hpeers, List.length_map, List.countP_eq_length_filter]
  · intro j hj
    obtain ⟨b, hb, rfl⟩ := List.mem_map.mp (List.mem_toFinset.mp hj)
    obtain ⟨hmem, hpb⟩ := List.mem_filter.mp hb
    exact ⟨b, hmem, hpb, rfl⟩

/-- Peers other than `i` that answered, with `i` itself, form a majority once there are half as
    many of them as there are members. -/
theorem exists_majority [Fintype ν] {l : List β} {round : β → ρ} {peer : β → ν}
    (hkeys : (l.map fun b => (round b, peer b)).Nodup) {p : β → Bool} {r : ρ}
    (hp : ∀ b ∈ l, p b = true → round b = r) {i : ν} (hi : ∀ b ∈ l, p b = true → peer b ≠ i)
    (hhalf : Fintype.card ν / 2 ≤ l.countP p) :
    ∃ Q : Finset ν, Majority Q ∧ i ∈ Q ∧ ∀ j ∈ Q, j = i ∨ ∃ b ∈ l, p b = true ∧ peer b = j := by
  obtain ⟨Q, hcard, hQ⟩ := exists_answerers hkeys hp
  have hnot : i ∉ Q := by
    intro hmem
    obtain ⟨b, hb, hpb, hpeer⟩ := hQ i hmem
    exact hi b hb hpb hpeer
  refine ⟨insert i Q, ?_, Finset.mem_insert_self i Q, fun j hj => ?_⟩
  · unfold Majority
    rw [Finset.card_insert_of_notMem hnot]
    omega
  · rcases Finset.mem_insert.mp hj with rfl | hj
    · exact Or.inl rfl
    · exact Or.inr (hQ j hj)

/-- There are fewer such elements than members when none of them names `i`. -/
theorem countP_lt_card [Fintype ν] {l : List β} {round : β → ρ} {peer : β → ν}
    (hkeys : (l.map fun b => (round b, peer b)).Nodup) {p : β → Bool} {r : ρ}
    (hp : ∀ b ∈ l, p b = true → round b = r) {i : ν} (hi : ∀ b ∈ l, p b = true → peer b ≠ i) :
    l.countP p < Fintype.card ν := by
  obtain ⟨Q, hcard, hQ⟩ := exists_answerers hkeys hp
  rw [← hcard, ← Finset.card_univ]
  refine Finset.card_lt_card (Finset.ssubset_univ_iff.mpr fun huniv => ?_)
  obtain ⟨b, hb, hpb, hpeer⟩ := hQ i (huniv ▸ Finset.mem_univ i)
  exact hi b hb hpb hpeer

omit [DecidableEq ν] in
/-- Replacing an element by one with the same key keeps the keys. -/
theorem map_set_of_eq {α : Type*} {l : List β} {k : ℕ} {b : β} (f : β → α)
    (hk : l[k]? = some b) (b' : β) (hf : f b' = f b) : (l.set k b').map f = l.map f := by
  obtain ⟨hlt, rfl⟩ := List.getElem?_eq_some_iff.mp hk
  rw [List.map_set, hf, ← List.map_set, List.set_getElem_self]

omit [DecidableEq ν] in
/-- Two positions with the same key are one when the keys are distinct. -/
theorem eq_of_getElem?_of_nodup {α : Type*} {l : List β} {f : β → α} (h : (l.map f).Nodup)
    {j k : ℕ} {b b' : β} (hj : l[j]? = some b) (hk : l[k]? = some b') (hf : f b = f b') :
    j = k := by
  have hlt : j < (l.map f).length := by
    rw [List.length_map]
    exact (List.getElem?_eq_some_iff.mp hj).1
  refine (List.getElem?_inj hlt h).mp ?_
  rw [List.getElem?_map, List.getElem?_map, hj, hk, Option.map_some, Option.map_some, hf]

/-- The tally after one element is replaced. -/
theorem countP_set_eq {l : List β} {k : ℕ} {b : β} (p : β → Bool) (hk : l[k]? = some b)
    (b' : β) :
    (l.set k b').countP p + (if p b then 1 else 0) = l.countP p + (if p b' then 1 else 0) := by
  obtain ⟨hlt, rfl⟩ := List.getElem?_eq_some_iff.mp hk
  rw [List.countP_set hlt]
  by_cases hp : p l[k] = true
  · have hpos : 0 < l.countP p := List.countP_pos_iff.mpr ⟨l[k], List.getElem_mem hlt, hp⟩
    rw [if_pos hp]
    omega
  · rw [if_neg hp]
    omega

/-- The tally after an element that does not count is replaced by one that counts if `Q`. -/
theorem countP_set_add {l : List β} {k : ℕ} {b b' : β} {p : β → Bool} {Q : Prop} [Decidable Q]
    (hk : l[k]? = some b) (hb : p b = false) (hb' : p b' = decide Q) :
    ((l.set k b').countP p : Int) = l.countP p + if Q then 1 else 0 := by
  have hset := countP_set_eq p hk b'
  rw [hb, hb'] at hset
  simp only [Bool.false_eq_true, if_false, decide_eq_true_eq] at hset
  by_cases hQ : Q
  · rw [if_pos hQ] at hset ⊢
    omega
  · rw [if_neg hQ] at hset ⊢
    omega

omit [DecidableEq ν] in
/-- Elements of a new round behind those of other rounds. -/
theorem nodup_keys_append {l l' : List β} {round : β → ρ} {peer : β → ν} {r : ρ}
    (hl : (l.map fun b => (round b, peer b)).Nodup)
    (hl' : (l'.map fun b => (round b, peer b)).Nodup) (hold : ∀ b ∈ l, round b ≠ r)
    (hnew : ∀ b ∈ l', round b = r) : ((l ++ l').map fun b => (round b, peer b)).Nodup := by
  rw [List.map_append, List.nodup_append]
  refine ⟨hl, hl', ?_⟩
  rintro _ hmem _ hmem' rfl
  obtain ⟨b, hb, hkey⟩ := List.mem_map.mp hmem
  obtain ⟨b', hb', hkey'⟩ := List.mem_map.mp hmem'
  have hsame : round b = round b' := (Prod.mk.inj (hkey.trans hkey'.symm)).1
  exact hold b hb (hsame.trans (hnew b' hb'))

end tally

end RaftStore
