import Mathlib.Data.List.Basic
import Mathlib.Data.Set.Insert
import Mathlib.Logic.Relation
import Mathlib.Tactic.Common
import RaftStore.Lib.Quorum

namespace RaftStore

/-!
# Replicated logs under elected leaders

An abstract account of log replication.  Entries carry the term in which they were proposed;
each term has at most one *reign*, the log its leader started from and what it has grown to.
Members cast ballots and acknowledge logs; both are remembered for ever.

* `Consensus` — the state, on members of any finite type and entries of any type that carries a
  term; `Consensus.Le` — what every change of it only adds to.
* `Consensus.Rooted` — every entry of a log was proposed in its term's reign, on top of the same
  beginning; two rooted logs that share a term at a position agree up to it (`Rooted.matching`).
* `Consensus.Inv` — the invariant; `Consensus.Inv.complete` — **leader completeness**: what a
  majority acknowledged in a term is part of every later reign from its start.
* `Consensus.Agreed` — a log that is part of such a log; any two agree (`Inv.agreed_total`).
-/

/-- Entries that carry the term in which they were proposed. -/
class Stamped (α : Type*) where
  term : α → ℤ

/-- The log a leader started from, and the log it has now. -/
structure Reign (α : Type*) where
  first : List α
  last : List α
  grown : first <+: last

/-- A reign that has just started. -/
def Reign.start {α : Type*} (X : List α) : Reign α where
  first := X
  last := X
  grown := List.prefix_rfl

/-- A reign whose leader has proposed one more entry. -/
def Reign.grow {α : Type*} (r : Reign α) (e : α) : Reign α where
  first := r.first
  last := r.last ++ [e]
  grown := r.grown.trans (List.prefix_append _ _)

/-- A reign that grows keeps its first log. -/
@[simp] theorem Reign.grow_first {α : Type*} (r : Reign α) (e : α) :
    (r.grow e).first = r.first := rfl
/-- A reign that grows has the entry at its end. -/
@[simp] theorem Reign.grow_last {α : Type*} (r : Reign α) (e : α) :
    (r.grow e).last = r.last ++ [e] := rfl

/-- The members' terms and logs, the reigns, the ballots and the acknowledged logs. -/
structure Consensus (ν α : Type*) where
  term : ν → ℤ
  log : ν → List α
  reign : ℤ → Option (Reign α)
  ballots : Set (ν × ℤ × List α)
  acks : Set (ν × ℤ × List α)

section prefixes

variable {α : Type*} {L M X : List α}

/-- An entry of a prefix is an entry of the whole. -/
theorem getElem?_of_isPrefix (h : L <+: M) {k : ℕ} {e : α} (he : L[k]? = some e) :
    M[k]? = some e := by
  obtain ⟨u, rfl⟩ := h
  rw [List.getElem?_append_left (List.getElem?_eq_some_iff.mp he).1, he]

/-- A prefix begins as the whole does. -/
theorem take_of_isPrefix (h : L <+: M) {k : ℕ} (hk : k ≤ L.length) : M.take k = L.take k := by
  obtain ⟨u, rfl⟩ := h
  exact List.take_append_of_le_length hk

/-- Of two beginnings of one list the shorter is a beginning of the longer. -/
theorem isPrefix_of_le (hL : L <+: X) (hM : M <+: X) (hle : L.length ≤ M.length) : L <+: M :=
  List.prefix_of_prefix_length_le hL hM hle

/-- Two prefixes of the same length are equal. -/
theorem eq_of_isPrefix (hL : L <+: X) (hM : M <+: X) (hlen : L.length = M.length) : L = M :=
  (isPrefix_of_le hL hM hlen.le).eq_of_length hlen

/-- An element of a list with one more is an old one or the new one. -/
theorem getElem?_concat_cases {k : ℕ} {e e' : α} (h : (L ++ [e'])[k]? = some e) :
    L[k]? = some e ∨ k = L.length ∧ e = e' := by
  rcases Nat.lt_trichotomy k L.length with hlt | rfl | hgt
  · rw [List.getElem?_append_left hlt] at h
    exact Or.inl h
  · rw [List.getElem?_concat_length, Option.some.injEq] at h
    exact Or.inr ⟨rfl, h.symm⟩
  · rw [List.getElem?_eq_none (by simp; omega)] at h
    cases h

/-- An element of a list in which one is replaced is the new one or an old one. -/
theorem getElem?_set_cases {j k : ℕ} {e e' : α} (h : (L.set k e')[j]? = some e) :
    k = j ∧ e = e' ∨ k ≠ j ∧ L[j]? = some e := by
  by_cases hkj : k = j
  · subst hkj
    have hlt : k < L.length := by
      have hlen := (List.getElem?_eq_some_iff.mp h).1
      rwa [List.length_set] at hlen
    rw [List.getElem?_set_self hlt] at h
    exact Or.inl ⟨rfl, (Option.some.inj h).symm⟩
  · rw [List.getElem?_set_ne hkj] at h
    exact Or.inr ⟨hkj, h⟩

/-- After a replacement an element is the new one in its place, or as it was. -/
theorem getElem?_set_split {j k : ℕ} {e e' : α} (hk : L[k]? = some e) (hj : L[j]? = some e')
    (x : α) : (k = j ∧ e = e' ∧ (L.set k x)[j]? = some x) ∨ (L.set k x)[j]? = some e' := by
  by_cases hkj : k = j
  · subst hkj
    have hlt := (List.getElem?_eq_some_iff.mp hk).1
    exact Or.inl ⟨rfl, Option.some.inj (hk.symm.trans hj), List.getElem?_set_self hlt⟩
  · exact Or.inr ((List.getElem?_set_ne hkj).trans hj)

end prefixes

namespace Consensus

variable {ν α : Type*}

/-! ### What was acknowledged -/

/-- A majority of the members acknowledged `L` in term `T`. -/
def Chosen [Fintype ν] (t : Consensus ν α) (T : ℤ) (L : List α) : Prop :=
  ∃ Q : Finset ν, Majority Q ∧ ∀ j ∈ Q, (j, T, L) ∈ t.acks

/-- `X` is empty or part of a log chosen in a term up to `U`. -/
def Agreed [Fintype ν] (t : Consensus ν α) (U : ℤ) (X : List α) : Prop :=
  X = [] ∨ ∃ T L, T ≤ U ∧ t.Chosen T L ∧ X <+: L

/-- Some reign after term `T` and up to term `U` did not start from `L`. -/
def Lost (t : Consensus ν α) (T U : ℤ) (L : List α) : Prop :=
  ∃ T' r, T < T' ∧ T' ≤ U ∧ t.reign T' = some r ∧ ¬ L <+: r.first

/-- Every log that `j` acknowledged before term `U` is part of `X`, or was lost up to `U'`. -/
def Keeps (t : Consensus ν α) (j : ν) (U U' : ℤ) (X : List α) : Prop :=
  ∀ T L, (j, T, L) ∈ t.acks → T < U → L <+: X ∨ t.Lost T U' L

/-- A candidate that asked for votes with log `C` stands for election with log `X`: the same, or
    a longer one that is agreed. -/
def Carries [Fintype ν] (t : Consensus ν α) (U : ℤ) (C X : List α) : Prop :=
  X = C ∨ C.length ≤ X.length ∧ t.Agreed (U - 1) X

/-! ### What only grows -/

/-- Terms, reigns, ballots and acknowledgements only grow. -/
structure Le (t t' : Consensus ν α) : Prop where
  term : ∀ j, t.term j ≤ t'.term j
  reign : ∀ T r, t.reign T = some r → ∃ r', t'.reign T = some r' ∧ r'.first = r.first ∧
    r.last <+: r'.last
  ballots : t.ballots ⊆ t'.ballots
  acks : t.acks ⊆ t'.acks

section mono

variable {t t' : Consensus ν α}

/-- Nothing has happened. -/
theorem Le.refl (t : Consensus ν α) : t.Le t :=
  ⟨fun _ => le_rfl, fun _ r hr => ⟨r, hr, rfl, List.prefix_rfl⟩, subset_rfl, subset_rfl⟩

/-- What happens later happens later. -/
theorem Le.trans {t'' : Consensus ν α} (h : t.Le t') (h' : t'.Le t'') : t.Le t'' where
  term j := (h.term j).trans (h'.term j)
  reign T r hr := by
    obtain ⟨r', hr', hfirst, hlast⟩ := h.reign T r hr
    obtain ⟨r'', hr'', hfirst', hlast'⟩ := h'.reign T r' hr'
    exact ⟨r'', hr'', hfirst'.trans hfirst, hlast.trans hlast'⟩
  ballots := h.ballots.trans h'.ballots
  acks := h.acks.trans h'.acks

/-- What is lost stays lost. -/
theorem Lost.mono {T U U' : ℤ} {L : List α} (h : t.Lost T U L) (hle : t.Le t') (hU : U ≤ U') :
    t'.Lost T U' L := by
  obtain ⟨T', r, hT, hT', hr, hnot⟩ := h
  obtain ⟨r', hr', hfirst, _⟩ := hle.reign T' r hr
  exact ⟨T', r', hT, hT'.trans hU, hr', hfirst ▸ hnot⟩

/-- What is kept stays kept as long as no acknowledgement is added. -/
theorem Keeps.mono {j : ν} {U V V' : ℤ} {X : List α} (h : t.Keeps j U V X) (hle : t.Le t')
    (hacks : ∀ T L, (j, T, L) ∈ t'.acks → T < U → (j, T, L) ∈ t.acks) (hV : V ≤ V') :
    t'.Keeps j U V' X := fun T L hack hT =>
  (h T L (hacks T L hack hT) hT).imp_right fun hlost => hlost.mono hle hV

variable [Fintype ν]

/-- What is chosen stays chosen. -/
theorem Chosen.mono {T : ℤ} {L : List α} (h : t.Chosen T L) (hle : t.Le t') : t'.Chosen T L := by
  obtain ⟨Q, hQ, hacks⟩ := h
  exact ⟨Q, hQ, fun j hj => hle.acks (hacks j hj)⟩

/-- What is agreed on stays agreed on. -/
theorem Agreed.mono {U U' : ℤ} {X : List α} (h : t.Agreed U X) (hle : t.Le t') (hU : U ≤ U') :
    t'.Agreed U' X := by
  rcases h with rfl | ⟨T, L, hT, hL, hXL⟩
  · exact Or.inl rfl
  · exact Or.inr ⟨T, L, hT.trans hU, hL.mono hle, hXL⟩

/-- With a log its prefixes are agreed on. -/
theorem Agreed.of_isPrefix {U : ℤ} {X Y : List α} (h : t.Agreed U Y) (hXY : X <+: Y) :
    t.Agreed U X := by
  rcases h with rfl | ⟨T, L, hT, hL, hYL⟩
  · exact Or.inl (List.prefix_nil.mp hXY)
  · exact Or.inr ⟨T, L, hT, hL, hXY.trans hYL⟩

/-- What a log carries it carries later. -/
theorem Carries.mono {U : ℤ} {C X : List α} (h : t.Carries U C X) (hle : t.Le t') :
    t'.Carries U C X :=
  h.imp_right fun ⟨hlen, hX⟩ => ⟨hlen, hX.mono hle le_rfl⟩

end mono

/-! ### Updates -/

section updates

variable [DecidableEq ν] (t : Consensus ν α)

/-- Member `j` moves to term `T`, if that is larger than its own. -/
def raise (j : ν) (T : ℤ) : Consensus ν α :=
  { t with term := Function.update t.term j (max (t.term j) T) }

/-- Member `j` votes in its term, with its present log. -/
def cast (j : ν) : Consensus ν α :=
  { t with ballots := insert (j, t.term j, t.log j) t.ballots }

/-- Member `i` starts the reign of its term. -/
def elect (i : ν) : Consensus ν α :=
  { t with reign := Function.update t.reign (t.term i) (some (Reign.start (t.log i))) }

/-- Member `i` proposes entry `e` in reign `r`. -/
def propose (i : ν) (e : α) (r : Reign α) : Consensus ν α :=
  { t with
    log := Function.update t.log i (t.log i ++ [e])
    reign := Function.update t.reign (t.term i) (some (r.grow e)) }

/-- Member `j` takes over log `X`. -/
def setLog (j : ν) (X : List α) : Consensus ν α :=
  { t with log := Function.update t.log j X }

/-- Member `j` acknowledges log `L` in its term. -/
def ack (j : ν) (L : List α) : Consensus ν α :=
  { t with acks := insert (j, t.term j, L) t.acks }

omit [DecidableEq ν] in
/-- A ballot that is cast is there. -/
theorem mem_cast (j : ν) : (j, t.term j, t.log j) ∈ (t.cast j).ballots := Set.mem_insert _ _

/-- A node that enters a later term takes nothing back. -/
theorem raise_le (j : ν) (T : ℤ) : t.Le (t.raise j T) :=
  { Le.refl t with
    term := fun i => by
      by_cases hij : i = j
      · subst hij
        simp [raise]
      · simp [raise, Function.update_of_ne hij] }

omit [DecidableEq ν] in
/-- A ballot takes nothing back. -/
theorem cast_le (j : ν) : t.Le (t.cast j) :=
  { Le.refl t with ballots := Set.subset_insert _ _ }

/-- A log that is replaced takes no ballot, reign or vote back. -/
theorem setLog_le (j : ν) (X : List α) : t.Le (t.setLog j X) := { Le.refl t with }

omit [DecidableEq ν] in
/-- An acknowledgement takes nothing back. -/
theorem ack_le (j : ν) (L : List α) : t.Le (t.ack j L) :=
  { Le.refl t with acks := Set.subset_insert _ _ }

variable {t}

omit [DecidableEq ν] in
/-- An election takes nothing back, since the term had no leader. -/
theorem elect_le {i : ν} (hnone : t.reign (t.term i) = none) : t.Le (t.elect i) :=
  { Le.refl t with
    reign := fun T r hr => by
      have hT : T ≠ t.term i := by
        rintro rfl
        rw [hnone] at hr
        cases hr
      exact ⟨r, (Function.update_of_ne hT _ _).trans hr, rfl, List.prefix_rfl⟩ }

/-- A proposal makes the reign grow. -/
theorem propose_le {i : ν} {r : Reign α} (hr : t.reign (t.term i) = some r) (e : α) :
    t.Le (t.propose i e r) :=
  { Le.refl t with
    reign := fun T r' hr' => by
      by_cases hT : T = t.term i
      · subst hT
        rw [hr, Option.some.injEq] at hr'
        subst hr'
        exact ⟨r.grow e, Function.update_self .., rfl, List.prefix_append _ _⟩
      · exact ⟨r', (Function.update_of_ne hT _ _).trans hr', rfl, List.prefix_rfl⟩ }

omit [DecidableEq ν] in
/-- The reigns after an election. -/
theorem elect_reign {i : ν} {U : ℤ} {r : Reign α} (hr : (t.elect i).reign U = some r) :
    U = t.term i ∧ r = Reign.start (t.log i) ∨ t.reign U = some r := by
  have hr : Function.update t.reign (t.term i) (some (Reign.start (t.log i))) U = some r := hr
  by_cases hU : U = t.term i
  · subst hU
    rw [Function.update_self, Option.some.injEq] at hr
    exact Or.inl ⟨rfl, hr.symm⟩
  · rw [Function.update_of_ne hU] at hr
    exact Or.inr hr

/-- The reigns after a proposal. -/
theorem propose_reign {i : ν} {e : α} {r r' : Reign α} {U : ℤ}
    (hr : (t.propose i e r).reign U = some r') :
    U = t.term i ∧ r' = r.grow e ∨ U ≠ t.term i ∧ t.reign U = some r' := by
  have hr : Function.update t.reign (t.term i) (some (r.grow e)) U = some r' := hr
  by_cases hU : U = t.term i
  · subst hU
    rw [Function.update_self, Option.some.injEq] at hr
    exact Or.inl ⟨rfl, hr.symm⟩
  · rw [Function.update_of_ne hU] at hr
    exact Or.inr ⟨hU, hr⟩

/-- The logs after one of them is replaced. -/
theorem setLog_log_cases {p : List α → ν → Prop} {j : ν} {X : List α} (hj : p X j)
    (hrest : ∀ i, i ≠ j → p (t.log i) i) (i : ν) : p ((t.setLog j X).log i) i := by
  have heq : (t.setLog j X).log i = Function.update t.log j X i := rfl
  by_cases hij : i = j
  · subst hij
    rwa [heq, Function.update_self]
  · rw [heq, Function.update_of_ne hij]
    exact hrest i hij

end updates

/-! ### Terms of a log -/

variable [Stamped α]

/-- The term of the last entry, 0 for the empty log. -/
def lastTerm (X : List α) : ℤ := (X.getLast?.map Stamped.term).getD 0

/-- Log `X` is at least as up to date as `Y`. -/
def UpToDate (X Y : List α) : Prop :=
  lastTerm Y < lastTerm X ∨ lastTerm Y = lastTerm X ∧ Y.length ≤ X.length

/-- The last term is that of the last entry. -/
theorem lastTerm_eq {X : List α} {k : ℕ} {e : α} (hk : X.length = k + 1) (he : X[k]? = some e) :
    lastTerm X = Stamped.term e := by
  rw [lastTerm, List.getLast?_eq_getElem?, hk, Nat.add_sub_cancel, he]
  rfl

/-- A log whose last term is positive has a last entry. -/
theorem exists_last {X : List α} (h : 0 < lastTerm X) :
    ∃ k e, X.length = k + 1 ∧ X[k]? = some e ∧ Stamped.term e = lastTerm X := by
  cases hX : X.length with
  | zero =>
    rw [List.length_eq_zero_iff] at hX
    simp [lastTerm, hX] at h
  | succ k =>
    obtain ⟨e, he⟩ : ∃ e, X[k]? = some e := ⟨_, List.getElem?_eq_getElem (by omega)⟩
    exact ⟨k, e, rfl, he, (lastTerm_eq hX he).symm⟩

/-- The terms of a log never decrease. -/
def Sorted (X : List α) : Prop := X.Pairwise fun a b => Stamped.term a ≤ Stamped.term b

/-- A prefix of a sorted log is sorted. -/
theorem Sorted.of_isPrefix {X Y : List α} (h : Sorted Y) (hXY : X <+: Y) : Sorted X :=
  List.Pairwise.sublist hXY.sublist h

/-- No entry of a sorted log has a later term than the last. -/
theorem Sorted.le_lastTerm {X : List α} (h : Sorted X) {k : ℕ} {e : α} (he : X[k]? = some e) :
    Stamped.term e ≤ lastTerm X := by
  have hk := (List.getElem?_eq_some_iff.mp he).1
  obtain ⟨m, hm⟩ : ∃ m, X.length = m + 1 := ⟨X.length - 1, by omega⟩
  obtain ⟨l, hl⟩ : ∃ l, X[m]? = some l := ⟨_, List.getElem?_eq_getElem (by omega)⟩
  rw [lastTerm_eq hm hl]
  obtain ⟨_, rfl⟩ := List.getElem?_eq_some_iff.mp he
  obtain ⟨_, rfl⟩ := List.getElem?_eq_some_iff.mp hl
  rcases Nat.lt_or_ge k m with hlt | hge
  · exact List.pairwise_iff_getElem.mp h k m _ _ hlt
  · obtain rfl : k = m := by omega
    exact le_rfl

/-! ### Rooted logs -/

/-- Each entry of `X` was proposed in the reign of its term, on top of the same beginning. -/
def Rooted (t : Consensus ν α) (X : List α) : Prop :=
  ∀ k e, X[k]? = some e → ∃ r, t.reign (Stamped.term e) = some r ∧ r.first.length ≤ k ∧
    X.take (k + 1) <+: r.last

/-- A prefix of a rooted log is rooted. -/
theorem Rooted.of_isPrefix {t : Consensus ν α} {X Y : List α} (h : t.Rooted Y) (hXY : X <+: Y) :
    t.Rooted X := by
  intro k e he
  obtain ⟨r, hr, hk, htake⟩ := h k e (getElem?_of_isPrefix hXY he)
  rw [take_of_isPrefix hXY (List.getElem?_eq_some_iff.mp he).1] at htake
  exact ⟨r, hr, hk, htake⟩

/-- The empty log is rooted. -/
theorem Rooted.nil (t : Consensus ν α) : t.Rooted [] := fun k e he => by simp at he

/-- A rooted log stays so. -/
theorem Rooted.mono {t t' : Consensus ν α} {X : List α} (h : t.Rooted X) (hle : t.Le t') :
    t'.Rooted X := by
  intro k e he
  obtain ⟨r, hr, hk, htake⟩ := h k e he
  obtain ⟨r', hr', hfirst, hlast⟩ := hle.reign _ r hr
  exact ⟨r', hr', hfirst ▸ hk, htake.trans hlast⟩

/-- **Log matching.**  Two rooted logs with the same term at a position agree up to it. -/
theorem Rooted.matching {t : Consensus ν α} {X Y : List α} (hX : t.Rooted X) (hY : t.Rooted Y)
    {k : ℕ} {a b : α} (ha : X[k]? = some a) (hb : Y[k]? = some b)
    (hterm : Stamped.term a = Stamped.term b) : X.take (k + 1) = Y.take (k + 1) := by
  obtain ⟨r, hr, _, htake⟩ := hX k a ha
  obtain ⟨r', hr', _, htake'⟩ := hY k b hb
  rw [hterm, hr', Option.some.injEq] at hr
  subst hr
  have hk := (List.getElem?_eq_some_iff.mp ha).1
  have hk' := (List.getElem?_eq_some_iff.mp hb).1
  exact eq_of_isPrefix htake htake' (by rw [List.length_take, List.length_take]; omega)

/-- Two rooted logs of one length that end in one term are equal. -/
theorem Rooted.eq_of_lastTerm {t : Consensus ν α} {X Y : List α} (hX : t.Rooted X)
    (hY : t.Rooted Y) (hlen : X.length = Y.length) (hterm : lastTerm X = lastTerm Y) : X = Y := by
  cases hk : X.length with
  | zero =>
    have hnil : Y = [] := List.length_eq_zero_iff.mp (by omega)
    rw [hnil, List.length_eq_zero_iff.mp hk]
  | succ k =>
    obtain ⟨a, ha⟩ : ∃ a, X[k]? = some a := ⟨_, List.getElem?_eq_getElem (by omega)⟩
    obtain ⟨b, hb⟩ : ∃ b, Y[k]? = some b := ⟨_, List.getElem?_eq_getElem (by omega)⟩
    rw [lastTerm_eq hk ha, lastTerm_eq (hlen ▸ hk) hb] at hterm
    have htake := hX.matching hY ha hb hterm
    rwa [List.take_of_length_le (by omega), List.take_of_length_le (by omega)] at htake

/-- In a term without a reign nothing has been proposed. -/
theorem Rooted.lt_of_none {t : Consensus ν α} {X : List α} (h : t.Rooted X) {U : ℤ}
    (hnone : t.reign U = none) (hle : ∀ e ∈ X, Stamped.term e ≤ U) :
    ∀ e ∈ X, Stamped.term e < U := by
  intro e he
  obtain ⟨k, hk⟩ := List.getElem?_of_mem he
  obtain ⟨r, hr, _⟩ := h k e hk
  refine lt_of_le_of_ne (hle e he) fun heq => ?_
  rw [heq, hnone] at hr
  cases hr

/-- A rooted log with a last entry is part of the reign of its last term, and continues the
    log that reign started from. -/
theorem Rooted.reign {t : Consensus ν α} {X : List α} (h : t.Rooted X) (hpos : 0 < lastTerm X) :
    ∃ r, t.reign (lastTerm X) = some r ∧ X <+: r.last ∧ r.first <+: X := by
  obtain ⟨k, e, hk, he, hterm⟩ := exists_last hpos
  obtain ⟨r, hr, hfirst, htake⟩ := h k e he
  rw [hterm] at hr
  rw [List.take_of_length_le (by omega)] at htake
  exact ⟨r, hr, htake, isPrefix_of_le r.grown htake (by omega)⟩

/-! ### The invariant -/

variable [Fintype ν]

/-- The invariant.  Terms and logs of the members, reigns, acknowledged logs, ballots, and the
    majority of ballots behind each reign. -/
structure Inv (t : Consensus ν α) : Prop where
  rooted : ∀ j, t.Rooted (t.log j)
  bounded : ∀ j, ∀ e ∈ t.log j, Stamped.term e ≤ t.term j
  reign : ∀ T r, t.reign T = some r → 0 < T ∧ t.Rooted r.last ∧ Sorted r.last ∧
    (∀ e ∈ r.first, Stamped.term e < T) ∧
    ∀ k e, r.last[k]? = some e → r.first.length ≤ k → Stamped.term e = T
  acked : ∀ j T L, (j, T, L) ∈ t.acks → T ≤ t.term j ∧
    ∃ r, t.reign T = some r ∧ L <+: r.last ∧ r.first.length < L.length
  keeps : ∀ j, t.Keeps j (t.term j + 1) (t.term j) (t.log j)
  ballot : ∀ j U J, (j, U, J) ∈ t.ballots → U ≤ t.term j ∧ t.Rooted J ∧
    (∀ e ∈ J, Stamped.term e ≤ U) ∧ t.Keeps j U U J
  elected : ∀ U r, t.reign U = some r → ∃ C Q, t.Rooted C ∧ t.Carries U C r.first ∧
    (∀ e ∈ C, Stamped.term e < U) ∧ Majority Q ∧
    ∀ j ∈ Q, U ≤ t.term j ∧ ∃ J, t.Rooted J ∧ UpToDate C J ∧ t.Keeps j U (U - 1) J

section safety

variable [DecidableEq ν] {t : Consensus ν α}

omit [DecidableEq ν] in
/-- A rooted log is sorted. -/
theorem Inv.sorted (h : t.Inv) {X : List α} (hX : t.Rooted X) : Sorted X := by
  by_cases hnil : X = []
  · subst hnil
    exact List.Pairwise.nil
  · have hlen := List.length_pos_iff.mpr hnil
    obtain ⟨e, he⟩ : ∃ e, X[X.length - 1]? = some e := ⟨_, List.getElem?_eq_getElem (by omega)⟩
    obtain ⟨r, hr, _, htake⟩ := hX _ e he
    rw [List.take_of_length_le (by omega)] at htake
    exact (h.reign _ r hr).2.2.1.of_isPrefix htake

/-- A chosen log belongs to the reign of its term and ends with an entry of that term. -/
theorem Inv.chosen (h : t.Inv) {T : ℤ} {L : List α} (hL : t.Chosen T L) :
    ∃ r, t.reign T = some r ∧ L <+: r.last ∧ r.first.length < L.length ∧
      ∃ e, L[L.length - 1]? = some e ∧ Stamped.term e = T := by
  obtain ⟨Q, hQ, hack⟩ := hL
  obtain ⟨j, hj, _⟩ := hQ.inter hQ
  obtain ⟨_, r, hr, hlast, hlen⟩ := h.acked j T L (hack j hj)
  obtain ⟨e, he⟩ : ∃ e, L[L.length - 1]? = some e := ⟨_, List.getElem?_eq_getElem (by omega)⟩
  exact ⟨r, hr, hlast, hlen, e, he,
    (h.reign T r hr).2.2.2.2 _ e (getElem?_of_isPrefix hlast he) (by omega)⟩

/-- A rooted log at least as up to date as one that contains `L`, chosen in term `T`, contains
    it too, if the reigns in between do. -/
theorem Inv.of_upToDate (h : t.Inv) {T U : ℤ} {L C J : List α}
    (hL : t.Chosen T L) (hC : t.Rooted C) (hJ : t.Rooted J) (hterm : ∀ e ∈ C, Stamped.term e < U)
    (hup : UpToDate C J) (hLJ : L <+: J)
    (hlater : ∀ U' r, U' < U → T < U' → t.reign U' = some r → L <+: r.first) : L <+: C := by
  obtain ⟨r, hr, _, hlen, e, he, heT⟩ := h.chosen hL
  have hpos := (h.reign T r hr).1
  have hTJ : T ≤ lastTerm J := heT ▸ (h.sorted hJ).le_lastTerm (getElem?_of_isPrefix hLJ he)
  have hTC : 0 < lastTerm C := by rcases hup with hlt | ⟨heq, _⟩ <;> omega
  obtain ⟨rC, hrC, hClast, hCfirst⟩ := hC.reign hTC
  rcases hup with hlt | ⟨heq, hle⟩
  · -- the last entry of `C` was proposed in a later reign, which started from `L`
    obtain ⟨k, l, _, hl, hlterm⟩ := exists_last hTC
    have hlU := hterm l (List.mem_of_getElem? hl)
    exact (hlater _ rC (by omega) (by omega) hrC).trans hCfirst
  · -- both logs end in one reign, where the longer one contains the shorter
    obtain ⟨rJ, hrJ, hJlast, _⟩ := hJ.reign (by omega)
    rw [heq, hrC, Option.some.injEq] at hrJ
    subst hrJ
    exact hLJ.trans (isPrefix_of_le hJlast hClast hle)

/-- **Leader completeness.**  A log chosen in a term is part of the log every later leader
    starts from. -/
theorem Inv.complete (h : t.Inv) {T U : ℤ} {L : List α} {r : Reign α}
    (hL : t.Chosen T L) (hr : t.reign U = some r) (hlt : T < U) : L <+: r.first := by
  obtain ⟨m, hm⟩ : ∃ m : ℕ, U.toNat = m := ⟨_, rfl⟩
  induction m using Nat.strong_induction_on generalizing T U L r with
  | _ m ih =>
    have hpos := (h.reign U r hr).1
    have hearlier : ∀ {T U' L r'}, t.Chosen T L → t.reign U' = some r' → T < U' → U' < U →
        L <+: r'.first := fun hL hr' hT hU' =>
      ih _ (by have := (h.reign _ _ hr').1; omega) hL hr' hT rfl
    obtain ⟨C, Q', hC, hcarry, hterm, hQ', hvotes⟩ := h.elected U r hr
    obtain ⟨Q, hQ, hacks⟩ := id hL
    -- a member that both acknowledged `L` and voted in the election
    obtain ⟨j, hj, hj'⟩ := hQ.inter hQ'
    obtain ⟨_, J, hJ, hup, hkeeps⟩ := hvotes j hj'
    have hLJ : L <+: J := by
      rcases hkeeps T L (hacks j hj) hlt with hLJ | ⟨T', r', hT, hT', hr', hnot⟩
      · exact hLJ
      · exact absurd (hearlier hL hr' hT (by omega)) hnot
    have hLC : L <+: C := h.of_upToDate hL hC hJ hterm hup hLJ
      fun U' r' hU' hT hr' => hearlier hL hr' hT hU'
    rcases hcarry with rfl | ⟨hlen, hagreed⟩
    · exact hLC
    · -- the candidate took over an agreed log meanwhile, no shorter than the one voted for
      have hle : L.length ≤ r.first.length := hLC.length_le.trans hlen
      rcases hagreed with hnil | ⟨T₀, L₀, hT₀, hL₀, hfirst⟩
      · rw [hnil] at hle ⊢
        rw [List.length_eq_zero_iff.mp (Nat.le_zero.mp hle)]
      · obtain ⟨rT, hrT, hLlast, _⟩ := h.chosen hL
        obtain ⟨r₀, hr₀, hL₀last, _⟩ := h.chosen hL₀
        rcases lt_trichotomy T T₀ with hT | rfl | hT
        · have hin := hearlier hL hr₀ hT (by omega)
          exact isPrefix_of_le (hin.trans r₀.grown) (hfirst.trans hL₀last) hle
        · rw [hrT, Option.some.injEq] at hr₀
          subst hr₀
          exact isPrefix_of_le hLlast (hfirst.trans hL₀last) hle
        · have hin := hearlier hL₀ hrT hT hlt
          exact isPrefix_of_le hLlast (hfirst.trans (hin.trans rT.grown)) hle

/-- Two chosen logs are part of one log. -/
theorem Inv.chosen_join (h : t.Inv) {T T' : ℤ} {L L' : List α}
    (hL : t.Chosen T L) (hL' : t.Chosen T' L') : ∃ Z, L <+: Z ∧ L' <+: Z := by
  obtain ⟨r, hr, hlast, _⟩ := h.chosen hL
  obtain ⟨r', hr', hlast', _⟩ := h.chosen hL'
  rcases lt_trichotomy T T' with hlt | rfl | hgt
  · exact ⟨r'.last, (h.complete hL hr' hlt).trans r'.grown, hlast'⟩
  · rw [hr, Option.some.injEq] at hr'
    subst hr'
    exact ⟨r.last, hlast, hlast'⟩
  · exact ⟨r.last, hlast, (h.complete hL' hr hgt).trans r.grown⟩

/-- **Agreement.**  Of two agreed logs one is part of the other. -/
theorem Inv.agreed_total (h : t.Inv) {U U' : ℤ} {X Y : List α}
    (hX : t.Agreed U X) (hY : t.Agreed U' Y) : X <+: Y ∨ Y <+: X := by
  rcases hX with rfl | ⟨T, L, _, hL, hXL⟩
  · exact Or.inl (List.nil_prefix)
  rcases hY with rfl | ⟨T', L', _, hL', hYL⟩
  · exact Or.inr (List.nil_prefix)
  obtain ⟨Z, hLZ, hLZ'⟩ := h.chosen_join hL hL'
  exact List.prefix_or_prefix_of_prefix (hXL.trans hLZ) (hYL.trans hLZ')

/-- An agreed log and any later reign: the reign contains it. -/
theorem Inv.agreed_reign (h : t.Inv) {U T : ℤ} {X : List α} {r : Reign α} (hX : t.Agreed U X)
    (hr : t.reign T = some r) (hle : U ≤ T) : X <+: r.last := by
  rcases hX with rfl | ⟨T₀, L, hT₀, hL, hXL⟩
  · exact List.nil_prefix
  · rcases lt_or_eq_of_le (hT₀.trans hle) with hlt | rfl
    · exact hXL.trans ((h.complete hL hr hlt).trans r.grown)
    · obtain ⟨r', hr', hlast, _⟩ := h.chosen hL
      rw [hr, Option.some.injEq] at hr'
      exact hXL.trans (hr' ▸ hlast)

/-- What is agreed in a term without a reign was agreed before it. -/
theorem Inv.agreed_before (h : t.Inv) {U : ℤ} {X : List α} (hX : t.Agreed U X)
    (hnone : t.reign U = none) : t.Agreed (U - 1) X := by
  rcases hX with rfl | ⟨T, L, hT, hL, hXL⟩
  · exact Or.inl rfl
  · refine Or.inr ⟨T, L, ?_, hL, hXL⟩
    obtain ⟨r, hr, _⟩ := h.chosen hL
    have hne : T ≠ U := by
      rintro rfl
      rw [hnone] at hr
      cases hr
    omega

omit [DecidableEq ν] in
/-- The terms in a reign are at most that of the reign. -/
theorem Inv.reign_bounded (h : t.Inv) {T : ℤ} {r : Reign α} (hr : t.reign T = some r) {e : α}
    (he : e ∈ r.last) : Stamped.term e ≤ T := by
  obtain ⟨_, _, _, hfirst, hrest⟩ := h.reign T r hr
  obtain ⟨k, hk⟩ := List.getElem?_of_mem he
  rcases Nat.lt_or_ge k r.first.length with hlt | hge
  · have hmem : e ∈ r.first := by
      obtain ⟨e', he'⟩ : ∃ e', r.first[k]? = some e' := ⟨_, List.getElem?_eq_getElem hlt⟩
      have := getElem?_of_isPrefix r.grown he'
      rw [hk, Option.some.injEq] at this
      exact this ▸ List.mem_of_getElem? he'
    exact (hfirst e hmem).le
  · exact (hrest k e hk hge).le

/-- An agreed log is rooted, and its terms are at most the bound. -/
theorem Inv.agreed_rooted (h : t.Inv) {U : ℤ} {X : List α} (hX : t.Agreed U X) :
    t.Rooted X ∧ ∀ e ∈ X, Stamped.term e ≤ U := by
  rcases hX with rfl | ⟨T, L, hT, hL, hXL⟩
  · exact ⟨.nil t, fun e he => by cases he⟩
  · obtain ⟨r, hr, hlast, _⟩ := h.chosen hL
    have hXr := hXL.trans hlast
    exact ⟨(h.reign T r hr).2.1.of_isPrefix hXr,
      fun e he => (h.reign_bounded hr (hXr.subset he)).trans hT⟩

end safety

end Consensus

end RaftStore
