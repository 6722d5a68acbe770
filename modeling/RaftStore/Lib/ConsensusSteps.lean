import RaftStore.Lib.Consensus

namespace RaftStore

/-!
# The steps of the abstract account

Members move to larger terms, vote, start reigns on a majority of ballots, propose, take over
logs and acknowledge them.

* `Consensus.Next` — the steps; `Consensus.Next.inv` — each keeps `Consensus.Inv`.
* `Consensus.Stands` — what a candidate may have done to its log until it is elected.
* `Consensus.Own` — steps in which one member moves and no reign changes.
-/

namespace Consensus

variable {ν α : Type*} [Stamped α] [Fintype ν]

/-! ### Steps -/

section steps

variable [DecidableEq ν] {t t' : Consensus ν α}

/-- The steps.  A member takes over a log from the reign of its term unless it has more of it,
    or an agreed log that is no shorter than its own. -/
inductive Next (t : Consensus ν α) : Consensus ν α → Prop
  | raise (j : ν) (T : ℤ) : Next t (t.raise j T)
  | cast (j : ν) : Next t (t.cast j)
  | elect (i : ν) (C : List α) (Q : Finset ν) (hpos : 0 < t.term i)
      (hnone : t.reign (t.term i) = none) (hC : t.Rooted C)
      (hterm : ∀ e ∈ C, Stamped.term e < t.term i) (hcarry : t.Carries (t.term i) C (t.log i))
      (hQ : Majority Q) (hvotes : ∀ j ∈ Q, ∃ J, (j, t.term i, J) ∈ t.ballots ∧ UpToDate C J) :
      Next t (t.elect i)
  | propose (i : ν) (e : α) (r : Reign α) (hr : t.reign (t.term i) = some r)
      (hlast : r.last = t.log i) (he : Stamped.term e = t.term i) : Next t (t.propose i e r)
  | adopt (j : ν) (B : List α) (r : Reign α) (hr : t.reign (t.term j) = some r)
      (hB : B <+: r.last) (hfull : B <+: t.log j → B = t.log j) : Next t (t.setLog j B)
  | install (j : ν) (S : List α) (hS : t.Agreed (t.term j) S)
      (hle : (t.log j).length ≤ S.length) : Next t (t.setLog j S)
  | ack (j : ν) (L : List α) (r : Reign α) (hr : t.reign (t.term j) = some r)
      (hL : L <+: t.log j) (hlast : L <+: r.last) (hlen : r.first.length < L.length) :
      Next t (t.ack j L)

/-- The start: no term, no entry, nothing remembered. -/
def start (ν α : Type*) : Consensus ν α where
  term := fun _ => 0
  log := fun _ => []
  reign := fun _ => none
  ballots := ∅
  acks := ∅

/-- Every step only adds. -/
theorem Next.le (h : t.Next t') : t.Le t' := by
  cases h with
  | raise j T => exact raise_le t j T
  | cast j => exact cast_le t j
  | elect i C Q _ hnone => exact elect_le hnone
  | propose i e r hr => exact propose_le hr e
  | adopt j B => exact setLog_le t j B
  | install j S => exact setLog_le t j S
  | ack j L => exact ack_le t j L

/-! ### The invariant is kept -/

/-- A node may enter a later term at any time. -/
theorem Inv.raise (h : t.Inv) (j : ν) (T : ℤ) : (t.raise j T).Inv := by
  have hle := raise_le t j T
  exact
    { rooted := fun i => (h.rooted i).mono hle
      bounded := fun i e he => (h.bounded i e he).trans (hle.term i)
      reign := fun U r hr => by
        obtain ⟨hpos, hrooted, hrest⟩ := h.reign U r hr
        exact ⟨hpos, hrooted.mono hle, hrest⟩
      acked := fun i U L hack => by
        obtain ⟨hU, hrest⟩ := h.acked i U L hack
        exact ⟨hU.trans (hle.term i), hrest⟩
      keeps := fun i U L hack _ => by
        have hU := (h.acked i U L hack).1
        exact (h.keeps i U L hack (by omega)).imp_right fun hlost => hlost.mono hle (hle.term i)
      ballot := fun i U J hJ => by
        obtain ⟨hU, hrooted, hterm, hkeeps⟩ := h.ballot i U J hJ
        exact ⟨hU.trans (hle.term i), hrooted.mono hle, hterm,
          hkeeps.mono hle (fun _ _ hack _ => hack) le_rfl⟩
      elected := fun U r hr => by
        obtain ⟨C, Q, hC, hcarry, hterm, hQ, hvotes⟩ := h.elected U r hr
        refine ⟨C, Q, hC.mono hle, hcarry.mono hle, hterm, hQ, fun i hi => ?_⟩
        obtain ⟨hU, J, hJ, hup, hkeeps⟩ := hvotes i hi
        exact ⟨hU.trans (hle.term i), J, hJ.mono hle, hup,
          hkeeps.mono hle (fun _ _ hack _ => hack) le_rfl⟩ }

omit [DecidableEq ν] in
/-- A node may vote with the log that it has. -/
theorem Inv.cast (h : t.Inv) (j : ν) : (t.cast j).Inv :=
  { h with
    ballot := fun i U J hJ => by
      rcases Set.mem_insert_iff.mp hJ with heq | hJ
      · obtain ⟨rfl, rfl, rfl⟩ : i = j ∧ U = t.term j ∧ J = t.log j := by simpa using heq
        exact ⟨le_rfl, h.rooted i, h.bounded i,
          fun T L hack hT => h.keeps i T L hack (by omega)⟩
      · exact h.ballot i U J hJ }

omit [DecidableEq ν] in
/-- A majority of ballots for a log that carries all that is chosen makes a leader. -/
theorem Inv.elect (h : t.Inv) {i : ν} {C : List α} {Q : Finset ν} (hpos : 0 < t.term i)
    (hnone : t.reign (t.term i) = none) (hC : t.Rooted C)
    (hterm : ∀ e ∈ C, Stamped.term e < t.term i) (hcarry : t.Carries (t.term i) C (t.log i))
    (hQ : Majority Q) (hvotes : ∀ j ∈ Q, ∃ J, (j, t.term i, J) ∈ t.ballots ∧ UpToDate C J) :
    (t.elect i).Inv := by
  have hle := elect_le hnone
  have hlt := (h.rooted i).lt_of_none hnone (h.bounded i)
  refine { rooted := fun j => (h.rooted j).mono hle, bounded := h.bounded, reign := ?_, acked := ?_,
           keeps := ?_, ballot := ?_, elected := ?_ }
  · intro U r hr
    rcases elect_reign hr with ⟨rfl, rfl⟩ | hr
    · refine ⟨hpos, (h.rooted i).mono hle, h.sorted (h.rooted i), hlt, fun k e he hk => ?_⟩
      have := (List.getElem?_eq_some_iff.mp he).1
      exact absurd hk (by simpa [Reign.start] using this)
    · obtain ⟨hU, hrooted, hrest⟩ := h.reign U r hr
      exact ⟨hU, hrooted.mono hle, hrest⟩
  · intro j U L hack
    obtain ⟨hU, r, hr, hlast, hlen⟩ := h.acked j U L hack
    obtain ⟨r', hr', hfirst, hlast'⟩ := hle.reign U r hr
    exact ⟨hU, r', hr', hlast.trans hlast', hfirst ▸ hlen⟩
  · exact fun j => (h.keeps j).mono hle (fun _ _ hack _ => hack) le_rfl
  · intro j U J hJ
    obtain ⟨hU, hrooted, hJterm, hkeeps⟩ := h.ballot j U J hJ
    exact ⟨hU, hrooted.mono hle, hJterm, hkeeps.mono hle (fun _ _ hack _ => hack) le_rfl⟩
  · intro U r hr
    rcases elect_reign hr with ⟨rfl, rfl⟩ | hr
    · refine ⟨C, Q, hC.mono hle, hcarry.mono hle, hterm, hQ, fun j hj => ?_⟩
      obtain ⟨J, hJ, hup⟩ := hvotes j hj
      obtain ⟨hU, hrooted, _, hkeeps⟩ := h.ballot j _ J hJ
      refine ⟨hU, J, hrooted.mono hle, hup, fun T L hack hT => ?_⟩
      -- the ballots were cast before this reign started, so it lost nothing yet
      refine (hkeeps T L hack hT).imp_right fun ⟨T', r, hTT', hT', hr, hnot⟩ => ?_
      have hne : T' ≠ t.term i := by
        rintro rfl
        rw [hnone] at hr
        cases hr
      exact Lost.mono ⟨T', r, hTT', by omega, hr, hnot⟩ hle le_rfl
    · obtain ⟨C', Q', hC', hcarry', hterm', hQ', hvotes'⟩ := h.elected U r hr
      refine ⟨C', Q', hC'.mono hle, hcarry'.mono hle, hterm', hQ', fun j hj => ?_⟩
      obtain ⟨hU, J, hJ, hup, hkeeps⟩ := hvotes' j hj
      exact ⟨hU, J, hJ.mono hle, hup, hkeeps.mono hle (fun _ _ hack _ => hack) le_rfl⟩

/-- A leader may append an entry of its term. -/
theorem Inv.propose (h : t.Inv) {i : ν} {e : α} {r : Reign α} (hr : t.reign (t.term i) = some r)
    (hlast : r.last = t.log i) (he : Stamped.term e = t.term i) : (t.propose i e r).Inv := by
  have hle := propose_le hr e
  obtain ⟨hpos, hrooted, hsorted, hfirst, hrest⟩ := h.reign _ r hr
  have hgrown : (t.propose i e r).reign (t.term i) = some (r.grow e) := Function.update_self ..
  have hlogs : (t.propose i e r).log = (t.setLog i (t.log i ++ [e])).log := rfl
  -- the new last position of the reign
  have hnew : ∀ {k : ℕ} {e' : α}, (t.log i ++ [e])[k]? = some e' →
      (t.log i)[k]? = some e' ∨ k = (t.log i).length ∧ e' = e := getElem?_concat_cases
  have hgrow : (t.propose i e r).Rooted (t.log i ++ [e]) := by
    intro k e' hk
    rcases hnew hk with hk | ⟨rfl, rfl⟩
    · obtain ⟨r', hr', hfirst', htake⟩ := ((h.rooted i).mono hle) k e' hk
      rw [List.take_append_of_le_length (List.getElem?_eq_some_iff.mp hk).1]
      exact ⟨r', hr', hfirst', htake⟩
    · refine ⟨r.grow e', he ▸ hgrown, ?_, ?_⟩
      · rw [← hlast]
        exact r.grown.length_le
      · rw [List.take_of_length_le (by simp), Reign.grow_last, hlast]
  refine { rooted := ?_, bounded := ?_, reign := ?_, acked := ?_, keeps := ?_, ballot := ?_,
           elected := ?_ }
  · rw [hlogs]
    exact setLog_log_cases (p := fun X _ => (t.propose i e r).Rooted X) hgrow
      fun j _ => (h.rooted j).mono hle
  · rw [hlogs]
    refine setLog_log_cases (p := fun X j => ∀ e ∈ X, Stamped.term e ≤ t.term j) (fun e' he' => ?_)
      fun j _ => h.bounded j
    rcases List.mem_append.mp he' with he' | he'
    · exact h.bounded i e' he'
    · rw [List.mem_singleton.mp he', he]
  · intro U r' hr'
    rcases propose_reign hr' with ⟨rfl, rfl⟩ | ⟨_, hr'⟩
    · refine ⟨hpos, ?_, ?_, hfirst, fun k e' hk hge => ?_⟩
      · rw [Reign.grow_last, hlast]
        exact hgrow
      · rw [Reign.grow_last, hlast]
        refine List.pairwise_append.mpr ⟨hlast ▸ hsorted, List.pairwise_singleton _ _, ?_⟩
        intro a ha b hb
        rw [List.mem_singleton.mp hb, he]
        exact h.bounded i a ha
      · rw [Reign.grow_last, hlast] at hk
        rcases hnew hk with hk | ⟨_, rfl⟩
        · exact hrest k e' (hlast ▸ hk) hge
        · exact he
    · obtain ⟨hU, hrooted', hrest'⟩ := h.reign U r' hr'
      exact ⟨hU, hrooted'.mono hle, hrest'⟩
  · intro j U L hack
    obtain ⟨hU, r₀, hr₀, hlast₀, hlen₀⟩ := h.acked j U L hack
    obtain ⟨r', hr', hfirst', hlast'⟩ := hle.reign U r₀ hr₀
    exact ⟨hU, r', hr', hlast₀.trans hlast', hfirst' ▸ hlen₀⟩
  · rw [hlogs]
    refine setLog_log_cases
      (p := fun X j => (t.propose i e r).Keeps j (t.term j + 1) (t.term j) X) (fun T L hack hT => ?_)
      fun j _ => (h.keeps j).mono hle (fun _ _ hack _ => hack) le_rfl
    rcases h.keeps i T L hack hT with hL | hlost
    · exact Or.inl (hL.trans (List.prefix_append _ _))
    · exact Or.inr (hlost.mono hle le_rfl)
  · intro j U J hJ
    obtain ⟨hU, hrootedJ, hJterm, hkeeps⟩ := h.ballot j U J hJ
    exact ⟨hU, hrootedJ.mono hle, hJterm, hkeeps.mono hle (fun _ _ hack _ => hack) le_rfl⟩
  · intro U r' hr'
    obtain ⟨r₀, hr₀, hfirst₀⟩ : ∃ r₀, t.reign U = some r₀ ∧ r₀.first = r'.first := by
      rcases propose_reign hr' with ⟨rfl, rfl⟩ | ⟨_, hr'⟩
      · exact ⟨r, hr, rfl⟩
      · exact ⟨r', hr', rfl⟩
    obtain ⟨C, Q, hC, hcarry, hterm, hQ, hvotes⟩ := h.elected U r₀ hr₀
    rw [hfirst₀] at hcarry
    refine ⟨C, Q, hC.mono hle, hcarry.mono hle, hterm, hQ, fun j hj => ?_⟩
    obtain ⟨hU, J, hJ, hup, hkeeps⟩ := hvotes j hj
    exact ⟨hU, J, hJ.mono hle, hup, hkeeps.mono hle (fun _ _ hack _ => hack) le_rfl⟩

/-- A member may take over any rooted log that keeps what it has acknowledged. -/
theorem Inv.setLog (h : t.Inv) {j : ν} {X : List α} (hX : t.Rooted X)
    (hbound : ∀ e ∈ X, Stamped.term e ≤ t.term j)
    (hkeeps : t.Keeps j (t.term j + 1) (t.term j) X) : (t.setLog j X).Inv :=
  { rooted := setLog_log_cases (p := fun X _ => (t.setLog j X).Rooted X) hX fun i _ => h.rooted i
    bounded := setLog_log_cases (p := fun X i => ∀ e ∈ X, Stamped.term e ≤ t.term i) hbound
      fun i _ => h.bounded i
    reign := h.reign
    acked := h.acked
    keeps := setLog_log_cases (p := fun X i => t.Keeps i (t.term i + 1) (t.term i) X) hkeeps
      fun i _ => h.keeps i
    ballot := h.ballot
    elected := h.elected }

omit [DecidableEq ν] in
/-- A log from the reign of a member's term keeps what the member has acknowledged, unless the
    member has more of that reign. -/
theorem Inv.keeps_adopt (h : t.Inv) {j : ν} {B : List α} {r : Reign α}
    (hr : t.reign (t.term j) = some r) (hB : B <+: r.last) (hfull : B <+: t.log j → B = t.log j) :
    t.Keeps j (t.term j + 1) (t.term j) B := by
  intro T L hack hT
  rcases h.keeps j T L hack hT with hL | hlost
  · -- within one reign `L` and `B` are comparable
    have hin : L <+: r.last → L <+: B := by
      intro hLr
      rcases List.prefix_or_prefix_of_prefix hLr hB with hLB | hBL
      · exact hLB
      · rw [hfull (hBL.trans hL)]
        exact hL
    obtain ⟨hle, r', hr', hlast, _⟩ := h.acked j T L hack
    rcases lt_or_eq_of_le hle with hlt | rfl
    · by_cases hLr : L <+: r.first
      · exact Or.inl (hin (hLr.trans r.grown))
      · exact Or.inr ⟨t.term j, r, hlt, le_rfl, hr, hLr⟩
    · rw [hr, Option.some.injEq] at hr'
      exact Or.inl (hin (hr' ▸ hlast))
  · exact Or.inr hlost

/-- An agreed log no shorter than a member's own keeps what the member has acknowledged. -/
theorem Inv.keeps_install (h : t.Inv) {j : ν} {S : List α} (hS : t.Agreed (t.term j) S)
    (hle : (t.log j).length ≤ S.length) : t.Keeps j (t.term j + 1) (t.term j) S := by
  intro T L hack hT
  rcases h.keeps j T L hack hT with hL | hlost
  · have hlen : L.length ≤ S.length := hL.length_le.trans hle
    obtain ⟨_, r, hr, hlast, hfirst⟩ := h.acked j T L hack
    rcases hS with rfl | ⟨T₀, L₀, hT₀, hL₀, hSL⟩
    · rw [List.length_nil] at hlen
      omega
    · obtain ⟨r₀, hr₀, hlast₀, _⟩ := h.chosen hL₀
      rcases lt_trichotomy T T₀ with hlt | rfl | hgt
      · by_cases hLr : L <+: r₀.first
        · exact Or.inl (isPrefix_of_le (hLr.trans r₀.grown) (hSL.trans hlast₀) hlen)
        · exact Or.inr ⟨T₀, r₀, hlt, hT₀, hr₀, hLr⟩
      · rw [hr, Option.some.injEq] at hr₀
        subst hr₀
        exact Or.inl (isPrefix_of_le hlast (hSL.trans hlast₀) hlen)
      · have hin := (h.complete hL₀ hr hgt).trans r.grown
        exact Or.inl (isPrefix_of_le hlast (hSL.trans hin) hlen)
  · exact Or.inr hlost

omit [DecidableEq ν] in
/-- A node may acknowledge what it holds of the leader's log. -/
theorem Inv.ack (h : t.Inv) {j : ν} {L : List α} {r : Reign α}
    (hr : t.reign (t.term j) = some r) (hL : L <+: t.log j) (hlast : L <+: r.last)
    (hlen : r.first.length < L.length) : (t.ack j L).Inv := by
  have hle := ack_le t j L
  have hcases : ∀ {i T L'}, (i, T, L') ∈ (t.ack j L).acks →
      (i = j ∧ T = t.term j ∧ L' = L) ∨ (i, T, L') ∈ t.acks := by
    intro i T L' hack
    rcases Set.mem_insert_iff.mp hack with heq | hack
    · exact Or.inl (by simpa using heq)
    · exact Or.inr hack
  -- the acknowledgement is of the member's own term, so it matters for no ballot cast so far
  have hold : ∀ {i U}, U ≤ t.term i → ∀ T L', (i, T, L') ∈ (t.ack j L).acks → T < U →
      (i, T, L') ∈ t.acks := by
    intro i U hU T L' hack hT
    rcases hcases hack with ⟨rfl, rfl, rfl⟩ | hack
    · omega
    · exact hack
  refine { rooted := h.rooted, bounded := h.bounded, reign := h.reign, acked := ?_, keeps := ?_,
           ballot := ?_, elected := ?_ }
  · intro i T L' hack
    rcases hcases hack with ⟨rfl, rfl, rfl⟩ | hack
    · exact ⟨le_rfl, r, hr, hlast, hlen⟩
    · exact h.acked i T L' hack
  · intro i T L' hack hT
    rcases hcases hack with ⟨rfl, rfl, rfl⟩ | hack
    · exact Or.inl hL
    · exact h.keeps i T L' hack hT
  · intro i U J hJ
    obtain ⟨hU, hrooted, hterm, hkeeps⟩ := h.ballot i U J hJ
    exact ⟨hU, hrooted, hterm, hkeeps.mono hle (hold hU) le_rfl⟩
  · intro U r' hr'
    obtain ⟨C, Q, hC, hcarry, hterm, hQ, hvotes⟩ := h.elected U r' hr'
    refine ⟨C, Q, hC, hcarry.mono hle, hterm, hQ, fun i hi => ?_⟩
    obtain ⟨hU, J, hJ, hup, hkeeps⟩ := hvotes i hi
    exact ⟨hU, J, hJ, hup, hkeeps.mono hle (hold hU) le_rfl⟩

/-- **Every step keeps the invariant.** -/
theorem Next.inv (hn : t.Next t') (h : t.Inv) : t'.Inv := by
  cases hn with
  | raise j T => exact h.raise j T
  | cast j => exact h.cast j
  | elect i C Q hpos hnone hC hterm hcarry hQ hvotes =>
    exact h.elect hpos hnone hC hterm hcarry hQ hvotes
  | propose i e r hr hlast he => exact h.propose hr hlast he
  | adopt j B r hr hB hfull =>
    obtain ⟨_, hrooted, _⟩ := h.reign _ r hr
    exact h.setLog (hrooted.of_isPrefix hB) (fun e he => h.reign_bounded hr (hB.subset he))
      (h.keeps_adopt hr hB hfull)
  | install j S hS hle =>
    obtain ⟨hrooted, hbound⟩ := h.agreed_rooted hS
    exact h.setLog hrooted hbound (h.keeps_install hS hle)
  | ack j L r hr hL hlast hlen => exact h.ack hr hL hlast hlen

omit [DecidableEq ν] in
/-- Nobody has voted, leads or holds anything at the start. -/
theorem inv_start : (start ν α).Inv where
  rooted _ := .nil _
  bounded _ _ he := by cases he
  reign _ _ hr := by cases hr
  acked _ _ _ hack := hack.elim
  keeps _ _ _ hack := hack.elim
  ballot _ _ _ hJ := hJ.elim
  elected _ _ hr := by cases hr

/-- **The invariant holds after any steps.** -/
theorem Inv.steps (hinv : t.Inv) (h : Relation.ReflTransGen Next t t') : t'.Inv := by
  induction h with
  | refl => exact hinv
  | tail _ hn ih => exact hn.inv ih

/-- Steps take nothing back. -/
theorem le_of_steps (h : Relation.ReflTransGen Next t t') : t.Le t' := by
  induction h with
  | refl => exact .refl t
  | tail _ hn ih => exact ih.trans hn.le

/-! ### Agreed beginnings -/

/-- An agreed beginning of log `X` survives when a log of a later reign takes its place. -/
theorem Inv.agreed_adopt (h : t.Inv) {U T : ℤ} {P X B : List α} {r : Reign α}
    (hP : t.Agreed U P) (hlog : P <+: X) (hr : t.reign T = some r) (hle : U ≤ T)
    (hB : B <+: r.last) (hfull : B <+: X → B = X) : P <+: B := by
  rcases List.prefix_or_prefix_of_prefix (h.agreed_reign hP hr hle) hB with hPB | hBP
  · exact hPB
  · rw [hfull (hBP.trans hlog)]
    exact hlog

/-! ### Candidates -/

/-- As long as the candidate is in term `T` and nobody reigns there, it still stands with what
    it asked for votes with. -/
def Stands (t : Consensus ν α) (i : ν) (T : ℤ) (C : List α) : Prop :=
  t.term i = T → t.reign T = none → t.Carries T C (t.log i)

omit [Stamped α] [DecidableEq ν] in
/-- A candidate still stands after a change that leaves its log alone. -/
theorem Stands.mono {i : ν} {T : ℤ} {C : List α} (h : t.Stands i T C) (hle : t.Le t')
    (hT : T ≤ t.term i) (hlog : t'.log i = t.log i) : t'.Stands i T C := by
  intro hterm hnone
  have hnone' : t.reign T = none := by
    cases hr : t.reign T with
    | none => rfl
    | some r =>
      obtain ⟨r', hr', _⟩ := hle.reign T r hr
      rw [hnone] at hr'
      cases hr'
  have hle' := hle.term i
  rw [hlog]
  exact (h (by omega) hnone').mono hle

omit [Stamped α] [DecidableEq ν] in
/-- Nobody stands in a term that has its reign. -/
theorem Stands.of_reign {i : ν} {T : ℤ} {C : List α} {r : Reign α}
    (hr : t.reign (t.term i) = some r) : t.Stands i T C := by
  rintro rfl hnone
  rw [hr] at hnone
  cases hnone

/-- A candidate still stands after a step. -/
theorem Next.stands (hn : t.Next t') (hinv : t.Inv) {i : ν} {T : ℤ} {C : List α}
    (hT : T ≤ t.term i) (h : t.Stands i T C) : t'.Stands i T C := by
  have hle := hn.le
  have hset : ∀ {j : ν} {X : List α}, j ≠ i → (t.setLog j X).Stands i T C := fun hj =>
    h.mono (setLog_le t _ _) hT (Function.update_of_ne (Ne.symm hj) _ _)
  cases hn with
  | raise | cast | elect | ack => exact h.mono hle hT rfl
  | propose j e r hr hlast he =>
    by_cases hj : j = i
    · subst hj
      exact .of_reign (r := r.grow e) (Function.update_self ..)
    · exact h.mono hle hT (Function.update_of_ne (Ne.symm hj) _ _)
  | adopt j B r hr hB hfull =>
    by_cases hj : j = i
    · subst hj
      exact .of_reign hr
    · exact hset hj
  | install j S hS hlen =>
    by_cases hj : j = i
    -- the installed prefix is agreed, so it agrees with what the candidate counted on
    · subst hj
      intro hterm hnone
      have hterm : t.term j = T := hterm
      subst hterm
      have hlog : (t.setLog j S).log j = S := Function.update_self ..
      have hbefore := (hinv.agreed_before hS hnone).mono (setLog_le t j S) le_rfl
      have hC : C.length ≤ (t.log j).length := by
        rcases h rfl hnone with heq | ⟨hC, _⟩
        · exact heq ▸ le_rfl
        · exact hC
      rw [hlog]
      exact Or.inr ⟨hC.trans hlen, hbefore⟩
    · exact hset hj

/-- A candidate still stands after any steps. -/
theorem Stands.steps {i : ν} {T : ℤ} {C : List α} (h : t.Stands i T C) (hinv : t.Inv)
    (hT : T ≤ t.term i) (hsteps : Relation.ReflTransGen Next t t') : t'.Stands i T C := by
  induction hsteps with
  | refl => exact h
  | tail hs hn ih => exact hn.stands (hinv.steps hs) (hT.trans ((le_of_steps hs).term i)) ih

/-! ### Steps of one member -/

/-- Steps in which member `i` moves and no reign changes. -/
structure Own (i : ν) (t t' : Consensus ν α) : Prop where
  steps : Relation.ReflTransGen Next t t'
  term : ∀ j, j ≠ i → t'.term j = t.term j
  log : ∀ j, j ≠ i → t'.log j = t.log j
  reign : t'.reign = t.reign

/-- No step at all. -/
theorem Own.refl (i : ν) (t : Consensus ν α) : Own i t t :=
  ⟨.refl, fun _ _ => rfl, fun _ _ => rfl, rfl⟩

/-- Steps of the same member one after another. -/
theorem Own.trans {i : ν} {t'' : Consensus ν α} (h : Own i t t') (h' : Own i t' t'') :
    Own i t t'' where
  steps := h.steps.trans h'.steps
  term j hj := (h'.term j hj).trans (h.term j hj)
  log j hj := (h'.log j hj).trans (h.log j hj)
  reign := h'.reign.trans h.reign

/-- The member enters a later term. -/
theorem Own.raise (i : ν) (t : Consensus ν α) (T : ℤ) : Own i t (t.raise i T) where
  steps := .single (.raise i T)
  term _ hj := Function.update_of_ne hj _ _
  log _ _ := rfl
  reign := rfl

/-- The member votes. -/
theorem Own.cast (i : ν) (t : Consensus ν α) : Own i t (t.cast i) where
  steps := .single (.cast i)
  term _ _ := rfl
  log _ _ := rfl
  reign := rfl

/-- The member replaces its log. -/
theorem Own.setLog {i : ν} {X : List α} (hn : t.Next (t.setLog i X)) : Own i t (t.setLog i X) where
  steps := .single hn
  term _ _ := rfl
  log _ hj := Function.update_of_ne hj _ _
  reign := rfl

/-- The member acknowledges a log. -/
theorem Own.ack {i : ν} {L : List α} (hn : t.Next (t.ack i L)) : Own i t (t.ack i L) where
  steps := .single hn
  term _ _ := rfl
  log _ _ := rfl
  reign := rfl

end steps

end Consensus

end RaftStore
