import Mathlib.Data.Fintype.Lattice
import RaftStore.Cluster.Delivery
import RaftStore.Cluster.Safety
import RaftStore.Lib.Traces

namespace RaftStore

/-!
# What a run of the cluster keeps

Facts about two states of one run, and about all of its states together.

* `Cluster.leader_append_only` — as long as a node leads in one term it only continues its log;
  this holds in every run.
* `Cluster.leader_completeness` — an entry that some node has committed is in the log of every
  later leader whose term is no smaller.
* `Cluster.committed_log` — **refinement**: the committed entries of the whole cluster are one
  list that only grows, and the nodes commit, compact and apply beginnings of it.
-/

namespace Cluster

open Consensus (lastTerm Next)
open Relation (ReflTransGen)

variable {n : ℕ}

/-! ### Leaders continue their logs -/

section continues

variable [RaftArchive] {s s' : Cluster n}

/-- What a step does to a node that leads after it, in a term it was elected in before. -/
theorem Change.leader_extends {a : Step n} (hshape : s.Shape) (hel : s.Elections)
    (hc : Change s a s') {i : Fin n} (hlead : (s'.nodes i).status = .leader)
    (he : .elected i (s'.nodes i).currentTerm ∈ s.history) :
    (s.nodes i).status = .leader ∧ (s'.nodes i).currentTerm = (s.nodes i).currentTerm ∧
      (s.nodes i).Extends (s'.nodes i) := by
  obtain ⟨hstatus, hterm⟩ := hc.leads hel hlead he
  refine ⟨hstatus, hterm, ?_⟩
  rcases hc.moves hshape i with heq | hm
  · rw [heq]
    exact .refl _
  · exact hm.extends (hshape.node i) hlead

/-- What is in the history stays there. -/
theorem history_of_reach (h : Reach step anyStep (init n) s) (hrun : Reach step anyStep s s')
    {ev : Event n} (hev : ev ∈ s.history) : ev ∈ s'.history := by
  induction hrun with
  | refl => exact hev
  | tail hr _ hs ih => exact (reach_change (h.trans hr) hs).history_mono ih

/-- A node that has been elected in a term and leads in it has continued its log since. -/
theorem extends_of_reach (h : Reach step anyStep (init n) s) (hrun : Reach step anyStep s s')
    {i : Fin n} (he : .elected i (s.nodes i).currentTerm ∈ s.history)
    (hlead : (s'.nodes i).status = .leader)
    (hterm : (s'.nodes i).currentTerm = (s.nodes i).currentTerm) :
    (s.nodes i).Extends (s'.nodes i) := by
  induction hrun with
  | refl => exact .refl _
  | @tail t t' a hr _ hs ih =>
    have ht := h.trans hr
    -- the election is remembered, so the term was not won a second time
    have hkept := history_of_reach h hr he
    obtain ⟨hstatus, hcur, hext⟩ := (reach_change ht hs).leader_extends (shape_reach ht)
      (elections_reach ht) hlead (hterm ▸ hkept)
    exact (ih hstatus (hcur.symm.trans hterm)).trans hext

/-- **Leader append-only.**  If nodes lead in one term at two points of a run, they are one node,
    and it has only continued its log in between, whatever the messages did: it holds the entries
    it held, but for those that have gone into a snapshot. -/
theorem leader_append_only (h : Reach step anyStep (init n) s) (hrun : Reach step anyStep s s')
    {i j : Fin n} (hlead : (s.nodes i).status = .leader) (hlead' : (s'.nodes j).status = .leader)
    (hterm : (s'.nodes j).currentTerm = (s.nodes i).currentTerm) :
    i = j ∧ (s.nodes i).getLastLogIndex ≤ (s'.nodes j).getLastLogIndex ∧
      ∀ k, (s'.nodes j).lastSnapshotIncludeIndex < k → k ≤ (s.nodes i).getLastLogIndex →
        (s'.nodes j).entryAt k = (s.nodes i).entryAt k := by
  have he := (elections_reach h).leads i hlead
  have he' := (elections_reach (h.trans hrun)).leads j hlead'
  have hkept := history_of_reach h hrun he
  obtain rfl : i = j := (elections_reach (h.trans hrun)).elected_unique hkept (hterm ▸ he')
  have hext := extends_of_reach h hrun he hlead' hterm
  exact ⟨rfl, hext.last, hext.entryAt⟩

end continues

/-- The leader of the first term has one entry, and later two. -/
theorem leader_append_only_secondCommand :
    letI := textRaftArchive
    ∃ s s' : Cluster 3, Reach step anyStep s s' ∧ (s.nodes 0).logs = [⟨"x", 1, 1⟩] ∧
      (s'.nodes 0).entryAt 1 = (s.nodes 0).entryAt 1 := by
  let := textRaftArchive
  have hrun : (runFrom (step : Cluster 3 → _) anyStep (init 3)
      [.doElection 0, .requestVote 0, .sendRequestVote 0, .start 0 "x"]).bind (fun s =>
        (runFrom step anyStep s [.doHeartBeat 0, .start 0 "y"]).map fun s' =>
          (((s.nodes 0).status, (s.nodes 0).currentTerm, (s.nodes 0).logs),
            (s'.nodes 0).status, (s'.nodes 0).currentTerm,
            (s'.nodes 0).lastSnapshotIncludeIndex)) =
      some ((.leader, 1, [⟨"x", 1, 1⟩]), .leader, 1, 0) := by
    decide
  obtain ⟨s, hs, hrest⟩ := Option.bind_eq_some_iff.mp hrun
  obtain ⟨s', hs', hshow⟩ := Option.map_eq_some_iff.mp hrest
  simp only [Prod.mk.injEq] at hshow
  obtain ⟨⟨hlead, hterm, hlogs⟩, hlead', hterm', hsnap'⟩ := hshow
  have hlast : (s.nodes 0).getLastLogIndex = 1 := by
    simp [Raft.getLastLogIndex, Raft.getLastLogIndexAndTerm, hlogs]
  obtain ⟨_, _, hentry⟩ := leader_append_only (.of_runFrom hs) (.of_runFrom hs') hlead hlead'
    (hterm'.trans hterm.symm)
  exact ⟨s, s', .of_runFrom hs', hlogs, hentry 1 (by omega) (by omega)⟩

/-! ### Committed entries in later leaders -/

section committed

variable {s : Cluster n} {t : Consensus (Fin n) LogEntry}

/-- What a node has committed is a list that is agreed in its term. -/
theorem Sim.committed (h : Sim s t) (hshape : s.Shape) (i : Fin n) :
    ∃ P, t.Agreed (s.nodes i).currentTerm P ∧ (s.nodes i).commitIndex = List.length P ∧
      ∀ m, (s.nodes i).lastSnapshotIncludeIndex < m → m ≤ (s.nodes i).commitIndex →
        (s.nodes i).entryAt m = P[(m - 1).toNat]? := by
  have hwf := hshape.node i
  have hnonneg := hwf.nonneg
  have happlied := hwf.applied
  have hcommitted := hwf.committed
  have hlast := hwf.last
  obtain ⟨V, hfull, hP, _⟩ := (h.node i).view
  have hlen := hfull.length hwf.toLogWF
  refine ⟨_, hP, ?_, fun m hsnap hm => ?_⟩
  · rw [List.length_take]
    omega
  · rw [hfull.entryAt hwf.toLogWF hsnap, List.getElem?_take_of_lt (by omega)]

/-- What is agreed in a term is part of the log of every leader whose term is no smaller. -/
theorem Sim.leader_holds (h : Sim s t) (hinv : t.Inv) {j : Fin n}
    (hlead : (s.nodes j).status = .leader) {U : ℤ} {P : List LogEntry} (hP : t.Agreed U P)
    (hle : U ≤ (s.nodes j).currentTerm) : P <+: t.log j := by
  obtain ⟨r, hr, hlast⟩ := (h.node j).leads hlead
  rw [← hlast]
  exact hinv.agreed_reign hP hr hle

variable [RaftArchive] {s' : Cluster n}

/-- A step from a reachable state goes on with its account. -/
theorem Sim.forward {a : Step n} (h : Reach step Covered (init n) s) (hsim : Sim s t) (hinv : t.Inv)
    (hok : s.Covered a) (hs : s.step a = some s') : ∃ t', ReflTransGen Next t t' ∧ Sim s' t' :=
  (reach_change h hs).sim hsim hinv (shape_reach h) (elections_reach h)
    (elections_reach (h.tail hok hs)) (rounds_reach h) (rounds_reach (h.tail hok hs)) hok

/-- The account of a state goes on to one of each later state. -/
theorem Sim.reach (h : Reach step Covered (init n) s) (hsim : Sim s t) (hinv : t.Inv)
    (hrun : Reach step Covered s s') :
    ∃ t', ReflTransGen Next t t' ∧ t'.Inv ∧ Sim s' t' := by
  induction hrun with
  | refl => exact ⟨t, .refl, hinv, hsim⟩
  | @tail u u' a hr hok hs ih =>
    obtain ⟨t', ht, hinv', hsim'⟩ := ih
    obtain ⟨t'', ht', hsim''⟩ := hsim'.forward (h.trans hr) hinv' hok hs
    exact ⟨t'', ht.trans ht', hinv'.steps ht', hsim''⟩

/-- **Leader completeness.**  In every run in which a request for entries that conflicts with the
    receiver's log reaches the end of that log: an entry that a node has committed is in the log
    of every later leader whose term is not smaller than that node's was, unless the leader has
    it in its snapshot. -/
theorem leader_completeness (h : Reach step Covered (init n) s) (hrun : Reach step Covered s s')
    {i j : Fin n} {m : Int} {e : LogEntry} (he : (s.nodes i).entryAt m = some e)
    (hm : m ≤ (s.nodes i).commitIndex) (hlead : (s'.nodes j).status = .leader)
    (hterm : (s.nodes i).currentTerm ≤ (s'.nodes j).currentTerm) :
    m ≤ (s'.nodes j).getLastLogIndex ∧ ((s'.nodes j).lastSnapshotIncludeIndex < m →
      (s'.nodes j).entryAt m = some e) := by
  obtain ⟨t, hinv, hsim⟩ := sim_reach h
  obtain ⟨t', hsteps, hinv', hsim'⟩ := hsim.reach h hinv hrun
  have hwf := (shape_reach h).node i
  have hwf' := (shape_reach (h.trans hrun)).node j
  have hnonneg := hwf.nonneg
  obtain ⟨hsnap, _⟩ := hwf.toLogWF.entryAt_bounds he
  obtain ⟨P, hP, hlen, hentry⟩ := hsim.committed (shape_reach h) i
  -- what the node had committed has stayed agreed, and the leader's term is late enough
  have hpre : P <+: t'.log j :=
    hsim'.leader_holds hinv' hlead (hP.mono (Consensus.le_of_steps hsteps) le_rfl) hterm
  refine ⟨?_, fun hsnap' => ?_⟩
  · rw [(hsim'.node j).getLastLogIndex hwf'.toLogWF]
    have := hpre.length_le
    omega
  · rw [(hsim'.node j).entryAt hwf'.toLogWF hsnap']
    rw [hentry m hsnap hm] at he
    exact getElem?_of_isPrefix hpre he

end committed

/-- Node 0 commits an entry in term 1; node 1, elected in term 2 by the node that has not heard
    of it, has the entry. -/
theorem leader_completeness_secondTerm :
    letI := textRaftArchive
    ∃ s s' : Cluster 3, Reach step Covered s s' ∧ (s.nodes 0).entryAt 1 = some ⟨"x", 1, 1⟩ ∧
      (s'.nodes 1).currentTerm = 2 ∧ (s'.nodes 1).entryAt 1 = some ⟨"x", 1, 1⟩ := by
  let := textRaftArchive
  have hrun : (runFrom (step : Cluster 3 → _) Covered (init 3)
      [.doElection 0, .requestVote 0, .sendRequestVote 0, .start 0 "x", .doHeartBeat 0,
        .appendEntries1 0, .sendAppendEntries 0]).bind (fun s =>
        (runFrom step Covered s [.doElection 1, .requestVote 3, .sendRequestVote 3]).map fun s' =>
          (((s.nodes 0).entryAt 1, (s.nodes 0).commitIndex, (s.nodes 0).currentTerm),
            (s'.nodes 1).status, (s'.nodes 1).currentTerm,
            (s'.nodes 1).lastSnapshotIncludeIndex)) =
      some ((some ⟨"x", 1, 1⟩, 1, 1), .leader, 2, 0) := by
    decide
  obtain ⟨s, hs, hrest⟩ := Option.bind_eq_some_iff.mp hrun
  obtain ⟨s', hs', hshow⟩ := Option.map_eq_some_iff.mp hrest
  simp only [Prod.mk.injEq] at hshow
  obtain ⟨⟨he, hcommit, hterm⟩, hlead', hterm', hsnap'⟩ := hshow
  obtain ⟨_, hentry⟩ := leader_completeness (.of_runFrom hs) (.of_runFrom hs') he
    (by omega) hlead' (by omega)
  exact ⟨s, s', .of_runFrom hs', he, hterm', hentry (by omega)⟩

/-! ### One committed log -/

/-- `L` is what the cluster has committed: it is as long as the largest commit index, the nodes
    hold its entries up to theirs, their snapshots stand for beginnings of it, and what they apply
    are its commands. -/
structure Commits (s : Cluster n) (L : List LogEntry) : Prop where
  length : L = [] ∨ ∃ i, (s.nodes i).commitIndex = L.length
  committed : ∀ i, (s.nodes i).commitIndex ≤ L.length
  entry : ∀ i m, (s.nodes i).lastSnapshotIncludeIndex < m → m ≤ (s.nodes i).commitIndex →
    (s.nodes i).entryAt m = L[(m - 1).toNat]?
  snapshot : ∀ i, (s.nodes i).lastSnapshotIncludeTerm =
    lastTerm (L.take (s.nodes i).lastSnapshotIncludeIndex.toNat)
  applied : ∀ i msg, .applied i msg ∈ s.history → 1 ≤ msg.commandIndex ∧
    ∃ e, L[(msg.commandIndex - 1).toNat]? = some e ∧ e.command = msg.command

section log

variable [RaftArchive] {s s' : Cluster n} {t : Consensus (Fin n) LogEntry}

/-- No step of a run lowers the term or an index of a node. -/
theorem notLowered_of_reach (h : Reach step anyStep (init n) s) (hrun : Reach step anyStep s s')
    (i : Fin n) : (s.nodes i).NotLowered (s'.nodes i) := by
  induction hrun with
  | refl => exact .refl _
  | tail hr _ hs ih =>
    have hshape := shape_reach (h.trans hr)
    rcases (reach_change (h.trans hr) hs).moves hshape i with heq | hm
    · rwa [heq]
    · exact ih.trans (hm.notLowered (hshape.node i))

/-- What a node has applied lies below its commit index. -/
theorem applied_le_commit (h : Reach step anyStep (init n) s) {i : Fin n} {msg : ApplyMsg}
    (hmsg : .applied i msg ∈ s.history) : msg.commandIndex ≤ (s.nodes i).commitIndex := by
  induction h with
  | refl => cases hmsg
  | @tail s s' a hr hok hs ih =>
    have hshape := shape_reach hr
    have hkept : .applied i msg ∈ s.history → msg.commandIndex ≤ (s'.nodes i).commitIndex :=
      fun hold => (ih hold).trans (notLowered_of_reach hr (.tail .refl hok hs) i).commit
    cases reach_change hr hs with
    | @getApplyLogs j =>
      rcases List.mem_append.mp hmsg with hold | hnew
      · exact hkept hold
      · obtain ⟨_, hmem, heq⟩ := List.mem_map.mp hnew
        obtain ⟨e, he, rfl⟩ := List.mem_map.mp hmem
        obtain ⟨rfl, rfl⟩ := Event.applied.inj heq
        rw [setNode_nodes, Function.update_self]
        exact ((hshape.node j).entryAt_of_mem_applicable he).2.2
    | sendRequestVote | installSnapshot | start =>
      -- the events these steps add are of other kinds
      refine hkept ((List.mem_append.mp hmsg).resolve_right fun hnew => ?_)
      revert hnew
      first
        | (split <;> simp)
        | simp
    | _ => exact hkept hmsg

omit [RaftArchive] in
/-- Of two agreed logs the shorter is part of the longer. -/
theorem agreed_prefix (hinv : t.Inv) {U U' : ℤ} {P L : List LogEntry} (hP : t.Agreed U P)
    (hL : t.Agreed U' L) (hle : P.length ≤ L.length) : P <+: L := by
  rcases hinv.agreed_total hP hL with hpre | hpre
  · exact hpre
  · rw [hpre.eq_of_length (Nat.le_antisymm hpre.length_le hle)]

omit [RaftArchive] in
/-- An agreed log as long as the largest commit index is the committed log. -/
theorem Sim.commits (hsim : Sim s t) (hinv : t.Inv) (hshape : s.Shape)
    (happlied : ∀ i msg, .applied i msg ∈ s.history →
      msg.commandIndex ≤ (s.nodes i).commitIndex) {U : ℤ} {L : List LogEntry}
    (hL : t.Agreed U L) (hlength : L = [] ∨ ∃ i, (s.nodes i).commitIndex = L.length)
    (hcommitted : ∀ i, (s.nodes i).commitIndex ≤ L.length) : s.Commits L := by
  refine { length := hlength, committed := hcommitted, entry := fun i m hsnap hm => ?_,
           snapshot := fun i => ?_, applied := fun i msg hmsg => ?_ }
  -- any two agreed logs are prefixes one of the other
  · obtain ⟨P, hP, hlen, hentry⟩ := hsim.committed hshape i
    have hnonneg := (hshape.node i).nonneg
    have hle := hcommitted i
    have hpre := agreed_prefix hinv hP hL (by omega)
    obtain ⟨e, he⟩ : ∃ e, P[(m - 1).toNat]? = some e :=
      ⟨_, List.getElem?_eq_getElem (by omega)⟩
    rw [hentry m hsnap hm, he, getElem?_of_isPrefix hpre he]
  · obtain ⟨S, hlen, hterm, hS⟩ := (hsim.node i).snapshot (hshape.node i)
    have hwf := hshape.node i
    have hle := (hwf.applied.trans hwf.committed).trans (hcommitted i)
    have hpre := agreed_prefix hinv hS hL (by omega)
    rw [hterm, hlen, Int.toNat_natCast, take_of_isPrefix hpre le_rfl, List.take_length]
  -- the applied entry lies below the commit index of its node, hence in the longer log
  · obtain ⟨U', P, hP, hpos, e, he, hcmd⟩ := hsim.applied i msg hmsg
    have hle := (happlied i msg hmsg).trans (hcommitted i)
    obtain ⟨e', he'⟩ : ∃ e', L[(msg.commandIndex - 1).toNat]? = some e' :=
      ⟨_, List.getElem?_eq_getElem (by omega)⟩
    refine ⟨hpos, e', he', ?_⟩
    rcases hinv.agreed_total hP hL with hpre | hpre
    · rw [getElem?_of_isPrefix hpre he, Option.some.injEq] at he'
      rw [← he', hcmd]
    · rw [getElem?_of_isPrefix hpre he', Option.some.injEq] at he
      rw [he, hcmd]

omit [RaftArchive] in
/-- There is such a log: what a node with the largest commit index has committed. -/
theorem Sim.exists_agreed (hsim : Sim s t) (hshape : s.Shape) :
    ∃ U L, t.Agreed U L ∧ (L = [] ∨ ∃ i, (s.nodes i).commitIndex = L.length) ∧
      ∀ i, (s.nodes i).commitIndex ≤ L.length := by
  rcases isEmpty_or_nonempty (Fin n) with hempty | hnonempty
  · exact ⟨0, [], Or.inl rfl, Or.inl rfl, fun i => hempty.elim i⟩
  · obtain ⟨i, hmax⟩ := Finite.exists_max fun i => (s.nodes i).commitIndex
    obtain ⟨P, hP, hlen, _⟩ := hsim.committed hshape i
    exact ⟨_, P, hP, Or.inr ⟨i, hlen⟩, fun j => hlen ▸ hmax j⟩

/-- **Refinement to an append-only log.**  Along every run in which a request for entries that
    conflicts with the receiver's log reaches the end of that log, there is one committed log: it
    starts empty and only grows at its end, and in each state the commit indices, the snapshots and
    the applied commands of all nodes are read off it. -/
theorem committed_log {run : ℕ → Cluster n} (htrace : IsTrace step Covered run)
    (hzero : run 0 = init n) :
    ∃ L : ℕ → List LogEntry, L 0 = [] ∧ ∀ k, (run k).Commits (L k) ∧ L k <+: L (k + 1) := by
  have hreach : ∀ k, Reach step Covered (init n) (run k) := fun k =>
    hzero ▸ htrace.reach (Nat.zero_le k)
  obtain ⟨t, _, ht⟩ := htrace.simulation (R := Sim) (hzero ▸ sim_init n)
    fun s a s' t hr hsteps hsim hok hs =>
      hsim.forward (hzero ▸ hr) (Consensus.inv_start.steps hsteps) hok hs
  have hinv : ∀ k, (t k).Inv := fun k => Consensus.inv_start.steps (ht k).1
  choose U L hL hlength hcommitted using fun k =>
    (ht k).2.1.exists_agreed (shape_reach (hreach k))
  have hcommits : ∀ k, (run k).Commits (L k) := fun k =>
    (ht k).2.1.commits (hinv k) (shape_reach (hreach k))
      (fun i msg hmsg => applied_le_commit (hreach k).any hmsg) (hL k) (hlength k) (hcommitted k)
  refine ⟨L, ?_, fun k => ⟨hcommits k, ?_⟩⟩
  · rcases hlength 0 with hnil | ⟨i, hi⟩
    · exact hnil
    · rw [hzero] at hi
      have hi : (0 : Int) = (L 0).length := hi
      exact List.length_eq_zero_iff.mp (by omega)
  · -- both logs are agreed in the later account, and the later one is no shorter
    have hkept := (hL k).mono (Consensus.le_of_steps (ht k).2.2) le_rfl
    refine agreed_prefix (hinv (k + 1)) hkept (hL (k + 1)) ?_
    rcases hlength k with hnil | ⟨i, hi⟩
    · simp [hnil]
    · have hmono : (run k).nodes i |>.NotLowered ((run (k + 1)).nodes i) :=
        notLowered_of_reach (hreach k).any (htrace.reach (Nat.le_succ k)).any i
      have hle := hmono.commit.trans (hcommitted (k + 1) i)
      omega

end log

/-- On a run in which two nodes commit one entry, the committed log ends as this entry. -/
theorem committed_log_firstCommand :
    letI := textRaftArchive
    ∃ (run : ℕ → Cluster 3) (L : ℕ → List LogEntry), IsTrace step Covered run ∧
      (∀ k, (run k).Commits (L k) ∧ L k <+: L (k + 1)) ∧ ∃ k, L k = [⟨"x", 1, 1⟩] := by
  let := textRaftArchive
  have hrun : (runFrom (step : Cluster 3 → _) Covered (init 3)
      [.doElection 0, .requestVote 0, .sendRequestVote 0, .start 0 "x", .doHeartBeat 0,
        .appendEntries1 0, .sendAppendEntries 0, .doHeartBeat 0, .appendEntries1 2]).map (fun s =>
          ((List.finRange 3).map fun i => (s.nodes i).commitIndex,
            (s.nodes 0).commitIndex, (s.nodes 0).lastSnapshotIncludeIndex,
            (s.nodes 0).entryAt 1)) =
      some ([1, 1, 0], 1, 0, some ⟨"x", 1, 1⟩) := by
    decide
  obtain ⟨s, hs, hshow⟩ := Reach.exists_of_runFrom hrun
  simp only [Prod.mk.injEq] at hshow
  obtain ⟨hall, hfirst, hsnap, he⟩ := hshow
  obtain ⟨run, N, htrace, hzero, hlast⟩ := hs.exists_trace
  obtain ⟨L, _, hL⟩ := committed_log htrace hzero
  refine ⟨run, L, htrace, hL, N, ?_⟩
  have hN := (hL N).1
  rw [hlast N le_rfl] at hN
  have hle := hN.committed 0
  have hentry := hN.entry 0 1 (by omega) (by omega)
  rw [he] at hentry
  -- no commit index is larger than 1
  have hlen : (L N).length ≤ 1 := by
    rcases hN.length with hnil | ⟨i, hi⟩
    · simp [hnil]
    · have hmem : (s.nodes i).commitIndex ∈ [(1 : Int), 1, 0] :=
        hall ▸ List.mem_map_of_mem (List.mem_finRange i)
      simp only [List.mem_cons, List.not_mem_nil, or_false] at hmem
      omega
  obtain ⟨e, heq⟩ := List.length_eq_one_iff.mp (show (L N).length = 1 by omega)
  rw [heq] at hentry ⊢
  rw [Option.some.inj hentry]

end Cluster

end RaftStore
