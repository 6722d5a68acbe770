import RaftStore.Cluster.Replication

namespace RaftStore

/-!
# Log matching and state machine safety

What the simulation says about the logs of the nodes and about what they apply, in every run in
which each request for entries meets `Raft.Covers` when it is delivered; and the runs outside of
it in which both fail, because the merge loop of `AppendEntries1` overwrites a conflicting entry
and keeps the entries above it.

* `Cluster.log_matching` — entries of one term at one index have one command and one past.
* `Cluster.applied_agree` — nodes apply the same command at the same index.
-/

namespace Cluster

open Consensus (lastTerm)

variable {n : ℕ}

/-! ### Log matching -/

/-- The logs of any two nodes agree below an entry of the same index and term, and the terms in
    a log never decrease. -/
structure LogMatching (s : Cluster n) : Prop where
  command : ∀ i j k e e', (s.nodes i).entryAt k = some e → (s.nodes j).entryAt k = some e' →
    e.logTerm = e'.logTerm → e.command = e'.command
  below : ∀ i j k e e', (s.nodes i).entryAt k = some e → (s.nodes j).entryAt k = some e' →
    e.logTerm = e'.logTerm → ∀ m < k, (s.nodes i).lastSnapshotIncludeIndex < m →
      (s.nodes j).lastSnapshotIncludeIndex < m → (s.nodes i).entryAt m = (s.nodes j).entryAt m
  sorted : ∀ i, (s.nodes i).logs.Pairwise fun e e' => e.logTerm ≤ e'.logTerm

section matching

variable {s : Cluster n} {t : Consensus (Fin n) LogEntry}

/-- Entries of one term at one index belong to members whose logs agree up to it. -/
theorem Sim.matching (h : Sim s t) (hinv : t.Inv) (hshape : s.Shape) {i j : Fin n} {k : Int}
    {e e' : LogEntry} (he : (s.nodes i).entryAt k = some e)
    (he' : (s.nodes j).entryAt k = some e') (hterm : e.logTerm = e'.logTerm) :
    (t.log i).take ((k - 1).toNat + 1) = (t.log j).take ((k - 1).toNat + 1) := by
  have hi := ((hshape.node i).toLogWF.entryAt_bounds he).1
  have hj := ((hshape.node j).toLogWF.entryAt_bounds he').1
  rw [(h.node i).entryAt (hshape.node i).toLogWF hi] at he
  rw [(h.node j).entryAt (hshape.node j).toLogWF hj] at he'
  exact (hinv.rooted i).matching (hinv.rooted j) he he' hterm

/-- What a node holds below such an entry is what the other node holds. -/
theorem Sim.entryAt_eq (h : Sim s t) (hinv : t.Inv) (hshape : s.Shape) {i j : Fin n} {k m : Int}
    {e e' : LogEntry} (he : (s.nodes i).entryAt k = some e)
    (he' : (s.nodes j).entryAt k = some e') (hterm : e.logTerm = e'.logTerm) (hm : m ≤ k)
    (hi : (s.nodes i).lastSnapshotIncludeIndex < m)
    (hj : (s.nodes j).lastSnapshotIncludeIndex < m) :
    (s.nodes i).entryAt m = (s.nodes j).entryAt m := by
  have htake := h.matching hinv hshape he he' hterm
  rw [(h.node i).entryAt (hshape.node i).toLogWF hi, (h.node j).entryAt (hshape.node j).toLogWF hj,
    ← List.getElem?_take_of_lt (show (m - 1).toNat < (k - 1).toNat + 1 by omega), htake,
    List.getElem?_take_of_lt (by omega)]

/-- The log of a node is the upper part of its member's. -/
theorem Sim.logs_eq_drop (h : Sim s t) (i : Fin n) :
    (s.nodes i).logs = (t.log i).drop (s.nodes i).lastSnapshotIncludeIndex.toNat := by
  obtain ⟨V, hfull, _, hV⟩ := (h.node i).view
  rw [hfull.logs, Raft.drop_of_view hV]

variable [RaftArchive]

/-- **Log matching.**  It holds in every state of every run in which a request for entries that
    conflicts with the receiver's log reaches the end of that log. -/
theorem log_matching (h : Reach step Covered (init n) s) : s.LogMatching := by
  obtain ⟨t, hinv, hsim⟩ := sim_reach h
  have hshape := shape_reach h
  refine { command := fun i j k e e' he he' hterm => ?_,
           below := fun i j k e e' he he' hterm m hm hi hj => ?_, sorted := fun i => ?_ }
  · have hi := ((hshape.node i).toLogWF.entryAt_bounds he).1
    have hj := ((hshape.node j).toLogWF.entryAt_bounds he').1
    have heq := hsim.entryAt_eq hinv hshape he he' hterm le_rfl hi hj
    rw [he, he', Option.some.injEq] at heq
    rw [heq]
  · exact hsim.entryAt_eq hinv hshape he he' hterm hm.le hi hj
  · rw [hsim.logs_eq_drop i]
    exact (hinv.sorted (hinv.rooted i)).sublist (List.drop_sublist _ _)

end matching

/-- A run of the nodes 0, 1 and 2.  Node `a` = 0 is elected and appends `commands`; then node
    `b` = 2 is elected by node 1, appends a command of its own and sends it to `a`. -/
def overwriteRun (a b : Fin n) (commands : List String) : List (Step n) :=
  [.doElection a, .requestVote 0, .sendRequestVote 0] ++ commands.map (.start a) ++
    [.doElection b, .doElection b, .requestVote 5, .sendRequestVote 5, .start b "x",
      .doHeartBeat b, .appendEntries1 0]

/-- Node 0 has one uncommitted entry; the request of node 2 reaches the end of its log and
    replaces it. -/
theorem log_matching_replaced :
    letI := textRaftArchive
    ∃ s : Cluster 3, Reach step Covered (init 3) s ∧ (s.nodes 0).logs = [⟨"x", 2, 1⟩] ∧
      s.LogMatching := by
  let := textRaftArchive
  have hrun : (runFrom (step : Cluster 3 → _) Covered (init 3) (overwriteRun 0 2 ["f"])).map
      (fun s => (s.nodes 0).logs) = some [⟨"x", 2, 1⟩] := by
    decide
  obtain ⟨s, hs, hlogs⟩ := Reach.exists_of_runFrom hrun
  exact ⟨s, hs, hlogs, log_matching hs⟩

/-- Node 0 has two uncommitted entries; the same request overwrites the first and leaves the
    second above it, although its term is older. -/
theorem overwrite_breaks_matching :
    letI := textRaftArchive
    ∃ s : Cluster 3, Reach step anyStep (init 3) s ∧ ¬ s.LogMatching := by
  let := textRaftArchive
  have hrun : (runFrom (step : Cluster 3 → _) anyStep (init 3) (overwriteRun 0 2 ["f", "g"])).map
      (fun s => (s.nodes 0).logs) = some [⟨"x", 2, 1⟩, ⟨"g", 1, 2⟩] := by
    decide
  obtain ⟨s, hs, hlogs⟩ := Reach.exists_of_runFrom hrun
  refine ⟨s, hs, fun h => ?_⟩
  have hsorted := h.sorted 0
  rw [hlogs] at hsorted
  revert hsorted
  decide

/-! ### State machine safety -/

/-- **State machine safety.**  In every run in which a request for entries that conflicts with
    the receiver's log reaches the end of that log, the messages that are applied at one index
    have one command. -/
theorem applied_agree [RaftArchive] {s : Cluster n} (h : Reach step Covered (init n) s)
    {i j : Fin n} {msg msg' : ApplyMsg} (hi : .applied i msg ∈ s.history)
    (hj : .applied j msg' ∈ s.history) (hidx : msg.commandIndex = msg'.commandIndex) :
    msg.command = msg'.command := by
  obtain ⟨t, hinv, hsim⟩ := sim_reach h
  obtain ⟨U, P, hP, _, e, he, hcmd⟩ := hsim.applied i msg hi
  obtain ⟨U', P', hP', _, e', he', hcmd'⟩ := hsim.applied j msg' hj
  rw [← hidx] at he'
  -- of two agreed logs one is the beginning of the other
  obtain rfl : e = e' := by
    rcases hinv.agreed_total hP hP' with hpre | hpre
    · rw [getElem?_of_isPrefix hpre he, Option.some.injEq] at he'
      exact he'
    · rw [getElem?_of_isPrefix hpre he', Option.some.injEq] at he
      exact he.symm
  rw [← hcmd, hcmd']

/-- What the nodes have applied. -/
def appliedMsgs (s : Cluster n) : List (Fin n × ApplyMsg) :=
  s.history.filterMap fun
    | .applied i msg => some (i, msg)
    | _ => none

/-- The messages that were applied, as events. -/
theorem mem_appliedMsgs {s : Cluster n} {i : Fin n} {msg : ApplyMsg} :
    (i, msg) ∈ s.appliedMsgs ↔ .applied i msg ∈ s.history := by
  rw [appliedMsgs, List.mem_filterMap]
  constructor
  · rintro ⟨ev, hev, heq⟩
    cases ev with
    | applied j msg' =>
      obtain ⟨rfl, rfl⟩ := Prod.mk.inj (Option.some.inj heq)
      exact hev
    | elected | started | pushed => cases heq
  · exact fun h => ⟨_, h, rfl⟩

/-- A leader and a follower apply the first command. -/
theorem applied_agree_firstCommand :
    letI := textRaftArchive
    ∃ (s : Cluster 3) (msg msg' : ApplyMsg), Reach step Covered (init 3) s ∧
      .applied 0 msg ∈ s.history ∧ .applied 1 msg' ∈ s.history ∧ msg.command = msg'.command := by
  let := textRaftArchive
  have hrun : (runFrom (step : Cluster 3 → _) Covered (init 3)
      [.doElection 0, .requestVote 0, .sendRequestVote 0, .start 0 "x", .doHeartBeat 0,
        .appendEntries1 0, .sendAppendEntries 0, .doHeartBeat 0, .appendEntries1 2,
        .getApplyLogs 0, .getApplyLogs 1]).map appliedMsgs =
      some [(0, { commandValid := true, command := "x", commandIndex := 1 }),
        (1, { commandValid := true, command := "x", commandIndex := 1 })] := by
    decide
  obtain ⟨s, hs, happlied⟩ := Reach.exists_of_runFrom hrun
  have hmem : ∀ i msg, (i, msg) ∈ s.appliedMsgs → .applied i msg ∈ s.history :=
    fun i msg => mem_appliedMsgs.mp
  rw [happlied] at hmem
  have h₀ := hmem 0 _ (List.mem_cons_self ..)
  have h₁ := hmem 1 _ (List.mem_cons_of_mem _ (List.mem_cons_self ..))
  exact ⟨s, _, _, hs, h₀, h₁, applied_agree hs h₀ h₁ rfl⟩

/-- A run of the nodes `a` = 0, `b` = 1 and `c` = 2.  Node 0 leads with three entries that nobody
    else has.  Node 1, later elected, overwrites the first two of them and commits index 2 with the
    acknowledgement of node 0, whose last entry is still the third and oldest one.  So node 0 votes
    for node 2, which has no second entry. -/
def divergingRun (a b c : Fin n) : List (Step n) :=
  [.doElection a, .requestVote 0, .sendRequestVote 0, .start a "f1", .start a "f2", .start a "f3",
    .doElection c, .doElection c, .requestVote 5, .sendRequestVote 5, .start c "c1",
    .doHeartBeat c, .appendEntries1 1, .doElection b, .requestVote 6, .sendRequestVote 6,
    .requestVote 7, .start b "x", .doHeartBeat b, .appendEntries1 2, .sendAppendEntries 2,
    .doHeartBeat b, .appendEntries1 4, .sendAppendEntries 4, .getApplyLogs b, .doElection c,
    .requestVote 8, .sendRequestVote 8, .start c "y", .doHeartBeat c, .appendEntries1 6,
    .sendAppendEntries 6, .getApplyLogs c]

/-- In this run nodes 1 and 2 apply different commands at index 2. -/
theorem overwrite_breaks_safety :
    letI := textRaftArchive
    ∃ (s : Cluster 3) (msg msg' : ApplyMsg), Reach step anyStep (init 3) s ∧
      .applied 1 msg ∈ s.history ∧ .applied 2 msg' ∈ s.history ∧
      msg.commandIndex = msg'.commandIndex ∧ msg.command ≠ msg'.command := by
  let := textRaftArchive
  have hrun : (runFrom (step : Cluster 3 → _) anyStep (init 3) (divergingRun 0 1 2)).map
      (fun s => s.appliedMsgs.filter fun (_, msg) => msg.commandIndex = 2) =
      some [(1, { commandValid := true, command := "x", commandIndex := 2 }),
        (2, { commandValid := true, command := "y", commandIndex := 2 })] := by
    decide
  obtain ⟨s, hs, happlied⟩ := Reach.exists_of_runFrom hrun
  have hmem : ∀ i msg, (i, msg) ∈ s.appliedMsgs.filter (fun (_, msg) => msg.commandIndex = 2) →
      .applied i msg ∈ s.history :=
    fun i msg h => mem_appliedMsgs.mp (List.mem_of_mem_filter h)
  rw [happlied] at hmem
  exact ⟨s, _, _, hs, hmem 1 _ (List.mem_cons_self ..),
    hmem 2 _ (List.mem_cons_of_mem _ (List.mem_cons_self ..)), rfl, by decide⟩

end Cluster

end RaftStore
