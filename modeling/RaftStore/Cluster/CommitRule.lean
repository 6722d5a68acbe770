import RaftStore.Cluster.Progress
import RaftStore.Node.CommitRule

namespace RaftStore

/-!
# The counter of a heartbeat and the match indices

The leader commits when one heartbeat has brought enough successes.  The match indices remember
the successes of all heartbeats, so they can show a majority for an entry that no single
heartbeat has: then the entry stays uncommitted although `leaderUpdateCommitIndex` would commit
it.

* `Cluster.CommitsAll` — no leader's commit index is below what `leaderUpdateCommitIndex` would
  compute.
* `Cluster.WithinRound` — the condition on a step: a success that completes a majority for an
  index completes the majority of its heartbeat too.
* `Cluster.commits_all_iff` — the first step that breaks the condition is the first after which
  a leader has something left to commit.
-/

namespace Cluster

variable {n : ℕ}

/-- No leader's commit index is below the one that `leaderUpdateCommitIndex` would compute. -/
def CommitsAll (s : Cluster n) : Prop :=
  ∀ i, (s.nodes i).status = .leader → ∃ rf, (s.nodes i).leaderUpdateCommitIndex = .ok rf ∧
    rf.commitIndex ≤ (s.nodes i).commitIndex

/-- The condition on a step: if a success completes a majority for an index, it completes the
    majority of its round as well, and its request ends with an entry of the leader's term. -/
def WithinRound (s : Cluster n) : Step n → Prop
  | .sendAppendEntries c => ∀ call ∈ s.appendCalls[c]?, ∀ reply ∈ call.reply,
      ∀ round ∈ s.appendNums[call.round]?, reply.appState ≠ disconnected →
        (s.nodes call.caller).Counts reply →
          (∃ N, (s.nodes call.caller).Completes call.server call.args N) →
            (1 + n / 2 : ℕ) ≤ round.count + 1 ∧ (s.nodes call.caller).EndsInTerm call.args
  | _ => True

instance (s : Cluster n) : (a : Step n) → Decidable (s.WithinRound a)
  | .sendAppendEntries c =>
    inferInstanceAs (Decidable (∀ call ∈ s.appendCalls[c]?, ∀ reply ∈ call.reply,
      ∀ round ∈ s.appendNums[call.round]?, reply.appState ≠ disconnected →
        (s.nodes call.caller).Counts reply →
          (∃ N, (s.nodes call.caller).Completes call.server call.args N) →
            (1 + n / 2 : ℕ) ≤ round.count + 1 ∧ (s.nodes call.caller).EndsInTerm call.args))
  | .doElection _ | .requestVote _ | .sendRequestVote _ | .doHeartBeat _ | .appendEntries1 _
  | .leaderSendSnapShot _ | .installSnapshot _ | .leaderSendSnapShotReply _ | .start ..
  | .snapshot .. | .getApplyLogs _ =>
    inferInstanceAs (Decidable True)

section steps

variable [RaftArchive] {s s' : Cluster n} {a : Step n}

/-! ### Leaders have peers -/

omit [RaftArchive] in
/-- Two different nodes are at least two. -/
theorem two_le_of_ne {i j : Fin n} (h : i ≠ j) : 2 ≤ n := by
  have hi := i.isLt
  have hj := j.isLt
  have hne : i.val ≠ j.val := fun heq => h (Fin.ext heq)
  omega

/-- A node that is alone is never elected: nobody answers its vote requests. -/
theorem two_le_of_elected {ok : Cluster n → Step n → Prop} (h : Reach step ok (init n) s)
    {i : Fin n} {T : Int} (he : .elected i T ∈ s.history) : 2 ≤ n := by
  refine h.invariant (P := fun s => ∀ i T, .elected i T ∈ s.history → 2 ≤ n)
    (fun _ _ he => by cases he) (fun s a s' hr hold _ hs i T he => ?_) i T he
  have hshape := shape_reach hr
  have hc := step_change hshape hs
  cases a with
  | sendRequestVote c =>
    cases hc with
    | idle | exit => exact hold i T he
    | @sendRequestVote _ call reply round rf count hcall =>
      -- the reply comes from another node
      exact two_le_of_ne ((elections_reach hr).call call (List.mem_of_getElem? hcall)).other
  | doElection j =>
    cases hc with
    | idle | exit | doElection => exact hold i T he
  | requestVote c =>
    cases hc with
    | idle | exit | requestVote => exact hold i T he
  | _ =>
    refine hold i T (((hc.quiet hshape ?_ ?_ ?_).elected i T).mp he) <;> exact fun _ hcontra => by
      cases hcontra

/-- A cluster that has a leader has at least two nodes, since only a reply elects one. -/
theorem two_le_of_leader {ok : Cluster n → Step n → Prop} (h : Reach step ok (init n) s) {i : Fin n}
    (hlead : (s.nodes i).status = .leader) : 2 ≤ n :=
  two_le_of_elected h ((elections_reach h).leads i hlead)

/-! ### Snapshots hold committed entries -/

/-- A snapshot that was sent ends at an index its sender had committed. -/
theorem snapshot_committed {ok : Cluster n → Step n → Prop} (h : Reach step ok (init n) s) :
    ∀ call ∈ s.snapCalls, ∀ args, call.args = some args →
      args.lastSnapShotIncludeIndex ≤ (s.nodes call.caller).commitIndex := by
  refine h.invariant (P := fun s => ∀ call ∈ s.snapCalls, ∀ args, call.args = some args →
      args.lastSnapShotIncludeIndex ≤ (s.nodes call.caller).commitIndex)
    (fun _ hcall => by cases hcall) fun s a s' hr hold _ hs => ?_
  have hshape := shape_reach hr
  have hc := step_change hshape hs
  have hmono := fun i => (hc.notLowered hshape i).commit
  have hkept : ∀ call ∈ s.snapCalls, ∀ args, call.args = some args →
      args.lastSnapShotIncludeIndex ≤ (s'.nodes call.caller).commitIndex :=
    fun call hcall args hargs => (hold call hcall args hargs).trans (hmono _)
  cases hc with
  | @doHeartBeat i calls hstatus hpeers hout =>
    intro call hcall args hargs
    rcases List.mem_append.mp hcall with hcall | hcall
    · exact hkept call hcall args hargs
    · obtain ⟨j, _, rfl⟩ := mem_snapshotSends hpeers hcall
      cases hargs
  | @leaderSendSnapShot c call hget hnone =>
    intro call' hcall' args hargs
    rcases List.mem_or_eq_of_mem_set hcall' with hcall' | rfl
    · exact hkept call' hcall' args hargs
    · cases hargs
      -- the request is built at the sender's snapshot point
      have hnode := hshape.node call.caller
      exact (hnode.applied.trans hnode.committed).trans (hmono call.caller)
  | @installSnapshot c call _ _ _ _ hget hargs'
  | @leaderSendSnapShotReply c call _ _ _ hget hargs' =>
    intro call' hcall' args hargs
    rcases List.mem_or_eq_of_mem_set hcall' with hcall' | rfl
    · exact hkept call' hcall' args hargs
    · exact hkept call (List.mem_of_getElem? hget) args hargs
  | _ => exact hkept

/-! ### Every step -/

/-- A step other than the reply part of `sendAppendEntries` leaves nothing new to commit. -/
theorem step_keepsUp (h : Reach step anyStep (init n) s) (hs : s.step a = some s')
    (ha : ∀ c, a ≠ .sendAppendEntries c) (i : Fin n) : (s.nodes i).KeepsUp (s'.nodes i) := by
  have hshape := shape_reach h
  have hone := fun {j : Fin n} {rf : Raft n} (hk : (s.nodes j).KeepsUp rf) =>
    update_rel Raft.KeepsUp.refl hk i
  cases step_change hshape hs with
  | idle | exit | doHeartBeat => exact .refl _
  | doElection hstatus =>
    refine hone (.of_not_leader ?_)
    rw [Raft.doElection_fst hstatus]
    simp
  | requestVote _ _ hout => exact hone hout.keepsUp
  -- a new leader has matched nothing; with another node in the cluster that is no majority
  | @sendRequestVote c call _ _ _ _ hcall _ _ _ hout =>
    have hother := ((elections_reach h).call call (List.mem_of_getElem? hcall)).other
    exact hone (hout.keepsUp (hshape.node _) (two_le_of_ne hother))
  | appendEntries1 _ _ hout => exact hone hout.keepsUp
  | sendAppendEntries => exact absurd rfl (ha _)
  | leaderSendSnapShot => exact hone (.of_match (.refl _) rfl rfl le_rfl (fun _ _ => rfl) le_rfl)
  | installSnapshot _ _ _ hout => exact hone hout.keepsUp
  | @leaderSendSnapShotReply c call args _ _ hcall hargs _ _ hout =>
    exact hone (hout.keepsUp (snapshot_committed h call (List.mem_of_getElem? hcall) args hargs))
  | @start j command hstatus =>
    exact hone (Raft.started_keepsUp (hshape.node j) (two_le_of_leader h hstatus)
      (hshape.leader j) command)
  | snapshot hout => exact hone hout.keepsUp
  | getApplyLogs => exact hone (.of_match (.refl _) rfl rfl le_rfl (fun _ _ => rfl) le_rfl)

omit [RaftArchive] in
/-- Every leader leaves nothing to commit, in terms of the committable indices. -/
theorem Shape.commitsAll_iff (h : s.Shape) :
    s.CommitsAll ↔ ∀ i, (s.nodes i).status = .leader → (s.nodes i).CommitsAll :=
  forall_congr' fun i => imp_congr_right fun _ => (h.node i).commitsAll_iff

/-- A step that meets the condition keeps every leader's commit index up, and one that breaks it
    does not. -/
theorem step_commitsAll (h : Reach step anyStep (init n) s) (hs : s.step a = some s')
    (hall : s.CommitsAll) : s'.CommitsAll ↔ s.WithinRound a := by
  have hshape := shape_reach h
  have hall := hshape.commitsAll_iff.mp hall
  rw [((step_change hshape hs).shape hshape).commitsAll_iff]
  cases a with
  | sendAppendEntries c =>
    obtain ⟨call, reply, round, rf, count, hc, hreply, hround, _, hgo, rfl⟩ :=
      stepSendAppendEntries_ok hshape hs
    have hnode := hshape.node call.caller
    have hcond : s.WithinRound (.sendAppendEntries c) ↔ (reply.appState ≠ disconnected →
        (s.nodes call.caller).Counts reply →
          (∃ N, (s.nodes call.caller).Completes call.server call.args N) →
            (1 + n / 2 : ℕ) ≤ round.count + 1 ∧ (s.nodes call.caller).EndsInTerm call.args) := by
      simp [WithinRound, hc, hreply, hround]
    rw [hcond]
    -- only a success that is counted raises a match index
    by_cases hcounts : reply.appState ≠ disconnected ∧ (s.nodes call.caller).Counts reply
    · obtain ⟨hstate, hcounts⟩ := hcounts
      have hother := ((rounds_reach h).call call (List.mem_of_getElem? hc)).other
      have hiff := Raft.sendAppendEntriesReply_commitsAll hnode (hall _ hcounts.2.1)
        (by rwa [hshape.me]) hstate hcounts hgo
      constructor
      · intro hall' _ _
        apply hiff.mp
        have hself := hall' call.caller
        rw [setNode_nodes, Function.update_self] at hself
        apply hself
        rw [Raft.sendAppendEntriesReply_counts hstate hcounts hgo]
        split <;> simpa using hcounts.2.1
      · intro hok i hlead
        by_cases hi : i = call.caller
        · subst hi
          rw [setNode_nodes, Function.update_self]
          exact hiff.mpr (hok hstate hcounts)
        · rw [setNode_nodes, Function.update_of_ne hi] at hlead ⊢
          exact hall i hlead
    · have hnot : reply.appState ≠ disconnected → ¬ (s.nodes call.caller).Counts reply :=
        fun hstate hc => hcounts ⟨hstate, hc⟩
      have hkeeps := Raft.sendAppendEntriesReply_keepsUp hnode hnot hgo
      refine iff_of_true (fun i => ?_) fun hstate hc => absurd hc (hnot hstate)
      exact update_rel Raft.KeepsUp.refl hkeeps i (hall i)
  | _ =>
    -- every other step lets no index become committable
    refine iff_of_true (fun i => step_keepsUp h hs (fun _ hcontra => ?_) i (hall i)) trivial
    cases hcontra

/-- **The counter of a round and the match indices.**  In every run of steps that meet the
    condition no leader's commit index is below the one `leaderUpdateCommitIndex` would compute,
    and the next step leaves it so exactly if it meets the condition too. -/
theorem commits_all_iff (h : Reach step WithinRound (init n) s) (hs : s.step a = some s') :
    s.CommitsAll ∧ (s'.CommitsAll ↔ s.WithinRound a) := by
  have hall : s.CommitsAll :=
    h.invariant (P := CommitsAll) (fun _ hlead => by cases hlead) fun s a s' hr hall hok hs =>
      (step_commitsAll hr.any hs hall).mpr hok
  exact ⟨hall, step_commitsAll h.any hs hall⟩

end steps

/-! ### A majority over two rounds -/

/-- Node `a` of five is elected by the first two nodes it asks and appends an entry; one of them
    takes it with the first heartbeat, the other with the second; all other requests are lost. -/
def acrossRounds (a : Fin n) : List (Step n) :=
  [.doElection a, .requestVote 0, .requestVote 1, .sendRequestVote 0, .sendRequestVote 1,
    .start a "x", .doHeartBeat a, .appendEntries1 0, .sendAppendEntries 0, .doHeartBeat a,
    .appendEntries1 5]

/-- Up to there every step meets the condition, and the last success would not. -/
theorem commits_all_iff_acrossRounds :
    letI := textRaftArchive
    ∃ s s' : Cluster 5, Reach step WithinRound (init 5) s ∧
      s.step (.sendAppendEntries 5) = some s' ∧ s.CommitsAll ∧ ¬ s'.CommitsAll := by
  let := textRaftArchive
  have hrun : (runFrom (step : Cluster 5 → _) WithinRound (init 5) (acrossRounds 0)).bind
      (fun s => (s.step (.sendAppendEntries 5)).map fun _ =>
        decide (s.WithinRound (.sendAppendEntries 5))) = some false := by
    decide
  obtain ⟨s, hs, hrun⟩ := Option.bind_eq_some_iff.mp hrun
  obtain ⟨s', hs', hnot⟩ := Option.map_eq_some_iff.mp hrun
  obtain ⟨hall, hiff⟩ := commits_all_iff (.of_runFrom hs) hs'
  exact ⟨s, s', .of_runFrom hs, hs', hall, fun hall' => of_decide_eq_false hnot (hiff.mp hall')⟩

/-- The leader then knows three of five nodes to hold its entry and has committed nothing. -/
theorem majority_uncommitted :
    letI := textRaftArchive
    ∃ s : Cluster 5, Reach step anyStep (init 5) s ∧ (s.nodes 0).status = .leader ∧
      (s.nodes 0).commitIndex = 0 ∧
      (s.nodes 0).leaderUpdateCommitIndex.toOption.map Raft.commitIndex = some 1 := by
  let := textRaftArchive
  have hrun : (runFrom (step : Cluster 5 → _) anyStep (init 5)
      (acrossRounds 0 ++ [.sendAppendEntries 5])).map
      (fun s => ((s.nodes 0).status, (s.nodes 0).commitIndex,
        (s.nodes 0).leaderUpdateCommitIndex.toOption.map Raft.commitIndex)) =
        some (.leader, 0, some 1) := by
    decide
  obtain ⟨s, hs, hshow⟩ := Reach.exists_of_runFrom hrun
  obtain ⟨hlead, hcommit, hupdate⟩ : _ ∧ _ ∧ _ := by simpa only [Prod.mk.injEq] using hshow
  exact ⟨s, hs, hlead, hcommit, hupdate⟩

end Cluster

end RaftStore
