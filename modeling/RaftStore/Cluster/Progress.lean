import RaftStore.Cluster.Rounds
import RaftStore.Model.Archive
import RaftStore.Node.Progress

namespace RaftStore

/-!
# Indices and progress over whole runs

* `Cluster.log_representation` — in every reachable state the log of every node is numbered from
  its snapshot point on and its indices are in order, and no step lowers the term or an index.
* `Cluster.Progress`, `Cluster.MatchKept` — what leaders keep for their peers, and that a step
  does not take it back.
* `Cluster.Steady` — the condition under which two replies do not take it back;
  `Cluster.progress_iff` says that the first step that breaks it is the first that takes back.
-/

namespace Cluster

variable {n : ℕ} {s s' : Cluster n} {a : Step n}

/-! ### The representation of the logs -/

section representation

variable [RaftArchive]

/-- No step lowers the term or an index of a node. -/
theorem Change.notLowered (h : s.Shape) (hc : Change s a s') (i : Fin n) :
    (s.nodes i).NotLowered (s'.nodes i) := by
  rcases hc.moves h i with heq | hm
  · rw [heq]
    exact .refl _
  · exact hm.notLowered (h.node i)

/-- **The representation of the logs.**  In every reachable state the entries of every node are
    numbered from its snapshot point on and its indices are in order, and every step from there
    lowers neither its term nor one of its indices. -/
theorem log_representation (h : Reach step anyStep (init n) s) (i : Fin n) :
    (s.nodes i).Represented ∧
      ∀ a s', s.step a = some s' → (s.nodes i).NotLowered (s'.nodes i) := by
  have hshape := shape_reach h
  exact ⟨(hshape.node i).represented, fun a s' hs => (step_change hshape hs).notLowered hshape i⟩

end representation

/-- Node 0 has committed its first command. -/
theorem log_representation_firstCommand :
    letI := textRaftArchive
    ∃ s : Cluster 3, Reach step anyStep (init 3) s ∧ (s.nodes 0).commitIndex = 1 ∧
      (s.nodes 0).Represented := by
  let := textRaftArchive
  have hrun : (runFrom (step : Cluster 3 → _) anyStep (init 3)
      [.doElection 0, .requestVote 0, .sendRequestVote 0, .start 0 "x", .doHeartBeat 0,
        .appendEntries1 0, .sendAppendEntries 0]).map
      (fun s => (s.nodes 0).commitIndex) = some 1 := by
    decide
  obtain ⟨s, hs, hcommit⟩ := Reach.exists_of_runFrom hrun
  exact ⟨s, hs, hcommit, (log_representation hs 0).1⟩

/-! ### What leaders keep for their peers -/

/-- Every leader's slots for its peers are in order. -/
def Progress (s : Cluster n) : Prop :=
  ∀ i, (s.nodes i).status = .leader → (s.nodes i).Progress

/-- No node that leads the same term before and after has lowered a `m_matchIndex`. -/
def MatchKept (s s' : Cluster n) : Prop :=
  ∀ i, (s.nodes i).status = .leader → (s'.nodes i).status = .leader →
    (s'.nodes i).currentTerm = (s.nodes i).currentTerm → (s.nodes i).MatchKept (s'.nodes i)

/-- The condition on a step: a leader takes over the index of a refusal only if it is above what
    it knows the server to hold, and records the index of a snapshot only if it is not below. -/
def Steady (s : Cluster n) : Step n → Prop
  | .sendAppendEntries c => ∀ call ∈ s.appendCalls[c]?, ∀ reply ∈ call.reply,
      (s.nodes call.caller).BacksOff reply →
        (s.nodes call.caller).matchIndex call.server < reply.updateNextIndex
  | .leaderSendSnapShotReply c => ∀ call ∈ s.snapCalls[c]?, ∀ args ∈ call.args,
      ∀ reply ∈ call.reply, (s.nodes call.caller).Records args reply →
        (s.nodes call.caller).matchIndex call.server ≤ args.lastSnapShotIncludeIndex
  | _ => True

instance (s : Cluster n) : (a : Step n) → Decidable (s.Steady a)
  | .sendAppendEntries c =>
    inferInstanceAs (Decidable (∀ call ∈ s.appendCalls[c]?, ∀ reply ∈ call.reply,
      (s.nodes call.caller).BacksOff reply →
        (s.nodes call.caller).matchIndex call.server < reply.updateNextIndex))
  | .leaderSendSnapShotReply c =>
    inferInstanceAs (Decidable (∀ call ∈ s.snapCalls[c]?, ∀ args ∈ call.args,
      ∀ reply ∈ call.reply, (s.nodes call.caller).Records args reply →
        (s.nodes call.caller).matchIndex call.server ≤ args.lastSnapShotIncludeIndex))
  | .doElection _ | .requestVote _ | .sendRequestVote _ | .doHeartBeat _ | .appendEntries1 _
  | .leaderSendSnapShot _ | .installSnapshot _ | .start .. | .snapshot .. | .getApplyLogs _ =>
    inferInstanceAs (Decidable True)

section steps

variable [RaftArchive]

/-- A snapshot goes to another node. -/
theorem snapshot_other {ok : Cluster n → Step n → Prop} (h : Reach step ok (init n) s) :
    ∀ call ∈ s.snapCalls, call.server ≠ call.caller := by
  refine h.invariant (P := fun s => ∀ call ∈ s.snapCalls, call.server ≠ call.caller)
    (by simp [init]) fun s a s' hr hold _ hs => ?_
  have hme := (shape_reach hr).me
  cases reach_change hr hs with
  | @doHeartBeat i calls hstatus hpeers hout =>
    intro call hcall
    rcases List.mem_append.mp hcall with hcall | hcall
    · exact hold call hcall
    · obtain ⟨j, hj, rfl⟩ := mem_snapshotSends hpeers hcall
      rwa [hme] at hj
  | @leaderSendSnapShot c call hc | @installSnapshot c call _ _ _ _ hc
  | @leaderSendSnapShotReply c call _ _ _ hc =>
    intro call' hcall'
    rcases List.mem_or_eq_of_mem_set hcall' with hcall' | rfl
    · exact hold call' hcall'
    · exact hold call (List.mem_of_getElem? hc)
  | _ => exact hold

/-- A steady step advances every node. -/
theorem step_advances (h : s.Shape) (hs : s.step a = some s') (hok : s.Steady a) (i : Fin n) :
    (s.nodes i).Advances (s'.nodes i) := by
  have hlast := (step_change h hs).last_le h
  have hone := fun {j : Fin n} {rf : Raft n} (hadv : (s.nodes j).Advances rf) =>
    update_rel Raft.Advances.refl hadv i
  -- only these two replies move the slots of a leader that goes on
  cases a with
  | sendAppendEntries c =>
    obtain ⟨call, reply, round, rf, count, hc, hreply, _, _, hgo, rfl⟩ :=
      stepSendAppendEntries_ok h hs
    have hshape := h.append call (List.mem_of_getElem? hc)
    refine hone (Raft.sendAppendEntriesReply_advances hgo (h.node _).last (h.leader _)
      hshape.args hshape.sent (hshape.refused reply hreply) ?_)
    exact hok call (Option.mem_def.mpr hc) reply (Option.mem_def.mpr hreply)
  | leaderSendSnapShotReply c =>
    obtain ⟨call, args, reply, hc, hargs, hreply, _, rfl⟩ := stepLeaderSendSnapShotReply_ok hs
    refine hone (Raft.leaderSendSnapShotReply_advances
      (h.snap call (List.mem_of_getElem? hc) args hargs) ?_)
    exact hok call (Option.mem_def.mpr hc) args (Option.mem_def.mpr hargs) reply
      (Option.mem_def.mpr hreply)
  | doElection j =>
    cases step_change h hs with
    | idle | exit => exact .refl _
    | doElection hstatus =>
      -- a candidate has no slots to keep in order
      refine hone (.of_not_leader ?_)
      rw [Raft.doElection_fst hstatus]
      simp
  | requestVote c =>
    cases step_change h hs with
    | idle | exit => exact .refl _
    | requestVote hc hreply hout =>
      have hmoves := Raft.Moves.requestVote hout
      refine hone (.of_slots hout.leads hmoves.me ?_ ?_ (hmoves.last_le (h.node _)))
      · cases hout <;> simp
      · cases hout <;> simp
  | sendRequestVote c =>
    cases step_change h hs with
    | idle | exit => exact .refl _
    | sendRequestVote hc hreply hround hret hout => exact hone (hout.advances (h.node _))
  | doHeartBeat j =>
    cases step_change h hs with
    | idle | exit | doHeartBeat => exact .refl _
  | appendEntries1 c =>
    cases step_change h hs with
    | idle | exit => exact .refl _
    | appendEntries1 hc hreply hout => exact hone hout.advances
  | leaderSendSnapShot c =>
    cases step_change h hs with
    | idle | exit => exact .refl _
    | leaderSendSnapShot => exact hone (.of_slots (.refl _) rfl rfl rfl le_rfl)
  | installSnapshot c =>
    cases step_change h hs with
    | idle | exit => exact .refl _
    | installSnapshot hc hargs hreply hout => exact hone hout.advances
  | start j command =>
    cases step_change h hs with
    | idle | exit => exact .refl _
    | start hstatus =>
      have hle := (Raft.Moves.start hstatus command).last_le (h.node j)
      exact hone (.of_slots (.refl _) rfl rfl rfl hle)
  | snapshot j index data =>
    cases step_change h hs with
    | idle | exit => exact .refl _
    | snapshot hout =>
      have hmoves := Raft.Moves.snapshot hout
      refine hone (.of_slots hout.leads hmoves.me ?_ ?_ (hmoves.last_le (h.node j)))
      · cases hout <;> rfl
      · cases hout <;> rfl
  | getApplyLogs j =>
    cases step_change h hs with
    | idle | exit => exact .refl _
    | getApplyLogs => exact hone (.of_slots (.refl _) rfl rfl rfl le_rfl)

/-- **Leaders do not take back progress.**  In every run of steady steps the slots of every
    leader are in order, and the next step keeps them so, and lowers no `m_matchIndex` of a
    leader that goes on, exactly if it is steady too. -/
theorem progress_iff (h : Reach step Steady (init n) s) (hs : s.step a = some s') :
    s.Progress ∧ (s'.Progress ∧ s.MatchKept s' ↔ s.Steady a) := by
  have hshape := shape_reach h
  have hp : s.Progress := by
    refine h.invariant (P := Progress) (fun i hlead => by cases hlead) fun s a s' hr hp hok hs => ?_
    exact fun i hlead => ((step_advances (shape_reach hr) hs hok i) (hp i) hlead).1
  refine ⟨hp, fun ⟨hp', hkept⟩ => ?_, fun hok => ⟨fun i hlead => ?_, fun i hold hlead _ => ?_⟩⟩
  · cases a with
    | sendAppendEntries c =>
      intro call hc reply hreply hback
      obtain ⟨call', reply', round, rf, count, hc', hreply', _, _, hgo, rfl⟩ :=
        stepSendAppendEntries_ok hshape hs
      obtain rfl : call = call' := Option.some.inj (hc.symm.trans hc')
      obtain rfl : reply = reply' := Option.some.inj (hreply.symm.trans hreply')
      -- the slot is overwritten, so it is in order only if the new index is above the old match
      rw [Raft.sendAppendEntriesReply_refused hback] at hgo
      cases hgo
      have hother := (rounds_reach h).call call (List.mem_of_getElem? hc)
      have hnew := hp' call.caller
      simp only [setNode_nodes, Function.update_self] at hnew
      have hslot := (hnew hback.2.2.1 call.server (by rw [hshape.me]; exact hother.other)).2.2
      simpa using hslot
    | leaderSendSnapShotReply c =>
      intro call hc args hargs reply hreply hrec
      obtain ⟨call', args', reply', hc', hargs', hreply', _, rfl⟩ :=
        stepLeaderSendSnapShotReply_ok hs
      obtain rfl : call = call' := Option.some.inj (hc.symm.trans hc')
      obtain rfl : args = args' := Option.some.inj (hargs.symm.trans hargs')
      obtain rfl : reply = reply' := Option.some.inj (hreply.symm.trans hreply')
      -- the slot is overwritten with the index that was asked for when the call was sent
      have hother := snapshot_other h call (List.mem_of_getElem? hc)
      have hnew := hkept call.caller hrec.1
      simp only [setNode_nodes, Function.update_self,
        Raft.leaderSendSnapShotReply_recorded hrec] at hnew
      have hslot := hnew hrec.1 trivial call.server (by rw [hshape.me]; exact hother)
      simpa using hslot
    | _ => trivial
  · exact ((step_advances hshape hs hok i) (hp i) hlead).1
  · exact ((step_advances hshape hs hok i) (hp i) hlead).2 hold

end steps

/-! ### A refusal that comes late -/

/-- Node `a` leads term 1 with one entry, loses its term to node `b` and is elected again in
    term 3; the first node it asks refuses its first two heartbeats, then takes the entry, and the
    first refusal and the success have come back. -/
def refusedTwice (a b : Fin n) : List (Step n) :=
  [.doElection a, .requestVote 0, .sendRequestVote 0, .start a "x", .doElection b, .doElection b,
    .requestVote 4, .doElection a, .requestVote 6, .sendRequestVote 6, .doHeartBeat a,
    .doHeartBeat a, .appendEntries1 0, .appendEntries1 2, .sendAppendEntries 0, .doHeartBeat a,
    .appendEntries1 4, .sendAppendEntries 4]

/-- Up to there every step is steady, so the slots of the leader are in order. -/
theorem progress_iff_refusedTwice :
    letI := textRaftArchive
    ∃ s s' : Cluster 3, Reach step Steady (init 3) s ∧
      s.step (.sendAppendEntries 2) = some s' ∧ s.Progress ∧
      ¬ (s'.Progress ∧ s.MatchKept s') := by
  let := textRaftArchive
  have hrun : (runFrom (step : Cluster 3 → _) Steady (init 3) (refusedTwice 0 2)).bind
      (fun s => (s.step (.sendAppendEntries 2)).map fun _ =>
        decide (s.Steady (.sendAppendEntries 2))) = some false := by
    decide
  obtain ⟨s, hs, hrun⟩ := Option.bind_eq_some_iff.mp hrun
  obtain ⟨s', hs', hnot⟩ := Option.map_eq_some_iff.mp hrun
  obtain ⟨hp, hiff⟩ := progress_iff (.of_runFrom hs) hs'
  exact ⟨s, s', .of_runFrom hs, hs', hp, fun hboth => of_decide_eq_false hnot (hiff.mp hboth)⟩

/-- The second refusal then moves `m_nextIndex` back to what node 1 is known to hold. -/
theorem late_refusal_takes_back :
    letI := textRaftArchive
    ∃ s : Cluster 3, Reach step anyStep (init 3) s ∧ (s.nodes 0).status = .leader ∧
      (s.nodes 0).nextIndex 1 = 1 ∧ (s.nodes 0).matchIndex 1 = 1 := by
  let := textRaftArchive
  have hrun : (runFrom (step : Cluster 3 → _) anyStep (init 3)
      (refusedTwice 0 2 ++ [.sendAppendEntries 2])).map
      (fun s => ((s.nodes 0).status, (s.nodes 0).nextIndex 1, (s.nodes 0).matchIndex 1)) =
        some (.leader, 1, 1) := by
    decide
  obtain ⟨s, hs, hshow⟩ := Reach.exists_of_runFrom hrun
  obtain ⟨hlead, hnext, hmatch⟩ : _ ∧ _ ∧ _ := by simpa only [Prod.mk.injEq] using hshow
  exact ⟨s, hs, hlead, hnext, hmatch⟩

end Cluster

end RaftStore
