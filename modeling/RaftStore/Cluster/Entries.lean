import RaftStore.Cluster.Elections

namespace RaftStore

/-!
# Where entries come from, and which steps fault

Every entry in a log or in a request was appended by one `Start`, and `Start` never uses an
index twice in a term: the term has one leader, and the end of its log never moves back.  So
`AppendEntries1` never meets two commands under one term and index, and the asserts of the
handlers fail in one situation only.

* `Cluster.Entries` — the invariant; `Cluster.entries_reach`.
* `Cluster.faultOf` — the fault in which the handler run by an action ends.
* `Cluster.asserts_iff` — it is a failed assert exactly for an `AppendEntries1` whose
  `prevLogIndex` lies below the receiver's snapshot point.
-/

/-- The fault in which a computation ends. -/
def Exec.fault {α : Type} : Exec α → Option Fault
  | .ok _ => none
  | .error f => some f

/-! ### Logs after a handler -/

/-- An entry of the merged log was there or has been sent. -/
theorem mem_overlay {off : ℕ} {es l : List LogEntry} {e : LogEntry} (h : e ∈ overlay off es l) :
    e ∈ l ∨ e ∈ es := by
  unfold overlay at h
  rcases List.mem_append.mp h with h | h
  · rcases List.mem_append.mp h with h | h
    · exact Or.inl (List.mem_of_mem_take h)
    · exact Or.inr h
  · exact Or.inl (List.mem_of_mem_drop h)

namespace Cluster

variable {n : ℕ}

section steps

variable [RaftArchive] {s s' : Cluster n} {a : Step n}

/-- An entry of a log after a step was there before, came with a request, or is new. -/
theorem Change.mem_logs (hc : Change s a s') {i : Fin n} {e : LogEntry}
    (he : e ∈ (s'.nodes i).logs) :
    e ∈ (s.nodes i).logs ∨ (∃ call ∈ s.appendCalls, e ∈ call.args.entries) ∨
      .started i e ∈ s'.history := by
  have hone : ∀ {j : Fin n} {rf : Raft n}, e ∈ (Function.update s.nodes j rf i).logs →
      (∀ e ∈ rf.logs, e ∈ (s.nodes j).logs) → e ∈ (s.nodes i).logs := fun he hsub =>
    update_rel (R := fun rf rf' => ∀ e ∈ rf'.logs, e ∈ rf.logs) (fun _ _ he => he) hsub i _ he
  cases hc with
  | idle | exit | doHeartBeat => exact Or.inl he
  | doElection hstatus =>
    exact Or.inl (hone he fun x hx => by rwa [Raft.doElection_fst hstatus] at hx)
  | requestVote _ _ hout =>
    refine Or.inl (hone he fun x hx => ?_)
    clear he
    cases hout <;> simpa using hx
  | sendRequestVote _ _ _ _ hout =>
    refine Or.inl (hone he fun x hx => ?_)
    clear he
    cases hout <;> simpa using hx
  | @appendEntries1 c call rf reply hcall hreply hout =>
    -- the merged log holds what was there and what the request carries
    by_cases hi : i = call.server
    · subst hi
      rw [setNode_nodes, Function.update_self] at he
      cases hout with
      | stale => exact Or.inl he
      | tooShort | mismatch => exact Or.inl (by simpa using he)
      | accepted =>
        rw [Raft.persist_logs, Raft.accept_logs] at he
        rcases mem_overlay he with he | he
        · exact Or.inl he
        · exact Or.inr (Or.inl ⟨call, List.mem_of_getElem? hcall, he⟩)
    · rw [setNode_nodes, Function.update_of_ne hi] at he
      exact Or.inl he
  | sendAppendEntries _ _ _ _ hout =>
    refine Or.inl (hone he fun x hx => ?_)
    clear he
    cases hout <;> simpa using hx
  | leaderSendSnapShot => exact Or.inl (hone he fun e he => he)
  | installSnapshot _ _ _ hout =>
    refine Or.inl (hone he fun x hx => ?_)
    clear he
    cases hout with
    | stale => exact hx
    | old => simpa using hx
    | installed =>
      rw [Raft.installed, Raft.saveSnapshot_logs, Raft.cutAt_logs] at hx
      simpa using List.mem_of_mem_drop hx
  | leaderSendSnapShotReply _ _ _ _ hout =>
    refine Or.inl (hone he fun x hx => ?_)
    clear he
    cases hout <;> simpa using hx
  | @start j command hstatus =>
    -- the new entry is the one that `Start` records
    by_cases hi : i = j
    · subst hi
      rw [setNode_nodes, Function.update_self] at he
      rcases List.mem_append.mp he with he | he
      · exact Or.inl he
      · rw [List.mem_singleton.mp he]
        exact Or.inr (Or.inr (by simp))
    · rw [setNode_nodes, Function.update_of_ne hi] at he
      exact Or.inl he
  | snapshot hout =>
    refine Or.inl (hone he fun x hx => ?_)
    clear he
    cases hout with
    | ignored => exact hx
    | compacted => exact List.mem_of_mem_drop hx
  | getApplyLogs => exact Or.inl (hone he fun e he => he)

/-- The requests after a step: the old ones, or what a leader has in its log. -/
theorem Change.mem_requests (hc : Change s a s') {e : LogEntry}
    {call : Call n AppendEntriesArgs AppendEntriesReply} (hcall : call ∈ s'.appendCalls)
    (he : e ∈ call.args.entries) :
    (∃ call ∈ s.appendCalls, e ∈ call.args.entries) ∨ ∃ i, e ∈ (s.nodes i).logs := by
  cases hc with
  | @doHeartBeat i calls hstatus hpeers hout =>
    rcases List.mem_append.mp hcall with hcall | hcall
    · exact Or.inl ⟨call, hcall, he⟩
    · obtain ⟨j, prevTerm, _, _, _, rfl⟩ := mem_appendSends hpeers hout hcall
      exact Or.inr ⟨i, List.mem_of_mem_drop he⟩
  | @appendEntries1 c call' _ _ hc | @sendAppendEntries c call' _ _ _ _ hc =>
    rcases List.mem_or_eq_of_mem_set hcall with hcall | rfl
    · exact Or.inl ⟨call, hcall, he⟩
    · exact Or.inl ⟨call', List.mem_of_getElem? hc, he⟩
  | _ => exact Or.inl ⟨call, hcall, he⟩

/-- What a step adds to the `started` events. -/
theorem Change.started (hc : Change s a s') {i : Fin n} {e : LogEntry}
    (he : .started i e ∈ s'.history) :
    .started i e ∈ s.history ∨ (s.nodes i).status = .leader ∧ a = .start i e.command ∧
      e = (s.nodes i).newEntry e.command ∧ s'.nodes i = (s.nodes i).started e.command := by
  cases hc with
  | sendRequestVote =>
    rcases List.mem_append.mp he with he | he
    · exact Or.inl he
    · split at he <;> simp at he
  | installSnapshot | getApplyLogs =>
    rcases List.mem_append.mp he with he | he
    · exact Or.inl he
    · simp at he
  | @start j command hstatus =>
    rcases List.mem_append.mp he with he | he
    · exact Or.inl he
    · obtain ⟨rfl, rfl⟩ : i = j ∧ e = (s.nodes j).newEntry command := by simpa using he
      exact Or.inr ⟨hstatus, rfl, rfl, Function.update_self ..⟩
  | _ => exact Or.inl he

end steps

/-! ### The origin of the entries -/

/-- Every entry was appended by the leader of its term, which used its index once. -/
structure Entries (s : Cluster n) : Prop where
  node : ∀ i, ∀ e ∈ (s.nodes i).logs, ∃ j, .started j e ∈ s.history
  request : ∀ call ∈ s.appendCalls, ∀ e ∈ call.args.entries, ∃ j, .started j e ∈ s.history
  origin : ∀ j e, .started j e ∈ s.history → .elected j e.logTerm ∈ s.history ∧
    e.logIndex ≤ (s.nodes j).getLastLogIndex
  unique : ∀ j e j' e', .started j e ∈ s.history → .started j' e' ∈ s.history →
    e.logTerm = e'.logTerm → e.logIndex = e'.logIndex → e = e'

/-- There is no entry at the start. -/
theorem entries_init (n : ℕ) : (init n).Entries where
  node _ _ he := by cases he
  request _ hcall := by cases hcall
  origin _ _ he := by cases he
  unique _ _ _ _ he := by cases he

section invariant

variable [RaftArchive] {s s' : Cluster n} {a : Step n}

/-- A step keeps the entries in order. -/
theorem Change.entries (hshape : s.Shape) (hel : s.Elections) (h : s.Entries)
    (hc : Change s a s') : s'.Entries := by
  have hmono : ∀ {e}, (∃ j, Event.started j e ∈ s.history) → ∃ j, .started j e ∈ s'.history :=
    fun ⟨j, hj⟩ => ⟨j, hc.history_mono hj⟩
  refine { node := ?_, request := ?_, origin := ?_, unique := ?_ }
  · intro i e he
    rcases hc.mem_logs he with he | ⟨call, hcall, he⟩ | he
    · exact hmono (h.node i e he)
    · exact hmono (h.request call hcall e he)
    · exact ⟨i, he⟩
  · intro call hcall e he
    rcases hc.mem_requests hcall he with ⟨call, hcall, he⟩ | ⟨i, he⟩
    · exact hmono (h.request call hcall e he)
    · exact hmono (h.node i e he)
  · intro j e he
    -- a new entry comes from the leader of its term, which then holds it
    rcases hc.started he with he | ⟨hstatus, _, hnew, hnode⟩
    · obtain ⟨helected, hle⟩ := h.origin j e he
      exact ⟨hc.history_mono helected, hle.trans (hc.last_le hshape j)⟩
    · refine ⟨?_, ?_⟩
      · rw [hnew]
        exact hc.history_mono (hel.leads j hstatus)
      · rw [hnode, ((hshape.node j).toLogWF.started e.command).2, hnew]
        exact le_rfl
  · -- an index above the end of the leader's log has not been used in its term
    have hfresh : ∀ {i e j e'}, (s.nodes i).status = .leader → e = (s.nodes i).newEntry e.command →
        Event.started j e' ∈ s.history → e.logTerm = e'.logTerm → e.logIndex ≠ e'.logIndex := by
      intro i e j e' hstatus hnew he' hterm hidx
      obtain ⟨helected, hle⟩ := h.origin j e' he'
      rw [← hterm, hnew] at helected
      obtain rfl : j = i := hel.elected_unique helected (hel.leads i hstatus)
      rw [← hidx, hnew] at hle
      simp only [Raft.newEntry] at hle
      omega
    intro j e j' e' he he' hterm hidx
    rcases hc.started he with hold | ⟨hstatus, hstart, hnew, _⟩ <;>
      rcases hc.started he' with hold' | ⟨hstatus', hstart', hnew', _⟩
    · exact h.unique j e j' e' hold hold' hterm hidx
    · exact absurd hidx.symm (hfresh hstatus' hnew' hold hterm.symm)
    · exact absurd hidx (hfresh hstatus hnew hold' hterm)
    · rw [hstart, Step.start.injEq] at hstart'
      rw [hnew, hnew', hstart'.1, hstart'.2]

/-- **The origin of the entries holds in every reachable state.** -/
theorem entries_reach {ok : Cluster n → Step n → Prop} (h : Reach step ok (init n) s) :
    s.Entries :=
  h.invariant (entries_init n) fun _ _ _ hr hs _ hstep =>
    (reach_change hr hstep).entries (shape_reach hr) (elections_reach hr) hs

omit [RaftArchive] in
/-- No entry of a request meets another command under its term and index. -/
theorem Entries.noClash (h : s.Entries) (hshape : s.Shape)
    {call : Call n AppendEntriesArgs AppendEntriesReply} (hcall : call ∈ s.appendCalls)
    {e : LogEntry} (he : e ∈ call.args.entries) (i : Fin n) : (s.nodes i).NoClash e := by
  intro cur hcur hterm
  obtain ⟨j, hj⟩ := h.request call hcall e he
  obtain ⟨j', hj'⟩ := h.node i cur (Raft.entryAt_mem hcur)
  rw [h.unique j' cur j e hj' hj hterm ((hshape.node i).toLogWF.logIndex_entryAt hcur)]

/-! ### Faults -/

/-- The fault in which the handler that action `a` runs ends. -/
def faultOf (s : Cluster n) : Step n → Option Fault
  | .doElection _ => none
  | .requestVote c => do
    let call ← s.voteCalls[c]?
    Exec.fault ((s.nodes call.server).requestVote call.args)
  | .sendRequestVote c => do
    let call ← s.voteCalls[c]?
    let reply ← call.reply
    let round ← s.votedNums[call.round]?
    Exec.fault ((s.nodes call.caller).sendRequestVoteReply reply round.count)
  | .doHeartBeat i => Exec.fault (s.nodes i).doHeartBeat
  | .appendEntries1 c => do
    let call ← s.appendCalls[c]?
    Exec.fault ((s.nodes call.server).appendEntries1 call.args)
  | .sendAppendEntries c => do
    let call ← s.appendCalls[c]?
    let reply ← call.reply
    let round ← s.appendNums[call.round]?
    Exec.fault
      ((s.nodes call.caller).sendAppendEntriesReply call.server call.args reply round.count)
  | .leaderSendSnapShot _ => none
  | .installSnapshot c => do
    let call ← s.snapCalls[c]?
    let args ← call.args
    Exec.fault ((s.nodes call.server).installSnapshot args)
  | .leaderSendSnapShotReply _ => none
  | .start _ _ => none
  | .snapshot i index data => Exec.fault ((s.nodes i).snapshot index data)
  | .getApplyLogs i => Exec.fault (s.nodes i).getApplyLogs

omit [RaftArchive] in
/-- The action delivers an `AppendEntries1` that is not stale and whose `prevLogIndex` lies
    below the receiver's snapshot point. -/
def BelowSnapshot (s : Cluster n) (a : Step n) : Prop :=
  ∃ c call, a = .appendEntries1 c ∧ s.appendCalls[c]? = some call ∧
    (s.nodes call.server).currentTerm ≤ call.args.term ∧
    call.args.prevLogIndex < (s.nodes call.server).lastSnapshotIncludeIndex

/-- A request below the snapshot point ends the process. -/
theorem Shape.faultOf_below (h : s.Shape) (hb : s.BelowSnapshot a) :
    s.faultOf a = some .myAssert := by
  obtain ⟨c, call, rfl, hc, hterm, hprev⟩ := hb
  simp only [faultOf, hc, Option.bind_eq_bind, Option.bind_some,
    Raft.appendEntries1_below_snapshot (h.node _).toLogWF hterm hprev]
  rfl

omit [RaftArchive] in
/-- A request that is not below the receiver's snapshot point is not rejected. -/
theorem Entries.not_rejects (h : s.Entries) (hshape : s.Shape) {c : ℕ}
    {call : Call n AppendEntriesArgs AppendEntriesReply} (hc : s.appendCalls[c]? = some call)
    (hb : ¬ s.BelowSnapshot (.appendEntries1 c)) :
    ¬ (s.nodes call.server).Rejects call.args := by
  rintro ⟨hterm, hprev | ⟨_, e, he, hclash⟩⟩
  · exact hb ⟨c, call, rfl, hc, hterm, hprev⟩
  · exact hclash (h.noClash hshape (List.mem_of_getElem? hc) he _)

/-- In every other case no handler faults. -/
theorem faultOf_not_below (hshape : s.Shape) (hel : s.Elections) (h : s.Entries)
    (hs : s.step a = some s') (hb : ¬ s.BelowSnapshot a) : s.faultOf a = none := by
  cases a with
  | doElection | leaderSendSnapShot | leaderSendSnapShotReply | start => rfl
  | requestVote c =>
    refine Option.bind_eq_none_iff.mpr fun call _ => ?_
    obtain ⟨rf, reply, hok, _⟩ := (s.nodes call.server).requestVote_outcome call.args
    rw [hok]
    rfl
  | sendRequestVote c =>
    obtain ⟨call, hc, hs⟩ := Option.bind_eq_some_iff.mp hs
    obtain ⟨reply, hreply, hs⟩ := Option.bind_eq_some_iff.mp hs
    obtain ⟨round, hround, hs⟩ := Option.bind_eq_some_iff.mp hs
    -- a reply comes back once, and nobody is elected twice in a term
    have hret : call.returned = false := by
      by_contra hret
      rw [if_pos (Or.inr (by simpa using hret))] at hs
      cases hs
    obtain ⟨rf, count, hok, _⟩ :=
      Raft.sendRequestVoteReply_outcome (hel.not_twiceElected hc hreply hround hret)
    simp only [faultOf, hc, hreply, hround, hok, Option.bind_eq_bind, Option.bind_some]
    rfl
  | doHeartBeat i =>
    by_cases hstatus : (s.nodes i).status = .leader
    · -- the slots of a leader stay between its snapshot point and the end of its log
      obtain ⟨calls, hok, _⟩ := (hshape.node i).toLogWF.doHeartBeat_outcome hstatus
        fun j _ => ⟨(hshape.leader i hstatus j).1, (hshape.leader i hstatus j).2.1⟩
      rw [faultOf, hok]
      rfl
    · rw [faultOf, Raft.doHeartBeat, if_neg hstatus]
      rfl
  | appendEntries1 c =>
    refine Option.bind_eq_none_iff.mpr fun call hc => ?_
    obtain ⟨rf, reply, hok, _⟩ := Raft.appendEntries1_outcome (hshape.node _).toLogWF
      (hshape.node _).last (hshape.append call (List.mem_of_getElem? hc)).args
      (h.not_rejects hshape hc hb)
    rw [hok]
    rfl
  | sendAppendEntries c =>
    refine Option.bind_eq_none_iff.mpr fun call hc => Option.bind_eq_none_iff.mpr fun reply _ =>
      Option.bind_eq_none_iff.mpr fun round _ => ?_
    obtain ⟨rf, count, hok, _⟩ := Raft.sendAppendEntriesReply_outcome
      (s.nodes call.caller) call.server call.args reply round.count (hshape.node _).last
      (fun hcounts => (hshape.leader _ hcounts.2.1 call.server).2.2)
      (fun _ => (hshape.append call (List.mem_of_getElem? hc)).sent)
    rw [hok]
    rfl
  | installSnapshot c =>
    refine Option.bind_eq_none_iff.mpr fun call _ => Option.bind_eq_none_iff.mpr fun args _ => ?_
    obtain ⟨rf, reply, msg, hok, _⟩ :=
      Raft.installSnapshot_outcome (hshape.node call.server).toLogWF args
    rw [hok]
    rfl
  | snapshot i index data =>
    obtain ⟨rf, hok, _⟩ :=
      Raft.snapshot_outcome (hshape.node i).toLogWF (hshape.node i).last index data
    rw [faultOf, hok]
    rfl
  | getApplyLogs i =>
    rw [faultOf, (hshape.node i).getApplyLogs_eq]
    rfl

/-- **Which steps fail an assert.**  In every reachable state a step evaluates a `myAssert`
    whose condition is false exactly when it delivers an `AppendEntries1`, not stale, whose
    `prevLogIndex` lies below the snapshot point of the receiver. -/
theorem asserts_iff (h : Reach step anyStep (init n) s) (hs : s.step a = some s') :
    s.faultOf a = some .myAssert ↔ s.BelowSnapshot a := by
  have hshape := shape_reach h
  constructor
  · intro hf
    by_contra hb
    rw [faultOf_not_below hshape (elections_reach h) (entries_reach h) hs hb] at hf
    cases hf
  · exact hshape.faultOf_below

end invariant

/-! ### A delayed heartbeat -/

/-- Node 0 is elected, sends two heartbeats with its first command and commits it; node 1
    applies it. -/
def delayedRun : List (Step 3) :=
  [.doElection 0, .requestVote 0, .sendRequestVote 0, .start 0 "x", .doHeartBeat 0,
    .doHeartBeat 0, .appendEntries1 0, .sendAppendEntries 0, .doHeartBeat 0, .appendEntries1 4,
    .getApplyLogs 1]

/-- Before node 1 compacts its log, the second of the two early heartbeats does no harm. -/
theorem asserts_iff_delayedRun :
    letI := textRaftArchive
    ∃ s s' : Cluster 3, Reach step anyStep (init 3) s ∧ s.step (.appendEntries1 2) = some s' ∧
      ¬ s.BelowSnapshot (.appendEntries1 2) := by
  let := textRaftArchive
  have hrun : (runFrom (step : Cluster 3 → _) anyStep (init 3) delayedRun).bind
      (fun s => (s.step (.appendEntries1 2)).map fun _ => s.faultOf (.appendEntries1 2)) =
        some none := by
    decide
  obtain ⟨s, hs, hrun⟩ := Option.bind_eq_some_iff.mp hrun
  obtain ⟨s', hs', hfault⟩ := Option.map_eq_some_iff.mp hrun
  refine ⟨s, s', .of_runFrom hs, hs', fun hb => ?_⟩
  rw [(asserts_iff (.of_runFrom hs) hs').mpr hb] at hfault
  cases hfault

/-- After the compaction the same heartbeat ends the process of node 1. -/
theorem delayed_heartbeat_asserts :
    letI := textRaftArchive
    ∃ s s' : Cluster 3, Reach step anyStep (init 3) s ∧ s.step (.appendEntries1 2) = some s' ∧
      s.faultOf (.appendEntries1 2) = some .myAssert ∧ s.exited 1 = false ∧ s'.exited 1 = true := by
  let := textRaftArchive
  have hrun : (runFrom (step : Cluster 3 → _) anyStep (init 3)
      (delayedRun ++ [.snapshot 1 1 "s"])).bind
      (fun s => (s.step (.appendEntries1 2)).map fun s' =>
        (s.faultOf (.appendEntries1 2), s.exited 1, s'.exited 1)) =
          some (some .myAssert, false, true) := by
    decide
  obtain ⟨s, hs, hrun⟩ := Option.bind_eq_some_iff.mp hrun
  obtain ⟨s', hs', hshow⟩ := Option.map_eq_some_iff.mp hrun
  obtain ⟨hfault, hbefore, hafter⟩ : _ ∧ _ ∧ _ := by simpa only [Prod.mk.injEq] using hshow
  exact ⟨s, s', .of_runFrom hs, hs', hfault, hbefore, hafter⟩

end Cluster

end RaftStore
