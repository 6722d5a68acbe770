import RaftStore.Cluster.Rounds
import RaftStore.Node.Progress
import RaftStore.Model.Archive

namespace RaftStore

/-!
# A leader stays

A leader whose term nobody exceeds leads on until an election timer fires somewhere else: no message
that is under way, however old, makes it step down.  There is one exception.  `leaderSendSnapShot`
does not look at `m_status` before it builds its request, so a thread that a former leader started
may send a snapshot with the term of its successor.

* `Raft.Hears` — what a message of some term can do to a node.
* `Cluster.RepliesLE`, `Cluster.Terms` — no reply is ahead of the node that sent it.
* `Cluster.SnapsElected` — if snapshot threads build their requests while their node leads, each
  snapshot request is from the leader of its term.
* `Cluster.leader_stays` — **the leader stays**.
-/

namespace Raft

variable {n : ℕ} [RaftArchive] {rf rf' : Raft n}

/-- From a message of the given term a node learns at most that term, and only a later term makes
    a leader step down. -/
structure Hears (rf : Raft n) (term : Int) (rf' : Raft n) : Prop where
  bound : rf'.currentTerm ≤ max rf.currentTerm term
  leads : rf.status = .leader → term ≤ rf.currentTerm → rf'.status = .leader

omit [RaftArchive] in
/-- Nothing was learned. -/
theorem Hears.refl (rf : Raft n) (term : Int) : rf.Hears term rf := ⟨le_max_left .., fun h _ => h⟩

omit [RaftArchive] in
/-- A term that is not behind is learned. -/
theorem hears_observe (rf : Raft n) {term : Int} (hle : rf.currentTerm ≤ term) :
    rf.Hears term (rf.observe term) where
  bound := by
    rw [observe_currentTerm hle]
    exact le_max_right ..
  leads hstatus hterm := by
    rw [observe, if_neg (not_lt.mpr hterm)]
    exact hstatus

/-- A later term in a reply is learned. -/
theorem hears_stepDown {term : Int} (hlt : rf.currentTerm < term) :
    rf.Hears term (rf.stepDown term).persist where
  bound := le_max_right ..
  leads _ hterm := absurd hlt (not_lt.mpr hterm)

/-- A vote request tells its term. -/
theorem RequestVoteOutcome.hears {args : RequestVoteArgs} {reply : RequestVoteReply}
    (h : rf.RequestVoteOutcome args rf' reply) : rf.Hears args.term rf' := by
  cases h with
  | stale => exact ⟨le_max_left .., fun hstatus _ => hstatus⟩
  | refused hterm =>
    exact ⟨(hears_observe rf hterm).bound, (hears_observe rf hterm).leads⟩
  | granted hterm =>
    exact ⟨(hears_observe rf hterm).bound, (hears_observe rf hterm).leads⟩

/-- The reply to a vote request tells its term. -/
theorem VoteReplyOutcome.hears {reply : RequestVoteReply} {votedNum count : Int}
    (h : rf.VoteReplyOutcome reply votedNum rf' count) : rf.Hears reply.term rf' := by
  cases h with
  | stepDown hterm => exact hears_stepDown hterm
  | ignored => exact .refl ..
  | counted => exact .refl ..
  | elected => exact ⟨le_max_left .., fun _ _ => rfl⟩

/-- So does the reply to a request for entries. -/
theorem AppendReplyOutcome.hears {server : Fin n} {args : AppendEntriesArgs}
    {reply : AppendEntriesReply} {appendNums count : Int}
    (h : rf.AppendReplyOutcome server args reply appendNums rf' count) :
    rf.Hears reply.term rf' := by
  cases h with
  | stepDown hterm => exact hears_stepDown hterm
  | ignored => exact .refl ..
  | backOff => exact ⟨le_max_left .., fun hstatus _ => hstatus⟩
  | counted => exact ⟨le_max_left .., fun hstatus _ => hstatus⟩
  | majority =>
    refine ⟨?_, fun hstatus _ => ?_⟩
    · simp
    · simpa using hstatus

/-- So does the reply to a snapshot. -/
theorem SnapshotReplyOutcome.hears {server : Fin n} {args : InstallSnapshotRequest}
    {reply : InstallSnapshotResponse} (h : rf.SnapshotReplyOutcome server args reply rf') :
    rf.Hears reply.term rf' := by
  cases h with
  | ignored => exact .refl ..
  | stepDown hterm => exact hears_stepDown hterm
  | recorded => exact ⟨le_max_left .., fun hstatus _ => hstatus⟩

/-- A request of a leader, unless it is stale, makes the node a follower. -/
structure Obeys (rf : Raft n) (term : Int) (rf' : Raft n) : Prop where
  bound : rf'.currentTerm ≤ max rf.currentTerm term
  stale : term < rf.currentTerm → rf' = rf

/-- A request for entries is obeyed unless it is stale. -/
theorem AppendEntriesOutcome.obeys {args : AppendEntriesArgs} {reply : AppendEntriesReply}
    (h : rf.AppendEntriesOutcome args rf' reply) : rf.Obeys args.term rf' := by
  cases h with
  | stale => exact ⟨le_max_left .., fun _ => rfl⟩
  | tooShort hterm | mismatch hterm =>
    refine ⟨?_, fun hlt => absurd hlt (not_lt.mpr hterm)⟩
    rw [persist_currentTerm, follow_currentTerm hterm]
    exact le_max_right ..
  | accepted hterm =>
    refine ⟨?_, fun hlt => absurd hlt (not_lt.mpr hterm)⟩
    rw [persist_currentTerm, accept_currentTerm hterm]
    exact le_max_right ..

/-- So is a snapshot. -/
theorem InstallSnapshotOutcome.obeys {args : InstallSnapshotRequest}
    {reply : InstallSnapshotResponse} {msg : Option ApplyMsg}
    (h : rf.InstallSnapshotOutcome args rf' reply msg) : rf.Obeys args.term rf' := by
  cases h with
  | stale => exact ⟨le_max_left .., fun _ => rfl⟩
  | old hterm | installed hterm =>
    refine ⟨?_, fun hlt => absurd hlt (not_lt.mpr hterm)⟩
    show (rf.heed args.term).currentTerm ≤ _
    rw [heed_currentTerm hterm]
    exact le_max_right ..

/-! ### The terms of replies -/

/-- The answer to a vote request is not ahead of the voter. -/
theorem RequestVoteOutcome.reply_le {args : RequestVoteArgs} {reply : RequestVoteReply}
    (h : rf.RequestVoteOutcome args rf' reply) : reply.term ≤ rf'.currentTerm := by
  cases h with
  | stale => exact le_rfl
  | refused hterm => exact (observe_currentTerm hterm).ge
  | granted hterm => exact (observe_currentTerm hterm).ge

/-- The answer to a request for entries is not ahead of the follower. -/
theorem AppendEntriesOutcome.reply_le {args : AppendEntriesArgs} {reply : AppendEntriesReply}
    (h : rf.AppendEntriesOutcome args rf' reply) : reply.term ≤ rf'.currentTerm := by
  cases h with
  | stale => exact le_rfl
  | tooShort hterm | mismatch hterm => exact (follow_currentTerm hterm).ge
  | accepted hterm => exact (accept_currentTerm hterm).ge

/-- Neither is the answer to a snapshot, also with the term 0 that the early return leaves. -/
theorem InstallSnapshotOutcome.reply_le {args : InstallSnapshotRequest}
    {reply : InstallSnapshotResponse} {msg : Option ApplyMsg}
    (h : rf.InstallSnapshotOutcome args rf' reply msg) (hnonneg : 0 ≤ rf.currentTerm) :
    reply.term ≤ rf'.currentTerm := by
  cases h with
  | stale => exact le_rfl
  | old hterm =>
    -- the reply has no term
    rw [heed_currentTerm hterm]
    exact hnonneg.trans hterm
  | installed hterm => exact (heed_currentTerm hterm).ge

end Raft

namespace Cluster

variable {n : ℕ} {s s' : Cluster n}

/-! ### Replies -/

section replies

variable {Args Reply : Type} {nodes nodes' : Fin n → Raft n} {term : Reply → Int}
  {calls : List (Call n Args Reply)} {call : Call n Args Reply} {reply : Reply} {c : ℕ}

/-- No reply has a term above that of the node that sent it. -/
def RepliesLE (nodes : Fin n → Raft n) (term : Reply → Int) (calls : List (Call n Args Reply)) :
    Prop :=
  ∀ call ∈ calls, ∀ reply, call.reply = some reply →
    term reply ≤ (nodes call.server).currentTerm

/-- Terms only rise. -/
theorem RepliesLE.mono (h : RepliesLE nodes term calls)
    (hle : ∀ i, (nodes i).currentTerm ≤ (nodes' i).currentTerm) :
    RepliesLE nodes' term calls :=
  fun call hcall reply hreply => (h call hcall reply hreply).trans (hle _)

/-- A new call has no reply yet. -/
theorem RepliesLE.append (h : RepliesLE nodes term calls) {new : List (Call n Args Reply)}
    (hnew : ∀ call ∈ new, call.reply = none) : RepliesLE nodes term (calls ++ new) := by
  intro call hcall reply hreply
  rcases List.mem_append.mp hcall with hcall | hcall
  · exact h call hcall reply hreply
  · rw [hnew call hcall] at hreply
    cases hreply

/-- A call that changes has a reply that is not ahead of its sender. -/
theorem RepliesLE.set (h : RepliesLE nodes term calls)
    (hcall : ∀ reply, call.reply = some reply → term reply ≤ (nodes call.server).currentTerm) :
    RepliesLE nodes term (calls.set c call) := by
  intro call' hcall' reply hreply
  rcases List.mem_or_eq_of_mem_set hcall' with hold | rfl
  · exact h call' hold reply hreply
  · exact hcall reply hreply

/-- A call is answered. -/
theorem RepliesLE.answer (h : RepliesLE nodes term calls)
    (hle : term reply ≤ (nodes call.server).currentTerm) (rf : Raft n) :
    RepliesLE nodes term (calls.set c { call with reply := some reply, after := some rf }) := by
  refine h.set fun reply' hreply' => ?_
  obtain rfl := Option.some.inj hreply'
  exact hle

/-- A call returns. -/
theorem RepliesLE.return (h : RepliesLE nodes term calls) (hc : calls[c]? = some call) :
    RepliesLE nodes term (calls.set c { call with returned := true }) :=
  h.set fun reply hreply => h call (List.mem_of_getElem? hc) reply hreply

end replies

/-- Terms are not negative, and no reply is ahead of its sender. -/
structure Terms (s : Cluster n) : Prop where
  nonneg : ∀ i, 0 ≤ (s.nodes i).currentTerm
  vote : RepliesLE s.nodes RequestVoteReply.term s.voteCalls
  append : RepliesLE s.nodes AppendEntriesReply.term s.appendCalls
  snap : RepliesLE s.nodes InstallSnapshotResponse.term s.snapCalls

/-- All terms are 0 at the start, and there is no reply. -/
theorem terms_init (n : ℕ) : (init n).Terms where
  nonneg _ := le_rfl
  vote _ h := by cases h
  append _ h := by cases h
  snap _ h := by cases h

section steps

variable [RaftArchive] {a : Step n}

/-- **Step lemma.** -/
theorem Change.terms (hshape : s.Shape) (h : s.Terms) (hc : Change s a s') : s'.Terms := by
  have hle : ∀ i, (s.nodes i).currentTerm ≤ (s'.nodes i).currentTerm :=
    fun i => (hc.later hshape i).le
  have hnonneg : ∀ i, 0 ≤ (s'.nodes i).currentTerm := fun i => (h.nonneg i).trans (hle i)
  have hvote : RepliesLE s'.nodes RequestVoteReply.term s.voteCalls := h.vote.mono hle
  have happend : RepliesLE s'.nodes AppendEntriesReply.term s.appendCalls := h.append.mono hle
  have hsnap : RepliesLE s'.nodes InstallSnapshotResponse.term s.snapCalls := h.snap.mono hle
  cases hc with
  | doElection hstatus =>
    refine ⟨hnonneg, hvote.append fun call hcall => ?_, happend, hsnap⟩
    obtain ⟨j, -, rfl⟩ := mem_voteSends hstatus hcall
    rfl
  | requestVote hcall hreply hout =>
    refine ⟨hnonneg, hvote.answer ?_ _, happend, hsnap⟩
    rw [setNode_nodes, Function.update_self]
    exact hout.reply_le
  | sendRequestVote hcall => exact ⟨hnonneg, hvote.return hcall, happend, hsnap⟩
  | doHeartBeat hstatus hpeers hout =>
    -- both kinds of request carry the leader's term
    refine ⟨hnonneg, hvote, happend.append fun call hcall => ?_, hsnap.append fun call hcall => ?_⟩
    · obtain ⟨j, prevTerm, -, -, -, rfl⟩ := mem_appendSends hpeers hout hcall
      rfl
    · obtain ⟨j, -, rfl⟩ := mem_snapshotSends hpeers hcall
      rfl
  | appendEntries1 hcall hreply hout =>
    refine ⟨hnonneg, hvote, happend.answer ?_ _, hsnap⟩
    rw [setNode_nodes, Function.update_self]
    exact hout.reply_le
  | sendAppendEntries hcall => exact ⟨hnonneg, hvote, happend.return hcall, hsnap⟩
  -- here the request gets its term, from the node as it is now
  | @leaderSendSnapShot c call hcall hargs =>
    refine ⟨hnonneg, hvote, happend, hsnap.set fun reply hreply => ?_⟩
    exact hsnap call (List.mem_of_getElem? hcall) reply hreply
  | installSnapshot hcall hargs hreply hout =>
    refine ⟨hnonneg, hvote, happend, hsnap.answer ?_ _⟩
    rw [setNode_nodes, Function.update_self]
    exact hout.reply_le (h.nonneg _)
  | leaderSendSnapShotReply hcall => exact ⟨hnonneg, hvote, happend, hsnap.return hcall⟩
  | _ => exact ⟨hnonneg, hvote, happend, hsnap⟩

/-- Terms and replies are in order in every reachable state. -/
theorem terms_reach {ok : Cluster n → Step n → Prop} (h : Reach step ok (init n) s) : s.Terms :=
  h.invariant (terms_init n) fun _ _ _ hr hs _ hstep =>
    (reach_change hr hstep).terms (shape_reach hr) hs

end steps

/-! ### The senders of requests -/

section senders

variable {i : Fin n} {T : Int}

/-- Nobody was elected in a term that is still to come. -/
theorem Elections.elected_le (h : s.Elections) (he : .elected i T ∈ s.history) :
    T ≤ (s.nodes i).currentTerm := by
  obtain ⟨r, round, hround, rfl, rfl, -⟩ := h.elected i T he
  exact h.round round (List.mem_of_getElem? hround)

/-- No vote request is ahead of its candidate. -/
theorem Elections.voteArgs_le (h : s.Elections) {call : Call n RequestVoteArgs RequestVoteReply}
    (hcall : call ∈ s.voteCalls) : call.args.term ≤ (s.nodes call.caller).currentTerm := by
  obtain ⟨round, hround, howner, hterm⟩ := (h.call call hcall).round
  rw [← hterm, ← howner]
  exact h.round round (List.mem_of_getElem? hround)

/-- A request for entries is from the leader of its term. -/
theorem Rounds.elected (h : s.Rounds) {call : Call n AppendEntriesArgs AppendEntriesReply}
    (hcall : call ∈ s.appendCalls) : .elected call.caller call.args.term ∈ s.history := by
  obtain ⟨round, prevTerm, hround, howner, -, hargs⟩ := (h.call call hcall).round
  rw [hargs, ← howner]
  exact (h.round round (List.mem_of_getElem? hround)).elected

/-- Snapshot requests are for other nodes, and from the leaders of their terms. -/
def SnapsElected (s : Cluster n) : Prop :=
  ∀ call ∈ s.snapCalls, call.server ≠ call.caller ∧
    ∀ args, call.args = some args → .elected call.caller args.term ∈ s.history

/-- The condition on a run: a thread for a snapshot builds its request while its node leads. -/
def PromptSnapshots (s : Cluster n) : Step n → Prop
  | .leaderSendSnapShot c => ∀ call ∈ s.snapCalls[c]?, (s.nodes call.caller).status = .leader
  | _ => True

instance (s : Cluster n) : (a : Step n) → Decidable (s.PromptSnapshots a)
  | .leaderSendSnapShot c =>
    inferInstanceAs (Decidable (∀ call ∈ s.snapCalls[c]?, (s.nodes call.caller).status = .leader))
  | .doElection _ | .requestVote _ | .sendRequestVote _ | .doHeartBeat _ | .appendEntries1 _
  | .sendAppendEntries _ | .installSnapshot _ | .leaderSendSnapShotReply _ | .start ..
  | .snapshot .. | .getApplyLogs _ => inferInstanceAs (Decidable True)

variable [RaftArchive] {a : Step n}

/-- **Step lemma.** -/
theorem Change.snapsElected (hshape : s.Shape) (hel : s.Elections) (h : s.SnapsElected)
    (hc : Change s a s') (hok : s.PromptSnapshots a) : s'.SnapsElected := by
  have hold : ∀ call ∈ s.snapCalls, call.server ≠ call.caller ∧
      ∀ args, call.args = some args → .elected call.caller args.term ∈ s'.history :=
    fun call hcall => ⟨(h call hcall).1, fun args hargs =>
      hc.history_mono ((h call hcall).2 args hargs)⟩
  cases hc with
  | doHeartBeat hstatus hpeers =>
    intro call hcall
    rcases List.mem_append.mp hcall with hcall | hcall
    · exact hold call hcall
    · obtain ⟨j, hj, rfl⟩ := mem_snapshotSends hpeers hcall
      rw [hshape.me] at hj
      -- the arguments are not read yet
      exact ⟨hj, fun args hargs => by cases hargs⟩
  | @leaderSendSnapShot c call hcall hargs =>
    intro call' hcall'
    rcases List.mem_or_eq_of_mem_set hcall' with hmem | rfl
    · exact hold call' hmem
    -- the thread reads them while its node still leads, as the condition says
    · refine ⟨(h call (List.mem_of_getElem? hcall)).1, fun args hargs => ?_⟩
      obtain rfl := Option.some.inj hargs
      exact hel.leads call.caller (hok call hcall)
  | @installSnapshot c call args rf reply msg hcall =>
    intro call' hcall'
    rcases List.mem_or_eq_of_mem_set hcall' with hmem | rfl
    · exact hold call' hmem
    · exact hold call (List.mem_of_getElem? hcall)
  | @leaderSendSnapShotReply c call args reply rf hcall =>
    intro call' hcall'
    rcases List.mem_or_eq_of_mem_set hcall' with hmem | rfl
    · exact hold call' hmem
    · exact hold call (List.mem_of_getElem? hcall)
  | _ => exact hold

/-- In the runs whose snapshot threads are prompt, every snapshot is a leader's of its term. -/
theorem snapsElected_reach (h : Reach step PromptSnapshots (init n) s) : s.SnapsElected :=
  h.invariant (fun call hcall => (by cases hcall)) fun _ _ _ hr hs hok hstep =>
    (reach_change hr hstep).snapsElected (shape_reach hr) (elections_reach hr) hs hok

end senders

/-! ### The leader -/

section leader

variable {i j : Fin n} {T term : Int} {rf : Raft n}

/-- Node `i` is alive and leads in term `T`, which is the highest. -/
structure Settled (s : Cluster n) (i : Fin n) (T : Int) : Prop where
  live : s.exited i = false
  leads : (s.nodes i).status = .leader
  term : (s.nodes i).currentTerm = T
  highest : ∀ j, (s.nodes j).currentTerm ≤ T

/-- One node moves. -/
theorem Settled.move (h : s.Settled i T) (hexited : s'.exited = s.exited)
    (hnodes : s'.nodes = Function.update s.nodes j rf) (hbound : rf.currentTerm ≤ T)
    (hself : j = i → rf.status = .leader ∧ rf.currentTerm = T) : s'.Settled i T := by
  have hnode : (s'.nodes i).status = .leader ∧ (s'.nodes i).currentTerm = T := by
    rw [hnodes]
    by_cases hij : i = j
    · subst hij
      rw [Function.update_self]
      exact hself rfl
    · rw [Function.update_of_ne hij]
      exact ⟨h.leads, h.term⟩
  refine ⟨?_, hnode.1, hnode.2, fun k => ?_⟩
  · rw [hexited]
    exact h.live
  · rw [hnodes]
    by_cases hkj : k = j
    · subst hkj
      rw [Function.update_self]
      exact hbound
    · rw [Function.update_of_ne hkj]
      exact h.highest k

variable [RaftArchive] {a : Step n}

omit [RaftArchive] in
/-- A node that learns a term which is not past `T` leaves the leader in place. -/
theorem Settled.hears (h : s.Settled i T) (hexited : s'.exited = s.exited)
    (hnodes : s'.nodes = Function.update s.nodes j rf)
    (hle : (s.nodes j).currentTerm ≤ rf.currentTerm) (hhears : (s.nodes j).Hears term rf)
    (hterm : term ≤ T) : s'.Settled i T := by
  have hbound : rf.currentTerm ≤ T := hhears.bound.trans (max_le (h.highest j) hterm)
  refine h.move hexited hnodes hbound ?_
  rintro rfl
  rw [h.term] at hle
  exact ⟨hhears.leads h.leads (h.term.symm ▸ hterm), le_antisymm hbound hle⟩

omit [RaftArchive] in
/-- So does a node that obeys a leader of a term which is not past `T`, if the leader itself obeys
    none of `T`. -/
theorem Settled.obeys (h : s.Settled i T) (hexited : s'.exited = s.exited)
    (hnodes : s'.nodes = Function.update s.nodes j rf) (hobeys : (s.nodes j).Obeys term rf)
    (hterm : term ≤ T) (hself : j = i → term < T) : s'.Settled i T := by
  refine h.move hexited hnodes (hobeys.bound.trans (max_le (h.highest j) hterm)) ?_
  rintro rfl
  rw [hobeys.stale (h.term.symm ▸ hself rfl)]
  exact ⟨h.leads, h.term⟩

omit [RaftArchive] in
/-- A request of a leader has no later term, and one for node `i` an earlier one. -/
theorem Settled.request (h : s.Settled i T) (hel : s.Elections) {caller server : Fin n}
    (hother : server ≠ caller) (he : .elected caller term ∈ s.history) :
    term ≤ T ∧ (server = i → term < T) := by
  have hle : term ≤ T := (hel.elected_le he).trans (h.highest caller)
  refine ⟨hle, fun hserver => lt_of_le_of_ne hle ?_⟩
  rintro rfl
  have hi : Event.elected i (s.nodes i).currentTerm ∈ s.history := hel.leads i h.leads
  rw [h.term] at hi
  exact hother (hserver.trans (hel.elected_unique hi he))

/-- The steps but the elections that a timer starts. -/
def Undisturbed (s : Cluster n) : Step n → Prop
  | .doElection i => (s.nodes i).status = .leader
  | _ => True

instance (s : Cluster n) : (a : Step n) → Decidable (s.Undisturbed a)
  | .doElection i => inferInstanceAs (Decidable ((s.nodes i).status = .leader))
  | .requestVote _ | .sendRequestVote _ | .doHeartBeat _ | .appendEntries1 _
  | .sendAppendEntries _ | .leaderSendSnapShot _ | .installSnapshot _
  | .leaderSendSnapShotReply _ | .start .. | .snapshot .. | .getApplyLogs _ =>
    inferInstanceAs (Decidable True)

/-- **Step lemma.** -/
theorem Change.settled (hshape : s.Shape) (hel : s.Elections) (hrounds : s.Rounds)
    (hterms : s.Terms) (hsnaps : s.SnapsElected) (h : s.Settled i T) (hc : Change s a s')
    (hok : s.Undisturbed a) : s'.Settled i T := by
  have hlater : ∀ j, (s.nodes j).currentTerm ≤ (s'.nodes j).currentTerm :=
    fun j => (hc.later hshape j).le
  -- the node that moved
  have hle : ∀ {j : Fin n} {rf : Raft n}, s'.nodes = Function.update s.nodes j rf →
      (s.nodes j).currentTerm ≤ rf.currentTerm := by
    intro j rf hnodes
    have hj := hlater j
    rwa [hnodes, Function.update_self] at hj
  have happend : ∀ {call : Call n AppendEntriesArgs AppendEntriesReply} {c : ℕ},
      s.appendCalls[c]? = some call →
        call.args.term ≤ T ∧ (call.server = i → call.args.term < T) := fun hcall =>
    h.request hel (hrounds.call _ (List.mem_of_getElem? hcall)).other
      (hrounds.elected (List.mem_of_getElem? hcall))
  cases hc with
  | idle => exact h
  | exit hi hf =>
    rename_i k
    have hne : i ≠ k := by
      rintro rfl
      cases hf with
      | sendRequestVote hc hreply hround hret htwice =>
        exact hel.not_twiceElected hc hreply hround hret htwice
      | appendEntries1 hc hreply hrej =>
        have hlt := (happend hc).2 rfl
        have hrej := hrej.1
        rw [h.term] at hrej
        omega
    refine ⟨?_, h.leads, h.term, h.highest⟩
    show Function.update s.exited k true i = false
    rw [Function.update_of_ne hne]
    exact h.live
  | doElection hstatus => exact absurd hok hstatus
  | @requestVote c call rf reply hcall hreply hout =>
    refine h.hears rfl rfl (hle rfl) hout.hears ?_
    exact (hel.voteArgs_le (List.mem_of_getElem? hcall)).trans (h.highest _)
  | @sendRequestVote c call reply round rf count hcall hreply hround hret hout =>
    refine h.hears rfl rfl (hle rfl) hout.hears ?_
    exact (hterms.vote call (List.mem_of_getElem? hcall) reply hreply).trans (h.highest _)
  | doHeartBeat => exact ⟨h.live, h.leads, h.term, h.highest⟩
  | appendEntries1 hcall hreply hout =>
    exact h.obeys rfl rfl hout.obeys (happend hcall).1 (happend hcall).2
  | @sendAppendEntries c call reply round rf count hcall hreply hround hret hout =>
    refine h.hears rfl rfl (hle rfl) hout.hears ?_
    exact (hterms.append call (List.mem_of_getElem? hcall) reply hreply).trans (h.highest _)
  | @leaderSendSnapShot c call hcall hargs =>
    refine h.move rfl rfl (h.highest call.caller) ?_
    rintro rfl
    exact ⟨h.leads, h.term⟩
  | @installSnapshot c call args rf reply msg hcall hargs hreply hout =>
    obtain ⟨hother, he⟩ := hsnaps call (List.mem_of_getElem? hcall)
    have hterm := h.request hel hother (he args hargs)
    exact h.obeys rfl rfl hout.obeys hterm.1 hterm.2
  | @leaderSendSnapShotReply c call args reply rf hcall hargs hreply hret hout =>
    refine h.hears rfl rfl (hle rfl) hout.hears ?_
    exact (hterms.snap call (List.mem_of_getElem? hcall) reply hreply).trans (h.highest _)
  | @start k command hstatus =>
    refine h.move rfl rfl (h.highest k) ?_
    rintro rfl
    exact ⟨h.leads, h.term⟩
  | @snapshot k index data rf hout =>
    have hhears : (s.nodes k).Hears T rf := by
      cases hout with
      | ignored => exact .refl ..
      | compacted => exact ⟨le_max_left .., fun hstatus _ => hstatus⟩
    exact h.hears rfl rfl (hle rfl) hhears le_rfl
  | @getApplyLogs k =>
    refine h.move rfl rfl (h.highest k) ?_
    rintro rfl
    exact ⟨h.leads, h.term⟩

/-- **One step** but an election leaves the leader of the highest term in place. -/
theorem Settled.step (hset : s.Settled i T) (hr : Reach step PromptSnapshots (init n) s)
    (hundisturbed : s.Undisturbed a) (hstep : s.step a = some s') : s'.Settled i T :=
  (reach_change hr hstep).settled (shape_reach hr) (elections_reach hr) (rounds_reach hr)
    (terms_reach hr) (snapsElected_reach hr) hset hundisturbed

/-- **The leader stays.**  A leader that is alive and whose term is the highest leads on in it, and
    it stays the highest, until a timer starts an election; whatever was sent before, in whatever
    order it arrives and whatever is lost. -/
theorem leader_stays {s₀ : Cluster n} (h₀ : Reach step PromptSnapshots (init n) s₀)
    (hset : s₀.Settled i T)
    (h : Reach step (fun s a => s.PromptSnapshots a ∧ s.Undisturbed a) s₀ s) : s.Settled i T := by
  refine h.invariant (P := fun s => s.Settled i T) hset fun s a s' hr hs hok hstep => ?_
  have hreach : Reach step PromptSnapshots (init n) s :=
    h₀.trans (hr.mono fun _ _ hok => hok.1)
  exact hs.step hreach hok.2 hstep

end leader

/-! ### Two nodes that lead one after the other -/

/-- Of three nodes `a` = 0 and then `b` = 1 are elected; the heartbeat of `a` is still under way. -/
def successorRun (a b : Fin n) : List (Step n) :=
  [.doElection a, .requestVote 0, .sendRequestVote 0, .doHeartBeat a,
    .doElection b, .requestVote 3, .sendRequestVote 3]

/-- Node 1 refuses the old heartbeat, and node 0 steps down. -/
theorem leader_stays_successor :
    letI := textRaftArchive
    ∃ s₀ s : Cluster 3, Reach step PromptSnapshots (init 3) s₀ ∧
      Reach step (fun s a => s.PromptSnapshots a ∧ s.Undisturbed a) s₀ s ∧
        (s₀.nodes 0).status = .leader ∧ (s.nodes 0).status = .follower ∧ s.Settled 1 2 := by
  let := textRaftArchive
  have hrun : (((runFrom (step : Cluster 3 → _) PromptSnapshots (init 3) (successorRun 0 1)).bind
      fun s₀ => (runFrom step (fun s a => s.PromptSnapshots a ∧ s.Undisturbed a) s₀
        [.appendEntries1 0, .sendAppendEntries 0]).map fun s =>
          ((s₀.exited 1, (s₀.nodes 1).status, (s₀.nodes 0).status, (s.nodes 0).status),
            ((s₀.nodes 0).currentTerm, (s₀.nodes 1).currentTerm, (s₀.nodes 2).currentTerm)))) =
      some ((false, .leader, .leader, .follower), (1, 2, 2)) := by
    decide
  obtain ⟨s₀, hs₀, hrun⟩ := Option.bind_eq_some_iff.mp hrun
  obtain ⟨s, hs, hstate⟩ := Option.map_eq_some_iff.mp hrun
  simp only [Prod.mk.injEq] at hstate
  obtain ⟨⟨hlive, hleads, hfirst, hlast⟩, h0, h1, h2⟩ := hstate
  have hset : s₀.Settled 1 2 := by
    refine ⟨hlive, hleads, h1, fun j => ?_⟩
    obtain rfl | rfl | rfl : j = 0 ∨ j = 1 ∨ j = 2 := by omega
    all_goals omega
  exact ⟨s₀, s, .of_runFrom hs₀, .of_runFrom hs, hfirst, hlast,
    leader_stays (.of_runFrom hs₀) hset (.of_runFrom hs)⟩

/-- Node `a` = 0 has compacted its log and started a thread that is to send a snapshot to `b` = 1;
    then `b` is elected. -/
def staleThreadRun (a b : Fin n) : List (Step n) :=
  [.doElection a, .requestVote 0, .sendRequestVote 0, .start a "f", .doHeartBeat a,
    .appendEntries1 1, .sendAppendEntries 1, .snapshot a 1 "d", .doHeartBeat a, .appendEntries1 0,
    .doElection b, .requestVote 3, .sendRequestVote 3]

/-- The condition is needed: node 0 learns the new term before the thread builds its request, and
    the snapshot makes node 1 step down in the term that it leads. -/
theorem leader_deposed :
    letI := textRaftArchive
    ∃ s₀ s : Cluster 3, Reach step anyStep (init 3) s₀ ∧ Reach step Undisturbed s₀ s ∧
      s₀.Settled 1 2 ∧ (s.nodes 1).status = .follower ∧ (s.nodes 1).currentTerm = 2 := by
  let := textRaftArchive
  have hrun : (((runFrom (step : Cluster 3 → _) anyStep (init 3) (staleThreadRun 0 1)).bind
      fun s₀ => (runFrom step Undisturbed s₀ [.doHeartBeat 1, .appendEntries1 3,
        .leaderSendSnapShot 0, .installSnapshot 0]).map fun s =>
          ((s₀.exited 1, (s₀.nodes 1).status, (s.nodes 1).status),
            ((s₀.nodes 0).currentTerm, (s₀.nodes 1).currentTerm, (s₀.nodes 2).currentTerm,
              (s.nodes 1).currentTerm)))) =
      some ((false, .leader, .follower), (1, 2, 2, 2)) := by
    decide
  obtain ⟨s₀, hs₀, hrun⟩ := Option.bind_eq_some_iff.mp hrun
  obtain ⟨s, hs, hstate⟩ := Option.map_eq_some_iff.mp hrun
  simp only [Prod.mk.injEq] at hstate
  obtain ⟨⟨hlive, hleads, hfollows⟩, h0, h1, h2, h1'⟩ := hstate
  refine ⟨s₀, s, .of_runFrom hs₀, .of_runFrom hs, ⟨hlive, hleads, h1, fun j => ?_⟩, hfollows, h1'⟩
  obtain rfl | rfl | rfl : j = 0 ∨ j = 1 ∨ j = 2 := by omega
  all_goals omega

end Cluster

end RaftStore
