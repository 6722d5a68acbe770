import RaftStore.Cluster.Entries
import RaftStore.Cluster.Rounds
import RaftStore.Model.Archive
import RaftStore.Node.Progress

namespace RaftStore

/-!
# What requests for entries carry, and what followers keep of them

A request never changes once `doHeartBeat` has built it, so it can be read long after its leader
has gone on.  What protects a follower from an old one is that the leader of a term only
continues its log: two requests of one term carry the same entry wherever both carry one.

* `AppendEntriesArgs.BuiltFrom` — the request is one that `doHeartBeat` builds from a state.
* `Cluster.commits_verified` — every request is built so, and a commit index that
  `AppendEntries1` raises lies within it.
* `Raft.Retains` — the node holds the entries of a request, or has them in its snapshot.
* `Cluster.acknowledged_retained` — a node that answered with success retains the entries of the
  request as long as its term stays.
-/

/-! ### The entries of a request -/

/-- The entry with index `i` in a request. -/
def AppendEntriesArgs.sentAt (args : AppendEntriesArgs) (i : Int) : Option LogEntry :=
  args.entries[(i - args.prevLogIndex - 1).toNat]?

/-- The index `i` is one of those whose entry the request carries. -/
def AppendEntriesArgs.Covers (args : AppendEntriesArgs) (i : Int) : Prop :=
  args.prevLogIndex < i ∧ i ≤ args.prevLogIndex + args.entries.length

/-- The request is one that `doHeartBeat` builds from the state `ld`. -/
structure AppendEntriesArgs.BuiltFrom {n : ℕ} (args : AppendEntriesArgs) (ld : Raft n) : Prop where
  term : args.term = ld.currentTerm
  contiguous : Contiguous args.prevLogIndex args.entries
  last : args.prevLogIndex + args.entries.length = ld.getLastLogIndex
  prevTerm : ld.getLogTermFromLogIndex args.prevLogIndex = .ok args.prevLogTerm
  entry : ∀ i, args.Covers i → ∃ e, args.sentAt i = some e ∧ ld.entryAt i = some e
  commit : args.leaderCommit ≤ args.prevLogIndex + args.entries.length

/-- Two requests carry the same entry wherever both carry one. -/
def AppendEntriesArgs.Agree (args args' : AppendEntriesArgs) : Prop :=
  ∀ i, args.Covers i → args'.Covers i → args.sentAt i = args'.sentAt i

namespace Raft

variable {n : ℕ}

/-- The request that a leader builds now is built from its log. -/
theorem IndexWF.builtFrom {ld : Raft n} (h : ld.IndexWF) {prev prevTerm : Int}
    (ht : ld.termAt prev = some prevTerm) : (ld.appendArgs prev prevTerm).BuiltFrom ld := by
  obtain ⟨hwf, hend⟩ := h.appendArgs ht
  obtain ⟨hsnap, _⟩ := h.toLogWF.termAt_isSome.mp (by rw [ht]; rfl)
  refine { term := rfl, contiguous := hwf.contiguous, last := hend,
           prevTerm := h.toLogWF.getLogTermFromLogIndex_eq_ok.mpr ht, entry := ?_,
           commit := hwf.commit }
  rintro i ⟨hlt, hle⟩
  have hlt : prev < i := hlt
  have hle : i ≤ prev + (ld.appendArgs prev prevTerm).entries.length := hle
  obtain ⟨e, he⟩ := h.toLogWF.exists_entryAt (i := i) (by omega) (by omega)
  exact ⟨e, (getElem?_appendArgs prevTerm hsnap hlt).trans he, he⟩

/-- The node holds the entries of a request, but for those that have gone into its snapshot. -/
def Retains (rf : Raft n) (args : AppendEntriesArgs) : Prop :=
  ∀ i, args.Covers i → rf.entryAt i = args.sentAt i ∨ i ≤ rf.lastSnapshotIncludeIndex

/-- A node that holds the entries retains them. -/
theorem Holds.retains {rf : Raft n} {args : AppendEntriesArgs} (h : rf.Holds args) :
    rf.Retains args :=
  fun i hi => Or.inl (h i hi.1 hi.2)

/-- A node that continues its log retains what it did. -/
theorem Retains.extends {rf rf' : Raft n} {args : AppendEntriesArgs} (h : rf.Retains args)
    (hwf : rf.LogWF) (hext : rf.Extends rf') : rf'.Retains args := by
  intro i hi
  by_cases hsnap : i ≤ rf'.lastSnapshotIncludeIndex
  · exact Or.inr hsnap
  · have hold := (h i hi).resolve_right fun hle => hsnap (hle.trans hext.snap)
    -- the entry is there, so it lies below the end of the old log
    have hsome : (rf.entryAt i).isSome := by
      obtain ⟨hlt, hle⟩ := hi
      rw [hold, AppendEntriesArgs.sentAt, List.getElem?_eq_getElem (by omega)]
      rfl
    obtain ⟨_, hlast⟩ := hwf.entryAt_isSome.mp hsome
    exact Or.inl ((hext.entryAt i (by omega) hlast).trans hold)

/-- Another request that agrees with the retained one writes the same entries again. -/
theorem AppendEntriesOutcome.retains [RaftArchive] {rf rf' : Raft n}
    {args args' : AppendEntriesArgs} {reply : AppendEntriesReply} (hwf : rf.LogWF)
    (hout : rf.AppendEntriesOutcome args' rf' reply)
    (hagree : rf'.currentTerm = args'.term → args.Agree args') (h : rf.Retains args) :
    rf'.Retains args := by
  cases hout with
  | stale => exact h
  | tooShort | mismatch =>
    intro i hi
    simpa [entryAt] using h i hi
  | accepted hterm hsnap hlast =>
    have hagree := hagree (accept_currentTerm hterm)
    intro i hi
    rw [persist_entryAt, hwf.entryAt_accept hsnap hlast, persist_lastSnapshotIncludeIndex,
      accept_lastSnapshotIncludeIndex]
    by_cases hin : args'.prevLogIndex < i ∧ i ≤ args'.prevLogIndex + args'.entries.length
    · rw [if_pos hin]
      exact Or.inl (hagree i hi hin).symm
    · rw [if_neg hin]
      exact h i hi

/-- The commit index after `AppendEntries1` is the old one or lies within the request. -/
theorem AppendEntriesOutcome.commit_le [RaftArchive] {rf rf' : Raft n}
    {args : AppendEntriesArgs} {reply : AppendEntriesReply} (ha : args.WF)
    (hout : rf.AppendEntriesOutcome args rf' reply) (hraise : rf.commitIndex < rf'.commitIndex) :
    rf'.commitIndex ≤ args.prevLogIndex + args.entries.length := by
  cases hout with
  | stale => exact absurd hraise (lt_irrefl _)
  | tooShort | mismatch =>
    rw [persist_commitIndex, follow_commitIndex] at hraise
    exact absurd hraise (lt_irrefl _)
  | accepted =>
    rw [persist_commitIndex, accept_commitIndex] at hraise ⊢
    have hcommit := ha.commit
    omega

end Raft

namespace Cluster

variable {n : ℕ}

/-! ### What a request carries -/

section delivery

variable [RaftArchive] {s s' : Cluster n} {a : Step n}

omit [RaftArchive] in
/-- Every request in flight was built from its leader's state at the start of its round. -/
theorem Rounds.builtFrom (h : s.Rounds) {call : Call n AppendEntriesArgs AppendEntriesReply}
    (hcall : call ∈ s.appendCalls) :
    ∃ round, s.appendNums[call.round]? = some round ∧ round.owner = call.caller ∧
      call.args.BuiltFrom round.built := by
  obtain ⟨round, prevTerm, hr, howner, hterm, hargs⟩ := (h.call call hcall).round
  refine ⟨round, hr, howner, ?_⟩
  rw [hargs]
  exact (h.round round (List.mem_of_getElem? hr)).built.builtFrom hterm

/-- **Followers commit only verified entries.**  Every request in flight carries the entries of
    its leader from `prevLogIndex` to the end of the log the leader had when it built it, and a
    commit index that `AppendEntries1` raises lies within the request. -/
theorem commits_verified (h : Reach step anyStep (init n) s) :
    (∀ call ∈ s.appendCalls, ∃ round, s.appendNums[call.round]? = some round ∧
      round.owner = call.caller ∧ call.args.BuiltFrom round.built) ∧
    ∀ c call s', s.appendCalls[c]? = some call → s.step (.appendEntries1 c) = some s' →
      (s.nodes call.server).commitIndex < (s'.nodes call.server).commitIndex →
      (s'.nodes call.server).commitIndex ≤ call.args.prevLogIndex + call.args.entries.length := by
  refine ⟨fun call hcall => (rounds_reach h).builtFrom hcall, fun c call s' hcall hs hraise => ?_⟩
  have hshape := shape_reach h
  cases step_change hshape hs with
  | idle | exit => exact absurd hraise (lt_irrefl _)
  | @appendEntries1 _ call' rf reply hcall' hreply hout =>
    obtain rfl : call = call' := Option.some.inj (hcall.symm.trans hcall')
    rw [setNode_nodes, Function.update_self] at hraise ⊢
    exact hout.commit_le (hshape.append call (List.mem_of_getElem? hcall)).args hraise

end delivery

/-- Node 1 learns with the second heartbeat that its first entry is committed. -/
theorem commits_verified_firstCommand :
    letI := textRaftArchive
    ∃ s s' : Cluster 3, Reach step anyStep (init 3) s ∧
      s.step (.appendEntries1 2) = some s' ∧ (s'.nodes 1).commitIndex = 1 ∧
      ∃ call, s.appendCalls[2]? = some call ∧
        (s'.nodes 1).commitIndex ≤ call.args.prevLogIndex + call.args.entries.length := by
  let := textRaftArchive
  have hrun : (runFrom (step : Cluster 3 → _) anyStep (init 3)
      [.doElection 0, .requestVote 0, .sendRequestVote 0, .start 0 "x", .doHeartBeat 0,
        .appendEntries1 0, .sendAppendEntries 0, .doHeartBeat 0]).bind
      (fun s => (s.step (.appendEntries1 2)).map fun s' =>
        ((s.appendCalls[2]?).map fun call => call.server,
          (s.nodes 1).commitIndex, (s'.nodes 1).commitIndex)) = some (some 1, 0, 1) := by
    decide
  obtain ⟨s, hs, hrun⟩ := Option.bind_eq_some_iff.mp hrun
  obtain ⟨s', hs', hshow⟩ := Option.map_eq_some_iff.mp hrun
  obtain ⟨hthird, hbefore, hafter⟩ : _ ∧ _ ∧ _ := by simpa only [Prod.mk.injEq] using hshow
  obtain ⟨call, hcall, hserver⟩ := Option.map_eq_some_iff.mp hthird
  have hle := (commits_verified (.of_runFrom hs)).2 2 call s' hcall hs'
  rw [hserver, hbefore, hafter] at hle
  exact ⟨s, s', .of_runFrom hs, hs', hafter, call, hcall, hafter ▸ hle (by decide)⟩

/-! ### The requests of one term -/

/-- The leader of a term continues its log from round to round. -/
def Chained (s : Cluster n) : Prop :=
  ∀ (r r' : ℕ) (round round' : Round n), r ≤ r' → s.appendNums[r]? = some round →
    s.appendNums[r']? = some round' → round.owner = round'.owner →
      round.built.currentTerm = round'.built.currentTerm → round.built.Extends round'.built

/-- The acknowledged requests are retained as long as the term stays. -/
def Acknowledged (s : Cluster n) (call : Call n AppendEntriesArgs AppendEntriesReply) : Prop :=
  ∀ reply, call.reply = some reply → reply.success = true →
    call.args.term ≤ (s.nodes call.server).currentTerm ∧
      ((s.nodes call.server).currentTerm = call.args.term →
        (s.nodes call.server).Retains call.args)

section retained

variable [RaftArchive] {s s' : Cluster n} {a : Step n}

/-- The rounds after a step: the old ones with new counts, and one that a leader starts. -/
theorem Change.round_cases (hc : Change s a s') {r : ℕ} {round : Round n}
    (hr : s'.appendNums[r]? = some round) :
    (∃ old, s.appendNums[r]? = some old ∧ old.owner = round.owner ∧ old.built = round.built) ∨
      (r = s.appendNums.length ∧ (s.nodes round.owner).status = .leader ∧
        round.built = s.nodes round.owner) := by
  cases hc with
  | doHeartBeat hstatus =>
    rcases getElem?_concat_cases hr with hr | ⟨rfl, rfl⟩
    · exact Or.inl ⟨round, hr, rfl, rfl⟩
    · exact Or.inr ⟨rfl, hstatus, rfl⟩
  | @sendAppendEntries _ call _ old _ count _ _ hround =>
    rcases getElem?_set_cases hr with ⟨rfl, rfl⟩ | ⟨_, hr⟩
    · exact Or.inl ⟨old, hround, rfl, rfl⟩
    · exact Or.inl ⟨round, hr, rfl, rfl⟩
  | _ => exact Or.inl ⟨round, hr, rfl, rfl⟩

/-- A step keeps the rounds of a term in a chain. -/
theorem Change.chained (hrounds : s.Rounds) (h : s.Chained) (hc : Change s a s') :
    s'.Chained := by
  intro r r' round round' hle hr hr' howner hterm
  rcases hc.round_cases hr with ⟨old, hold, hown, hbuilt⟩ | ⟨hnew, hlead, hbuilt⟩ <;>
    rcases hc.round_cases hr' with ⟨old', hold', hown', hbuilt'⟩ | ⟨hnew', hlead', hbuilt'⟩
  · rw [← hbuilt, ← hbuilt']
    exact h r r' old old' hle hold hold' (by rw [hown, hown', howner])
      (by rw [hbuilt, hbuilt', hterm])
  · -- the leader that starts the round has continued the log of its earlier one
    have hgrown := (hrounds.round old (List.mem_of_getElem? hold)).grown
    rw [hown, howner, hbuilt, ← hbuilt'] at hgrown
    exact hgrown (hbuilt' ▸ hlead') hterm.symm
  · have hlt := (List.getElem?_eq_some_iff.mp hold').1
    omega
  · rw [hbuilt, hbuilt', howner]
    exact .refl _

/-- The rounds of a term are in a chain in every run. -/
theorem chained_reach (h : Reach step anyStep (init n) s) : s.Chained :=
  h.invariant (fun _ _ _ _ _ hr => by cases hr) fun _ _ _ hr hs _ hstep =>
    (reach_change hr hstep).chained (rounds_reach hr) hs

omit [RaftArchive] in
/-- Two requests of one term carry the same entry wherever both carry one. -/
theorem Chained.agree (h : s.Chained) (hrounds : s.Rounds) (hel : s.Elections)
    {call call' : Call n AppendEntriesArgs AppendEntriesReply} (hcall : call ∈ s.appendCalls)
    (hcall' : call' ∈ s.appendCalls) (hterm : call.args.term = call'.args.term) :
    call.args.Agree call'.args := by
  obtain ⟨round, hr, _, hbuilt⟩ := hrounds.builtFrom hcall
  obtain ⟨round', hr', _, hbuilt'⟩ := hrounds.builtFrom hcall'
  have hround := hrounds.round round (List.mem_of_getElem? hr)
  have hround' := hrounds.round round' (List.mem_of_getElem? hr')
  have hcur : round.built.currentTerm = round'.built.currentTerm := by
    rw [← hbuilt.term, ← hbuilt'.term, hterm]
  -- the term has one leader, which started both rounds
  have howner : round.owner = round'.owner :=
    hel.elected_unique hround.elected (hcur ▸ hround'.elected)
  intro i hi hi'
  obtain ⟨e, hsent, he⟩ := hbuilt.entry i hi
  obtain ⟨e', hsent', he'⟩ := hbuilt'.entry i hi'
  obtain ⟨hlow, hhigh⟩ := hround.built.toLogWF.entryAt_isSome.mp (by rw [he]; rfl)
  obtain ⟨hlow', hhigh'⟩ := hround'.built.toLogWF.entryAt_isSome.mp (by rw [he']; rfl)
  have hsame : round'.built.entryAt i = round.built.entryAt i := by
    rcases Nat.le_total call.round call'.round with hle | hle
    · exact (h _ _ _ _ hle hr hr' howner hcur).entryAt i hlow' hhigh
    · exact ((h _ _ _ _ hle hr' hr howner.symm hcur.symm).entryAt i hlow hhigh').symm
  rw [hsent, hsent', ← he, ← he', hsame]

/-! ### Acknowledged entries -/

/-- A step continues the log of a node, or it is the node's answer to a request. -/
theorem Change.extends (h : s.Shape) (hc : Change s a s') (i : Fin n) :
    (s.nodes i).Extends (s'.nodes i) ∨ ∃ call ∈ s.appendCalls, ∃ reply,
      (s.nodes i).AppendEntriesOutcome call.args (s'.nodes i) reply := by
  have hone : ∀ {j : Fin n} {rf : Raft n}, (s.nodes j).Extends rf →
      (s.nodes i).Extends (Function.update s.nodes j rf i) := fun hext =>
    update_rel Raft.Extends.refl hext i
  cases hc with
  | idle | exit | doHeartBeat => exact Or.inl (.refl _)
  | doElection hstatus =>
    refine Or.inl (hone ?_)
    rw [Raft.doElection_fst hstatus]
    exact .of_logs rfl rfl
  | requestVote _ _ hout => exact Or.inl (hone hout.extends)
  | sendRequestVote _ _ _ _ hout => exact Or.inl (hone hout.extends)
  -- only the node that answers moves
  | @appendEntries1 c call rf reply hcall hreply hout =>
    by_cases hi : i = call.server
    · subst hi
      refine Or.inr ⟨call, List.mem_of_getElem? hcall, reply, ?_⟩
      rwa [setNode_nodes, Function.update_self]
    · refine Or.inl ?_
      rw [setNode_nodes, Function.update_of_ne hi]
      exact .refl _
  | sendAppendEntries _ _ _ _ hout => exact Or.inl (hone hout.extends)
  | leaderSendSnapShot => exact Or.inl (hone (.of_logs rfl rfl))
  | installSnapshot _ _ _ hout => exact Or.inl (hone (hout.extends (h.node _)))
  | leaderSendSnapShotReply _ _ _ _ hout => exact Or.inl (hone hout.extends)
  | @start j command => exact Or.inl (hone (Raft.started_extends (h.node j) command))
  | snapshot hout => exact Or.inl (hone (hout.extends (h.node _)))
  | getApplyLogs => exact Or.inl (hone (.of_logs rfl rfl))

/-- The answered requests after a step: those answered before, and the one answered in it. -/
theorem Change.answered (hc : Change s a s') {call : Call n AppendEntriesArgs AppendEntriesReply}
    (hcall : call ∈ s'.appendCalls) {reply : AppendEntriesReply}
    (hreply : call.reply = some reply) :
    (∃ old ∈ s.appendCalls, old.reply = some reply ∧ old.server = call.server ∧
        old.args = call.args) ∨
      (s.nodes call.server).AppendEntriesOutcome call.args (s'.nodes call.server) reply := by
  cases hc with
  | doHeartBeat _ hpeers hout =>
    rcases List.mem_append.mp hcall with hcall | hcall
    · exact Or.inl ⟨call, hcall, hreply, rfl, rfl⟩
    · obtain ⟨_, _, _, _, _, rfl⟩ := mem_appendSends hpeers hout hcall
      cases hreply
  | appendEntries1 _ _ hout =>
    rcases List.mem_or_eq_of_mem_set hcall with hcall | rfl
    · exact Or.inl ⟨call, hcall, hreply, rfl, rfl⟩
    · cases hreply
      refine Or.inr ?_
      rwa [setNode_nodes, Function.update_self]
  | @sendAppendEntries c old _ _ _ _ hold hrep =>
    rcases List.mem_or_eq_of_mem_set hcall with hcall | rfl
    · exact Or.inl ⟨call, hcall, hreply, rfl, rfl⟩
    · exact Or.inl ⟨old, List.mem_of_getElem? hold, hreply, rfl, rfl⟩
  | _ => exact Or.inl ⟨call, hcall, hreply, rfl, rfl⟩

/-- A step keeps what was acknowledged. -/
theorem Change.acknowledged (hshape : s.Shape) (hel : s.Elections) (hrounds : s.Rounds)
    (hchain : s.Chained) (h : ∀ call ∈ s.appendCalls, s.Acknowledged call)
    (hc : Change s a s') : ∀ call ∈ s'.appendCalls, s'.Acknowledged call := by
  intro call hcall reply hreply hsucc
  rcases hc.answered hcall hreply with ⟨old, hold, hrep, hserver, hargs⟩ | hout
  · -- answered before: the step continues the log, or it is another request of the term
    obtain ⟨hle, hret⟩ := h old hold reply hrep hsucc
    rw [hserver, hargs] at hle hret
    have hmono := (hc.later hshape call.server).le
    refine ⟨hle.trans hmono, fun hcur => ?_⟩
    have hsame : (s.nodes call.server).currentTerm = call.args.term := by omega
    rcases hc.extends hshape call.server with hext | ⟨other, hother, reply', hout⟩
    · exact (hret hsame).extends (hshape.node _).toLogWF hext
    · refine hout.retains (hshape.node _).toLogWF (fun hterm => ?_) (hret hsame)
      rw [← hargs]
      exact hchain.agree hrounds hel hold hother (by rw [hargs, ← hterm, hcur])
  · obtain ⟨_, hcur, hholds⟩ := hout.holds (hshape.node _).toLogWF hsucc
    exact ⟨hcur.ge, fun _ => hholds.retains⟩

/-- What was acknowledged is kept in every run. -/
theorem acknowledged_reach (h : Reach step anyStep (init n) s) :
    ∀ call ∈ s.appendCalls, s.Acknowledged call :=
  h.invariant (P := fun s => ∀ call ∈ s.appendCalls, s.Acknowledged call)
    (fun _ hcall => by cases hcall) fun _ _ _ hr hs _ hstep =>
      (reach_change hr hstep).acknowledged (shape_reach hr) (elections_reach hr) (rounds_reach hr)
        (chained_reach hr) hs

/-- **No acknowledged entry is lost within a term.**  Whatever has been delivered since a node
    answered a request with success, as long as its term is still the one of the request it holds
    at every index of the request the entry that the leader of the term has there, or has the
    index in its snapshot. -/
theorem acknowledged_retained (h : Reach step anyStep (init n) s)
    {call : Call n AppendEntriesArgs AppendEntriesReply} (hcall : call ∈ s.appendCalls)
    {reply : AppendEntriesReply} (hreply : call.reply = some reply) (hsucc : reply.success = true)
    (hterm : (s.nodes call.server).currentTerm = call.args.term) :
    .elected call.caller call.args.term ∈ s.history ∧
    ∃ round, s.appendNums[call.round]? = some round ∧ round.owner = call.caller ∧
      round.built.currentTerm = call.args.term ∧ ∀ i, call.args.Covers i →
        ∃ e, round.built.entryAt i = some e ∧
          ((s.nodes call.server).entryAt i = some e ∨
            i ≤ (s.nodes call.server).lastSnapshotIncludeIndex) ∧
          ((s.nodes call.caller).status = .leader →
            (s.nodes call.caller).currentTerm = call.args.term →
              (s.nodes call.caller).entryAt i = some e ∨
                i ≤ (s.nodes call.caller).lastSnapshotIncludeIndex) := by
  have hrounds := rounds_reach h
  obtain ⟨round, hr, howner, hbuilt⟩ := hrounds.builtFrom hcall
  have hround := hrounds.round round (List.mem_of_getElem? hr)
  have helected := hround.elected
  rw [howner, ← hbuilt.term] at helected
  refine ⟨helected, round, hr, howner, hbuilt.term.symm, fun i hi => ?_⟩
  obtain ⟨e, hsent, he⟩ := hbuilt.entry i hi
  refine ⟨e, he, ?_, fun hlead hcur => ?_⟩
  · have hret := (acknowledged_reach h call hcall reply hreply hsucc).2 hterm i hi
    rwa [hsent] at hret
  · -- while it leads in the term the log of the leader has only grown
    have hext := hround.grown
    rw [howner, ← hbuilt.term] at hext
    by_cases hsnap : i ≤ (s.nodes call.caller).lastSnapshotIncludeIndex
    · exact Or.inr hsnap
    · refine Or.inl ?_
      rw [← he]
      exact (hext hlead hcur).entryAt i (by omega)
        (hround.built.toLogWF.entryAt_isSome.mp (by rw [he]; rfl)).2

end retained

/-- Node 1 takes two entries with the second heartbeat of term 1, and then the first heartbeat,
    which carries one of them, reaches it. -/
theorem acknowledged_retained_reordered :
    letI := textRaftArchive
    ∃ s : Cluster 3, Reach step anyStep (init 3) s ∧ (s.nodes 1).entryAt 2 = some ⟨"y", 1, 2⟩ ∧
      ∃ call ∈ s.appendCalls, call.server = 1 ∧ call.args.Covers 2 ∧
        ∃ round e, s.appendNums[call.round]? = some round ∧ round.built.entryAt 2 = some e ∧
          ((s.nodes 1).entryAt 2 = some e ∨ 2 ≤ (s.nodes 1).lastSnapshotIncludeIndex) := by
  let := textRaftArchive
  -- the longer of two requests arrives first, the shorter one behind it
  have hrun : (runFrom (step : Cluster 3 → _) anyStep (init 3)
      [.doElection 0, .requestVote 0, .sendRequestVote 0, .start 0 "x", .doHeartBeat 0,
        .start 0 "y", .doHeartBeat 0, .appendEntries1 2, .appendEntries1 0]).map
      (fun s => ((s.appendCalls[2]?).map fun call => decide (call.server = 1 ∧
        call.reply.any AppendEntriesReply.success = true ∧ call.args.term = 1 ∧
          call.args.prevLogIndex = 0 ∧ call.args.entries.length = 2),
        (s.nodes 1).currentTerm, (s.nodes 1).entryAt 2)) =
      some (some true, 1, some ⟨"y", 1, 2⟩) := by
    decide
  obtain ⟨s, hs, hshow⟩ := Reach.exists_of_runFrom hrun
  obtain ⟨hthird, hcur, hentry⟩ : _ ∧ _ ∧ _ := by simpa only [Prod.mk.injEq] using hshow
  obtain ⟨call, hget, hfields⟩ := Option.map_eq_some_iff.mp hthird
  obtain ⟨hserver, hrep, hterm, hprev, hlen⟩ := of_decide_eq_true hfields
  obtain ⟨reply, hreply, hsucc⟩ := (Option.any_eq_true _ _).mp hrep
  have hcall := List.mem_of_getElem? hget
  have hcovers : call.args.Covers 2 := by
    rw [AppendEntriesArgs.Covers, hprev, hlen]
    decide
  obtain ⟨_, round, hr, _, _, hkept⟩ :=
    acknowledged_retained hs hcall hreply hsucc (by rw [hserver, hcur, hterm])
  obtain ⟨e, he, hheld, _⟩ := hkept 2 hcovers
  rw [hserver] at hheld
  exact ⟨s, hs, hentry, call, hcall, hserver, hcovers, round, e, hr, he, hheld⟩

end Cluster

end RaftStore
