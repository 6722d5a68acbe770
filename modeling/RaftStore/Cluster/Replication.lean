import RaftStore.Cluster.Rounds
import RaftStore.Node.Mirror

namespace RaftStore

/-!
# The cluster simulates the abstract account

In a run whose requests for entries meet `Raft.Covers`, the cluster moves as the members of a
`Consensus` do: the nodes mirror the members, a candidate's round its ballots, and the messages
carry logs of a reign and agreed snapshots.

* `Cluster.Sim` — the relation; every field but `node` and `reign` only grows with the account.
* `Cluster.Change.sim` — a step is matched by abstract steps that restore it.
* `Cluster.sim_reach` — every state of such a run is related to an account that keeps
  `Consensus.Inv`.
-/

namespace Cluster

open Consensus (lastTerm UpToDate Own Next)
open Relation (ReflTransGen)

variable {n : ℕ}

/-! ### What stands behind messages and events -/

/-- Node `i` asked for votes in term `T` with log `C`. -/
structure Candidacy (t : Consensus (Fin n) LogEntry) (i : Fin n) (T : ℤ) (C : List LogEntry) :
    Prop where
  pos : 0 < T
  ballot : (i, T, C) ∈ t.ballots
  older : ∀ e ∈ C, e.logTerm < T
  stands : t.Stands i T C

/-- The request names the end of `C`, and a vote that was granted is a ballot. -/
structure VoteBacked (t : Consensus (Fin n) LogEntry) (T : ℤ) (C : List LogEntry)
    (call : Call n RequestVoteArgs RequestVoteReply) : Prop where
  index : call.args.lastLogIndex = C.length
  term : call.args.lastLogTerm = lastTerm C
  granted : call.reply.any RequestVoteReply.voteGranted = true →
    ∃ J, (call.server, T, J) ∈ t.ballots ∧ UpToDate C J

/-- The request carries a log of its term's reign, and a success acknowledges it or finds it
    agreed. -/
def AppendBacked (t : Consensus (Fin n) LogEntry)
    (call : Call n AppendEntriesArgs AppendEntriesReply) : Prop :=
  ∃ B r, Raft.Sent t call.args B r ∧
    ∀ reply, call.reply = some reply → reply.success = true → r.first.length < B.length →
      (call.server, call.args.term, B) ∈ t.acks ∨ t.Agreed call.args.term B

/-- The request stands for an agreed log. -/
def SnapBacked (t : Consensus (Fin n) LogEntry)
    (call : Call n (Option InstallSnapshotRequest) InstallSnapshotResponse) : Prop :=
  ∀ args, call.args = some args → ∃ S, args.lastSnapShotIncludeIndex = List.length S ∧
    args.lastSnapShotIncludeTerm = lastTerm S ∧ t.Agreed args.term S

/-- The message is an entry of an agreed log. -/
def AppliedBacked (t : Consensus (Fin n) LogEntry) (msg : ApplyMsg) : Prop :=
  ∃ U P, t.Agreed U P ∧ 1 ≤ msg.commandIndex ∧
    ∃ e, P[(msg.commandIndex - 1).toNat]? = some e ∧ e.command = msg.command

section mono

variable {t t' : Consensus (Fin n) LogEntry}

/-- A candidacy stands while others move. -/
theorem Candidacy.steps {i : Fin n} {T : ℤ} {C : List LogEntry} (h : Candidacy t i T C)
    (hinv : t.Inv) (hsteps : ReflTransGen Next t t') : Candidacy t' i T C :=
  { h with
    ballot := (Consensus.le_of_steps hsteps).ballots h.ballot
    stands := h.stands.steps hinv (hinv.ballot i T C h.ballot).1 hsteps }

/-- What backs a vote stays. -/
theorem VoteBacked.mono {T : ℤ} {C : List LogEntry} {call : Call n RequestVoteArgs RequestVoteReply}
    (h : VoteBacked t T C call) (hle : t.Le t') : VoteBacked t' T C call :=
  { h with
    granted := fun hgrant => by
      obtain ⟨J, hJ, hup⟩ := h.granted hgrant
      exact ⟨J, hle.ballots hJ, hup⟩ }

/-- What backs a request for entries stays. -/
theorem AppendBacked.mono {call : Call n AppendEntriesArgs AppendEntriesReply}
    (h : AppendBacked t call) (hle : t.Le t') : AppendBacked t' call := by
  obtain ⟨B, r, hsent, hack⟩ := h
  obtain ⟨r', hr', hfirst, hlast⟩ := hle.reign _ r hsent.reign
  refine ⟨B, r', { hsent with
    reign := hr', last := hsent.last.trans hlast, commit := hsent.commit.mono hle le_rfl }, ?_⟩
  intro reply hreply hsucc hlt
  rw [hfirst] at hlt
  exact (hack reply hreply hsucc hlt).imp (fun hmem => hle.acks hmem) fun hB => hB.mono hle le_rfl

/-- What backs a snapshot stays. -/
theorem SnapBacked.mono {call : Call n (Option InstallSnapshotRequest) InstallSnapshotResponse}
    (h : SnapBacked t call) (hle : t.Le t') : SnapBacked t' call := by
  intro args hargs
  obtain ⟨S, hlen, hterm, hS⟩ := h args hargs
  exact ⟨S, hlen, hterm, hS.mono hle le_rfl⟩

/-- What backs an applied message stays. -/
theorem AppliedBacked.mono {msg : ApplyMsg} (h : AppliedBacked t msg) (hle : t.Le t') :
    AppliedBacked t' msg := by
  obtain ⟨U, P, hP, hrest⟩ := h
  exact ⟨U, P, hP.mono hle le_rfl, hrest⟩

end mono

/-! ### The relation -/

/-- The rounds of votes. -/
def Votes (s : Cluster n) (t : Consensus (Fin n) LogEntry) : Prop :=
  ∀ (r : ℕ) (round : Round n), s.votedNums[r]? = some round →
    ∃ C, Candidacy t round.owner round.built.currentTerm C ∧
      ∀ call ∈ s.voteCalls, call.round = r → VoteBacked t round.built.currentTerm C call

/-- The cluster and the abstract account. -/
structure Sim (s : Cluster n) (t : Consensus (Fin n) LogEntry) : Prop where
  node : ∀ i, Raft.Mirrors t i (s.nodes i)
  reign : ∀ T r, t.reign T = some r → ∃ i, .elected i T ∈ s.history
  vote : Votes s t
  append : ∀ call ∈ s.appendCalls, AppendBacked t call
  snap : ∀ call ∈ s.snapCalls, SnapBacked t call
  applied : ∀ i msg, .applied i msg ∈ s.history → AppliedBacked t msg

section sim

variable {s s' : Cluster n} {t t' : Consensus (Fin n) LogEntry}

/-- The rounds after steps that leave them alone. -/
theorem Sim.vote_steps (h : Sim s t) (hinv : t.Inv) (hsteps : ReflTransGen Next t t')
    (hrounds : s'.votedNums = s.votedNums) (hcalls : s'.voteCalls = s.voteCalls) : Votes s' t' := by
  intro r round hr
  rw [hrounds] at hr
  obtain ⟨C, hC, hback⟩ := h.vote r round hr
  refine ⟨C, hC.steps hinv hsteps, fun call hcall hround => ?_⟩
  rw [hcalls] at hcall
  exact (hback call hcall hround).mono (Consensus.le_of_steps hsteps)

/-- A step in which one node and its member move. -/
theorem Sim.own (h : Sim s t) {i : Fin n} {rf : Raft n} (hown : Own i t t')
    (hmirror : Raft.Mirrors t' i rf) (hnodes : s'.nodes = Function.update s.nodes i rf)
    (hhistory : ∀ ev ∈ s.history, ev ∈ s'.history) (hvote : Votes s' t')
    (happend : ∀ call ∈ s'.appendCalls, AppendBacked t' call)
    (hsnap : ∀ call ∈ s'.snapCalls, SnapBacked t' call)
    (happlied : ∀ j msg, .applied j msg ∈ s'.history → AppliedBacked t' msg) : Sim s' t' := by
  have hle := Consensus.le_of_steps hown.steps
  refine { node := fun j => ?_, reign := fun T r hr => ?_, vote := hvote, append := happend,
           snap := hsnap, applied := happlied }
  · rw [hnodes]
    by_cases hj : j = i
    · subst hj
      rwa [Function.update_self]
    · rw [Function.update_of_ne hj]
      exact (h.node j).frame hle (hown.log j hj) (hown.term j hj) fun _ => by rw [hown.reign]
  · rw [hown.reign] at hr
    obtain ⟨j, hj⟩ := h.reign T r hr
    exact ⟨j, hhistory _ hj⟩

/-- The messages and events that were there, after more steps. -/
theorem Sim.append_mono (h : Sim s t) (hle : t.Le t') :
    ∀ call ∈ s.appendCalls, AppendBacked t' call := fun call hcall => (h.append call hcall).mono hle

/-- The snapshots stay backed. -/
theorem Sim.snap_mono (h : Sim s t) (hle : t.Le t') :
    ∀ call ∈ s.snapCalls, SnapBacked t' call := fun call hcall => (h.snap call hcall).mono hle

/-- The applied messages stay backed. -/
theorem Sim.applied_mono (h : Sim s t) (hle : t.Le t') :
    ∀ i msg, .applied i msg ∈ s.history → AppliedBacked t' msg :=
  fun i msg hmsg => (h.applied i msg hmsg).mono hle

end sim

section steps

variable [RaftArchive] {s s' : Cluster n} {t : Consensus (Fin n) LogEntry}

/-! ### Votes -/

/-- `doElection` is a ballot of the candidate for its log. -/
theorem Sim.doElection (h : Sim s t) (hinv : t.Inv) (hshape : s.Shape) (hel : s.Elections)
    {i : Fin n} (hstatus : (s.nodes i).status ≠ .leader)
    (hnodes : s'.nodes = Function.update s.nodes i (s.nodes i).doElection.1)
    (hrounds : s'.votedNums = s.votedNums ++
      [{ count := 1, owner := i, built := (s.nodes i).doElection.1 }])
    (hcalls : s'.voteCalls = s.voteCalls ++
      voteSends i s.votedNums.length (s.nodes i).doElection.2)
    (happend : s'.appendCalls = s.appendCalls) (hsnap : s'.snapCalls = s.snapCalls)
    (hhistory : s'.history = s.history) : ∃ t', ReflTransGen Next t t' ∧ Sim s' t' := by
  have hnode := h.node i
  have hcur : (s.nodes i).doElection.1.currentTerm = (s.nodes i).currentTerm + 1 := by
    rw [Raft.doElection_fst hstatus]
    rfl
  obtain ⟨T, hT⟩ : ∃ T, T = (s.nodes i).doElection.1.currentTerm := ⟨_, rfl⟩
  have hmirror : Raft.Mirrors (t.raise i T) i (s.nodes i).doElection.1 := by
    rw [hT]
    exact hnode.raise (Raft.Moves.elect hstatus).term_vote (Raft.doElection_sameLog hstatus)
      (Raft.doElection_leads hstatus)
  have hown := (Own.raise i t T).trans (.cast i (t.raise i T))
  have hle := Consensus.le_of_steps hown.steps
  have hterm : (t.raise i T).term i = T := hmirror.term.trans hT.symm
  refine ⟨_, hown.steps, h.own hown (hmirror.frame (Consensus.cast_le _ i) rfl rfl fun _ => rfl)
    hnodes (fun ev hev => hhistory ▸ hev) ?_ (happend ▸ h.append_mono hle)
    (hsnap ▸ h.snap_mono hle) (hhistory ▸ h.applied_mono hle)⟩
  intro r round hr
  rw [hrounds] at hr
  rcases getElem?_concat_cases hr with hr | ⟨rfl, rfl⟩
  · obtain ⟨C, hC, hback⟩ := h.vote r round hr
    refine ⟨C, hC.steps hinv hown.steps, fun call hcall hround => ?_⟩
    rw [hcalls] at hcall
    rcases List.mem_append.mp hcall with hcall | hcall
    · exact (hback call hcall hround).mono hle
    · -- the new calls belong to the new round
      obtain ⟨j, _, rfl⟩ := mem_voteSends hstatus hcall
      have hlt := (List.getElem?_eq_some_iff.mp hr).1
      exact absurd hround hlt.ne'
  · -- the new round stands for the log of the candidate as it is now
    have hpos := hnode.nonneg
    dsimp only
    rw [← hT]
    refine ⟨t.log i, { pos := by omega, ballot := ?_, older := fun e he => ?_,
                       stands := fun _ _ => Or.inl rfl }, fun call hcall hround => ?_⟩
    · have hcast := (t.raise i T).mem_cast i
      rwa [hterm] at hcast
    · have hbound := hinv.bounded i e he
      rw [hnode.term] at hbound
      exact lt_of_le_of_lt hbound (by omega)
    · rw [hcalls] at hcall
      rcases List.mem_append.mp hcall with hcall | hcall
      · -- the calls that were there belong to rounds that were there
        obtain ⟨round, hr, _⟩ := (hel.call call hcall).round
        have hlt := (List.getElem?_eq_some_iff.mp hr).1
        exact absurd hround hlt.ne
      · obtain ⟨j, _, rfl⟩ := mem_voteSends hstatus hcall
        exact { index := hnode.getLastLogIndex (hshape.node i).toLogWF
                term := hnode.getLastLogTerm
                granted := fun hgrant => by cases hgrant }

/-- `RequestVote` is a ballot of the voter if it grants the vote. -/
theorem Sim.requestVote (h : Sim s t) (hinv : t.Inv) (hshape : s.Shape) (hel : s.Elections)
    {c : ℕ} {call : Call n RequestVoteArgs RequestVoteReply} {rf : Raft n}
    {reply : RequestVoteReply} (hc : s.voteCalls[c]? = some call)
    (hout : (s.nodes call.server).RequestVoteOutcome call.args rf reply)
    (hnodes : s'.nodes = Function.update s.nodes call.server rf)
    (hrounds : s'.votedNums = s.votedNums)
    (hcalls : s'.voteCalls =
      s.voteCalls.set c { call with reply := some reply, after := some rf })
    (happend : s'.appendCalls = s.appendCalls) (hsnap : s'.snapCalls = s.snapCalls)
    (hhistory : s'.history = s.history) : ∃ t', ReflTransGen Next t t' ∧ Sim s' t' := by
  have hmem := List.mem_of_getElem? hc
  have hnode := h.node call.server
  have hmirror := hnode.raise (Raft.Moves.requestVote hout).term_vote hout.sameLog hout.leads
  -- the abstract node raises its term and, if it grants the vote, casts a ballot
  obtain ⟨t', hown, hmirror', hballot⟩ : ∃ t', Own call.server t t' ∧
      Raft.Mirrors t' call.server rf ∧ (reply.voteGranted = true →
        (call.server, call.args.term, t.log call.server) ∈ t'.ballots) := by
    cases hgrant : reply.voteGranted with
    | false => exact ⟨_, .raise _ t _, hmirror, fun h => by cases h⟩
    | true =>
      refine ⟨_, (Own.raise _ t _).trans (.cast _ _),
        hmirror.frame (Consensus.cast_le _ _) rfl rfl fun _ => rfl, fun _ => ?_⟩
      have hterm : rf.currentTerm = call.args.term := by
        cases hout with
        | stale | refused => cases hgrant
        | granted hterm => exact Raft.observe_currentTerm hterm
      have hcast := (t.raise call.server rf.currentTerm).mem_cast call.server
      rw [← hterm]
      rwa [hmirror.term] at hcast
  have hle := Consensus.le_of_steps hown.steps
  refine ⟨t', hown.steps, h.own hown hmirror' hnodes (fun ev hev => hhistory ▸ hev) ?_
    (happend ▸ h.append_mono hle) (hsnap ▸ h.snap_mono hle) (hhistory ▸ h.applied_mono hle)⟩
  intro r round hr
  rw [hrounds] at hr
  obtain ⟨C, hC, hback⟩ := h.vote r round hr
  refine ⟨C, hC.steps hinv hown.steps, fun call' hcall' hround => ?_⟩
  rw [hcalls] at hcall'
  rcases List.mem_or_eq_of_mem_set hcall' with hcall' | rfl
  · exact (hback call' hcall' hround).mono hle
  · have hold := hback call hmem hround
    refine { index := hold.index, term := hold.term, granted := fun hgrant => ?_ }
    have hgrant : reply.voteGranted = true := by simpa using hgrant
    refine ⟨t.log call.server, ?_, ?_⟩
    · rw [← (hel.call_of_round hr hmem hround).2.1]
      exact hballot hgrant
    · -- the voter compared the request with the end of its log
      cases hout with
      | stale | refused => cases hgrant
      | granted _ hlog =>
        have hlen := hnode.getLastLogIndex (hshape.node call.server).toLogWF
        have hlt := hnode.getLastLogTerm
        simp only [Raft.upToDate, decide_eq_true_eq] at hlog
        rw [hlen, hlt, hold.index, hold.term] at hlog
        refine hlog.imp_right fun hlast => ⟨hlast.1.symm, ?_⟩
        have hle := hlast.2
        omega

omit [RaftArchive] in
/-- The rounds after a vote has come back. -/
theorem Sim.vote_returned {t' : Consensus (Fin n) LogEntry} (h : Sim s t) (hinv : t.Inv)
    (hsteps : ReflTransGen Next t t') {c : ℕ} {call : Call n RequestVoteArgs RequestVoteReply}
    {round : Round n} {count : Int} (hc : s.voteCalls[c]? = some call)
    (hround : s.votedNums[call.round]? = some round)
    (hrounds : s'.votedNums = s.votedNums.set call.round { round with count })
    (hcalls : s'.voteCalls = s.voteCalls.set c { call with returned := true }) : Votes s' t' := by
  have hle := Consensus.le_of_steps hsteps
  intro r rd hr
  obtain ⟨rd', hr', howner, hbuilt⟩ : ∃ rd', s.votedNums[r]? = some rd' ∧ rd'.owner = rd.owner ∧
      rd'.built = rd.built := by
    rw [hrounds] at hr
    rcases getElem?_set_cases hr with ⟨rfl, rfl⟩ | ⟨_, hr⟩
    · exact ⟨round, hround, rfl, rfl⟩
    · exact ⟨rd, hr, rfl, rfl⟩
  obtain ⟨C, hC, hback⟩ := h.vote r rd' hr'
  rw [howner, hbuilt] at hC
  rw [hbuilt] at hback
  refine ⟨C, hC.steps hinv hsteps, fun call' hcall' hround' => ?_⟩
  rw [hcalls] at hcall'
  rcases List.mem_or_eq_of_mem_set hcall' with hcall' | rfl
  · exact (hback call' hcall' hround').mono hle
  · have hold := (hback call (List.mem_of_getElem? hc) hround').mono hle
    exact { index := hold.index, term := hold.term, granted := hold.granted }

omit [RaftArchive] in
/-- A vote for the owner of a round, in the term of the round, is a ballot for a log that is at
    most as up to date. -/
theorem ballot_of_voted (hel : s.Elections) {r : ℕ} {round : Round n}
    (hr : s.votedNums[r]? = some round) {C : List LogEntry}
    (hC : Candidacy t round.owner round.built.currentTerm C)
    (hback : ∀ call ∈ s.voteCalls, call.round = r → VoteBacked t round.built.currentTerm C call)
    {j : Fin n} (hv : s.Voted j round.built.currentTerm round.owner) :
    ∃ J, (j, round.built.currentTerm, J) ∈ t.ballots ∧ UpToDate C J := by
  cases hv with
  | self _ _ _ hcand =>
    rw [← hcand]
    exact ⟨C, hC.ballot, Or.inr ⟨rfl, le_rfl⟩⟩
  | @granted call hcall hserver hcaller hterm hreply =>
    obtain ⟨round', hr', howner, hbuilt⟩ := (hel.call call hcall).round
    obtain rfl : call.round = r := eq_of_getElem?_of_nodup hel.distinct hr' hr
      (by simp only [howner, hbuilt, hcaller, hterm])
    obtain ⟨J, hJ, hup⟩ := (hback call hcall rfl).granted hreply
    rw [hserver] at hJ
    exact ⟨J, hJ, hup⟩

/-- A majority of votes starts the reign of the term. -/
theorem Sim.elected (h : Sim s t) (hinv : t.Inv) (hel : s.Elections) (hel' : s'.Elections)
    {c : ℕ} {call : Call n RequestVoteArgs RequestVoteReply} {reply : RequestVoteReply}
    {round : Round n} {count : Int} (hc : s.voteCalls[c]? = some call)
    (hreply : call.reply = some reply) (hround : s.votedNums[call.round]? = some round)
    (hret : call.returned = false) (hterm : reply.term = (s.nodes call.caller).currentTerm)
    (hgrant : reply.voteGranted = true) (hnum : (n / 2 + 1 : ℕ) ≤ round.count + 1)
    (hnodes : s'.nodes =
      Function.update s.nodes call.caller (s.nodes call.caller).becomeLeader.persist)
    (hrounds : s'.votedNums = s.votedNums.set call.round { round with count })
    (hcalls : s'.voteCalls = s.voteCalls.set c { call with returned := true })
    (happend : s'.appendCalls = s.appendCalls) (hsnap : s'.snapCalls = s.snapCalls)
    (hhistory : s'.history =
      s.history ++ [.elected call.caller (s.nodes call.caller).currentTerm]) :
    ∃ t', ReflTransGen Next t t' ∧ Sim s' t' := by
  have hnode := h.node call.caller
  have hcall := hel.call call (List.mem_of_getElem? hc)
  obtain ⟨rd, hrd, howner, hbuilt⟩ := hcall.round
  rw [hround, Option.some.injEq] at hrd
  subst hrd
  have hT : round.built.currentTerm = (s.nodes call.caller).currentTerm := by
    rw [hbuilt, ← hcall.reply reply hreply hgrant, hterm]
  have hold : ∀ ev ∈ s.history, ev ∈ s'.history := fun ev hev => by
    rw [hhistory]
    exact List.mem_append_left _ hev
  have he : .elected call.caller (s.nodes call.caller).currentTerm ∈ s'.history := by
    rw [hhistory]
    exact List.mem_append_right _ (List.mem_singleton_self _)
  -- nobody was elected in this term before
  have hnobody : ∀ j, .elected j (s.nodes call.caller).currentTerm ∉ s.history := by
    intro j hj
    obtain rfl := hel'.elected_unique (hold _ hj) he
    have := hel.not_again hc hreply hround hret hgrant (hterm ▸ hj)
    omega
  have hnone : t.reign (s.nodes call.caller).currentTerm = none := by
    cases hr : t.reign (s.nodes call.caller).currentTerm with
    | none => rfl
    | some r =>
      obtain ⟨j, hj⟩ := h.reign _ r hr
      exact absurd hj (hnobody j)
  -- the ballots of the majority
  have hset : s'.votedNums[call.round]? = some { round with count } := by
    rw [hrounds, List.getElem?_set_self (List.getElem?_eq_some_iff.mp hround).1]
  obtain ⟨C, hC, hback⟩ := h.vote_returned hinv .refl hc hround hrounds hcalls _ _ hset
  obtain ⟨Q, hQ, hvoted⟩ := hel'.majority he
  have hvotes : ∀ j ∈ Q, ∃ J, (j, t.term call.caller, J) ∈ t.ballots ∧ UpToDate C J := by
    intro j hj
    rw [hnode.term, ← hT]
    refine ballot_of_voted hel' hset hC hback ?_
    have hv := hvoted j hj
    rwa [← hT, ← howner] at hv
  obtain ⟨_, hrooted, _⟩ := hinv.ballot _ _ _ hC.ballot
  have hstands := hC.stands
  have hpos := hC.pos
  have holder := hC.older
  dsimp only at hstands hpos holder
  rw [howner, hT] at hstands
  rw [hT] at hpos holder
  have hn : t.Next (t.elect call.caller) := by
    rw [← hnode.term] at hnone hstands hpos holder
    exact .elect call.caller C Q hpos hnone hrooted holder (hstands rfl hnone) hQ hvotes
  have hinv' := hn.inv hinv
  refine ⟨_, .single hn, { node := fun j => ?_, reign := fun T r hr => ?_,
                           vote := h.vote_returned hinv (.single hn) hc hround hrounds hcalls,
                           append := happend ▸ h.append_mono hn.le,
                           snap := hsnap ▸ h.snap_mono hn.le, applied := fun i msg hmsg => ?_ }⟩
  · -- the nodes: the new leader mirrors its reign, the others lead other terms
    rw [hnodes]
    by_cases hj : j = call.caller
    · subst hj
      rw [Function.update_self]
      exact hnode.becomeLeader hnone hinv'
    · rw [Function.update_of_ne hj]
      refine (h.node j).frame hn.le rfl rfl fun hlead => Function.update_of_ne (fun heq => ?_) _ _
      rw [hnode.term] at heq
      exact hnobody j (heq ▸ hel.leads j hlead)
  · rcases Consensus.elect_reign hr with ⟨rfl, _⟩ | hr
    · rw [hnode.term]
      exact ⟨_, he⟩
    · obtain ⟨j, hj⟩ := h.reign T r hr
      exact ⟨j, hold _ hj⟩
  · rw [hhistory] at hmsg
    exact h.applied_mono hn.le i msg (by simpa using hmsg)

/-- The reply part of `sendRequestVote`. -/
theorem Sim.sendRequestVote (h : Sim s t) (hinv : t.Inv) (hel : s.Elections) (hel' : s'.Elections)
    {c : ℕ} {call : Call n RequestVoteArgs RequestVoteReply} {reply : RequestVoteReply}
    {round : Round n} {rf : Raft n} {count : Int} (hc : s.voteCalls[c]? = some call)
    (hreply : call.reply = some reply) (hround : s.votedNums[call.round]? = some round)
    (hret : call.returned = false)
    (hout : (s.nodes call.caller).VoteReplyOutcome reply round.count rf count)
    (hnodes : s'.nodes = Function.update s.nodes call.caller rf)
    (hrounds : s'.votedNums = s.votedNums.set call.round { round with count })
    (hcalls : s'.voteCalls = s.voteCalls.set c { call with returned := true })
    (happend : s'.appendCalls = s.appendCalls) (hsnap : s'.snapCalls = s.snapCalls)
    (hhistory : s'.history = s.history ++
      if (s.nodes call.caller).status ≠ .leader ∧ rf.status = .leader then
        [.elected call.caller rf.currentTerm]
      else []) : ∃ t', ReflTransGen Next t t' ∧ Sim s' t' := by
  have hnode := h.node call.caller
  -- unless the caller is elected, the abstract node moves alone
  have hquiet : ∀ {t'}, Own call.caller t t' → Raft.Mirrors t' call.caller rf → Sim s' t' := by
    intro t' hown hmirror
    have hle := Consensus.le_of_steps hown.steps
    refine h.own hown hmirror hnodes (fun ev hev => ?_)
      (h.vote_returned hinv hown.steps hc hround hrounds hcalls) (happend ▸ h.append_mono hle)
      (hsnap ▸ h.snap_mono hle) fun i msg hmsg => ?_
    · rw [hhistory]
      exact List.mem_append_left _ hev
    · rw [hhistory] at hmsg
      rcases List.mem_append.mp hmsg with hmsg | hmsg
      · exact h.applied_mono hle i msg hmsg
      · split at hmsg <;> simp at hmsg
  have hmoves := (Raft.Moves.voteReply hout).term_vote
  cases hout with
  | stepDown hterm =>
    exact ⟨_, .single (.raise _ _), hquiet (.raise _ t _)
      (hnode.raise hmoves ⟨rfl, rfl, rfl, rfl⟩ fun hlead => by cases hlead)⟩
  | ignored | counted => exact ⟨t, .refl, hquiet (.refl _ t) hnode⟩
  | elected hterm hgrant hnum hstatus =>
    refine h.elected hinv hel hel' hc hreply hround hret hterm hgrant hnum hnodes hrounds hcalls
      happend hsnap ?_
    rw [hhistory, if_pos ⟨hstatus, rfl⟩]
    rfl

/-! ### Entries -/

omit [RaftArchive] in
/-- `doHeartBeat` sends the leader's log. -/
theorem Sim.doHeartBeat (h : Sim s t) (hinv : t.Inv) (hshape : s.Shape) {i : Fin n}
    {calls : List (Fin n × Raft.HeartBeat)} (hstatus : (s.nodes i).status = .leader)
    (hpeers : calls.map Prod.fst = (s.nodes i).otherPeers)
    (hout : ∀ c ∈ calls, (s.nodes i).HeartBeatOutcome c.1 c.2) :
    Sim { s with
      appendNums := s.appendNums ++ [{ count := 1, owner := i, built := s.nodes i }]
      appendCalls := s.appendCalls ++ appendSends i s.appendNums.length calls
      snapCalls := s.snapCalls ++ snapshotSends i calls } t := by
  refine { node := h.node, reign := h.reign, vote := h.vote_steps hinv .refl rfl rfl,
           append := fun call hcall => ?_, snap := fun call hcall => ?_, applied := h.applied }
  · rcases List.mem_append.mp hcall with hcall | hcall
    · exact h.append call hcall
    · obtain ⟨j, prevTerm, _, _, hterm, rfl⟩ := mem_appendSends hpeers hout hcall
      obtain ⟨r, hsent⟩ := (h.node i).sent (hshape.node i) hstatus hterm
      exact ⟨_, r, hsent, fun _ hreply => by cases hreply⟩
  · rcases List.mem_append.mp hcall with hcall | hcall
    · exact h.snap call hcall
    · obtain ⟨j, _, rfl⟩ := mem_snapshotSends hpeers hcall
      exact fun _ hargs => by cases hargs

/-- `AppendEntries1` under `Covers`. -/
theorem Sim.appendEntries1 (h : Sim s t) (hinv : t.Inv) (hshape : s.Shape) {c : ℕ}
    {call : Call n AppendEntriesArgs AppendEntriesReply} {rf : Raft n}
    {reply : AppendEntriesReply} (hc : s.appendCalls[c]? = some call)
    (hout : (s.nodes call.server).AppendEntriesOutcome call.args rf reply)
    (hcovers : (s.nodes call.server).Covers call.args) :
    ∃ t', ReflTransGen Next t t' ∧ Sim
      { s.setNode call.server rf with
        appendCalls := s.appendCalls.set c { call with reply := some reply, after := some rf } }
      t' := by
  have hmem := List.mem_of_getElem? hc
  have hargs := (hshape.append call hmem).args
  have hnode := h.node call.server
  obtain ⟨B, r, hsent, _⟩ := id (h.append call hmem)
  have hone : ∃ t', Own call.server t t' ∧ Raft.Mirrors t' call.server rf ∧
      (reply.success = true → r.first.length < B.length →
        (call.server, call.args.term, B) ∈ t'.acks ∨ t'.Agreed call.args.term B) := by
    have hmoves := (Raft.Moves.appendEntries1 hargs hout).term_vote
    have hleads := hout.leads
    cases hout with
    | stale => exact ⟨t, .refl _ t, hnode, fun hsucc => by cases hsucc⟩
    | tooShort | mismatch =>
      exact ⟨_, .raise _ t _, hnode.raise hmoves ⟨by simp, by simp, by simp, by simp⟩ hleads,
        fun hsucc => by cases hsucc⟩
    | accepted hterm hsnap hlast hprev =>
      -- the abstract node takes the log of the reign, or has what was agreed of it
      obtain ⟨t', hown, hmirror, hack⟩ :=
        hnode.accept hinv (hshape.node _) hargs hterm hsnap hlast hprev hcovers hsent
      exact ⟨t', hown, hmirror, fun _ => hack⟩
  obtain ⟨t', hown, hmirror, hack⟩ := hone
  have hle := Consensus.le_of_steps hown.steps
  refine ⟨t', hown.steps, h.own hown hmirror rfl (fun _ hev => hev)
    (h.vote_steps hinv hown.steps rfl rfl) (fun call' hcall' => ?_) (h.snap_mono hle)
    (h.applied_mono hle)⟩
  rcases List.mem_or_eq_of_mem_set hcall' with hcall' | rfl
  · exact h.append_mono hle call' hcall'
  · refine ⟨B, r, { hsent with
      reign := by rw [hown.reign]; exact hsent.reign
      commit := hsent.commit.mono hle le_rfl }, fun reply' hreply => ?_⟩
    cases hreply
    exact hack

omit [RaftArchive] in
/-- The requests of a round carry one log, and its last index is that of the leader when it
    started the round. -/
theorem sent_unique (hrounds : s.Rounds) {r : ℕ} {round : Round n}
    (hr : s.appendNums[r]? = some round) {call : Call n AppendEntriesArgs AppendEntriesReply}
    (hcall : call ∈ s.appendCalls) (hround : call.round = r) {B : List LogEntry}
    {rg : Reign LogEntry} (hsent : Raft.Sent t call.args B rg) :
    call.args.term = round.built.currentTerm ∧ (B.length : Int) = round.built.getLastLogIndex := by
  obtain ⟨round', prevTerm, hr', _, hterm, hargs⟩ := (hrounds.call call hcall).round
  rw [hround, hr, Option.some.injEq] at hr'
  subst hr'
  have hend := ((hrounds.round round (List.mem_of_getElem? hr)).built.appendArgs hterm).2
  rw [← hargs] at hend
  exact ⟨by rw [hargs]; rfl, hsent.length.symm.trans hend⟩

omit [RaftArchive] in
/-- **The commit rule.**  When a leader counts a majority for a round that ends with an entry of
    its term, the log it sent is agreed as soon as it acknowledges that log itself. -/
theorem Sim.agreed {t : Consensus (Fin n) LogEntry} (hinv : t.Inv)
    {call : Call n AppendEntriesArgs AppendEntriesReply} {round : Round n} {rf : Raft n}
    (hrounds : s.Rounds) (hmem : call ∈ s.appendCalls)
    (hround : s.appendNums[call.round]? = some round)
    (happend : ∀ call ∈ s.appendCalls, AppendBacked t call)
    (hmirror : Raft.Mirrors t call.caller rf) (hstatus : rf.status = .leader)
    (hterm : rf.currentTerm = call.args.term)
    (hlast : call.args.entries.getLast?.map LogEntry.logTerm = some rf.currentTerm)
    (hhalf : n / 2 ≤ s.successes call.round) :
    ∃ t' B, Own call.caller t t' ∧ Raft.Mirrors t' call.caller rf ∧ B <+: t'.log call.caller ∧
      t'.Agreed rf.currentTerm B ∧
      call.args.prevLogIndex + call.args.entries.length = List.length B := by
  obtain ⟨B, r, hsent, _⟩ := happend call hmem
  obtain ⟨round', _, hr', howner, _⟩ := (hrounds.call call hmem).round
  rw [hround, Option.some.injEq] at hr'
  subst hr'
  obtain ⟨r', hr', hrlast⟩ := hmirror.leads hstatus
  have hr : t.reign rf.currentTerm = some r := by rw [hterm, hsent.reign]
  rw [hr, Option.some.injEq] at hr'
  subst hr'
  have hB : B <+: t.log call.caller := hrlast ▸ hsent.last
  -- the last entry of the log was proposed in this term, so the log goes beyond the first one
  have hlong : r.first.length < B.length := by
    obtain ⟨e, he, heT⟩ := Option.map_eq_some_iff.mp hlast
    by_contra hle
    have hpre : B <+: r.first := isPrefix_of_le hsent.last r.grown (not_lt.mp hle)
    have hin : e ∈ r.first := by
      refine hpre.subset ?_
      rw [hsent.entries] at he
      exact List.mem_of_mem_drop (List.mem_of_getLast? he)
    have := (hinv.reign _ r hr).2.2.2.1 e hin
    exact absurd heT this.ne
  obtain ⟨hargs, hlen⟩ := sent_unique hrounds hround hmem rfl hsent
  obtain ⟨t', hown, hmirror', hack⟩ := hmirror.acked hr hB hsent.last
  have hle := Consensus.le_of_steps hown.steps
  refine ⟨t', B, hown, hmirror', ?_, ?_, hsent.length⟩
  · obtain ⟨r', hr', hrlast'⟩ := hmirror'.leads hstatus
    rw [hown.reign, hr, Option.some.injEq] at hr'
    exact hrlast' ▸ hr' ▸ hsent.last
  · -- the quorum: the leader itself and every node that answered with success
    by_cases hagreed : t.Agreed rf.currentTerm B
    · exact hagreed.mono hle le_rfl
    · obtain ⟨Q, hQ, _, hanswered⟩ := hrounds.majority hround hhalf
      refine Or.inr ⟨rf.currentTerm, B, le_rfl, ⟨Q, hQ, fun j hj => ?_⟩, List.prefix_rfl⟩
      by_cases hself : j = round.owner
      · rw [hself, howner]
        exact hack hlong
      · obtain ⟨call', hcall', hsucc, rfl⟩ := hanswered j hj hself
        obtain ⟨B', r', hsent', hack'⟩ := happend call' hcall'
        obtain ⟨hargs', hlen'⟩ :=
          sent_unique hrounds hround hcall' (round_of_succeeded hsucc) hsent'
        have hterm' : call'.args.term = rf.currentTerm := by rw [hargs', ← hargs, hterm]
        have hr'' := hsent'.reign
        rw [hterm', hr, Option.some.injEq] at hr''
        subst hr''
        obtain rfl : B' = B := eq_of_isPrefix hsent'.last hsent.last (by omega)
        simp only [succeeded, Bool.and_eq_true] at hsucc
        obtain ⟨reply, hreply, hok⟩ := (Option.any_eq_true _ _).mp hsucc.2
        rw [← hterm'] at hagreed ⊢
        exact hle.acks ((hack' reply hreply hok hlong).resolve_right hagreed)

/-- The reply part of `sendAppendEntries`. -/
theorem Sim.sendAppendEntries (h : Sim s t) (hinv : t.Inv) (hrounds : s.Rounds)
    {c : ℕ} {call : Call n AppendEntriesArgs AppendEntriesReply} {reply : AppendEntriesReply}
    {round : Round n} {rf : Raft n} {count : Int} (hcall : s.appendCalls[c]? = some call)
    (hreply : call.reply = some reply) (hround : s.appendNums[call.round]? = some round)
    (hret : call.returned = false)
    (hout : (s.nodes call.caller).AppendReplyOutcome call.server call.args reply round.count
      rf count)
    (hrounds' : s'.Rounds) (hnodes : s'.nodes = Function.update s.nodes call.caller rf)
    (hvoteNums : s'.votedNums = s.votedNums) (hvoteCalls : s'.voteCalls = s.voteCalls)
    (hnums : s'.appendNums = s.appendNums.set call.round { round with count })
    (hcalls : s'.appendCalls = s.appendCalls.set c { call with returned := true })
    (hsnap : s'.snapCalls = s.snapCalls) (hhistory : s'.history = s.history) :
    ∃ t', ReflTransGen Next t t' ∧ Sim s' t' := by
  have hnode := h.node call.caller
  have hmem := List.mem_of_getElem? hcall
  have hback : ∀ {t'}, t.Le t' → ∀ call ∈ s'.appendCalls, AppendBacked t' call := by
    intro t' hle call' hcall'
    rw [hcalls] at hcall'
    rcases List.mem_or_eq_of_mem_set hcall' with hcall' | rfl
    · exact h.append_mono hle call' hcall'
    · exact h.append_mono hle call hmem
  -- a step of the leader alone: what is in flight is backed as before
  have hquiet : ∀ {t'}, Own call.caller t t' → Raft.Mirrors t' call.caller rf →
      ∃ t', ReflTransGen Next t t' ∧ Sim s' t' := by
    intro t' hown hmirror
    have hle := Consensus.le_of_steps hown.steps
    exact ⟨t', hown.steps, h.own hown hmirror hnodes (fun ev hev => hhistory ▸ hev)
      (h.vote_steps hinv hown.steps hvoteNums hvoteCalls) (hback hle) (hsnap ▸ h.snap_mono hle)
      (hhistory ▸ h.applied_mono hle)⟩
  have hleads := hout.leads
  cases hout with
  | stepDown hterm =>
    have hmoves : (s.nodes call.caller).TermLE
        ((s.nodes call.caller).stepDown reply.term).persist := Or.inl hterm
    exact hquiet (.raise _ t _) (hnode.raise hmoves ⟨rfl, rfl, rfl, rfl⟩ hleads)
  | ignored => exact hquiet (.refl _ t) hnode
  | backOff | counted =>
    exact hquiet (.refl _ t) (hnode.moved (.refl t) rfl hnode.term ⟨rfl, rfl, rfl, rfl⟩
      (fun hlead => ⟨hlead, rfl⟩) fun _ => rfl)
  | majority hterm hstatus hsucc hnum =>
    -- the counter has reached a majority; `m_commitIndex` moves only if the last entry sent is
    -- of the current term
    by_cases hlast : call.args.entries.getLast?.map LogEntry.logTerm =
        some (s.nodes call.caller).currentTerm
    · have hset : s'.appendNums[call.round]? = some { round with count := 0 } := by
        rw [hnums, List.getElem?_set_self (List.getElem?_eq_some_iff.mp hround).1]
      have hmem' : { call with returned := true } ∈ s'.appendCalls := by
        rw [hcalls]
        exact List.mem_set (List.getElem?_eq_some_iff.mp hcall).1 _
      have hhalf : n / 2 ≤ s'.successes call.round := by
        have htally := successes_sendAppendEntries hcall hreply hret hcalls call.round
        rw [if_pos ⟨rfl, hsucc⟩] at htally
        have hcount := hrounds.count _ _ hround
        omega
      have hasked : (s.nodes call.caller).currentTerm = call.args.term := by
        rw [← hterm, ((hrounds.call call hmem).reply reply hreply hsucc).1]
      obtain ⟨t', B, hown, hmirror, hB, hagreed, hend⟩ :=
        Sim.agreed hinv hrounds' hmem' hset (hback (.refl t)) hnode hstatus hasked hlast hhalf
      refine hquiet hown (hmirror.committed hstatus hagreed hB (by simp) (by simp)
        (by rw [Raft.commitRound_eq]; rfl) (by simp) (Or.inr ?_))
      rw [Raft.commitRound_commitIndex, Raft.recordMatch_currentTerm, if_pos hlast,
        Raft.recordMatch_commitIndex]
      exact congrArg _ hend
    · -- without such an entry the log and the commit index stay
      have hsame : (s.nodes call.caller).SameLog
          (((s.nodes call.caller).recordMatch call.server
            (call.args.prevLogIndex + call.args.entries.length)).commitRound call.args) := by
        rw [Raft.commitRound, if_neg (by simpa using hlast)]
        exact ⟨rfl, rfl, rfl, rfl⟩
      exact hquiet (.refl _ t) (hnode.moved (.refl t) rfl (by simpa using hnode.term) hsame
        (fun hlead => ⟨hstatus, by simp⟩) fun _ => rfl)

/-! ### Snapshots, the service and the apply loop -/

omit [RaftArchive] in
/-- `leaderSendSnapShot` sends what the snapshot of its node stands for. -/
theorem Sim.leaderSendSnapShot (h : Sim s t) (hshape : s.Shape) (c : ℕ)
    (call : Call n (Option InstallSnapshotRequest) InstallSnapshotResponse) :
    Sim { s.setNode call.caller (s.nodes call.caller).leaderSendSnapShot.1 with
      snapCalls := s.snapCalls.set c
        { call with args := some (s.nodes call.caller).leaderSendSnapShot.2 } } t := by
  have hnode := h.node call.caller
  have hmirror : Raft.Mirrors t call.caller (s.nodes call.caller).leaderSendSnapShot.1 :=
    hnode.moved (.refl t) rfl hnode.term ⟨rfl, rfl, rfl, rfl⟩ (fun hlead => ⟨hlead, rfl⟩)
      fun _ => rfl
  refine h.own (.refl _ t) hmirror rfl (fun _ hev => hev) h.vote h.append
    (fun call' hcall' => ?_) h.applied
  rcases List.mem_or_eq_of_mem_set hcall' with hcall' | rfl
  · exact h.snap call' hcall'
  · intro args hargs
    cases hargs
    exact hnode.snapshot (hshape.node call.caller)

omit [RaftArchive] in
/-- The answer to a snapshot request, or the processing of that answer, does not change what
    the request stands for. -/
theorem Sim.snap_set {t' : Consensus (Fin n) LogEntry} (h : Sim s t) (hle : t.Le t') {c : ℕ}
    {call call' : Call n (Option InstallSnapshotRequest) InstallSnapshotResponse}
    (hc : s.snapCalls[c]? = some call) (hargs : call'.args = call.args) :
    ∀ call ∈ s.snapCalls.set c call', SnapBacked t' call := by
  intro other hother
  rcases List.mem_or_eq_of_mem_set hother with hother | rfl
  · exact h.snap_mono hle other hother
  · have hold := h.snap_mono hle call (List.mem_of_getElem? hc)
    rwa [SnapBacked, hargs]

/-- `InstallSnapshot`. -/
theorem Sim.installSnapshot (h : Sim s t) (hinv : t.Inv) (hshape : s.Shape) {c : ℕ}
    {call : Call n (Option InstallSnapshotRequest) InstallSnapshotResponse}
    {args : InstallSnapshotRequest} {rf : Raft n} {reply : InstallSnapshotResponse}
    {msg : Option ApplyMsg} (hc : s.snapCalls[c]? = some call) (hargs : call.args = some args)
    (hout : (s.nodes call.server).InstallSnapshotOutcome args rf reply msg) :
    ∃ t', ReflTransGen Next t t' ∧ Sim
      { s.setNode call.server rf with
        snapCalls := s.snapCalls.set c { call with reply := some reply, after := some rf }
        history := s.history ++ msg.toList.map (.pushed call.server) } t' := by
  have hnode := h.node call.server
  -- one abstract step of the node that answers, or none
  obtain ⟨t', hown, hmirror⟩ : ∃ t', Own call.server t t' ∧ Raft.Mirrors t' call.server rf := by
    have hmoves := (Raft.Moves.installSnapshot hout).term_vote
    have hleads := hout.leads
    cases hout with
    | stale => exact ⟨t, .refl _ t, hnode⟩
    | old => exact ⟨_, .raise _ t _, hnode.raise hmoves (Raft.heed_sameLog _ _) hleads⟩
    | installed hterm hidx =>
      obtain ⟨S, hlen, hsterm, hS⟩ := h.snap call (List.mem_of_getElem? hc) args hargs
      exact hnode.installed hinv (hshape.node call.server) hterm hidx hS hlen hsterm
  have hle := Consensus.le_of_steps hown.steps
  refine ⟨t', hown.steps, h.own hown hmirror rfl (fun _ hev => List.mem_append_left _ hev)
    (h.vote_steps hinv hown.steps rfl rfl) (h.append_mono hle) (h.snap_set hle hc rfl)
    fun i msg' hmsg => ?_⟩
  -- what is pushed is a snapshot, and no applied command
  rcases List.mem_append.mp hmsg with hmsg | hmsg
  · exact h.applied_mono hle i msg' hmsg
  · obtain ⟨_, _, heq⟩ := List.mem_map.mp hmsg
    cases heq

/-- The processing of a reply to `InstallSnapshot`. -/
theorem Sim.leaderSendSnapShotReply (h : Sim s t) (hinv : t.Inv) {c : ℕ}
    {call : Call n (Option InstallSnapshotRequest) InstallSnapshotResponse}
    {args : InstallSnapshotRequest} {reply : InstallSnapshotResponse} {rf : Raft n}
    (hc : s.snapCalls[c]? = some call)
    (hout : (s.nodes call.caller).SnapshotReplyOutcome call.server args reply rf) :
    ∃ t', ReflTransGen Next t t' ∧ Sim
      { s.setNode call.caller rf with
        snapCalls := s.snapCalls.set c { call with returned := true } } t' := by
  have hmoves : (s.nodes call.caller).TermLE rf := by
    cases hout with
    | stepDown hterm => exact Or.inl hterm
    | ignored | recorded => exact .of_eq rfl rfl
  have hmirror := (h.node call.caller).raise hmoves hout.sameLog hout.leads
  have hown := Own.raise call.caller t rf.currentTerm
  have hle := Consensus.le_of_steps hown.steps
  exact ⟨_, hown.steps, h.own hown hmirror rfl (fun _ hev => hev)
    (h.vote_steps hinv hown.steps rfl rfl) (h.append_mono hle) (h.snap_set hle hc rfl)
    (h.applied_mono hle)⟩

/-- `Start` on a leader proposes in its reign; no other node leads in its term. -/
theorem Sim.start (h : Sim s t) (hinv : t.Inv) (hshape : s.Shape) (hel : s.Elections)
    {i : Fin n} (hstatus : (s.nodes i).status = .leader) (command : String) :
    ∃ t', ReflTransGen Next t t' ∧ Sim
      { s.setNode i ((s.nodes i).started command) with
        history := s.history ++ [.started i ((s.nodes i).newEntry command)] } t' := by
  have hnode := h.node i
  obtain ⟨r, hr, hlast, hmirror⟩ := hnode.started (hshape.node i) hstatus command
  have hr' : t.reign (t.term i) = some r := by rw [hnode.term, hr]
  have hn : t.Next (t.propose i ((s.nodes i).newEntry command) r) :=
    .propose i _ r hr' hlast hnode.term.symm
  refine ⟨_, .single hn, { node := fun j => ?_, reign := fun T r' hreign => ?_,
                           vote := h.vote_steps hinv (.single hn) rfl rfl,
                           append := h.append_mono hn.le, snap := h.snap_mono hn.le,
                           applied := fun j msg hmsg => ?_ }⟩
  · by_cases hj : j = i
    · subst hj
      rwa [setNode_nodes, Function.update_self]
    · rw [setNode_nodes, Function.update_of_ne hj]
      -- another leader is in another term, so its reign is not the one that grows
      refine (h.node j).frame hn.le (Function.update_of_ne hj _ _) rfl fun hlead =>
        Function.update_of_ne (fun heq => hj ?_) _ _
      rw [hnode.term] at heq
      exact hel.elected_unique (heq ▸ hel.leads j hlead) (hel.leads i hstatus)
  · obtain ⟨j, hj⟩ : ∃ j, .elected j T ∈ s.history := by
      rcases Consensus.propose_reign hreign with ⟨rfl, _⟩ | ⟨_, hreign⟩
      · exact h.reign _ r hr'
      · exact h.reign T r' hreign
    exact ⟨j, List.mem_append_left _ hj⟩
  · exact h.applied_mono hn.le j msg (by simpa using hmsg)

omit [RaftArchive] in
/-- `getApplyLogs` emits entries of an agreed log. -/
theorem Sim.getApplyLogs (h : Sim s t) (hshape : s.Shape) (i : Fin n) :
    Sim { s.setNode i { s.nodes i with lastApplied := (s.nodes i).commitIndex } with
      history :=
        s.history ++ ((s.nodes i).applicable.map Raft.applyMsgOf).map (.applied i) } t := by
  have hnode := h.node i
  have hmirror : Raft.Mirrors t i { s.nodes i with lastApplied := (s.nodes i).commitIndex } :=
    hnode.moved (.refl t) rfl hnode.term ⟨rfl, rfl, rfl, rfl⟩ (fun hlead => ⟨hlead, rfl⟩)
      fun _ => rfl
  refine h.own (.refl _ t) hmirror rfl (fun _ hev => List.mem_append_left _ hev) h.vote h.append
    h.snap fun j msg hmsg => ?_
  rcases List.mem_append.mp hmsg with hmsg | hmsg
  · exact h.applied j msg hmsg
  · obtain ⟨_, hmem, heq⟩ := List.mem_map.mp hmsg
    obtain ⟨e, he, rfl⟩ := List.mem_map.mp hmem
    cases heq
    obtain ⟨P, hP, hidx, hat⟩ := hnode.applicable (hshape.node i) he
    exact ⟨_, P, hP, hidx, e, hat, rfl⟩

omit [RaftArchive] in
/-- A step of one node that its member does not notice. -/
theorem Sim.unnoticed (h : Sim s t) {i : Fin n} {rf : Raft n} (hmirror : Raft.Mirrors t i rf) :
    Sim (s.setNode i rf) t :=
  h.own (.refl i t) hmirror rfl (fun _ hev => hev) h.vote h.append h.snap h.applied

/-! ### Runs -/

omit [RaftArchive] in
/-- The condition on a run: a request for entries meets `Raft.Covers` when it is delivered. -/
def Covered (s : Cluster n) : Step n → Prop
  | .appendEntries1 c => ∀ call ∈ s.appendCalls[c]?, (s.nodes call.server).Covers call.args
  | _ => True

instance (s : Cluster n) : (a : Step n) → Decidable (s.Covered a)
  | .appendEntries1 c =>
    inferInstanceAs (Decidable (∀ call ∈ s.appendCalls[c]?,
      (s.nodes call.server).Covers call.args))
  | .doElection _ | .requestVote _ | .sendRequestVote _ | .doHeartBeat _ | .sendAppendEntries _
  | .leaderSendSnapShot _ | .installSnapshot _ | .leaderSendSnapShotReply _ | .start ..
  | .snapshot .. | .getApplyLogs _ => inferInstanceAs (Decidable True)

/-- **Simulation step.**  A step that meets the condition is matched by abstract steps. -/
theorem Change.sim {a : Step n} (hc : Change s a s') (h : Sim s t) (hinv : t.Inv)
    (hshape : s.Shape) (hel : s.Elections) (hel' : s'.Elections) (hrounds : s.Rounds)
    (hrounds' : s'.Rounds) (hok : s.Covered a) : ∃ t', ReflTransGen Next t t' ∧ Sim s' t' := by
  cases hc with
  | idle => exact ⟨t, .refl, h⟩
  | exit =>
    exact ⟨t, .refl, { node := h.node, reign := h.reign, vote := h.vote, append := h.append,
                       snap := h.snap, applied := h.applied }⟩
  | doElection hstatus => exact h.doElection hinv hshape hel hstatus rfl rfl rfl rfl rfl rfl
  | requestVote hc _ hout =>
    exact h.requestVote hinv hshape hel hc hout rfl rfl rfl rfl rfl rfl
  | sendRequestVote hc hreply hround hret hout =>
    exact h.sendRequestVote hinv hel hel' hc hreply hround hret hout rfl rfl rfl rfl rfl rfl
  | doHeartBeat hstatus hpeers hout =>
    -- a request that is sent is a copy of what the sender holds, and changes nothing
    exact ⟨t, .refl, h.doHeartBeat hinv hshape hstatus hpeers hout⟩
  | appendEntries1 hc _ hout => exact h.appendEntries1 hinv hshape hc hout (hok _ hc)
  | sendAppendEntries hc hreply hround hret hout =>
    exact h.sendAppendEntries hinv hrounds hc hreply hround hret hout hrounds' rfl rfl rfl rfl rfl
      rfl rfl
  | leaderSendSnapShot => exact ⟨t, .refl, h.leaderSendSnapShot hshape _ _⟩
  | installSnapshot hc hargs _ hout => exact h.installSnapshot hinv hshape hc hargs hout
  | leaderSendSnapShotReply hc _ _ _ hout => exact h.leaderSendSnapShotReply hinv hc hout
  | start hstatus => exact h.start hinv hshape hel hstatus _
  -- `Snapshot` only moves the point up to which the log is stored apart
  | @snapshot i index data rf hout =>
    refine ⟨t, .refl, h.unnoticed ?_⟩
    cases hout with
    | ignored => exact h.node i
    | compacted hidx hcommit e he =>
      exact (h.node i).compacted (hshape.node i) hidx hcommit he data
  | @getApplyLogs i => exact ⟨t, .refl, h.getApplyLogs hshape i⟩

omit [RaftArchive] in
/-- The start of a run and the empty account. -/
theorem sim_init (n : ℕ) : Sim (init n) (Consensus.start (Fin n) LogEntry) where
  node i :=
    { nonneg := le_rfl
      term := rfl
      leads := fun hlead => by cases hlead
      view := ⟨[], ⟨le_rfl, rfl, rfl⟩, Or.inl rfl, Or.inl rfl⟩ }
  reign _ _ hr := by cases hr
  vote _ _ hr := by cases hr
  append _ hcall := by cases hcall
  snap _ hcall := by cases hcall
  applied _ _ hmsg := by cases hmsg

/-- **Simulation.**  Every state of a run that meets the condition is related to an account
    that keeps the invariant of the abstract steps. -/
theorem sim_reach (h : Reach step Covered (init n) s) :
    ∃ t : Consensus (Fin n) LogEntry, t.Inv ∧ Sim s t := by
  obtain ⟨t, ht, hsim⟩ := h.simulation (sim_init n)
    fun s a s' t hr ht hsim hok hs =>
      (reach_change hr hs).sim hsim (Consensus.inv_start.steps ht) (shape_reach hr)
        (elections_reach hr) (elections_reach (hr.tail hok hs)) (rounds_reach hr)
        (rounds_reach (hr.tail hok hs)) hok
  exact ⟨t, Consensus.inv_start.steps ht, hsim⟩

end steps

end Cluster

end RaftStore
