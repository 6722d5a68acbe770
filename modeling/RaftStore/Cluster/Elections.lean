import RaftStore.Cluster.Change
import RaftStore.Lib.Quorum
import RaftStore.Model.Archive

namespace RaftStore

/-!
# Elections

A vote is a ballot of a node for a candidate in a term: the candidate's own, or a granted
`RequestVote`.  `sendRequestVote` compares neither its own state nor its request's term with
the reply, so what makes its count sound is an invariant of the whole cluster.

* `Cluster.Voted` — the ballots; a node is bound by each of its own (`Cluster.Held`).
* `Cluster.Elections` — ballots are unique, a round's counter never exceeds the votes that came
  back for it, and half of the peers stand behind each `elected` event.
* `Cluster.elections_reach` — it holds in every reachable state.
* `Cluster.Elections.majority` — the majority behind an election.
* `Cluster.Elections.not_again` — a node is not elected twice in one term, so the assert in
  `sendRequestVote` never fails.
* `Cluster.election_safety` — at most one node becomes leader in a term.
-/

namespace Cluster

variable {n : ℕ}

/-! ### Ballots -/

/-- Node `j` has voted for node `c` in term `T`. -/
inductive Voted (s : Cluster n) (j : Fin n) (T : Int) (c : Fin n) : Prop
  | self {round : Round n} (hround : round ∈ s.votedNums) (howner : round.owner = j)
      (hterm : round.built.currentTerm = T) (hcand : c = j) : Voted s j T c
  | granted {call : Call n RequestVoteArgs RequestVoteReply} (hcall : call ∈ s.voteCalls)
      (hserver : call.server = j) (hcaller : call.caller = c) (hterm : call.args.term = T)
      (hreply : call.reply.any RequestVoteReply.voteGranted = true) : Voted s j T c

/-- A node in state `rf` is bound by a ballot for `c` in term `T`. -/
def Held (rf : Raft n) (T : Int) (c : Fin n) : Prop :=
  T < rf.currentTerm ∨ T = rf.currentTerm ∧ rf.votedFor = c.val

/-- Who is bound stays so: a term or a vote is never taken back. -/
theorem Held.mono {rf rf' : Raft n} {T : Int} {c : Fin n} (h : Held rf T c) (hle : rf.TermLE rf') :
    Held rf' T c := by
  unfold Held at h ⊢
  rcases hle with hlt | ⟨heq, hvote⟩
  · exact Or.inl (by omega)
  · rcases h with hT | ⟨hT, hc⟩
    · exact Or.inl (by omega)
    · rcases hvote with hsame | hfree
      · exact Or.inr ⟨by omega, hsame.trans hc⟩
      · omega

/-- A vote of round `r` that was granted and has come back to the candidate. -/
def granted (r : ℕ) (call : Call n RequestVoteArgs RequestVoteReply) : Bool :=
  decide (call.round = r) && call.returned && call.reply.any RequestVoteReply.voteGranted

/-- The number of these. -/
def tally (s : Cluster n) (r : ℕ) : ℕ := s.voteCalls.countP (granted r)

/-- A vote request belongs to a round of its caller and asks for a vote for it; a vote that is
    granted carries the term that was asked for. -/
structure VoteCall (s : Cluster n) (call : Call n RequestVoteArgs RequestVoteReply) : Prop where
  round : ∃ round, s.votedNums[call.round]? = some round ∧ round.owner = call.caller ∧
    round.built.currentTerm = call.args.term
  candidate : call.args.candidateId = call.caller.val
  other : call.server ≠ call.caller
  reply : ∀ reply, call.reply = some reply → reply.voteGranted = true →
    reply.term = call.args.term
  returned : call.returned = true → call.reply.isSome

/-- The invariant behind the elections. -/
structure Elections (s : Cluster n) : Prop where
  round : ∀ round ∈ s.votedNums, round.built.currentTerm ≤ (s.nodes round.owner).currentTerm
  distinct : (s.votedNums.map fun round => (round.owner, round.built.currentTerm)).Nodup
  call : ∀ call ∈ s.voteCalls, s.VoteCall call
  keys : (s.voteCalls.map fun call => (call.round, call.server)).Nodup
  count : ∀ r round, s.votedNums[r]? = some round → round.count ≤ 1 + (s.tally r : Int)
  held : ∀ j T c, s.Voted j T c → Held (s.nodes j) T c
  unique : ∀ j T c c', s.Voted j T c → s.Voted j T c' → c = c'
  elected : ∀ i T, Event.elected i T ∈ s.history → ∃ r round, s.votedNums[r]? = some round ∧
    round.owner = i ∧ round.built.currentTerm = T ∧ n / 2 ≤ s.tally r ∧
    round.count + (n / 2 : ℕ) ≤ (s.tally r : Int)
  leads : ∀ i, (s.nodes i).status = .leader → .elected i (s.nodes i).currentTerm ∈ s.history

/-! ### Quiet steps -/

/-- A step that changes neither rounds nor vote calls nor who was elected. -/
structure Quiet (s s' : Cluster n) : Prop where
  votedNums : s'.votedNums = s.votedNums
  voteCalls : s'.voteCalls = s.voteCalls
  elected : ∀ i T, Event.elected i T ∈ s'.history ↔ Event.elected i T ∈ s.history
  later : ∀ i, (s.nodes i).TermLE (s'.nodes i)
  leads : ∀ i, (s.nodes i).StillLeads (s'.nodes i)

/-- Only the rounds and the vote calls matter. -/
theorem Voted.congr {s s' : Cluster n} {j c : Fin n} {T : Int} (h : s.Voted j T c)
    (hrounds : s'.votedNums = s.votedNums) (hcalls : s'.voteCalls = s.voteCalls) :
    s'.Voted j T c := by
  cases h with
  | self hround howner hterm hcand => exact .self (hrounds ▸ hround) howner hterm hcand
  | granted hcall hserver hcaller hterm hreply =>
    exact .granted (hcalls ▸ hcall) hserver hcaller hterm hreply

/-- A quiet step keeps the invariant. -/
theorem Elections.quiet {s s' : Cluster n} (h : s.Elections) (hq : Quiet s s') : s'.Elections := by
  have htally : ∀ r, s'.tally r = s.tally r := fun r => by rw [tally, tally, hq.voteCalls]
  have hvoted : ∀ {j T c}, s'.Voted j T c → s.Voted j T c := fun hv =>
    hv.congr hq.votedNums.symm hq.voteCalls.symm
  refine { round := ?_, distinct := ?_, call := ?_, keys := ?_, count := ?_, held := ?_,
           unique := ?_, elected := ?_, leads := ?_ }
  · intro round hround
    rw [hq.votedNums] at hround
    have hle := h.round round hround
    rcases hq.later round.owner with hlt | ⟨heq, _⟩ <;> omega
  · rw [hq.votedNums]
    exact h.distinct
  · intro call hcall
    rw [hq.voteCalls] at hcall
    have hc := h.call call hcall
    exact { hc with round := by rw [hq.votedNums]; exact hc.round }
  · rw [hq.voteCalls]
    exact h.keys
  · intro r round hround
    rw [hq.votedNums] at hround
    rw [htally]
    exact h.count r round hround
  · exact fun j T c hv => (h.held j T c (hvoted hv)).mono (hq.later j)
  · exact fun j T c c' hv hv' => h.unique j T c c' (hvoted hv) (hvoted hv')
  · intro i T he
    obtain ⟨r, round, hround, hrest⟩ := h.elected i T ((hq.elected i T).mp he)
    exact ⟨r, round, by rw [hq.votedNums, hround], by rw [htally]; exact hrest⟩
  · intro i hstatus
    obtain ⟨hstatus, hterm⟩ := hq.leads i hstatus
    rw [hq.elected, hterm]
    exact h.leads i hstatus

section steps

variable [RaftArchive] {s s' : Cluster n} {a : Step n}

/-- A node's term and vote after a step. -/
theorem Change.later (h : s.Shape) (hc : Change s a s') (i : Fin n) :
    (s.nodes i).TermLE (s'.nodes i) := by
  rcases hc.moves h i with heq | hm
  · rw [heq]
    exact .of_eq rfl rfl
  · exact hm.term_vote

/-- Only `doElection` and the two halves of a vote call are not quiet. -/
theorem Change.quiet (h : s.Shape) (hc : Change s a s') (h₁ : ∀ i, a ≠ .doElection i)
    (h₂ : ∀ c, a ≠ .requestVote c) (h₃ : ∀ c, a ≠ .sendRequestVote c) : Quiet s s' := by
  have hlater := hc.later h
  have hone : ∀ {j : Fin n} {rf : Raft n}, (s.nodes j).StillLeads rf →
      ∀ i, (s.nodes i).StillLeads (Function.update s.nodes j rf i) := fun hl =>
    update_rel Raft.StillLeads.refl hl
  cases hc with
  | doElection => exact absurd rfl (h₁ _)
  | requestVote => exact absurd rfl (h₂ _)
  | sendRequestVote => exact absurd rfl (h₃ _)
  | idle | exit | doHeartBeat =>
    exact ⟨rfl, rfl, fun _ _ => Iff.rfl, hlater, fun _ => .refl _⟩
  | appendEntries1 _ _ hout => exact ⟨rfl, rfl, fun _ _ => Iff.rfl, hlater, hone hout.leads⟩
  | sendAppendEntries _ _ _ _ hout =>
    exact ⟨rfl, rfl, fun _ _ => Iff.rfl, hlater, hone hout.leads⟩
  | leaderSendSnapShot => exact ⟨rfl, rfl, fun _ _ => Iff.rfl, hlater, hone (.refl _)⟩
  | installSnapshot _ _ _ hout =>
    exact ⟨rfl, rfl, fun _ _ => by simp, hlater, hone hout.leads⟩
  | leaderSendSnapShotReply _ _ _ _ hout =>
    exact ⟨rfl, rfl, fun _ _ => Iff.rfl, hlater, hone hout.leads⟩
  | start => exact ⟨rfl, rfl, fun _ _ => by simp, hlater, hone (.refl _)⟩
  | snapshot hout => exact ⟨rfl, rfl, fun _ _ => Iff.rfl, hlater, hone hout.leads⟩
  | getApplyLogs => exact ⟨rfl, rfl, fun _ _ => by simp, hlater, hone (.refl _)⟩

/-! ### `doElection` -/

/-- `doElection` has run at node `i` and taken `s` to `s'`. -/
structure DoElection (s s' : Cluster n) (i : Fin n) : Prop where
  me : (s.nodes i).me = i
  status : (s.nodes i).status ≠ .leader
  nodes : s'.nodes = Function.update s.nodes i (s.nodes i).doElection.1
  votedNums : s'.votedNums = s.votedNums ++
    [{ count := 1, owner := i, built := (s.nodes i).doElection.1 }]
  voteCalls : s'.voteCalls = s.voteCalls ++
    voteSends i s.votedNums.length (s.nodes i).doElection.2
  history : s'.history = s.history

namespace DoElection

variable {i : Fin n}

/-- A candidate enters the next term. -/
theorem currentTerm (hd : DoElection s s' i) :
    (s.nodes i).doElection.1.currentTerm = (s.nodes i).currentTerm + 1 := by
  rw [Raft.doElection_fst hd.status]
  rfl

/-- A candidate votes for itself. -/
theorem votedFor (hd : DoElection s s' i) : (s.nodes i).doElection.1.votedFor = i.val := by
  rw [Raft.doElection_fst hd.status]
  exact congrArg (fun j : Fin n => (j.val : Int)) hd.me

/-- No node's term or vote goes back. -/
theorem termLE (hd : DoElection s s' i) (j : Fin n) : (s.nodes j).TermLE (s'.nodes j) := by
  rw [hd.nodes]
  exact update_rel (fun _ => .of_eq rfl rfl) (Raft.Moves.elect hd.status).term_vote j

/-- A round that was there stays where it is. -/
theorem getElem?_votedNums (hd : DoElection s s' i) {r : ℕ} {round : Round n}
    (hr : s.votedNums[r]? = some round) : s'.votedNums[r]? = some round := by
  rw [hd.votedNums, getElem?_append_round hr]

/-- The new calls go to the other peers, belong to the new round and are not answered yet. -/
theorem newCall (hd : DoElection s s' i) {call : Call n RequestVoteArgs RequestVoteReply}
    (hcall : call ∈ voteSends i s.votedNums.length (s.nodes i).doElection.2) :
    call.reply = none ∧ call.returned = false ∧ call.round = s.votedNums.length ∧
      s'.VoteCall call := by
  obtain ⟨j, hj, rfl⟩ := mem_voteSends hd.status hcall
  rw [hd.me] at hj
  refine ⟨rfl, rfl, rfl,
    { round := ?_, candidate := ?_, other := hj, reply := ?_, returned := ?_ }⟩
  · exact ⟨_, by rw [hd.votedNums]; exact List.getElem?_concat_length, rfl, hd.currentTerm⟩
  · exact congrArg (fun j : Fin n => (j.val : Int)) hd.me
  · exact fun _ hreply => by cases hreply
  · exact fun hret => by cases hret

/-- No vote has come back for a call that is new. -/
theorem tally (hd : DoElection s s' i) (r : ℕ) : s'.tally r = s.tally r := by
  rw [Cluster.tally, Cluster.tally, hd.voteCalls, List.countP_append, Nat.add_eq_left,
    List.countP_eq_zero]
  intro call hcall
  simp [granted, (hd.newCall hcall).2.1]

/-- The one new ballot is the candidate's own. -/
theorem voted (hd : DoElection s s' i) {j c : Fin n} {T : Int} (hv : s'.Voted j T c) :
    s.Voted j T c ∨ j = i ∧ c = i ∧ T = (s.nodes i).doElection.1.currentTerm := by
  cases hv with
  | self hround howner hterm hcand =>
    rw [hd.votedNums] at hround
    rcases List.mem_append.mp hround with hround | hround
    · exact Or.inl (.self hround howner hterm hcand)
    · obtain rfl := List.mem_singleton.mp hround
      exact Or.inr ⟨howner.symm, hcand.trans howner.symm, hterm.symm⟩
  | granted hcall hserver hcaller hterm hreply =>
    rw [hd.voteCalls] at hcall
    rcases List.mem_append.mp hcall with hcall | hcall
    · exact Or.inl (.granted hcall hserver hcaller hterm hreply)
    · rw [(hd.newCall hcall).1] at hreply
      cases hreply

end DoElection

namespace Elections

variable {i : Fin n}

/-- No round is ahead of its owner, the new one included. -/
theorem round_doElection (h : s.Elections) (hd : DoElection s s' i) {round : Round n}
    (hmem : round ∈ s'.votedNums) :
    round.built.currentTerm ≤ (s'.nodes round.owner).currentTerm := by
  rw [hd.votedNums] at hmem
  rcases List.mem_append.mp hmem with hmem | hmem
  · have := h.round round hmem
    rcases hd.termLE round.owner with hlt | ⟨heq, _⟩ <;> omega
  · obtain rfl := List.mem_singleton.mp hmem
    rw [hd.nodes, Function.update_self]

/-- The new round has a larger term than every round of its owner before it. -/
theorem distinct_doElection (h : s.Elections) (hd : DoElection s s' i) :
    (s'.votedNums.map fun round => (round.owner, round.built.currentTerm)).Nodup := by
  rw [hd.votedNums, List.map_append, List.nodup_append]
  refine ⟨h.distinct, List.nodup_singleton _, ?_⟩
  rintro _ hmem _ hlast rfl
  obtain ⟨round, hmem, hkey⟩ := List.mem_map.mp hmem
  rw [List.map_singleton, List.mem_singleton, ← hkey, Prod.mk.injEq] at hlast
  have howner : round.owner = i := hlast.1
  have hT : round.built.currentTerm = (s.nodes i).currentTerm + 1 :=
    hlast.2.trans hd.currentTerm
  have hle := h.round round hmem
  rw [howner] at hle
  omega

/-- Every vote call is one of its round's owner, the new calls included. -/
theorem call_doElection (h : s.Elections) (hd : DoElection s s' i)
    {call : Call n RequestVoteArgs RequestVoteReply} (hmem : call ∈ s'.voteCalls) :
    s'.VoteCall call := by
  rw [hd.voteCalls] at hmem
  rcases List.mem_append.mp hmem with hmem | hmem
  · have hc := h.call call hmem
    obtain ⟨round, hr, hrest⟩ := hc.round
    exact { hc with round := ⟨round, hd.getElem?_votedNums hr, hrest⟩ }
  · exact (hd.newCall hmem).2.2.2

/-- Each new call belongs to the round that was not there, so no peer is asked twice in one. -/
theorem keys_doElection (h : s.Elections) (hd : DoElection s s' i) :
    (s'.voteCalls.map fun call => (call.round, call.server)).Nodup := by
  rw [hd.voteCalls]
  refine nodup_keys_append h.keys ?_ (fun call hmem => ?_) fun call hmem =>
    (hd.newCall hmem).2.2.1
  · rw [voteSends, Raft.doElection_snd hd.status, List.map_map, List.map_map]
    refine List.Nodup.map (fun _ _ heq => (Prod.mk.inj heq).2) ?_
    exact (List.nodup_finRange n).filter _
  · obtain ⟨round, hr, _⟩ := (h.call call hmem).round
    exact (List.getElem?_eq_some_iff.mp hr).1.ne

/-- The counter of the new round starts at the candidate's vote for itself. -/
theorem count_doElection (h : s.Elections) (hd : DoElection s s' i) {r : ℕ} {round : Round n}
    (hr : s'.votedNums[r]? = some round) : round.count ≤ 1 + (s'.tally r : Int) := by
  rw [hd.tally]
  rw [hd.votedNums] at hr
  rcases getElem?_concat_cases hr with hr | ⟨rfl, rfl⟩
  · exact h.count r round hr
  · dsimp only
    omega

/-- The candidate has cast no ballot before in the term that it has just entered. -/
theorem unique_doElection (h : s.Elections) (hd : DoElection s s' i) {j c c' : Fin n} {T : Int}
    (hv : s'.Voted j T c) (hv' : s'.Voted j T c') : c = c' := by
  have hold : ∀ {c}, ¬ s.Voted i (s.nodes i).doElection.1.currentTerm c := by
    intro c hv
    rw [hd.currentTerm] at hv
    rcases h.held _ _ _ hv with hlt | ⟨heq, _⟩ <;> omega
  rcases hd.voted hv with hv | ⟨rfl, rfl, rfl⟩ <;>
    rcases hd.voted hv' with hv' | ⟨hj, hc, hT⟩
  · exact h.unique j T c c' hv hv'
  · subst hj hT
    exact absurd hv hold
  · exact absurd hv' hold
  · exact hc.symm

/-- A candidate does not lead, and nobody else has moved. -/
theorem leads_doElection (h : s.Elections) (hd : DoElection s s' i) {j : Fin n}
    (hlead : (s'.nodes j).status = .leader) :
    .elected j (s'.nodes j).currentTerm ∈ s'.history := by
  rw [hd.nodes] at hlead ⊢
  rw [hd.history]
  by_cases hj : j = i
  · subst hj
    rw [Function.update_self, Raft.doElection_fst hd.status] at hlead
    cases hlead
  · rw [Function.update_of_ne hj] at hlead ⊢
    exact h.leads j hlead

/-- **`doElection` keeps the invariant of the elections.** -/
theorem doElection (h : s.Elections) (hd : DoElection s s' i) : s'.Elections where
  round _ hmem := h.round_doElection hd hmem
  distinct := h.distinct_doElection hd
  call _ hmem := h.call_doElection hd hmem
  keys := h.keys_doElection hd
  count _ _ hr := h.count_doElection hd hr
  held := by
    intro j T c hv
    rcases hd.voted hv with hv | ⟨rfl, rfl, rfl⟩
    · exact (h.held j T c hv).mono (hd.termLE j)
    · rw [hd.nodes, Function.update_self]
      exact Or.inr ⟨rfl, hd.votedFor⟩
  unique _ _ _ _ hv hv' := h.unique_doElection hd hv hv'
  elected := by
    intro j T he
    rw [hd.history] at he
    obtain ⟨r, round, hr, hrest⟩ := h.elected j T he
    exact ⟨r, round, hd.getElem?_votedNums hr, by rw [hd.tally]; exact hrest⟩
  leads _ hlead := h.leads_doElection hd hlead

end Elections

/-! ### `RequestVote` -/

/-- A vote that is granted binds the voter to the candidate, and no ballot of the voter in that
    term was for anyone else. -/
theorem held_requestVote {rf rf' : Raft n} {args : RequestVoteArgs}
    {reply : RequestVoteReply} (hout : rf.RequestVoteOutcome args rf' reply)
    (hgrant : reply.voteGranted = true) {cand : Fin n} (hcand : args.candidateId = cand.val) :
    reply.term = args.term ∧ Held rf' args.term cand ∧
      ∀ c : Fin n, Held rf args.term c → c = cand := by
  cases hout with
  | stale | refused => cases hgrant
  | granted hterm hlog hvote =>
    refine ⟨rfl, Or.inr ⟨(Raft.observe_currentTerm hterm).symm, hcand⟩, fun c hheld => ?_⟩
    rcases hheld with hlt | ⟨heq, hc⟩
    · omega
    · rw [Raft.observe_votedFor, if_neg (by omega), hc, hcand] at hvote
      exact Fin.ext (by omega)

/-- The peer of call `c` has answered it with `reply` and gone on to `rf`, which takes `s` to
    `s'`. -/
structure RequestVote (s s' : Cluster n) (c : ℕ) (call : Call n RequestVoteArgs RequestVoteReply)
    (rf : Raft n) (reply : RequestVoteReply) : Prop where
  asked : s.voteCalls[c]? = some call
  unanswered : call.reply = none
  outcome : (s.nodes call.server).RequestVoteOutcome call.args rf reply
  nodes : s'.nodes = Function.update s.nodes call.server rf
  votedNums : s'.votedNums = s.votedNums
  voteCalls : s'.voteCalls =
    s.voteCalls.set c { call with reply := some reply, after := some rf }
  history : s'.history = s.history

namespace RequestVote

variable {c : ℕ} {call : Call n RequestVoteArgs RequestVoteReply} {rf : Raft n}
  {reply : RequestVoteReply}

/-- No node's term or vote goes back. -/
theorem termLE (hr : RequestVote s s' c call rf reply) (j : Fin n) :
    (s.nodes j).TermLE (s'.nodes j) := by
  rw [hr.nodes]
  exact update_rel (fun _ => .of_eq rfl rfl) (Raft.Moves.requestVote hr.outcome).term_vote j

/-- A request that is being answered now has not come back. -/
theorem not_returned (hr : RequestVote s s' c call rf reply) (h : s.Elections) :
    call.returned = false := by
  by_contra hret
  have hsome := (h.call call (List.mem_of_getElem? hr.asked)).returned (by simpa using hret)
  rw [hr.unanswered] at hsome
  cases hsome

/-- The answer counts only once it is back, so no tally moves yet. -/
theorem tally (hr : RequestVote s s' c call rf reply) (h : s.Elections) (r : ℕ) :
    s'.tally r = s.tally r := by
  have hret := hr.not_returned h
  have hset :=
    countP_set_eq (granted r) hr.asked { call with reply := some reply, after := some rf }
  rw [Cluster.tally, Cluster.tally, hr.voteCalls]
  simpa [granted, hret] using hset

/-- The one new ballot is the vote granted by this answer. -/
theorem voted (hr : RequestVote s s' c call rf reply) {j d : Fin n} {T : Int}
    (hv : s'.Voted j T d) :
    s.Voted j T d ∨ reply.voteGranted = true ∧ j = call.server ∧ d = call.caller ∧
      T = call.args.term := by
  cases hv with
  | self hround howner hterm hcand =>
    exact Or.inl (.self (hr.votedNums ▸ hround) howner hterm hcand)
  | granted hcall hserver hcaller hterm hreply =>
    rw [hr.voteCalls] at hcall
    rcases List.mem_or_eq_of_mem_set hcall with hcall | rfl
    · exact Or.inl (.granted hcall hserver hcaller hterm hreply)
    · exact Or.inr ⟨hreply, hserver.symm, hcaller.symm, hterm.symm⟩

end RequestVote

namespace Elections

variable {c : ℕ} {call : Call n RequestVoteArgs RequestVoteReply} {rf : Raft n}
  {reply : RequestVoteReply}

/-- Every vote call stays one of its round's owner, and the answer carries the term asked for. -/
theorem call_requestVote (h : s.Elections) (hr : RequestVote s s' c call rf reply)
    {call' : Call n RequestVoteArgs RequestVoteReply} (hmem : call' ∈ s'.voteCalls) :
    s'.VoteCall call' := by
  have hcall := h.call call (List.mem_of_getElem? hr.asked)
  rw [hr.voteCalls] at hmem
  rcases List.mem_or_eq_of_mem_set hmem with hmem | rfl
  · have hc' := h.call call' hmem
    exact { hc' with round := by rw [hr.votedNums]; exact hc'.round }
  · refine { round := ?_, candidate := hcall.candidate, other := hcall.other,
             reply := ?_, returned := fun _ => rfl }
    · rw [hr.votedNums]
      exact hcall.round
    · intro reply' heq hgrant
      cases heq
      exact (held_requestVote hr.outcome hgrant hcall.candidate).1

/-- A voter is bound by every ballot it has cast. -/
theorem held_requestVote (h : s.Elections) (hr : RequestVote s s' c call rf reply)
    {j d : Fin n} {T : Int} (hv : s'.Voted j T d) : Held (s'.nodes j) T d := by
  have hcall := h.call call (List.mem_of_getElem? hr.asked)
  rcases hr.voted hv with hv | ⟨hgrant, rfl, rfl, rfl⟩
  · exact (h.held j T d hv).mono (hr.termLE j)
  · rw [hr.nodes, Function.update_self]
    exact (Cluster.held_requestVote hr.outcome hgrant hcall.candidate).2.1

/-- A vote that is granted binds a voter that had no other ballot in the term. -/
theorem unique_requestVote (h : s.Elections) (hr : RequestVote s s' c call rf reply)
    {j d d' : Fin n} {T : Int} (hv : s'.Voted j T d) (hv' : s'.Voted j T d') : d = d' := by
  have hcall := h.call call (List.mem_of_getElem? hr.asked)
  rcases hr.voted hv with hv | ⟨hgrant, rfl, rfl, rfl⟩ <;>
    rcases hr.voted hv' with hv' | ⟨hgrant', hj, hd, hT⟩
  · exact h.unique j T d d' hv hv'
  · subst hj hd hT
    exact (Cluster.held_requestVote hr.outcome hgrant' hcall.candidate).2.2 d (h.held _ _ _ hv)
  · have hbound := Cluster.held_requestVote hr.outcome hgrant hcall.candidate
    exact (hbound.2.2 d' (h.held _ _ _ hv')).symm
  · exact hd.symm

/-- **`RequestVote` keeps the invariant of the elections.** -/
theorem requestVote (h : s.Elections) (hr : RequestVote s s' c call rf reply) :
    s'.Elections where
  round := by
    -- the term of an owner never goes down
    intro round hmem
    rw [hr.votedNums] at hmem
    have := h.round round hmem
    rcases hr.termLE round.owner with hlt | ⟨heq, _⟩ <;> omega
  distinct := by
    rw [hr.votedNums]
    exact h.distinct
  call _ hmem := h.call_requestVote hr hmem
  keys := by
    rw [hr.voteCalls, map_set_of_eq (fun call => (call.round, call.server)) hr.asked
      { call with reply := some reply, after := some rf } rfl]
    exact h.keys
  count := by
    intro r round hround
    rw [hr.votedNums] at hround
    rw [hr.tally h]
    exact h.count r round hround
  held _ _ _ hv := h.held_requestVote hr hv
  unique _ _ _ _ hv hv' := h.unique_requestVote hr hv hv'
  elected := by
    intro i T he
    rw [hr.history] at he
    obtain ⟨r, round, hround, hrest⟩ := h.elected i T he
    exact ⟨r, round, by rw [hr.votedNums, hround], by rw [hr.tally h]; exact hrest⟩
  leads := by
    -- only the node that answers moves, and one that leads after it led before, in the same term
    intro i hlead
    have hleads : (s.nodes i).StillLeads (s'.nodes i) := by
      rw [hr.nodes]
      exact update_rel Raft.StillLeads.refl hr.outcome.leads i
    obtain ⟨hstatus, hterm⟩ := hleads hlead
    rw [hr.history, hterm]
    exact h.leads i hstatus

end Elections

/-! ### The reply part of `sendRequestVote` -/

omit [RaftArchive] in
/-- A vote call of round `r` comes from the owner of the round and goes to another node. -/
theorem Elections.call_of_round (h : s.Elections) {r : ℕ} {round : Round n}
    (hr : s.votedNums[r]? = some round) {call : Call n RequestVoteArgs RequestVoteReply}
    (hcall : call ∈ s.voteCalls) (hround : call.round = r) :
    call.caller = round.owner ∧ call.args.term = round.built.currentTerm ∧
      call.server ≠ round.owner := by
  have hc := h.call call hcall
  obtain ⟨round', hr', howner, hterm⟩ := hc.round
  rw [hround, hr, Option.some.injEq] at hr'
  subst hr'
  exact ⟨howner.symm, hterm.symm, howner ▸ hc.other⟩

omit [RaftArchive] in
/-- A granted vote of round `r` belongs to round `r`. -/
theorem round_of_granted {r : ℕ} {call : Call n RequestVoteArgs RequestVoteReply}
    (h : granted r call = true) : call.round = r := by
  simp only [granted, Bool.and_eq_true, decide_eq_true_eq] at h
  exact h.1.1

omit [RaftArchive] in
/-- Fewer votes can come back for a round than there are nodes, also with call `c` returned. -/
theorem Elections.tally_lt (h : s.Elections) {c : ℕ}
    {call : Call n RequestVoteArgs RequestVoteReply} (hc : s.voteCalls[c]? = some call)
    {r : ℕ} {round : Round n} (hr : s.votedNums[r]? = some round) :
    (s.voteCalls.set c { call with returned := true }).countP (granted r) < n := by
  have hkeys := map_set_of_eq (fun call => (call.round, call.server)) hc
    { call with returned := true } rfl
  have hother : ∀ b ∈ s.voteCalls.set c { call with returned := true }, granted r b = true →
      b.server ≠ round.owner := by
    intro b hmem hb
    have hround := round_of_granted hb
    rcases List.mem_or_eq_of_mem_set hmem with hmem | rfl
    · exact (h.call_of_round hr hmem hround).2.2
    · exact (h.call_of_round hr (List.mem_of_getElem? hc) hround).2.2
  have hlt := countP_lt_card (hkeys ▸ h.keys) (fun _ _ hb => round_of_granted hb) hother
  rwa [Fintype.card_fin] at hlt

/-- What the reply part of `sendRequestVote` does to a counter that `t` returned votes back. -/
theorem count_sendRequestVote {rf rf' : Raft n} {reply : RequestVoteReply} {num count t t' : Int}
    (hout : rf.VoteReplyOutcome reply num rf' count) (hnum : num ≤ 1 + t)
    (ht : t' = t + if reply.voteGranted then 1 else 0) :
    count ≤ 1 + t' ∧ (num + (n / 2 : ℕ) ≤ t → count + (n / 2 : ℕ) ≤ t') ∧
      (rf.status ≠ .leader → rf'.status = .leader → (n / 2 : ℕ) ≤ t' ∧
        count + (n / 2 : ℕ) ≤ t' ∧ reply.term = rf.currentTerm ∧
        rf'.currentTerm = rf.currentTerm ∧ reply.voteGranted = true ∧ num ≤ 1 + t ∧
        (n / 2 + 1 : ℕ) ≤ num + 1) := by
  cases hout with
  | stepDown =>
    refine ⟨?_, ?_, fun _ hlead => by cases hlead⟩ <;> split at ht <;> omega
  | ignored =>
    refine ⟨?_, ?_, fun hne hlead => absurd hlead hne⟩ <;> split at ht <;> omega
  | counted hterm hgranted =>
    rw [if_pos hgranted] at ht
    exact ⟨by omega, by omega, fun hne hlead => absurd hlead hne⟩
  | elected hterm hgranted hmajority =>
    rw [if_pos hgranted] at ht
    push_cast at hmajority ⊢
    exact ⟨by omega, by omega, fun _ _ =>
      ⟨by omega, by omega, hterm, rfl, hgranted, hnum, by omega⟩⟩

/-- The reply of call `c` has come back and left the caller at `rf` and the counter of its round
    at `count`, which takes `s` to `s'`. -/
structure SendRequestVote (s s' : Cluster n) (c : ℕ)
    (call : Call n RequestVoteArgs RequestVoteReply) (reply : RequestVoteReply) (round : Round n)
    (rf : Raft n) (count : Int) : Prop where
  asked : s.voteCalls[c]? = some call
  answered : call.reply = some reply
  opened : s.votedNums[call.round]? = some round
  not_returned : call.returned = false
  outcome : (s.nodes call.caller).VoteReplyOutcome reply round.count rf count
  nodes : s'.nodes = Function.update s.nodes call.caller rf
  votedNums : s'.votedNums = s.votedNums.set call.round { round with count }
  voteCalls : s'.voteCalls = s.voteCalls.set c { call with returned := true }
  history : s'.history = s.history ++
    if (s.nodes call.caller).status ≠ .leader ∧ rf.status = .leader then
      [.elected call.caller rf.currentTerm]
    else []

namespace SendRequestVote

variable {c : ℕ} {call : Call n RequestVoteArgs RequestVoteReply} {reply : RequestVoteReply}
  {round : Round n} {rf : Raft n} {count : Int}

/-- No node's term or vote goes back. -/
theorem termLE (hv : SendRequestVote s s' c call reply round rf count) (j : Fin n) :
    (s.nodes j).TermLE (s'.nodes j) := by
  rw [hv.nodes]
  exact update_rel (fun _ => .of_eq rfl rfl) (Raft.Moves.voteReply hv.outcome).term_vote j

/-- The reply part of `sendRequestVote` casts no ballot. -/
theorem voted (hv : SendRequestVote s s' c call reply round rf count) {j d : Fin n} {T : Int}
    (hballot : s'.Voted j T d) : s.Voted j T d := by
  cases hballot with
  | self hmem howner hterm hcand =>
    rw [hv.votedNums] at hmem
    rcases List.mem_or_eq_of_mem_set hmem with hmem | rfl
    · exact .self hmem howner hterm hcand
    · exact .self (List.mem_of_getElem? hv.opened) howner hterm hcand
  | granted hmem hserver hcaller hterm hreply =>
    rw [hv.voteCalls] at hmem
    rcases List.mem_or_eq_of_mem_set hmem with hmem | rfl
    · exact .granted hmem hserver hcaller hterm hreply
    · exact .granted (List.mem_of_getElem? hv.asked) hserver hcaller hterm hreply

/-- The votes of each round after the reply has come back. -/
theorem tally (hv : SendRequestVote s s' c call reply round rf count) (r : ℕ) :
    (s'.tally r : Int) = s.tally r + if call.round = r ∧ reply.voteGranted then 1 else 0 := by
  have hold : granted r call = false := by simp [granted, hv.not_returned]
  have hnew : granted r { call with returned := true } =
      decide (call.round = r ∧ reply.voteGranted = true) := by simp [granted, hv.answered]
  rw [Cluster.tally, hv.voteCalls]
  exact countP_set_add hv.asked hold hnew

/-- The round of the call, with its counter overwritten. -/
theorem getElem?_self (hv : SendRequestVote s s' c call reply round rf count) :
    s'.votedNums[call.round]? = some { round with count } := by
  rw [hv.votedNums, List.getElem?_set_self (List.getElem?_eq_some_iff.mp hv.opened).1]

/-- Every other round is as it was. -/
theorem getElem?_of_ne (hv : SendRequestVote s s' c call reply round rf count) {r : ℕ}
    (hr : r ≠ call.round) : s'.votedNums[r]? = s.votedNums[r]? := by
  rw [hv.votedNums, List.getElem?_set_ne hr.symm]

/-- What the reply does to the counter of its round and to the votes behind it. -/
theorem counter (hv : SendRequestVote s s' c call reply round rf count) (h : s.Elections) :
    count ≤ 1 + (s'.tally call.round : Int) ∧
      (round.count + (n / 2 : ℕ) ≤ (s.tally call.round : Int) →
        count + (n / 2 : ℕ) ≤ (s'.tally call.round : Int)) ∧
      ((s.nodes call.caller).status ≠ .leader → rf.status = .leader →
        (n / 2 : ℕ) ≤ (s'.tally call.round : Int) ∧
        count + (n / 2 : ℕ) ≤ (s'.tally call.round : Int) ∧
        reply.term = (s.nodes call.caller).currentTerm ∧
        rf.currentTerm = (s.nodes call.caller).currentTerm ∧ reply.voteGranted = true) := by
  have hself : (s'.tally call.round : Int) =
      s.tally call.round + if reply.voteGranted then 1 else 0 := by
    have := hv.tally call.round
    simpa using this
  obtain ⟨hle, hkept, hlead⟩ := count_sendRequestVote hv.outcome (h.count _ _ hv.opened) hself
  refine ⟨hle, hkept, fun hnot his => ?_⟩
  obtain ⟨hhalf, hnum, hterm, hcur, hgrant, _⟩ := hlead hnot his
  exact ⟨hhalf, hnum, hterm, hcur, hgrant⟩

end SendRequestVote

namespace Elections

variable {c : ℕ} {call : Call n RequestVoteArgs RequestVoteReply} {reply : RequestVoteReply}
  {round : Round n} {rf : Raft n} {count : Int}

/-- No round is ahead of its owner: the reply moves no round's term. -/
theorem round_sendRequestVote (h : s.Elections)
    (hv : SendRequestVote s s' c call reply round rf count) {rd : Round n}
    (hmem : rd ∈ s'.votedNums) : rd.built.currentTerm ≤ (s'.nodes rd.owner).currentTerm := by
  have hold : rd.built.currentTerm ≤ (s.nodes rd.owner).currentTerm := by
    rw [hv.votedNums] at hmem
    rcases List.mem_or_eq_of_mem_set hmem with hmem | rfl
    · exact h.round rd hmem
    · exact h.round round (List.mem_of_getElem? hv.opened)
  rcases hv.termLE rd.owner with hlt | ⟨heq, _⟩ <;> omega

/-- Every vote call stays one of its round's owner: the counter of the round is overwritten, its
    owner and term are not. -/
theorem call_sendRequestVote (h : s.Elections)
    (hv : SendRequestVote s s' c call reply round rf count)
    {call' : Call n RequestVoteArgs RequestVoteReply} (hmem : call' ∈ s'.voteCalls) :
    s'.VoteCall call' := by
  have hold : s.VoteCall call' := by
    rw [hv.voteCalls] at hmem
    rcases List.mem_or_eq_of_mem_set hmem with hmem | rfl
    · exact h.call call' hmem
    · exact { h.call call (List.mem_of_getElem? hv.asked) with
              returned := fun _ => by rw [hv.answered]; rfl }
  refine { hold with round := ?_ }
  obtain ⟨rd, hr, howner, hterm⟩ := hold.round
  rw [hv.votedNums]
  rcases getElem?_set_split hv.opened hr { round with count } with ⟨_, rfl, hnew⟩ | hnew
  · exact ⟨_, hnew, howner, hterm⟩
  · exact ⟨rd, hnew, howner, hterm⟩

/-- No counter passes the votes that have come back for it. -/
theorem count_sendRequestVote (h : s.Elections)
    (hv : SendRequestVote s s' c call reply round rf count) {r : ℕ} {rd : Round n}
    (hr : s'.votedNums[r]? = some rd) : rd.count ≤ 1 + (s'.tally r : Int) := by
  rw [hv.votedNums] at hr
  rcases getElem?_set_cases hr with ⟨rfl, rfl⟩ | ⟨hne, hr⟩
  · exact (hv.counter h).1
  · rw [hv.tally, if_neg (by tauto)]
    simpa using h.count r rd hr

/-- An earlier election keeps its round and the votes behind it. -/
theorem elected_earlier (h : s.Elections)
    (hv : SendRequestVote s s' c call reply round rf count) {i : Fin n} {T : Int}
    (he : Event.elected i T ∈ s.history) : ∃ r round, s'.votedNums[r]? = some round ∧
      round.owner = i ∧ round.built.currentTerm = T ∧ n / 2 ≤ s'.tally r ∧
      round.count + (n / 2 : ℕ) ≤ (s'.tally r : Int) := by
  obtain ⟨r, rd, hr, howner, hterm, hhalf, hnum⟩ := h.elected i T he
  have hmono := hv.tally r
  by_cases heq : r = call.round
  · subst heq
    rw [hv.opened, Option.some.injEq] at hr
    subst hr
    refine ⟨_, _, hv.getElem?_self, howner, hterm, ?_, (hv.counter h).2.1 hnum⟩
    split at hmono <;> omega
  · refine ⟨r, rd, by rw [hv.getElem?_of_ne heq, hr], howner, hterm, ?_, ?_⟩ <;>
      split at hmono <;> omega

/-- The vote of this reply brings the counter of its round to the majority. -/
theorem elected_now (h : s.Elections)
    (hv : SendRequestVote s s' c call reply round rf count)
    (hnot : (s.nodes call.caller).status ≠ .leader) (hlead : rf.status = .leader) :
    ∃ r round, s'.votedNums[r]? = some round ∧ round.owner = call.caller ∧
      round.built.currentTerm = rf.currentTerm ∧ n / 2 ≤ s'.tally r ∧
      round.count + (n / 2 : ℕ) ≤ (s'.tally r : Int) := by
  have hcall := h.call call (List.mem_of_getElem? hv.asked)
  obtain ⟨hhalf, hnum, hterm, hcur, hgrant⟩ := (hv.counter h).2.2 hnot hlead
  obtain ⟨rd, hr, howner, hbuilt⟩ := hcall.round
  rw [hv.opened, Option.some.injEq] at hr
  subst hr
  have hasked := hcall.reply reply hv.answered hgrant
  exact ⟨_, _, hv.getElem?_self, howner, by dsimp only; omega, by omega, hnum⟩

/-- Half of the peers stand behind every election. -/
theorem elected_sendRequestVote (h : s.Elections)
    (hv : SendRequestVote s s' c call reply round rf count) {i : Fin n} {T : Int}
    (he : Event.elected i T ∈ s'.history) : ∃ r round, s'.votedNums[r]? = some round ∧
      round.owner = i ∧ round.built.currentTerm = T ∧ n / 2 ≤ s'.tally r ∧
      round.count + (n / 2 : ℕ) ≤ (s'.tally r : Int) := by
  rw [hv.history] at he
  rcases List.mem_append.mp he with he | he
  · exact h.elected_earlier hv he
  · split at he
    · rename_i hnew
      obtain ⟨rfl, rfl⟩ : i = call.caller ∧ T = rf.currentTerm := by simpa using he
      exact h.elected_now hv hnew.1 hnew.2
    · simp at he

/-- Who leads was elected in its term: who led before can only have been deposed or has kept its
    term. -/
theorem leads_sendRequestVote (h : s.Elections)
    (hv : SendRequestVote s s' c call reply round rf count) {i : Fin n}
    (hlead : (s'.nodes i).status = .leader) :
    .elected i (s'.nodes i).currentTerm ∈ s'.history := by
  rw [hv.nodes] at hlead ⊢
  rw [hv.history, List.mem_append]
  by_cases hi : i = call.caller
  · subst hi
    rw [Function.update_self] at hlead ⊢
    by_cases hstatus : (s.nodes call.caller).status = .leader
    · have hterm : rf.currentTerm = (s.nodes call.caller).currentTerm := by
        cases hv.outcome with
        | stepDown => cases hlead
        | ignored | counted | elected => rfl
      rw [hterm]
      exact Or.inl (h.leads _ hstatus)
    · right
      rw [if_pos ⟨hstatus, hlead⟩]
      exact List.mem_singleton_self _
  · rw [Function.update_of_ne hi] at hlead ⊢
    exact Or.inl (h.leads i hlead)

/-- **The reply part of `sendRequestVote` keeps the invariant of the elections**: a node becomes
    leader on a reply of the term it is in, with a majority behind it. -/
theorem sendRequestVote (h : s.Elections)
    (hv : SendRequestVote s s' c call reply round rf count) : s'.Elections where
  round _ hmem := h.round_sendRequestVote hv hmem
  distinct := by
    rw [hv.votedNums, map_set_of_eq (fun round => (round.owner, round.built.currentTerm))
      hv.opened { round with count } rfl]
    exact h.distinct
  call _ hmem := h.call_sendRequestVote hv hmem
  keys := by
    rw [hv.voteCalls, map_set_of_eq (fun call => (call.round, call.server)) hv.asked
      { call with returned := true } rfl]
    exact h.keys
  count _ _ hr := h.count_sendRequestVote hv hr
  held j T d hballot := (h.held j T d (hv.voted hballot)).mono (hv.termLE j)
  unique j T d d' hballot hballot' := h.unique j T d d' (hv.voted hballot) (hv.voted hballot')
  elected _ _ he := h.elected_sendRequestVote hv he
  leads _ hlead := h.leads_sendRequestVote hv hlead

end Elections

/-! ### Every run -/

/-- A step keeps the invariant of the elections. -/
theorem Change.elections (hshape : s.Shape) (h : s.Elections) (hc : Change s a s') :
    s'.Elections := by
  have hquiet := hc.quiet hshape
  cases hc with
  | idle => exact h
  | exit => exact h.quiet ⟨rfl, rfl, fun _ _ => Iff.rfl, fun _ => .of_eq rfl rfl, fun _ => .refl _⟩
  | doElection hstatus => exact h.doElection ⟨hshape.me _, hstatus, rfl, rfl, rfl, rfl⟩
  | requestVote hc hreply hout => exact h.requestVote ⟨hc, hreply, hout, rfl, rfl, rfl, rfl⟩
  | sendRequestVote hc hreply hround hret hout =>
    exact h.sendRequestVote ⟨hc, hreply, hround, hret, hout, rfl, rfl, rfl, rfl⟩
  | _ => exact h.quiet (hquiet (by simp) (by simp) (by simp))

omit [RaftArchive] in
/-- There is no round and no call at the start. -/
theorem elections_init (n : ℕ) : (init n).Elections := by
  have hnone : ∀ {j T c}, ¬ (init n).Voted j T c := by
    intro j T c hv
    cases hv with
    | self hround => cases hround
    | granted hcall => cases hcall
  exact
    { round := fun _ hround => by cases hround
      distinct := List.nodup_nil
      call := fun _ hcall => by cases hcall
      keys := List.nodup_nil
      count := fun _ _ hround => by cases hround
      held := fun _ _ _ hv => absurd hv hnone
      unique := fun _ _ _ _ hv => absurd hv hnone
      elected := fun _ _ he => by cases he
      leads := fun _ hlead => by cases hlead }

/-- **The invariant of the elections holds in every reachable state.** -/
theorem elections_reach {ok : Cluster n → Step n → Prop} (h : Reach step ok (init n) s) :
    s.Elections :=
  h.invariant (elections_init n) fun _ _ _ hr hs _ hstep =>
    (reach_change hr hstep).elections (shape_reach hr) hs

end steps

/-! ### What follows -/

section consequences

variable {s : Cluster n}

/-- The owner of a round for which half of the peers' votes came back, with these peers. -/
theorem Elections.majority_of_round (h : s.Elections) {r : ℕ} {round : Round n}
    (hr : s.votedNums[r]? = some round) (hhalf : n / 2 ≤ s.tally r) :
    ∃ Q : Finset (Fin n), Majority Q ∧ round.owner ∈ Q ∧ ∀ j ∈ Q, j = round.owner ∨
      ∃ call ∈ s.voteCalls, granted r call = true ∧ call.server = j := by
  refine exists_majority h.keys (fun _ _ hb => round_of_granted hb) (fun b hb hgrant => ?_) ?_
  · exact (h.call_of_round hr hb (round_of_granted hgrant)).2.2
  · rwa [Fintype.card_fin]

/-- A majority has voted for the node that was elected. -/
theorem Elections.majority (h : s.Elections) {i : Fin n} {T : Int}
    (he : .elected i T ∈ s.history) :
    ∃ Q : Finset (Fin n), Majority Q ∧ ∀ j ∈ Q, s.Voted j T i := by
  obtain ⟨r, round, hr, howner, hterm, hhalf, _⟩ := h.elected i T he
  obtain ⟨Q, hmaj, _, hQ⟩ := h.majority_of_round hr hhalf
  refine ⟨Q, hmaj, fun j hj => ?_⟩
  rcases hQ j hj with hself | ⟨call, hmem, hgrant, hserver⟩
  · exact .self (List.mem_of_getElem? hr) hself.symm hterm (howner.symm.trans hself.symm)
  · obtain ⟨hcaller, hargs, _⟩ := h.call_of_round hr hmem (round_of_granted hgrant)
    simp only [granted, Bool.and_eq_true] at hgrant
    exact .granted hmem hserver (hcaller.trans howner) (hargs.trans hterm) hgrant.2

/-- Two elections in one term are of one node. -/
theorem Elections.elected_unique (h : s.Elections) {i j : Fin n} {T : Int}
    (hi : .elected i T ∈ s.history) (hj : .elected j T ∈ s.history) : i = j := by
  obtain ⟨Q, hQ, hvoted⟩ := h.majority hi
  obtain ⟨Q', hQ', hvoted'⟩ := h.majority hj
  obtain ⟨v, hv, hv'⟩ := hQ.inter hQ'
  exact h.unique v T i j (hvoted v hv) (hvoted' v hv')

/-- A node that was elected in its term counts no second majority there. -/
theorem Elections.not_again (h : s.Elections) {c : ℕ}
    {call : Call n RequestVoteArgs RequestVoteReply} {reply : RequestVoteReply} {round : Round n}
    (hc : s.voteCalls[c]? = some call) (hreply : call.reply = some reply)
    (hround : s.votedNums[call.round]? = some round) (hret : call.returned = false)
    (hgrant : reply.voteGranted = true)
    (he : .elected call.caller reply.term ∈ s.history) :
    round.count + 1 < (n / 2 + 1 : ℕ) := by
  have hcall := h.call call (List.mem_of_getElem? hc)
  obtain ⟨rd, hrd, howner, hterm⟩ := hcall.round
  rw [hround, Option.some.injEq] at hrd
  subst hrd
  have hasked := hcall.reply reply hreply hgrant
  obtain ⟨r, rd, hr, howner', hterm', _, hnum⟩ := h.elected _ _ he
  -- the election was won in this very round
  obtain rfl : r = call.round := eq_of_getElem?_of_nodup h.distinct hr hround
    (by simp only [howner, howner', hterm, hterm', hasked])
  rw [hround, Option.some.injEq] at hr
  subst hr
  have hlt := h.tally_lt hc hround
  have hset := countP_set_eq (granted call.round) hc { call with returned := true }
  have hold : granted call.round call = false := by simp [granted, hret]
  have hnew : granted call.round { call with returned := true } = true := by
    simp [granted, hreply, hgrant]
  rw [hold, hnew] at hset
  simp only [Bool.false_eq_true, if_false, if_true] at hset
  rw [tally] at hnum
  omega

/-- The assert of `sendRequestVote` against a second election never fails. -/
theorem Elections.not_twiceElected (h : s.Elections) {c : ℕ}
    {call : Call n RequestVoteArgs RequestVoteReply} {reply : RequestVoteReply} {round : Round n}
    (hc : s.voteCalls[c]? = some call) (hreply : call.reply = some reply)
    (hround : s.votedNums[call.round]? = some round) (hret : call.returned = false) :
    ¬ (s.nodes call.caller).TwiceElected reply round.count := by
  rintro ⟨hterm, hgrant, hnum, hstatus⟩
  have he := h.leads _ hstatus
  rw [← hterm] at he
  have := h.not_again hc hreply hround hret hgrant he
  omega

/-- A node that leads after a step in a term it was elected in led before, in this term. -/
theorem Change.leads [RaftArchive] {s' : Cluster n} {a : Step n} (h : s.Elections)
    (hc : Change s a s') {i : Fin n} (hlead : (s'.nodes i).status = .leader)
    (he : .elected i (s'.nodes i).currentTerm ∈ s.history) :
    (s.nodes i).status = .leader ∧ (s'.nodes i).currentTerm = (s.nodes i).currentTerm := by
  have hone : ∀ {j : Fin n} {rf : Raft n}, (s.nodes j).StillLeads rf →
      (s.nodes i).StillLeads (Function.update s.nodes j rf i) := fun hl =>
    update_rel Raft.StillLeads.refl hl i
  cases hc with
  | idle | exit | doHeartBeat => exact ⟨hlead, rfl⟩
  | doElection hstatus => exact hone (Raft.doElection_leads hstatus) hlead
  | requestVote _ _ hout => exact hone hout.leads hlead
  | @sendRequestVote c call reply round rf count hc hreply hround hret hout =>
    by_cases hi : i = call.caller
    · subst hi
      rw [setNode_nodes, Function.update_self] at hlead he ⊢
      cases hout with
      | stepDown => cases hlead
      | ignored | counted => exact ⟨hlead, rfl⟩
      | elected hterm hgrant hnum hstatus =>
        -- it would be a second election in this term
        have hterm : Event.elected call.caller reply.term ∈ s.history := hterm ▸ he
        have := h.not_again hc hreply hround hret hgrant hterm
        omega
    · rw [setNode_nodes, Function.update_of_ne hi] at hlead ⊢
      exact ⟨hlead, rfl⟩
  | appendEntries1 _ _ hout => exact hone hout.leads hlead
  | sendAppendEntries _ _ _ _ hout => exact hone hout.leads hlead
  | leaderSendSnapShot => exact hone (.refl _) hlead
  | installSnapshot _ _ _ hout => exact hone hout.leads hlead
  | leaderSendSnapShotReply _ _ _ _ hout => exact hone hout.leads hlead
  | start => exact hone (.refl _) hlead
  | snapshot hout => exact hone hout.leads hlead
  | getApplyLogs => exact hone (.refl _) hlead

end consequences

/-! ### Election safety -/

/-- **Election safety.**  In every run at most one node becomes leader in a term. -/
theorem election_safety [RaftArchive] {s : Cluster n} (h : Reach step anyStep (init n) s)
    {i j : Fin n} {T : Int} (hi : .elected i T ∈ s.history) (hj : .elected j T ∈ s.history) :
    i = j :=
  (elections_reach h).elected_unique hi hj

/-- The election of node 0 by the vote of one of two peers. -/
theorem election_safety_firstTerm :
    letI := textRaftArchive
    ∃ s : Cluster 3, Reach step anyStep (init 3) s ∧ .elected 0 1 ∈ s.history ∧
      ∀ j, .elected j 1 ∈ s.history → 0 = j := by
  let := textRaftArchive
  have hrun : (runFrom (step : Cluster 3 → _) anyStep (init 3)
      [.doElection 0, .requestVote 0, .sendRequestVote 0]).map Cluster.history =
        some [.elected 0 1] := by
    decide
  obtain ⟨s, hs, hhistory⟩ := Reach.exists_of_runFrom hrun
  have he : Event.elected 0 1 ∈ s.history := by rw [hhistory]; exact List.mem_singleton_self _
  exact ⟨s, hs, he, fun j hj => election_safety hs he hj⟩

end Cluster

end RaftStore
