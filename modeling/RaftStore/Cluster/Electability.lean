import Mathlib.Data.Finset.Max
import Mathlib.Data.Prod.Lex
import RaftStore.Cluster.Change
import RaftStore.Model.Archive

namespace RaftStore

/-!
# Elections do not get stuck

Whatever has happened, and whichever messages are lost: a majority of nodes that are alive and of
which none leads can make one of them the leader, by steps of its own.  The one with the longest log
of the latest term times out until its term is above those of the others, and then they all vote for
it.

* `Raft.recency` — the order of logs that `UpToDate` compares.
* `Cluster.Campaign`, `Cluster.raise_term` — an election in a term above all others.
* `Cluster.Polling`, `Cluster.poll` — the votes that are left, and one more of them.
* `Cluster.electable` — **a leader can be elected**.
-/

namespace Raft

variable {n : ℕ}

/-- The last term and the last index of the log. -/
def recency (rf : Raft n) : ℤ ×ₗ ℤ := toLex (rf.getLastLogTerm, rf.getLastLogIndex)

/-- `UpToDate` compares the last term first, and then the last index. -/
theorem upToDate_iff {rf : Raft n} {index term : Int} :
    rf.upToDate index term = true ↔ rf.recency ≤ toLex (term, index) := by
  rw [upToDate, decide_eq_true_eq, recency, Prod.Lex.le_iff]
  show _ ↔ rf.getLastLogTerm < term ∨ rf.getLastLogTerm = term ∧ rf.getLastLogIndex ≤ index
  rw [@eq_comm _ term]

end Raft

namespace Cluster

variable {n : ℕ} [RaftArchive] {s s' : Cluster n} {M : Finset (Fin n)} {i j : Fin n} {T : Int}
  {r c : ℕ}

/-! ### The steps that are used -/

/-- Elections of nodes of `M`, and votes that pass between nodes of `M`. -/
def Among (M : Finset (Fin n)) (s : Cluster n) : Step n → Prop
  | .doElection i => i ∈ M
  | .requestVote c | .sendRequestVote c =>
    ∀ call ∈ s.voteCalls[c]?, call.caller ∈ M ∧ call.server ∈ M
  | _ => False

/-- `doElection` at a node that runs and does not lead. -/
theorem stepDoElection_eq (hlive : s.exited i = false) (hstatus : (s.nodes i).status ≠ .leader) :
    s.stepDoElection i = some { s.setNode i (s.nodes i).doElection.1 with
      votedNums := s.votedNums ++ [{ count := 1, owner := i, built := (s.nodes i).doElection.1 }]
      voteCalls := s.voteCalls ++ voteSends i s.votedNums.length (s.nodes i).doElection.2 } := by
  rw [stepDoElection, if_neg (by rw [hlive]; decide), if_neg hstatus]

/-! ### The candidate -/

/-- Node `i` has just begun an election in term `T`; the log and the other nodes are those of
    `s`. -/
structure Campaign (s : Cluster n) (i : Fin n) (T : Int) (s' : Cluster n) : Prop where
  exited : s'.exited = s.exited
  other : ∀ j, j ≠ i → s'.nodes j = s.nodes j
  status : (s'.nodes i).status = .candidate
  term : (s'.nodes i).currentTerm = T
  me : (s'.nodes i).me = (s.nodes i).me
  recency : (s'.nodes i).recency = (s.nodes i).recency
  round : ∃ r, ∃ round : Round n, s'.votedNums[r]? = some round ∧ round.count = 1 ∧
    ∀ j, j ≠ (s.nodes i).me → ∃ c : ℕ, s'.voteCalls[c]? = some
      { caller := i
        server := j
        round := r
        args := { term := T
                  candidateId := (s.nodes i).me.val
                  lastLogIndex := (s.nodes i).getLastLogIndex
                  lastLogTerm := (s.nodes i).getLastLogTerm } }

/-- One `doElection`. -/
theorem campaign_doElection (hlive : s.exited i = false)
    (hstatus : (s.nodes i).status ≠ .leader) :
    ∃ s', s.step (.doElection i) = some s' ∧ Campaign s i ((s.nodes i).currentTerm + 1) s' := by
  refine ⟨_, stepDoElection_eq hlive hstatus, ?_⟩
  have hnode : Function.update s.nodes i (s.nodes i).doElection.1 i =
      ({ s.nodes i with
        status := .candidate
        currentTerm := (s.nodes i).currentTerm + 1
        votedFor := (s.nodes i).me.val } : Raft n).persist :=
    (Function.update_self ..).trans (Raft.doElection_fst hstatus)
  refine ⟨rfl, fun j hj => Function.update_of_ne hj .., ?_, ?_, ?_, ?_, ?_⟩
  · exact congrArg Raft.status hnode
  · exact congrArg Raft.currentTerm hnode
  · exact (congrArg Raft.me hnode).trans rfl
  · exact (congrArg Raft.recency hnode).trans rfl
  -- the round is the new one, and its requests stand behind the old calls
  · refine ⟨s.votedNums.length, _, List.getElem?_concat_length .., rfl, fun j hj => ?_⟩
    have hmem : ({ caller := i
                   server := j
                   round := s.votedNums.length
                   args := { term := (s.nodes i).currentTerm + 1
                             candidateId := (s.nodes i).me.val
                             lastLogIndex := (s.nodes i).getLastLogIndex
                             lastLogTerm := (s.nodes i).getLastLogTerm } } :
        Call n RequestVoteArgs RequestVoteReply) ∈
        voteSends i s.votedNums.length (s.nodes i).doElection.2 := by
      rw [voteSends, Raft.doElection_snd hstatus, List.map_map]
      refine List.mem_map.mpr ⟨j, ?_, rfl⟩
      simpa [Raft.otherPeers] using hj
    obtain ⟨k, hk⟩ := List.mem_iff_getElem?.mp hmem
    refine ⟨s.voteCalls.length + k, ?_⟩
    rw [List.getElem?_append_right (Nat.le_add_right ..), Nat.add_sub_cancel_left]
    exact hk

omit [RaftArchive] in
/-- The node times out again. -/
theorem Campaign.trans {s₁ s₂ : Cluster n} {T₁ : Int} (h : Campaign s i T₁ s₁)
    (h' : Campaign s₁ i T s₂) (hlogs : (s₁.nodes i).recency = (s.nodes i).recency) :
    Campaign s i T s₂ where
  exited := h'.exited.trans h.exited
  other j hj := (h'.other j hj).trans (h.other j hj)
  status := h'.status
  term := h'.term
  me := h'.me.trans h.me
  recency := h'.recency.trans h.recency
  round := by
    obtain ⟨r, round, hround, hcount, hcalls⟩ := h'.round
    have hlast := toLex.injective hlogs
    refine ⟨r, round, hround, hcount, fun j hj => ?_⟩
    obtain ⟨c, hc⟩ := hcalls j (by rwa [h.me])
    refine ⟨c, ?_⟩
    rw [hc, h.me, (Prod.mk.inj hlast).1, (Prod.mk.inj hlast).2]

/-- The node times out until its term is high enough. -/
theorem raise_term (hi : i ∈ M) (hlive : s.exited i = false)
    (hstatus : (s.nodes i).status ≠ .leader) (d : ℕ) :
    ∃ s', Reach step (Among M) s s' ∧ Campaign s i ((s.nodes i).currentTerm + 1 + d) s' := by
  induction d with
  | zero =>
    obtain ⟨s', hs', hcampaign⟩ := campaign_doElection hlive hstatus
    refine ⟨s', Reach.refl.tail (a := .doElection i) hi hs', ?_⟩
    simpa using hcampaign
  | succ d ih =>
    obtain ⟨s₁, hr, h₁⟩ := ih
    have hstatus₁ : (s₁.nodes i).status ≠ .leader := by
      rw [h₁.status]
      decide
    obtain ⟨s', hs', h₂⟩ := campaign_doElection (s := s₁) (by rw [h₁.exited, hlive]) hstatus₁
    refine ⟨s', hr.tail (a := .doElection i) hi hs', ?_⟩
    have hterm : (s₁.nodes i).currentTerm + 1 = (s.nodes i).currentTerm + 1 + (d + 1 : ℕ) := by
      rw [h₁.term]
      omega
    rw [← hterm]
    exact h₁.trans h₂ h₁.recency

/-! ### The votes -/

/-- The vote of node `j` can be had: its term is lower and its log is not ahead, and the request is
    on its way. -/
def Available (s : Cluster n) (i : Fin n) (T : Int) (r : ℕ) (j : Fin n) : Prop :=
  j ≠ i ∧ (s.nodes j).currentTerm < T ∧
    ∃ (c : ℕ) (call : Call n RequestVoteArgs RequestVoteReply), s.voteCalls[c]? = some call ∧
      call.caller = i ∧ call.server = j ∧ call.round = r ∧ call.reply = none ∧
      call.returned = false ∧ call.args.term = T ∧
      (s.nodes j).upToDate call.args.lastLogIndex call.args.lastLogTerm = true

/-- Node `i` has `k` votes in term `T`, and can have those of `voters`. -/
structure Polling (M : Finset (Fin n)) (i : Fin n) (T : Int) (r : ℕ) (s : Cluster n)
    (voters : List (Fin n)) (k : Int) : Prop where
  live : ∀ j ∈ M, s.exited j = false
  status : (s.nodes i).status ≠ .leader
  term : (s.nodes i).currentTerm = T
  round : ∃ round : Round n, s.votedNums[r]? = some round ∧ round.count = k
  available : ∀ j ∈ voters, Available s i T r j
  voters : voters.Nodup ∧ ∀ j ∈ voters, j ∈ M

/-- A node with a lower term votes for a candidate whose log is not behind its own. -/
theorem requestVote_granted {rf : Raft n} {args : RequestVoteArgs}
    (hterm : rf.currentTerm < args.term)
    (hlog : rf.upToDate args.lastLogIndex args.lastLogTerm = true) :
    ∃ rf' reply, rf.requestVote args = .ok (rf', reply) ∧ reply.term = args.term ∧
      reply.voteGranted = true := by
  obtain ⟨rf', reply, heq, hout⟩ := Raft.requestVote_outcome rf args
  refine ⟨rf', reply, heq, ?_⟩
  cases hout with
  | stale hstale => exact absurd hstale (not_lt.mpr hterm.le)
  | refused _ hwhy =>
    rw [Raft.observe_upToDate, hlog, Raft.observe_votedFor, if_pos hterm] at hwhy
    simp at hwhy
  | granted => exact ⟨rfl, rfl⟩

omit [RaftArchive] in
/-- What another node does with the request of another call leaves a vote as it is. -/
theorem Available.setNode (h : Available s i T r j) {i' : Fin n} (hne : j ≠ i') (rf : Raft n)
    {call new : Call n RequestVoteArgs RequestVoteReply} (hc : s.voteCalls[c]? = some call)
    (hserver : call.server ≠ j) (hnodes : s'.nodes = Function.update s.nodes i' rf)
    (hcalls : s'.voteCalls = s.voteCalls.set c new) : Available s' i T r j := by
  obtain ⟨hji, hterm, c', call', hc', hcall'⟩ := h
  have hnode : s'.nodes j = s.nodes j := by rw [hnodes, Function.update_of_ne hne]
  refine ⟨hji, by rwa [hnode], c', call', ?_, by rwa [hnode]⟩
  have hcc' : c ≠ c' := by
    rintro rfl
    obtain rfl := Option.some.inj (hc.symm.trans hc')
    exact hserver hcall'.2.1
  rw [hcalls, List.getElem?_set_ne hcc', hc']

/-- A vote that is granted counts, and the majority makes a leader. -/
theorem sendRequestVoteReply_granted {rf : Raft n} (hstatus : rf.status ≠ .leader)
    {reply : RequestVoteReply} (hterm : reply.term = rf.currentTerm)
    (hgranted : reply.voteGranted = true) (k : Int) :
    rf.sendRequestVoteReply reply k = .ok
      (if (n / 2 + 1 : ℕ) ≤ k + 1 then (rf.becomeLeader.persist, 0) else (rf, k + 1)) := by
  rw [Raft.sendRequestVoteReply, if_neg (by rw [hterm]; exact lt_irrefl _),
    if_neg (by rw [hterm]; exact lt_irrefl _), myAssert, if_pos hterm, Exec.ok_bind]
  simp only [hgranted, Bool.not_true, Bool.false_eq_true, if_false, if_neg hstatus]
  split <;> rfl

/-- The step that counts a vote. -/
theorem step_sendRequestVote {call : Call n RequestVoteArgs RequestVoteReply}
    {reply : RequestVoteReply} {round : Round n} {rf : Raft n} {count : Int}
    (hc : s.voteCalls[c]? = some call) (hreply : call.reply = some reply)
    (hround : s.votedNums[call.round]? = some round) (hlive : s.exited call.caller = false)
    (hreturned : call.returned = false)
    (hres : (s.nodes call.caller).sendRequestVoteReply reply round.count = .ok (rf, count)) :
    ∃ s', s.step (.sendRequestVote c) = some s' ∧ s'.exited = s.exited ∧
      s'.nodes = Function.update s.nodes call.caller rf ∧
      s'.votedNums = s.votedNums.set call.round { round with count } ∧
      s'.voteCalls = s.voteCalls.set c { call with returned := true } := by
  refine ⟨{ s.setNode call.caller rf with
    votedNums := s.votedNums.set call.round { round with count }
    voteCalls := s.voteCalls.set c { call with returned := true }
    history := s.history ++
      if (s.nodes call.caller).status ≠ .leader ∧ rf.status = .leader then
        [.elected call.caller rf.currentTerm]
      else [] }, ?_, rfl, rfl, rfl, rfl⟩
  show s.stepSendRequestVote c = _
  simp only [stepSendRequestVote, hc, hreply, hround, hlive, hreturned, hres, Option.bind_eq_bind,
    Option.bind_some, Bool.false_eq_true, or_self, if_false]

/-- **One vote.** -/
theorem poll {voters : List (Fin n)} {k : Int} (hi : i ∈ M)
    (h : Polling M i T r s (j :: voters) k) :
    ∃ s', Reach step (Among M) s s' ∧
      ((n / 2 + 1 : ℕ) ≤ k + 1 ∧ (s'.nodes i).status = .leader ∧ (s'.nodes i).currentTerm = T ∨
        ¬ (n / 2 + 1 : ℕ) ≤ k + 1 ∧ Polling M i T r s' voters (k + 1)) := by
  obtain ⟨hj, hmem⟩ := List.forall_mem_cons.mp h.voters.2
  obtain ⟨hnot, hnodup⟩ := List.nodup_cons.mp h.voters.1
  obtain ⟨⟨hji, hlower, c, call, hc, rfl, rfl, rfl, hreply, hreturned, hterm, hlog⟩, havailable⟩ :=
    List.forall_mem_cons.mp h.available
  obtain ⟨round, hround, hcount⟩ := h.round
  obtain ⟨rf, reply, hvote, hreplyTerm, hgranted⟩ :=
    requestVote_granted (by rw [hterm]; exact hlower) hlog
  -- the vote
  obtain ⟨s₁, hs₁⟩ : ∃ s₁, s₁ = { s.setNode call.server rf with
      voteCalls := s.voteCalls.set c { call with reply := some reply, after := some rf } } :=
    ⟨_, rfl⟩
  have hstep₁ : s.step (.requestVote c) = some s₁ := by
    show s.stepRequestVote c = _
    rw [stepRequestVote, hc, Option.bind_eq_bind, Option.bind_some, if_neg, hvote, hs₁]
    rw [h.live _ hj, hreply]
    decide
  have hc₁ : s₁.voteCalls[c]? = some { call with reply := some reply, after := some rf } := by
    rw [hs₁]
    exact List.getElem?_set_self (List.getElem?_eq_some_iff.mp hc).1
  have hnode₁ : s₁.nodes call.caller = s.nodes call.caller := by
    rw [hs₁]
    exact Function.update_of_ne (Ne.symm hji) ..
  have havailable₁ : ∀ j ∈ voters, Available s₁ call.caller T call.round j := by
    intro j hj'
    have hne : j ≠ call.server := by
      rintro rfl
      exact hnot hj'
    exact (havailable j hj').setNode hne rf hc (Ne.symm hne) (by rw [hs₁]; rfl) (by rw [hs₁])
  have hguard₁ : Among M s (.requestVote c) := by
    intro call' hcall'
    obtain rfl := Option.some.inj (hc.symm.trans hcall')
    exact ⟨hi, hj⟩
  have hguard₂ : Among M s₁ (.sendRequestVote c) := by
    intro call' hcall'
    obtain rfl := Option.some.inj (hc₁.symm.trans hcall')
    exact ⟨hi, hj⟩
  -- it is counted
  have hres := sendRequestVoteReply_granted h.status
    (by rw [hreplyTerm, hterm, h.term]) hgranted round.count
  rw [hcount, ← hnode₁] at hres
  have hround₁ : s₁.votedNums[call.round]? = some round := by rw [hs₁]; exact hround
  have hlive₁ : s₁.exited = s.exited := by rw [hs₁]; rfl
  by_cases hmajority : (n / 2 + 1 : ℕ) ≤ k + 1
  · rw [if_pos hmajority] at hres
    obtain ⟨s₂, hstep₂, -, hnodes₂, -, -⟩ := step_sendRequestVote hc₁ rfl hround₁
      (by rw [hlive₁]; exact h.live _ hi) hreturned (by rw [hcount]; exact hres)
    refine ⟨s₂, (Reach.refl.tail hguard₁ hstep₁).tail hguard₂ hstep₂, .inl ⟨hmajority, ?_, ?_⟩⟩
    · rw [hnodes₂, Function.update_self]
      rfl
    · rw [hnodes₂, Function.update_self, hnode₁]
      exact h.term
  · rw [if_neg hmajority] at hres
    obtain ⟨s₂, hstep₂, hlive₂, hnodes₂, hrounds₂, hcalls₂⟩ := step_sendRequestVote hc₁ rfl hround₁
      (by rw [hlive₁]; exact h.live _ hi) hreturned (by rw [hcount]; exact hres)
    refine ⟨s₂, (Reach.refl.tail hguard₁ hstep₁).tail hguard₂ hstep₂, .inr ⟨hmajority, ?_⟩⟩
    have hnode₂ : s₂.nodes call.caller = s.nodes call.caller := by
      rw [hnodes₂, Function.update_self, hnode₁]
    refine ⟨fun j hj => ?_, ?_, ?_, ?_, fun j hj' => ?_, hnodup, hmem⟩
    · rw [hlive₂, hlive₁]
      exact h.live j hj
    · rw [hnode₂]
      exact h.status
    · rw [hnode₂]
      exact h.term
    · refine ⟨{ round with count := k + 1 }, ?_, rfl⟩
      rw [hrounds₂]
      exact List.getElem?_set_self (List.getElem?_eq_some_iff.mp hround₁).1
    · have hne : j ≠ call.server := by
        rintro rfl
        exact hnot hj'
      have hji' := (havailable j hj').1
      exact (havailable₁ j hj').setNode hji' _ hc₁ (Ne.symm hne) hnodes₂ hcalls₂

/-- **The votes that are left** make a leader, if there are enough. -/
theorem polls (hi : i ∈ M) {voters : List (Fin n)} {k : Int} (h : Polling M i T r s voters k)
    (hfew : k < (n / 2 + 1 : ℕ)) (henough : (n / 2 + 1 : ℕ) ≤ k + voters.length) :
    ∃ s', Reach step (Among M) s s' ∧ (s'.nodes i).status = .leader ∧
      (s'.nodes i).currentTerm = T := by
  induction voters generalizing s k with
  | nil =>
    simp only [List.length_nil] at henough
    omega
  | cons j voters ih =>
    obtain ⟨s₁, hr₁, hleads | ⟨hfew₁, h₁⟩⟩ := poll hi h
    · exact ⟨s₁, hr₁, hleads.2⟩
    · simp only [List.length_cons] at henough
      obtain ⟨s₂, hr₂, hleads⟩ := ih h₁ (by omega) (by omega)
      exact ⟨s₂, hr₁.trans hr₂, hleads⟩

omit [RaftArchive] in
/-- The vote of every other node of `M` can be had once the candidate's term is high enough. -/
theorem Campaign.polling {s₁ : Cluster n} (h : Campaign s i T s₁)
    (hme : (s.nodes i).me = i) (hlive : ∀ j ∈ M, s.exited j = false)
    (hmax : ∀ j ∈ M, (s.nodes j).recency ≤ (s.nodes i).recency)
    (hterm : ∀ j ∈ M, (s.nodes j).currentTerm < T) :
    ∃ r, Polling M i T r s₁ (M.erase i).toList 1 := by
  obtain ⟨r, round, hround, hcount, hcalls⟩ := h.round
  refine ⟨r, fun j hj => by rw [h.exited, hlive j hj], by rw [h.status]; decide, h.term,
    ⟨round, hround, hcount⟩, fun j hj => ?_, Finset.nodup_toList _, fun j hj => ?_⟩
  · obtain ⟨hji, hj⟩ := Finset.mem_erase.mp (Finset.mem_toList.mp hj)
    obtain ⟨c, hc⟩ := hcalls j (by rwa [hme])
    refine ⟨hji, ?_, c, _, hc, rfl, rfl, rfl, rfl, rfl, rfl, ?_⟩
    · rw [h.other j hji]
      exact hterm j hj
    · rw [h.other j hji, Raft.upToDate_iff]
      exact hmax j hj
  · exact Finset.mem_of_mem_erase (Finset.mem_toList.mp hj)

/-- **A leader can be elected.**  If a majority of the nodes of a reachable state is alive and none
    of them leads, some steps of theirs make one of them the leader of a term that is above all
    their terms. -/
theorem electable (h : Reach step anyStep (init n) s) (hn : 2 ≤ n) (hM : n / 2 + 1 ≤ M.card)
    (hlive : ∀ j ∈ M, s.exited j = false) (hnone : ∀ j ∈ M, (s.nodes j).status ≠ .leader) :
    ∃ i ∈ M, ∃ s', Reach step (Among M) s s' ∧ (s'.nodes i).status = .leader ∧
      ∀ j ∈ M, (s.nodes j).currentTerm < (s'.nodes i).currentTerm := by
  have hne : M.Nonempty := Finset.card_pos.mp (by omega)
  -- the candidate, and a term above all
  obtain ⟨i, hi, hmax⟩ := M.exists_max_image (fun j => (s.nodes j).recency) hne
  obtain ⟨k, hk, hhigh⟩ := M.exists_max_image (fun j => (s.nodes j).currentTerm) hne
  have hbelow : ∀ j ∈ M, (s.nodes j).currentTerm <
      (s.nodes i).currentTerm + 1 + ((s.nodes k).currentTerm - (s.nodes i).currentTerm).toNat := by
    intro j hj
    have hle := hhigh j hj
    have hi' := hhigh i hi
    omega
  obtain ⟨s₁, hr₁, hcampaign⟩ := raise_term hi (hlive i hi) (hnone i hi)
    ((s.nodes k).currentTerm - (s.nodes i).currentTerm).toNat
  obtain ⟨r, hpolling⟩ := hcampaign.polling ((shape_reach h).me i) hlive hmax hbelow
  have hcard : (M.erase i).toList.length = M.card - 1 := by
    rw [Finset.length_toList, Finset.card_erase_of_mem hi]
  obtain ⟨s₂, hr₂, hleads, hterm⟩ := polls hi hpolling (by omega) (by rw [hcard]; omega)
  refine ⟨i, hi, s₂, hr₁.trans hr₂, hleads, fun j hj => ?_⟩
  rw [hterm]
  exact hbelow j hj

omit [RaftArchive] in
/-- Of three nodes, two have voted for themselves in term 1. -/
theorem electable_splitVote :
    letI := textRaftArchive
    ∃ s : Cluster 3, Reach step anyStep (init 3) s ∧ (s.nodes 0).votedFor = 0 ∧
      (s.nodes 1).votedFor = 1 ∧ ∃ i ∈ ({0, 1} : Finset (Fin 3)), ∃ s',
        Reach step (Among {0, 1}) s s' ∧ (s'.nodes i).status = .leader := by
  let := textRaftArchive
  have hrun : (runFrom (step : Cluster 3 → _) anyStep (init 3) [.doElection 0, .doElection 1]).map
      (fun s => (((s.nodes 0).votedFor, (s.nodes 1).votedFor), (s.exited 0, s.exited 1),
        ((s.nodes 0).status, (s.nodes 1).status))) =
      some ((0, 1), (false, false), (.candidate, .candidate)) := by
    decide
  obtain ⟨s, hs, hstate⟩ := Reach.exists_of_runFrom hrun
  obtain ⟨hvoted, hstate⟩ := Prod.mk.inj hstate
  obtain ⟨hlive, hstatus⟩ := Prod.mk.inj hstate
  obtain ⟨hlive₀, hlive₁⟩ := Prod.mk.inj hlive
  obtain ⟨hstatus₀, hstatus₁⟩ := Prod.mk.inj hstatus
  obtain ⟨i, hi, s', hr, hleads, -⟩ := electable (M := {0, 1}) hs (by decide) (by decide)
    (by simp [hlive₀, hlive₁]) (by simp [hstatus₀, hstatus₁])
  exact ⟨s, hs, (Prod.mk.inj hvoted).1, (Prod.mk.inj hvoted).2, i, hi, s', hr, hleads⟩

end Cluster

end RaftStore
