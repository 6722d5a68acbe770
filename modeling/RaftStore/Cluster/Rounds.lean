import RaftStore.Cluster.Elections
import RaftStore.Model.Archive

namespace RaftStore

/-!
# Heartbeat rounds and the commit rule

The leader commits when a counter shared by the threads of one heartbeat reaches a majority.
The requests of a round carry different `prevLogIndex`, but all end at the last index the leader
had when it built them, and a reply that counts comes from the leader's own term, through which
its log has only grown.

* `Cluster.Rounds` — the counter of a round never exceeds its successes; each request is the one
  `doHeartBeat` built, and a node that answered it with success held its entries.
* `Cluster.rounds_reach` — it holds in every reachable state.
* `Cluster.commit_backed` — what stands behind a commit index that `sendAppendEntries` raises.
-/

namespace Raft

variable {n : ℕ}

/-- The node holds the entries of a request. -/
def Holds (rf : Raft n) (args : AppendEntriesArgs) : Prop :=
  ∀ i, args.prevLogIndex < i → i ≤ args.prevLogIndex + args.entries.length →
    rf.entryAt i = args.entries[(i - args.prevLogIndex - 1).toNat]?

/-- A node that answers with success holds the entries, and has adopted the term. -/
theorem AppendEntriesOutcome.holds [RaftArchive] {rf rf' : Raft n} {args : AppendEntriesArgs}
    {reply : AppendEntriesReply} (hwf : rf.LogWF) (hout : rf.AppendEntriesOutcome args rf' reply)
    (hsucc : reply.success = true) :
    reply.term = args.term ∧ rf'.currentTerm = args.term ∧ rf'.Holds args := by
  cases hout with
  | stale | tooShort | mismatch => cases hsucc
  | accepted hterm hsnap hlast =>
    refine ⟨rfl, accept_currentTerm hterm, fun i hlt hle => ?_⟩
    rw [persist_entryAt, hwf.entryAt_accept hsnap hlast, if_pos ⟨hlt, hle⟩]

/-- How the reply part of `sendAppendEntries` raises the commit index. -/
theorem AppendReplyOutcome.raises [RaftArchive] {rf rf' : Raft n} {server : Fin n}
    {args : AppendEntriesArgs} {reply : AppendEntriesReply} {num count : Int}
    (hout : rf.AppendReplyOutcome server args reply num rf' count)
    (hraise : rf.commitIndex < rf'.commitIndex) :
    (rf.status = .leader ∧ reply.term = rf.currentTerm ∧ reply.success = true ∧
      (1 + n / 2 : ℕ) ≤ num + 1) ∧
    (rf'.status = .leader ∧ rf'.currentTerm = rf.currentTerm ∧
      rf'.lastSnapshotIncludeIndex = rf.lastSnapshotIncludeIndex ∧
      rf'.commitIndex = args.prevLogIndex + args.entries.length) ∧
    ∃ e, args.entries.getLast? = some e ∧ e.logTerm = rf.currentTerm := by
  cases hout with
  | stepDown | ignored | backOff | counted => exact absurd hraise (lt_irrefl _)
  | majority hterm hstatus hsucc hnum =>
    rw [commitRound_commitIndex, recordMatch_commitIndex, recordMatch_currentTerm] at hraise
    split at hraise
    · rename_i hlast
      refine ⟨⟨hstatus, hterm, hsucc, hnum⟩, ⟨by simpa using hstatus, by simp, by simp, ?_⟩,
        Option.map_eq_some_iff.mp hlast⟩
      rw [commitRound_commitIndex, recordMatch_commitIndex, recordMatch_currentTerm, if_pos hlast]
      omega
    · exact absurd hraise (lt_irrefl _)

end Raft

namespace Cluster

variable {n : ℕ}

/-- A success of round `r` that has come back to the leader. -/
def succeeded (r : ℕ) (call : Call n AppendEntriesArgs AppendEntriesReply) : Bool :=
  decide (call.round = r) && call.returned && call.reply.any AppendEntriesReply.success

/-- The number of these. -/
def successes (s : Cluster n) (r : ℕ) : ℕ := s.appendCalls.countP (succeeded r)

/-- A success of round `r` belongs to round `r`. -/
theorem round_of_succeeded {r : ℕ} {call : Call n AppendEntriesArgs AppendEntriesReply}
    (h : succeeded r call = true) : call.round = r := by
  simp only [succeeded, Bool.and_eq_true, decide_eq_true_eq] at h
  exact h.1.1

/-- A request that `doHeartBeat` built in its round, and its answer. -/
structure AppendCall (s : Cluster n) (call : Call n AppendEntriesArgs AppendEntriesReply) :
    Prop where
  round : ∃ round prevTerm, s.appendNums[call.round]? = some round ∧
    round.owner = call.caller ∧ round.built.termAt call.args.prevLogIndex = some prevTerm ∧
    call.args = round.built.appendArgs call.args.prevLogIndex prevTerm
  other : call.server ≠ call.caller
  reply : ∀ reply, call.reply = some reply → reply.success = true →
    reply.term = call.args.term ∧ ∃ rf, call.after = some rf ∧
      rf.currentTerm = call.args.term ∧ rf.Holds call.args
  returned : call.returned = true → call.reply.isSome

/-- The round was started by the leader of its term, whose log has only grown since as long as
    it leads in this term. -/
structure RoundOf (s : Cluster n) (round : Round n) : Prop where
  built : round.built.IndexWF
  elected : .elected round.owner round.built.currentTerm ∈ s.history
  grown : (s.nodes round.owner).status = .leader →
    (s.nodes round.owner).currentTerm = round.built.currentTerm →
    round.built.Extends (s.nodes round.owner)

/-- The invariant behind the commit rule. -/
structure Rounds (s : Cluster n) : Prop where
  round : ∀ round ∈ s.appendNums, s.RoundOf round
  call : ∀ call ∈ s.appendCalls, s.AppendCall call
  keys : (s.appendCalls.map fun call => (call.round, call.server)).Nodup
  count : ∀ r round, s.appendNums[r]? = some round → round.count ≤ 1 + (s.successes r : Int)

/-- There is no round at the start. -/
theorem rounds_init (n : ℕ) : (init n).Rounds where
  round _ h := by cases h
  call _ h := by cases h
  keys := List.nodup_nil
  count _ _ h := by cases h

/-- Only the owners and the states of the rounds matter. -/
theorem AppendCall.congr {s s' : Cluster n} {call : Call n AppendEntriesArgs AppendEntriesReply}
    (h : s.AppendCall call)
    (hrounds : ∀ {r : ℕ} {round : Round n}, s.appendNums[r]? = some round →
      ∃ round' : Round n, s'.appendNums[r]? = some round' ∧ round'.owner = round.owner ∧
        round'.built = round.built) : s'.AppendCall call := by
  obtain ⟨round, prevTerm, hr, howner, hterm, hargs⟩ := h.round
  obtain ⟨round', hr', howner', hbuilt⟩ := hrounds hr
  exact { h with round := ⟨round', prevTerm, hr', howner'.trans howner, hbuilt ▸ hterm,
                           hbuilt ▸ hargs⟩ }

section steps

variable [RaftArchive] {s s' : Cluster n} {a : Step n}

/-- A round keeps its meaning through a step. -/
theorem RoundOf.step (hshape : s.Shape) (hel : s.Elections) {round : Round n}
    (h : s.RoundOf round) (hc : Change s a s') : s'.RoundOf round := by
  refine { built := h.built, elected := hc.history_mono h.elected, grown := fun hlead hterm => ?_ }
  obtain ⟨hstatus, hcur⟩ := hc.leads hel hlead (hterm ▸ h.elected)
  have hext := h.grown hstatus (hcur ▸ hterm)
  rcases hc.moves hshape round.owner with heq | hm
  · rwa [heq]
  · exact hext.trans (hm.extends (hshape.node _) hlead)

/-! ### `doHeartBeat` -/

omit [RaftArchive] in
/-- A heartbeat asks each of the peers it serves once. -/
theorem appendSends_servers (i : Fin n) (r : ℕ) (calls : List (Fin n × Raft.HeartBeat)) :
    ((appendSends i r calls).map fun call => (call.round, call.server)).Sublist
      (calls.map fun p => (r, p.1)) := by
  induction calls with
  | nil => exact .slnil
  | cons p calls ih =>
    obtain ⟨j, hb⟩ := p
    cases hb with
    | snapshot => exact ih.cons _
    | append args => exact ih.cons_cons _

/-- A new round starts with the leader alone. -/
theorem Rounds.doHeartBeat (h : s.Rounds) (hshape : s.Shape) (hel : s.Elections)
    {i : Fin n} {calls : List (Fin n × Raft.HeartBeat)} (hc : Change s a s')
    (hstatus : (s.nodes i).status = .leader) (hpeers : calls.map Prod.fst = (s.nodes i).otherPeers)
    (hout : ∀ c ∈ calls, (s.nodes i).HeartBeatOutcome c.1 c.2)
    (hnodes : s'.nodes = s.nodes) (hhistory : s'.history = s.history)
    (hrounds : s'.appendNums = s.appendNums ++ [{ count := 1, owner := i, built := s.nodes i }])
    (hcalls : s'.appendCalls = s.appendCalls ++ appendSends i s.appendNums.length calls) :
    s'.Rounds := by
  have hme := hshape.me i
  -- the calls that are new: one for each other peer, not yet answered
  have hnew : ∀ call ∈ appendSends i s.appendNums.length calls,
      call.returned = false ∧ call.round = s.appendNums.length ∧ s'.AppendCall call := by
    intro call hcall
    obtain ⟨j, prevTerm, hj, _, hterm, rfl⟩ := mem_appendSends hpeers hout hcall
    refine ⟨rfl, rfl, { round := ?_, other := hme ▸ hj, reply := ?_, returned := ?_ }⟩
    · exact ⟨_, prevTerm, by rw [hrounds]; exact List.getElem?_concat_length, rfl, hterm, rfl⟩
    · exact fun _ hreply => by cases hreply
    · exact fun hret => by cases hret
  have htally : ∀ r, s'.successes r = s.successes r := by
    intro r
    rw [successes, successes, hcalls, List.countP_append, Nat.add_eq_left, List.countP_eq_zero]
    intro call hcall
    simp [succeeded, (hnew call hcall).1]
  refine { round := ?_, call := ?_, keys := ?_, count := ?_ }
  · intro round hmem
    rw [hrounds] at hmem
    rcases List.mem_append.mp hmem with hmem | hmem
    · exact (h.round round hmem).step hshape hel hc
    · -- the new round is built by a node that leads
      obtain rfl := List.mem_singleton.mp hmem
      refine { built := hshape.node i, elected := ?_, grown := fun _ _ => ?_ }
      · rw [hhistory]
        exact hel.leads i hstatus
      · rw [hnodes]
        exact .refl _
  · intro call hmem
    rw [hcalls] at hmem
    rcases List.mem_append.mp hmem with hmem | hmem
    · refine (h.call call hmem).congr fun {r round} hr => ⟨round, ?_, rfl, rfl⟩
      rw [hrounds, getElem?_append_round hr]
    · exact (hnew call hmem).2.2
  · -- each new call belongs to the round that was not there
    rw [hcalls]
    refine nodup_keys_append h.keys ?_ (fun call hmem => ?_) fun call hmem => (hnew call hmem).2.1
    · refine List.Nodup.sublist (appendSends_servers i _ calls) ?_
      have hmap : (calls.map fun p => (s.appendNums.length, p.1)) =
          (calls.map Prod.fst).map fun j => (s.appendNums.length, j) := by
        rw [List.map_map]
        rfl
      rw [hmap, hpeers]
      exact List.Nodup.map (fun _ _ heq => (Prod.mk.inj heq).2) ((List.nodup_finRange n).filter _)
    · obtain ⟨round, _, hr, _⟩ := (h.call call hmem).round
      exact (List.getElem?_eq_some_iff.mp hr).1.ne
  · intro r round hr
    rw [htally]
    rw [hrounds] at hr
    rcases getElem?_concat_cases hr with hr | ⟨rfl, rfl⟩
    · exact h.count r round hr
    · dsimp only
      omega

/-! ### `AppendEntries1` -/

/-- An answer counts for nothing before it is back. -/
theorem Rounds.appendEntries1 (h : s.Rounds) (hshape : s.Shape) (hel : s.Elections) {c : ℕ}
    {call : Call n AppendEntriesArgs AppendEntriesReply} {rf : Raft n}
    {reply : AppendEntriesReply} (hc : Change s a s') (hcall : s.appendCalls[c]? = some call)
    (hreply : call.reply = none)
    (hout : (s.nodes call.server).AppendEntriesOutcome call.args rf reply)
    (hrounds : s'.appendNums = s.appendNums)
    (hcalls : s'.appendCalls =
      s.appendCalls.set c { call with reply := some reply, after := some rf }) : s'.Rounds := by
  have hold := h.call call (List.mem_of_getElem? hcall)
  have hret : call.returned = false := by
    by_contra hret
    have := hold.returned (by simpa using hret)
    rw [hreply] at this
    cases this
  have htally : ∀ r, s'.successes r = s.successes r := by
    intro r
    have hset := countP_set_eq (succeeded r) hcall
      { call with reply := some reply, after := some rf }
    rw [successes, successes, hcalls]
    simpa [succeeded, hret] using hset
  have hkeep : ∀ {r : ℕ} {round : Round n}, s.appendNums[r]? = some round →
      ∃ round' : Round n, s'.appendNums[r]? = some round' ∧ round'.owner = round.owner ∧
        round'.built = round.built := fun hr => ⟨_, by rw [hrounds, hr], rfl, rfl⟩
  refine { round := ?_, call := ?_, keys := ?_, count := ?_ }
  · intro round hmem
    rw [hrounds] at hmem
    exact (h.round round hmem).step hshape hel hc
  · intro call' hmem
    rw [hcalls] at hmem
    rcases List.mem_or_eq_of_mem_set hmem with hmem | rfl
    · exact (h.call call' hmem).congr hkeep
    · refine { hold.congr hkeep with reply := ?_, returned := fun _ => rfl }
      intro reply' heq hsucc
      cases heq
      -- who answers with success holds what was sent
      obtain ⟨hterm, hcur, hholds⟩ := hout.holds (hshape.node _).toLogWF hsucc
      exact ⟨hterm, rf, rfl, hcur, hholds⟩
  · rw [hcalls, map_set_of_eq (fun call => (call.round, call.server)) hcall
      { call with reply := some reply, after := some rf } rfl]
    exact h.keys
  · intro r round hr
    rw [hrounds] at hr
    rw [htally]
    exact h.count r round hr

/-! ### The reply part of `sendAppendEntries` -/

/-- What the reply part of `sendAppendEntries` does to a counter that `t` returned successes
    back. -/
theorem count_sendAppendEntries {rf rf' : Raft n} {server : Fin n} {args : AppendEntriesArgs}
    {reply : AppendEntriesReply} {num count t t' : Int}
    (hout : rf.AppendReplyOutcome server args reply num rf' count) (hnum : num ≤ 1 + t) (h₀ : 0 ≤ t)
    (ht : t' = t + if reply.success then 1 else 0) : count ≤ 1 + t' := by
  cases hout with
  | stepDown | ignored | backOff => split at ht <;> omega
  | counted _ _ hsucc | majority _ _ hsucc =>
    rw [if_pos hsucc] at ht
    omega

omit [RaftArchive] in
/-- The successes of each round after a reply has come back. -/
theorem successes_sendAppendEntries {c : ℕ} {call : Call n AppendEntriesArgs AppendEntriesReply}
    {reply : AppendEntriesReply} (hcall : s.appendCalls[c]? = some call)
    (hreply : call.reply = some reply) (hret : call.returned = false)
    (hcalls : s'.appendCalls = s.appendCalls.set c { call with returned := true }) (r : ℕ) :
    (s'.successes r : Int) = s.successes r + if call.round = r ∧ reply.success then 1 else 0 := by
  have hold : succeeded r call = false := by simp [succeeded, hret]
  have hnew : succeeded r { call with returned := true } =
      decide (call.round = r ∧ reply.success = true) := by simp [succeeded, hreply]
  rw [successes, hcalls]
  exact countP_set_add hcall hold hnew

/-- A reply counts for its own round. -/
theorem Rounds.sendAppendEntries (h : s.Rounds) (hshape : s.Shape) (hel : s.Elections) {c : ℕ}
    {call : Call n AppendEntriesArgs AppendEntriesReply} {reply : AppendEntriesReply}
    {round : Round n} {rf : Raft n} {count : Int} (hc : Change s a s')
    (hcall : s.appendCalls[c]? = some call) (hreply : call.reply = some reply)
    (hround : s.appendNums[call.round]? = some round) (hret : call.returned = false)
    (hout : (s.nodes call.caller).AppendReplyOutcome call.server call.args reply round.count
      rf count)
    (hrounds : s'.appendNums = s.appendNums.set call.round { round with count })
    (hcalls : s'.appendCalls = s.appendCalls.set c { call with returned := true }) :
    s'.Rounds := by
  have hold := h.call call (List.mem_of_getElem? hcall)
  have htally := successes_sendAppendEntries hcall hreply hret hcalls
  have hkeep : ∀ {r : ℕ} {rd : Round n}, s.appendNums[r]? = some rd →
      ∃ rd' : Round n, s'.appendNums[r]? = some rd' ∧ rd'.owner = rd.owner ∧
        rd'.built = rd.built := by
    intro r rd hr
    rw [hrounds]
    rcases getElem?_set_split hround hr { round with count } with ⟨_, rfl, hset⟩ | hset
    · exact ⟨_, hset, rfl, rfl⟩
    · exact ⟨rd, hset, rfl, rfl⟩
  refine { round := ?_, call := ?_, keys := ?_, count := ?_ }
  · intro rd hmem
    rw [hrounds] at hmem
    rcases List.mem_or_eq_of_mem_set hmem with hmem | rfl
    · exact (h.round rd hmem).step hshape hel hc
    · have hrd := (h.round round (List.mem_of_getElem? hround)).step hshape hel hc
      exact { built := hrd.built, elected := hrd.elected, grown := hrd.grown }
  · intro call' hmem
    rw [hcalls] at hmem
    rcases List.mem_or_eq_of_mem_set hmem with hmem | rfl
    · exact (h.call call' hmem).congr hkeep
    · exact { hold.congr hkeep with returned := fun _ => by rw [hreply]; rfl }
  · rw [hcalls, map_set_of_eq (fun call => (call.round, call.server)) hcall
      { call with returned := true } rfl]
    exact h.keys
  · intro r rd hr
    rw [hrounds] at hr
    rcases getElem?_set_cases hr with ⟨rfl, rfl⟩ | ⟨hne, hr⟩
    · -- a counter goes up by at most the success that came back
      have hself := htally call.round
      simp only [true_and] at hself
      exact count_sendAppendEntries hout (h.count _ _ hround) (by omega) hself
    · have := h.count r rd hr
      have hother := htally r
      rw [if_neg (by tauto)] at hother
      omega

/-! ### Every run -/

/-- A step keeps the invariant of the rounds. -/
theorem Change.rounds (hshape : s.Shape) (hel : s.Elections) (h : s.Rounds)
    (hc : Change s a s') : s'.Rounds := by
  have hstep := hc
  have hquiet : s'.appendNums = s.appendNums → s'.appendCalls = s.appendCalls → s'.Rounds := by
    intro hrounds hcalls
    have htally : ∀ r, s'.successes r = s.successes r := fun r => by
      rw [successes, successes, hcalls]
    refine { round := ?_, call := ?_, keys := by rw [hcalls]; exact h.keys, count := ?_ }
    · rw [hrounds]
      exact fun round hmem => (h.round round hmem).step hshape hel hstep
    · rw [hcalls]
      exact fun call hmem => (h.call call hmem).congr fun hr => ⟨_, by rw [hrounds, hr], rfl, rfl⟩
    · intro r round hr
      rw [hrounds] at hr
      rw [htally]
      exact h.count r round hr
  cases hc with
  | doHeartBeat hstatus hpeers hout =>
    exact h.doHeartBeat hshape hel hstep hstatus hpeers hout rfl rfl rfl rfl
  | appendEntries1 hcall hreply hout =>
    exact h.appendEntries1 hshape hel hstep hcall hreply hout rfl rfl
  | sendAppendEntries hcall hreply hround hret hout =>
    exact h.sendAppendEntries hshape hel hstep hcall hreply hround hret hout rfl rfl
  | _ => exact hquiet rfl rfl

/-- **The invariant of the rounds holds in every reachable state.** -/
theorem rounds_reach {ok : Cluster n → Step n → Prop} (h : Reach step ok (init n) s) : s.Rounds :=
  h.invariant (rounds_init n) fun _ _ _ hr hs _ hstep =>
    (reach_change hr hstep).rounds (shape_reach hr) (elections_reach hr) hs

end steps

/-! ### Commit -/

section commit

variable {s s' : Cluster n}

/-- The peers whose successes of round `r` came back, with the leader, once they are half of
    the peers. -/
theorem Rounds.majority (h : s.Rounds) {r : ℕ} {round : Round n}
    (hr : s.appendNums[r]? = some round) (hhalf : n / 2 ≤ s.successes r) :
    ∃ Q : Finset (Fin n), Majority Q ∧ round.owner ∈ Q ∧ ∀ j ∈ Q, j ≠ round.owner →
      ∃ call ∈ s.appendCalls, succeeded r call = true ∧ call.server = j := by
  have hother : ∀ b ∈ s.appendCalls, succeeded r b = true → b.server ≠ round.owner := by
    intro b hb hsucc
    obtain ⟨round', _, hr', howner, _⟩ := (h.call b hb).round
    rw [round_of_succeeded hsucc, hr, Option.some.injEq] at hr'
    rw [hr', howner]
    exact (h.call b hb).other
  obtain ⟨Q, hmaj, howner, hQ⟩ := exists_majority h.keys
    (fun _ _ hb => round_of_succeeded hb) hother (by rwa [Fintype.card_fin])
  exact ⟨Q, hmaj, howner, fun j hj hne => (hQ j hj).resolve_left hne⟩

/-- Node `j` answered a request of round `r` with success, and held then, from that request's
    `prevLogIndex` up to `N`, the entries of `built` and with them those that the leader, now in
    state `rf`, has above its snapshot point. -/
def Answered (s : Cluster n) (r : ℕ) (built rf : Raft n) (N : Int) (j : Fin n) : Prop :=
  ∃ call ∈ s.appendCalls, call.round = r ∧ call.server = j ∧
    call.reply.any AppendEntriesReply.success = true ∧ ∃ held, call.after = some held ∧
      ∀ i, call.args.prevLogIndex < i → i ≤ N →
        (∃ e, held.entryAt i = some e ∧ built.entryAt i = some e) ∧
          (rf.lastSnapshotIncludeIndex < i → held.entryAt i = rf.entryAt i)

/-- A node whose success came back held the leader's entries up to the end of the round. -/
theorem Rounds.answered (h : s.Rounds) {r : ℕ} {round : Round n}
    (hr : s.appendNums[r]? = some round) {rf : Raft n} (hext : round.built.Extends rf)
    {call : Call n AppendEntriesArgs AppendEntriesReply} (hcall : call ∈ s.appendCalls)
    (hsucc : succeeded r call = true) :
    s.Answered r round.built rf round.built.getLastLogIndex call.server := by
  have hc := h.call call hcall
  have hbuilt := (h.round round (List.mem_of_getElem? hr)).built
  obtain ⟨round', prevTerm, hr', _, hterm, hargs⟩ := hc.round
  rw [round_of_succeeded hsucc, hr, Option.some.injEq] at hr'
  subst hr'
  obtain ⟨hsnap, _⟩ := hbuilt.toLogWF.termAt_isSome.mp (by rw [hterm]; rfl)
  have hend := (hbuilt.appendArgs hterm).2
  rw [← hargs] at hend
  have hsucc' := hsucc
  simp only [succeeded, Bool.and_eq_true] at hsucc'
  obtain ⟨reply, hreply, hok⟩ := (Option.any_eq_true _ _).mp hsucc'.2
  obtain ⟨_, held, hafter, _, hholds⟩ := hc.reply reply hreply hok
  refine ⟨call, hcall, round_of_succeeded hsucc, rfl, hsucc'.2, held, hafter, fun i hlt hle => ?_⟩
  have hheld : held.entryAt i = round.built.entryAt i := by
    rw [hholds i hlt (by omega), hargs]
    exact Raft.getElem?_appendArgs prevTerm hsnap hlt
  obtain ⟨e, he⟩ := hbuilt.toLogWF.exists_entryAt (hsnap.trans_lt hlt) hle
  exact ⟨⟨e, hheld.trans he, he⟩, fun hi => by rw [hheld, hext.entryAt i hi hle]⟩

/-- What stands behind the commit index `N` of leader `i` after its handling of round `r`. -/
def Backed (s s' : Cluster n) (i : Fin n) (r : ℕ) : Prop :=
  (s.nodes i).status = .leader ∧ (s.nodes i).currentTerm = (s'.nodes i).currentTerm ∧
    (∃ e, (s'.nodes i).entryAt (s'.nodes i).commitIndex = some e ∧
      e.logTerm = (s'.nodes i).currentTerm) ∧
    ∃ round, s.appendNums[r]? = some round ∧ round.owner = i ∧
      ∃ Q : Finset (Fin n), Majority Q ∧ i ∈ Q ∧ ∀ j ∈ Q, j ≠ i →
        s'.Answered r round.built (s'.nodes i) (s'.nodes i).commitIndex j

/-- Whoever raises the commit index has a majority that holds the entries. -/
theorem Rounds.backed [RaftArchive] (h : s.Rounds) (h' : s'.Rounds) (hshape : s.Shape) {c : ℕ}
    {call : Call n AppendEntriesArgs AppendEntriesReply} {reply : AppendEntriesReply}
    {round : Round n} {rf : Raft n} {count : Int} (hcall : s.appendCalls[c]? = some call)
    (hreply : call.reply = some reply) (hround : s.appendNums[call.round]? = some round)
    (hret : call.returned = false)
    (hout : (s.nodes call.caller).AppendReplyOutcome call.server call.args reply round.count
      rf count)
    (hself : s'.nodes call.caller = rf)
    (hrounds : s'.appendNums = s.appendNums.set call.round { round with count })
    (hcalls : s'.appendCalls = s.appendCalls.set c { call with returned := true })
    (hraise : (s.nodes call.caller).commitIndex < rf.commitIndex) :
    Backed s s' call.caller call.round := by
  obtain ⟨⟨hstatus, hterm, hsucc, hnum⟩, ⟨hstatus', hcur, hsame, hcommit⟩, e, hlast, he⟩ :=
    hout.raises hraise
  have hold := h.call call (List.mem_of_getElem? hcall)
  obtain ⟨rd, prevTerm, hr, howner, hprev, hargs⟩ := hold.round
  rw [hround, Option.some.injEq] at hr
  subst hr
  have hbuilt := (h.round round (List.mem_of_getElem? hround)).built
  have hset : s'.appendNums[call.round]? = some { round with count } := by
    rw [hrounds, List.getElem?_set_self (List.getElem?_eq_some_iff.mp hround).1]
  -- the reply is of the term in which the leader built the round, and its log has only grown
  have hasked : rf.currentTerm = round.built.currentTerm := by
    rw [hcur, ← hterm, (hold.reply reply hreply hsucc).1, hargs]
    rfl
  have hext : round.built.Extends rf := by
    have hgrown := (h'.round _ (List.mem_of_getElem? hset)).grown
    rw [howner, hself] at hgrown
    exact hgrown hstatus' hasked
  have hend : call.args.prevLogIndex + call.args.entries.length = round.built.getLastLogIndex := by
    have := (hbuilt.appendArgs hprev).2
    rwa [← hargs] at this
  have hsnap : rf.lastSnapshotIncludeIndex < rf.commitIndex := by
    have hnode := hshape.node call.caller
    have := hnode.applied.trans hnode.committed
    omega
  rw [Backed, hself]
  refine ⟨hstatus, hcur.symm, ⟨e, ?_, he.trans hcur.symm⟩, round, hround, howner, ?_⟩
  · have hpos : call.args.entries.length ≠ 0 := by
      intro h0
      rw [List.length_eq_zero_iff.mp h0] at hlast
      cases hlast
    obtain ⟨hbelow, _⟩ := hbuilt.toLogWF.termAt_isSome.mp (by rw [hprev]; rfl)
    rw [hext.entryAt _ hsnap (by omega), ← Raft.getElem?_appendArgs prevTerm hbelow (by omega),
      ← hargs, ← hlast, List.getLast?_eq_getElem?]
    congr 1
    omega
  · have htally := successes_sendAppendEntries hcall hreply hret hcalls call.round
    rw [if_pos ⟨rfl, hsucc⟩] at htally
    have hcount := h.count _ _ hround
    obtain ⟨Q, hmaj, hmem, hQ⟩ := h'.majority hset (by omega)
    refine ⟨Q, hmaj, howner ▸ hmem, fun j hj hne => ?_⟩
    obtain ⟨call', hcall', hsucc', rfl⟩ := hQ j hj (howner ▸ hne)
    rw [hcommit, hend]
    exact h'.answered hset hext hcall' hsucc'

/-- **Quorum-backed commit.**  When the reply part of `sendAppendEntries` raises the commit
    index of a leader, the entry there is of the leader's term, and a majority with the leader
    held its entries up to there when they answered that round. -/
theorem commit_backed [RaftArchive] (h : Reach step anyStep (init n) s) {c : ℕ}
    {call : Call n AppendEntriesArgs AppendEntriesReply} (hcall : s.appendCalls[c]? = some call)
    (hs : s.step (.sendAppendEntries c) = some s')
    (hraise : (s.nodes call.caller).commitIndex < (s'.nodes call.caller).commitIndex) :
    Backed s s' call.caller call.round := by
  have hshape := shape_reach h
  have hrounds := rounds_reach h
  have hc := reach_change h hs
  have hrounds' := hc.rounds hshape (elections_reach h) hrounds
  cases hc with
  | idle | exit => exact absurd hraise (lt_irrefl _)
  | @sendAppendEntries _ call' reply round rf count hcall' hreply hround hret hout =>
    obtain rfl : call = call' := Option.some.inj (hcall.symm.trans hcall')
    rw [setNode_nodes, Function.update_self] at hraise
    exact hrounds.backed hrounds' hshape hcall hreply hround hret hout (Function.update_self ..)
      rfl rfl hraise

/-- Node 0 commits its first command on the answer of one of two peers. -/
theorem commit_backed_firstCommand :
    letI := textRaftArchive
    ∃ s s' : Cluster 3, Reach step anyStep (init 3) s ∧
      s.step (.sendAppendEntries 0) = some s' ∧ (s'.nodes 0).commitIndex = 1 ∧
      Backed s s' 0 0 := by
  let := textRaftArchive
  have hrun : (runFrom (step : Cluster 3 → _) anyStep (init 3)
      [.doElection 0, .requestVote 0, .sendRequestVote 0, .start 0 "x", .doHeartBeat 0,
        .appendEntries1 0]).bind (fun s => (s.step (.sendAppendEntries 0)).map fun s' =>
          ((s.appendCalls[0]?).map fun call => (call.caller, call.round),
            (s.nodes 0).commitIndex, (s'.nodes 0).commitIndex)) = some (some (0, 0), 0, 1) := by
    decide
  obtain ⟨s, hs, hrun⟩ := Option.bind_eq_some_iff.mp hrun
  obtain ⟨s', hs', hshow⟩ := Option.map_eq_some_iff.mp hrun
  obtain ⟨hfirst, hbefore, hafter⟩ : _ ∧ _ ∧ _ := by simpa only [Prod.mk.injEq] using hshow
  obtain ⟨call, hcall, hwho⟩ := Option.map_eq_some_iff.mp hfirst
  obtain ⟨hcaller, hround⟩ : _ ∧ _ := by simpa only [Prod.mk.injEq] using hwho
  have hraise : (s.nodes call.caller).commitIndex < (s'.nodes call.caller).commitIndex := by
    rw [hcaller, hbefore, hafter]
    decide
  have hbacked := commit_backed (.of_runFrom hs) hcall hs' hraise
  rw [hcaller, hround] at hbacked
  exact ⟨s, s', .of_runFrom hs, hs', hafter, hbacked⟩

end commit

end Cluster

end RaftStore
