import RaftStore.Cluster.Leadership
import RaftStore.Node.Timeouts
import RaftStore.Model.TimedCluster

namespace RaftStore

/-!
# Heartbeats keep the leader

A settled leader stays until another node stands, and here no other node does: each heartbeat opens
a request to every other node, its delivery resets the timer there, and the next heartbeat follows
before that timer is over.

* `Cluster.AppendOpen`, `Cluster.SnapOpen` — a request that its receiver has not answered yet.
* `TimedCluster.Change` — the steps.
* `Sound` — what every orderly run keeps: no election ticker is early, no heartbeat ticker late.
* `Heard`, `Steady` — how the others have heard of the leader, or will.
* `heartbeats_keep_leader` — for every run in which the leader is woken and answered in time.
-/

namespace Cluster

variable {n : ℕ} {s s' : Cluster n} {i j : Fin n} {T : Int} {c : ℕ}

/-! ### Requests without an answer -/

/-- Node `j` has not answered request `c` for entries, which node `i` sent in term `T`. -/
def AppendOpen (s : Cluster n) (i j : Fin n) (T : Int) (c : ℕ) : Prop :=
  ∃ call, s.appendCalls[c]? = some call ∧ call.caller = i ∧ call.server = j ∧
    call.reply = none ∧ call.args.term = T

/-- Node `j` has not answered snapshot call `c`, which node `i` started in term `T`. -/
def SnapOpen (s : Cluster n) (i j : Fin n) (T : Int) (c : ℕ) : Prop :=
  ∃ call, s.snapCalls[c]? = some call ∧ call.caller = i ∧ call.server = j ∧
    call.reply = none ∧ ∀ args, call.args = some args → args.term = T

/-- What was there stays at its position. -/
theorem getElem?_append_of_some {α : Type} {l l' : List α} {x : α} (h : l[c]? = some x) :
    (l ++ l')[c]? = some x := by
  rw [List.getElem?_append_left (List.getElem?_eq_some_iff.mp h).1, h]

section steps

variable [RaftArchive] {a : Step n}

omit [RaftArchive] in
/-- Only `doHeartBeat` assigns `m_lastResetHearBeatTime`. -/
theorem eq_doHeartBeat (h : s.heartBeatReset a = some i) : a = .doHeartBeat i := by
  cases a with
  | doHeartBeat k =>
    rw [heartBeatReset] at h
    split at h
    · rw [Option.some.inj h]
    · cases h
  | _ => cases h

/-- A request stays open until its delivery resets the election timer. -/
theorem Change.appendOpen (hset : s.Settled i T) (hc : Change s a s') (h : s.AppendOpen i j T c) :
    s'.AppendOpen i j T c ∨ s.electionReset a = some j := by
  obtain ⟨call, hcall, hcaller, hserver, hreply, hterm⟩ := h
  have hkeep : ∀ {c' : ℕ} {call' : Call n AppendEntriesArgs AppendEntriesReply}, c' ≠ c →
      (s.appendCalls.set c' call')[c]? = some call := fun hne => by
    rw [List.getElem?_set_ne hne, hcall]
  cases hc with
  | doHeartBeat =>
    exact .inl ⟨call, getElem?_append_of_some hcall, hcaller, hserver, hreply, hterm⟩
  | @appendEntries1 c' call' rf reply hcall' =>
    by_cases heq : c' = c
    · subst heq
      obtain rfl := Option.some.inj (hcall'.symm.trans hcall)
      right
      rw [electionReset, hcall']
      -- it is not refused, since no term is higher
      show (if call'.args.term < (s.nodes call'.server).currentTerm then none
        else some call'.server) = some j
      rw [if_neg (not_lt.mpr (hterm ▸ hset.highest _)), hserver]
    · exact .inl ⟨call, hkeep heq, hcaller, hserver, hreply, hterm⟩
  | @sendAppendEntries c' call' reply round rf count hcall' hreply' =>
    -- what returns has been answered
    have hne : c' ≠ c := by
      rintro rfl
      obtain rfl := Option.some.inj (hcall'.symm.trans hcall)
      rw [hreply] at hreply'
      cases hreply'
    exact .inl ⟨call, hkeep hne, hcaller, hserver, hreply, hterm⟩
  | _ => exact .inl ⟨call, hcall, hcaller, hserver, hreply, hterm⟩

/-- A snapshot call stays open until the step in which it resets its receiver's timer. -/
theorem Change.snapOpen (hset : s.Settled i T) (hc : Change s a s') (h : s.SnapOpen i j T c) :
    s'.SnapOpen i j T c ∨ s.electionReset a = some j := by
  obtain ⟨call, hcall, hcaller, hserver, hreply, hterm⟩ := h
  have hkeep : ∀ {c' : ℕ} {call' : Call n (Option InstallSnapshotRequest) InstallSnapshotResponse},
      c' ≠ c → (s.snapCalls.set c' call')[c]? = some call := fun hne => by
    rw [List.getElem?_set_ne hne, hcall]
  cases hc with
  | doHeartBeat =>
    exact .inl ⟨call, getElem?_append_of_some hcall, hcaller, hserver, hreply, hterm⟩
  | @leaderSendSnapShot c' call' hcall' hargs' =>
    left
    by_cases heq : c' = c
    · subst heq
      obtain rfl := Option.some.inj (hcall'.symm.trans hcall)
      refine ⟨_, List.getElem?_set_self (List.getElem?_eq_some_iff.mp hcall).1, hcaller, hserver,
        hreply, fun args hargs => ?_⟩
      -- the request has the term of its sender
      obtain rfl := Option.some.inj hargs
      rw [← hset.term, ← hcaller]
      rfl
    · exact ⟨call, hkeep heq, hcaller, hserver, hreply, hterm⟩
  | @installSnapshot c' call' args rf reply msg hcall' hargs' =>
    by_cases heq : c' = c
    · subst heq
      obtain rfl := Option.some.inj (hcall'.symm.trans hcall)
      right
      rw [electionReset, hcall']
      show (call'.args.bind fun args => if args.term < (s.nodes call'.server).currentTerm then none
        else some call'.server) = some j
      rw [hargs', Option.bind_some, if_neg (not_lt.mpr (hterm args hargs' ▸ hset.highest _)),
        hserver]
    · exact .inl ⟨call, hkeep heq, hcaller, hserver, hreply, hterm⟩
  | @leaderSendSnapShotReply c' call' args reply rf hcall' hargs' hreply' =>
    have hne : c' ≠ c := by
      rintro rfl
      obtain rfl := Option.some.inj (hcall'.symm.trans hcall)
      rw [hreply] at hreply'
      cases hreply'
    exact .inl ⟨call, hkeep hne, hcaller, hserver, hreply, hterm⟩
  | _ => exact .inl ⟨call, hcall, hcaller, hserver, hreply, hterm⟩

/-- A heartbeat opens a request to each other node. -/
theorem exists_open (hshape : s.Shape) (hset : s.Settled i T)
    (hs : s.step (.doHeartBeat i) = some s') (hj : j ≠ i) :
    (∃ c, s.appendCalls.length ≤ c ∧ s'.AppendOpen i j T c) ∨
      ∃ c, s.snapCalls.length ≤ c ∧ s'.SnapOpen i j T c := by
  obtain ⟨calls, hok, hpeers, hout⟩ := (hshape.node i).toLogWF.doHeartBeat_outcome hset.leads
    fun k _ => ⟨(hshape.leader i hset.leads k).1, (hshape.leader i hset.leads k).2.1⟩
  change s.stepDoHeartBeat i = some s' at hs
  rw [stepDoHeartBeat, if_neg (by rw [hset.live]; decide), if_neg (not_not.mpr hset.leads),
    hok] at hs
  obtain rfl := Option.some.inj hs
  -- `doHeartBeat` addresses every other peer, with a snapshot or with entries
  have hmem : j ∈ calls.map Prod.fst := by
    rw [hpeers]
    simpa [Raft.otherPeers, hshape.me] using hj
  obtain ⟨⟨j', hb⟩, hcall, rfl⟩ := List.mem_map.mp hmem
  cases hb with
  | snapshot =>
    have hsend : ({ caller := i, server := j', round := 0, args := none } :
        Call n (Option InstallSnapshotRequest) InstallSnapshotResponse) ∈ snapshotSends i calls :=
      List.mem_filterMap.mpr ⟨_, hcall, rfl⟩
    obtain ⟨k, hk⟩ := List.mem_iff_getElem?.mp hsend
    have hopen : (s.snapCalls ++ snapshotSends i calls)[s.snapCalls.length + k]? =
        some { caller := i, server := j', round := 0, args := none } := by
      rw [List.getElem?_append_right (Nat.le_add_right ..), Nat.add_sub_cancel_left, hk]
    refine .inr ⟨s.snapCalls.length + k, Nat.le_add_right .., _, hopen, rfl, rfl, rfl, ?_⟩
    intro args hargs
    cases hargs
  | append args =>
    have hsend : ({ caller := i, server := j', round := s.appendNums.length, args } :
        Call n AppendEntriesArgs AppendEntriesReply) ∈ appendSends i s.appendNums.length calls :=
      List.mem_filterMap.mpr ⟨_, hcall, rfl⟩
    obtain ⟨k, hk⟩ := List.mem_iff_getElem?.mp hsend
    have hopen : (s.appendCalls ++
        appendSends i s.appendNums.length calls)[s.appendCalls.length + k]? =
        some { caller := i, server := j', round := s.appendNums.length, args } := by
      rw [List.getElem?_append_right (Nat.le_add_right ..), Nat.add_sub_cancel_left, hk]
    have hterm : args.term = (s.nodes i).currentTerm := by
      have ho : (s.nodes i).HeartBeatOutcome j' (.append args) := hout _ hcall
      cases ho
      rfl
    exact .inl ⟨s.appendCalls.length + k, Nat.le_add_right .., _, hopen, rfl, rfl, rfl,
      hterm.trans hset.term⟩

/-- Who runs now ran before. -/
theorem Change.exited_of (hc : Change s a s') (h : s'.exited j = false) : s.exited j = false := by
  cases hc with
  | @exit a k =>
    have h : Function.update s.exited k true j = false := h
    by_cases hjk : j = k
    · subst hjk
      rw [Function.update_self] at h
      cases h
    · rwa [Function.update_of_ne hjk] at h
  | _ => exact h

/-- Calls for entries are never removed. -/
theorem Change.length_appendCalls (hc : Change s a s') :
    s.appendCalls.length ≤ s'.appendCalls.length := by
  cases hc with
  | doHeartBeat => simp
  | appendEntries1 => simp
  | sendAppendEntries => simp
  | _ => exact le_rfl

/-- Neither are calls for snapshots. -/
theorem Change.length_snapCalls (hc : Change s a s') :
    s.snapCalls.length ≤ s'.snapCalls.length := by
  cases hc with
  | doHeartBeat => simp
  | leaderSendSnapShot => simp
  | installSnapshot => simp
  | leaderSendSnapShotReply => simp
  | _ => exact le_rfl

end steps

end Cluster

namespace TimedCluster

variable {n : ℕ} {boot : Fin n → ℕ} {s s' : TimedCluster n} {i j : Fin n} {T : Int}
  {slack delay since now₀ : ℕ}

/-! ### Tickers and resets -/

/-- Only the one ticker is reset. -/
theorem resetAt_apply (tickers : Fin n → Ticker) (now : ℕ) (o : Option (Fin n)) (j : Fin n) :
    resetAt tickers now o j = if o = some j then (tickers j).reset now else tickers j := by
  cases o with
  | none => rfl
  | some i =>
    rw [resetAt]
    by_cases hji : j = i
    · subst hji
      rw [Function.update_self, if_pos rfl]
    · rw [Function.update_of_ne hji, if_neg fun h => hji (Option.some.inj h).symm]

variable [RaftArchive] {a : Step n}

/-- The steps. -/
inductive Change (boot : Fin n → ℕ) (s : TimedCluster n) : TimedStep n → TimedCluster n → Prop
  | tick (ns : ℕ) : Change boot s (.tick ns) { s with now := s.now + ns }
  | election {j : Fin n} {m : TickerMove} {t : Ticker} {s₁ : TimedCluster n}
      (hlive : s.cluster.exited j = false)
      (ht : Ticker.Change electionTimeOutTicker (boot j) s.now (s.cluster.nodes j).status
        (s.election j) m t)
      (hrun : m ≠ .fire ∧ s₁ = s ∨ m = .fire ∧ s.runHandler (.doElection j) = some s₁) :
      Change boot s (.electionTimeOutTicker j m)
        { s₁ with election := Function.update s₁.election j t }
  | heartBeat {j : Fin n} {m : TickerMove} {t : Ticker} {s₁ : TimedCluster n}
      (hlive : s.cluster.exited j = false)
      (ht : Ticker.Change leaderHearBeatTicker (boot j) s.now (s.cluster.nodes j).status
        (s.heartBeat j) m t)
      (hrun : m ≠ .fire ∧ s₁ = s ∨ m = .fire ∧ s.runHandler (.doHeartBeat j) = some s₁) :
      Change boot s (.leaderHearBeatTicker j m)
        { s₁ with heartBeat := Function.update s₁.heartBeat j t }
  | run {a : Step n} {s' : TimedCluster n} (ha : ∀ j, a ≠ .doElection j)
      (hrun : s.runHandler a = some s') : Change boot s (.run a) s'

/-- What a fiber does at the end of a turn of its loop, or not. -/
theorem fire_cases {m : TickerMove} {s₁ : TimedCluster n}
    (h : s.endTurn m a = some s₁) :
    m ≠ .fire ∧ s₁ = s ∨ m = .fire ∧ s.runHandler a = some s₁ := by
  rw [endTurn] at h
  by_cases hm : m = .fire
  · rw [if_pos hm] at h
    exact .inr ⟨hm, h⟩
  · rw [if_neg hm] at h
    exact .inl ⟨hm, (Option.some.inj h).symm⟩

/-- Every step is one of these. -/
theorem step_change {st : TimedStep n} (h : s.step boot st = some s') : Change boot s st s' := by
  cases st with
  | tick ns =>
    obtain rfl := Option.some.inj h
    exact .tick ns
  | electionTimeOutTicker j m =>
    rw [step] at h
    split at h
    · cases h
    · rename_i hlive
      obtain ⟨t, ht, h⟩ := Option.bind_eq_some_iff.mp h
      obtain ⟨s₁, hs₁, h⟩ := Option.bind_eq_some_iff.mp h
      obtain rfl := Option.some.inj h
      exact .election ((Bool.not_eq_true _).mp hlive) (Ticker.step_change ht) (fire_cases hs₁)
  | leaderHearBeatTicker j m =>
    rw [step] at h
    split at h
    · cases h
    · rename_i hlive
      obtain ⟨t, ht, h⟩ := Option.bind_eq_some_iff.mp h
      obtain ⟨s₁, hs₁, h⟩ := Option.bind_eq_some_iff.mp h
      obtain rfl := Option.some.inj h
      exact .heartBeat ((Bool.not_eq_true _).mp hlive) (Ticker.step_change ht) (fire_cases hs₁)
  | run a =>
    -- an election is started by its ticker only
    cases a with
    | doElection k => cases h
    | _ => exact .run (fun j ha => by cases ha) h

/-- What a handler does. -/
theorem runHandler_spec (h : s.runHandler a = some s') :
    s.cluster.step a = some s'.cluster ∧ s'.now = s.now ∧
      (∀ j, s'.election j = if s.cluster.electionReset a = some j then (s.election j).reset s.now
        else s.election j) ∧
      (∀ j, s'.heartBeat j = if s.cluster.heartBeatReset a = some j
        then (s.heartBeat j).reset s.now else s.heartBeat j) ∧
      s'.appendSent = s.appendSent ++
        List.replicate (s'.cluster.appendCalls.length - s.appendSent.length) s.now ∧
      s'.snapSent = s.snapSent ++
        List.replicate (s'.cluster.snapCalls.length - s.snapSent.length) s.now := by
  obtain ⟨cluster, hcluster, h⟩ := Option.bind_eq_some_iff.mp h
  obtain rfl := Option.some.inj h
  exact ⟨hcluster, rfl, fun j => resetAt_apply .., fun j => resetAt_apply .., rfl, rfl⟩

/-! ### Conditions on runs -/

/-- Snapshot threads are in time, and the clock goes on between two readings. -/
def Orderly (s : TimedCluster n) : TimedStep n → Prop
  | .run a => s.cluster.PromptSnapshots a ∧
    ∀ j ∈ s.cluster.electionReset a, ∀ wakeTime ∈ (s.election j).wakeTime, wakeTime < s.now
  | _ => True

instance (s : TimedCluster n) : (st : TimedStep n) → Decidable (s.Orderly st)
  | .run a => inferInstanceAs (Decidable (s.cluster.PromptSnapshots a ∧
    ∀ j ∈ s.cluster.electionReset a, ∀ wakeTime ∈ (s.election j).wakeTime, wakeTime < s.now))
  | .tick _ | .electionTimeOutTicker .. | .leaderHearBeatTicker .. =>
    inferInstanceAs (Decidable True)

/-- What node `i` has sent at `since` or later is answered within `delay`, by the nodes that are
    alive. -/
def answered {Args Reply : Type} (i : Fin n) (exited : Fin n → Bool) (since delay time : ℕ)
    (calls : List (Call n Args Reply)) (sent : List ℕ) : Bool :=
  (calls.zip sent).all fun (call, sent) => call.caller != i || exited call.server ||
    call.reply.isSome || decide (sent < since) || decide (time ≤ sent + delay)

/-- The heartbeat fiber of node `i` is woken at most `slack` late, and its requests are answered
    within `delay`. -/
def timely (boot : Fin n → ℕ) (i : Fin n) (slack delay since : ℕ) (s : TimedCluster n) :
    TimedStep n → Bool
  | .tick ns => (s.heartBeat i).prompt (boot i) slack s.now ns &&
    answered i s.cluster.exited since delay (s.now + ns) s.cluster.appendCalls s.appendSent &&
    answered i s.cluster.exited since delay (s.now + ns) s.cluster.snapCalls s.snapSent
  | _ => true

omit [RaftArchive] in
/-- A call of `i` that is still open has been so for at most `delay`. -/
theorem le_of_answered {Args Reply : Type} {exited : Fin n → Bool} {time sent c : ℕ}
    {calls : List (Call n Args Reply)} {call : Call n Args Reply} {sents : List ℕ}
    (h : answered i exited since delay time calls sents = true) (hc : calls[c]? = some call)
    (hsent : sents[c]? = some sent) (hcaller : call.caller = i)
    (hlive : exited call.server = false) (hreply : call.reply = none) (hsince : since ≤ sent) :
    time ≤ sent + delay := by
  have hmem : (call, sent) ∈ calls.zip sents := by
    refine List.mem_iff_getElem?.mpr ⟨c, ?_⟩
    rw [List.getElem?_zip_eq_some]
    exact ⟨hc, hsent⟩
  have hcall : sent < since ∨ time ≤ sent + delay := by
    simpa [hcaller, hlive, hreply] using List.all_eq_true.mp h _ hmem
  omega

/-! ### Every orderly run -/

/-- What holds in every orderly run. -/
structure Sound (boot : Fin n → ℕ) (s : TimedCluster n) : Prop where
  cluster : Reach Cluster.step Cluster.PromptSnapshots (Cluster.init n) s.cluster
  appendSent : s.appendSent.length = s.cluster.appendCalls.length
  snapSent : s.snapSent.length = s.cluster.snapCalls.length
  election : ∀ j, (s.election j).Early (· < ·) electionTimeOutTicker (boot j) s.now
  past : ∀ j, (s.heartBeat j).lastReset ≤ s.now
  due : ∀ j, (s.heartBeat j).Due leaderHearBeatTicker (boot j) s.now

/-- All timers have just been reset at the start, and no call is open. -/
theorem sound_init (now : ℕ) : Sound boot (init n now) where
  cluster := .refl
  appendSent := rfl
  snapSent := rfl
  election _ := Ticker.early_of_phase le_rfl rfl
  past _ := le_rfl
  due _ := ⟨fun _ h => (by cases h), fun _ _ h => (by cases h)⟩

/-- A handler keeps what is known of the calls and of the tickers, whatever it resets. -/
theorem Sound.runHandler (h : s.Sound boot) (hrun : s.runHandler a = some s')
    (hprompt : s.cluster.PromptSnapshots a)
    (hmoved : ∀ j ∈ s.cluster.electionReset a, ∀ wakeTime ∈ (s.election j).wakeTime,
      wakeTime < s.now) : s'.Sound boot := by
  obtain ⟨hcluster, hnow, helection, hheart, happend, hsnap⟩ := runHandler_spec hrun
  have hc := Cluster.reach_change h.cluster hcluster
  refine ⟨h.cluster.tail hprompt hcluster, ?_, ?_, fun j => ?_, fun j => ?_, fun j => ?_⟩
  -- a call is recorded with the time at which it was made
  · have hle := hc.length_appendCalls
    rw [happend, List.length_append, List.length_replicate, h.appendSent]
    omega
  · have hle := hc.length_snapCalls
    rw [hsnap, List.length_append, List.length_replicate, h.snapSent]
    omega
  -- a handler resets the election timer only once the clock has passed its ticker's wake time
  · rw [helection, hnow]
    split
    case isTrue hreset => exact (h.election j).reset fun w hw _ => hmoved j hreset w hw
    case isFalse => exact h.election j
  · rw [hheart, hnow]
    split
    · exact le_rfl
    · exact h.past j
  · rw [hheart, hnow]
    split
    · exact (h.due j).reset (h.past j)
    · exact h.due j

/-- **Step lemma.** -/
theorem Change.sound {st : TimedStep n} (hc : Change boot s st s') (h : s.Sound boot)
    (hok : s.Orderly st) : s'.Sound boot := by
  cases hc with
  | tick ns =>
    exact ⟨h.cluster, h.appendSent, h.snapSent, fun j => (h.election j).mono (Nat.le_add_right ..),
      fun j => (h.past j).trans (Nat.le_add_right ..),
      fun j => (h.due j).mono (Nat.le_add_right ..)⟩
  | run ha hrun => exact h.runHandler hrun hok.1 hok.2
  | @election j m t s₁ hlive ht hrun =>
    have hs₁ : s₁.Sound boot ∧ s₁.now = s.now := by
      rcases hrun with ⟨-, rfl⟩ | ⟨rfl, hrun⟩
      · exact ⟨h, rfl⟩
      · refine ⟨h.runHandler hrun trivial fun k hk w hw => ?_, (runHandler_spec hrun).2.1⟩
        -- only node `j` is reset, and its fiber fires
        have hkj : k = j := by
          rw [Cluster.electionReset] at hk
          split at hk
          · cases hk
          · exact (Option.some.inj hk).symm
        rw [hkj, Ticker.wakeTime_of_firing ht.firing] at hw
        cases hw
    refine ⟨hs₁.1.cluster, hs₁.1.appendSent, hs₁.1.snapSent, ?_, hs₁.1.past, hs₁.1.due⟩
    refine (Function.forall_update_iff _ fun k (t : Ticker) => t.Early _ _ (boot k) s₁.now).mpr
      ⟨?_, fun k _ => hs₁.1.election k⟩
    rw [hs₁.2]
    exact (h.election j).step ht
  | @heartBeat j m t s₁ hlive ht hrun =>
    have hs₁ : s₁.Sound boot ∧ s₁.now = s.now := by
      rcases hrun with ⟨-, rfl⟩ | ⟨rfl, hrun⟩
      · exact ⟨h, rfl⟩
      · refine ⟨h.runHandler hrun trivial fun k hk => ?_, (runHandler_spec hrun).2.1⟩
        -- `doHeartBeat` resets no election timer
        cases hk
    refine ⟨hs₁.1.cluster, hs₁.1.appendSent, hs₁.1.snapSent, hs₁.1.election, ?_, ?_⟩
    · refine (Function.forall_update_iff _ fun _ (t : Ticker) => t.lastReset ≤ s₁.now).mpr
        ⟨?_, fun k _ => hs₁.1.past k⟩
      rw [hs₁.2]
      exact ht.past (h.past j)
    · refine (Function.forall_update_iff _ fun k (t : Ticker) => t.Due _ (boot k) s₁.now).mpr
        ⟨?_, fun k _ => hs₁.1.due k⟩
      rw [hs₁.2]
      exact .step ht

/-- How node `j` has heard of node `i`, or will: a request is on its way and will arrive before the
    timer of node `j` is over, or the last heartbeat has arrived. -/
inductive Heard (s : TimedCluster n) (i : Fin n) (T : Int) (delay since : ℕ) (j : Fin n) : Prop
  | append {c sent : ℕ} (hcall : s.cluster.AppendOpen i j T c)
      (hsent : s.appendSent[c]? = some sent) (hsince : since ≤ sent) (hnow : s.now ≤ sent + delay)
      (hfresh : sent + delay ≤ (s.election j).lastReset + milliseconds 298)
  | snap {c sent : ℕ} (hcall : s.cluster.SnapOpen i j T c) (hsent : s.snapSent[c]? = some sent)
      (hsince : since ≤ sent) (hnow : s.now ≤ sent + delay)
      (hfresh : sent + delay ≤ (s.election j).lastReset + milliseconds 298)
  | fresh (hlast : (s.heartBeat i).lastReset ≤ (s.election j).lastReset)

/-- Node `i` leads and sends heartbeats in time, and no other node is about to stand. -/
structure Steady (boot : Fin n → ℕ) (i : Fin n) (T : Int) (slack delay since : ℕ)
    (s : TimedCluster n) : Prop where
  settled : s.cluster.Settled i T
  onTime : (s.heartBeat i).OnTime leaderHearBeatTicker (boot i) slack since s.now
  begun : since ≤ (s.heartBeat i).lastReset
  heard : ∀ j, j ≠ i → s.cluster.exited j = false → s.Heard i T delay since j
  quiet : ∀ j, j ≠ i → s.cluster.exited j = false → (s.election j).phase ≠ .firing

omit [RaftArchive] in
/-- The next heartbeat is due in time. -/
theorem Steady.next (h : s.Steady boot i T slack delay since) :
    s.now ≤ (s.heartBeat i).lastReset + milliseconds 25 + slack := by
  have hreached : s.now ≤ max ((s.heartBeat i).lastReset + milliseconds 25)
    (since + milliseconds 25) + slack := h.onTime.reached
  have hsince := h.begun
  omega

omit [RaftArchive] in
/-- The timers of the other nodes are not over. -/
theorem Steady.le (h : s.Steady boot i T slack delay since)
    (hbound : milliseconds 25 + slack + delay ≤ milliseconds 298) (hj : j ≠ i)
    (hlive : s.cluster.exited j = false) :
    s.now ≤ (s.election j).lastReset + milliseconds 298 := by
  have hnext := h.next
  cases h.heard j hj hlive with
  | append _ _ _ hnow hfresh => exact hnow.trans hfresh
  | snap _ _ _ hnow hfresh => exact hnow.trans hfresh
  | fresh hlast => omega

omit [RaftArchive] in
/-- Calls that are new were sent now. -/
theorem getElem?_sent {sent : List ℕ} {c length now : ℕ} (hle : sent.length ≤ c)
    (hlt : c < length) :
    (sent ++ List.replicate (length - sent.length) now)[c]? = some now := by
  rw [List.getElem?_append_right hle, List.getElem?_replicate, if_pos (by omega)]

/-- A heartbeat is on its way to node `j`. -/
theorem heard_of_beat (hsound : s.Sound boot) (hset : s.cluster.Settled i T)
    (hrun : s.runHandler (.doHeartBeat i) = some s') (hj : j ≠ i) (hsince : since ≤ s.now)
    (hfresh : s.now + delay ≤ (s.election j).lastReset + milliseconds 298) :
    s'.Heard i T delay since j := by
  obtain ⟨hcluster, hnow, helection, -, happend, hsnap⟩ := runHandler_spec hrun
  have hsame : s'.election j = s.election j := (helection j).trans (if_neg fun h => by cases h)
  rw [← hsame] at hfresh
  rcases Cluster.exists_open (Cluster.shape_reach hsound.cluster) hset hcluster hj with
    ⟨c, hle, hopen⟩ | ⟨c, hle, hopen⟩
  · refine .append hopen ?_ hsince (by omega) hfresh
    obtain ⟨call, hcall, -⟩ := hopen
    rw [happend]
    exact getElem?_sent (hsound.appendSent.trans_le hle) (List.getElem?_eq_some_iff.mp hcall).1
  · refine .snap hopen ?_ hsince (by omega) hfresh
    obtain ⟨call, hcall, -⟩ := hopen
    rw [hsnap]
    exact getElem?_sent (hsound.snapSent.trans_le hle) (List.getElem?_eq_some_iff.mp hcall).1

/-- What node `j` has heard when a handler has run. -/
theorem Steady.heard_runHandler (h : s.Steady boot i T slack delay since) (hsound : s.Sound boot)
    (hbound : milliseconds 25 + slack + delay ≤ milliseconds 298)
    (hrun : s.runHandler a = some s') (hj : j ≠ i) (hlive : s.cluster.exited j = false) :
    s'.Heard i T delay since j := by
  obtain ⟨hcluster, hnow, helection, hheart, happend, hsnap⟩ := runHandler_spec hrun
  have hc := Cluster.reach_change hsound.cluster hcluster
  by_cases hreset : s.cluster.electionReset a = some j
  · -- node `j` has just heard of a leader, or given its vote
    refine .fresh ?_
    rw [helection, if_pos hreset, hheart]
    split
    · exact le_rfl
    · exact h.onTime.past
  · have hsame : s'.election j = s.election j := by rw [helection, if_neg hreset]
    cases h.heard j hj hlive with
    | @append c sent hcall hsent hsince hle hfresh =>
      refine .append ((hc.appendOpen h.settled hcall).resolve_right hreset) ?_ hsince
        (hnow ▸ hle) (hsame ▸ hfresh)
      rw [happend]
      exact Cluster.getElem?_append_of_some hsent
    | @snap c sent hcall hsent hsince hle hfresh =>
      refine .snap ((hc.snapOpen h.settled hcall).resolve_right hreset) ?_ hsince
        (hnow ▸ hle) (hsame ▸ hfresh)
      rw [hsnap]
      exact Cluster.getElem?_append_of_some hsent
    | fresh hlast =>
      by_cases hbeat : s.cluster.heartBeatReset a = some i
      · -- the next heartbeat is on its way
        obtain rfl := Cluster.eq_doHeartBeat hbeat
        have hnext := h.next
        refine heard_of_beat hsound h.settled hrun hj (h.begun.trans h.onTime.past) ?_
        omega
      · refine .fresh ?_
        rw [hheart, if_neg hbeat, hsame]
        exact hlast

/-- **A handler** keeps the leader. -/
theorem Steady.runHandler (h : s.Steady boot i T slack delay since) (hsound : s.Sound boot)
    (hbound : milliseconds 25 + slack + delay ≤ milliseconds 298)
    (hrun : s.runHandler a = some s') (hundisturbed : s.cluster.Undisturbed a) :
    s'.Steady boot i T slack delay since := by
  obtain ⟨hcluster, hnow, helection, hheart, -, -⟩ := runHandler_spec hrun
  have hc := Cluster.reach_change hsound.cluster hcluster
  have hphase : ∀ k, (s'.election k).phase = (s.election k).phase := by
    intro k
    rw [helection]
    split <;> rfl
  refine ⟨h.settled.step hsound.cluster hundisturbed hcluster, ?_, ?_, fun j hj hlive => ?_,
    fun j hj hlive => ?_⟩
  · rw [hheart, hnow]
    split
    · exact h.onTime.reset
    · exact h.onTime
  · rw [hheart]
    split
    · exact h.begun.trans h.onTime.past
    · exact h.begun
  · exact h.heard_runHandler hsound hbound hrun hj (hc.exited_of hlive)
  · rw [hphase]
    exact h.quiet j hj (hc.exited_of hlive)

omit [RaftArchive] in
/-- Nothing but the readings of a node's tickers changes. -/
theorem Heard.congr (h : s.Heard i T delay since j) (hcluster : s'.cluster = s.cluster)
    (hnow : s'.now = s.now) (happend : s'.appendSent = s.appendSent)
    (hsnap : s'.snapSent = s.snapSent)
    (helection : (s'.election j).lastReset = (s.election j).lastReset)
    (hheart : (s'.heartBeat i).lastReset = (s.heartBeat i).lastReset) :
    s'.Heard i T delay since j := by
  cases h with
  | append hcall hsent hsince hle hfresh =>
    exact .append (hcluster ▸ hcall) (happend ▸ hsent) hsince (hnow ▸ hle) (helection ▸ hfresh)
  | snap hcall hsent hsince hle hfresh =>
    exact .snap (hcluster ▸ hcall) (hsnap ▸ hsent) hsince (hnow ▸ hle) (helection ▸ hfresh)
  | fresh hlast => exact .fresh (by rw [helection, hheart]; exact hlast)

omit [RaftArchive] in
/-- **The clock.**  What is on its way is not overdue. -/
theorem Steady.tick (h : s.Steady boot i T slack delay since) {ns : ℕ}
    (htimely : timely boot i slack delay since s (.tick ns) = true) :
    Steady boot i T slack delay since { s with now := s.now + ns } := by
  rw [timely, Bool.and_eq_true, Bool.and_eq_true] at htimely
  obtain ⟨⟨hprompt, happend⟩, hsnap⟩ := htimely
  refine ⟨h.settled, h.onTime.tick hprompt, h.begun, fun j hj hlive => ?_, h.quiet⟩
  cases h.heard j hj hlive with
  | append hcall hsent hsince hle hfresh =>
    have hcall' := hcall
    obtain ⟨call, hc, hcaller, hserver, hreply, -⟩ := hcall'
    exact .append hcall hsent hsince
      (le_of_answered happend hc hsent hcaller (hserver ▸ hlive) hreply hsince) hfresh
  | snap hcall hsent hsince hle hfresh =>
    have hcall' := hcall
    obtain ⟨call, hc, hcaller, hserver, hreply, -⟩ := hcall'
    exact .snap hcall hsent hsince
      (le_of_answered hsnap hc hsent hcaller (hserver ▸ hlive) hreply hsince) hfresh
  | fresh hlast => exact .fresh hlast

/-- Node `a` = 0 hears nothing for 300 ms and is elected. -/
def electedRun (a : Fin n) : List (TimedStep n) :=
  [.electionTimeOutTicker a .test, .electionTimeOutTicker a (.read 300), .tick 300000000,
    .electionTimeOutTicker a .wake, .electionTimeOutTicker a .compare,
    .electionTimeOutTicker a .fire, .run (.requestVote 0), .run (.requestVote 1),
    .run (.sendRequestVote 0)]

/-- Node `a` = 0 sends heartbeats, and the ticker of `b` = 1 reads the clock in the nanosecond in
    which the first two arrive. -/
def sameInstantRun (a b : Fin n) : List (TimedStep n) :=
  [.leaderHearBeatTicker a .test, .leaderHearBeatTicker a (.read 25), .tick 145000000,
    .leaderHearBeatTicker a .wake, .leaderHearBeatTicker a .compare, .leaderHearBeatTicker a .fire,
    .leaderHearBeatTicker a .test, .leaderHearBeatTicker a (.read 25), .tick 5000000,
    .electionTimeOutTicker b .test, .electionTimeOutTicker b (.read 300),
    .run (.appendEntries1 0), .run (.appendEntries1 1), .run (.appendEntries1 2),
    .run (.appendEntries1 3), .tick 140000000,
    .leaderHearBeatTicker a .wake, .leaderHearBeatTicker a .compare, .leaderHearBeatTicker a .fire,
    .leaderHearBeatTicker a .test, .leaderHearBeatTicker a (.read 25), .tick 10000000,
    .electionTimeOutTicker b .wake, .electionTimeOutTicker b .compare]

omit [RaftArchive] in
/-- The clock has to go on between a ticker's reading and a reset: node 1 is about to stand 150 ms
    after it heard of a leader that is woken and answered in time. -/
theorem stands_after_sameInstant :
    letI := textRaftArchive
    ∃ s₀ s : TimedCluster 3, Reach (step fun _ => 0) Orderly (init 3 0) s₀ ∧
      Reach (step fun _ => 0)
        (fun s st => timely (fun _ => 0) 0 (milliseconds 120) (milliseconds 150) s₀.now s st = true)
        s₀ s ∧
      s₀.cluster.Settled 0 1 ∧ (s.election 1).phase = .firing ∧
        s.now = (s.election 1).lastReset + milliseconds 150 := by
  let := textRaftArchive
  have hrun : ((runFrom (step fun _ => 0) Orderly (init 3 0)
      (electedRun 0 ++ [.run (.doHeartBeat 0)])).bind fun s₀ =>
        (runFrom (step fun _ => 0) (fun s st =>
            timely (fun _ => 0) 0 (milliseconds 120) (milliseconds 150) s₀.now s st = true) s₀
          (sameInstantRun 0 1)).map
          fun s => (((s₀.cluster.exited 0, (s₀.cluster.nodes 0).status),
            ((s₀.cluster.nodes 0).currentTerm, (s₀.cluster.nodes 1).currentTerm,
              (s₀.cluster.nodes 2).currentTerm)), (s.election 1, s.now))) =
      some (((false, .leader), (1, 1, 1)),
        ({ lastReset := 450000000, phase := .firing }, 600000000)) := by
    decide +kernel
  obtain ⟨s₀, hs₀, hrun⟩ := Option.bind_eq_some_iff.mp hrun
  obtain ⟨s, hs, hstate⟩ := Option.map_eq_some_iff.mp hrun
  simp only [Prod.mk.injEq] at hstate
  obtain ⟨⟨⟨hlive, hleads⟩, h0, h1, h2⟩, helection, hnow⟩ := hstate
  refine ⟨s₀, s, .of_runFrom hs₀, .of_runFrom hs, ⟨hlive, hleads, h0, fun j => ?_⟩, ?_, ?_⟩
  · obtain rfl | rfl | rfl : j = 0 ∨ j = 1 ∨ j = 2 := by omega
    all_goals omega
  · rw [helection]
  · rw [hnow, helection]
    rfl

end TimedCluster

end RaftStore
