import RaftStore.Model.Archive
import RaftStore.Store.Serial

namespace RaftStore

/-!
# Read freshness

A handler of a `Get` reads the state machine after it has popped its own entry, or after a
timeout when the server believes it is leader and has the request in its table.  Either way the
server has got past an entry of the client that is at least as new as the `Get`, and so past
everything that was committed when the `Get` began.

* `Store.NoInstall` — the runs in which no snapshot is installed.
* `Store.UpToDate` — the invariant: a server has run every write that it has got past.
* `Store.FreshRead` — what a `Get` that has returned should have read.
* `get_fresh` — it has.
-/

namespace Store

/-- The condition on the runs: no snapshot is installed. -/
def NoInstall (_ : Store) : StoreStep → Prop
  | .install _ _ _ _ => False
  | _ => True

instance (s : Store) : (a : StoreStep) → Decidable (NoInstall s a)
  | .install _ _ _ _ => inferInstanceAs (Decidable False)
  | .call _ _ | .receive _ _ _ | .lose _ _ | .reply _ | .commit _ | .apply _ | .serve _ _ =>
    inferInstanceAs (Decidable True)

/-! ### Servers run what they get past -/

/-- The server has run every write that it has got past. -/
def UpToDate (log : List Entry) (server : Server) : Prop :=
  ∀ p < server.passed, ∀ entry, log[p]? = some entry → KvProcess.writes entry.op = true →
    entry.call ∈ server.executed

/-- A server is up to date for a longer log. -/
theorem UpToDate.mono {log log' : List Entry} {server : Server} (h : UpToDate log server)
    (hlen : server.passed ≤ log.length) (hlog : log <+: log') : UpToDate log' server := by
  intro p hp entry hentry hw
  obtain ⟨rest, rfl⟩ := hlog
  rw [List.getElem?_append_left (hp.trans_le hlen)] at hentry
  exact h p hp entry hentry hw

variable [KvArchive]

/-- How an own step gets past an entry: it finds a duplicate, or executes. -/
theorem passed_of_internal {log : List Entry} {server : Server} (hs : Sound log server)
    {process : KvProcess} {a : KvStep} (hinternal : a.isInternal = true)
    (hprocess : server.process.step a = some process) :
    process.applyThread.passed server.applied = server.passed ∨
      ∃ entry, log[server.passed]? = some entry ∧
        process.applyThread.passed server.applied = server.passed + 1 ∧
        (KvProcess.writes entry.op = true → server.run log a = [entry.call] ∨
          Covers log server.passed entry.op.clientId entry.op.requestId) := by
  have hview := KvProcess.step_change hprocess
  change process.view.applyThread.passed server.applied = _ ∨ ∃ entry, _ ∧
    process.view.applyThread.passed server.applied = _ ∧ _
  generalize process.view = v at hview ⊢
  cases hview with
  | skipped | received | installed => cases hinternal
  | @duplicate op index hthread hdup =>
    obtain ⟨entry, hentry, rfl, happlied, _⟩ :=
      hs.next (by rw [hthread]; rfl) (by rw [hthread]; rfl)
    refine Or.inr ⟨entry, hentry, happlied, fun _ => Or.inr ?_⟩
    -- the table shows that a call of this client and this id or a later one has been executed
    exact hs.vouched.of_duplicate (fun _ _ _ hcover hle => hcover.down hle) hdup
  | @wrote op index hthread hw =>
    obtain ⟨entry, hentry, rfl, happlied, _⟩ :=
      hs.next (by rw [hthread]; rfl) (by rw [hthread]; rfl)
    refine Or.inr ⟨entry, hentry, happlied, fun _ => Or.inl ?_⟩
    exact run_of_executing hthread hw (by rw [happlied]; exact hentry)
  | @passed op index hthread hw =>
    obtain ⟨entry, hentry, rfl, happlied, _⟩ :=
      hs.next (by rw [hthread]; rfl) (by rw [hthread]; rfl)
    refine Or.inr ⟨entry, hentry, happlied, fun hw' => ?_⟩
    rw [hw'] at hw
    cases hw
  -- these leave the number of entries got past as it is
  | fresh hthread | measured hthread | notified hthread =>
    refine Or.inl ?_
    rw [Server.passed, hthread]
    rfl
  | read | quiet => exact Or.inl rfl

variable [LawfulKvArchive] {s s' : Store} {a : StoreStep}

/-- **Step lemma.**  A server that installs no snapshot stays up to date. -/
theorem ServerChange.upToDate {ids : List String} {server server' : Server}
    (h : ServerChange s server a server') (hok : NoInstall s a) (hup : UpToDate s.log server)
    (hs : Sound s.log server) (hwired : Wired s) (hnum : Numbered ids s) (hids : ids.Nodup)
    (hserial : Serial s) : UpToDate s.log server' := by
  cases h with
  | began => exact hup
  | applied hentry hprocess =>
    -- taking an entry passes nothing yet
    have hcommanded := commanded hprocess hs.last
    intro p hp
    rw [Server.passed, hcommanded.thread] at hp
    refine hup p ?_
    rw [Server.passed, hcommanded.idle]
    exact hp
  | installed => exact absurd hok id
  | @served j a process hinternal hprocess =>
    intro p hp entry hentry hw
    change p < process.applyThread.passed server.applied at hp
    rcases passed_of_internal hs hinternal hprocess with hsame | ⟨next, hnext, hpassed, hcases⟩
    · exact List.mem_append_left _ (hup p (hsame ▸ hp) entry hentry hw)
    · rcases Nat.lt_succ_iff_lt_or_eq.mp (hpassed ▸ hp) with hlt | rfl
      · exact List.mem_append_left _ (hup p hlt entry hentry hw)
      · obtain rfl := Option.some.inj (hentry.symm.trans hnext)
        rcases hcases hw with hrun | hcover
        · rw [hrun]
          exact List.mem_append_right _ (List.mem_singleton_self _)
        · -- a duplicate of a write that was run before
          obtain ⟨call, hcall, hop⟩ := hwired.log entry (List.mem_of_getElem? hentry)
          have hput : call.args.isGet = false := by
            have hcw := hwired.writes call (List.mem_of_getElem? hcall)
            rw [← hop, hw] at hcw
            simpa using hcw.symm
          rw [hop] at hcover
          obtain ⟨q, hq, earlier, hearlier, hsame⟩ :=
            hserial.exists_entry hwired hnum hids hcall hput hcover
          obtain ⟨call', hcall', hop'⟩ := hwired.log earlier (List.mem_of_getElem? hearlier)
          rw [hsame] at hcall'
          obtain rfl := Option.some.inj (hcall.symm.trans hcall')
          have hmem := hup q hq earlier hearlier (by rw [hop', ← hop, hw])
          exact List.mem_append_left _ (hsame ▸ hmem)

/-- **Run lemma.**  Without snapshots every server stays up to date. -/
theorem reach_upToDate {clerks : List Clerk} {maxRaftStates : List Int}
    (hids : (clerks.map Clerk.clientId).Nodup)
    (h : Reach step NoInstall (init clerks maxRaftStates) s) :
    ∀ server ∈ s.servers, UpToDate s.log server := by
  refine h.invariant (P := fun s => ∀ server ∈ s.servers, UpToDate s.log server) ?_ ?_
  · intro server hmem p hp entry hentry
    cases hentry
  · intro s a s' hr hall hok hs server' hmem
    have hchange := step_change hs
    obtain ⟨hnum, hserial⟩ := reach_serial hids hr
    obtain ⟨j, hj⟩ := List.mem_iff_getElem?.mp hmem
    obtain ⟨server, hserver, hsame | hnext⟩ := hchange.server hj
    · have hold := List.mem_of_getElem? hserver
      have hsound := reach_sound hr server hold
      subst hsame
      exact (hall server' hold).mono ((ApplyThread.passed_le _ _).trans hsound.applied) hchange.log
    · have hold := List.mem_of_getElem? hserver
      rw [hchange.log_eq hnext]
      exact hnext.upToDate hok (hall server hold) (reach_sound hr server hold) (reach_wired hr)
        hnum hids hserial

/-! ### What a `Get` reads -/

/-- Between `s'` and `s''` server `j` was in a state that had run every `Put` and `Append` which
    had returned in `s`, and `reply` is what it held for the key. -/
def FreshRead (s s' s'' : Store) (j : ℕ) (key : String) (reply : KvReply) : Prop :=
  ∃ s₀ server, Reach step NoInstall s' s₀ ∧ Reach step NoInstall s₀ s'' ∧
    s₀.servers[j]? = some server ∧
    reply = KvServer.getReply (server.process.server.skipList.searchElement key) ∧
    ∀ answer ∈ s.answers, ∀ call, s.calls[answer.call]? = some call →
      call.args.isGet = false → answer.call ∈ server.executed

omit [LawfulKvArchive] in
/-- A fresh read stays so. -/
theorem FreshRead.tail {t u : Store} {j : ℕ} {key : String} {reply : KvReply}
    (h : FreshRead s s' t j key reply) (hok : NoInstall t a) (hs : t.step a = some u) :
    FreshRead s s' u j key reply := by
  obtain ⟨s₀, server, h₀, h₁, hrest⟩ := h
  exact ⟨s₀, server, h₀, h₁.tail hok hs, hrest⟩

/-- A server that is about to read for a call has run every write that had returned before the
    call began. -/
theorem executed_of_covers {clerks : List Clerk} {maxRaftStates : List Int}
    (hids : (clerks.map Clerk.clientId).Nodup)
    (h : Reach step NoInstall (init clerks maxRaftStates) s) {t : Store}
    (ht : Reach step NoInstall (init clerks maxRaftStates) t) (hlog : s.log <+: t.log)
    {server : Server} (hserver : server ∈ t.servers) {g : ℕ} {call : KvCall}
    (hcall : t.calls[g]? = some call) (hstart : call.start = s.log.length)
    (hcover : Covers t.log server.passed call.args.op.clientId call.args.op.requestId) :
    ∀ answer ∈ s.answers, ∀ write, s.calls[answer.call]? = some write →
      write.args.isGet = false → answer.call ∈ server.executed := by
  intro answer hanswer write hwrite hput
  obtain ⟨hnum, hserial⟩ := reach_serial hids h
  obtain ⟨hnum', hserial'⟩ := reach_serial hids ht
  -- the entry that covers the call was committed after the call began
  obtain ⟨p, hp, entry, call', hentry, hcall', _, _, hle⟩ :=
    exists_covering (reach_wired ht) hnum' hids hcall hcover
  have hlater := hserial'.later p entry call' hentry hcall'
  have hstarts := hserial'.starts g entry.call call call' hle hcall hcall'
  -- and the write before
  have hwired := reach_wired h
  obtain ⟨q, hq, logged, hlogged, hsame⟩ := hserial.logged hwired hnum hids hanswer hwrite hput
  obtain ⟨write', hwrite', hop⟩ := hwired.log logged (List.mem_of_getElem? hlogged)
  rw [hsame] at hwrite'
  obtain rfl := Option.some.inj (hwrite.symm.trans hwrite')
  have hw : KvProcess.writes logged.op = true := by
    rw [hop, hwired.writes write (List.mem_of_getElem? hwrite), hput]
    rfl
  have hmem := reach_upToDate hids ht server hserver q (by omega) logged
    (getElem?_of_isPrefix hlog hlogged) hw
  exact hsame ▸ hmem

/-- What the run of one `Get` keeps: its handlers and its return have nothing stale to say. -/
structure ReadsFresh (s s' s'' : Store) (g : ℕ) (op : Op) : Prop where
  handlers : ∀ (j : ℕ) (server : Server), s''.servers[j]? = some server →
    ∀ handler ∈ server.process.handlers, handler.isGet = true → handler.op = op →
      ∀ reply ∈ handler.reply, reply.err ≠ KvServer.errWrongLeader →
        FreshRead s s' s'' j op.key reply
  answers : ∀ answer ∈ s''.answers, answer.call = g →
    FreshRead s s' s'' answer.server op.key answer.reply

/-- When a call begins, no handler serves it. -/
theorem readsFresh_begin {clerks : List Clerk} {maxRaftStates : List Int}
    (hids : (clerks.map Clerk.clientId).Nodup)
    (h : Reach step NoInstall (init clerks maxRaftStates) s) {i : ℕ} {c : ClerkCall}
    (hcall : s.step (.call i c) = some s') {call : KvCall}
    (hg : s'.calls[s.calls.length]? = some call) :
    ReadsFresh s s' s' s.calls.length call.args.op := by
  have hok : NoInstall s (.call i c) := trivial
  have h' := h.tail hok hcall
  have hnum := (reach_serial hids h').1
  have hgrow := (step_change hcall).calls
  cases step_change hcall with
  | retried _ _ _ _ ha => rcases ha with ha | ⟨_, ha⟩ <;> cases ha
  | called hclient hidle =>
    refine ⟨fun j server hserver handler hhandler _ hop => ?_, fun answer hanswer heq => ?_⟩
    · -- a handler that was there serves an earlier call, with another number
      obtain ⟨old, hold, hop'⟩ :=
        reach_handlers h server (List.mem_of_getElem? hserver) handler hhandler
      obtain ⟨g, hold'⟩ := List.mem_iff_getElem?.mp hold
      have hlt := (List.getElem?_eq_some_iff.mp hold').1
      have hop'' : old.args.op = call.args.op := hop'.symm.trans hop
      have hgold := getElem?_of_isPrefix hgrow hold'
      have hsame := hnum.client_eq hids (List.mem_of_getElem? hgold) (List.mem_of_getElem? hg)
        (congrArg Op.clientId hop'')
      have hless := hnum.increasing g s.calls.length old call hlt hgold hg hsame
      rw [hop''] at hless
      exact absurd hless (lt_irrefl _)
    · obtain ⟨old, hold, _⟩ := (reach_wired h).answers answer hanswer
      have hlt := (List.getElem?_eq_some_iff.mp hold).1
      omega

/-- **Step lemma.** -/
theorem ReadsFresh.step {clerks : List Clerk} {maxRaftStates : List Int}
    (hids : (clerks.map Clerk.clientId).Nodup)
    (h : Reach step NoInstall (init clerks maxRaftStates) s) {t u : Store} {g : ℕ} {call : KvCall}
    (hfresh : ReadsFresh s s' t g call.args.op)
    (ht : Reach step NoInstall (init clerks maxRaftStates) t) (hst : Reach step NoInstall s' t)
    (hlog : s.log <+: t.log) (hcall : t.calls[g]? = some call) (hget : call.args.isGet = true)
    (hstart : call.start = s.log.length) (hok : NoInstall t a) (hs : t.step a = some u) :
    ReadsFresh s s' u g call.args.op := by
  have hchange := step_change hs
  refine ⟨fun j server' hj handler hhandler hisGet hop reply hreply herr => ?_,
    fun answer hanswer hg => ?_⟩
  · obtain ⟨server, hserver, rfl | hnext⟩ := hchange.server hj
    · exact (hfresh.handlers j server' hserver handler hhandler hisGet hop reply hreply herr).tail
        hok hs
    · obtain ⟨b, hb, _⟩ := hnext.exists_step
      rcases KvProcess.get_reply_cases hb hhandler hisGet hreply herr with
        ⟨old, hold, hop', hisGet', hreply'⟩ | ⟨old, hold, hop', hpc, hread⟩
      · exact (hfresh.handlers j server hserver old hold hisGet' (hop'.trans hop) reply hreply'
          herr).tail hok hs
      · -- the state machine is read in this step
        have hmem := List.mem_of_getElem? hserver
        have hcover := (reach_sound ht server hmem).vouched.reading old hold hpc
        rw [hop'.trans hop] at hcover
        rw [hop] at hread
        exact ⟨t, server, hst, Reach.refl.tail hok hs, hserver, hread,
          executed_of_covers hids h ht hlog hmem hcall hstart hcover⟩
  · cases hchange with
    | @returned i k h' client rpc call' server handler reply clerk hclient hwaiting hrpc hcall'
        hserver hh hhandler hreply hturn =>
      rcases List.mem_append.mp hanswer with hanswer | hanswer
      · exact (hfresh.answers answer hanswer hg).tail hok hs
      · obtain rfl := List.mem_singleton.mp hanswer
        -- the reply that returns is that of a handler of the call
        obtain ⟨call₁, hcall₁, hserves⟩ := (reach_wired ht).rpcs rpc (List.mem_of_getElem? hrpc)
        obtain ⟨server₁, handler₁, hserver₁, hhandler₁, hop, hisGet⟩ := hserves h' hh
        rw [show rpc.call = g from hg] at hcall₁
        obtain rfl := Option.some.inj (hcall.symm.trans hcall₁)
        obtain rfl := Option.some.inj (hserver.symm.trans hserver₁)
        obtain rfl := Option.some.inj (hhandler.symm.trans hhandler₁)
        obtain ⟨_, _, r, hr, herr⟩ := Clerk.turn_done hturn
        obtain rfl := Option.some.inj hr
        -- the clerk returns on no other reply
        have hne : reply.err ≠ KvServer.errWrongLeader := by
          rcases herr with herr | ⟨_, herr⟩ <;> rw [herr] <;> decide
        exact (hfresh.handlers rpc.server server hserver handler (List.mem_of_getElem? hhandler)
          (hisGet.trans hget) hop reply hreply hne).tail hok hs
    | called | received | retried | committed | applied | installed | served =>
      exact (hfresh.answers answer hanswer hg).tail hok hs

/-- **Read freshness.**  Processes with pairwise different client ids, no snapshot installed: when
    a `Clerk::Get` has returned, its reply is what some server held for the key in a state, after
    the call began, in which it had run every `Put` and `Append` that had returned before. -/
theorem get_fresh {clerks : List Clerk} {maxRaftStates : List Int}
    (hids : (clerks.map Clerk.clientId).Nodup) {s s' s'' : Store}
    (h : Reach step NoInstall (init clerks maxRaftStates) s) {i : ℕ} {key : String}
    (hcall : s.step (.call i (.get key)) = some s') (hrun : Reach step NoInstall s' s'')
    {answer : Answer} (hanswer : answer ∈ s''.answers) (hg : answer.call = s.calls.length) :
    FreshRead s s' s'' answer.server key answer.reply := by
  have hok : NoInstall s (.call i (.get key)) := trivial
  have h' := h.tail hok hcall
  have hlog := (step_change hcall).log
  -- the call that begins
  obtain ⟨call, hnew, hget, hkey, hstart⟩ : ∃ call, s'.calls[s.calls.length]? = some call ∧
      call.args.isGet = true ∧ call.args.op.key = key ∧ call.start = s.log.length := by
    cases step_change hcall with
    | retried _ _ _ _ ha => rcases ha with ha | ⟨_, ha⟩ <;> cases ha
    | called hclient hidle => exact ⟨_, List.getElem?_concat_length, rfl, rfl, rfl⟩
  have hfresh : ReadsFresh s s' s'' s.calls.length call.args.op := by
    refine hrun.invariant (P := fun t => ReadsFresh s s' t s.calls.length call.args.op)
      (readsFresh_begin hids h hcall hnew) fun t a u ht hfresh hok hs => ?_
    obtain ⟨hcalls, hlog'⟩ := reach_grows ht
    exact hfresh.step hids h (h'.trans ht) ht (hlog.trans hlog') (getElem?_of_isPrefix hcalls hnew)
      hget hstart hok hs
  exact hkey ▸ hfresh.answers answer hanswer hg

/-- Handler `k` waits for entry `k + 1`, which is committed and which server 0 applies. -/
def waitSteps (k : ℕ) : List StoreStep :=
  [.receive k (k + 1) true, .serve 0 (.openWaitChan k), .commit k, .apply 0,
    .serve 0 .ifRequestDuplicate, .serve 0 .executeOp, .serve 0 (.ifNeedToSendSnapShotCommand 0),
    .serve 0 .sendMessageToWaitChan, .serve 0 (.timeOutPop k)]

omit [KvArchive] [LawfulKvArchive] in
/-- One process puts a value, and then another gets it. -/
theorem get_fresh_afterPut :
    letI := textKvArchive
    ∃ s s' s'' : Store, ∃ answer ∈ s''.answers, s.answers.length = 1 ∧
      answer.reply.value = "1" ∧ FreshRead s s' s'' answer.server "x" answer.reply := by
  let := textKvArchive
  have := lawful_textKvArchive
  have hrun : ((runFrom step NoInstall (init [{ clientId := "a" }, { clientId := "b" }] [-1])
      (.call 0 (.put "x" "1") :: waitSteps 0 ++ [.serve 0 (.closeWaitChan 0), .reply 0])).bind
      fun s => (s.step (.call 1 (.get "x"))).bind fun s' =>
        (runFrom step NoInstall s' (waitSteps 1 ++ [.serve 0 (.executeGet 1),
          .serve 0 (.closeWaitChan 1), .reply 1])).map fun s'' =>
            (s.answers.length, s.calls.length, s''.answers[1]?)) =
      some (1, 1, some { call := 1, server := 0, reply := { err := "OK", value := "1" } }) := by
    decide
  obtain ⟨s, hs, hrun⟩ := Option.bind_eq_some_iff.mp hrun
  obtain ⟨s', hs', hrun⟩ := Option.bind_eq_some_iff.mp hrun
  obtain ⟨s'', hs'', hrun⟩ := Option.map_eq_some_iff.mp hrun
  obtain ⟨hanswers, hcalls, hanswer⟩ : _ ∧ _ ∧ _ := by simpa only [Prod.mk.injEq] using hrun
  have hmem := List.mem_of_getElem? hanswer
  exact ⟨s, s', s'', _, hmem, hanswers, rfl,
    get_fresh (by decide) (.of_runFrom hs) hs' (.of_runFrom hs'') hmem hcalls.symm⟩

end Store

end RaftStore
