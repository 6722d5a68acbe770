import RaftStore.Store.Servers

namespace RaftStore

/-!
# What an answer rests on

* `Store.Keeps` — what a step leaves in place.
* `Store.Wired` — the invariant: RPCs, handlers, proposals and entries carry the operation of
  the call they belong to, and a `PutAppend` has returned only after the server that answered
  got past an entry of its client that is at least as new.
* `Store.reach_wired` — it holds in every run.
-/

namespace Store

/-! ### What stays -/

/-- What a change leaves of a server. -/
structure ServerKeeps (server server' : Server) : Prop where
  passed : server.passed ≤ server'.passed
  executed : server.executed <+: server'.executed
  handlers : ∀ (k : ℕ) (handler : Handler), server.process.handlers[k]? = some handler →
    ∃ handler', server'.process.handlers[k]? = some handler' ∧ handler'.op = handler.op ∧
      handler'.isGet = handler.isGet

/-- What a step leaves of the store. -/
structure Keeps (s s' : Store) : Prop where
  calls : s.calls <+: s'.calls
  answers : s.answers <+: s'.answers
  log : s.log <+: s'.log
  servers : ∀ (j : ℕ) (server : Server), s.servers[j]? = some server →
    ∃ server', s'.servers[j]? = some server' ∧ ServerKeeps server server'

variable [KvArchive] [LawfulKvArchive] {s s' : Store} {a : StoreStep}

/-- A server takes nothing back. -/
theorem ServerChange.keeps {server server' : Server} (h : ServerChange s server a server')
    (hs : Sound s.log server) : ServerKeeps server server' := by
  have hpassed := h.passed_le hs.last
  cases h with
  | @began k raftIndex isLeader call hcall =>
    have hbegin := KvProcess.step_begin server.process call.args raftIndex isLeader
    exact ⟨hpassed, List.prefix_refl _, fun k handler => KvProcess.exists_handler hbegin⟩
  | applied hentry hprocess | installed hother hsnapshot hnew hprocess =>
    exact ⟨hpassed, List.prefix_refl _, fun k handler => KvProcess.exists_handler hprocess⟩
  | served hinternal hprocess =>
    exact ⟨hpassed, List.prefix_append _ _, fun k handler => KvProcess.exists_handler hprocess⟩

omit [LawfulKvArchive] in
/-- The calls only grow. -/
theorem Change.calls (h : Change s a s') : s.calls <+: s'.calls := by
  cases h with
  | called => exact List.prefix_append _ _
  | received | retried | returned | committed | applied | installed | served =>
    exact List.prefix_refl _

omit [LawfulKvArchive] in
/-- The calls and the log only grow in a run. -/
theorem reach_grows {ok : Store → StoreStep → Prop} (h : Reach step ok s s') :
    s.calls <+: s'.calls ∧ s.log <+: s'.log := by
  induction h with
  | refl => exact ⟨List.prefix_refl _, List.prefix_refl _⟩
  | tail _ _ hs ih =>
    exact ⟨ih.1.trans (step_change hs).calls, ih.2.trans (step_change hs).log⟩

/-- No step takes anything back. -/
theorem Change.keeps (h : Change s a s') (hs : ∀ server ∈ s.servers, Sound s.log server) :
    Keeps s s' where
  calls := h.calls
  answers := by
    cases h with
    | returned => exact List.prefix_append _ _
    | called | received | retried | committed | applied | installed | served =>
      exact List.prefix_refl _
  log := h.log
  servers j server hj := by
    obtain ⟨server', hj', rfl | hchange⟩ := h.exists_server hj
    · exact ⟨server', hj', le_rfl, List.prefix_refl _, fun k handler hk => ⟨handler, hk, rfl, rfl⟩⟩
    · exact ⟨server', hj', hchange.keeps (hs server (List.mem_of_getElem? hj))⟩

/-! ### The invariant -/

/-- The entry carries the operation of its call. -/
def FromCall (s : Store) (entry : Entry) : Prop :=
  ∃ call, s.calls[entry.call]? = some call ∧ entry.op = call.args.op

/-- The RPC belongs to a call, and its handler serves the request of the call. -/
def RpcWired (s : Store) (rpc : Rpc) : Prop :=
  ∃ call, s.calls[rpc.call]? = some call ∧ ∀ h, rpc.handler = some h →
    ∃ server handler, s.servers[rpc.server]? = some server ∧
      server.process.handlers[h]? = some handler ∧ handler.op = call.args.op ∧
      handler.isGet = call.args.isGet

/-- The answer to a `PutAppend` comes from a server that has got past an entry at least as new. -/
def AnswerWired (s : Store) (answer : Answer) : Prop :=
  ∃ call, s.calls[answer.call]? = some call ∧ (call.args.isGet = false →
    ∃ server, s.servers[answer.server]? = some server ∧
      Covers s.log server.passed call.args.op.clientId call.args.op.requestId)

/-- What belongs to a call fits it. -/
structure Wired (s : Store) : Prop where
  writes : ∀ call ∈ s.calls, KvProcess.writes call.args.op = !call.args.isGet
  rpcs : ∀ rpc ∈ s.rpcs, RpcWired s rpc
  proposals : ∀ proposal ∈ s.proposals, FromCall s proposal.entry
  log : ∀ entry ∈ s.log, FromCall s entry
  answers : ∀ answer ∈ s.answers, AnswerWired s answer

section

omit [KvArchive] [LawfulKvArchive]

/-- The call of an entry stays. -/
theorem FromCall.mono {entry : Entry} (h : FromCall s entry) (hk : Keeps s s') :
    FromCall s' entry := by
  obtain ⟨call, hcall, hop⟩ := h
  exact ⟨call, getElem?_of_isPrefix hk.calls hcall, hop⟩

/-- An RPC stays wired to its call. -/
theorem RpcWired.mono {rpc : Rpc} (h : RpcWired s rpc) (hk : Keeps s s') : RpcWired s' rpc := by
  obtain ⟨call, hcall, hhandler⟩ := h
  refine ⟨call, getElem?_of_isPrefix hk.calls hcall, fun k hrpc => ?_⟩
  obtain ⟨server, handler, hserver, hk', hop, hget⟩ := hhandler k hrpc
  obtain ⟨server', hserver', hkeeps⟩ := hk.servers _ server hserver
  obtain ⟨handler', hhandler', hop', hget'⟩ := hkeeps.handlers k handler hk'
  exact ⟨server', handler', hserver', hhandler', hop'.trans hop, hget'.trans hget⟩

/-- An answer stays wired to its RPC. -/
theorem AnswerWired.mono {answer : Answer} (h : AnswerWired s answer) (hk : Keeps s s') :
    AnswerWired s' answer := by
  obtain ⟨call, hcall, hput⟩ := h
  refine ⟨call, getElem?_of_isPrefix hk.calls hcall, fun hget => ?_⟩
  obtain ⟨server, hserver, hcover⟩ := hput hget
  obtain ⟨server', hserver', hkeeps⟩ := hk.servers _ server hserver
  exact ⟨server', hserver', hcover.mono hk.log hkeeps.passed⟩

/-- There is no call at the start. -/
theorem wired_init (clerks : List Clerk) (maxRaftStates : List Int) :
    Wired (init clerks maxRaftStates) where
  writes _ hmem := by cases hmem
  rpcs _ hmem := by cases hmem
  proposals _ hmem := by cases hmem
  log _ hmem := by cases hmem
  answers _ hmem := by cases hmem

end

/-- **Step lemma.** -/
theorem Wired.step (h : Wired s) (hs : ∀ server ∈ s.servers, Sound s.log server)
    (hchange : Change s a s') : Wired s' := by
  have hk := hchange.keeps hs
  have hrpcs : ∀ rpc ∈ s.rpcs, RpcWired s' rpc := fun rpc hmem => (h.rpcs rpc hmem).mono hk
  have hproposals : ∀ proposal ∈ s.proposals, FromCall s' proposal.entry :=
    fun proposal hmem => (h.proposals proposal hmem).mono hk
  have hlog : ∀ entry ∈ s.log, FromCall s' entry := fun entry hmem => (h.log entry hmem).mono hk
  have hanswers : ∀ answer ∈ s.answers, AnswerWired s' answer :=
    fun answer hmem => (h.answers answer hmem).mono hk
  cases hchange with
  | @called i c client hclient hidle =>
    refine ⟨fun call hmem => ?_, fun rpc hmem => ?_, hproposals, hlog, hanswers⟩
    · rcases List.mem_append.mp hmem with hmem | hmem
      · exact h.writes call hmem
      · obtain rfl := List.mem_singleton.mp hmem
        exact (client.clerk.call_spec c).2.2.2.2
    · rcases List.mem_append.mp hmem with hmem | hmem
      · exact hrpcs rpc hmem
      · obtain rfl := List.mem_singleton.mp hmem
        exact ⟨_, List.getElem?_concat_length, fun k hk => by cases hk⟩
  | @received k raftIndex isLeader rpc call server hrpc hfresh hcall hserver =>
    refine ⟨h.writes, fun rpc' hmem => ?_, fun proposal hmem => ?_, hlog, hanswers⟩
    · rcases List.mem_or_eq_of_mem_set hmem with hmem | rfl
      · exact hrpcs rpc' hmem
      · have hlt := (List.getElem?_eq_some_iff.mp hserver).1
        refine ⟨call, hcall, fun k' hk' => ?_⟩
        obtain rfl := Option.some.inj hk'
        refine ⟨_, _, List.getElem?_set_self hlt, List.getElem?_concat_length, ?_⟩
        unfold Handler.begin
        split <;> exact ⟨rfl, rfl⟩
    · rcases List.mem_append.mp hmem with hmem | hmem
      · exact hproposals proposal hmem
      · split at hmem
        · obtain rfl := List.mem_singleton.mp hmem
          exact ⟨call, hcall, rfl⟩
        · cases hmem
  | @retried a i k next client rpc call hclient hwaiting hrpc hcall ha =>
    refine ⟨h.writes, fun rpc' hmem => ?_, hproposals, hlog, hanswers⟩
    rcases List.mem_append.mp hmem with hmem | hmem
    · exact hrpcs rpc' hmem
    · obtain rfl := List.mem_singleton.mp hmem
      exact ⟨call, hcall, fun k hk => by cases hk⟩
  | @returned i k h' client rpc call server handler reply clerk hclient hwaiting hrpc hcall hserver
      hh hhandler hreply hturn =>
    refine ⟨h.writes, hrpcs, hproposals, hlog, fun answer hmem => ?_⟩
    rcases List.mem_append.mp hmem with hmem | hmem
    · exact hanswers answer hmem
    · obtain rfl := List.mem_singleton.mp hmem
      refine ⟨call, hcall, fun hget => ⟨server, hserver, ?_⟩⟩
      obtain ⟨call', hcall', hserves⟩ := h.rpcs rpc (List.mem_of_getElem? hrpc)
      obtain ⟨server', handler', hserver', hhandler', hop, hisGet⟩ := hserves h' hh
      obtain rfl := Option.some.inj (hcall.symm.trans hcall')
      obtain rfl := Option.some.inj (hserver.symm.trans hserver')
      obtain rfl := Option.some.inj (hhandler.symm.trans hhandler')
      -- the loop returned, so the reply is `OK`
      obtain ⟨_, _, r, hr, herr⟩ := Clerk.turn_done hturn
      obtain rfl := Option.some.inj hr
      have hok : reply.err = KvServer.ok := by
        rcases herr with herr | ⟨hget', _⟩
        · exact herr
        · rw [hget] at hget'
          cases hget'
      have hvouched := (hs server (List.mem_of_getElem? hserver)).vouched
      have hcover := hvouched.acknowledged handler (List.mem_of_getElem? hhandler)
        (hisGet.trans hget) reply hreply hok
      rwa [hop] at hcover
  | @committed k proposal hproposal hindex =>
    refine ⟨h.writes, hrpcs, hproposals, fun entry hmem => ?_, hanswers⟩
    rcases List.mem_append.mp hmem with hmem | hmem
    · exact hlog entry hmem
    · obtain rfl := List.mem_singleton.mp hmem
      exact hproposals proposal (List.mem_of_getElem? hproposal)
  | applied | installed | served => exact ⟨h.writes, hrpcs, hproposals, hlog, hanswers⟩

/-- **Run lemma.** -/
theorem reach_wired {ok : Store → StoreStep → Prop} {clerks : List Clerk}
    {maxRaftStates : List Int} (h : Reach step ok (init clerks maxRaftStates) s) : Wired s :=
  h.invariant (wired_init clerks maxRaftStates) fun _ _ _ hr hwired _ hs =>
    hwired.step (reach_sound hr) (step_change hs)

omit [LawfulKvArchive] in
/-- Every handler serves the request of a call. -/
theorem reach_handlers {ok : Store → StoreStep → Prop} {clerks : List Clerk}
    {maxRaftStates : List Int} (h : Reach step ok (init clerks maxRaftStates) s) :
    ∀ server ∈ s.servers, ∀ handler ∈ server.process.handlers,
      ∃ call ∈ s.calls, handler.op = call.args.op := by
  refine h.invariant (P := fun s => ∀ server ∈ s.servers, ∀ handler ∈ server.process.handlers,
    ∃ call ∈ s.calls, handler.op = call.args.op) ?_ ?_
  · intro server hmem handler hhandler
    obtain ⟨maxRaftState, _, rfl⟩ := List.mem_map.mp hmem
    cases hhandler
  · intro s a s' _ hall _ hs server' hmem handler hhandler
    have hchange := step_change hs
    have hsub := hchange.calls.subset
    obtain ⟨j, hj⟩ := List.mem_iff_getElem?.mp hmem
    obtain ⟨server, hserver, rfl | hnext⟩ := hchange.server hj
    · obtain ⟨call, hcall, hop⟩ := hall server' (List.mem_of_getElem? hserver) handler hhandler
      exact ⟨call, hsub hcall, hop⟩
    · obtain ⟨b, hb, hargs⟩ := hnext.exists_step
      rcases KvProcess.handler_origin hb hhandler with
        ⟨old, hold, hop⟩ | ⟨args, raftIndex, isLeader, heq, hop⟩
      · obtain ⟨call, hcall, hop'⟩ := hall server (List.mem_of_getElem? hserver) old hold
        exact ⟨call, hsub hcall, hop.trans hop'⟩
      · obtain ⟨call, hcall, hop'⟩ := hargs args raftIndex isLeader heq
        exact ⟨call, hsub hcall, hop.trans hop'⟩

end Store

end RaftStore
