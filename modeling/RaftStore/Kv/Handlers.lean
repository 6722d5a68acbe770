import RaftStore.Kv.Change
import RaftStore.Model.Clerk

namespace RaftStore

/-!
# What the handlers know

A handler answers a request with `OK`, or reads the state machine for it, only after the server
has got past an entry of the same client that is at least as new.

* `KvProcess.HandlersAfter`, `QueuesAfter`, `SnapshotsAfter` — the handlers, the queues and the
  snapshots made after a step; `step_effects` is the inversion.
* `KvProcess.Vouched` — the invariant, for any predicate on clients and numbers that is closed
  downwards: the predicate holds of every entry of the table, of every operation in a queue or
  behind the apply thread, and of the request of every handler that reads or has said `OK`.
* `Vouched.step` — a step keeps it, if the predicate holds of what the step runs or installs.
-/

namespace KvServer

/-- The operation waits in one of the queues. -/
def Queued (s : KvServer) (op : Op) : Prop := ∃ queue, some queue ∈ s.channels ∧ op ∈ queue

variable {s : KvServer} {op : Op}

/-- A channel that is opened is empty. -/
theorem queued_openWaitChan {raftIndex : Int} (h : (s.openWaitChan raftIndex).1.Queued op) :
    s.Queued op := by
  obtain ⟨queue, hqueue, hop⟩ := h
  unfold openWaitChan at hqueue
  split at hqueue
  · exact ⟨queue, hqueue, hop⟩
  · rcases List.mem_append.mp hqueue with hold | hnew
    · exact ⟨queue, hold, hop⟩
    · obtain rfl : queue = [] := by simpa using hnew
      cases hop

/-- Closing a channel queues nothing. -/
theorem queued_closeWaitChan {raftIndex : Int} (h : (s.closeWaitChan raftIndex).Queued op) :
    s.Queued op := by
  obtain ⟨queue, hqueue, hop⟩ := h
  unfold closeWaitChan at hqueue
  split at hqueue
  · rcases List.mem_or_eq_of_mem_set hqueue with hold | hnew
    · exact ⟨queue, hold, hop⟩
    · cases hnew
  · exact ⟨queue, hqueue, hop⟩

/-- What is queued was queued before or is the message. -/
theorem queued_sendMessageToWaitChan {sent : Op} {raftIndex : Int}
    (h : (s.sendMessageToWaitChan sent raftIndex).Queued op) : s.Queued op ∨ op = sent := by
  obtain ⟨queue, hqueue, hop⟩ := h
  unfold sendMessageToWaitChan at hqueue
  split at hqueue
  · exact Or.inl ⟨queue, hqueue, hop⟩
  · rename_i ch _
    obtain ⟨k, hk⟩ := List.mem_iff_getElem?.mp hqueue
    rw [List.getElem?_modify] at hk
    obtain ⟨queue', hqueue', hmap⟩ := Option.map_eq_some_iff.mp hk
    have hmem := List.mem_of_getElem? hqueue'
    by_cases hch : ch = k
    · rw [if_pos hch] at hmap
      obtain ⟨old, rfl, rfl⟩ := Option.map_eq_some_iff.mp hmap
      rcases List.mem_append.mp hop with hold | hnew
      · exact Or.inl ⟨old, hmem, hold⟩
      · exact Or.inr (List.mem_singleton.mp hnew)
    · rw [if_neg hch] at hmap
      exact Or.inl ⟨queue, hmap ▸ hmem, hop⟩

end KvServer

namespace KvProcess

/-! ### The handlers after a step -/

/-- What a step makes of the handler that makes it. -/
inductive HandlerMove (s : KvProcess) (handler : Handler) : KvStep → Handler → Prop
  | opened {h ch : ℕ} (hpc : handler.pc = .started) :
      HandlerMove s handler (.openWaitChan h) { handler with pc := .waiting ch }
  | popped {h ch : ℕ} {raftCommitOp : Op} (hpc : handler.pc = .waiting ch)
      (hqueued : s.server.Queued raftCommitOp) :
      HandlerMove s handler (.timeOutPop h) (handler.popped raftCommitOp)
  | timedOut {h ch : ℕ} {isLeader : Bool} (hpc : handler.pc = .waiting ch) :
      HandlerMove s handler (.timeOut h isLeader) { handler with pc := .timedOut isLeader }
  | answered {h : ℕ} {isLeader : Bool} (hpc : handler.pc = .timedOut isLeader) :
      HandlerMove s handler (.answerTimedOut h) (handler.afterTimeOut isLeader
        (s.server.ifRequestDuplicate handler.op.clientId handler.op.requestId))
  | read {h : ℕ} (hpc : handler.pc = .executing) :
      HandlerMove s handler (.executeGet h)
        { handler with
          pc := .answered
          reply := some (KvServer.getReply (s.server.skipList.searchElement handler.op.key)) }
  | closed {h : ℕ} (hpc : handler.pc = .answered) :
      HandlerMove s handler (.closeWaitChan h) { handler with pc := .returned }

/-- The handlers after a step. -/
inductive HandlersAfter (s : KvProcess) (a : KvStep) : List Handler → Prop
  | same : HandlersAfter s a s.handlers
  | began (args : KvArgs) {raftIndex : Int} {isLeader : Bool}
      (ha : a = args.step raftIndex isLeader) :
      HandlersAfter s a (s.handlers ++ [.begin args.isGet args.op raftIndex isLeader])
  | moved {h : ℕ} {handler handler' : Handler} (hhandler : s.handlers[h]? = some handler)
      (hmove : HandlerMove s handler a handler') :
      HandlersAfter s a (s.handlers.set h handler')

variable [KvArchive]

/-- A step that takes a request begins a handler. -/
theorem step_begin (s : KvProcess) (args : KvArgs) (raftIndex : Int) (isLeader : Bool) :
    s.step (args.step raftIndex isLeader) = some
      { s with handlers := s.handlers ++ [.begin args.isGet args.op raftIndex isLeader] } := by
  cases args <;> rfl

/-- What waits in a queue after a step waited there before or has just been sent. -/
def QueuesAfter (s : KvProcess) (server : KvServer) : Prop :=
  ∀ op, server.Queued op → s.server.Queued op ∨ ∃ index, s.applyThread = .notifying op index

/-- A snapshot is made only behind an operation that has been executed, and stands for it. -/
def SnapshotsAfter (s : KvProcess) (snapshots : List (Int × String)) : Prop :=
  snapshots = s.snapshots ∨ ∃ op index, s.applyThread = .executed op index ∧
    snapshots = s.snapshots ++ [(index, s.server.makeSnapShot)]

/-- What a step makes of everything outside the view. -/
structure Effects (s : KvProcess) (a : KvStep) (s' : KvProcess) : Prop where
  handlers : HandlersAfter s a s'.handlers
  queues : s.QueuesAfter s'.server
  snapshots : s.SnapshotsAfter s'.snapshots

/-- A snapshot leaves the channels. -/
theorem getSnapShotFromRaft_channels {s s' : KvServer} {message : ApplyMsg}
    (h : s.getSnapShotFromRaft message = some s') :
    s'.channels = s.channels ∧ s'.waitApplyCh = s.waitApplyCh := by
  unfold KvServer.getSnapShotFromRaft KvServer.readSnapShotToInstall KvServer.parseFromString at h
  split at h
  · obtain ⟨t, ht, rfl⟩ := Option.map_eq_some_iff.mp h
    split at ht
    · rw [← Option.some.inj ht]
      exact ⟨rfl, rfl⟩
    · obtain ⟨record, _, ht⟩ := Option.bind_eq_some_iff.mp ht
      obtain ⟨skipList, _, ht⟩ := Option.bind_eq_some_iff.mp ht
      rw [← Option.some.inj ht]
      exact ⟨rfl, rfl⟩
  · rw [← Option.some.inj h]
    exact ⟨rfl, rfl⟩

/-- **Step lemma.**  Every step has these effects. -/
theorem step_effects {s s' : KvProcess} {a : KvStep} (h : s.step a = some s') : Effects s a s' := by
  have hold : s.QueuesAfter s.server := fun op hop => Or.inl hop
  cases stepped_of_step h with
  | skipped | received | duplicate | fresh => exact ⟨.same, hold, Or.inl rfl⟩
  | installed hidle hserver =>
    -- installing a snapshot replaces the map and the request ids, not the channels
    refine ⟨.same, fun op hop => Or.inl ?_, Or.inl rfl⟩
    rwa [KvServer.Queued, (getSnapShotFromRaft_channels hserver).1] at hop
  | executed =>
    rw [executeOp_eq]
    refine ⟨.same, fun op hop => Or.inl ?_, Or.inl rfl⟩
    revert hop
    dsimp only
    split <;> exact id
  | @measured op index raftStateSize hthread =>
    refine ⟨.same, hold, ?_⟩
    -- only here is a snapshot made, of the state after the operation of the thread
    unfold KvServer.ifNeedToSendSnapShotCommand
    split
    · split
      · exact Or.inr ⟨op, index, hthread, rfl⟩
      · exact Or.inl (List.append_nil _)
    · exact Or.inl (List.append_nil _)
  | @notified sent index hthread =>
    refine ⟨.same, fun op hop => ?_, Or.inl rfl⟩
    -- only here does a queue get longer, by the operation of the thread
    rcases KvServer.queued_sendMessageToWaitChan hop with hop | rfl
    · exact Or.inl hop
    · exact Or.inr ⟨index, hthread⟩
  | get key clientId requestId => exact ⟨.began (.get key clientId requestId) rfl, hold, Or.inl rfl⟩
  | putAppend operation key value clientId requestId =>
    exact ⟨.began (.putAppend key value operation clientId requestId) rfl, hold, Or.inl rfl⟩
  | opened hhandler hpc =>
    exact ⟨.moved hhandler (.opened hpc),
      fun op hop => Or.inl (KvServer.queued_openWaitChan hop), Or.inl rfl⟩
  | popped hhandler hpc hqueue =>
    have hmem := List.mem_of_getElem? hqueue
    refine ⟨.moved hhandler (.popped hpc ⟨_, hmem, List.mem_cons_self ..⟩), fun op hop => ?_,
      Or.inl rfl⟩
    obtain ⟨queue, hq, hop⟩ := hop
    -- the queue that was popped is a tail of the one before
    rcases List.mem_or_eq_of_mem_set hq with hq | hq
    · exact Or.inl ⟨queue, hq, hop⟩
    · rw [Option.some.inj hq] at hop
      exact Or.inl ⟨_, hmem, List.mem_cons_of_mem _ hop⟩
  | timedOut hhandler hpc => exact ⟨.moved hhandler (.timedOut hpc), hold, Or.inl rfl⟩
  | answered hhandler hpc => exact ⟨.moved hhandler (.answered hpc), hold, Or.inl rfl⟩
  | read hhandler hpc => exact ⟨.moved hhandler (.read hpc), hold, Or.inl rfl⟩
  | closed hhandler hpc =>
    exact ⟨.moved hhandler (.closed hpc),
      fun op hop => Or.inl (KvServer.queued_closeWaitChan hop), Or.inl rfl⟩

omit [KvArchive] in
/-- A handler serves one request. -/
theorem HandlerMove.request {s : KvProcess} {a : KvStep} {handler handler' : Handler}
    (h : HandlerMove s handler a handler') :
    handler'.op = handler.op ∧ handler'.isGet = handler.isGet := by
  cases h with
  | opened | timedOut | read | closed => exact ⟨rfl, rfl⟩
  | popped =>
    unfold Handler.popped
    split
    · split <;> exact ⟨rfl, rfl⟩
    · exact ⟨rfl, rfl⟩
  | answered =>
    unfold Handler.afterTimeOut
    split
    · split <;> exact ⟨rfl, rfl⟩
    · exact ⟨rfl, rfl⟩

/-- No handler goes away. -/
theorem exists_handler {s s' : KvProcess} {a : KvStep} (hs : s.step a = some s') {k : ℕ}
    {handler : Handler} (hk : s.handlers[k]? = some handler) :
    ∃ handler', s'.handlers[k]? = some handler' ∧ handler'.op = handler.op ∧
      handler'.isGet = handler.isGet := by
  have hafter := (step_effects hs).handlers
  generalize s'.handlers = handlers at hafter ⊢
  cases hafter with
  | same => exact ⟨handler, hk, rfl, rfl⟩
  | began args ha =>
    have hlt := (List.getElem?_eq_some_iff.mp hk).1
    exact ⟨handler, (List.getElem?_append_left hlt).trans hk, rfl, rfl⟩
  | @moved h moving moved hmoving hmove =>
    by_cases hhk : h = k
    · subst hhk
      obtain rfl := Option.some.inj (hmoving.symm.trans hk)
      have hlt := (List.getElem?_eq_some_iff.mp hk).1
      exact ⟨moved, List.getElem?_set_self hlt, hmove.request⟩
    · exact ⟨handler, (List.getElem?_set_ne hhk).trans hk, rfl, rfl⟩

/-- Where the request of a handler comes from. -/
theorem handler_origin {s s' : KvProcess} {a : KvStep} (hs : s.step a = some s')
    {handler : Handler} (hmem : handler ∈ s'.handlers) :
    (∃ old ∈ s.handlers, handler.op = old.op) ∨
      ∃ (args : KvArgs) (raftIndex : Int) (isLeader : Bool),
        a = args.step raftIndex isLeader ∧ handler.op = args.op := by
  have hafter := (step_effects hs).handlers
  generalize s'.handlers = handlers at hafter hmem
  cases hafter with
  | same => exact Or.inl ⟨handler, hmem, rfl⟩
  | @began args raftIndex isLeader ha =>
    rcases List.mem_append.mp hmem with hmem | hmem
    · exact Or.inl ⟨handler, hmem, rfl⟩
    · obtain rfl := List.mem_singleton.mp hmem
      refine Or.inr ⟨args, raftIndex, isLeader, ha, ?_⟩
      unfold Handler.begin
      split <;> rfl
  | @moved h old handler' hhandler hmove =>
    rcases List.mem_or_eq_of_mem_set hmem with hmem | rfl
    · exact Or.inl ⟨handler, hmem, rfl⟩
    · exact Or.inl ⟨old, List.mem_of_getElem? hhandler, hmove.request.1⟩

/-- **Answers to a `Get`.**  What a handler of a `Get` has to say other than `ErrWrongLeader` it
    said before the step, or it reads it from the state machine now. -/
theorem get_reply_cases {s s' : KvProcess} {a : KvStep} (hs : s.step a = some s')
    {handler : Handler} (hmem : handler ∈ s'.handlers) (hget : handler.isGet = true)
    {reply : KvReply} (hreply : reply ∈ handler.reply)
    (herr : reply.err ≠ KvServer.errWrongLeader) :
    (∃ old ∈ s.handlers, old.op = handler.op ∧ old.isGet = true ∧ reply ∈ old.reply) ∨
      ∃ old ∈ s.handlers, old.op = handler.op ∧ old.pc = .executing ∧
        reply = KvServer.getReply (s.server.skipList.searchElement handler.op.key) := by
  have hwrong : reply ∉ (some { err := KvServer.errWrongLeader } : Option KvReply) :=
    fun h => herr (by rw [← Option.some.inj h])
  have hafter := (step_effects hs).handlers
  generalize s'.handlers = handlers at hafter hmem
  cases hafter with
  | same => exact Or.inl ⟨handler, hmem, rfl, hget, hreply⟩
  | began args ha =>
    rcases List.mem_append.mp hmem with hmem | hmem
    · exact Or.inl ⟨handler, hmem, rfl, hget, hreply⟩
    · obtain rfl := List.mem_singleton.mp hmem
      unfold Handler.begin at hreply
      split at hreply
      · cases hreply
      · exact absurd hreply hwrong
  | @moved h old handler' hhandler hmove =>
    rcases List.mem_or_eq_of_mem_set hmem with hmem | rfl
    · exact Or.inl ⟨handler, hmem, rfl, hget, hreply⟩
    · have hold := List.mem_of_getElem? hhandler
      -- an answer that was not there is `ErrWrongLeader`, unless the state machine was read
      obtain ⟨hop, hisGet⟩ := hmove.request
      rw [hisGet] at hget
      cases hmove with
      | opened | timedOut | closed => exact Or.inl ⟨old, hold, rfl, hget, hreply⟩
      | read hpc => exact Or.inr ⟨old, hold, rfl, hpc, (Option.some.inj hreply).symm⟩
      | popped =>
        rw [hop]
        unfold Handler.popped at hreply
        rw [if_pos hget] at hreply
        split at hreply
        · exact Or.inl ⟨old, hold, rfl, hget, hreply⟩
        · exact absurd hreply hwrong
      | answered =>
        rw [hop]
        unfold Handler.afterTimeOut at hreply
        rw [if_pos hget] at hreply
        split at hreply
        · exact Or.inl ⟨old, hold, rfl, hget, hreply⟩
        · exact absurd hreply hwrong

/-! ### What has been got past -/

/-- The predicate holds of all that an answer may rest on. -/
structure Vouched (P : String → Int → Prop) (s : KvProcess) : Prop where
  table : ∀ c, ∀ last ∈ s.server.lastRequestId.lookup c, P c last
  queued : ∀ op, s.server.Queued op → P op.clientId op.requestId
  passed : ∀ op index, s.applyThread = .executed op index ∨ s.applyThread = .notifying op index →
    P op.clientId op.requestId
  reading : ∀ handler ∈ s.handlers, handler.pc = .executing →
    P handler.op.clientId handler.op.requestId
  acknowledged : ∀ handler ∈ s.handlers, handler.isGet = false →
    ∀ reply ∈ handler.reply, reply.err = KvServer.ok → P handler.op.clientId handler.op.requestId

omit [KvArchive] in
/-- `ErrWrongLeader` is not `OK`. -/
theorem err_ne_ok {reply : KvReply}
    (h : reply ∈ (some { err := KvServer.errWrongLeader } : Option KvReply)) :
    reply.err ≠ KvServer.ok := by
  rw [← Option.some.inj h]
  decide

section

variable {P P' : String → Int → Prop} {s s' : KvProcess}

omit [KvArchive] in
/-- A weaker property is vouched for too. -/
theorem Vouched.mono (h : s.Vouched P) (himp : ∀ c r, P c r → P' c r) : s.Vouched P' where
  table c last hlast := himp _ _ (h.table c last hlast)
  queued op hop := himp _ _ (h.queued op hop)
  passed op index hthread := himp _ _ (h.passed op index hthread)
  reading handler hmem hpc := himp _ _ (h.reading handler hmem hpc)
  acknowledged handler hmem hget reply hreply hok :=
    himp _ _ (h.acknowledged handler hmem hget reply hreply hok)

omit [KvArchive] in
/-- A server starts with nothing to vouch for. -/
theorem vouched_init (P : String → Int → Prop) (maxRaftState : Int) :
    (init maxRaftState).Vouched P where
  table _ _ hlast := by cases hlast
  queued _ hop := by
    obtain ⟨_, hqueue, _⟩ := hop
    cases hqueue
  passed _ _ hthread := by rcases hthread with h | h <;> cases h
  reading _ hmem := by cases hmem
  acknowledged _ hmem := by cases hmem

omit [KvArchive] in
/-- A duplicate is vouched for. -/
theorem Vouched.of_duplicate (h : s.Vouched P) (hdown : ∀ c r r', P c r → r' ≤ r → P c r')
    {c : String} {r : Int} (hdup : s.server.ifRequestDuplicate c r = true) : P c r := by
  obtain ⟨last, hlast, hle⟩ := (ifRequestDuplicate_iff _ _ _).mp hdup
  exact hdown c last r (h.table c last hlast) hle

omit [KvArchive] in
/-- A handler that has moved on its own. -/
theorem Vouched.of_move (h : s.Vouched P) (hdown : ∀ c r r', P c r → r' ≤ r → P c r') {a : KvStep}
    {handler handler' : Handler} (hmem : handler ∈ s.handlers)
    (hmove : HandlerMove s handler a handler') :
    (handler'.pc = .executing → P handler'.op.clientId handler'.op.requestId) ∧
      (handler'.isGet = false → ∀ reply ∈ handler'.reply, reply.err = KvServer.ok →
        P handler'.op.clientId handler'.op.requestId) := by
  have hack := h.acknowledged handler hmem
  cases hmove with
  | opened | timedOut | closed => exact ⟨fun hpc => (by cases hpc), hack⟩
  | read hpc => exact ⟨fun hpc => (by cases hpc), fun _ _ _ _ => h.reading handler hmem hpc⟩
  | popped hpc hqueued =>
    -- what the handler pops is vouched for, and it answers `OK` only if that is its own request
    have hpop := h.queued _ hqueued
    unfold Handler.popped
    split
    · rename_i heq
      rw [heq.1, heq.2] at hpop
      split <;> exact ⟨fun _ => hpop, fun _ _ _ _ => hpop⟩
    · exact ⟨fun hpc => (by cases hpc), fun _ _ hreply hok => absurd hok (err_ne_ok hreply)⟩
  | answered hpc =>
    -- after the timeout it answers `OK` only if the table already shows its request
    have hdup := h.of_duplicate (c := handler.op.clientId) (r := handler.op.requestId) hdown
    unfold Handler.afterTimeOut
    split
    · split
      · rename_i hboth
        have hP := hdup (Bool.and_eq_true_iff.mp hboth).1
        exact ⟨fun _ => hP, fun _ _ _ _ => hP⟩
      · exact ⟨fun hpc => (by cases hpc), fun _ _ hreply hok => absurd hok (err_ne_ok hreply)⟩
    · refine ⟨fun hpc => (by cases hpc), fun _ reply hreply hok => ?_⟩
      split at hreply
      · exact hdup ‹_›
      · exact absurd hok (err_ne_ok hreply)

end

/-- **Step lemma.**  A step keeps the invariant if the predicate holds of what the apply thread
    runs and of the table that a snapshot brings. -/
theorem Vouched.step {P : String → Int → Prop} {s s' : KvProcess} {a : KvStep} (h : s.Vouched P)
    (hdown : ∀ c r r', P c r → r' ≤ r → P c r') (hs : s.step a = some s')
    (hrun : ∀ op index, a = .executeOp → s.applyThread = .executing op index →
      P op.clientId op.requestId)
    (hinstall : ∀ message, a = .getSnapShotFromRaft message →
      ∀ c, ∀ last ∈ s'.server.lastRequestId.lookup c, P c last) : s'.Vouched P := by
  have hview := step_change hs
  obtain ⟨hhandlers, hqueues, -⟩ := step_effects hs
  have hqueued : ∀ op, s'.server.Queued op → P op.clientId op.requestId := by
    intro op hop
    rcases hqueues op hop with hop | ⟨index, hthread⟩
    · exact h.queued op hop
    · exact h.passed op index (Or.inr hthread)
  have hall : ∀ handler ∈ s'.handlers,
      (handler.pc = .executing → P handler.op.clientId handler.op.requestId) ∧
        (handler.isGet = false → ∀ reply ∈ handler.reply, reply.err = KvServer.ok →
          P handler.op.clientId handler.op.requestId) := by
    have hold : ∀ handler ∈ s.handlers, _ := fun handler hmem =>
      And.intro (h.reading handler hmem) (h.acknowledged handler hmem)
    generalize s'.handlers = handlers at hhandlers
    cases hhandlers with
    | same => exact hold
    | @began args raftIndex isLeader ha =>
      intro handler hmem
      rcases List.mem_append.mp hmem with hmem | hmem
      · exact hold handler hmem
      · obtain rfl := List.mem_singleton.mp hmem
        unfold Handler.begin
        split
        · exact ⟨fun hpc => (by cases hpc), fun _ _ hreply => by cases hreply⟩
        · exact ⟨fun hpc => (by cases hpc), fun _ _ hreply hok => absurd hok (err_ne_ok hreply)⟩
    | @moved k handler handler' hhandler hmove =>
      intro other hmem
      rcases List.mem_or_eq_of_mem_set hmem with hmem | rfl
      · exact hold other hmem
      · exact h.of_move hdown (List.mem_of_getElem? hhandler) hmove
  -- the table and the apply thread
  have hview' : (∀ c, ∀ last ∈ s'.view.lastRequestId.lookup c, P c last) ∧
      ∀ op index, s'.view.applyThread = .executed op index ∨
        s'.view.applyThread = .notifying op index → P op.clientId op.requestId := by
    have hinsert : ∀ c r, P c r → ∀ c',
        ∀ last ∈ (s.server.lastRequestId.insert c r).lookup c', P c' last := by
      intro c r hP c' last hlast
      by_cases hc : c' = c
      · subst hc
        rw [Finmap.lookup_insert, Option.mem_some] at hlast
        exact hlast ▸ hP
      · rw [Finmap.lookup_insert_of_ne _ hc] at hlast
        exact h.table c' last hlast
    have hinstalled := fun message ha => hinstall message ha
    change ∀ message, _ → ∀ c, ∀ last ∈ s'.view.lastRequestId.lookup c, P c last at hinstalled
    generalize s'.view = v at hview hinstalled ⊢
    cases hview with
    | skipped => exact ⟨h.table, h.passed⟩
    | received => exact ⟨h.table, fun op index ht => by rcases ht with ht | ht <;> cases ht⟩
    | installed => exact ⟨hinstalled _ rfl, h.passed⟩
    | @duplicate op index hthread hdup =>
      refine ⟨h.table, fun op' index' ht => ?_⟩
      rcases ht with ht | ht
      · obtain ⟨rfl, -⟩ := ApplyThread.executed.inj ht
        exact h.of_duplicate hdown hdup
      · cases ht
    | fresh => exact ⟨h.table, fun op index ht => by rcases ht with ht | ht <;> cases ht⟩
    | @wrote op index hthread hwrites =>
      have hP := hrun op index rfl hthread
      refine ⟨hinsert _ _ hP, fun op' index' ht => ?_⟩
      rcases ht with ht | ht
      · obtain ⟨rfl, -⟩ := ApplyThread.executed.inj ht
        exact hP
      · cases ht
    | @passed op index hthread hwrites =>
      have hP := hrun op index rfl hthread
      refine ⟨h.table, fun op' index' ht => ?_⟩
      rcases ht with ht | ht
      · obtain ⟨rfl, -⟩ := ApplyThread.executed.inj ht
        exact hP
      · cases ht
    | @measured op index raftStateSize hthread =>
      refine ⟨h.table, fun op' index' ht => ?_⟩
      rcases ht with ht | ht
      · cases ht
      · obtain ⟨rfl, -⟩ := ApplyThread.notifying.inj ht
        exact h.passed op index (Or.inl hthread)
    | notified => exact ⟨h.table, fun op index ht => by rcases ht with ht | ht <;> cases ht⟩
    | read hhandler hpc =>
      exact ⟨hinsert _ _ (h.reading _ (List.mem_of_getElem? hhandler) hpc), h.passed⟩
    | quiet => exact ⟨h.table, h.passed⟩
  exact ⟨hview'.1, hqueued, hview'.2, fun handler hmem => (hall handler hmem).1,
    fun handler hmem => (hall handler hmem).2⟩

end KvProcess

end RaftStore
