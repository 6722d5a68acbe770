import RaftStore.Kv.Handlers
import RaftStore.Lib.Consensus
import RaftStore.Model.ServerProcess
import RaftStore.Node.Calls

namespace RaftStore

/-!
# Wait channels

A handler that has inserted its queue into `waitApplyCh` and not yet erased it has the queue for
itself, as long as no two handlers wait for the same index.

* `KvProcess.ChannelStep`, `step_channels` — what a step does to the handlers, to the map and to
  the queues.
* `KvProcess.Owns` — the invariant of the server; `Owns.step` keeps it, if a new handler waits for
  an index that no other handler waits for.
* `ServerProcess.Inv` — with the node: an index that `Start` has returned lies at or below the end
  of the log, and the end of the log never moves back, so that `Start` returns no index twice.
* `ServerProcess.waitChannels` — the run lemma.
-/

namespace Handler

/-- Between the insertion into `waitApplyCh` and the erasure from it. -/
def Active (handler : Handler) : Prop := handler.pc ≠ .started ∧ handler.pc ≠ .returned

/-- Until the handler has returned, it may use its index. -/
def Live (handler : Handler) : Prop := handler.pc ≠ .returned

/-- An active handler is live. -/
theorem Active.live {handler : Handler} (h : handler.Active) : handler.Live := h.2

end Handler

/-- The queue at an address has not been deleted. -/
def KvServer.Exists (s : KvServer) (ch : ℕ) : Prop := ∃ queue, s.channels[ch]? = some (some queue)

namespace KvProcess

/-! ### One step -/

/-- What a step does to the handlers, to `waitApplyCh` and to the queues. -/
inductive ChannelStep (s : KvProcess) : KvStep → KvProcess → Prop
  | kept {a : KvStep} {s' : KvProcess} (hhandlers : s'.handlers = s.handlers)
      (hmap : s'.server.waitApplyCh = s.server.waitApplyCh)
      (hexists : ∀ ch, s.server.Exists ch → s'.server.Exists ch) : ChannelStep s a s'
  | began {a : KvStep} {s' : KvProcess} (args : KvArgs) {raftIndex : Int} {isLeader : Bool}
      (ha : a = args.step raftIndex isLeader)
      (hhandlers : s'.handlers = s.handlers ++ [.begin args.isGet args.op raftIndex isLeader])
      (hserver : s'.server = s.server) : ChannelStep s a s'
  | opened {h : ℕ} {handler : Handler} {s' : KvProcess} (hhandler : s.handlers[h]? = some handler)
      (hpc : handler.pc = .started)
      (hhandlers : s'.handlers =
        s.handlers.set h { handler with pc := .waiting (s.server.openWaitChan handler.raftIndex).2 })
      (hserver : s'.server = (s.server.openWaitChan handler.raftIndex).1) :
      ChannelStep s (.openWaitChan h) s'
  | moved {a : KvStep} {h : ℕ} {handler handler' : Handler} {s' : KvProcess}
      (hhandler : s.handlers[h]? = some handler) (hactive : handler.Active)
      (hhandlers : s'.handlers = s.handlers.set h handler') (hactive' : handler'.Active)
      (hindex : handler'.raftIndex = handler.raftIndex)
      (hwait : ∀ ch, handler'.pc ≠ .waiting ch)
      (hmap : s'.server.waitApplyCh = s.server.waitApplyCh)
      (hexists : ∀ ch, s.server.Exists ch → s'.server.Exists ch) : ChannelStep s a s'
  | closed {h : ℕ} {handler : Handler} {s' : KvProcess} (hhandler : s.handlers[h]? = some handler)
      (hpc : handler.pc = .answered)
      (hhandlers : s'.handlers = s.handlers.set h { handler with pc := .returned })
      (hserver : s'.server = s.server.closeWaitChan handler.raftIndex) :
      ChannelStep s (.closeWaitChan h) s'

end KvProcess

namespace KvServer

variable {s : KvServer}

/-- Sending adds to a queue and deletes none. -/
theorem Exists.sendMessageToWaitChan {ch : ℕ} (h : s.Exists ch) (op : Op) (raftIndex : Int) :
    (s.sendMessageToWaitChan op raftIndex).Exists ch := by
  unfold KvServer.sendMessageToWaitChan
  split
  · exact h
  · rename_i ch' _
    obtain ⟨queue, hqueue⟩ := h
    show ∃ queue, (s.channels.modify ch' (Option.map (· ++ [op])))[ch]? = some (some queue)
    rw [List.getElem?_modify, hqueue]
    by_cases hch : ch' = ch <;> simp [hch]

/-- So does replacing a queue by another one. -/
theorem Exists.set {ch : ℕ} (h : s.Exists ch) (ch' : ℕ) (rest : List Op) :
    { s with channels := s.channels.set ch' (some rest) }.Exists ch := by
  obtain ⟨queue, hqueue⟩ := h
  show ∃ queue, (s.channels.set ch' (some rest))[ch]? = some (some queue)
  by_cases hch : ch' = ch
  · subst hch
    exact ⟨rest, List.getElem?_set_self (List.getElem?_eq_some_iff.mp hqueue).1⟩
  · exact ⟨queue, (List.getElem?_set_ne hch).trans hqueue⟩

/-- Executing an operation leaves the map and the queues alone. -/
theorem executeOp_channels (op : Op) :
    (s.executeOp op).waitApplyCh = s.waitApplyCh ∧ (s.executeOp op).channels = s.channels := by
  unfold executeOp executePutOpOnKVDB executeAppendOpOnKVDB
  constructor
  all_goals split <;> split <;> rfl

end KvServer

namespace Handler

variable (handler : Handler)

/-- After its wait a handler keeps its place in the map until it has answered. -/
theorem active_popped (raftCommitOp : Op) :
    (handler.popped raftCommitOp).Active ∧
      (handler.popped raftCommitOp).raftIndex = handler.raftIndex ∧
      ∀ ch, (handler.popped raftCommitOp).pc ≠ .waiting ch := by
  unfold popped
  split
  · split <;> simp [Active]
  · simp [Active]

/-- A handler whose wait ran out is active, and waits on no channel. -/
theorem active_afterTimeOut (isLeader duplicate : Bool) :
    (handler.afterTimeOut isLeader duplicate).Active ∧
      (handler.afterTimeOut isLeader duplicate).raftIndex = handler.raftIndex ∧
      ∀ ch, (handler.afterTimeOut isLeader duplicate).pc ≠ .waiting ch := by
  unfold afterTimeOut
  split
  · split <;> simp [Active]
  · simp [Active]

end Handler

namespace KvProcess

variable [KvArchive]

/-- **Inversion.**  The cases follow what a step does with the map: most leave it, a handler that
    comes or goes changes it. -/
theorem step_channels {s s' : KvProcess} {a : KvStep} (h : s.step a = some s') :
    ChannelStep s a s' := by
  have hsame : ∀ ch, s.server.Exists ch → s.server.Exists ch := fun _ hch => hch
  cases stepped_of_step h with
  | skipped | received | duplicate | fresh | measured => exact .kept rfl rfl hsame
  | installed hidle hserver =>
    obtain ⟨hchannels, hmap⟩ := getSnapShotFromRaft_channels hserver
    refine .kept rfl hmap fun ch hch => ?_
    rwa [KvServer.Exists, hchannels]
  | @executed op index =>
    obtain ⟨hmap, hchannels⟩ := KvServer.executeOp_channels (s := s.server) op
    refine .kept rfl hmap fun ch hch => ?_
    rwa [KvServer.Exists, hchannels]
  | @notified op index =>
    refine .kept rfl ?_ fun ch hch => hch.sendMessageToWaitChan op index
    show (s.server.sendMessageToWaitChan op index).waitApplyCh = _
    unfold KvServer.sendMessageToWaitChan
    split <;> rfl
  | get key clientId requestId => exact .began (.get key clientId requestId) rfl rfl rfl
  | putAppend operation key value clientId requestId =>
    exact .began (.putAppend key value operation clientId requestId) rfl rfl rfl
  | opened hhandler hpc => exact .opened hhandler hpc rfl rfl
  | @popped k ch handler raftCommitOp rest hhandler hpc hqueue =>
    -- the handler has what it waited for, and keeps its entry
    obtain ⟨hactive, hindex, hwait⟩ := handler.active_popped raftCommitOp
    exact .moved hhandler (by simp [Handler.Active, hpc]) rfl hactive hindex hwait rfl
      fun ch' hch' => hch'.set ch rest
  | timedOut hhandler hpc =>
    exact .moved hhandler (by simp [Handler.Active, hpc]) rfl (by simp [Handler.Active]) rfl
      (by simp) rfl hsame
  | @answered k handler isLeader hhandler hpc =>
    obtain ⟨hactive, hindex, hwait⟩ := handler.active_afterTimeOut isLeader
      (s.server.ifRequestDuplicate handler.op.clientId handler.op.requestId)
    exact .moved hhandler (by simp [Handler.Active, hpc]) rfl hactive hindex hwait rfl hsame
  | read hhandler hpc =>
    exact .moved hhandler (by simp [Handler.Active, hpc]) rfl (by simp [Handler.Active]) rfl
      (by simp) rfl hsame
  | closed hhandler hpc => exact .closed hhandler hpc rfl rfl

/-! ### The invariant of the server -/

/-- No two handlers that have not returned have one index, and the entries of `waitApplyCh` are
    those of the handlers between insertion and erasure, each with a queue of its own. -/
structure Owns (s : KvProcess) : Prop where
  distinct : ∀ {j k : ℕ} {handler handler' : Handler}, s.handlers[j]? = some handler →
    s.handlers[k]? = some handler' → handler.Live → handler'.Live →
    handler.raftIndex = handler'.raftIndex → j = k
  channel : ∀ {k : ℕ} {handler : Handler}, s.handlers[k]? = some handler → handler.Active →
    ∃ ch, s.server.waitApplyCh.lookup handler.raftIndex = some ch ∧ s.server.Exists ch ∧
      ∀ ch', handler.pc = .waiting ch' → ch' = ch
  mapped : ∀ {i : Int} {ch : ℕ}, s.server.waitApplyCh.lookup i = some ch →
    ∃ (k : ℕ) (handler : Handler), s.handlers[k]? = some handler ∧ handler.Active ∧
      handler.raftIndex = i
  injective : ∀ {i j : Int} {ch : ℕ}, s.server.waitApplyCh.lookup i = some ch →
    s.server.waitApplyCh.lookup j = some ch → i = j

namespace Owns

variable {s s' : KvProcess}

omit [KvArchive] in
/-- Replacing a handler that has not returned by one with the same index. -/
theorem distinct_set (hs : s.Owns) {h : ℕ} {handler handler₁ : Handler}
    (hhandler : s.handlers[h]? = some handler) (hlive : handler.Live) {j k : ℕ} {x y : Handler}
    (hj : (s.handlers.set h handler₁)[j]? = some x) (hk : (s.handlers.set h handler₁)[k]? = some y)
    (hindex : handler₁.raftIndex = handler.raftIndex) (hx : x.Live) (hy : y.Live)
    (hxy : x.raftIndex = y.raftIndex) : j = k := by
  rcases getElem?_set_cases hj with ⟨rfl, rfl⟩ | ⟨hjh, hjold⟩
  · rcases getElem?_set_cases hk with ⟨rfl, rfl⟩ | ⟨hkh, hk⟩
    · rfl
    · exact hs.distinct hhandler hk hlive hy (hindex.symm.trans hxy)
  · rcases getElem?_set_cases hk with ⟨rfl, rfl⟩ | ⟨hkh, hk⟩
    · exact hs.distinct hjold hhandler hx hlive (hxy.trans hindex)
    · exact hs.distinct hjold hk hx hy hxy

omit [KvArchive] in
/-- Where the handlers stay and no queue is deleted. -/
theorem kept (hs : s.Owns) (hhandlers : s'.handlers = s.handlers)
    (hmap : s'.server.waitApplyCh = s.server.waitApplyCh)
    (hexists : ∀ ch, s.server.Exists ch → s'.server.Exists ch) : s'.Owns where
  distinct := by
    rw [hhandlers]
    exact hs.distinct
  channel := by
    rw [hhandlers, hmap]
    intro k handler hk hactive
    obtain ⟨ch, hch, hqueue, hwait⟩ := hs.channel hk hactive
    exact ⟨ch, hch, hexists ch hqueue, hwait⟩
  mapped := by
    rw [hhandlers, hmap]
    exact hs.mapped
  injective := by
    rw [hmap]
    exact hs.injective

omit [KvArchive] in
/-- Where a handler goes on without leaving the map. -/
theorem moved (hs : s.Owns) {h : ℕ} {handler handler' : Handler}
    (hhandler : s.handlers[h]? = some handler) (hactive : handler.Active)
    (hhandlers : s'.handlers = s.handlers.set h handler') (hactive' : handler'.Active)
    (hindex : handler'.raftIndex = handler.raftIndex) (hwait : ∀ ch, handler'.pc ≠ .waiting ch)
    (hmap : s'.server.waitApplyCh = s.server.waitApplyCh)
    (hexists : ∀ ch, s.server.Exists ch → s'.server.Exists ch) : s'.Owns where
  distinct := by
    rw [hhandlers]
    intro j k x y hj hk hx hy hxy
    exact hs.distinct_set hhandler hactive.live hj hk hindex hx hy hxy
  channel := by
    rw [hhandlers, hmap]
    intro k x hk hx
    -- the queue stays in the map and is not deleted
    rcases getElem?_set_cases hk with ⟨rfl, rfl⟩ | ⟨hkh, hk⟩
    · obtain ⟨ch, hch, hqueue, -⟩ := hs.channel hhandler hactive
      rw [hindex]
      exact ⟨ch, hch, hexists ch hqueue, fun ch' hpc => absurd hpc (hwait ch')⟩
    · obtain ⟨ch, hch, hqueue, hw⟩ := hs.channel hk hx
      exact ⟨ch, hch, hexists ch hqueue, hw⟩
  mapped := by
    rw [hhandlers, hmap]
    intro i ch hi
    obtain ⟨k, x, hk, hx, hxi⟩ := hs.mapped hi
    rcases getElem?_set_split hhandler hk handler' with ⟨rfl, rfl, hset⟩ | hset
    · exact ⟨h, handler', hset, hactive', hindex.trans hxi⟩
    · exact ⟨k, x, hset, hx, hxi⟩
  injective := by
    rw [hmap]
    exact hs.injective

omit [KvArchive] in
/-- A new handler, with an index that no other handler uses. -/
theorem began (hs : s.Owns) {new : Handler} (hinactive : ¬ new.Active)
    (hfresh : new.Live → ∀ handler ∈ s.handlers, handler.Live → handler.raftIndex ≠ new.raftIndex)
    (hhandlers : s'.handlers = s.handlers ++ [new]) (hserver : s'.server = s.server) :
    s'.Owns where
  distinct := by
    rw [hhandlers]
    intro j k x y hj hk hx hy hxy
    rcases getElem?_concat_cases hj with hjold | ⟨rfl, rfl⟩
    · rcases getElem?_concat_cases hk with hk | ⟨rfl, rfl⟩
      · exact hs.distinct hjold hk hx hy hxy
      · exact absurd hxy (hfresh hy x (List.mem_of_getElem? hjold) hx)
    · rcases getElem?_concat_cases hk with hk | ⟨rfl, rfl⟩
      · exact absurd hxy.symm (hfresh hx y (List.mem_of_getElem? hk) hy)
      · rfl
  channel := by
    rw [hhandlers, hserver]
    intro k x hk hx
    rcases getElem?_concat_cases hk with hk | ⟨rfl, rfl⟩
    · exact hs.channel hk hx
    -- it has not yet entered the map
    · exact absurd hx hinactive
  mapped := by
    rw [hhandlers, hserver]
    intro i ch hi
    obtain ⟨k, x, hk, hx, hxi⟩ := hs.mapped hi
    have hlt := (List.getElem?_eq_some_iff.mp hk).1
    exact ⟨k, x, (List.getElem?_append_left hlt).trans hk, hx, hxi⟩
  injective := by
    rw [hserver]
    exact hs.injective

omit [KvArchive] in
/-- A handler that has not inserted its queue finds no entry for its index. -/
theorem lookup_started (hs : s.Owns) {h : ℕ} {handler : Handler}
    (hhandler : s.handlers[h]? = some handler) (hpc : handler.pc = .started) :
    s.server.waitApplyCh.lookup handler.raftIndex = none := by
  cases hlookup : s.server.waitApplyCh.lookup handler.raftIndex with
  | none => rfl
  | some ch =>
    -- the entry would belong to a handler in the map with the same index
    obtain ⟨k, x, hk, hx, hxi⟩ := hs.mapped hlookup
    have hlive : handler.Live := by simp [Handler.Live, hpc]
    obtain rfl := hs.distinct hk hhandler hx.live hlive hxi
    obtain rfl := Option.some.inj (hk.symm.trans hhandler)
    exact absurd hpc hx.1

omit [KvArchive] in
/-- A handler inserts its queue. -/
theorem opened (hs : s.Owns) {h : ℕ} {handler : Handler}
    (hhandler : s.handlers[h]? = some handler) (hpc : handler.pc = .started)
    (hhandlers : s'.handlers =
      s.handlers.set h { handler with pc := .waiting (s.server.openWaitChan handler.raftIndex).2 })
    (hserver : s'.server = (s.server.openWaitChan handler.raftIndex).1) : s'.Owns := by
  have hnone := hs.lookup_started hhandler hpc
  have hopen : s.server.openWaitChan handler.raftIndex =
      ({ s.server with
          waitApplyCh := s.server.waitApplyCh.insert handler.raftIndex s.server.channels.length
          channels := s.server.channels ++ [some []] }, s.server.channels.length) := by
    rw [KvServer.openWaitChan, hnone]
  rw [hopen] at hhandlers hserver
  have hlive : handler.Live := by simp [Handler.Live, hpc]
  have hlt := (List.getElem?_eq_some_iff.mp hhandler).1
  -- the queues that were there are still there, at other addresses than the new one
  have hexists : ∀ ch, s.server.Exists ch → s'.server.Exists ch := by
    rintro ch ⟨queue, hqueue⟩
    have hch := (List.getElem?_eq_some_iff.mp hqueue).1
    rw [hserver]
    exact ⟨queue, (List.getElem?_append_left hch).trans hqueue⟩
  have hbelow : ∀ {i ch}, s.server.waitApplyCh.lookup i = some ch →
      ch < s.server.channels.length := by
    intro i ch hi
    obtain ⟨k, x, hk, hx, rfl⟩ := hs.mapped hi
    obtain ⟨ch', hch', ⟨queue, hqueue⟩, -⟩ := hs.channel hk hx
    obtain rfl := Option.some.inj (hi.symm.trans hch')
    exact (List.getElem?_eq_some_iff.mp hqueue).1
  have hself : s'.server.waitApplyCh.lookup handler.raftIndex = some s.server.channels.length := by
    rw [hserver]
    exact Finmap.lookup_insert _
  have hother : ∀ {i}, i ≠ handler.raftIndex →
      s'.server.waitApplyCh.lookup i = s.server.waitApplyCh.lookup i := by
    intro i hi
    rw [hserver]
    exact Finmap.lookup_insert_of_ne _ hi
  refine { distinct := ?_, channel := ?_, mapped := ?_, injective := ?_ }
  · rw [hhandlers]
    intro j k x y hj hk hx hy hxy
    exact hs.distinct_set hhandler hlive hj hk rfl hx hy hxy
  · rw [hhandlers]
    intro k x hk hx
    rcases getElem?_set_cases hk with ⟨rfl, rfl⟩ | ⟨hkh, hk⟩
    · refine ⟨s.server.channels.length, hself, ?_, fun ch' hpc' => ?_⟩
      · rw [hserver]
        exact ⟨[], List.getElem?_concat_length ..⟩
      · exact (HandlerPc.waiting.inj hpc').symm
    · obtain ⟨ch, hch, hqueue, hwait⟩ := hs.channel hk hx
      have hne : x.raftIndex ≠ handler.raftIndex := fun heq =>
        hkh (hs.distinct hhandler hk hlive hx.live heq.symm)
      exact ⟨ch, (hother hne).trans hch, hexists ch hqueue, hwait⟩
  · rw [hhandlers]
    intro i ch hi
    by_cases hih : i = handler.raftIndex
    · exact ⟨h, _, List.getElem?_set_self hlt, by simp [Handler.Active], hih.symm⟩
    · obtain ⟨k, x, hk, hx, hxi⟩ := hs.mapped ((hother hih).symm.trans hi)
      have hkh : h ≠ k := by
        rintro rfl
        obtain rfl := Option.some.inj (hk.symm.trans hhandler)
        exact hx.1 hpc
      exact ⟨k, x, (List.getElem?_set_ne hkh).trans hk, hx, hxi⟩
  · intro i j ch hi hj
    by_cases hih : i = handler.raftIndex <;> by_cases hjh : j = handler.raftIndex
    · exact hih.trans hjh.symm
    · -- an older entry would lie at the address of the new queue
      have hlt' := hbelow ((hother hjh).symm.trans hj)
      rw [hih, hself] at hi
      have := Option.some.inj hi
      omega
    · have hlt' := hbelow ((hother hih).symm.trans hi)
      rw [hjh, hself] at hj
      have := Option.some.inj hj
      omega
    · exact hs.injective ((hother hih).symm.trans hi) ((hother hjh).symm.trans hj)

omit [KvArchive] in
/-- A handler erases its queue. -/
theorem closed (hs : s.Owns) {h : ℕ} {handler : Handler}
    (hhandler : s.handlers[h]? = some handler) (hpc : handler.pc = .answered)
    (hhandlers : s'.handlers = s.handlers.set h { handler with pc := .returned })
    (hserver : s'.server = s.server.closeWaitChan handler.raftIndex) : s'.Owns := by
  have hactive : handler.Active := by simp [Handler.Active, hpc]
  obtain ⟨ch₀, hch₀, -, -⟩ := hs.channel hhandler hactive
  have hclose : s.server.closeWaitChan handler.raftIndex =
      { s.server with
        waitApplyCh := s.server.waitApplyCh.erase handler.raftIndex
        channels := s.server.channels.set ch₀ none } := by
    rw [KvServer.closeWaitChan, hch₀]
  rw [hclose] at hserver
  have hself : s'.server.waitApplyCh.lookup handler.raftIndex = none := by
    rw [hserver]
    exact Finmap.lookup_erase _ _
  have hother : ∀ {i}, i ≠ handler.raftIndex →
      s'.server.waitApplyCh.lookup i = s.server.waitApplyCh.lookup i := by
    intro i hi
    rw [hserver]
    exact Finmap.lookup_erase_ne hi
  have hold : ∀ {i ch}, s'.server.waitApplyCh.lookup i = some ch →
      i ≠ handler.raftIndex ∧ s.server.waitApplyCh.lookup i = some ch := by
    intro i ch hi
    have hne : i ≠ handler.raftIndex := by
      rintro rfl
      rw [hself] at hi
      cases hi
    exact ⟨hne, (hother hne).symm.trans hi⟩
  refine { distinct := ?_, channel := ?_, mapped := ?_, injective := ?_ }
  · rw [hhandlers]
    intro j k x y hj hk hx hy hxy
    exact hs.distinct_set hhandler hactive.live hj hk rfl hx hy hxy
  · rw [hhandlers]
    intro k x hk hx
    rcases getElem?_set_cases hk with ⟨rfl, rfl⟩ | ⟨hkh, hk⟩
    · exact absurd rfl hx.2
    · obtain ⟨ch, hch, ⟨queue, hqueue⟩, hwait⟩ := hs.channel hk hx
      have hne : x.raftIndex ≠ handler.raftIndex := fun heq =>
        hkh (hs.distinct hhandler hk hactive.live hx.live heq.symm)
      -- the queue that is deleted belongs to another index
      have hch_ne : ch₀ ≠ ch := by
        rintro rfl
        exact hne (hs.injective hch hch₀)
      refine ⟨ch, (hother hne).trans hch, ?_, hwait⟩
      rw [hserver]
      exact ⟨queue, (List.getElem?_set_ne hch_ne).trans hqueue⟩
  · rw [hhandlers]
    intro i ch hi
    obtain ⟨hne, hi⟩ := hold hi
    obtain ⟨k, x, hk, hx, hxi⟩ := hs.mapped hi
    have hkh : h ≠ k := by
      rintro rfl
      obtain rfl := Option.some.inj (hk.symm.trans hhandler)
      exact hne hxi.symm
    exact ⟨k, x, (List.getElem?_set_ne hkh).trans hk, hx, hxi⟩
  · intro i j ch hi hj
    exact hs.injective (hold hi).2 (hold hj).2

omit [KvArchive] in
/-- Where an index has a queue, that is the queue of a handler between insertion and erasure. -/
theorem exists_of_lookup (hs : s.Owns) {i : Int}
    {ch : ℕ} (hi : s.server.waitApplyCh.lookup i = some ch) :
    ∃ (k : ℕ) (handler : Handler) (queue : List Op), s.handlers[k]? = some handler ∧
      handler.Active ∧ handler.raftIndex = i ∧ s.server.channels[ch]? = some (some queue) := by
  obtain ⟨k, handler, hk, hactive, rfl⟩ := hs.mapped hi
  obtain ⟨ch', hch', ⟨queue, hqueue⟩, -⟩ := hs.channel hk hactive
  obtain rfl := Option.some.inj (hi.symm.trans hch')
  exact ⟨k, handler, queue, hk, hactive, rfl, hqueue⟩

/-- **Step lemma.**  A step keeps ownership, if a handler that begins waits for an index that no
    other handler uses. -/
theorem step (hs : s.Owns) {a : KvStep} (h : s.step a = some s')
    (hfresh : ∀ (args : KvArgs) (raftIndex : Int), a = args.step raftIndex true →
      ∀ handler ∈ s.handlers, handler.Live → handler.raftIndex ≠ raftIndex) : s'.Owns := by
  cases step_channels h with
  | kept hhandlers hmap hexists => exact hs.kept hhandlers hmap hexists
  | @began a _ args raftIndex isLeader ha hhandlers hserver =>
    refine hs.began ?_ ?_ hhandlers hserver
    · unfold Handler.begin
      split <;> simp [Handler.Active]
    · cases isLeader with
      | true => exact fun _ => hfresh args raftIndex ha
      | false => simp [Handler.begin, Handler.Live]
  | opened hhandler hpc hhandlers hserver => exact hs.opened hhandler hpc hhandlers hserver
  | moved hhandler hactive hhandlers hactive' hindex hwait hmap hexists =>
    exact hs.moved hhandler hactive hhandlers hactive' hindex hwait hmap hexists
  | closed hhandler hpc hhandlers hserver => exact hs.closed hhandler hpc hhandlers hserver

end Owns

end KvProcess

/-! ### The process -/

namespace ServerProcess

variable {n : ℕ} [RaftArchive] [KvArchive]

/-- Calls of the node come with well-formed messages; nothing is asked of the other steps. -/
def WellFormed (s : ServerProcess n) : ProcessStep n → Prop
  | .raft call => call.WellFormed s.raft
  | .serve _ => True
  | .kv _ => True

/-- The runs of a process from its start on the files `disk`. -/
def Runs (me : Fin n) (disk : Disk) (maxRaftState : Int) (s : ServerProcess n) : Prop :=
  ∃ raft, Raft.init me (Persister.construct disk) = some raft ∧
    Reach step WellFormed { raft, kv := KvProcess.init maxRaftState } s

/-- What every state of a run satisfies. -/
structure Inv (s : ServerProcess n) : Prop where
  index : s.raft.IndexWF
  increasing : s.issued.Pairwise (· < ·)
  issued_le : ∀ i ∈ s.issued, i ≤ s.raft.getLastLogIndex
  handlers : ∀ handler ∈ s.kv.handlers, handler.Live → handler.raftIndex ∈ s.issued
  owns : s.kv.Owns

omit [KvArchive] in
/-- What `Start` returns lies beyond the end of the log, and is the end of the log after it. -/
theorem startIndices_bounds {rf : Raft n} (hwf : rf.IndexWF) (command : String) :
    startIndices rf command = [] ∨
      startIndices rf command = [rf.getLastLogIndex + 1] ∧
        (rf.start command).1.getLastLogIndex = rf.getLastLogIndex + 1 := by
  by_cases hstatus : rf.status = .leader
  · right
    rw [startIndices, Raft.start_leader hstatus]
    exact ⟨rfl, (hwf.toLogWF.started command).2⟩
  · left
    rw [startIndices, Raft.start_not_leader hstatus]
    rfl

omit [KvArchive] in
/-- The end of the log never moves back, so what `Start` returns is new. -/
theorem issued_start {rf : Raft n} {issued : List Int} (hwf : rf.IndexWF)
    (hinc : issued.Pairwise (· < ·)) (hle : ∀ i ∈ issued, i ≤ rf.getLastLogIndex)
    (command : String) :
    (issued ++ startIndices rf command).Pairwise (· < ·) ∧
      ∀ i ∈ issued ++ startIndices rf command, i ≤ (rf.start command).1.getLastLogIndex := by
  have hlast : rf.getLastLogIndex ≤ (rf.start command).1.getLastLogIndex :=
    (nodeStep_outcome hwf (show (NodeCall.start command).WellFormed rf from trivial) rfl).last_le hwf
  rcases startIndices_bounds hwf command with hnone | ⟨hone, hend⟩
  · rw [hnone, List.append_nil]
    exact ⟨hinc, fun i hi => (hle i hi).trans hlast⟩
  · rw [hone, hend]
    refine ⟨List.pairwise_append.mpr ⟨hinc, List.pairwise_singleton _ _, fun i hi j hj => ?_⟩,
      fun i hi => ?_⟩
    · have := hle i hi
      have := List.mem_singleton.mp hj
      show i < j
      omega
    · rcases List.mem_append.mp hi with hi | hi
      · have := hle i hi
        omega
      · exact (List.mem_singleton.mp hi).le

omit [KvArchive] in
/-- The index that `Start` returns with `isLeader`. -/
theorem startIndices_leader {rf : Raft n} {command : String}
    (h : (rf.start command).2.2.2 = true) :
    startIndices rf command = [(rf.start command).2.1] ∧
      (rf.start command).2.1 = rf.getLastLogIndex + 1 := by
  refine ⟨if_pos h, ?_⟩
  by_cases hstatus : rf.status = .leader
  · rw [Raft.start_leader hstatus]
  · rw [Raft.start_not_leader hstatus] at h
    cases h

omit [RaftArchive] [KvArchive] in
/-- The answer of `Start` is told by the step. -/
theorem step_inj {args args' : KvArgs} {i j : Int} {b c : Bool}
    (h : args.step i b = args'.step j c) : i = j ∧ b = c := by
  cases args <;> cases args' <;> simp_all [KvArgs.step]

omit [RaftArchive] in
/-- The index of a live handler after a step is that of a live handler before, or the one it
    begins with. -/
theorem live_step {s s' : KvProcess} {a : KvStep} (h : s.step a = some s') :
    ∀ handler' ∈ s'.handlers, handler'.Live →
      (∃ handler ∈ s.handlers, handler.Live ∧ handler.raftIndex = handler'.raftIndex) ∨
        ∃ args : KvArgs, a = args.step handler'.raftIndex true := by
  intro handler' hmem hlive
  cases KvProcess.step_channels h with
  | kept hhandlers =>
    rw [hhandlers] at hmem
    exact Or.inl ⟨handler', hmem, hlive, rfl⟩
  | @began a s' args raftIndex isLeader ha hhandlers =>
    rw [hhandlers] at hmem
    rcases List.mem_append.mp hmem with hmem | hmem
    · exact Or.inl ⟨handler', hmem, hlive, rfl⟩
    -- the handler that begins is live if `Start` said that the node leads
    · obtain rfl := List.mem_singleton.mp hmem
      cases isLeader with
      | true => exact Or.inr ⟨args, ha⟩
      | false => exact absurd rfl hlive
  | opened hhandler hpc hhandlers =>
    rw [hhandlers] at hmem
    rcases List.mem_or_eq_of_mem_set hmem with hmem | rfl
    · exact Or.inl ⟨handler', hmem, hlive, rfl⟩
    · exact Or.inl ⟨_, List.mem_of_getElem? hhandler, by simp [Handler.Live, hpc], rfl⟩
  | moved hhandler hactive hhandlers hactive' hindex =>
    rw [hhandlers] at hmem
    rcases List.mem_or_eq_of_mem_set hmem with hmem | rfl
    · exact Or.inl ⟨handler', hmem, hlive, rfl⟩
    · exact Or.inl ⟨_, List.mem_of_getElem? hhandler, hactive.live, hindex.symm⟩
  -- the handler has erased its entry and is live no more
  | closed hhandler hpc hhandlers =>
    rw [hhandlers] at hmem
    rcases List.mem_or_eq_of_mem_set hmem with hmem | rfl
    · exact Or.inl ⟨handler', hmem, hlive, rfl⟩
    · exact absurd rfl hlive

omit [KvArchive] in
/-- A call of the node leaves the server alone. -/
theorem Inv.stepRaft {s s' : ServerProcess n} (hs : s.Inv) {call : NodeCall n}
    (hok : call.WellFormed s.raft) (h : s.stepRaft call = some s') : s'.Inv := by
  obtain ⟨raft, hraft, rfl⟩ := Option.map_eq_some_iff.mp h
  have hout := nodeStep_outcome hs.index hok hraft
  have hlast := hout.last_le hs.index
  cases call with
  | start command =>
    obtain rfl : (s.raft.start command).1 = raft := Option.some.inj hraft
    obtain ⟨hinc, hle⟩ := issued_start hs.index hs.increasing hs.issued_le command
    exact { index := hout.indexWF hs.index
            increasing := hinc
            issued_le := hle
            handlers := fun handler hmem hlive =>
              List.mem_append_left _ (hs.handlers handler hmem hlive)
            owns := hs.owns }
  | appendEntries1 | requestVote | installSnapshot | snapshot | doElection | sendRequestVoteReply
  | sendAppendEntriesReply | leaderSendSnapShot | leaderSendSnapShotReply | doHeartBeat
  | getApplyLogs =>
    simp only [List.append_nil]
    exact { index := hout.indexWF hs.index
            increasing := hs.increasing
            issued_le := fun i hi => (hs.issued_le i hi).trans hlast
            handlers := hs.handlers
            owns := hs.owns }

/-- A request is given an index that no handler has. -/
theorem Inv.stepServe {s s' : ServerProcess n} (hs : s.Inv) {args : KvArgs}
    (h : s.stepServe args = some s') : s'.Inv := by
  obtain ⟨kv, hkv, rfl⟩ := Option.map_eq_some_iff.mp h
  have hcall := nodeStep_outcome hs.index
    (show (NodeCall.start (KvArchive.asString args.op)).WellFormed s.raft from trivial) rfl
  obtain ⟨hinc, hle⟩ := issued_start hs.index hs.increasing hs.issued_le
    (KvArchive.asString args.op)
  refine { index := hcall.indexWF hs.index, increasing := hinc, issued_le := hle,
           handlers := fun handler hmem hlive => ?_, owns := ?_ }
  · rcases live_step hkv handler hmem hlive with ⟨old, hold, hlive', heq⟩ | ⟨args', ha⟩
    · rw [← heq]
      exact List.mem_append_left _ (hs.handlers old hold hlive')
    · obtain ⟨hidx, hleader⟩ := step_inj ha
      apply List.mem_append_right
      rw [(startIndices_leader hleader).1, ← hidx]
      exact List.mem_singleton_self _
  · refine hs.owns.step hkv fun args' raftIndex ha old hold hlive heq => ?_
    -- the new index lies beyond the end of the log, the others do not
    obtain ⟨hidx, hleader⟩ := step_inj ha
    have hnew : old.raftIndex = s.raft.getLastLogIndex + 1 :=
      heq.trans (hidx.symm.trans (startIndices_leader hleader).2)
    have hold_le := hs.issued_le _ (hs.handlers old hold hlive)
    omega

omit [RaftArchive] in
/-- Any other step of the server begins no handler. -/
theorem Inv.stepKv {s : ServerProcess n} (hs : s.Inv) {a : KvStep} {kv : KvProcess}
    (hbegins : a.begins = false) (h : s.kv.step a = some kv) : { s with kv }.Inv := by
  have hnone : ∀ (args : KvArgs) (raftIndex : Int), a ≠ args.step raftIndex true := by
    rintro args raftIndex rfl
    cases args <;> cases hbegins
  refine { hs with handlers := fun handler hmem hlive => ?_, owns := ?_ }
  · rcases live_step h handler hmem hlive with ⟨old, hold, hlive', heq⟩ | ⟨args, ha⟩
    · rw [← heq]
      exact hs.handlers old hold hlive'
    · exact absurd ha (hnone args _)
  · exact hs.owns.step h fun args raftIndex ha => absurd ha (hnone args raftIndex)

/-- **Step lemma.** -/
theorem Inv.step {s s' : ServerProcess n} (hs : s.Inv) {a : ProcessStep n} (hok : WellFormed s a)
    (h : s.step a = some s') : s'.Inv := by
  cases a with
  | raft call => exact hs.stepRaft hok h
  | serve args => exact hs.stepServe h
  | kv a =>
    rw [ServerProcess.step] at h
    split at h
    · cases h
    · rename_i hbegins
      obtain ⟨kv, hkv, rfl⟩ := Option.map_eq_some_iff.mp h
      exact hs.stepKv (by simpa using hbegins) hkv

/-- **Run lemma.** -/
theorem Runs.inv {me : Fin n} {disk : Disk} {maxRaftState : Int} {s : ServerProcess n}
    (h : Runs me disk maxRaftState s) : s.Inv := by
  obtain ⟨raft, hinit, hreach⟩ := h
  rw [init_construct, Option.some.injEq] at hinit
  subst hinit
  refine hreach.invariant ?_ fun s a s' _ hs hok hstep => hs.step hok hstep
  exact { index := Raft.indexWF_fresh me _
          increasing := .nil
          issued_le := by simp
          handlers := by simp [KvProcess.init]
          owns := { distinct := by simp [KvProcess.init]
                    channel := by simp [KvProcess.init]
                    mapped := by simp [KvProcess.init]
                    injective := by simp [KvProcess.init] } }

/-- **Wait channels.**  In every state of a run: `Start` has returned no index twice with
    `isLeader`; a handler between its insertion into `waitApplyCh` and its erasure finds its queue
    in the map, not deleted, and no other handler's entry leads to that queue; and
    `SendMessageToWaitChan` changes nothing, or adds to the queue of such a handler. -/
theorem waitChannels {me : Fin n} {disk : Disk} {maxRaftState : Int} {s : ServerProcess n}
    (h : Runs me disk maxRaftState s) :
    s.issued.Nodup ∧
    (∀ (k : ℕ) handler, s.kv.handlers[k]? = some handler → handler.Active →
      ∃ ch queue, s.kv.server.waitApplyCh.lookup handler.raftIndex = some ch ∧
        s.kv.server.channels[ch]? = some (some queue) ∧
        (∀ ch', handler.pc = .waiting ch' → ch' = ch) ∧
        ∀ (k' : ℕ) handler', s.kv.handlers[k']? = some handler' → handler'.Active →
          s.kv.server.waitApplyCh.lookup handler'.raftIndex = some ch → k' = k) ∧
    ∀ op index, s.kv.server.sendMessageToWaitChan op index = s.kv.server ∨
      ∃ (k : ℕ) (handler : Handler) (ch : ℕ) (queue : List Op),
        s.kv.handlers[k]? = some handler ∧ handler.Active ∧ handler.raftIndex = index ∧
        s.kv.server.waitApplyCh.lookup index = some ch ∧
        s.kv.server.channels[ch]? = some (some queue) ∧
        s.kv.server.sendMessageToWaitChan op index =
          { s.kv.server with channels := s.kv.server.channels.set ch (some (queue ++ [op])) } := by
  have hinv := h.inv
  have howns := hinv.owns
  refine ⟨hinv.increasing.imp fun hlt => ne_of_lt hlt, fun k handler hk hactive => ?_,
    fun op index => ?_⟩
  -- two handlers that lead to one queue have one index, and indices are not issued twice
  · obtain ⟨ch, hch, ⟨queue, hqueue⟩, hwait⟩ := howns.channel hk hactive
    refine ⟨ch, queue, hch, hqueue, hwait, fun k' handler' hk' hactive' hch' => ?_⟩
    exact howns.distinct hk' hk hactive'.live hactive.live (howns.injective hch' hch)
  -- an entry of the map is that of an active handler
  · cases hlookup : s.kv.server.waitApplyCh.lookup index with
    | none => exact Or.inl (by rw [KvServer.sendMessageToWaitChan, hlookup])
    | some ch =>
      obtain ⟨k, handler, queue, hk, hactive, hidx, hqueue⟩ := howns.exists_of_lookup hlookup
      refine Or.inr ⟨k, handler, ch, queue, hk, hactive, hidx, rfl, hqueue, ?_⟩
      rw [KvServer.sendMessageToWaitChan, hlookup]
      dsimp only
      rw [List.modify_eq_set_getElem?, hqueue]
      rfl

/-! ### A run -/

/-- A run starts with `init`. -/
theorem Runs.start (me : Fin n) (disk : Disk) (maxRaftState : Int) :
    Runs me disk maxRaftState
      { raft := Raft.fresh me (Persister.construct disk), kv := KvProcess.init maxRaftState } :=
  ⟨_, init_construct me disk, .refl⟩

/-- One more step of a run. -/
theorem Runs.next {me : Fin n} {disk : Disk} {maxRaftState : Int} {s s' : ServerProcess n}
    (h : Runs me disk maxRaftState s) (a : ProcessStep n) (hok : WellFormed s a)
    (hstep : s.step a = some s') : Runs me disk maxRaftState s' := by
  obtain ⟨raft, hinit, hreach⟩ := h
  exact ⟨raft, hinit, hreach.tail hok hstep⟩

omit [RaftArchive] [KvArchive] in
/-- A leader serves two requests at once; both handlers wait, each for its own index. -/
theorem waitChannels_twoRequests :
    letI := textRaftArchive
    letI := textKvArchive
    ∃ s : ServerProcess 3, Runs 0 {} (-1) s ∧ s.issued = [1, 2] ∧
      s.kv.handlers.map Handler.pc = [.waiting 0, .waiting 1] ∧ s.issued.Nodup := by
  let := textRaftArchive
  let := textKvArchive
  have hrun := (((((((Runs.start (0 : Fin 3) {} (-1)).next (.raft .doElection) trivial rfl).next
    (.raft (.sendRequestVoteReply
      { term := 1, voteGranted := true } 1)) trivial rfl).next
    (.serve (.putAppend "k" "v" "Put" "c" 1)) trivial rfl).next
    (.serve (.get "k" "d" 1)) trivial rfl).next
    (.kv (.openWaitChan 0)) trivial rfl).next
    (.kv (.openWaitChan 1)) trivial rfl)
  exact ⟨_, hrun, rfl, rfl, (waitChannels hrun).1⟩

end ServerProcess

end RaftStore
