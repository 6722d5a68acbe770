import RaftStore.Kv.Contents
import RaftStore.Kv.Determinism

namespace RaftStore

/-!
# What the writes amount to

The value a `Get` finds after a sequence of commands, against what `Put` and `Append` mean.
`ExecuteAppendOpOnKVDB` sets the key like `ExecutePutOpOnKVDB` does, so the two part on mixed
histories.

* `History` — what a history of operations says about a key, and `AppendsToNothing`, the condition
  under which setting the key is the same.
* `KvProcess.getCommandFromRaft` — the steps of one call of `GetCommandFromRaft`, without other
  threads in between.
* `reads_history_iff` — every key reads as its history says exactly under the condition.
-/

/-! ### Histories -/

namespace History

/-- A `Put` on the key. -/
def putOn (k : String) (op : Op) : Bool := op.key = k && op.operation = "Put"

/-- An `Append` on the key. -/
def appendOn (k : String) (op : Op) : Bool := op.key = k && op.operation = "Append"

/-- A `Put` or an `Append` on the key. -/
def writeOn (k : String) (op : Op) : Bool := putOn k op || appendOn k op

/-- The value of the last `Put`, empty if there is none. -/
def lastPut (k : String) (ops : List Op) : String :=
  ((ops.filter (putOn k)).getLast?.map Op.value).getD ""

/-- The values of the `Append`s after the last `Put`, in the order of the history. -/
def appendsSincePut (k : String) (ops : List Op) : List String :=
  (((ops.reverse.takeWhile fun op => !putOn k op).reverse).filter (appendOn k)).map Op.value

/-- What a `Get` should find: the key exists if it was written, and its value is that of the last
    `Put` followed by those of the `Append`s after it. -/
def value (k : String) (ops : List Op) : Option String :=
  if ops.any (writeOn k) then some (lastPut k ops ++ String.join (appendsSincePut k ops))
  else none

/-- The condition: if the last write to the key is an `Append`, then the last `Put` before it, if
    any, has the empty value, and so have all `Append`s between the two. -/
def AppendsToNothing (k : String) (ops : List Op) : Prop :=
  ∀ before op after, ops = before ++ op :: after → appendOn k op = true →
    (∀ op' ∈ after, writeOn k op' = false) →
      lastPut k before = "" ∧ ∀ v ∈ appendsSincePut k before, v = ""

/-- What the server keeps: the value of the last write. -/
def lastWrite (k : String) (ops : List Op) : Option String :=
  (ops.filter (writeOn k)).getLast?.map Op.value

variable {k : String} {op : Op} {ops before after : List Op}

/-- An `Append` is not a `Put`. -/
theorem not_putOn_of_appendOn (h : appendOn k op = true) : putOn k op = false := by
  simp only [appendOn, putOn, Bool.and_eq_true, decide_eq_true_eq] at h ⊢
  simp [h.2]

/-! ### One more operation -/

/-- After a `Put` the value is the one put. -/
theorem value_concat_put (h : putOn k op = true) : value k (ops ++ [op]) = some op.value := by
  have hany : (ops ++ [op]).any (writeOn k) = true := by simp [writeOn, h]
  rw [value, if_pos hany, lastPut, appendsSincePut, List.filter_append, List.reverse_append]
  simp [h]

/-- After an `Append` the value is what was there with the argument behind it. -/
theorem value_concat_append (h : appendOn k op = true) :
    value k (ops ++ [op]) =
      some (lastPut k ops ++ String.join (appendsSincePut k ops) ++ op.value) := by
  have hput := not_putOn_of_appendOn h
  have hany : (ops ++ [op]).any (writeOn k) = true := by simp [writeOn, h]
  rw [value, if_pos hany, lastPut, appendsSincePut, List.filter_append, List.reverse_append]
  simp [h, hput, lastPut, appendsSincePut, String.join_append, String.append_assoc]

/-- No other operation changes the value. -/
theorem value_concat_other (h : writeOn k op = false) : value k (ops ++ [op]) = value k ops := by
  obtain ⟨hput, happ⟩ : putOn k op = false ∧ appendOn k op = false := by
    simpa [writeOn] using h
  simp [value, lastPut, appendsSincePut, h, hput, happ]

/-- The last write is the new one. -/
theorem lastWrite_concat_write (h : writeOn k op = true) :
    lastWrite k (ops ++ [op]) = some op.value := by
  simp [lastWrite, h]

/-- No other operation writes. -/
theorem lastWrite_concat_other (h : writeOn k op = false) :
    lastWrite k (ops ++ [op]) = lastWrite k ops := by
  simp [lastWrite, h]

/-! ### The condition -/

/-- An operation of the longer history is the last one or one of the shorter history. -/
theorem split_concat {op' : Op} (h : ops ++ [op] = before ++ op' :: after) :
    (before = ops ∧ op' = op ∧ after = []) ∨
      ∃ after', after = after' ++ [op] ∧ ops = before ++ op' :: after' := by
  rcases List.eq_nil_or_concat after with rfl | ⟨after', op'', rfl⟩
  · obtain ⟨hops, hop⟩ := List.append_inj' h rfl
    exact Or.inl ⟨hops.symm, (List.cons.inj hop).1.symm, rfl⟩
  · rw [List.concat_eq_append, ← List.cons_append, ← List.append_assoc] at h
    obtain ⟨hops, hop⟩ := List.append_inj' h rfl
    rw [List.concat_eq_append, (List.cons.inj hop).1]
    exact Or.inr ⟨after', rfl, hops⟩

/-- After a `Put` nothing was appended. -/
theorem appendsToNothing_concat_put (h : putOn k op = true) : AppendsToNothing k (ops ++ [op]) := by
  intro before op' after hsplit happ hafter
  rcases split_concat hsplit with ⟨_, rfl, _⟩ | ⟨after', rfl, _⟩
  · rw [not_putOn_of_appendOn happ] at h
    cases h
  · have hop := hafter op (List.mem_append_right _ (List.mem_singleton_self op))
    simp [writeOn, h] at hop

/-- An `Append` appends to nothing iff the value was empty. -/
theorem appendsToNothing_concat_append (h : appendOn k op = true) :
    AppendsToNothing k (ops ++ [op]) ↔
      lastPut k ops = "" ∧ ∀ v ∈ appendsSincePut k ops, v = "" := by
  constructor
  · intro hcond
    exact hcond ops op [] rfl h fun _ hop => by cases hop
  · intro hempty before op' after hsplit happ hafter
    rcases split_concat hsplit with ⟨rfl, _, _⟩ | ⟨after', rfl, _⟩
    · exact hempty
    · have hop := hafter op (List.mem_append_right _ (List.mem_singleton_self op))
      simp [writeOn, h] at hop

/-- No other operation appends. -/
theorem appendsToNothing_concat_other (h : writeOn k op = false) :
    AppendsToNothing k (ops ++ [op]) ↔ AppendsToNothing k ops := by
  constructor
  · intro hcond before op' after hsplit happ hafter
    refine hcond before op' (after ++ [op]) (by simp [hsplit]) happ fun op'' hop => ?_
    rcases List.mem_append.mp hop with hop | hop
    · exact hafter op'' hop
    · rwa [List.mem_singleton.mp hop]
  · intro hcond before op' after hsplit happ hafter
    rcases split_concat hsplit with ⟨_, rfl, _⟩ | ⟨after', rfl, hops⟩
    · simp [writeOn, happ] at h
    · exact hcond before op' after' hops happ fun op'' hop =>
        hafter op'' (List.mem_append_left _ hop)

/-- Strings that add up to nothing are empty. -/
theorem join_eq_empty {vs : List String} : String.join vs = "" ↔ ∀ v ∈ vs, v = "" := by
  induction vs with
  | nil => simp
  | cons v vs ih => simp [String.join_cons, String.append_eq_empty_iff, ih]

/-- The value of the last write is the value of the history exactly under the condition. -/
theorem lastWrite_eq_value_iff (k : String) (ops : List Op) :
    lastWrite k ops = value k ops ↔ AppendsToNothing k ops := by
  induction ops using List.reverseRecOn with
  | nil => exact iff_of_true rfl fun before op after h => by simp at h
  | append_singleton ops op ih =>
    cases hput : putOn k op with
    | true =>
      rw [value_concat_put hput, lastWrite_concat_write (by simp [writeOn, hput])]
      exact iff_of_true rfl (appendsToNothing_concat_put hput)
    | false =>
      cases happ : appendOn k op with
      | true =>
        rw [value_concat_append happ, lastWrite_concat_write (by simp [writeOn, happ]),
          appendsToNothing_concat_append happ, Option.some_inj, ← join_eq_empty,
          ← String.append_eq_empty_iff, eq_comm, String.append_eq_right_iff]
      | false =>
        have hwrite : writeOn k op = false := by simp [writeOn, hput, happ]
        rw [value_concat_other hwrite, lastWrite_concat_other hwrite,
          appendsToNothing_concat_other hwrite, ih]

end History

/-! ### Histories without duplicates -/

/-- The requests of each client have increasing ids. -/
def RequestsIncrease (ops : List Op) : Prop :=
  ops.Pairwise fun op op' => op.clientId = op'.clientId → op.requestId < op'.requestId

instance (ops : List Op) : Decidable (RequestsIncrease ops) :=
  inferInstanceAs (Decidable (ops.Pairwise _))

/-- The replica after operations that are no duplicates: the table holds ids of the history, and
    each key the value of its last write. -/
structure Replica.Wrote (r : Replica) (ops : List Op) : Prop where
  sorted : r.skipList.Sorted
  table : ∀ c last, r.lastRequestId.lookup c = some last →
    ∃ op ∈ ops, op.clientId = c ∧ op.requestId = last
  read : ∀ k, r.skipList.searchElement k = History.lastWrite k ops

/-- **Step lemma.** -/
theorem Replica.Wrote.apply {r : Replica} {ops : List Op} {op : Op} (h : r.Wrote ops)
    (hinc : RequestsIncrease (ops ++ [op])) : (r.apply op).Wrote (ops ++ [op]) := by
  have hnew : ¬ ∃ last ∈ r.lastRequestId.lookup op.clientId, op.requestId ≤ last := by
    -- the last number of the client in the table is of an earlier request
    rintro ⟨last, hlast, hle⟩
    obtain ⟨op', hmem, hclient, hid⟩ := h.table _ _ hlast
    have hlt := (List.pairwise_append.mp hinc).2.2 op' hmem op (List.mem_singleton_self op) hclient
    omega
  have htable : ∀ c last, r.lastRequestId.lookup c = some last →
      ∃ op' ∈ ops ++ [op], op'.clientId = c ∧ op'.requestId = last := by
    intro c last hlast
    obtain ⟨op', hmem, heq⟩ := h.table c last hlast
    exact ⟨op', List.mem_append_left _ hmem, heq⟩
  rw [Replica.apply, if_neg hnew]
  split
  · rename_i hwrites
    refine { sorted := h.sorted.insertSetElement _ _, table := fun c last hlast => ?_,
             read := fun k => ?_ }
    · dsimp only at hlast
      by_cases hc : c = op.clientId
      · rw [hc, Finmap.lookup_insert, Option.some.injEq] at hlast
        exact ⟨op, List.mem_append_right _ (List.mem_singleton_self op), hc.symm, hlast⟩
      · rw [Finmap.lookup_insert_of_ne _ hc] at hlast
        exact htable c last hlast
    · rw [h.sorted.searchElement_insertSetElement]
      split
      · rename_i hk
        subst hk
        rw [History.lastWrite_concat_write]
        simpa [History.writeOn, History.putOn, History.appendOn, KvProcess.writes] using hwrites
      · rename_i hk
        rw [History.lastWrite_concat_other, h.read]
        simp [History.writeOn, History.putOn, History.appendOn, Ne.symm hk]
  · rename_i hwrites
    refine { sorted := h.sorted, table := htable, read := fun k => ?_ }
    rw [h.read, History.lastWrite_concat_other]
    simp only [KvProcess.writes, Bool.or_eq_true, decide_eq_true_eq, not_or] at hwrites
    simp [History.writeOn, History.putOn, History.appendOn, hwrites.1, hwrites.2]

/-- A `Get` changes no key. -/
theorem Replica.apply_get_skipList {r : Replica} {op : Op} (h : op.operation = "Get") :
    (r.apply op).skipList = r.skipList := by
  have hwrites : KvProcess.writes op = false := by simp [KvProcess.writes, h]
  rw [Replica.apply, hwrites]
  split <;> rfl

/-- **Run lemma.** -/
theorem Replica.wrote_foldl {ops : List Op} (hinc : RequestsIncrease ops) :
    (ops.foldl Replica.apply {}).Wrote ops := by
  induction ops using List.reverseRecOn with
  | nil =>
    exact { sorted := SkipList.sorted_empty
            table := fun c last hlast => by cases hlast
            read := fun k => rfl }
  | append_singleton ops op ih =>
    rw [List.foldl_append]
    exact (ih (List.pairwise_append.mp hinc).1).apply hinc

/-! ### Passing commands -/

namespace KvProcess

variable [KvArchive]

/-- `GetCommandFromRaft` from its beginning to its end with no step of another thread in between;
    `raftStateSize` is what `GetRaftStateSize` returns. -/
def getCommandFromRaft (s : KvProcess) (message : ApplyMsg) (raftStateSize : Int) :
    Option KvProcess := do
  let s ← s.step (.getCommandFromRaft message)
  if s.applyThread = .idle then return s
  let s ← s.step .ifRequestDuplicate
  let s ← match s.applyThread with
    | .executing _ _ => s.step .executeOp
    | _ => some s
  let s ← s.step (.ifNeedToSendSnapShotCommand raftStateSize)
  s.step .sendMessageToWaitChan

/-- A sequence of commands, each with the raft state size measured while it is applied. -/
def getCommandsFromRaft (s : KvProcess) (messages : List (ApplyMsg × Int)) : Option KvProcess :=
  messages.foldlM (fun s m => s.getCommandFromRaft m.1 m.2) s

/-- The process waits for a command, has installed no snapshot and holds `r`. -/
structure Holds (s : KvProcess) (r : Replica) : Prop where
  idle : s.applyThread = .idle
  fresh : s.server.lastSnapShotRaftLogIndex = 0
  skipList : s.server.skipList = r.skipList
  table : s.server.lastRequestId = r.lastRequestId

omit [KvArchive] in
/-- A server starts with the empty state. -/
theorem holds_init (maxRaftState : Int) : (init maxRaftState).Holds {} :=
  { idle := rfl, fresh := rfl, skipList := rfl, table := rfl }

/-- The end of `GetCommandFromRaft`, after the operation has been executed or skipped. -/
theorem exists_finish {s : KvProcess} {r : Replica} {op : Op} {index : Int}
    (hthread : s.applyThread = .executed op index)
    (hfresh : s.server.lastSnapShotRaftLogIndex = 0) (hskip : s.server.skipList = r.skipList)
    (htable : s.server.lastRequestId = r.lastRequestId) (raftStateSize : Int) :
    ∃ s', ((s.stepIfNeedToSendSnapShotCommand raftStateSize).bind fun s =>
      s.stepSendMessageToWaitChan) = some s' ∧ s'.Holds r := by
  obtain ⟨h₁, h₂, h₃⟩ := sendMessageToWaitChan_frame s.server op index
  simp only [stepIfNeedToSendSnapShotCommand, hthread, Option.bind_some, stepSendMessageToWaitChan]
  exact ⟨_, rfl, { idle := rfl, fresh := h₃.trans hfresh, skipList := h₁.trans hskip
                   table := h₂.trans htable }⟩

omit [KvArchive] in
/-- Executing an operation that is no duplicate is its effect on the replica. -/
theorem executeOp_apply {s : KvServer} {r : Replica} {op : Op} (hskip : s.skipList = r.skipList)
    (htable : s.lastRequestId = r.lastRequestId)
    (hnew : s.ifRequestDuplicate op.clientId op.requestId = false) :
    (s.executeOp op).skipList = (r.apply op).skipList ∧
      (s.executeOp op).lastRequestId = (r.apply op).lastRequestId ∧
      (s.executeOp op).lastSnapShotRaftLogIndex = s.lastSnapShotRaftLogIndex := by
  rw [← Bool.not_eq_true, ifRequestDuplicate_iff, htable] at hnew
  rw [executeOp_eq, Replica.apply, if_neg hnew]
  cases writes op with
  | true =>
    refine ⟨?_, ?_, rfl⟩
    · exact congrArg (fun l => l.insertSetElement op.key op.value) hskip
    · exact congrArg (fun t => t.insert op.clientId op.requestId) htable
  | false => exact ⟨hskip, htable, rfl⟩

/-- **Step lemma.**  `GetCommandFromRaft` applies the operation to the replica. -/
theorem Holds.getCommandFromRaft {s : KvProcess} {r : Replica} {message : ApplyMsg} {op : Op}
    (h : s.Holds r) (hparse : KvArchive.opOfString message.command = some op)
    (hidx : 0 < message.commandIndex) (raftStateSize : Int) :
    ∃ s', s.getCommandFromRaft message raftStateSize = some s' ∧ s'.Holds (r.apply op) := by
  have hstart : s.step (.getCommandFromRaft message) = some
      { s with
        commands := s.commands ++ [message]
        applyThread := .received op message.commandIndex } := by
    have hlt : ¬ message.commandIndex ≤ s.server.lastSnapShotRaftLogIndex := by
      rw [h.fresh]
      exact not_le.mpr hidx
    simp [step, stepGetCommandFromRaft, h.idle, hparse, hlt]
  unfold KvProcess.getCommandFromRaft
  rw [hstart]
  simp only [Option.bind_eq_bind, Option.bind_some, reduceCtorEq, if_false, step,
    stepIfRequestDuplicate]
  cases hdup : s.server.ifRequestDuplicate op.clientId op.requestId with
  | true =>
    -- a duplicate is executed neither here nor there
    have happly : r.apply op = r := by
      have hlast := (ifRequestDuplicate_iff _ _ _).mp hdup
      rw [h.table] at hlast
      exact if_pos hlast
    rw [if_pos rfl, Option.bind_some, happly]
    apply exists_finish
    · rfl
    · exact h.fresh
    · exact h.skipList
    · exact h.table
  | false =>
    -- the operation of the replica is the one the server runs
    obtain ⟨h₁, h₂, h₃⟩ := executeOp_apply h.skipList h.table hdup
    rw [if_neg (by decide), Option.bind_some]
    simp only [stepExecuteOp, Option.bind_some]
    exact exists_finish rfl (h₃.trans h.fresh) h₁ h₂ raftStateSize

/-- **Run lemma.**  A sequence of commands can be passed, and leaves what its operations make of
    the replica. -/
theorem Holds.getCommandsFromRaft {s : KvProcess} {r : Replica} {messages : List (ApplyMsg × Int)}
    {ops : List Op} (h : s.Holds r)
    (hparse : messages.map (fun m => KvArchive.opOfString m.1.command) = ops.map some)
    (hidx : ∀ m ∈ messages, 0 < m.1.commandIndex) :
    ∃ s', s.getCommandsFromRaft messages = some s' ∧ s'.Holds (ops.foldl Replica.apply r) := by
  induction messages generalizing s r ops with
  | nil =>
    obtain rfl : ops = [] := by simpa using hparse.symm
    exact ⟨s, rfl, h⟩
  | cons m messages ih =>
    obtain ⟨op, ops, rfl⟩ : ∃ op ops', ops = op :: ops' := by
      cases ops with
      | nil => simp at hparse
      | cons op ops => exact ⟨op, ops, rfl⟩
    obtain ⟨hop, hops⟩ := List.cons.inj hparse
    obtain ⟨s₁, hs₁, h₁⟩ := h.getCommandFromRaft hop (hidx m (List.mem_cons_self ..)) m.2
    obtain ⟨s', hs', h'⟩ := ih h₁ hops fun m hm => hidx m (List.mem_cons_of_mem _ hm)
    refine ⟨s', ?_, h'⟩
    rw [KvProcess.getCommandsFromRaft, List.foldlM_cons, hs₁]
    exact hs'

/-- `ExecuteGetOpOnKVDB` finds on each key what the history says about it, and the `Get`s of the
    history changed no key. -/
structure ReadsHistory (maxRaftState : Int) (messages : List (ApplyMsg × Int)) (ops : List Op)
    (s : KvProcess) : Prop where
  value : ∀ op, (s.server.executeGetOpOnKVDB op).2 = History.value op.key ops
  get : ∀ before m after s₁ s₂, messages = before ++ m :: after →
    (∀ op ∈ KvArchive.opOfString m.1.command, op.operation = "Get") →
      (init maxRaftState).getCommandsFromRaft before = some s₁ →
        s₁.getCommandFromRaft m.1 m.2 = some s₂ → s₂.server.skipList = s₁.server.skipList

/-- **What the writes amount to.**  A sequence of commands whose requests increase can be passed
    to an empty server, and every key then reads as its history says if and only if no key was
    last written by an `Append` to something that is not empty. -/
theorem reads_history_iff (maxRaftState : Int) (messages : List (ApplyMsg × Int)) (ops : List Op)
    (hparse : messages.map (fun m => KvArchive.opOfString m.1.command) = ops.map some)
    (hidx : ∀ m ∈ messages, 0 < m.1.commandIndex) (hinc : RequestsIncrease ops) :
    ∃ s, (init maxRaftState).getCommandsFromRaft messages = some s ∧
      (ReadsHistory maxRaftState messages ops s ↔ ∀ k, History.AppendsToNothing k ops) := by
  obtain ⟨s, hs, h⟩ := (holds_init maxRaftState).getCommandsFromRaft hparse hidx
  have hwrote := Replica.wrote_foldl hinc
  have hread : ∀ op, (s.server.executeGetOpOnKVDB op).2 = History.lastWrite op.key ops := by
    intro op
    rw [← hwrote.read, ← h.skipList]
    rfl
  refine ⟨s, hs, fun hall k => ?_, fun hcond => { value := fun op => ?_, get := ?_ }⟩
  · rw [← History.lastWrite_eq_value_iff, ← hall.value { key := k }]
    exact (hread { key := k }).symm
  · rw [hread, History.lastWrite_eq_value_iff]
    exact hcond op.key
  · -- the state before the `Get` holds a replica, and a `Get` leaves the key-value pairs alone
    intro before m after s₁ s₂ hsplit hget hs₁ hs₂
    subst hsplit
    obtain ⟨ops₁, ops₂, rfl, hbefore, hrest⟩ := List.map_eq_append_iff.mp (by
      rw [← hparse, List.map_append])
    obtain ⟨op, ops₂, rfl, hop, _⟩ := List.map_eq_cons_iff.mp hrest
    obtain ⟨s₁', hs₁', h₁⟩ := (holds_init maxRaftState).getCommandsFromRaft hbefore.symm
      fun m hm => hidx m (List.mem_append_left _ hm)
    obtain rfl : s₁' = s₁ := Option.some.inj (hs₁'.symm.trans hs₁)
    obtain ⟨s₂', hs₂', h₂⟩ := h₁.getCommandFromRaft hop.symm (hidx m (by simp)) m.2
    obtain rfl : s₂' = s₂ := Option.some.inj (hs₂'.symm.trans hs₂)
    rw [h₂.skipList, h₁.skipList]
    exact Replica.apply_get_skipList (hget op hop.symm)

omit [KvArchive] in
/-- A `Put` and an `Append` of one client to the same key. -/
def putThenAppend (value : String) : List Op :=
  [{ operation := "Put", key := "k", value, clientId := "c", requestId := 1 },
    { operation := "Append", key := "k", value := "b", clientId := "c", requestId := 2 }]

/-- The commands of a sequence of operations at the indices from 1 on. -/
def commandMsgs (ops : List Op) : List (ApplyMsg × Int) :=
  ops.zipIdx.map fun (op, i) => (commandMsg op (i + 1), 0)

omit [KvArchive] in
/-- The empty value is put and then appended to. -/
theorem reads_history_iff_appendToNothing :
    letI := textKvArchive
    ∃ s, (init 1000).getCommandsFromRaft (commandMsgs (putThenAppend "")) = some s ∧
      (ReadsHistory 1000 (commandMsgs (putThenAppend "")) (putThenAppend "") s ↔
        ∀ k, History.AppendsToNothing k (putThenAppend "")) := by
  let := textKvArchive
  apply reads_history_iff
  · decide
  · decide
  · decide

omit [KvArchive] in
/-- After `Put k a` and `Append k b` a `Get` finds `b` instead of `ab`. -/
theorem append_replaces_value :
    letI := textKvArchive
    RequestsIncrease (putThenAppend "a") ∧
      ∃ s, (init 1000).getCommandsFromRaft (commandMsgs (putThenAppend "a")) = some s ∧
        (s.server.executeGetOpOnKVDB { key := "k" }).2 = some "b" ∧
        ¬ ReadsHistory 1000 (commandMsgs (putThenAppend "a")) (putThenAppend "a") s := by
  let := textKvArchive
  refine ⟨by decide, ?_⟩
  have hrun : ((init 1000).getCommandsFromRaft (commandMsgs (putThenAppend "a"))).map
      (fun s => (s.server.executeGetOpOnKVDB { key := "k" }).2) = some (some "b") := by
    decide
  obtain ⟨s, hs, hread⟩ := Option.map_eq_some_iff.mp hrun
  refine ⟨s, hs, hread, fun hall => ?_⟩
  have hvalue := hall.value { key := "k" }
  rw [hread] at hvalue
  revert hvalue
  decide

end KvProcess

end RaftStore
