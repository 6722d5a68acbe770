import Mathlib.Tactic.Common
import RaftStore.Lib.Transition
import RaftStore.Model.Archive

namespace RaftStore

/-!
# What a step of the server process changes

Most steps of the server process move a handler or a queue.  `KvProcess.View` is the rest: the
replicated state, the apply thread and the records of the run.

* `KvProcess.Stepped`, `KvProcess.stepped_of_step` — the steps, one case for each way through the
  code; later proofs use it and never unfold a step.
* `KvProcess.Change`, `KvProcess.step_change` — the view after a step, one case for each step that
  touches it.
-/

namespace KvProcess

/-- The part of a server process that is not about handlers and queues. -/
structure View where
  skipList : SkipList String String
  lastRequestId : Finmap fun _ : String => Int
  lastSnapShotRaftLogIndex : Int
  applyThread : ApplyThread
  commands : List ApplyMsg
  executions : List Op

/-- The view of a process. -/
def view (s : KvProcess) : View where
  skipList := s.server.skipList
  lastRequestId := s.server.lastRequestId
  lastSnapShotRaftLogIndex := s.server.lastSnapShotRaftLogIndex
  applyThread := s.applyThread
  commands := s.commands
  executions := s.executions

/-- The steps of handlers that do not read the state machine. -/
def quiet : KvStep → Bool
  | .get .. | .putAppend .. | .openWaitChan _ | .timeOutPop _ | .timeOut _ _
  | .answerTimedOut _ | .closeWaitChan _ => true
  | _ => false

/-- The operations that `executeOp` runs. -/
def writes (op : Op) : Bool := op.operation = "Put" || op.operation = "Append"

/-- The two writing operations do the same, and any other does nothing. -/
theorem executeOp_eq (s : KvServer) (op : Op) :
    s.executeOp op = if writes op then s.executePutOpOnKVDB op else s := by
  unfold KvServer.executeOp writes
  by_cases hput : op.operation = "Put"
  · simp [hput]
  · by_cases happ : op.operation = "Append"
    · simp [happ]
      rfl
    · simp [hput, happ]

/-- `ifRequestDuplicate` looks for the entry of the client that is at least as high. -/
theorem ifRequestDuplicate_iff (s : KvServer) (clientId : String) (requestId : Int) :
    s.ifRequestDuplicate clientId requestId = true ↔
      ∃ last ∈ s.lastRequestId.lookup clientId, requestId ≤ last := by
  unfold KvServer.ifRequestDuplicate
  split
  · rename_i hnone
    simp [hnone]
  · rename_i last hsome
    simp [hsome]

/-- A channel that is opened leaves the state machine. -/
theorem openWaitChan_frame (s : KvServer) (raftIndex : Int) :
    (s.openWaitChan raftIndex).1.skipList = s.skipList ∧
      (s.openWaitChan raftIndex).1.lastRequestId = s.lastRequestId ∧
      (s.openWaitChan raftIndex).1.lastSnapShotRaftLogIndex = s.lastSnapShotRaftLogIndex := by
  unfold KvServer.openWaitChan
  split <;> exact ⟨rfl, rfl, rfl⟩

/-- A channel that is closed leaves the state machine. -/
theorem closeWaitChan_frame (s : KvServer) (raftIndex : Int) :
    (s.closeWaitChan raftIndex).skipList = s.skipList ∧
      (s.closeWaitChan raftIndex).lastRequestId = s.lastRequestId ∧
      (s.closeWaitChan raftIndex).lastSnapShotRaftLogIndex = s.lastSnapShotRaftLogIndex := by
  unfold KvServer.closeWaitChan
  split <;> exact ⟨rfl, rfl, rfl⟩

/-- A message to a channel leaves the state machine. -/
theorem sendMessageToWaitChan_frame (s : KvServer) (op : Op) (raftIndex : Int) :
    (s.sendMessageToWaitChan op raftIndex).skipList = s.skipList ∧
      (s.sendMessageToWaitChan op raftIndex).lastRequestId = s.lastRequestId ∧
      (s.sendMessageToWaitChan op raftIndex).lastSnapShotRaftLogIndex =
        s.lastSnapShotRaftLogIndex := by
  unfold KvServer.sendMessageToWaitChan
  split <;> exact ⟨rfl, rfl, rfl⟩

variable [KvArchive]

/-- The process after a step, and what the step asks of the process before. -/
inductive Stepped (s : KvProcess) : KvStep → KvProcess → Prop
  | skipped {message : ApplyMsg} {op : Op} (hidle : s.applyThread = .idle)
      (hparse : KvArchive.opOfString message.command = some op)
      (hidx : message.commandIndex ≤ s.server.lastSnapShotRaftLogIndex) :
      Stepped s (.getCommandFromRaft message) { s with commands := s.commands ++ [message] }
  | received {message : ApplyMsg} {op : Op} (hidle : s.applyThread = .idle)
      (hparse : KvArchive.opOfString message.command = some op)
      (hidx : s.server.lastSnapShotRaftLogIndex < message.commandIndex) :
      Stepped s (.getCommandFromRaft message)
        { s with
          commands := s.commands ++ [message]
          applyThread := .received op message.commandIndex }
  | installed {message : ApplyMsg} (hidle : s.applyThread = .idle) {server : KvServer}
      (hserver : s.server.getSnapShotFromRaft message = some server) :
      Stepped s (.getSnapShotFromRaft message) { s with server }
  | duplicate {op : Op} {index : Int} (hthread : s.applyThread = .received op index)
      (hdup : s.server.ifRequestDuplicate op.clientId op.requestId = true) :
      Stepped s .ifRequestDuplicate { s with applyThread := .executed op index }
  | fresh {op : Op} {index : Int} (hthread : s.applyThread = .received op index)
      (hdup : s.server.ifRequestDuplicate op.clientId op.requestId = false) :
      Stepped s .ifRequestDuplicate { s with applyThread := .executing op index }
  | executed {op : Op} {index : Int} (hthread : s.applyThread = .executing op index) :
      Stepped s .executeOp
        { s with
          server := s.server.executeOp op
          applyThread := .executed op index
          executions := s.executions ++
            if op.operation = "Put" ∨ op.operation = "Append" then [op] else [] }
  | measured {op : Op} {index raftStateSize : Int}
      (hthread : s.applyThread = .executed op index) :
      Stepped s (.ifNeedToSendSnapShotCommand raftStateSize)
        { s with
          applyThread := .notifying op index
          snapshots := s.snapshots ++
            (if s.server.maxRaftState ≠ -1 then s.server.ifNeedToSendSnapShotCommand raftStateSize
              else none).toList.map (index, ·) }
  | notified {op : Op} {index : Int} (hthread : s.applyThread = .notifying op index) :
      Stepped s .sendMessageToWaitChan
        { s with server := s.server.sendMessageToWaitChan op index, applyThread := .idle }
  | get (key clientId : String) (requestId raftIndex : Int) (isLeader : Bool) :
      Stepped s (.get key clientId requestId raftIndex isLeader)
        { s with
          handlers := s.handlers ++
            [.begin true { operation := "Get", key, value := "", clientId, requestId } raftIndex
              isLeader] }
  | putAppend (operation key value clientId : String) (requestId raftIndex : Int)
      (isLeader : Bool) :
      Stepped s (.putAppend operation key value clientId requestId raftIndex isLeader)
        { s with
          handlers := s.handlers ++
            [.begin false { operation, key, value, clientId, requestId } raftIndex isLeader] }
  | opened {h : ℕ} {handler : Handler} (hhandler : s.handlers[h]? = some handler)
      (hpc : handler.pc = .started) :
      Stepped s (.openWaitChan h)
        { s.setHandler h
            { handler with pc := .waiting (s.server.openWaitChan handler.raftIndex).2 } with
          server := (s.server.openWaitChan handler.raftIndex).1 }
  | popped {h ch : ℕ} {handler : Handler} {raftCommitOp : Op} {rest : List Op}
      (hhandler : s.handlers[h]? = some handler) (hpc : handler.pc = .waiting ch)
      (hqueue : s.server.channels[ch]? = some (some (raftCommitOp :: rest))) :
      Stepped s (.timeOutPop h)
        { s.setHandler h (handler.popped raftCommitOp) with
          server := { s.server with channels := s.server.channels.set ch (some rest) } }
  | timedOut {h ch : ℕ} {handler : Handler} {isLeader : Bool}
      (hhandler : s.handlers[h]? = some handler) (hpc : handler.pc = .waiting ch) :
      Stepped s (.timeOut h isLeader) (s.setHandler h { handler with pc := .timedOut isLeader })
  | answered {h : ℕ} {handler : Handler} {isLeader : Bool}
      (hhandler : s.handlers[h]? = some handler) (hpc : handler.pc = .timedOut isLeader) :
      Stepped s (.answerTimedOut h)
        (s.setHandler h (handler.afterTimeOut isLeader
          (s.server.ifRequestDuplicate handler.op.clientId handler.op.requestId)))
  | read {h : ℕ} {handler : Handler} (hhandler : s.handlers[h]? = some handler)
      (hpc : handler.pc = .executing) :
      Stepped s (.executeGet h)
        { s.setHandler h
            { handler with
              pc := .answered
              reply := some (KvServer.getReply (s.server.executeGetOpOnKVDB handler.op).2) } with
          server := (s.server.executeGetOpOnKVDB handler.op).1 }
  | closed {h : ℕ} {handler : Handler} (hhandler : s.handlers[h]? = some handler)
      (hpc : handler.pc = .answered) :
      Stepped s (.closeWaitChan h)
        { s.setHandler h { handler with pc := .returned } with
          server := s.server.closeWaitChan handler.raftIndex }

/-- **Inversion.**  These are all steps; what is kept of a step is read off here. -/
theorem stepped_of_step {s s' : KvProcess} {a : KvStep} (h : s.step a = some s') :
    Stepped s a s' := by
  cases a with
  | getCommandFromRaft message =>
    simp only [step, stepGetCommandFromRaft] at h
    -- a message is taken only by an idle apply thread
    by_cases hidle : s.applyThread = .idle
    · rw [if_neg (not_not.mpr hidle)] at h
      obtain ⟨op, hparse, h⟩ := Option.bind_eq_some_iff.mp h
      split at h
      · rename_i hidx
        exact Option.some.inj h ▸ .skipped hidle hparse hidx
      · rename_i hidx
        exact Option.some.inj h ▸ .received hidle hparse (not_le.mp hidx)
    · rw [if_pos hidle] at h
      cases h
  | getSnapShotFromRaft message =>
    simp only [step, stepGetSnapShotFromRaft] at h
    by_cases hidle : s.applyThread = .idle
    · rw [if_neg (not_not.mpr hidle)] at h
      obtain ⟨server, hserver, h⟩ := Option.bind_eq_some_iff.mp h
      exact Option.some.inj h ▸ .installed hidle hserver
    · rw [if_pos hidle] at h
      cases h
  | ifRequestDuplicate =>
    simp only [step, stepIfRequestDuplicate] at h
    split at h
    · rename_i op index hthread
      split at h
      · rename_i hdup
        exact Option.some.inj h ▸ .duplicate hthread hdup
      · rename_i hdup
        exact Option.some.inj h ▸ .fresh hthread (by simpa using hdup)
    · cases h
  | executeOp =>
    simp only [step, stepExecuteOp] at h
    split at h
    · rename_i op index hthread
      exact Option.some.inj h ▸ .executed hthread
    · cases h
  | ifNeedToSendSnapShotCommand raftStateSize =>
    simp only [step, stepIfNeedToSendSnapShotCommand] at h
    split at h
    · rename_i op index hthread
      exact Option.some.inj h ▸ .measured hthread
    · cases h
  | sendMessageToWaitChan =>
    simp only [step, stepSendMessageToWaitChan] at h
    split at h
    · rename_i op index hthread
      exact Option.some.inj h ▸ .notified hthread
    · cases h
  | get key clientId requestId raftIndex isLeader =>
    exact Option.some.inj h ▸ .get key clientId requestId raftIndex isLeader
  | putAppend operation key value clientId requestId raftIndex isLeader =>
    exact Option.some.inj h ▸ .putAppend operation key value clientId requestId raftIndex isLeader
  | openWaitChan k =>
    obtain ⟨handler, hhandler, h⟩ := Option.bind_eq_some_iff.mp h
    split at h
    · rename_i hpc
      exact Option.some.inj h ▸ .opened hhandler hpc
    · cases h
  | timeOutPop k =>
    obtain ⟨handler, hhandler, h⟩ := Option.bind_eq_some_iff.mp h
    split at h
    · rename_i ch hpc
      split at h
      · rename_i raftCommitOp rest hqueue
        exact Option.some.inj h ▸ .popped hhandler hpc hqueue
      · cases h
    · cases h
  | timeOut k isLeader =>
    obtain ⟨handler, hhandler, h⟩ := Option.bind_eq_some_iff.mp h
    split at h
    · rename_i hpc
      exact Option.some.inj h ▸ .timedOut hhandler hpc
    · cases h
  | answerTimedOut k =>
    obtain ⟨handler, hhandler, h⟩ := Option.bind_eq_some_iff.mp h
    split at h
    · rename_i hpc
      exact Option.some.inj h ▸ .answered hhandler hpc
    · cases h
  | executeGet k =>
    obtain ⟨handler, hhandler, h⟩ := Option.bind_eq_some_iff.mp h
    split at h
    · rename_i hpc
      exact Option.some.inj h ▸ .read hhandler hpc
    · cases h
  | closeWaitChan k =>
    obtain ⟨handler, hhandler, h⟩ := Option.bind_eq_some_iff.mp h
    split at h
    · rename_i hpc
      exact Option.some.inj h ▸ .closed hhandler hpc
    · cases h

/-- The view after a step. -/
inductive Change (s : KvProcess) : KvStep → View → Prop
  | skipped {message : ApplyMsg} {op : Op} (hidle : s.applyThread = .idle)
      (hparse : KvArchive.opOfString message.command = some op)
      (hidx : message.commandIndex ≤ s.server.lastSnapShotRaftLogIndex) :
      Change s (.getCommandFromRaft message) { s.view with commands := s.commands ++ [message] }
  | received {message : ApplyMsg} {op : Op} (hidle : s.applyThread = .idle)
      (hparse : KvArchive.opOfString message.command = some op)
      (hidx : s.server.lastSnapShotRaftLogIndex < message.commandIndex) :
      Change s (.getCommandFromRaft message)
        { s.view with
          commands := s.commands ++ [message]
          applyThread := .received op message.commandIndex }
  | installed {message : ApplyMsg} (hidle : s.applyThread = .idle) {server : KvServer}
      (hserver : s.server.getSnapShotFromRaft message = some server) :
      Change s (.getSnapShotFromRaft message)
        { s.view with
          skipList := server.skipList
          lastRequestId := server.lastRequestId
          lastSnapShotRaftLogIndex := server.lastSnapShotRaftLogIndex }
  | duplicate {op : Op} {index : Int} (hthread : s.applyThread = .received op index)
      (hdup : s.server.ifRequestDuplicate op.clientId op.requestId = true) :
      Change s .ifRequestDuplicate { s.view with applyThread := .executed op index }
  | fresh {op : Op} {index : Int} (hthread : s.applyThread = .received op index)
      (hdup : s.server.ifRequestDuplicate op.clientId op.requestId = false) :
      Change s .ifRequestDuplicate { s.view with applyThread := .executing op index }
  | wrote {op : Op} {index : Int} (hthread : s.applyThread = .executing op index)
      (hwrites : writes op = true) :
      Change s .executeOp
        { s.view with
          skipList := s.server.skipList.insertSetElement op.key op.value
          lastRequestId := s.server.lastRequestId.insert op.clientId op.requestId
          applyThread := .executed op index
          executions := s.executions ++ [op] }
  | passed {op : Op} {index : Int} (hthread : s.applyThread = .executing op index)
      (hwrites : writes op = false) :
      Change s .executeOp { s.view with applyThread := .executed op index }
  | measured {op : Op} {index raftStateSize : Int}
      (hthread : s.applyThread = .executed op index) :
      Change s (.ifNeedToSendSnapShotCommand raftStateSize)
        { s.view with applyThread := .notifying op index }
  | notified {op : Op} {index : Int} (hthread : s.applyThread = .notifying op index) :
      Change s .sendMessageToWaitChan { s.view with applyThread := .idle }
  | read {h : ℕ} {handler : Handler} (hhandler : s.handlers[h]? = some handler)
      (hpc : handler.pc = .executing) :
      Change s (.executeGet h)
        { s.view with
          lastRequestId :=
            s.server.lastRequestId.insert handler.op.clientId handler.op.requestId }
  | quiet {a : KvStep} (hquiet : quiet a = true) : Change s a s.view

/-- **Step lemma.**  Every step changes the view in one of these ways. -/
theorem step_change {s s' : KvProcess} {a : KvStep} (h : s.step a = some s') :
    Change s a s'.view := by
  cases stepped_of_step h with
  | skipped hidle hparse hidx => exact .skipped hidle hparse hidx
  | received hidle hparse hidx => exact .received hidle hparse hidx
  | installed hidle hserver => exact .installed hidle hserver
  | duplicate hthread hdup => exact .duplicate hthread hdup
  | fresh hthread hdup => exact .fresh hthread hdup
  | @executed op index hthread =>
    -- only `Put` and `Append` reach the skip list
    have hif : (op.operation = "Put" ∨ op.operation = "Append") ↔ writes op = true := by
      simp [writes]
    rw [executeOp_eq]
    cases hw : writes op with
    | true =>
      rw [if_pos rfl, if_pos (hif.mpr hw)]
      exact .wrote hthread hw
    | false =>
      rw [if_neg (by simp), if_neg (by rw [hif, hw]; simp), List.append_nil]
      exact .passed hthread hw
  | measured hthread => exact .measured hthread
  | @notified op index hthread =>
    -- the channels are outside the view
    obtain ⟨h₁, h₂, h₃⟩ := sendMessageToWaitChan_frame s.server op index
    simpa only [view, h₁, h₂, h₃] using Change.notified (s := s) hthread
  | @opened k handler =>
    obtain ⟨h₁, h₂, h₃⟩ := openWaitChan_frame s.server handler.raftIndex
    have hc := Change.quiet (s := s) (a := .openWaitChan k) rfl
    simpa only [view, setHandler, h₁, h₂, h₃] using hc
  | read hhandler hpc => exact .read hhandler hpc
  | @closed k handler =>
    obtain ⟨h₁, h₂, h₃⟩ := closeWaitChan_frame s.server handler.raftIndex
    have hc := Change.quiet (s := s) (a := .closeWaitChan k) rfl
    simpa only [view, setHandler, h₁, h₂, h₃] using hc
  | get | putAppend | popped | timedOut | answered => exact .quiet rfl

end KvProcess

end RaftStore
