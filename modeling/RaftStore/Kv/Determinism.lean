import RaftStore.Kv.AtMostOnce

namespace RaftStore

/-!
# Replica determinism

What a replica should be: the result of applying the commands one after another.  The server
process refines this as long as its handlers leave no trace, and a handler leaves one whenever
`ExecuteGetOpOnKVDB` meets a table entry that is not yet the number of its request.

* `Replica`, `replay` — the replicated state as a function of the commands.
* `KvProcess.Silent` — the condition on a step: a handler that reads the state machine finds the
  entry it is about to write.
* `View.Replays` — the refinement: between two commands the process holds `replay` of the commands
  passed to it, and inside one the command still to be executed makes it so.
* `replicas_agree` — two processes that have been passed the same commands agree.
* `get_makes_replicas_differ` — one `Get` that is answered on one of them is enough to part
  them.
-/

/-- The state that the commands are supposed to determine. -/
structure Replica where
  skipList : SkipList String String := {}
  lastRequestId : Finmap (fun _ : String => Int) := ∅

namespace Replica

/-- The effect of an operation: nothing if it is a duplicate or does not write. -/
def apply (r : Replica) (op : Op) : Replica :=
  if ∃ last ∈ r.lastRequestId.lookup op.clientId, op.requestId ≤ last then r
  else if KvProcess.writes op then
    { skipList := r.skipList.insertSetElement op.key op.value
      lastRequestId := r.lastRequestId.insert op.clientId op.requestId }
  else r

variable [KvArchive]

/-- The effect of a command message; indices up to 0 are covered by the empty snapshot. -/
def applyMessage (r : Replica) (message : ApplyMsg) : Replica :=
  match KvArchive.opOfString message.command with
  | none => r
  | some op => if message.commandIndex ≤ 0 then r else r.apply op

/-- The effect of a sequence of commands. -/
def replay (messages : List ApplyMsg) : Replica :=
  messages.foldl applyMessage {}

/-- One more command. -/
theorem replay_append (messages : List ApplyMsg) (message : ApplyMsg) :
    replay (messages ++ [message]) = (replay messages).applyMessage message := by
  rw [replay, replay, List.foldl_append]
  rfl

end Replica

namespace KvProcess

/-- The replicated part of a server process. -/
def View.replica (v : View) : Replica where
  skipList := v.skipList
  lastRequestId := v.lastRequestId

/-- The condition on a step: a handler that reads the state machine writes an entry that is
    already there.  Snapshots are not part of these runs. -/
def Silent (s : KvProcess) : KvStep → Prop
  | .executeGet h => ∀ handler ∈ s.handlers[h]?,
      s.server.lastRequestId.lookup handler.op.clientId = some handler.op.requestId
  | .getSnapShotFromRaft _ => False
  | _ => True

instance (s : KvProcess) : (a : KvStep) → Decidable (s.Silent a)
  | .executeGet h =>
    inferInstanceAs (Decidable (∀ handler ∈ s.handlers[h]?,
      s.server.lastRequestId.lookup handler.op.clientId = some handler.op.requestId))
  | .getSnapShotFromRaft _ => inferInstanceAs (Decidable False)
  | .getCommandFromRaft _ | .ifRequestDuplicate | .executeOp | .ifNeedToSendSnapShotCommand _
  | .sendMessageToWaitChan | .get .. | .putAppend .. | .openWaitChan _ | .timeOutPop _
  | .timeOut .. | .answerTimedOut _ | .closeWaitChan _ => inferInstanceAs (Decidable True)

/-- Writing an entry that is already there changes nothing. -/
theorem insert_eq_self {t : Finmap fun _ : String => Int} {c : String} {r : Int}
    (h : t.lookup c = some r) : t.insert c r = t := by
  refine Finmap.ext_lookup fun c' => ?_
  by_cases hc : c' = c
  · rw [hc, Finmap.lookup_insert, h]
  · exact Finmap.lookup_insert_of_ne t hc

variable [KvArchive]

/-- The operation of a command that is being applied and may still be executed. -/
def View.current (v : View) : Option Op :=
  match v.applyThread with
  | .received op _ | .executing op _ => some op
  | _ => none

/-- How the process stands to the replica that its commands determine: that replica is the state
    of the process, or what the operation still to be executed makes of it. -/
structure View.Replays (v : View) : Prop where
  replica : .replay v.commands = v.current.elim v.replica v.replica.apply
  fresh : ∀ op index, v.applyThread = .executing op index →
    ¬ ∃ last ∈ v.lastRequestId.lookup op.clientId, op.requestId ≤ last

/-- **Step lemma.**  A silent step keeps the refinement, and no snapshot is installed. -/
theorem replays_step {s s' : KvProcess} {a : KvStep} (h : s.view.Replays)
    (hsnap : s.view.lastSnapShotRaftLogIndex = 0) (hok : s.Silent a) (hs : s.step a = some s') :
    s'.view.Replays ∧ s'.view.lastSnapShotRaftLogIndex = 0 := by
  have hview := step_change hs
  generalize s'.view = v at hview
  obtain ⟨hrep, hfresh⟩ := h
  cases hview with
  | @skipped message op hidle hparse hidx =>
    have hcur : s.view.current = none := by
      rw [View.current, show s.view.applyThread = _ from hidle]
    rw [hcur] at hrep
    refine ⟨⟨?_, hfresh⟩, hsnap⟩
    change Replica.replay (s.view.commands ++ [message]) = s.view.current.elim s.view.replica _
    rw [hcur, Replica.replay_append, hrep, Replica.applyMessage, hparse]
    -- without a snapshot the index is at most 0: the replica skips it as well
    exact if_pos (hidx.trans hsnap.le)
  | @received message op hidle hparse hidx =>
    have hcur : s.view.current = none := by
      rw [View.current, show s.view.applyThread = _ from hidle]
    rw [hcur] at hrep
    refine ⟨⟨?_, fun _ _ hop => by cases hop⟩, hsnap⟩
    change Replica.replay (s.view.commands ++ [message]) = s.view.replica.apply op
    rw [Replica.replay_append, hrep, Replica.applyMessage, hparse]
    exact if_neg (not_le.mpr (hsnap.symm.trans_lt hidx))
  | installed => exact absurd hok id
  | @duplicate op index hthread hdup =>
    have hcur : s.view.current = some op := by
      rw [View.current, show s.view.applyThread = _ from hthread]
    rw [hcur] at hrep
    refine ⟨⟨hrep.trans ?_, fun _ _ hop => by cases hop⟩, hsnap⟩
    exact if_pos ((ifRequestDuplicate_iff _ _ _).mp hdup)
  | @fresh op index hthread hdup =>
    have hcur : s.view.current = some op := by
      rw [View.current, show s.view.applyThread = _ from hthread]
    rw [hcur] at hrep
    refine ⟨⟨hrep, fun op' index' hop => ?_⟩, hsnap⟩
    obtain ⟨rfl, -⟩ := ApplyThread.executing.inj hop
    rw [← Bool.not_eq_true, ifRequestDuplicate_iff] at hdup
    exact hdup
  | @wrote op index hthread hwrites =>
    have hcur : s.view.current = some op := by
      rw [View.current, show s.view.applyThread = _ from hthread]
    rw [hcur] at hrep
    refine ⟨⟨hrep.trans ?_, fun _ _ hop => by cases hop⟩, hsnap⟩
    exact (if_neg (hfresh op index hthread)).trans (if_pos hwrites)
  | @passed op index hthread hwrites =>
    have hcur : s.view.current = some op := by
      rw [View.current, show s.view.applyThread = _ from hthread]
    rw [hcur] at hrep
    refine ⟨⟨hrep.trans ?_, fun _ _ hop => by cases hop⟩, hsnap⟩
    exact (if_neg (hfresh op index hthread)).trans (if_neg (by simp [hwrites]))
  | @measured op index raftStateSize hthread =>
    have hcur : s.view.current = none := by
      rw [View.current, show s.view.applyThread = _ from hthread]
    rw [hcur] at hrep
    exact ⟨⟨hrep, fun _ _ hop => by cases hop⟩, hsnap⟩
  | @notified op index hthread =>
    have hcur : s.view.current = none := by
      rw [View.current, show s.view.applyThread = _ from hthread]
    rw [hcur] at hrep
    exact ⟨⟨hrep, fun _ _ hop => by cases hop⟩, hsnap⟩
  | @read k handler hhandler hpc =>
    -- a silent `Get` writes the number that is there
    have hsame := insert_eq_self (hok handler hhandler)
    simp only [hsame]
    exact ⟨⟨hrep, hfresh⟩, hsnap⟩
  | quiet => exact ⟨⟨hrep, hfresh⟩, hsnap⟩

/-- **Run lemma.**  In the runs whose steps are silent the process refines the replica. -/
theorem reach_replays {maxRaftState : Int} {s : KvProcess}
    (h : Reach step Silent (init maxRaftState) s) : s.view.Replays := by
  have hinv := h.invariant
    (P := fun s => s.view.Replays ∧ s.view.lastSnapShotRaftLogIndex = 0)
    ⟨⟨rfl, fun _ _ hop => by cases hop⟩, rfl⟩
    fun _ _ _ _ hinv hok hs => replays_step hinv.1 hinv.2 hok hs
  exact hinv.1

/-- **Replica determinism.**  Two processes whose handlers were silent, and which have been
    passed the same commands and have finished the last, hold the same key-value pairs and the
    same table. -/
theorem replicas_agree {maxRaftState₁ maxRaftState₂ : Int} {s₁ s₂ : KvProcess}
    (h₁ : Reach step Silent (init maxRaftState₁) s₁)
    (h₂ : Reach step Silent (init maxRaftState₂) s₂)
    (hidle₁ : s₁.applyThread = .idle) (hidle₂ : s₂.applyThread = .idle)
    (hcommands : s₁.commands = s₂.commands) :
    s₁.server.skipList = s₂.server.skipList ∧
      s₁.server.lastRequestId = s₂.server.lastRequestId := by
  have hreplica : ∀ {m s}, Reach step Silent (init m) s → s.applyThread = .idle →
      .replay s.commands = s.view.replica := by
    intro m s h hidle
    have hrep := (reach_replays h).replica
    rwa [View.current, show s.view.applyThread = _ from hidle] at hrep
  have heq : s₁.view.replica = s₂.view.replica := by
    rw [← hreplica h₁ hidle₁, ← hreplica h₂ hidle₂, hcommands]
  exact ⟨congrArg Replica.skipList heq, congrArg Replica.lastRequestId heq⟩

omit [KvArchive] in
/-- One process serves the client of a `Put`, and a `Get` of the same client id and number whose
    wait runs out and that then reads; the other serves nobody.  Both end alike. -/
theorem replicas_agree_timedOutGet :
    letI := textKvArchive
    ∃ s₁ s₂ : KvProcess, s₁.handlers.map Handler.isGet = [false, true] ∧
      s₂.handlers.length = 0 ∧ s₁.server.skipList.searchElement "k" = some "v" ∧
      s₁.server.skipList = s₂.server.skipList ∧
      s₁.server.lastRequestId = s₂.server.lastRequestId := by
  let := textKvArchive
  have hrun₁ : (runFrom step Silent (init 1000)
      ([.putAppend "Put" "k" "v" "c" 2 1 true, .openWaitChan 0] ++ applySteps putRequest 1 ++
        [.timeOutPop 0, .closeWaitChan 0, .get "k" "c" 2 2 true, .openWaitChan 1,
          .timeOut 1 true, .answerTimedOut 1, .executeGet 1, .closeWaitChan 1])).map
      (fun s => (s.handlers.map Handler.isGet, s.server.skipList.searchElement "k",
        s.applyThread, s.commands)) =
      some ([false, true], some "v", .idle, [commandMsg putRequest 1]) := by
    decide +kernel
  have hrun₂ : (runFrom step Silent (init (-1)) (applySteps putRequest 1)).map (fun s =>
      (s.handlers.length, s.applyThread, s.commands)) =
      some (0, .idle, [commandMsg putRequest 1]) := by
    decide
  obtain ⟨s₁, h₁, hshow₁⟩ := Reach.exists_of_runFrom hrun₁
  obtain ⟨s₂, h₂, hshow₂⟩ := Reach.exists_of_runFrom hrun₂
  obtain ⟨hhandlers, hkey, hidle₁, hcommands₁⟩ : _ ∧ _ ∧ _ ∧ _ := by
    simpa only [Prod.mk.injEq] using hshow₁
  obtain ⟨hlen, hidle₂, hcommands₂⟩ : _ ∧ _ ∧ _ := by simpa only [Prod.mk.injEq] using hshow₂
  exact ⟨s₁, s₂, hhandlers, hlen, hkey,
    replicas_agree h₁ h₂ hidle₁ hidle₂ (hcommands₁.trans hcommands₂.symm)⟩

omit [KvArchive] in
/-- One process answers a `Get`, the other only applies its command: their tables differ. -/
theorem get_makes_replicas_differ :
    letI := textKvArchive
    ∃ s₁ s₂ : KvProcess, Reach step anyStep (init 1000) s₁ ∧ Reach step anyStep (init 1000) s₂ ∧
      s₁.applyThread = .idle ∧ s₂.applyThread = .idle ∧ s₁.commands = s₂.commands ∧
      s₁.server.lastRequestId ≠ s₂.server.lastRequestId := by
  let := textKvArchive
  have hrun₁ : (runFrom step anyStep (init 1000)
      (getSteps ++ [.timeOutPop 0, .executeGet 0, .closeWaitChan 0])).map (fun s =>
        (s.applyThread, s.commands, s.server.lastRequestId.lookup "c")) =
      some (.idle, [commandMsg getRequest 1], some 1) := by
    decide
  have hrun₂ : (runFrom step anyStep (init 1000) (applySteps getRequest 1)).map (fun s =>
      (s.applyThread, s.commands, s.server.lastRequestId.lookup "c")) =
      some (.idle, [commandMsg getRequest 1], none) := by
    decide
  obtain ⟨s₁, h₁, hshow₁⟩ := Reach.exists_of_runFrom hrun₁
  obtain ⟨s₂, h₂, hshow₂⟩ := Reach.exists_of_runFrom hrun₂
  obtain ⟨hidle₁, hcommands₁, hentry₁⟩ : _ ∧ _ ∧ _ := by simpa only [Prod.mk.injEq] using hshow₁
  obtain ⟨hidle₂, hcommands₂, hentry₂⟩ : _ ∧ _ ∧ _ := by simpa only [Prod.mk.injEq] using hshow₂
  refine ⟨s₁, s₂, h₁, h₂, hidle₁, hidle₂, hcommands₁.trans hcommands₂.symm, fun heq => ?_⟩
  rw [heq, hentry₂] at hentry₁
  cases hentry₁

end KvProcess

end RaftStore
