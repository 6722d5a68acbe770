import RaftStore.Kv.AtMostOnce
import RaftStore.Model.Handover
import RaftStore.Node.Durability

namespace RaftStore

/-!
# The order in which messages reach the server

The server needs each command right after the index its state stands for, and no snapshot
behind that index.  The two kinds of threads that push are not ordered among each other, so
this is a matter of when they run.

* `accept`, `flow` — what the server does to its index on one message and on a queue; `none`
  where a message does not fit.
* `Handover.InTurn` — the condition on a push: no snapshot behind something already pushed, and
  no command past an accepted snapshot that still waits in its thread.
* `Handover.Ordered` — the invariant: the queue flows from the index of the server to the highest
  index pushed, and what is still to be pushed continues from there.
* `handed_over_in_order` — in the runs whose pushes are in turn every command that is taken fits,
  and the index never goes down.
* `stale_snapshot_lowers_cover` — a snapshot that is older than what was applied is accepted.
-/

/-! ### The server's side of the queue -/

/-- The index the server's state stands for and `m_lastSnapShotRaftLogIndex`, after a message;
    `none` for a command that leaves a gap or comes again, and for a snapshot that goes back. -/
def accept : Int × Int → ApplyMsg → Option (Int × Int)
  | (cover, last), message =>
    if message.commandValid then
      if message.commandIndex ≤ last then some (cover, last)
      else if cover = message.commandIndex - 1 then some (message.commandIndex, last)
      else none
    else if message.snapshotValid then
      if cover ≤ message.snapshotIndex then some (message.snapshotIndex, message.snapshotIndex)
      else none
    else some (cover, last)

/-- The same over a queue. -/
def flow (state : Int × Int) (messages : List ApplyMsg) : Option (Int × Int) :=
  messages.foldlM accept state

/-- One more message at the end of the queue. -/
theorem flow_concat {state state' : Int × Int} {messages : List ApplyMsg} {message : ApplyMsg}
    (h : flow state messages = some state') :
    flow state (messages ++ [message]) = accept state' message := by
  unfold flow at h ⊢
  rw [List.foldlM_append, h]
  simp

/-- The message at the head of the queue. -/
theorem flow_cons {state final : Int × Int} {messages : List ApplyMsg} {message : ApplyMsg}
    (h : flow state (message :: messages) = some final) :
    ∃ state', accept state message = some state' ∧ flow state' messages = some final := by
  unfold flow at h
  rw [List.foldlM_cons] at h
  exact Option.bind_eq_some_iff.mp h

/-! ### What the handlers do to `m_lastApplied` -/

namespace Raft

variable {n : ℕ}

/-- The loop of `getApplyLogs` numbers its messages from `m_lastApplied + 1`, whatever the log
    holds. -/
theorem applyLoop_indices {fuel : ℕ} {rf rf' : Raft n} {msgs : List ApplyMsg}
    (h : applyLoop fuel rf = .ok (rf', msgs)) :
    rf'.lastApplied = rf.lastApplied + msgs.length ∧
      ∀ (k : ℕ) (m : ApplyMsg), msgs[k]? = some m →
        m.commandValid = true ∧ m.commandIndex = rf.lastApplied + 1 + k := by
  induction fuel generalizing rf msgs with
  | zero =>
    obtain ⟨rfl, rfl⟩ := Prod.mk.inj (Except.ok.inj h)
    simp
  | succ fuel ih =>
    unfold applyLoop at h
    obtain ⟨e, -, h⟩ := Exec.bind_eq_ok.mp h
    obtain ⟨_, -, h⟩ := Exec.bind_eq_ok.mp h
    obtain ⟨⟨rf₁, msgs₁⟩, h₁, h⟩ := Exec.bind_eq_ok.mp h
    obtain ⟨rfl, rfl⟩ := Prod.mk.inj (Exec.pure_eq_ok.mp h)
    obtain ⟨happlied, hmsgs⟩ := ih h₁
    -- the first message is that of the first turn, the others are those of the turns that are left
    refine ⟨?_, fun k m hm => ?_⟩
    · rw [happlied, List.length_cons]
      push_cast
      omega
    · cases k with
      | zero =>
        obtain rfl := Option.some.inj hm
        exact ⟨rfl, by simp⟩
      | succ k =>
        obtain ⟨hv, hi⟩ := hmsgs k m (by simpa using hm)
        refine ⟨hv, hi.trans ?_⟩
        push_cast
        omega

/-- `getApplyLogs` numbers its messages from `m_lastApplied + 1`. -/
theorem getApplyLogs_indices {rf rf' : Raft n} {msgs : List ApplyMsg}
    (h : rf.getApplyLogs = .ok (rf', msgs)) :
    rf'.lastApplied = rf.lastApplied + msgs.length ∧
      ∀ (k : ℕ) (m : ApplyMsg), msgs[k]? = some m →
        m.commandValid = true ∧ m.commandIndex = rf.lastApplied + 1 + k := by
  unfold getApplyLogs at h
  obtain ⟨_, -, h⟩ := Exec.bind_eq_ok.mp h
  exact applyLoop_indices h

variable [RaftArchive]

/-- `AppendEntries1` applies nothing. -/
theorem appendEntries1_lastApplied {rf rf' : Raft n} {args : AppendEntriesArgs}
    {reply : AppendEntriesReply} (h : rf.appendEntries1 args = .ok (rf', reply)) :
    rf'.lastApplied = rf.lastApplied := by
  unfold appendEntries1 appendEntriesInTerm at h
  split at h
  · obtain ⟨rfl, -⟩ := Prod.mk.inj (Except.ok.inj h)
    rfl
  · obtain ⟨-, -, h⟩ := Exec.bind_eq_ok.mp h
    dsimp only at h
    split at h
    · obtain ⟨rfl, -⟩ := Prod.mk.inj (Except.ok.inj h)
      simp
    · obtain ⟨b, -, h⟩ := Exec.bind_eq_ok.mp h
      split at h
      · obtain ⟨rf₁, h₁, h⟩ := Exec.bind_eq_ok.mp h
        obtain ⟨_, -, h⟩ := Exec.bind_eq_ok.mp h
        obtain ⟨_, -, h⟩ := Exec.bind_eq_ok.mp h
        obtain ⟨rfl, -⟩ := Prod.mk.inj (Exec.pure_eq_ok.mp h)
        rw [followCommit_frame, mergeEntries_frame h₁]
        simp
      · obtain ⟨_, -, h⟩ := Exec.bind_eq_ok.mp h
        obtain ⟨rfl, -⟩ := Prod.mk.inj (Exec.pure_eq_ok.mp h)
        simp

/-- `InstallSnapshot` hands over a snapshot exactly when it moves `m_lastApplied` at least to its
    index. -/
theorem installSnapshot_lastApplied {rf rf' : Raft n} {args : InstallSnapshotRequest}
    {reply : InstallSnapshotResponse} {message : Option ApplyMsg}
    (h : rf.installSnapshot args = .ok (rf', reply, message)) :
    message = none ∧ rf'.lastApplied = rf.lastApplied ∨
      message = some (snapshotMsg args) ∧
        rf'.lastApplied = max rf.lastApplied args.lastSnapShotIncludeIndex := by
  rw [installSnapshot_eq] at h
  split at h
  · obtain ⟨rfl, hrest⟩ := Prod.mk.inj (Except.ok.inj h)
    exact Or.inl ⟨(Prod.mk.inj hrest).2.symm, rfl⟩
  · split at h
    · obtain ⟨rfl, hrest⟩ := Prod.mk.inj (Except.ok.inj h)
      exact Or.inl ⟨(Prod.mk.inj hrest).2.symm, by simp⟩
    -- only the branch that installs sends a message
    · obtain ⟨rf₁, h₁, h⟩ := Exec.bind_eq_ok.mp h
      obtain ⟨rfl, hrest⟩ := Prod.mk.inj (Exec.pure_eq_ok.mp h)
      refine Or.inr ⟨(Prod.mk.inj hrest).2.symm, ?_⟩
      unfold installAccepted at h₁
      dsimp only at h₁
      split at h₁
      · obtain ⟨_, -, h₁⟩ := Exec.bind_eq_ok.mp h₁
        obtain ⟨_, -, h₁⟩ := Exec.bind_eq_ok.mp h₁
        rw [← Exec.pure_eq_ok.mp h₁]
        simp
      · obtain ⟨_, -, h₁⟩ := Exec.bind_eq_ok.mp h₁
        rw [← Exec.pure_eq_ok.mp h₁]
        simp

/-- A snapshot of what was applied applies nothing more. -/
theorem snapshot_lastApplied {rf rf' : Raft n} {index : Int} {data : String}
    (h : rf.snapshot index data = .ok rf') (hle : index ≤ rf.lastApplied) :
    rf'.lastApplied = rf.lastApplied := by
  unfold snapshot at h
  split at h
  · rw [← Except.ok.inj h]
  · obtain ⟨_, -, h⟩ := Exec.bind_eq_ok.mp h
    obtain ⟨_, -, h⟩ := Exec.bind_eq_ok.mp h
    obtain ⟨_, -, h⟩ := Exec.bind_eq_ok.mp h
    rw [← Exec.pure_eq_ok.mp h]
    exact max_eq_left hle

end Raft

/-! ### The pushing side -/

namespace Handover

variable {n : ℕ}

/-- The condition on a push.  A detached thread pushes its snapshot before anything with a larger
    index has been pushed, and `applierTicker` pushes a command only when no snapshot with a
    smaller index that has not been pushed past waits in its thread. -/
def InTurn (s : Handover n) : HandoverStep → Prop
  | .pushMsgToKvServer k => ∀ m ∈ s.detached[k]?, s.pushed ≤ m.snapshotIndex
  | .push => ∀ m ∈ s.applyMsgs.head?, ∀ waiting ∈ s.detached,
      ¬ (s.pushed < waiting.snapshotIndex ∧ waiting.snapshotIndex < m.commandIndex)
  | _ => True

instance (s : Handover n) (a : HandoverStep) : Decidable (s.InTurn a) := by
  cases a <;> (unfold InTurn; infer_instance)

/-- The command that a step takes from the queue and does not skip. -/
def Takes (s : Handover n) (a : HandoverStep) (j : Int) : Prop :=
  a = .pop ∧ ∃ m ∈ s.applyChan.head?, m.commandValid = true ∧ m.commandIndex = j ∧
    s.kv.server.lastSnapShotRaftLogIndex < j

/-- The invariant.  `last` is the index of the last snapshot pushed, and `b` the index before the
    next command that `applierTicker` pushes. -/
structure Ordered (s : Handover n) (last b : Int) : Prop where
  queue : flow (s.cover, s.kv.server.lastSnapShotRaftLogIndex) s.applyChan = some (s.pushed, last)
  last_le : last ≤ s.pushed
  batch : ∀ (k : ℕ) (m : ApplyMsg), s.applyMsgs[k]? = some m →
    m.commandValid = true ∧ m.commandIndex = b + 1 + k
  snapshots : ∀ m ∈ s.detached, m.commandValid = false ∧ m.snapshotValid = true
  before : b ≤ s.pushed ∨ ∃ m ∈ s.detached, m.snapshotIndex = b
  applied : s.raft.lastApplied = b + s.applyMsgs.length ∨ s.raft.lastApplied ≤ s.pushed ∨
    ∃ m ∈ s.detached, m.snapshotIndex = s.raft.lastApplied
  commands : s.pushed ≤ last ∨ s.pushed ≤ b
  batch_le : b + s.applyMsgs.length ≤ s.raft.lastApplied

/-- A step of the node that moves `m_lastApplied` and hands over no snapshot, or one with the new
    index, keeps the invariant. -/
theorem Ordered.with_raft {s : Handover n} {last b : Int} (h : s.Ordered last b) (raft : Raft n)
    (fresh : List ApplyMsg)
    (hfresh : ∀ m ∈ fresh, m.commandValid = false ∧ m.snapshotValid = true)
    (happlied : raft.lastApplied = s.raft.lastApplied ∨ s.raft.lastApplied ≤ raft.lastApplied ∧
      ∃ m ∈ fresh, m.snapshotIndex = raft.lastApplied) :
    ({ s with raft, detached := s.detached ++ fresh } : Handover n).Ordered last b where
  queue := h.queue
  last_le := h.last_le
  batch := h.batch
  snapshots := fun m hm => (List.mem_append.mp hm).elim (h.snapshots m) (hfresh m)
  before := h.before.imp_right fun ⟨m, hm, hi⟩ => ⟨m, List.mem_append_left _ hm, hi⟩
  applied := by
    rcases happlied with heq | ⟨-, m, hm, hi⟩
    · refine h.applied.imp heq.trans (Or.imp heq.le.trans ?_)
      exact fun ⟨m, hm, hi⟩ => ⟨m, List.mem_append_left _ hm, hi.trans heq.symm⟩
    · exact Or.inr (Or.inr ⟨m, List.mem_append_right _ hm, hi⟩)
  commands := h.commands
  batch_le := by
    have hle := h.batch_le
    rcases happlied with heq | ⟨hge, -⟩
    · exact hle.trans heq.ge
    · exact hle.trans hge

/-- What `applierTicker` collects continues from `m_lastApplied`. -/
theorem Ordered.collect {s : Handover n} {last b : Int} (h : s.Ordered last b)
    (hnil : s.applyMsgs = []) {raft : Raft n} {applyMsgs : List ApplyMsg}
    (hok : s.raft.getApplyLogs = .ok (raft, applyMsgs)) :
    ({ s with raft, applyMsgs } : Handover n).Ordered last s.raft.lastApplied := by
  obtain ⟨happlied, hmsgs⟩ := Raft.getApplyLogs_indices hok
  have hle := h.batch_le
  have happ := h.applied
  rw [hnil, List.length_nil] at hle happ
  refine ⟨h.queue, h.last_le, hmsgs, h.snapshots, ?_, Or.inl happlied, ?_, happlied.ge⟩
  · rcases happ with heq | hpushed | hw
    · have hb : s.raft.lastApplied = b := by simpa using heq
      rw [hb]
      exact h.before
    · exact Or.inl hpushed
    · exact Or.inr hw
  · exact h.commands.imp_right fun hb => hb.trans (by simpa using hle)

/-- A command pushed in turn is covered by a snapshot or is the next one. -/
theorem Ordered.push {s : Handover n} {last b : Int} (h : s.Ordered last b) {m : ApplyMsg}
    {applyMsgs : List ApplyMsg} (hmsgs : s.applyMsgs = m :: applyMsgs) (hturn : s.InTurn .push) :
    ({ s with applyMsgs }.pushMsg m).Ordered last (b + 1) := by
  obtain ⟨hvalid, hidx⟩ := h.batch 0 m (by rw [hmsgs]; rfl)
  have hidx : m.commandIndex = b + 1 := by simpa using hidx
  have hlast := h.last_le
  have hle := h.batch_le
  have hlen : (s.applyMsgs.length : Int) = applyMsgs.length + 1 := by
    rw [hmsgs, List.length_cons]
    push_cast
    rfl
  -- no snapshot waits in between, so what precedes the command has been pushed
  have hb : b ≤ s.pushed := by
    rcases h.before with hb | ⟨w, hw, hwi⟩
    · exact hb
    · have hno := hturn m (by rw [hmsgs]; rfl) w hw
      omega
  have haccept : accept (s.pushed, last) m = some (max s.pushed m.commandIndex, last) := by
    rw [accept, if_pos hvalid]
    have hcommands := h.commands
    by_cases hskip : m.commandIndex ≤ last
    · rw [if_pos hskip, max_eq_left (by omega)]
    · rw [if_neg hskip, if_pos (by omega), max_eq_right (by omega)]
  have hpushed : ({ s with applyMsgs }.pushMsg m).pushed = max s.pushed m.commandIndex := by
    simp only [pushMsg, indexOf, hvalid, if_true]
  refine ⟨?_, ?_, fun k m' hk => ?_, h.snapshots, Or.inl ?_, ?_, ?_, ?_⟩
  · rw [hpushed, ← haccept]
    exact flow_concat h.queue
  · rw [hpushed]
    omega
  · obtain ⟨hv, hi⟩ := h.batch (k + 1) m' (by rw [hmsgs]; exact hk)
    refine ⟨hv, hi.trans ?_⟩
    push_cast
    omega
  · rw [hpushed]
    omega
  · rw [hpushed]
    change s.raft.lastApplied = b + 1 + applyMsgs.length ∨
      s.raft.lastApplied ≤ max s.pushed m.commandIndex ∨ _
    rcases h.applied with heq | hle | hw
    · exact Or.inl (by omega)
    · exact Or.inr (Or.inl (by omega))
    · exact Or.inr (Or.inr hw)
  · rw [hpushed]
    have hcommands := h.commands
    omega
  · change b + 1 + applyMsgs.length ≤ s.raft.lastApplied
    omega

/-- A snapshot pushed in turn brings the server forward to its index. -/
theorem Ordered.pushSnapshot {s : Handover n} {last b : Int} (h : s.Ordered last b) {k : ℕ}
    {m : ApplyMsg} (hk : s.detached[k]? = some m) (hturn : s.InTurn (.pushMsgToKvServer k)) :
    ({ s with detached := s.detached.eraseIdx k }.pushMsg m).Ordered m.snapshotIndex b := by
  obtain ⟨hcmd, hvalid⟩ := h.snapshots m (List.mem_of_getElem? hk)
  have hle : s.pushed ≤ m.snapshotIndex := hturn m hk
  have hpushed : ({ s with detached := s.detached.eraseIdx k }.pushMsg m).pushed =
      m.snapshotIndex := by
    simp only [pushMsg, indexOf, hcmd, Bool.false_eq_true, if_false]
    exact max_eq_right hle
  have haccept : accept (s.pushed, last) m = some (m.snapshotIndex, m.snapshotIndex) := by
    rw [accept, if_neg (by simp [hcmd]), if_pos hvalid, if_pos hle]
  -- whatever waited still waits, unless it is the snapshot just pushed
  have hwait : ∀ i : Int, (∃ w ∈ s.detached, w.snapshotIndex = i) → i ≤ m.snapshotIndex ∨
      ∃ w ∈ s.detached.eraseIdx k, w.snapshotIndex = i := by
    rintro i ⟨w, hw, rfl⟩
    obtain ⟨j, hj⟩ := List.getElem?_of_mem hw
    by_cases hjk : j = k
    · subst hjk
      obtain rfl := Option.some.inj (hk.symm.trans hj)
      exact Or.inl le_rfl
    · exact Or.inr ⟨w, List.mem_eraseIdx_iff_getElem?.mpr ⟨j, hjk, hj⟩, rfl⟩
  refine ⟨?_, by rw [hpushed], h.batch, fun w hw => h.snapshots w (List.mem_of_mem_eraseIdx hw),
    ?_, ?_, Or.inl hpushed.le, h.batch_le⟩
  · rw [hpushed, ← haccept]
    exact flow_concat h.queue
  · rw [hpushed]
    rcases h.before with hb | hb
    · exact Or.inl (hb.trans hle)
    · exact hwait b hb
  · rw [hpushed]
    rcases h.applied with heq | hb | hb
    · exact Or.inl heq
    · exact Or.inr (Or.inl (hb.trans hle))
    · exact Or.inr (hwait _ hb)

variable [KvArchive]

omit [KvArchive] in
/-- The invariant after a message has been taken and the server has moved as `accept` says. -/
theorem Ordered.taken {s : Handover n} {last b : Int} (h : s.Ordered last b) {m : ApplyMsg}
    {applyChan : List ApplyMsg} (hchan : s.applyChan = m :: applyChan) {kv : KvProcess}
    {cover : Int}
    (haccept : ∀ state, accept (s.cover, s.kv.server.lastSnapShotRaftLogIndex) m = some state →
      state = (cover, kv.server.lastSnapShotRaftLogIndex)) :
    ({ s with applyChan, kv, cover } : Handover n).Ordered last b where
  queue := by
    have hqueue := h.queue
    rw [hchan] at hqueue
    obtain ⟨state, hstate, hflow⟩ := flow_cons hqueue
    rw [haccept state hstate] at hflow
    exact hflow
  last_le := h.last_le
  batch := h.batch
  snapshots := h.snapshots
  before := h.before
  applied := h.applied
  commands := h.commands
  batch_le := h.batch_le

/-- A step of the server's threads takes nothing from the queue. -/
theorem stepKv_eq {s s' : Handover n} {a : KvStep} (h : s.stepKv a = some s') :
    ∃ kv, s.kv.step a = some kv ∧ (∀ message, a ≠ .getSnapShotFromRaft message) ∧
      s' = { s with kv } := by
  unfold stepKv at h
  split at h
  · cases h
  · cases h
  · rename_i hno
    obtain ⟨kv, hkv, rfl⟩ := Option.map_eq_some_iff.mp h
    exact ⟨kv, hkv, hno, rfl⟩

/-- Neither a command nor a step inside one moves `m_lastSnapShotRaftLogIndex`. -/
theorem lastSnapShot_step {s s' : KvProcess} {a : KvStep} (h : s.step a = some s')
    (ha : ∀ message, a ≠ .getSnapShotFromRaft message) :
    s'.server.lastSnapShotRaftLogIndex = s.server.lastSnapShotRaftLogIndex := by
  change s'.view.lastSnapShotRaftLogIndex = _
  have hview := KvProcess.step_change h
  generalize s'.view = v at hview ⊢
  cases hview with
  | installed => exact absurd rfl (ha _)
  | skipped | received | duplicate | fresh | wrote | passed | measured | notified | read | quiet =>
    rfl

/-- Installing a snapshot sets `m_lastSnapShotRaftLogIndex` to its index. -/
theorem lastSnapShot_install {s s' : KvProcess} {message : ApplyMsg}
    (h : s.stepGetSnapShotFromRaft message = some s') :
    s'.server.lastSnapShotRaftLogIndex = message.snapshotIndex := by
  unfold KvProcess.stepGetSnapShotFromRaft at h
  split at h
  · cases h
  · obtain ⟨server, hserver, h⟩ := Option.bind_eq_some_iff.mp h
    obtain ⟨server', -, rfl⟩ := Option.map_eq_some_iff.mp hserver
    rw [← Option.some.inj h]

/-- Taking a message keeps the invariant; the index of the server does not go down, and a command
    that is not skipped is the next one. -/
theorem Ordered.pop {s s' : Handover n} {last b : Int} (h : s.Ordered last b)
    (hs : s.stepPop = some s') :
    s'.Ordered last b ∧ s.cover ≤ s'.cover ∧
      ∀ m ∈ s.applyChan.head?, m.commandValid = true →
        s.kv.server.lastSnapShotRaftLogIndex < m.commandIndex → s.cover = m.commandIndex - 1 := by
  unfold stepPop at hs
  split at hs
  · cases hs
  · rename_i m applyChan hchan
    have hqueue := h.queue
    rw [hchan] at hqueue
    obtain ⟨state, hstate, -⟩ := flow_cons hqueue
    rw [hchan]
    simp only [List.head?_cons, Option.mem_some, forall_eq']
    rw [accept] at hstate
    dsimp only at hs
    split at hs
    · -- a command, which leaves the index of the server as it is
      rename_i hvalid
      obtain ⟨kv, hkv, hs⟩ := Option.bind_eq_some_iff.mp hs
      have hlast := lastSnapShot_step (a := .getCommandFromRaft m) hkv fun _ he => by cases he
      rw [if_pos hvalid] at hstate
      split at hs
      · rename_i hskip
        rw [if_pos hskip] at hstate
        rw [← Option.some.inj hs]
        refine ⟨h.taken hchan fun state' h' => ?_, le_rfl, fun _ hlt => absurd hskip (by omega)⟩
        rw [accept, if_pos hvalid, if_pos hskip] at h'
        rw [hlast, ← Option.some.inj h']
      · -- the queue is a flow, so the command is the next one or not above the index
        rename_i hskip
        rw [if_neg hskip] at hstate
        split at hstate
        · rename_i hnext
          rw [← Option.some.inj hs]
          refine ⟨h.taken hchan fun state' h' => ?_, by dsimp only; omega, fun _ _ => hnext⟩
          rw [accept, if_pos hvalid, if_neg hskip, if_pos hnext] at h'
          rw [hlast, ← Option.some.inj h']
        · cases hstate
    · rename_i hcmd
      rw [if_neg hcmd] at hstate
      split at hs
      · -- a snapshot, which sets the index of the server
        rename_i hvalid
        obtain ⟨kv, hkv, hs⟩ := Option.bind_eq_some_iff.mp hs
        have hlast := lastSnapShot_install hkv
        rw [if_pos hvalid] at hstate
        split at hstate
        · rename_i hle
          rw [← Option.some.inj hs]
          refine ⟨h.taken hchan fun state' h' => ?_, hle, fun hc => absurd hc hcmd⟩
          rw [accept, if_neg hcmd, if_pos hvalid, if_pos hle] at h'
          rw [hlast, ← Option.some.inj h']
        · cases hstate
      · rename_i hvalid
        rw [← Option.some.inj hs]
        refine ⟨h.taken hchan fun state' h' => ?_, le_rfl, fun hc => absurd hc hcmd⟩
        rw [accept, if_neg hcmd, if_neg hvalid] at h'
        rw [← Option.some.inj h']

variable [RaftArchive]

/-- **Step lemma.**  A step in turn keeps the invariant, lets no index go down and takes only the
    next command. -/
theorem Ordered.step {s s' : Handover n} {a : HandoverStep} {last b : Int}
    (h : s.Ordered last b) (hturn : s.InTurn a) (hs : s.step a = some s') :
    (∃ last' b', s'.Ordered last' b') ∧ s.cover ≤ s'.cover ∧
      ∀ j, s.Takes a j → s.cover = j - 1 := by
  cases a with
  | appendEntries1 args =>
    simp only [Handover.step] at hs
    split at hs
    · cases hs
    · rename_i raft reply hok
      rw [← Option.some.inj hs]
      have hord := h.with_raft raft [] (by simp)
        (Or.inl (Raft.appendEntries1_lastApplied hok))
      rw [List.append_nil] at hord
      exact ⟨⟨last, b, hord⟩, le_rfl, fun _ ht => nomatch ht.1⟩
  | installSnapshot args =>
    simp only [Handover.step] at hs
    split at hs
    · cases hs
    · rename_i raft reply message hok
      rw [← Option.some.inj hs]
      refine ⟨⟨last, b, h.with_raft _ _ ?_ ?_⟩, le_rfl, fun _ ht => nomatch ht.1⟩
      · rcases Raft.installSnapshot_lastApplied hok with ⟨rfl, -⟩ | ⟨rfl, -⟩
        · simp
        · simp [Raft.snapshotMsg]
      · rcases Raft.installSnapshot_lastApplied hok with ⟨rfl, heq⟩ | ⟨rfl, heq⟩
        · exact Or.inl heq
        · -- a snapshot in flight is behind `m_lastApplied`, or it has just become it
          rcases le_total args.lastSnapShotIncludeIndex s.raft.lastApplied with hle | hle
          · exact Or.inl (heq.trans (max_eq_left hle))
          · rw [max_eq_right hle] at heq
            exact Or.inr ⟨heq ▸ hle, Raft.snapshotMsg args, by simp, heq.symm⟩
  | snapshot index data =>
    simp only [Handover.step, stepSnapshot] at hs
    split at hs
    · rename_i hle
      split at hs
      · cases hs
      · rename_i raft hok
        rw [← Option.some.inj hs]
        have hord := h.with_raft raft [] (by simp)
          (Or.inl (Raft.snapshot_lastApplied hok hle))
        rw [List.append_nil] at hord
        exact ⟨⟨last, b, hord⟩, le_rfl, fun _ ht => nomatch ht.1⟩
    · cases hs
  | getApplyLogs =>
    simp only [Handover.step, stepGetApplyLogs] at hs
    split at hs
    · rename_i hnil
      split at hs
      · cases hs
      · rename_i raft applyMsgs hok
        rw [← Option.some.inj hs]
        exact ⟨⟨last, s.raft.lastApplied, h.collect hnil hok⟩, le_rfl, fun _ ht => nomatch ht.1⟩
    · cases hs
  | push =>
    simp only [Handover.step, stepPush] at hs
    split at hs
    · cases hs
    · rename_i m applyMsgs hmsgs
      rw [← Option.some.inj hs]
      exact ⟨⟨last, b + 1, h.push hmsgs hturn⟩, le_rfl, fun _ ht => nomatch ht.1⟩
  | pushMsgToKvServer k =>
    simp only [Handover.step, stepPushMsgToKvServer] at hs
    obtain ⟨m, hk, hs⟩ := Option.bind_eq_some_iff.mp hs
    rw [← Option.some.inj hs]
    exact ⟨⟨m.snapshotIndex, b, h.pushSnapshot hk hturn⟩, le_rfl, fun _ ht => nomatch ht.1⟩
  | pop =>
    obtain ⟨hord, hcover, htake⟩ := h.pop hs
    refine ⟨⟨last, b, hord⟩, hcover, ?_⟩
    rintro j ⟨-, m, hm, hvalid, rfl, hlt⟩
    exact htake m hm hvalid hlt
  | kv a =>
    obtain ⟨kv, hkv, ha, rfl⟩ := stepKv_eq hs
    refine ⟨⟨last, b, ?_⟩, le_rfl, fun _ ht => nomatch ht.1⟩
    -- the other steps of the service leave the index alone
    have hlast := lastSnapShot_step hkv ha
    exact { h with queue := by rw [← h.queue, ← hlast] }

/-- **Run lemma.**  The invariant holds throughout the runs whose pushes are in turn. -/
theorem reach_ordered {me : Fin n} {maxRaftState : Int} {s : Handover n}
    (h : Reach step InTurn (init me maxRaftState) s) : ∃ last b, s.Ordered last b := by
  have hstep : ∀ (s : Handover n) a s', (∃ last b, s.Ordered last b) → s.InTurn a →
      s.step a = some s' → ∃ last b, s'.Ordered last b := by
    rintro s a s' ⟨last, b, hord⟩ hturn hs
    exact (hord.step hturn hs).1
  refine h.invariant (P := fun s => ∃ last b, s.Ordered last b) ⟨0, 0, ?_⟩
    fun s a s' _ hinv hturn hs => hstep s a s' hinv hturn hs
  exact
    { queue := rfl
      last_le := le_rfl
      batch := fun _ _ hk => by cases hk
      snapshots := fun _ hm => by cases hm
      before := Or.inl le_rfl
      applied := Or.inl rfl
      commands := Or.inl le_rfl
      batch_le := le_rfl }

/-! ### Runs -/

/-- **Ordered hand-over.**  In every run whose pushes are in turn, each command that is taken and
    not skipped finds the index before its own, and the index never goes down. -/
theorem handed_over_in_order {me : Fin n} {maxRaftState : Int} {s s' : Handover n}
    {a : HandoverStep} (h : Reach step InTurn (init me maxRaftState) s) (hturn : s.InTurn a)
    (hs : s.step a = some s') :
    (∀ j, s.Takes a j → s.cover = j - 1) ∧ s.cover ≤ s'.cover := by
  obtain ⟨last, b, hord⟩ := reach_ordered h
  obtain ⟨-, hcover, htake⟩ := hord.step hturn hs
  exact ⟨htake, hcover⟩

/-- The request that brings a follower of node 0 the first two commands. -/
def firstEntries : AppendEntriesArgs :=
  { term := 1
    leaderId := 0
    prevLogIndex := 0
    prevLogTerm := 0
    entries := [{ command := KvArchive.asString KvProcess.getRequest, logTerm := 1, logIndex := 1 },
      { command := KvArchive.asString KvProcess.putRequest, logTerm := 1, logIndex := 2 }]
    leaderCommit := 2 }

/-- The steps of the server on one command. -/
def popSteps : List HandoverStep :=
  [.pop, .kv .ifRequestDuplicate, .kv .executeOp, .kv (.ifNeedToSendSnapShotCommand 0),
    .kv .sendMessageToWaitChan]

/-- A snapshot of the first command. -/
def firstSnapshot : InstallSnapshotRequest :=
  { leaderId := 0
    term := 1
    lastSnapShotIncludeIndex := 1
    lastSnapShotIncludeTerm := 1
    data := (KvProcess.init 1000).server.makeSnapShot }

/-- The request that brings a follower that has this snapshot the command behind it. -/
def secondEntry : AppendEntriesArgs :=
  { term := 1
    leaderId := 0
    prevLogIndex := 1
    prevLogTerm := 1
    entries := [{ command := KvArchive.asString KvProcess.putRequest, logTerm := 1, logIndex := 2 }]
    leaderCommit := 2 }

omit [KvArchive] [RaftArchive] in
/-- A snapshot is handed over by its own thread, and the command behind it finds the server at
    the snapshot's index. -/
theorem handed_over_in_order_behindSnapshot :
    letI := textRaftArchive
    letI := textKvArchive
    ∃ s s' : Handover 3, Reach step InTurn (init 1 1000) s ∧ s.step .pop = some s' ∧
      s.Takes .pop 2 ∧ s.cover = 2 - 1 ∧ s.cover ≤ s'.cover := by
  let := textRaftArchive
  let := textKvArchive
  have hrun : ((runFrom (step : Handover 3 → _) InTurn (init 1 1000)
      [.installSnapshot firstSnapshot, .pushMsgToKvServer 0, .pop, .appendEntries1 secondEntry,
        .getApplyLogs, .push]).bind fun s =>
        (s.step .pop).map fun _ => (s.applyChan.head?, s.kv.server.lastSnapShotRaftLogIndex)) =
      some (some (KvProcess.commandMsg KvProcess.putRequest 2), 1) := by
    decide +kernel
  obtain ⟨s, hs, hrun⟩ := Option.bind_eq_some_iff.mp hrun
  obtain ⟨s', hs', hshow⟩ := Option.map_eq_some_iff.mp hrun
  obtain ⟨hhead, hlast⟩ : _ ∧ _ := by simpa only [Prod.mk.injEq] using hshow
  have htakes : s.Takes .pop 2 := ⟨rfl, _, hhead, rfl, rfl, by rw [hlast]; decide⟩
  obtain ⟨htake, hcover⟩ := handed_over_in_order (.of_runFrom hs) (a := .pop) trivial hs'
  exact ⟨s, s', .of_runFrom hs, hs', htakes, htake 2 htakes, hcover⟩

/-! ### A snapshot that is behind -/

omit [KvArchive] [RaftArchive] in
/-- After two commands have been applied a snapshot of the first is accepted, handed over and
    installed: the index of the server goes from 2 to 1. -/
theorem stale_snapshot_lowers_cover :
    letI := textRaftArchive
    letI := textKvArchive
    ∃ s s' : Handover 3, Reach step anyStep (init 1 1000) s ∧ s.step .pop = some s' ∧
      s.cover = 2 ∧ s'.cover = 1 := by
  let := textRaftArchive
  let := textKvArchive
  have hrun : ((runFrom (step : Handover 3 → _) anyStep (init 1 1000)
      ([.appendEntries1 firstEntries, .getApplyLogs, .push, .push] ++ popSteps ++ popSteps ++
        [.installSnapshot firstSnapshot, .pushMsgToKvServer 0])).bind fun s =>
          (s.step .pop).map fun s' => (s.cover, s'.cover)) = some (2, 1) := by
    decide +kernel
  obtain ⟨s, hs, hrun⟩ := Option.bind_eq_some_iff.mp hrun
  obtain ⟨s', hs', hshow⟩ := Option.map_eq_some_iff.mp hrun
  obtain ⟨hbefore, hafter⟩ : _ ∧ _ := by simpa only [Prod.mk.injEq] using hshow
  exact ⟨s, s', .of_runFrom hs, hs', hbefore, hafter⟩

end Handover

end RaftStore
