import RaftStore.Lib.Transition
import RaftStore.Model.Archive
import RaftStore.Node.Fields

namespace RaftStore

/-!
# What a node writes down

One node on its own: any sequence of calls of its handlers, with any arguments, from the moment
`init` has returned to the moment the process is stopped, and then `init` again on the files
that are left.

* `NodeCall`, `nodeStep` — the calls and the executable step; `none` when a fault ends the
  process.
* `Synced` — the text last handed to the persister encodes the node's persistent fields.
* `Raft.Keeps`, `nodeStep_keeps` — what one call may do to the record.
* `reach_saved` — the run lemma: at every point nothing was saved and the fields still have
  their first values, or the node is `Synced`.
* `recorded_eq_persistent` — what was handed to the persister decodes to the present fields.
* `restart`, `recovers_iff_initial` — the constructor of `Persister` over the files of the old
  process, then `init`; it opens both files with truncation, so it recovers nothing.
-/

namespace Raft

variable {n : ℕ}

/-- The five fields that `persistData` writes. -/
structure Persistent where
  currentTerm : Int
  votedFor : Int
  lastSnapshotIncludeIndex : Int
  lastSnapshotIncludeTerm : Int
  logs : List LogEntry
  deriving DecidableEq, Repr

/-- The persistent fields of a node. -/
def persistent (rf : Raft n) : Persistent where
  currentTerm := rf.currentTerm
  votedFor := rf.votedFor
  lastSnapshotIncludeIndex := rf.lastSnapshotIncludeIndex
  lastSnapshotIncludeTerm := rf.lastSnapshotIncludeTerm
  logs := rf.logs

/-- The values `init` starts from. -/
def Persistent.initial : Persistent where
  currentTerm := 0
  votedFor := -1
  lastSnapshotIncludeIndex := 0
  lastSnapshotIncludeTerm := 0
  logs := []

/-- A node that has just been constructed holds the initial values. -/
@[simp] theorem persistent_fresh (me : Fin n) (p : Persister) :
    (fresh me p).persistent = .initial := rfl

end Raft

/-- A call of one handler of a node. -/
inductive NodeCall (n : ℕ)
  | appendEntries1 (args : AppendEntriesArgs)
  | requestVote (args : RequestVoteArgs)
  | installSnapshot (args : InstallSnapshotRequest)
  | snapshot (index : Int) (data : String)
  | start (command : String)
  | doElection
  | sendRequestVoteReply (reply : RequestVoteReply) (votedNum : Int)
  | sendAppendEntriesReply (server : Fin n) (args : AppendEntriesArgs)
      (reply : AppendEntriesReply) (appendNums : Int)
  | leaderSendSnapShot
  | leaderSendSnapShotReply (server : Fin n) (args : InstallSnapshotRequest)
      (reply : InstallSnapshotResponse)
  | doHeartBeat
  | getApplyLogs

variable {n : ℕ} [RaftArchive]

/-- The state after a call has returned. -/
def NodeCall.run (rf : Raft n) : NodeCall n → Exec (Raft n)
  | .appendEntries1 args => Prod.fst <$> rf.appendEntries1 args
  | .requestVote args => Prod.fst <$> rf.requestVote args
  | .installSnapshot args => Prod.fst <$> rf.installSnapshot args
  | .snapshot index data => rf.snapshot index data
  | .start command => .ok (rf.start command).1
  | .doElection => .ok rf.doElection.1
  | .sendRequestVoteReply reply votedNum => Prod.fst <$> rf.sendRequestVoteReply reply votedNum
  | .sendAppendEntriesReply server args reply appendNums =>
    Prod.fst <$> rf.sendAppendEntriesReply server args reply appendNums
  | .leaderSendSnapShot => .ok rf.leaderSendSnapShot.1
  | .leaderSendSnapShotReply server args reply =>
    .ok (rf.leaderSendSnapShotReply server args reply)
  | .doHeartBeat => (fun _ => rf) <$> rf.doHeartBeat
  | .getApplyLogs => Prod.fst <$> rf.getApplyLogs

/-- A step of one node on its own. -/
def nodeStep (rf : Raft n) (call : NodeCall n) : Option (Raft n) :=
  (call.run rf).toOption

/-- The states of one node in the runs that begin with `Raft::init` on the files `disk`. -/
def NodeReach (me : Fin n) (disk : Disk) (rf : Raft n) : Prop :=
  ∃ rf₀, Raft.init me (Persister.construct disk) = some rf₀ ∧ Reach nodeStep anyStep rf₀ rf

/-- `Persister(me)` on the files that are left, then `Raft::init`. -/
def restart (rf : Raft n) : Option (Raft n) :=
  Raft.init rf.me (Persister.construct rf.persister.disk)

namespace Raft

/-- The node that `readPersist` makes of the text last handed to the persister. -/
def recorded (rf : Raft n) : Option (Raft n) :=
  (fresh rf.me rf.persister).readPersist rf.persister.lastRaftState

/-! ### Every handler keeps the record -/

/-- The text last handed to the persister encodes the persistent fields. -/
def Synced (rf : Raft n) : Prop :=
  rf.persister.handed ≠ [] ∧ rf.persister.lastRaftState = rf.persistData

/-- What a handler may do to the record and to the snapshot: write the record again or touch
    neither it nor the fields, and save a snapshot only by moving the snapshot point up. -/
structure Keeps (rf rf' : Raft n) : Prop where
  record : rf'.Synced ∨
    rf'.persistent = rf.persistent ∧ rf'.persister.handed = rf.persister.handed
  index : rf.lastSnapshotIncludeIndex ≤ rf'.lastSnapshotIncludeIndex
  saved : rf'.persister.lastSnapshot = rf.persister.lastSnapshot ∨
    rf.lastSnapshotIncludeIndex < rf'.lastSnapshotIncludeIndex

/-- Neither the node's part nor the persister's has changed. -/
theorem Keeps.of_eq {rf rf' : Raft n} (hp : rf'.persistent = rf.persistent)
    (hh : rf'.persister.handed = rf.persister.handed) : rf.Keeps rf' where
  record := Or.inr ⟨hp, hh⟩
  index := (congrArg Persistent.lastSnapshotIncludeIndex hp).ge
  saved := Or.inl (by rw [Persister.lastSnapshot, Persister.lastSnapshot, hh])

/-- Nothing has changed. -/
theorem Keeps.refl (rf : Raft n) : rf.Keeps rf := .of_eq rfl rfl

/-- What is persisted now is what the node holds. -/
theorem Keeps.persist {rf rf' : Raft n}
    (hi : rf'.lastSnapshotIncludeIndex = rf.lastSnapshotIncludeIndex)
    (hp : rf'.persister = rf.persister) : rf.Keeps rf'.persist where
  record := Or.inl ⟨List.cons_ne_nil _ _, rfl⟩
  index := hi.ge
  saved := Or.inl (by rw [Raft.persist, Persister.lastSnapshot_saveRaftState, hp])

/-- A snapshot above the last one is saved with the record. -/
theorem Keeps.saveSnapshot {rf rf' : Raft n}
    (hi : rf.lastSnapshotIncludeIndex < rf'.lastSnapshotIncludeIndex) (data : String) :
    rf.Keeps (rf'.saveSnapshot data) where
  record := Or.inl ⟨List.cons_ne_nil _ _, rfl⟩
  index := hi.le
  saved := Or.inr hi

/-- The encoding looks at the persistent fields alone. -/
theorem persistData_congr {rf rf' : Raft n} (h : rf'.persistent = rf.persistent) :
    rf'.persistData = rf.persistData := by
  simp only [persistent, Persistent.mk.injEq] at h
  obtain ⟨h₁, h₂, h₃, h₄, h₅⟩ := h
  rw [persistData, persistData, h₁, h₂, h₃, h₄, h₅]

/-- Only the persistent members and the last hand-over matter. -/
theorem Synced.congr {rf rf' : Raft n} (h : rf.Synced) (hp : rf'.persistent = rf.persistent)
    (hh : rf'.persister.handed = rf.persister.handed) : rf'.Synced := by
  refine ⟨by rw [hh]; exact h.1, ?_⟩
  rw [persistData_congr hp, ← h.2, Persister.lastRaftState, Persister.lastRaftState, hh]

/-- One after the other. -/
theorem Keeps.trans {rf rf' rf'' : Raft n} (h : rf.Keeps rf') (h' : rf'.Keeps rf'') :
    rf.Keeps rf'' where
  record := by
    rcases h'.record with hs' | ⟨hp', hh'⟩
    · exact Or.inl hs'
    · rcases h.record with hs | ⟨hp, hh⟩
      · exact Or.inl (hs.congr hp' hh')
      · exact Or.inr ⟨hp'.trans hp, hh'.trans hh⟩
  index := h.index.trans h'.index
  saved := by
    rcases h'.saved with hs' | hlt'
    · rcases h.saved with hs | hlt
      · exact Or.inl (hs'.trans hs)
      · exact Or.inr (hlt.trans_le h'.index)
    · exact Or.inr (h.index.trans_lt hlt')

omit [RaftArchive] in
/-- The merge loop changes the log alone. -/
theorem mergeEntries_frame {rf rf' : Raft n} {es : List LogEntry}
    (h : rf.mergeEntries es = .ok rf') : rf' = { rf with logs := rf'.logs } := by
  induction es generalizing rf with
  | nil =>
    rw [mergeEntries] at h
    rw [← Except.ok.inj h]
  | cons e es ih =>
    rw [mergeEntries] at h
    obtain ⟨rf₁, h₁, h⟩ := Exec.bind_eq_ok.mp h
    have hone : rf₁ = { rf with logs := rf₁.logs } := by
      unfold mergeEntry at h₁
      split at h₁
      · rw [← Exec.pure_eq_ok.mp h₁]
      · obtain ⟨_, -, h₁⟩ := Exec.bind_eq_ok.mp h₁
        obtain ⟨_, -, h₁⟩ := Exec.bind_eq_ok.mp h₁
        obtain ⟨_, -, h₁⟩ := Exec.bind_eq_ok.mp h₁
        split at h₁
        · rw [← Exec.pure_eq_ok.mp h₁]
        · rw [← Exec.pure_eq_ok.mp h₁]
    rw [ih h, hone]

omit [RaftArchive] in
/-- The commit step of `AppendEntries1` moves the commit index alone. -/
theorem followCommit_frame (rf : Raft n) (leaderCommit : Int) :
    rf.followCommit leaderCommit =
      { rf with commitIndex := (rf.followCommit leaderCommit).commitIndex } := by
  unfold followCommit
  split <;> rfl

/-- `AppendEntries1` persists what it changes, on every path. -/
theorem appendEntries1_keeps {rf rf' : Raft n} {args : AppendEntriesArgs}
    {reply : AppendEntriesReply} (h : rf.appendEntries1 args = .ok (rf', reply)) :
    rf.Keeps rf' := by
  unfold appendEntries1 appendEntriesInTerm at h
  split at h
  · obtain ⟨rfl, -⟩ := Prod.mk.inj (Except.ok.inj h)
    exact .refl rf
  · obtain ⟨-, -, h⟩ := Exec.bind_eq_ok.mp h
    dsimp only at h
    split at h
    · obtain ⟨rfl, -⟩ := Prod.mk.inj (Except.ok.inj h)
      exact .persist (by simp) (by simp)
    · obtain ⟨b, -, h⟩ := Exec.bind_eq_ok.mp h
      split at h
      · obtain ⟨rf₁, h₁, h⟩ := Exec.bind_eq_ok.mp h
        obtain ⟨_, -, h⟩ := Exec.bind_eq_ok.mp h
        obtain ⟨_, -, h⟩ := Exec.bind_eq_ok.mp h
        obtain ⟨rfl, -⟩ := Prod.mk.inj (Exec.pure_eq_ok.mp h)
        have hm := mergeEntries_frame h₁
        rw [followCommit_frame, hm]
        exact .persist (by simp) (by simp)
      · obtain ⟨_, -, h⟩ := Exec.bind_eq_ok.mp h
        obtain ⟨rfl, -⟩ := Prod.mk.inj (Exec.pure_eq_ok.mp h)
        exact .persist (by simp) (by simp)

/-- `RequestVote` persists what it changes, on every path. -/
theorem requestVote_keeps {rf rf' : Raft n} {args : RequestVoteArgs} {reply : RequestVoteReply}
    (h : rf.requestVote args = .ok (rf', reply)) : rf.Keeps rf' := by
  unfold requestVote at h
  split at h
  · obtain ⟨rfl, -⟩ := Prod.mk.inj (Except.ok.inj h)
    exact .persist rfl rfl
  · obtain ⟨-, -, h⟩ := Exec.bind_eq_ok.mp h
    split at h
    · obtain ⟨rfl, -⟩ := Prod.mk.inj (Exec.pure_eq_ok.mp h)
      exact .persist (by simp) (by simp)
    · split at h
      · obtain ⟨rfl, -⟩ := Prod.mk.inj (Exec.pure_eq_ok.mp h)
        exact .persist (by simp) (by simp)
      · obtain ⟨rfl, -⟩ := Prod.mk.inj (Exec.pure_eq_ok.mp h)
        exact .persist (by simp) (by simp)

/-- The term handling of `InstallSnapshot` persists exactly when it changes the term. -/
theorem heed_keeps (rf : Raft n) (term : Int) : rf.Keeps (rf.heed term) := by
  unfold heed
  split
  · have hp : rf.Keeps (rf.stepDown term).persist := .persist rfl rfl
    exact hp.trans (.of_eq rfl rfl)
  · exact .of_eq rfl rfl

/-- `InstallSnapshot` saves the snapshot where it moves the snapshot point. -/
theorem installSnapshot_keeps {rf rf' : Raft n} {args : InstallSnapshotRequest}
    {reply : InstallSnapshotResponse} {msg : Option ApplyMsg}
    (h : rf.installSnapshot args = .ok (rf', reply, msg)) : rf.Keeps rf' := by
  rw [installSnapshot_eq] at h
  split at h
  · obtain ⟨rfl, -⟩ := Prod.mk.inj (Except.ok.inj h)
    exact .refl rf
  · split at h
    · obtain ⟨rfl, -⟩ := Prod.mk.inj (Except.ok.inj h)
      exact heed_keeps rf args.term
    · rename_i hidx
      have hlt := not_le.mp hidx
      rw [heed_lastSnapshotIncludeIndex] at hlt
      obtain ⟨rf₁, h₁, h⟩ := Exec.bind_eq_ok.mp h
      obtain ⟨rfl, -⟩ := Prod.mk.inj (Exec.pure_eq_ok.mp h)
      unfold installAccepted at h₁
      dsimp only at h₁
      -- both ways to cut the log end in the same `persister_->Save`
      split at h₁
      · obtain ⟨_, -, h₁⟩ := Exec.bind_eq_ok.mp h₁
        obtain ⟨_, -, h₁⟩ := Exec.bind_eq_ok.mp h₁
        rw [← Exec.pure_eq_ok.mp h₁]
        exact .saveSnapshot hlt _
      · obtain ⟨_, -, h₁⟩ := Exec.bind_eq_ok.mp h₁
        rw [← Exec.pure_eq_ok.mp h₁]
        exact .saveSnapshot hlt _

/-- `Snapshot` saves the snapshot where it moves the snapshot point. -/
theorem snapshot_keeps {rf rf' : Raft n} {index : Int} {data : String}
    (h : rf.snapshot index data = .ok rf') : rf.Keeps rf' := by
  unfold snapshot at h
  split at h
  · rw [← Except.ok.inj h]
    exact .refl rf
  · rename_i hidx
    obtain ⟨_, -, h⟩ := Exec.bind_eq_ok.mp h
    obtain ⟨_, -, h⟩ := Exec.bind_eq_ok.mp h
    obtain ⟨_, -, h⟩ := Exec.bind_eq_ok.mp h
    rw [← Exec.pure_eq_ok.mp h]
    exact .saveSnapshot (not_le.mp fun hle => hidx (Or.inl hle)) _

/-- The reply part of `sendRequestVote` persists what it changes. -/
theorem sendRequestVoteReply_keeps {rf rf' : Raft n} {reply : RequestVoteReply}
    {votedNum count : Int} (h : rf.sendRequestVoteReply reply votedNum = .ok (rf', count)) :
    rf.Keeps rf' := by
  unfold sendRequestVoteReply at h
  split at h
  · obtain ⟨rfl, -⟩ := Prod.mk.inj (Except.ok.inj h)
    exact .persist rfl rfl
  split at h
  · obtain ⟨rfl, -⟩ := Prod.mk.inj (Except.ok.inj h)
    exact .refl rf
  obtain ⟨-, -, h⟩ := Exec.bind_eq_ok.mp h
  split at h
  · obtain ⟨rfl, -⟩ := Prod.mk.inj (Exec.pure_eq_ok.mp h)
    exact .refl rf
  dsimp only at h
  split at h
  · split at h
    · obtain ⟨_, hf, -⟩ := Exec.bind_eq_ok.mp h
      exact absurd (myAssert_eq_ok.mp hf) id
    · obtain ⟨rfl, -⟩ := Prod.mk.inj (Exec.pure_eq_ok.mp h)
      exact .persist rfl rfl
  · obtain ⟨rfl, -⟩ := Prod.mk.inj (Exec.pure_eq_ok.mp h)
    exact .refl rf

/-- A success changes the bookkeeping of the leader, which is not persistent. -/
theorem commitRound_recordMatch_keeps (rf : Raft n) (server : Fin n) (index : Int)
    (args : AppendEntriesArgs) : rf.Keeps ((rf.recordMatch server index).commitRound args) := by
  unfold commitRound
  split
  · exact .of_eq rfl rfl
  · exact .of_eq rfl rfl

/-- The reply part of `sendAppendEntries` persists what it changes. -/
theorem sendAppendEntriesReply_keeps {rf rf' : Raft n} {server : Fin n}
    {args : AppendEntriesArgs} {reply : AppendEntriesReply} {appendNums count : Int}
    (h : rf.sendAppendEntriesReply server args reply appendNums = .ok (rf', count)) :
    rf.Keeps rf' := by
  unfold sendAppendEntriesReply at h
  -- a reply that says that the server is cut off
  split at h
  · obtain ⟨rfl, -⟩ := Prod.mk.inj (Except.ok.inj h)
    exact .refl rf
  -- the reply is of a later term: the node steps down and persists
  split at h
  · obtain ⟨rfl, -⟩ := Prod.mk.inj (Except.ok.inj h)
    exact .persist rfl rfl
  -- the reply is of an earlier term, or the node leads no more
  split at h
  · obtain ⟨rfl, -⟩ := Prod.mk.inj (Except.ok.inj h)
    exact .refl rf
  split at h
  · obtain ⟨rfl, -⟩ := Prod.mk.inj (Except.ok.inj h)
    exact .refl rf
  obtain ⟨-, -, h⟩ := Exec.bind_eq_ok.mp h
  -- a refusal moves `m_nextIndex` only, which is not persisted
  split at h
  · split at h
    · obtain ⟨rfl, -⟩ := Prod.mk.inj (Exec.pure_eq_ok.mp h)
      exact .of_eq rfl rfl
    · obtain ⟨rfl, -⟩ := Prod.mk.inj (Exec.pure_eq_ok.mp h)
      exact .refl rf
  dsimp only at h
  obtain ⟨-, -, h⟩ := Exec.bind_eq_ok.mp h
  -- with a majority the round may commit; otherwise only counters and indices move
  split at h
  · obtain ⟨-, -, h⟩ := Exec.bind_eq_ok.mp h
    obtain ⟨rfl, -⟩ := Prod.mk.inj (Exec.pure_eq_ok.mp h)
    exact commitRound_recordMatch_keeps _ _ _ _
  · obtain ⟨rfl, -⟩ := Prod.mk.inj (Exec.pure_eq_ok.mp h)
    exact .of_eq rfl rfl

/-- The reply part of `leaderSendSnapShot` persists what it changes. -/
theorem leaderSendSnapShotReply_keeps (rf : Raft n) (server : Fin n)
    (args : InstallSnapshotRequest) (reply : InstallSnapshotResponse) :
    rf.Keeps (rf.leaderSendSnapShotReply server args reply) := by
  unfold leaderSendSnapShotReply
  split
  · exact .refl rf
  · split
    · exact .persist rfl rfl
    · exact .of_eq rfl rfl

/-- `Start` persists the entry that it appends. -/
theorem start_keeps (rf : Raft n) (command : String) : rf.Keeps (rf.start command).1 := by
  unfold start
  split
  · exact .refl rf
  · exact .persist rfl rfl

/-- `doElection` persists the term and the vote. -/
theorem doElection_keeps (rf : Raft n) : rf.Keeps rf.doElection.1 := by
  unfold doElection
  split
  · exact .refl rf
  · exact .persist rfl rfl

omit [RaftArchive] in
/-- The loop of `getApplyLogs` moves `m_lastApplied` alone. -/
theorem applyLoop_frame {fuel : ℕ} {rf rf' : Raft n} {msgs : List ApplyMsg}
    (h : applyLoop fuel rf = .ok (rf', msgs)) :
    rf' = { rf with lastApplied := rf'.lastApplied } := by
  induction fuel generalizing rf msgs with
  | zero =>
    obtain ⟨rfl, -⟩ := Prod.mk.inj (Except.ok.inj h)
    rfl
  | succ fuel ih =>
    unfold applyLoop at h
    obtain ⟨_, -, h⟩ := Exec.bind_eq_ok.mp h
    obtain ⟨_, -, h⟩ := Exec.bind_eq_ok.mp h
    obtain ⟨⟨rf₁, msgs₁⟩, h₁, h⟩ := Exec.bind_eq_ok.mp h
    obtain ⟨rfl, -⟩ := Prod.mk.inj (Exec.pure_eq_ok.mp h)
    rw [ih h₁]

/-- `getApplyLogs` changes nothing that is persistent. -/
theorem getApplyLogs_keeps {rf rf' : Raft n} {msgs : List ApplyMsg}
    (h : rf.getApplyLogs = .ok (rf', msgs)) : rf.Keeps rf' := by
  unfold getApplyLogs at h
  obtain ⟨_, -, h⟩ := Exec.bind_eq_ok.mp h
  rw [applyLoop_frame h]
  exact .of_eq rfl rfl

end Raft

omit [RaftArchive] in
/-- A mapped computation that succeeds is the image of a result. -/
theorem Exec.map_eq_ok {α β : Type} {f : α → β} {x : Exec α} {b : β} :
    f <$> x = .ok b ↔ ∃ a, x = .ok a ∧ f a = b := by
  cases x <;> simp [Functor.map, Except.map]

/-- A step is a call that returns. -/
theorem run_of_nodeStep {rf rf' : Raft n} {call : NodeCall n} (h : nodeStep rf call = some rf') :
    call.run rf = .ok rf' := by
  unfold nodeStep at h
  cases hc : call.run rf with
  | error e =>
    rw [hc] at h
    cases h
  | ok a =>
    rw [hc] at h
    rw [Option.some.inj h]

/-- **Step lemma.**  A call that returns keeps the record. -/
theorem nodeStep_keeps {rf rf' : Raft n} {call : NodeCall n} (h : nodeStep rf call = some rf') :
    rf.Keeps rf' := by
  have hrun := run_of_nodeStep h
  cases call with
  | appendEntries1 args =>
    obtain ⟨_, hok, rfl⟩ := Exec.map_eq_ok.mp hrun
    exact Raft.appendEntries1_keeps hok
  | requestVote args =>
    obtain ⟨_, hok, rfl⟩ := Exec.map_eq_ok.mp hrun
    exact Raft.requestVote_keeps hok
  | installSnapshot args =>
    obtain ⟨_, hok, rfl⟩ := Exec.map_eq_ok.mp hrun
    exact Raft.installSnapshot_keeps hok
  | snapshot index data => exact Raft.snapshot_keeps hrun
  | start command =>
    rw [← Except.ok.inj hrun]
    exact Raft.start_keeps rf command
  | doElection =>
    rw [← Except.ok.inj hrun]
    exact Raft.doElection_keeps rf
  | sendRequestVoteReply reply votedNum =>
    obtain ⟨_, hok, rfl⟩ := Exec.map_eq_ok.mp hrun
    exact Raft.sendRequestVoteReply_keeps hok
  | sendAppendEntriesReply server args reply appendNums =>
    obtain ⟨_, hok, rfl⟩ := Exec.map_eq_ok.mp hrun
    exact Raft.sendAppendEntriesReply_keeps hok
  | leaderSendSnapShot =>
    rw [← Except.ok.inj hrun]
    exact .of_eq rfl rfl
  | leaderSendSnapShotReply server args reply =>
    rw [← Except.ok.inj hrun]
    exact Raft.leaderSendSnapShotReply_keeps rf server args reply
  | doHeartBeat =>
    obtain ⟨_, -, rfl⟩ := Exec.map_eq_ok.mp hrun
    exact .refl rf
  | getApplyLogs =>
    obtain ⟨_, hok, rfl⟩ := Exec.map_eq_ok.mp hrun
    exact Raft.getApplyLogs_keeps hok

/-! ### Runs of one node -/

/-- On truncated files `init` starts from its first values, whatever they held before. -/
theorem init_construct (me : Fin n) (disk : Disk) :
    Raft.init me (Persister.construct disk) = some (Raft.fresh me (Persister.construct disk)) := by
  have hread : (Persister.construct disk).readRaftState = "" := rfl
  rw [Raft.init, hread, Raft.readPersist, if_pos rfl]
  rfl

/-- Either nothing was saved and the fields have their first values, or the node is synced; and
    a snapshot was saved only if the snapshot point is no longer 0. -/
structure Saved (rf : Raft n) : Prop where
  record : rf.Synced ∨ rf.persister.handed = [] ∧ rf.persistent = .initial
  nonneg : 0 ≤ rf.lastSnapshotIncludeIndex
  snapshot : rf.persister.lastSnapshot = "" ∨ 0 < rf.lastSnapshotIncludeIndex

/-- **Run lemma.**  Every state of a run is `Saved`. -/
theorem reach_saved {me : Fin n} {disk : Disk} {rf : Raft n} (h : NodeReach me disk rf) :
    Saved rf := by
  obtain ⟨rf₀, hinit, hreach⟩ := h
  rw [init_construct, Option.some.injEq] at hinit
  subst hinit
  refine hreach.invariant ⟨Or.inr ⟨rfl, rfl⟩, le_rfl, Or.inl rfl⟩ fun rf call rf' _ hs _ hstep => ?_
  have hk := nodeStep_keeps hstep
  refine ⟨?_, hs.nonneg.trans hk.index, ?_⟩
  · rcases hk.record with hsync | ⟨hp, hh⟩
    · exact Or.inl hsync
    · rcases hs.record with hsync | ⟨hnil, hinit⟩
      · exact Or.inl (hsync.congr hp hh)
      · exact Or.inr ⟨hh.trans hnil, hp.trans hinit⟩
  · rcases hk.saved with heq | hlt
    · rw [heq]
      exact hs.snapshot.imp_right fun hpos => hpos.trans_le hk.index
    · exact Or.inr (hs.nonneg.trans_lt hlt)

/-- Decoding the encoded entries gives the entries back. -/
theorem map_parse_serialize [LawfulRaftArchive] (l : List LogEntry) :
    (l.map RaftArchive.serializeAsString).map RaftArchive.parseFromString = l := by
  rw [List.map_map]
  conv_rhs => rw [← List.map_id l]
  exact List.map_congr_left fun e _ => LawfulRaftArchive.parse_serialize e

/-- `readPersist` undoes `persistData` on the persistent fields. -/
theorem Raft.readPersist_persistData [LawfulRaftArchive] (rf rf' : Raft n) :
    (rf'.readPersist rf.persistData).map Raft.persistent = some rf.persistent := by
  have hne : rf.persistData ≠ "" := LawfulRaftArchive.oarchive_ne_empty _
  rw [Raft.readPersist, if_neg hne, Raft.persistData, LawfulRaftArchive.iarchive_oarchive]
  simp only [Option.map_some, Raft.persistent, map_parse_serialize]

/-- What was handed to a saved node's persister decodes to its persistent fields. -/
theorem Saved.map_recorded [LawfulRaftArchive] {rf : Raft n} (h : Saved rf) :
    rf.recorded.map Raft.persistent = some rf.persistent := by
  unfold Raft.recorded
  rcases h.record with ⟨_, htext⟩ | ⟨hnil, hinit⟩
  · rw [htext, Raft.readPersist_persistData]
  · rw [Persister.lastRaftState, hnil, hinit]
    rfl

/-- **Persist before reply.**  At every point between two calls of a run, `readPersist` of the
    text last handed to the persister gives the node's persistent fields. -/
theorem recorded_eq_persistent [LawfulRaftArchive] {me : Fin n} {disk : Disk} {rf : Raft n}
    (h : NodeReach me disk rf) : rf.recorded.map Raft.persistent = some rf.persistent :=
  (reach_saved h).map_recorded

omit [RaftArchive] in
/-- After its first election a node has its term and its vote on record. -/
theorem recorded_eq_persistent_doElection :
    letI := textRaftArchive
    (Raft.fresh (0 : Fin 3) (Persister.construct {})).doElection.1.recorded.map Raft.persistent =
      some { currentTerm := 1, votedFor := 0, lastSnapshotIncludeIndex := 0,
             lastSnapshotIncludeTerm := 0, logs := [] } := by
  let := textRaftArchive
  have := lawful_textRaftArchive
  have hreach : NodeReach (0 : Fin 3) {} (Raft.fresh 0 (Persister.construct {})).doElection.1 :=
    ⟨_, init_construct _ _, Reach.refl.tail (a := NodeCall.doElection) trivial rfl⟩
  exact recorded_eq_persistent hreach

/-! ### Restarting -/

/-- `restart` gives the fields that were last persisted and the snapshot that was last saved. -/
def Raft.Recovers (rf : Raft n) : Prop :=
  ∃ rf', restart rf = some rf' ∧ some rf'.persistent = rf.recorded.map Raft.persistent ∧
    rf'.persister.readSnapshot.1 = rf.persister.lastSnapshot

/-- **Restart recovery.**  A node recovers by restarting exactly as long as its persistent
    fields have never changed. -/
theorem recovers_iff_initial [LawfulRaftArchive] {me : Fin n} {disk : Disk} {rf : Raft n}
    (h : NodeReach me disk rf) : rf.Recovers ↔ rf.persistent = .initial := by
  have hrec := (reach_saved h).map_recorded
  unfold Raft.Recovers
  rw [restart, init_construct, hrec]
  constructor
  · rintro ⟨rf', hrf', hp, -⟩
    rw [← Option.some.inj hp, ← Option.some.inj hrf', Raft.persistent_fresh]
  · intro hinit
    have hidx : rf.lastSnapshotIncludeIndex = 0 :=
      congrArg Raft.Persistent.lastSnapshotIncludeIndex hinit
    have hnone : rf.persister.lastSnapshot = "" :=
      (reach_saved h).snapshot.resolve_right (by omega)
    refine ⟨_, rfl, ?_, hnone.symm⟩
    rw [hinit, Raft.persistent_fresh]

omit [RaftArchive] in
/-- A node that has only refused a stale vote request still recovers: nothing has changed. -/
theorem recovers_iff_initial_requestVote :
    letI := textRaftArchive
    let rf := (Raft.fresh (0 : Fin 3) (Persister.construct {})).persist
    rf.persistent = .initial ∧ rf.Recovers := by
  let := textRaftArchive
  have := lawful_textRaftArchive
  have hreach : NodeReach (0 : Fin 3) {} (Raft.fresh 0 (Persister.construct {})).persist :=
    ⟨_, init_construct _ _, Reach.refl.tail (a := NodeCall.requestVote
      { term := -1, candidateId := 1, lastLogIndex := 0, lastLogTerm := 0 }) trivial rfl⟩
  exact ⟨rfl, (recovers_iff_initial hreach).mpr rfl⟩

omit [RaftArchive] in
/-- A node grants its vote for term 1, is restarted, and is in term 0 with its vote free. -/
theorem not_recovers_requestVote :
    letI := textRaftArchive
    ∃ rf : Raft 3, NodeReach 0 {} rf ∧ rf.persistent.currentTerm = 1 ∧ rf.persistent.votedFor = 1 ∧
      (restart rf).map Raft.persistent = some .initial ∧ ¬ rf.Recovers := by
  let := textRaftArchive
  have := lawful_textRaftArchive
  let rf := ({ Raft.fresh (0 : Fin 3) (Persister.construct {}) with
    currentTerm := 1, votedFor := 1 } : Raft 3).persist
  refine ⟨rf, ⟨_, init_construct _ _, Reach.refl.tail (a := NodeCall.requestVote
    { term := 1, candidateId := 1, lastLogIndex := 0, lastLogTerm := 0 }) trivial rfl⟩,
    rfl, rfl, rfl, ?_⟩
  rintro ⟨rf', hrf', hp, -⟩
  have hrec : rf.recorded.map Raft.persistent = some rf.persistent :=
    Raft.readPersist_persistData rf _
  rw [restart, init_construct, Option.some.injEq] at hrf'
  rw [hrec, Option.some.injEq, ← hrf', Raft.persistent_fresh] at hp
  exact absurd (congrArg Raft.Persistent.currentTerm hp) (by decide)

end RaftStore
