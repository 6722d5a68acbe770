import RaftStore.Lib.Cursor
import RaftStore.Node.Calls

namespace RaftStore

/-!
# The apply stream of one node

What the calls of one node hand to the service, as deliveries from a log: the messages that
`getApplyLogs` returns, and the snapshots that move `m_lastApplied` without a message.

* `NodeCall.delivers`, `streamStep` — a call, and what it hands over.
* `NodeCall.Outcome.follows` — the step lemma: `m_lastApplied` is the cursor of the deliveries.
* `StreamReach.commandIndices` — the run lemma, read through the rules of the cursor: indices
  increase, every skipped one lies under a snapshot, and each message carries the command that
  the log held.

`Snapshot` tests its index against `m_commitIndex` only, so that it too can move `m_lastApplied`:
called for an index that was committed but not yet handed over, it stands for a delivery.
-/

variable {n : ℕ}

/-- What moved `m_lastApplied` without a message. -/
inductive SnapshotCall
  | installSnapshot
  | snapshot
  deriving DecidableEq, Repr

/-- A delivery of a node: a message, with the entry that `m_logs` held at its index when it was
    emitted, or a snapshot. -/
abbrev StreamEvent := Delivery (ApplyMsg × Option LogEntry) SnapshotCall

section deliveries

variable [RaftArchive]

/-- What a call hands over: the messages of `getApplyLogs`, the snapshot of an `InstallSnapshot`
    that is accepted, and that of a `Snapshot` for an index above `m_lastApplied`. -/
def NodeCall.delivers (rf rf' : Raft n) : NodeCall n → List StreamEvent
  | .getApplyLogs =>
    match rf.getApplyLogs with
    | .ok (_, messages) =>
      (messages.map fun message => (message, rf.entryAt message.commandIndex)).map fun m =>
        .item m.1.commandIndex m
    | .error _ => []
  | .installSnapshot args =>
    match rf.installSnapshot args with
    | .ok (_, _, some message) => [.jump message.snapshotIndex .installSnapshot]
    | .ok (_, _, none) => []
    | .error _ => []
  | .snapshot index _ =>
    if rf.lastApplied < index ∧ rf'.lastSnapshotIncludeIndex = index then
      [.jump index .snapshot]
    else []
  | _ => []

/-- A node, and what it has handed over, oldest first. -/
structure ApplyStream (n : ℕ) where
  rf : Raft n
  events : List StreamEvent := []

/-- One call. -/
def streamStep (s : ApplyStream n) (call : NodeCall n) : Option (ApplyStream n) :=
  (nodeStep s.rf call).map fun rf' =>
    { rf := rf', events := s.events ++ call.delivers s.rf rf' }

/-- The runs that begin with `init` on the files `disk`, with well-formed messages. -/
def StreamReach (me : Fin n) (disk : Disk) (s : ApplyStream n) : Prop :=
  ∃ rf, Raft.init me (Persister.construct disk) = some rf ∧
    Reach streamStep (fun s call => call.WellFormed s.rf) { rf } s

end deliveries

/-! ### What `getApplyLogs` collects -/

namespace Raft

/-- The entries above `m_lastApplied` come in the order of their indices. -/
theorem IndexWF.logIndex_applicable {rf : Raft n} (h : rf.IndexWF) {k : ℕ} {e : LogEntry}
    (he : rf.applicable[k]? = some e) : e.logIndex = rf.lastApplied + 1 + k := by
  have happlied := h.applied
  rw [applicable, List.getElem?_take] at he
  split at he
  · rw [List.getElem?_drop] at he
    have hidx := h.contiguous _ e he
    push_cast at hidx
    omega
  · cases he

/-- There is one of them for each index up to `m_commitIndex`. -/
theorem IndexWF.length_applicable {rf : Raft n} (h : rf.IndexWF) :
    (rf.applicable.length : Int) = rf.commitIndex - rf.lastApplied := by
  have happlied := h.applied
  have hcommitted := h.committed
  have hlast := h.last
  have hlen := h.toLogWF.getLastLogIndex
  rw [applicable, List.length_take, List.length_drop]
  omega

end Raft

variable [RaftArchive]

/-! ### One call -/

namespace NodeCall

/-- **Step lemma.**  A call keeps `m_lastApplied` the cursor of what has been handed over. -/
theorem Outcome.follows {rf rf' : Raft n} {call : NodeCall n} (hwf : rf.IndexWF)
    (h : call.Outcome rf rf') {events : List StreamEvent} (hf : Follows events rf.lastApplied) :
    Follows (events ++ call.delivers rf rf') rf'.lastApplied := by
  -- all calls but three hand nothing over and leave `m_lastApplied` where it is
  have hkeep : call.delivers rf rf' = [] → rf'.lastApplied = rf.lastApplied →
      Follows (events ++ call.delivers rf rf') rf'.lastApplied := by
    intro hnone hsame
    rwa [hnone, List.append_nil, hsame]
  cases h with
  | appendEntries1 ha hout => exact hkeep rfl (by cases hout <;> simp)
  | requestVote hout => exact hkeep rfl (by cases hout <;> simp)
  | @installSnapshot args rf' reply message hok hout =>
    cases hout with
    | stale => exact hkeep (by rw [delivers, hok]) rfl
    | old => exact hkeep (by rw [delivers, hok]) (by simp)
    | installed =>
      rw [delivers, hok]
      simpa [Raft.installed, Raft.snapshotMsg] using
        hf.jump args.lastSnapShotIncludeIndex .installSnapshot
  | @snapshot index data rf' hout =>
    cases hout with
    | ignored hwhy =>
      refine hkeep ?_ rfl
      have happlied := hwf.applied
      have hcommitted := hwf.committed
      rw [delivers, if_neg (by omega)]
    | compacted hidx hcommit e he =>
      by_cases hjump : rf.lastApplied < index
      · rw [delivers, if_pos ⟨hjump, by simp⟩]
        simpa using hf.jump index .snapshot
      · refine hkeep ?_ (by simp; omega)
        rw [delivers, if_neg fun h => hjump h.1]
  | started => exact hkeep rfl rfl
  | notLeader => exact hkeep rfl rfl
  | elected hstatus => exact hkeep rfl (by rw [Raft.doElection_fst hstatus]; rfl)
  | leading => exact hkeep rfl rfl
  | voteReply hout => exact hkeep rfl (by cases hout <;> simp)
  | appendReply hsent hout => exact hkeep rfl (by cases hout <;> simp)
  | sendSnapshot => exact hkeep rfl rfl
  | snapshotReply hout => exact hkeep rfl (by cases hout <;> simp)
  | heartBeat => exact hkeep rfl rfl
  | apply =>
    rw [delivers, hwf.getApplyLogs_eq]
    have hindex : ∀ (k : ℕ) m, ((rf.applicable.map Raft.applyMsgOf).map fun message =>
        (message, rf.entryAt message.commandIndex))[k]? = some m →
          m.1.commandIndex = rf.lastApplied + 1 + k := by
      intro k m hm
      rw [List.map_map, List.getElem?_map, Option.map_eq_some_iff] at hm
      obtain ⟨e, he, rfl⟩ := hm
      exact hwf.logIndex_applicable he
    simpa [hwf.length_applicable] using hf.items (fun m => m.1.commandIndex) hindex

/-- What a message has to do with the log it was read from. -/
def FromLog : StreamEvent → Prop
  | .item index (message, held) =>
    index = message.commandIndex ∧ ∃ e, held = some e ∧ message.command = e.command
  | .jump _ _ => True

/-- Every message of a call carries the command of the entry at its index. -/
theorem fromLog_delivers {rf : Raft n} (hwf : rf.IndexWF) (rf' : Raft n) (call : NodeCall n) :
    ∀ d ∈ call.delivers rf rf', FromLog d := by
  intro d hd
  cases call with
  | getApplyLogs =>
    rw [delivers, hwf.getApplyLogs_eq] at hd
    simp only [List.map_map, List.mem_map] at hd
    obtain ⟨e, he, rfl⟩ := hd
    exact ⟨rfl, e, (hwf.entryAt_of_mem_applicable he).1, rfl⟩
  | installSnapshot args =>
    rw [delivers] at hd
    split at hd
    · rw [List.mem_singleton.mp hd]
      trivial
    · cases hd
    · cases hd
  | snapshot index data =>
    rw [delivers] at hd
    split at hd
    · rw [List.mem_singleton.mp hd]
      trivial
    · cases hd
  | appendEntries1 | requestVote | start | doElection | sendRequestVoteReply
  | sendAppendEntriesReply | leaderSendSnapShot | leaderSendSnapShotReply | doHeartBeat => cases hd

end NodeCall

/-! ### Runs -/

/-- What every state of a run satisfies. -/
structure StreamInv (s : ApplyStream n) : Prop where
  index : s.rf.IndexWF
  follows : Follows s.events s.rf.lastApplied
  fromLog : ∀ d ∈ s.events, NodeCall.FromLog d

/-- **Run lemma.** -/
theorem StreamReach.inv {me : Fin n} {disk : Disk} {s : ApplyStream n}
    (h : StreamReach me disk s) : StreamInv s := by
  obtain ⟨rf, hinit, hreach⟩ := h
  rw [init_construct, Option.some.injEq] at hinit
  subst hinit
  have hstart : StreamInv { rf := Raft.fresh me (Persister.construct disk) } :=
    { index := Raft.indexWF_fresh me _, follows := .nil, fromLog := by simp }
  refine hreach.invariant hstart fun s call s' _ hs hok hstep => ?_
  obtain ⟨rf', hrf', rfl⟩ := Option.map_eq_some_iff.mp hstep
  have hout := nodeStep_outcome hs.index hok hrf'
  refine { index := hout.indexWF hs.index, follows := hout.follows hs.index hs.follows,
           fromLog := fun d hd => ?_ }
  rcases List.mem_append.mp hd with hd | hd
  · exact hs.fromLog d hd
  · exact NodeCall.fromLog_delivers hs.index rf' call d hd

/-- **The apply stream.**  The indices of the messages increase; an index between a message and
    the one before it lies under an accepted `InstallSnapshot`, or under a `Snapshot` for an index
    above `m_lastApplied`, called between the two; and each message carries the command that
    `m_logs` held at its index. -/
theorem StreamReach.commandIndices {me : Fin n} {disk : Disk} {s : ApplyStream n}
    (h : StreamReach me disk s) :
    (itemIndices s.events).Pairwise (· < ·) ∧
    (∀ pre index m post, s.events = pre ++ .item index m :: post →
      ∀ j, lastItem pre < j → j < index → ∃ d ∈ sinceItem pre, d.Covers j) ∧
    ∀ index message held, .item index (message, held) ∈ s.events →
      index = message.commandIndex ∧ ∃ e, held = some e ∧ message.command = e.command :=
  ⟨h.inv.follows.pairwise_indices,
    fun _ _ _ _ hevents _ hlo hhi => h.inv.follows.skipped hevents hlo hhi,
    fun _ _ _ hmem => h.inv.fromLog _ hmem⟩

/-! ### A run -/

/-- A run starts with `init`. -/
theorem StreamReach.start (me : Fin n) (disk : Disk) :
    StreamReach me disk { rf := Raft.fresh me (Persister.construct disk) } :=
  ⟨_, init_construct me disk, .refl⟩

/-- One more call of a run. -/
theorem StreamReach.call {me : Fin n} {disk : Disk} {s s' : ApplyStream n}
    (h : StreamReach me disk s) (call : NodeCall n) (hok : call.WellFormed s.rf)
    (hstep : streamStep s call = some s') : StreamReach me disk s' := by
  obtain ⟨rf, hinit, hreach⟩ := h
  exact ⟨rf, hinit, hreach.tail hok hstep⟩

omit [RaftArchive]

/-- A request with two entries, both committed. -/
def twoEntries : AppendEntriesArgs where
  term := 1
  leaderId := 1
  prevLogIndex := 0
  prevLogTerm := 0
  entries := [{ command := "x", logTerm := 1, logIndex := 1 },
    { command := "y", logTerm := 1, logIndex := 2 }]
  leaderCommit := 2

/-- The request has the shape that `doHeartBeat` builds. -/
theorem wf_twoEntries : twoEntries.WF where
  nonneg := le_rfl
  zero := fun _ => rfl
  contiguous := fun k e he => by
    match k with
    | 0 => rw [← Option.some.inj he]; rfl
    | 1 => rw [← Option.some.inj he]; rfl
    | k + 2 => cases he
  commit := le_rfl

/-- The two entries are handed over in one call. -/
theorem commandIndices_getApplyLogs :
    letI := textRaftArchive
    ∃ s : ApplyStream 2, StreamReach 0 {} s ∧ itemIndices s.events = [1, 2] ∧
      (itemIndices s.events).Pairwise (· < ·) := by
  let := textRaftArchive
  have hreach := ((StreamReach.start (0 : Fin 2) {}).call (.appendEntries1 twoEntries)
    wf_twoEntries rfl).call .getApplyLogs trivial rfl
  exact ⟨_, hreach, rfl, hreach.commandIndices.1⟩

/-- With `Snapshot(1, ..)` before `getApplyLogs` only the second is, and no `InstallSnapshot`
    stands for the first. -/
theorem commandIndices_snapshot :
    letI := textRaftArchive
    ∃ s : ApplyStream 2, StreamReach 0 {} s ∧ ∃ m, s.events = [.jump 1 .snapshot, .item 2 m] := by
  let := textRaftArchive
  have hreach := (((StreamReach.start (0 : Fin 2) {}).call (.appendEntries1 twoEntries)
    wf_twoEntries rfl).call (.snapshot 1 "") trivial rfl).call .getApplyLogs trivial rfl
  exact ⟨_, hreach, _, rfl⟩

end RaftStore
