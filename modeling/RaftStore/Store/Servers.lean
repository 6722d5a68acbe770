import RaftStore.Lib.Consensus
import RaftStore.Lib.Sessions
import RaftStore.Store.Change

namespace RaftStore

/-!
# What a server knows of the log

* `ServerChange` — one server after a step of the store; `Change.server` reads it off.
* `Server.passed` — how many entries a server has got past.
* `Server.Sound` — the invariant: the apply thread holds the entry that was passed last, what
  the handlers answer rests on the entries that were got past, and the snapshots stand for
  entries too.
* `ServerChange.sound`, `reach_sound` — every step keeps it.
-/

namespace Entry

/-- The client of an entry. -/
def client (entry : Entry) : String := entry.op.clientId

/-- The request number of an entry. -/
def number (entry : Entry) : Int := entry.op.requestId

end Entry

/-- Among the first `n` entries is one of the client with at least the number. -/
abbrev Covers (log : List Entry) (n : ℕ) (c : String) (r : Int) : Prop :=
  Covered Entry.client Entry.number (log.take n) c r

/-- What a part of the log covers a longer part covers. -/
theorem Covers.mono {log log' : List Entry} {n m : ℕ} {c : String} {r : Int}
    (h : Covers log n c r) (hlog : log <+: log') (hle : n ≤ m) : Covers log' m c r := by
  refine Covered.take_mono (Covered.mono h ?_) hle
  intro entry hentry
  obtain ⟨rest, rfl⟩ := hlog
  rw [List.take_append]
  exact List.mem_append_left _ hentry

/-- The operation the apply thread holds, with its index. -/
def ApplyThread.held : ApplyThread → Option (Op × Int)
  | .idle => none
  | .received op index | .executing op index | .executed op index | .notifying op index =>
    some (op, index)

/-- How many of the `applied` entries the apply thread has got past: the last is not among them
    before it has been executed or found to be a duplicate. -/
def ApplyThread.passed : ApplyThread → ℕ → ℕ
  | .received _ _, applied | .executing _ _, applied => applied - 1
  | .idle, applied | .executed _ _, applied | .notifying _ _, applied => applied

/-- A server has passed at most what it was given. -/
theorem ApplyThread.passed_le (thread : ApplyThread) (applied : ℕ) :
    thread.passed applied ≤ applied := by
  cases thread with
  | received | executing => exact Nat.sub_le applied 1
  | idle | executed | notifying => exact le_rfl

/-- How many entries the server has got past. -/
def Server.passed (server : Server) : ℕ := server.process.applyThread.passed server.applied

variable [KvArchive]

namespace Store

/-! ### One server -/

/-- A server after a step of the store. -/
inductive ServerChange (s : Store) (server : Server) : StoreStep → Server → Prop
  | began {k : ℕ} {raftIndex : Int} {isLeader : Bool} {call : KvCall} (hcall : call ∈ s.calls) :
      ServerChange s server (.receive k raftIndex isLeader)
        { server with
          process := { server.process with
            handlers := server.process.handlers ++
              [.begin call.args.isGet call.args.op raftIndex isLeader] } }
  | applied {j : ℕ} {entry : Entry} {process : KvProcess}
      (hentry : s.log[server.applied]? = some entry)
      (hprocess : server.process.step (.getCommandFromRaft
        { commandValid := true, command := KvArchive.asString entry.op,
          commandIndex := server.applied + 1 }) = some process) :
      ServerChange s server (.apply j) { server with process, applied := server.applied + 1 }
  | installed {j j' m : ℕ} {snapshotTerm : Int} {other : Server} {snapshotIndex : Int}
      {snapshot : String} {process : KvProcess} (hother : other ∈ s.servers)
      (hsnapshot : (snapshotIndex, snapshot) ∈ other.process.snapshots)
      (hnew : server.applied < snapshotIndex)
      (hprocess : server.process.step (.getSnapShotFromRaft
        { snapshotValid := true, snapshot, snapshotTerm, snapshotIndex }) = some process) :
      ServerChange s server (.install j j' m snapshotTerm)
        { server with process, applied := snapshotIndex.toNat }
  | served {j : ℕ} {a : KvStep} {process : KvProcess} (hinternal : a.isInternal = true)
      (hprocess : server.process.step a = some process) :
      ServerChange s server (.serve j a)
        { server with process, executed := server.executed ++ server.run s.log a }

/-- Every server of the new state comes from one at the same place, by no or one change. -/
theorem Change.server {s s' : Store} {a : StoreStep} (h : Change s a s') {j : ℕ}
    {server' : Server} (hj : s'.servers[j]? = some server') :
    ∃ server, s.servers[j]? = some server ∧
      (server' = server ∨ ServerChange s server a server') := by
  have hset : ∀ {k : ℕ} {server changed : Server}, s.servers[k]? = some server →
      (s.servers.set k changed)[j]? = some server' → ServerChange s server a changed →
      ∃ server, s.servers[j]? = some server ∧
        (server' = server ∨ ServerChange s server a server') := by
    intro k server changed hk hget hchange
    rcases getElem?_set_cases hget with ⟨rfl, rfl⟩ | ⟨_, hj⟩
    · exact ⟨server, hk, Or.inr hchange⟩
    · exact ⟨server', hj, Or.inl rfl⟩
  cases h with
  | called | retried | returned | committed => exact ⟨server', hj, Or.inl rfl⟩
  | received hrpc hfresh hcall hserver =>
    exact hset hserver hj (.began (List.mem_of_getElem? hcall))
  | applied hserver hentry hprocess => exact hset hserver hj (.applied hentry hprocess)
  | installed hserver hother hsnapshot hnew hprocess =>
    exact hset hserver hj (.installed (List.mem_of_getElem? hother)
      (List.mem_of_getElem? hsnapshot) hnew hprocess)
  | served hserver hinternal hprocess => exact hset hserver hj (.served hinternal hprocess)

/-- A changed server has made a step of its process: it has taken the request of a call, or a step
    that takes none. -/
theorem ServerChange.exists_step {s : Store} {a : StoreStep} {server server' : Server}
    (h : ServerChange s server a server') :
    ∃ b, server.process.step b = some server'.process ∧
      ∀ (args : KvArgs) (raftIndex : Int) (isLeader : Bool), b = args.step raftIndex isLeader →
        ∃ call ∈ s.calls, args.op = call.args.op := by
  cases h with
  | @began k raftIndex isLeader call hcall =>
    refine ⟨_, KvProcess.step_begin server.process call.args raftIndex isLeader, ?_⟩
    intro args raftIndex' isLeader' heq
    refine ⟨call, hcall, ?_⟩
    cases hargs : call.args <;> cases args <;> rw [hargs] at heq <;> cases heq <;> rfl
  | applied hentry hprocess | installed hother hsnapshot hnew hprocess =>
    exact ⟨_, hprocess, fun args _ _ heq => by cases args <;> cases heq⟩
  | served hinternal hprocess =>
    refine ⟨_, hprocess, fun args _ _ heq => ?_⟩
    subst heq
    cases args <;> cases hinternal

/-- No step adds or removes a server. -/
theorem Change.length_servers {s s' : Store} {a : StoreStep} (h : Change s a s') :
    s'.servers.length = s.servers.length := by
  cases h with
  | called | retried | returned | committed => rfl
  | received | applied | installed | served => exact List.length_set

/-- A server goes on at its place, by no or one change. -/
theorem Change.exists_server {s s' : Store} {a : StoreStep} (h : Change s a s') {j : ℕ}
    {server : Server} (hj : s.servers[j]? = some server) :
    ∃ server', s'.servers[j]? = some server' ∧
      (server' = server ∨ ServerChange s server a server') := by
  have hlt : j < s'.servers.length := by
    rw [h.length_servers]
    exact (List.getElem?_eq_some_iff.mp hj).1
  have hget := List.getElem?_eq_getElem hlt
  obtain ⟨server₀, hj₀, hchange⟩ := h.server hget
  obtain rfl := Option.some.inj (hj.symm.trans hj₀)
  exact ⟨_, hget, hchange⟩

/-- The log only grows. -/
theorem Change.log {s s' : Store} {a : StoreStep} (h : Change s a s') : s.log <+: s'.log := by
  cases h with
  | committed => exact List.prefix_append _ _
  | called | retried | returned | received | applied | installed | served =>
    exact List.prefix_refl _

/-- A step that changes a server leaves the log as it is. -/
theorem Change.log_eq {s s' : Store} {a : StoreStep} (h : Change s a s') {server server' : Server}
    (hserver : ServerChange s server a server') : s'.log = s.log := by
  cases hserver <;> cases h <;> rfl

/-! ### The apply thread -/

/-- What a step of its own makes of the apply thread: it holds what it held or lets it go, and
    gets past it when it has been executed or is a duplicate. -/
theorem held_of_internal {s s' : KvProcess} {a : KvStep} (hinternal : a.isInternal = true)
    (h : s.step a = some s') (applied : ℕ) :
    (s'.applyThread.held = s.applyThread.held ∨ s'.applyThread.held = none) ∧
      s.applyThread.passed applied ≤ s'.applyThread.passed applied ∧
      s'.server.lastSnapShotRaftLogIndex = s.server.lastSnapShotRaftLogIndex := by
  have hview := KvProcess.step_change h
  have hsub := Nat.sub_le applied 1
  change (s'.view.applyThread.held = _ ∨ s'.view.applyThread.held = _) ∧
    _ ≤ s'.view.applyThread.passed applied ∧ s'.view.lastSnapShotRaftLogIndex = _
  generalize s'.view = v at hview ⊢
  cases hview with
  | skipped | received | installed => cases hinternal
  | duplicate hthread | fresh hthread | wrote hthread | passed hthread | measured hthread =>
    rw [hthread]
    exact ⟨Or.inl rfl, by first | exact hsub | exact le_rfl, rfl⟩
  | notified hthread =>
    rw [hthread]
    exact ⟨Or.inr rfl, le_rfl, rfl⟩
  | read | quiet => exact ⟨Or.inl rfl, le_rfl, rfl⟩

/-- The apply thread gets past an operation by executing it. -/
theorem thread_of_executeOp {s s' : KvProcess} {op : Op} {index : Int}
    (h : s.step .executeOp = some s') (hthread : s.applyThread = .executing op index) :
    s'.applyThread = .executed op index := by
  simp only [KvProcess.step, KvProcess.stepExecuteOp, hthread] at h
  rw [← Option.some.inj h]

/-- The message that carries entry `n`, counted from 0. -/
def commandMsg (op : Op) (n : ℕ) : ApplyMsg :=
  { commandValid := true, command := KvArchive.asString op, commandIndex := n + 1 }

/-- What a command makes of the server: the apply thread holds the operation and has not got past
    it. -/
structure Commanded (s : KvProcess) (op : Op) (n : ℕ) (s' : KvProcess) : Prop where
  idle : s.applyThread = .idle
  thread : s'.applyThread = .received op (n + 1)
  last : s'.server.lastSnapShotRaftLogIndex = s.server.lastSnapShotRaftLogIndex
  table : s'.server.lastRequestId = s.server.lastRequestId
  commands : s'.commands = s.commands ++ [commandMsg op n]

/-- What a command leaves the apply thread with. -/
theorem commanded [LawfulKvArchive] {s s' : KvProcess} {op : Op} {n : ℕ}
    (h : s.step (.getCommandFromRaft (commandMsg op n)) = some s')
    (hlast : s.server.lastSnapShotRaftLogIndex ≤ n) : Commanded s op n s' := by
  have hview := KvProcess.step_change h
  generalize hv : s'.view = v at hview
  cases hview with
  | skipped hidle hparse hidx =>
    change (n : Int) + 1 ≤ _ at hidx
    omega
  | received hidle hparse hidx =>
    rw [commandMsg, LawfulKvArchive.op_asString] at hparse
    obtain rfl := Option.some.inj hparse
    exact ⟨hidle, congrArg KvProcess.View.applyThread hv,
      congrArg KvProcess.View.lastSnapShotRaftLogIndex hv,
      congrArg KvProcess.View.lastRequestId hv, congrArg KvProcess.View.commands hv⟩
  | quiet hquiet => cases hquiet

/-- A snapshot is taken between two commands. -/
theorem idle_of_snapshot {s s' : KvProcess} {message : ApplyMsg}
    (h : s.step (.getSnapShotFromRaft message) = some s') :
    s.applyThread = .idle ∧ s'.applyThread = .idle ∧ s'.commands = s.commands := by
  have hview := KvProcess.step_change h
  change _ ∧ s'.view.applyThread = _ ∧ s'.view.commands = _
  generalize s'.view = v at hview ⊢
  cases hview with
  | installed hidle => exact ⟨hidle, hidle, rfl⟩
  | quiet hquiet => cases hquiet

/-- What a snapshot makes of the server. -/
theorem table_of_snapshot {s s' : KvProcess} {message : ApplyMsg} {record : KvRecord}
    (h : s.step (.getSnapShotFromRaft message) = some s') (hne : message.snapshot ≠ "")
    (hrecord : KvArchive.recordOfString message.snapshot = some record) :
    s'.server.lastRequestId = record.lastRequestId ∧
      s'.server.lastSnapShotRaftLogIndex = message.snapshotIndex := by
  have hview := KvProcess.step_change h
  change s'.view.lastRequestId = _ ∧ s'.view.lastSnapShotRaftLogIndex = _
  generalize s'.view = v at hview ⊢
  cases hview with
  | @installed _ hidle server hserver =>
    unfold KvServer.getSnapShotFromRaft KvServer.readSnapShotToInstall at hserver
    rw [KvServer.condInstallSnapshot, if_pos rfl, if_neg hne, KvServer.parseFromString,
      hrecord] at hserver
    obtain ⟨t, ht, rfl⟩ := Option.map_eq_some_iff.mp hserver
    obtain ⟨record', hrecord', ht⟩ := Option.bind_eq_some_iff.mp ht
    obtain rfl := Option.some.inj hrecord'
    obtain ⟨skipList, _, ht⟩ := Option.bind_eq_some_iff.mp ht
    obtain rfl := Option.some.inj ht
    exact ⟨rfl, rfl⟩
  | quiet hquiet => cases hquiet

/-- A server gets past entries, and never back. -/
theorem ServerChange.passed_le [LawfulKvArchive] {s : Store} {a : StoreStep}
    {server server' : Server} (h : ServerChange s server a server')
    (hlast : server.process.server.lastSnapShotRaftLogIndex ≤ server.applied) :
    server.passed ≤ server'.passed := by
  have hle := server.process.applyThread.passed_le server.applied
  cases h with
  | began => exact le_rfl
  | applied hentry hprocess =>
    have hcommanded := commanded hprocess hlast
    rw [Server.passed, Server.passed, hcommanded.idle, hcommanded.thread]
    exact le_rfl
  | installed hother hsnapshot hnew hprocess =>
    obtain ⟨hidle, hidle', _⟩ := idle_of_snapshot hprocess
    rw [Server.passed, Server.passed, hidle, hidle']
    change server.applied ≤ Int.toNat _
    omega
  | served hinternal hprocess => exact (held_of_internal hinternal hprocess _).2.1

/-! ### The invariant -/

/-- A snapshot stands for the first entries of the log: its table goes no further. -/
def Stands (log : List Entry) (snapshot : Int × String) : Prop :=
  snapshot.2 ≠ "" ∧ ∃ n : ℕ, snapshot.1 = n ∧ n ≤ log.length ∧
    ∃ record, KvArchive.recordOfString snapshot.2 = some record ∧
      ∀ c, ∀ last ∈ record.lastRequestId.lookup c, Covers log n c last

/-- What holds of every server. -/
structure Sound (log : List Entry) (server : Server) : Prop where
  applied : server.applied ≤ log.length
  last : server.process.server.lastSnapShotRaftLogIndex ≤ server.applied
  held : ∀ op index, server.process.applyThread.held = some (op, index) →
    index = server.applied ∧
      ∃ n entry, server.applied = n + 1 ∧ log[n]? = some entry ∧ entry.op = op
  vouched : server.process.Vouched (Covers log server.passed)
  snapshots : ∀ snapshot ∈ server.process.snapshots, Stands log snapshot

/-- A snapshot stands for the same entries of a longer log. -/
theorem Stands.mono {log log' : List Entry} {snapshot : Int × String} (h : Stands log snapshot)
    (hlog : log <+: log') : Stands log' snapshot := by
  obtain ⟨hne, n, hindex, hle, record, hrecord, htable⟩ := h
  exact ⟨hne, n, hindex, hle.trans hlog.length_le, record, hrecord,
    fun c last hlast => (htable c last hlast).mono hlog le_rfl⟩

/-- What a server holds it holds of a longer log. -/
theorem Sound.mono {log log' : List Entry} {server : Server} (h : Sound log server)
    (hlog : log <+: log') : Sound log' server where
  applied := h.applied.trans hlog.length_le
  last := h.last
  held op index hheld := by
    obtain ⟨hindex, n, entry, hn, hentry, hop⟩ := h.held op index hheld
    exact ⟨hindex, n, entry, hn, getElem?_of_isPrefix hlog hentry, hop⟩
  vouched := h.vouched.mono fun c r hcover => hcover.mono hlog le_rfl
  snapshots snapshot hmem := (h.snapshots snapshot hmem).mono hlog

/-- A server starts with nothing. -/
theorem sound_init (log : List Entry) (maxRaftState : Int) :
    Sound log { process := .init maxRaftState } where
  applied := Nat.zero_le _
  last := le_rfl
  held _ _ hheld := by cases hheld
  vouched := KvProcess.vouched_init _ _
  snapshots _ hmem := by cases hmem

omit [KvArchive] in
/-- The call that is recorded when a writing operation is executed. -/
theorem run_of_executing {log : List Entry} {server : Server} {entry : Entry} {index : Int}
    (hthread : server.process.applyThread = .executing entry.op index)
    (hw : KvProcess.writes entry.op = true) (hentry : log[server.applied - 1]? = some entry) :
    server.run log .executeOp = [entry.call] := by
  have hop : entry.op.operation = "Put" ∨ entry.op.operation = "Append" := by
    simpa [KvProcess.writes] using hw
  unfold Server.run
  simp [hthread, hop, hentry]

/-- The entry that the apply thread is about to get past. -/
theorem Sound.next {log : List Entry} {server : Server} (hs : Sound log server) {op : Op}
    {index : Int} (hheld : server.process.applyThread.held = some (op, index))
    (hbefore : server.process.applyThread.passed server.applied = server.applied - 1) :
    ∃ entry, log[server.passed]? = some entry ∧ entry.op = op ∧
      server.applied = server.passed + 1 ∧ index = server.passed + 1 := by
  obtain ⟨hindex, n, entry, hn, hentry, hop⟩ := hs.held op index hheld
  have hpassed : server.passed = n := by
    rw [Server.passed, hbefore, hn]
    rfl
  rw [hpassed]
  exact ⟨entry, hentry, hop, hn, by omega⟩

/-- The snapshot that is made behind an executed operation stands for the entries up to it. -/
theorem Sound.stands_makeSnapShot [LawfulKvArchive] {log : List Entry} {server : Server}
    (h : Sound log server) {op : Op} {index : Int}
    (hthread : server.process.applyThread = .executed op index) :
    Stands log (index, server.process.server.makeSnapShot) := by
  obtain ⟨hindex, _⟩ := h.held op index (by rw [hthread]; rfl)
  refine ⟨LawfulKvArchive.record_ne_empty _, server.applied, hindex, h.applied, _,
    LawfulKvArchive.record_asString _, fun c last hlast => ?_⟩
  have hcover := h.vouched.table c last hlast
  rwa [Server.passed, hthread] at hcover

/-- The snapshots after a step of the process. -/
theorem Sound.snapshots_step [LawfulKvArchive] {log : List Entry} {server : Server}
    (h : Sound log server) {process : KvProcess} {a : KvStep}
    (hprocess : server.process.step a = some process) :
    ∀ snapshot ∈ process.snapshots, Stands log snapshot := by
  intro snapshot hmem
  rcases (KvProcess.step_effects hprocess).snapshots with heq | ⟨op, index, hthread, heq⟩
  · exact h.snapshots snapshot (heq ▸ hmem)
  · rw [heq] at hmem
    rcases List.mem_append.mp hmem with hmem | hmem
    · exact h.snapshots snapshot hmem
    · obtain rfl := List.mem_singleton.mp hmem
      exact h.stands_makeSnapShot hthread

/-- **Step lemma.**  A change keeps a server sound, given that all servers are. -/
theorem ServerChange.sound [LawfulKvArchive] {s : Store} {a : StoreStep}
    {server server' : Server} (h : ServerChange s server a server') (hs : Sound s.log server)
    (hall : ∀ other ∈ s.servers, Sound s.log other) : Sound s.log server' := by
  have hpassed := h.passed_le hs.last
  have hvouched : server.process.Vouched (Covers s.log server'.passed) :=
    hs.vouched.mono fun c r hcover => hcover.take_mono hpassed
  have hdown : ∀ c r r', Covers s.log server'.passed c r → r' ≤ r →
      Covers s.log server'.passed c r' := fun _ _ _ hcover hle => hcover.down hle
  cases h with
  | @began k raftIndex isLeader call hcall =>
    have hbegin := KvProcess.step_begin server.process call.args raftIndex isLeader
    refine ⟨hs.applied, hs.last, hs.held, hvouched.step hdown hbegin ?_ ?_, hs.snapshots⟩
    · intro op index ha
      cases hargs : call.args <;> rw [hargs] at ha <;> cases ha
    · intro message ha
      cases hargs : call.args <;> rw [hargs] at ha <;> cases ha
  | @applied j entry process hentry hprocess =>
    -- the thread is handed the next entry of the log
    have hcommanded := commanded hprocess hs.last
    refine ⟨?_, ?_, fun op index hheld => ?_, hvouched.step hdown hprocess ?_ ?_,
      hs.snapshots_step hprocess⟩
    · exact (List.getElem?_eq_some_iff.mp hentry).1
    · have hle := hs.last
      rw [hcommanded.last]
      push_cast
      omega
    · rw [show _ = _ from congrArg ApplyThread.held hcommanded.thread] at hheld
      obtain ⟨rfl, rfl⟩ := Prod.mk.inj (Option.some.inj hheld)
      exact ⟨by push_cast; rfl, server.applied, entry, rfl, hentry, rfl⟩
    · intro op index ha
      cases ha
    · intro message ha
      cases ha
  | @installed j j' m snapshotTerm other snapshotIndex snapshot process hother hsnapshot hnew
      hprocess =>
    -- the snapshot was made by a sound server, so its request ids are those of a prefix
    obtain ⟨hne, n, hindex, hn, record, hrecord, htable⟩ :=
      (hall other hother).snapshots _ hsnapshot
    obtain ⟨hidle, hidle', _⟩ := idle_of_snapshot hprocess
    obtain ⟨htable', hlast⟩ := table_of_snapshot hprocess hne hrecord
    have htoNat : snapshotIndex.toNat = n := by
      rw [show snapshotIndex = n from hindex, Int.toNat_natCast]
    refine ⟨?_, ?_, fun op index hheld => ?_, hvouched.step hdown hprocess ?_ ?_,
      hs.snapshots_step hprocess⟩
    · exact htoNat ▸ hn
    · rw [hlast]
      change snapshotIndex ≤ (snapshotIndex.toNat : Int)
      omega
    · rw [show _ = _ from congrArg ApplyThread.held hidle'] at hheld
      cases hheld
    · intro op index ha
      cases ha
    · intro message _ c last hlookup
      rw [htable'] at hlookup
      have hcover := htable c last hlookup
      rwa [Server.passed, hidle', ApplyThread.passed, htoNat]
  | @served j a process hinternal hprocess =>
    obtain ⟨hheld, _, hlast⟩ := held_of_internal hinternal hprocess server.applied
    refine ⟨hs.applied, hlast ▸ hs.last, fun op index hop => ?_, hvouched.step hdown hprocess ?_ ?_,
      hs.snapshots_step hprocess⟩
    · rcases hheld with heq | hnone
      · exact hs.held op index (heq ▸ hop)
      · rw [hnone] at hop
        cases hop
    · -- once it is executed the entry in hand counts as passed
      rintro op index rfl hthread
      obtain ⟨_, n, entry, hn, hentry, rfl⟩ := hs.held op index (by rw [hthread]; rfl)
      rw [Server.passed, thread_of_executeOp hprocess hthread]
      exact covered_of_lt hentry (by rw [ApplyThread.passed, hn]; exact Nat.lt_succ_self n)
    · rintro message rfl
      cases hinternal

/-- **Run lemma.**  Every server is sound in every run. -/
theorem reach_sound [LawfulKvArchive] {ok : Store → StoreStep → Prop} {clerks : List Clerk}
    {maxRaftStates : List Int} {s : Store} (h : Reach step ok (init clerks maxRaftStates) s) :
    ∀ server ∈ s.servers, Sound s.log server := by
  refine h.invariant (P := fun s => ∀ server ∈ s.servers, Sound s.log server) ?_ ?_
  · intro server hmem
    obtain ⟨maxRaftState, _, rfl⟩ := List.mem_map.mp hmem
    exact sound_init _ maxRaftState
  · intro s a s' _ hall _ hs server' hmem
    have hchange := step_change hs
    obtain ⟨j, hj⟩ := List.mem_iff_getElem?.mp hmem
    obtain ⟨server, hserver, hsame | hnext⟩ := hchange.server hj
    · exact hsame ▸ (hall server (List.mem_of_getElem? hserver)).mono hchange.log
    · rw [hchange.log_eq hnext]
      exact hnext.sound (hall server (List.mem_of_getElem? hserver)) hall

end Store

end RaftStore
