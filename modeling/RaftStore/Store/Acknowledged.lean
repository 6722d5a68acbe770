import RaftStore.Store.Answers

namespace RaftStore

/-!
# Acknowledged writes

`Clerk::PutAppend` returns once a server has got past some entry of its client id that is at
least as new.  That this entry is its own rests on the client id alone, and `Uuid` gives the same
one to every process.

* `Store.WritesOnly` — the clients call `Put` and `Append`.
* `Store.Complete` — the invariant of these runs: the table of a server stands for exactly the
  entries that it has got past, and a server has run exactly the entries that it was passed as
  commands and that nothing before them covers.
* `acknowledged_iff` — a returned `Put` or `Append` has been executed by the server that answered
  exactly if no entry before its own covers it and the server was passed that as a command.
* `write_is_lost` — the first write of a second process is answered with `OK` and dropped, without
  a timeout.
-/

namespace Store

/-- The condition on the clients: no process calls `Get`. -/
def WritesOnly (_ : Store) : StoreStep → Prop
  | .call _ (.get _) => False
  | _ => True

instance (s : Store) : (a : StoreStep) → Decidable (WritesOnly s a)
  | .call _ (.get _) => inferInstanceAs (Decidable False)
  | .call _ (.put _ _) | .call _ (.append _ _) | .receive _ _ _ | .lose _ _ | .reply _ | .commit _
  | .apply _ | .install _ _ _ _ | .serve _ _ => inferInstanceAs (Decidable True)

/-! ### What a server has run -/

/-- The table has an entry of the client that is at least as high. -/
def Listed (table : Finmap fun _ : String => Int) (c : String) (r : Int) : Prop :=
  ∃ last ∈ table.lookup c, r ≤ last

/-- Entry `p` is the first of its client with at least its number, and the server was passed it
    as a command. -/
def Ran (log : List Entry) (server : Server) (p g : ℕ) : Prop :=
  ∃ entry, log[p]? = some entry ∧ entry.call = g ∧ ¬ Covers log p entry.client entry.number ∧
    ∃ message ∈ server.process.commands, message.commandIndex = p + 1

section

variable {log log' : List Entry} {server : Server}

/-- A longer log begins with the same entries. -/
theorem covers_longer_iff (hlog : log <+: log') {n : ℕ} (hn : n ≤ log.length) {c : String}
    {r : Int} : Covers log' n c r ↔ Covers log n c r := by
  rw [Covers, Covers, take_of_isPrefix hlog hn]

/-- A longer log has run the same entries. -/
theorem ran_longer_iff (hlog : log <+: log') {p g : ℕ} (hp : p < log.length) :
    Ran log' server p g ↔ Ran log server p g := by
  obtain ⟨rest, rfl⟩ := hlog
  have hpre := List.prefix_append log rest
  simp only [Ran, List.getElem?_append_left hp, covers_longer_iff hpre hp.le]

/-- An entry of the table stays behind when a higher one is written. -/
theorem listed_insert {table : Finmap fun _ : String => Int} {c c' : String} {r r' : Int}
    (h : Listed table c r) (hle : c = c' → r ≤ r') : Listed (table.insert c' r') c r := by
  by_cases hc : c = c'
  · subst hc
    exact ⟨r', Finmap.lookup_insert _, hle rfl⟩
  · obtain ⟨last, hlast, hr⟩ := h
    exact ⟨last, by rwa [Option.mem_def, Finmap.lookup_insert_of_ne _ hc], hr⟩

end

variable [KvArchive]

/-- What holds of every server in the runs without `Get`. -/
structure Complete (log : List Entry) (server : Server) : Prop where
  writers : ∀ handler ∈ server.process.handlers, handler.isGet = false ∧ handler.pc ≠ .executing
  table : ∀ c r, Covers log server.passed c r → Listed server.process.server.lastRequestId c r
  fresh : ∀ op index, server.process.applyThread = .executing op index →
    ¬ Covers log server.passed op.clientId op.requestId
  executed : ∀ g, g ∈ server.executed ↔ ∃ p < server.passed, Ran log server p g
  commands : ∀ message ∈ server.process.commands, message.commandIndex ≤ server.applied
  held : ∀ op index, server.process.applyThread.held = some (op, index) →
    ∃ message ∈ server.process.commands, message.commandIndex = index
  snapshots : ∀ snapshot ∈ server.process.snapshots, ∀ n : ℕ, snapshot.1 = n →
    ∀ record : KvRecord, KvArchive.recordOfString snapshot.2 = some record →
      ∀ c r, Covers log n c r → Listed record.lastRequestId c r

/-- A server starts with nothing. -/
theorem complete_init (log : List Entry) (maxRaftState : Int) :
    Complete log { process := .init maxRaftState } where
  writers _ hmem := by cases hmem
  table c r hcover := absurd hcover not_covered_nil
  fresh _ _ hthread := by cases hthread
  executed g := ⟨fun hmem => (by cases hmem), fun ⟨p, hp, _⟩ => absurd hp (Nat.not_lt_zero p)⟩
  commands _ hmem := by cases hmem
  held _ _ hheld := by cases hheld
  snapshots _ hmem := by cases hmem

/-- A server is complete for a longer log. -/
theorem Complete.mono {log log' : List Entry} {server : Server} (h : Complete log server)
    (hs : Sound log server) (hlog : log <+: log') : Complete log' server := by
  have hle : server.passed ≤ log.length := (ApplyThread.passed_le _ _).trans hs.applied
  refine ⟨h.writers, fun c r hcover => h.table c r ((covers_longer_iff hlog hle).mp hcover),
    fun op index hthread hcover => h.fresh op index hthread
      ((covers_longer_iff hlog hle).mp hcover), fun g => ?_, h.commands, h.held, ?_⟩
  · rw [h.executed g]
    constructor
    · rintro ⟨p, hp, hran⟩
      exact ⟨p, hp, (ran_longer_iff hlog (hp.trans_le hle)).mpr hran⟩
    · rintro ⟨p, hp, hran⟩
      exact ⟨p, hp, (ran_longer_iff hlog (hp.trans_le hle)).mp hran⟩
  · intro snapshot hmem n hn record hrecord c r hcover
    obtain ⟨_, n', hn', hlen, _⟩ := hs.snapshots snapshot hmem
    obtain rfl : n = n' := by omega
    exact h.snapshots snapshot hmem n hn record hrecord c r
      ((covers_longer_iff hlog hlen).mp hcover)

/-! ### Steps -/

omit [KvArchive] in
/-- A handler that does not read never will. -/
theorem writer_of_move {s : KvProcess} {a : KvStep} {handler handler' : Handler}
    (h : KvProcess.HandlerMove s handler a handler')
    (hw : handler.isGet = false ∧ handler.pc ≠ .executing) :
    handler'.isGet = false ∧ handler'.pc ≠ .executing := by
  refine ⟨h.request.2.trans hw.1, ?_⟩
  cases h with
  | opened | timedOut | read | closed => exact fun hpc => by cases hpc
  | popped =>
    unfold Handler.popped
    rw [hw.1]
    split <;> exact fun hpc => by cases hpc
  | answered =>
    unfold Handler.afterTimeOut
    rw [hw.1]
    exact fun hpc => by cases hpc

/-- The handlers after a step that begins none for a `Get`. -/
theorem writers_step {s s' : KvProcess} {a : KvStep} (hs : s.step a = some s')
    (hbegin : ∀ (args : KvArgs) (raftIndex : Int) (isLeader : Bool),
      a = args.step raftIndex isLeader → args.isGet = false)
    (hw : ∀ handler ∈ s.handlers, handler.isGet = false ∧ handler.pc ≠ .executing) :
    ∀ handler ∈ s'.handlers, handler.isGet = false ∧ handler.pc ≠ .executing := by
  have hafter := (KvProcess.step_effects hs).handlers
  generalize s'.handlers = handlers at hafter ⊢
  cases hafter with
  | same => exact hw
  | @began args raftIndex isLeader ha =>
    intro handler hmem
    rcases List.mem_append.mp hmem with hmem | hmem
    · exact hw handler hmem
    · obtain rfl := List.mem_singleton.mp hmem
      have hget := hbegin args raftIndex isLeader ha
      unfold Handler.begin
      split <;> exact ⟨hget, fun hpc => by cases hpc⟩
  | moved hhandler hmove =>
    intro other hmem
    rcases List.mem_or_eq_of_mem_set hmem with hmem | rfl
    · exact hw other hmem
    · exact writer_of_move hmove (hw _ (List.mem_of_getElem? hhandler))

/-- The table of a snapshot that is made now. -/
theorem Complete.snapshots_step [LawfulKvArchive] {log : List Entry} {server : Server}
    (h : Complete log server) (hs : Sound log server) {process : KvProcess} {a : KvStep}
    (hprocess : server.process.step a = some process) :
    ∀ snapshot ∈ process.snapshots, ∀ n : ℕ, snapshot.1 = n →
      ∀ record : KvRecord, KvArchive.recordOfString snapshot.2 = some record →
        ∀ c r, Covers log n c r → Listed record.lastRequestId c r := by
  intro snapshot hmem
  rcases (KvProcess.step_effects hprocess).snapshots with heq | ⟨op, index, hthread, heq⟩
  · exact h.snapshots snapshot (heq ▸ hmem)
  · rw [heq] at hmem
    rcases List.mem_append.mp hmem with hmem | hmem
    · exact h.snapshots snapshot hmem
    · obtain rfl := List.mem_singleton.mp hmem
      intro n hn record hrecord c r hcover
      rw [KvServer.makeSnapShot, LawfulKvArchive.record_asString] at hrecord
      obtain rfl := Option.some.inj hrecord
      obtain ⟨hindex, _⟩ := hs.held op index (by rw [hthread]; rfl)
      obtain rfl : n = server.applied := by
        change index = n at hn
        omega
      refine h.table c r ?_
      rwa [Server.passed, hthread]

/-- What `Complete` asks of the handlers and the snapshots of a process. -/
structure CarriesOn (log : List Entry) (process : KvProcess) : Prop where
  writers : ∀ handler ∈ process.handlers, handler.isGet = false ∧ handler.pc ≠ .executing
  snapshots : ∀ snapshot ∈ process.snapshots, ∀ n : ℕ, snapshot.1 = n →
    ∀ record : KvRecord, KvArchive.recordOfString snapshot.2 = some record →
      ∀ c r, Covers log n c r → Listed record.lastRequestId c r

/-- A server that gets past nothing. -/
theorem Complete.stay {log : List Entry} {server : Server} (h : Complete log server)
    {process : KvProcess} (hkept : CarriesOn log process) {v : KvProcess.View}
    (hv : process.view = v) (htable : v.lastRequestId = server.process.server.lastRequestId)
    (hcommands : v.commands = server.process.commands)
    (hpassed : v.applyThread.passed server.applied = server.passed)
    (hfresh : ∀ op index, v.applyThread = .executing op index →
      ¬ Covers log server.passed op.clientId op.requestId)
    (hheld : ∀ op index, v.applyThread.held = some (op, index) →
      server.process.applyThread.held = some (op, index)) :
    Complete log { server with process, executed := server.executed ++ [] } := by
  subst hv
  have htable : process.server.lastRequestId = _ := htable
  have hcommands : process.commands = _ := hcommands
  have hpassed : Server.passed { server with process, executed := server.executed ++ [] } =
      server.passed := hpassed
  refine ⟨hkept.writers, fun c r hcover => ?_, fun op index hthread hcover => ?_, fun g => ?_, ?_,
    fun op index hop => ?_, hkept.snapshots⟩
  · rw [hpassed] at hcover
    rw [htable]
    exact h.table c r hcover
  · rw [hpassed] at hcover
    exact hfresh op index hthread hcover
  · rw [hpassed, List.append_nil]
    simp only [Ran, hcommands]
    exact h.executed g
  · rw [hcommands]
    exact h.commands
  · rw [hcommands]
    exact h.held op index (hheld op index hop)

/-- The server has one entry to get past, which leaves it with `table` and has run the calls of
    `run`. -/
structure PassesEntry (log : List Entry) (server : Server)
    (table : Finmap fun _ : String => Int) (run : List ℕ) : Prop where
  applied : server.applied = server.passed + 1
  listed : ∀ c r, Covers log (server.passed + 1) c r → Listed table c r
  ran : ∀ g, g ∈ run ↔ Ran log server server.passed g

/-- A duplicate is listed already, and does not run. -/
theorem Complete.passes_duplicate {log : List Entry} {server : Server} (h : Complete log server)
    (hs : Sound log server) {op : Op} {index : Int}
    (hthread : server.process.applyThread = .received op index)
    (hdup : server.process.server.ifRequestDuplicate op.clientId op.requestId = true) :
    PassesEntry log server server.process.server.lastRequestId [] := by
  have hheld : server.process.applyThread.held = some (op, index) := by rw [hthread]; rfl
  obtain ⟨entry, hentry, rfl, happlied, _⟩ := hs.next hheld (by rw [hthread]; rfl)
  obtain ⟨last, hlast, hr⟩ := (KvProcess.ifRequestDuplicate_iff _ _ _).mp hdup
  refine ⟨happlied, fun c r hcover => ?_, fun g => iff_of_false List.not_mem_nil ?_⟩
  · rcases (covered_take_succ hentry).mp hcover with hcover | ⟨rfl, hle⟩
    · exact h.table c r hcover
    · exact ⟨last, hlast, hle.trans hr⟩
  · rintro ⟨entry', hentry', _, hnot, _⟩
    obtain rfl := Option.some.inj (hentry.symm.trans hentry')
    exact hnot ((hs.vouched.table _ last hlast).down hr)

/-- A write that runs is listed from then on. -/
theorem Complete.passes_wrote {log : List Entry} {server : Server} (h : Complete log server)
    (hs : Sound log server) {op : Op} {index : Int}
    (hthread : server.process.applyThread = .executing op index)
    (hw : KvProcess.writes op = true) :
    PassesEntry log server
      (server.process.server.lastRequestId.insert op.clientId op.requestId)
      (server.run log .executeOp) := by
  have hheld : server.process.applyThread.held = some (op, index) := by rw [hthread]; rfl
  obtain ⟨entry, hentry, rfl, happlied, hindex⟩ := hs.next hheld (by rw [hthread]; rfl)
  have hnot := h.fresh _ index hthread
  refine ⟨happlied, fun c r hcover => ?_, fun g => ?_⟩
  · rcases (covered_take_succ hentry).mp hcover with hcover | ⟨rfl, hle⟩
    · -- what was covered before has a lower number than the entry
      refine listed_insert (h.table c r hcover) fun hc => ?_
      subst hc
      by_contra hlt
      exact hnot (hcover.down (not_le.mp hlt).le)
    · exact ⟨_, Finmap.lookup_insert _, hle⟩
  · have hrun := run_of_executing hthread hw (by rw [happlied]; exact hentry)
    rw [hrun, List.mem_singleton]
    constructor
    · rintro rfl
      obtain ⟨message, hmessage, hmindex⟩ := h.held _ index hheld
      exact ⟨entry, hentry, rfl, hnot, message, hmessage, hmindex.trans hindex⟩
    · rintro ⟨entry', hentry', rfl, _⟩
      rw [Option.some.inj (hentry.symm.trans hentry')]

/-- A server that gets past the entry its apply thread holds. -/
theorem Complete.pass {log : List Entry} {server : Server} (h : Complete log server)
    {process : KvProcess} (hkept : CarriesOn log process) {v : KvProcess.View}
    (hv : process.view = v) {run : List ℕ} (hcommands : v.commands = server.process.commands)
    {op : Op} {index : Int} (hthread : v.applyThread = .executed op index)
    (hheld : server.process.applyThread.held = some (op, index))
    (hpast : PassesEntry log server v.lastRequestId run) :
    Complete log { server with process, executed := server.executed ++ run } := by
  obtain ⟨happlied, hlisted, hrun⟩ := hpast
  subst hv
  have hcommands : process.commands = _ := hcommands
  have hthread : process.applyThread = _ := hthread
  have hpassed : Server.passed { server with process, executed := server.executed ++ run } =
      server.passed + 1 := by
    change process.applyThread.passed server.applied = _
    rw [hthread, ← happlied]
    rfl
  refine ⟨hkept.writers, fun c r hcover => ?_, fun op' index' hthread' => ?_, fun g => ?_, ?_,
    fun op' index' hheld' => ?_, hkept.snapshots⟩
  · rw [hpassed] at hcover
    exact hlisted c r hcover
  · cases hthread.symm.trans hthread'
  · -- what ran is what ran before, or the entry passed now
    rw [List.mem_append, h.executed g, hrun g, hpassed]
    simp only [Ran, hcommands]
    constructor
    · rintro (⟨p, hp, hran⟩ | hran)
      · exact ⟨p, Nat.lt_succ_of_lt hp, hran⟩
      · exact ⟨server.passed, Nat.lt_succ_self _, hran⟩
    · rintro ⟨p, hp, hran⟩
      rcases Nat.lt_succ_iff_lt_or_eq.mp hp with hlt | rfl
      · exact Or.inl ⟨p, hlt, hran⟩
      · exact Or.inr hran
  · rw [hcommands]
    exact h.commands
  · rw [hcommands]
    rw [hthread] at hheld'
    exact h.held op' index' (hheld.trans hheld')

/-- **Own steps.**  A step of the server keeps what it has run in line with what it has got
    past. -/
theorem Complete.served [LawfulKvArchive] {log : List Entry} {server : Server}
    (h : Complete log server) (hs : Sound log server)
    (hwrites : ∀ entry ∈ log, KvProcess.writes entry.op = true) {process : KvProcess} {a : KvStep}
    (hinternal : a.isInternal = true) (hprocess : server.process.step a = some process) :
    Complete log
      { server with process, executed := server.executed ++ server.run log a } := by
  have hkept : CarriesOn log process :=
    { writers := writers_step hprocess (fun args raftIndex isLeader ha => by
        subst ha
        cases args <;> cases hinternal) h.writers
      snapshots := h.snapshots_step hs hprocess }
  have hview := KvProcess.step_change hprocess
  generalize hv : process.view = v at hview
  cases hview with
  | skipped | received | installed => cases hinternal
  | @duplicate op index hthread hdup =>
    exact h.pass hkept hv rfl rfl (by rw [hthread]; rfl) (h.passes_duplicate hs hthread hdup)
  | @wrote op index hthread hw =>
    exact h.pass hkept hv rfl rfl (by rw [hthread]; rfl) (h.passes_wrote hs hthread hw)
  -- every entry writes, so this case does not arise
  | @passed op index hthread hw =>
    obtain ⟨entry, hentry, rfl, _⟩ := hs.next (by rw [hthread]; rfl) (by rw [hthread]; rfl)
    rw [hwrites entry (List.mem_of_getElem? hentry)] at hw
    cases hw
  | @fresh op index hthread hdup =>
    refine h.stay hkept hv rfl rfl (by rw [Server.passed, hthread]; rfl) ?_ ?_
    -- the table lists what has been got past, and an entry that is no duplicate is not in it
    · intro op' index' hop hcover
      obtain ⟨rfl, -⟩ := ApplyThread.executing.inj hop
      rw [← Bool.not_eq_true, KvProcess.ifRequestDuplicate_iff] at hdup
      exact hdup (h.table _ _ hcover)
    · intro op' index' hheld
      rwa [hthread]
  | @measured op index raftStateSize hthread =>
    refine h.stay hkept hv rfl rfl (by rw [Server.passed, hthread]; rfl)
      (fun _ _ hop => by cases hop) fun op' index' hheld => ?_
    rwa [hthread]
  | @notified op index hthread =>
    exact h.stay hkept hv rfl rfl (by rw [Server.passed, hthread]; rfl)
      (fun _ _ hop => by cases hop) fun _ _ hheld => by cases hheld
  -- no handler reads, as the calls only write
  | read hhandler hpc => exact absurd hpc (h.writers _ (List.mem_of_getElem? hhandler)).2
  | quiet hquiet =>
    have hrun : server.run log a = [] := by
      cases a <;> first | rfl | cases hquiet
    rw [hrun]
    exact h.stay hkept hv rfl rfl rfl h.fresh fun _ _ hheld => hheld

/-- **Step lemma.**  A change that begins no handler of a `Get` keeps a server complete, given
    that all servers are. -/
theorem ServerChange.complete [LawfulKvArchive] {s : Store} {a : StoreStep}
    {server server' : Server} (h : ServerChange s server a server')
    (hc : Complete s.log server) (hs : Sound s.log server)
    (hall : ∀ other ∈ s.servers, Sound s.log other ∧ Complete s.log other)
    (hcalls : ∀ call ∈ s.calls, call.args.isGet = false)
    (hwrites : ∀ entry ∈ s.log, KvProcess.writes entry.op = true) : Complete s.log server' := by
  cases h with
  | @began k raftIndex isLeader call hcall =>
    have hwriters : ∀ handler ∈ server.process.handlers ++
        [.begin call.args.isGet call.args.op raftIndex isLeader],
        handler.isGet = false ∧ handler.pc ≠ .executing := by
      intro handler hmem
      rcases List.mem_append.mp hmem with hmem | hmem
      · exact hc.writers handler hmem
      · obtain rfl := List.mem_singleton.mp hmem
        unfold Handler.begin
        split <;> exact ⟨hcalls call hcall, fun hpc => by cases hpc⟩
    exact ⟨hwriters, hc.table, hc.fresh, hc.executed, hc.commands, hc.held, hc.snapshots⟩
  | @applied j entry process hentry hprocess =>
    have hcommanded := commanded hprocess hs.last
    have hpassed : server.passed = server.applied := by rw [Server.passed, hcommanded.idle]; rfl
    have hpassed' : Server.passed { server with process, applied := server.applied + 1 } =
        server.passed := by
      rw [Server.passed, hcommanded.thread, hpassed]
      rfl
    have hwriters := writers_step hprocess
      (fun args raftIndex isLeader ha => by cases args <;> cases ha) hc.writers
    refine ⟨hwriters, fun c r hcover => ?_, fun op index hop => ?_, fun g => ?_, ?_,
      fun op index hheld => ?_, hc.snapshots_step hs hprocess⟩
    · rw [hpassed'] at hcover
      rw [hcommanded.table]
      exact hc.table c r hcover
    · cases hcommanded.thread.symm.trans hop
    · rw [hc.executed g, hpassed']
      refine exists_congr fun p => and_congr_right fun hp => ?_
      -- the new command has a higher index than every entry that was got past
      have hindex : (commandMsg entry.op server.applied).commandIndex ≠ p + 1 := by
        change (server.applied : Int) + 1 ≠ p + 1
        omega
      simp only [Ran, hcommanded.commands, List.mem_append, List.mem_singleton, or_and_right,
        exists_or, exists_eq_left, hindex, or_false]
    · rw [hcommanded.commands]
      intro message hmem
      rcases List.mem_append.mp hmem with hmem | hmem
      · have hle := hc.commands message hmem
        push_cast
        omega
      · obtain rfl := List.mem_singleton.mp hmem
        exact le_rfl
    · rw [hcommanded.commands]
      rw [show _ = _ from congrArg ApplyThread.held hcommanded.thread] at hheld
      obtain ⟨rfl, rfl⟩ := Prod.mk.inj (Option.some.inj hheld)
      exact ⟨_, List.mem_append_right _ (List.mem_singleton_self _), rfl⟩
  | @installed j j' m snapshotTerm other snapshotIndex snapshot process hother hsnapshot hnew
      hprocess =>
    obtain ⟨hsound, hcomplete⟩ := hall other hother
    obtain ⟨hne, n, hindex, hn, record, hrecord, _⟩ := hsound.snapshots _ hsnapshot
    obtain ⟨hidle, hidle', hcommands⟩ := idle_of_snapshot hprocess
    obtain ⟨htable, _⟩ := table_of_snapshot hprocess hne hrecord
    obtain rfl : snapshotIndex = n := hindex
    have hpassed : server.passed = server.applied := by rw [Server.passed, hidle]; rfl
    have hpassed' : Server.passed { server with process, applied := (n : Int).toNat } = n := by
      rw [Server.passed, hidle']
      rfl
    have hwriters := writers_step hprocess
      (fun args raftIndex isLeader ha => by cases args <;> cases ha) hc.writers
    refine ⟨hwriters, fun c r hcover => ?_, fun op index hop => ?_, fun g => ?_, ?_,
      fun op index hheld => ?_, hc.snapshots_step hs hprocess⟩
    · rw [hpassed'] at hcover
      rw [htable]
      exact hcomplete.snapshots _ hsnapshot n rfl record hrecord c r hcover
    · cases hidle'.symm.trans hop
    · rw [hc.executed g, hpassed']
      simp only [Ran, hcommands]
      constructor
      · rintro ⟨p, hp, hran⟩
        exact ⟨p, by omega, hran⟩
      · -- what the server was passed as commands it got past before
        rintro ⟨p, _, entry, hentry, hcall, hnot, message, hmem, hmessage⟩
        have hle := hc.commands message hmem
        exact ⟨p, by omega, entry, hentry, hcall, hnot, message, hmem, hmessage⟩
    · rw [hcommands]
      intro message hmem
      have hle := hc.commands message hmem
      rw [Int.toNat_natCast]
      exact hle.trans hnew.le
    · rw [show _ = _ from congrArg ApplyThread.held hidle'] at hheld
      cases hheld
  | served hinternal hprocess => exact hc.served hs hwrites hinternal hprocess

/-! ### Runs -/

/-- No call of these runs is a `Get`. -/
theorem reach_calls {clerks : List Clerk} {maxRaftStates : List Int} {s : Store}
    (h : Reach step WritesOnly (init clerks maxRaftStates) s) :
    ∀ call ∈ s.calls, call.args.isGet = false := by
  refine h.invariant (P := fun s => ∀ call ∈ s.calls, call.args.isGet = false)
    (fun _ hmem => by cases hmem) fun s a s' _ hcalls hok hs => ?_
  cases step_change hs with
  | @called i c client hclient hidle =>
    intro call hmem
    rcases List.mem_append.mp hmem with hmem | hmem
    · exact hcalls call hmem
    · obtain rfl := List.mem_singleton.mp hmem
      cases c with
      | get => exact absurd hok id
      | put | append => rfl
  | received | retried | returned | committed | applied | installed | served => exact hcalls

/-- **Run lemma.**  Every server is complete in every run without `Get`. -/
theorem reach_complete [LawfulKvArchive] {clerks : List Clerk} {maxRaftStates : List Int}
    {s : Store} (h : Reach step WritesOnly (init clerks maxRaftStates) s) :
    ∀ server ∈ s.servers, Complete s.log server := by
  refine h.invariant (P := fun s => ∀ server ∈ s.servers, Complete s.log server) ?_ ?_
  · intro server hmem
    obtain ⟨maxRaftState, _, rfl⟩ := List.mem_map.mp hmem
    exact complete_init _ maxRaftState
  · intro s a s' hr hall _ hs server' hmem
    have hchange := step_change hs
    have hsound := reach_sound hr
    obtain ⟨j, hj⟩ := List.mem_iff_getElem?.mp hmem
    obtain ⟨server, hserver, hsame | hnext⟩ := hchange.server hj
    · have hold := List.mem_of_getElem? hserver
      exact hsame ▸ (hall server hold).mono (hsound server hold) hchange.log
    · have hold := List.mem_of_getElem? hserver
      have hwired := reach_wired hr
      rw [hchange.log_eq hnext]
      refine hnext.complete (hall server hold) (hsound server hold)
        (fun other hother => ⟨hsound other hother, hall other hother⟩) (reach_calls hr) ?_
      intro entry hentry
      obtain ⟨call, hcall, hop⟩ := hwired.log entry hentry
      have hcallmem := List.mem_of_getElem? hcall
      rw [hop, hwired.writes call hcallmem, reach_calls hr call hcallmem]
      rfl

/-- **Acknowledged writes.**  In every run of processes with one `Clerk` each that call `Put` and
    `Append`, the server that answered a returned call has executed its operation if and only if
    an entry of the call was passed to the server as a command and no entry before it has the
    same client id and at least the same number. -/
theorem acknowledged_iff [LawfulKvArchive] {rand : ℕ → Int} {processes : ℕ}
    {maxRaftStates : List Int} {s : Store}
    (h : Reach step WritesOnly (init (List.replicate processes (Clerk.construct rand))
      maxRaftStates) s)
    {answer : Answer} (hanswer : answer ∈ s.answers) :
    ∃ call server, s.calls[answer.call]? = some call ∧ s.servers[answer.server]? = some server ∧
      (answer.call ∈ server.executed ↔ ∃ (p : ℕ) (entry : Entry), s.log[p]? = some entry ∧
        entry.call = answer.call ∧
        ¬ Covers s.log p call.args.op.clientId call.args.op.requestId ∧
        ∃ message ∈ server.process.commands, message.commandIndex = p + 1) := by
  have hwired := reach_wired h
  obtain ⟨call, hcall, hput⟩ := hwired.answers answer hanswer
  obtain ⟨server, hserver, hcover⟩ := hput (reach_calls h call (List.mem_of_getElem? hcall))
  have hcomplete := reach_complete h server (List.mem_of_getElem? hserver)
  -- an entry of the call carries its client id and number
  have hsame : ∀ {p : ℕ} {entry : Entry}, s.log[p]? = some entry → entry.call = answer.call →
      entry.op = call.args.op := by
    intro p entry hentry hcall'
    obtain ⟨call', hcall'', hop⟩ := hwired.log entry (List.mem_of_getElem? hentry)
    rw [hcall'] at hcall''
    obtain rfl := Option.some.inj (hcall.symm.trans hcall'')
    exact hop
  refine ⟨call, server, hcall, hserver, (hcomplete.executed _).trans ?_⟩
  constructor
  · rintro ⟨p, _, entry, hentry, hcall', hnot, hmessage⟩
    rw [Entry.client, Entry.number, hsame hentry hcall'] at hnot
    exact ⟨p, entry, hentry, hcall', hnot, hmessage⟩
  · rintro ⟨p, entry, hentry, hcall', hnot, hmessage⟩
    refine ⟨p, hcover.lt_of_not hnot, entry, hentry, hcall', ?_, hmessage⟩
    rwa [Entry.client, Entry.number, hsame hentry hcall']

/-! ### Two processes -/

/-- What `rand()` returns first in a process that has not called `srand`. -/
def unseededRand (k : ℕ) : Int := [16838, 5758, 10113, 17515].getD k 0

/-- Process `i` calls `Put`, which becomes RPC and handler number `k` and is proposed as entry
    `k + 1`. -/
def putSteps (i k : ℕ) (key value : String) : List StoreStep :=
  [.call i (.put key value), .receive k (k + 1) true, .serve 0 (.openWaitChan k)]

/-- The first proposal is committed, and server 0 executes it. -/
def applySteps : List StoreStep :=
  [.commit 0, .apply 0, .serve 0 .ifRequestDuplicate, .serve 0 .executeOp]

/-- The handler of proposal `k` is sent the entry that server 0 has just passed, and answers. -/
def answerSteps (k : ℕ) : List StoreStep :=
  [.serve 0 (.ifNeedToSendSnapShotCommand 0), .serve 0 .sendMessageToWaitChan,
    .serve 0 (.timeOutPop k), .serve 0 (.closeWaitChan k), .reply k]

omit [KvArchive] in
/-- The first call of one process. -/
theorem acknowledged_iff_firstPut :
    letI := textKvArchive
    ∃ s : Store, ∃ answer ∈ s.answers,
      ∃ call server, s.calls[answer.call]? = some call ∧ s.servers[answer.server]? = some server ∧
        (answer.call ∈ server.executed ↔ ∃ (p : ℕ) (entry : Entry), s.log[p]? = some entry ∧
          entry.call = answer.call ∧
          ¬ Covers s.log p call.args.op.clientId call.args.op.requestId ∧
          ∃ message ∈ server.process.commands, message.commandIndex = p + 1) := by
  let := textKvArchive
  have := lawful_textKvArchive
  have hrun : (runFrom step WritesOnly
      (init (List.replicate 2 (Clerk.construct unseededRand)) [-1])
      (putSteps 0 0 "x" "1" ++ applySteps ++ answerSteps 0)).map (fun s => s.answers) =
      some [{ call := 0, server := 0, reply := { err := "OK" } }] := by
    decide +kernel
  obtain ⟨s, hs, hanswers⟩ := Reach.exists_of_runFrom hrun
  have hanswer := hanswers ▸ List.mem_singleton_self (_ : Answer)
  exact ⟨s, _, hanswer, acknowledged_iff hs hanswer⟩

omit [KvArchive] in
/-- A wait in `timeOutPop` times out. -/
def timesOut : StoreStep → Bool
  | .serve _ (.timeOut _ _) => true
  | _ => false

omit [KvArchive] in
/-- Two processes put a value each, and both entries are committed.  The server skips the second as
    a duplicate of the first, and the handler that waits for it answers `OK`. -/
theorem write_is_lost :
    letI := textKvArchive
    ∃ s : Store, Reach step (fun s a => WritesOnly s a ∧ timesOut a = false)
        (init (List.replicate 2 (Clerk.construct unseededRand)) [-1]) s ∧
      ∃ answer ∈ s.answers, answer.reply.err = KvServer.ok ∧
        ∃ server, s.servers[answer.server]? = some server ∧ answer.call ∉ server.executed := by
  let := textKvArchive
  have hrun : (runFrom step (fun s a => WritesOnly s a ∧ timesOut a = false)
      (init (List.replicate 2 (Clerk.construct unseededRand)) [-1])
      (putSteps 0 0 "x" "1" ++ applySteps ++ answerSteps 0 ++ putSteps 1 1 "y" "2" ++
        [.commit 1, .apply 0, .serve 0 .ifRequestDuplicate] ++ answerSteps 1)).map
        (fun s => (s.answers[1]?, s.servers.map Server.executed)) =
      some (some { call := 1, server := 0, reply := { err := "OK" } }, [[0]]) := by
    decide +kernel
  obtain ⟨s, hs, hshow⟩ := Reach.exists_of_runFrom hrun
  obtain ⟨hanswer, hexecuted⟩ := Prod.mk.inj hshow
  obtain ⟨server, hserver, hrest⟩ : ∃ server, s.servers[0]? = some server ∧
      server.executed = [0] := by
    have hget := congrArg (·[0]?) hexecuted
    simp only [List.getElem?_map] at hget
    exact Option.map_eq_some_iff.mp hget
  refine ⟨s, hs, _, List.mem_of_getElem? hanswer, rfl, server, hserver, ?_⟩
  rw [hrest]
  decide

end Store

end RaftStore
