import RaftStore.Kv.Change

namespace RaftStore

/-!
# At-most-once execution

`m_lastRequestId` keeps the `Put` and `Append` requests from running twice, as long as none of
its entries goes down.  `ExecuteGetOpOnKVDB` writes the table too, from the thread of a handler
that may be late, and writes whatever id its request has.

* `KvProcess.InOrder` — the condition on a step: a write to the table does not lower the entry
  it finds.
* `table_grows_iff` — for one step, exactly this keeps every entry.
* `requests_at_most_once` — in the runs whose steps meet it, no entry ever goes down and no
  request runs twice.
* `late_get_runs_put_twice` — a handler that wakes up late breaks both.
-/

namespace KvProcess

/-- The client and number that identify a request. -/
def request (op : Op) : String × Int := (op.clientId, op.requestId)

/-- The entry of the table that belongs to `op`, if there is one, is not above the number of
    `op`. -/
def NotAbove (s : KvProcess) (op : Op) : Prop :=
  ∀ last ∈ s.server.lastRequestId.lookup op.clientId, last ≤ op.requestId

instance (s : KvProcess) (op : Op) : Decidable (s.NotAbove op) := by
  unfold NotAbove
  infer_instance

/-- The operation that `executeOp` is about to write. -/
def pendingWrite (s : KvProcess) : Option Op :=
  match s.applyThread with
  | .executing op _ => if writes op then some op else none
  | _ => none

/-- The condition on a step: what is about to be written to the table is not below the entry
    that is there.  Snapshots are not part of these runs. -/
def InOrder (s : KvProcess) : KvStep → Prop
  | .executeGet h => ∀ handler ∈ s.handlers[h]?, s.NotAbove handler.op
  | .executeOp => ∀ op ∈ s.pendingWrite, s.NotAbove op
  | .getSnapShotFromRaft _ => False
  | _ => True

instance (s : KvProcess) (a : KvStep) : Decidable (s.InOrder a) := by
  cases a <;> (unfold InOrder; infer_instance)

/-- Every entry of the first table is in the second, at least as high. -/
def TableLE (t t' : Finmap fun _ : String => Int) : Prop :=
  ∀ c, ∀ last ∈ t.lookup c, ∃ last' ∈ t'.lookup c, last ≤ last'

/-- A table is at most itself. -/
theorem TableLE.refl (t : Finmap fun _ : String => Int) : TableLE t t :=
  fun _ last h => ⟨last, h, le_rfl⟩

/-- At most is transitive. -/
theorem TableLE.trans {t t' t'' : Finmap fun _ : String => Int} (h : TableLE t t')
    (h' : TableLE t' t'') : TableLE t t'' := by
  intro c last hlast
  obtain ⟨last', hlast', hle⟩ := h c last hlast
  obtain ⟨last'', hlast'', hle'⟩ := h' c last' hlast'
  exact ⟨last'', hlast'', hle.trans hle'⟩

/-- Writing an entry keeps every entry exactly if the one it replaces is not above it. -/
theorem tableLE_insert {t : Finmap fun _ : String => Int} {c : String} {r : Int} :
    TableLE t (t.insert c r) ↔ ∀ last ∈ t.lookup c, last ≤ r := by
  constructor
  · intro h last hlast
    obtain ⟨last', hlast', hle⟩ := h c last hlast
    rw [Finmap.lookup_insert, Option.mem_some] at hlast'
    rwa [hlast']
  · intro h c' last hlast
    by_cases hc : c' = c
    · subst hc
      exact ⟨r, Finmap.lookup_insert t, h last hlast⟩
    · refine ⟨last, ?_, le_rfl⟩
      rwa [Finmap.lookup_insert_of_ne t hc]

variable [KvArchive]

/-- A step that installs no snapshot keeps every entry of the table exactly if it is in order. -/
theorem table_grows_iff {s s' : KvProcess} {a : KvStep} (h : s.step a = some s')
    (ha : ∀ message, a ≠ .getSnapShotFromRaft message) :
    TableLE s.server.lastRequestId s'.server.lastRequestId ↔ s.InOrder a := by
  have hrefl := TableLE.refl s.server.lastRequestId
  have hview := step_change h
  change TableLE _ s'.view.lastRequestId ↔ _
  generalize s'.view = v at hview ⊢
  cases hview with
  | skipped | received | duplicate | fresh | measured | notified => exact iff_of_true hrefl trivial
  | installed => exact absurd rfl (ha _)
  -- the apply thread writes the id of the command it executes
  | @wrote op index hthread hwrites =>
    have hpend : s.pendingWrite = some op := by
      rw [pendingWrite, hthread]
      exact if_pos hwrites
    rw [tableLE_insert, InOrder, hpend]
    exact ⟨fun hle op' hop' => Option.mem_some.mp hop' ▸ hle, fun hin => hin op rfl⟩
  | @passed op index hthread hwrites =>
    have hpend : s.pendingWrite = none := by
      rw [pendingWrite, hthread]
      exact if_neg (by simp [hwrites])
    rw [InOrder, hpend]
    exact iff_of_true hrefl fun op' hop' => nomatch hop'
  -- a handler writes the id of its `Get`, in whatever order the handlers get there
  | read hhandler hpc =>
    refine tableLE_insert.trans ⟨fun hle handler hmem => ?_, fun hin => hin _ hhandler⟩
    obtain rfl := Option.some.inj (hhandler.symm.trans hmem)
    exact hle
  | quiet hquiet =>
    refine iff_of_true hrefl ?_
    cases a <;> trivial

/-- What the runs keep: each executed request is covered by its client's entry, the one about to
    run is not among them, and none ran twice. -/
structure OnceInv (s : KvProcess) : Prop where
  covered : ∀ op ∈ s.executions,
    ∃ last ∈ s.server.lastRequestId.lookup op.clientId, op.requestId ≤ last
  pending : ∀ op index, s.applyThread = .executing op index →
    request op ∉ s.executions.map request
  once : (s.executions.map request).Nodup

omit [KvArchive] in
/-- A request that is no duplicate has not run. -/
theorem OnceInv.not_run {s : KvProcess} (h : s.OnceInv) {op : Op}
    (hdup : s.server.ifRequestDuplicate op.clientId op.requestId = false) :
    request op ∉ s.executions.map request := by
  intro hmem
  obtain ⟨op', hop', heq⟩ := List.mem_map.mp hmem
  obtain ⟨last, hlast, hle⟩ := h.covered op' hop'
  obtain ⟨hc, hr⟩ := Prod.mk.inj heq
  rw [hc, Option.mem_def] at hlast
  rw [KvServer.ifRequestDuplicate, hlast, decide_eq_false_iff_not] at hdup
  omega

/-- **Step lemma.**  A step in order keeps the invariant. -/
theorem OnceInv.step {s s' : KvProcess} {a : KvStep} (h : s.OnceInv) (hok : s.InOrder a)
    (hs : s.step a = some s') : s'.OnceInv := by
  have hgrow : TableLE s.server.lastRequestId s'.server.lastRequestId :=
    (table_grows_iff hs fun message he => by rw [he] at hok; exact hok).mpr hok
  -- what was covered stays covered, as no entry goes down
  have hcov : ∀ op ∈ s.executions,
      ∃ last ∈ s'.server.lastRequestId.lookup op.clientId, op.requestId ≤ last := by
    intro op hop
    obtain ⟨last, hlast, hle⟩ := h.covered op hop
    obtain ⟨last', hlast', hle'⟩ := hgrow _ last hlast
    exact ⟨last', hlast', hle.trans hle'⟩
  have hview := step_change hs
  generalize hv : s'.view = v at hview
  have htable : s'.server.lastRequestId = v.lastRequestId := congrArg View.lastRequestId hv
  have hthread' : s'.applyThread = v.applyThread := congrArg View.applyThread hv
  have hexec : s'.executions = v.executions := congrArg View.executions hv
  -- a step that neither starts nor ends an execution keeps all three facts
  have hsame : v.executions = s.executions →
      (∀ op index, v.applyThread = .executing op index → s.applyThread = .executing op index) →
      s'.OnceInv := by
    intro he ht
    refine ⟨by rw [hexec, he]; exact hcov, fun op index hop => ?_, by rw [hexec, he]; exact h.once⟩
    rw [hexec, he]
    exact h.pending op index (ht op index (hthread' ▸ hop))
  cases hview with
  | skipped hidle => exact hsame rfl fun _ _ hop => hop
  | received => exact hsame rfl fun _ _ hop => by cases hop
  | installed => exact absurd hok id
  | duplicate => exact hsame rfl fun _ _ hop => by cases hop
  | fresh hthread hdup =>
    refine ⟨by rw [hexec]; exact hcov, fun op index hop => ?_, by rw [hexec]; exact h.once⟩
    obtain ⟨rfl, -⟩ := ApplyThread.executing.inj (hthread'.symm.trans hop)
    rw [hexec]
    exact h.not_run hdup
  | @wrote op index hthread hwrites =>
    refine ⟨?_, fun op' index' hop => ?_, ?_⟩
    · rw [hexec]
      intro op' hop'
      rcases List.mem_append.mp hop' with hold | hnew
      · exact hcov op' hold
      · obtain rfl := List.mem_singleton.mp hnew
        exact ⟨_, by rw [htable]; exact Finmap.lookup_insert _, le_rfl⟩
    · cases hthread'.symm.trans hop
    · rw [hexec, List.map_append, List.nodup_append]
      refine ⟨h.once, List.nodup_singleton _, ?_⟩
      intro x hx y hy
      obtain rfl : y = request op := by simpa using hy
      exact fun heq => h.pending op index hthread (heq ▸ hx)
  | passed => exact hsame rfl fun _ _ hop => by cases hop
  | measured => exact hsame rfl fun _ _ hop => by cases hop
  | notified => exact hsame rfl fun _ _ hop => by cases hop
  | read => exact hsame rfl fun _ _ hop => hop
  | quiet => exact hsame rfl fun _ _ hop => hop

/-- **Run lemma.**  The invariant holds throughout the runs whose steps are in order. -/
theorem reach_onceInv {maxRaftState : Int} {s : KvProcess}
    (h : Reach step InOrder (init maxRaftState) s) : s.OnceInv :=
  h.invariant
    { covered := fun _ hop => absurd hop List.not_mem_nil
      pending := fun _ _ hop => by cases hop
      once := List.nodup_nil }
    fun _ _ _ _ hinv hok hs => hinv.step hok hs

/-- In a run whose steps are in order no entry of the table goes down. -/
theorem reach_tableLE {s s' : KvProcess} (h : Reach step InOrder s s') :
    TableLE s.server.lastRequestId s'.server.lastRequestId := by
  induction h with
  | refl => exact TableLE.refl _
  | tail _ hok hs ih =>
    exact ih.trans ((table_grows_iff hs fun message he => by rw [he] at hok; exact hok).mpr hok)

/-! ### Runs -/

/-- The message that carries an operation. -/
def commandMsg (op : Op) (index : Int) : ApplyMsg :=
  { commandValid := true, command := KvArchive.asString op, commandIndex := index }

/-- The steps of the apply thread on one command that is no duplicate. -/
def applySteps (op : Op) (index : Int) : List KvStep :=
  [.getCommandFromRaft (commandMsg op index), .ifRequestDuplicate, .executeOp,
    .ifNeedToSendSnapShotCommand 0, .sendMessageToWaitChan]

/-- The requests of the commands passed so far. -/
def requests (s : KvProcess) : List (String × Int) :=
  s.commands.filterMap fun message => (KvArchive.opOfString message.command).map request

/-- Request 1 of client `c`. -/
def getRequest : Op := { operation := "Get", key := "k", clientId := "c", requestId := 1 }

/-- Request 2 of client `c`. -/
def putRequest : Op :=
  { operation := "Put", key := "k", value := "v", clientId := "c", requestId := 2 }

/-- A handler issues the `Get` and waits, and the command is applied. -/
def getSteps : List KvStep :=
  [.get "k" "c" 1 1 true, .openWaitChan 0] ++ applySteps getRequest 1

/-- **At-most-once execution.**  In every run whose steps are in order no entry of the table
    ever goes down, and no `Put` or `Append` request runs twice. -/
theorem requests_at_most_once {maxRaftState : Int} {s s' : KvProcess}
    (h : Reach step InOrder (init maxRaftState) s) (h' : Reach step InOrder s s') :
    TableLE s.server.lastRequestId s'.server.lastRequestId ∧
      (s'.executions.map request).Nodup :=
  ⟨reach_tableLE h', (reach_onceInv (h.trans h')).once⟩

omit [KvArchive] in
/-- A handler reads the state machine before the next request of its client is applied, which
    then is applied twice. -/
theorem requests_at_most_once_promptRun :
    letI := textKvArchive
    ∃ s s', Reach step InOrder (init 1000) s ∧ Reach step InOrder s s' ∧
      s'.commands.length = 3 ∧ TableLE s.server.lastRequestId s'.server.lastRequestId ∧
      (s'.executions.map request).Nodup := by
  let := textKvArchive
  have hrun : ((runFrom step InOrder (init 1000) (getSteps ++ [.timeOutPop 0, .executeGet 0])).bind
      fun s => (runFrom step InOrder s (applySteps putRequest 2 ++ [.closeWaitChan 0] ++
        [.getCommandFromRaft (commandMsg putRequest 3), .ifRequestDuplicate])).map
          fun s' => s'.commands.length) = some 3 := by
    decide
  obtain ⟨s, hs, hrun⟩ := Option.bind_eq_some_iff.mp hrun
  obtain ⟨s', hs', hlen⟩ := Option.map_eq_some_iff.mp hrun
  exact ⟨s, s', .of_runFrom hs, .of_runFrom hs', hlen,
    requests_at_most_once (.of_runFrom hs) (.of_runFrom hs')⟩

/-! ### A handler that is late -/

omit [KvArchive] in
/-- Each request that occurs for the first time has a higher number than the earlier ones of its
    client. -/
def FirstsIncrease (rs : List (String × Int)) : Prop :=
  ∀ k < rs.length, ∀ r ∈ rs[k]?, r ∉ rs.take k → ∀ r' ∈ rs.take k, r'.1 = r.1 → r'.2 < r.2

instance (rs : List (String × Int)) : Decidable (FirstsIncrease rs) := by
  unfold FirstsIncrease
  infer_instance

omit [KvArchive] in
/-- The handler of a `Get` wakes up, and the next `Put` of its client is applied.  When the
    handler now reads the state machine the entry of the client goes from 2 to 1, and a repeated
    `Put` runs a second time. -/
theorem late_get_runs_put_twice :
    letI := textKvArchive
    ∃ s s' s'', Reach step anyStep (init 1000) s ∧ s.step (.executeGet 0) = some s' ∧
      Reach step anyStep s' s'' ∧ FirstsIncrease (requests s'') ∧
      s.server.lastRequestId.lookup "c" = some 2 ∧ s'.server.lastRequestId.lookup "c" = some 1 ∧
      s''.executions.map request = [("c", 2), ("c", 2)] := by
  let := textKvArchive
  have hrun : (((runFrom step anyStep (init 1000)
      (getSteps ++ [.timeOutPop 0] ++ applySteps putRequest 2)).bind fun s =>
      (s.step (.executeGet 0)).bind fun s' =>
        (runFrom step anyStep s' (applySteps putRequest 3)).map fun s'' =>
          (s.server.lastRequestId.lookup "c", s'.server.lastRequestId.lookup "c", requests s'',
            s''.executions.map request)) =
      some (some 2, some 1, [("c", 1), ("c", 2), ("c", 2)], [("c", 2), ("c", 2)])) := by
    decide
  obtain ⟨s, hs, hrun⟩ := Option.bind_eq_some_iff.mp hrun
  obtain ⟨s', hs', hrun⟩ := Option.bind_eq_some_iff.mp hrun
  obtain ⟨s'', hs'', hrun⟩ := Option.map_eq_some_iff.mp hrun
  obtain ⟨h₁, h₂, h₃, h₄⟩ : _ ∧ _ ∧ _ ∧ _ := by simpa only [Prod.mk.injEq] using hrun
  refine ⟨s, s', s'', .of_runFrom hs, hs', .of_runFrom hs'', ?_, h₁, h₂, h₄⟩
  rw [h₃]
  decide

end KvProcess

end RaftStore
