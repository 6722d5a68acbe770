import RaftStore.Lib.Quorum
import RaftStore.Store.Answers

namespace RaftStore

/-!
# The order of calls and entries

Processes with different client ids, each with one call at a time.

* `Store.Numbered` — the calls of a process carry its client id and increasing numbers, and the
  process waits for an RPC of the last.
* `Store.Serial` — a call that is not answered is the one its process is in, an entry stands
  behind all that was committed when its call began, and a `PutAppend` that has returned is in
  the log.
* `Serial.before` — a `PutAppend` stands in the log before anything of a later call of its
  process.
-/

namespace Store

/-! ### Numbers -/

/-- How the calls of a process are numbered. -/
structure Numbered (ids : List String) (s : Store) : Prop where
  ids : s.clients.map (fun client => client.clerk.clientId) = ids
  calls : ∀ call ∈ s.calls, ∃ client, s.clients[call.client]? = some client ∧
    call.args.op.clientId = client.clerk.clientId ∧
    call.args.op.requestId ≤ client.clerk.requestId
  increasing : ∀ (g g' : ℕ) (call call' : KvCall), g < g' → s.calls[g]? = some call →
    s.calls[g']? = some call' → call.client = call'.client →
      call.args.op.requestId < call'.args.op.requestId
  waiting : ∀ (i : ℕ) (client : Client) (k : ℕ), s.clients[i]? = some client →
    client.waiting = some k → ∃ rpc call, s.rpcs[k]? = some rpc ∧
      s.calls[rpc.call]? = some call ∧ call.client = i ∧
      call.args.op.requestId = client.clerk.requestId

/-- No number has been given at the start. -/
theorem numbered_init (clerks : List Clerk) (maxRaftStates : List Int) :
    Numbered (clerks.map Clerk.clientId) (init clerks maxRaftStates) where
  ids := by
    rw [init, List.map_map]
    rfl
  calls _ hmem := by cases hmem
  increasing _ _ _ _ _ hg := by cases hg
  waiting i client k hclient hwaiting := by
    rw [init, List.getElem?_map] at hclient
    obtain ⟨clerk, _, rfl⟩ := Option.map_eq_some_iff.mp hclient
    cases hwaiting

/-- Client ids tell the processes of two calls apart. -/
theorem Numbered.client_eq {ids : List String} {s : Store} (h : Numbered ids s)
    (hids : ids.Nodup) {call call' : KvCall} (hcall : call ∈ s.calls) (hcall' : call' ∈ s.calls)
    (heq : call.args.op.clientId = call'.args.op.clientId) : call.client = call'.client := by
  obtain ⟨client, hclient, hid, _⟩ := h.calls call hcall
  obtain ⟨client', hclient', hid', _⟩ := h.calls call' hcall'
  rw [← h.ids] at hids
  exact eq_of_getElem?_of_nodup hids hclient hclient' (hid.symm.trans (heq.trans hid'))

/-- Numbers tell the calls of a process apart, and order them. -/
theorem Numbered.le_of_le {ids : List String} {s : Store} (h : Numbered ids s) {g g' : ℕ}
    {call call' : KvCall} (hcall : s.calls[g]? = some call) (hcall' : s.calls[g']? = some call')
    (hclient : call.client = call'.client)
    (hle : call.args.op.requestId ≤ call'.args.op.requestId) : g ≤ g' := by
  by_contra hlt
  have hlt' := h.increasing g' g call' call (not_le.mp hlt) hcall' hcall hclient.symm
  omega

variable [KvArchive] {ids : List String} {s s' : Store} {a : StoreStep}

/-- **Step lemma.** -/
theorem Numbered.step (h : Numbered ids s) (hchange : Change s a s') : Numbered ids s' := by
  cases hchange with
  | @called i c client hclient hidle =>
    obtain ⟨hid, hnum, hargid, hargnum, _⟩ := client.clerk.call_spec c
    have hlt := (List.getElem?_eq_some_iff.mp hclient).1
    refine ⟨?_, fun call hmem => ?_, fun g g' call call' hgg' hg hg' hsame => ?_,
      fun i' client' k hclient' hwaiting => ?_⟩
    · rw [← h.ids]
      exact map_set_of_eq _ hclient _ hid
    · rcases List.mem_append.mp hmem with hmem | hmem
      · obtain ⟨client', hclient', hid', hle⟩ := h.calls call hmem
        rcases getElem?_set_split hclient hclient' _ with ⟨rfl, rfl, hset⟩ | hset
        · refine ⟨_, hset, hid'.trans hid.symm, ?_⟩
          change _ ≤ (client.clerk.call c).1.requestId
          omega
        · exact ⟨client', hset, hid', hle⟩
      · obtain rfl := List.mem_singleton.mp hmem
        exact ⟨_, List.getElem?_set_self hlt, hargid.trans hid.symm, (hargnum.trans hnum.symm).le⟩
    · -- the new call takes the next number, above all that its process has used
      rcases getElem?_concat_cases hg' with hg' | ⟨rfl, rfl⟩
      · have hlt' := (List.getElem?_eq_some_iff.mp hg').1
        rw [List.getElem?_append_left (hgg'.trans hlt')] at hg
        exact h.increasing g g' call call' hgg' hg hg' hsame
      · rw [List.getElem?_append_left hgg'] at hg
        obtain ⟨client', hclient', _, hle⟩ := h.calls call (List.mem_of_getElem? hg)
        rw [show call.client = i from hsame] at hclient'
        obtain rfl := Option.some.inj (hclient.symm.trans hclient')
        change _ < (client.clerk.call c).2.op.requestId
        omega
    · rcases getElem?_set_cases hclient' with ⟨rfl, rfl⟩ | ⟨hne, hclient'⟩
      · obtain rfl := Option.some.inj hwaiting
        exact ⟨_, _, List.getElem?_concat_length, List.getElem?_concat_length, rfl,
          hargnum.trans hnum.symm⟩
      · obtain ⟨rpc, call, hrpc, hcall, hi, hle⟩ := h.waiting i' client' k hclient' hwaiting
        exact ⟨rpc, call, getElem?_of_isPrefix (List.prefix_append _ _) hrpc,
          getElem?_of_isPrefix (List.prefix_append _ _) hcall, hi, hle⟩
  | @received k raftIndex isLeader rpc call server hrpc hfresh hcall hserver =>
    refine ⟨h.ids, h.calls, h.increasing, fun i client k' hclient hwaiting => ?_⟩
    obtain ⟨rpc', call', hrpc', hcall', hi, hle⟩ := h.waiting i client k' hclient hwaiting
    rcases getElem?_set_split hrpc hrpc' _ with ⟨rfl, rfl, hset⟩ | hset
    · exact ⟨_, call', hset, hcall', hi, hle⟩
    · exact ⟨rpc', call', hset, hcall', hi, hle⟩
  | @retried a i k next client rpc call hclient hwaiting hrpc hcall ha =>
    refine ⟨?_, fun call' hmem => ?_, h.increasing, fun i' client' k' hclient' hwaiting' => ?_⟩
    · rw [← h.ids]
      exact map_set_of_eq _ hclient _ rfl
    · obtain ⟨client', hclient', hid, hle⟩ := h.calls call' hmem
      rcases getElem?_set_split hclient hclient' _ with ⟨rfl, rfl, hset⟩ | hset
      · exact ⟨_, hset, hid, hle⟩
      · exact ⟨client', hset, hid, hle⟩
    · rcases getElem?_set_cases hclient' with ⟨rfl, rfl⟩ | ⟨hne, hclient'⟩
      · obtain rfl := Option.some.inj hwaiting'
        -- a retry is a new RPC of the same call
        obtain ⟨rpc', call', hrpc', hcall', hi, hle⟩ := h.waiting i client k hclient hwaiting
        obtain rfl := Option.some.inj (hrpc.symm.trans hrpc')
        exact ⟨_, call', List.getElem?_concat_length, hcall', hi, hle⟩
      · obtain ⟨rpc', call', hrpc', hcall', hi, hle⟩ := h.waiting i' client' k' hclient' hwaiting'
        exact ⟨rpc', call', getElem?_of_isPrefix (List.prefix_append _ _) hrpc', hcall', hi, hle⟩
  | @returned i k h' client rpc call server handler reply clerk hclient hwaiting hrpc hcall hserver
      hh hhandler hreply hturn =>
    obtain ⟨hid, hnum, _⟩ := Clerk.turn_done hturn
    refine ⟨?_, fun call' hmem => ?_, h.increasing, fun i' client' k' hclient' hwaiting' => ?_⟩
    · rw [← h.ids]
      exact map_set_of_eq _ hclient _ hid
    · obtain ⟨client', hclient', hid', hle⟩ := h.calls call' hmem
      rcases getElem?_set_split hclient hclient' _ with ⟨rfl, rfl, hset⟩ | hset
      · exact ⟨_, hset, hid'.trans hid.symm, hle.trans hnum.ge⟩
      · exact ⟨client', hset, hid', hle⟩
    · rcases getElem?_set_cases hclient' with ⟨rfl, rfl⟩ | ⟨hne, hclient'⟩
      · cases hwaiting'
      · exact h.waiting i' client' k' hclient' hwaiting'
  | committed | applied | installed | served => exact ⟨h.ids, h.calls, h.increasing, h.waiting⟩

/-! ### Calls and entries -/

/-- The process of the call waits for an RPC of it. -/
def Pending (s : Store) (g : ℕ) (call : KvCall) : Prop :=
  ∃ client k rpc, s.clients[call.client]? = some client ∧ client.waiting = some k ∧
    s.rpcs[k]? = some rpc ∧ rpc.call = g

/-- The order of calls and entries. -/
structure Serial (s : Store) : Prop where
  pending : ∀ (g : ℕ) (call : KvCall), s.calls[g]? = some call →
    (∃ answer ∈ s.answers, answer.call = g) ∨ Pending s g call
  start : ∀ call ∈ s.calls, call.start ≤ s.log.length
  starts : ∀ (g g' : ℕ) (call call' : KvCall), g ≤ g' → s.calls[g]? = some call →
    s.calls[g']? = some call' → call.start ≤ call'.start
  later : ∀ (p : ℕ) (entry : Entry) (call : KvCall), s.log[p]? = some entry →
    s.calls[entry.call]? = some call → call.start ≤ p
  before : ∀ (g g' : ℕ) (call call' : KvCall), g < g' → s.calls[g]? = some call →
    s.calls[g']? = some call' → call.client = call'.client → call.args.isGet = false →
      ∃ p < call'.start, ∃ entry, s.log[p]? = some entry ∧ entry.call = g

omit [KvArchive] in
/-- Nothing is under way at the start. -/
theorem serial_init (clerks : List Clerk) (maxRaftStates : List Int) :
    Serial (init clerks maxRaftStates) where
  pending _ _ hg := by cases hg
  start _ hmem := by cases hmem
  starts _ _ _ _ _ hg := by cases hg
  later _ _ _ hp := by cases hp
  before _ _ _ _ _ hg := by cases hg

omit [KvArchive] in
/-- What covers the request of a call among the first entries: its own entry, or one of a later
    call of its process. -/
theorem exists_covering (hwired : Wired s) (hnum : Numbered ids s) (hids : ids.Nodup) {n g : ℕ}
    {call : KvCall} (hcall : s.calls[g]? = some call)
    (hcover : Covers s.log n call.args.op.clientId call.args.op.requestId) :
    ∃ p < n, ∃ entry call', s.log[p]? = some entry ∧ s.calls[entry.call]? = some call' ∧
      entry.op = call'.args.op ∧ call.client = call'.client ∧ g ≤ entry.call := by
  obtain ⟨p, hp, entry, hentry, hclient, hnumber⟩ := hcover.exists_getElem?
  obtain ⟨call', hcall', hop⟩ := hwired.log entry (List.mem_of_getElem? hentry)
  rw [Entry.client, hop] at hclient
  rw [Entry.number, hop] at hnumber
  have hsame := hnum.client_eq hids (List.mem_of_getElem? hcall) (List.mem_of_getElem? hcall')
    hclient.symm
  exact ⟨p, hp, entry, call', hentry, hcall', hop, hsame,
    hnum.le_of_le hcall hcall' hsame hnumber⟩

omit [KvArchive] in
/-- A `PutAppend` is behind whatever covers it. -/
theorem Serial.exists_entry (h : Serial s) (hwired : Wired s) (hnum : Numbered ids s)
    (hids : ids.Nodup) {n g : ℕ} {call : KvCall} (hcall : s.calls[g]? = some call)
    (hput : call.args.isGet = false)
    (hcover : Covers s.log n call.args.op.clientId call.args.op.requestId) :
    ∃ p < n, ∃ entry, s.log[p]? = some entry ∧ entry.call = g := by
  obtain ⟨p, hp, entry, call', hentry, hcall', _, hsame, hle⟩ :=
    exists_covering hwired hnum hids hcall hcover
  rcases hle.eq_or_lt with heq | hlt
  · exact ⟨p, hp, entry, hentry, heq.symm⟩
  · obtain ⟨q, hq, earlier, hearlier, hg⟩ :=
      h.before g entry.call call call' hlt hcall hcall' hsame hput
    exact ⟨q, (hq.trans_le (h.later p entry call' hentry hcall')).trans hp, earlier, hearlier, hg⟩

omit [KvArchive] in
/-- A `PutAppend` that has returned is in the log. -/
theorem Serial.logged (h : Serial s) (hwired : Wired s) (hnum : Numbered ids s)
    (hids : ids.Nodup) {answer : Answer} (hanswer : answer ∈ s.answers) {call : KvCall}
    (hcall : s.calls[answer.call]? = some call) (hput : call.args.isGet = false) :
    ∃ p < s.log.length, ∃ entry, s.log[p]? = some entry ∧ entry.call = answer.call := by
  obtain ⟨call', hcall', hcover⟩ := hwired.answers answer hanswer
  obtain rfl := Option.some.inj (hcall.symm.trans hcall')
  obtain ⟨server, _, hcover⟩ := hcover hput
  obtain ⟨p, _, entry, hentry, hg⟩ := h.exists_entry hwired hnum hids hcall hput hcover
  exact ⟨p, (List.getElem?_eq_some_iff.mp hentry).1, entry, hentry, hg⟩

/-- **Step lemma.** -/
theorem Serial.step (h : Serial s) (hwired : Wired s) (hnum : Numbered ids s) (hids : ids.Nodup)
    (hchange : Change s a s') : Serial s' := by
  cases hchange with
  | @called i c client hclient hidle =>
    have hlt := (List.getElem?_eq_some_iff.mp hclient).1
    -- an idle process has been answered
    have hanswered : ∀ (g : ℕ) (call : KvCall), s.calls[g]? = some call → call.client = i →
        ∃ answer ∈ s.answers, answer.call = g := by
      intro g call hg hi
      rcases h.pending g call hg with hdone | ⟨client', k, rpc, hclient', hwaiting, _⟩
      · exact hdone
      · rw [hi] at hclient'
        obtain rfl := Option.some.inj (hclient.symm.trans hclient')
        rw [hidle] at hwaiting
        cases hwaiting
    refine ⟨fun g call hg => ?_, fun call hmem => ?_, fun g g' call call' hgg' hg hg' => ?_,
      fun p entry call hp hg => ?_, fun g g' call call' hgg' hg hg' hsame hput => ?_⟩
    · rcases getElem?_concat_cases hg with hg | ⟨rfl, rfl⟩
      · by_cases hi : call.client = i
        · exact Or.inl (hanswered g call hg hi)
        · rcases h.pending g call hg with hdone | ⟨client', k, rpc, hclient', hwaiting, hrpc, hcall⟩
          · exact Or.inl hdone
          · exact Or.inr ⟨client', k, rpc, (List.getElem?_set_ne (Ne.symm hi)).trans hclient',
              hwaiting, getElem?_of_isPrefix (List.prefix_append _ _) hrpc, hcall⟩
      · exact Or.inr ⟨_, _, _, List.getElem?_set_self hlt, rfl, List.getElem?_concat_length, rfl⟩
    · rcases List.mem_append.mp hmem with hmem | hmem
      · exact h.start call hmem
      · obtain rfl := List.mem_singleton.mp hmem
        exact le_rfl
    · rcases getElem?_concat_cases hg' with hg' | ⟨rfl, rfl⟩
      · have hlt' := (List.getElem?_eq_some_iff.mp hg').1
        rw [List.getElem?_append_left (hgg'.trans_lt hlt')] at hg
        exact h.starts g g' call call' hgg' hg hg'
      · rcases getElem?_concat_cases hg with hg | ⟨rfl, rfl⟩
        · exact h.start call (List.mem_of_getElem? hg)
        · exact le_rfl
    · -- an entry belongs to a call that was there before it
      obtain ⟨call', hcall', _⟩ := hwired.log entry (List.mem_of_getElem? hp)
      rw [List.getElem?_append_left (List.getElem?_eq_some_iff.mp hcall').1] at hg
      exact h.later p entry call hp hg
    · rcases getElem?_concat_cases hg' with hg' | ⟨rfl, rfl⟩
      · have hlt' := (List.getElem?_eq_some_iff.mp hg').1
        rw [List.getElem?_append_left (hgg'.trans hlt')] at hg
        exact h.before g g' call call' hgg' hg hg' hsame hput
      · rw [List.getElem?_append_left hgg'] at hg
        -- the earlier call of the process has returned, so its entry is in the log
        obtain ⟨answer, hanswer, rfl⟩ := hanswered g call hg hsame
        exact h.logged hwired hnum hids hanswer hg hput
  | @received k raftIndex isLeader rpc call server hrpc hfresh hcall hserver =>
    refine ⟨fun g call' hg => ?_, h.start, h.starts, h.later, h.before⟩
    rcases h.pending g call' hg with hdone | ⟨client, k', rpc', hclient, hwaiting, hrpc', hcall'⟩
    · exact Or.inl hdone
    · rcases getElem?_set_split hrpc hrpc' _ with ⟨rfl, rfl, hset⟩ | hset
      · exact Or.inr ⟨client, k, _, hclient, hwaiting, hset, hcall'⟩
      · exact Or.inr ⟨client, k', rpc', hclient, hwaiting, hset, hcall'⟩
  | @retried a i k next client rpc call hclient hwaiting hrpc hcall ha =>
    refine ⟨fun g call' hg => ?_, h.start, h.starts, h.later, h.before⟩
    rcases h.pending g call' hg with hdone | ⟨client', k', rpc', hclient', hwaiting', hrpc', hcall'⟩
    · exact Or.inl hdone
    · rcases getElem?_set_split hclient hclient' _ with ⟨_, rfl, hset⟩ | hset
      · -- the process waits for the new RPC, which is of the same call
        obtain rfl := Option.some.inj (hwaiting.symm.trans hwaiting')
        obtain rfl := Option.some.inj (hrpc.symm.trans hrpc')
        exact Or.inr ⟨_, _, _, hset, rfl, List.getElem?_concat_length, hcall'⟩
      · exact Or.inr ⟨client', k', rpc', hset, hwaiting',
          getElem?_of_isPrefix (List.prefix_append _ _) hrpc', hcall'⟩
  | @returned i k h' client rpc call server handler reply clerk hclient hwaiting hrpc hcall hserver
      hh hhandler hreply hturn =>
    refine ⟨fun g call' hg => ?_, h.start, h.starts, h.later, h.before⟩
    rcases h.pending g call' hg with ⟨answer, hanswer, hg'⟩ |
      ⟨client', k', rpc', hclient', hwaiting', hrpc', hcall'⟩
    · exact Or.inl ⟨answer, List.mem_append_left _ hanswer, hg'⟩
    · rcases getElem?_set_split hclient hclient' _ with ⟨_, rfl, _⟩ | hset
      · -- the call of the RPC that comes back is answered
        obtain rfl := Option.some.inj (hwaiting.symm.trans hwaiting')
        obtain rfl := Option.some.inj (hrpc.symm.trans hrpc')
        exact Or.inl ⟨_, List.mem_append_right _ (List.mem_singleton_self _), hcall'⟩
      · exact Or.inr ⟨client', k', rpc', hset, hwaiting', hrpc', hcall'⟩
  | @committed k proposal hproposal hindex =>
    refine ⟨h.pending, fun call hmem => ?_, h.starts, fun p entry call hp hg => ?_,
      fun g g' call call' hgg' hg hg' hsame hput => ?_⟩
    · -- the log has only grown
      have hle := h.start call hmem
      rw [List.length_append]
      omega
    · rcases getElem?_concat_cases hp with hp | ⟨rfl, rfl⟩
      · exact h.later p entry call hp hg
      · exact h.start call (List.mem_of_getElem? hg)
    · obtain ⟨p, hp, entry, hentry, hcall⟩ := h.before g g' call call' hgg' hg hg' hsame hput
      exact ⟨p, hp, entry, getElem?_of_isPrefix (List.prefix_append _ _) hentry, hcall⟩
  | applied | installed | served => exact ⟨h.pending, h.start, h.starts, h.later, h.before⟩

/-- **Run lemma.** -/
theorem reach_serial [LawfulKvArchive] {ok : Store → StoreStep → Prop} {clerks : List Clerk}
    {maxRaftStates : List Int} (hids : (clerks.map Clerk.clientId).Nodup)
    (h : Reach step ok (init clerks maxRaftStates) s) :
    Numbered (clerks.map Clerk.clientId) s ∧ Serial s :=
  h.invariant (P := fun s => Numbered (clerks.map Clerk.clientId) s ∧ Serial s)
    ⟨numbered_init clerks maxRaftStates, serial_init clerks maxRaftStates⟩
    fun _ _ _ hr hinv _ hs =>
      ⟨hinv.1.step (step_change hs), hinv.2.step (reach_wired hr) hinv.1 hids (step_change hs)⟩

end Store

end RaftStore
