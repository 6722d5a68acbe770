import RaftStore.Node.FullLog

namespace RaftStore

/-!
# A node as a member of the abstract account

`Raft.Mirrors t i rf` ties the state `rf` of node `i` to member `i` of `t`: the term is that of
the member, what a leader holds is its reign, and the node's log is that of the member as far as
the node still knows it.

* `Raft.Covers` — the condition on the merge loop under which all this is kept: a request that
  conflicts with the log reaches its end.
* `Raft.Torn` — the one way a node's log differs from the member's: `InstallSnapshot` keeps
  what lies above a snapshot even if it was appended to something else.  Such a node cannot
  lead, and it forgets the rest with the first conflicting request.
* `Mirrors.accept`, `Mirrors.installed`, `Mirrors.started`, … — the handlers as abstract steps.
-/

open Consensus (lastTerm Own)
open Relation (ReflTransGen)

namespace Raft

variable {n : ℕ}

/-! ### The condition on the merge loop -/

/-- The node holds another term at the index of `e`. -/
def Conflicts (rf : Raft n) (e : LogEntry) : Prop :=
  ∃ cur, rf.entryAt e.logIndex = some cur ∧ cur.logTerm ≠ e.logTerm

instance (rf : Raft n) (e : LogEntry) : Decidable (rf.Conflicts e) :=
  decidable_of_iff ((rf.entryAt e.logIndex).any fun cur => cur.logTerm ≠ e.logTerm)
    (by simp [Conflicts, Option.any_eq_true])

/-- If a request that is not stale matches at its `prevLogIndex` and brings an entry that
    conflicts with the log, it reaches the end of the log. -/
def Covers (rf : Raft n) (args : AppendEntriesArgs) : Prop :=
  rf.currentTerm ≤ args.term → rf.termAt args.prevLogIndex = some args.prevLogTerm →
    (∃ e ∈ args.entries, rf.Conflicts e) →
      rf.getLastLogIndex ≤ args.prevLogIndex + args.entries.length

instance (rf : Raft n) (args : AppendEntriesArgs) : Decidable (rf.Covers args) :=
  inferInstanceAs (Decidable (_ → _ → _ → _))

/-- The condition, read off the logs: a sender's log that ends before the receiver's has no
    term that conflicts with it. -/
theorem Covers.agree {rf : Raft n} {V B : List LogEntry} {args : AppendEntriesArgs}
    (h : rf.Covers args) (hfull : rf.Full V) (hwf : rf.LogWF) (ha : args.WF)
    (hterm : rf.currentTerm ≤ args.term)
    (hprev : rf.termAt args.prevLogIndex = some args.prevLogTerm)
    (hsnap : rf.lastSnapshotIncludeIndex ≤ args.prevLogIndex)
    (hB : args.entries = B.drop args.prevLogIndex.toNat)
    (hend : args.prevLogIndex + args.entries.length = B.length) (hlt : B.length < V.length)
    {k : ℕ} {e e' : LogEntry} (hk : args.prevLogIndex.toNat ≤ k) (he : V[k]? = some e)
    (he' : B[k]? = some e') : e.logTerm = e'.logTerm := by
  have hnonneg := ha.nonneg
  by_contra hne
  have hmem : args.entries[k - args.prevLogIndex.toNat]? = some e' := by
    rw [hB, List.getElem?_drop, Nat.add_sub_cancel' hk, he']
  have hidx := ha.contiguous _ e' hmem
  have hat : rf.entryAt e'.logIndex = some e := by
    rw [hfull.entryAt hwf (by omega), ← he]
    congr 1
    omega
  have hle := h hterm hprev ⟨e', List.mem_of_getElem? hmem, e, hat, hne⟩
  rw [hfull.length hwf] at hle
  omega

/-! ### Mirrored nodes -/

/-- `V` is what a follower knows of its log, with an agreed snapshot at the bottom; above the
    snapshot it is `G`, of which the snapshot is not the beginning. -/
structure Torn (rf : Raft n) (V G : List LogEntry) : Prop where
  status : rf.status ≠ .leader
  commit : rf.commitIndex = rf.lastSnapshotIncludeIndex
  above : rf.lastSnapshotIncludeIndex.toNat < G.length
  drop : V.drop rf.lastSnapshotIncludeIndex.toNat = G.drop rf.lastSnapshotIncludeIndex.toNat
  differs : ¬ V.take rf.lastSnapshotIncludeIndex.toNat <+: G

/-- The state of node `i` and member `i`. -/
structure Mirrors (t : Consensus (Fin n) LogEntry) (i : Fin n) (rf : Raft n) : Prop where
  nonneg : 0 ≤ rf.currentTerm
  term : t.term i = rf.currentTerm
  leads : rf.status = .leader → ∃ r, t.reign rf.currentTerm = some r ∧ r.last = t.log i
  view : ∃ V, rf.Full V ∧ t.Agreed rf.currentTerm (V.take rf.commitIndex.toNat) ∧
    (V = t.log i ∨ rf.Torn V (t.log i))

section reading

variable {t : Consensus (Fin n) LogEntry} {i : Fin n} {rf : Raft n}

/-- What the node knows above its snapshot point is the member's. -/
theorem drop_of_view {V : List LogEntry} (hV : V = t.log i ∨ rf.Torn V (t.log i)) :
    V.drop rf.lastSnapshotIncludeIndex.toNat =
      (t.log i).drop rf.lastSnapshotIncludeIndex.toNat := by
  rcases hV with rfl | htorn
  · rfl
  · exact htorn.drop

/-- A torn log is as long as the member's. -/
theorem length_of_view {V : List LogEntry} (h : rf.Full V)
    (hV : V = t.log i ∨ rf.Torn V (t.log i)) : V.length = (t.log i).length := by
  rcases hV with rfl | htorn
  · rfl
  · have hlen := congrArg List.length htorn.drop
    have hle := h.le
    have habove := htorn.above
    rw [List.length_drop, List.length_drop] at hlen
    omega

/-- The last index of the node is the length of the member's log. -/
theorem Mirrors.getLastLogIndex (h : Mirrors t i rf) (hwf : rf.LogWF) :
    rf.getLastLogIndex = (t.log i).length := by
  obtain ⟨V, hfull, _, hV⟩ := h.view
  rw [hfull.length hwf, length_of_view hfull hV]

/-- The last term of the node is that of the member's log. -/
theorem Mirrors.getLastLogTerm (h : Mirrors t i rf) : rf.getLastLogTerm = lastTerm (t.log i) := by
  obtain ⟨V, hfull, _, hV⟩ := h.view
  rw [hfull.getLastLogTerm]
  have hlen := length_of_view hfull hV
  rcases hV with rfl | htorn
  · rfl
  · have hlast := congrArg List.getLast? htorn.drop
    have habove := htorn.above
    rw [List.getLast?_drop, List.getLast?_drop, if_neg (by omega), if_neg (by omega)] at hlast
    rw [lastTerm, lastTerm, hlast]

/-- The entries a node holds are the member's. -/
theorem Mirrors.entryAt (h : Mirrors t i rf) (hwf : rf.LogWF) {j : Int}
    (hj : rf.lastSnapshotIncludeIndex < j) : rf.entryAt j = (t.log i)[(j - 1).toNat]? := by
  have hnonneg := hwf.nonneg
  obtain ⟨V, hfull, _, hV⟩ := h.view
  have hk : (j - 1).toNat = rf.lastSnapshotIncludeIndex.toNat +
      ((j - 1).toNat - rf.lastSnapshotIncludeIndex.toNat) := by omega
  rw [hfull.entryAt hwf hj, hk, ← List.getElem?_drop, drop_of_view hV, List.getElem?_drop]

/-- What `getApplyLogs` emits is part of an agreed log. -/
theorem Mirrors.applicable (h : Mirrors t i rf) (hwf : rf.IndexWF) {e : LogEntry}
    (he : e ∈ rf.applicable) :
    ∃ P, t.Agreed rf.currentTerm P ∧ 1 ≤ e.logIndex ∧ P[(e.logIndex - 1).toNat]? = some e := by
  have hnonneg := hwf.nonneg
  have happlied := hwf.applied
  obtain ⟨hat, hlt, hle⟩ := hwf.entryAt_of_mem_applicable he
  obtain ⟨V, hfull, hP, _⟩ := h.view
  refine ⟨_, hP, by omega, ?_⟩
  rw [List.getElem?_take_of_lt (by omega), ← hfull.entryAt hwf.toLogWF (by omega), hat]

/-- What the snapshot stands for is agreed. -/
theorem Mirrors.snapshot (h : Mirrors t i rf) (hwf : rf.IndexWF) :
    ∃ S, rf.lastSnapshotIncludeIndex = List.length S ∧
      rf.lastSnapshotIncludeTerm = lastTerm S ∧ t.Agreed rf.currentTerm S := by
  have hnonneg := hwf.nonneg
  have hcommit := hwf.applied.trans hwf.committed
  obtain ⟨V, hfull, hP, _⟩ := h.view
  have hle := hfull.le
  refine ⟨_, ?_, hfull.term, hP.of_isPrefix (List.take_prefix_take_left (by omega))⟩
  rw [List.length_take]
  omega

end reading

/-! ### Handlers that leave the log alone -/

/-- Log, snapshot point and commit index are those of `rf`. -/
structure SameLog (rf rf' : Raft n) : Prop where
  logs : rf'.logs = rf.logs
  snap : rf'.lastSnapshotIncludeIndex = rf.lastSnapshotIncludeIndex
  snapTerm : rf'.lastSnapshotIncludeTerm = rf.lastSnapshotIncludeTerm
  commit : rf'.commitIndex = rf.commitIndex

/-- Nothing has changed. -/
theorem SameLog.refl (rf : Raft n) : rf.SameLog rf := ⟨rfl, rfl, rfl, rfl⟩

section sameLog

variable [RaftArchive] {rf rf' : Raft n}

/-- `doElection` leaves the log. -/
theorem doElection_sameLog (h : rf.status ≠ .leader) : rf.SameLog rf.doElection.1 := by
  rw [doElection_fst h]
  exact ⟨rfl, rfl, rfl, rfl⟩

/-- `RequestVote` leaves the log. -/
theorem RequestVoteOutcome.sameLog {args : RequestVoteArgs} {reply : RequestVoteReply}
    (hout : rf.RequestVoteOutcome args rf' reply) : rf.SameLog rf' := by
  cases hout <;> exact ⟨by simp, by simp, by simp, by simp⟩

/-- Learning a term leaves the log. -/
theorem heed_sameLog (rf : Raft n) (term : Int) :
    rf.SameLog (rf.heed term) := ⟨by simp, by simp, by simp, by simp⟩

/-- The reply to a snapshot leaves the log. -/
theorem SnapshotReplyOutcome.sameLog {server : Fin n} {args : InstallSnapshotRequest}
    {reply : InstallSnapshotResponse} (hout : rf.SnapshotReplyOutcome server args reply rf') :
    rf.SameLog rf' := by
  cases hout <;> exact ⟨rfl, rfl, rfl, rfl⟩

end sameLog

section moves

variable {t t' : Consensus (Fin n) LogEntry} {i : Fin n} {rf rf' : Raft n}

/-- A node whose log and commit index stay mirrors its member after the member's term was
    raised to its own. -/
theorem Mirrors.moved (h : Mirrors t i rf) (hle : t.Le t') (hlog : t'.log i = t.log i)
    (hterm : t'.term i = rf'.currentTerm) (hsame : rf.SameLog rf') (hstill : rf.StillLeads rf')
    (hreign : rf'.status = .leader → t'.reign rf.currentTerm = t.reign rf.currentTerm) :
    Mirrors t' i rf' := by
  have hmono : rf.currentTerm ≤ rf'.currentTerm := by
    rw [← h.term, ← hterm]
    exact hle.term i
  obtain ⟨V, hfull, hP, hV⟩ := h.view
  refine { nonneg := h.nonneg.trans hmono, term := hterm, leads := fun hlead => ?_,
           view := ⟨V, hfull.congr hsame.logs hsame.snap hsame.snapTerm, ?_, ?_⟩ }
  · obtain ⟨hstatus, hcur⟩ := hstill hlead
    obtain ⟨r, hr, hlast⟩ := h.leads hstatus
    exact ⟨r, by rw [hcur, hreign hlead, hr], by rw [hlog, hlast]⟩
  · rw [hsame.commit]
    exact hP.mono hle hmono
  · rw [hlog]
    rcases hV with hV | htorn
    · exact Or.inl hV
    · exact Or.inr
        { status := fun hlead => htorn.status (hstill hlead).1
          commit := by rw [hsame.commit, hsame.snap, htorn.commit]
          above := by rw [hsame.snap]; exact htorn.above
          drop := by rw [hsame.snap]; exact htorn.drop
          differs := by rw [hsame.snap]; exact htorn.differs }

/-- A node that does not move still mirrors its member. -/
theorem Mirrors.frame (h : Mirrors t i rf) (hle : t.Le t') (hlog : t'.log i = t.log i)
    (hterm : t'.term i = t.term i)
    (hreign : rf.status = .leader → t'.reign rf.currentTerm = t.reign rf.currentTerm) :
    Mirrors t' i rf :=
  h.moved hle hlog (hterm.trans h.term) (.refl rf) (.refl rf) hreign

/-- A member that is raised is in the term it is raised to. -/
theorem Mirrors.term_raise (h : Mirrors t i rf) {T : Int} (hmono : rf.currentTerm ≤ T) :
    (t.raise i T).term i = T := by
  simp [Consensus.raise, h.term, hmono]

/-- A handler that leaves the log alone raises the member's term. -/
theorem Mirrors.raise (h : Mirrors t i rf) (hle : rf.TermLE rf') (hsame : rf.SameLog rf')
    (hstill : rf.StillLeads rf') : Mirrors (t.raise i rf'.currentTerm) i rf' := by
  have hmono : rf.currentTerm ≤ rf'.currentTerm := by
    rcases hle with hlt | ⟨heq, _⟩
    · exact hlt.le
    · exact heq.le
  exact h.moved (Consensus.raise_le t i _) rfl (h.term_raise hmono) hsame hstill fun _ => rfl

/-- A leader that has just been elected mirrors its member: a torn node cannot win. -/
theorem Mirrors.becomeLeader [RaftArchive] (h : Mirrors t i rf)
    (hnone : t.reign rf.currentTerm = none) (hinv : (t.elect i).Inv) :
    Mirrors (t.elect i) i rf.becomeLeader.persist := by
  have hle : t.Le (t.elect i) := Consensus.elect_le (by rw [h.term, hnone])
  have hreign : (t.elect i).reign rf.currentTerm = some (Reign.start (t.log i)) := by
    rw [← h.term]
    exact Function.update_self ..
  obtain ⟨V, hfull, hP, hV⟩ := h.view
  refine { nonneg := h.nonneg, term := h.term, leads := fun _ => ⟨_, hreign, rfl⟩,
           view := ⟨V, hfull.congr rfl rfl rfl, hP.mono hle le_rfl, Or.inl ?_⟩ }
  rcases hV with hV | htorn
  · exact hV
  · -- the snapshot is agreed, so it is part of the reign that starts
    have hstart := hinv.agreed_reign (hP.mono hle le_rfl) hreign le_rfl
    rw [htorn.commit] at hstart
    exact absurd hstart htorn.differs

/-! ### Handlers of the service and of a leader -/

/-- `Start` proposes in the leader's reign. -/
theorem Mirrors.started [RaftArchive] (h : Mirrors t i rf) (hwf : rf.IndexWF)
    (hstatus : rf.status = .leader) (command : String) :
    ∃ r, t.reign rf.currentTerm = some r ∧ r.last = t.log i ∧
      Mirrors (t.propose i (rf.newEntry command) r) i (rf.started command) := by
  obtain ⟨r, hr, hlast⟩ := h.leads hstatus
  have hr' : t.reign (t.term i) = some r := by rw [h.term, hr]
  have hle := Consensus.propose_le hr' (rf.newEntry command)
  have hlog : (t.propose i (rf.newEntry command) r).log i = t.log i ++ [rf.newEntry command] :=
    Function.update_self ..
  have hgrown : (t.propose i (rf.newEntry command) r).reign rf.currentTerm =
      some (r.grow (rf.newEntry command)) := by
    rw [← h.term]
    exact Function.update_self ..
  have hcommit := hwf.last
  obtain ⟨V, hfull, hP, hV⟩ := h.view
  have hlen := hfull.length hwf.toLogWF
  obtain rfl : V = t.log i := hV.resolve_right fun htorn => htorn.status hstatus
  refine ⟨r, hr, hlast, ?_⟩
  refine { nonneg := h.nonneg, term := h.term, leads := fun _ => ?_,
           view := ⟨_, hfull.started command, ?_, Or.inl hlog.symm⟩ }
  · exact ⟨_, hgrown, by rw [Reign.grow_last, hlast, hlog]⟩
  · have htake : (t.log i ++ [rf.newEntry command]).take rf.commitIndex.toNat =
        (t.log i).take rf.commitIndex.toNat := List.take_append_of_le_length (by omega)
    exact (htake ▸ hP).mono hle le_rfl

/-- `Snapshot` cuts the log where it is agreed. -/
theorem Mirrors.compacted [RaftArchive] (h : Mirrors t i rf) (hwf : rf.IndexWF) {index : Int}
    {e : LogEntry} (hidx : rf.lastSnapshotIncludeIndex < index) (hcommit : index ≤ rf.commitIndex)
    (he : rf.entryAt index = some e) (data : String) :
    Mirrors t i ((rf.cutAt index e.logTerm).saveSnapshot data) := by
  have hnonneg := hwf.nonneg
  have hlast := hwf.last
  obtain ⟨V, hfull, hP, hV⟩ := h.view
  have hlen := hfull.length hwf.toLogWF
  have hS : (V.take index.toNat).length = index.toNat := by
    rw [List.length_take]
    omega
  have hterm : e.logTerm = lastTerm (V.take index.toNat) := by
    rw [hfull.entryAt hwf.toLogWF hidx] at he
    rw [show index.toNat = (index - 1).toNat + 1 by omega, lastTerm_take he]
  have hcut := hfull.splice hwf.toLogWF hidx.le (by omega) hterm
  rw [splice_of_isPrefix (List.take_prefix _ _)] at hcut
  refine { nonneg := h.nonneg, term := h.term, leads := h.leads,
           view := ⟨V, hcut.congr rfl rfl rfl, ?_, Or.inl ?_⟩ }
  · rw [saveSnapshot_commitIndex, cutAt_commitIndex, max_eq_left hcommit]
    exact hP
  · refine hV.resolve_right fun htorn => ?_
    have := htorn.commit
    omega

/-- A leader that raises its commit index to the end of an agreed log. -/
theorem Mirrors.committed (h : Mirrors t i rf) (hstatus : rf.status = .leader)
    {B : List LogEntry} (hB : t.Agreed rf.currentTerm B) (hlog : B <+: t.log i)
    (hlogs : rf'.logs = rf.logs)
    (hsnap : rf'.lastSnapshotIncludeIndex = rf.lastSnapshotIncludeIndex)
    (hsterm : rf'.lastSnapshotIncludeTerm = rf.lastSnapshotIncludeTerm)
    (hterm : rf'.currentTerm = rf.currentTerm) (hcommit : rf'.commitIndex = rf.commitIndex ∨
      rf'.commitIndex = max rf.commitIndex B.length) : Mirrors t i rf' := by
  obtain ⟨V, hfull, hP, hV⟩ := h.view
  obtain rfl : V = t.log i := hV.resolve_right fun htorn => htorn.status hstatus
  refine { nonneg := by rw [hterm]; exact h.nonneg, term := by rw [hterm, h.term],
           leads := fun _ => by rw [hterm]; exact h.leads hstatus,
           view := ⟨_, hfull.congr hlogs hsnap hsterm, ?_, Or.inl rfl⟩ }
  rw [hterm]
  have hmax : rf'.commitIndex = rf.commitIndex ∨ rf'.commitIndex = B.length := by
    rcases hcommit with heq | heq <;> omega
  rcases hmax with heq | heq
  · rw [heq]
    exact hP
  · rw [heq, Int.toNat_natCast, take_of_isPrefix hlog le_rfl, List.take_length]
    exact hB

end moves

/-! ### `AppendEntries1` -/

/-- The request carries, from `prevLogIndex` on, the log `B` that its leader had in reign `r`. -/
structure Sent (t : Consensus (Fin n) LogEntry) (args : AppendEntriesArgs) (B : List LogEntry)
    (r : Reign LogEntry) : Prop where
  reign : t.reign args.term = some r
  last : B <+: r.last
  length : args.prevLogIndex + args.entries.length = B.length
  entries : args.entries = B.drop args.prevLogIndex.toNat
  term : args.prevLogTerm = lastTerm (B.take args.prevLogIndex.toNat)
  commit : t.Agreed args.term (B.take args.leaderCommit.toNat)

section accept

variable {t t' : Consensus (Fin n) LogEntry} {i : Fin n} {rf : Raft n} {args : AppendEntriesArgs}
  {B V : List LogEntry} {r : Reign LogEntry}

/-- What was sent has its entries from the reigns of their terms. -/
theorem Sent.rooted (h : Sent t args B r) (hinv : t.Inv) : t.Rooted B :=
  (hinv.reign _ r h.reign).2.1.of_isPrefix h.last

/-- The requests of a leader carry its log. -/
theorem Mirrors.sent (h : Mirrors t i rf) (hwf : rf.IndexWF) (hstatus : rf.status = .leader)
    {prev prevTerm : Int} (ht : rf.termAt prev = some prevTerm) :
    ∃ r, Sent t (rf.appendArgs prev prevTerm) (t.log i) r := by
  obtain ⟨r, hr, hlast⟩ := h.leads hstatus
  obtain ⟨V, hfull, hP, hV⟩ := h.view
  obtain rfl : V = t.log i := hV.resolve_right fun htorn => htorn.status hstatus
  obtain ⟨hentries, hterm⟩ := hfull.appendArgs hwf.toLogWF ht
  refine ⟨r, { reign := hr, last := hlast ▸ List.prefix_rfl, length := ?_, entries := hentries,
               term := hterm, commit := hP }⟩
  exact ((hwf.appendArgs ht).2).trans (hfull.length hwf.toLogWF)

/-- What a torn node makes of a request it accepts: if it is empty and ends at the snapshot,
    nothing; otherwise it conflicts with the log, and the sender's log takes its place. -/
theorem Torn.accept (hinv : t.Inv) (hwf : rf.LogWF) (hfull : rf.Full V)
    (hP : t.Agreed rf.currentTerm (V.take rf.commitIndex.toNat)) (htorn : rf.Torn V (t.log i))
    (ha : args.WF) (hterm : rf.currentTerm ≤ args.term)
    (hsnap : rf.lastSnapshotIncludeIndex ≤ args.prevLogIndex)
    (hlast : args.prevLogIndex ≤ rf.getLastLogIndex)
    (hprev : rf.termAt args.prevLogIndex = some args.prevLogTerm) (hcovers : rf.Covers args)
    (hsent : Sent t args B r) :
    args.entries = [] ∧ B = V.take rf.commitIndex.toNat ∨
      overlay args.prevLogIndex.toNat args.entries V = B ∧ V.length ≤ B.length ∧
        V.take rf.commitIndex.toNat <+: B := by
  have hnonneg := hwf.nonneg
  have habove := htorn.above
  have hdiffers := htorn.differs
  have hlen := hfull.length hwf
  have hlog := length_of_view hfull (Or.inr htorn)
  have hend := hsent.length
  obtain ⟨k, hk⟩ : ∃ k, k = rf.lastSnapshotIncludeIndex.toNat := ⟨_, rfl⟩
  obtain ⟨p, hp⟩ : ∃ p, p = args.prevLogIndex.toNat := ⟨_, rfl⟩
  have hget : ∀ {j}, k ≤ j → V[j]? = (t.log i)[j]? := by
    intro j hj
    have hdrop := congrArg (fun l => l[j - k]?) htorn.drop
    rwa [← hk, List.getElem?_drop, List.getElem?_drop, Nat.add_sub_cancel' hj] at hdrop
  rw [htorn.commit, ← hk] at hP ⊢
  rw [← hk] at habove hdiffers
  rw [← hp]
  have hVk : (V.take k).length = k := by
    rw [List.length_take]
    omega
  have hBroot := hsent.rooted hinv
  have hprefix := hinv.agreed_reign hP hsent.reign hterm
  have hterms : lastTerm (V.take p) = lastTerm (B.take p) := by
    rw [hfull.termAt hwf hsnap hlast, hsent.term, Option.some.injEq, ← hp] at hprev
    exact hprev
  have hBp : (B.take p).length = p := by
    rw [List.length_take]
    omega
  -- if the sender had what lies above the snapshot, the snapshot would belong to it
  have hpk : p = k := by
    by_contra hne
    obtain ⟨q, hq⟩ : ∃ q, p = q + 1 := ⟨p - 1, by omega⟩
    obtain ⟨e, he⟩ : ∃ e, V[q]? = some e := ⟨_, List.getElem?_eq_getElem (by omega)⟩
    have he' : (t.log i)[q]? = some e := by rw [← hget (by omega), he]
    have hGp : (t.log i).take p = B.take p := by
      refine ((hinv.rooted i).of_isPrefix (List.take_prefix _ _)).eq_of_lastTerm
        (hBroot.of_isPrefix (List.take_prefix _ _)) ?_ ?_
      · rw [hBp, List.length_take]
        omega
      · rw [← hterms, hq, lastTerm_take he, lastTerm_take he']
    have hin : V.take k <+: B.take p :=
      isPrefix_of_le hprefix ((List.take_prefix _ _).trans hsent.last) (by omega)
    exact hdiffers (hin.trans (hGp ▸ List.take_prefix _ _))
  have hBk : V.take k = B.take k := by
    rw [hpk] at hterms
    refine (hinv.agreed_rooted hP).1.eq_of_lastTerm
      (hBroot.of_isPrefix (List.take_prefix _ _)) ?_ hterms
    rw [hVk, ← hpk, hBp]
  rcases Nat.lt_or_ge k B.length with hlt | hge
  · right
    have hle : V.length ≤ B.length := by
      by_contra hgt
      obtain ⟨e, he⟩ : ∃ e, V[k]? = some e := ⟨_, List.getElem?_eq_getElem (by omega)⟩
      obtain ⟨e', he'⟩ : ∃ e', B[k]? = some e' := ⟨_, List.getElem?_eq_getElem hlt⟩
      have hagree := hcovers.agree hfull hwf ha hterm hprev hsnap hsent.entries hend (by omega)
        (by omega) he he'
      rw [hget le_rfl] at he
      have hmatch := (hinv.rooted i).matching hBroot he he' hagree
      refine hdiffers ?_
      calc V.take k = B.take k := hBk
        _ <+: B.take (k + 1) := List.take_prefix_take_left (Nat.le_succ k)
        _ = (t.log i).take (k + 1) := hmatch.symm
        _ <+: t.log i := List.take_prefix _ _
    refine ⟨?_, hle, hBk ▸ List.take_prefix _ _⟩
    rw [hsent.entries, ← hp, overlay_of_take (by omega) (by rw [hpk, hBk]),
      splice_of_length_le hle]
  · left
    refine ⟨?_, ?_⟩
    · rw [hsent.entries, ← hp, List.drop_eq_nil_of_le (by omega)]
    · rw [hBk, List.take_of_length_le hge]

/-- What an intact node makes of a request it accepts: it keeps its log, which contains the
    sender's, or the sender's takes its place. -/
theorem accept_intact (hinv : t.Inv) (hwf : rf.IndexWF) (hfull : rf.Full V) (hV : V = t.log i)
    (hP : t.Agreed rf.currentTerm (V.take rf.commitIndex.toNat)) (ha : args.WF)
    (hterm : rf.currentTerm ≤ args.term)
    (hsnap : rf.lastSnapshotIncludeIndex ≤ args.prevLogIndex)
    (hlast : args.prevLogIndex ≤ rf.getLastLogIndex)
    (hprev : rf.termAt args.prevLogIndex = some args.prevLogTerm) (hcovers : rf.Covers args)
    (hsent : Sent t args B r) :
    overlay args.prevLogIndex.toNat args.entries V = V ∧ B <+: V ∨
      overlay args.prevLogIndex.toNat args.entries V = B ∧ (B <+: V → B = V) ∧
        V.take rf.commitIndex.toNat <+: B := by
  have hnonneg := ha.nonneg
  have hend := hsent.length
  have hlen := hfull.length hwf.toLogWF
  have hVroot : t.Rooted V := hV ▸ hinv.rooted i
  have hBroot := hsent.rooted hinv
  -- both logs are rooted and have one term at `prevLogIndex`, so they agree up to it
  have htake : V.take args.prevLogIndex.toNat = B.take args.prevLogIndex.toNat := by
    refine (hVroot.of_isPrefix (List.take_prefix _ _)).eq_of_lastTerm
      (hBroot.of_isPrefix (List.take_prefix _ _)) ?_ ?_
    · rw [List.length_take, List.length_take]
      omega
    · rw [hfull.termAt hwf.toLogWF hsnap hlast, hsent.term, Option.some.injEq] at hprev
      exact hprev
  rw [hsent.entries]
  -- either the node holds what is sent already, or the new entries take the place of its tail
  rcases merge_cases hVroot hBroot (by omega) htake fun hlt k e e' hk he he' =>
    hcovers.agree hfull hwf.toLogWF ha hterm hprev hsnap hsent.entries hend hlt hk he he'
    with hkeep | ⟨htook, hnew⟩
  · exact Or.inl hkeep
  · exact Or.inr ⟨htook, hnew,
      hinv.agreed_adopt hP (List.take_prefix _ _) hsent.reign hterm hsent.last hnew⟩

/-- A member acknowledges a log of its reign that it has. -/
theorem Mirrors.acked (h : Mirrors t i rf) (hr : t.reign rf.currentTerm = some r)
    (hB : B <+: t.log i) (hlast : B <+: r.last) :
    ∃ t', Own i t t' ∧ Mirrors t' i rf ∧
      (r.first.length < B.length → (i, rf.currentTerm, B) ∈ t'.acks) := by
  by_cases hnew : r.first.length < B.length
  · have hn : t.Next (t.ack i B) := .ack i B r (by rw [h.term, hr]) hB hlast hnew
    refine ⟨t.ack i B, .ack hn, h.frame hn.le rfl rfl fun _ => rfl, fun _ => ?_⟩
    rw [← h.term]
    exact Set.mem_insert _ _
  · exact ⟨t, .refl i t, h, fun hlt => absurd hlt hnew⟩

/-- The accepted state mirrors a member that has its term and its log `X`. -/
theorem Mirrors.of_accept [RaftArchive] {X : List LogEntry} (hnonneg : 0 ≤ rf.currentTerm)
    (hterm : rf.currentTerm ≤ args.term) (hX : (rf.accept args).Full X) (hlog : X = t.log i)
    (ht : t.term i = args.term) (hold : t.Agreed args.term (X.take rf.commitIndex.toNat))
    (hnew : t.Agreed args.term (X.take args.leaderCommit.toNat)) :
    Mirrors t i (rf.accept args).persist := by
  have hcur : (rf.accept args).persist.currentTerm = args.term := accept_currentTerm hterm
  refine { nonneg := by rw [hcur]; omega, term := by rw [hcur, ht],
           leads := fun hlead => (by cases hlead),
           view := ⟨X, hX.congr rfl rfl rfl, ?_, Or.inl hlog⟩ }
  rw [hcur, persist_commitIndex, accept_commitIndex]
  rcases le_total rf.commitIndex args.leaderCommit with hle | hle
  · rwa [max_eq_right hle]
  · rwa [max_eq_left hle]

/-- What `AppendEntries1` comes to for the member of a node that accepts a request. -/
def Accepted [RaftArchive] (t : Consensus (Fin n) LogEntry) (i : Fin n) (rf : Raft n)
    (args : AppendEntriesArgs) (B : List LogEntry) (r : Reign LogEntry) : Prop :=
  ∃ t', Own i t t' ∧ Mirrors t' i (rf.accept args).persist ∧
    (r.first.length < B.length → (i, args.term, B) ∈ t'.acks ∨ t'.Agreed args.term B)

/-- The node has the sender's log and acknowledges it. -/
theorem accepted_of_mirrors [RaftArchive] (hown : Own i t t')
    (h : Mirrors t' i (rf.accept args).persist) (hterm : rf.currentTerm ≤ args.term)
    (hsent : Sent t args B r) (hB : B <+: t'.log i) : Accepted t i rf args B r := by
  have hcur : (rf.accept args).persist.currentTerm = args.term := accept_currentTerm hterm
  have hr : t'.reign (rf.accept args).persist.currentTerm = some r := by
    rw [hcur, hown.reign, hsent.reign]
  obtain ⟨t'', hown', hmirror, hack⟩ := h.acked hr hB hsent.last
  rw [hcur] at hack
  exact ⟨t'', hown.trans hown', hmirror, fun hlt => Or.inl (hack hlt)⟩

/-- The sender's log takes the place of the node's. -/
theorem Mirrors.accept_took [RaftArchive] (h : Mirrors t i rf) (hwf : rf.IndexWF)
    (hterm : rf.currentTerm ≤ args.term) (hsent : Sent t args B r)
    (hlen : rf.commitIndex ≤ V.length)
    (hP : t.Agreed rf.currentTerm (V.take rf.commitIndex.toNat))
    (hacc : (rf.accept args).Full B) (hnew : B <+: t.log i → B = t.log i)
    (hpre : V.take rf.commitIndex.toNat <+: B) : Accepted t i rf args B r := by
  have hnonneg := hwf.nonneg
  have hsnap := hwf.applied.trans hwf.committed
  have hle := Consensus.raise_le t i args.term
  have hterm₁ : (t.raise i args.term).term i = args.term := h.term_raise hterm
  have hn : (t.raise i args.term).Next ((t.raise i args.term).setLog i B) :=
    .adopt i B r (by rw [hterm₁]; exact hsent.reign) hsent.last hnew
  have hlog : ((t.raise i args.term).setLog i B).log i = B := Function.update_self ..
  have hB : B.take rf.commitIndex.toNat = V.take rf.commitIndex.toNat := by
    have htake := take_of_isPrefix hpre (k := rf.commitIndex.toNat)
      (by rw [List.length_take]; omega)
    rwa [List.take_take, min_self] at htake
  refine accepted_of_mirrors ((Own.raise i t args.term).trans (.setLog hn)) ?_ hterm hsent
    (by rw [hlog])
  refine .of_accept h.nonneg hterm hacc hlog.symm hterm₁ ?_
    (hsent.commit.mono (hle.trans hn.le) le_rfl)
  rw [hB]
  exact hP.mono (hle.trans hn.le) hterm

/-- **`AppendEntries1`.**  A node that accepts a request under `Covers` keeps its log or takes
    over the sender's, and acknowledges it unless it is agreed already. -/
theorem Mirrors.accept [RaftArchive] (h : Mirrors t i rf) (hinv : t.Inv) (hwf : rf.IndexWF)
    (ha : args.WF) (hterm : rf.currentTerm ≤ args.term)
    (hsnap : rf.lastSnapshotIncludeIndex ≤ args.prevLogIndex)
    (hlast : args.prevLogIndex ≤ rf.getLastLogIndex)
    (hprev : rf.termAt args.prevLogIndex = some args.prevLogTerm) (hcovers : rf.Covers args)
    (hsent : Sent t args B r) : Accepted t i rf args B r := by
  have hcommit := ha.commit
  have hend := hsent.length
  have hclast := hwf.last
  have hcpos : 0 ≤ rf.commitIndex := hwf.nonneg.trans (hwf.applied.trans hwf.committed)
  have hterm₁ : (t.raise i args.term).term i = args.term := h.term_raise hterm
  have hle := Consensus.raise_le t i args.term
  obtain ⟨V, hfull, hP, hV⟩ := h.view
  have hlen := hfull.length hwf.toLogWF
  have hacc := hfull.accept hwf.toLogWF hsnap hlast
  rcases hV with hV | htorn
  · -- the log is that of the abstract node: kept if it goes on behind `B`, replaced otherwise
    rcases accept_intact hinv hwf hfull hV hP ha hterm hsnap hlast hprev hcovers hsent with
      ⟨hkeep, hBV⟩ | ⟨htook, hnew, hpre⟩
    · rw [hkeep] at hacc
      refine accepted_of_mirrors (Own.raise i t args.term) ?_ hterm hsent
        (show B <+: t.log i from hV ▸ hBV)
      refine .of_accept h.nonneg hterm hacc hV hterm₁ (hP.mono hle hterm) ?_
      rw [take_of_isPrefix hBV (by omega)]
      exact hsent.commit.mono hle le_rfl
    · exact h.accept_took hwf hterm hsent (by omega) hP (htook ▸ hacc) (hV ▸ hnew) hpre
  · rcases htorn.accept hinv hwf.toLogWF hfull hP ha hterm hsnap hlast hprev hcovers hsent with
      ⟨hempty, hB⟩ | ⟨htook, hle', hpre⟩
    · -- a heartbeat that ends at the snapshot changes nothing
      have hBlen := congrArg List.length hB
      have hlc := htorn.commit
      rw [List.length_take] at hBlen
      rw [hempty, List.length_nil] at hend hcommit
      have hsame : rf.SameLog (rf.accept args).persist := by
        refine ⟨?_, by simp, by simp, ?_⟩
        · rw [persist_logs, accept_logs, hempty, mergedLogs_nil]
        · rw [persist_commitIndex, accept_commitIndex]
          omega
      have hcur : (rf.accept args).persist.currentTerm = args.term := accept_currentTerm hterm
      exact ⟨_, .raise i t args.term, h.moved hle rfl (by rw [hcur, hterm₁]) hsame
        (fun hlead => by cases hlead) (fun _ => rfl), fun _ => Or.inr (hB ▸ hP.mono hle hterm)⟩
    · have hlog := length_of_view hfull (Or.inr htorn)
      exact h.accept_took hwf hterm hsent (by omega) hP (htook ▸ hacc)
        (fun hpre' => hpre'.eq_of_length_le (by omega)) hpre

end accept

/-! ### `InstallSnapshot` -/

section installed

variable {t : Consensus (Fin n) LogEntry} {i : Fin n} {rf : Raft n}

/-- Above a later snapshot point the node knows what the member has. -/
theorem drop_of_view_le {V : List LogEntry} (hV : V = t.log i ∨ rf.Torn V (t.log i)) {k : ℕ}
    (hk : rf.lastSnapshotIncludeIndex.toNat ≤ k) : V.drop k = (t.log i).drop k := by
  have hdrop := congrArg (List.drop (k - rf.lastSnapshotIncludeIndex.toNat)) (drop_of_view hV)
  rwa [List.drop_drop, List.drop_drop, Nat.add_sub_cancel' hk] at hdrop

/-- **`InstallSnapshot`.**  A node that accepts an agreed snapshot takes it over if it reaches the
    end of its log; otherwise its member's log stays, and the node may be torn. -/
theorem Mirrors.installed [RaftArchive] (h : Mirrors t i rf) (hinv : t.Inv) (hwf : rf.IndexWF)
    {args : InstallSnapshotRequest} {S : List LogEntry} (hterm : rf.currentTerm ≤ args.term)
    (hidx : rf.lastSnapshotIncludeIndex < args.lastSnapShotIncludeIndex)
    (hS : t.Agreed args.term S) (hlen : args.lastSnapShotIncludeIndex = S.length)
    (hsterm : args.lastSnapShotIncludeTerm = lastTerm S) :
    ∃ t', Own i t t' ∧ Mirrors t' i (rf.installed args) := by
  have hnonneg := hwf.nonneg
  have hclast := hwf.last
  have hle := Consensus.raise_le t i args.term
  have hterm₁ : (t.raise i args.term).term i = args.term := h.term_raise hterm
  obtain ⟨V, hfull, hP, hV⟩ := h.view
  have hlast := hfull.length hwf.toLogWF
  have hVG := length_of_view hfull hV
  have hheed : (rf.heed args.term).Full V := hfull.congr (by simp) (by simp) (by simp)
  have hcut : (rf.installed args).Full (S ++ V.drop S.length) := by
    refine (hheed.splice ⟨by simpa using hnonneg, by simpa using hwf.contiguous⟩
      (by simpa using hidx.le) hlen hsterm).congr rfl rfl rfl
  have hcur : (rf.installed args).currentTerm = args.term := heed_currentTerm hterm
  have hcommit : (rf.installed args).commitIndex = max rf.commitIndex S.length := by
    rw [← hlen, ← heed_commitIndex rf args.term]
    rfl
  have hsnap : (rf.installed args).lastSnapshotIncludeIndex.toNat = S.length := by
    rw [show (rf.installed args).lastSnapshotIncludeIndex = _ from hlen, Int.toNat_natCast]
  have hview : ∀ {t'}, t'.term i = args.term → (∃ X, (rf.installed args).Full X ∧
      t'.Agreed args.term (X.take (rf.installed args).commitIndex.toNat) ∧
        (X = t'.log i ∨ (rf.installed args).Torn X (t'.log i))) →
          Mirrors t' i (rf.installed args) := fun ht' hX =>
    { nonneg := by rw [hcur]; exact h.nonneg.trans hterm
      term := by rw [hcur, ht']
      leads := fun hlead => by cases hlead
      view := by rw [hcur]; exact hX }
  have hS₁ := hS.mono hle le_rfl
  -- a commit index beyond the snapshot means that the snapshot is part of the log
  have hbeyond : (S.length : Int) < rf.commitIndex → V = t.log i ∧ S <+: V := by
    intro hgt
    refine ⟨hV.resolve_right fun htorn => ?_, ?_⟩
    · have := htorn.commit
      omega
    · rcases hinv.agreed_total hP hS with hPS | hSP
      · have := hPS.length_le
        rw [List.length_take] at this
        omega
      · exact hSP.trans (List.take_prefix _ _)
  rcases Nat.lt_or_ge S.length V.length with hlt | hge
  · have hdrop : V.drop S.length = (t.log i).drop S.length := drop_of_view_le hV (by omega)
    refine ⟨_, .raise i t args.term, hview hterm₁ ⟨_, hcut, ?_, ?_⟩⟩
    · rw [hcommit]
      rcases le_or_gt rf.commitIndex S.length with hle' | hgt
      · rw [max_eq_right hle', Int.toNat_natCast, List.take_left' rfl]
        exact hS₁
      · rw [max_eq_left hgt.le, splice_of_isPrefix (hbeyond hgt).2]
        exact hP.mono hle hterm
    · by_cases hpre : S <+: t.log i
      · left
        rw [hdrop, splice_of_isPrefix hpre]
        rfl
      · right
        have hle' : rf.commitIndex ≤ S.length := by
          by_contra hgt
          obtain ⟨rfl, hSV⟩ := hbeyond (not_le.mp hgt)
          exact hpre hSV
        refine { status := fun hlead => (by cases hlead), commit := ?_, above := ?_, drop := ?_,
                 differs := ?_ }
        · rw [hcommit, max_eq_right hle']
          exact hlen.symm
        · rw [hsnap]
          exact hVG ▸ hlt
        · rw [hsnap, List.drop_left' rfl]
          exact hdrop
        · rw [hsnap, List.take_left' rfl]
          exact hpre
  · have hn : (t.raise i args.term).Next ((t.raise i args.term).setLog i S) :=
      .install i S (by rw [hterm₁]; exact hS₁) (show (t.log i).length ≤ S.length by omega)
    have hlog : ((t.raise i args.term).setLog i S).log i = S := Function.update_self ..
    rw [splice_of_length_le hge] at hcut
    refine ⟨_, (Own.raise i t args.term).trans (.setLog hn),
      hview hterm₁ ⟨S, hcut, ?_, Or.inl hlog.symm⟩⟩
    rw [hcommit, max_eq_right (by omega), Int.toNat_natCast, List.take_length]
    exact hS₁.mono hn.le le_rfl

end installed

end Raft

end RaftStore
