import RaftStore.Lib.Transition
import RaftStore.Model.Archive
import RaftStore.Node.Progress

namespace RaftStore

/-!
# Finding the point where two logs agree

A leader and one follower of its term, with nothing lost between them: `doHeartBeat` builds a
request for the follower, `AppendEntries1` answers it, and `sendAppendEntries` takes the answer
over.

* `Raft.exchange` — one such round; `Raft.refusedRound` keeps the rounds that end with a refusal.
* `Raft.Backtracks` — what relates the two nodes while they look for the point.
* `Backtracks.exchange` — a round succeeds, or is refused with a smaller `m_nextIndex`.
* `Raft.backtracking` — the search stays above the follower's snapshot point and ends.
-/

namespace Raft

variable {n : ℕ} [RaftArchive]

/-- One round between a leader and the follower it keeps as peer `i`.  A request for entries is
    returned together with its answer; `none` stands for a snapshot that is to be sent. -/
def exchange (i : Fin n) (p : Raft n × Raft n) :
    Exec ((Raft n × Raft n) × Option (AppendEntriesArgs × AppendEntriesReply)) := do
  match ← p.1.heartBeatTo i with
  | .snapshot => return (p, none)
  | .append args =>
    let (fl, reply) ← p.2.appendEntries1 args
    -- each heartbeat starts with a counter of its own
    let (ld, _) ← p.1.sendAppendEntriesReply i args reply 1
    return ((ld, fl), some (args, reply))

/-- The two nodes after a round that ended with a refusal. -/
def refusedRound (i : Fin n) (p : Raft n × Raft n) (_ : Unit) : Option (Raft n × Raft n) :=
  match exchange i p with
  | .ok (p', some (_, reply)) => if reply.success then none else some p'
  | _ => none

omit [RaftArchive] in
/-- From `prev` to the leader's last index the two logs have the same terms, and the same
    entries wherever both hold one. -/
def AgreesFrom (ld fl : Raft n) (prev : Int) : Prop :=
  ∀ j, prev ≤ j → j ≤ ld.getLastLogIndex → fl.termAt j = ld.termAt j ∧
    (ld.lastSnapshotIncludeIndex < j → fl.lastSnapshotIncludeIndex < j →
      fl.entryAt j = ld.entryAt j)

omit [RaftArchive] in
/-- A leader and a follower of its term whose snapshot point lies in the leader's log, with
    `m_nextIndex[i]` above that point and within the leader's log. -/
structure Backtracks (i : Fin n) (ld fl : Raft n) : Prop where
  leader : ld.IndexWF
  follower : fl.IndexWF
  status : ld.status = .leader
  term : ld.currentTerm = fl.currentTerm
  point : ld.termAt fl.lastSnapshotIncludeIndex = some fl.lastSnapshotIncludeTerm
  command : ∀ j e e', ld.entryAt j = some e → fl.entryAt j = some e' → e'.logTerm = e.logTerm →
    e'.command = e.command
  known : ld.matchIndex i ≤ ld.getLastLogIndex
  above : fl.lastSnapshotIncludeIndex < ld.nextIndex i
  next : ld.nextIndex i ≤ ld.getLastLogIndex + 1

/-! ### One round -/

section round

variable {i : Fin n} {ld fl : Raft n}

omit [RaftArchive] in
/-- The follower's snapshot point is at or above the leader's. -/
theorem Backtracks.snap_le (h : Backtracks i ld fl) :
    ld.lastSnapshotIncludeIndex ≤ fl.lastSnapshotIncludeIndex :=
  (h.leader.toLogWF.termAt_isSome.mp (by rw [h.point]; rfl)).1

omit [RaftArchive] in
/-- The request of a round. -/
theorem Backtracks.heartBeatTo (h : Backtracks i ld fl) :
    ∃ prevTerm, ld.termAt (ld.nextIndex i - 1) = some prevTerm ∧
      ld.heartBeatTo i = .ok (.append (ld.appendArgs (ld.nextIndex i - 1) prevTerm)) := by
  have hsnap := h.snap_le
  have habove := h.above
  have hnext := h.next
  obtain ⟨t, ht⟩ := h.leader.toLogWF.exists_termAt (i := ld.nextIndex i - 1) (by omega) (by omega)
  refine ⟨t, ht, ?_⟩
  rw [h.leader.toLogWF.heartBeatTo_eq (by omega), ht]

omit [RaftArchive] in
/-- The entries of the request clash with none of the follower. -/
theorem Backtracks.noClash (h : Backtracks i ld fl) {prevTerm : Int} {e : LogEntry}
    (he : e ∈ (ld.appendArgs (ld.nextIndex i - 1) prevTerm).entries) : fl.NoClash e := by
  have hld := h.leader.toLogWF.exists_entryAt_of_mem (List.mem_of_mem_drop he)
  exact fun cur hcur hterm => h.command e.logIndex e cur hld hcur hterm

omit [RaftArchive] in
/-- The follower does not reject the request. -/
theorem Backtracks.not_rejects (h : Backtracks i ld fl) (prevTerm : Int) :
    ¬ fl.Rejects (ld.appendArgs (ld.nextIndex i - 1) prevTerm) := by
  rintro ⟨_, hlow | ⟨_, e, he, hclash⟩⟩
  · have habove := h.above
    have : ld.nextIndex i - 1 < fl.lastSnapshotIncludeIndex := hlow
    omega
  · exact hclash (h.noClash he)

/-- A refusal keeps the two nodes related and lowers `m_nextIndex`. -/
theorem Backtracks.refused (h : Backtracks i ld fl) {next : Int}
    (habove : fl.lastSnapshotIncludeIndex < next) (hnext : next < ld.nextIndex i) :
    Backtracks i { ld with nextIndex := Function.update ld.nextIndex i next }
      (fl.follow ld.currentTerm).persist := by
  have hcur : (fl.follow ld.currentTerm).currentTerm = ld.currentTerm :=
    follow_currentTerm h.term.ge
  have hle := h.next
  refine { leader := h.leader.congr rfl rfl rfl rfl rfl,
           follower := h.follower.congr (by simp) (by simp) (by simp) (by simp) (by simp),
           status := h.status, term := hcur.symm, point := ?_, command := ?_, known := h.known,
           above := ?_, next := ?_ }
  · rw [persist_lastSnapshotIncludeIndex, follow_lastSnapshotIncludeIndex,
      persist_lastSnapshotIncludeTerm, follow_lastSnapshotIncludeTerm]
    exact h.point
  · intro j e e' he he'
    exact h.command j e e' he (by simpa using he')
  · simpa using habove
  · show Function.update ld.nextIndex i next i ≤ ld.getLastLogIndex + 1
    rw [Function.update_self]
    omega

omit [RaftArchive] in
/-- What is accepted agrees with the leader's log from the point of the match on. -/
theorem Backtracks.agrees (h : Backtracks i ld fl) {prevTerm : Int}
    (hterm : ld.termAt (ld.nextIndex i - 1) = some prevTerm)
    (hlast : ld.nextIndex i - 1 ≤ fl.getLastLogIndex)
    (hprev : fl.termAt (ld.nextIndex i - 1) = some prevTerm) :
    ld.AgreesFrom (fl.accept (ld.appendArgs (ld.nextIndex i - 1) prevTerm))
      (ld.nextIndex i - 1) := by
  have habove := h.above
  have hsnap := h.snap_le
  obtain ⟨_, hend⟩ := h.leader.appendArgs hterm
  have hpoint : fl.lastSnapshotIncludeIndex ≤
      (ld.appendArgs (ld.nextIndex i - 1) prevTerm).prevLogIndex := by
    show fl.lastSnapshotIncludeIndex ≤ ld.nextIndex i - 1
    omega
  have hentry := h.follower.toLogWF.entryAt_accept hpoint hlast
  intro j hj hjlast
  rcases eq_or_lt_of_le hj with heq | hlt
  · -- at the point of the match nothing is written
    subst heq
    have hsame := hentry (ld.nextIndex i - 1)
    rw [if_neg fun hin => lt_irrefl _ hin.1] at hsame
    constructor
    · rw [hterm, ← hprev]
      unfold termAt
      rw [hsame, accept_lastSnapshotIncludeIndex, accept_lastSnapshotIncludeTerm]
    · intro h₁ h₂
      rw [accept_lastSnapshotIncludeIndex] at h₂
      rw [hsame]
      obtain ⟨e, he⟩ := h.leader.toLogWF.exists_entryAt h₁ (by omega)
      obtain ⟨e', he'⟩ := h.follower.toLogWF.exists_entryAt h₂ hlast
      rw [termAt, if_neg (by omega), he, Option.map_some] at hterm
      rw [termAt, if_neg (by omega), he', Option.map_some] at hprev
      -- the terms are equal, so by log matching the entries are
      have hsameTerm : e'.logTerm = e.logTerm :=
        Option.some.inj (hprev.trans hterm.symm)
      have hcommand := h.command _ e e' he he' hsameTerm
      have hi := h.leader.toLogWF.logIndex_entryAt he
      have hi' := h.follower.toLogWF.logIndex_entryAt he'
      rw [he, he', Option.some.injEq]
      cases e
      cases e'
      simp_all
  · -- above it the leader's entries are written
    have hsame : (fl.accept (ld.appendArgs (ld.nextIndex i - 1) prevTerm)).entryAt j =
        ld.entryAt j := by
      have hin : ld.nextIndex i - 1 < j ∧
          j ≤ ld.nextIndex i - 1 + (ld.appendArgs (ld.nextIndex i - 1) prevTerm).entries.length :=
        ⟨hlt, by omega⟩
      rw [hentry j]
      exact (if_pos hin).trans (getElem?_appendArgs prevTerm (by omega) hlt)
    refine ⟨?_, fun _ _ => hsame⟩
    unfold termAt
    rw [hsame, accept_lastSnapshotIncludeIndex, if_neg (by omega), if_neg (by omega)]

/-- The ways a round between two related nodes ends. -/
inductive RoundOutcome (i : Fin n) (ld fl : Raft n) :
    (Raft n × Raft n) × Option (AppendEntriesArgs × AppendEntriesReply) → Prop
  | refused {ld' fl' : Raft n} {args : AppendEntriesArgs} {reply : AppendEntriesReply}
      (hfail : reply.success = false) (hrel : Backtracks i ld' fl')
      (hsame : ∃ next, ld' = { ld with nextIndex := next })
      (hlower : ld'.nextIndex i < ld.nextIndex i) :
      RoundOutcome i ld fl ((ld', fl'), some (args, reply))
  | succeeded {ld' fl' : Raft n} {args : AppendEntriesArgs} {reply : AppendEntriesReply}
      (hsucc : reply.success = true) (hprev : args.prevLogIndex = ld.nextIndex i - 1)
      (hagrees : ld.AgreesFrom fl' args.prevLogIndex) :
      RoundOutcome i ld fl ((ld', fl'), some (args, reply))

/-- **One round.**  The follower refuses with an index above its snapshot point and below
    `m_nextIndex`, or takes the leader's log from the point of the match on. -/
theorem Backtracks.exchange (h : Backtracks i ld fl) :
    ∃ r, Raft.exchange i (ld, fl) = .ok r ∧ RoundOutcome i ld fl r := by
  have habove := h.above
  have hnext := h.next
  have hnonneg := h.follower.nonneg
  obtain ⟨t, ht, hhb⟩ := h.heartBeatTo
  obtain ⟨hargs, hend⟩ := h.leader.appendArgs ht
  obtain ⟨fl', reply, hok, hout⟩ := appendEntries1_outcome h.follower.toLogWF h.follower.last hargs
    (h.not_rejects t)
  -- a refusal that names `next` is stored, as the leader is still in its term
  have hrefused : ∀ next : Int,
      reply = { appState := appNormal, term := ld.currentTerm, updateNextIndex := next } →
      fl.lastSnapshotIncludeIndex < next → next < ld.nextIndex i →
      fl' = (fl.follow ld.currentTerm).persist →
      ∃ r, Raft.exchange i (ld, fl) = .ok r ∧ RoundOutcome i ld fl r := by
    rintro next rfl hlow hhigh rfl
    have hback : ld.BacksOff
        { appState := appNormal, term := ld.currentTerm, updateNextIndex := next } :=
      ⟨by simp [appNormal, disconnected], rfl, h.status, rfl, by dsimp only; omega⟩
    have hlower : Function.update ld.nextIndex i next i < ld.nextIndex i := by
      rw [Function.update_self]
      exact hhigh
    have hgo : Raft.exchange i (ld, fl) = .ok
        (({ ld with nextIndex := Function.update ld.nextIndex i next },
            (fl.follow ld.currentTerm).persist),
          some (ld.appendArgs (ld.nextIndex i - 1) t,
            { appState := appNormal, term := ld.currentTerm, updateNextIndex := next })) := by
      unfold Raft.exchange
      rw [hhb, Exec.ok_bind]
      dsimp only
      rw [hok, Exec.ok_bind]
      dsimp only
      rw [sendAppendEntriesReply_refused hback, Exec.ok_bind]
      rfl
    exact ⟨_, hgo, .refused rfl (h.refused hlow hhigh) ⟨_, rfl⟩ hlower⟩
  cases hout with
  | stale hstale =>
    -- the two are in one term
    have : ld.currentTerm < fl.currentTerm := hstale
    have := h.term
    omega
  | tooShort hterm hlast =>
    -- the refusal names the index after the last one of the follower
    have hlast : fl.getLastLogIndex < ld.nextIndex i - 1 := hlast
    have hsnap := h.follower.toLogWF.snapshot_le_last
    exact hrefused _ rfl (by omega) (by omega) rfl
  | mismatch hterm hsnap hlast hprev next hle hor =>
    have hle : next ≤ ld.nextIndex i - 1 := hle
    refine hrefused next rfl ?_ (by omega) rfl
    rcases hor with heq | hlt
    · -- the back-off loop found nothing: then the mismatch is not at the snapshot point
      have hsnap : fl.lastSnapshotIncludeIndex ≤ ld.nextIndex i - 1 := hsnap
      have heq : next = ld.nextIndex i - 1 := heq
      rcases eq_or_lt_of_le hsnap with hpoint | hlt
      · refine absurd ?_ hprev
        show fl.termAt (ld.nextIndex i - 1) = some t
        rw [← ht, ← hpoint, h.point, termAt, if_pos rfl]
      · omega
    · exact hlt
  | accepted hterm hsnap hlast hprev hclash =>
    -- whatever the leader counts, its next state exists
    obtain ⟨ld', count, hsend, _⟩ := ld.sendAppendEntriesReply_outcome i
      (ld.appendArgs (ld.nextIndex i - 1) t)
      { appState := appNormal, term := ld.currentTerm, success := true } 1 h.leader.last
      (fun _ => h.known) (fun _ => hend.le)
    refine ⟨((ld', (fl.accept (ld.appendArgs (ld.nextIndex i - 1) t)).persist), some
      (ld.appendArgs (ld.nextIndex i - 1) t,
        { appState := appNormal, term := ld.currentTerm, success := true })), ?_,
      .succeeded rfl rfl (h.agrees ht hlast hprev)⟩
    unfold Raft.exchange
    rw [hhb, Exec.ok_bind]
    dsimp only
    rw [hok, Exec.ok_bind]
    dsimp only
    show (ld.sendAppendEntriesReply i _
      { appState := appNormal, term := ld.currentTerm, success := true } 1 >>= _) = _
    rw [hsend]
    rfl

/-! ### The whole search -/

/-- A round that was refused is an exchange with a refusal. -/
theorem refusedRound_eq_some {i : Fin n} {p p' : Raft n × Raft n} :
    refusedRound i p () = some p' ↔
      ∃ args reply, Raft.exchange i p = .ok (p', some (args, reply)) ∧ reply.success = false := by
  unfold refusedRound
  split
  · rename_i p₁ args reply hok
    rw [hok]
    -- a round with a success ends the search
    cases hsucc : reply.success with
    | true =>
      simp only [if_true, Except.ok.injEq, Prod.mk.injEq, Option.some.injEq]
      constructor
      · intro h
        cases h
      · rintro ⟨_, _, ⟨_, _, rfl⟩, hfail⟩
        rw [hsucc] at hfail
        cases hfail
    | false =>
      simp only [Bool.false_eq_true, if_false, Option.some.injEq]
      constructor
      · rintro rfl
        exact ⟨args, reply, rfl, hsucc⟩
      · rintro ⟨_, _, heq, _⟩
        cases heq
        rfl
  · rename_i hno
    constructor
    · intro h
      cases h
    · rintro ⟨args, reply, hok, _⟩
      exact absurd hok (hno p' args reply)

/-- A refused round keeps the two nodes related, changes nothing else of the leader and lowers
    its `m_nextIndex`. -/
theorem Backtracks.refusedRound {p p' : Raft n × Raft n} (h : Backtracks i p.1 p.2)
    (hround : Raft.refusedRound i p () = some p') :
    Backtracks i p'.1 p'.2 ∧ (∃ next, p'.1 = { p.1 with nextIndex := next }) ∧
      p'.1.nextIndex i < p.1.nextIndex i := by
  obtain ⟨args, reply, hok, hfail⟩ := refusedRound_eq_some.mp hround
  obtain ⟨r, hr, hout⟩ := h.exchange
  rw [hok] at hr
  cases hr
  cases hout with
  | refused _ hrel hsame hlower => exact ⟨hrel, hsame, hlower⟩
  | succeeded hsucc => rw [hsucc] at hfail; cases hfail

/-- **Backtracking ends and does not overshoot.**  From `m_nextIndex` one above the leader's
    last index, every state the refused rounds reach has `m_nextIndex` above the follower's
    snapshot point and at least 1, the next round does not fault, and if it is refused as well
    it lowers `m_nextIndex`; and after finitely many of them a round succeeds, with the
    follower's log agreeing with the leader's from the matching index to its end.  (As the
    follower's snapshot point lies in the leader's log, no snapshot is needed.) -/
theorem backtracking {i : Fin n} {ld fl : Raft n} (hld : ld.IndexWF) (hfl : fl.IndexWF)
    (hstatus : ld.status = .leader) (hterm : ld.currentTerm = fl.currentTerm)
    (hpoint : ld.termAt fl.lastSnapshotIncludeIndex = some fl.lastSnapshotIncludeTerm)
    (hcommand : ∀ j e e', ld.entryAt j = some e → fl.entryAt j = some e' →
      e'.logTerm = e.logTerm → e'.command = e.command)
    (hknown : ld.matchIndex i ≤ ld.getLastLogIndex)
    (hstart : ld.nextIndex i = ld.getLastLogIndex + 1) :
    (∀ p, Reach (refusedRound i) anyStep (ld, fl) p →
      p.2.lastSnapshotIncludeIndex < p.1.nextIndex i ∧ 1 ≤ p.1.nextIndex i ∧
      (∃ r, exchange i p = .ok r) ∧
      ∀ p', refusedRound i p () = some p' → p'.1.nextIndex i < p.1.nextIndex i) ∧
    ∃ p, Reach (refusedRound i) anyStep (ld, fl) p ∧
      ∃ p' args reply, exchange i p = .ok (p', some (args, reply)) ∧ reply.success = true ∧
        ld.AgreesFrom p'.2 args.prevLogIndex := by
  have hlast := hld.toLogWF.termAt_isSome.mp (by rw [hpoint]; rfl)
  have hrel : Backtracks i ld fl :=
    ⟨hld, hfl, hstatus, hterm, hpoint, hcommand, hknown, by omega, by omega⟩
  constructor
  · -- what every round keeps
    intro p hp
    have hrel' : Backtracks i p.1 p.2 :=
      hp.invariant (P := fun p => Backtracks i p.1 p.2) hrel fun _ _ _ _ h _ hs =>
        (h.refusedRound hs).1
    have hnonneg := hrel'.follower.nonneg
    have habove := hrel'.above
    obtain ⟨r, hr, _⟩ := hrel'.exchange
    exact ⟨habove, by omega, ⟨r, hr⟩, fun p' hs => (hrel'.refusedRound hs).2.2⟩
  · -- the leader's log stays as it is while its `m_nextIndex` goes down
    have hstep : ∀ p : Raft n × Raft n,
        (Backtracks i p.1 p.2 ∧ ∃ next, p.1 = { ld with nextIndex := next }) →
        (∃ p' args reply, exchange i p = .ok (p', some (args, reply)) ∧ reply.success = true ∧
          ld.AgreesFrom p'.2 args.prevLogIndex) ∨
        ∃ a p', anyStep p a ∧ refusedRound i p a = some p' ∧
          (Backtracks i p'.1 p'.2 ∧ ∃ next, p'.1 = { ld with nextIndex := next }) ∧
          (p'.1.nextIndex i).toNat < (p.1.nextIndex i).toNat := by
      rintro ⟨ld₁, fl₁⟩ ⟨h, next, hsame⟩
      obtain ⟨r, hr, hout⟩ := h.exchange
      cases hout with
      | refused hfail hrel' hsame' hlower =>
        have habove := h.above
        have hnonneg := h.follower.nonneg
        obtain ⟨next', hnext'⟩ := hsame'
        refine Or.inr ⟨(), _, trivial, refusedRound_eq_some.mpr ⟨_, _, hr, hfail⟩,
          ⟨hrel', next', ?_⟩, by dsimp only at *; omega⟩
        rw [hnext', hsame]
      | succeeded hsucc _ hagrees =>
        have hsame : ld₁ = { ld with nextIndex := next } := hsame
        subst hsame
        exact Or.inl ⟨_, _, _, hr, hsucc, hagrees⟩
    -- so `m_nextIndex` is a measure: a refused round lowers it
    obtain ⟨p, hp, _, hfinal⟩ :=
      Reach.exists_of_measure (fun p : Raft n × Raft n => (p.1.nextIndex i).toNat) hstep
        (s := (ld, fl)) ⟨hrel, ld.nextIndex, rfl⟩
    exact ⟨p, hp, hfinal⟩

end round

/-! ### A conflict two entries deep -/

omit [RaftArchive]

/-- A new leader of term 3 with an entry of each earlier term. -/
def searching (me : Fin n) : Raft n :=
  { fresh me {} with
    currentTerm := 3
    status := .leader
    logs := [⟨"f", 1, 1⟩, ⟨"x", 2, 2⟩]
    nextIndex := fun _ => 3 }

/-- Its follower with three entries of term 1. -/
def conflicting (me : Fin n) : Raft n :=
  { fresh me {} with
    currentTerm := 3
    logs := [⟨"f", 1, 1⟩, ⟨"g", 1, 2⟩, ⟨"h", 1, 3⟩] }

/-- The indices of this node are in order. -/
theorem searching_indexWF (me : Fin n) : (searching me).IndexWF where
  nonneg := le_rfl
  contiguous := contiguous_cons.mpr ⟨rfl, contiguous_cons.mpr ⟨rfl, contiguous_nil _⟩⟩
  zero := fun _ => rfl
  applied := le_rfl
  committed := le_rfl
  last := by show (0 : Int) ≤ 2; decide

/-- So are the indices of this one. -/
theorem conflicting_indexWF (me : Fin n) : (conflicting me).IndexWF where
  nonneg := le_rfl
  contiguous := contiguous_cons.mpr ⟨rfl, contiguous_cons.mpr ⟨rfl, contiguous_cons.mpr
    ⟨rfl, contiguous_nil _⟩⟩⟩
  zero := fun _ => rfl
  applied := le_rfl
  committed := le_rfl
  last := by show (0 : Int) ≤ 3; decide

/-- The first request is refused, as the terms at index 2 differ, and a later one succeeds. -/
theorem backtracking_conflicting :
    letI := textRaftArchive
    (refusedRound 1 (searching (0 : Fin 3), conflicting 1) ()).isSome = true ∧
    ∃ p, Reach (refusedRound 1) anyStep (searching (0 : Fin 3), conflicting 1) p ∧
      ∃ p' args reply, exchange 1 p = .ok (p', some (args, reply)) ∧ reply.success = true ∧
        (searching (0 : Fin 3)).AgreesFrom p'.2 args.prevLogIndex := by
  let := textRaftArchive
  refine ⟨by decide, ?_⟩
  refine (backtracking (i := (1 : Fin 3)) (searching_indexWF (0 : Fin 3)) (conflicting_indexWF 1)
    rfl rfl rfl ?_ (by decide) rfl).2
  intro j e e' he he' hterm
  obtain ⟨h₁, h₂⟩ := (searching_indexWF (0 : Fin 3)).toLogWF.entryAt_bounds he
  -- only index 1 holds entries of one term in both logs
  have h₁ : 0 < j := h₁
  have h₂ : j ≤ 2 := h₂
  obtain rfl | rfl : j = 1 ∨ j = 2 := by omega
  · cases he
    cases he'
    rfl
  · cases he
    cases he'
    cases hterm

end Raft

end RaftStore
