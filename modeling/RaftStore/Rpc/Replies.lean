import RaftStore.Model.RpcChannel
import RaftStore.Rpc.Framing

namespace RaftStore

/-!
# Replies

`CallMethod` calls `recv` once and parses what it gets, so a reply comes through exactly if it comes
in one piece.

* `RaftRpcProctoc.lawful_installSnapshotResponse` — a message with a lawful codec.
* `MprpcChannel.transfers_avoid` — bytes that are not there are not received later.
* `MprpcChannel.integrity_iff` — exactly when a single caller gets its reply or an error and leaves
  nothing for later calls, and when it does not return.
-/

/-! ### A message -/

namespace RaftRpcProctoc.InstallSnapshotResponse

variable [Protobuf] {m m' : InstallSnapshotResponse} {fuel : ℕ} {input : Bytes}

/-- At the end of the bytes the reply is complete. -/
theorem parseLoop_nil (fuel : ℕ) (m : InstallSnapshotResponse) : parseLoop fuel m [] = some m := by
  cases fuel <;> rfl

/-- The round trip. -/
theorem parse_asString (m : InstallSnapshotResponse) :
    parseLoop m.asString.length {} m.asString = some m := by
  obtain ⟨n⟩ := m
  rw [asString]
  by_cases hn : n = 0
  · rw [if_pos hn, hn]
    rfl
  · rw [if_neg hn]
    have hread := readVarint_writeVarint (k := 9) (j := 10) (n := n.toInt64.toUInt64.toNat)
      (by have hlt := n.toInt64.toUInt64.toNat_lt; omega) (by omega) []
    rw [List.append_nil] at hread
    rw [List.length_cons, parseLoop, RpcHeader.readTag 8 (by decide), Option.bind_eq_bind,
      Option.bind_some]
    dsimp only
    rw [if_pos (by decide), hread, Option.bind_eq_bind, Option.bind_some]
    dsimp only
    rw [parseLoop_nil]
    simp

/-- What ends earlier is empty, or ends inside the varint. -/
theorem parse_take (m : InstallSnapshotResponse) {k : ℕ} (hk : k < m.asString.length) :
    parseLoop (m.asString.take k).length {} (m.asString.take k) ≠ some m := by
  obtain ⟨n⟩ := m
  rw [asString] at hk ⊢
  by_cases hn : n = 0
  · rw [if_pos hn] at hk
    cases hk
  · rw [if_neg hn] at hk ⊢
    cases k with
    | zero =>
      intro h
      have hzero := congrArg term (Option.some.inj h)
      exact hn hzero.symm
    | succ k =>
      have hread := readVarint_take (k := 9) (n := n.toInt64.toUInt64.toNat) (i := k) 10
        (by simpa using hk)
      rw [List.take_succ_cons, List.length_cons, parseLoop, RpcHeader.readTag 8 (by decide),
        Option.bind_eq_bind, Option.bind_some]
      dsimp only
      rw [if_pos (by decide), hread]
      simp

end RaftRpcProctoc.InstallSnapshotResponse

/-- The reply to a snapshot is one that the channel can carry. -/
theorem RaftRpcProctoc.lawful_installSnapshotResponse [Protobuf] :
    LawfulMessage RaftRpcProctoc.InstallSnapshotResponse where
  parse_serialize m bytes h := by
    rw [← Option.some.inj h]
    exact InstallSnapshotResponse.parse_asString m
  parse_take m bytes k h hk := by
    obtain rfl := Option.some.inj h
    exact InstallSnapshotResponse.parse_take m hk

/-! ### One caller -/

namespace MprpcChannel

variable {ch ch' : MprpcChannel} {call c : ℕ} {env : CallEnv}

/-- The channel when `recv` is called. -/
def atRecv (ch : MprpcChannel) (env : CallEnv) : MprpcChannel :=
  ((if ch.connected then ch else { connected := env.connect }).sendLoop env.resends).1

/-- The call gets as far as `recv`: it has a connection, and every connection after a failing `send`
    succeeds. -/
def Reaches (ch : MprpcChannel) (env : CallEnv) : Prop :=
  (ch.connected = true ∨ env.connect = true) ∧ ∀ connect ∈ env.resends, connect = true

/-- The loop around `send` ends with a connection exactly if every reconnection succeeds. -/
theorem sendLoop_snd (ch : MprpcChannel) (resends : List Bool) :
    (ch.sendLoop resends).2 = true ↔ ∀ connect ∈ resends, connect = true := by
  induction resends generalizing ch with
  | nil => simp [sendLoop]
  | cons connect resends ih =>
    cases connect with
    | true => simp [sendLoop, ih]
    | false => simp [sendLoop]

/-- A new connection has nothing to receive. -/
theorem sendLoop_incoming (ch : MprpcChannel) (resends : List Bool) :
    (ch.sendLoop resends).1.incoming = ch.incoming ∨ (ch.sendLoop resends).1.incoming = [] := by
  induction resends generalizing ch with
  | nil => exact Or.inl rfl
  | cons connect resends ih =>
    cases connect with
    | true => exact Or.inr (by simpa [sendLoop] using ih { connected := true })
    | false => exact Or.inr rfl

/-- The channel stays connected while every new connection is made. -/
theorem sendLoop_connected (ch : MprpcChannel) {resends : List Bool} (h : ch.connected = true)
    (hall : ∀ connect ∈ resends, connect = true) : (ch.sendLoop resends).1.connected = true := by
  induction resends generalizing ch with
  | nil => exact h
  | cons connect resends ih =>
    obtain rfl := hall connect (List.mem_cons_self ..)
    exact ih { connected := true } rfl fun c hc => hall c (List.mem_cons_of_mem _ hc)

/-- The channel that `send` is called on. -/
def atSend (ch : MprpcChannel) (env : CallEnv) : MprpcChannel :=
  if ch.connected then ch else { connected := env.connect }

/-- The channel is connected before `send` iff it was or the connection is made. -/
theorem atSend_connected : (ch.atSend env).connected = true ↔
    ch.connected = true ∨ env.connect = true := by
  rw [atSend]
  split
  · rename_i h
    simp [h]
  · rename_i h
    simp [h]

/-- A new connection has nothing to read. -/
theorem atSend_incoming (ch : MprpcChannel) (env : CallEnv) :
    (ch.atSend env).incoming = ch.incoming ∨ (ch.atSend env).incoming = [] := by
  rw [atSend]
  split
  · exact Or.inl rfl
  · exact Or.inr rfl

/-- A new connection has nothing to read. -/
theorem atRecv_incoming (ch : MprpcChannel) (env : CallEnv) :
    (ch.atRecv env).incoming = ch.incoming ∨ (ch.atRecv env).incoming = [] := by
  rcases sendLoop_incoming (ch.atSend env) env.resends with h | h
  · rcases ch.atSend_incoming env with h' | h'
    · exact Or.inl (h.trans h')
    · exact Or.inr (h.trans h')
  · exact Or.inr h

/-- **Spec of a call up to the parsing.**  It fails before `recv`, or goes on with `recv`. -/
theorem transfer_eq (ch : MprpcChannel) (call : ℕ) (env : CallEnv) :
    (ch.Reaches env ∧ (ch.atRecv env).connected = true ∧
      ch.transfer call env = (ch.atRecv env).receive call env) ∨
    (¬ ch.Reaches env ∧ ∃ ch', ch.transfer call env = some (none, ch') ∧
      (ch'.incoming = ch.incoming ∨ ch'.incoming = [])) := by
  have htransfer : ch.transfer call env =
      if (ch.atSend env).connected then
        if ((ch.atSend env).sendLoop env.resends).2 then (ch.atRecv env).receive call env
        else some (none, ch.atRecv env)
      else some (none, ch.atSend env) := rfl
  by_cases hsend : (ch.atSend env).connected = true
  · rw [if_pos hsend] at htransfer
    by_cases hall : ∀ connect ∈ env.resends, connect = true
    · rw [if_pos ((sendLoop_snd _ _).mpr hall)] at htransfer
      exact Or.inl ⟨⟨atSend_connected.mp hsend, hall⟩, sendLoop_connected _ hsend hall, htransfer⟩
    · rw [if_neg (mt (sendLoop_snd _ _).mp hall)] at htransfer
      exact Or.inr ⟨fun h => hall h.2, _, htransfer, ch.atRecv_incoming env⟩
  · rw [if_neg hsend] at htransfer
    exact Or.inr ⟨fun h => hsend (atSend_connected.mpr h.1), _, htransfer, ch.atSend_incoming env⟩

/-- What `recv` returns and what it leaves is what was there and the new response. -/
theorem receive_incoming {received : Option (List (ℕ × UInt8))}
    (h : ch.receive call env = some (received, ch')) :
    ∀ b ∈ received.getD [] ++ ch'.incoming, b ∈ ch.incoming ∨ b.1 = call := by
  rw [receive] at h
  split at h
  · obtain ⟨rfl, rfl⟩ := Prod.mk.inj (Option.some.inj h)
    intro b hb
    cases hb
  · rename_i k hrecv
    dsimp only at h
    split at h
    · obtain ⟨rfl, rfl⟩ := Prod.mk.inj (Option.some.inj h)
      intro b hb
      rw [Option.getD_some, List.take_append_drop, List.mem_append] at hb
      rcases hb with hb | hb
      · exact Or.inl hb
      · obtain ⟨byte, _, rfl⟩ := List.mem_map.mp hb
        exact Or.inr rfl
    · cases h

/-- **Step lemma.**  So is what a call receives and leaves. -/
theorem transfer_incoming {received : Option (List (ℕ × UInt8))}
    (h : ch.transfer call env = some (received, ch')) :
    ∀ b ∈ received.getD [] ++ ch'.incoming, b ∈ ch.incoming ∨ b.1 = call := by
  intro b hb
  rcases ch.transfer_eq call env with ⟨_, _, heq⟩ | ⟨_, ch₁, heq, hincoming⟩
  · rw [heq] at h
    rcases receive_incoming h b hb with hb | hb
    · rcases ch.atRecv_incoming env with hincoming | hincoming
      · exact Or.inl (hincoming ▸ hb)
      · rw [hincoming] at hb
        cases hb
    · exact Or.inr hb
  · rw [heq] at h
    obtain ⟨rfl, rfl⟩ := Prod.mk.inj (Option.some.inj h)
    rw [Option.getD_none, List.nil_append] at hb
    rcases hincoming with hincoming | hincoming
    · exact Or.inl (hincoming ▸ hb)
    · rw [hincoming] at hb
      cases hb

/-- **Run lemma.**  Bytes of a call that are not there when it has ended are not received later. -/
theorem transfers_avoid {envs : List CallEnv} {reads : List (ℕ × UInt8)}
    (hch : ∀ b ∈ ch.incoming, b.1 ≠ c) (hc : c < call)
    (h : ch.transfers call envs = some reads) : ∀ b ∈ reads, b.1 ≠ c := by
  induction envs generalizing ch call reads with
  | nil =>
    rw [← Option.some.inj h]
    intro b hb
    cases hb
  | cons env envs ih =>
    obtain ⟨⟨received, ch'⟩, htransfer, h⟩ := Option.bind_eq_some_iff.mp h
    obtain ⟨rest, hrest, h⟩ := Option.bind_eq_some_iff.mp h
    rw [← Option.some.inj h]
    have hnew : ∀ b ∈ received.getD [] ++ ch'.incoming, b.1 ≠ c := by
      intro b hb heq
      rcases transfer_incoming htransfer b hb with hb | hb
      · exact hch b hb heq
      · omega
    intro b hb
    rcases List.mem_append.mp hb with hb | hb
    · exact hnew b (List.mem_append_left _ hb)
    · exact ih (fun b hb => hnew b (List.mem_append_right _ hb)) (by omega) hrest b hb

/-- What is left for `recv` on a connection is received by a later call. -/
theorem exists_transfers {b : ℕ × UInt8} {rest : List (ℕ × UInt8)} (hconn : ch.connected = true)
    (hincoming : ch.incoming = b :: rest) (call : ℕ) :
    ∃ envs reads, ch.transfers call envs = some reads ∧ b ∈ reads := by
  refine ⟨[{ wire := [], recv := .size 1 }], [b], ?_, List.mem_singleton_self b⟩
  simp [transfers, transfer, hconn, sendLoop, receive, hincoming]

/-- What arrives of a response is a part from its front. -/
theorem arriving_eq_take (ch : MprpcChannel) (env : CallEnv) :
    ch.arriving env = env.wire.take (ch.arriving env).length := by
  rw [arriving]
  split
  · rfl
  · split
    · rw [List.take_length]
    · rename_i j _
      rw [List.length_take, List.take_eq_take_iff]
      omega

/-- At most the reply arrives. -/
theorem length_arriving_le (ch : MprpcChannel) (env : CallEnv) :
    (ch.arriving env).length ≤ env.wire.length := by
  have hlen := congrArg List.length (ch.arriving_eq_take env)
  rw [List.length_take] at hlen
  omega

variable {M : Type} [Message M]

/-- The outcome of a call is right: it has failed or holds the message, and no later call on the
    channel receives a byte of this response. -/
def Integrity (ch' : MprpcChannel) (call : ℕ) (m : M) (response : Option M) : Prop :=
  (response = none ∨ response = some m) ∧
    ∀ envs reads, ch'.transfers (call + 1) envs = some reads → ∀ b ∈ reads, b.1 ≠ call

/-- The text of the parse error does not fit: `recv` fills its buffer with bytes other than 0 that
    cannot be parsed. -/
def Overflows (M : Type) [Message M] (ch : MprpcChannel) (env : CallEnv) : Prop :=
  ch.Reaches env ∧ env.recv = .size 1024 ∧ 0 ∉ env.wire.take 1024 ∧
    (Message.parseFromArray (env.wire.take 1024) : Option M) = none

/-- The condition: if `recv` is called and returns without an error, it returns the whole response,
    or all that the peer sent before it closed the connection, and this cannot be parsed. -/
def ArrivesWhole (M : Type) [Message M] (ch : MprpcChannel) (env : CallEnv) : Prop :=
  ch.Reaches env → ∀ k, env.recv = .size k →
    k = env.wire.length ∨
      (k = ((ch.atRecv env).arriving env).length ∧
        (Message.parseFromArray ((ch.atRecv env).arriving env) : Option M) = none)

/-- **Spec of `recv` on a channel without leftovers.** -/
theorem receive_fresh {k : ℕ} {received : Option (List (ℕ × UInt8))} (hempty : ch.incoming = [])
    (hrecv : env.recv = .size k) (h : ch.receive call env = some (received, ch')) :
    k ≤ (ch.arriving env).length ∧ received = some ((env.wire.take k).map (call, ·)) ∧
      ch'.connected = ch.connected ∧ ch'.incoming = ((ch.arriving env).drop k).map (call, ·) := by
  rw [receive, hrecv] at h
  dsimp only at h
  rw [hempty, List.nil_append] at h
  split at h
  · rename_i hk
    obtain ⟨rfl, rfl⟩ := Prod.mk.inj (Option.some.inj h)
    have hle : k ≤ (ch.arriving env).length := by simpa using hk.2.1
    refine ⟨hle, ?_, rfl, by rw [List.map_drop]⟩
    rw [← List.map_take, ch.arriving_eq_take env, List.take_take, Nat.min_eq_left hle]
  · cases h

/-- `recv_buf` has room for 1024 bytes. -/
theorem length_le_of_receive {k : ℕ} {received : Option (List (ℕ × UInt8))}
    (hrecv : env.recv = .size k) (h : ch.receive call env = some (received, ch')) : k ≤ 1024 := by
  rw [receive, hrecv] at h
  dsimp only at h
  split at h
  · rename_i hk
    exact hk.1
  · cases h

/-- If no later call receives a byte of the reply, `recv` has returned all that had arrived. -/
theorem eq_length_of_avoid {arrived : Bytes} {k : ℕ} (hle : k ≤ arrived.length)
    (hconn : ch.connected = true) (hleft : ch.incoming = (arrived.drop k).map (call, ·))
    (hlater : ∀ envs reads, ch.transfers (call + 1) envs = some reads → ∀ b ∈ reads, b.1 ≠ call) :
    k = arrived.length := by
  by_contra hne
  obtain ⟨b, rest, hb⟩ : ∃ b rest, arrived.drop k = b :: rest :=
    List.exists_cons_of_ne_nil (by
      rw [ne_eq, List.drop_eq_nil_iff]
      omega)
  rw [hb, List.map_cons] at hleft
  obtain ⟨envs, reads, hreads, hmem⟩ := exists_transfers hconn hleft (call + 1)
  exact hlater envs reads hreads _ hmem rfl

omit [Message M] in
/-- A parse error ends in `SetFailed`, or in an overflow. -/
theorem ofParse_eq_overflow_iff {parsed : Option M} {bytes : Bytes} :
    CallEnd.ofParse parsed bytes = .overflow ↔
      parsed = none ∧ 1024 ≤ bytes.length ∧ 0 ∉ bytes := by
  cases parsed with
  | some response => simp [CallEnd.ofParse]
  | none => simp [CallEnd.ofParse, fitsErrtxt]

omit [Message M] in
/-- A call that returns holds what was parsed. -/
theorem eq_of_ofParse {parsed response : Option M} {bytes : Bytes}
    (h : CallEnd.ofParse parsed bytes = .returned response) : parsed = response := by
  cases parsed with
  | some m => exact CallEnd.returned.inj h
  | none =>
    rw [CallEnd.ofParse] at h
    split at h
    · exact CallEnd.returned.inj h
    · cases h

omit [Message M] in
/-- A call that fails and leaves nothing ends as it should. -/
theorem integrity_failed (hempty : ch'.incoming = []) {m : M} : Integrity ch' call m none :=
  ⟨Or.inl rfl, fun _ _ hreads => transfers_avoid (by simp [hempty]) (Nat.lt_succ_self call) hreads⟩

/-- **Spec of a call whose `recv` returns**, on a channel without leftovers. -/
theorem integrity_received_iff [LawfulMessage M] {k : ℕ} {m : M}
    (hm : Message.serializeToString m = some env.wire) (hconn : ch'.connected = true)
    {arrived : Bytes} (harrived : arrived = env.wire.take arrived.length)
    (hlen : arrived.length ≤ env.wire.length) (hle : k ≤ arrived.length)
    (hleft : ch'.incoming = (arrived.drop k).map (call, ·)) :
    Integrity ch' call m (Message.parseFromArray (env.wire.take k)) ↔
      k = env.wire.length ∨
        (k = arrived.length ∧ (Message.parseFromArray arrived : Option M) = none) := by
  have hnone : k = arrived.length → ∀ envs reads,
      ch'.transfers (call + 1) envs = some reads → ∀ b ∈ reads, b.1 ≠ call := by
    intro hall envs reads hreads
    refine transfers_avoid (fun b hb => ?_) (Nat.lt_succ_self call) hreads
    rw [hleft, hall, List.drop_length] at hb
    cases hb
  constructor
  · rintro ⟨hresponse, hlater⟩
    by_cases hwhole : k = env.wire.length
    · exact Or.inl hwhole
    · -- a byte that is left is received by a later call
      have hall := eq_length_of_avoid hle hconn hleft hlater
      refine Or.inr ⟨hall, ?_⟩
      rw [harrived, ← hall]
      rcases hresponse with hfailed | hsome
      · exact hfailed
      · exact absurd hsome (LawfulMessage.parse_take m _ k hm (by omega))
  · rintro (hwhole | ⟨hall, hfailed⟩)
    · refine ⟨Or.inr ?_, hnone (by omega)⟩
      rw [hwhole, List.take_length]
      exact LawfulMessage.parse_serialize m _ hm
    · -- all that arrived was received and it does not parse: the call fails
      refine ⟨Or.inl ?_, hnone hall⟩
      rw [harrived, ← hall] at hfailed
      exact hfailed

/-- **Reply integrity.**  A call on a channel without leftovers overruns `errtxt` if and only if
    `recv` fills its buffer with bytes other than 0 that cannot be parsed; and a call that returns
    ends as it should if and only if its response arrives whole. -/
theorem integrity_iff [LawfulMessage M] (hempty : ch.incoming = []) {m : M}
    (hm : Message.serializeToString m = some env.wire) {ending : CallEnd M}
    (h : ch.callMethod M call env = some (ending, ch')) :
    (ending = .overflow ↔ ch.Overflows M env) ∧
      ∀ response, ending = .returned response →
        (Integrity ch' call m response ↔ ch.ArrivesWhole M env) := by
  obtain ⟨⟨received, ch₁⟩, htransfer, heq⟩ := Option.map_eq_some_iff.mp h
  obtain ⟨rfl, rfl⟩ := Prod.mk.inj heq
  rcases ch.transfer_eq call env with ⟨hreach, hconn, hrun⟩ | ⟨hreach, ch₂, hrun, hincoming⟩
  -- the call gets as far as `recv`, or it fails before
  · have hempty' : (ch.atRecv env).incoming = [] := by
      rcases ch.atRecv_incoming env with h | h
      · exact h.trans hempty
      · exact h
    rw [hrun] at htransfer
    cases hrecv : env.recv with
    | error =>
      rw [receive, hrecv] at htransfer
      obtain ⟨rfl, rfl⟩ := Prod.mk.inj (Option.some.inj htransfer)
      refine ⟨iff_of_false (fun h => by cases h) fun h => ?_, fun response hresponse => ?_⟩
      · rw [h.2.1] at hrecv
        cases hrecv
      · obtain rfl := CallEnd.returned.inj hresponse
        exact iff_of_true (integrity_failed rfl) fun _ k hk => by rw [hrecv] at hk; cases hk
    | size k =>
      obtain ⟨hle, rfl, hconn', hleft⟩ := receive_fresh hempty' hrecv htransfer
      have hbytes : ((env.wire.take k).map ((call, ·) : UInt8 → ℕ × UInt8)).map Prod.snd =
          env.wire.take k := by simp [Function.comp_def]
      have hlen := (ch.atRecv env).length_arriving_le env
      rw [CallEnd.ofReceived, hbytes]
      refine ⟨?_, fun response hresponse => ?_⟩
      · have hmax : k ≤ 1024 := length_le_of_receive hrecv htransfer
        rw [ofParse_eq_overflow_iff, List.length_take, Nat.min_eq_left (by omega), Overflows, hrecv]
        constructor
        · rintro ⟨hparse, hfull, hzero⟩
          obtain rfl : k = 1024 := by omega
          exact ⟨hreach, rfl, hzero, hparse⟩
        · rintro ⟨-, hfull, hzero, hparse⟩
          obtain rfl := Recv.size.inj hfull
          exact ⟨hparse, Nat.le_refl 1024, hzero⟩
      · obtain rfl := eq_of_ofParse hresponse
        rw [integrity_received_iff hm (hconn'.trans hconn) ((ch.atRecv env).arriving_eq_take env)
          hlen hle hleft]
        constructor
        · intro hcond _ k' hk'
          obtain rfl : k = k' := Recv.size.inj (hrecv.symm.trans hk')
          exact hcond
        · exact fun hcond => hcond hreach k hrecv
  · rw [hrun] at htransfer
    obtain ⟨rfl, rfl⟩ := Prod.mk.inj (Option.some.inj htransfer)
    refine ⟨iff_of_false (fun h => by cases h) fun h => hreach h.1, fun response hresponse => ?_⟩
    obtain rfl := CallEnd.returned.inj hresponse
    refine iff_of_true (integrity_failed ?_) fun hreach' => absurd hreach' hreach
    rcases hincoming with h | h
    · exact h.trans hempty
    · exact h

/-! ### Runs -/

/-- The reply of a follower in term 300. -/
def term300 : RaftRpcProctoc.InstallSnapshotResponse where
  term := 300

/-- A first call whose reply is that of the follower. -/
def term300Env (closesAfter : Option ℕ) (k : ℕ) : CallEnv where
  wire := [8, 172, 2]
  closesAfter
  recv := .size k

/-- The reply arrives in one piece. -/
theorem integrity_iff_onePiece :
    letI := wireProtobuf
    ∃ ch', callMethod RaftRpcProctoc.InstallSnapshotResponse {} 0 (term300Env none 3) =
        some (.returned (some term300), ch') ∧ Integrity ch' 0 term300 (some term300) := by
  let := wireProtobuf
  have := RaftRpcProctoc.lawful_installSnapshotResponse
  have hrun : (callMethod RaftRpcProctoc.InstallSnapshotResponse {} 0 (term300Env none 3)).map
      Prod.fst = some (.returned (some term300)) := by
    decide
  obtain ⟨⟨ending, ch'⟩, hcall, rfl⟩ := Option.map_eq_some_iff.mp hrun
  refine ⟨ch', hcall, ((integrity_iff rfl ?_ hcall).2 _ rfl).mpr fun _ k hk => Or.inl ?_⟩
  · decide
  · rw [← Recv.size.inj hk]
    rfl

/-- The peer closes the connection before it replies: the caller takes the empty string for a reply
    of term 0. -/
theorem close_looks_like_reply :
    letI := wireProtobuf
    Message.serializeToString term300 = some (term300Env (some 0) 0).wire ∧
      ∃ ch', callMethod RaftRpcProctoc.InstallSnapshotResponse {} 0 (term300Env (some 0) 0) =
          some (.returned (some { term := 0 }), ch') ∧
        ¬ Integrity ch' 0 term300 (some { term := 0 }) := by
  let := wireProtobuf
  refine ⟨by decide, ?_⟩
  have hrun : (callMethod RaftRpcProctoc.InstallSnapshotResponse {} 0
      (term300Env (some 0) 0)).map Prod.fst = some (.returned (some { term := 0 })) := by
    decide
  obtain ⟨⟨ending, ch'⟩, hcall, rfl⟩ := Option.map_eq_some_iff.mp hrun
  refine ⟨ch', hcall, fun h => ?_⟩
  have hresponse := h.1
  revert hresponse
  decide

end MprpcChannel

end RaftStore
