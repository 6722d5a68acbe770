import RaftStore.Model.RemoteCall
import RaftStore.Rpc.Messages
import RaftStore.Rpc.Replies

namespace RaftStore

/-!
# Remote calls are calls

A caller on a channel of its own sees of its calls what it would see of local ones, up to failures:
in their order, each runs once or not at all, and a response is that of the run.

* `RemoteCall.Whole` — a request that arrives as one chunk, and a reply that is received in one
  piece.
* `RemoteCall.Called`, `RemoteCall.CalledAll` — what a call, and a sequence of calls, may do.
* `RemoteCall.called_of_callMethod` — one call.
* `RemoteCall.calledAll` — **at most once, in order, with the right response**.
-/

variable [Protobuf] {S : Type} {h : Handlers S}

/-! ### The server -/

namespace RpcProvider

omit [Protobuf] in
/-- A method is found by its name and that of its service. -/
theorem findMethod_name (method : RpcMethod) (args : Bytes) :
    findMethod { serviceName := method.service.name, methodName := method.name, args } =
      some method := by
  cases method <;> rfl

/-- The provider of a server knows all methods. -/
theorem serves_ofKvServer (method : RpcMethod) (args : Bytes) :
    ofKvServer.serves { serviceName := method.service.name, methodName := method.name, args } =
      (method.request.parseFromString args).isSome := by
  cases method <;> rfl

/-- A request in one chunk is handled once. -/
theorem serve_frame {c : RemoteCall} {frame : Bytes} (hframe : c.frame = some frame)
    (hlen : frame.length < 2 ^ 31) (s : S) :
    ofKvServer.serve h s [frame] =
      ((c.method.response.serializeToString (h c.method c.request s).1).getD [],
        (h c.method c.request s).2) := by
  obtain ⟨args, hargs, hcall⟩ := Option.bind_eq_some_iff.mp hframe
  have hparse : c.method.request.parseFromString args = some c.request :=
    (c.method.request.lawfulMessage).parse_serialize c.request args hargs
  have hserves := serves_ofKvServer c.method args
  rw [hparse, Option.isSome_some] at hserves
  have hdeliver : ofKvServer.deliver [] [frame] =
      [{ serviceName := c.method.service.name, methodName := c.method.name, args }] := by
    rw [deliver_cons, onMessage_callFrame hcall hlen, if_pos hserves]
    rfl
  rw [serve, hdeliver]
  show ([] ++ (callService h _ s).1, (callService h _ s).2) = _
  rw [callService, findMethod_name]
  dsimp only
  rw [hparse]
  rfl

end RpcProvider

/-! ### One call -/

namespace RemoteCall

/-- The request arrives as one chunk, and `recv` fails or returns the whole reply; it does not return
    0, as it does when the peer has closed the connection. -/
structure Whole (c : RemoteCall) : Prop where
  request : ∀ frame, c.frame = some frame → c.chunks = [frame] ∧ frame.length < 2 ^ 31
  reply : ∀ k, c.env.recv = .size k → 0 < k ∧ k = c.env.wire.length

/-- What a call may do: nothing, if it has failed before; run once without a response, if `recv`
    fails; run once and return the response. -/
inductive Called (h : Handlers S) (s : S) (c : RemoteCall) :
    Option c.method.response.Data → S → Prop
  | failed (hfailed : c.frame = none ∨ c.env.connect = false ∨ false ∈ c.env.resends) :
      Called h s c none s
  | lost (hlost : c.env.recv = .error) : Called h s c none (h c.method c.request s).2
  | answered : Called h s c (some (h c.method c.request s).1) (h c.method c.request s).2

/-- A sequence of calls. -/
inductive CalledAll (h : Handlers S) :
    S → List RemoteCall → List (Σ method : RpcMethod, Option method.response.Data) → S → Prop
  | nil (s : S) : CalledAll h s [] [] s
  | cons {s s₁ s₂ : S} {c : RemoteCall} {calls : List RemoteCall}
      {response : Option c.method.response.Data}
      {responses : List (Σ method : RpcMethod, Option method.response.Data)}
      (first : Called h s c response s₁) (rest : CalledAll h s₁ calls responses s₂) :
      CalledAll h s (c :: calls) (⟨c.method, response⟩ :: responses) s₂

variable {ch ch' : MprpcChannel} {s s' : S} {n : ℕ} {c : RemoteCall}

/-- **Spec of `recv`** behind a request that has run. -/
theorem called_of_receive (hwhole : c.Whole) (hempty : ch.incoming = [])
    {received : Option (List (ℕ × UInt8))}
    (hwire : c.env.wire = (c.method.response.serializeToString (h c.method c.request s).1).getD [])
    (hrecv : ch.receive n c.env = some (received, ch')) :
    ∃ response, CallEnd.ofReceived c.method.response.parseFromString received =
        .returned response ∧
      Called h s c response (h c.method c.request s).2 ∧ ch'.incoming = [] := by
  cases hres : c.env.recv with
  | error =>
    rw [MprpcChannel.receive, hres] at hrecv
    obtain ⟨rfl, rfl⟩ := Prod.mk.inj (Option.some.inj hrecv)
    exact ⟨none, rfl, .lost hres, rfl⟩
  | size k =>
    obtain ⟨hpos, hk⟩ := hwhole.reply k hres
    obtain ⟨hle, rfl, _, hleft⟩ := MprpcChannel.receive_fresh hempty hres hrecv
    have harrived := ch.length_arriving_le c.env
    have hbytes : ((c.env.wire.take k).map ((n, ·) : UInt8 → ℕ × UInt8)).map Prod.snd =
        c.env.wire := by
      rw [hk, List.take_length]
      simp [Function.comp_def]
    refine ⟨some (h c.method c.request s).1, ?_, .answered, ?_⟩
    · rw [CallEnd.ofReceived, hbytes]
      cases hstr : c.method.response.serializeToString (h c.method c.request s).1 with
      | none =>
        -- nothing was sent, but something was received
        rw [hwire, hstr] at hk
        exact absurd hk (Nat.ne_of_gt hpos)
      | some str =>
        rw [hwire, hstr, Option.getD_some,
          show c.method.response.parseFromString str = some (h c.method c.request s).1 from
            (c.method.response.lawfulMessage).parse_serialize _ str hstr]
        rfl
    · rw [hleft, List.drop_eq_nil_iff.mpr (by omega)]
      rfl

/-- A call that gets as far as `recv`. -/
theorem callMethod_reached (frame : Bytes) (hframe : c.frame = some frame)
    (hlen : frame.length < 2 ^ 31) (hchunks : c.chunks = [frame]) (hreach : ch.Reaches c.env)
    (hwire : c.env.wire = (c.method.response.serializeToString (h c.method c.request s).1).getD []) :
    c.callMethod .ofKvServer h ch s n =
      ((ch.atRecv c.env).receive n c.env).map fun (received, ch) =>
        (.ofReceived c.method.response.parseFromString received, ch,
          (h c.method c.request s).2) := by
  have hatSend : (if ch.connected = true then ch else { connected := c.env.connect }) =
      ch.atSend c.env := rfl
  have hsent := (MprpcChannel.sendLoop_snd (ch.atSend c.env) c.env.resends).mpr hreach.2
  rw [callMethod]
  dsimp only
  rw [hatSend, if_pos (MprpcChannel.atSend_connected.mpr hreach.1), hframe]
  dsimp only
  rw [if_pos hsent, hchunks, RpcProvider.serve_frame hframe hlen,
    if_pos ⟨List.flatten_singleton .., hwire⟩]
  rfl

/-- **Step lemma.**  A call on a channel without leftovers is one of the calls that may be, and
    leaves nothing behind. -/
theorem called_of_callMethod (hwhole : c.Whole) (hempty : ch.incoming = [])
    {ending : CallEnd c.method.response.Data}
    (hcall : c.callMethod .ofKvServer h ch s n = some (ending, ch', s')) :
    ∃ response, ending = .returned response ∧ Called h s c response s' ∧ ch'.incoming = [] := by
  have hopen : (ch.atSend c.env).incoming = [] := by
    rcases ch.atSend_incoming c.env with heq | heq
    · exact heq.trans hempty
    · exact heq
  have hloop : ((ch.atSend c.env).sendLoop c.env.resends).1.incoming = [] := by
    rcases MprpcChannel.sendLoop_incoming (ch.atSend c.env) c.env.resends with heq | heq
    · exact heq.trans hopen
    · exact heq
  have hsent := MprpcChannel.sendLoop_snd (ch.atSend c.env) c.env.resends
  have hatSend : (if ch.connected = true then ch else { connected := c.env.connect }) =
      ch.atSend c.env := rfl
  rw [callMethod] at hcall
  dsimp only at hcall
  rw [hatSend] at hcall
  split at hcall
  · split at hcall
    · -- the request cannot be serialised
      rename_i hframe
      simp only [Option.some.injEq, Prod.mk.injEq] at hcall
      obtain ⟨rfl, rfl, rfl⟩ := hcall
      exact ⟨none, rfl, .failed (Or.inl hframe), hopen⟩
    · rename_i frame hframe
      obtain ⟨hchunks, hlen⟩ := hwhole.request frame hframe
      split at hcall
      · rw [hchunks, RpcProvider.serve_frame hframe hlen] at hcall
        split at hcall
        · rename_i hwire
          obtain ⟨⟨received, ch₁⟩, hrecv, heq⟩ := Option.map_eq_some_iff.mp hcall
          simp only [Prod.mk.injEq] at heq
          obtain ⟨rfl, rfl, rfl⟩ := heq
          exact called_of_receive hwhole hloop hwire.2 hrecv
        · cases hcall
      · -- `send` fails, and so does a new connection
        rename_i hfail
        simp only [Option.some.injEq, Prod.mk.injEq] at hcall
        obtain ⟨rfl, rfl, rfl⟩ := hcall
        rw [hsent] at hfail
        refine ⟨none, rfl, .failed (Or.inr (Or.inr ?_)), hloop⟩
        simpa using hfail
  · -- there is no connection
    rename_i hconn
    simp only [Option.some.injEq, Prod.mk.injEq] at hcall
    obtain ⟨rfl, rfl, rfl⟩ := hcall
    refine ⟨none, rfl, .failed (Or.inr (Or.inl ?_)), hopen⟩
    have hconnect := mt MprpcChannel.atSend_connected.mpr hconn
    simpa using fun h => hconnect (Or.inr h)

/-- **Run lemma.  Remote calls are calls.**  The calls of a caller on a channel of its own run at
    most once and in their order, and every response is that of the run. -/
theorem calledAll {calls : List RemoteCall} (hwhole : ∀ c ∈ calls, c.Whole)
    (hempty : ch.incoming = []) {responses : List (Σ method : RpcMethod, Option method.response.Data)}
    (hcalls : callMethods .ofKvServer h ch s n calls = some (responses, ch', s')) :
    CalledAll h s calls responses s' := by
  induction calls generalizing ch s n responses with
  | nil =>
    rw [callMethods] at hcalls
    simp only [Option.some.injEq, Prod.mk.injEq] at hcalls
    obtain ⟨rfl, rfl, rfl⟩ := hcalls
    exact .nil s
  | cons c calls ih =>
    obtain ⟨hfirst, hrest⟩ := List.forall_mem_cons.mp hwhole
    obtain ⟨⟨ending, ch₁, s₁⟩, hcall, hcalls⟩ := Option.bind_eq_some_iff.mp hcalls
    obtain ⟨response, rfl, hcalled, hleft⟩ := called_of_callMethod hfirst hempty hcall
    obtain ⟨⟨responses, ch₂, s₂⟩, hlater, heq⟩ := Option.bind_eq_some_iff.mp hcalls
    obtain ⟨rfl, hend⟩ := Prod.mk.inj (Option.some.inj heq)
    obtain ⟨rfl, rfl⟩ := Prod.mk.inj hend
    exact .cons hcalled (ih hrest hleft hlater)

/-! ### Runs -/

omit [Protobuf] in
/-- A server that keeps the last value it was given. -/
def register : Handlers Bytes
  | .appendEntries, _, s => (({} : RaftRpcProctoc.AppendEntriesReply), s)
  | .installSnapshot, _, s => (({} : RaftRpcProctoc.InstallSnapshotResponse), s)
  | .requestVote, _, s => (({} : RaftRpcProctoc.RequestVoteReply), s)
  | .putAppend, args, _ =>
    (({ err := [79, 75] } : RaftKVRpcProctoc.PutAppendReply),
      (args : RaftKVRpcProctoc.PutAppendArgs).value)
  | .get, _, s => (({ err := [79, 75], value := s } : RaftKVRpcProctoc.GetReply), s)

/-- The request arrives in one chunk. -/
def inOneChunk (c : RemoteCall) : RemoteCall := { c with chunks := c.frame.toList }

/-- A call whose frame and reply come in one chunk each is whole. -/
theorem whole_inOneChunk (frame : Bytes) (hframe : c.frame = some frame)
    (hlen : frame.length < 2 ^ 31)
    (hreply : ∀ k, c.env.recv = .size k → 0 < k ∧ k = c.env.wire.length) :
    (inOneChunk c).Whole := by
  refine ⟨fun frame' hframe' => ?_, hreply⟩
  obtain rfl : frame = frame' := Option.some.inj (hframe.symm.trans hframe')
  exact ⟨by rw [inOneChunk, hframe]; rfl, hlen⟩

/-- A `Put` whose reply is lost. -/
def lostPut : RemoteCall where
  method := .putAppend
  request := ({ value := [7] } : RaftKVRpcProctoc.PutAppendArgs)
  chunks := []
  env := { connect := true, wire := [10, 2, 79, 75], recv := .error }

/-- A `Get` on the connection after it. -/
def nextGet : RemoteCall where
  method := .get
  request := ({} : RaftKVRpcProctoc.GetArgs)
  chunks := []
  env := { connect := true, wire := [10, 2, 79, 75, 18, 1, 7], recv := .size 7 }

omit [Protobuf] in
/-- The value is there although its caller has seen an error. -/
theorem calledAll_lostPut :
    letI := wireProtobuf
    CalledAll register [] [inOneChunk lostPut, inOneChunk nextGet]
      [⟨.putAppend, none⟩,
        ⟨.get, some ({ err := [79, 75], value := [7] } : RaftKVRpcProctoc.GetReply)⟩] [7] := by
  let := wireProtobuf
  have hput : callMethod .ofKvServer register {} [] 0 (inOneChunk lostPut) =
      some (.returned none, {}, [7]) := by
    rw [callMethod_reached (lostPut.frame.getD []) rfl (by decide) rfl
      ⟨Or.inr rfl, fun _ hmem => by cases hmem⟩ rfl]
    rfl
  have hget : callMethod .ofKvServer register {} [7] 1 (inOneChunk nextGet) =
      some (.returned (some ({ err := [79, 75], value := [7] } : RaftKVRpcProctoc.GetReply)),
        { connected := true }, [7]) := by
    rw [callMethod_reached (nextGet.frame.getD []) rfl (by decide) rfl
      ⟨Or.inr rfl, fun _ hmem => by cases hmem⟩ rfl]
    rfl
  have hcalls : callMethods .ofKvServer register {} [] 0 [inOneChunk lostPut, inOneChunk nextGet] =
      some ([⟨.putAppend, none⟩,
        ⟨.get, some ({ err := [79, 75], value := [7] } : RaftKVRpcProctoc.GetReply)⟩],
        { connected := true }, [7]) := by
    rw [callMethods, hput, Option.bind_eq_bind, Option.bind_some]
    dsimp only
    rw [callMethods, hget]
    rfl
  refine calledAll ?_ rfl hcalls
  refine List.forall_mem_cons.mpr ⟨?_, List.forall_mem_singleton.mpr ?_⟩
  · refine whole_inOneChunk (lostPut.frame.getD []) rfl (by decide) fun k hk => ?_
    cases hk
  · refine whole_inOneChunk (nextGet.frame.getD []) rfl (by decide) fun k hk => ?_
    rw [← Recv.size.inj hk]
    decide

end RemoteCall

end RaftStore
