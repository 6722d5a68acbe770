import RaftStore.Lib.Transition
import RaftStore.Rpc.Replies

namespace RaftStore

/-!
# Replies of several threads

The threads inside `CallMethod` on one channel take the replies in the order in which they call
`recv`, and the server sends them in the order of the requests.

* `SharedChannel.OwnReply` — every response is the answer to the request of its call.
* `SharedChannel.InSendOrder` — a thread calls `recv` only when its request is the oldest one whose
  reply has not been received.
* `SharedChannel.Transmits` — the server answers with a reply that has bytes.
* `SharedChannel.own_reply` — in every such run each call has its own reply.
* `SharedChannel.replies_swapped`, `SharedChannel.replies_shifted` — each condition is needed.
-/

namespace SharedChannel

variable {T : Type} {M : T → Type}

/-- A response is the answer of the server to the request of the call that returns it. -/
def OwnReply (s : SharedChannel M) : Prop :=
  ∀ (i : ℕ) (call : ChannelCall M) (response : M call.method), s.calls[i]? = some call →
    call.phase = .ended (.returned (some response)) →
    ∃ k : ℕ, s.sends[k]? = some i ∧ s.answers[k]? = some ⟨call.method, response⟩

/-- The condition on the threads: replies are received in the order of the requests. -/
def InSendOrder (s : SharedChannel M) : ChannelStep M → Prop
  | .recv i => s.sends[s.received]? = some i
  | _ => True

variable [∀ t, Message (M t)]

/-- The condition on the server: the reply to the next request puts bytes on the connection. -/
def Transmits (s : SharedChannel M) : ChannelStep M → Prop
  | .answer reply => ∀ i ∈ s.sends[s.answers.length]?, ∀ call ∈ s.calls[i]?,
      sendRpcResponse (reply call.method) ≠ []
  | _ => True

/-- The answers are to the requests in their order, and the replies under way are the last of
    them. -/
structure Inv (s : SharedChannel M) : Prop where
  length : s.answers.length ≤ s.sends.length
  method : ∀ (k i : ℕ) a, s.sends[k]? = some i → s.answers[k]? = some a →
    ∃ call, s.calls[i]? = some call ∧ a.1 = call.method
  received : s.received ≤ s.answers.length
  replies : s.replies = (s.answers.drop s.received).map fun a => sendRpcResponse a.2
  transmitted : ∀ a ∈ s.answers, sendRpcResponse a.2 ≠ []
  own : s.OwnReply

/-- The channel starts with no call. -/
theorem inv_init : Inv ({} : SharedChannel M) :=
  { length := Nat.le_refl 0
    method := fun k i a h => by cases h
    received := Nat.le_refl 0
    replies := rfl
    transmitted := fun a ha => by cases ha
    own := fun i call response h => by cases h }

omit [∀ t, Message (M t)] in
/-- A call that moves on keeps its method. -/
theorem method_set {s : SharedChannel M} {i j : ℕ} {call : ChannelCall M}
    (hcall : s.calls[i]? = some call) (phase : CallPhase (M call.method)) {t : T}
    (h : ∃ c, s.calls[j]? = some c ∧ t = c.method) :
    ∃ c, (s.calls.set i { call with phase })[j]? = some c ∧ t = c.method := by
  obtain ⟨c, hc, rfl⟩ := h
  by_cases hij : i = j
  · subst hij
    rw [hcall] at hc
    obtain rfl := Option.some.inj hc
    have hlt := (List.getElem?_eq_some_iff.mp hcall).1
    exact ⟨{ call with phase }, List.getElem?_set_self hlt, rfl⟩
  · exact ⟨c, by rw [List.getElem?_set_ne hij, hc], rfl⟩

/-- A new call has received nothing. -/
theorem Inv.callMethod {s s' : SharedChannel M} {method : T} (h : Inv s)
    (hs : s.step (.callMethod method) = some s') : Inv s' := by
  obtain rfl := Option.some.inj hs
  refine { h with method := fun k i a hk ha => ?_, own := fun i call response hi hphase => ?_ }
  · obtain ⟨call, hcall, hmethod⟩ := h.method k i a hk ha
    have hlt := (List.getElem?_eq_some_iff.mp hcall).1
    exact ⟨call, by rw [List.getElem?_append_left hlt, hcall], hmethod⟩
  · rcases Nat.lt_or_ge i s.calls.length with hlt | hge
    · rw [List.getElem?_append_left hlt] at hi
      exact h.own i call response hi hphase
    · rw [List.getElem?_append_right hge] at hi
      obtain rfl := List.mem_singleton.mp (List.mem_of_getElem? hi)
      cases hphase

/-- A request that is sent has no answer yet. -/
theorem Inv.send {s s' : SharedChannel M} {i : ℕ} (h : Inv s) (hs : s.step (.send i) = some s') :
    Inv s' := by
  obtain ⟨call, hcall, hs⟩ := Option.bind_eq_some_iff.mp hs
  split at hs
  · obtain rfl := Option.some.inj hs
    refine
      { length := by simpa using Nat.le_succ_of_le h.length
        method := fun k j a hk ha => ?_
        received := h.received
        replies := h.replies
        transmitted := h.transmitted
        own := fun j call' response hj hphase => ?_ }
    · -- the new request has no answer yet
      have hlt : k < s.sends.length :=
        Nat.lt_of_lt_of_le (List.getElem?_eq_some_iff.mp ha).1 h.length
      rw [List.getElem?_append_left hlt] at hk
      exact method_set hcall _ (h.method k j a hk ha)
    · by_cases hij : i = j
      · subst hij
        have hlt := (List.getElem?_eq_some_iff.mp hcall).1
        rw [List.getElem?_set_self hlt] at hj
        obtain rfl := Option.some.inj hj
        cases hphase
      · rw [List.getElem?_set_ne hij] at hj
        obtain ⟨k, hk, ha⟩ := h.own j call' response hj hphase
        have hlt := (List.getElem?_eq_some_iff.mp hk).1
        exact ⟨k, by rw [List.getElem?_append_left hlt, hk], ha⟩
  · cases hs

/-- The peer answers the oldest request that has no answer. -/
theorem Inv.answer {s s' : SharedChannel M} {reply : (t : T) → M t} (h : Inv s)
    (hok : Transmits s (.answer reply)) (hs : s.step (.answer reply) = some s') : Inv s' := by
  obtain ⟨i, hi, hs⟩ := Option.bind_eq_some_iff.mp hs
  obtain ⟨call, hcall, hs⟩ := Option.bind_eq_some_iff.mp hs
  obtain rfl := Option.some.inj hs
  have hlt := (List.getElem?_eq_some_iff.mp hi).1
  have hbytes : sendRpcResponse (reply call.method) ≠ [] := hok i hi call hcall
  refine
    { length := by simpa using Nat.succ_le_of_lt hlt
      method := fun k j a hk ha => ?_
      received := by simpa using Nat.le_succ_of_le h.received
      replies := ?_
      transmitted := ?_
      own := fun j call' response hj hphase => ?_ }
  · rcases Nat.lt_or_ge k s.answers.length with hk' | hk'
    · rw [List.getElem?_append_left hk'] at ha
      exact h.method k j a hk ha
    · -- the new answer is to the first request that has none
      rw [List.getElem?_append_right hk'] at ha
      obtain rfl := List.mem_singleton.mp (List.mem_of_getElem? ha)
      have hzero : k - s.answers.length = 0 := by
        have hone := (List.getElem?_eq_some_iff.mp ha).1
        simpa using hone
      obtain rfl : k = s.answers.length := by omega
      rw [hi] at hk
      obtain rfl := Option.some.inj hk
      exact ⟨call, hcall, rfl⟩
  · show s.replies ++ (if sendRpcResponse (reply call.method) = [] then [] else _) = _
    rw [if_neg hbytes, List.drop_append_of_le_length h.received, List.map_append, h.replies]
    rfl
  · intro a ha
    rcases List.mem_append.mp ha with ha | ha
    · exact h.transmitted a ha
    · obtain rfl := List.mem_singleton.mp ha
      exact hbytes
  · obtain ⟨k, hk, ha⟩ := h.own j call' response hj hphase
    have hlt := (List.getElem?_eq_some_iff.mp ha).1
    exact ⟨k, hk, by rw [List.getElem?_append_left hlt, ha]⟩

omit [∀ t, Message (M t)] in
/-- What `SendRpcResponse` puts on the connection parses to the response. -/
theorem parse_sendRpcResponse {R : Type} [Message R] [LawfulMessage R] {response : R}
    (h : sendRpcResponse response ≠ []) :
    Message.parseFromArray (sendRpcResponse response) = some response := by
  cases hstr : Message.serializeToString response with
  | none => exact absurd (by rw [sendRpcResponse, hstr]; rfl) h
  | some str =>
    rw [sendRpcResponse, hstr]
    exact LawfulMessage.parse_serialize response str hstr

/-- A reply that is received in order is the answer to the request of the call. -/
theorem Inv.recv [∀ t, LawfulMessage (M t)] {s s' : SharedChannel M} {i : ℕ} (h : Inv s)
    (hok : InSendOrder s (.recv i)) (hs : s.step (.recv i) = some s') : Inv s' := by
  obtain ⟨call, hcall, hs⟩ := Option.bind_eq_some_iff.mp hs
  split at hs
  · rename_i bytes replies hphase hreplies
    obtain rfl := Option.some.inj hs
    -- the first reply under way is the answer to the request of this call
    have hfront := h.replies
    rw [hreplies] at hfront
    obtain ⟨answer, rest, hdrop, hanswer, hrest⟩ := List.map_eq_cons_iff.mp hfront.symm
    have hat : s.answers[s.received]? = some answer := by
      rw [← List.head?_drop, hdrop, List.head?_cons]
    have hsent := h.transmitted answer (List.mem_of_getElem? hat)
    obtain ⟨call₁, hcall₁, hmethod⟩ := h.method _ _ _ hok hat
    rw [hcall] at hcall₁
    obtain rfl := Option.some.inj hcall₁
    refine
      { length := h.length
        method := fun k j a hk ha => method_set hcall _ (h.method k j a hk ha)
        received := (List.getElem?_eq_some_iff.mp hat).1
        replies := ?_
        transmitted := h.transmitted
        own := fun j call' response hj hphase' => ?_ }
    · show replies = (s.answers.drop (s.received + 1)).map _
      rw [← List.drop_drop, hdrop]
      exact hrest.symm
    · by_cases hij : i = j
      · subst hij
        have hlt := (List.getElem?_eq_some_iff.mp hcall).1
        rw [List.getElem?_set_self hlt] at hj
        obtain rfl := Option.some.inj hj
        refine ⟨s.received, hok, hat.trans ?_⟩
        obtain ⟨t, m⟩ := answer
        dsimp only at hmethod hanswer hsent response hphase'
        subst hmethod
        rw [← hanswer, parse_sendRpcResponse hsent, CallEnd.ofParse] at hphase'
        obtain rfl : m = response := by simpa using hphase'
        rfl
      · rw [List.getElem?_set_ne hij] at hj
        exact h.own j call' response hj hphase'
  · cases hs

/-- **Step lemma.** -/
theorem Inv.step [∀ t, LawfulMessage (M t)] {s s' : SharedChannel M} {a : ChannelStep M}
    (h : Inv s) (hok : InSendOrder s a ∧ Transmits s a) (hs : s.step a = some s') : Inv s' := by
  cases a with
  | callMethod method => exact h.callMethod hs
  | send i => exact h.send hs
  | answer reply => exact h.answer hok.2 hs
  | recv i => exact h.recv hok.1 hs

/-- **Reply correlation.**  In every run in which replies are received in the order of the requests
    and none of them is empty, every call that returns without an error holds the answer to its own
    request. -/
theorem own_reply [∀ t, LawfulMessage (M t)] {s : SharedChannel M}
    (h : Reach step (fun s a => InSendOrder s a ∧ Transmits s a) {} s) : s.OwnReply :=
  (h.invariant inv_init fun _ _ _ _ hinv hok hs => hinv.step hok hs).own

/-! ### Runs -/

omit [∀ t, Message (M t)] in
instance (s : SharedChannel M) (a : ChannelStep M) : Decidable (InSendOrder s a) :=
  match a with
  | .recv i => inferInstanceAs (Decidable (s.sends[s.received]? = some i))
  | .callMethod _ | .send _ | .answer _ => inferInstanceAs (Decidable True)

instance (s : SharedChannel M) (a : ChannelStep M) : Decidable (Transmits s a) :=
  match a with
  | .answer reply => inferInstanceAs (Decidable (∀ i ∈ s.sends[s.answers.length]?,
      ∀ call ∈ s.calls[i]?, sendRpcResponse (reply call.method) ≠ []))
  | .callMethod _ | .send _ | .recv _ => inferInstanceAs (Decidable True)

/-- The one method of these runs. -/
def SnapshotReply (_ : Unit) : Type := RaftRpcProctoc.InstallSnapshotResponse

instance [Protobuf] (t : Unit) : Message (SnapshotReply t) :=
  inferInstanceAs (Message RaftRpcProctoc.InstallSnapshotResponse)

/-- The follower answers with its term, or (0) with a reply that nobody has filled in. -/
def answerTerm (term : Int32) (t : Unit) : SnapshotReply t := ({ term } :
  RaftRpcProctoc.InstallSnapshotResponse)

/-- Two threads send, and the follower answers both. -/
def twoCalls (term term' : Int32) : List (ChannelStep SnapshotReply) :=
  [.callMethod (), .callMethod (), .send 0, .send 1, .answer (answerTerm term),
    .answer (answerTerm term')]

/-- What the calls have returned, the order of their requests, and the answers. -/
def outcome (s : SharedChannel SnapshotReply) :
    List (Option RaftRpcProctoc.InstallSnapshotResponse) × List ℕ ×
      List RaftRpcProctoc.InstallSnapshotResponse :=
  (s.calls.map fun call =>
      match call.phase with
      | .ended (.returned response) => response
      | _ => none,
    s.sends, s.answers.map fun answer => answer.2)

/-- The replies are received in the order of the requests. -/
theorem own_reply_inOrder :
    letI := wireProtobuf
    ∃ s : SharedChannel SnapshotReply,
      Reach step (fun s a => InSendOrder s a ∧ Transmits s a) {} s ∧
      (outcome s).1 = [some { term := 5 }, some { term := 7 }] ∧ s.OwnReply := by
  let := wireProtobuf
  have hlawful : ∀ t, LawfulMessage (SnapshotReply t) := fun _ =>
    RaftRpcProctoc.lawful_installSnapshotResponse
  have hrun : (runFrom step (fun s a => InSendOrder s a ∧ Transmits s a) {}
      (twoCalls 5 7 ++ [.recv 0, .recv 1])).map (fun s => (outcome s).1) =
      some [some { term := 5 }, some { term := 7 }] := by
    decide
  obtain ⟨s, hs, hout⟩ := Reach.exists_of_runFrom hrun
  exact ⟨s, hs, hout, own_reply hs⟩

/-- The first call has returned what the server has answered to the second. -/
theorem not_ownReply_of_outcome {s : SharedChannel SnapshotReply}
    {first second : RaftRpcProctoc.InstallSnapshotResponse}
    {rest : List (Option RaftRpcProctoc.InstallSnapshotResponse)}
    (hne : second ≠ first)
    (hout : outcome s = (some second :: rest, [0, 1], [first, second])) : ¬ s.OwnReply := by
  intro hown
  -- the outcome gives the first call's response, the order of the requests and the answers
  obtain ⟨hcalls, hsends, hanswers⟩ : _ ∧ _ ∧ _ := by simpa only [outcome, Prod.mk.injEq] using hout
  obtain ⟨⟨method, phase⟩, calls, hcall, hphase, _⟩ := List.map_eq_cons_iff.mp hcalls
  obtain rfl : phase = .ended (.returned (some second)) := by
    cases phase with
    | started => cases hphase
    | sent => cases hphase
    | ended ending =>
      cases ending with
      | returned response => exact congrArg (CallPhase.ended ∘ CallEnd.returned) hphase
      | overflow => cases hphase
  -- the request of the first call stands first, so its answer is the first one
  obtain ⟨k, hk, ha⟩ := hown 0 _ _ (by rw [hcall]; rfl) rfl
  obtain rfl : k = 0 := by
    rw [hsends] at hk
    cases k with
    | zero => rfl
    | succ k =>
      cases k with
      | zero => cases hk
      | succ k => cases hk
  obtain ⟨answer, answers, hfirst, hanswer, _⟩ := List.map_eq_cons_iff.mp hanswers
  rw [hfirst, List.getElem?_cons_zero] at ha
  obtain rfl := Option.some.inj ha
  exact hne hanswer

/-- The second thread is the first to call `recv`: it returns the answer to the other request. -/
theorem replies_swapped :
    letI := wireProtobuf
    ∃ s : SharedChannel SnapshotReply, Reach step anyStep {} s ∧
      (outcome s).1 = [some { term := 7 }, some { term := 5 }] ∧ ¬ s.OwnReply := by
  let := wireProtobuf
  have hrun : (runFrom step anyStep {} (twoCalls 5 7 ++ [.recv 1, .recv 0])).map outcome =
      some ([some { term := 7 }, some { term := 5 }], [0, 1], [{ term := 5 }, { term := 7 }]) := by
    decide
  obtain ⟨s, hs, hout⟩ := Reach.exists_of_runFrom hrun
  exact ⟨s, hs, by rw [hout], not_ownReply_of_outcome (by decide) hout⟩

/-- The reply to the first request is empty, as that of `InstallSnapshot` to an old snapshot is: the
    first thread keeps to the order and receives the reply to the second. -/
theorem replies_shifted :
    letI := wireProtobuf
    ∃ s : SharedChannel SnapshotReply, Reach step InSendOrder {} s ∧
      (outcome s).1 = [some { term := 7 }, none] ∧ ¬ s.OwnReply := by
  let := wireProtobuf
  have hrun : (runFrom step InSendOrder {} (twoCalls 0 7 ++ [.recv 0])).map outcome =
      some ([some { term := 7 }, none], [0, 1], [{ term := 0 }, { term := 7 }]) := by
    decide
  obtain ⟨s, hs, hout⟩ := Reach.exists_of_runFrom hrun
  exact ⟨s, hs, by rw [hout], not_ownReply_of_outcome (by decide) hout⟩

end SharedChannel

end RaftStore
