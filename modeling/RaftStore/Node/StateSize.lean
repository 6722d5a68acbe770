import RaftStore.Lib.Narrowing
import RaftStore.Model.KvServer
import RaftStore.Node.Registers

namespace RaftStore

/-!
# The size of the raft state

`m_raftStateSize` is kept by hand: `clearRaftState` resets it, `SaveRaftState` adds the size of what
it wrote, and `Save` adds nothing.  `GetRaftStateSize` cuts it to an `int`, and
`IfNeedToSendSnapShotCommand` compares that with `m_maxRaftState / 10`.

* `Persister.afterCalls`, `Registers.afterCalls` — any sequence of calls on one object, and on the
  abstract store, which keeps the raft state passed last.
* `raftStateSize_afterCalls` — the counter as a function of the calls.
* `getRaftStateSize_exact_iff` — when the counter, and the decision taken on it, are right.
-/

namespace PersisterCall

/-- The raft state passed to a call. -/
def raftState : PersisterCall → Option String
  | .save raftstate _ => some raftstate
  | .saveRaftState data => some data
  | .readSnapshot => none
  | .readRaftState => none

/-- What a call leaves in the counter; `none` where it leaves it as it was. -/
def counted : PersisterCall → Option Int
  | .save _ _ => some 0
  | .saveRaftState data => some data.length
  | .readSnapshot => none
  | .readRaftState => none

end PersisterCall

/-- The last call of `Save` or `SaveRaftState`. -/
def lastSave (calls : List PersisterCall) : Option PersisterCall :=
  (calls.filter fun call => call.raftState.isSome).getLast?

/-- The last call that saved a raft state. -/
theorem lastSave_concat (calls : List PersisterCall) (call : PersisterCall) :
    lastSave (calls ++ [call]) = if call.raftState.isSome then some call else lastSave calls := by
  rw [lastSave, List.filter_append]
  by_cases h : call.raftState.isSome
  · simp [h]
  · simp [h, lastSave]

namespace Registers

/-- The store after the calls. -/
def afterCalls (calls : List PersisterCall) : Registers :=
  calls.foldl (fun r call => (r.call call).1) {}

/-- The length of the raft state most recently passed to `Save` or `SaveRaftState`. -/
def trueSize (calls : List PersisterCall) : Int := (afterCalls calls).raftState.length

/-- One more call. -/
theorem afterCalls_concat (calls : List PersisterCall) (call : PersisterCall) :
    afterCalls (calls ++ [call]) = ((afterCalls calls).call call).1 := by
  rw [afterCalls, List.foldl_concat]
  rfl

/-- The store holds the raft state most recently passed to `Save` or `SaveRaftState`. -/
theorem raftState_afterCalls (calls : List PersisterCall) :
    (afterCalls calls).raftState = ((lastSave calls).bind PersisterCall.raftState).getD "" := by
  induction calls using List.reverseRecOn with
  | nil => rfl
  | append_singleton calls call ih =>
    rw [lastSave_concat, afterCalls_concat]
    cases call with
    | save raftstate snapshot => simp [call, PersisterCall.raftState]
    | saveRaftState data => simp [call, PersisterCall.raftState]
    | readSnapshot => simpa [call, PersisterCall.raftState] using ih
    | readRaftState => simpa [call, PersisterCall.raftState] using ih

end Registers

namespace Persister

/-- The object after the calls, built over the files of an earlier process. -/
def afterCalls (disk : Disk) (calls : List PersisterCall) : Persister :=
  calls.foldl (fun p call => (p.call call).1) (construct disk)

/-- One more call, from given files. -/
theorem afterCalls_concat (disk : Disk) (calls : List PersisterCall) (call : PersisterCall) :
    afterCalls disk (calls ++ [call]) = ((afterCalls disk calls).call call).1 := by
  rw [afterCalls, List.foldl_concat]
  rfl

/-- One call replaces the counter or leaves it. -/
theorem raftStateSize_call (p : Persister) (call : PersisterCall) :
    (p.call call).1.raftStateSize = call.counted.getD p.raftStateSize := by
  cases call with
  | save raftstate snapshot => rfl
  | saveRaftState data =>
    show (0 : Int) + data.length = data.length
    simp
  | readSnapshot => rfl
  | readRaftState => rfl

/-- **The counter.**  It is what the last `Save` or `SaveRaftState` left. -/
theorem raftStateSize_afterCalls (disk : Disk) (calls : List PersisterCall) :
    (afterCalls disk calls).raftStateSize =
      ((lastSave calls).bind PersisterCall.counted).getD 0 := by
  induction calls using List.reverseRecOn with
  | nil => rfl
  | append_singleton calls call ih =>
    rw [lastSave_concat, afterCalls_concat, raftStateSize_call]
    cases call with
    | save raftstate snapshot => simp [PersisterCall.counted, PersisterCall.raftState]
    | saveRaftState data => simp [PersisterCall.counted, PersisterCall.raftState]
    | readSnapshot => simpa [PersisterCall.counted, PersisterCall.raftState] using ih
    | readRaftState => simpa [PersisterCall.counted, PersisterCall.raftState] using ih

/-- The counter is the size of the raft state unless `Save` was passed one that is not empty. -/
theorem raftStateSize_eq_iff (disk : Disk) (calls : List PersisterCall) :
    (afterCalls disk calls).getRaftStateSize = Registers.trueSize calls ↔
      ∀ raftstate snapshot, lastSave calls = some (.save raftstate snapshot) →
        raftstate = "" := by
  rw [getRaftStateSize, raftStateSize_afterCalls, Registers.trueSize,
    Registers.raftState_afterCalls]
  cases h : lastSave calls with
  | none => simp
  | some call =>
    cases call with
    | save raftstate snapshot =>
      have hlen : (0 : Int) = raftstate.length ↔ raftstate = "" := by
        rw [eq_comm, Int.natCast_eq_zero, ← String.length_toList, List.length_eq_zero_iff]
        simp
      simpa [PersisterCall.counted, PersisterCall.raftState] using hlen
    | saveRaftState data => simp [PersisterCall.counted, PersisterCall.raftState]
    | readSnapshot => simp [PersisterCall.counted, PersisterCall.raftState]
    | readRaftState => simp [PersisterCall.counted, PersisterCall.raftState]

end Persister

/-! ### The node and the server -/

section decision

variable {n : ℕ}

/-- The decision depends on the size only through one comparison. -/
theorem KvServer.ifNeedToSendSnapShotCommand_eq_iff [KvArchive] (server : KvServer)
    (size size' : Int) :
    server.ifNeedToSendSnapShotCommand size = server.ifNeedToSendSnapShotCommand size' ↔
      (server.maxRaftState < 10 * size ↔ server.maxRaftState < 10 * size') := by
  unfold KvServer.ifNeedToSendSnapShotCommand
  by_cases h : server.maxRaftState < 10 * size <;>
    by_cases h' : server.maxRaftState < 10 * size' <;> simp [h, h']

/-- **When the size is exact.**  After any calls, `RaftStateSize` is the length of the raft state
    passed last and `IfNeedToSendSnapShotCommand` decides as it would on that length, iff that
    raft state was not passed to `Save` or was empty, and cutting its length to an `int` does not
    take it below `m_maxRaftState / 10`. -/
theorem getRaftStateSize_exact_iff [KvArchive] (rf : Raft n) (server : KvServer) (disk : Disk)
    (calls : List PersisterCall) :
    ((Persister.afterCalls disk calls).getRaftStateSize = Registers.trueSize calls ∧
      server.ifNeedToSendSnapShotCommand
          { rf with persister := Persister.afterCalls disk calls }.getRaftStateSize =
        server.ifNeedToSendSnapShotCommand (Registers.trueSize calls)) ↔
    (∀ raftstate snapshot, lastSave calls = some (.save raftstate snapshot) → raftstate = "") ∧
      (server.maxRaftState < 10 * Registers.trueSize calls →
        server.maxRaftState < 10 * (Registers.trueSize calls).bmod (2 ^ 32)) := by
  rw [← Persister.raftStateSize_eq_iff disk calls]
  apply and_congr_right
  intro hsize
  have hcut : { rf with persister := Persister.afterCalls disk calls }.getRaftStateSize =
      (Registers.trueSize calls).bmod (2 ^ 32) := by
    rw [Raft.getRaftStateSize, hsize]
  have hle := bmod_le_of_nonneg (show 0 ≤ Registers.trueSize calls from Int.natCast_nonneg _)
  rw [hcut, KvServer.ifNeedToSendSnapShotCommand_eq_iff]
  omega

/-- After `Save("x", "")` the size is 0. -/
theorem getRaftStateSize_save_ne :
    (Persister.afterCalls {} [.save "x" ""]).getRaftStateSize ≠
      Registers.trueSize [.save "x" ""] := by
  decide

end decision

end RaftStore
