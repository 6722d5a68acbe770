import RaftStore.Lib.Tallies
import RaftStore.Model.LockQueue

namespace RaftStore

/-!
# The blocking queue as a channel

What consumers return, in the order of their returns, and what is in the queue is what was pushed.
And `notify_one` is enough: while a thread waits there are at least as many notified threads on their
way to the queue as there is in it.

* `LockQueue.Fifo`, `LockQueue.Awake` — the two invariants.
* `LockQueue.InTime` — a thread that is notified does not return `false` while another waits.
* `LockQueue.channel_of_reach` — **first in, first out, and no consumer sleeps at a full queue**.
* `LockQueue.consumer_left_asleep` — a thread that is notified and returns `false` leaves one there.
-/

namespace QueueThread

/-- One for a thread that waits. -/
def isWaiting : QueueThread → ℕ
  | .waiting _ => 1
  | _ => 0

/-- One for a thread that was notified and is on its way to the queue. -/
def isNotified : QueueThread → ℕ
  | .woken _ true => 1
  | _ => 0

end QueueThread

namespace LockQueue

variable {T : Type} {s s' : LockQueue T} {i n : ℕ} {w w' : QueueThread} {timed : Bool}

/-- How many threads wait. -/
def waiting (s : LockQueue T) : ℕ := tally QueueThread.isWaiting s.threads

/-- How many threads were notified and are on their way to the queue. -/
def notified (s : LockQueue T) : ℕ := tally QueueThread.isNotified s.threads

/-- What was returned and what is in the queue is what was pushed. -/
def Fifo (s : LockQueue T) : Prop := s.pushed = s.popped.map Prod.snd ++ s.queue

/-- While a thread waits there are as many notified threads on their way to the queue as there are
    elements in it. -/
def Awake (s : LockQueue T) : Prop := 0 < s.waiting → s.queue.length ≤ s.notified

/-- A thread that is notified does not run out of time while another thread waits. -/
def InTime (s : LockQueue T) (a : QueueStep T) : Prop :=
  ∀ i, a = .timeout i → s.threads[i]? = some (.woken true true) → s.waiting = 0

/-! ### Order -/

/-- A new element comes last. -/
theorem Fifo.push (hs : s.Fifo) (data : T) :
    s.pushed ++ [data] = s.popped.map Prod.snd ++ (s.queue ++ [data]) := by
  rw [hs, List.append_assoc]

/-- The element that is returned was the first. -/
theorem Fifo.take (hs : s.Fifo) (i : ℕ) (timed : Bool) : (s.take i timed).Fifo := by
  rw [LockQueue.take]
  split
  · exact hs
  · rename_i data queue hqueue
    show s.pushed = (s.popped ++ [(i, data)]).map Prod.snd ++ queue
    rw [hs, hqueue, List.map_append, List.append_assoc]
    rfl

/-- **Step lemma** of the order. -/
theorem Fifo.step {a : QueueStep T} (hs : s.Fifo) (h : s.step a = some s') : s'.Fifo := by
  revert h
  fun_cases LockQueue.step s a <;> intro h
  all_goals try cases h
  all_goals try exact hs
  all_goals try exact hs.push _
  all_goals exact hs.take _ _

/-! ### Notifications -/

/-- The threads that wait, when one thread moves on. -/
theorem waiting_set (ht : s.threads[i]? = some w) (w' : QueueThread) :
    tally QueueThread.isWaiting (s.threads.set i w') + w.isWaiting = s.waiting + w'.isWaiting := by
  have hold := tally_eraseIdx (g := QueueThread.isWaiting) ht
  rw [tally_set ht, waiting]
  omega

/-- The threads that were notified, when one thread moves on. -/
theorem notified_set (ht : s.threads[i]? = some w) (w' : QueueThread) :
    tally QueueThread.isNotified (s.threads.set i w') + w.isNotified =
      s.notified + w'.isNotified := by
  have hold := tally_eraseIdx (g := QueueThread.isNotified) ht
  rw [tally_set ht, notified]
  omega

/-- Nobody waits when `notify_one` finds nobody. -/
theorem waiting_eq_zero (h : s.hasWaiting = false) : s.waiting = 0 := by
  rw [hasWaiting, List.any_eq_false] at h
  have hall : ∀ w ∈ s.threads, w.isWaiting = (fun _ => 0) w := by
    intro w hw
    have hne := h w hw
    cases w with
    | waiting timed => cases timed <;> simp at hne
    | outside => rfl
    | woken timed notified => rfl
  rw [waiting, tally_congr hall]
  induction s.threads with
  | nil => rfl
  | cons w l ih => rw [tally_cons, ih]

/-- A look at the queue, by a thread that does not wait. -/
theorem Awake.take (hs : s.Awake) (ht : s.threads[i]? = some w) (hw : w.isWaiting = 0) :
    (s.take i timed).Awake := by
  have hone : w.isNotified ≤ 1 := by
    cases w with
    | woken timed notified =>
      cases notified with
      | false => exact Nat.zero_le 1
      | true => exact Nat.le_refl 1
    | outside => exact Nat.zero_le 1
    | waiting => exact Nat.zero_le 1
  rw [LockQueue.take]
  split
  · rename_i hempty
    intro _
    rw [hempty]
    exact Nat.zero_le _
  · rename_i data queue hqueue
    intro hwaiting
    -- one element and at most one notified thread are gone
    have hleft : tally QueueThread.isWaiting (s.threads.set i .outside) + w.isWaiting =
        s.waiting + 0 := waiting_set ht .outside
    have hway : tally QueueThread.isNotified (s.threads.set i .outside) + w.isNotified =
        s.notified + 0 := notified_set ht .outside
    change 0 < tally QueueThread.isWaiting (s.threads.set i .outside) at hwaiting
    show queue.length ≤ tally QueueThread.isNotified (s.threads.set i .outside)
    have hawake := hs (by omega)
    rw [hqueue, List.length_cons] at hawake
    omega

/-- A thread that leaves its wait is one more on its way if it was notified. -/
theorem Awake.awaken (hs : s.Awake) (ht : s.threads[i]? = some (.waiting timed))
    (notified : Bool) : s.queue.length + (QueueThread.woken timed notified).isNotified ≤
      tally QueueThread.isNotified (s.threads.set i (.woken timed notified)) := by
  have hleft : tally QueueThread.isWaiting (s.threads.set i (.woken timed notified)) + 1 =
      s.waiting + 0 := waiting_set ht (.woken timed notified)
  have hway : tally QueueThread.isNotified (s.threads.set i (.woken timed notified)) + 0 =
      s.notified + (QueueThread.woken timed notified).isNotified :=
    notified_set ht (.woken timed notified)
  have hawake := hs (by omega)
  omega

/-- **Step lemma.** -/
theorem Awake.step {a : QueueStep T} (hs : s.Awake) (hin : InTime s a)
    (h : s.step a = some s') : s'.Awake := by
  revert h
  fun_cases LockQueue.step s a <;> intro h
  all_goals try cases h
  case case2.refl data hwaiting =>
    intro hpos
    have hzero := waiting_eq_zero ((Bool.not_eq_true _).mp hwaiting)
    exact absurd hzero (Nat.ne_of_gt hpos)
  case case3.refl data i timed ht =>
    intro _
    show (s.queue ++ [data]).length ≤ _
    rw [List.length_append, List.length_singleton]
    exact hs.awaken ht true
  case case5.refl ht => exact hs.take ht rfl
  case case7.refl ht => exact hs.take ht rfl
  case case9.refl ht => exact fun _ => hs.awaken ht false
  case case11.refl ht => exact hs.take ht rfl
  case case13.refl i ht =>
    -- it waits
    intro hpos
    have hleft : tally QueueThread.isWaiting (s.threads.set i .outside) + 1 = s.waiting + 0 :=
      waiting_set ht .outside
    have hway : tally QueueThread.isNotified (s.threads.set i .outside) + 0 = s.notified + 0 :=
      notified_set ht .outside
    have hawake := hs (by omega)
    show s.queue.length ≤ tally QueueThread.isNotified (s.threads.set i .outside)
    omega
  case case14.refl i notified ht =>
    intro hpos
    have hleft : tally QueueThread.isWaiting (s.threads.set i .outside) + 0 = s.waiting + 0 :=
      waiting_set ht .outside
    change 0 < tally QueueThread.isWaiting (s.threads.set i .outside) at hpos
    cases notified with
    | true =>
      -- it has been notified, but no other thread waits
      have hnone := hin i rfl ht
      omega
    | false =>
      have hway : tally QueueThread.isNotified (s.threads.set i .outside) + 0 = s.notified + 0 :=
        notified_set ht .outside
      have hawake := hs (by omega)
      show s.queue.length ≤ tally QueueThread.isNotified (s.threads.set i .outside)
      omega

/-- A consumer that is alone does not leave another waiting. -/
theorem inTime_of_length (hone : s.threads.length = 1) (a : QueueStep T) : InTime s a := by
  rintro i _ ht
  obtain ⟨w, hw⟩ := List.length_eq_one_iff.mp hone
  have hmem := List.mem_of_getElem? ht
  rw [hw, List.mem_singleton] at hmem
  rw [waiting, hw, ← hmem]
  rfl

/-! ### Runs -/

/-- **First in, first out**, in every run. -/
theorem fifo_of_reach (h : Reach step anyStep (start n) s) : s.Fifo := by
  have hstart : (start n : LockQueue T).Fifo := rfl
  exact h.invariant hstart fun _ _ _ _ hs _ hstep => hs.step hstep

/-- **The queue.**  In every run what was returned, in the order of the returns, and what is in the
    queue is what was pushed.  In a run in which each step is one of a queue with one consumer, or
    lets no thread that was notified return `false` while another waits, there are, while a thread
    waits, as many notified threads on their way to the queue as there are elements in it. -/
theorem channel_of_reach (h : Reach step anyStep (start n) s) :
    s.pushed = s.popped.map Prod.snd ++ s.queue ∧
      (Reach step (fun s a => s.threads.length = 1 ∨ InTime s a) (start n) s →
        0 < s.waiting → s.queue.length ≤ s.notified) := by
  refine ⟨fifo_of_reach h, fun h => ?_⟩
  refine h.invariant (P := Awake) (fun _ => Nat.zero_le _) ?_
  intro s a s' _ hs hok hstep
  refine hs.step ?_ hstep
  rcases hok with hone | hin
  · exact inTime_of_length hone a
  · exact hin

/-- A consumer in `Pop` and one in `timeOutPop` wait, the second is notified, and its time is up. -/
def lateTimeout : List (QueueStep ℕ) :=
  [.pop 0, .timeOutPop 1, .push 7 (some 1), .timeout 1]

/-- **The condition is needed**: the element stays, and the first consumer sleeps. -/
theorem consumer_left_asleep : ∃ s : LockQueue ℕ, Reach step anyStep (start 2) s ∧
    s.threads = [.waiting false, .outside] ∧ s.queue = [7] := by
  have hrun : (runFrom step anyStep (start 2) lateTimeout).map
      (fun s => (s.threads, s.queue)) = some ([.waiting false, .outside], [7]) := by
    decide
  obtain ⟨s, hs, heq⟩ := Reach.exists_of_runFrom hrun
  exact ⟨s, hs, (Prod.mk.inj heq).1, (Prod.mk.inj heq).2⟩

/-- One consumer, which waits and is notified before a second element comes. -/
theorem channel_of_reach_two : ∃ s : LockQueue ℕ, s.queue = [8, 9] ∧
    s.pushed = s.popped.map Prod.snd ++ s.queue ∧
      (0 < s.waiting → s.queue.length ≤ s.notified) := by
  have hrun : (runFrom step (fun s _ => s.threads.length = 1) (start 1)
      [QueueStep.pop 0, .push 7 (some 0), .push 8 none, .resume 0, .push 9 none]).map
      LockQueue.queue = some [8, 9] := by
    decide
  obtain ⟨s, hs, hqueue⟩ := Reach.exists_of_runFrom hrun
  have hchannel := channel_of_reach (n := 1) hs.any
  exact ⟨s, hqueue, hchannel.1, hchannel.2 (hs.mono fun _ _ => Or.inl)⟩

end LockQueue

end RaftStore
