import RaftStore.Model.Timer
import Mathlib.Data.Prod.Lex
import Mathlib.Order.WithBot

namespace RaftStore

/-!
# The invariant of the timer set

The set is ordered by fields that the operations assign to, always between an erasure and an
insertion.  The invariant therefore carries the timers that are armed and outside the set at the
moment.

* `Timer.comparator_iff` — the comparison is that of deadline and address.
* `TimerManager.Inv m P out` — the set is ordered, and it and `out` hold the armed timers.
* `Inv.erase`, `Inv.setTimer`, `Inv.disarm`, `Inv.insert`, `Inv.construct` — the parts of which
  the operations consist.
-/

variable {β : Type}

namespace Timer

/-- The place of a timer in the set: a null pointer, then the deadline and the address. -/
def key : Option (Timer β) → WithBot (ℕ ×ₗ ℕ)
  | none => ⊥
  | some t => ((toLex (t.next, t.addr) : ℕ ×ₗ ℕ) : WithBot (ℕ ×ₗ ℕ))

/-- The comparator is the order of the keys. -/
theorem comparator_iff (x y : Option (Timer β)) : comparator x y = true ↔ key x < key y := by
  cases x with
  | none =>
    cases y with
    | none => simp [comparator, key]
    | some y => simp [comparator, key, WithBot.bot_lt_coe]
  | some x =>
    cases y with
    | none => simp [comparator, key]
    | some y =>
      simp only [comparator, key, WithBot.coe_lt_coe, Prod.Lex.toLex_lt_toLex]
      by_cases hlt : x.next < y.next
      · simp [hlt]
      · by_cases hgt : y.next < x.next
        · simp [hlt, hgt, hgt.ne']
        · have heq : x.next = y.next := by omega
          simp [heq]

/-- Only the places count. -/
theorem comparator_congr {x x' y y' : Option (Timer β)} (hx : key x = key x')
    (hy : key y = key y') : comparator x y = comparator x' y' := by
  rw [Bool.eq_iff_iff, comparator_iff, comparator_iff, hx, hy]

/-- A later state of a timer: of the same kind, and a callback that is gone stays gone. -/
structure Later (t t' : Timer β) : Prop where
  recurring : t'.recurring = t.recurring
  addr : t'.addr = t.addr
  cb : t'.cb = t.cb ∨ t'.cb = none

/-- A timer is later than itself. -/
@[refl] theorem Later.refl (t : Timer β) : t.Later t := ⟨rfl, rfl, .inl rfl⟩

/-- What is later than a later timer is later. -/
theorem Later.trans {t t' t'' : Timer β} (h : t.Later t') (h' : t'.Later t'') : t.Later t'' where
  recurring := h'.recurring.trans h.recurring
  addr := h'.addr.trans h.addr
  cb := by
    rcases h'.cb with heq | hnone
    · rw [heq]
      exact h.cb
    · exact .inr hnone

end Timer

namespace TimerManager

variable {m : TimerManager β} {P : Option β → Prop} {out : List ℕ} {id : ℕ}

/-- A later state of the manager, between two checks of the clock. -/
structure Later (m m' : TimerManager β) : Prop where
  timer : ∀ id t, m.timer id = some t → ∃ t', m'.timer id = some t' ∧ t.Later t'
  previouseTime : m'.previouseTime = m.previouseTime

/-! ## Reading and assigning -/

/-- The address that a pointer holds. -/
def addrOf (m : TimerManager β) (id : ℕ) : Option ℕ := (m.timer id).map (·.addr)

/-- The set with `timers_` replaced. -/
def withTimers (m : TimerManager β) (timers : List ℕ) : TimerManager β := { m with timers }

section fields

variable (m) (f : Timer β → Timer β) (l : List ℕ) (j : ℕ)

/-- Changing a timer does not move it in the set. -/
@[simp] theorem timers_setTimer : (m.setTimer id f).timers = m.timers := rfl

/-- Changing a timer leaves the time that was read last. -/
@[simp] theorem previouseTime_setTimer : (m.setTimer id f).previouseTime = m.previouseTime := rfl

/-- The one timer is changed, and no other. -/
theorem timer_setTimer :
    (m.setTimer id f).timer j = if j = id then (m.timer id).map f else m.timer j := by
  simp only [timer, setTimer, List.getElem?_modify]
  by_cases h : j = id
  · subst h
    simp
  · simp [h, Ne.symm h]

/-- The timer that is changed. -/
@[simp] theorem timer_setTimer_self : (m.setTimer id f).timer id = (m.timer id).map f := by
  simp [timer_setTimer]

/-- Every other timer. -/
theorem timer_setTimer_ne (h : j ≠ id) : (m.setTimer id f).timer j = m.timer j := by
  simp [timer_setTimer, h]

/-- The new order of the set. -/
@[simp] theorem timers_withTimers : (m.withTimers l).timers = l := rfl

/-- Ordering the set changes no timer. -/
@[simp] theorem timer_withTimers : (m.withTimers l).timer = m.timer := rfl

/-- Ordering the set leaves the time that was read last. -/
@[simp] theorem previouseTime_withTimers :
    (m.withTimers l).previouseTime = m.previouseTime := rfl

/-- Ordering the set moves no timer in memory. -/
@[simp] theorem addrOf_withTimers : (m.withTimers l).addrOf = m.addrOf := rfl

/-- Changing a timer and ordering the set commute. -/
@[simp] theorem setTimer_withTimers :
    (m.withTimers l).setTimer id f = (m.setTimer id f).withTimers l := rfl

/-- `insert` changes the set alone. -/
theorem insert_eq : (m.insert id).1 =
    m.withTimers (OrderedSet.insert Timer.comparator m.timer id m.timers).1 := rfl

/-- An assignment that leaves the address alone. -/
theorem addrOf_setTimer (hf : ∀ t, (f t).addr = t.addr) :
    (m.setTimer id f).addrOf j = m.addrOf j := by
  rw [addrOf, timer_setTimer]
  split
  case isTrue h =>
    subst h
    cases hj : m.timer j <;> simp [addrOf, hj, hf]
  case isFalse => rfl

end fields

/-! ## The invariant -/

/-- The set is ordered, and together with `out` it holds all timers with a callback, and only such
    with a callback as `P` says; no two of them are the same object. -/
structure Inv (m : TimerManager β) (P : Option β → Prop) (out : List ℕ) : Prop where
  ordered : OrderedSet.Ordered Timer.comparator m.timer m.timers
  armed : ∀ id ∈ m.timers ++ out, ∃ t, m.timer id = some t ∧ P t.cb
  complete : ∀ id t, m.timer id = some t → t.cb.isSome → id ∈ m.timers ++ out
  addrs : ((m.timers ++ out).map m.addrOf).Nodup

/-- Another set with the same timers outside and inside taken together. -/
theorem Inv.withTimers (h : m.Inv P out) {l out' : List ℕ}
    (hperm : (l ++ out').Perm (m.timers ++ out))
    (hl : OrderedSet.Ordered Timer.comparator m.timer l) : (m.withTimers l).Inv P out' where
  ordered := hl
  armed j hj := h.armed j (hperm.mem_iff.mp hj)
  complete j t ht hcb := hperm.mem_iff.mpr (h.complete j t ht hcb)
  addrs := (hperm.map m.addrOf).nodup_iff.mpr h.addrs

/-- No timer is in the set twice, or in it and out of it. -/
theorem Inv.nodup (h : m.Inv P out) : (m.timers ++ out).Nodup := h.addrs.of_map

/-- The order of the timers outside the set does not matter. -/
theorem Inv.perm (h : m.Inv P out) {out' : List ℕ} (hperm : out'.Perm out) : m.Inv P out' :=
  h.withTimers (hperm.append_left _) h.ordered

/-- A timer with a callback is in the set, unless it has been taken out. -/
theorem Inv.mem (h : m.Inv P []) {t : Timer β} (ht : m.timer id = some t) (hcb : t.cb.isSome) :
    id ∈ m.timers := by
  simpa using h.complete id t ht hcb

/-! ## Erasure -/

/-- Searching for a member finds it and not the end, and it is what is erased. -/
theorem find_erase (hm : OrderedSet.Ordered Timer.comparator m.timer m.timers)
    (hid : id ∈ m.timers) :
    m.find id < m.timers.length ∧
      m.erase (m.find id) = some (m.withTimers (m.timers.erase id)) := by
  obtain ⟨hlt, herase⟩ := OrderedSet.eraseIdx_find Timer.comparator_iff hm hid
  have hlt : m.find id < m.timers.length := hlt
  have herase : m.timers.eraseIdx (m.find id) = m.timers.erase id := herase
  refine ⟨hlt, ?_⟩
  rw [erase, if_pos hlt, herase]
  rfl

/-- A timer that is erased is outside. -/
theorem Inv.erase (h : m.Inv P out) (hid : id ∈ m.timers) :
    (m.withTimers (m.timers.erase id)).Inv P (id :: out) := by
  refine h.withTimers ?_ (h.ordered.sublist List.erase_sublist)
  calc m.timers.erase id ++ id :: out
      _ |>.Perm (id :: (m.timers.erase id ++ out)) := List.perm_middle
      _ |>.Perm (m.timers ++ out) := (List.perm_cons_erase hid).symm.append_right out

/-! ## Assignments to a timer outside the set -/

/-- A timer that is outside is not in the set. -/
theorem Inv.notMem (h : m.Inv P (id :: out)) : id ∉ m.timers := fun hmem =>
  (List.nodup_append.mp h.nodup).2.2 id hmem id (by simp) rfl

/-- The order of the set depends on the places of its members only. -/
theorem ordered_congr {timer timer' : ℕ → Option (Timer β)} {l : List ℕ}
    (hkey : ∀ j ∈ l, Timer.key (timer' j) = Timer.key (timer j))
    (h : OrderedSet.Ordered Timer.comparator timer l) :
    OrderedSet.Ordered Timer.comparator timer' l := by
  refine List.Pairwise.imp_of_mem ?_ h
  intro a b ha hb hab
  rw [Timer.comparator_congr (hkey a ha) (hkey b hb)]
  exact hab

/-- Changing a timer that is outside keeps the set in order. -/
theorem ordered_setTimer (f : Timer β → Timer β) (hid : id ∉ m.timers)
    (h : OrderedSet.Ordered Timer.comparator m.timer m.timers) :
    OrderedSet.Ordered Timer.comparator (m.setTimer id f).timer m.timers := by
  apply ordered_congr _ h
  intro j hj
  rw [timer_setTimer_ne m f j (ne_of_mem_of_not_mem hj hid)]

/-- A timer outside the set is given another deadline. -/
theorem Inv.setTimer (h : m.Inv P (id :: out)) {f : Timer β → Timer β}
    (hcb : ∀ t, (f t).cb = t.cb) (haddr : ∀ t, (f t).addr = t.addr) :
    (m.setTimer id f).Inv P (id :: out) where
  ordered := ordered_setTimer f h.notMem h.ordered
  armed j hj := by
    obtain ⟨t, ht, hsome⟩ := h.armed j hj
    by_cases hji : j = id
    · subst hji
      exact ⟨f t, by simp [ht], by simpa [hcb] using hsome⟩
    · exact ⟨t, by rw [timer_setTimer_ne m f j hji, ht], hsome⟩
  complete j t ht hsome := by
    by_cases hji : j = id
    · simp [hji]
    · rw [timer_setTimer_ne m f j hji] at ht
      exact h.complete j t ht hsome
  addrs := by
    have hmap : (m.setTimer id f).addrOf = m.addrOf :=
      funext fun j => addrOf_setTimer m f j haddr
    rw [hmap]
    exact h.addrs

/-- A timer outside the set loses its callback. -/
theorem Inv.disarm (h : m.Inv P (id :: out)) :
    (m.setTimer id fun t => { t with cb := none }).Inv P out := by
  have hne : ∀ j ∈ m.timers ++ out, j ≠ id := by
    intro j hj heq
    subst heq
    have hnodup := (List.perm_middle.nodup_iff).mp h.nodup
    exact (List.nodup_cons.mp hnodup).1 hj
  refine ⟨ordered_setTimer _ h.notMem h.ordered, fun j hj => ?_, fun j t ht hsome => ?_, ?_⟩
  · rw [timer_setTimer_ne m _ j (hne j hj)]
    exact h.armed j (List.perm_middle.mem_iff.mpr (List.mem_cons_of_mem _ hj))
  · by_cases hji : j = id
    · subst hji
      obtain ⟨t', -, rfl⟩ := Option.map_eq_some_iff.mp (timer_setTimer_self m _ ▸ ht)
      simp at hsome
    · rw [timer_setTimer_ne m _ j hji] at ht
      have hmem := List.perm_middle.mem_iff.mp (h.complete j t ht hsome)
      exact (List.mem_cons.mp hmem).resolve_left hji
  · have hmap : (m.setTimer id fun t => { t with cb := none }).addrOf = m.addrOf :=
      funext fun j => addrOf_setTimer m _ j fun _ => rfl
    rw [hmap]
    have hsub : (m.timers ++ out).Sublist (m.timers ++ id :: out) :=
      List.Sublist.append_left (List.sublist_cons_self id out) m.timers
    exact h.addrs.sublist (hsub.map _)

/-! ## Insertion -/

/-- No other armed timer has the place of one outside the set. -/
theorem Inv.key_ne (h : m.Inv P (id :: out)) :
    ∀ j ∈ m.timers, Timer.key (m.timer j) ≠ Timer.key (m.timer id) := by
  intro j hj heq
  obtain ⟨t, ht, -⟩ := h.armed id (by simp)
  obtain ⟨u, hu, -⟩ := h.armed j (List.mem_append_left _ hj)
  have haddr : m.addrOf j ≠ m.addrOf id :=
    (List.nodup_append.mp (List.map_append ▸ h.addrs)).2.2 _ (List.mem_map_of_mem hj) _
      (List.mem_map_of_mem (by simp))
  rw [ht, hu] at heq
  have hpair : (u.next, u.addr) = (t.next, t.addr) := toLex.injective (WithBot.coe_injective heq)
  exact haddr (by simp [addrOf, ht, hu, (Prod.mk.inj hpair).2])

/-- A timer that is inserted is in the set. -/
theorem Inv.insert (h : m.Inv P (id :: out)) : (m.insert id).1.Inv P out := by
  have hkey := h.key_ne
  rw [insert_eq]
  refine h.withTimers ?_ (h.ordered.insert Timer.comparator_iff hkey)
  calc (OrderedSet.insert Timer.comparator m.timer id m.timers).1 ++ out
      _ |>.Perm (id :: m.timers ++ out) :=
        (OrderedSet.insert_perm Timer.comparator_iff hkey).append_right out
      _ |>.Perm (m.timers ++ id :: out) := List.perm_middle.symm

/-! ## Creation -/

/-- A timer that is constructed is the last object. -/
theorem timer_construct (m : TimerManager β) (ms : ℕ) (cb : Option β) (recurring : Bool)
    (addr now j : ℕ) : (m.construct ms cb recurring addr now).1.timer j =
      if j = m.objects.length then some (Timer.create ms cb recurring addr now) else m.timer j := by
  simp only [construct, timer]
  by_cases h : j = m.objects.length
  · simp [h]
  · rw [if_neg h]
    by_cases hlt : j < m.objects.length
    · rw [List.getElem?_append_left hlt]
    · simp only [List.getElem?_append_right (not_lt.mp hlt)]
      rw [List.getElem?_eq_none (by simp; omega), List.getElem?_eq_none (by omega)]

/-- Every timer is an object. -/
theorem lt_of_timer {t : Timer β} (h : m.timer id = some t) : id < m.objects.length :=
  (List.getElem?_eq_some_iff.mp h).1

/-- Every object is a timer. -/
theorem exists_timer (h : id < m.objects.length) : ∃ t, m.timer id = some t :=
  ⟨_, List.getElem?_eq_getElem h⟩

/-- A new object, outside the set, at an address that no armed timer has. -/
theorem Inv.construct (h : m.Inv P out) {ms addr now : ℕ} {cb : Option β} {recurring : Bool}
    (hcb : P cb) (haddr : ∀ j ∈ m.timers ++ out, m.addrOf j ≠ some addr) :
    (m.construct ms cb recurring addr now).1.Inv P (m.objects.length :: out) := by
  have hlt : ∀ j ∈ m.timers ++ out, j ≠ m.objects.length := by
    intro j hj
    obtain ⟨t, ht, -⟩ := h.armed j hj
    exact (lt_of_timer ht).ne
  have hold : ∀ j ∈ m.timers ++ out,
      (m.construct ms cb recurring addr now).1.timer j = m.timer j := by
    intro j hj
    rw [timer_construct, if_neg (hlt j hj)]
  -- the order, the armed timers, completeness, and the addresses
  refine ⟨ordered_congr (fun j hj => ?_) h.ordered, fun j hj => ?_, fun j t ht hsome => ?_, ?_⟩
  · rw [hold j (List.mem_append_left _ hj)]
  · rcases List.mem_cons.mp (List.perm_middle.mem_iff.mp hj) with rfl | hj
    · exact ⟨_, by rw [timer_construct, if_pos rfl], hcb⟩
    · rw [hold j hj]
      exact h.armed j hj
  · rw [timer_construct] at ht
    refine List.perm_middle.mem_iff.mpr ?_
    split at ht
    case isTrue heq => simp [heq]
    case isFalse => exact List.mem_cons_of_mem _ (h.complete j t ht hsome)
  -- the set tells timers with one due time apart by their addresses
  · refine (List.perm_middle.map _).nodup_iff.mpr ?_
    have hmap : (m.timers ++ out).map (m.construct ms cb recurring addr now).1.addrOf =
        (m.timers ++ out).map m.addrOf :=
      List.map_congr_left fun j hj => by rw [addrOf, hold j hj, addrOf]
    rw [List.map_cons, List.nodup_cons]
    show _ ∉ (m.timers ++ out).map _ ∧ ((m.timers ++ out).map _).Nodup
    rw [hmap]
    refine ⟨fun hmem => ?_, h.addrs⟩
    obtain ⟨j, hj, heq⟩ := List.mem_map.mp hmem
    exact haddr j hj (by rw [heq, addrOf, timer_construct, if_pos rfl]; rfl)

/-! ## The operations -/

/-- A manager is later than itself. -/
@[refl] theorem Later.refl (m : TimerManager β) : m.Later m :=
  ⟨fun _ t ht => ⟨t, ht, .refl t⟩, rfl⟩

/-- What is later than a later manager is later. -/
theorem Later.trans {m m' m'' : TimerManager β} (h : m.Later m') (h' : m'.Later m'') :
    m.Later m'' where
  timer j t ht := by
    obtain ⟨t', ht', hlater⟩ := h.timer j t ht
    obtain ⟨t'', ht'', hlater'⟩ := h'.timer j t' ht'
    exact ⟨t'', ht'', hlater.trans hlater'⟩
  previouseTime := h'.previouseTime.trans h.previouseTime

/-- Changing one timer to a later one makes the manager later. -/
theorem Later.setTimer {f : Timer β → Timer β} (hf : ∀ t : Timer β, t.Later (f t)) :
    m.Later (m.setTimer id f) where
  timer j t ht := by
    by_cases hji : j = id
    · subst hji
      exact ⟨f t, by simp [ht], hf t⟩
    · exact ⟨t, by rw [timer_setTimer_ne m f j hji, ht], .refl t⟩
  previouseTime := rfl

/-- Ordering the set changes no timer. -/
theorem Later.withTimers (m : TimerManager β) (l : List ℕ) : m.Later (m.withTimers l) :=
  ⟨fun _ t ht => ⟨t, ht, .refl t⟩, rfl⟩

/-- Inserting changes no timer. -/
theorem Later.insert (m : TimerManager β) (id : ℕ) : m.Later (m.insert id).1 :=
  Later.withTimers _ _

/-- Erased and given another deadline. -/
theorem Later.moved (m : TimerManager β) (id : ℕ) {l : List ℕ} {f : Timer β → Timer β}
    (hf : ∀ t : Timer β, t.Later (f t)) : m.Later ((m.withTimers l).setTimer id f) :=
  (Later.withTimers m l).trans (Later.setTimer hf)

/-- Constructing a timer changes no other. -/
theorem Later.construct (m : TimerManager β) (ms : ℕ) (cb : Option β) (recurring : Bool)
    (addr now : ℕ) : m.Later (m.construct ms cb recurring addr now).1 where
  timer j t ht := by
    refine ⟨t, ?_, .refl t⟩
    rw [timer_construct, if_neg (lt_of_timer ht).ne, ht]
  previouseTime := rfl

/-- `addTimer` under the lock inserts, and may note that an idle thread is to be woken. -/
theorem addTimerLocked_eq (m : TimerManager β) (id : ℕ) :
    ∃ tickled, (m.addTimerLocked id).2 = { (m.insert id).1 with tickled } := by
  simp only [addTimerLocked]
  split
  · exact ⟨true, rfl⟩
  · exact ⟨_, rfl⟩

/-- It changes no timer. -/
theorem Later.addTimerLocked (m : TimerManager β) (id : ℕ) : m.Later (m.addTimerLocked id).2 := by
  obtain ⟨tickled, heq⟩ := addTimerLocked_eq m id
  rw [heq]
  exact ⟨fun _ t ht => ⟨t, ht, .refl t⟩, rfl⟩

/-- `addTimer` under the lock is the insertion; `tickled_` does not matter to the set. -/
theorem Inv.addTimerLocked (h : m.Inv P (id :: out)) : (m.addTimerLocked id).2.Inv P out := by
  obtain ⟨tickled, heq⟩ := addTimerLocked_eq m id
  rw [heq]
  exact ⟨h.insert.ordered, h.insert.armed, h.insert.complete, h.insert.addrs⟩

/-- A timer that is added is in the set, given an address that none of the others has. -/
theorem Inv.addTimer (h : m.Inv P out) {ms addr now : ℕ} {cb : Option β} {recurring : Bool}
    (hcb : P cb) (haddr : ∀ j ∈ m.timers ++ out, m.addrOf j ≠ some addr) :
    (m.addTimer ms cb recurring addr now).1.Inv P out :=
  (h.construct hcb haddr).addTimerLocked

/-- Adding a timer changes no other. -/
theorem Later.addTimer (m : TimerManager β) (ms : ℕ) (cb : Option β) (recurring : Bool)
    (addr now : ℕ) : m.Later (m.addTimer ms cb recurring addr now).1 :=
  (Later.construct m ms cb recurring addr now).trans (Later.addTimerLocked _ _)

/-- Erased, given another deadline and inserted again. -/
theorem Inv.moved (h : m.Inv P out) (hid : id ∈ m.timers) {f : Timer β → Timer β}
    (hcb : ∀ t, (f t).cb = t.cb) (haddr : ∀ t, (f t).addr = t.addr) :
    ((m.withTimers (m.timers.erase id)).setTimer id f).Inv P (id :: out) :=
  (h.erase hid).setTimer hcb haddr

/-- A timer that is armed and outside the set is not found. -/
theorem Inv.find_eq_length (h : m.Inv P out) (hid : id ∈ out) : m.find id = m.timers.length := by
  have hcons : m.Inv P (id :: out.erase id) := h.perm (List.perm_cons_erase hid).symm
  exact OrderedSet.find_eq_length Timer.comparator_iff hcons.key_ne

/-- `Timer::cancel` of a timer in the set: it leaves the set, and its callback is gone. -/
theorem Inv.cancel (h : m.Inv P out) {t : Timer β} (ht : m.timer id = some t)
    (hcb : t.cb.isSome) (hid : id ∈ m.timers) :
    ∃ m', m.cancel id = some (true, m') ∧ m'.Inv P out ∧ m.Later m' ∧
      ∀ t, m'.timer id = some t → t.cb = none := by
  let m₁ := m.setTimer id fun t => { t with cb := none }
  -- The callback is cleared before the search, which looks at other fields.
  have hordered : OrderedSet.Ordered Timer.comparator m₁.timer m₁.timers := by
    refine ordered_congr (fun j _ => ?_) h.ordered
    rw [timer_setTimer]
    split
    case isTrue heq =>
      subst heq
      cases m.timer j <;> rfl
    case isFalse => rfl
  obtain ⟨-, herase⟩ := find_erase hordered hid
  refine ⟨m₁.withTimers (m.timers.erase id), ?_, (h.erase hid).disarm, ?_, fun t ht => ?_⟩
  · simp only [TimerManager.cancel, ht, Option.bind_eq_bind, Option.bind_some, hcb, if_true]
    show (m₁.erase (m₁.find id)).bind _ = _
    rw [herase]
    rfl
  · exact Later.moved m id (l := m.timers.erase id) fun t => ⟨rfl, rfl, .inr rfl⟩
  · obtain ⟨t', -, rfl⟩ := Option.map_eq_some_iff.mp (timer_setTimer_self m _ ▸ ht)
    rfl

/-- A timer without a callback is not cancelled again. -/
theorem cancel_disarmed {t : Timer β} (ht : m.timer id = some t) (hcb : t.cb = none) :
    m.cancel id = some (false, m) := by
  simp [TimerManager.cancel, ht, hcb]

/-- `Timer::refresh`: whatever the timer, there is no fault, and it is found if it is armed. -/
theorem Inv.refresh (h : m.Inv P out) {t : Timer β} (ht : m.timer id = some t) (now : ℕ) :
    ∃ b m', m.refresh id now = some (b, m') ∧ (id ∉ out → b = t.cb.isSome) ∧
      m'.Inv P out ∧ m.Later m' := by
  by_cases hcb : t.cb = none
  · exact ⟨false, m, by simp [TimerManager.refresh, ht, hcb], by simp [hcb], h, .refl m⟩
  have hsome : t.cb.isSome = true := Option.isSome_iff_ne_none.mpr hcb
  by_cases hid : id ∈ m.timers
  · obtain ⟨hlt, herase⟩ := find_erase h.ordered hid
    refine ⟨true, _, ?_, fun _ => hsome.symm,
      (h.moved hid (f := fun t => { t with next := (now + t.ms) % 2 ^ 64 })
        (fun _ => rfl) fun _ => rfl).insert, ?_⟩
    · simp [TimerManager.refresh, ht, hcb, hlt.ne, herase]
    · refine Later.trans ?_ (Later.insert _ _)
      exact Later.moved m id fun t => ⟨rfl, rfl, .inl rfl⟩
  · have hmem : id ∈ out := (List.mem_append.mp (h.complete id t ht hsome)).resolve_left hid
    refine ⟨false, m, ?_, fun hout => absurd hmem hout, h, .refl m⟩
    simp [TimerManager.refresh, ht, h.find_eq_length hmem]

/-- `Timer::reset` from the lock on: it fails only on a timer that is not in the set yet. -/
theorem Inv.resetLocked (h : m.Inv P out) {t : Timer β} (ht : m.timer id = some t) (ms : ℕ)
    (fromNow : Bool) (now : ℕ) :
    ∃ b m', m.resetLocked id ms fromNow now = some (b, m') ∧ (id ∉ out → b = true) ∧
      m'.Inv P out ∧ m.Later m' := by
  by_cases hcb : t.cb = none
  · exact ⟨true, m, by simp [TimerManager.resetLocked, ht, hcb], fun _ => rfl, h, .refl m⟩
  by_cases hid : id ∈ m.timers
  · obtain ⟨hlt, herase⟩ := find_erase h.ordered hid
    let next := ((if fromNow then now else (t.next + 2 ^ 64 - t.ms) % 2 ^ 64) + ms) % 2 ^ 64
    have hmoved := h.moved hid (f := fun t => { t with ms, next }) (fun _ => rfl) fun _ => rfl
    refine ⟨true, _, ?_, fun _ => rfl, hmoved.addTimerLocked, ?_⟩
    · simp only [TimerManager.resetLocked, ht, Option.bind_eq_bind, Option.bind_some,
        Option.isNone_eq_false_iff.mpr (Option.isSome_iff_ne_none.mpr hcb), Bool.false_eq_true,
        if_false, if_neg hlt.ne, herase]
      rfl
    · refine Later.trans ?_ (Later.addTimerLocked _ _)
      exact Later.moved m id fun t => ⟨rfl, rfl, .inl rfl⟩
  · have hmem : id ∈ out := (List.mem_append.mp
      (h.complete id t ht (Option.isSome_iff_ne_none.mpr hcb))).resolve_left hid
    refine ⟨false, m, ?_, fun hout => absurd hmem hout, h, .refl m⟩
    simp [TimerManager.resetLocked, ht, hcb, h.find_eq_length hmem]

/-- `reset` goes through, takes the timer to its new time and keeps the order. -/
theorem Inv.reset (h : m.Inv P out) {t : Timer β} (ht : m.timer id = some t) (ms : ℕ)
    (fromNow : Bool) (now : ℕ) :
    ∃ b m', m.reset id ms fromNow now = some (b, m') ∧ (id ∉ out → b = true) ∧
      m'.Inv P out ∧ m.Later m' := by
  by_cases hsame : ms = t.ms ∧ !fromNow
  · exact ⟨true, m, by simp [TimerManager.reset, ht, hsame], fun _ => rfl, h, .refl m⟩
  · obtain ⟨b, m', heq, hrest⟩ := h.resetLocked ht ms fromNow now
    refine ⟨b, m', ?_, hrest⟩
    simp only [TimerManager.reset, ht, Option.bind_eq_bind, Option.bind_some]
    rw [if_neg hsame, heq]

end TimerManager

end RaftStore
