import Mathlib.Data.List.DropRight
import Mathlib.Data.Int.Order.Basic

namespace RaftStore

/-!
# Delivery from a log that is compacted

A consumer is handed the items of a log one after the other, and now and then something that
stands for all items up to an index instead.  A cursor holds the index up to which everything
has been handed over in one way or the other.

* `Delivery` — an item with its index, or a jump; `β` tells the kinds of jump apart.
* `Follows ds c` — the deliveries `ds` took the cursor from 0 to `c`.
* `Follows.pairwise_indices` — items come in increasing order of their indices.
* `Follows.skipped` — an index that no item has lies under a jump between the two items around it.
-/

/-- One delivery. -/
inductive Delivery (α β : Type*)
  | item (index : Int) (a : α)
  | jump (index : Int) (b : β)
  deriving DecidableEq, Repr

variable {α β : Type*}

namespace Delivery

/-- The index of an item. -/
def itemIndex : Delivery α β → Option Int
  | item index _ => some index
  | jump _ _ => none

/-- A jump stands for every index up to its own. -/
def Covers (i : Int) : Delivery α β → Prop
  | item _ _ => False
  | jump index _ => i ≤ index

end Delivery

/-- The indices of the items, in the order of delivery. -/
def itemIndices (ds : List (Delivery α β)) : List Int := ds.filterMap Delivery.itemIndex

/-- The index of the last item, 0 before the first. -/
def lastItem (ds : List (Delivery α β)) : Int := (itemIndices ds).getLast?.getD 0

/-- What was delivered after the last item. -/
def sinceItem (ds : List (Delivery α β)) : List (Delivery α β) :=
  ds.rtakeWhile fun d => d.itemIndex.isNone

section concat

variable (ds : List (Delivery α β)) (i : Int) (a : α) (b : β)

/-- Nothing was delivered. -/
@[simp] theorem itemIndices_nil : itemIndices ([] : List (Delivery α β)) = [] := rfl

/-- An item has its index. -/
@[simp] theorem itemIndices_concat_item :
    itemIndices (ds ++ [.item i a]) = itemIndices ds ++ [i] := by
  simp [itemIndices, Delivery.itemIndex]

/-- A jump is no item. -/
@[simp] theorem itemIndices_concat_jump : itemIndices (ds ++ [.jump i b]) = itemIndices ds := by
  simp [itemIndices, Delivery.itemIndex]

/-- Before the first item the last index is 0. -/
@[simp] theorem lastItem_nil : lastItem ([] : List (Delivery α β)) = 0 := rfl

/-- The last item is the new one. -/
@[simp] theorem lastItem_concat_item : lastItem (ds ++ [.item i a]) = i := by
  simp [lastItem]

/-- A jump is not an item that is last. -/
@[simp] theorem lastItem_concat_jump : lastItem (ds ++ [.jump i b]) = lastItem ds := by
  simp [lastItem]

/-- Nothing was delivered since an item. -/
@[simp] theorem sinceItem_concat_item : sinceItem (ds ++ [.item i a]) = [] := by
  simp [sinceItem, Delivery.itemIndex]

/-- A jump was delivered since the last item. -/
@[simp] theorem sinceItem_concat_jump :
    sinceItem (ds ++ [.jump i b]) = sinceItem ds ++ [.jump i b] := by
  simp [sinceItem, Delivery.itemIndex]

end concat

/-- The deliveries took the cursor to `c`: an item is the next one, and a jump does not move the
    cursor back. -/
inductive Follows : List (Delivery α β) → Int → Prop
  | nil : Follows [] 0
  | item {ds : List (Delivery α β)} {c : Int} (h : Follows ds c) (a : α) :
      Follows (ds ++ [.item (c + 1) a]) (c + 1)
  | jump {ds : List (Delivery α β)} {c : Int} (h : Follows ds c) (k : Int) (b : β) :
      Follows (ds ++ [.jump k b]) (max c k)

namespace Follows

variable {ds : List (Delivery α β)} {c : Int}

/-- No item is beyond the cursor. -/
theorem le_of_mem (h : Follows ds c) : ∀ i ∈ itemIndices ds, i ≤ c := by
  induction h with
  | nil => simp
  | item h a ih =>
    intro i hi
    rw [itemIndices_concat_item, List.mem_append, List.mem_singleton] at hi
    rcases hi with hi | rfl
    · exact (ih i hi).trans (by omega)
    · exact le_rfl
  | jump h k b ih =>
    intro i hi
    rw [itemIndices_concat_jump] at hi
    exact (ih i hi).trans (le_max_left _ _)

/-- **Order.**  The indices of the items increase. -/
theorem pairwise_indices (h : Follows ds c) : (itemIndices ds).Pairwise (· < ·) := by
  induction h with
  | nil => simp
  | item h a ih =>
    rw [itemIndices_concat_item, List.pairwise_append]
    refine ⟨ih, List.pairwise_singleton _ _, fun i hi j hj => ?_⟩
    have hle := h.le_of_mem i hi
    have hj := List.mem_singleton.mp hj
    show i < j
    omega
  | jump h k b ih => simpa using ih

/-- What lies between the last item and the cursor is under a jump made since. -/
theorem covered (h : Follows ds c) {i : Int} (hlo : lastItem ds < i) (hhi : i ≤ c) :
    ∃ d ∈ sinceItem ds, d.Covers i := by
  induction h with
  | nil =>
    rw [lastItem_nil] at hlo
    omega
  | item h a ih =>
    rw [lastItem_concat_item] at hlo
    omega
  | @jump ds c h k b ih =>
    rw [lastItem_concat_jump] at hlo
    rw [sinceItem_concat_jump]
    by_cases hc : i ≤ c
    · obtain ⟨d, hd, hcov⟩ := ih hlo hc
      exact ⟨d, List.mem_append_left _ hd, hcov⟩
    · refine ⟨.jump k b, by simp, ?_⟩
      show i ≤ k
      omega

/-- A beginning of the deliveries took the cursor somewhere, and what came next was in step. -/
theorem of_append {pre post : List (Delivery α β)} {d : Delivery α β}
    (h : Follows ds c) (hds : ds = pre ++ d :: post) :
    ∃ c', Follows pre c' ∧ ∀ i a, d = .item i a → i = c' + 1 := by
  induction h generalizing post with
  | nil => simp at hds
  | @item ds c h a ih =>
    rcases List.eq_nil_or_concat' post with rfl | ⟨post', d', rfl⟩
    · obtain ⟨rfl, hd⟩ := List.append_inj' hds rfl
      refine ⟨c, h, fun i a' hi => ?_⟩
      rw [← List.singleton_inj.mp hd] at hi
      exact (Delivery.item.inj hi).1.symm
    · rw [← List.cons_append, ← List.append_assoc] at hds
      exact ih (List.append_inj_left' hds rfl)
  | @jump ds c h k b ih =>
    rcases List.eq_nil_or_concat' post with rfl | ⟨post', d', rfl⟩
    · obtain ⟨rfl, hd⟩ := List.append_inj' hds rfl
      refine ⟨c, h, fun i a hi => ?_⟩
      rw [← List.singleton_inj.mp hd] at hi
      cases hi
    · rw [← List.cons_append, ← List.append_assoc] at hds
      exact ih (List.append_inj_left' hds rfl)

/-- **Nothing is lost.**  Every index between an item and the one before it lies under a jump made
    between the two. -/
theorem skipped {pre post : List (Delivery α β)} {i : Int} {a : α} (h : Follows ds c)
    (hds : ds = pre ++ .item i a :: post) {j : Int} (hlo : lastItem pre < j) (hhi : j < i) :
    ∃ d ∈ sinceItem pre, d.Covers j := by
  obtain ⟨c', hpre, hnext⟩ := h.of_append hds
  have hi := hnext i a rfl
  exact hpre.covered hlo (by omega)

/-- Items with consecutive indices, handed over in a row. -/
theorem items (h : Follows ds c) (index : α → Int) {as : List α}
    (hindex : ∀ (k : ℕ) a, as[k]? = some a → index a = c + 1 + k) :
    Follows (ds ++ as.map fun a => .item (index a) a) (c + as.length) := by
  induction as generalizing ds c with
  | nil => simpa using h
  | cons a as ih =>
    have hfirst : index a = c + 1 := by simpa using hindex 0 a rfl
    have hrest := ih (h.item a) fun k b hb => by
      have hk := hindex (k + 1) b hb
      push_cast at hk
      omega
    rw [List.map_cons, hfirst, List.length_cons, List.append_cons]
    push_cast
    rwa [show c + ((as.length : Int) + 1) = c + 1 + as.length by omega]

end Follows

end RaftStore
