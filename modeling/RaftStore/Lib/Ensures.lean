import Mathlib.Logic.Basic

namespace RaftStore

/-!
# What a computation ensures

A computation in `Except` returns a value or ends with an exception.  `Ensures E Q x` says which:
the value satisfies `Q`, or the exception satisfies `E`.

* `Ensures.bind` — the second computation starts from what the first ensures.
* `Ensures.imp`, `Ensures.ite` — weaker conditions, and a choice.
* `Ensures.of_ok`, `Ensures.of_error` — what is known of a result.
* `Ensures.of_map_eq_ok` — what is known of a result that a function is applied to.
-/

universe u v

variable {ε : Type u} {α β : Type v} {E F : ε → Prop} {P Q : α → Prop}

/-- The value satisfies `Q`, or the exception satisfies `E`. -/
def Ensures (E : ε → Prop) (Q : α → Prop) : Except ε α → Prop
  | .ok a => Q a
  | .error e => E e

/-- A value ensures what holds of it. -/
@[simp] theorem ensures_ok {a : α} : Ensures E Q (.ok a) ↔ Q a := Iff.rfl

/-- So does a value that is returned. -/
@[simp] theorem ensures_pure {a : α} : Ensures E Q (pure a) ↔ Q a := Iff.rfl

/-- An error ensures what holds of the error. -/
@[simp] theorem ensures_error {e : ε} : Ensures E Q (.error e) ↔ E e := Iff.rfl

/-- Behind a value comes the other half. -/
@[simp] theorem ensures_ok_bind {a : α} {f : α → Except ε β} {R : β → Prop} :
    Ensures E R (.ok a >>= f) ↔ Ensures E R (f a) := Iff.rfl

/-- A rewriting rule: to unfold `bind` would also unfold `f a`. -/
theorem ok_bind (a : α) (f : α → Except ε β) : (.ok a >>= f) = f a := rfl

namespace Ensures

variable {x : Except ε α}

/-- Weaker conditions are ensured too. -/
theorem imp (h : Ensures E P x) (hEF : ∀ e, E e → F e) (hPQ : ∀ a, P a → Q a) :
    Ensures F Q x := by
  cases x with
  | ok a => exact hPQ a h
  | error e => exact hEF e h

/-- What the second half ensures from every value of the first. -/
theorem bind {f : α → Except ε β} {R : β → Prop} (h : Ensures E P x)
    (hf : ∀ a, P a → Ensures E R (f a)) : Ensures E R (x >>= f) := by
  cases x with
  | ok a => exact hf a h
  | error e => exact h

/-- What both branches ensure. -/
theorem ite {c : Prop} [Decidable c] {y : Except ε α} (hx : c → Ensures E Q x)
    (hy : ¬c → Ensures E Q y) : Ensures E Q (if c then x else y) := by
  split
  case isTrue h => exact hx h
  case isFalse h => exact hy h

/-- The condition on a value that is known. -/
theorem of_ok (h : Ensures E Q x) {a : α} (hx : x = .ok a) : Q a := by
  subst hx
  exact h

/-- The condition on a value whose image is known. -/
theorem of_map_eq_ok (h : Ensures E Q x) {f : α → β} {b : β} (hx : x.map f = .ok b) :
    ∃ a, Q a ∧ f a = b := by
  cases x with
  | ok a => exact ⟨a, h, Except.ok.inj hx⟩
  | error e => cases hx

/-- Without exceptions there is a value. -/
theorem exists_ok (h : Ensures E Q x) (hE : ∀ e, ¬ E e) : ∃ a, x = .ok a ∧ Q a := by
  cases x with
  | ok a => exact ⟨a, rfl, h⟩
  | error e => exact absurd h (hE e)

/-- The condition on an error that is known. -/
theorem of_error (h : Ensures E Q x) {e : ε} (hx : x = .error e) : E e := by
  subst hx
  exact h

end Ensures

end RaftStore
