import Mathlib.Tactic.Common

/-!
# Computations that may fail

`Ensures allowed x Q` says that `x` returns a value that satisfies `Q`, or fails
with a fault that is allowed. With no fault allowed this is total correctness,
with all of them it is partial correctness.
-/

namespace Listbrokers.Framework

variable {ε α β : Type} {allowed : ε → Prop}

/-- The computation returns a value that satisfies `Q`, or fails with an allowed fault. -/
def Ensures (allowed : ε → Prop) (x : Except ε α) (Q : α → Prop) : Prop :=
  match x with
  | .ok a => Q a
  | .error e => allowed e

/-- Fails with the given fault unless the condition holds. -/
def check (c : Prop) [Decidable c] (e : ε) : Except ε Unit := if c then .ok () else .error e

/-- The fault with which a computation fails. -/
def faultOf : Except ε α → Option ε
  | .ok _ => none
  | .error e => some e

theorem eq_error_of_faultOf {x : Except ε α} {e : ε} (h : faultOf x = some e) : x = .error e := by
  cases x with
  | ok a => cases h
  | error e' =>
    cases h
    rfl

theorem ok_of_toOption {x : Except ε α} {a : α} (h : x.toOption = some a) : x = .ok a := by
  cases x with
  | ok b =>
    cases h
    rfl
  | error f => cases h

theorem some_ok_of_toOption {x : Option (Except ε α)} {a : α} (h : x.bind Except.toOption = some a) :
    x = some (.ok a) := by
  obtain ⟨r, rfl, hr⟩ := Option.bind_eq_some_iff.mp h
  rw [ok_of_toOption hr]

/-- Both parts of a computation that succeeds have succeeded. -/
theorem bind_eq_ok {x : Except ε α} {f : α → Except ε β} {b : β} (h : x >>= f = .ok b) :
    ∃ a, x = .ok a ∧ f a = .ok b := by
  cases x with
  | ok a => exact ⟨a, rfl, h⟩
  | error e => cases h

theorem map_eq_ok {x : Except ε α} {f : α → β} {b : β} : x.map f = .ok b ↔ ∃ a, x = .ok a ∧ f a = b := by
  cases x <;> simp [Except.map]

theorem map_eq_error {x : Except ε α} {f : α → β} {e : ε} : x.map f = .error e ↔ x = .error e := by
  cases x <;> simp [Except.map]

namespace Ensures

variable {x : Except ε α} {f : α → Except ε β} {Q Q' : α → Prop} {R : β → Prop}

theorem pure {a : α} (h : Q a) : Ensures allowed (.ok a : Except ε α) Q := h

theorem error {e : ε} (h : allowed e) : Ensures allowed (.error e : Except ε α) Q := h

theorem bind (hx : Ensures allowed x Q) (hf : ∀ a, Q a → Ensures allowed (f a) R) : Ensures allowed (x >>= f) R := by
  cases x with
  | ok a => exact hf a hx
  | error e => exact hx

theorem map {g : α → β} (hx : Ensures allowed x Q) (hg : ∀ a, Q a → R (g a)) : Ensures allowed (g <$> x) R := by
  cases x with
  | ok a => exact hg a hx
  | error e => exact hx

theorem mono (hx : Ensures allowed x Q) (h : ∀ a, Q a → Q' a) : Ensures allowed x Q' := by
  cases x with
  | ok a => exact h a hx
  | error e => exact hx

theorem and (hx : Ensures allowed x Q) (hx' : Ensures allowed x Q') : Ensures allowed x fun a => Q a ∧ Q' a := by
  cases x with
  | ok a => exact ⟨hx, hx'⟩
  | error e => exact hx

theorem ok {a : α} (hx : Ensures allowed x Q) (h : x = .ok a) : Q a := by
  rw [h] at hx
  exact hx

/-- Total correctness. -/
theorem exists_ok (hx : Ensures (fun _ => False) x Q) : ∃ a, x = .ok a ∧ Q a := by
  cases x with
  | ok a => exact ⟨a, rfl, hx⟩
  | error e => exact hx.elim

theorem fault {e : ε} (hx : Ensures allowed x Q) (h : x = .error e) : allowed e := by
  rw [h] at hx
  exact hx

/-- A check that may fail: what is checked holds from then on. -/
theorem check_bind {c : Prop} [Decidable c] {e : ε} {k : Unit → Except ε β} (he : ¬ c → allowed e)
    (hk : c → Ensures allowed (k ()) R) : Ensures allowed (check c e >>= k) R := by
  rw [check]
  split
  · exact hk ‹_›
  · exact he ‹_›

theorem ite {c : Prop} [Decidable c] {y : Except ε α} (hx : c → Ensures allowed x Q) (hy : ¬ c → Ensures allowed y Q) :
    Ensures allowed (if c then x else y) Q := by
  split
  · exact hx ‹_›
  · exact hy ‹_›

end Ensures

end Listbrokers.Framework
