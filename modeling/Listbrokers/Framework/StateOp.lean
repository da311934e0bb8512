import Mathlib.Logic.Relation

/-!
# Operations on a state that may fail

An operation `Op σ α` takes a state to a result and a new state, or fails
(`none`). Three ways to speak of one, each with its rules for `pure`, `bind`
and the loops over a list:

* `Leads total m s Q`: if `m` returns from `s`, then with `Q` of its result and
  of the new state; with `total`, it does return;
* `Keeps R m`: whenever `m` returns, old and new state are related by `R`;
* `Agrees R m`: from two states related by `R`, `m` does the same, that is, it
  fails from both, or it returns the same result from both and leads to states
  which are related by `R` again.
-/

namespace Listbrokers.Framework

variable {σ α β : Type}

/-- An operation on a state `σ` which returns an `α` or fails. -/
abbrev Op (σ α : Type) := StateT σ Option α

/-- From `s`, `m` returns with `Q`, if it returns, as it does when it is `total`. -/
def Leads (total : Prop) (m : Op σ α) (s : σ) (Q : α → σ → Prop) : Prop :=
  (total → (m s).isSome) ∧ ∀ a s', m s = some (a, s') → Q a s'

/-- Where `m` returns, it relates old and new state by `R`. -/
def Keeps (R : σ → σ → Prop) (m : Op σ α) : Prop :=
  ∀ s a s', m s = some (a, s') → R s s'

/-- `m` does the same from states related by `R`. -/
def Agrees (R : σ → σ → Prop) (m : Op σ α) : Prop :=
  ∀ s u, R s u → (m s = none ∧ m u = none) ∨ ∃ a s' u', m s = some (a, s') ∧ m u = some (a, u') ∧ R s' u'

namespace Op

theorem bind_apply (m : Op σ α) (f : α → Op σ β) (s : σ) : (m >>= f) s = (m s).bind fun p => f p.1 p.2 := rfl

theorem pure_apply (a : α) (s : σ) : (pure a : Op σ α) s = some (a, s) := rfl

theorem bind_eq_some {m : Op σ α} {f : α → Op σ β} {s s'' : σ} {b : β} :
    (m >>= f) s = some (b, s'') ↔ ∃ a s', m s = some (a, s') ∧ f a s' = some (b, s'') := by
  simp [bind_apply, Option.bind_eq_some_iff, Prod.exists]

theorem bind_of_some {m : Op σ α} {f : α → Op σ β} {s s' : σ} {a : α} (h : m s = some (a, s')) :
    (m >>= f) s = f a s' := by
  simp [bind_apply, h]

end Op

/-! ## Returning -/

namespace Leads

variable {total : Prop} {m : Op σ α} {f : α → Op σ β} {s s' : σ} {a : α} {Q Q' : α → σ → Prop} {R : β → σ → Prop}

theorem of_some (h : m s = some (a, s')) (hq : Q a s') : Leads total m s Q := by
  refine ⟨fun _ => by rw [h]; rfl, fun b s'' hb => ?_⟩
  rw [h] at hb
  cases hb
  exact hq

theorem mono (h : Leads total m s Q) (hq : ∀ a s', Q a s' → Q' a s') : Leads total m s Q' :=
  ⟨h.1, fun a s' hs => hq a s' (h.2 a s' hs)⟩

theorem congr {m' : Op σ α} (h : Leads total m s Q) (heq : m' s = m s) : Leads total m' s Q := by
  unfold Leads
  rw [heq]
  exact h

theorem bind (hm : Leads total m s Q) (hf : ∀ a s', Q a s' → Leads total (f a) s' R) : Leads total (m >>= f) s R := by
  refine ⟨fun ht => ?_, fun b s'' h => ?_⟩
  · obtain ⟨⟨a, s'⟩, hs⟩ := Option.isSome_iff_exists.mp (hm.1 ht)
    rw [Op.bind_of_some hs]
    exact (hf a s' (hm.2 a s' hs)).1 ht
  · obtain ⟨a, s', hs, h⟩ := Op.bind_eq_some.mp h
    exact (hf a s' (hm.2 a s' hs)).2 b s'' h

theorem exists_some (h : Leads True m s Q) : ∃ a s', m s = some (a, s') ∧ Q a s' := by
  obtain ⟨⟨a, s'⟩, hs⟩ := Option.isSome_iff_exists.mp (h.1 trivial)
  exact ⟨a, s', hs, h.2 a s' hs⟩

end Leads

/-! ## Keeping a relation -/

theorem keeps_pure {R : σ → σ → Prop} (hR : ∀ s, R s s) (a : α) : Keeps R (pure a) := by
  intro s b s' h
  simp only [Op.pure_apply, Option.some.injEq, Prod.mk.injEq] at h
  obtain ⟨rfl, rfl⟩ := h
  exact hR s

theorem keeps_bind {R : σ → σ → Prop} (hR : ∀ s s' s'', R s s' → R s' s'' → R s s'') {m : Op σ α}
    {f : α → Op σ β} (hm : Keeps R m) (hf : ∀ a, Keeps R (f a)) : Keeps R (m >>= f) := by
  intro s b s'' h
  obtain ⟨a, s', h₁, h₂⟩ := Op.bind_eq_some.mp h
  exact hR s s' s'' (hm s a s' h₁) (hf a s' b s'' h₂)

/-! ## Doing the same -/

theorem agrees_pure {R : σ → σ → Prop} (a : α) : Agrees R (pure a : Op σ α) :=
  fun s u h => .inr ⟨a, s, u, rfl, rfl, h⟩

theorem agrees_bind {R : σ → σ → Prop} {m : Op σ α} {f : α → Op σ β} (hm : Agrees R m)
    (hf : ∀ a, Agrees R (f a)) : Agrees R (m >>= f) := by
  intro s u h
  rcases hm s u h with ⟨hs, hu⟩ | ⟨a, s', u', hs, hu, h'⟩
  · exact .inl ⟨by rw [Op.bind_apply, hs]; rfl, by rw [Op.bind_apply, hu]; rfl⟩
  · rw [Op.bind_of_some hs, Op.bind_of_some hu]
    exact hf a s' u' h'

/-! ## Operations put together from basic ones -/

/-- Operations made of the basic ones in `B`. -/
inductive Composed (B : (α : Type) → Op σ α → Prop) : {α : Type} → Op σ α → Prop
  | pure {α : Type} (a : α) : Composed B (pure a : Op σ α)
  | bind {α β : Type} {m : Op σ α} {f : α → Op σ β} (hm : Composed B m) (hf : ∀ a, Composed B (f a)) :
      Composed B (m >>= f)
  | basic {α : Type} {m : Op σ α} (h : B α m) : Composed B m

section

variable {B : (α : Type) → Op σ α → Prop} {R : σ → σ → Prop}

theorem Composed.keeps (hr : ∀ s, R s s) (ht : ∀ s s' s'', R s s' → R s' s'' → R s s'')
    (hb : ∀ {α : Type} {m : Op σ α}, B α m → Keeps R m) {m : Op σ α} (h : Composed B m) : Keeps R m := by
  induction h with
  | pure a => exact keeps_pure hr a
  | bind _ _ ihm ihf => exact keeps_bind ht ihm ihf
  | basic h => exact hb h

theorem Composed.agrees (hb : ∀ {α : Type} {m : Op σ α}, B α m → Agrees R m) {m : Op σ α} (h : Composed B m) :
    Agrees R m := by
  induction h with
  | pure a => exact agrees_pure a
  | bind _ _ ihm ihf => exact agrees_bind ihm ihf
  | basic h => exact hb h

theorem Composed.ite {c : Prop} [Decidable c] {m n : Op σ α} (hm : Composed B m) (hn : Composed B n) :
    Composed B (if c then m else n) := by
  split
  · exact hm
  · exact hn

theorem Composed.forM {f : β → Op σ PUnit} (hf : ∀ b, Composed B (f b)) (l : List β) : Composed B (l.forM f) := by
  induction l with
  | nil => exact .pure _
  | cons b l ih => exact .bind (hf b) fun _ => ih

end

end Listbrokers.Framework
