import Mathlib.Data.Nat.Notation
import Mathlib.Logic.Relation

/-!
# Labelled transition systems

A system is a step relation `σ → ι → σ → Prop` on states, labelled by what
is done. `Run step s ls s'` is a run from `s` to `s'` whose labels are `ls`;
`Run.invariant` carries a property that every step keeps through a whole run.

Where a system keeps its promise only while its environment behaves,
`When step ok` is the system restricted to the steps that `ok` allows in the
state they are taken from: a run of `When step ok` is a run of `step`
(`Run.of_when`) in which every step is allowed.

`exec next ok` computes a run from a function for the steps, and
`Run.of_exec_any` takes a fact about its last state to the relation.

`Can step P s` says that some run from `s` reaches a state satisfying `P`.
`Can.now` and `Can.after` show it step by step, `Can.of_decreasing` by a measure;
`not_can` refutes it: an invariant that excludes `P` and holds of `s` leaves no
run to `P`.
-/

namespace Listbrokers.Framework

variable {σ ι : Type*}

/-- A run of `step`, with its labels in order. -/
inductive Run (step : σ → ι → σ → Prop) : σ → List ι → σ → Prop
  | nil (s : σ) : Run step s [] s
  | cons {s₁ s₂ s₃ : σ} {l : ι} {ls : List ι} :
      step s₁ l s₂ → Run step s₂ ls s₃ → Run step s₁ (l :: ls) s₃

/-- `step`, restricted to the steps that `ok` allows. -/
def When (step : σ → ι → σ → Prop) (ok : σ → ι → Prop) (s : σ) (l : ι) (s' : σ) : Prop :=
  ok s l ∧ step s l s'

/-- The state after steps that `next` computes and `ok` allows. -/
def exec {σ ι : Type*} (next : σ → ι → Option σ) (ok : σ → ι → Prop) [∀ s l, Decidable (ok s l)] : List ι → σ → Option σ
  | [], s => some s
  | l :: ls, s => if ok s l then (next s l).bind (exec next ok ls) else none

/-- Every step of the runs with labels `ls` keeps `kept`. -/
def Throughout (step : σ → ι → σ → Prop) (kept : σ → ι → σ → Prop) (s : σ) (ls : List ι) : Prop :=
  ∀ before l after s₁ s₂, ls = before ++ l :: after → Run step s before s₁ → step s₁ l s₂ → kept s₁ l s₂

/-- Some run from `s` reaches a state satisfying `P`. -/
def Can (step : σ → ι → σ → Prop) (P : σ → Prop) (s : σ) : Prop :=
  ∃ ls s', Run step s ls s' ∧ P s'

variable {step : σ → ι → σ → Prop} {ok : σ → ι → Prop} {P Q : σ → Prop}

namespace Run

theorem single {s s' : σ} {l : ι} (h : step s l s') : Run step s [l] s' := .cons h (.nil s')

theorem append {s₁ s₂ s₃ : σ} {ls ls' : List ι} (h : Run step s₁ ls s₂) (h' : Run step s₂ ls' s₃) :
    Run step s₁ (ls ++ ls') s₃ := by
  induction h with
  | nil => exact h'
  | cons hs _ ih => exact .cons hs (ih h')

theorem snoc {s₁ s₂ s₃ : σ} {ls : List ι} {l : ι} (h : Run step s₁ ls s₂) (hs : step s₂ l s₃) :
    Run step s₁ (ls ++ [l]) s₃ :=
  h.append (.single hs)

/-- A run passes through the state between its parts. -/
theorem of_append {s₁ s₃ : σ} {ls ls' : List ι} (h : Run step s₁ (ls ++ ls') s₃) :
    ∃ s₂, Run step s₁ ls s₂ ∧ Run step s₂ ls' s₃ := by
  induction ls generalizing s₁ with
  | nil => exact ⟨s₁, .nil s₁, h⟩
  | cons l ls ih =>
    cases h with
    | cons hs h =>
      obtain ⟨s₂, h₁, h₂⟩ := ih h
      exact ⟨s₂, .cons hs h₁, h₂⟩

/-- What every step keeps, a run keeps. -/
theorem invariant (hP : ∀ s l s', P s → step s l s' → P s') {s s' : σ} {ls : List ι}
    (h : Run step s ls s') (hs : P s) : P s' := by
  induction h with
  | nil => exact hs
  | cons hstep _ ih => exact ih (hP _ _ _ hs hstep)

/-- What every step keeps of the state and the labels so far, a run keeps. -/
theorem history {I : List ι → σ → Prop} (hI : ∀ ls s l s', I ls s → step s l s' → I (ls ++ [l]) s') {s s' : σ}
    {before ls : List ι} (h : Run step s ls s') (hs : I before s) : I (before ++ ls) s' := by
  induction h generalizing before with
  | nil => rwa [List.append_nil]
  | cons hstep _ ih => simpa using ih (hI _ _ _ _ hs hstep)

/-- A run of the restricted system is a run of the system. -/
theorem of_when {s s' : σ} {ls : List ι} (h : Run (When step ok) s ls s') : Run step s ls s' := by
  induction h with
  | nil => exact .nil _
  | cons hs _ ih => exact .cons hs.2 ih

/-- A run whose labels are all allowed, in whatever state. -/
theorem when_of_forall {allowed : ι → Prop} {s s' : σ} {ls : List ι} (h : Run step s ls s') (hl : ∀ l ∈ ls, allowed l) :
    Run (When step fun _ l => allowed l) s ls s' := by
  induction h with
  | nil => exact .nil _
  | cons hs _ ih => exact .cons ⟨hl _ List.mem_cons_self, hs⟩ (ih fun l h => hl l (List.mem_cons_of_mem _ h))

/-- Allowing more steps. -/
theorem when_mono {ok' : σ → ι → Prop} (h : ∀ s l, ok s l → ok' s l) {s s' : σ} {ls : List ι}
    (hr : Run (When step ok) s ls s') : Run (When step ok') s ls s' := by
  induction hr with
  | nil => exact .nil _
  | cons hs _ ih => exact .cons ⟨h _ _ hs.1, hs.2⟩ ih

/-- Where a step does what it should exactly if it is allowed, all steps of a run do if and only if all are allowed. -/
theorem throughout_iff {kept : σ → ι → σ → Prop} (hdet : ∀ s l s₁ s₂, step s l s₁ → step s l s₂ → s₁ = s₂)
    (hkept : ∀ s l s', P s → step s l s' → (kept s l s' ↔ ok s l))
    (hP : ∀ s l s', P s → ok s l → step s l s' → P s') {s s' : σ} {ls : List ι} (h : Run step s ls s') (hs : P s) :
    Throughout step kept s ls ↔ Run (When step ok) s ls s' := by
  induction h with
  | nil s =>
    refine ⟨fun _ => .nil s, fun _ before l after _ _ e => ?_⟩
    simp at e
  | @cons s₁ s₂ s₃ l ls hstep h ih =>
    constructor
    · intro hall
      have hok := (hkept _ _ _ hs hstep).mp (hall [] l ls s₁ s₂ rfl (.nil _) hstep)
      refine .cons ⟨hok, hstep⟩ ((ih (hP _ _ _ hs hok hstep)).mp fun before l' after t₁ t₂ e hrun => ?_)
      exact hall (l :: before) l' after t₁ t₂ (by rw [e]; rfl) (.cons hstep hrun)
    · rintro (_ | ⟨⟨hok, hstep'⟩, hrun⟩) before l' after t₁ t₂ e hbefore ht
      obtain rfl := hdet _ _ _ _ hstep hstep'
      cases before with
      | nil =>
        obtain ⟨rfl, rfl⟩ := List.cons.inj e
        cases hbefore
        exact (hkept _ _ _ hs ht).mpr hok
      | cons l'' before =>
        obtain ⟨rfl, htail⟩ := List.cons.inj e
        cases hbefore with
        | cons hfirst hbefore =>
          obtain rfl := hdet _ _ _ _ hstep hfirst
          exact (ih (hP _ _ _ hs hok hstep)).mpr hrun before l' after t₁ t₂ htail hbefore ht

/-- Steps that have been computed are a run. -/
theorem of_exec {next : σ → ι → Option σ} [∀ s l, Decidable (ok s l)]
    (hnext : ∀ s l s', next s l = some s' → step s l s') {s s' : σ} {ls : List ι} (h : exec next ok ls s = some s') :
    Run (When step ok) s ls s' := by
  induction ls generalizing s with
  | nil =>
    cases h
    exact .nil _
  | cons l ls ih =>
    rw [exec] at h
    split at h
    · next hok =>
      obtain ⟨s₁, hs, hrest⟩ := Option.bind_eq_some_iff.mp h
      exact .cons ⟨hok, hnext s l s₁ hs⟩ (ih hrest)
    · cases h

/-- What holds after steps that have been computed, holds after a run. -/
theorem of_exec_any {next : σ → ι → Option σ} [∀ s l, Decidable (ok s l)]
    (hnext : ∀ s l s', next s l = some s' → step s l s') {s : σ} {ls : List ι} {Q : σ → Bool}
    (h : (exec next ok ls s).any Q = true) : ∃ s', Run (When step ok) s ls s' ∧ Q s' = true := by
  induction ls generalizing s with
  | nil => exact ⟨s, .nil s, by simpa [exec] using h⟩
  | cons l ls ih =>
    rw [exec] at h
    split at h
    · next hok =>
      cases hs : next s l with
      | none => simp [hs] at h
      | some s₁ =>
        rw [hs] at h
        obtain ⟨s', hrun, hQ⟩ := ih h
        exact ⟨s', .cons ⟨hok, hnext s l s₁ hs⟩ hrun, hQ⟩
    · simp at h

end Run

namespace Can

theorem now {s : σ} (h : P s) : Can step P s := ⟨[], s, .nil s, h⟩

/-- One step towards `P`. -/
theorem after {s s' : σ} {l : ι} (hs : step s l s') (h : Can step P s') : Can step P s := by
  obtain ⟨ls, s'', hr, hp⟩ := h
  exact ⟨l :: ls, s'', .cons hs hr, hp⟩

/-- Where the steps keep an invariant, and some step lowers a measure as long as `P` is not reached, `P` can be
reached. -/
theorem of_decreasing {I : σ → Prop} {measure : σ → ℕ} (hI : ∀ s l s', I s → step s l s' → I s')
    (hstep : ∀ s, I s → ¬ P s → ∃ l s', step s l s' ∧ measure s' < measure s) {s : σ} (hs : I s) : Can step P s := by
  induction hn : measure s using Nat.strongRecOn generalizing s with
  | _ n ih =>
    by_cases hp : P s
    · exact .now hp
    · obtain ⟨l, s', hstep, hlt⟩ := hstep s hs hp
      exact .after hstep (ih _ (hn ▸ hlt) (hI _ _ _ hs hstep) rfl)

end Can

/-- An invariant `Q` that excludes `P` keeps every run away from `P`. -/
theorem not_can (hQ : ∀ s l s', Q s → step s l s' → Q s') (hPQ : ∀ s, Q s → ¬ P s) {s : σ}
    (h : Q s) : ¬ Can step P s := by
  rintro ⟨ls, s', hr, hp⟩
  exact hPQ s' (hr.invariant hQ h) hp

end Listbrokers.Framework
