import Mathlib.Data.List.Basic
import Mathlib.Data.List.Nodup
import Mathlib.Data.Nat.Notation
import Mathlib.Tactic.Common

/-!
# Parent pointers

A forest given by parent pointers alone. `Forest.path p` is the path from `p`
up to the root of its tree. Every path ends, as the rank of an object is above
the rank of its parent.
-/

namespace Listbrokers.Framework

/-- Parent pointers that form no cycle. -/
structure Forest (P : Type) where
  parent : P → Option P
  rank : P → ℕ
  rank_lt : ∀ {p q}, parent p = some q → rank q < rank p

namespace Forest

variable {P : Type} (T : Forest P)

/-- The first objects of the path from `p` to the root: `p` and at most `n` ancestors. -/
def pathOf : ℕ → P → List P
  | 0, p => [p]
  | n + 1, p => p :: (T.parent p).elim [] (pathOf n)

/-- The path from `p` to the root, both included. -/
def path (p : P) : List P := T.pathOf (T.rank p) p

theorem pathOf_eq {m n : ℕ} {p : P} (hm : T.rank p ≤ m) (hn : T.rank p ≤ n) : T.pathOf m p = T.pathOf n p := by
  induction m generalizing n p with
  | zero =>
    have hp : T.parent p = none := by
      cases h : T.parent p with
      | none => rfl
      | some q => have := T.rank_lt h; omega
    cases n <;> simp [pathOf, hp]
  | succ m ih =>
    cases hp : T.parent p with
    | none => cases n <;> simp [pathOf, hp]
    | some q =>
      have hq := T.rank_lt hp
      obtain ⟨k, rfl⟩ : ∃ k, n = k + 1 := ⟨n - 1, by omega⟩
      simp only [pathOf, hp, Option.elim_some]
      rw [ih (by omega) (by omega : T.rank q ≤ k)]

variable {T} {p q r : P}

theorem path_of_root (h : T.parent p = none) : T.path p = [p] := by
  rw [path]
  cases T.rank p <;> simp [pathOf, h]

theorem path_of_parent (h : T.parent p = some q) : T.path p = p :: T.path q := by
  have hq := T.rank_lt h
  obtain ⟨k, hk⟩ : ∃ k, T.rank p = k + 1 := ⟨T.rank p - 1, by omega⟩
  rw [path, hk, pathOf, h, Option.elim_some, T.pathOf_eq (by omega : T.rank q ≤ k) (Nat.le_refl _), path]

/-- Induction from the root down. -/
theorem induction_from_root {C : P → Prop} (root : ∀ p, T.parent p = none → C p)
    (child : ∀ p q, T.parent p = some q → C q → C p) (p : P) : C p := by
  induction hn : T.rank p using Nat.strongRecOn generalizing p with
  | ind n ih =>
    cases hp : T.parent p with
    | none => exact root p hp
    | some q => exact child p q hp (ih _ (hn ▸ T.rank_lt hp) q rfl)

theorem exists_path_eq (T : Forest P) (p : P) : ∃ L, T.path p = p :: L := by
  cases h : T.parent p with
  | none => exact ⟨[], path_of_root h⟩
  | some q => exact ⟨T.path q, path_of_parent h⟩

@[simp] theorem mem_path_self : p ∈ T.path p := by
  obtain ⟨L, h⟩ := T.exists_path_eq p
  simp [h]

@[simp] theorem path_ne_nil : T.path p ≠ [] := List.ne_nil_of_mem mem_path_self

@[simp] theorem head?_path : (T.path p).head? = some p := by
  obtain ⟨L, h⟩ := T.exists_path_eq p
  simp [h]

/-- A path goes on from each of its objects as that object's path does. -/
theorem path_eq_append (h : q ∈ T.path p) : ∃ A, T.path p = A ++ T.path q := by
  induction p using T.induction_from_root with
  | root p hp =>
    rw [path_of_root hp, List.mem_singleton] at h
    exact ⟨[], by rw [h]; rfl⟩
  | child p p' hp ih =>
    rw [path_of_parent hp, List.mem_cons] at h
    rcases h with rfl | h
    · exact ⟨[], rfl⟩
    · obtain ⟨A, hA⟩ := ih h
      exact ⟨p :: A, by rw [path_of_parent hp, hA]; rfl⟩

theorem mem_path_trans (hq : q ∈ T.path p) (hr : r ∈ T.path q) : r ∈ T.path p := by
  obtain ⟨A, hA⟩ := path_eq_append hq
  rw [hA]
  exact List.mem_append_right A hr

theorem mem_path_of_parent (hq : q ∈ T.path p) (h : T.parent q = some r) : r ∈ T.path p :=
  mem_path_trans hq (by rw [path_of_parent h]; exact List.mem_cons_of_mem _ mem_path_self)

theorem rank_le_of_mem (h : q ∈ T.path p) : T.rank q ≤ T.rank p := by
  induction p using T.induction_from_root with
  | root p hp =>
    rw [path_of_root hp, List.mem_singleton] at h
    exact h ▸ Nat.le_refl _
  | child p p' hp ih =>
    rw [path_of_parent hp, List.mem_cons] at h
    rcases h with rfl | h
    · exact Nat.le_refl _
    · exact Nat.le_trans (ih h) (Nat.le_of_lt (T.rank_lt hp))

/-- No object is on the path of its parent. -/
theorem not_mem_path_parent (h : T.parent p = some q) : p ∉ T.path q := fun hp =>
  absurd (rank_le_of_mem hp) (Nat.not_le.mpr (T.rank_lt h))

/-- On a path, a property goes up to `p` if it holds of `p` and of all objects below. -/
theorem mem_takeWhile_path {f : P → Bool} :
    p ∈ (T.path q).takeWhile f ↔ p ∈ T.path q ∧ ∀ r ∈ T.path q, p ∈ T.path r → f r = true := by
  induction q using T.induction_from_root with
  | root q hq =>
    rw [path_of_root hq]
    cases hf : f q with
    | true => simp [hf]
    | false =>
      simp only [List.takeWhile_cons, hf, Bool.false_eq_true, if_false, List.not_mem_nil, List.mem_singleton, false_iff]
      rintro ⟨rfl, h⟩
      rw [h p rfl mem_path_self] at hf
      cases hf
  | child q q' hq ih =>
    rw [path_of_parent hq]
    have hnot := not_mem_path_parent hq
    cases hf : f q with
    | true =>
      rw [List.takeWhile_cons_of_pos hf, List.mem_cons, ih, List.mem_cons]
      constructor
      · rintro (rfl | ⟨hp, h⟩)
        · refine ⟨.inl rfl, fun r hr hpr => ?_⟩
          rcases List.mem_cons.mp hr with rfl | hr
          · exact hf
          · exact absurd (mem_path_trans hr hpr) hnot
        · refine ⟨.inr hp, fun r hr hpr => ?_⟩
          rcases List.mem_cons.mp hr with rfl | hr
          · exact hf
          · exact h r hr hpr
      · rintro ⟨rfl | hp, h⟩
        · exact .inl rfl
        · exact .inr ⟨hp, fun r hr hpr => h r (List.mem_cons_of_mem q hr) hpr⟩
    | false =>
      rw [List.takeWhile_cons_of_neg (by simp [hf])]
      simp only [List.not_mem_nil, false_iff]
      rintro ⟨hp, h⟩
      have hpq : p ∈ T.path q := by rw [path_of_parent hq]; exact hp
      rw [h q List.mem_cons_self hpq] at hf
      cases hf

theorem not_mem_tail_path : p ∉ (T.path p).tail := by
  cases h : T.parent p with
  | none => simp [path_of_root h]
  | some q =>
    rw [path_of_parent h, List.tail_cons]
    exact not_mem_path_parent h

theorem nodup_path (T : Forest P) (p : P) : (T.path p).Nodup := by
  induction p using T.induction_from_root with
  | root p hp => simp [path_of_root hp]
  | child p q hp ih =>
    rw [path_of_parent hp, List.nodup_cons]
    exact ⟨not_mem_path_parent hp, ih⟩

/-- On a path, no object comes after its parent. -/
theorem pairwise_path (T : Forest P) (p : P) : (T.path p).Pairwise fun q r => T.parent r ≠ some q := by
  induction p using T.induction_from_root with
  | root p hp => simp [path_of_root hp]
  | child p q hp ih =>
    rw [path_of_parent hp, List.pairwise_cons]
    exact ⟨fun r hr hpar => not_mem_path_parent hp (mem_path_of_parent hr hpar), ih⟩

/-- A path lies in every set that contains its first object and is closed under parents. -/
theorem path_subset {S : P → Prop} (hS : ∀ p q, S p → T.parent p = some q → S q) (hp : S p) : ∀ q ∈ T.path p, S q := by
  induction p using T.induction_from_root with
  | root p hr =>
    intro q hq
    rw [path_of_root hr, List.mem_singleton] at hq
    exact hq ▸ hp
  | child p p' hpar ih =>
    intro q hq
    rw [path_of_parent hpar, List.mem_cons] at hq
    rcases hq with rfl | hq
    · exact hp
    · exact ih (hS _ _ hp hpar) q hq

/-- A path ends at an object without parent. -/
theorem exists_getLast?_path (T : Forest P) (p : P) : ∃ r, (T.path p).getLast? = some r ∧ T.parent r = none := by
  induction p using T.induction_from_root with
  | root p hp => exact ⟨p, by simp [path_of_root hp], hp⟩
  | child p q hp ih =>
    obtain ⟨r, hr, hroot⟩ := ih
    refine ⟨r, ?_, hroot⟩
    rw [path_of_parent hp, List.getLast?_cons, hr]
    rfl

/-- The part of a path before it meets another path. -/
theorem path_split (T : Forest P) (d e : P) :
    ∃ A B, T.path d = A ++ B ∧ (∀ q ∈ A, q ∉ T.path e) ∧ ∀ q ∈ B, q ∈ T.path e := by
  induction d using T.induction_from_root with
  | root d hd =>
    rw [path_of_root hd]
    by_cases h : d ∈ T.path e
    · exact ⟨[], [d], rfl, by simp, by simpa using h⟩
    · exact ⟨[d], [], rfl, by simpa using h, by simp⟩
  | child d d' hd ih =>
    by_cases h : d ∈ T.path e
    · exact ⟨[], T.path d, rfl, by simp, fun q hq => mem_path_trans h hq⟩
    · obtain ⟨A, B, hAB, hA, hB⟩ := ih
      refine ⟨d :: A, B, by rw [path_of_parent hd, hAB]; rfl, ?_, hB⟩
      intro q hq
      rcases List.mem_cons.mp hq with rfl | hq
      · exact h
      · exact hA q hq

end Forest

end Listbrokers.Framework
