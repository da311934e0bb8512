import Listbrokers.Framework.Forest

/-!
# Subtrees

`Forest.enumerate` takes objects from a queue and puts their children to its end.
Where the child lists agree with the parent pointers of the objects that are alive,
and none of the objects in the queue is above another one, it finds the objects
below, each of them once (`Forest.enumerate_spec`); and it takes as many steps.
-/

namespace Listbrokers.Framework.Forest

variable {P : Type} (T : Forest P)

/-- Neither object is above the other one. -/
def Apart (p q : P) : Prop := p ∉ T.path q ∧ q ∉ T.path p

/-- The objects below those in the queue, or `none` if there are more than `n`. -/
def enumerate (children : P → List P) : ℕ → List P → Option (List P)
  | _, [] => some []
  | 0, _ :: _ => none
  | n + 1, p :: queue => (p :: ·) <$> enumerate children n (queue ++ children p)

/-- An object of the queue is on the path. -/
def BelowAny (queue : List P) (q : P) : Prop := ∃ p ∈ queue, p ∈ T.path q

instance [DecidableEq P] (queue : List P) (q : P) : Decidable (T.BelowAny queue q) :=
  inferInstanceAs (Decidable (∃ p ∈ queue, p ∈ T.path q))

variable {T} {p q c c' : P} {queue : List P}

theorem Apart.child (h : T.Apart p q) (hc : T.parent c = some p) : T.Apart c q := by
  refine ⟨fun hmem => h.1 (mem_path_of_parent hmem hc), fun hmem => ?_⟩
  rw [path_of_parent hc] at hmem
  rcases List.mem_cons.mp hmem with rfl | hmem
  · exact h.1 (mem_path_of_parent mem_path_self hc)
  · exact h.2 hmem

theorem Apart.symm (h : T.Apart p q) : T.Apart q p := ⟨h.2, h.1⟩

theorem apart_siblings (hc : T.parent c = some p) (hc' : T.parent c' = some p) (hne : c ≠ c') : T.Apart c c' := by
  have hnot : ∀ {c c'}, T.parent c = some p → T.parent c' = some p → c ≠ c' → c ∉ T.path c' := fun hc hc' hne hmem => by
    rw [path_of_parent hc'] at hmem
    exact not_mem_path_parent hc ((List.mem_cons.mp hmem).resolve_left hne)
  exact ⟨hnot hc hc' hne, hnot hc' hc hne.symm⟩

/-- Whatever is below an object, is below one of its children, or the object itself. -/
theorem exists_child (h : p ∈ T.path q) (hne : q ≠ p) : ∃ c ∈ T.path q, T.parent c = some p := by
  induction q using T.induction_from_root with
  | root q hq =>
    rw [path_of_root hq, List.mem_singleton] at h
    exact absurd h.symm hne
  | child q q' hq ih =>
    rw [path_of_parent hq] at h ⊢
    have h := (List.mem_cons.mp h).resolve_left hne.symm
    by_cases e : q' = p
    · exact ⟨q, List.mem_cons_self, e ▸ hq⟩
    · obtain ⟨c, hc, hpar⟩ := ih h e
      exact ⟨c, List.mem_cons_of_mem _ hc, hpar⟩

/-- The objects that are alive form a forest of their own. -/
def Closed (T : Forest P) (alive : List P) : Prop := ∀ q ∈ alive, ∀ p, T.parent q = some p → p ∈ alive

theorem Closed.path {alive : List P} (h : T.Closed alive) (hq : q ∈ alive) : ∀ p ∈ T.path q, p ∈ alive :=
  path_subset (fun q p hq hpar => h q hq p hpar) hq

/-- The child lists of the objects below the queue hold the children that are alive, each of them once. -/
def Lists (T : Forest P) (alive : List P) (children : P → List P) (queue : List P) : Prop :=
  ∀ p ∈ alive, T.BelowAny queue p → (children p).Nodup ∧ ∀ c, c ∈ children p ↔ c ∈ alive ∧ T.parent c = some p

section

variable {alive : List P} {children : P → List P}

/-- An object that has been taken from the queue is replaced by its children. -/
theorem belowAny_cons (hclosed : T.Closed alive) (hchildren : ∀ c, c ∈ children p ↔ c ∈ alive ∧ T.parent c = some p)
    (hapart : (p :: queue).Pairwise T.Apart) (hq : q ∈ alive) :
    T.BelowAny (queue ++ children p) q ↔ T.BelowAny (p :: queue) q ∧ q ≠ p := by
  constructor
  · rintro ⟨r, hr, hmem⟩
    rcases List.mem_append.mp hr with hqueue | hchild
    · exact ⟨⟨r, List.mem_cons_of_mem _ hqueue, hmem⟩, fun e => (List.rel_of_pairwise_cons hapart hqueue).2 (e ▸ hmem)⟩
    · have hpar := ((hchildren r).mp hchild).2
      exact ⟨⟨p, List.mem_cons_self, mem_path_of_parent hmem hpar⟩, fun e => not_mem_path_parent hpar (e ▸ hmem)⟩
  · rintro ⟨⟨r, hr, hmem⟩, hne⟩
    rcases List.mem_cons.mp hr with rfl | hr
    · obtain ⟨c, hc, hpar⟩ := exists_child hmem hne
      exact ⟨c, List.mem_append_right _ ((hchildren c).mpr ⟨hclosed.path hq c hc, hpar⟩), hc⟩
    · exact ⟨r, List.mem_append_left _ hr, hmem⟩

/-- The objects in the queue stay apart. -/
theorem apart_children (hchildren : (children p).Nodup ∧ ∀ c, c ∈ children p ↔ c ∈ alive ∧ T.parent c = some p)
    (hapart : (p :: queue).Pairwise T.Apart) : (queue ++ children p).Pairwise T.Apart := by
  obtain ⟨hp, hqueue⟩ := List.pairwise_cons.mp hapart
  have hpar : ∀ c ∈ children p, T.parent c = some p := fun c hc => ((hchildren.2 c).mp hc).2
  refine List.pairwise_append.mpr ⟨hqueue, ?_, fun r hr c hc => ((hp r hr).child (hpar c hc)).symm⟩
  exact hchildren.1.imp_of_mem fun hc hc' hne => apart_siblings (hpar _ hc) (hpar _ hc') hne

/-- All objects below the queue are found, and each of them once. -/
theorem enumerate_spec [DecidableEq P] (hclosed : T.Closed alive) {n : ℕ} (hqueue : ∀ p ∈ queue, p ∈ alive)
    (hapart : queue.Pairwise T.Apart) (hlists : T.Lists alive children queue)
    (hn : (alive.filter fun q => T.BelowAny queue q).length ≤ n) :
    ∃ objects, enumerate children n queue = some objects ∧ objects.Nodup ∧
      ∀ q, q ∈ objects ↔ q ∈ alive ∧ T.BelowAny queue q := by
  induction n generalizing queue with
  | zero =>
    cases queue with
    | nil => exact ⟨[], rfl, .nil, fun q => by simp [BelowAny]⟩
    | cons p queue =>
      have hmem : p ∈ alive.filter fun q => T.BelowAny (p :: queue) q :=
        List.mem_filter.mpr ⟨hqueue p List.mem_cons_self, decide_eq_true ⟨p, List.mem_cons_self, mem_path_self⟩⟩
      exact absurd (List.length_pos_of_mem hmem) (by omega)
  | succ n ih =>
    cases queue with
    | nil => exact ⟨[], rfl, .nil, fun q => by simp [BelowAny]⟩
    | cons p queue =>
      have hp := hqueue p List.mem_cons_self
      have hself : T.BelowAny (p :: queue) p := ⟨p, List.mem_cons_self, mem_path_self⟩
      have hchildren := hlists p hp hself
      have hbelow : ∀ {q}, q ∈ alive → (T.BelowAny (queue ++ children p) q ↔ T.BelowAny (p :: queue) q ∧ q ≠ p) :=
        fun hq => belowAny_cons hclosed hchildren.2 hapart hq
      -- the object that has been taken is not counted any more
      have hcount : (alive.filter fun q => T.BelowAny (queue ++ children p) q).length ≤ n := by
        have hfilter : (alive.filter fun q => T.BelowAny (queue ++ children p) q) =
            (alive.filter fun q => T.BelowAny (p :: queue) q).filter (· ≠ p) := by
          rw [List.filter_filter]
          refine List.filter_congr fun q hq => ?_
          rw [← Bool.decide_and]
          exact decide_eq_decide.mpr ((hbelow hq).trans and_comm)
        have hlt : ((alive.filter fun q => T.BelowAny (p :: queue) q).filter (· ≠ p)).length <
            (alive.filter fun q => T.BelowAny (p :: queue) q).length :=
          List.length_filter_lt_length_iff_exists.mpr
            ⟨p, List.mem_filter.mpr ⟨hp, decide_eq_true hself⟩, by simp⟩
        rw [hfilter]
        omega
      have halive : ∀ q ∈ queue ++ children p, q ∈ alive := fun q hq => by
        rcases List.mem_append.mp hq with hq | hq
        · exact hqueue q (List.mem_cons_of_mem _ hq)
        · exact ((hchildren.2 q).mp hq).1
      obtain ⟨objects, hobjects, hnodup, hmem⟩ := ih halive (apart_children hchildren hapart)
        (fun q hq hq' => hlists q hq ((hbelow hq).mp hq').1) hcount
      refine ⟨p :: objects, by rw [enumerate, hobjects]; rfl, List.nodup_cons.mpr ⟨fun h => ?_, hnodup⟩, fun q => ?_⟩
      · exact ((hbelow hp).mp ((hmem p).mp h).2).2 rfl
      · rw [List.mem_cons, hmem]
        by_cases e : q = p
        · subst e
          exact iff_of_true (.inl rfl) ⟨hp, hself⟩
        · exact ⟨fun h => (h.resolve_left e).imp_right fun h' => ((hbelow (h.resolve_left e).1).mp h').1,
            fun h => .inr ⟨h.1, (hbelow h.1).mpr ⟨h.2, e⟩⟩⟩

end

end Listbrokers.Framework.Forest
