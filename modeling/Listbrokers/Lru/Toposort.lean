import Listbrokers.Lru.Integrity
import Mathlib.Data.List.Dedup
import Mathlib.Data.List.Sort

/-!
# The order of a purge

`toposort_for_purge` sorts a kill list so that objects come before their
parents. It moves the leaves to the front, and orders the internal nodes by
their distances from the leaves of the list, counted in objects of the list.

The distances are raised along the path of one leaf after the other. A walk
stops early at a node the distance of which is not improved. `Rising` is why it
may: what is above that node is farther from the leaves already. Within a walk
`RisingBelow` says the same for all nodes but those that the walk has raised,
the distances of which are bounded by its own.

The order of the elements within the two groups that `std::partition` makes is
not specified (`Partition`).
-/

namespace Listbrokers.Lru

open Framework

/-- `std::partition`: a permutation of the list, first the elements with the property, then those without. -/
structure Partition (α : Type) where
  split : (α → Bool) → List α → List α × List α
  perm : ∀ p l, ((split p l).1 ++ (split p l).2).Perm l
  all : ∀ p l, ∀ a ∈ (split p l).1, p a = true
  none : ∀ p l, ∀ a ∈ (split p l).2, p a = false

/-- The partition that keeps the order of the elements. -/
def stablePartition (α : Type) : Partition α where
  split := List.partition
  perm p l := by simpa [Function.comp_def] using List.filter_append_perm p l
  all p l a := by simp
  none p l a := by simp

variable {P σ : Type} [DecidableEq P] (S : Setup P σ)

namespace Cache

variable (s : Cache P σ)

/-- `lookup(id)->is_leaf()`, for an ID that is known to be cached. -/
def isLeafId (id : ListId) : Bool := (s.find id).any s.isLeaf

/-- The walk from a leaf to the root. The distances are those of the internal nodes of the kill list. -/
def walk (nodes : List ListId) : ℕ → List P → (ListId → ℕ) → ListId → ℕ
  | _, [], known => known
  | dist, e :: path, known =>
    if s.id e ∉ nodes then walk nodes dist path known
    else if known (s.id e) < dist + 1 then
      walk nodes (dist + 1) path (Function.update known (s.id e) (dist + 1))
    else known

/-- The walks from the leaves of the kill list. -/
def nodesDistances (nodes : List ListId) : List ListId → (ListId → ℕ) → ListId → ℕ
  | [], known => known
  | leaf :: leaves, known =>
    nodesDistances nodes leaves (s.walk nodes 0 ((s.find leaf).elim [] fun obj => (S.forest.path obj).tail) known)

/-- The order of the pairs of a distance and an ID. -/
def distanceLe (a b : ℕ × ListId) : Bool := a.1 < b.1 || a.1 = b.1 && a.2.raw ≤ b.2.raw

/-- The internal nodes of the kill list, sorted by the distances from its leaves. -/
def sortByDistance (leaves internal : List ListId) : List ListId :=
  let nodes := internal.dedup
  let distance := s.nodesDistances S nodes leaves fun _ => 0
  ((nodes.map fun node => (distance node, node)).mergeSort distanceLe).map Prod.snd

/-- `toposort_for_purge`: whether it could sort the list, and the list. -/
def toposortForPurge (partition : Partition ListId) (killList : List ListId) : Except Fault (Bool × List ListId) := do
  check (∀ id ∈ killList, id.isValid = true) .invalidId
  check (∀ id ∈ killList, s.find id ≠ none) .notCached
  let (leaves, internal) := partition.split s.isLeafId killList
  if internal = [] then return (true, leaves)
  else if leaves = [] then return (false, internal)
  else
    let sorted := s.sortByDistance S leaves internal
    if sorted.length ≠ internal.length then return (false, leaves ++ internal)
    else return (true, leaves ++ sorted)

end Cache

variable {S} {T : Forest P} {s : Cache P σ} {L : List P} {nodes leaves killList : List ListId} {known : ListId → ℕ}
  {e p q : P} {dist : ℕ} {sized : Prop}

/-- The objects of the cache are a tree, or several. -/
structure CacheTree (T : Forest P) (s : Cache P σ) : Prop where
  ids : ∀ p ∈ s.allObjects, ∀ q ∈ s.allObjects, s.id p = s.id q → p = q
  parents : ∀ p ∈ s.allObjects, ∀ q, T.parent p = some q → q ∈ s.allObjects
  leaf : ∀ p ∈ s.allObjects, ∀ q, T.parent p = some q → s.isLeaf q = false

theorem Intact.cacheTree (h : Intact sized T s L) : CacheTree T s where
  ids p hp q hq := h.registered.ids p ((h.registered.cached p).mp hp) q ((h.registered.cached q).mp hq)
  parents p hp q hpar := by
    have hpL := (h.registered.cached p).mp hp
    have hpath : q ∈ T.path p := Forest.mem_path_of_parent Forest.mem_path_self hpar
    exact (h.registered.cached q).mpr (h.aged.path_subset hpL q hpath)
  leaf p hp q hpar := by
    rw [Bool.eq_false_iff, Ne, h.registered.isLeaf_iff]
    exact fun hq => hq p ((h.registered.cached p).mp hp) hpar

/-- What the contract of `toposort_for_purge` asks of a kill list. -/
structure Admissible (T : Forest P) (s : Cache P σ) (killList : List ListId) : Prop where
  nodup : killList.Nodup
  cached : ∀ id ∈ killList, id.isValid = true ∧ s.find id ≠ none
  leaf : ∃ id ∈ killList, s.isLeafId id = true
  reachable : ∀ id ∈ killList, ∀ p ∈ s.find id, s.isLeaf p = false →
    ∃ leaf ∈ killList, ∃ q ∈ s.find leaf, s.isLeaf q = true ∧ p ∈ T.path q

instance : Decidable (Admissible T s killList) :=
  decidable_of_iff (killList.Nodup ∧ (∀ id ∈ killList, id.isValid = true ∧ s.find id ≠ none) ∧
      (∃ id ∈ killList, s.isLeafId id = true) ∧ ∀ id ∈ killList, ∀ p ∈ s.find id, s.isLeaf p = false →
        ∃ leaf ∈ killList, ∃ q ∈ s.find leaf, s.isLeaf q = true ∧ p ∈ T.path q)
    ⟨fun ⟨h₁, h₂, h₃, h₄⟩ => ⟨h₁, h₂, h₃, h₄⟩, fun h => ⟨h.nodup, h.cached, h.leaf, h.reachable⟩⟩

namespace CacheTree

variable (h : CacheTree T s)

include h

section

omit [DecidableEq P]

theorem mem_of_mem_path (hp : p ∈ s.allObjects) (hq : q ∈ T.path p) : q ∈ s.allObjects :=
  Forest.path_subset (fun p q hp hpar => h.parents p hp q hpar) hp q hq

theorem find_id (hp : p ∈ s.allObjects) : s.find (s.id p) = some p := by
  cases hfind : s.find (s.id p) with
  | none => exact absurd rfl (find_eq_none.mp hfind p hp)
  | some q =>
    obtain ⟨hq, hid⟩ := mem_of_find hfind
    rw [h.ids q hq p hp hid]

/-- An ancestor is no leaf. -/
theorem isLeaf_of_mem_tail (hp : p ∈ s.allObjects) (hq : q ∈ (T.path p).tail) : s.isLeaf q = false := by
  induction p using T.induction_from_root with
  | root p hroot => simp [Forest.path_of_root hroot] at hq
  | child p p' hpar ih =>
    rw [Forest.path_of_parent hpar, List.tail_cons] at hq
    obtain ⟨M, hM⟩ := T.exists_path_eq p'
    rw [hM, List.mem_cons] at hq
    rcases hq with rfl | hq
    · exact h.leaf p hp q hpar
    · exact ih (h.parents p hp p' hpar) (by rwa [hM])

end

end CacheTree

/-! ## Distances -/

/-- Distances grow along the paths, from the nodes that have one. -/
def Rising (T : Forest P) (s : Cache P σ) (nodes : List ListId) (known : ListId → ℕ) : Prop :=
  ∀ p ∈ s.allObjects, ∀ q ∈ (T.path p).tail, s.id p ∈ nodes → s.id q ∈ nodes → 0 < known (s.id p) →
    known (s.id p) < known (s.id q)

/-- Within a walk which has the objects `rest` before it: nodes that were raised are not farther than the walk is. -/
def RisingBelow (T : Forest P) (s : Cache P σ) (nodes : List ListId) (dist : ℕ) (rest : List P) (known : ListId → ℕ) :
    Prop :=
  ∀ p ∈ s.allObjects, ∀ q ∈ (T.path p).tail, s.id p ∈ nodes → s.id q ∈ nodes → 0 < known (s.id p) →
    known (s.id p) < known (s.id q) ∨ q ∈ rest ∧ known (s.id p) ≤ dist

section

omit [DecidableEq P]

theorem Rising.below (h : Rising T s nodes known) (dist : ℕ) (rest : List P) : RisingBelow T s nodes dist rest known :=
  fun p hp q hq hpn hqn hpos => .inl (h p hp q hq hpn hqn hpos)

/-- A walk passes an object that is not in the kill list. -/
theorem RisingBelow.skip {rest : List P} (h : RisingBelow T s nodes dist (e :: rest) known) (he : s.id e ∉ nodes) :
    RisingBelow T s nodes dist rest known := by
  intro p hp q hq hpn hqn hpos
  refine (h p hp q hq hpn hqn hpos).imp_right fun ⟨hrest, hle⟩ => ⟨?_, hle⟩
  rcases List.mem_cons.mp hrest with rfl | hrest
  · exact absurd hqn he
  · exact hrest

end

/-- A walk raises the distance of a node. -/
theorem RisingBelow.raise (ht : CacheTree T s) (he : e ∈ s.allObjects)
    (h : RisingBelow T s nodes dist (T.path e) known) (hlt : known (s.id e) < dist + 1) :
    RisingBelow T s nodes (dist + 1) (T.path e).tail (Function.update known (s.id e) (dist + 1)) := by
  obtain ⟨M, hM⟩ := T.exists_path_eq e
  intro p hp q hq hpn hqn hpos
  have hqc : q ∈ s.allObjects := ht.mem_of_mem_path hp (List.mem_of_mem_tail hq)
  by_cases hpe : p = e
  · subst hpe
    exact .inr ⟨hq, by rw [Function.update_self]⟩
  have hpid : s.id p ≠ s.id e := fun hid => hpe (ht.ids p hp e he hid)
  rw [Function.update_of_ne hpid] at hpos ⊢
  by_cases hqe : q = e
  · subst hqe
    rw [Function.update_self]
    rcases h p hp q hq hpn hqn hpos with hlt' | ⟨-, hle⟩ <;> exact .inl (by omega)
  have hqid : s.id q ≠ s.id e := fun hid => hqe (ht.ids q hqc e he hid)
  rw [Function.update_of_ne hqid]
  refine (h p hp q hq hpn hqn hpos).imp_right fun ⟨hrest, hle⟩ => ⟨?_, by omega⟩
  rw [hM, List.mem_cons] at hrest
  rw [hM, List.tail_cons]
  exact hrest.resolve_left hqe

section

omit [DecidableEq P]

/-- A walk may stop where it does not improve the distance of a node. -/
theorem RisingBelow.stop (he : e ∈ s.allObjects) (h : RisingBelow T s nodes dist (T.path e) known)
    (hn : s.id e ∈ nodes) (hle : ¬ known (s.id e) < dist + 1) :
    Rising T s nodes known ∧ ∀ q ∈ T.path e, s.id q ∈ nodes → dist < known (s.id q) := by
  obtain ⟨M, hM⟩ := T.exists_path_eq e
  have habove : ∀ q ∈ T.path e, s.id q ∈ nodes → dist < known (s.id q) := by
    intro q hq hqn
    rw [hM, List.mem_cons] at hq
    rcases hq with rfl | hq
    · omega
    · rcases h e he q (by rwa [hM]) hn hqn (by omega) with hlt | ⟨-, hle'⟩ <;> omega
  refine ⟨fun p hp q hq hpn hqn hpos => ?_, habove⟩
  rcases h p hp q hq hpn hqn hpos with hlt | ⟨hrest, hle'⟩
  · exact hlt
  · have := habove q hrest hqn
    omega

end

/-- A walk keeps distances growing, lowers none, and leaves no node on its path without one. -/
theorem walk_rising (ht : CacheTree T s) (p : P) (hp : p ∈ s.allObjects)
    (h : RisingBelow T s nodes dist (T.path p).tail known) :
    Rising T s nodes (s.walk nodes dist (T.path p).tail known) ∧
      (∀ id, known id ≤ s.walk nodes dist (T.path p).tail known id) ∧
      ∀ q ∈ (T.path p).tail, s.id q ∈ nodes → 0 < s.walk nodes dist (T.path p).tail known (s.id q) := by
  induction p using T.induction_from_root generalizing dist known with
  | root p hroot =>
    rw [Forest.path_of_root hroot, List.tail_cons] at h ⊢
    refine ⟨fun p hp q hq hpn hqn hpos => ?_, fun _ => Nat.le_refl _, by simp⟩
    rcases h p hp q hq hpn hqn hpos with hlt | ⟨hrest, -⟩
    · exact hlt
    · cases hrest
  | child p e hpar ih =>
    have he := ht.parents p hp e hpar
    rw [Forest.path_of_parent hpar, List.tail_cons] at h ⊢
    obtain ⟨M, hM⟩ := T.exists_path_eq e
    have htail : (T.path e).tail = M := by rw [hM, List.tail_cons]
    by_cases hn : s.id e ∈ nodes
    · by_cases hlt : known (s.id e) < dist + 1
      · have hwalk : s.walk nodes dist (T.path e) known =
            s.walk nodes (dist + 1) (T.path e).tail (Function.update known (s.id e) (dist + 1)) := by
          rw [hM, List.tail_cons, Cache.walk, if_neg (not_not.mpr hn), if_pos hlt]
        obtain ⟨hrising, hmono, hpos⟩ := ih he (h.raise ht he hlt)
        rw [hwalk]
        have hlow : ∀ id, known id ≤ Function.update known (s.id e) (dist + 1) id := by
          intro id
          by_cases hid : id = s.id e
          · rw [hid, Function.update_self]
            omega
          · rw [Function.update_of_ne hid]
        refine ⟨hrising, fun id => Nat.le_trans (hlow id) (hmono id), fun q hq hqn => ?_⟩
        rw [hM, List.mem_cons] at hq
        rcases hq with rfl | hq
        · have := hmono (s.id q)
          rw [Function.update_self] at this
          omega
        · exact hpos q (by rwa [htail]) hqn
      · have hwalk : s.walk nodes dist (T.path e) known = known := by
          rw [hM, Cache.walk, if_neg (not_not.mpr hn), if_neg hlt]
        obtain ⟨hrising, habove⟩ := h.stop he hn hlt
        rw [hwalk]
        exact ⟨hrising, fun _ => Nat.le_refl _, fun q hq hqn => Nat.zero_lt_of_lt (habove q hq hqn)⟩
    · have hwalk : s.walk nodes dist (T.path e) known = s.walk nodes dist (T.path e).tail known := by
        rw [hM, Cache.walk, if_pos hn, List.tail_cons]
      rw [hM] at h
      obtain ⟨hrising, hmono, hpos⟩ := ih he (htail ▸ h.skip hn)
      rw [hwalk]
      refine ⟨hrising, hmono, fun q hq hqn => hpos q ?_ hqn⟩
      rw [hM, List.mem_cons] at hq
      rcases hq with rfl | hq
      · exact absurd hqn hn
      · rwa [htail]

/-- The walks give a distance to all ancestors of the leaves. -/
theorem nodesDistances_rising (ht : CacheTree S.forest s) (h : Rising S.forest s nodes known) :
    Rising S.forest s nodes (s.nodesDistances S nodes leaves known) ∧
      (∀ id, known id ≤ s.nodesDistances S nodes leaves known id) ∧
      ∀ leaf ∈ leaves, ∀ p, s.find leaf = some p → ∀ q ∈ (S.forest.path p).tail, s.id q ∈ nodes →
        0 < s.nodesDistances S nodes leaves known (s.id q) := by
  induction leaves generalizing known with
  | nil => exact ⟨h, fun _ => Nat.le_refl _, by simp⟩
  | cons leaf leaves ih =>
    rw [Cache.nodesDistances]
    cases hfind : s.find leaf with
    | none =>
      obtain ⟨hrising, hmono, hpos⟩ := ih h
      rw [Option.elim_none, Cache.walk]
      refine ⟨hrising, hmono, fun l hl p hp => ?_⟩
      rcases List.mem_cons.mp hl with rfl | hl
      · rw [hfind] at hp
        cases hp
      · exact hpos l hl p hp
    | some obj =>
      rw [Option.elim_some]
      obtain ⟨hwalk, hwalkMono, hwalkPos⟩ := walk_rising ht obj (mem_of_find hfind).1 (h.below 0 _)
      obtain ⟨hrising, hmono, hpos⟩ := ih hwalk
      refine ⟨hrising, fun id => Nat.le_trans (hwalkMono id) (hmono id), fun l hl p hp q hq hqn => ?_⟩
      rcases List.mem_cons.mp hl with rfl | hl
      · rw [hfind] at hp
        cases hp
        exact Nat.lt_of_lt_of_le (hwalkPos q hq hqn) (hmono _)
      · exact hpos l hl p hp q hq hqn

/-! ## The order -/

theorem distanceLe_iff (a b : ℕ × ListId) :
    Cache.distanceLe a b = true ↔ a.1 < b.1 ∨ a.1 = b.1 ∧ a.2.raw ≤ b.2.raw := by
  simp [Cache.distanceLe]

theorem pairwise_mergeSort_distance (l : List (ℕ × ListId)) :
    (l.mergeSort Cache.distanceLe).Pairwise fun a b => a.1 ≤ b.1 := by
  have hsorted : (l.mergeSort Cache.distanceLe).Pairwise fun a b => Cache.distanceLe a b = true :=
    List.pairwise_mergeSort ?_ ?_ l
  · refine hsorted.imp fun hab => ?_
    rw [distanceLe_iff] at hab
    omega
  · intro a b c hab hbc
    rw [distanceLe_iff] at hab hbc ⊢
    omega
  · intro a b
    rw [Bool.or_eq_true, distanceLe_iff, distanceLe_iff]
    omega

/-- Two elements of a list stand in one of two orders. -/
theorem pair_sublist {α : Type} {l : List α} {a b : α} (ha : a ∈ l) (hb : b ∈ l) (hne : a ≠ b) :
    [a, b].Sublist l ∨ [b, a].Sublist l := by
  induction l with
  | nil => cases ha
  | cons c l ih =>
    rcases List.mem_cons.mp ha with rfl | hal
    · have hbl : b ∈ l := (List.mem_cons.mp hb).resolve_left hne.symm
      exact .inl (List.cons_sublist_cons.mpr (List.singleton_sublist.mpr hbl))
    · rcases List.mem_cons.mp hb with rfl | hbl
      · exact .inr (List.cons_sublist_cons.mpr (List.singleton_sublist.mpr hal))
      · exact (ih hal hbl).imp (List.Sublist.cons c) (List.Sublist.cons c)

/-- No object is behind one of its ancestors. -/
def Upward (T : Forest P) (s : Cache P σ) (i j : ListId) : Prop :=
  ∀ p q, s.find i = some p → s.find j = some q → p ∉ (T.path q).tail

section

omit [DecidableEq P]

/-- The leaves in any order, and the internal nodes by their distances from them. -/
theorem pairwise_upward (ht : CacheTree T s) {internal : List ListId} (hrising : Rising T s nodes known)
    (hleaves : ∀ id ∈ leaves, s.isLeafId id = true) (hnodes : ∀ id ∈ internal, id ∈ nodes)
    (hpos : ∀ id ∈ internal, 0 < known id) (hsorted : internal.Pairwise fun i j => known i ≤ known j) :
    (leaves ++ internal).Pairwise (Upward T s) := by
  have hleaf : ∀ i ∈ leaves, ∀ j, Upward T s i j := by
    intro i hi j p q hp hq hmem
    have hisLeaf := hleaves i hi
    rw [Cache.isLeafId, hp, Option.any_some] at hisLeaf
    rw [ht.isLeaf_of_mem_tail (mem_of_find hq).1 hmem] at hisLeaf
    cases hisLeaf
  refine List.pairwise_append.mpr ⟨?_, ?_, fun i hi j _ => hleaf i hi j⟩
  · exact List.pairwise_of_forall_mem_list fun i hi j _ => hleaf i hi j
  · refine hsorted.imp_of_mem fun {i j} hi hj hle p q hp hq hmem => ?_
    obtain ⟨-, rfl⟩ := mem_of_find hp
    obtain ⟨hqc, rfl⟩ := mem_of_find hq
    have := hrising q hqc p hmem (hnodes _ hj) (hnodes _ hi) (hpos _ hj)
    omega

end

/-- The internal nodes are sorted, if each has one of the leaves below it. -/
theorem sortByDistance_sorts (ht : CacheTree S.forest s) {internal : List ListId} (hnodup : internal.Nodup)
    (hreach : ∀ id ∈ internal, ∃ p, s.find id = some p ∧
      ∃ leaf ∈ leaves, ∃ q, s.find leaf = some q ∧ p ∈ (S.forest.path q).tail)
    (hleaves : ∀ id ∈ leaves, s.isLeafId id = true) :
    (s.sortByDistance S leaves internal).Perm internal ∧
      (leaves ++ s.sortByDistance S leaves internal).Pairwise (Upward S.forest s) := by
  rw [Cache.sortByDistance, hnodup.dedup]
  have hnone : Rising S.forest s internal fun _ => 0 := fun p _ q _ _ _ hpos => absurd hpos (Nat.lt_irrefl 0)
  obtain ⟨hrising, -, hpos⟩ := nodesDistances_rising ht hnone
  generalize s.nodesDistances S internal leaves (fun _ => 0) = distance at hrising hpos
  have hpairs := List.mergeSort_perm (internal.map fun node => (distance node, node)) Cache.distanceLe
  have hordered := pairwise_mergeSort_distance (internal.map fun node => (distance node, node))
  generalize (internal.map fun node => (distance node, node)).mergeSort Cache.distanceLe = pairs at hpairs hordered
  have hnodes : (pairs.map Prod.snd).Perm internal := by
    simpa [Function.comp_def] using hpairs.map Prod.snd
  refine ⟨hnodes, pairwise_upward ht hrising hleaves (fun id hid => hnodes.mem_iff.mp hid) (fun id hid => ?_) ?_⟩
  · have hid := hnodes.mem_iff.mp hid
    obtain ⟨p, hp, leaf, hleaf, q, hq, hpath⟩ := hreach id hid
    obtain ⟨-, rfl⟩ := mem_of_find hp
    exact hpos leaf hleaf q hq p hpath hid
  · rw [List.pairwise_map]
    refine hordered.imp_of_mem fun {a b} ha hb hle => ?_
    obtain ⟨node, -, rfl⟩ := List.mem_map.mp (hpairs.mem_iff.mp ha)
    obtain ⟨node', -, rfl⟩ := List.mem_map.mp (hpairs.mem_iff.mp hb)
    exact hle

section

omit [DecidableEq P]

/-- The groups of an admissible kill list: there are leaves, and each internal node is above one of them. -/
theorem Admissible.groups (h : Admissible T s killList) {internal : List ListId}
    (hperm : (leaves ++ internal).Perm killList) (hnone : ∀ id ∈ internal, s.isLeafId id = false) :
    leaves ≠ [] ∧ ∀ id ∈ internal, ∃ p, s.find id = some p ∧
      ∃ leaf ∈ leaves, ∃ q, s.find leaf = some q ∧ p ∈ (T.path q).tail := by
  have hmem : ∀ id ∈ killList, s.isLeafId id = true → id ∈ leaves := by
    intro id hid hleaf
    rcases List.mem_append.mp (hperm.mem_iff.mpr hid) with hl | hl
    · exact hl
    · rw [hnone id hl] at hleaf
      cases hleaf
  constructor
  · obtain ⟨id, hid, hleaf⟩ := h.leaf
    exact List.ne_nil_of_mem (hmem id hid hleaf)
  · intro id hid
    have hidList := hperm.mem_iff.mp (List.mem_append_right leaves hid)
    obtain ⟨p, hp⟩ := Option.ne_none_iff_exists'.mp (h.cached id hidList).2
    have hpLeaf := hnone id hid
    rw [Cache.isLeafId, hp, Option.any_some] at hpLeaf
    obtain ⟨leaf, hleaf, q, hq, hqLeaf, hpath⟩ := h.reachable id hidList p hp hpLeaf
    refine ⟨p, hp, leaf, hmem leaf hleaf (by rw [Cache.isLeafId, hq, Option.any_some, hqLeaf]), q, hq, ?_⟩
    obtain ⟨M, hM⟩ := T.exists_path_eq q
    rw [hM, List.mem_cons] at hpath
    rw [hM, List.tail_cons]
    refine hpath.resolve_left fun e => ?_
    rw [e, hqLeaf] at hpLeaf
    cases hpLeaf

end

theorem toposortForPurge_upward (partition : Partition ListId) (ht : CacheTree S.forest s)
    (h : Admissible S.forest s killList) :
    ∃ sorted, s.toposortForPurge S partition killList = .ok (true, sorted) ∧ sorted.Perm killList ∧
      sorted.Pairwise (Upward S.forest s) := by
  have hvalid : ∀ id ∈ killList, id.isValid = true := fun id hid => (h.cached id hid).1
  have hcached : ∀ id ∈ killList, s.find id ≠ none := fun id hid => (h.cached id hid).2
  have hperm := partition.perm s.isLeafId killList
  have hall := partition.all s.isLeafId killList
  have hnone := partition.none s.isLeafId killList
  unfold Cache.toposortForPurge
  rw [check, if_pos hvalid, check, if_pos hcached]
  generalize partition.split s.isLeafId killList = groups at hperm hall hnone
  obtain ⟨leaves, internal⟩ := groups
  have hnodup : internal.Nodup := (hperm.nodup_iff.mpr h.nodup).of_append_right
  obtain ⟨hleaves, hreach⟩ := h.groups hperm hnone
  obtain ⟨hsort, hupward⟩ := sortByDistance_sorts ht hnodup hreach hall
  change ∃ sorted, (if internal = [] then _ else _) = _ ∧ _
  by_cases hinternal : internal = []
  · rw [if_pos hinternal]
    rw [hinternal, List.append_nil] at hperm
    exact ⟨leaves, rfl, hperm, hupward.sublist (List.sublist_append_left leaves _)⟩
  · rw [if_neg hinternal, if_neg hleaves]
    exact ⟨leaves ++ s.sortByDistance S leaves internal, if_neg (not_not.mpr hsort.length_eq),
      (hsort.append_left leaves).trans hperm, hupward⟩

/-- `toposort_for_purge` sorts every kill list that keeps its contract: objects come before their ancestors. -/
theorem toposortForPurge_sorts (partition : Partition ListId) (ht : CacheTree S.forest s)
    (h : Admissible S.forest s killList) :
    ∃ sorted, s.toposortForPurge S partition killList = .ok (true, sorted) ∧ sorted.Perm killList ∧
      ∀ p ∈ s.allObjects, ∀ q ∈ (S.forest.path p).tail, s.id p ∈ killList → s.id q ∈ killList →
        [s.id p, s.id q].Sublist sorted := by
  obtain ⟨sorted, hsort, hperm, hupward⟩ := toposortForPurge_upward partition ht h
  refine ⟨sorted, hsort, hperm, fun p hpc q hpath hp hq => ?_⟩
  have hqc := ht.mem_of_mem_path hpc (List.mem_of_mem_tail hpath)
  have hne : s.id p ≠ s.id q := fun hid => by
    rw [ht.ids p hpc q hqc hid] at hpath
    exact Forest.not_mem_tail_path hpath
  rcases pair_sublist (hperm.mem_iff.mpr hp) (hperm.mem_iff.mpr hq) hne with hsub | hsub
  · exact hsub
  · exact absurd hpath (List.pairwise_iff_forall_sublist.mp hupward hsub q p (ht.find_id hqc) (ht.find_id hpc))

/-- A kill list in which the node between two others is missing. -/
theorem toposortForPurge_sorts_chain : ∃ c, Run (Step exampleSetup) (.start 0 ())
      [exampleInsert 0 0, exampleInsert 1 1, exampleInsert 2 2, exampleInsert 3 3, exampleInsert 4 4] c ∧
    ∃ sorted, c.cache.toposortForPurge exampleSetup (stablePartition ListId) [⟨1⟩, ⟨3⟩, ⟨5⟩, ⟨2⟩] = .ok (true, sorted) ∧
      [⟨3⟩, ⟨1⟩].Sublist sorted := by
  obtain ⟨c, hrun, hc⟩ := exec_any (FindsPlace exampleSetup)
    [exampleInsert 0 0, exampleInsert 1 1, exampleInsert 2 2, exampleInsert 3 3, exampleInsert 4 4]
    (Q := fun c => Admissible exampleSetup.forest c.cache [⟨1⟩, ⟨3⟩, ⟨5⟩, ⟨2⟩] ∧
      (2 ∈ c.cache.allObjects ∧ 0 ∈ (exampleSetup.forest.path 2).tail) ∧ c.cache.id 2 = ⟨3⟩ ∧ c.cache.id 0 = ⟨1⟩)
    (by decide +kernel)
  obtain ⟨hadmissible, ⟨h2, h0⟩, hid2, hid0⟩ := of_decide_eq_true hc
  obtain ⟨L, hintact⟩ := run_intact False (fun _ _ h => h) (fun h => h.elim) (fun h => h.elim) hrun
  obtain ⟨sorted, hsort, -, hbefore⟩ := toposortForPurge_sorts (stablePartition ListId) hintact.cacheTree hadmissible
  refine ⟨c, hrun.of_when, sorted, hsort, ?_⟩
  rw [← hid2, ← hid0]
  exact hbefore 2 h2 0 h0 (by rw [hid2]; decide) (by rw [hid0]; decide)

end Listbrokers.Lru
