import Listbrokers.Lru.Aging

/-!
# The invariant of the cache

`Intact sized T s L`: the cache `s` holds the objects of its aging list `L`, its
counters are right, and the pinned objects are those on the path of one object
of the list. Whether the sum of the sizes is right, too, depends on `sized`, as
it is counted modulo `sizeMax`.

What an operation ensures is stated for the faults that may be tolerated. With
`sized` these leave out the assertions about the counters, and with them the
attempt to discard an object twice.
-/

namespace Listbrokers.Lru

open Framework Cache

variable {P σ : Type} [DecidableEq P] {S : Setup P σ} {T : Forest P} {s s' : Cache P σ} {L L' A B : List P}
  {c p q : P} {sized : Prop}

/-- The cache holds the objects of the list, and counts them. -/
structure Registered (sized : Prop) (T : Forest P) (s : Cache P σ) (L : List P) : Prop where
  cached : ∀ p, p ∈ s.allObjects ↔ p ∈ L
  nodup : s.allObjects.Nodup
  ids : ∀ p ∈ L, ∀ q ∈ L, s.id p = s.id q → p = q
  children : ∀ p, s.childrenCount p = L.countP fun q => T.parent q = some p
  size : sized → s.totalSize = (L.map s.objectSize).sum
  nextId : ∀ ctx, 0 < s.nextId ctx ∧ s.nextId ctx ≤ idMax

/-- The pinned objects are those on the path of the object with the pinned ID. -/
structure PinnedPath (T : Forest P) (s : Cache P σ) (L : List P) : Prop where
  flag : ∀ p, s.isPinned p = true ↔ s.pinnedObjectId.isValid = true ∧ ∃ x ∈ L, s.id x = s.pinnedObjectId ∧ p ∈ T.path x
  cached : s.pinnedObjectId.isValid = true → ∃ x ∈ L, s.id x = s.pinnedObjectId

/-- The cache is intact, and `L` is its aging list. -/
structure Intact (sized : Prop) (T : Forest P) (s : Cache P σ) (L : List P) : Prop where
  aged : Aged T s L
  registered : Registered sized T s L
  pinned : PinnedPath T s L

/-- The faults which do not show that a counter is wrong. -/
def Tolerated (sized : Prop) (f : Fault) : Prop :=
  sized → f ≠ .childrenCount ∧ f ≠ .totalSize ∧ f ≠ .discardedTwice

theorem tolerated {f : Fault} (h : f ≠ .childrenCount ∧ f ≠ .totalSize ∧ f ≠ .discardedTwice) : Tolerated sized f :=
  fun _ => h

/-! ## The cached objects -/

section

omit [DecidableEq P]

theorem mem_of_find {i : ListId} (h : s.find i = some p) : p ∈ s.allObjects ∧ s.id p = i := by
  rw [Cache.find, List.find?_eq_some_iff_append] at h
  obtain ⟨hid, K, M, hall, -⟩ := h
  exact ⟨hall ▸ List.mem_append_right K List.mem_cons_self, by simpa using hid⟩

theorem find_eq_none {i : ListId} : s.find i = none ↔ ∀ p ∈ s.allObjects, s.id p ≠ i := by
  simp [Cache.find]

end

namespace Registered

variable (h : Registered sized T s L)

include h

theorem find_id (hp : p ∈ L) : s.find (s.id p) = some p := by
  cases hfind : s.find (s.id p) with
  | none => exact absurd rfl (find_eq_none.mp hfind p ((h.cached p).mpr hp))
  | some q =>
    obtain ⟨hq, hid⟩ := mem_of_find hfind
    rw [h.ids q ((h.cached q).mp hq) p hp hid]

theorem mem_of_find {i : ListId} (hfind : s.find i = some p) : p ∈ L :=
  (h.cached p).mp (Lru.mem_of_find hfind).1

theorem length_eq (hL : L.Nodup) : s.allObjects.length = L.length :=
  ((List.perm_ext_iff_of_nodup h.nodup hL).mpr h.cached).length_eq

/-- What the counters count does not depend on the order of the objects. -/
theorem perm (hperm : L.Perm L') : Registered sized T s L' where
  cached p := (h.cached p).trans hperm.mem_iff
  nodup := h.nodup
  ids p hp q hq := h.ids p (hperm.mem_iff.mpr hp) q (hperm.mem_iff.mpr hq)
  children p := (h.children p).trans (hperm.countP_eq _)
  size hs := (h.size hs).trans (hperm.map _).sum_nat
  nextId := h.nextId

theorem isLeaf_iff : s.isLeaf p = true ↔ Childless T L p := by
  rw [Cache.isLeaf, h.children p, decide_eq_true_iff, List.countP_eq_zero]
  simp [Childless]

/-- Removing an object. -/
theorem without (hL : (A ++ c :: B).Nodup) (e : L = A ++ c :: B) (hT : T = S.forest) (notify : Bool) :
    Registered sized T (s.without S notify c) (A ++ B) := by
  subst e hT
  have hperm : (A ++ c :: B).Perm (c :: (A ++ B)) := List.perm_middle
  have hc : c ∉ A ++ B := (List.nodup_cons.mp (hperm.nodup_iff.mp hL)).1
  have h' := h.perm hperm
  refine ⟨fun p => ?_, ?_, fun p hp q hq => ?_, fun p => ?_, fun hs => ?_, h.nextId⟩
  · simp only [Cache.without, List.mem_filter, h'.cached, List.mem_cons, decide_not, Bool.not_eq_true',
      decide_eq_false_iff_not]
    constructor
    · rintro ⟨rfl | hp, hid⟩
      · exact absurd rfl hid
      · exact hp
    · intro hp
      refine ⟨.inr hp, fun hid => hc ?_⟩
      exact h'.ids p (List.mem_cons_of_mem c hp) c List.mem_cons_self hid ▸ hp
  · exact h.nodup.filter _
  · exact h'.ids p (List.mem_cons_of_mem c hp) q (List.mem_cons_of_mem c hq)
  · have := h'.children p
    rw [List.countP_cons] at this
    cases hpar : S.forest.parent c with
    | none => simpa [Cache.without, hpar] using this
    | some q =>
      by_cases hqp : q = p
      · subst hqp
        rw [hpar, if_pos (by simp)] at this
        simp only [Cache.without, hpar, Function.update_self]
        rw [this, Nat.add_sub_cancel]
      · have hpq : p ≠ q := fun e => hqp e.symm
        simpa [Cache.without, hpar, Function.update_of_ne hpq, hqp] using this
  · have := h'.size hs
    rw [List.map_cons, List.sum_cons] at this
    change s.totalSize - s.objectSize c = _
    rw [this, Nat.add_sub_cancel_left]
    rfl

end Registered

namespace PinnedPath

section

omit [DecidableEq P]

theorem parent (h : PinnedPath T s L) (hp : s.isPinned p = true) (hq : T.parent p = some q) : s.isPinned q = true := by
  obtain ⟨hvalid, x, hx, hid, hpath⟩ := (h.flag p).mp hp
  exact (h.flag q).mpr ⟨hvalid, x, hx, hid, Forest.mem_path_of_parent hpath hq⟩

end

theorem without (h : PinnedPath T s (A ++ c :: B)) (hc : s.isPinned c = false) (notify : Bool) :
    PinnedPath T (s.without S notify c) (A ++ B) := by
  have hmem : ∀ x ∈ A ++ c :: B, s.id x = s.pinnedObjectId → s.pinnedObjectId.isValid = true → x ∈ A ++ B := by
    intro x hx hid hvalid
    have hxc : x ≠ c := fun e => by
      rw [← e, (h.flag x).mpr ⟨hvalid, x, hx, hid, Forest.mem_path_self⟩] at hc
      cases hc
    simp only [List.mem_append, List.mem_cons] at hx ⊢
    tauto
  refine ⟨fun p => (h.flag p).trans (and_congr_right fun hvalid => ?_), fun hvalid => ?_⟩
  · constructor
    · rintro ⟨x, hx, hid, hpath⟩
      exact ⟨x, hmem x hx hid hvalid, hid, hpath⟩
    · rintro ⟨x, hx, hid, hpath⟩
      exact ⟨x, (List.Sublist.append_left (List.sublist_cons_self c B) A).mem hx, hid, hpath⟩
  · obtain ⟨x, hx, hid⟩ := h.cached hvalid
    exact ⟨x, hmem x hx hid hvalid, hid⟩

section

omit [DecidableEq P]

theorem congr (h : PinnedPath T s L) (hmem : ∀ p, p ∈ L ↔ p ∈ L') (hid : s'.id = s.id)
    (hflag : s'.isPinned = s.isPinned) (hpinned : s'.pinnedObjectId = s.pinnedObjectId) : PinnedPath T s' L' where
  flag p := by
    simp only [hid, hflag, hpinned, ← hmem]
    exact h.flag p
  cached := by
    simp only [hid, hpinned, ← hmem]
    exact h.cached

end

end PinnedPath

namespace Intact

variable (h : Intact sized T s L)

include h

theorem nodup : L.Nodup := h.aged.nodup

theorem count_eq : s.count = L.length := h.registered.length_eq h.nodup

theorem agingList_eq : s.agingList = L := h.aged.agingList_eq (Nat.le_of_eq h.count_eq.symm)

/-- The pinned path is cached. -/
theorem mem_of_pinned (hp : s.isPinned p = true) : p ∈ L := by
  obtain ⟨-, x, hx, -, hpath⟩ := (h.pinned.flag p).mp hp
  exact h.aged.path_subset hx p hpath

end Intact

/-! ## Discarding objects -/

/-- The data of the objects and of the cache that the removal of objects does not change. -/
structure SameData (s s' : Cache P σ) : Prop where
  id : s'.id = s.id
  objectSize : s'.objectSize = s.objectSize
  isPinned : s'.isPinned = s.isPinned
  lastUsed : s'.lastUsed = s.lastUsed
  pinnedObjectId : s'.pinnedObjectId = s.pinnedObjectId
  minimumRequiredCreationTime : s'.minimumRequiredCreationTime = s.minimumRequiredCreationTime
  nextId : s'.nextId = s.nextId

section

omit [DecidableEq P]

theorem SameData.refl (s : Cache P σ) : SameData s s := ⟨rfl, rfl, rfl, rfl, rfl, rfl, rfl⟩

theorem SameData.trans {s₁ s₂ s₃ : Cache P σ} (h : SameData s₁ s₂) (h' : SameData s₂ s₃) : SameData s₁ s₃ :=
  ⟨h'.id.trans h.id, h'.objectSize.trans h.objectSize, h'.isPinned.trans h.isPinned, h'.lastUsed.trans h.lastUsed,
    h'.pinnedObjectId.trans h.pinnedObjectId,
    h'.minimumRequiredCreationTime.trans h.minimumRequiredCreationTime, h'.nextId.trans h.nextId⟩

end

theorem sameData_without (s : Cache P σ) (notify : Bool) (c : P) : SameData s (s.without S notify c) :=
  ⟨rfl, rfl, rfl, rfl, rfl, rfl, rfl⟩

/-- Discarding an object without children. -/
theorem discard_ensures (h : Intact sized S.forest s (A ++ c :: B)) (hc : Childless S.forest (A ++ c :: B) c)
    (notify : Bool) :
    Ensures (Tolerated sized) (s.discard S notify c) fun r =>
      r = (B.head?, s.without S notify c) ∧ s.isPinned c = false ∧ Intact sized S.forest r.2 (A ++ B) := by
  have hmem : c ∈ A ++ c :: B := List.mem_append_right A List.mem_cons_self
  unfold Cache.discard
  refine .check_bind (fun _ => tolerated (by decide)) fun _ => ?_
  refine .check_bind (fun _ => tolerated (by decide)) fun hpinned => ?_
  refine .check_bind (fun hn => absurd (fun p hp => ?_) hn) fun _ => ?_
  · rw [h.registered.children p, List.countP_pos_iff]
    exact ⟨c, hmem, by simpa using hp⟩
  refine .check_bind (fun hn hs => absurd ?_ hn) fun _ => ?_
  · rw [h.registered.size hs, List.map_append, List.map_cons, List.sum_append, List.sum_cons]
    omega
  refine .check_bind (fun hn => absurd (by simp [h.registered.find_id hmem]) hn) fun _ => .pure ?_
  refine ⟨by rw [h.aged.chain.links_at.2], hpinned, h.aged.without hc notify, ?_, h.pinned.without hpinned notify⟩
  exact h.registered.without h.nodup rfl rfl notify

end Listbrokers.Lru
