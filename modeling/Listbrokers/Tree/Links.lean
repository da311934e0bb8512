import Listbrokers.Tree.Shelf
import Mathlib.Data.List.Perm.Basic
import Mathlib.Data.Set.Insert

/-!
# Child links and parent pointers

The tree of lists is stored twice: a list object points to its parent, and an
item of the parent holds the ID of the list. `Booked` says that the two agree:
every cached list is recorded once, by a link in its parent or among the killed
lists, and whatever is recorded is cached. Some lists may be left out: one that
is not linked yet, or not discarded yet, and those that have been leaked.
-/

namespace Listbrokers.Tree

open Framework

variable {P : Type} [DecidableEq P]

/-- The child links `children` and the killed lists agree with the parent pointers of the cached lists but those in `X`,
which are not recorded. -/
structure Booked (T : Forest P) (root : P) (X : Set P) (s : Shelf P) (children : P → List ListId)
    (killed : List ListId) : Prop where
  labelled : s.Labelled
  linked : ∀ p ∈ s.cached, p ≠ root → p ∉ X →
    ∃ q, T.parent p = some q ∧ (children q ++ killed).count (s.id p) = 1
  unlinked : ∀ p ∈ s.cached, p ∈ X → (∀ q, s.id p ∉ children q) ∧ s.id p ∉ killed
  sound : ∀ q, ∀ id ∈ children q, ∃ p ∈ s.cached, T.parent p = some q ∧ s.id p = id
  killed_sound : ∀ id ∈ killed, ∃ p ∈ s.cached, p ≠ root ∧ s.id p = id

namespace Booked

variable {T : Forest P} {root p q : P} {X : Set P} {s : Shelf P} {children children' : P → List ListId}
  {killed killed' : List ListId} {id : ListId}

section

omit [DecidableEq P]

/-- What is recorded is the ID of one list only. -/
theorem eq_of_mem (h : Booked T root X s children killed) (hp : p ∈ s.cached) (hmem : s.id p ∈ children q) :
    T.parent p = some q := by
  obtain ⟨r, hr, hpar, hid⟩ := h.sound q _ hmem
  exact h.labelled.ids r hr p hp hid ▸ hpar

end

/-- Links of one list have moved to the killed lists. -/
theorem move {a : P} {moved : List ListId} (h : Booked T root X s children killed)
    (ha : (children a).Perm (moved ++ children' a)) (hother : ∀ q, q ≠ a → (children q).Perm (children' q))
    (hroot : ∀ id ∈ moved, ∀ p ∈ s.cached, s.id p = id → p ≠ root) (hkilled : killed'.Perm (killed ++ moved)) :
    Booked T root X s children' killed' := by
  have hmoved : ∀ id ∈ moved, id ∈ children a := fun id hid => ha.mem_iff.mpr (List.mem_append_left _ hid)
  have hsub : ∀ q, ∀ id ∈ children' q, id ∈ children q := fun q id hid => by
    by_cases e : q = a
    · subst e
      exact ha.mem_iff.mpr (List.mem_append_right _ hid)
    · exact (hother q e).mem_iff.mpr hid
  refine ⟨h.labelled, fun p hp hne hx => ?_, fun p hp hx => ⟨fun q hid => ?_, fun hid => ?_⟩, fun q id hid => ?_,
    fun id hid => ?_⟩
  · obtain ⟨q, hpar, hcount⟩ := h.linked p hp hne hx
    refine ⟨q, hpar, ?_⟩
    rw [List.count_append] at hcount ⊢
    rw [hkilled.count_eq, List.count_append]
    by_cases e : q = a
    · subst e
      rw [ha.count_eq, List.count_append] at hcount
      omega
    · have hnot : s.id p ∉ moved := fun hmem => by
        have := h.eq_of_mem hp (hmoved _ hmem)
        rw [hpar] at this
        exact e (Option.some.inj this)
      rw [← (hother q e).count_eq, List.count_eq_zero.mpr hnot]
      omega
  · exact (h.unlinked p hp hx).1 q (hsub q _ hid)
  · rcases List.mem_append.mp (hkilled.mem_iff.mp hid) with hid | hid
    · exact (h.unlinked p hp hx).2 hid
    · exact (h.unlinked p hp hx).1 a (hmoved _ hid)
  · exact h.sound q id (hsub q id hid)
  · rcases List.mem_append.mp (hkilled.mem_iff.mp hid) with hid | hid
    · exact h.killed_sound id hid
    · obtain ⟨p, hp, -, e⟩ := h.sound a id (hmoved id hid)
      exact ⟨p, hp, hroot id hid p hp e, e⟩

/-- The order of the links does not matter. -/
theorem perm (h : Booked T root X s children killed) (hchildren : ∀ q, (children q).Perm (children' q)) :
    Booked T root X s children' killed := by
  refine h.move (a := root) (show (children root).Perm ([] ++ children' root) from hchildren root)
    (fun q _ => hchildren q) (fun _ hid => absurd hid (by simp)) ?_
  rw [List.append_nil]

section

omit [DecidableEq P]

/-- A list is discarded, and its ID is recorded no more. -/
theorem discard (h : Booked T root X s children killed) (hp : p ∈ s.cached)
    (hchildren : ∀ q, ∀ id, id ≠ s.id p → (children' q).count id = (children q).count id)
    (hkilled : ∀ id, id ≠ s.id p → killed'.count id = killed.count id)
    (hgone : ∀ q, s.id p ∉ children' q) (hgone' : s.id p ∉ killed') :
    Booked T root X (s.remove p) children' killed' := by
  have hchild : ∀ q, ∀ id ∈ children' q, id ≠ s.id p ∧ id ∈ children q := fun q id hid => by
    have hne : id ≠ s.id p := fun e => hgone q (e ▸ hid)
    refine ⟨hne, ?_⟩
    rw [← List.count_pos_iff, ← hchildren q id hne]
    exact List.count_pos_iff.mpr hid
  have hkill : ∀ id ∈ killed', id ≠ s.id p ∧ id ∈ killed := fun id hid => by
    have hne : id ≠ s.id p := fun e => hgone' (e ▸ hid)
    refine ⟨hne, ?_⟩
    rw [← List.count_pos_iff, ← hkilled id hne]
    exact List.count_pos_iff.mpr hid
  refine ⟨h.labelled.remove p, fun r hr hne hx => ?_, fun r hr hx => ⟨fun q hid => ?_, fun hid => ?_⟩,
    fun q id hid => ?_, fun id hid => ?_⟩
  · obtain ⟨hr, hrp⟩ := (h.labelled.mem_remove hp).mp hr
    obtain ⟨q, hpar, hcount⟩ := h.linked r hr hne hx
    have hid : s.id r ≠ s.id p := fun e => hrp (h.labelled.ids r hr p hp e)
    refine ⟨q, hpar, ?_⟩
    change (children' q ++ killed').count (s.id r) = 1
    rw [List.count_append] at hcount ⊢
    rw [hchildren q _ hid, hkilled _ hid]
    exact hcount
  · exact (h.unlinked r ((h.labelled.mem_remove hp).mp hr).1 hx).1 q (hchild q _ hid).2
  · exact (h.unlinked r ((h.labelled.mem_remove hp).mp hr).1 hx).2 (hkill _ hid).2
  · obtain ⟨hne, hmem⟩ := hchild q id hid
    obtain ⟨r, hr, hpar, rfl⟩ := h.sound q id hmem
    exact ⟨r, (h.labelled.mem_remove hp).mpr ⟨hr, fun e => hne (by rw [e])⟩, hpar, rfl⟩
  · obtain ⟨hne, hmem⟩ := hkill id hid
    obtain ⟨r, hr, hroot, rfl⟩ := h.killed_sound id hmem
    exact ⟨r, (h.labelled.mem_remove hp).mpr ⟨hr, fun e => hne (by rw [e])⟩, hroot, rfl⟩

/-- A list that is not recorded has been discarded. -/
theorem discard_unrecorded (h : Booked T root X s children killed) (hp : p ∈ s.cached)
    (hchildren : ∀ q, s.id p ∉ children q) (hkilled : s.id p ∉ killed) : Booked T root X (s.remove p) children killed :=
  h.discard hp (fun _ _ _ => rfl) (fun _ _ => rfl) hchildren hkilled

end

/-- A new list is not recorded yet. -/
theorem insert (h : Booked T root X s children killed) (hp : s.Unused T p) (hid : s.Free id)
    (hchildren : ∀ r, r ≠ p → children' r = children r) (hnew : children' p = []) :
    Booked T root (Insert.insert p X) (s.insert p id) children' killed := by
  have hnot : p ∉ s.cached := fun hmem => hp p hmem Forest.mem_path_self
  have hother : ∀ r ∈ s.cached, r ≠ p := fun r hr e => hnot (e ▸ hr)
  have hfree : ∀ r, id ∉ children r := fun r hmem => by
    obtain ⟨t, ht, -, e⟩ := h.sound r id hmem
    exact hid.2.2 t ht e
  refine ⟨h.labelled.insert hid, fun r hr hne hx => ?_, fun r hr hx => ?_, fun r i hi => ?_, fun i hi => ?_⟩
  · have hr : r ∈ s.cached := List.mem_of_ne_of_mem (fun e => hx (.inl e)) hr
    obtain ⟨t, hpar', hcount⟩ := h.linked r hr hne fun hr => hx (.inr hr)
    have ht : t ≠ p := fun e => hp r hr (by
      rw [Forest.path_of_parent hpar', e]
      exact List.mem_cons_of_mem r Forest.mem_path_self)
    refine ⟨t, hpar', ?_⟩
    rw [Shelf.insert_id_of_ne (hother r hr), hchildren t ht]
    exact hcount
  · have hempty : ∀ i q, i ∉ children q → i ∉ children' q := fun i q hi hmem => by
      by_cases e : q = p
      · rw [e, hnew] at hmem
        cases hmem
      · exact hi (hchildren q e ▸ hmem)
    by_cases e : r = p
    · rw [e, Shelf.insert_id_self]
      refine ⟨fun q => hempty id q (hfree q), fun hmem => ?_⟩
      obtain ⟨t, ht, -, e⟩ := h.killed_sound id hmem
      exact hid.2.2 t ht e
    · rw [Shelf.insert_id_of_ne e]
      obtain ⟨hun, hkill⟩ := h.unlinked r (List.mem_of_ne_of_mem e hr) (hx.resolve_left e)
      exact ⟨fun q => hempty _ q (hun q), hkill⟩
  · by_cases e : r = p
    · rw [e, hnew] at hi
      cases hi
    · rw [hchildren r e] at hi
      obtain ⟨t, ht, hpar', hti⟩ := h.sound r i hi
      exact ⟨t, List.mem_cons_of_mem p ht, hpar', by rw [Shelf.insert_id_of_ne (hother t ht), hti]⟩
  · obtain ⟨t, ht, hroot, hti⟩ := h.killed_sound i hi
    exact ⟨t, List.mem_cons_of_mem p ht, hroot, by rw [Shelf.insert_id_of_ne (hother t ht), hti]⟩

/-- The list that is not recorded yet gets its link. -/
theorem link (h : Booked T root X s children killed) (hp : p ∈ s.cached) (hx : p ∈ X) (hpar : T.parent p = some q)
    (hq : (children' q).Perm (s.id p :: children q)) (hother : ∀ r, r ≠ q → (children' r).Perm (children r)) :
    Booked T root (X \ {p}) s children' killed := by
  obtain ⟨hunlinked, hunkilled⟩ := h.unlinked p hp hx
  have hmem : ∀ r, ∀ id, id ≠ s.id p → (children' r).count id = (children r).count id := fun r id hne => by
    by_cases e : r = q
    · rw [e, hq.count_eq, List.count_cons_of_ne fun he => hne he.symm]
    · exact (hother r e).count_eq id
  refine ⟨h.labelled, fun r hr hne hx => ?_, fun r hr hx => ?_, fun r id hid => ?_, h.killed_sound⟩
  · by_cases hrp : r = p
    · subst hrp
      refine ⟨q, hpar, ?_⟩
      rw [List.count_append, hq.count_eq, List.count_cons_self, List.count_eq_zero.mpr (hunlinked q),
        List.count_eq_zero.mpr hunkilled]
    · obtain ⟨t, hpar', hcount⟩ := h.linked r hr hne fun hr => hx ⟨hr, hrp⟩
      refine ⟨t, hpar', ?_⟩
      rw [List.count_append] at hcount ⊢
      rwa [hmem t _ fun e => hrp (h.labelled.ids r hr p hp e)]
  · obtain ⟨hun, hkill⟩ := h.unlinked r hr hx.1
    refine ⟨fun t hid => hun t ?_, hkill⟩
    rw [← List.count_pos_iff, ← hmem t _ fun e => hx.2 (h.labelled.ids r hr p hp e)]
    exact List.count_pos_iff.mpr hid
  · by_cases e : id = s.id p
    · subst e
      by_cases hr : r = q
      · exact ⟨p, hp, hr ▸ hpar, rfl⟩
      · exact absurd ((hother r hr).mem_iff.mp hid) (hunlinked r)
    · refine h.sound r id ?_
      rw [← List.count_pos_iff, ← hmem r id e]
      exact List.count_pos_iff.mpr hid

/-- A list loses its link. -/
theorem unlink (h : Booked T root X s children killed) (hp : p ∈ s.cached) (hne : p ≠ root)
    (hq : (children q).Perm (s.id p :: children' q)) (hother : ∀ r, r ≠ q → (children r).Perm (children' r)) :
    Booked T root (Insert.insert p X) s children' killed := by
  have hpar := h.eq_of_mem hp (hq.mem_iff.mpr List.mem_cons_self)
  obtain ⟨q', hpar', hcount⟩ := h.linked p hp hne fun hx =>
    (h.unlinked p hp hx).1 q (hq.mem_iff.mpr List.mem_cons_self)
  obtain rfl : q' = q := Option.some.inj (hpar'.symm.trans hpar)
  rw [List.count_append, hq.count_eq, List.count_cons_self] at hcount
  have hmem : ∀ r, ∀ id, id ≠ s.id p → (children' r).count id = (children r).count id := fun r id hne => by
    by_cases e : r = q'
    · rw [e, hq.count_eq, List.count_cons_of_ne fun he => hne he.symm]
    · exact ((hother r e).count_eq id).symm
  have hsub : ∀ r, ∀ id ∈ children' r, id ∈ children r := fun r id hid => by
    by_cases e : r = q'
    · subst e
      exact hq.mem_iff.mpr (List.mem_cons_of_mem _ hid)
    · exact (hother r e).mem_iff.mpr hid
  refine ⟨h.labelled, fun r hr hroot hx => ?_, fun r hr hx => ?_, fun r id hid => h.sound r id (hsub r id hid),
    h.killed_sound⟩
  · have hrp : r ≠ p := fun e => hx (.inl e)
    obtain ⟨t, hpar', hcount'⟩ := h.linked r hr hroot fun hr => hx (.inr hr)
    refine ⟨t, hpar', ?_⟩
    rw [List.count_append] at hcount' ⊢
    rwa [hmem t _ fun e => hrp (h.labelled.ids r hr p hp e)]
  · rcases hx with e | hx
    swap
    · exact ⟨fun t hid => (h.unlinked r hr hx).1 t (hsub t _ hid), (h.unlinked r hr hx).2⟩
    subst e
    refine ⟨fun r hid => ?_, fun hid => ?_⟩
    · by_cases e : r = q'
      · subst e
        have := List.count_pos_iff.mpr hid
        omega
      · exact e (Option.some.inj ((h.eq_of_mem hp (hsub r _ hid)).symm.trans hpar))
    · have := List.count_pos_iff.mpr hid
      omega

/-- A list that is not recorded gets a new ID. -/
theorem insertAgain (h : Booked T root X s children killed) (hp : p ∈ s.cached) (hx : p = root ∨ p ∈ X)
    (hunlinked : ∀ q, s.id p ∉ children q) (hunkilled : s.id p ∉ killed) (hid : (s.remove p).Free id) :
    Booked T root X (s.insertAgain p id) children killed := by
  have hold : ∀ r, r ≠ p → (s.insertAgain p id).id r = s.id r := fun r hr => Shelf.insert_id_of_ne hr
  have hmem : ∀ r ∈ s.cached, r ≠ p → r ∈ (s.insertAgain p id).cached := fun r hr _ =>
    (h.labelled.mem_insertAgain hp).mpr hr
  refine ⟨h.labelled.insertAgain hid, fun r hr hne hx' => ?_, fun r hr hx' => ?_, fun r i hi => ?_, fun i hi => ?_⟩
  · have hr := (h.labelled.mem_insertAgain hp).mp hr
    have hrp : r ≠ p := fun e => by
      rcases hx with hx | hx
      · exact hne (e.trans hx)
      · exact hx' (e ▸ hx)
    rw [hold r hrp]
    exact h.linked r hr hne hx'
  · by_cases e : r = p
    · subst e
      rw [show (s.insertAgain r id).id r = id from Shelf.insert_id_self]
      refine ⟨fun q hmem => ?_, fun hmem => ?_⟩
      · obtain ⟨t, ht, -, hti⟩ := h.sound q id hmem
        have htr : t ≠ r := fun e => hunlinked q (by rw [← e, hti]; exact hmem)
        exact hid.2.2 t ((h.labelled.mem_remove hp).mpr ⟨ht, htr⟩) hti
      · obtain ⟨t, ht, -, hti⟩ := h.killed_sound id hmem
        have htr : t ≠ r := fun e => hunkilled (by rw [← e, hti]; exact hmem)
        exact hid.2.2 t ((h.labelled.mem_remove hp).mpr ⟨ht, htr⟩) hti
    · rw [hold r e]
      exact h.unlinked r ((h.labelled.mem_insertAgain hp).mp hr) hx'
  · obtain ⟨t, ht, hpar, hti⟩ := h.sound r i hi
    have htp : t ≠ p := fun e => hunlinked r (by rw [← e, hti]; exact hi)
    exact ⟨t, hmem t ht htp, hpar, (hold t htp).trans hti⟩
  · obtain ⟨t, ht, hroot, hti⟩ := h.killed_sound i hi
    have htp : t ≠ p := fun e => hunkilled (by rw [← e, hti]; exact hi)
    exact ⟨t, hmem t ht htp, hroot, (hold t htp).trans hti⟩

section

omit [DecidableEq P]

/-- A list that was left out has been discarded. -/
theorem of_not_mem (h : Booked T root X s children killed) (hp : p ∉ s.cached) :
    Booked T root (X \ {p}) s children killed where
  labelled := h.labelled
  linked r hr hne hx := h.linked r hr hne fun hr' => hx ⟨hr', fun e => hp (e ▸ hr)⟩
  unlinked r hr hx := h.unlinked r hr hx.1
  sound := h.sound
  killed_sound := h.killed_sound

end

end Booked

end Listbrokers.Tree
