import Listbrokers.Framework.Lts
import Listbrokers.Framework.Outcome
import Listbrokers.Tree.Links
import Listbrokers.Tree.Usb

/-!
# The links of the USB list tree

What discarding, inserting and entering lists do to the links and the contents
of the lists. In every state between operations (`Sound`), each cached list is
linked by one item of its parent list, but for lists that have been leaked; all
links lead to cached lists; and a list of volumes that a device links to holds
the volumes of that device.
-/

namespace Listbrokers.Tree

open Framework Tiles

variable {P α : Type} [DecidableEq P]

/-! ## Links of a list -/

namespace FlatList

variable {items : FlatList α} {id : ListId} {idx : ℕ}

theorem links_setLink (items : FlatList α) (idx : ℕ) (child : ListId) :
    links (setLink items idx child) = (links items).set idx child := by
  unfold links setLink
  refine List.ext_getElem? fun j => ?_
  rw [List.getElem?_map, List.getElem?_modify, List.getElem?_set, List.getElem?_map]
  by_cases e : idx = j
  · subst e
    by_cases hj : idx < items.length
    · simp [hj]
    · simp [hj]
  · simp [e]

theorem links_insertBefore (items : FlatList α) (idx : ℕ) (data : α) :
    links (insertBefore items idx data) = (links items).insertIdx idx .invalid := by
  simp [links, insertBefore, List.map_insertIdx]

theorem links_eraseIdx (items : FlatList α) (idx : ℕ) : links (items.eraseIdx idx) = (links items).eraseIdx idx := by
  simp [links, List.eraseIdx_map]

/-- The items without their links. -/
def bare (items : FlatList α) : FlatList α := items.map fun item => { item with child := .invalid }

theorem bare_setLink (items : FlatList α) (idx : ℕ) (child : ListId) : bare (setLink items idx child) = bare items := by
  unfold bare setLink
  refine List.ext_getElem? fun j => ?_
  rw [List.getElem?_map, List.getElem?_modify, List.getElem?_map]
  by_cases e : idx = j <;> cases items[j]? <;> simp [e]

theorem bare_obliviateChild (items : FlatList α) (id : ListId) : bare (obliviateChild items id) = bare items := by
  unfold obliviateChild
  split
  · rfl
  · exact bare_setLink ..

end FlatList

namespace UsbList

variable {l : UsbList} {id : ListId} {idx : ℕ}

/-- The lists that the items link to. -/
def children (l : UsbList) : List ListId := l.links.filter ListId.isValid

theorem links_setLink (l : UsbList) (idx : ℕ) (child : ListId) :
    (l.setLink idx child).links = l.links.set idx child := by
  cases l <;> exact FlatList.links_setLink ..

theorem obliviateChild_eq (l : UsbList) (id : ListId) :
    l.obliviateChild id = (l.links.findIdx? (· = id)).elim l fun idx => l.setLink idx .invalid := by
  have hlookup : ∀ {α : Type} (items : FlatList α), items.lookupItemIdByChildId id =
      (FlatList.links items).findIdx? (· = id) :=
    fun items => by
      rw [FlatList.links, List.findIdx?_map]
      rfl
  cases l with
  | devices items =>
    rw [obliviateChild, FlatList.obliviateChild, hlookup, links]
    cases (FlatList.links items).findIdx? (· = id) <;> rfl
  | volumes items =>
    rw [obliviateChild, FlatList.obliviateChild, hlookup, links]
    cases (FlatList.links items).findIdx? (· = id) <;> rfl
  | dir items =>
    rw [obliviateChild, FlatList.obliviateChild, hlookup, links]
    cases (FlatList.links items).findIdx? (· = id) <;> rfl

/-- Replacing a link. -/
theorem children_setLink_perm {old : ListId} (child : ListId) (h : l.links[idx]? = some old) :
    ∃ rest : List ListId, l.children.Perm ([old].filter ListId.isValid ++ rest) ∧
      (l.setLink idx child).children.Perm ([child].filter ListId.isValid ++ rest) := by
  obtain ⟨hlt, hget⟩ := List.getElem?_eq_some_iff.mp h
  refine ⟨(l.links.eraseIdx idx).filter ListId.isValid, ?_, ?_⟩
  · rw [← List.filter_append, List.singleton_append, ← hget]
    exact ((List.getElem_cons_eraseIdx_perm hlt).symm).filter _
  · rw [← List.filter_append, List.singleton_append, children, links_setLink]
    refine List.Perm.filter _ ?_
    have hlt' : idx < (l.links.set idx child).length := by rwa [List.length_set]
    have := (List.getElem_cons_eraseIdx_perm hlt').symm
    rwa [List.getElem_set_self, List.eraseIdx_set_eq] at this

/-- An item gets a link. -/
theorem children_link {old : ListId} (h : l.links[idx]? = some old) (hold : old.isValid = false)
    (hid : id.isValid = true) : (l.setLink idx id).children.Perm (id :: l.children) := by
  obtain ⟨rest, hbefore, hafter⟩ := children_setLink_perm id h
  rw [List.filter_cons_of_neg (by simp [hold])] at hbefore
  rw [List.filter_cons_of_pos hid] at hafter
  exact hafter.trans (hbefore.symm.cons id)

/-- An item loses its link. -/
theorem children_unlink (h : l.links[idx]? = some id) (hid : id.isValid = true) :
    l.children.Perm (id :: (l.setLink idx .invalid).children) := by
  obtain ⟨rest, hbefore, hafter⟩ := children_setLink_perm .invalid h
  rw [List.filter_cons_of_pos hid] at hbefore
  exact hbefore.trans (hafter.symm.cons id)

/-- An item without link does not get one. -/
theorem children_setLink_invalid {old : ListId} (h : l.links[idx]? = some old) (hold : old.isValid = false)
    (hid : id.isValid = false) : (l.setLink idx id).children.Perm l.children := by
  obtain ⟨rest, hbefore, hafter⟩ := children_setLink_perm id h
  rw [List.filter_cons_of_neg (by simp [hold])] at hbefore
  rw [List.filter_cons_of_neg (by simp [hid])] at hafter
  exact hafter.trans hbefore.symm

theorem children_obliviateChild (l : UsbList) (hid : id.isValid = true) :
    (l.obliviateChild id).children.Perm (l.children.erase id) := by
  rw [obliviateChild_eq]
  cases hfind : l.links.findIdx? (· = id) with
  | none =>
    have hnot : id ∉ l.children := fun hmem => by
      have := List.findIdx?_eq_none_iff.mp hfind id (List.mem_of_mem_filter hmem)
      simp at this
    rw [List.erase_of_not_mem hnot]
    exact .refl _
  | some idx =>
    obtain ⟨hlt, hget, -⟩ := List.findIdx?_eq_some_iff_getElem.mp hfind
    have hlink : l.links[idx]? = some id := List.getElem?_eq_some_iff.mpr ⟨hlt, by simpa using hget⟩
    have := (children_unlink hlink hid).erase id
    rw [List.erase_cons_head] at this
    exact this.symm

/-- The items without their links. -/
def bare : UsbList → UsbList
  | devices items => .devices (FlatList.bare items)
  | volumes items => .volumes (FlatList.bare items)
  | dir items => .dir (FlatList.bare items)

/-- The devices of a list of devices. -/
def deviceData : UsbList → List DeviceItemData
  | devices items => items.map (·.data)
  | _ => []

theorem bare_setLink (l : UsbList) (idx : ℕ) (child : ListId) : (l.setLink idx child).bare = l.bare := by
  cases l with
  | devices items => exact congrArg devices (FlatList.bare_setLink ..)
  | volumes items => exact congrArg volumes (FlatList.bare_setLink ..)
  | dir items => exact congrArg dir (FlatList.bare_setLink ..)

theorem bare_obliviateChild (l : UsbList) (id : ListId) : (l.obliviateChild id).bare = l.bare := by
  cases l with
  | devices items => exact congrArg devices (FlatList.bare_obliviateChild ..)
  | volumes items => exact congrArg volumes (FlatList.bare_obliviateChild ..)
  | dir items => exact congrArg dir (FlatList.bare_obliviateChild ..)

theorem deviceData_bare (l : UsbList) : l.bare.deviceData = l.deviceData := by
  cases l <;> simp [bare, deviceData, FlatList.bare]

theorem deviceData_of_bare {l' : UsbList} (h : l.bare = l'.bare) : l.deviceData = l'.deviceData := by
  rw [← deviceData_bare, h, deviceData_bare]

theorem devices_of_bare {l' : UsbList} {items : FlatList DeviceItemData} (h : l.bare = l'.bare)
    (hl : l = .devices items) : ∃ items', l' = .devices items' := by
  subst hl
  cases l' with
  | devices items' => exact ⟨items', rfl⟩
  | volumes _ => cases h
  | dir _ => cases h

end UsbList

/-! ## Discarding lists -/

variable {S : UsbSetup P} {a : Answers P} {s s' s'' : UsbTree P} {p q : P} {X : Set P} {id : ListId}

/-- The lists that the items of a list link to. -/
def UsbTree.children (s : UsbTree P) (q : P) : List ListId := (s.lists q).children

/-- A list that a device links to holds the volumes of the device. -/
def UsbTree.Mirrors (S : UsbSetup P) (s : UsbTree P) : Prop :=
  ∀ (idx : ℕ) (device : DeviceItemData), (s.lists S.deviceList).deviceData[idx]? = some device →
    ∀ p ∈ s.shelf.cached, (s.lists S.deviceList).links[idx]? = some (s.shelf.id p) →
      (s.lists p).bare = .volumes (UsbTree.fillVolumeList device)

/-- The devices have different IDs, and their volumes are sorted. -/
structure SortedDevices (devices : List DeviceItemData) : Prop where
  ids : (devices.map (·.devId)).Nodup
  volumes : ∀ device ∈ devices, device.volumes.Pairwise fun info other => info.number < other.number

/-- The links agree with the parent pointers, but for the lists in `X`, and with the volumes of the devices. The device
list is the only list of devices. -/
structure UsbTree.Sound (S : UsbSetup P) (X : Set P) (s : UsbTree P) : Prop where
  booked : Booked S.forest S.deviceList X s.shelf s.children []
  devices : ∀ p items, s.lists p = .devices items → p = S.deviceList
  mirrors : s.Mirrors S
  sorted : SortedDevices (s.lists S.deviceList).deviceData

/-- Lists have been discarded, and items have lost their links. -/
structure UsbTree.Shrunk (s s' : UsbTree P) : Prop where
  id : s'.shelf.id = s.shelf.id
  devicesListId : s'.devicesListId = s.devicesListId
  cached : ∀ p ∈ s'.shelf.cached, p ∈ s.shelf.cached
  links : ∀ (q : P) (idx : ℕ), (s'.lists q).links[idx]? = (s.lists q).links[idx]? ∨
    (∃ old, (s.lists q).links[idx]? = some old) ∧ (s'.lists q).links[idx]? = some ListId.invalid
  bare : ∀ q, (s'.lists q).bare = (s.lists q).bare

namespace UsbTree

section

omit [DecidableEq P]

theorem Shrunk.refl (s : UsbTree P) : Shrunk s s := ⟨rfl, rfl, fun _ h => h, fun _ _ => .inl rfl, fun _ => rfl⟩

theorem Shrunk.trans (h : Shrunk s s') (h' : Shrunk s' s'') : Shrunk s s'' where
  id := h'.id.trans h.id
  devicesListId := h'.devicesListId.trans h.devicesListId
  cached p hp := h.cached p (h'.cached p hp)
  links q idx := by
    rcases h'.links q idx with e' | ⟨⟨id, hid⟩, e'⟩
    · rw [e']
      exact h.links q idx
    · rcases h.links q idx with e | ⟨hsome, -⟩
      · exact .inr ⟨⟨id, e ▸ hid⟩, e'⟩
      · exact .inr ⟨hsome, e'⟩
  bare q := (h'.bare q).trans (h.bare q)

/-- An item without link does not get one. -/
theorem Shrunk.link_invalid (h : Shrunk s s') {idx : ℕ} {old : ListId} (hlink : (s.lists q).links[idx]? = some old)
    (hold : old.isValid = false) : ∃ old, (s'.lists q).links[idx]? = some old ∧ old.isValid = false := by
  rcases h.links q idx with e | ⟨-, e⟩
  · exact ⟨old, e.trans hlink, hold⟩
  · exact ⟨.invalid, e, rfl⟩

theorem Shrunk.sound (h : Shrunk s s') (hs : s.Sound S X)
    (hbooked : Booked S.forest S.deviceList X s'.shelf s'.children []) :
    s'.Sound S X where
  booked := hbooked
  devices p items hp := by
    obtain ⟨items', hp'⟩ := UsbList.devices_of_bare (h.bare p) hp
    exact hs.devices p items' hp'
  mirrors idx device hdevice p hp hlink := by
    rw [h.id] at hlink
    rw [h.bare p]
    refine hs.mirrors idx device (by rwa [← UsbList.deviceData_of_bare (h.bare _)]) p (h.cached p hp) ?_
    rcases h.links S.deviceList idx with e | ⟨-, e⟩
    · rwa [← e]
    · have := hs.booked.labelled.valid p (h.cached p hp)
      rw [← Option.some.inj (e.symm.trans hlink)] at this
      cases this
  sorted := by
    rw [UsbList.deviceData_of_bare (h.bare _)]
    exact hs.sorted

end

theorem discard_shrunk (s : UsbTree P) (p : P) : Shrunk s (s.discard S p) := by
  refine ⟨rfl, rfl, fun r hr => List.mem_of_mem_filter hr, fun q idx => ?_, fun q => ?_⟩
  · cases hpar : S.forest.parent p with
    | none => exact .inl (by rw [discard, hpar])
    | some t =>
      by_cases e : q = t
      · subst e
        simp only [discard, hpar, Function.update_self, UsbList.obliviateChild_eq]
        cases hfind : (s.lists q).links.findIdx? (· = s.shelf.id p) with
        | none => exact .inl rfl
        | some j =>
          rw [Option.elim_some, UsbList.links_setLink, List.getElem?_set]
          split
          · split
            · next hj hlt => exact .inr ⟨⟨_, List.getElem?_eq_getElem (hj ▸ hlt)⟩, rfl⟩
            · next hj hlt => exact .inl (List.getElem?_eq_none (Nat.not_lt.mp (hj ▸ hlt))).symm
          · exact .inl rfl
      · exact .inl (by simp only [discard, hpar, Function.update_of_ne e])
  · cases hpar : S.forest.parent p with
    | none => rw [discard, hpar]
    | some t =>
      by_cases e : q = t
      · subst e
        simp only [discard, hpar, Function.update_self, UsbList.bare_obliviateChild]
      · simp only [discard, hpar, Function.update_of_ne e]

theorem collect_shrunk (victims : List P) (s : UsbTree P) : Shrunk s (s.collect S victims) := by
  induction victims generalizing s with
  | nil => exact .refl s
  | cons p victims ih =>
    have hfirst : Shrunk s (if p ∈ s.shelf.cached then s.discard S p else s) := by
      split
      · exact discard_shrunk s p
      · exact .refl s
    exact hfirst.trans (ih _)

theorem purgeEntries_shrunk (killList : List ListId) (s : UsbTree P) : Shrunk s (s.purgeEntries S a killList) := by
  induction killList generalizing s with
  | nil => exact .refl s
  | cons id killList ih =>
    rw [UsbTree.purgeEntries]
    split
    · exact ih s
    · next p _ => exact ((collect_shrunk _ s).trans (discard_shrunk _ p)).trans (ih _)

/-- Changing items, but not the links. -/
theorem Sound.setList (h : s.Sound S X) {items : UsbList} (hperm : items.children.Perm (s.children p))
    (hdevices : ∀ devices, items = .devices devices → p = S.deviceList) (hm : (s.setList p items).Mirrors S)
    (hsorted : SortedDevices ((s.setList p items).lists S.deviceList).deviceData) : (s.setList p items).Sound S X where
  booked := h.booked.perm fun q => by
    by_cases e : q = p
    · subst e
      simpa [UsbTree.setList, children] using hperm.symm
    · simp [UsbTree.setList, children, e]
  devices q devices hq := by
    by_cases e : q = p
    · subst e
      exact hdevices devices (by simpa [UsbTree.setList] using hq)
    · exact h.devices q devices (by simpa [UsbTree.setList, e] using hq)
  mirrors := hm
  sorted := hsorted

theorem setList_bare {items : UsbList} (hbare : items.bare = (s.lists p).bare) (q : P) :
    ((s.setList p items).lists q).bare = (s.lists q).bare := by
  by_cases e : q = p
  · subst e
    simpa only [UsbTree.setList, Function.update_self] using hbare
  · simp only [UsbTree.setList, Function.update_of_ne e]

theorem Sound.discard (h : s.Sound S X) (hp : p ∈ s.shelf.cached) : (s.discard S p).Sound S X := by
  refine (discard_shrunk s p).sound h ?_
  cases hpar : S.forest.parent p with
  | none =>
    have hchildren : (s.discard S p).children = s.children := by
      funext q
      rw [children, UsbTree.discard, hpar]
      rfl
    rw [hchildren]
    refine h.booked.discard_unrecorded hp (fun q hmem => ?_) List.not_mem_nil
    rw [h.booked.eq_of_mem hp hmem] at hpar
    cases hpar
  | some t =>
    have hother : ∀ q, q ≠ t → (s.discard S p).children q = s.children q := fun q e => by
      simp only [children, UsbTree.discard, hpar, Function.update_of_ne e]
    have ht : ((s.discard S p).children t).Perm ((s.children t).erase (s.shelf.id p)) := by
      simpa only [children, UsbTree.discard, hpar, Function.update_self] using
        UsbList.children_obliviateChild (s.lists t) (h.booked.labelled.valid p hp)
    refine h.booked.discard hp (fun q i hi => ?_) (fun _ _ => rfl) (fun q hmem => ?_) List.not_mem_nil
    · by_cases e : q = t
      · rw [e, ht.count_eq, List.count_erase_of_ne hi]
      · rw [hother q e]
    · by_cases e : q = t
      · subst e
        have hmem := ht.mem_iff.mp hmem
        by_cases hx : p ∈ X
        · exact (h.booked.unlinked p hp hx).1 q (List.mem_of_mem_erase hmem)
        · have hne : p ≠ S.deviceList := fun e => by
            rw [e, S.root] at hpar
            cases hpar
          obtain ⟨q', hpar', hcount⟩ := h.booked.linked p hp hne hx
          obtain rfl : q' = q := Option.some.inj (hpar'.symm.trans hpar)
          rw [List.append_nil] at hcount
          have := List.count_pos_iff.mpr hmem
          rw [List.count_erase_self] at this
          omega
      · rw [hother q e] at hmem
        exact e (Option.some.inj ((h.booked.eq_of_mem hp hmem).symm.trans hpar))

theorem Sound.collect (h : s.Sound S X) (victims : List P) : (s.collect S victims).Sound S X := by
  induction victims generalizing s with
  | nil => exact h
  | cons p victims ih =>
    change (UsbTree.collect S victims (if p ∈ s.shelf.cached then s.discard S p else s)).Sound S X
    split
    · next hp => exact ih (h.discard hp)
    · exact ih h

/-- A list that has been discarded already is discarded once more. -/
theorem Sound.discard_again (h : s.Sound S X) (hp : s.shelf.find (s.shelf.id p) = none)
    (hid : (s.shelf.id p).isValid = true) : (s.discard S p).Sound S X := by
  have hnone := Shelf.find_eq_none.mp hp
  have hnot : ∀ q, s.shelf.id p ∉ s.children q := fun q hmem => by
    obtain ⟨r, hr, -, e⟩ := h.booked.sound q _ hmem
    exact hnone r hr e
  have hshelf : (s.discard S p).shelf = s.shelf := by
    change (⟨s.shelf.cached.filter (s.shelf.id · ≠ s.shelf.id p), s.shelf.id⟩ : Shelf P) = s.shelf
    rw [List.filter_eq_self.mpr fun r hr => by simpa using hnone r hr]
  refine (discard_shrunk s p).sound h ?_
  rw [hshelf]
  refine h.booked.perm fun q => ?_
  cases hpar : S.forest.parent p with
  | none => simp only [children, UsbTree.discard, hpar, List.Perm.refl]
  | some t =>
    by_cases e : q = t
    · subst e
      simp only [children, UsbTree.discard, hpar, Function.update_self]
      have := UsbList.children_obliviateChild (s.lists q) hid
      rw [List.erase_of_not_mem (show s.shelf.id p ∉ (s.lists q).children from hnot q)] at this
      exact this.symm
    · simp only [children, UsbTree.discard, hpar, Function.update_of_ne e, List.Perm.refl]

/-- The lists of a kill list are not cached any more. -/
theorem Sound.purgeEntries (h : s.Sound S X) (killList : List ListId) : (s.purgeEntries S a killList).Sound S X ∧
    ∀ p ∈ (s.purgeEntries S a killList).shelf.cached, s.shelf.id p ∉ killList := by
  induction killList generalizing s with
  | nil => exact ⟨h, fun _ _ => List.not_mem_nil⟩
  | cons id killList ih =>
    rw [UsbTree.purgeEntries]
    cases hfind : s.shelf.find id with
    | none =>
      obtain ⟨hsound, hgone⟩ := ih h
      refine ⟨hsound, fun p hp hmem => ?_⟩
      rcases List.mem_cons.mp hmem with e | hmem
      · exact Shelf.find_eq_none.mp hfind p ((purgeEntries_shrunk killList s).cached p hp) e
      · exact hgone p hp hmem
    | some p =>
      obtain ⟨hp, rfl⟩ := Shelf.mem_of_find hfind
      have h₁ := h.collect (a.unpinned (s.shelf.id p))
      have hshrunk₁ := collect_shrunk (S := S) (a.unpinned (s.shelf.id p)) s
      generalize s.collect S (a.unpinned (s.shelf.id p)) = s₁ at h₁ hshrunk₁
      have hpid : s₁.shelf.id p = s.shelf.id p := by rw [hshrunk₁.id]
      have h₂ : (s₁.discard S p).Sound S X := by
        by_cases hp₁ : p ∈ s₁.shelf.cached
        · exact h₁.discard hp₁
        · refine h₁.discard_again (Shelf.find_eq_none.mpr fun r hr e => hp₁ ?_) ?_
          · rw [hpid, hshrunk₁.id] at e
            exact h.booked.labelled.ids r (hshrunk₁.cached r hr) p hp e ▸ hr
          · rw [hpid]
            exact h.booked.labelled.valid p hp
      obtain ⟨hsound, hgone⟩ := ih h₂
      have hid₂ : (s₁.discard S p).shelf.id = s.shelf.id := hshrunk₁.id
      refine ⟨hsound, fun r hr hmem => ?_⟩
      rcases List.mem_cons.mp hmem with e | hmem
      · have := List.of_mem_filter ((purgeEntries_shrunk killList _).cached r hr)
        simp only [decide_not, Bool.not_eq_true', decide_eq_false_iff_not] at this
        exact this (by rw [hshrunk₁.id, e])
      · exact hgone r hr (by rwa [hid₂])

section

omit [DecidableEq P]

theorem enumerateTreeOfSublists_head {n : ℕ} {nodes killList : List ListId}
    (h : s.enumerateTreeOfSublists n (id :: nodes) = .ok killList) : id ∈ killList := by
  cases n with
  | zero => cases h
  | succ n =>
    rw [enumerateTreeOfSublists] at h
    obtain ⟨p, -, h⟩ := bind_eq_ok h
    obtain ⟨rest, -, h⟩ := bind_eq_ok h
    cases h
    exact List.mem_cons_self

end

/-! ## Inserting lists -/

/-- A check that has been passed. -/
theorem of_possible {c : Prop} [Decidable c] {β : Type} {k : Unit → Except Fault β} {b : β}
    (h : (possible c >>= k) = .ok b) : c ∧ k () = .ok b := by
  unfold possible at h
  split at h
  · exact ⟨‹_›, h⟩
  · cases h

theorem of_deref {β γ : Type} {o : Option β} {k : β → Except Fault γ} {c : γ} (h : (deref o >>= k) = .ok c) :
    ∃ b, o = some b ∧ k b = .ok c := by
  cases o with
  | none => cases h
  | some b => exact ⟨b, rfl, h⟩

section

omit [DecidableEq P]

theorem of_assert {c : Prop} [Decidable c] {β : Type} {k : Unit → Except Fault β} {b : β}
    (h : (S.assert c >>= k) = .ok b) : (S.assertions = true → c) ∧ k () = .ok b := by
  unfold UsbSetup.assert at h
  split at h
  · cases h
  · next hn => exact ⟨fun ha => by_contra fun hc => hn ⟨ha, hc⟩, h⟩

/-- A list that is left out is not linked. -/
theorem not_linked (h : Booked S.forest S.deviceList X s.shelf s.children []) (hp : p ∈ s.shelf.cached)
    (hx : p ∈ X) (q : P) (idx : ℕ) : (s.lists q).links[idx]? ≠ some (s.shelf.id p) := fun hlink =>
  (h.unlinked p hp hx).1 q (List.mem_filter.mpr ⟨List.mem_of_getElem? hlink, h.labelled.valid p hp⟩)

end

/-- The new list is in the cache unless it has been discarded right away, and nothing links to it. -/
structure Inserted (S : UsbSetup P) (X : Set P) (this p : P) (newId : ListId) (s s' : UsbTree P) : Prop where
  parent : S.forest.parent p = some this
  sound : s'.Sound S (insert p X)
  id : s'.shelf.id p = newId
  only : ∀ r ∈ s'.shelf.cached, s'.shelf.id r = newId → r = p
  valid : newId.isValid = true
  links : ∀ (idx : ℕ) (old : ListId), (s.lists this).links[idx]? = some old → old.isValid = false →
    ∃ old, (s'.lists this).links[idx]? = some old ∧ old.isValid = false
  empty : s'.children p = []
  bare : ∀ q, q ≠ p → (s'.lists q).bare = (s.lists q).bare

/-- A new list, which nothing links to. -/
theorem Sound.insertList {this : P} {items : UsbList} (h : s.Sound S X) (hitems : items.links = [])
    (hdevices : ∀ devices, items ≠ .devices devices) (hpar : S.forest.parent p = some this)
    (hunused : s.shelf.Unused S.forest p) (hfree : s.shelf.Free id) :
    (UsbTree.setList { s with shelf := s.shelf.insert p id } p items).Sound S (insert p X) := by
  generalize hs₁ : UsbTree.setList { s with shelf := s.shelf.insert p id } p items = s₁
  have hother : ∀ q, q ≠ p → s₁.lists q = s.lists q := fun q e => by
    rw [← hs₁]
    exact Function.update_of_ne e ..
  have hself : s₁.lists p = items := by
    rw [← hs₁]
    exact Function.update_self ..
  have hshelf : s₁.shelf = s.shelf.insert p id := by rw [← hs₁]; rfl
  have hbooked : Booked S.forest S.deviceList (insert p X) s₁.shelf s₁.children [] := by
    rw [hshelf]
    refine h.booked.insert hunused hfree (fun q e => ?_) ?_
    · rw [children, children, hother q e]
    · rw [children, hself, UsbList.children, hitems]
      rfl
  have hdl : p ≠ S.deviceList := fun e => by
    rw [e, S.root] at hpar
    cases hpar
  refine ⟨hbooked, fun q devices hq => ?_,
    fun idx device hdevice r hr hlink => ?_, by rw [hother _ hdl.symm]; exact h.sorted⟩
  · by_cases e : q = p
    · rw [e, hself] at hq
      exact absurd hq (hdevices devices)
    · exact h.devices q devices (by rwa [hother q e] at hq)
  · have hrp : r ≠ p := fun e => not_linked hbooked hr (.inl e) _ idx hlink
    rw [hother r hrp]
    rw [hother _ hdl.symm] at hdevice hlink
    rw [hshelf, Shelf.insert_id_of_ne hrp] at hlink
    exact h.mirrors idx device hdevice r (List.mem_of_ne_of_mem hrp (by rwa [hshelf] at hr)) hlink

theorem Sound.addChildListToCache {this : P} {items : UsbList} {r : ListId × UsbTree P} (h : s.Sound S X)
    (hitems : items.links = []) (hdevices : ∀ devices, items ≠ .devices devices)
    (hr : s.addChildListToCache S a this items = .ok r) :
    r = (.invalid, s) ∨ a.inserted.isSome = true ∧ ∃ p, Inserted S X this p r.1 s r.2 := by
  unfold UsbTree.addChildListToCache at hr
  split at hr
  · exact .inl (Except.ok.inj hr).symm
  · next p id hins =>
    obtain ⟨⟨hpar, hunused, hfree⟩, hr⟩ := of_possible hr
    cases hr
    have hthis : this ≠ p := fun e => by
      rw [← e] at hpar
      exact absurd (S.forest.rank_lt hpar) (Nat.lt_irrefl _)
    have h₁ := h.insertList hitems hdevices hpar hunused hfree
    generalize hs₁ : UsbTree.setList { s with shelf := s.shelf.insert p id } p items = s₁ at h₁
    have hother : ∀ q, q ≠ p → s₁.lists q = s.lists q := fun q e => by
      rw [← hs₁]
      exact Function.update_of_ne e ..
    have hself : s₁.lists p = items := by
      rw [← hs₁]
      exact Function.update_self ..
    have hshelf : s₁.shelf = s.shelf.insert p id := by rw [← hs₁]; rfl
    have hsound := h₁.collect a.collected
    have hshrunk := collect_shrunk (S := S) a.collected s₁
    have hid : s₁.shelf.id p = id := by rw [hshelf, Shelf.insert_id_self]
    have hp : p ∈ s₁.shelf.cached := by
      rw [hshelf]
      exact List.mem_cons_self
    refine .inr ⟨by rw [hins]; rfl, p, hpar, hsound, hshrunk.id ▸ hid, fun r hr e => ?_, hfree.1,
      fun idx old hlink hold => ?_, ?_, fun q e => ?_⟩
    · rw [hshrunk.id] at e
      exact h₁.booked.labelled.ids r (hshrunk.cached r hr) p hp (e.trans hid.symm)
    · exact hshrunk.link_invalid (by rwa [hother this hthis]) hold
    · rw [children, UsbList.children, List.filter_eq_nil_iff]
      intro i hi
      obtain ⟨idx, hlt, rfl⟩ := List.getElem_of_mem hi
      rcases hshrunk.links p idx with e | ⟨⟨old, e⟩, -⟩
      · rw [hself, hitems, List.getElem?_eq_getElem hlt] at e
        cases e
      · rw [hself, hitems] at e
        cases e
    · rw [hshrunk.bare, hother q e]

/-! ## Entering a child -/

/-- What `add_to_cache` may lead to: no list; or a list that is cached, with the volumes of the device that is
entered, if it is one; or a leaked list. -/
def Added (S : UsbSetup P) (X : Set P) (this : P) (item : ℕ) (s : UsbTree P) (leaks : Prop)
    (r : ListId × EnterError × UsbTree P) : Prop :=
  (r.1.isValid = false ∧ r.2.2 = s) ∨
  (∃ p, Inserted S X this p r.1 s r.2.2 ∧ p ∈ r.2.2.shelf.cached ∧
    ∀ device, (s.lists this).deviceData[item]? = some device →
      (r.2.2.lists p).bare = .volumes (fillVolumeList device)) ∨
  (leaks ∧ r.1.isValid = false ∧ r.2.1 ≠ .invalidId ∧ ∃ p id, Inserted S X this p id s r.2.2)

theorem fillVolumeList_bare (device : DeviceItemData) :
    FlatList.bare (fillVolumeList device) = fillVolumeList device := by
  simp [FlatList.bare, fillVolumeList]

/-- A new list is filled. -/
theorem Inserted.setList {this : P} (h : Inserted S X this p id s s') (hp : p ∈ s'.shelf.cached) {items : UsbList}
    (hitems : items.children = []) (hdevices : ∀ devices, items ≠ .devices devices) :
    Inserted S X this p id s (s'.setList p items) := by
  have hother : ∀ q, q ≠ p → (s'.setList p items).lists q = s'.lists q := fun q e => Function.update_of_ne e ..
  have hthis : this ≠ p := fun e => by
    have := h.parent
    rw [← e] at this
    exact absurd (S.forest.rank_lt this) (Nat.lt_irrefl _)
  have hdl : S.deviceList ≠ p := fun e => by
    have := h.parent
    rw [← e, S.root] at this
    cases this
  refine ⟨h.parent, h.sound.setList (by rw [hitems, h.empty]) (fun devices e => absurd e (hdevices devices))
    ?_ ?_, h.id, h.only, h.valid, fun idx old hlink hold => ?_, ?_, fun q e => ?_⟩
  · intro idx device hdevice r hr hlink
    rw [hother _ hdl] at hdevice hlink
    rw [hother r fun e => not_linked h.sound.booked hp (.inl rfl) _ idx (e ▸ hlink)]
    exact h.sound.mirrors idx device hdevice r hr hlink
  · rw [hother _ hdl]
    exact h.sound.sorted
  · rw [hother this hthis]
    exact h.links idx old hlink hold
  · rw [children, show (s'.setList p items).lists p = items from Function.update_self .., hitems]
  · rw [hother q e]
    exact h.bare q e

section

omit [DecidableEq P]

/-- The new list is found under its ID. -/
theorem Inserted.of_find {this r : P} (h : Inserted S X this p id s s') (hfind : s'.shelf.find id = some r) :
    r = p ∧ p ∈ s'.shelf.cached := by
  obtain ⟨hr, e⟩ := Shelf.mem_of_find hfind
  obtain rfl := h.only r hr e
  exact ⟨rfl, hr⟩

end

theorem Sound.attachNewDirlist {this : P} {path : String} {r : ListId × EnterError × UsbTree P} (h : s.Sound S X)
    (item : ℕ) (hthis : (s.lists this).deviceData = []) (hr : s.attachNewDirlist S a this path = .ok r) :
    Added S X this item s (a.inserted.isSome = true ∧ a.readDir path = none) r := by
  unfold UsbTree.attachNewDirlist at hr
  obtain ⟨⟨id, s₁⟩, hadd, hr⟩ := bind_eq_ok hr
  dsimp only at hr
  rcases h.addChildListToCache rfl (by simp) hadd with e | ⟨hins, p, hinserted⟩
  · cases e
    cases hr
    exact .inl ⟨rfl, rfl⟩
  · rw [if_neg (by simp [hinserted.valid])] at hr
    obtain ⟨q, hfind, hr⟩ := of_deref hr
    obtain ⟨rfl, hp⟩ := hinserted.of_find hfind
    split at hr
    · next hread =>
      cases hr
      exact .inr (.inr ⟨⟨hins, hread⟩, rfl, nofun, q, id, hinserted⟩)
    · next directories files hread =>
      cases hr
      refine .inr (.inl ⟨q, hinserted.setList hp ?_ (by simp), hp, fun device hdevice => ?_⟩)
      · simp [UsbList.children, UsbList.links, FlatList.links, fillFromFileSystem, List.filter_eq_nil_iff]
      · rw [hthis] at hdevice
        cases hdevice

theorem Sound.addVolumeList {this : P} {item : ℕ} {device : DeviceItemData} {r : ListId × EnterError × UsbTree P}
    (h : s.Sound S X) (hdevice : (s.lists this).deviceData[item]? = some device)
    (hr : s.addVolumeList S a this device = .ok r) : Added S X this item s False r := by
  unfold UsbTree.addVolumeList at hr
  obtain ⟨⟨id, s₁⟩, hadd, hr⟩ := bind_eq_ok hr
  dsimp only at hr
  rcases h.addChildListToCache rfl (by simp) hadd with e | ⟨hins, p, hinserted⟩
  · cases e
    cases hr
    exact .inl ⟨rfl, rfl⟩
  · rw [if_neg (by simp [hinserted.valid])] at hr
    obtain ⟨q, hfind, hr⟩ := of_deref hr
    obtain ⟨rfl, hp⟩ := hinserted.of_find hfind
    cases hr
    refine .inr (.inl ⟨q, hinserted.setList hp ?_ (by simp), hp, fun device' hdevice' => ?_⟩)
    · simp [UsbList.children, UsbList.links, FlatList.links, fillVolumeList, List.filter_eq_nil_iff]
    · obtain rfl := Option.some.inj (hdevice.symm.trans hdevice')
      simp only [UsbTree.setList, Function.update_self, UsbList.bare, fillVolumeList_bare]

/-- The path of the directory that is read when the list for an item is made, if one is read. -/
def pathToRead (S : UsbSetup P) (s : UsbTree P) (this : P) (item : ℕ) : Except Fault (Option String) :=
  match s.lists this with
  | .devices _ => .ok none
  | .volumes items => do
    let volume ← deref items[item]?
    some <$> s.getUrl volume.data
  | .dir items => do
    let entry ← deref items[item]?
    if entry.data.kind = .directory then s.constructFspathToItem (S.forest.path this) item else .ok none

theorem Sound.addToCache {this : P} {item : ℕ} {r : ListId × EnterError × UsbTree P} (h : s.Sound S X)
    (hr : s.addToCache S a this item = .ok r) :
    Added S X this item s
      (a.inserted.isSome = true ∧ ∃ path, s.pathToRead S this item = .ok (some path) ∧ a.readDir path = none) r := by
  unfold UsbTree.addToCache at hr
  split at hr
  · next items hitems =>
    obtain ⟨device, hdevice, hr⟩ := of_deref hr
    have hdata : (s.lists this).deviceData[item]? = some device.data := by
      rw [hitems, UsbList.deviceData, List.getElem?_map, hdevice]
      rfl
    rcases h.addVolumeList hdata hr with hr | hr | ⟨hf, -⟩
    · exact .inl hr
    · exact .inr (.inl hr)
    · exact hf.elim
  · next items hitems =>
    obtain ⟨volume, hvolume, hr⟩ := of_deref hr
    unfold UsbTree.addRootDirectory at hr
    obtain ⟨path, hpath, hr⟩ := bind_eq_ok hr
    rcases h.attachNewDirlist item (by rw [hitems]; rfl) hr with hr | hr | ⟨⟨hins, hread⟩, hr⟩
    · exact .inl hr
    · exact .inr (.inl hr)
    · refine .inr (.inr ⟨⟨hins, path, ?_, hread⟩, hr⟩)
      simp only [pathToRead, hitems, hvolume]
      change some <$> s.getUrl volume.data = _
      rw [hpath]
      rfl
  · next items hitems =>
    obtain ⟨entry, hentry, hr⟩ := of_deref hr
    unfold UsbTree.addDirectory at hr
    split at hr
    · next hkind =>
      obtain ⟨path, hpath, hr⟩ := bind_eq_ok hr
      cases path with
      | none =>
        cases hr
        exact .inl ⟨rfl, rfl⟩
      | some path =>
        rcases h.attachNewDirlist item (by rw [hitems]; rfl) hr with hr | hr | ⟨⟨hins, hread⟩, hr⟩
        · exact .inl hr
        · exact .inr (.inl hr)
        · refine .inr (.inr ⟨⟨hins, path, ?_, hread⟩, hr⟩)
          simp only [pathToRead, hitems, hentry]
          change (if entry.data.kind = .directory then _ else _) = _
          rw [if_pos hkind, hpath]
    · cases hr
      exact .inl ⟨rfl, rfl⟩

/-- What the condition on the surroundings is for entering a child: a directory that is read for a list that has been
inserted can be read. A program with assertions does not go on if it cannot. -/
def Readable (S : UsbSetup P) (a : Answers P) (s : UsbTree P) (this : P) (item : ℕ) : Prop :=
  S.assertions = true ∨ a.inserted = none ∨
    ∀ path, s.pathToRead S this item = .ok (some path) → (a.readDir path).isSome = true

section

omit [DecidableEq P]

/-- A link that may not be used as it is does not exist. -/
theorem Sound.link_invalid (h : s.Sound S X) {this : P} {item : ℕ} {child : ListId}
    (hlink : (s.lists this).links[item]? = some child) (hchild : ¬ (child.isValid = true ∧ child.nocacheBit = false)) :
    child.isValid = false := by
  by_contra hvalid
  have hvalid : child.isValid = true := by simpa using hvalid
  obtain ⟨r, hr, -, rfl⟩ := h.booked.sound this child
    (List.mem_filter.mpr ⟨List.mem_of_getElem? hlink, hvalid⟩)
  exact hchild ⟨hvalid, h.booked.labelled.cacheable r hr⟩

/-- Whose links may be set, does not become another kind of list. -/
theorem Sound.devices_of_setLink (h : s.Sound S X) {this : P} {item : ℕ} {child : ListId}
    {devices : FlatList DeviceItemData} (hdevices : (s.lists this).setLink item child = .devices devices) :
    this = S.deviceList := by
  cases hl : s.lists this with
  | devices items => exact h.devices this items hl
  | volumes _ => rw [hl] at hdevices; cases hdevices
  | dir _ => rw [hl] at hdevices; cases hdevices

end

/-- An item without link is given an invalid link. -/
theorem Sound.setLink_invalid {this : P} {item : ℕ} {old child : ListId} (h : s.Sound S X)
    (hlink : (s.lists this).links[item]? = some old) (hold : old.isValid = false) (hchild : child.isValid = false) :
    (s.setList this ((s.lists this).setLink item child)).Sound S X := by
  have hbare := setList_bare (s := s) (p := this) (UsbList.bare_setLink (s.lists this) item child)
  refine h.setList (UsbList.children_setLink_invalid hlink hold hchild)
    (fun _ hdevices => h.devices_of_setLink hdevices)
    (fun idx device hdevice p hp hid => ?_) (by rw [UsbList.deviceData_of_bare (hbare _)]; exact h.sorted)
  rw [hbare]
  refine h.mirrors idx device (by rwa [← UsbList.deviceData_of_bare (hbare _)]) p hp ?_
  by_cases e : S.deviceList = this
  · rw [e] at hid ⊢
    simp only [UsbTree.setList, Function.update_self, UsbList.links_setLink] at hid
    rw [List.getElem?_set] at hid
    split at hid
    · split at hid
      · have hvalid := h.booked.labelled.valid p hp
        rw [← Option.some.inj hid, hchild] at hvalid
        cases hvalid
      · cases hid
    · exact hid
  · simpa only [UsbTree.setList, Function.update_of_ne e] using hid

/-- A list that nothing links to gets its link. -/
theorem Sound.setChildList {this : P} {item : ℕ} {old : ListId} (h : s.Sound S X) (hp : p ∈ s.shelf.cached) (hx : p ∈ X)
    (hpar : S.forest.parent p = some this) (hlink : (s.lists this).links[item]? = some old) (hold : old.isValid = false)
    (hfilled : ∀ device, (s.lists this).deviceData[item]? = some device →
      (s.lists p).bare = .volumes (fillVolumeList device))
    (hr : s.setChildList S this item (s.shelf.id p) = .ok s') : s'.Sound S (X \ {p}) := by
  unfold UsbTree.setChildList at hr
  obtain ⟨-, hr⟩ := of_assert hr
  obtain ⟨-, hr⟩ := of_assert hr
  cases hr
  have hbare := setList_bare (s := s) (p := this) (UsbList.bare_setLink (s.lists this) item (s.shelf.id p))
  refine ⟨h.booked.link hp hx hpar ?_ fun q e => ?_, fun q devices hq => ?_, fun idx device hdevice r hr hlink' => ?_,
    by rw [UsbList.deviceData_of_bare (hbare _)]; exact h.sorted⟩
  · simp only [children, UsbTree.setList, Function.update_self]
    exact UsbList.children_link hlink hold (h.booked.labelled.valid p hp)
  · simp only [children, UsbTree.setList, Function.update_of_ne e, List.Perm.refl]
  · by_cases e : q = this
    · subst e
      exact h.devices_of_setLink (by simpa only [UsbTree.setList, Function.update_self] using hq)
    · exact h.devices q devices (by simpa only [UsbTree.setList, Function.update_of_ne e] using hq)
  · rw [hbare]
    rw [UsbList.deviceData_of_bare (hbare _)] at hdevice
    by_cases e : S.deviceList = this
    · rw [e] at hdevice hlink'
      simp only [UsbTree.setList, Function.update_self, UsbList.links_setLink] at hlink'
      by_cases hidx : item = idx
      · subst hidx
        rw [List.getElem?_set_self (List.getElem?_eq_some_iff.mp hlink).1] at hlink'
        rw [← h.booked.labelled.ids p hp r hr (Option.some.inj hlink')]
        exact hfilled device hdevice
      · rw [List.getElem?_set_ne hidx] at hlink'
        exact h.mirrors idx device (e ▸ hdevice) r hr (e ▸ hlink')
    · simp only [UsbTree.setList, Function.update_of_ne e] at hlink'
      exact h.mirrors idx device hdevice r hr hlink'

theorem Sound.enterChildTemplate {this : P} {item : ℕ} {r : ListId × EnterError × UsbTree P} (h : s.Sound S X)
    (hr : s.enterChildTemplate S a this item = .ok r) :
    ∃ X', r.2.2.Sound S X' ∧
      ((a.mayContinue = true → (∀ child ∈ (s.lists this).links[item]?, child.isValid = false) →
        Readable S a s this item) →
        X' ⊆ X) := by
  unfold UsbTree.enterChildTemplate at hr
  split at hr
  · next hcontinue =>
    split at hr
    · cases hr
      exact ⟨X, h, fun _ => .rfl⟩
    · next child hlink =>
      split at hr
      · cases hr
        exact ⟨X, h, fun _ => .rfl⟩
      · next hchild =>
        have hinvalid := h.link_invalid hlink hchild
        obtain ⟨⟨newId, error, s₁⟩, hadd, hr⟩ := bind_eq_ok hr
        obtain ⟨s₂, hpurge, hr⟩ := bind_eq_ok hr
        cases hr
        rw [UsbTree.purgeSubtree, if_neg (by simp [hinvalid])] at hpurge
        dsimp only at hpurge ⊢
        rcases h.addToCache hadd with ⟨hid, rfl⟩ | ⟨p, hinserted, hp, hfilled⟩ |
            ⟨⟨hins, path, hpath, hread⟩, hid, herror, p, id, hinserted⟩
        · -- no list has been inserted, and the item is given an invalid link again
          dsimp only at hid
          refine ⟨X, ?_, fun _ => .rfl⟩
          split at hpurge
          · unfold UsbTree.setChildList at hpurge
            obtain ⟨-, hpurge⟩ := of_assert hpurge
            obtain ⟨-, hpurge⟩ := of_assert hpurge
            cases hpurge
            exact h.setLink_invalid hlink hinvalid hid
          · cases hpurge
            exact h
        · obtain ⟨old, hlink', hold⟩ := hinserted.links item child hlink hinvalid
          have hid := hinserted.id
          have hvalid := hinserted.valid
          have hbare := hinserted.bare
          dsimp only at hid hvalid hlink' hp hbare hfilled
          rw [if_pos (.inl hvalid), ← hid] at hpurge
          have hthis : this ≠ p := fun e => by
            have := hinserted.parent
            rw [← e] at this
            exact absurd (S.forest.rank_lt this) (Nat.lt_irrefl _)
          refine ⟨_, hinserted.sound.setChildList hp (.inl rfl) hinserted.parent hlink' hold
            (fun device hdevice => ?_) hpurge, fun _ q hq => hq.1.resolve_left hq.2⟩
          exact hfilled device (by rwa [← UsbList.deviceData_of_bare (hbare this hthis)])
        · -- the list has been leaked
          dsimp only at hid herror
          rw [if_pos (.inr herror)] at hpurge
          unfold UsbTree.setChildList at hpurge
          obtain ⟨hassert, hpurge⟩ := of_assert hpurge
          obtain ⟨-, hpurge⟩ := of_assert hpurge
          cases hpurge
          obtain ⟨old, hlink', hold⟩ := hinserted.links item child hlink hinvalid
          refine ⟨_, hinserted.sound.setLink_invalid hlink' hold hid, fun hreadable => ?_⟩
          rcases hreadable hcontinue fun c hc => by rw [hlink] at hc; cases hc; exact hinvalid with hon | hnone | hall
          · rw [hassert hon] at hid
            cases hid
          · rw [hnone] at hins
            cases hins
          · have := hall path hpath
            rw [hread] at this
            cases this
  · cases hr
    exact ⟨X, h, fun _ => .rfl⟩

/-! ## Signals -/

/-- The new ID of a list that nothing links to. -/
theorem Sound.reinsertList {r : ListId × UsbTree P} (h : s.Sound S X) (hp : p ∈ s.shelf.cached)
    (hx : p = S.deviceList ∨ p ∈ X) (hunlinked : ∀ q, s.shelf.id p ∉ s.children q)
    (hr : s.reinsertList S a (s.shelf.id p) = .ok r) :
    r.2.Sound S X ∧ r.2.shelf.id p = r.1 ∧ p ∈ r.2.shelf.cached ∧ r.2.lists = s.lists := by
  unfold UsbTree.reinsertList at hr
  obtain ⟨q, hfind, hr⟩ := of_deref hr
  obtain ⟨hq, hid⟩ := Shelf.mem_of_find hfind
  obtain rfl := h.booked.labelled.ids q hq p hp hid
  obtain ⟨hfree, hr⟩ := of_possible hr
  obtain ⟨-, hr⟩ := of_assert hr
  cases hr
  refine ⟨⟨h.booked.insertAgain hp hx hunlinked List.not_mem_nil hfree, h.devices,
    fun idx device hdevice r hr hlink => ?_,
    h.sorted⟩, Shelf.insert_id_self, (h.booked.labelled.mem_insertAgain hp).mpr hp, rfl⟩
  have hr := (h.booked.labelled.mem_insertAgain hp).mp hr
  by_cases e : r = q
  · -- a link to the new ID would be a link to another list
    rw [e, show (s.shelf.insertAgain q a.newId).id q = a.newId from Shelf.insert_id_self] at hlink
    obtain ⟨t, ht, -, hid⟩ := h.booked.sound S.deviceList a.newId
      (List.mem_filter.mpr ⟨List.mem_of_getElem? hlink, hfree.1⟩)
    by_cases htq : t = q
    · refine absurd ?_ (hunlinked S.deviceList)
      rw [← htq, hid]
      exact List.mem_filter.mpr ⟨List.mem_of_getElem? hlink, hfree.1⟩
    · exact absurd hid (hfree.2.2 t ((h.booked.labelled.mem_remove hp).mpr ⟨ht, htq⟩))
  · rw [show (s.shelf.insertAgain q a.newId).id r = s.shelf.id r from Shelf.insert_id_of_ne e] at hlink
    exact h.mirrors idx device hdevice r hr hlink

theorem Sound.reinsertDeviceList (h : s.Sound S X)
    (hroot : ∀ p, s.shelf.find s.devicesListId = some p → p = S.deviceList)
    (hr : s.reinsertDeviceList S a = .ok s') : s'.Sound S X := by
  unfold UsbTree.reinsertDeviceList at hr
  obtain ⟨⟨id, s₁⟩, hreinsert, hr⟩ := bind_eq_ok hr
  cases hr
  have hreinsert' := hreinsert
  unfold UsbTree.reinsertList at hreinsert'
  obtain ⟨p, hfind, -⟩ := of_deref hreinsert'
  have hp := hroot p hfind
  obtain ⟨hcached, hid⟩ := Shelf.mem_of_find hfind
  rw [← hid] at hreinsert
  have h₁ := (h.reinsertList hcached (.inl hp) (fun q hmem => by
    have := h.booked.eq_of_mem hcached hmem
    rw [hp, S.root] at this
    cases this) hreinsert).1
  exact ⟨h₁.booked, h₁.devices, h₁.mirrors, h₁.sorted⟩

end UsbTree

end Listbrokers.Tree
