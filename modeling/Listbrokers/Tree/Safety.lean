import Listbrokers.Tree.FilePaths

/-!
# Calls that end the program

A failed assertion ends the program, and so does the use of a list that is not
cached. In the states of a run in which the surroundings cooperate, neither happens
outside of the cache, except when an item is entered and no list is made for it:
`enter_child_template` sets the child link to an invalid ID then, which
`set_child_list` does not accept, and `add_to_cache` does not expect that the cache
discards the new list right away (`calls_return_iff`). What the cache does, among it
the collection that starts when a pinned list is purged, is answered by it
(`Possible`).
-/

namespace Listbrokers.Tree

open Framework Tiles

variable {P : Type} [DecidableEq P] {S : UsbSetup P} {a : Answers P} {s s' : UsbTree P} {p this : P} {X : Set P}
  {item : ℕ} {id listId : ListId}

namespace UsbTree

/-- The new list is discarded before it is used. -/
def DiscardsInserted (a : Answers P) : Prop := ∃ r ∈ a.inserted, r.1 ∈ a.collected

/-- The place and the ID of the list that the cache accepts are free. -/
def InsertsFree (S : UsbSetup P) (a : Answers P) (s : UsbTree P) (this : P) : Prop :=
  ∀ r ∈ a.inserted, S.forest.parent r.1 = some this ∧ s.shelf.Unused S.forest r.1 ∧ s.shelf.Free r.2

/-- The ID that a list gets is free, and so is the place of a list that is accepted. The collection that starts when a
list is unpinned, because it is to be purged, does not discard this very list: `LRU::Cache::discard` fails for a list
that is not in the cache any more. -/
def Possible (S : UsbSetup P) (s : UsbTree P) : UsbCall × Answers P → Prop
  | (.newUsbDevice .., a) | (.newVolume .., a) => s.shelf.Free a.newId
  | (.deviceRemoved _, a) => s.shelf.Free a.newId ∧ (∀ killList, (a.toposortForPurge killList).Perm killList) ∧
    ∀ id, ∀ p ∈ s.shelf.find id, p ∉ a.unpinned id
  | (.enterChild list _, a) => ∀ this ∈ s.shelf.find list, InsertsFree S a s this
  | (.gc, _) => True

/-- No list is made for an item that has none, and this is not expected. -/
def Fatal (S : UsbSetup P) (s : UsbTree P) : UsbCall × Answers P → Prop
  | (.enterChild list item, a) => ∃ this ∈ s.shelf.find list, FailsToEnter S a s this item ∧
    (S.assertions = true ∨ DiscardsInserted a)
  | _ => False

/-! ## Checks that are passed -/

theorem possible_bind {c : Prop} [Decidable c] (hc : c) {α : Type} (k : Unit → Except Fault α) :
    (possible c >>= k) = k () := by
  rw [possible, if_pos hc]
  rfl

section

omit [DecidableEq P]

theorem assert_bind {c : Prop} [Decidable c] (hc : c) {α : Type} (k : Unit → Except Fault α) :
    (S.assert c >>= k) = k () := by
  rw [UsbSetup.assert, if_neg fun h => h.2 hc]
  rfl

end

theorem deref_bind {α β : Type} {o : Option α} {x : α} (ho : o = some x) (k : α → Except Fault β) :
    (deref o >>= k) = k x := by
  rw [ho]
  rfl

/-- An item that links to no list is linked to one. -/
theorem setChildList_returns (hvalid : id.isValid = true)
    (hunlinked : ∀ child ∈ (s.lists this).links[item]?, child.isValid = false) :
    ∃ s', s.setChildList S this item id = .ok s' := by
  unfold UsbTree.setChildList
  rw [assert_bind hvalid, assert_bind hunlinked]
  exact ⟨_, rfl⟩

/-! ## Signals -/

theorem reinsertList_eq (h : s.shelf.Labelled) (hp : p ∈ s.shelf.cached) (hfree : s.shelf.Free a.newId) :
    s.reinsertList S a (s.shelf.id p) = .ok (a.newId, { s with shelf := s.shelf.insertAgain p a.newId }) := by
  unfold UsbTree.reinsertList
  rw [deref_bind (h.find_id hp),
    possible_bind ⟨hfree.1, hfree.2.1, fun q hq => hfree.2.2 q (List.mem_of_mem_filter hq)⟩,
    assert_bind (show a.newId ≠ s.shelf.id p from fun e => hfree.2.2 p hp e.symm)]
  rfl

theorem Rooted.reinsertDeviceList_returns (h : s.Rooted S) (hroot : S.deviceList ∈ s.shelf.cached)
    (hfree : s.shelf.Free a.newId) : ∃ s', s.reinsertDeviceList S a = .ok s' := by
  unfold UsbTree.reinsertDeviceList
  rw [← h.id hroot, reinsertList_eq h.labelled hroot hfree]
  exact ⟨_, rfl⟩

theorem Settled.newUsbDevice_returns {id : ℕ} {name usbPort : String} (h : s.Settled S)
    (hroot : S.deviceList ∈ s.shelf.cached) (hfree : s.shelf.Free a.newId) :
    ∃ s', s.newUsbDevice S a id name usbPort = .ok s' := by
  obtain ⟨items, hitems, hget⟩ := h.rooted.getListOfUsbDevices hroot
  unfold UsbTree.newUsbDevice
  rw [hget]
  simp only [bind, Except.bind]
  cases addToList items id name usbPort with
  | none => exact ⟨s, rfl⟩
  | some items' =>
    have hrooted : (s.setList S.deviceList (.devices items')).Rooted S := h.rooted.setList (by rw [hitems]; rfl)
    exact hrooted.reinsertDeviceList_returns hroot hfree

/-- The list of volumes of a device is found, and gets a new ID. -/
theorem reinsertVolumeList_returns {items : FlatList DeviceItemData} {deviceId number addedAtIndex : ℕ} (h : s.Rooted S)
    (hlevelled : s.Levelled S) (hroot : S.deviceList ∈ s.shelf.cached) (hitems : s.lists S.deviceList = .devices items)
    (hlinks : ∀ child ∈ FlatList.links items, child.isValid = true →
      ∃ p ∈ s.shelf.cached, S.forest.parent p = some S.deviceList ∧ s.shelf.id p = child)
    (hfree : s.shelf.Free a.newId) :
    ∃ s', s.reinsertVolumeList S a deviceId number addedAtIndex = .ok s' := by
  obtain ⟨items', hitems', hget⟩ := h.getListOfUsbDevices hroot
  obtain rfl := UsbList.devices.inj (hitems.symm.trans hitems')
  unfold UsbTree.reinsertVolumeList
  rw [hget]
  simp only [bind, Except.bind]
  cases hdevice : getDeviceById items deviceId with
  | none => exact ⟨s, rfl⟩
  | some r =>
    obtain ⟨idx, device⟩ := r
    dsimp only
    split
    · exact ⟨s, rfl⟩
    · next p hfind =>
      split at hfind
      swap
      · cases hfind
      next hvalid =>
      obtain ⟨hp, hid⟩ := Shelf.mem_of_find hfind
      obtain ⟨q, hq, hpar, hid'⟩ := hlinks _ (List.mem_of_getElem? (getElem?_of_getD_isValid hvalid)) hvalid
      obtain rfl := h.labelled.ids q hq p hp (hid'.trans hid.symm)
      have hkind := hlevelled q hp S.deviceList hpar
      rw [h.kind] at hkind
      cases hlist : s.lists q with
      | devices _ => rw [hlist] at hkind; cases hkind
      | dir _ => rw [hlist] at hkind; cases hkind
      | volumes volumes =>
        dsimp only
        have hreinsert : ∀ t : UsbTree P, t.shelf = s.shelf → t.reinsertList S a (t.shelf.id q) = .ok (a.newId, _) :=
          fun t ht => reinsertList_eq (ht ▸ h.labelled) (ht ▸ hq) (ht ▸ hfree)
        rw [hreinsert]
        · refine setChildList_returns hfree.1 fun child hchild => ?_
          simp only [UsbTree.setList, Function.update_self, UsbList.links_setLink, List.getElem?_set_self',
            Option.mem_def, Option.map_eq_map, Option.map_eq_some_iff] at hchild
          obtain ⟨-, -, rfl⟩ := hchild
          rfl
        · rfl

theorem Settled.newVolume_returns {number deviceId : ℕ} {label mountpoint : String} (h : s.Settled S)
    (hroot : S.deviceList ∈ s.shelf.cached) (hfree : s.shelf.Free a.newId) :
    ∃ s', s.newVolume S a number label mountpoint deviceId = .ok s' := by
  obtain ⟨items, hitems, hget⟩ := h.rooted.getListOfUsbDevices hroot
  unfold UsbTree.newVolume
  rw [hget]
  simp only [bind, Except.bind]
  cases getDeviceById items deviceId with
  | none => exact ⟨s, rfl⟩
  | some r =>
    obtain ⟨idx, device⟩ := r
    dsimp only
    cases addVolume device.volumes ⟨number, label, mountpoint⟩ with
    | none => exact ⟨s, rfl⟩
    | some r =>
      obtain ⟨addedAtIndex, volumes⟩ := r
      have hkind : (UsbList.devices (withVolumes items idx volumes)).kind = (s.lists S.deviceList).kind := by
        rw [hitems]
        rfl
      refine reinsertVolumeList_returns (h.rooted.setList hkind) (h.levelled.setList hkind) hroot
        (Function.update_self ..) (fun child hchild hvalid => ?_) hfree
      rw [links_withVolumes] at hchild
      exact h.sound.booked.sound S.deviceList child (List.mem_filter.mpr ⟨by rw [hitems]; exact hchild, hvalid⟩)

/-- The list of volumes of the device that has been removed is purged. -/
theorem Sound.purgeDeviceSubtree_returns (h : s.Sound S {p}) (hrooted : s.Rooted S) (hg : Grounded S s.shelf.cached)
    (hp : p ∈ s.shelf.cached) (hpar : S.forest.parent p = some S.deviceList) (hne : p ≠ S.deviceList)
    (hX : ∀ x ∈ ({p} : Set P), ∀ q, S.forest.parent x = some q → p ∉ S.forest.path q) (hkeeps : s.KeepsAbove S a)
    (hfree : s.shelf.Free a.newId) (hperm : ∀ killList, (a.toposortForPurge killList).Perm killList) :
    ∃ s', s.purgeDeviceSubtreeAndReinsertDeviceList S a (s.shelf.id p) = .ok s' := by
  have hroot := hrooted.id hg.root
  have hdifferent : s.shelf.id p ≠ s.devicesListId := fun e =>
    hne (hrooted.labelled.ids p hp _ hg.root (e.trans hroot.symm))
  obtain ⟨killList, -, hpurge⟩ := h.purgeSubtree_eq (a := a) hg hp hne hX
  rw [possible_bind (hperm killList)] at hpurge
  have hshrunk := purgeEntries_shrunk (S := S) (a := a) (a.toposortForPurge killList) s
  have hfree' : (s.purgeEntries S a (a.toposortForPurge killList)).shelf.Free a.newId := by
    refine ⟨hfree.1, hfree.2.1, fun q hq => ?_⟩
    rw [hshrunk.id]
    exact hfree.2.2 q (hshrunk.cached q hq)
  rw [purgeDeviceSubtreeAndReinsertDeviceList, if_pos (hrooted.labelled.valid p hp), assert_bind hdifferent,
    assert_bind ⟨p, hrooted.labelled.find_id hp, S.deviceList, hpar, hroot⟩, hpurge]
  exact (hshrunk.rooted hrooted).reinsertDeviceList_returns
    ((h.purgeSubtree_purged hg hp hne hX hpurge).grounded hkeeps).root hfree'

theorem Settled.deviceRemoved_returns {id : ℕ} (h : s.Settled S) (hg : Grounded S s.shelf.cached)
    (hkeeps : s.KeepsAbove S a) (hfree : s.shelf.Free a.newId)
    (hperm : ∀ killList, (a.toposortForPurge killList).Perm killList) :
    ∃ s', s.deviceRemoved S a id = .ok s' := by
  obtain ⟨items, hitems, hget⟩ := h.rooted.getListOfUsbDevices hg.root
  unfold UsbTree.deviceRemoved
  rw [hget]
  simp only [bind, Except.bind]
  cases getDeviceById items id with
  | none => exact ⟨s, rfl⟩
  | some r =>
    obtain ⟨idx, device⟩ := r
    dsimp only
    have hrooted : (s.setList S.deviceList (.devices (items.eraseIdx idx))).Rooted S :=
      h.rooted.setList (by rw [hitems]; rfl)
    by_cases hvalid : ((FlatList.links items)[idx]?.getD .invalid).isValid = true
    · obtain ⟨p, hp, hid, hpar, hne, hs₁, hX⟩ := h.eraseDevice hitems hvalid
      rw [← hid]
      exact hs₁.purgeDeviceSubtree_returns hrooted hg hp hpar hne hX hkeeps hfree hperm
    · rw [purgeDeviceSubtreeAndReinsertDeviceList, if_neg hvalid]
      exact hrooted.reinsertDeviceList_returns hg.root hfree

/-! ## Entering items -/

/-- A list that has been inserted is found, unless it has been discarded. -/
theorem Sound.addChildListToCache_inserted (h : s.Sound S X) {items : UsbList} (hitems : items.links = [])
    (hdevices : ∀ devices, items ≠ .devices devices) {r : P × ListId} (hinserted : a.inserted = some r)
    (hfree : InsertsFree S a s this) : ∃ s₁, s.addChildListToCache S a this items = .ok (r.2, s₁) ∧
      r.2.isValid = true ∧ ((s₁.shelf.find r.2).isSome = true ↔ ¬ DiscardsInserted a) := by
  have hfree := hfree r hinserted
  have hadd : ∃ s₁, s.addChildListToCache S a this items = .ok (r.2, s₁) := by
    unfold UsbTree.addChildListToCache
    rw [hinserted]
    exact ⟨_, possible_bind hfree _⟩
  obtain ⟨s₁, hadd⟩ := hadd
  refine ⟨s₁, hadd, hfree.2.2.1, ?_⟩
  rcases h.addChildListToCache_cases hitems hdevices (by rw [hadd]; nofun) with ⟨-, hadd'⟩ | ⟨id, s₂, hadd', -, hfind⟩
  · rw [hadd] at hadd'
    have hvalid := hfree.2.2.1
    rw [(Prod.mk.inj (Except.ok.inj hadd')).1] at hvalid
    cases hvalid
  · rw [hadd] at hadd'
    obtain ⟨rfl, rfl⟩ := Prod.mk.inj (Except.ok.inj hadd')
    rw [hfind]
    simp [Accepted, DiscardsInserted, hinserted]

/-- What is made of a new list does not fail as long as the list is cached. -/
theorem Sound.useInserted_returns (h : s.Sound S X) {items : UsbList} (hitems : items.links = [])
    (hdevices : ∀ devices, items ≠ .devices devices) (hfree : InsertsFree S a s this) {α : Type}
    (refused : ListId × UsbTree P → α) {use : ListId × UsbTree P → P → Except Fault α}
    (huse : ∀ x p, ∃ r, use x p = .ok r) :
    (∃ r, (s.addChildListToCache S a this items >>= fun x =>
      if x.1.isValid = false then .ok (refused x) else deref (x.2.shelf.find x.1) >>= use x) = .ok r) ↔
        ¬ DiscardsInserted a := by
  cases hinserted : a.inserted with
  | none =>
    refine iff_of_true ⟨refused (.invalid, s), ?_⟩ ?_
    · unfold UsbTree.addChildListToCache
      rw [hinserted]
      rfl
    · rintro ⟨r, hr, -⟩
      rw [hinserted] at hr
      cases hr
  | some r =>
    obtain ⟨s₁, hadd, hvalid, hfind⟩ := h.addChildListToCache_inserted hitems hdevices hinserted hfree
    rw [← hfind, hadd]
    simp only [bind, Except.bind, hvalid]
    cases s₁.shelf.find r.2 with
    | none => exact iff_of_false nofun nofun
    | some p => exact iff_of_true (huse _ p) rfl

theorem Sound.attachNewDirlist_returns (h : s.Sound S X) (hfree : InsertsFree S a s this) (path : String) :
    (∃ r, s.attachNewDirlist S a this path = .ok r) ↔ ¬ DiscardsInserted a := by
  refine h.useInserted_returns (show (.dir [] : UsbList).links = [] from rfl) nofun hfree _ fun x p => ?_
  cases a.readDir path with
  | none => exact ⟨_, rfl⟩
  | some names => exact ⟨_, rfl⟩

theorem Sound.addVolumeList_returns (h : s.Sound S X) (hfree : InsertsFree S a s this) (device : DeviceItemData) :
    (∃ r, s.addVolumeList S a this device = .ok r) ↔ ¬ DiscardsInserted a :=
  h.useInserted_returns (show (.volumes [] : UsbList).links = [] from rfl) nofun hfree _ fun _ _ => ⟨_, rfl⟩

/-- A list is made for an item that is not a file, unless the cache discards it before it is filled. -/
theorem Settled.addToCache_returns (h : s.Settled S) (hg : Grounded S s.shelf.cached) (hthis : this ∈ s.shelf.cached)
    (hitem : item < (s.lists this).links.length) (henter : IsEnterable s this item) (hfree : InsertsFree S a s this) :
    (∃ r, s.addToCache S a this item = .ok r) ↔ ¬ DiscardsInserted a := by
  by_cases hkind : (s.lists this).kind = .devices
  · unfold UsbTree.addToCache
    cases hlist : s.lists this with
    | volumes items => rw [hlist] at hkind; cases hkind
    | dir items => rw [hlist] at hkind; cases hkind
    | devices items =>
      rw [hlist] at hitem
      obtain ⟨device, hdevice⟩ := getElem?_of_lt_links hitem
      dsimp only
      rw [deref_bind hdevice]
      exact h.sound.addVolumeList_returns hfree device.data
  · obtain ⟨volume, device, dirs, mount, -, -, -, -, hpath⟩ := h.pathToRead_eq hg hthis hitem hkind henter
    unfold UsbTree.pathToRead at hpath
    unfold UsbTree.addToCache
    unfold IsEnterable at henter
    cases hlist : s.lists this with
    | devices items => rw [hlist] at hkind; exact absurd rfl hkind
    | volumes items =>
      rw [hlist] at hitem hpath
      obtain ⟨entry, hentry⟩ := getElem?_of_lt_links hitem
      dsimp only at hpath ⊢
      rw [deref_bind hentry] at hpath ⊢
      obtain ⟨path, hurl, -⟩ := bind_eq_ok hpath
      rw [addRootDirectory, hurl]
      exact h.sound.attachNewDirlist_returns hfree path
    | dir items =>
      rw [hlist] at hitem hpath henter
      obtain ⟨entry, hentry⟩ := getElem?_of_lt_links hitem
      dsimp only at hpath ⊢
      rw [deref_bind hentry, if_pos (henter entry hentry)] at hpath
      rw [deref_bind hentry, addDirectory, if_pos (henter entry hentry), hpath]
      exact h.sound.attachNewDirlist_returns hfree _

section

omit [DecidableEq P]

/-- A list that is discarded before it is used has not been made. -/
theorem DiscardsInserted.not_canEnter (h : DiscardsInserted a) : ¬ CanEnter S a s this item := by
  rintro ⟨⟨r, hr, hnot⟩, -⟩
  obtain ⟨r', hr', hdiscarded⟩ := h
  obtain rfl := Option.some.inj (hr.symm.trans hr')
  exact hnot hdiscarded

end

/-- Without assertions, an item gets any link. -/
theorem setChildList_unchecked (hassertions : S.assertions = false) (s : UsbTree P) (this : P) (item : ℕ)
    (id : ListId) : ∃ s', s.setChildList S this item id = .ok s' := by
  unfold UsbTree.setChildList
  simp only [UsbSetup.assert, hassertions]
  exact ⟨_, rfl⟩

/-- An item that has no link, and is not a file. -/
theorem Settled.enterUnlinked_returns (h : s.Settled S) (hg : Grounded S s.shelf.cached) (hthis : this ∈ s.shelf.cached)
    {child : ListId} (hcontinue : a.mayContinue = true) (hlink : (s.lists this).links[item]? = some child)
    (hinvalid : child.isValid = false) (henter : IsEnterable s this item) (hfree : InsertsFree S a s this) :
    (∃ r, s.enterChildTemplate S a this item = .ok r) ↔
      ¬ (¬ CanEnter S a s this item ∧ (S.assertions = true ∨ DiscardsInserted a)) := by
  rw [enterChildTemplate_unlinked hcontinue hlink hinvalid]
  have hreturns := h.addToCache_returns hg hthis (List.getElem?_eq_some_iff.mp hlink).1 henter hfree
  by_cases hdiscarded : DiscardsInserted a
  · refine iff_of_false (fun ⟨r, hr⟩ => ?_) (not_not.mpr ⟨hdiscarded.not_canEnter, .inr hdiscarded⟩)
    obtain ⟨r', hr', -⟩ := bind_eq_ok hr
    exact hreturns.mp ⟨r', hr'⟩ hdiscarded
  · obtain ⟨r, hr⟩ := hreturns.mpr hdiscarded
    have hmakes := h.sound.addToCache_makes hlink henter (by rw [hr]; nofun)
    by_cases hcan : CanEnter S a s this item
    · obtain ⟨id, s₁, s', hadd, hvalid, hset, -⟩ := h.sound.enters hlink hinvalid (hmakes.adds_iff.mpr hcan)
      refine iff_of_true ⟨(id, .ok, s'), ?_⟩ fun hn => hn.1 hcan
      simp only [hadd, bind, Except.bind, hvalid, true_or, if_true, hset]
    · -- the link is set to the invalid ID
      have hnone : r.1.isValid = false := Bool.eq_false_iff.mpr fun hvalid =>
        hcan (hmakes.adds_iff.mp (hr ▸ adds_ok.mpr ⟨hmakes.valid r hr hvalid, hvalid⟩))
      rw [hr]
      simp only [bind, Except.bind, if_pos (Or.inr (hmakes.error r hr hnone) : r.1.isValid = true ∨ r.2.1 ≠ .invalidId)]
      cases hassertions : S.assertions with
      | false =>
        obtain ⟨s', hset⟩ := setChildList_unchecked hassertions r.2.2 this item r.1
        refine iff_of_true ⟨(r.1, r.2.1, s'), ?_⟩ fun hn => ?_
        · rw [hset]
        · rcases hn.2 with hn | hn
          · cases hn
          · exact hdiscarded hn
      | true =>
        refine iff_of_false ?_ (not_not.mpr ⟨hcan, .inl rfl⟩)
        rintro ⟨x, hx⟩
        obtain ⟨s', hset, -⟩ := bind_eq_ok hx
        unfold UsbTree.setChildList at hset
        obtain ⟨hassert, -⟩ := of_assert hset
        rw [hassert hassertions] at hnone
        cases hnone

/-- Entering an item comes to its end, unless no list is made for an item without link. -/
theorem Settled.enterChildTemplate_returns (h : s.Settled S) (hg : Grounded S s.shelf.cached)
    (hthis : this ∈ s.shelf.cached) (hfree : InsertsFree S a s this) :
    (∃ r, s.enterChildTemplate S a this item = .ok r) ↔
      ¬ (FailsToEnter S a s this item ∧ (S.assertions = true ∨ DiscardsInserted a)) := by
  by_cases hcontinue : a.mayContinue = true
  swap
  · refine iff_of_true ⟨(.invalid, .interrupted, s), ?_⟩ fun hn => hcontinue hn.1.1
    unfold UsbTree.enterChildTemplate
    rw [if_neg hcontinue]
  cases hlink : (s.lists this).links[item]? with
  | none =>
    refine iff_of_true ⟨(.invalid, .invalidId, s), ?_⟩ ?_
    · unfold UsbTree.enterChildTemplate
      rw [if_pos hcontinue, hlink]
    · rintro ⟨⟨-, ⟨child, hchild, -⟩, -⟩, -⟩
      rw [hlink] at hchild
      cases hchild
  | some child =>
    by_cases hchild : child.isValid = true ∧ child.nocacheBit = false
    · refine iff_of_true ⟨(child, .ok, s), ?_⟩ ?_
      · unfold UsbTree.enterChildTemplate
        rw [if_pos hcontinue, hlink]
        exact if_pos hchild
      · rintro ⟨⟨-, ⟨child', hlink', hinvalid⟩, -⟩, -⟩
        obtain rfl := Option.some.inj (hlink.symm.trans hlink')
        rw [hchild.1] at hinvalid
        cases hinvalid
    · have hinvalid := h.sound.link_invalid hlink hchild
      by_cases henter : IsEnterable s this item
      · rw [h.enterUnlinked_returns hg hthis hcontinue hlink hinvalid henter hfree]
        have hfails : FailsToEnter S a s this item ↔ ¬ CanEnter S a s this item :=
          ⟨fun hf => hf.2.2.2, fun hcan => ⟨hcontinue, ⟨child, hlink, hinvalid⟩, henter, hcan⟩⟩
        rw [hfails]
      · refine iff_of_true ⟨(.invalid, .invalidId, s), ?_⟩ fun hn => henter hn.1.2.2.1
        rw [enterChildTemplate_unlinked hcontinue hlink hinvalid, addToCache_file henter]
        rfl

/-! ## Runs -/

/-- Only entering an item can end the program, and it does so exactly if it is to enter an item without link, and no
list is made for that item: in a program with assertions in any case, and without them if the list is discarded
before it is used. -/
theorem calls_return_iff {rootId : ListId} (hvalid : rootId.isValid = true) (hcacheable : rootId.nocacheBit = false)
    {devices : List (ℕ × String × String)} {volumes : List (ℕ × VolumeInfo)} {calls : List (UsbCall × Answers P)}
    (h : Run (When (Step S) (Cooperates S)) (init S rootId devices volumes) calls s) {call : UsbCall × Answers P}
    (hpossible : s.Possible S call) (horderly : s.Orderly S call) : (∃ s', s.Step S call s') ↔ ¬ s.Fatal S call := by
  obtain ⟨hs, hg⟩ := run_grounded hvalid hcacheable h
  obtain ⟨call, a⟩ := call
  cases call with
  | enterChild list item =>
    have hstep : (∃ s', s.Step S (.enterChild list item, a) s') ↔ ∃ r, s.enterChild S a list item = .ok r := by
      refine ⟨fun ⟨s', hs'⟩ => ?_, fun ⟨r, hr⟩ => ⟨r.2.2, ?_⟩⟩
      · obtain ⟨r, hr, -⟩ := bind_eq_ok (x := s.enterChild S a list item) (f := fun r => .ok r.2.2) hs'
        exact ⟨r, hr⟩
      · change (·.2.2) <$> s.enterChild S a list item = .ok r.2.2
        rw [hr]
        rfl
    rw [hstep, UsbTree.enterChild, Fatal]
    cases hfind : s.shelf.find list with
    | none => exact iff_of_true ⟨_, rfl⟩ nofun
    | some this =>
      dsimp only
      rw [hs.enterChildTemplate_returns hg (Shelf.mem_of_find hfind).1 (hpossible this hfind)]
      simp
  | newUsbDevice id name usbPort => exact iff_of_true (hs.newUsbDevice_returns hg.root hpossible) not_false
  | newVolume number label mountpoint deviceId => exact iff_of_true (hs.newVolume_returns hg.root hpossible) not_false
  | deviceRemoved id => exact iff_of_true (hs.deviceRemoved_returns hg horderly hpossible.1 hpossible.2.1) not_false
  | gc => exact iff_of_true ⟨_, rfl⟩ not_false

/-- The first device can be removed, and the directory of it cannot be entered because it cannot be read. -/
theorem calls_return_iff_unreadable : ∃ s s' : UsbTree ℕ, s.shelf.find ⟨6⟩ = some 3 ∧
    s.Step forkedSetup (.deviceRemoved 1, unpinningAnswers) s' ∧
    ¬ ∃ s', s.Step forkedSetup (.enterChild ⟨6⟩ 0, exampleAnswers (some (7, ⟨8⟩)) .invalid fun _ => none) s' := by
  obtain ⟨s, hrun, hs⟩ := Run.of_exec_any (fun _ _ _ => step_of_toOption)
    (show (exec (fun s c => (s.run forkedSetup c.2 c.1).toOption) (Cooperates forkedSetup) forkedCalls
      (init forkedSetup ⟨1⟩ [] [])).any (fun s => s.shelf.find ⟨6⟩ = some 3 ∧
        (s.shelf.Free ⟨8⟩ ∧ s.KeepsAbove forkedSetup unpinningAnswers) ∧
        (forkedSetup.forest.parent 7 = some 3 ∧ s.shelf.Unused forkedSetup.forest 7) ∧
        s.Orderly forkedSetup (.enterChild ⟨6⟩ 0, exampleAnswers (some (7, ⟨8⟩)) .invalid fun _ => none) ∧
        FailsToEnter forkedSetup (exampleAnswers (some (7, ⟨8⟩)) .invalid fun _ => none) s 3 0) =
          true by decide +kernel)
  obtain ⟨hfind, ⟨hfree, hkeeps⟩, ⟨hparent, hunused⟩, horderly, hfails⟩ := of_decide_eq_true hs
  -- only the collection that unpins list 3 discards anything, and that is list 5
  have hunpinned : ∀ id, ∀ p ∈ s.shelf.find id, p ∉ unpinningAnswers.unpinned id := by
    intro id p hp hmem
    unfold unpinningAnswers at hmem
    dsimp only at hmem
    split at hmem
    · next e =>
      rw [e, hfind] at hp
      obtain rfl := Option.some.inj hp
      simp at hmem
    · cases hmem
  obtain ⟨s', hstep⟩ := (calls_return_iff (by decide) (by decide) hrun
    (show s.Possible forkedSetup (.deviceRemoved 1, unpinningAnswers) from
      ⟨hfree, fun killList => killList.reverse_perm, hunpinned⟩) hkeeps).mpr not_false
  have hpossible : s.Possible forkedSetup
      (.enterChild ⟨6⟩ 0, exampleAnswers (some (7, ⟨8⟩)) .invalid fun _ => none) := by
    intro this hthis r hr
    obtain rfl := Option.some.inj (hfind.symm.trans hthis)
    obtain rfl := Option.some.inj hr
    exact ⟨hparent, hunused, hfree⟩
  exact ⟨s, s', hfind, hstep, fun hreturns =>
    (calls_return_iff (by decide) (by decide) hrun hpossible horderly).mp hreturns ⟨3, hfind, hfails, .inl rfl⟩⟩

end UsbTree

end Listbrokers.Tree
