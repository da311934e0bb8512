import Listbrokers.Tree.UsbRuns

/-!
# The levels of the USB list tree

The device list links to lists of volumes, a list of volumes links to root
directories, and a directory links to directories. Only `enter_child` adds a list
to the tree, of the kind that belongs below the entered list; no other operation
makes a list of another kind of one.
-/

namespace Listbrokers.Tree

open Framework Tiles

variable {P : Type} [DecidableEq P] {S : UsbSetup P} {a : Answers P} {s s' s'' : UsbTree P} {p q this : P}
  {item : ℕ} {id : ListId}

/-- The kinds of lists. -/
inductive ListKind
  | devices
  | volumes
  | dir
  deriving DecidableEq, Repr

/-- What the items of such a list link to. -/
def ListKind.below : ListKind → ListKind
  | devices => volumes
  | volumes | dir => dir

def UsbList.kind : UsbList → ListKind
  | devices _ => .devices
  | volumes _ => .volumes
  | dir _ => .dir

@[simp] theorem UsbList.kind_setLink (l : UsbList) (idx : ℕ) (child : ListId) :
    (l.setLink idx child).kind = l.kind := by
  cases l <;> rfl

theorem UsbList.kind_of_bare {l l' : UsbList} (h : l.bare = l'.bare) : l.kind = l'.kind := by
  cases l <;> cases l' <;> first | rfl | cases h

/-- The names in a directory. -/
def UsbList.names : UsbList → List String
  | devices _ | volumes _ => []
  | dir items => items.map (·.data.name)

@[simp] theorem UsbList.names_setLink (l : UsbList) (idx : ℕ) (child : ListId) :
    (l.setLink idx child).names = l.names := by
  cases l with
  | devices items => rfl
  | volumes items => rfl
  | dir items =>
    change (FlatList.setLink items idx child).map (·.data.name) = items.map (·.data.name)
    refine List.ext_getElem (by simp [FlatList.setLink]) fun i hi hi' => ?_
    simp only [FlatList.setLink, List.getElem_map, List.getElem_modify]
    split <;> rfl

theorem UsbList.names_of_bare {l l' : UsbList} (h : l.bare = l'.bare) : l.names = l'.names := by
  have hnames : ∀ l : UsbList, l.bare.names = l.names := fun l => by
    cases l with
    | devices items => rfl
    | volumes items => rfl
    | dir items => simp [bare, names, FlatList.bare, Function.comp_def]
  rw [← hnames l, h, hnames l']

/-- The kinds of the items of a directory. -/
def UsbList.entryKinds : UsbList → List ListItemKind
  | devices _ | volumes _ => []
  | dir items => items.map (·.data.kind)

theorem UsbList.entryKinds_bare (l : UsbList) : l.bare.entryKinds = l.entryKinds := by
  cases l with
  | devices items => rfl
  | volumes items => rfl
  | dir items => simp [bare, entryKinds, FlatList.bare, Function.comp_def]

theorem UsbList.entryKinds_of_bare {l l' : UsbList} (h : l.bare = l'.bare) : l.entryKinds = l'.entryKinds := by
  rw [← entryKinds_bare l, h, entryKinds_bare l']

theorem UsbList.entryKinds_of_ne {l : UsbList} (h : l.kind ≠ .dir) : l.entryKinds = [] := by
  cases l with
  | devices items => rfl
  | volumes items => rfl
  | dir items => exact absurd rfl h

namespace UsbTree

/-- A cached list is of the kind that belongs below its parent list. -/
def Levelled (S : UsbSetup P) (s : UsbTree P) : Prop :=
  ∀ p ∈ s.shelf.cached, ∀ q, S.forest.parent p = some q → (s.lists p).kind = (s.lists q).kind.below

/-- There is no new list, and the lists are of the same kinds and with the same names. -/
structure SameKinds (s s' : UsbTree P) : Prop where
  cached : ∀ p ∈ s'.shelf.cached, p ∈ s.shelf.cached
  kind : ∀ q, (s'.lists q).kind = (s.lists q).kind
  names : ∀ q, (s'.lists q).names = (s.lists q).names

section

omit [DecidableEq P]

theorem SameKinds.refl (s : UsbTree P) : SameKinds s s := ⟨fun _ h => h, fun _ => rfl, fun _ => rfl⟩

theorem SameKinds.trans (h : SameKinds s s') (h' : SameKinds s' s'') : SameKinds s s'' :=
  ⟨fun p hp => h.cached p (h'.cached p hp), fun q => (h'.kind q).trans (h.kind q), fun q =>
    (h'.names q).trans (h.names q)⟩

theorem SameKinds.levelled (h : SameKinds s s') (hs : s.Levelled S) : s'.Levelled S := fun p hp q hpar => by
  rw [h.kind, h.kind]
  exact hs p (h.cached p hp) q hpar

theorem Shrunk.sameKinds (h : Shrunk s s') : SameKinds s s' :=
  ⟨h.cached, fun q => UsbList.kind_of_bare (h.bare q), fun q => UsbList.names_of_bare (h.bare q)⟩

end

/-- The items of a directory that link to a list are directories. -/
def LinksDirectories (s : UsbTree P) : Prop :=
  ∀ (p : P) (idx : ℕ) (child : ListId) (kind : ListItemKind), (s.lists p).links[idx]? = some child →
    child.isValid = true → (s.lists p).entryKinds[idx]? = some kind → kind = .directory

/-- The device list is known by its ID. -/
structure Rooted (S : UsbSetup P) (s : UsbTree P) : Prop where
  labelled : s.shelf.Labelled
  kind : (s.lists S.deviceList).kind = .devices
  id : S.deviceList ∈ s.shelf.cached → s.shelf.id S.deviceList = s.devicesListId

/-- What all operations but entering a child keep. -/
structure Tame (S : UsbSetup P) (s s' : UsbTree P) : Prop extends SameKinds s s' where
  directories : s.LinksDirectories → s'.LinksDirectories
  rooted : s.Rooted S → s'.Rooted S

section

omit [DecidableEq P]

theorem Tame.refl (s : UsbTree P) : Tame S s s := ⟨.refl s, id, id⟩

theorem Tame.trans (h : Tame S s s') (h' : Tame S s' s'') : Tame S s s'' :=
  ⟨h.toSameKinds.trans h'.toSameKinds, h'.directories ∘ h.directories, h'.rooted ∘ h.rooted⟩

theorem Shrunk.labelled (h : Shrunk s s') (hs : s.shelf.Labelled) : s'.shelf.Labelled := by
  refine ⟨fun p hp q hq e => hs.ids p (h.cached p hp) q (h.cached q hq) (by rwa [h.id] at e), fun p hp => ?_,
    fun p hp => ?_⟩
  · rw [h.id]
    exact hs.valid p (h.cached p hp)
  · rw [h.id]
    exact hs.cacheable p (h.cached p hp)

theorem Shrunk.linksDirectories (h : Shrunk s s') (hs : s.LinksDirectories) : s'.LinksDirectories := by
  intro p idx child kind hlink hvalid hkind
  rw [UsbList.entryKinds_of_bare (h.bare p)] at hkind
  rcases h.links p idx with e | ⟨-, e⟩
  · exact hs p idx child kind (e ▸ hlink) hvalid hkind
  · rw [← Option.some.inj (e.symm.trans hlink)] at hvalid
    cases hvalid

theorem Shrunk.rooted (h : Shrunk s s') (hs : s.Rooted S) : s'.Rooted S where
  labelled := h.labelled hs.labelled
  kind := by rw [h.sameKinds.kind, hs.kind]
  id hp := by rw [h.id, h.devicesListId, hs.id (h.cached _ hp)]

theorem Shrunk.tame (h : Shrunk s s') : Tame S s s' := ⟨h.sameKinds, h.linksDirectories, h.rooted⟩

end

theorem kind_setList {items : UsbList} (h : items.kind = (s.lists p).kind) (q : P) :
    ((s.setList p items).lists q).kind = (s.lists q).kind := by
  by_cases e : q = p
  · subst e
    simp only [UsbTree.setList, Function.update_self, h]
  · simp only [UsbTree.setList, Function.update_of_ne e]

theorem Levelled.setList (hs : s.Levelled S) {items : UsbList} (h : items.kind = (s.lists p).kind) :
    (s.setList p items).Levelled S := fun r hr q hpar => by
  rw [kind_setList h, kind_setList h]
  exact hs r hr q hpar

theorem setList_sameKinds {items : UsbList} (hkind : items.kind = (s.lists p).kind)
    (hnames : items.names = (s.lists p).names) : SameKinds s (s.setList p items) := by
  refine ⟨fun _ hp => hp, kind_setList hkind, fun q => ?_⟩
  by_cases e : q = p
  · subst e
    simp only [UsbTree.setList, Function.update_self, hnames]
  · simp only [UsbTree.setList, Function.update_of_ne e]

theorem setLink_sameKinds (s : UsbTree P) (p : P) (idx : ℕ) (child : ListId) :
    SameKinds s (s.setList p ((s.lists p).setLink idx child)) :=
  setList_sameKinds (UsbList.kind_setLink ..) (UsbList.names_setLink ..)

theorem Rooted.setList (hs : s.Rooted S) {items : UsbList} (hkind : items.kind = (s.lists p).kind) :
    (s.setList p items).Rooted S :=
  ⟨hs.labelled, (kind_setList hkind _).trans hs.kind, hs.id⟩

theorem LinksDirectories.setList (hs : s.LinksDirectories) {items : UsbList}
    (h : ∀ (idx : ℕ) (child : ListId) (kind : ListItemKind), items.links[idx]? = some child → child.isValid = true →
      items.entryKinds[idx]? = some kind → kind = .directory) : (s.setList p items).LinksDirectories := by
  intro q
  by_cases e : q = p
  · subst e
    simpa only [UsbTree.setList, Function.update_self] using h
  · simpa only [UsbTree.setList, Function.update_of_ne e] using hs q

/-- Changing a list that is no directory. -/
theorem setList_tame {items : UsbList} (hdir : (s.lists p).kind ≠ .dir) (hkind : items.kind = (s.lists p).kind)
    (hnames : items.names = (s.lists p).names) : Tame S s (s.setList p items) := by
  refine ⟨setList_sameKinds hkind hnames, fun hs => hs.setList fun idx child kind _ _ hentry => ?_, fun hs =>
    hs.setList hkind⟩
  rw [UsbList.entryKinds_of_ne (hkind ▸ hdir)] at hentry
  cases hentry

theorem setLink_tame (hdir : (s.lists p).kind ≠ .dir) (idx : ℕ) (child : ListId) :
    Tame S s (s.setList p ((s.lists p).setLink idx child)) :=
  setList_tame hdir (UsbList.kind_setLink ..) (UsbList.names_setLink ..)

/-! ## Purging -/

/-- What purging and the change at the root keep. -/
theorem purgeSubtree_keeps {Q : UsbTree P → Prop} (hQ : ∀ t t', Shrunk t t' → Q t → Q t') {oldId newId : ListId}
    {setRoot : UsbTree P → Except Fault (UsbTree P)} (hroot : ∀ t t', setRoot t = .ok t' → Q t → Q t')
    (hr : s.purgeSubtree S a oldId newId setRoot = .ok s') (hs : Q s) : Q s' := by
  unfold UsbTree.purgeSubtree at hr
  split at hr
  · exact hroot s s' hr hs
  · obtain ⟨killList, -, hr⟩ := bind_eq_ok hr
    split at hr
    · obtain ⟨t, ht, hr⟩ := bind_eq_ok hr
      obtain ⟨-, hr⟩ := of_possible hr
      cases hr
      exact hQ _ _ (purgeEntries_shrunk _ t) (hroot s t ht hs)
    · obtain ⟨t, ht, hr⟩ := bind_eq_ok hr
      obtain ⟨-, hr⟩ := of_possible hr
      cases hr
      refine hQ _ _ (purgeEntries_shrunk _ t) (hroot _ t ht ?_)
      split
      · exact hs
      · exact hQ _ _ (purgeEntries_shrunk _ s) hs

theorem purgeSubtree_tame {oldId newId : ListId} {setRoot : UsbTree P → Except Fault (UsbTree P)}
    (hroot : ∀ t t', setRoot t = .ok t' → Tame S t t') (hr : s.purgeSubtree S a oldId newId setRoot = .ok s') :
    Tame S s s' :=
  purgeSubtree_keeps (Q := Tame S s) (fun _ _ ht hs => hs.trans ht.tame) (fun _ _ ht hs => hs.trans (hroot _ _ ht)) hr
    (.refl s)

theorem setChildList_tame (hdir : (s.lists this).kind ≠ .dir) (hr : s.setChildList S this item id = .ok s') :
    Tame S s s' := by
  unfold UsbTree.setChildList at hr
  obtain ⟨-, hr⟩ := of_assert hr
  obtain ⟨-, hr⟩ := of_assert hr
  cases hr
  exact setLink_tame hdir ..

/-- A list is inserted again, under a free ID. -/
theorem of_reinsertList {r : ListId × UsbTree P} (hr : s.reinsertList S a id = .ok r) : ∃ p, s.shelf.find id = some p ∧
    (s.shelf.remove p).Free r.1 ∧ r.2 = { s with shelf := s.shelf.insertAgain p r.1 } := by
  unfold UsbTree.reinsertList at hr
  obtain ⟨p, hfind, hr⟩ := of_deref hr
  obtain ⟨hfree, hr⟩ := of_possible hr
  obtain ⟨-, hr⟩ := of_assert hr
  cases hr
  exact ⟨p, hfind, hfree, rfl⟩

theorem insertAgain_sameKinds (hp : p ∈ s.shelf.cached) (devicesListId : ListId) :
    SameKinds s { s with
      shelf := s.shelf.insertAgain p id
      devicesListId := devicesListId } := by
  refine ⟨fun q hq => ?_, fun _ => rfl, fun _ => rfl⟩
  rcases List.mem_cons.mp hq with rfl | hq
  · exact hp
  · exact List.mem_of_mem_filter hq

/-- A list other than the device list is inserted again. -/
theorem reinsertList_tame {r : ListId × UsbTree P} (hne : s.Rooted S → ∀ p ∈ s.shelf.find id, p ≠ S.deviceList)
    (hr : s.reinsertList S a id = .ok r) : Tame S s r.2 := by
  obtain ⟨p, hfind, hfree, hr⟩ := of_reinsertList hr
  have hp := (Shelf.mem_of_find hfind).1
  rw [hr]
  refine ⟨insertAgain_sameKinds hp _, fun hs => hs, fun hs => ⟨hs.labelled.insertAgain hfree, hs.kind, fun hroot => ?_⟩⟩
  exact (Shelf.insert_id_of_ne (hne hs p hfind).symm).trans (hs.id ((hs.labelled.mem_insertAgain hp).mp hroot))

/-- The device list is known by its new ID. -/
theorem reinsertDeviceList_tame (hr : s.reinsertDeviceList S a = .ok s') : Tame S s s' := by
  unfold UsbTree.reinsertDeviceList at hr
  obtain ⟨r, hr', hr⟩ := bind_eq_ok hr
  cases hr
  obtain ⟨p, hfind, hfree, hr⟩ := of_reinsertList hr'
  obtain ⟨hp, hid⟩ := Shelf.mem_of_find hfind
  rw [hr]
  refine ⟨insertAgain_sameKinds hp _, fun hs => hs, fun hs => ⟨hs.labelled.insertAgain hfree, hs.kind, fun hroot => ?_⟩⟩
  have hroot := (hs.labelled.mem_insertAgain hp).mp hroot
  rw [hs.labelled.ids p hp _ hroot (hid.trans (hs.id hroot).symm)]
  exact Shelf.insert_id_self

/-! ## Signals -/

theorem newUsbDevice_tame {deviceId : ℕ} {name usbPort : String}
    (hr : s.newUsbDevice S a deviceId name usbPort = .ok s') : Tame S s s' := by
  unfold UsbTree.newUsbDevice at hr
  obtain ⟨⟨list, items⟩, hget, hr⟩ := bind_eq_ok hr
  obtain ⟨-, hitems⟩ := of_getListOfUsbDevices hget
  dsimp only at hr
  split at hr
  · cases hr
    exact .refl s
  · exact (setList_tame (by rw [hitems]; nofun) (by rw [hitems]; rfl) (by rw [hitems]; rfl)).trans
      (reinsertDeviceList_tame hr)

theorem reinsertVolumeList_tame {deviceId number addedAtIndex : ℕ}
    (hr : s.reinsertVolumeList S a deviceId number addedAtIndex = .ok s') : Tame S s s' := by
  unfold UsbTree.reinsertVolumeList at hr
  obtain ⟨⟨list, items⟩, hget, hr⟩ := bind_eq_ok hr
  obtain ⟨-, hitems⟩ := of_getListOfUsbDevices hget
  dsimp only at hr
  split at hr
  · cases hr
    exact .refl s
  · next idx _ _ =>
    split at hr
    · cases hr
      exact .refl s
    · next p hfind =>
      split at hr
      · next volumes hvolumes =>
        obtain ⟨⟨id, t⟩, hreinsert, hr⟩ := bind_eq_ok hr
        have hp : p ∈ s.shelf.cached := by
          split at hfind
          · exact (Shelf.mem_of_find hfind).1
          · cases hfind
        have hset : Tame S s (s.setList p (.volumes (FlatList.insertBefore volumes addedAtIndex ⟨deviceId, number⟩))) :=
          setList_tame (by rw [hvolumes]; nofun) (by rw [hvolumes]; rfl) (by rw [hvolumes]; rfl)
        have hlist : ∀ {t : UsbTree P}, Tame S s t → (t.lists list).kind ≠ .dir := fun ht => by
          rw [ht.kind, hitems]
          nofun
        have hunlinked := hset.trans (setLink_tame (hlist hset) idx .invalid)
        have hreinserted := hunlinked.trans (reinsertList_tame (fun hroot q hq e => ?_) hreinsert)
        · exact hreinserted.trans (setChildList_tame (hlist hreinserted) hr)
        · obtain ⟨hq, hid⟩ := Shelf.mem_of_find hq
          have hkind := hroot.kind
          rw [← e, hroot.labelled.ids q hq p hp hid, hunlinked.kind, hvolumes] at hkind
          cases hkind
      · cases hr

theorem newVolume_tame {number deviceId : ℕ} {label mountpoint : String}
    (hr : s.newVolume S a number label mountpoint deviceId = .ok s') : Tame S s s' := by
  unfold UsbTree.newVolume at hr
  obtain ⟨⟨list, items⟩, hget, hr⟩ := bind_eq_ok hr
  obtain ⟨-, hitems⟩ := of_getListOfUsbDevices hget
  dsimp only at hr
  split at hr
  · cases hr
    exact .refl s
  · split at hr
    · cases hr
      exact .refl s
    · exact (setList_tame (by rw [hitems]; nofun) (by rw [hitems]; rfl) (by rw [hitems]; rfl)).trans
        (reinsertVolumeList_tame hr)

theorem deviceRemoved_tame {deviceId : ℕ} (hr : s.deviceRemoved S a deviceId = .ok s') : Tame S s s' := by
  unfold UsbTree.deviceRemoved at hr
  obtain ⟨⟨list, items⟩, hget, hr⟩ := bind_eq_ok hr
  obtain ⟨-, hitems⟩ := of_getListOfUsbDevices hget
  dsimp only at hr
  split at hr
  · cases hr
    exact .refl s
  · next idx _ _ =>
    have hset : Tame S s (s.setList list (.devices (items.eraseIdx idx))) :=
      setList_tame (by rw [hitems]; nofun) (by rw [hitems]; rfl) (by rw [hitems]; rfl)
    refine hset.trans ?_
    unfold purgeDeviceSubtreeAndReinsertDeviceList at hr
    split at hr
    · obtain ⟨-, hr⟩ := of_assert hr
      obtain ⟨-, hr⟩ := of_assert hr
      obtain ⟨t, hpurge, hr⟩ := bind_eq_ok hr
      refine (purgeSubtree_tame (fun t t' ht => ?_) hpurge).trans (reinsertDeviceList_tame hr)
      cases ht
      exact .refl t
    · exact reinsertDeviceList_tame hr

/-! ## Entering a child -/

theorem addChildListToCache_levelled {items : UsbList} {r : ListId × UsbTree P} (hs : s.Levelled S)
    (hkind : items.kind = (s.lists this).kind.below) (hr : s.addChildListToCache S a this items = .ok r) :
    r.2.Levelled S ∧ (r.1.isValid = true → ∀ p, r.2.shelf.find r.1 = some p → (r.2.lists p).kind = items.kind) := by
  unfold UsbTree.addChildListToCache at hr
  split at hr
  · cases hr
    exact ⟨hs, nofun⟩
  · next p id _ =>
    obtain ⟨⟨hpar, hunused, hfree⟩, hr⟩ := of_possible hr
    cases hr
    have hthis : this ≠ p := fun e => absurd (S.forest.rank_lt (e ▸ hpar)) (Nat.lt_irrefl _)
    generalize hs₁ : UsbTree.setList { s with shelf := s.shelf.insert p id } p items = s₁
    have hself : s₁.lists p = items := by rw [← hs₁]; exact Function.update_self ..
    have hother : ∀ q, q ≠ p → s₁.lists q = s.lists q := fun q e => by rw [← hs₁]; exact Function.update_of_ne e ..
    have hshelf : s₁.shelf = s.shelf.insert p id := by rw [← hs₁]; rfl
    have hcached : ∀ r, r ≠ p → r ∈ s₁.shelf.cached → r ∈ s.shelf.cached := fun r e hr =>
      List.mem_of_ne_of_mem e (by rwa [hshelf] at hr)
    have hshrunk : Shrunk s₁ (s₁.collect S a.collected) := collect_shrunk a.collected s₁
    have hsame := hshrunk.sameKinds
    refine ⟨hsame.levelled fun r hr q hq => ?_, fun _ r hr => ?_⟩
    · by_cases e : r = p
      · subst e
        obtain rfl := Option.some.inj (hpar.symm.trans hq)
        rw [hself, hother _ hthis, hkind]
      · -- the new list is not above a list that is cached already
        have hqp : q ≠ p := fun e' =>
          hunused r (hcached r e hr) (e' ▸ Forest.mem_path_of_parent Forest.mem_path_self hq)
        rw [hother r e, hother q hqp]
        exact hs r (hcached r e hr) q hq
    · obtain ⟨hr, hid⟩ := Shelf.mem_of_find hr
      obtain rfl : r = p := by
        by_contra e
        dsimp only at hid
        rw [hshrunk.id, hshelf, Shelf.insert_id_of_ne e] at hid
        exact hfree.2.2 r (hcached r e (hsame.cached r hr)) hid
      rw [hsame.kind, hself]

theorem attachNewDirlist_levelled {path : String} {r : ListId × EnterError × UsbTree P} (hs : s.Levelled S)
    (hkind : UsbList.kind (.dir []) = (s.lists this).kind.below) (hr : s.attachNewDirlist S a this path = .ok r) :
    r.2.2.Levelled S := by
  unfold UsbTree.attachNewDirlist at hr
  obtain ⟨⟨id, s₁⟩, hadd, hr⟩ := bind_eq_ok hr
  obtain ⟨hs₁, hnew⟩ := addChildListToCache_levelled hs hkind hadd
  dsimp only at hr hnew
  split at hr
  · cases hr
    exact hs₁
  · next hvalid =>
    obtain ⟨p, hfind, hr⟩ := of_deref hr
    split at hr
    · cases hr
      exact hs₁
    · cases hr
      have hkind := hnew (by simpa using hvalid) p hfind
      exact hs₁.setList hkind.symm

theorem addVolumeList_levelled {device : DeviceItemData} {r : ListId × EnterError × UsbTree P} (hs : s.Levelled S)
    (hkind : UsbList.kind (.volumes []) = (s.lists this).kind.below) (hr : s.addVolumeList S a this device = .ok r) :
    r.2.2.Levelled S := by
  unfold UsbTree.addVolumeList at hr
  obtain ⟨⟨id, s₁⟩, hadd, hr⟩ := bind_eq_ok hr
  obtain ⟨hs₁, hnew⟩ := addChildListToCache_levelled hs hkind hadd
  dsimp only at hr hnew
  split at hr
  · cases hr
    exact hs₁
  · next hvalid =>
    obtain ⟨p, hfind, hr⟩ := of_deref hr
    cases hr
    have hkind := hnew (by simpa using hvalid) p hfind
    exact hs₁.setList hkind.symm

/-- The new list is of the kind that belongs below the entered list. -/
theorem addToCache_levelled {r : ListId × EnterError × UsbTree P} (hs : s.Levelled S)
    (hr : s.addToCache S a this item = .ok r) : r.2.2.Levelled S := by
  unfold UsbTree.addToCache at hr
  split at hr
  · next hitems =>
    obtain ⟨device, -, hr⟩ := of_deref hr
    exact addVolumeList_levelled hs (by rw [hitems]; rfl) hr
  · next hitems =>
    obtain ⟨volume, -, hr⟩ := of_deref hr
    obtain ⟨path, -, hr⟩ := bind_eq_ok hr
    exact attachNewDirlist_levelled hs (by rw [hitems]; rfl) hr
  · next hitems =>
    obtain ⟨entry, -, hr⟩ := of_deref hr
    unfold UsbTree.addDirectory at hr
    split at hr
    · obtain ⟨path, -, hr⟩ := bind_eq_ok hr
      cases path with
      | none =>
        cases hr
        exact hs
      | some path => exact attachNewDirlist_levelled hs (by rw [hitems]; rfl) hr
    · cases hr
      exact hs

/-- What entering a child keeps, whatever list is added. -/
theorem enterChild_keeps {Q : UsbTree P → Prop} (hQ : ∀ t t', Shrunk t t' → Q t → Q t')
    (hlink : ∀ t this child, Q t → Q (t.setList this ((t.lists this).setLink item child))) {listId : ListId}
    (hadd : ∀ this ∈ s.shelf.find listId, ∀ r, s.addToCache S a this item = .ok r → Q r.2.2)
    {r : ListId × EnterError × UsbTree P} (hr : s.enterChild S a listId item = .ok r) (hs : Q s) : Q r.2.2 := by
  unfold UsbTree.enterChild at hr
  split at hr
  · cases hr
    exact hs
  · next this hthis =>
    unfold UsbTree.enterChildTemplate at hr
    split at hr
    · split at hr
      · cases hr
        exact hs
      · split at hr
        · cases hr
          exact hs
        · obtain ⟨⟨newId, error, s₁⟩, hadd', hr⟩ := bind_eq_ok hr
          obtain ⟨s₂, hpurge, hr⟩ := bind_eq_ok hr
          cases hr
          refine purgeSubtree_keeps hQ (fun t t' ht hQ' => ?_) hpurge (hadd this hthis _ hadd')
          split at ht
          · unfold UsbTree.setChildList at ht
            obtain ⟨-, ht⟩ := of_assert ht
            obtain ⟨-, ht⟩ := of_assert ht
            cases ht
            exact hlink t this newId hQ'
          · cases ht
            exact hQ'
    · cases hr
      exact hs

theorem enterChild_levelled {listId : ListId} {r : ListId × EnterError × UsbTree P} (hs : s.Levelled S)
    (hr : s.enterChild S a listId item = .ok r) : r.2.2.Levelled S :=
  enterChild_keeps (Q := Levelled S) (fun _ _ ht hQ => ht.sameKinds.levelled hQ)
    (fun _ _ _ hQ => (setLink_sameKinds ..).levelled hQ) (fun _ _ _ hadd => addToCache_levelled hs hadd) hr hs

/-- Entering a child makes no other list of the one that is entered. -/
theorem Sound.enterChild_kind {X : Set P} (h : s.Sound S X) {listId : ListId} (hthis : this ∈ s.shelf.find listId)
    {r : ListId × EnterError × UsbTree P} (hr : s.enterChild S a listId item = .ok r) :
    (r.2.2.lists this).kind = (s.lists this).kind := by
  refine enterChild_keeps (Q := fun t => (t.lists this).kind = (s.lists this).kind) (fun t t' ht hQ => ?_)
    (fun t q child hQ => ?_) (fun q hq r hadd => ?_) hr rfl
  · rw [ht.sameKinds.kind, hQ]
  · rw [(setLink_sameKinds ..).kind, hQ]
  · obtain rfl := Option.some.inj (hthis.symm.trans hq)
    have hne : ∀ {p id s'}, Inserted S X this p id s s' → this ≠ p := fun hinserted e =>
      absurd (S.forest.rank_lt (e ▸ hinserted.parent)) (Nat.lt_irrefl _)
    rcases h.addToCache hadd with ⟨-, hsame⟩ | ⟨p, hinserted, -⟩ | ⟨-, -, -, p, id, hinserted⟩
    · rw [hsame]
    · exact UsbList.kind_of_bare (hinserted.bare this (hne hinserted))
    · exact UsbList.kind_of_bare (hinserted.bare this (hne hinserted))

/-- What the insertion of a list keeps. The list has a place in the tree that is free. -/
theorem addChildListToCache_keeps {Q : UsbTree P → Prop} (hcollect : ∀ t, Q t → Q (t.collect S a.collected))
    (hinsert : ∀ p id, a.inserted = some (p, id) → S.forest.parent p = some this → s.shelf.Unused S.forest p →
      s.shelf.Free id → Q { s with shelf := s.shelf.insert p id })
    (hset : ∀ t p items, S.forest.parent p = some this → s.shelf.Unused S.forest p → UsbList.children items = [] → Q t →
      Q (t.setList p items)) {items : UsbList} (hitems : items.children = []) {r : ListId × UsbTree P}
    (hr : s.addChildListToCache S a this items = .ok r) (hs : Q s) :
    Q r.2 ∧ ∀ p, r.1.isValid = true → r.2.shelf.find r.1 = some p →
      S.forest.parent p = some this ∧ s.shelf.Unused S.forest p := by
  unfold UsbTree.addChildListToCache at hr
  split at hr
  · cases hr
    exact ⟨hs, nofun⟩
  · next p id hins =>
    obtain ⟨⟨hpar, hunused, hfree⟩, hr⟩ := of_possible hr
    cases hr
    have hshrunk := collect_shrunk (S := S) a.collected
        (UsbTree.setList { s with shelf := s.shelf.insert p id } p items)
    refine ⟨hcollect _ (hset _ p items hpar hunused hitems (hinsert p id hins hpar hunused hfree)), fun q _ hq => ?_⟩
    obtain ⟨hq, hid⟩ := Shelf.mem_of_find hq
    obtain rfl : q = p := by
      by_contra e
      dsimp only at hid
      rw [hshrunk.id] at hid
      have hq := List.mem_of_ne_of_mem e (hshrunk.cached q hq)
      exact hfree.2.2 q hq ((Shelf.insert_id_of_ne e).symm.trans hid)
    exact ⟨hpar, hunused⟩

/-- What `add_to_cache` keeps. -/
theorem addToCache_keeps {Q : UsbTree P → Prop} (hcollect : ∀ t, Q t → Q (t.collect S a.collected))
    (hinsert : ∀ p id, a.inserted = some (p, id) → S.forest.parent p = some this → s.shelf.Unused S.forest p →
      s.shelf.Free id → Q { s with shelf := s.shelf.insert p id })
    (hset : ∀ t p items, S.forest.parent p = some this → s.shelf.Unused S.forest p → UsbList.children items = [] → Q t →
      Q (t.setList p items)) {r : ListId × EnterError × UsbTree P} (hr : s.addToCache S a this item = .ok r)
    (hs : Q s) : Q r.2.2 := by
  have hdir : ∀ path r, s.attachNewDirlist S a this path = .ok r → Q r.2.2 := fun path r hr => by
    unfold UsbTree.attachNewDirlist at hr
    obtain ⟨⟨id, s₁⟩, hadd, hr⟩ := bind_eq_ok hr
    obtain ⟨hs₁, hnew⟩ := addChildListToCache_keeps hcollect hinsert hset rfl hadd hs
    dsimp only at hr hnew
    split at hr
    · cases hr
      exact hs₁
    · next hvalid =>
      obtain ⟨p, hfind, hr⟩ := of_deref hr
      obtain ⟨hpar, hunused⟩ := hnew p (by simpa using hvalid) hfind
      split at hr
      · cases hr
        exact hs₁
      · cases hr
        refine hset _ p _ hpar hunused ?_ hs₁
        simp [UsbList.children, UsbList.links, FlatList.links, fillFromFileSystem, List.filter_eq_nil_iff]
  unfold UsbTree.addToCache at hr
  split at hr
  · obtain ⟨device, -, hr⟩ := of_deref hr
    unfold UsbTree.addVolumeList at hr
    obtain ⟨⟨id, s₁⟩, hadd, hr⟩ := bind_eq_ok hr
    obtain ⟨hs₁, hnew⟩ := addChildListToCache_keeps hcollect hinsert hset rfl hadd hs
    dsimp only at hr hnew
    split at hr
    · cases hr
      exact hs₁
    · next hvalid =>
      obtain ⟨p, hfind, hr⟩ := of_deref hr
      obtain ⟨hpar, hunused⟩ := hnew p (by simpa using hvalid) hfind
      cases hr
      refine hset _ p _ hpar hunused ?_ hs₁
      simp [UsbList.children, UsbList.links, FlatList.links, fillVolumeList, List.filter_eq_nil_iff]
  · obtain ⟨volume, -, hr⟩ := of_deref hr
    obtain ⟨path, -, hr⟩ := bind_eq_ok hr
    exact hdir path r hr
  · obtain ⟨entry, -, hr⟩ := of_deref hr
    unfold UsbTree.addDirectory at hr
    split at hr
    · obtain ⟨path, -, hr⟩ := bind_eq_ok hr
      cases path with
      | none =>
        cases hr
        exact hs
      | some path => exact hdir path r hr
    · cases hr
      exact hs

theorem enterChild_rooted {listId : ListId} {r : ListId × EnterError × UsbTree P} (hs : s.Rooted S)
    (hr : s.enterChild S a listId item = .ok r) : r.2.2.Rooted S := by
  have hroot : ∀ {this p}, S.forest.parent p = some this → S.deviceList ≠ p := fun hpar e => by
    rw [← e, S.root] at hpar
    cases hpar
  refine enterChild_keeps (Q := Rooted S) (fun _ _ ht hQ => ht.rooted hQ)
    (fun _ _ _ hQ => hQ.setList (UsbList.kind_setLink ..))
    (fun this _ r hadd => addToCache_keeps (fun _ hQ => (collect_shrunk ..).rooted hQ) (fun p id _ hpar _ hfree => ?_)
      (fun t p items hpar _ _ hQ => ⟨hQ.labelled, ?_, hQ.id⟩) hadd hs) hr hs
  · refine ⟨hs.labelled.insert hfree, hs.kind, fun hmem => ?_⟩
    exact (Shelf.insert_id_of_ne (hroot hpar)).trans (hs.id (List.mem_of_ne_of_mem (hroot hpar) hmem))
  · simpa only [UsbTree.setList, Function.update_of_ne (hroot hpar)] using hQ.kind

theorem addToCache_linksDirectories {r : ListId × EnterError × UsbTree P} (hs : s.LinksDirectories)
    (hr : s.addToCache S a this item = .ok r) : r.2.2.LinksDirectories :=
  addToCache_keeps (Q := LinksDirectories) (fun _ hQ => (collect_shrunk ..).linksDirectories hQ) (fun _ _ _ _ _ _ => hs)
    (fun _ _ items _ _ hchildren hQ => hQ.setList fun idx child kind hlink hvalid _ => by
      have hmem : child ∈ items.children := List.mem_filter.mpr ⟨List.mem_of_getElem? hlink, hvalid⟩
      rw [hchildren] at hmem
      cases hmem) hr hs

/-- Only items that are directories are entered. -/
theorem isEnterable_of_addToCache {r : ListId × EnterError × UsbTree P} (hr : s.addToCache S a this item = .ok r)
    (hvalid : r.1.isValid = true) {kind : ListItemKind} (hkind : (s.lists this).entryKinds[item]? = some kind) :
    kind = .directory := by
  unfold UsbTree.addToCache at hr
  split at hr
  · next hitems =>
    rw [hitems] at hkind
    cases hkind
  · next hitems =>
    rw [hitems] at hkind
    cases hkind
  · next hitems =>
    obtain ⟨entry, hentry, hr⟩ := of_deref hr
    rw [hitems, UsbList.entryKinds, List.getElem?_map, hentry] at hkind
    obtain rfl : entry.data.kind = kind := Option.some.inj hkind
    unfold UsbTree.addDirectory at hr
    split at hr
    · next hdir => exact hdir
    · cases hr
      cases hvalid

theorem enterChild_linksDirectories {listId : ListId} {r : ListId × EnterError × UsbTree P} (hs : s.LinksDirectories)
    (hr : s.enterChild S a listId item = .ok r) : r.2.2.LinksDirectories := by
  unfold UsbTree.enterChild at hr
  split at hr
  · cases hr
    exact hs
  · next this _ =>
    unfold UsbTree.enterChildTemplate at hr
    split at hr
    · split at hr
      · cases hr
        exact hs
      · split at hr
        · cases hr
          exact hs
        · obtain ⟨⟨newId, error, s₁⟩, hadd, hr⟩ := bind_eq_ok hr
          obtain ⟨s₂, hpurge, hr⟩ := bind_eq_ok hr
          cases hr
          have hkinds : (s₁.lists this).entryKinds = (s.lists this).entryKinds :=
            addToCache_keeps (Q := fun t => (t.lists this).entryKinds = (s.lists this).entryKinds)
              (fun t hQ => (UsbList.entryKinds_of_bare ((collect_shrunk a.collected t).bare this)).trans hQ)
                (fun _ _ _ _ _ _ => rfl)
              (fun t p items hpar _ _ hQ => by
                have hne : this ≠ p := fun e => absurd (S.forest.rank_lt (e ▸ hpar)) (Nat.lt_irrefl _)
                simpa only [UsbTree.setList, Function.update_of_ne hne] using hQ) hadd rfl
          refine (purgeSubtree_keeps (Q := fun t =>
            t.LinksDirectories ∧ (t.lists this).entryKinds = (s.lists this).entryKinds)
            (fun t t' ht hQ => ⟨ht.linksDirectories hQ.1, (UsbList.entryKinds_of_bare (ht.bare this)).trans hQ.2⟩)
            (fun t t' ht hQ => ?_) hpurge ⟨addToCache_linksDirectories hs hadd, hkinds⟩).1
          split at ht
          · unfold UsbTree.setChildList at ht
            obtain ⟨-, ht⟩ := of_assert ht
            obtain ⟨-, ht⟩ := of_assert ht
            cases ht
            have hsame := UsbList.entryKinds_of_bare (UsbList.bare_setLink (t.lists this) item newId)
            refine ⟨hQ.1.setList fun idx child kind hlink hvalid hkind => ?_, ?_⟩
            · rw [hsame] at hkind
              rw [UsbList.links_setLink, List.getElem?_set] at hlink
              split at hlink
              · next e =>
                split at hlink
                · obtain rfl := Option.some.inj hlink
                  exact isEnterable_of_addToCache hadd hvalid (by rw [← hQ.2, e, hkind])
                · cases hlink
              · exact hQ.1 this idx child kind hlink hvalid hkind
            · simp only [UsbTree.setList, Function.update_self]
              rw [hsame, hQ.2]
          · cases ht
            exact hQ
    · cases hr
      exact hs

/-! ## Names -/

end UsbTree

/-- The names of the directories and files in each directory are different. -/
def Answers.DistinctNames (a : Answers P) : Prop :=
  ∀ path directories files, a.readDir path = some (directories, files) → (directories ++ files).Nodup

namespace UsbTree

/-- The names in each directory are different. -/
def DistinctNames (s : UsbTree P) : Prop := ∀ p, (s.lists p).names.Nodup

section

omit [DecidableEq P]

theorem Shrunk.distinct (h : Shrunk s s') (hs : s.DistinctNames) : s'.DistinctNames := fun p =>
  UsbList.names_of_bare (h.bare p) ▸ hs p

end

theorem DistinctNames.setList (hs : s.DistinctNames) {items : UsbList} (h : items.names.Nodup) :
    (s.setList p items).DistinctNames := fun q => by
  by_cases e : q = p
  · subst e
    simpa only [UsbTree.setList, Function.update_self] using h
  · simpa only [UsbTree.setList, Function.update_of_ne e] using hs q

theorem addChildListToCache_distinct {items : UsbList} {r : ListId × UsbTree P} (hs : s.DistinctNames)
    (hitems : items.names = []) (hr : s.addChildListToCache S a this items = .ok r) : r.2.DistinctNames := by
  unfold UsbTree.addChildListToCache at hr
  split at hr
  · cases hr
    exact hs
  · next p id _ =>
    obtain ⟨-, hr⟩ := of_possible hr
    cases hr
    refine (collect_shrunk a.collected _).distinct (DistinctNames.setList (fun q => hs q) ?_)
    rw [hitems]
    exact List.nodup_nil

theorem fillFromFileSystem_nodup {directories files : List String} (h : (directories ++ files).Nodup) :
    (UsbList.dir (fillFromFileSystem directories files)).names.Nodup := by
  have hnames : (UsbList.dir (fillFromFileSystem directories files)).names =
      directories.mergeSort (· ≤ ·) ++ files.mergeSort (· ≤ ·) := by
    simp [UsbList.names, fillFromFileSystem, Function.comp_def]
  rw [hnames]
  exact ((List.mergeSort_perm directories _).append (List.mergeSort_perm files _)).nodup_iff.mpr h

theorem attachNewDirlist_distinct {path : String} {r : ListId × EnterError × UsbTree P} (hs : s.DistinctNames)
    (ha : a.DistinctNames) (hr : s.attachNewDirlist S a this path = .ok r) : r.2.2.DistinctNames := by
  unfold UsbTree.attachNewDirlist at hr
  obtain ⟨⟨id, s₁⟩, hadd, hr⟩ := bind_eq_ok hr
  have hs₁ := addChildListToCache_distinct hs rfl hadd
  dsimp only at hr
  split at hr
  · cases hr
    exact hs₁
  · obtain ⟨p, -, hr⟩ := of_deref hr
    split at hr
    · cases hr
      exact hs₁
    · next directories files hread =>
      cases hr
      exact hs₁.setList (fillFromFileSystem_nodup (ha _ _ _ hread))

theorem addToCache_distinct {r : ListId × EnterError × UsbTree P} (hs : s.DistinctNames) (ha : a.DistinctNames)
    (hr : s.addToCache S a this item = .ok r) : r.2.2.DistinctNames := by
  unfold UsbTree.addToCache at hr
  split at hr
  · obtain ⟨device, -, hr⟩ := of_deref hr
    unfold UsbTree.addVolumeList at hr
    obtain ⟨⟨id, s₁⟩, hadd, hr⟩ := bind_eq_ok hr
    have hs₁ := addChildListToCache_distinct hs rfl hadd
    dsimp only at hr
    split at hr
    · cases hr
      exact hs₁
    · obtain ⟨p, -, hr⟩ := of_deref hr
      cases hr
      exact hs₁.setList List.nodup_nil
  · obtain ⟨volume, -, hr⟩ := of_deref hr
    obtain ⟨path, -, hr⟩ := bind_eq_ok hr
    exact attachNewDirlist_distinct hs ha hr
  · obtain ⟨entry, -, hr⟩ := of_deref hr
    unfold UsbTree.addDirectory at hr
    split at hr
    · obtain ⟨path, -, hr⟩ := bind_eq_ok hr
      cases path with
      | none =>
        cases hr
        exact hs
      | some path => exact attachNewDirlist_distinct hs ha hr
    · cases hr
      exact hs

/-- What is found in a directory that is entered has different names, too. -/
theorem enterChild_distinct {listId : ListId} {r : ListId × EnterError × UsbTree P} (hs : s.DistinctNames)
    (ha : a.DistinctNames) (hr : s.enterChild S a listId item = .ok r) : r.2.2.DistinctNames :=
  enterChild_keeps (Q := DistinctNames) (fun _ _ ht hQ => ht.distinct hQ)
    (fun t this child hQ => hQ.setList (by rw [UsbList.names_setLink]; exact hQ this))
    (fun _ _ _ hadd => addToCache_distinct hs ha hadd) hr hs

/-! ## Runs -/

/-- Only entering a child adds a list, or fills one. -/
theorem step_tame {call : UsbCall × Answers P} (hstep : s.Step S call s') : Tame S s s' ∨
    ∃ list item r, call.1 = .enterChild list item ∧ s.enterChild S call.2 list item = .ok r ∧ r.2.2 = s' := by
  obtain ⟨call, a⟩ := call
  cases call with
  | newUsbDevice id name usbPort => exact .inl (newUsbDevice_tame hstep)
  | newVolume number label mountpoint deviceId => exact .inl (newVolume_tame hstep)
  | deviceRemoved id => exact .inl (deviceRemoved_tame hstep)
  | gc =>
    cases hstep
    exact .inl (collect_shrunk a.collected s).tame
  | enterChild list item =>
    obtain ⟨r, hr, hs'⟩ := bind_eq_ok (x := s.enterChild S a list item) (f := fun r => .ok r.2.2) hstep
    exact .inr ⟨list, item, r, rfl, hr, Except.ok.inj hs'⟩

theorem step_levelled {call : UsbCall × Answers P} (hs : s.Levelled S) (hstep : s.Step S call s') : s'.Levelled S := by
  obtain hsame | ⟨list, item, r, -, hr, rfl⟩ := step_tame hstep
  · exact hsame.levelled hs
  · exact enterChild_levelled hs hr

theorem step_distinct {call : UsbCall × Answers P} (hs : s.DistinctNames) (ha : call.2.DistinctNames)
    (hstep : s.Step S call s') : s'.DistinctNames := by
  obtain hsame | ⟨list, item, r, -, hr, rfl⟩ := step_tame hstep
  · exact fun q => hsame.names q ▸ hs q
  · exact enterChild_distinct hs ha hr

theorem init_levelled {devices : List (ℕ × String × String)} {volumes : List (ℕ × VolumeInfo)} :
    (init S id devices volumes).Levelled S := fun p hp q hpar => by
  rw [List.mem_singleton.mp hp, S.root] at hpar
  cases hpar

theorem init_distinct {devices : List (ℕ × String × String)} {volumes : List (ℕ × VolumeInfo)} :
    (init S id devices volumes).DistinctNames := fun p => by
  unfold init
  by_cases e : p = S.deviceList
  · subst e
    simp only [Function.update_self]
    exact List.nodup_nil
  · simp only [Function.update_of_ne e]
    exact List.nodup_nil

/-- In every state of a run, the lists are on their levels. -/
theorem run_levelled {devices : List (ℕ × String × String)} {volumes : List (ℕ × VolumeInfo)}
    {calls : List (UsbCall × Answers P)} (h : Run (Step S) (init S id devices volumes) calls s) : s.Levelled S :=
  h.invariant (P := Levelled S) (fun _ _ _ hs hstep => step_levelled hs hstep) init_levelled

theorem step_linksDirectories {call : UsbCall × Answers P} (hs : s.LinksDirectories) (hstep : s.Step S call s') :
    s'.LinksDirectories := by
  obtain htame | ⟨list, item, r, -, hr, rfl⟩ := step_tame hstep
  · exact htame.directories hs
  · exact enterChild_linksDirectories hs hr

theorem step_rooted {call : UsbCall × Answers P} (hs : s.Rooted S) (hstep : s.Step S call s') : s'.Rooted S := by
  obtain htame | ⟨list, item, r, -, hr, rfl⟩ := step_tame hstep
  · exact htame.rooted hs
  · exact enterChild_rooted hs hr

/-- In every state of a run, files have no links. -/
theorem run_linksDirectories {devices : List (ℕ × String × String)} {volumes : List (ℕ × VolumeInfo)}
    {calls : List (UsbCall × Answers P)} (h : Run (Step S) (init S id devices volumes) calls s) :
    s.LinksDirectories := by
  refine h.invariant (P := LinksDirectories) (fun _ _ _ hs hstep => step_linksDirectories hs hstep)
    fun p idx child kind _ _ hkind => ?_
  unfold init at hkind
  by_cases e : p = S.deviceList
  · subst e
    simp [UsbList.entryKinds] at hkind
  · simp [Function.update_of_ne e, UsbList.entryKinds] at hkind

/-- In every state of a run, the device list is known by its ID. -/
theorem run_rooted (hvalid : id.isValid = true) (hcacheable : id.nocacheBit = false)
    {devices : List (ℕ × String × String)} {volumes : List (ℕ × VolumeInfo)} {calls : List (UsbCall × Answers P)}
    (h : Run (Step S) (init S id devices volumes) calls s) : s.Rooted S := by
  refine h.invariant (P := Rooted S) (fun _ _ _ hs hstep => step_rooted hs hstep)
    ⟨(sound_init hvalid hcacheable devices volumes).booked.labelled, ?_, fun _ => rfl⟩
  simp [init, UsbList.kind]

/-- Where the file system has different names in each directory, so have the lists. -/
theorem run_distinct {devices : List (ℕ × String × String)} {volumes : List (ℕ × VolumeInfo)}
    {calls : List (UsbCall × Answers P)}
    (h : Run (When (Step S) fun _ call => call.2.DistinctNames) (init S id devices volumes) calls s) :
    s.DistinctNames :=
  h.invariant (P := DistinctNames) (fun _ _ _ hs hstep => step_distinct hs hstep.1 hstep.2) init_distinct

end UsbTree

end Listbrokers.Tree
