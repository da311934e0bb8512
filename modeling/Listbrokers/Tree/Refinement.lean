import Listbrokers.Tree.CacheAnswers
import Listbrokers.Tree.Entering
import Mathlib.Data.Finset.Max

/-!
# The list tree on the cache and its model

Whatever the list tree does on the cache, it does on `UsbTree` as well, with the
tree that the cache holds, and with answers that the cache gives. There is one
theorem for each function (`…_refines`): if the function returns, then so does
that of `UsbTree`, with the same result.

The lists that the cache discards meanwhile are discarded along with the lists
below, since an intact cache holds the parents of its objects. That they do not
include the device list is not known before the end.
-/

namespace Listbrokers.Tree

open Framework Tiles
open Lru (Cache Intact)

variable {P : Type} [DecidableEq P] {S : CachedSetup P} {e : Circumstances P} {t t' : CachedTree P}
    {this p q : P} {item : ℕ}

theorem of_ofCache {α β : Type} {x : Except Lru.Fault α} {k : α → Except Fault β} {b : β}
    (h : (ofCache x >>= k) = .ok b) : ∃ a, x = .ok a ∧ k a = .ok b := by
  cases x with
  | ok a => exact ⟨a, rfl, h⟩
  | error f => cases f <;> cases h

theorem bind_of_ok {ε α β : Type} {x : Except ε α} {f : α → Except ε β} {a : α} {b : β} (hx : x = .ok a)
    (hf : f a = .ok b) : x >>= f = .ok b := by
  rw [hx]
  exact hf

/-- The answers of a cache that neither inserts nor discards lists. -/
def Circumstances.answers (e : Circumstances P) : Answers P where
  mayContinue := e.mayContinue
  inserted := none
  collected := []
  unpinned _ := []
  toposortForPurge := id
  newId := .invalid
  readDir := e.readDir

/-- The answers of a cache which inserts a list, if it accepts it, and discards others. -/
def Circumstances.making (e : Circumstances P) (inserted : Option (P × ListId)) (collected : List P) : Answers P :=
  { e.answers with inserted := inserted, collected := collected }

/-- The answers of a cache which purges a kill list in this order, and discards others when it unpins a list. -/
def Circumstances.purging (e : Circumstances P) (unpinned : ListId → List P) (sorted : List ListId) (newId : ListId) :
    Answers P :=
  { e.answers with unpinned := unpinned, toposortForPurge := fun _ => sorted, newId := newId }

section

omit [DecidableEq P]

theorem making_readDir (inserted : Option (P × ListId)) (collected : List P) :
    (e.making inserted collected).readDir = e.readDir := rfl

end

namespace CachedTree

/-- The cache is intact. -/
def IsIntact (S : CachedSetup P) (t : CachedTree P) : Prop := ∃ L, Intact False S.forest t.cache L

theorem IsIntact.setList (h : t.IsIntact S) (p : P) (items : UsbList) : (t.setList p items).IsIntact S := by
  obtain ⟨L, h⟩ := h
  exact ⟨L, h.congr (h.aged.congr rfl rfl rfl rfl) ⟨rfl, rfl, rfl, rfl, rfl, rfl, rfl⟩ rfl rfl rfl⟩

theorem IsIntact.parents (h : t.IsIntact S) : S.forest.Closed t.cache.allObjects := by
  obtain ⟨L, h⟩ := h
  exact h.cacheTree.parents

/-- What is discarded from an intact cache is discarded along with the lists below. -/
theorem IsIntact.discards (h : t'.IsIntact S) {u : UsbTree P} {victims : List P} (hlabelled : u.shelf.Labelled)
    (ht : t'.usbTree = u.collect S.toUsbSetup victims) (hroot : S.deviceList ∈ t'.cache.allObjects) :
    Discards S.toUsbSetup u.shelf.cached victims := by
  have hmem : ∀ q, q ∈ t'.cache.allObjects ↔ q ∈ u.shelf.cached ∧ q ∉ victims := fun q => by
    have hcollect : q ∈ (u.collect S.toUsbSetup victims).shelf.cached ↔ _ := UsbTree.mem_collect_iff hlabelled
    rwa [← ht] at hcollect
  refine ⟨((hmem _).mp hroot).2, fun q hq p hp hvictim => ?_⟩
  by_contra hnot
  exact ((hmem p).mp (h.parents q ((hmem q).mpr ⟨hq, hnot⟩) p hp)).2 hvictim

/-! ## New IDs -/

theorem reinsertList_refines (h : t.IsIntact S) (hlabelled : t.usbTree.shelf.Labelled) {id : ListId}
    {r : ListId × CachedTree P} (hr : t.reinsertList id = .ok r) :
    r.2.IsIntact S ∧ ∀ a : Answers P, a.newId = r.1 →
      t.usbTree.reinsertList S.toUsbSetup a id = .ok (r.1, r.2.usbTree) := by
  obtain ⟨L, h⟩ := h
  unfold CachedTree.reinsertList at hr
  obtain ⟨⟨newId, cache⟩, hcache, hr⟩ := of_ofCache hr
  cases hr
  obtain ⟨p, hreinserted⟩ := (reinsertList_answers t.devicesListId h hlabelled id).ok hcache
  refine ⟨hreinserted.intact, fun a ha => ?_⟩
  dsimp only at ha
  subst ha
  unfold UsbTree.reinsertList
  rw [show t.usbTree.shelf.find id = some p from hreinserted.found]
  have hfree : possible ((t.usbTree.shelf.remove p).Free a.newId) = .ok () := if_pos hreinserted.free
  have hother : S.assert (a.newId ≠ id) = .ok () := if_neg fun hn => hn.2 hreinserted.other
  simp only [deref, bind, Except.bind, hfree, hother]
  exact congrArg (fun u => Except.ok (a.newId, u)) hreinserted.tree.symm

theorem reinsertDeviceList_refines (h : t.IsIntact S) (hlabelled : t.usbTree.shelf.Labelled)
    (hr : t.reinsertDeviceList = .ok t') : t'.IsIntact S ∧ ∃ newId, ∀ a : Answers P, a.newId = newId →
      t.usbTree.reinsertDeviceList S.toUsbSetup a = .ok t'.usbTree := by
  unfold CachedTree.reinsertDeviceList at hr
  obtain ⟨⟨id, t₁⟩, hreinsert, hr⟩ := bind_eq_ok hr
  cases hr
  obtain ⟨h₁, hmodel⟩ := reinsertList_refines h hlabelled hreinsert
  refine ⟨h₁, id, fun a ha => ?_⟩
  unfold UsbTree.reinsertDeviceList
  rw [show t.usbTree.devicesListId = t.devicesListId from rfl, hmodel a ha]
  rfl

/-! ## Signals -/

theorem newUsbDevice_refines (h : t.IsIntact S) (hlabelled : t.usbTree.shelf.Labelled) {id : ℕ} {name usbPort : String}
    (hr : t.newUsbDevice id name usbPort = .ok t') : t'.IsIntact S ∧ ∃ newId, ∀ a : Answers P, a.newId = newId →
      t.usbTree.newUsbDevice S.toUsbSetup a id name usbPort = .ok t'.usbTree := by
  unfold CachedTree.newUsbDevice at hr
  obtain ⟨⟨list, items⟩, hget, hr⟩ := bind_eq_ok hr
  unfold UsbTree.newUsbDevice
  cases hadd : UsbTree.addToList items id name usbPort with
  | none =>
    simp only [hadd] at hr
    cases hr
    exact ⟨h, .invalid, fun _ _ => bind_of_ok hget (by simp only [hadd]; rfl)⟩
  | some items' =>
    simp only [hadd] at hr
    obtain ⟨h', newId, hmodel⟩ := reinsertDeviceList_refines (h.setList list _) hlabelled hr
    exact ⟨h', newId, fun a ha => bind_of_ok hget (by simp only [hadd]; exact hmodel a ha)⟩

theorem setChildList_refines {id : ListId} (h : t.IsIntact S) (hr : t.setChildList S this item id = .ok t') :
    t'.IsIntact S ∧ t'.cache.allObjects = t.cache.allObjects ∧
      t.usbTree.setChildList S.toUsbSetup this item id = .ok t'.usbTree := by
  unfold CachedTree.setChildList at hr
  obtain ⟨u, hvalid, hr⟩ := bind_eq_ok hr
  obtain ⟨u', hunlinked, hr⟩ := bind_eq_ok hr
  cases hr
  refine ⟨h.setList this _, rfl, ?_⟩
  unfold UsbTree.setChildList
  rw [hvalid]
  change (S.assert (∀ child ∈ (t.cache.content this).links[item]?, child.isValid = false) >>= _) = _
  rw [hunlinked]
  rfl

theorem reinsertVolumeList_refines (h : t.IsIntact S) (hlabelled : t.usbTree.shelf.Labelled) {deviceId number idx : ℕ}
    (hr : t.reinsertVolumeList S deviceId number idx = .ok t') :
    t'.IsIntact S ∧ ∃ newId, ∀ a : Answers P, a.newId = newId →
      t.usbTree.reinsertVolumeList S.toUsbSetup a deviceId number idx = .ok t'.usbTree := by
  unfold CachedTree.reinsertVolumeList at hr
  obtain ⟨⟨list, items⟩, hget, hr⟩ := bind_eq_ok hr
  unfold UsbTree.reinsertVolumeList
  cases hdevice : UsbTree.getDeviceById items deviceId with
  | none =>
    simp only [hdevice] at hr
    cases hr
    exact ⟨h, .invalid, fun _ _ => bind_of_ok hget (by simp only [hdevice]; rfl)⟩
  | some device =>
    obtain ⟨i, device⟩ := device
    simp only [hdevice] at hr
    cases hchild : (if ((FlatList.links items)[i]?.getD .invalid).isValid = true then
        t.usbTree.shelf.find ((FlatList.links items)[i]?.getD .invalid) else none) with
    | none =>
      simp only [hchild] at hr
      cases hr
      exact ⟨h, .invalid, fun _ _ => bind_of_ok hget (by simp only [hdevice, hchild]; rfl)⟩
    | some p =>
      simp only [hchild] at hr
      cases hlist : t.cache.content p with
      | devices _ => rw [hlist] at hr; cases hr
      | dir _ => rw [hlist] at hr; cases hr
      | volumes volumes =>
        rw [hlist] at hr
        obtain ⟨⟨id, t₁⟩, hreinsert, hr⟩ := bind_eq_ok hr
        obtain ⟨h₁, hmodel⟩ := reinsertList_refines ((h.setList p _).setList list _) hlabelled hreinsert
        obtain ⟨h', -, hset⟩ := setChildList_refines h₁ hr
        refine ⟨h', id, fun a ha => bind_of_ok hget ?_⟩
        simp only [hdevice, hchild]
        rw [show t.usbTree.lists p = .volumes volumes from hlist]
        exact bind_of_ok (hmodel a ha) hset

theorem newVolume_refines (h : t.IsIntact S) (hlabelled : t.usbTree.shelf.Labelled) {number deviceId : ℕ}
    {label mountpoint : String} (hr : t.newVolume S number label mountpoint deviceId = .ok t') :
    t'.IsIntact S ∧ ∃ newId, ∀ a : Answers P, a.newId = newId →
      t.usbTree.newVolume S.toUsbSetup a number label mountpoint deviceId = .ok t'.usbTree := by
  unfold CachedTree.newVolume at hr
  obtain ⟨⟨list, items⟩, hget, hr⟩ := bind_eq_ok hr
  unfold UsbTree.newVolume
  cases hdevice : UsbTree.getDeviceById items deviceId with
  | none =>
    simp only [hdevice] at hr
    cases hr
    exact ⟨h, .invalid, fun _ _ => bind_of_ok hget (by simp only [hdevice]; rfl)⟩
  | some device =>
    obtain ⟨i, device⟩ := device
    simp only [hdevice] at hr
    cases hadd : UsbTree.addVolume device.volumes ⟨number, label, mountpoint⟩ with
    | none =>
      simp only [hadd] at hr
      cases hr
      exact ⟨h, .invalid, fun _ _ => bind_of_ok hget (by simp only [hdevice, hadd]; rfl)⟩
    | some r =>
      obtain ⟨addedAtIndex, volumes⟩ := r
      simp only [hadd] at hr
      obtain ⟨h', newId, hmodel⟩ := reinsertVolumeList_refines (h.setList list _) hlabelled hr
      exact ⟨h', newId, fun a ha => bind_of_ok hget (by simp only [hdevice, hadd]; exact hmodel a ha)⟩

/-! ## Entering a child -/

/-- A list may be made below the list `this`: time has passed since the last insertion, and an ID is left. -/
structure MayMake (t : CachedTree P) (e : Circumstances P) (this : P) : Prop where
  later : t.cache.minimumRequiredCreationTime < e.now
  free : Lru.HasFreeId t.cache .cached (Lru.CacheIdGenerator.getContext (t.cache.id this))

/-- What the cache answers when a list is made, and what it leaves. -/
structure Made (S : CachedSetup P) (t : CachedTree P) (inserted : Option (P × ListId)) (collected : List P)
    (t' : CachedTree P) : Prop where
  intact : t'.IsIntact S
  orderly : S.deviceList ∈ t'.cache.allObjects →
    Discards S.toUsbSetup (inserted.toList.map (·.1) ++ t.cache.allObjects) collected

theorem Made.none (h : t.IsIntact S) : Made S t none [] t :=
  ⟨h, fun _ => ⟨List.not_mem_nil, fun _ _ _ _ hp => absurd hp List.not_mem_nil⟩⟩

theorem Made.setList {inserted : Option (P × ListId)} {collected : List P} (h : Made S t inserted collected t') (p : P)
    (items : UsbList) : Made S t inserted collected (t'.setList p items) :=
  ⟨h.intact.setList p items, h.orderly⟩

section

variable (h : t.IsIntact S) (hlabelled : t.usbTree.shelf.Labelled) (hthis : this ∈ t.cache.allObjects)
    (hmay : t.MayMake e this)

include h hlabelled hthis hmay

theorem addChildListToCache_refines {items : UsbList} {r : ListId × CachedTree P}
    (hr : t.addChildListToCache S e this items = .ok r) : ∃ inserted collected, Made S t inserted collected r.2 ∧
      t.usbTree.addChildListToCache S.toUsbSetup (e.making inserted collected) this items = .ok (r.1, r.2.usbTree) := by
  unfold CachedTree.addChildListToCache at hr
  obtain ⟨⟨hpar, -, hnew⟩, hr⟩ := UsbTree.of_possible hr
  split at hr
  · next haccepts =>
    obtain ⟨⟨id, cache⟩, hinsert, hr⟩ := of_ofCache hr
    cases hr
    obtain ⟨L, h₁⟩ := h.setList e.entry items
    have hmem : ∀ q, q ∈ t.cache.allObjects ↔ q ∈ L := h₁.registered.cached
    obtain ⟨hinserted, hvalid⟩ :=
      (insert_answers (S := S) t.devicesListId h₁ haccepts (fun hL => hnew ((hmem _).mpr hL))
      (fun q hq => (hmem q).mp (Option.some.inj (hpar.symm.trans hq) ▸ hthis)) fun _ _ => hmay.later).ok hinsert
    obtain ⟨collected, htree⟩ := hinserted.tree
    have hfree : t.usbTree.shelf.Free id := ⟨hvalid hmay.free, hinserted.cacheable, hinserted.free⟩
    have hunused : t.usbTree.shelf.Unused S.forest e.entry := fun q hq hmem => hnew (h.parents.path hq _ hmem)
    refine ⟨some (e.entry, id), collected, ⟨hinserted.intact, fun hroot => ?_⟩, ?_⟩
    · have hintact : IsIntact S ⟨cache, t.devicesListId⟩ := hinserted.intact
      have hlabelled' : (t.usbTree.shelf.insert e.entry id).Labelled := hlabelled.insert hfree
      exact hintact.discards hlabelled' htree hroot
    · have hpossible : possible (S.forest.parent e.entry = some this ∧ t.usbTree.shelf.Unused S.forest e.entry ∧
          t.usbTree.shelf.Free id) = .ok () := if_pos ⟨hpar, hunused, hfree⟩
      exact bind_of_ok hpossible (congrArg (fun u => Except.ok (id, u)) htree.symm)
  · cases hr
    exact ⟨none, [], .none h, rfl⟩

theorem attachNewDirlist_refines {path : String} {r : ListId × EnterError × CachedTree P}
    (hr : t.attachNewDirlist S e this path = .ok r) : ∃ inserted collected, Made S t inserted collected r.2.2 ∧
      t.usbTree.attachNewDirlist S.toUsbSetup (e.making inserted collected) this path =
        .ok (r.1, r.2.1, r.2.2.usbTree) := by
  unfold CachedTree.attachNewDirlist at hr
  obtain ⟨⟨id, t₁⟩, hadd, hr⟩ := bind_eq_ok hr
  obtain ⟨inserted, collected, hmade, hmodel⟩ := addChildListToCache_refines h hlabelled hthis hmay hadd
  refine ⟨inserted, collected, ?_⟩
  unfold UsbTree.attachNewDirlist
  dsimp only at hr hmade hmodel
  split at hr
  · next hinvalid =>
    cases hr
    exact ⟨hmade, bind_of_ok hmodel (if_pos hinvalid)⟩
  · next hvalid =>
    obtain ⟨p, hfind, hr⟩ := UsbTree.of_deref hr
    have hderef : deref (t₁.usbTree.shelf.find id) = .ok p := by rw [hfind]; rfl
    cases hread : e.readDir path with
    | none =>
      rw [hread] at hr
      cases hr
      exact ⟨hmade, bind_of_ok hmodel
        ((if_neg hvalid).trans (bind_of_ok hderef (by simp only [making_readDir, hread]; rfl)))⟩
    | some files =>
      rw [hread] at hr
      cases hr
      refine ⟨hmade.setList p _, bind_of_ok hmodel ((if_neg hvalid).trans (bind_of_ok hderef ?_))⟩
      simp only [making_readDir, hread]
      rfl

theorem addVolumeList_refines {device : DeviceItemData} {r : ListId × EnterError × CachedTree P}
    (hr : t.addVolumeList S e this device = .ok r) : ∃ inserted collected, Made S t inserted collected r.2.2 ∧
      t.usbTree.addVolumeList S.toUsbSetup (e.making inserted collected) this device =
        .ok (r.1, r.2.1, r.2.2.usbTree) := by
  unfold CachedTree.addVolumeList at hr
  obtain ⟨⟨id, t₁⟩, hadd, hr⟩ := bind_eq_ok hr
  obtain ⟨inserted, collected, hmade, hmodel⟩ := addChildListToCache_refines h hlabelled hthis hmay hadd
  refine ⟨inserted, collected, ?_⟩
  unfold UsbTree.addVolumeList
  dsimp only at hr hmade hmodel
  split at hr
  · next hinvalid =>
    cases hr
    exact ⟨hmade, bind_of_ok hmodel (if_pos hinvalid)⟩
  · next hvalid =>
    obtain ⟨p, hfind, hr⟩ := UsbTree.of_deref hr
    have hderef : deref (t₁.usbTree.shelf.find id) = .ok p := by rw [hfind]; rfl
    cases hr
    exact ⟨hmade.setList p _, bind_of_ok hmodel ((if_neg hvalid).trans (bind_of_ok hderef rfl))⟩

theorem addToCache_refines {r : ListId × EnterError × CachedTree P} (hr : t.addToCache S e this item = .ok r) :
    ∃ inserted collected, Made S t inserted collected r.2.2 ∧
      t.usbTree.addToCache S.toUsbSetup (e.making inserted collected) this item = .ok (r.1, r.2.1, r.2.2.usbTree) := by
  unfold CachedTree.addToCache at hr
  unfold UsbTree.addToCache
  rw [show t.usbTree.lists this = t.cache.content this from rfl]
  cases hlist : t.cache.content this with
  | devices items =>
    rw [hlist] at hr
    obtain ⟨device, hdevice, hr⟩ := UsbTree.of_deref hr
    obtain ⟨inserted, collected, hmade, hmodel⟩ := addVolumeList_refines h hlabelled hthis hmay hr
    exact ⟨inserted, collected, hmade, bind_of_ok (by rw [hdevice]; rfl) hmodel⟩
  | volumes items =>
    rw [hlist] at hr
    obtain ⟨volume, hvolume, hr⟩ := UsbTree.of_deref hr
    obtain ⟨path, hpath, hr⟩ := bind_eq_ok hr
    obtain ⟨inserted, collected, hmade, hmodel⟩ := attachNewDirlist_refines h hlabelled hthis hmay hr
    exact ⟨inserted, collected, hmade, bind_of_ok (by rw [hvolume]; rfl) (bind_of_ok hpath hmodel)⟩
  | dir items =>
    rw [hlist] at hr
    obtain ⟨entry, hentry, hr⟩ := UsbTree.of_deref hr
    have hderef : deref items[item]? = .ok entry := by rw [hentry]; rfl
    unfold CachedTree.addDirectory at hr
    split at hr
    · next hkind =>
      obtain ⟨path, hpath, hr⟩ := bind_eq_ok hr
      cases path with
      | none =>
        cases hr
        exact ⟨none, [], .none h, bind_of_ok hderef ((if_pos hkind).trans (bind_of_ok hpath rfl))⟩
      | some path =>
        obtain ⟨inserted, collected, hmade, hmodel⟩ := attachNewDirlist_refines h hlabelled hthis hmay hr
        exact ⟨inserted, collected, hmade, bind_of_ok hderef ((if_pos hkind).trans (bind_of_ok hpath hmodel))⟩
    · next hkind =>
      cases hr
      exact ⟨none, [], .none h, bind_of_ok hderef (if_neg hkind)⟩

end

theorem enterChildTemplate_refines {X : Set P} (hs : t.usbTree.Sound S.toUsbSetup X) (h : t.IsIntact S)
    (hthis : this ∈ t.cache.allObjects) (hmay : e.mayContinue = true →
      (∀ child ∈ (t.cache.content this).links[item]?, child.isValid = false) → t.MayMake e this)
    {r : ListId × EnterError × CachedTree P} (hr : t.enterChildTemplate S e this item = .ok r) :
    ∃ inserted collected, Made S t inserted collected r.2.2 ∧
      t.usbTree.enterChildTemplate S.toUsbSetup (e.making inserted collected) this item =
        .ok (r.1, r.2.1, r.2.2.usbTree) := by
  unfold CachedTree.enterChildTemplate at hr
  split at hr
  swap
  · next hinterrupted =>
    cases hr
    exact ⟨none, [], .none h, if_neg hinterrupted⟩
  next hcontinue =>
  cases hlink : (t.cache.content this).links[item]? with
  | none =>
    rw [hlink] at hr
    cases hr
    refine ⟨none, [], .none h, (if_pos hcontinue).trans ?_⟩
    rw [show (t.usbTree.lists this).links[item]? = none from hlink]
  | some child =>
    rw [hlink] at hr
    dsimp only at hr
    split at hr
    · next hchild =>
      cases hr
      refine ⟨none, [], .none h, (if_pos hcontinue).trans ?_⟩
      rw [show (t.usbTree.lists this).links[item]? = some child from hlink]
      exact if_pos hchild
    · next hchild =>
      have hinvalid := hs.link_invalid (show (t.usbTree.lists this).links[item]? = some child from hlink) hchild
      obtain ⟨⟨newId, error, t₁⟩, hadd, hr⟩ := bind_eq_ok hr
      obtain ⟨t₂, hset, hr⟩ := bind_eq_ok hr
      cases hr
      have hmay := hmay hcontinue fun c hc => by
        rw [hlink] at hc
        exact Option.some.inj hc ▸ hinvalid
      obtain ⟨inserted, collected, hmade, hmodel⟩ := addToCache_refines h hs.booked.labelled hthis hmay hadd
      refine ⟨inserted, collected, ?_⟩
      rw [UsbTree.enterChildTemplate_unlinked hcontinue hlink hinvalid]
      -- there is no list to be purged
      rw [CachedTree.purgeSubtree, if_neg (by simp [hinvalid])] at hset
      dsimp only at hset hmade hmodel ⊢
      split at hset
      · next hnew =>
        obtain ⟨h₂, hall, hset⟩ := setChildList_refines hmade.intact hset
        exact ⟨⟨h₂, fun hroot => hmade.orderly (hall ▸ hroot)⟩,
          bind_of_ok hmodel (bind_of_ok ((if_pos hnew).trans hset) rfl)⟩
      · next hnew =>
        cases hset
        exact ⟨hmade, bind_of_ok hmodel (bind_of_ok (if_neg hnew) rfl)⟩

theorem enterChild_refines {X : Set P} (hs : t.usbTree.Sound S.toUsbSetup X) (h : t.IsIntact S) {listId : ListId}
    (hmay : ∀ this ∈ t.usbTree.shelf.find listId, e.mayContinue = true →
      (∀ child ∈ (t.cache.content this).links[item]?, child.isValid = false) → t.MayMake e this)
    {r : ListId × EnterError × CachedTree P} (hr : t.enterChild S e listId item = .ok r) :
    ∃ inserted collected, Made S t inserted collected r.2.2 ∧
      t.usbTree.enterChild S.toUsbSetup (e.making inserted collected) listId item =
        .ok (r.1, r.2.1, r.2.2.usbTree) := by
  unfold CachedTree.enterChild at hr
  unfold UsbTree.enterChild
  cases hfind : t.usbTree.shelf.find listId with
  | none =>
    rw [hfind] at hr
    cases hr
    exact ⟨none, [], .none h, rfl⟩
  | some this =>
    rw [hfind] at hr
    exact enterChildTemplate_refines hs h (Shelf.mem_of_find hfind).1 (hmay this hfind) hr

/-! ## Kill lists -/

theorem enumerateTreeOfSublists_refines {n : ℕ} {nodes killList : List ListId}
    (hr : t.cache.enumerateTreeOfSublists S.manager n nodes = .ok killList) :
    t.usbTree.enumerateTreeOfSublists n nodes = .ok killList ∧ ∀ id ∈ killList, id.isValid = true ∧
      t.cache.find id ≠ none := by
  induction n generalizing nodes killList with
  | zero =>
    cases nodes with
    | nil =>
      cases hr
      exact ⟨rfl, fun _ hid => absurd hid List.not_mem_nil⟩
    | cons id nodes => cases hr
  | succ n ih =>
    cases nodes with
    | nil =>
      cases hr
      exact ⟨rfl, fun _ hid => absurd hid List.not_mem_nil⟩
    | cons id nodes =>
      rw [Cache.enumerateTreeOfSublists] at hr
      obtain ⟨found, hlookup, hr⟩ := bind_eq_ok hr
      obtain ⟨hvalid, rfl⟩ := (Lru.lookup_ensures id t.cache).ok hlookup
      cases hfind : t.cache.find id with
      | none =>
        rw [hfind] at hr
        cases hr
      | some p =>
        rw [hfind] at hr
        obtain ⟨rest, hrest, hr⟩ := bind_eq_ok hr
        cases hr
        obtain ⟨hmodel, hall⟩ := ih hrest
        refine ⟨?_, fun j hj => ?_⟩
        · rw [UsbTree.enumerateTreeOfSublists, show t.usbTree.shelf.find id = some p from hfind]
          exact bind_of_ok rfl (bind_of_ok hmodel rfl)
        · rcases List.mem_cons.mp hj with rfl | hj
          · exact ⟨hvalid, by rw [hfind]; exact Option.some_ne_none p⟩
          · exact hall j hj

variable {s : Cache P (P → UsbList)} {L : List P} {killList sorted : List ListId}

/-- There is a leaf below each object: one that is farthest from the root. -/
theorem exists_leaf (h : Intact False S.forest s L) (hp : p ∈ s.allObjects) :
    ∃ q ∈ s.allObjects, s.isLeaf q = true ∧ p ∈ S.forest.path q := by
  obtain ⟨q, hq, hmax⟩ := Finset.exists_max_image (s.allObjects.filter (p ∈ S.forest.path ·)).toFinset
    (fun q => (S.forest.path q).length) ⟨p, by simpa using hp⟩
  obtain ⟨hq, hpath⟩ : q ∈ s.allObjects ∧ p ∈ S.forest.path q := by simpa using hq
  refine ⟨q, hq, h.registered.isLeaf_iff.mpr fun r hr hpar => ?_, hpath⟩
  have hbelow : p ∈ S.forest.path r := by
    rw [Forest.path_of_parent hpar]
    exact List.mem_cons_of_mem r hpath
  have hle := hmax r (by simpa [hbelow] using (h.registered.cached r).mpr hr)
  rw [Forest.path_of_parent hpar, List.length_cons] at hle
  omega

/-- The IDs of all that is below a list can be sorted. -/
theorem admissible_of_below (h : Intact False S.forest s L) (hp : p ∈ s.allObjects) (hnodup : killList.Nodup)
    (hfound : ∀ id ∈ killList, id.isValid = true ∧ s.find id ≠ none)
    (hmem : ∀ q ∈ s.allObjects, s.id q ∈ killList ↔ p ∈ S.forest.path q) : Lru.Admissible S.forest s killList where
  nodup := hnodup
  cached := hfound
  leaf := by
    obtain ⟨q, hq, hleaf, hpath⟩ := exists_leaf h hp
    refine ⟨s.id q, (hmem q hq).mpr hpath, ?_⟩
    rw [Cache.isLeafId, h.cacheTree.find_id hq, Option.any_some]
    exact hleaf
  reachable id hid r hfind _ := by
    obtain ⟨hr, rfl⟩ := Lru.mem_of_find hfind
    obtain ⟨q, hq, hleaf, hpath⟩ := exists_leaf h hr
    exact ⟨s.id q, (hmem q hq).mpr (Forest.mem_path_trans hpath ((hmem r hr).mp hid)), q, h.cacheTree.find_id hq,
      hleaf, hpath⟩

theorem mem_killedBefore {i j : ListId} (hsub : [i, j].Sublist sorted) (hnodup : sorted.Nodup) :
    i ∈ Lru.killedBefore sorted j := by
  induction sorted with
  | nil => cases hsub
  | cons id sorted ih =>
    obtain ⟨hid, hnodup⟩ := List.nodup_cons.mp hnodup
    have hne : ∀ l : List ListId, (j :: l).Sublist sorted → j ≠ id := fun l hl e => hid (e ▸ hl.mem List.mem_cons_self)
    cases hsub with
    | cons _ hsub =>
      rw [Lru.killedBefore_cons (hne [] ((List.sublist_cons_self i [j]).trans hsub))]
      exact List.mem_cons_of_mem id (ih hsub hnodup)
    | cons_cons _ hsub =>
      rw [Lru.killedBefore_cons (hne [] hsub)]
      exact List.mem_cons_self

/-- The sorted kill list. -/
theorem childrenFirst_of_upward (h : Intact False S.forest s L) (hnodup : sorted.Nodup)
    (hmem : ∀ q ∈ s.allObjects, s.id q ∈ sorted ↔ p ∈ S.forest.path q)
    (hupward : sorted.Pairwise (Lru.Upward S.forest s)) : Lru.ChildrenFirst S.forest s L sorted := by
  intro r hr hid q hq hpar
  have hr := (h.registered.cached r).mpr hr
  have hq := (h.registered.cached q).mpr hq
  have hid' : s.id q ∈ sorted := (hmem q hq).mpr (by
    rw [Forest.path_of_parent hpar]
    exact List.mem_cons_of_mem q ((hmem r hr).mp hid))
  have hne : s.id q ≠ s.id r := fun e => by
    rw [h.cacheTree.ids q hq r hr e] at hpar
    exact absurd (S.forest.rank_lt hpar) (Nat.lt_irrefl _)
  rcases Lru.pair_sublist hid' hid hne with hsub | hsub
  · exact mem_killedBefore hsub hnodup
  · refine absurd ?_ (List.pairwise_iff_forall_sublist.mp hupward hsub r q (h.cacheTree.find_id hr)
      (h.cacheTree.find_id hq))
    rw [Forest.path_of_parent hpar, List.tail_cons]
    exact Forest.mem_path_self

/-- Sorting and purging all that is below a list. -/
theorem processKillList_refines (h : t.IsIntact S) (hlabelled : t.usbTree.shelf.Labelled) (hp : p ∈ t.cache.allObjects)
    (hnodup : killList.Nodup) (hfound : ∀ id ∈ killList, id.isValid = true ∧ t.cache.find id ≠ none)
    (hmem : ∀ q ∈ t.cache.allObjects, t.cache.id q ∈ killList ↔ p ∈ S.forest.path q)
    (hr : t.processKillList S e killList = .ok t') : t'.devicesListId = t.devicesListId ∧ ∃ sorted unpinned,
      sorted.Perm killList ∧ Purged S t.devicesListId unpinned sorted t.cache t'.cache := by
  obtain ⟨L, h⟩ := h
  unfold CachedTree.processKillList at hr
  obtain ⟨cache, hkill, hr⟩ := of_ofCache hr
  cases hr
  unfold Cache.processKillList at hkill
  obtain ⟨sorted, hsort, hperm, hupward⟩ :=
    Lru.toposortForPurge_upward (S := S.manager.toSetup) S.partition h.cacheTree
      (admissible_of_below h hp hnodup hfound hmem)
  obtain ⟨⟨result, sorted'⟩, hsort', hkill⟩ := bind_eq_ok hkill
  obtain ⟨rfl, rfl⟩ := Prod.mk.inj (Except.ok.inj (hsort.symm.trans hsort'))
  have hnodup' : sorted.Nodup := hperm.nodup_iff.mpr hnodup
  have hchildren := childrenFirst_of_upward h hnodup' (fun q hq => hperm.mem_iff.trans (hmem q hq)) hupward
  obtain ⟨unpinned, hpurged⟩ := (purgeEntries_answers t.devicesListId h hlabelled hchildren hnodup' true).ok hkill
  exact ⟨rfl, sorted, unpinned, hperm, hpurged⟩

/-! ## Removing a device -/

section

omit [DecidableEq P]

theorem usbTree_eq {i : ListId} (hid : t'.devicesListId = i) : t'.usbTree = treeOf i t'.cache := by
  subst hid
  rfl

end

theorem purgeSubtree_refines {X : Set P} (hs : t.usbTree.Sound S.toUsbSetup X) (h : t.IsIntact S)
    (hp : p ∈ t.cache.allObjects) (hne : p ≠ S.deviceList)
    (hX : ∀ x ∈ X, ∀ q, S.forest.parent x = some q → p ∉ S.forest.path q) {id : ListId} (hid : t.cache.id p = id)
    (hr : t.purgeSubtree S e id .invalid .ok = .ok t') : ∃ unpinned sorted,
      t'.devicesListId = t.devicesListId ∧ Purged S t.devicesListId unpinned sorted t.cache t'.cache ∧
      ∀ newId, t.usbTree.purgeSubtree S.toUsbSetup (e.purging unpinned sorted newId) id .invalid .ok =
      .ok t'.usbTree := by
  subst hid
  have hlabelled := hs.booked.labelled
  have hvalid : (t.cache.id p).isValid = true := hlabelled.valid p hp
  have hfind : t.cache.find (t.cache.id p) = some p := hlabelled.find_id hp
  unfold CachedTree.purgeSubtree at hr
  rw [if_pos hvalid, hfind] at hr
  obtain ⟨killList, hkill, hr⟩ := of_ofCache hr
  obtain ⟨hmodel, hfound⟩ := enumerateTreeOfSublists_refines hkill
  obtain ⟨killList', hkill', hnodup, hmem⟩ := hs.enumerateTreeOfSublists_spec h.parents hp hne hX
  obtain rfl := Except.ok.inj (hmodel.symm.trans hkill')
  obtain ⟨hid, sorted, unpinned, hperm, hpurged⟩ := processKillList_refines h hlabelled hp hnodup hfound hmem hr
  refine ⟨unpinned, sorted, hid, hpurged, fun newId => ?_⟩
  rw [UsbTree.purgeSubtree, if_pos hvalid, show t.usbTree.shelf.find (t.cache.id p) = some p from hfind]
  have hpossible : possible (sorted.Perm killList) = .ok () := if_pos hperm
  have htree : t'.usbTree = _ := (usbTree_eq hid).trans (hpurged.tree (e.purging unpinned sorted newId) rfl)
  rw [htree]
  exact bind_of_ok hmodel (bind_of_ok rfl (bind_of_ok hpossible rfl))

/-- What the removal of a device leaves, and what the cache has answered. -/
structure Removed (S : CachedSetup P) (t : CachedTree P) (a : Answers P) (t' : CachedTree P) : Prop where
  intact : t'.IsIntact S
  orderly : S.deviceList ∈ t'.cache.allObjects → t.usbTree.KeepsAbove S.toUsbSetup a

theorem deviceRemoved_refines (hs : t.usbTree.Settled S.toUsbSetup) (h : t.IsIntact S) {id : ℕ}
    (hr : t.deviceRemoved S e id = .ok t') : ∃ unpinned sorted newId, Removed S t (e.purging unpinned sorted newId) t' ∧
      t.usbTree.deviceRemoved S.toUsbSetup (e.purging unpinned sorted newId) id = .ok t'.usbTree := by
  have hlabelled := hs.rooted.labelled
  unfold CachedTree.deviceRemoved at hr
  obtain ⟨⟨list, items⟩, hget, hr⟩ := bind_eq_ok hr
  obtain ⟨-, hitems⟩ := UsbTree.of_getListOfUsbDevices hget
  obtain rfl := hs.sound.devices list items hitems
  unfold UsbTree.deviceRemoved
  cases hdevice : UsbTree.getDeviceById items id with
  | none =>
    simp only [hdevice] at hr
    cases hr
    refine ⟨fun _ => [], [], .invalid, ⟨h, fun hroot p _ => ?_⟩, bind_of_ok hget (by simp only [hdevice]; rfl)⟩
    exact ⟨List.not_mem_nil, fun _ _ _ _ hp => absurd hp List.not_mem_nil⟩
  | some device =>
    obtain ⟨idx, device⟩ := device
    simp only [hdevice] at hr
    unfold CachedTree.purgeDeviceSubtreeAndReinsertDeviceList at hr
    split at hr
    · next hvalid =>
      obtain ⟨_, hroot, hr⟩ := bind_eq_ok hr
      obtain ⟨_, hbelow, hr⟩ := bind_eq_ok hr
      obtain ⟨t₁, hpurge, hr⟩ := bind_eq_ok hr
      obtain ⟨p, hp, hchild, -, hne, hs₁, hX⟩ := hs.eraseDevice hitems hvalid
      obtain ⟨unpinned, sorted, hid, hpurged, hmodel⟩ :=
        purgeSubtree_refines hs₁ (h.setList S.deviceList _) hp hne hX hchild hpurge
      have hlabelled₁ : t₁.usbTree.shelf.Labelled := by
        rw [usbTree_eq hid, hpurged.tree (e.purging unpinned sorted .invalid) rfl]
        exact (UsbTree.purgeEntries_shrunk ..).labelled hlabelled
      obtain ⟨h', newId, hmodel'⟩ := reinsertDeviceList_refines hpurged.intact hlabelled₁ hr
      refine ⟨unpinned, sorted, newId, ⟨h', fun hroot p _ => ?_⟩, bind_of_ok hget ?_⟩
      · have hroot₁ :=
          (UsbTree.mem_reinsertDeviceList hlabelled₁ (hmodel' (e.purging unpinned sorted newId) rfl)).mp hroot
        exact ⟨hpurged.kept _ _ hroot₁, fun q hq r hr => hpurged.closed _ q hq r hr⟩
      · simp only [hdevice]
        exact (if_pos hvalid).trans (bind_of_ok hroot (bind_of_ok hbelow (bind_of_ok (hmodel newId) (hmodel' _ rfl))))
    · next hinvalid =>
      obtain ⟨h', newId, hmodel⟩ := reinsertDeviceList_refines (h.setList S.deviceList _) hlabelled hr
      refine ⟨fun _ => [], [], newId, ⟨h', fun hroot p _ => ?_⟩, bind_of_ok hget ?_⟩
      · exact ⟨List.not_mem_nil, fun _ _ _ _ hp => absurd hp List.not_mem_nil⟩
      · simp only [hdevice]
        exact (if_neg hinvalid).trans (hmodel _ rfl)

end CachedTree

end Listbrokers.Tree
