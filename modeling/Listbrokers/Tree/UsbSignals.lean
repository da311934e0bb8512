import Listbrokers.Tree.UsbLinks
import Mathlib.Data.List.InsertIdx

/-!
# The signals of MounTA

What the signals do to the lists. A list of volumes that a device links to holds
the volumes of the device, also when a volume is added, and its items keep their
links then.
-/

namespace Listbrokers.Tree

open Framework Tiles

variable {P : Type} {S : UsbSetup P} {a : Answers P} {s s' : UsbTree P} {p q : P} {X : Set P}

namespace UsbTree

/-! ## Devices -/

theorem of_getListOfUsbDevices {list : P} {items : FlatList DeviceItemData}
    (h : s.getListOfUsbDevices = .ok (list, items)) :
    s.shelf.find s.devicesListId = some list ∧ s.lists list = .devices items := by
  unfold getListOfUsbDevices at h
  obtain ⟨p, hfind, h⟩ := of_deref h
  split at h
  · next items' hitems =>
    cases h
    exact ⟨hfind, hitems⟩
  · cases h

theorem of_getDeviceById {items : FlatList DeviceItemData} {id idx : ℕ} {device : DeviceItemData}
    (h : getDeviceById items id = some (idx, device)) :
    ∃ child, items[idx]? = some ⟨child, device⟩ ∧ device.devId = id := by
  unfold getDeviceById at h
  obtain ⟨idx', hfind, h⟩ := Option.bind_eq_some_iff.mp h
  obtain ⟨item, hitem, h⟩ := Option.bind_eq_some_iff.mp h
  cases h
  obtain ⟨hlt, hid, -⟩ := List.findIdx?_eq_some_iff_getElem.mp hfind
  obtain rfl : items[idx] = item := Option.some.inj ((List.getElem?_eq_getElem hlt).symm.trans hitem)
  exact ⟨items[idx].child, hitem, by simpa using hid⟩

theorem links_withVolumes (items : FlatList DeviceItemData) (idx : ℕ) (volumes : List VolumeInfo) :
    FlatList.links (withVolumes items idx volumes) = FlatList.links items := by
  unfold FlatList.links withVolumes
  refine List.ext_getElem? fun j => ?_
  rw [List.getElem?_map, List.getElem?_modify, List.getElem?_map]
  cases items[j]? with
  | none => rfl
  | some item => by_cases e : idx = j <;> simp [e]

theorem setLink_withVolumes {items : FlatList DeviceItemData} {idx : ℕ} {child : ListId} {device : DeviceItemData}
    (h : items[idx]? = some ⟨child, device⟩) (volumes : List VolumeInfo) (link : ListId) :
    FlatList.setLink (withVolumes items idx volumes) idx link =
      items.set idx ⟨link, { device with volumes := volumes }⟩ := by
  refine List.ext_getElem? fun j => ?_
  rw [FlatList.setLink, withVolumes, List.getElem?_modify, List.getElem?_modify, List.getElem?_set]
  by_cases e : idx = j
  · subst e
    rw [h]
    simp [(List.getElem?_eq_some_iff.mp h).1]
  · simp [e]

theorem map_data_setLink (items : FlatList DeviceItemData) (idx : ℕ) (link : ListId) :
    (FlatList.setLink items idx link).map (·.data) = items.map (·.data) := by
  refine List.ext_getElem? fun j => ?_
  rw [List.getElem?_map, FlatList.setLink, List.getElem?_modify, List.getElem?_map]
  by_cases e : idx = j <;> cases items[j]? <;> simp [e]

theorem mem_withVolumes {items : FlatList DeviceItemData} {idx : ℕ} {child : ListId} {device : DeviceItemData}
    {volumes : List VolumeInfo} {item : ListItem DeviceItemData} (h : items[idx]? = some ⟨child, device⟩)
    (hmem : item ∈ withVolumes items idx volumes) :
    item = ⟨child, { device with volumes := volumes }⟩ ∨ item ∈ items := by
  obtain ⟨j, hj⟩ := List.mem_iff_getElem?.mp hmem
  rw [withVolumes, List.getElem?_modify] at hj
  by_cases e : idx = j
  · subst e
    rw [h] at hj
    exact .inl (by simpa using hj.symm)
  · exact .inr (List.mem_of_getElem? (by simpa [e] using hj))

theorem map_devId_withVolumes (items : FlatList DeviceItemData) (idx : ℕ) (volumes : List VolumeInfo) :
    (withVolumes items idx volumes).map (·.data.devId) = items.map (·.data.devId) := by
  refine List.ext_getElem? fun j => ?_
  rw [List.getElem?_map, withVolumes, List.getElem?_modify, List.getElem?_map]
  by_cases e : idx = j <;> cases items[j]? <;> simp [e]

/-- A device is found at the same index after its volumes have changed. -/
theorem getDeviceById_withVolumes {items : FlatList DeviceItemData} {id idx : ℕ} {device : DeviceItemData}
    (h : getDeviceById items id = some (idx, device)) (volumes : List VolumeInfo) :
    getDeviceById (withVolumes items idx volumes) id = some (idx, { device with volumes := volumes }) := by
  have hids : ∀ items : FlatList DeviceItemData, items.findIdx? (·.data.devId = id) =
      (items.map (·.data.devId)).findIdx? (· = id) := fun items => by
    rw [List.findIdx?_map]
    rfl
  obtain ⟨child, hitem, -⟩ := of_getDeviceById h
  unfold getDeviceById at h ⊢
  obtain ⟨idx', hfind, h⟩ := Option.bind_eq_some_iff.mp h
  obtain ⟨item, -, h⟩ := Option.bind_eq_some_iff.mp h
  cases h
  rw [hids, map_devId_withVolumes, ← hids, hfind, Option.bind_eq_bind, Option.bind_some, withVolumes,
    List.getElem?_modify, hitem]
  simp

theorem addVolume_sorted {volumes : List VolumeInfo} {info : VolumeInfo}
    (h : volumes.Pairwise fun info other => info.number < other.number)
    (hnew : ∀ other ∈ volumes[volumes.findIdx fun other => info.number ≤ other.number]?, info.number < other.number) :
    (volumes.insertIdx (volumes.findIdx fun other => info.number ≤ other.number) info).Pairwise
      fun info other => info.number < other.number := by
  induction volumes with
  | nil => exact List.pairwise_singleton _ _
  | cons v volumes ih =>
    rw [List.pairwise_cons] at h
    rw [List.findIdx_cons] at hnew ⊢
    by_cases hle : info.number ≤ v.number
    · simp only [hle, decide_true, cond_true] at hnew ⊢
      have hlt : info.number < v.number := hnew v rfl
      rw [List.insertIdx_zero, List.pairwise_cons, List.pairwise_cons]
      refine ⟨fun other hother => ?_, h⟩
      rcases List.mem_cons.mp hother with rfl | hother
      · exact hlt
      · exact Nat.lt_trans hlt (h.1 other hother)
    · simp only [hle, decide_false, cond_false] at hnew ⊢
      rw [List.insertIdx_succ_cons, List.pairwise_cons]
      refine ⟨fun other hother => ?_, ih h.2 hnew⟩
      rcases List.eq_or_mem_of_mem_insertIdx hother with rfl | hother
      · omega
      · exact h.1 other hother

theorem of_addVolume {volumes volumes' : List VolumeInfo} {info : VolumeInfo} {idx : ℕ}
    (h : addVolume volumes info = some (idx, volumes')) : volumes' = volumes.insertIdx idx info ∧
      ((volumes.Pairwise fun info other => info.number < other.number) →
        volumes'.Pairwise fun info other => info.number < other.number) := by
  unfold addVolume at h
  dsimp only at h
  split at h
  · next hnew =>
    cases h
    exact ⟨rfl, fun h => addVolume_sorted h hnew⟩
  · cases h

theorem of_addToList {items items' : FlatList DeviceItemData} {id : ℕ} {name usbPort : String}
    (h : SortedDevices (items.map (·.data))) (hadd : addToList items id name usbPort = some items') :
    SortedDevices (items'.map (·.data)) ∧ items' = items ++ [⟨.invalid, id, name, usbPort, []⟩] := by
  unfold addToList at hadd
  split at hadd
  · cases hadd
  · next hnew =>
    cases hadd
    refine ⟨⟨?_, fun device hdevice => ?_⟩, rfl⟩
    · rw [FlatList.appendUnsorted, List.map_append, List.map_append]
      refine List.nodup_append.mpr ⟨h.ids, List.pairwise_singleton _ _, fun i hi j hj e => hnew ?_⟩
      obtain ⟨device, hdevice, rfl⟩ := List.mem_map.mp hi
      obtain ⟨item, hitem, rfl⟩ := List.mem_map.mp hdevice
      simp only [List.map_cons, List.map_nil, List.mem_singleton] at hj
      exact List.any_eq_true.mpr ⟨item, hitem, by simpa using e.trans hj⟩
    · rw [FlatList.appendUnsorted, List.map_append] at hdevice
      rcases List.mem_append.mp hdevice with hdevice | hdevice
      · exact h.volumes device hdevice
      · rw [List.map_cons, List.map_nil, List.mem_singleton] at hdevice
        subst hdevice
        exact .nil

theorem sorted_withVolumes {items : FlatList DeviceItemData} {idx : ℕ} {device : DeviceItemData} {id : ℕ}
    {volumes : List VolumeInfo} (h : SortedDevices (items.map (·.data)))
    (hdevice : getDeviceById items id = some (idx, device))
    (hsorted : (device.volumes.Pairwise fun info other => info.number < other.number) →
      volumes.Pairwise fun info other => info.number < other.number) :
    SortedDevices ((withVolumes items idx volumes).map (·.data)) := by
  obtain ⟨child, hitem, -⟩ := of_getDeviceById hdevice
  have hmap : ((withVolumes items idx volumes).map (·.data)).map (·.devId) = (items.map (·.data)).map (·.devId) := by
    rw [List.map_map, List.map_map]
    exact map_devId_withVolumes ..
  refine ⟨hmap ▸ h.ids, fun d hd => ?_⟩
  obtain ⟨item, hitem', rfl⟩ := List.mem_map.mp hd
  rcases mem_withVolumes hitem hitem' with rfl | hmem
  · exact hsorted (h.volumes device (List.mem_map.mpr ⟨_, List.mem_of_getElem? hitem, rfl⟩))
  · exact h.volumes _ (List.mem_map.mpr ⟨item, hmem, rfl⟩)

/-- Where there is a link, it is the link of an item. -/
theorem getElem?_of_getD_isValid {links : List ListId} {idx : ℕ} (h : (links[idx]?.getD .invalid).isValid = true) :
    links[idx]? = some (links[idx]?.getD .invalid) := by
  cases e : links[idx]? with
  | none =>
    rw [e] at h
    cases h
  | some child => rfl

theorem mirrors_iff {items : FlatList DeviceItemData} (hlist : s.lists S.deviceList = .devices items) :
    s.Mirrors S ↔ ∀ item ∈ items, ∀ p ∈ s.shelf.cached, s.shelf.id p = item.child →
      (s.lists p).bare = .volumes (fillVolumeList item.data) := by
  unfold Mirrors
  simp only [hlist, UsbList.deviceData, UsbList.links, FlatList.links, List.getElem?_map, Option.map_eq_some_iff]
  constructor
  · intro h item hitem p hp hid
    obtain ⟨idx, hlt, rfl⟩ := List.getElem_of_mem hitem
    exact h idx _ ⟨_, List.getElem?_eq_getElem hlt, rfl⟩ p hp ⟨_, List.getElem?_eq_getElem hlt, hid.symm⟩
  · rintro h idx _ ⟨item, hitem, rfl⟩ p hp ⟨item', hitem', hid⟩
    obtain rfl := Option.some.inj (hitem.symm.trans hitem')
    exact h item (List.mem_of_getElem? hitem) p hp hid.symm

/-- The items of the device list are replaced by others that are linked to the same lists, or to none. -/
theorem Sound.mirrors_setDevices [DecidableEq P] (h : s.Sound S X) {items items' : FlatList DeviceItemData}
    (hlist : s.lists S.deviceList = .devices items)
    (hitems : ∀ item ∈ items', item.child.isValid = true → item ∈ items) :
    (s.setList S.deviceList (.devices items')).Mirrors S := by
  rw [mirrors_iff (show (s.setList S.deviceList (.devices items')).lists S.deviceList = .devices items' from
    Function.update_self ..)]
  intro item hitem p hp hid
  have hbare := (mirrors_iff hlist).mp h.mirrors item
    (hitems item hitem (hid ▸ h.booked.labelled.valid p hp)) p hp hid
  have hne : p ≠ S.deviceList := fun e => by
    rw [e, hlist] at hbare
    cases hbare
  simpa only [UsbTree.setList, Function.update_of_ne hne] using hbare

/-- The items of the device list are replaced, but no links are added. -/
theorem Sound.setDevices [DecidableEq P] (h : s.Sound S X) {items items' : FlatList DeviceItemData}
    (hlist : s.lists S.deviceList = .devices items)
    (hperm : ((FlatList.links items').filter ListId.isValid).Perm ((FlatList.links items).filter ListId.isValid))
    (hitems : ∀ item ∈ items', item.child.isValid = true → item ∈ items)
    (hsorted : SortedDevices (items'.map (·.data))) : (s.setList S.deviceList (.devices items')).Sound S X := by
  refine h.setList ?_ (fun _ _ => rfl) (h.mirrors_setDevices hlist hitems) ?_
  · rw [children, hlist]
    exact hperm
  · rw [show (s.setList S.deviceList (.devices items')).lists S.deviceList =
      .devices items' from Function.update_self ..]
    exact hsorted

theorem Sound.sorted_items (h : s.Sound S X) {items : FlatList DeviceItemData}
    (hlist : s.lists S.deviceList = .devices items) : SortedDevices (items.map (·.data)) := by
  have := h.sorted
  rwa [hlist] at this

/-- Devices that do not link to lists. -/
def Unlinked (items : FlatList DeviceItemData) : Prop :=
  SortedDevices (items.map (·.data)) ∧ ∀ item ∈ items, item.child = .invalid

theorem fillListFromMountaData_unlinked (devices : List (ℕ × String × String)) (volumes : List (ℕ × VolumeInfo)) :
    Unlinked (fillListFromMountaData devices volumes) := by
  unfold fillListFromMountaData
  refine List.foldlRecOn (motive := Unlinked) volumes addKnownVolume
    (List.foldlRecOn (motive := Unlinked) devices _ ⟨⟨by simp, by simp⟩, by simp⟩ ?_) ?_
  · rintro items ⟨hsorted, hlinks⟩ device -
    cases hadd : addToList items device.1 device.2.1 device.2.2 with
    | none => exact ⟨hsorted, hlinks⟩
    | some items' =>
      obtain ⟨hsorted, rfl⟩ := of_addToList hsorted hadd
      refine ⟨hsorted, fun item hitem => ?_⟩
      rcases List.mem_append.mp hitem with hitem | hitem
      · exact hlinks item hitem
      · rw [List.mem_singleton.mp hitem]
  · rintro items ⟨hsorted, hlinks⟩ known -
    unfold addKnownVolume
    split
    · exact ⟨hsorted, hlinks⟩
    · split
      · exact ⟨hsorted, hlinks⟩
      · next idx device hdevice =>
        split
        · exact ⟨hsorted, hlinks⟩
        · next hadd =>
          obtain ⟨child, hitem, -⟩ := of_getDeviceById hdevice
          refine ⟨sorted_withVolumes hsorted hdevice (of_addVolume hadd).2, fun item hmem => ?_⟩
          rcases mem_withVolumes hitem hmem with rfl | hmem
          · exact (hlinks _ (List.mem_of_getElem? hitem) :)
          · exact hlinks item hmem

/-! ## Signals -/

/-- What is found under the ID of the device list is the device list, also after lists have been discarded. -/
theorem Sound.root_of_find (h : s.Sound S X) (hshrunk : Shrunk s s')
    (hfind : s.shelf.find s.devicesListId = some S.deviceList) :
    ∀ p, s'.shelf.find s'.devicesListId = some p → p = S.deviceList := fun p hp => by
  obtain ⟨hcached, hid⟩ := Shelf.mem_of_find hfind
  obtain ⟨hcached', hid'⟩ := Shelf.mem_of_find hp
  rw [hshrunk.id, hshrunk.devicesListId, ← hid] at hid'
  exact h.booked.labelled.ids p (hshrunk.cached p hcached') S.deviceList hcached hid'

theorem Sound.newUsbDevice [DecidableEq P] {id : ℕ} {name usbPort : String} (h : s.Sound S X)
    (hr : s.newUsbDevice S a id name usbPort = .ok s') : s'.Sound S X := by
  unfold UsbTree.newUsbDevice at hr
  obtain ⟨⟨list, items⟩, hget, hr⟩ := bind_eq_ok hr
  obtain ⟨hfind, hitems⟩ := of_getListOfUsbDevices hget
  obtain rfl := h.devices list items hitems
  dsimp only at hr
  split at hr
  · cases hr
    exact h
  · next items' hadd =>
    obtain ⟨hsorted, rfl⟩ := of_addToList (h.sorted_items hitems) hadd
    refine (h.setDevices hitems ?_ (fun item hitem hvalid => ?_) hsorted).reinsertDeviceList (fun p hp => ?_) hr
    · simp [FlatList.links]
    · rcases List.mem_append.mp hitem with hitem | hitem
      · exact hitem
      · rw [List.mem_singleton.mp hitem] at hvalid
        cases hvalid
    · exact Option.some.inj (hp.symm.trans hfind)

/-- An item loses its link, and the list is cached still. -/
theorem Sound.unlink [DecidableEq P] {items : UsbList} (h : s.Sound S X) (hp : p ∈ s.shelf.cached)
    (hne : p ≠ S.deviceList) (hperm : (s.children q).Perm (s.shelf.id p :: items.children))
    (hdevices : ∀ devices, items = .devices devices → q = S.deviceList) (hm : (s.setList q items).Mirrors S)
    (hsorted : SortedDevices ((s.setList q items).lists S.deviceList).deviceData) :
    (s.setList q items).Sound S (insert p X) := by
  refine ⟨h.booked.unlink (q := q) hp hne ?_ fun r e => ?_, fun r devices hr => ?_, hm, hsorted⟩
  · simpa only [children, UsbTree.setList, Function.update_self] using hperm
  · simp only [children, UsbTree.setList, Function.update_of_ne e, List.Perm.refl]
  · by_cases e : r = q
    · subst e
      exact hdevices devices (by simpa only [UsbTree.setList, Function.update_self] using hr)
    · exact h.devices r devices (by simpa only [UsbTree.setList, Function.update_of_ne e] using hr)

theorem children_insertBefore (volumes : FlatList VolumeItemData) (idx : ℕ) (volume : VolumeItemData) :
    (UsbList.volumes (FlatList.insertBefore volumes idx volume)).children.Perm (UsbList.volumes volumes).children := by
  rw [UsbList.children, UsbList.children, UsbList.links, UsbList.links, FlatList.links_insertBefore]
  by_cases hle : idx ≤ (FlatList.links volumes).length
  · have := (List.perm_insertIdx (ListId.invalid) (FlatList.links volumes) hle).filter ListId.isValid
    rwa [List.filter_cons_of_neg (by decide)] at this
  · rw [List.insertIdx_of_length_lt (by omega)]

/-- Adding a volume to a list of volumes, and to the device that the list is made of. -/
theorem bare_insertBefore {volumes : FlatList VolumeItemData} {device : DeviceItemData}
    (h : FlatList.bare volumes = fillVolumeList device) (idx : ℕ) (info : VolumeInfo) :
    FlatList.bare (FlatList.insertBefore volumes idx ⟨device.devId, info.number⟩) =
      fillVolumeList { device with volumes := device.volumes.insertIdx idx info } := by
  have hbare : FlatList.bare (FlatList.insertBefore volumes idx ⟨device.devId, info.number⟩) =
      (FlatList.bare volumes).insertIdx idx ⟨.invalid, device.devId, info.number⟩ := by
    simp [FlatList.bare, FlatList.insertBefore, List.map_insertIdx]
  rw [hbare, h]
  simp [fillVolumeList, List.map_insertIdx]

/-- The state in which the list of volumes is inserted again: the volume has been added to the device and to the
list, and the device does not link to the list. -/
theorem Sound.addVolume [DecidableEq P] {items : FlatList DeviceItemData}
    {volumes volumes' : FlatList VolumeItemData} {idx : ℕ} {device : DeviceItemData} (device' : DeviceItemData)
    (h : s.Sound S X) (hitems : s.lists S.deviceList = .devices items)
    (hitem : items[idx]? = some ⟨s.shelf.id p, device⟩) (hp : p ∈ s.shelf.cached)
    (hvolumes : s.lists p = .volumes volumes)
    (hperm : (UsbList.volumes volumes').children.Perm (UsbList.volumes volumes).children)
    (hsorted : SortedDevices ((items.set idx ⟨.invalid, device'⟩).map (·.data))) :
    ((s.setList p (.volumes volumes')).setList S.deviceList (.devices (items.set idx ⟨.invalid, device'⟩))).Sound S
      (insert p X) := by
  have hne : p ≠ S.deviceList := fun e => by
    rw [e, hitems] at hvolumes
    cases hvolumes
  have hvalid := h.booked.labelled.valid p hp
  have hlink : (s.lists S.deviceList).links[idx]? = some (s.shelf.id p) := by
    rw [hitems, UsbList.links, FlatList.links, List.getElem?_map, hitem]
    rfl
  have hchildren : (UsbList.devices (items.set idx ⟨.invalid, device'⟩)).children =
      ((s.lists S.deviceList).setLink idx .invalid).children := by
    rw [UsbList.children, UsbList.children, UsbList.links_setLink, hitems, UsbList.links, UsbList.links, FlatList.links,
      FlatList.links, List.map_set]
  generalize hs₁ : (s.setList p (.volumes volumes')).setList S.deviceList
    (.devices (items.set idx ⟨.invalid, device'⟩)) = s₁
  have hother : ∀ q, q ≠ p → q ≠ S.deviceList → s₁.lists q = s.lists q := fun q hqp hq => by
    rw [← hs₁]
    simp only [UsbTree.setList, Function.update_of_ne hq, Function.update_of_ne hqp]
  have hlist₁ : s₁.lists S.deviceList = .devices (items.set idx ⟨.invalid, device'⟩) := by
    rw [← hs₁]
    exact Function.update_self ..
  have hlist₁p : s₁.lists p = .volumes volumes' := by
    rw [← hs₁]
    simp only [UsbTree.setList, Function.update_of_ne hne, Function.update_self]
  have hshelf₁ : s₁.shelf = s.shelf := by rw [← hs₁]; rfl
  have hbooked : Booked S.forest S.deviceList (insert p X) s₁.shelf s₁.children [] := by
    rw [hshelf₁]
    refine h.booked.unlink (q := S.deviceList) hp hne ?_ fun q hq => ?_
    · rw [children, children, hlist₁, hchildren]
      exact UsbList.children_unlink hlink hvalid
    · by_cases e : q = p
      · rw [children, children, e, hlist₁p, hvolumes]
        exact hperm.symm
      · rw [children, children, hother q e hq]
  refine ⟨hbooked, fun q devices hq => ?_, ?_, by rw [hlist₁]; exact hsorted⟩
  · by_cases e : q = S.deviceList
    · exact e
    · by_cases e' : q = p
      · rw [e', hlist₁p] at hq
        cases hq
      · exact h.devices q devices (by rwa [hother q e' e] at hq)
  · rw [mirrors_iff hlist₁]
    intro item hmem r hr hid
    have hr' : r ∈ s.shelf.cached := by rwa [hshelf₁] at hr
    obtain ⟨j, hj, hget⟩ := List.getElem_of_mem hmem
    have hlink₁ : (s₁.lists S.deviceList).links[j]? = some (s₁.shelf.id r) := by
      rw [hlist₁, UsbList.links, FlatList.links, List.getElem?_map, List.getElem?_eq_getElem hj, hget, hid]
      rfl
    have hrp : r ≠ p := fun e => not_linked hbooked hr (.inl e) _ j hlink₁
    have hne' : idx ≠ j := fun e => by
      subst e
      rw [List.getElem_set_self] at hget
      have := hbooked.labelled.valid r hr
      rw [hid, ← hget] at this
      cases this
    rw [List.getElem_set_ne hne'] at hget
    have hbare := (mirrors_iff hitems).mp h.mirrors item (hget ▸ List.getElem_mem _) r hr' (by rwa [hshelf₁] at hid)
    have hrl : r ≠ S.deviceList := fun e => by
      rw [e, hitems] at hbare
      cases hbare
    rw [hother r hrp hrl]
    exact hbare

theorem map_data_of_bare {volumes : FlatList VolumeItemData} {device : DeviceItemData}
    (h : FlatList.bare volumes = fillVolumeList device) :
    volumes.map (·.data) = device.volumes.map fun info => ⟨device.devId, info.number⟩ := by
  have := congrArg (List.map (·.data)) h
  simpa [FlatList.bare, fillVolumeList, Function.comp_def] using this

/-- No volume is in the list twice. -/
theorem nodup_of_bare {volumes : FlatList VolumeItemData} {device : DeviceItemData}
    (h : FlatList.bare volumes = fillVolumeList device)
    (hsorted : device.volumes.Pairwise fun info other => info.number < other.number) :
    (volumes.map (·.data)).Nodup := by
  rw [map_data_of_bare h]
  refine List.pairwise_map.mpr (hsorted.imp fun {info other} hlt e => ?_)
  have := congrArg VolumeItemData.number e
  dsimp only at this
  omega

/-- Lists of volumes keep their items, with the links of these, and a list that is changed has no volume twice. -/
def KeepsItems (s s' : UsbTree P) : Prop :=
  ∀ p volumes, s.lists p = .volumes volumes → ∃ volumes', s'.lists p = .volumes volumes' ∧ volumes.Sublist volumes' ∧
    (volumes' = volumes ∨ (volumes'.map (·.data)).Nodup)

theorem keepsItems_refl (s : UsbTree P) : KeepsItems s s := fun _ volumes hp => ⟨volumes, hp, .refl _, .inl rfl⟩

/-- A link that does not lead to a cached list is invalid. -/
theorem Sound.link_invalid_of_find (h : s.Sound S X) {idx : ℕ} {child : ListId}
    (hlink : (s.lists q).links[idx]? = some child)
    (hnone : (if child.isValid then s.shelf.find child else none) = none) : child.isValid = false := by
  by_contra hvalid
  have hvalid : child.isValid = true := by simpa using hvalid
  rw [if_pos hvalid] at hnone
  obtain ⟨r, hr, -, e⟩ := h.booked.sound q child (List.mem_filter.mpr ⟨List.mem_of_getElem? hlink, hvalid⟩)
  exact Shelf.find_eq_none.mp hnone r hr e

/-- A device whose list of volumes is not cached gets other volumes. -/
theorem Sound.setVolumes_unlisted [DecidableEq P] {items : FlatList DeviceItemData} {idx : ℕ} {child : ListId}
    {device : DeviceItemData} {volumes : List VolumeInfo} (h : s.Sound S X)
    (hitems : s.lists S.deviceList = .devices items) (hitem : items[idx]? = some ⟨child, device⟩)
    (hinvalid : child.isValid = false) (hsorted : SortedDevices ((withVolumes items idx volumes).map (·.data))) :
    (s.setList S.deviceList (.devices (withVolumes items idx volumes))).Sound S X := by
  refine h.setDevices hitems (by rw [links_withVolumes]) (fun item hmem hvalid => ?_) hsorted
  rcases mem_withVolumes hitem hmem with e | e
  · rw [e, hinvalid] at hvalid
    cases hvalid
  · exact e

/-- A list to which nothing links gets a new ID, and the item links to it again. -/
theorem Sound.relink [DecidableEq P] {this : P} {item : ℕ} {r : ListId × UsbTree P} (h : s.Sound S X)
    (hp : p ∈ s.shelf.cached) (hx : p ∈ X) (hpar : S.forest.parent p = some this)
    (hlink : (s.lists this).links[item]? = some ListId.invalid)
    (hfilled : ∀ device, (s.lists this).deviceData[item]? = some device →
      (s.lists p).bare = .volumes (fillVolumeList device))
    (hreinsert : s.reinsertList S a (s.shelf.id p) = .ok r) (hset : r.2.setChildList S this item r.1 = .ok s') :
    s'.Sound S (X \ {p}) ∧ ∀ q, q ≠ this → s'.lists q = s.lists q := by
  obtain ⟨h₁, hid, hcached, hlists⟩ := h.reinsertList hp (.inr hx) (h.booked.unlinked p hp hx).1 hreinsert
  rw [← hid] at hset
  rw [← hlists] at hlink hfilled ⊢
  refine ⟨h₁.setChildList hcached hx hpar hlink rfl hfilled hset, fun q hq => ?_⟩
  unfold UsbTree.setChildList at hset
  obtain ⟨-, hset⟩ := of_assert hset
  obtain ⟨-, hset⟩ := of_assert hset
  cases hset
  exact Function.update_of_ne hq ..

/-- The device gets the volumes and loses its link, in either order. -/
theorem setLink_setList_withVolumes [DecidableEq P] {items : FlatList DeviceItemData} {idx : ℕ} {child : ListId}
    {device : DeviceItemData} (hitem : items[idx]? = some ⟨child, device⟩) (hne : p ≠ S.deviceList)
    (infos : List VolumeInfo) (volumes : FlatList VolumeItemData) {s₁ : UsbTree P}
    (hs₁ : s₁ = (s.setList S.deviceList (.devices (withVolumes items idx infos))).setList p (.volumes volumes)) :
    s₁.setList S.deviceList ((s₁.lists S.deviceList).setLink idx .invalid) = (s.setList p (.volumes volumes)).setList
      S.deviceList (.devices (items.set idx ⟨.invalid, { device with volumes := infos }⟩)) := by
  subst hs₁
  simp only [UsbTree.setList, Function.update_of_ne hne.symm, Function.update_self, UsbList.setLink,
    setLink_withVolumes hitem]
  rw [Function.update_comm hne.symm, Function.update_idem]

/-- The list of volumes of a device is cached: it gets the volume that the device has got already, and a new ID. -/
theorem Sound.addVolume_reinserted [DecidableEq P] {items : FlatList DeviceItemData} {idx addedAtIndex : ℕ}
    {device : DeviceItemData} {info : VolumeInfo} {volumes : FlatList VolumeItemData} {r : ListId × UsbTree P}
    {s₁ : UsbTree P} (h : s.Sound S X) (hitems : s.lists S.deviceList = .devices items)
    (hitem : items[idx]? = some ⟨s.shelf.id p, device⟩) (hp : p ∈ s.shelf.cached)
    (hvolumes : s.lists p = .volumes volumes) (hbare : FlatList.bare volumes = fillVolumeList device)
    (hsorted : SortedDevices ((withVolumes items idx (device.volumes.insertIdx addedAtIndex info)).map (·.data)))
    (hs₁ : s₁ = (s.setList p (.volumes (FlatList.insertBefore volumes addedAtIndex
      ⟨device.devId, info.number⟩))).setList S.deviceList (.devices (items.set idx
        ⟨.invalid, { device with volumes := device.volumes.insertIdx addedAtIndex info }⟩)))
    (hreinsert : s₁.reinsertList S a (s₁.shelf.id p) = .ok r)
    (hset : r.2.setChildList S S.deviceList idx r.1 = .ok s') :
    s'.Sound S (insert p X \ {p}) ∧ ∀ q, q ≠ S.deviceList → s'.lists q = Function.update s.lists p
      (.volumes (FlatList.insertBefore volumes addedAtIndex ⟨device.devId, info.number⟩)) q := by
  have hne : p ≠ S.deviceList := fun e => by
    rw [e, hitems] at hvolumes
    cases hvolumes
  have hlt : idx < items.length := (List.getElem?_eq_some_iff.mp hitem).1
  have h₁ : s₁.Sound S (insert p X) := hs₁ ▸ Sound.addVolume _ h hitems hitem hp hvolumes
    (children_insertBefore volumes addedAtIndex ⟨device.devId, info.number⟩)
    (by rwa [← setLink_withVolumes hitem, map_data_setLink])
  have hlist : s₁.lists S.deviceList = .devices (items.set idx
      ⟨.invalid, { device with volumes := device.volumes.insertIdx addedAtIndex info }⟩) := by
    rw [hs₁]
    exact Function.update_self ..
  have hother : ∀ q, q ≠ S.deviceList → s₁.lists q = Function.update s.lists p
      (.volumes (FlatList.insertBefore volumes addedAtIndex ⟨device.devId, info.number⟩)) q := fun q hq => by
    rw [hs₁]
    simp only [UsbTree.setList, Function.update_of_ne hq]
  have hpar : S.forest.parent p = some S.deviceList :=
    h.booked.eq_of_mem hp (List.mem_filter.mpr ⟨List.mem_of_getElem? (i := idx) (by
      rw [hitems, UsbList.links, FlatList.links, List.getElem?_map, hitem]
      rfl), h.booked.labelled.valid p hp⟩)
  obtain ⟨h', hlists⟩ := h₁.relink (by rw [hs₁]; exact hp) (.inl rfl) hpar (by
      rw [hlist, UsbList.links, FlatList.links, List.getElem?_map, List.getElem?_set_self hlt]
      rfl)
    (fun device' hdevice' => by
      rw [hlist, UsbList.deviceData, List.getElem?_map, List.getElem?_set_self hlt] at hdevice'
      cases hdevice'
      rw [hother p hne, Function.update_self, UsbList.bare, bare_insertBefore hbare])
    hreinsert hset
  exact ⟨h', fun q hq => (hlists q hq).trans (hother q hq)⟩

/-- The list of volumes gets a volume that the device has got already. -/
theorem Sound.reinsertVolumeList [DecidableEq P] {items : FlatList DeviceItemData} {deviceId idx addedAtIndex : ℕ}
    {device : DeviceItemData} (info : VolumeInfo) (h : s.Sound S X)
    (hfind : s.shelf.find s.devicesListId = some S.deviceList) (hitems : s.lists S.deviceList = .devices items)
    (hdevice : getDeviceById items deviceId = some (idx, device))
    (hsorted : (device.volumes.Pairwise fun info other => info.number < other.number) →
      (device.volumes.insertIdx addedAtIndex info).Pairwise fun info other => info.number < other.number)
    (hr : (s.setList S.deviceList
        (.devices (withVolumes items idx (device.volumes.insertIdx addedAtIndex info)))).reinsertVolumeList
      S a deviceId info.number addedAtIndex = .ok s') :
    (∃ X', s'.Sound S X' ∧ X' ⊆ X) ∧ KeepsItems s s' := by
  obtain ⟨child, hitem, hid⟩ := of_getDeviceById hdevice
  have hne : ∀ p volumes, s.lists p = .volumes volumes → p ≠ S.deviceList := fun p volumes hp e => by
    rw [e, hitems] at hp
    cases hp
  have hsorted₁ := sorted_withVolumes (h.sorted_items hitems) hdevice hsorted
  unfold UsbTree.reinsertVolumeList at hr
  obtain ⟨⟨list, items'⟩, hget, hr⟩ := bind_eq_ok hr
  obtain ⟨hfind', hitems'⟩ := of_getListOfUsbDevices hget
  obtain rfl : list = S.deviceList := Option.some.inj (hfind'.symm.trans hfind)
  obtain rfl : withVolumes items idx (device.volumes.insertIdx addedAtIndex info) = items' := by
    simpa [UsbTree.setList] using hitems'
  dsimp only at hr
  rw [getDeviceById_withVolumes hdevice] at hr
  dsimp only at hr
  have hlink : (FlatList.links items)[idx]? = some child := by
    rw [FlatList.links, List.getElem?_map, hitem]
    rfl
  rw [links_withVolumes, hlink, Option.getD_some] at hr
  split at hr
  · next hnone =>
    cases hr
    have hinvalid := h.link_invalid_of_find (q := S.deviceList) (by rw [hitems]; exact hlink) hnone
    refine ⟨⟨X, h.setVolumes_unlisted hitems hitem hinvalid hsorted₁, .rfl⟩,
      fun p volumes hp => ⟨volumes, ?_, .refl _, .inl rfl⟩⟩
    simpa only [UsbTree.setList, Function.update_of_ne (hne p volumes hp)] using hp
  · next p hp =>
    split at hp
    swap
    · cases hp
    obtain ⟨hcached, rfl⟩ := Shelf.mem_of_find hp
    have hbare := (mirrors_iff hitems).mp h.mirrors _ (List.mem_of_getElem? hitem) p hcached rfl
    cases hvolumes : s.lists p with
    | devices _ => rw [hvolumes] at hbare; cases hbare
    | dir _ => rw [hvolumes] at hbare; cases hbare
    | volumes volumes =>
      rw [hvolumes, UsbList.bare] at hbare
      have hbare := UsbList.volumes.inj hbare
      rw [show (s.setList S.deviceList (.devices (withVolumes items idx
        (device.volumes.insertIdx addedAtIndex info)))).lists p = .volumes volumes
        by rw [← hvolumes]; exact Function.update_of_ne (hne p volumes hvolumes) ..] at hr
      dsimp only at hr
      rw [← hid, setLink_setList_withVolumes hitem (hne p volumes hvolumes) _ _ rfl] at hr
      obtain ⟨r, hreinsert, hset⟩ := bind_eq_ok hr
      obtain ⟨h', hlists⟩ := h.addVolume_reinserted hitems hitem hcached hvolumes hbare hsorted₁ rfl hreinsert hset
      refine ⟨⟨_, h', fun q hq => hq.1.resolve_left hq.2⟩, fun q volumes' hq => ?_⟩
      rw [hlists q (hne q volumes' hq)]
      by_cases e : q = p
      · subst e
        obtain rfl : volumes = volumes' := UsbList.volumes.inj (hvolumes.symm.trans hq)
        have hsorted' := hsorted
          ((h.sorted_items hitems).volumes device (List.mem_map.mpr ⟨_, List.mem_of_getElem? hitem, rfl⟩))
        exact ⟨_, Function.update_self .., List.sublist_insertIdx ..,
          .inr (nodup_of_bare (bare_insertBefore hbare addedAtIndex info) hsorted')⟩
      · exact ⟨volumes', by rw [Function.update_of_ne e, hq], .refl _, .inl rfl⟩

/-- The signal `NewVolume`. -/
theorem Sound.newVolume [DecidableEq P] {number deviceId : ℕ} {label mountpoint : String} (h : s.Sound S X)
    (hr : s.newVolume S a number label mountpoint deviceId = .ok s') :
    (∃ X', s'.Sound S X' ∧ X' ⊆ X) ∧ KeepsItems s s' := by
  unfold UsbTree.newVolume at hr
  obtain ⟨⟨list, items⟩, hget, hr⟩ := bind_eq_ok hr
  obtain ⟨hfind, hitems⟩ := of_getListOfUsbDevices hget
  obtain rfl := h.devices list items hitems
  dsimp only at hr
  split at hr
  · cases hr
    exact ⟨⟨X, h, .rfl⟩, keepsItems_refl s⟩
  · next idx device hdevice =>
    split at hr
    · cases hr
      exact ⟨⟨X, h, .rfl⟩, keepsItems_refl s⟩
    · next addedAtIndex infos hadd =>
      obtain ⟨rfl, hsorted⟩ := of_addVolume hadd
      exact h.reinsertVolumeList ⟨number, label, mountpoint⟩ hfind hitems hdevice hsorted hr

/-- Removing the tree below a list that is linked no more. -/
theorem Sound.purgeSubtree [DecidableEq P] (h : s.Sound S X) (hp : p ∈ s.shelf.cached)
    (hr : s.purgeSubtree S a (s.shelf.id p) .invalid .ok = .ok s') : s'.Sound S (X \ {p}) ∧ Shrunk s s' := by
  unfold UsbTree.purgeSubtree at hr
  rw [if_pos (h.booked.labelled.valid p hp), h.booked.labelled.find_id hp] at hr
  obtain ⟨killList, hkill, hr⟩ := bind_eq_ok hr
  rw [if_pos (by decide)] at hr
  obtain ⟨s₁, hs₁, hr⟩ := bind_eq_ok hr
  cases hs₁
  obtain ⟨hsorted, hr⟩ := of_possible hr
  cases hr
  obtain ⟨hsound, hgone⟩ := h.purgeEntries (a := a) (a.toposortForPurge killList)
  have hshrunk := purgeEntries_shrunk (S := S) (a := a) (a.toposortForPurge killList) s
  exact ⟨⟨hsound.booked.of_not_mem fun hmem =>
    hgone p hmem (hsorted.mem_iff.mpr (enumerateTreeOfSublists_head hkill)), hsound.devices, hsound.mirrors,
    hsound.sorted⟩, hshrunk⟩

/-- The devices but one. -/
theorem Sound.sorted_eraseIdx {items : FlatList DeviceItemData} (h : s.Sound S X)
    (hitems : s.lists S.deviceList = .devices items) (idx : ℕ) : SortedDevices ((items.eraseIdx idx).map (·.data)) := by
  have hsub := (List.eraseIdx_sublist items idx).map (·.data)
  exact ⟨(h.sorted_items hitems).ids.sublist (hsub.map _), fun device hdevice =>
    (h.sorted_items hitems).volumes device (hsub.subset hdevice)⟩

/-- A device that links to a list is removed. The list is not linked any more. -/
theorem Sound.eraseDevice_linked [DecidableEq P] {items : FlatList DeviceItemData} {idx : ℕ} (h : s.Sound S X)
    (hitems : s.lists S.deviceList = .devices items)
    (hvalid : ((FlatList.links items)[idx]?.getD .invalid).isValid = true) :
    ∃ p ∈ s.shelf.cached, S.forest.parent p = some S.deviceList ∧
      s.shelf.id p = (FlatList.links items)[idx]?.getD .invalid ∧
      (s.setList S.deviceList (.devices (items.eraseIdx idx))).Sound S (insert p X) := by
  have hlink := getElem?_of_getD_isValid hvalid
  generalize (FlatList.links items)[idx]?.getD .invalid = child at hvalid hlink ⊢
  have hlink' : (s.lists S.deviceList).links[idx]? = some child := by rw [hitems]; exact hlink
  obtain ⟨p, hp, hpar, rfl⟩ := h.booked.sound S.deviceList child
    (List.mem_filter.mpr ⟨List.mem_of_getElem? hlink', hvalid⟩)
  have hne : p ≠ S.deviceList := fun e => by
    rw [e, S.root] at hpar
    cases hpar
  refine ⟨p, hp, hpar, rfl, ?_⟩
  refine h.unlink hp hne ?_ (fun _ _ => rfl)
    (h.mirrors_setDevices hitems fun item hitem _ => List.mem_of_mem_eraseIdx hitem)
    (by simpa only [UsbTree.setList, Function.update_self, UsbList.deviceData] using h.sorted_eraseIdx hitems idx)
  obtain ⟨hlt, hget⟩ := List.getElem?_eq_some_iff.mp hlink
  rw [children, hitems, UsbList.children, UsbList.children, UsbList.links, UsbList.links, FlatList.links_eraseIdx,
    ← List.filter_cons_of_pos hvalid, ← hget]
  exact ((List.getElem_cons_eraseIdx_perm hlt).symm).filter _

/-- A device that links to no list is removed. -/
theorem Sound.eraseDevice_unlinked [DecidableEq P] {items : FlatList DeviceItemData} {idx : ℕ} (h : s.Sound S X)
    (hitems : s.lists S.deviceList = .devices items)
    (hinvalid : ¬ ((FlatList.links items)[idx]?.getD .invalid).isValid = true) :
    (s.setList S.deviceList (.devices (items.eraseIdx idx))).Sound S X := by
  refine h.setDevices hitems ?_ (fun item hitem _ => List.mem_of_mem_eraseIdx hitem) (h.sorted_eraseIdx hitems idx)
  rw [FlatList.links_eraseIdx]
  by_cases hlt : idx < (FlatList.links items).length
  · have hperm := (List.getElem_cons_eraseIdx_perm hlt).filter ListId.isValid
    rw [List.filter_cons_of_neg] at hperm
    · exact hperm
    · rw [List.getElem?_eq_getElem hlt] at hinvalid
      simpa using hinvalid
  · rw [List.eraseIdx_of_length_le (by omega)]

theorem Sound.deviceRemoved [DecidableEq P] {id : ℕ} (h : s.Sound S X) (hr : s.deviceRemoved S a id = .ok s') :
    ∃ X', s'.Sound S X' ∧ X' ⊆ X := by
  unfold UsbTree.deviceRemoved at hr
  obtain ⟨⟨list, items⟩, hget, hr⟩ := bind_eq_ok hr
  obtain ⟨hfind, hitems⟩ := of_getListOfUsbDevices hget
  obtain rfl := h.devices list items hitems
  dsimp only at hr
  split at hr
  · cases hr
    exact ⟨X, h, .rfl⟩
  · next idx device hdevice =>
    unfold purgeDeviceSubtreeAndReinsertDeviceList at hr
    split at hr
    · next hvalid =>
      obtain ⟨p, hp, -, hid, h₁⟩ := h.eraseDevice_linked hitems hvalid
      rw [← hid] at hr
      obtain ⟨-, hr⟩ := of_assert hr
      obtain ⟨-, hr⟩ := of_assert hr
      obtain ⟨s₂, hpurge, hr⟩ := bind_eq_ok hr
      obtain ⟨h₂, hshrunk⟩ := h₁.purgeSubtree hp hpurge
      exact ⟨_, h₂.reinsertDeviceList (h₁.root_of_find hshrunk hfind) hr, fun q hq => hq.1.resolve_left hq.2⟩
    · next hinvalid =>
      exact ⟨X, (h.eraseDevice_unlinked hitems hinvalid).reinsertDeviceList
        (fun p hp => Option.some.inj (hp.symm.trans hfind)) hr, .rfl⟩

end UsbTree

end Listbrokers.Tree
