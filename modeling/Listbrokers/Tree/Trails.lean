import Listbrokers.Tree.Locations

/-!
# Trails

The way from an item up to the device list: the item, the item that links to its
list, and so on (`Trail`). It exists for each item of a list that is cached
together with the lists above it (`Settled.trail`). What `get_location_key` and
`get_location_trace` find out about an item is what is written on its trail.
-/

namespace Listbrokers.Tree

open Framework Tiles

variable {P β : Type} {S : UsbSetup P} {F : LocationFormat} {a : Answers P} {s s' : UsbTree P} {p q this : P}
  {item : ℕ} {listId : ListId}

/-- An item of a list, and its name. -/
structure Place (P : Type) where
  list : P
  item : ℕ
  name : String

/-- The kind of a list below `n` other ones. -/
def levelKind : ℕ → ListKind
  | 0 => .devices
  | 1 => .volumes
  | _ => .dir

/-- The way from an item up to the device list. -/
inductive Trail (S : UsbSetup P) (s : UsbTree P) : List (Place P) → Prop
  | device {item : ℕ} {name : String} (hroot : S.deviceList ∈ s.shelf.cached)
      (hname : s.getItemName .devices S.deviceList item = .ok name) : Trail S s [⟨S.deviceList, item, name⟩]
  | child {p : P} {item : ℕ} {name : String} {parent : Place P} {above : List (Place P)} (hp : p ∈ s.shelf.cached)
      (hpar : S.forest.parent p = some parent.list)
      (hlink : (s.lists parent.list).links[parent.item]? = some (s.shelf.id p))
      (hname : s.getItemName (levelKind (above.length + 1)) p item = .ok name) (habove : Trail S s (parent :: above)) :
      Trail S s (⟨p, item, name⟩ :: parent :: above)

/-- Where something is different for all items, an item is known by it. -/
theorem idx_eq_of_nodup {α γ : Type} {l : List α} {f : α → γ} (hnodup : (l.map f).Nodup) {i j : ℕ} {x y : α}
    (hx : l[i]? = some x) (hy : l[j]? = some y) (e : f x = f y) : i = j := by
  refine (List.getElem?_inj ?_ hnodup).mp ?_
  · rw [List.length_map]
    exact (List.getElem?_eq_some_iff.mp hx).1
  · rw [List.getElem?_map, List.getElem?_map, hx, hy, Option.map_some, Option.map_some, e]

namespace UsbTree

/-- What holds in all runs in which the directories that are entered can be read. -/
structure Settled (S : UsbSetup P) (s : UsbTree P) : Prop where
  sound : s.Sound S ∅
  levelled : s.Levelled S
  directories : s.LinksDirectories
  rooted : s.Rooted S

theorem Settled.step [DecidableEq P] {call : UsbCall × Answers P} (h : s.Settled S) (hreads : s.ReadsDirectories S call)
    (hstep : s.Step S call s') : s'.Settled S where
  sound := by
    obtain ⟨X, hX, hsub⟩ := h.sound.step hstep
    rwa [Set.subset_empty_iff.mp (hsub hreads)] at hX
  levelled := step_levelled h.levelled hstep
  directories := step_linksDirectories h.directories hstep
  rooted := step_rooted h.rooted hstep

theorem run_settled [DecidableEq P] {id : ListId} (hvalid : id.isValid = true) (hcacheable : id.nocacheBit = false)
    {devices : List (ℕ × String × String)} {volumes : List (ℕ × VolumeInfo)} {calls : List (UsbCall × Answers P)}
    (h : Run (When (Step S) (ReadsDirectories S)) (init S id devices volumes) calls s) : s.Settled S where
  sound := (sound_init hvalid hcacheable devices volumes).run_when h
  levelled := run_levelled h.of_when
  directories := run_linksDirectories h.of_when
  rooted := run_rooted hvalid hcacheable h.of_when

/-! ## Names -/

theorem kind_of_getItemName {kind : ListKind} {name : String} (h : s.getItemName kind p item = .ok name) :
    (s.lists p).kind = kind := by
  unfold getItemName at h
  split at h
  · next hlist => rw [hlist]; rfl
  · next hlist => rw [hlist]; rfl
  · next hlist => rw [hlist]; rfl
  · cases h

theorem lt_of_getItemName {kind : ListKind} {name : String} (h : s.getItemName kind p item = .ok name) :
    item < (s.lists p).links.length := by
  have hlength : ∀ {α : Type} {items : FlatList α} {x : ListItem α}, items[item]? = some x →
      item < (FlatList.links items).length :=
    fun hitem => by
      rw [FlatList.links, List.length_map]
      exact (List.getElem?_eq_some_iff.mp hitem).1
  unfold getItemName at h
  split at h
  · next hlist =>
    obtain ⟨device, hdevice, -⟩ := of_deref h
    rw [hlist]
    exact hlength hdevice
  · next hlist =>
    obtain ⟨volume, hvolume, -⟩ := of_deref h
    rw [hlist]
    exact hlength hvolume
  · next hlist =>
    obtain ⟨entry, hentry, -⟩ := of_deref h
    rw [hlist]
    exact hlength hentry
  · cases h

/-- The device list, if it is cached. -/
theorem Rooted.getListOfUsbDevices (h : s.Rooted S) (hroot : S.deviceList ∈ s.shelf.cached) :
    ∃ items, s.lists S.deviceList = .devices items ∧ s.getListOfUsbDevices = .ok (S.deviceList, items) := by
  have hkind := h.kind
  cases hlist : s.lists S.deviceList with
  | volumes items => rw [hlist] at hkind; cases hkind
  | dir items => rw [hlist] at hkind; cases hkind
  | devices items =>
    refine ⟨items, rfl, ?_⟩
    rw [UsbTree.getListOfUsbDevices, ← h.id hroot, h.labelled.find_id hroot]
    simp only [deref, bind, Except.bind, hlist]
    rfl

/-- A device is found by its ID. -/
theorem getDeviceById_of_mem {items : FlatList DeviceItemData} (hsorted : SortedDevices (items.map (·.data)))
    {device : ListItem DeviceItemData} (hdevice : device ∈ items) :
    ∃ idx, items[idx]? = some device ∧ getDeviceById items device.data.devId = some (idx, device.data) := by
  obtain ⟨idx, hidx, rfl⟩ := List.getElem_of_mem hdevice
  have hfind : items.findIdx? (·.data.devId = items[idx].data.devId) = some idx := by
    rw [List.findIdx?_eq_some_iff_getElem]
    refine ⟨hidx, by simp, fun j hj => ?_⟩
    have hids := hsorted.ids
    rw [List.map_map] at hids
    have hne :=
      mt (idx_eq_of_nodup hids (List.getElem?_eq_getElem (hj.trans hidx)) (List.getElem?_eq_getElem hidx)) hj.ne
    simpa using hne
  refine ⟨idx, List.getElem?_eq_getElem hidx, ?_⟩
  simp only [getDeviceById, hfind, bind, Option.bind, List.getElem?_eq_getElem hidx, pure]

/-- The name and the mount point of a volume of a device. -/
theorem getVolumeName_eq {items : FlatList DeviceItemData} (hget : s.getListOfUsbDevices = .ok (S.deviceList, items))
    (hsorted : SortedDevices (items.map (·.data))) {device : ListItem DeviceItemData} (hdevice : device ∈ items)
    {info : VolumeInfo} (hinfo : info ∈ device.data.volumes) :
    s.getVolumeName ⟨device.data.devId, info.number⟩ = .ok info.displayName ∧
      s.getUrl ⟨device.data.devId, info.number⟩ = .ok info.mountpointPath := by
  obtain ⟨idx, -, hget'⟩ := getDeviceById_of_mem hsorted hdevice
  have hvolumes := hsorted.volumes device.data (List.mem_map.mpr ⟨_, hdevice, rfl⟩)
  have hvolume : device.data.volumes.find? (fun other => info.number ≤ other.number) = some info := by
    obtain ⟨before, after, hsplit⟩ := List.append_of_mem hinfo
    rw [hsplit] at hvolumes ⊢
    rw [List.find?_append, List.find?_eq_none.mpr, Option.none_or, List.find?_cons_of_pos (by simp)]
    intro other hother
    have := (List.pairwise_append.mp hvolumes).2.2 other hother info List.mem_cons_self
    simpa using this
  rw [getVolumeName, getUrl, hget]
  simp only [bind, Except.bind, hget', deref, pure, hvolume, Except.pure, and_self]

/-! ## Trails of items -/

theorem getElem?_of_lt_links {α : Type} {items : FlatList α} (h : item < (FlatList.links items).length) :
    ∃ x, items[item]? = some x :=
  ⟨_, List.getElem?_eq_getElem (by rwa [FlatList.links, List.length_map] at h)⟩

/-- A list of volumes has the names and the mount points that its device has for them. -/
theorem Settled.volumeNames (h : s.Settled S) (hroot : S.deviceList ∈ s.shelf.cached)
    {devices : FlatList DeviceItemData} (hdevices : s.lists S.deviceList = .devices devices)
    (hp : p ∈ s.shelf.cached) {idx : ℕ} (hlink : (s.lists S.deviceList).links[idx]? = some (s.shelf.id p)) :
    ∃ device items, devices[idx]? = some device ∧ s.lists p = .volumes items ∧
      ∀ (j : ℕ) (volume : ListItem VolumeItemData), items[j]? = some volume →
        ∃ info, device.data.volumes[j]? = some info ∧ s.getVolumeName volume.data = .ok info.displayName ∧
          s.getUrl volume.data = .ok info.mountpointPath := by
  obtain ⟨devices', hdevices', hget⟩ := h.rooted.getListOfUsbDevices hroot
  obtain rfl := UsbList.devices.inj (hdevices.symm.trans hdevices')
  rw [hdevices, UsbList.links, FlatList.links, List.getElem?_map] at hlink
  obtain ⟨device, hdevice, hid⟩ := Option.map_eq_some_iff.mp hlink
  have hmem := List.mem_of_getElem? hdevice
  have hbare := (mirrors_iff hdevices).mp h.sound.mirrors device hmem p hp hid.symm
  cases hlist : s.lists p with
  | devices _ => rw [hlist] at hbare; cases hbare
  | dir _ => rw [hlist] at hbare; cases hbare
  | volumes items =>
    rw [hlist] at hbare
    refine ⟨device, items, hdevice, rfl, fun j volume hvolume => ?_⟩
    have hdata := congrArg (·[j]?) (map_data_of_bare (UsbList.volumes.inj hbare))
    simp only [List.getElem?_map, hvolume, Option.map_some] at hdata
    obtain ⟨info, hinfo, hdata⟩ := Option.map_eq_some_iff.mp hdata.symm
    rw [← hdata]
    exact ⟨info, hinfo, getVolumeName_eq hget (h.sound.sorted_items hdevices) hmem (List.mem_of_getElem? hinfo)⟩

/-- The items of a list have names. -/
theorem Settled.getItemName (h : s.Settled S) (hroot : S.deviceList ∈ s.shelf.cached) (hp : p ∈ s.shelf.cached)
    (hvolumes : (s.lists p).kind = .volumes → ∃ idx : ℕ, (s.lists S.deviceList).links[idx]? = some (s.shelf.id p))
    (hitem : item < (s.lists p).links.length) : ∃ name, s.getItemName (s.lists p).kind p item = .ok name := by
  obtain ⟨devices, hdevices, -⟩ := h.rooted.getListOfUsbDevices hroot
  unfold UsbTree.getItemName
  cases hlist : s.lists p with
  | devices items =>
    rw [hlist] at hitem
    obtain ⟨device, hdevice⟩ := getElem?_of_lt_links hitem
    exact ⟨device.data.displayName, by simp only [UsbList.kind, hdevice]; rfl⟩
  | dir items =>
    rw [hlist] at hitem
    obtain ⟨entry, hentry⟩ := getElem?_of_lt_links hitem
    exact ⟨entry.data.name, by simp only [UsbList.kind, hentry]; rfl⟩
  | volumes items =>
    rw [hlist] at hvolumes hitem
    obtain ⟨idx, hlink⟩ := hvolumes rfl
    obtain ⟨volume, hvolume⟩ := getElem?_of_lt_links hitem
    obtain ⟨device, items', -, hitems, hnames⟩ := h.volumeNames hroot hdevices hp hlink
    obtain rfl := UsbList.volumes.inj (hlist.symm.trans hitems)
    obtain ⟨info, -, hname, -⟩ := hnames item volume hvolume
    exact ⟨info.displayName, by simp only [UsbList.kind, hvolume]; exact hname⟩

end UsbTree

namespace Trail

variable {place : Place P} {above places : List (Place P)}

theorem cached (h : Trail S s (place :: above)) : place.list ∈ s.shelf.cached := by
  cases h with
  | device hroot hname => exact hroot
  | child hp hpar hlink hname habove => exact hp

theorem root (h : Trail S s (place :: above)) : S.deviceList ∈ s.shelf.cached := by
  generalize hplaces : place :: above = places at h
  induction h generalizing place above with
  | device hroot hname => exact hroot
  | child hp hpar hlink hname habove ih => exact ih rfl

theorem getItemName (h : Trail S s (place :: above)) :
    s.getItemName (levelKind above.length) place.list place.item = .ok place.name := by
  cases h with
  | device hroot hname => exact hname
  | child hp hpar hlink hname habove => exact hname

theorem kind (h : Trail S s (place :: above)) : (s.lists place.list).kind = levelKind above.length :=
  UsbTree.kind_of_getItemName h.getItemName

end Trail

/-- There is a trail for each item of a list that is cached together with the lists above it. -/
theorem UsbTree.Settled.trail [DecidableEq P] (h : s.Settled S) (hcached : ∀ q ∈ S.forest.path p, q ∈ s.shelf.cached)
    (hitem : item < (s.lists p).links.length) : ∃ name above, Trail S s (⟨p, item, name⟩ :: above) := by
  have hlinked := h.sound.linked
  induction p using S.forest.induction_from_root generalizing item with
  | root p hpar =>
    have hp := hcached p Forest.mem_path_self
    obtain rfl : p = S.deviceList := by
      by_contra hne
      obtain ⟨q, hq, -⟩ := hlinked.linked_once p hp hne
      rw [hpar] at hq
      cases hq
    obtain ⟨name, hname⟩ := h.getItemName hp hp (fun hkind => by rw [h.rooted.kind] at hkind; cases hkind) hitem
    rw [h.rooted.kind] at hname
    exact ⟨name, [], .device hp hname⟩
  | child p q hpar ih =>
    rw [Forest.path_of_parent hpar] at hcached
    have hp := hcached p List.mem_cons_self
    have hne : p ≠ S.deviceList := fun e => by
      rw [e, S.root] at hpar
      cases hpar
    obtain ⟨q', hq', hcount⟩ := hlinked.linked_once p hp hne
    obtain rfl : q = q' := Option.some.inj (hpar.symm.trans hq')
    obtain ⟨idx, hidx, hlink⟩ := List.getElem_of_mem (List.count_pos_iff.mp (hcount ▸ Nat.one_pos))
    have hlink : (s.lists q).links[idx]? = some (s.shelf.id p) := hlink ▸ List.getElem?_eq_getElem hidx
    obtain ⟨name', above, htrail⟩ := ih (fun r hr => hcached r (List.mem_cons_of_mem p hr)) hidx
    have hkind : (s.lists p).kind = levelKind (above.length + 1) := by
      rw [h.levelled p hp q hpar, htrail.kind]
      cases above with
      | nil => rfl
      | cons place above => cases above <;> rfl
    have hvolumes : (s.lists p).kind = .volumes →
        ∃ idx : ℕ, (s.lists S.deviceList).links[idx]? = some (s.shelf.id p) := by
      intro hvolumes
      -- only the device list has lists of volumes below it
      rw [hkind] at hvolumes
      cases htrail with
      | device hroot hname' => exact ⟨idx, hlink⟩
      | child hp' hpar' hlink' hname' habove => cases hvolumes
    obtain ⟨name, hname⟩ := h.getItemName htrail.root hp hvolumes hitem
    rw [hkind] at hname
    exact ⟨name, ⟨q, idx, name'⟩ :: above, .child hp hpar hlink hname htrail⟩

/-! ## Climbing a trail -/

theorem findIdx?_of_count {l : List ListId} {id : ListId} {idx : ℕ} (h : l[idx]? = some id) (hcount : l.count id = 1) :
    l.findIdx? (· = id) = some idx := by
  obtain ⟨hlt, hget⟩ := List.getElem?_eq_some_iff.mp h
  rw [List.findIdx?_eq_some_iff_getElem]
  refine ⟨hlt, by simpa using hget, fun j hj => ?_⟩
  -- there is no other one
  rw [← List.take_append_drop idx l, List.drop_eq_getElem_cons hlt, hget, List.count_append,
    List.count_cons_self] at hcount
  have hnot : id ∉ l.take idx := List.count_eq_zero.mp (by omega)
  have hmem : l[j] ∈ l.take idx := List.mem_take_iff_getElem.mpr ⟨j, by omega, rfl⟩
  simpa using fun e : l[j] = id => hnot (e ▸ hmem)

namespace Trail

variable {place : Place P} {above places : List (Place P)}

/-- The item that links to the list of a place. -/
theorem getParentLink {parent : Place P} (hs : s.Settled S) (h : Trail S s (place :: parent :: above)) :
    s.getParentLink place.list parent.list = some parent.item := by
  cases h with
  | child hp hpar hlink hname habove =>
    obtain ⟨q, hq, hcount⟩ := hs.sound.linked.linked_once _ hp fun e => by
      rw [e, S.root] at hpar
      cases hpar
    obtain rfl := Option.some.inj (hpar.symm.trans hq)
    simp only [UsbTree.getParentLink, hs.rooted.labelled.find_id hp, bind, Option.bind]
    exact findIdx?_of_count hlink hcount

/-- The place above, or the place itself if it is one of a device. -/
def next (place : Place P) (above : List (Place P)) : Place P := above.head?.getD place

theorem getParentLinkOrSelf (hs : s.Settled S) (h : Trail S s (place :: above)) :
    s.getParentLinkOrSelf S (s.shelf.id place.list) place.item =
      some ((next place above).list, (next place above).item) := by
  have hfind := hs.rooted.labelled.find_id h.cached
  unfold UsbTree.getParentLinkOrSelf
  rw [hfind]
  cases h with
  | device hroot hname =>
    simp only [bind, Option.bind, S.root]
    rfl
  | child hp hpar hlink hname habove =>
    simp only [bind, Option.bind, hpar, (Trail.child hp hpar hlink hname habove).getParentLink hs]
    rfl

/-- The name of a place, and the place above. -/
theorem getComponentName (hs : s.Settled S) (h : Trail S s (place :: above)) (hname : place.name ≠ "")
    {lruEntry : Option P} (hentry : lruEntry.or (s.shelf.find listId) = some place.list)
    (process : P → ℕ → String → β → Option β) (b : β) :
    s.getComponentName S (levelKind above.length) lruEntry listId place.item process b =
      match process place.list place.item place.name b with
      | none => throw .internal
      | some b => pure ((next place above).list, (next place above).item, b) := by
  have hitem := UsbTree.lt_of_getItemName h.getItemName
  unfold UsbTree.getComponentName
  rw [hentry]
  dsimp only
  rw [if_neg (by omega), h.getItemName]
  change (match if place.name = "" then none else process place.list place.item place.name b with
    | none => throw EnterError.internal
    | some b => _) = _
  rw [if_neg hname]
  cases process place.list place.item place.name b with
  | none => rfl
  | some b =>
    dsimp only
    rw [h.getParentLinkOrSelf hs]

variable {dirs : List (Place P)} {volume device : Place P}

theorem tail {parent : Place P} (h : Trail S s (place :: parent :: above)) : Trail S s (parent :: above) := by
  cases h with
  | child hp hpar hlink hname habove => exact habove

/-- The loop over the directories of a trail. -/
theorem getDirectoryNames (hs : s.Settled S) (h : Trail S s (dirs ++ [volume, device]))
    (hnames : ∀ place ∈ dirs, place.name ≠ "") {lruEntry : Option P}
    (hentry : lruEntry.or (s.shelf.find listId) = some (dirs.head?.getD volume).list)
    (process : P → ℕ → String → β → Option β) (b : β) :
    s.getDirectoryNames S listId process dirs.length lruEntry (dirs.head?.getD volume).item b =
      match dirs.foldlM (fun b place => process place.list place.item place.name b) b with
      | none => throw .internal
      | some b => pure (if dirs = [] then lruEntry else some volume.list, volume.item, b) := by
  induction dirs generalizing lruEntry b with
  | nil => rfl
  | cons place dirs ih =>
    rw [List.cons_append] at h
    have hlevel : levelKind (dirs ++ [volume, device]).length = .dir := by
      rw [List.length_append]
      rfl
    have hcomponent := h.getComponentName hs (hnames place List.mem_cons_self) hentry process b
    rw [hlevel] at hcomponent
    have hnext : next place (dirs ++ [volume, device]) = dirs.head?.getD volume := by
      cases dirs <;> rfl
    rw [hnext] at hcomponent
    have htail : Trail S s (dirs ++ [volume, device]) := by
      cases dirs with
      | nil => exact h.tail
      | cons place' dirs => exact h.tail
    rw [List.length_cons, UsbTree.getDirectoryNames, List.foldlM_cons]
    change s.getComponentName S .dir lruEntry listId place.item process b >>= _ = _
    rw [hcomponent]
    cases process place.list place.item place.name b with
    | none => rfl
    | some b =>
      have hrest : s.getDirectoryNames S listId process dirs.length (some (dirs.head?.getD volume).list)
          (dirs.head?.getD volume).item b = _ :=
        ih htail (fun place' hplace' => hnames place' (List.mem_cons_of_mem place hplace')) rfl b
      change s.getDirectoryNames S listId process dirs.length (some (dirs.head?.getD volume).list)
        (dirs.head?.getD volume).item b = _
      rw [hrest]
      cases dirs <;> rfl

theorem mem_path (h : Trail S s (place :: above)) :
    S.deviceList ∈ S.forest.path place.list ∧ ∀ q ∈ place :: above, q.list ∈ S.forest.path place.list := by
  generalize hplaces : place :: above = places at h
  induction h generalizing place above with
  | device hroot hname =>
    cases hplaces
    exact ⟨Forest.mem_path_self, by simp⟩
  | child hp hpar hlink hname habove ih =>
    cases hplaces
    rw [Forest.path_of_parent hpar]
    obtain ⟨hroot, hmem⟩ := ih rfl
    exact ⟨List.mem_cons_of_mem _ hroot, List.forall_mem_cons.mpr
      ⟨List.mem_cons_self, fun q hq => List.mem_cons_of_mem _ (hmem q hq)⟩⟩

theorem map_list (h : Trail S s (place :: above)) : (place :: above).map (·.list) = S.forest.path place.list := by
  generalize hplaces : place :: above = places at h
  induction h generalizing place above with
  | device hroot hname =>
    cases hplaces
    rw [Forest.path_of_root S.root]
    rfl
  | child hp hpar hlink hname habove ih =>
    cases hplaces
    rw [Forest.path_of_parent hpar, List.map_cons, ih rfl]

theorem length_path (h : Trail S s (place :: above)) : (S.forest.path place.list).length = above.length + 1 := by
  rw [← h.map_list, List.length_map, List.length_cons]

theorem getListDepth (hs : s.Settled S) (h : Trail S s (place :: above))
    (hlist : s.shelf.find listId = some place.list) : s.getListDepth S listId = above.length + 1 := by
  obtain ⟨hp, hid⟩ := Shelf.mem_of_find hlist
  unfold UsbTree.getListDepth
  rw [if_pos (hid ▸ hs.rooted.labelled.valid _ hp), hlist]
  exact h.length_path

/-- Every trail ends with a device, or with a volume and its device. -/
theorem shape (h : Trail S s places) :
    (∃ device, places = [device]) ∨ ∃ dirs volume device, places = dirs ++ [volume, device] := by
  induction h with
  | device hroot hname => exact .inl ⟨_, rfl⟩
  | child hp hpar hlink hname habove ih =>
    rcases ih with ⟨device, e⟩ | ⟨dirs, volume, device, e⟩
    · exact .inr ⟨[], _, device, by rw [e]; rfl⟩
    · exact .inr ⟨_ :: dirs, volume, device, by rw [e]; rfl⟩

/-! ## Location keys -/

/-- The key of a device. -/
theorem getLocationKey_device (hs : s.Settled S) (h : Trail S s [device])
    (hlist : s.shelf.find listId = some device.list) (hname : device.name ≠ "") (hitem : device.item < 2 ^ 32)
    (asReferenceKey : Bool) :
    s.getLocationKey S F listId (device.item + 1) asReferenceKey =
      pure (if asReferenceKey then .reference ⟨device.name, "", "", "", none⟩ else .simple ⟨device.name, "", ""⟩) := by
  have hentry : (none : Option P).or (s.shelf.find listId) = some device.list := hlist
  have hcomponent := h.getComponentName hs hname hentry (fun _ _ name _ => some name) ""
  unfold UsbTree.getLocationKey
  rw [h.getListDepth hs hlist]
  dsimp only [List.length_nil]
  rw [if_neg Nat.one_ne_zero, Nat.add_sub_cancel, Nat.mod_eq_of_lt hitem]
  change (s.getComponentName S .devices none listId device.item (fun _ _ name _ => some name) "" >>= _) = _
  rw [show s.getComponentName S .devices none listId device.item (fun _ _ name _ => some name) "" = _ from hcomponent]
  cases asReferenceKey <;> rfl

theorem append_ne_nil (dirs : List (Place P)) (volume device : Place P) :
    ∃ above, dirs ++ [volume, device] = dirs.head?.getD volume :: above ∧ above.length = dirs.length + 1 := by
  cases dirs with
  | nil => exact ⟨[device], rfl, rfl⟩
  | cons place dirs => exact ⟨dirs ++ [volume, device], rfl, by rw [List.length_append]; rfl⟩

/-- The upper part of a trail. -/
theorem of_append {below : List (Place P)} (h : Trail S s (below ++ place :: above)) : Trail S s (place :: above) := by
  induction below with
  | nil => exact h
  | cons place' below ih =>
    cases below with
    | nil => exact h.tail
    | cons place'' below => exact ih h.tail

/-- The volume level, and the device level above. -/
theorem getVolumeComponent (hs : s.Settled S) (h : Trail S s [volume, device]) (hname : volume.name ≠ "")
    {lruEntry : Option P} (hentry : lruEntry.or (s.shelf.find listId) = some volume.list) (n : ℕ)
    (process : P → ℕ → String → β → Option β) (b : β) :
    s.getVolumeComponent S (n + 2) lruEntry listId volume.item process b =
      match process volume.list volume.item volume.name b with
      | none => throw .internal
      | some b => pure (some device.list, device.item, b) := by
  unfold UsbTree.getVolumeComponent
  rw [if_pos (by omega)]
  have hcomponent : s.getComponentName S .volumes lruEntry listId volume.item process b = _ :=
    h.getComponentName hs hname hentry process b
  rw [hcomponent]
  cases process volume.list volume.item volume.name b <;> rfl

theorem volume_entry (hlist : s.shelf.find listId = some (dirs.head?.getD volume).list) :
    (if dirs = [] then none else some volume.list : Option P).or (s.shelf.find listId) = some volume.list := by
  cases dirs with
  | nil => exact hlist
  | cons place dirs => rfl

theorem foldlM_names (places : List (Place P)) (names : List String) :
    places.foldlM (m := Option) (fun names place => some (names ++ [place.name])) names =
      some (names ++ places.map (·.name)) := by
  induction places generalizing names with
  | nil => simp
  | cons place places ih =>
    rw [List.foldlM_cons]
    change places.foldlM (m := Option) (fun names place => some (names ++ [place.name])) (names ++ [place.name]) = _
    rw [ih]
    simp

/-- The key of a volume, a directory or a file. -/
theorem getLocationKey (hs : s.Settled S) (h : Trail S s (dirs ++ [volume, device]))
    (hlist : s.shelf.find listId = some (dirs.head?.getD volume).list)
    (hnames : ∀ place ∈ dirs ++ [volume, device], place.name ≠ "") (hitem : (dirs.head?.getD volume).item < 2 ^ 32)
    (asReferenceKey : Bool) :
    s.getLocationKey S F listId ((dirs.head?.getD volume).item + 1) asReferenceKey = pure
      (if asReferenceKey then .reference ⟨device.name, volume.name, F.join ((dirs.map (·.name)).tail.reverse),
          (dirs.map (·.name)).head?.getD "", some ((dirs.head?.getD volume).item + 1)⟩
        else .simple ⟨device.name, volume.name, F.join (dirs.map (·.name)).reverse⟩) := by
  obtain ⟨above, habove, hlength⟩ := append_ne_nil dirs volume device
  have hdepth := (habove ▸ h).getListDepth hs hlist
  have hentry : (none : Option P).or (s.shelf.find listId) = some (dirs.head?.getD volume).list := hlist
  have hdirs := h.getDirectoryNames hs (fun place hplace => hnames place (List.mem_append_left _ hplace)) hentry
    (fun _ _ name names => some (names ++ [name])) []
  rw [foldlM_names] at hdirs
  have hvolume := h.of_append.getVolumeComponent hs (hnames volume (by simp)) (volume_entry hlist) dirs.length
    (fun _ _ name _ => some name) ""
  have hdevice : s.getComponentName S .devices (some device.list) listId device.item
      (fun _ _ name _ => some name) "" = _ :=
    h.of_append.tail.getComponentName hs (hnames device (by simp)) rfl (fun _ _ name _ => some name) ""
  unfold UsbTree.getLocationKey
  rw [hdepth, hlength]
  dsimp only
  rw [if_neg (Nat.succ_ne_zero _), Nat.add_sub_cancel, Nat.mod_eq_of_lt hitem,
    show dirs.length + 1 + 1 - 2 = dirs.length by omega,
    hdirs]
  dsimp only
  rw [pure_bind]
  dsimp only
  rw [hvolume, pure_bind]
  dsimp only
  rw [hdevice, pure_bind]
  cases asReferenceKey with
  | false => rfl
  | true =>
    simp only [if_true, List.nil_append, if_neg (show ¬ dirs.length + 1 + 1 = 1 by omega)]

end Trail

/-! ## Location traces -/

theorem of_bind_eq_pure {α : Type} {x : Located α} {f : α → Located β} {b : β} (h : x >>= f = pure b) :
    ∃ a, x = pure a ∧ f a = pure b := by
  obtain ⟨r, hr, hf⟩ := bind_eq_ok (x := x.run) h
  cases r with
  | error error => cases hf
  | ok a => exact ⟨a, hr, hf⟩

/-- A match that does not throw. -/
theorem of_match_eq_pure {α : Type} {x : Option α} {f : α → β} {b : β}
    (h : (match x with
      | none => throw .internal
      | some a => pure (f a) : Located β) = pure b) : ∃ a, x = some a ∧ f a = b := by
  cases x with
  | none => cases h
  | some a =>
    cases h
    exact ⟨a, rfl, rfl⟩

variable {refListId : ListId} {refItemPos : ℕ} {elements : TraceElements}
    {actionIfFound : TraceElements → TraceElements}

theorem handleReferencePoint_of_ne (h : listId ≠ refListId) :
    handleReferencePoint listId item refListId refItemPos actionIfFound elements = some elements := if_pos h

/-- A reference point is found only where it is said to be. -/
theorem handleReferencePoint_self (hitem : item + 1 < 2 ^ 32) :
    handleReferencePoint refListId item refListId refItemPos actionIfFound elements =
      if item + 1 = refItemPos then some (actionIfFound { elements with foundReferencePoint := true }) else none := by
  unfold handleReferencePoint
  rw [if_neg (not_not_intro rfl), Nat.mod_eq_of_lt hitem]
  split <;> simp_all

/-- What is done with a directory in `get_location_trace`. -/
def UsbTree.onDirectory (s : UsbTree P) (refListId : ListId) (refItemPos : ℕ) (elements : TraceElements)
    (place : Place P) : Option TraceElements :=
  (handleReferencePoint (s.shelf.id place.list) place.item refListId refItemPos
    (fun elements => { elements with intoRef := true }) elements).map (·.push place.name)

/-- Directories other than that of the reference point. -/
theorem foldlM_onDirectory {places : List (Place P)} (h : ∀ place ∈ places, s.shelf.id place.list ≠ refListId)
    (elements : TraceElements) : places.foldlM (s.onDirectory refListId refItemPos) elements =
      some (if elements.intoRef then { elements with refElements := elements.refElements ++ places.map (·.name) }
        else { elements with itemElements := elements.itemElements ++ places.map (·.name) }) := by
  induction places generalizing elements with
  | nil => cases elements with | mk found ref item into => cases into <;> simp
  | cons place places ih =>
    rw [List.foldlM_cons, UsbTree.onDirectory, handleReferencePoint_of_ne (h place List.mem_cons_self)]
    change places.foldlM (s.onDirectory refListId refItemPos) (elements.push place.name) = _
    rw [ih fun place' hplace' => h place' (List.mem_cons_of_mem place hplace')]
    cases elements with | mk found ref item into => cases into <;> simp [TraceElements.push]

/-- Directories of which one is the one of the reference point. -/
theorem foldlM_reference {below above : List (Place P)} {ref : Place P} (hitem : ref.item + 1 < 2 ^ 32)
    (hbelow : ∀ place ∈ below, s.shelf.id place.list ≠ s.shelf.id ref.list)
    (habove : ∀ place ∈ above, s.shelf.id place.list ≠ s.shelf.id ref.list) :
    (below ++ ref :: above).foldlM (s.onDirectory (s.shelf.id ref.list) refItemPos) ⟨false, [], [], false⟩ =
      if ref.item + 1 = refItemPos then some ⟨true, (ref :: above).map (·.name), below.map (·.name), true⟩
        else none := by
  rw [List.foldlM_append, foldlM_onDirectory hbelow]
  change (ref :: above).foldlM (s.onDirectory (s.shelf.id ref.list) refItemPos)
    ⟨false, [], below.map (·.name), false⟩ = _
  rw [List.foldlM_cons, UsbTree.onDirectory, handleReferencePoint_self hitem]
  split
  · change above.foldlM (s.onDirectory (s.shelf.id ref.list) refItemPos)
      ⟨true, [ref.name], below.map (·.name), true⟩ = _
    rw [foldlM_onDirectory habove]
    rfl
  · rfl

theorem LocationFormat.join_concat (F : LocationFormat) (components : List String) (component : String) :
    F.join (components ++ [component]) = F.append (F.join components) component := by
  simp [join]

theorem LocationFormat.traceItemName_eq {n : ℕ} {itemElements : List String} {itemName : String}
    (h : (liftM (F.traceItemName (n + 1 + 1) itemElements) : Located String) = pure itemName) :
    (if n = 0 then "" else F.join itemElements.reverse) = itemName := by
  obtain ⟨name, hname, hpure⟩ := bind_eq_ok (x := F.traceItemName (n + 1 + 1) itemElements) h
  obtain rfl : name = itemName := by cases hpure; rfl
  unfold traceItemName at hname
  by_cases e : n = 0
  · rw [if_pos (by omega)] at hname
    cases hname
    exact if_pos e
  · rw [if_neg (by omega)] at hname
    obtain ⟨front, hfront, hname⟩ := UsbTree.of_deref hname
    cases hname
    rw [if_neg e]
    cases itemElements with
    | nil => cases hfront
    | cons name names =>
      cases hfront
      rw [List.reverse_cons, join_concat]
      rfl

namespace Trail

variable {dirs : List (Place P)} {volume device : Place P} {trace : LocationTrace}

/-- What is known of the trace of a volume, a directory or a file if there is one. -/
theorem of_getLocationTrace (hs : s.Settled S) (h : Trail S s (dirs ++ [volume, device]))
    (hlist : s.shelf.find listId = some (dirs.head?.getD volume).list)
    (hnames : ∀ place ∈ dirs ++ [volume, device], place.name ≠ "") (hitem : (dirs.head?.getD volume).item < 2 ^ 32)
    (hr : s.getLocationTrace S F listId ((dirs.head?.getD volume).item + 1) refListId refItemPos = pure trace) :
    ∃ elements elements₁ elements₂,
      dirs.foldlM (s.onDirectory refListId refItemPos) ⟨!refListId.isValid, [], [], false⟩ = some elements ∧
      handleReferencePoint (s.shelf.id volume.list) volume.item refListId refItemPos id elements = some elements₁ ∧
      handleReferencePoint (s.shelf.id device.list) device.item refListId refItemPos id elements₁ = some elements₂ ∧
      elements₂.foundReferencePoint = true ∧
      trace = ⟨device.name, volume.name, F.join elements₂.refElements.reverse,
        if dirs.length = 0 then "" else F.join elements.itemElements.reverse,
          some ((dirs.head?.getD volume).item + 1)⟩ := by
  obtain ⟨above, habove, hlength⟩ := append_ne_nil dirs volume device
  have hdepth := (habove ▸ h).getListDepth hs hlist
  have hentry : (none : Option P).or (s.shelf.find listId) = some (dirs.head?.getD volume).list := hlist
  have hdirs := h.getDirectoryNames hs (fun place hplace => hnames place (List.mem_append_left _ hplace)) hentry
    (fun list item name elements => s.onDirectory refListId refItemPos elements ⟨list, item, name⟩)
    ⟨!refListId.isValid, [], [], false⟩
  have hvolume := fun process b => h.of_append.getVolumeComponent (β := TraceElements × String) hs
    (hnames volume (by simp)) (volume_entry hlist) dirs.length process b
  have hdevice : ∀ process (b : TraceElements × String),
      s.getComponentName S .devices (some device.list) listId device.item process b = _ :=
    fun process b => h.of_append.tail.getComponentName hs (hnames device (by simp)) rfl process b
  unfold UsbTree.getLocationTrace at hr
  rw [hdepth, hlength] at hr
  dsimp only at hr
  rw [if_neg (Nat.succ_ne_zero _), Nat.add_sub_cancel, Nat.mod_eq_of_lt hitem,
    show dirs.length + 1 + 1 - 2 = dirs.length by omega] at hr
  obtain ⟨r, hr₁, hr⟩ := of_bind_eq_pure hr
  obtain ⟨elements, helements, rfl⟩ := of_match_eq_pure (hdirs.symm.trans hr₁)
  obtain ⟨itemName, hitemName, hr⟩ := of_bind_eq_pure hr
  obtain ⟨r, hr₂, hr⟩ := of_bind_eq_pure hr
  obtain ⟨b, hb, rfl⟩ := of_match_eq_pure ((hvolume _ _).symm.trans hr₂)
  obtain ⟨r, hr₃, hr⟩ := of_bind_eq_pure hr
  obtain ⟨b', hb', rfl⟩ := of_match_eq_pure ((hdevice _ _).symm.trans hr₃)
  obtain ⟨elements₁, helements₁, rfl⟩ := Option.map_eq_some_iff.mp hb
  obtain ⟨elements₂, helements₂, rfl⟩ := Option.map_eq_some_iff.mp hb'
  dsimp only at hr
  split at hr
  · next hfound =>
    refine ⟨elements, elements₁, elements₂, helements, helements₁, helements₂, hfound, ?_⟩
    cases hr
    rw [if_neg (by omega), ← LocationFormat.traceItemName_eq hitemName]
  · cases hr

/-- There is no other list on the way from a device to the device list. -/
theorem getLocationTrace_device (hs : s.Settled S) (h : Trail S s [device])
    (hlist : s.shelf.find listId = some device.list) (hname : device.name ≠ "") (hitem : device.item < 2 ^ 32)
    (hvalid : refListId.isValid = true) (hne : refListId ≠ listId) :
    s.getLocationTrace S F listId (device.item + 1) refListId refItemPos ≠ pure trace := by
  intro hr
  have hentry : (none : Option P).or (s.shelf.find listId) = some device.list := hlist
  have hdevice : ∀ process (b : TraceElements × String),
      s.getComponentName S .devices none listId device.item process b = _ :=
    fun process b => h.getComponentName hs hname hentry process b
  have hid : s.shelf.id device.list ≠ refListId := (Shelf.mem_of_find hlist).2 ▸ hne.symm
  unfold UsbTree.getLocationTrace at hr
  rw [h.getListDepth hs hlist] at hr
  dsimp only [List.length_nil] at hr
  rw [if_neg Nat.one_ne_zero, Nat.add_sub_cancel, Nat.mod_eq_of_lt hitem] at hr
  obtain ⟨r, hr₁, hr⟩ := of_bind_eq_pure hr
  cases hr₁
  obtain ⟨itemName, -, hr⟩ := of_bind_eq_pure hr
  obtain ⟨r, hr₂, hr⟩ := of_bind_eq_pure hr
  cases hr₂
  obtain ⟨r, hr₃, hr⟩ := of_bind_eq_pure hr
  obtain ⟨b, hb, rfl⟩ := of_match_eq_pure ((hdevice _ _).symm.trans hr₃)
  dsimp only at hb hr
  rw [handleReferencePoint_of_ne hid] at hb
  cases hb
  dsimp only at hr
  rw [hvalid] at hr
  cases hr

end Trail

/-! ## An example -/

namespace UsbTree

theorem step_of_toOption {T : UsbSetup ℕ} {s s' : UsbTree ℕ} {call : UsbCall × Answers ℕ}
    (h : (s.run T call.2 call.1).toOption = some s') : Step T s call s' := by
  unfold Step
  cases hrun : s.run T call.2 call.1 with
  | error e =>
    rw [hrun] at h
    cases h
  | ok s₁ =>
    rw [hrun] at h
    cases h
    rfl

/-- What the calls of the example lead to. -/
def exampleResult : Option (UsbTree ℕ) :=
  exec (fun s c => (s.run exampleSetup c.2 c.1).toOption) (ReadsDirectories exampleSetup)
    (exampleCalls fun _ => some (["albums"], ["song.flac"])) (init exampleSetup ⟨1⟩ [] [])

/-- A device with a volume that contains a directory and a file. -/
def exampleTree : UsbTree ℕ := exampleResult.getD (init exampleSetup ⟨1⟩ [] [])

theorem exampleTree_run : Run (When (Step exampleSetup) (ReadsDirectories exampleSetup)) (init exampleSetup ⟨1⟩ [] [])
    (exampleCalls fun _ => some (["albums"], ["song.flac"])) exampleTree := by
  obtain ⟨s, hs⟩ := Option.isSome_iff_exists.mp (show exampleResult.isSome = true by decide +kernel)
  rw [exampleTree, hs]
  exact Run.of_exec (fun _ _ _ => step_of_toOption) hs

theorem exampleTree_cached : ∀ q ∈ exampleSetup.forest.path 2, q ∈ exampleTree.shelf.cached := by decide +kernel

end UsbTree

end Listbrokers.Tree
