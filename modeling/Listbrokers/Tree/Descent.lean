import Listbrokers.Tree.Trails
import Mathlib.Data.List.Induction

/-!
# Going down a trail

What `enter_volume` and `follow_path` do for the names of a trail, where the items
of each list have different names. Every list of the trail is cached and linked, so
that entering an item of the trail changes nothing (`enterChild_linked`), except
for the item at its end, which may be without list (`MayEnter`).
-/

namespace Listbrokers.Tree

open Framework Tiles

variable {P R : Type} {T : UsbSetup P} {a : Answers P} {s t : UsbTree P} {p q this : P} {item : ℕ}
  {listId : ListId}

/-! ## Paths that have been put together -/

/-- A name that can be a component of a path. -/
def Proper (name : String) : Prop := name ≠ "" ∧ '/' ∉ name.toList

instance (name : String) : Decidable (Proper name) := inferInstanceAs (Decidable (_ ∧ _))

theorem components_singleton {name : String} (h : Proper name) : components name.toList = [name.toList] := by
  have hne : name.toList ≠ [] := fun e => h.1 (String.toList_eq_nil_iff.mp e)
  rw [components, List.splitOn_eq_singleton h.2]
  simp [hne]

namespace LocationFormat.JoinsBySlash

variable {F : LocationFormat}

theorem join_toList (h : F.JoinsBySlash) {name : String} {names : List String}
    (hnames : ∀ n ∈ name :: names, Proper n) :
    (F.join (name :: names)).toList = name.toList ++ names.flatMap fun n => '/' :: n.toList := by
  induction names using List.reverseRecOn with
  | nil => simp [join, h "" name]
  | append_singleton names n ih =>
    have hjoin := ih fun n' hn' => hnames n' (List.mem_append_left [n] hn')
    have hne : F.join (name :: names) ≠ "" := fun e => by
      have hempty : name.toList = [] := (List.append_eq_nil_iff.mp (hjoin.symm.trans (by rw [e]; rfl))).1
      exact (hnames name List.mem_cons_self).1 (String.toList_eq_nil_iff.mp hempty)
    rw [← List.cons_append, join_concat, h, if_neg hne, String.toList_append, String.toList_append, hjoin]
    simp

/-- The components of a path that has been put together. -/
theorem components_join (h : F.JoinsBySlash) {names : List String} (hnames : ∀ n ∈ names, Proper n) :
    components (F.join names).toList = names.map String.toList := by
  cases names with
  | nil => exact components_nil
  | cons name names =>
    rw [h.join_toList hnames]
    induction names generalizing name with
    | nil => simpa using components_singleton (hnames name List.mem_cons_self)
    | cons name' names ih =>
      have hname := hnames name List.mem_cons_self
      have hne : name.toList ≠ [] := fun e => hname.1 (String.toList_eq_nil_iff.mp e)
      rw [List.flatMap_cons, List.cons_append, components, List.splitOn_append_cons_self_of_not_mem hname.2,
        List.filter_cons_of_pos (by simpa using hne), List.map_cons]
      exact congrArg _ (ih name' fun n hn => hnames n (List.mem_cons_of_mem name hn))

end LocationFormat.JoinsBySlash

namespace UsbTree

/-! ## Entering an item -/

/-- An item of a list that is cached together with the lists above it can be entered: nothing interrupts the
operation; if there is a list to be made, the cache accepts it, and keeps it and the lists above it; and if the item
is a directory, it can be read. -/
structure MayEnter [DecidableEq P] (T : UsbSetup P) (a : Answers P) (s : UsbTree P) (this : P) (item : ℕ) : Prop where
  continues : a.mayContinue = true
  possible : s.enterChild T a (s.shelf.id this) item ≠ .error .impossible
  enters : ¬ FailsToEnter T a s this item
  keeps : ∀ q ∈ T.forest.path this, q ∉ a.collected

/-- A list that has neither been changed nor discarded, but for links. -/
structure Kept (s t : UsbTree P) (q : P) : Prop where
  cached : q ∈ t.shelf.cached
  id : t.shelf.id q = s.shelf.id q
  bare : (t.lists q).bare = (s.lists q).bare

theorem enterChild_linked [DecidableEq P] (hcontinue : a.mayContinue = true) (hlist : s.shelf.find listId = some this)
    {child : ListId} (hlink : (s.lists this).links[item]? = some child) (hvalid : child.isValid = true)
    (hcacheable : child.nocacheBit = false) : s.enterChild T a listId item = .ok (child, .ok, s) := by
  unfold UsbTree.enterChild UsbTree.enterChildTemplate
  rw [hlist]
  dsimp only
  rw [if_pos hcontinue, hlink]
  exact if_pos ⟨hvalid, hcacheable⟩

theorem addToCache_kept [DecidableEq P] {r : ListId × EnterError × UsbTree P} (hs : s.shelf.Labelled)
    (hq : q ∈ s.shelf.cached) (hcollected : q ∉ a.collected) (hr : s.addToCache T a this item = .ok r) :
    Kept s r.2.2 q := by
  have hne : ∀ {p}, s.shelf.Unused T.forest p → q ≠ p := fun hunused e => hunused q hq (e ▸ Forest.mem_path_self)
  refine (addToCache_keeps (Q := fun t => t.shelf.Labelled ∧ Kept s t q) (fun t hQ => ?_)
    (fun p id _ _ hunused hfree => ?_)
    (fun t p items hpar hunused _ hQ => ⟨hQ.1, hQ.2.cached, hQ.2.id, ?_⟩) hr ⟨hs, hq, rfl, rfl⟩).2
  · have hshrunk := collect_shrunk (S := T) a.collected t
    exact ⟨hshrunk.labelled hQ.1, mem_collect hQ.1 hQ.2.cached hcollected, hshrunk.id ▸ hQ.2.id,
      (hshrunk.bare q).trans hQ.2.bare⟩
  · exact ⟨hs.insert hfree, List.mem_cons_of_mem p hq, Shelf.insert_id_of_ne (hne hunused), rfl⟩
  · simpa only [UsbTree.setList, Function.update_of_ne (hne hunused)] using hQ.2.bare

/-- A new list is made for an item, or it has got one already. -/
theorem MayEnter.enterChild [DecidableEq P] (h : MayEnter T a s this item) (hs : s.Settled T)
    (hcached : ∀ q ∈ T.forest.path this, q ∈ s.shelf.cached) (hitem : item < (s.lists this).links.length)
    (henter : IsEnterable s this item) : ∃ child t, s.enterChild T a (s.shelf.id this) item = .ok (child, .ok, t) ∧
      child.isValid = true ∧ t.Rooted T ∧ ∀ q ∈ T.forest.path this, Kept s t q := by
  have hfind := hs.rooted.labelled.find_id (hcached this Forest.mem_path_self)
  have hlink := List.getElem?_eq_getElem hitem
  generalize (s.lists this).links[item] = child at hlink
  by_cases hchild : child.isValid = true ∧ child.nocacheBit = false
  · exact ⟨child, s, enterChild_linked h.continues hfind hlink hchild.1 hchild.2, hchild.1, hs.rooted,
      fun q hq => ⟨hcached q hq, rfl, rfl⟩⟩
  have hinvalid := hs.sound.link_invalid hlink hchild
  have hpossible := h.possible
  have hunfold : s.enterChild T a (s.shelf.id this) item = s.enterChildTemplate T a this item := by
    unfold UsbTree.enterChild
    rw [hfind]
  rw [hunfold, enterChildTemplate_unlinked h.continues hlink hinvalid] at hpossible
  have hcan : CanEnter T a s this item := by
    by_contra hcan
    exact h.enters ⟨h.continues, ⟨child, hlink, hinvalid⟩, henter, hcan⟩
  have hmakes := hs.sound.addToCache_makes hlink henter fun e => hpossible (by rw [e]; rfl)
  obtain ⟨id, s₁, t, hadd, hvalid, hset, -⟩ := hs.sound.enters hlink hinvalid (hmakes.adds_iff.mpr hcan)
  have hr : s.enterChild T a (s.shelf.id this) item = .ok (id, .ok, t) := by
    rw [hunfold, enterChildTemplate_unlinked h.continues hlink hinvalid]
    simp only [hadd, bind, Except.bind, hvalid, true_or, if_true, hset]
  refine ⟨id, t, hr, hvalid, enterChild_rooted hs.rooted hr, fun q hq => ?_⟩
  have hkept := addToCache_kept hs.rooted.labelled (hcached q hq) (h.keeps q hq) hadd
  unfold UsbTree.setChildList at hset
  obtain ⟨-, hset⟩ := of_assert hset
  obtain ⟨-, hset⟩ := of_assert hset
  cases hset
  exact ⟨hkept.cached, hkept.id, (setList_bare (UsbList.bare_setLink ..) q).trans hkept.bare⟩

/-! ## Names of lists that have been kept -/

theorem getDeviceById_of_data {items items' : FlatList DeviceItemData}
    (h : items.map (·.data) = items'.map (·.data)) (id : ℕ) :
    getDeviceById items id = getDeviceById items' id := by
  have hfind : ∀ l : FlatList DeviceItemData, l.findIdx? (·.data.devId = id) =
      (l.map (·.data)).findIdx? (·.devId = id) :=
    fun l => by rw [List.findIdx?_map]; rfl
  have hget : ∀ (l : FlatList DeviceItemData), getDeviceById l id =
      ((l.map (·.data)).findIdx? (·.devId = id)).bind fun idx => (l.map (·.data))[idx]?.map fun data =>
        (idx, data) := fun l => by
    unfold getDeviceById
    rw [hfind]
    simp only [bind, List.getElem?_map, Option.map_map]
    refine congrArg _ (funext fun idx => ?_)
    cases l[idx]? <;> rfl
  rw [hget, h, hget]

/-- The devices are the same. -/
theorem Kept.getVolumeName (hs : s.Rooted T) (ht : t.Rooted T) (hroot : T.deviceList ∈ s.shelf.cached)
    (h : Kept s t T.deviceList) (volume : VolumeItemData) : t.getVolumeName volume = s.getVolumeName volume := by
  obtain ⟨items, hitems, hget⟩ := hs.getListOfUsbDevices hroot
  obtain ⟨items', hitems', hget'⟩ := ht.getListOfUsbDevices h.cached
  have hdata := UsbList.deviceData_of_bare h.bare
  rw [hitems, hitems'] at hdata
  unfold UsbTree.getVolumeName
  rw [hget, hget']
  simp only [bind, Except.bind, getDeviceById_of_data hdata]

theorem deref_of_bare {α β : Type} {items items' : FlatList α} (h : FlatList.bare items' = FlatList.bare items)
    (f : α → Except Fault β) : (deref items'[item]? >>= fun x => f x.data) =
    (deref items[item]? >>= fun x => f x.data) := by
  have hget := congrArg (·[item]?) (congrArg (List.map (·.data)) h)
  simp only [FlatList.bare, List.map_map, List.getElem?_map, Function.comp_def] at hget
  generalize items[item]? = x at hget
  generalize items'[item]? = x' at hget
  cases x with
  | none =>
    cases x' with
    | none => rfl
    | some x' => cases hget
  | some x =>
    cases x' with
    | none => cases hget
    | some x' => exact congrArg f (Option.some.inj hget)

/-- The items of a list that has been kept have the same names. -/
theorem Kept.getItemName (hs : s.Rooted T) (ht : t.Rooted T) (hroot : T.deviceList ∈ s.shelf.cached)
    (h : Kept s t T.deviceList) (hq : Kept s t q) (kind : ListKind) (item : ℕ) :
    t.getItemName kind q item = s.getItemName kind q item := by
  have hbare := hq.bare
  unfold UsbTree.getItemName
  cases hlist : s.lists q with
  | devices items =>
    cases hlist' : t.lists q with
    | devices items' =>
      rw [hlist, hlist'] at hbare
      cases kind with
      | devices => exact deref_of_bare (UsbList.devices.inj hbare) fun device => pure device.displayName
      | volumes => rfl
      | dir => rfl
    | volumes items' => rw [hlist, hlist'] at hbare; cases hbare
    | dir items' => rw [hlist, hlist'] at hbare; cases hbare
  | volumes items =>
    cases hlist' : t.lists q with
    | devices items' => rw [hlist, hlist'] at hbare; cases hbare
    | volumes items' =>
      rw [hlist, hlist'] at hbare
      cases kind with
      | devices => rfl
      | volumes =>
        dsimp only
        rw [show t.getVolumeName = s.getVolumeName from funext (h.getVolumeName hs ht hroot)]
        exact deref_of_bare (UsbList.volumes.inj hbare) s.getVolumeName
      | dir => rfl
    | dir items' => rw [hlist, hlist'] at hbare; cases hbare
  | dir items =>
    cases hlist' : t.lists q with
    | devices items' => rw [hlist, hlist'] at hbare; cases hbare
    | volumes items' => rw [hlist, hlist'] at hbare; cases hbare
    | dir items' =>
      rw [hlist, hlist'] at hbare
      cases kind with
      | devices => rfl
      | volumes => rfl
      | dir => exact deref_of_bare (UsbList.dir.inj hbare) fun entry => pure entry.name

/-- Where items have names, the lists below them have titles. -/
theorem getChildListTitle_of_getItemName {kind : ListKind} {name : String} (h : s.getItemName kind p item = .ok name)
    (hfind : s.shelf.find listId = some p) (storageIsDirectory : Bool) :
    ∃ title, s.getChildListTitle storageIsDirectory listId item = .ok title := by
  unfold UsbTree.getItemName at h
  unfold UsbTree.getChildListTitle
  rw [hfind]
  dsimp only
  split at h
  · next items hlist =>
    obtain ⟨device, hdevice, -⟩ := of_deref h
    rw [hlist]
    exact ⟨_, by simp only [hdevice]; rfl⟩
  · next items hlist =>
    obtain ⟨volume, hvolume, hname⟩ := of_deref h
    rw [hlist]
    simp only [hvolume, deref, bind, Except.bind, hname]
    cases storageIsDirectory <;> exact ⟨_, rfl⟩
  · next items hlist =>
    obtain ⟨entry, hentry, -⟩ := of_deref h
    rw [hlist]
    exact ⟨_, by simp only [hentry]; rfl⟩
  · cases h

/-! ## Names that are different -/

/-- The names in each list are different. -/
structure DistinctSiblings (T : UsbSetup P) (s : UsbTree P) : Prop where
  devices : ((s.lists T.deviceList).deviceData.map (·.displayName)).Nodup
  volumes : ∀ device ∈ (s.lists T.deviceList).deviceData, (device.volumes.map (·.displayName)).Nodup
  directories : ∀ p ∈ s.shelf.cached, (s.lists p).names.Nodup

/-- All names can be components of a path. -/
structure ProperNames (T : UsbSetup P) (s : UsbTree P) : Prop where
  devices : ∀ device ∈ (s.lists T.deviceList).deviceData, Proper device.displayName
  volumes : ∀ device ∈ (s.lists T.deviceList).deviceData, ∀ info ∈ device.volumes, Proper info.displayName
  directories : ∀ p ∈ s.shelf.cached, ∀ name ∈ (s.lists p).names, Proper name

/-- There are fewer items than item IDs. -/
def FitsItemIds (s : UsbTree P) : Prop := ∀ p ∈ s.shelf.cached, (s.lists p).links.length < 2 ^ 32

end UsbTree

theorem findIdx?_of_nodup {α : Type} {l : List α} {f : α → String} {i : ℕ} {x : α} (hnodup : (l.map f).Nodup)
    (h : l[i]? = some x) : l.findIdx? (f · = f x) = some i := by
  obtain ⟨hlt, rfl⟩ := List.getElem?_eq_some_iff.mp h
  rw [List.findIdx?_eq_some_iff_getElem]
  refine ⟨hlt, by simp, fun j hj => ?_⟩
  have hne := mt (idx_eq_of_nodup hnodup (List.getElem?_eq_getElem (hj.trans hlt)) (List.getElem?_eq_getElem hlt)) hj.ne
  simpa using hne

namespace Trail

variable {place volume device : Place P} {above places : List (Place P)}

theorem item_lt (h : Trail T s (place :: above)) (hsize : s.FitsItemIds) : place.item < 2 ^ 32 :=
  Nat.lt_trans (UsbTree.lt_of_getItemName h.getItemName) (hsize _ h.cached)

/-- The lists of a trail are cached. -/
theorem path_cached (h : Trail T s (place :: above)) : ∀ q ∈ T.forest.path place.list, q ∈ s.shelf.cached := by
  generalize hplaces : place :: above = places at h
  induction h generalizing place above with
  | device hroot hname =>
    cases hplaces
    rw [Forest.path_of_root T.root]
    simpa using hroot
  | child hp hpar hlink hname habove ih =>
    cases hplaces
    rw [Forest.path_of_parent hpar]
    exact List.forall_mem_cons.mpr ⟨hp, ih rfl⟩

/-- The device of a trail is at the end of it. -/
theorem of_device (h : Trail T s [device]) :
    device.list = T.deviceList ∧ ∃ items entry, s.lists T.deviceList = .devices items ∧
    items[device.item]? = some entry ∧ entry.data.displayName = device.name := by
  cases h with
  | device hroot hname =>
    refine ⟨rfl, ?_⟩
    unfold UsbTree.getItemName at hname
    cases hlist : s.lists T.deviceList with
    | devices items =>
      rw [hlist] at hname
      obtain ⟨entry, hentry, hname⟩ := UsbTree.of_deref hname
      cases hname
      exact ⟨items, entry, rfl, hentry, rfl⟩
    | volumes items => rw [hlist] at hname; cases hname
    | dir items => rw [hlist] at hname; cases hname

/-- A volume of a trail. -/
theorem of_volume (hs : s.Settled T) (h : Trail T s [volume, device]) :
    ∃ devices entry items, device.list = T.deviceList ∧
    s.lists T.deviceList = .devices devices ∧ devices[device.item]? = some entry ∧
    s.lists volume.list = .volumes items ∧
    (∃ item info, items[volume.item]? = some item ∧ entry.data.volumes[volume.item]? = some info ∧
      s.getVolumeName item.data = .ok volume.name ∧ info.displayName = volume.name ∧
      s.getUrl item.data = .ok info.mountpointPath) ∧
    ∀ (j : ℕ) (item : ListItem VolumeItemData), items[j]? = some item →
      ∃ info, entry.data.volumes[j]? = some info ∧ s.getVolumeName item.data = .ok info.displayName := by
  cases h with
  | child hp hpar hlink hname habove =>
    obtain ⟨hdevice, devices, entry, hdevices, hentry, -⟩ := habove.of_device
    rw [hdevice] at hlink
    obtain ⟨entry', items, hentry', hitems, hnames⟩ := hs.volumeNames habove.root hdevices hp hlink
    obtain rfl := Option.some.inj (hentry.symm.trans hentry')
    refine ⟨devices, entry, items, hdevice, hdevices, hentry, hitems, ?_, fun j item hitem =>
      (hnames j item hitem).imp fun _ h => ⟨h.1, h.2.1⟩⟩
    unfold UsbTree.getItemName at hname
    rw [hitems] at hname
    obtain ⟨item, hitem, hname⟩ := UsbTree.of_deref hname
    obtain ⟨info, hinfo, hname', hurl⟩ := hnames _ item hitem
    exact ⟨item, info, hitem, hinfo, hname, Except.ok.inj (hname'.symm.trans hname), hurl⟩

/-- A directory or file of a trail. -/
theorem of_entry (h : Trail T s (place :: above)) (habove : 2 ≤ above.length) :
    ∃ items entry, s.lists place.list = .dir items ∧
    items[place.item]? = some entry ∧ entry.data.name = place.name := by
  have hname := h.getItemName
  obtain ⟨n, hn⟩ : ∃ n, above.length = n + 2 := ⟨above.length - 2, by omega⟩
  rw [hn] at hname
  unfold UsbTree.getItemName at hname
  cases hlist : s.lists place.list with
  | devices items => rw [hlist] at hname; cases hname
  | volumes items => rw [hlist] at hname; cases hname
  | dir items =>
    rw [hlist] at hname
    obtain ⟨entry, hentry, hname⟩ := UsbTree.of_deref hname
    exact ⟨items, entry, rfl, hentry, Except.ok.inj hname⟩

theorem proper (hs : s.Settled T) (h : Trail T s places) (hnames : s.ProperNames T) :
    ∀ place ∈ places, Proper place.name := by
  induction h with
  | device hroot hname =>
    obtain ⟨-, items, entry, hitems, hentry, e⟩ := (Trail.device hroot hname).of_device
    intro place hplace
    rw [List.mem_singleton.mp hplace, ← e]
    refine hnames.devices entry.data ?_
    rw [hitems]
    exact List.mem_map.mpr ⟨entry, List.mem_of_getElem? hentry, rfl⟩
  | @child p item name parent above hp hpar hlink hname habove ih =>
    have htrail := Trail.child hp hpar hlink hname habove
    intro place hplace
    rcases List.mem_cons.mp hplace with rfl | hplace
    · cases above with
      | nil =>
        obtain ⟨devices, entry, items, hdevice, hdevices, hentry, hitems, ⟨volume, info, hvolume, hinfo, -, e, -⟩, -⟩ :=
          htrail.of_volume hs
        rw [← e]
        refine hnames.volumes entry.data ?_ info (List.mem_of_getElem? hinfo)
        rw [hdevices]
        exact List.mem_map.mpr ⟨entry, List.mem_of_getElem? hentry, rfl⟩
      | cons place above =>
        obtain ⟨items, entry, hitems, hentry, e⟩ := htrail.of_entry (by simp)
        rw [← e]
        refine hnames.directories p hp _ ?_
        rw [show s.lists p = .dir items from hitems]
        exact List.mem_map.mpr ⟨entry, List.mem_of_getElem? hentry, rfl⟩
    · exact ih place hplace

end Trail

/-! ## The volume -/

variable {S : PathSetup P}

/-- An iteration that goes on up to an item, and stops there. -/
theorem forEachAccessed_stop {α β : Type} {items : List α} {apply : β → ℕ → α → Bool × β} {i : ℕ} {x : α} {b : β}
    (hi : i < 2 ^ 32) (hx : items[i]? = some x) (state : ℕ → β)
    (hbefore : ∀ j < i, ∀ y, items[j]? = some y → apply (state j) j y = (true, state (j + 1)))
    (hstop : apply (state i) i x = (false, b)) {left j : ℕ} (hj : j ≤ i) (hleft : i < j + left) :
    forEachAccessed items apply left j (state j) = b := by
  induction left generalizing j with
  | zero => omega
  | succ left ih =>
    have hlt := (List.getElem?_eq_some_iff.mp hx).1
    rw [forEachAccessed, Nat.mod_eq_of_lt (by omega)]
    rcases Nat.lt_or_eq_of_le hj with hj | rfl
    · have hget := List.getElem?_eq_getElem (Nat.lt_trans hj hlt)
      rw [hget]
      dsimp only
      rw [hbefore j hj _ hget]
      exact ih hj (by omega)
    · rw [hx]
      dsimp only
      rw [hstop]
      rfl

/-- The entire list is searched, up to the first item of this name. -/
theorem forEachNamed_visit {α : Type} {items : FlatList α} {name : α → Except Fault String}
    {kind : α → PathItemKind} {i : ℕ} {x : ListItem α} {component : String} (hi : i < 2 ^ 32)
    (hx : items[i]? = some x) (hname : name x.data = .ok component)
    (hbefore : ∀ j < i, ∀ y, items[j]? = some y → ∃ n, name y.data = .ok n ∧ n ≠ component) (k : PathItemKind) :
    forEachNamed S items 0 0 name kind (Search.visit component) ⟨false, 0, k⟩ = .ok ⟨true, i, kind x.data⟩ := by
  have hlt := (List.getElem?_eq_some_iff.mp hx).1
  unfold forEachNamed forEachItem endOfRange
  rw [if_neg (Nat.lt_irrefl 0)]
  dsimp only
  rw [if_neg (by omega)]
  refine forEachAccessed_stop hi hx (fun j => (.ok ⟨false, j, k⟩ : Except Fault Search)) (fun j hj y hy => ?_) ?_
      (Nat.zero_le i) ?_
  · obtain ⟨n, hn, hne⟩ := hbefore j hj y hy
    simp only [hn, Search.visit, if_neg hne]
  · simp only [hname, Search.visit, if_pos]
  · omega

namespace Trail

variable {place volume device : Place P} {above places : List (Place P)}

/-- The device is found by its name. -/
theorem getDeviceByName (h : Trail T s [device]) (hdistinct : s.DistinctSiblings T) (hitem : device.item < 2 ^ 32)
    {items : FlatList DeviceItemData} (hitems : s.lists T.deviceList = .devices items) :
    getDeviceByName items device.name = some device.item := by
  obtain ⟨-, items', entry, hitems', hentry, hname⟩ := h.of_device
  obtain rfl := UsbList.devices.inj (hitems.symm.trans hitems')
  have hnodup := hdistinct.devices
  rw [hitems, UsbList.deviceData, List.map_map] at hnodup
  have hfind := findIdx?_of_nodup hnodup hentry
  simp only [Function.comp, hname] at hfind
  rw [Tree.getDeviceByName, hfind, Option.map_some, Nat.mod_eq_of_lt hitem]

/-- The volume is found by its name. -/
theorem forEach_volume (hs : s.Settled S.tree) (h : Trail S.tree s [volume, device])
    (hdistinct : s.DistinctSiblings S.tree) (hitem : volume.item < 2 ^ 32) :
    s.forEach S (s.shelf.id volume.list) 0 0 (Search.visit volume.name) ⟨false, 0, .logoutLink⟩ =
      .ok (.ok, ⟨true, volume.item, .storageDevice⟩) := by
  obtain ⟨devices, entry, items, -, hdevices, hentry, hitems, ⟨item, info, hvolume, hinfo, hname, e, -⟩, hnames⟩ :=
    h.of_volume hs
  have hnodup := hdistinct.volumes entry.data (by
    rw [hdevices]
    exact List.mem_map.mpr ⟨entry, List.mem_of_getElem? hentry, rfl⟩)
  have hfind : s.shelf.find (s.shelf.id volume.list) = some volume.list := hs.rooted.labelled.find_id h.cached
  unfold UsbTree.forEach
  rw [hfind]
  dsimp only
  rw [hitems]
  dsimp only
  rw [forEachNamed_visit hitem hvolume hname fun j hj y hy => ?_]
  · rfl
  · obtain ⟨info', hinfo', hname'⟩ := hnames j y hy
    exact ⟨info'.displayName, hname', fun e' => hj.ne (idx_eq_of_nodup hnodup hinfo' hinfo (e'.trans e.symm))⟩

/-- Entering the item below which a list of the trail is. -/
theorem enterChild_linked [DecidableEq P] (hs : s.Settled T) (h : Trail T s (place :: volume :: above))
    (hcontinue : a.mayContinue = true) :
    s.enterChild T a (s.shelf.id volume.list) volume.item = .ok (s.shelf.id place.list, .ok, s) := by
  cases h with
  | child hp hpar hlink hname habove =>
    exact UsbTree.enterChild_linked hcontinue (hs.rooted.labelled.find_id habove.cached) hlink
      (hs.rooted.labelled.valid _ hp) (hs.rooted.labelled.cacheable _ hp)

/-- An item that links to a list is a directory. -/
theorem isDirectory (hs : s.Settled T) (h : Trail T s (place :: volume :: above)) {items : FlatList ItemData}
    {entry : ListItem ItemData} (hlist : s.lists volume.list = .dir items) (hentry : items[volume.item]? = some entry) :
    entry.data.kind = .directory := by
  cases h with
  | child hp hpar hlink hname habove =>
    refine hs.directories _ _ _ _ hlink (hs.rooted.labelled.valid _ hp) ?_
    rw [hlist, UsbList.entryKinds, List.getElem?_map, hentry]
    rfl

variable {w : Walk P RealizeUrlResult} {child : ListId}

/-- `enter_volume` enters the device. -/
theorem enterVolume_device [DecidableEq P] (hs : s.Settled S.tree) (h : Trail S.tree s [device])
    (hdistinct : s.DistinctSiblings S.tree) (hsize : s.FitsItemIds) (hname : device.name ≠ "") (hw : w.tree = s)
    (henter : s.enterChild S.tree (S.answers w.entered) (s.shelf.id device.list) device.item = .ok (child, .ok, t))
    (hvalid : child.isValid = true) :
    enterVolume S device.name "" w = .ok (.enter .ok, { w with
      tree := t
      entered := w.entered + 1
      parentLinkCandidate := (s.shelf.id device.list, device.item)
      result := w.result.setItemData (s.shelf.id device.list) device.item .storageDevice }) := by
  obtain ⟨items, hitems, hget⟩ := hs.rooted.getListOfUsbDevices h.root
  have hroot := h.of_device.1
  unfold enterVolume
  rw [if_neg hname, hw, hget]
  dsimp only [bind, Except.bind]
  rw [h.getDeviceByName hdistinct (h.item_lt hsize) hitems]
  dsimp only
  rw [← hroot, henter]
  dsimp only
  rw [if_neg (by simp [hvalid]), if_pos rfl]
  rfl

/-- `enter_volume` enters the device and the volume. -/
theorem enterVolume_volume [DecidableEq P] (hs : s.Settled S.tree) (h : Trail S.tree s [volume, device])
    (hdistinct : s.DistinctSiblings S.tree) (hsize : s.FitsItemIds)
    (hnames : ∀ place ∈ [volume, device], place.name ≠ "") (hw : w.tree = s)
    (hcontinue : (S.answers w.entered).mayContinue = true)
    (henter : s.enterChild S.tree (S.answers (w.entered + 1)) (s.shelf.id volume.list) volume.item =
      .ok (child, .ok, t)) (hvalid : child.isValid = true) :
    enterVolume S device.name volume.name w = .ok (.enter .ok, { w with
      tree := t
      entered := w.entered + 2
      dirListId := child
      parentLink := (s.shelf.id device.list, device.item)
      parentLinkCandidate := (s.shelf.id volume.list, volume.item)
      result := w.result.setItemData (s.shelf.id volume.list) volume.item .storageDevice }) := by
  obtain ⟨items, hitems, hget⟩ := hs.rooted.getListOfUsbDevices h.root
  have hdevice := h.tail
  have hroot := hdevice.of_device.1
  have hlinked := h.enterChild_linked hs hcontinue
  have hvolumes := hs.rooted.labelled.valid _ h.cached
  unfold enterVolume
  rw [if_neg (hnames device (by simp)), hw, hget]
  dsimp only [bind, Except.bind]
  rw [hdevice.getDeviceByName hdistinct (hdevice.item_lt hsize) hitems]
  dsimp only
  rw [← hroot, hlinked]
  dsimp only
  rw [if_neg (by simp [hvolumes]), if_neg (hnames volume (by simp)),
    h.forEach_volume hs hdistinct (h.item_lt hsize)]
  dsimp only
  rw [if_neg (by simp), Nat.mod_eq_of_lt (h.item_lt hsize), henter]
  dsimp only
  rw [if_pos hvalid]
  rfl

end Trail

/-! ## The directories -/

section

variable {S : PathSetup P} {w : Walk P R} {autoSearch isLastComponent : Bool}
  {foundItem : ListId → ℕ → PathItemKind → R → LocationError × R} {range : ℕ × ℕ}

/-- The lookup of a component in a directory, wherever the component is expected. -/
theorem lookupComponent_dir (S : PathSetup P) {items : FlatList ItemData} (component : String)
    (hfind : s.shelf.find listId = some p) (hlist : s.lists p = .dir items)
    (hrange : autoSearch = true ∨ range = (0, 0)) :
    ∃ search range', lookupComponent S s listId autoSearch component range = .ok (.ok, search, range') ∧
      search.Sound items component ∧
      (search.found = true ↔ ∃ i item, items[i % 2 ^ 32]? = some item ∧ item.data.name = component) ∧
      (autoSearch = false → range' = (0, 0)) := by
  cases autoSearch with
  | true =>
    obtain ⟨search, range', hlookup, hsound, hfound⟩ := lookupComponent_range (S := S) hfind hlist component range
    exact ⟨search, range', hlookup, hsound, hfound, nofun⟩
  | false =>
    obtain rfl := hrange.resolve_left nofun
    exact ⟨_, _, lookupComponent_entire hfind hlist, searchDir_sound _ _, searchDir_found_iff _, fun _ => rfl⟩

/-- A component is found by its name, wherever it is expected. -/
theorem followComponent_found [DecidableEq P] (S : PathSetup P)
    (foundItem : ListId → ℕ → PathItemKind → R → LocationError × R) (isLastComponent : Bool)
    {items : FlatList ItemData} {entry : ListItem ItemData} (hfind : w.tree.shelf.find w.dirListId = some p)
    (hlist : w.tree.lists p = .dir items) (hnodup : (UsbList.dir items).names.Nodup) (hitem : item < 2 ^ 32)
    (hentry : items[item]? = some entry) (hrange : autoSearch = true ∨ range = (0, 0)) :
    ∃ range', followComponent S autoSearch foundItem entry.data.name isLastComponent range w =
      (fun r => (r.1, r.2.1, range', r.2.2)) <$> followFound S foundItem isLastComponent item
      (.entry entry.data.kind) w ∧
      (autoSearch = false → range' = (0, 0)) := by
  obtain ⟨search, range', hlookup, hsound, hiff, hrange'⟩ := lookupComponent_dir S entry.data.name hfind hlist hrange
  have hfound := hiff.mpr ⟨item, entry, by rw [Nat.mod_eq_of_lt hitem, hentry], rfl⟩
  have hself : Search.Sound items entry.data.name ⟨true, item, .entry entry.data.kind⟩ := fun _ =>
    ⟨entry, by rw [Nat.mod_eq_of_lt hitem, hentry], rfl, rfl⟩
  obtain ⟨hidx, hkind⟩ := (hsound.agrees hnodup hself hfound).2 hfound
  refine ⟨range', ?_, hrange'⟩
  unfold followComponent
  rw [hlookup]
  dsimp only [bind, Except.bind, pure, Except.pure]
  rw [if_neg (not_not_intro rfl), if_neg (by simp [hfound]), hidx, hkind, Nat.mod_eq_of_lt hitem]
  rfl

/-- A directory is entered. -/
theorem followFound_directory [DecidableEq P] {child : ListId} {error : EnterError}
    (henter : w.tree.enterChild S.tree (S.answers w.entered) w.dirListId item = .ok (child, error, t))
    (hvalid : child.isValid = true)
    (hfound : (foundItem w.dirListId item (.entry .directory) w.result).1 = .enter .ok) :
    followFound S foundItem isLastComponent item (.entry .directory) w = .ok (true, .enter .ok, { w with
      tree := t
      entered := w.entered + 1
      parentLink := w.parentLinkCandidate
      parentLinkCandidate := (w.dirListId, item)
      dirListId := child
      result := (foundItem w.dirListId item (.entry .directory) w.result).2 }) := by
  unfold followFound
  dsimp only
  rw [if_pos (by rfl)]
  rw [henter]
  dsimp only [bind, Except.bind, pure, Except.pure]
  rw [if_neg (by simp [hvalid]), hfound]
  rfl

/-- A file is the last component. -/
theorem followFound_file [DecidableEq P]
    (hfound : (foundItem w.dirListId item (.entry .regularFile) w.result).1 = .enter .ok) :
    followFound S foundItem true item (.entry .regularFile) w = .ok (true, .enter .ok, { w with
      parentLink := w.parentLinkCandidate
      result := (foundItem w.dirListId item (.entry .regularFile) w.result).2 }) := by
  unfold followFound
  dsimp only
  rw [if_neg (by simp [PathItemKind.isDirectory]), hfound]
  rfl

/-- The walk after the directories below which `place` is have been followed. -/
def Walk.along (s : UsbTree P) (foundItem : ListId → ℕ → PathItemKind → R → LocationError × R) :
    Place P → List (Place P) → Walk P R → Walk P R
  | _, [], w => w
  | place, dir :: dirs, w =>
    let w := Walk.along s foundItem dir dirs w
    { w with
      entered := w.entered + 1
      parentLink := w.parentLinkCandidate
      parentLinkCandidate := (s.shelf.id dir.list, dir.item)
      dirListId := s.shelf.id place.list
      result := (foundItem (s.shelf.id dir.list) dir.item (.entry .directory) w.result).2 }

theorem Walk.along_tree (foundItem : ListId → ℕ → PathItemKind → R → LocationError × R)
    (s : UsbTree P) (place : Place P) (dirs : List (Place P)) (w : Walk P R) :
    (w.along s foundItem place dirs).tree = w.tree := by
  induction dirs generalizing place with
  | nil => rfl
  | cons dir dirs ih => exact ih dir

theorem Walk.along_dirListId (foundItem : ListId → ℕ → PathItemKind → R → LocationError × R)
    {s : UsbTree P} {place : Place P} {dirs : List (Place P)} {w : Walk P R}
    (hstart : ∀ bottom ∈ (place :: dirs).getLast?, w.dirListId = s.shelf.id bottom.list) :
    (w.along s foundItem place dirs).dirListId = s.shelf.id place.list := by
  cases dirs with
  | nil => exact hstart place rfl
  | cons dir dirs => rfl

theorem Walk.along_candidate (foundItem : ListId → ℕ → PathItemKind → R → LocationError × R)
    (s : UsbTree P) (place : Place P) (dirs : List (Place P)) (w : Walk P R) :
    (w.along s foundItem place dirs).parentLinkCandidate =
      (dirs.head?.map fun dir => (s.shelf.id dir.list, dir.item)).getD w.parentLinkCandidate := by
  cases dirs <;> rfl

/-- What is the same after each directory that is found. -/
theorem Walk.along_result {γ : Type} (f : R → γ) (foundItem : ListId → ℕ → PathItemKind → R → LocationError × R)
    (hf : ∀ listId item r, f (foundItem listId item (.entry .directory) r).2 = f r)
    (s : UsbTree P) (place : Place P) (dirs : List (Place P)) (w : Walk P R) :
    f (w.along s foundItem place dirs).result = f w.result := by
  induction dirs generalizing place with
  | nil => rfl
  | cons dir dirs ih => exact (hf ..).trans (ih dir)

/-- A trail is followed along the directories above `place`. -/
theorem Trail.follow [DecidableEq P] {place : Place P} {dirs above : List (Place P)} (hs : s.Settled S.tree)
    (hdistinct : s.DistinctSiblings S.tree) (hsize : s.FitsItemIds) (hcontinue : ∀ n, (S.answers n).mayContinue = true)
    (hfound : ∀ listId item r, (foundItem listId item (.entry .directory) r).1 = .enter .ok)
    (h : Trail S.tree s (place :: (dirs ++ above))) (habove : 2 ≤ above.length) (hw : w.tree = s)
    (hstart : ∀ bottom ∈ (place :: dirs).getLast?, w.dirListId = s.shelf.id bottom.list) (rest : List (List Char)) :
    followComponents S false foundItem ((dirs.map (·.name.toList)).reverse ++ rest) (.enter .ok) (0, 0) w =
      followComponents S false foundItem rest (.enter .ok) (0, 0) (w.along s foundItem place dirs) := by
  induction dirs generalizing place rest with
  | nil => rfl
  | cons dir dirs ih =>
    have hstart' : ∀ bottom ∈ (dir :: dirs).getLast?, w.dirListId = s.shelf.id bottom.list := by
      rwa [List.getLast?_cons_cons] at hstart
    have hdir : Trail S.tree s (dir :: (dirs ++ above)) := h.tail
    rw [List.map_cons, List.reverse_cons, List.append_assoc, List.singleton_append, ih hdir hstart', followComponents,
      if_neg (by decide)]
    obtain ⟨items, entry, hlist, hentry, hname⟩ := hdir.of_entry (by rw [List.length_append]; omega)
    generalize hw₁ : w.along s foundItem dir dirs = w₁
    have htree : w₁.tree = s := by rw [← hw₁, Walk.along_tree, hw]
    have hid : w₁.dirListId = s.shelf.id dir.list := by rw [← hw₁, Walk.along_dirListId _ hstart']
    have hfind : w₁.tree.shelf.find w₁.dirListId = some dir.list := by
      rw [htree, hid]
      exact hs.rooted.labelled.find_id hdir.cached
    obtain ⟨range', hcomponent, hrange'⟩ := followComponent_found S foundItem (rest = [])
      hfind (htree ▸ hlist) (hlist ▸ hdistinct.directories _ hdir.cached) (hdir.item_lt hsize) hentry (.inr rfl)
    obtain rfl := hrange' rfl
    have hkind := h.isDirectory hs hlist hentry
    have henter : w₁.tree.enterChild S.tree (S.answers w₁.entered) w₁.dirListId dir.item =
        .ok (s.shelf.id place.list, .ok, s) := by
      rw [htree, hid]
      exact h.enterChild_linked hs (hcontinue _)
    have hvalid := hs.rooted.labelled.valid _ h.cached
    rw [hname, hkind, followFound_directory henter hvalid (hfound ..)] at hcomponent
    rw [String.ofList_toList, hcomponent]
    change followComponents S false foundItem rest (.enter .ok) (0, 0) _ = _
    simp only [Walk.along, hw₁, hid, htree]

/-- The tree after the item at the end of a trail has been entered: the lists of the trail have been kept. -/
structure Entered (T : UsbSetup P) (s t : UsbTree P) (p : P) : Prop where
  rooted : t.Rooted T
  kept : ∀ q ∈ T.forest.path p, s.Kept t q

/-- The item at the end of a trail is followed. -/
theorem Trail.follow_last [DecidableEq P] (autoSearch : Bool) {place : Place P} {above : List (Place P)}
    (hs : s.Settled S.tree) (hdistinct : s.DistinctSiblings S.tree) (hsize : s.FitsItemIds)
    (h : Trail S.tree s (place :: above)) (habove : 2 ≤ above.length)
    (hmay : ∀ n, s.MayEnter S.tree (S.answers n) place.list place.item) (hw : w.tree = s)
    (hid : w.dirListId = s.shelf.id place.list)
    (hfound : ∀ kind, (foundItem w.dirListId place.item (.entry kind) w.result).1 = .enter .ok)
    (hrange : autoSearch = true ∨ range = (0, 0)) :
    ∃ kind w', followComponents S autoSearch foundItem [place.name.toList] (.enter .ok) range w = .ok (.enter .ok, w') ∧
      w'.result = (foundItem w.dirListId place.item (.entry kind) w.result).2 ∧ w'.parentLink = w.parentLinkCandidate ∧
      Entered S.tree s w'.tree place.list := by
  obtain ⟨items, entry, hlist, hentry, hname⟩ := h.of_entry habove
  have hfind : w.tree.shelf.find w.dirListId = some place.list := by
    rw [hw, hid]
    exact hs.rooted.labelled.find_id h.cached
  have hcached := h.path_cached
  obtain ⟨range', hcomponent, -⟩ := followComponent_found S foundItem true
    hfind (hw ▸ hlist) (hlist ▸ hdistinct.directories _ h.cached) (h.item_lt hsize) hentry hrange
  rw [followComponents, if_neg (by decide), String.ofList_toList, ← hname,
    decide_eq_true (rfl : ([] : List (List Char)) = [])]
  refine ⟨entry.data.kind, ?_⟩
  cases hkind : entry.data.kind with
  | directory =>
    have henterable : s.IsEnterable place.list place.item := by
      unfold UsbTree.IsEnterable
      rw [hlist]
      intro entry' hentry'
      obtain rfl := Option.some.inj (hentry.symm.trans hentry')
      exact hkind
    obtain ⟨child, t, henter, hvalid, hrooted, hkept⟩ := (hmay w.entered).enterChild hs hcached
      (UsbTree.lt_of_getItemName h.getItemName) henterable
    rw [hkind, followFound_directory (by rw [hw, hid]; exact henter) hvalid (hfound .directory)] at hcomponent
    rw [hcomponent]
    exact ⟨_, rfl, rfl, rfl, hrooted, hkept⟩
  | regularFile =>
    rw [hkind, followFound_file (hfound .regularFile)] at hcomponent
    rw [hcomponent]
    refine ⟨_, rfl, rfl, rfl, ?_, fun q hq => ?_⟩
    · exact hw ▸ hs.rooted
    · change s.Kept w.tree q
      rw [hw]
      exact ⟨hcached q hq, rfl, rfl⟩

end

/-! ## The example -/

namespace UsbTree

theorem exampleTree_names : exampleTree.ProperNames exampleSetup where
  devices := by decide +kernel
  volumes := by decide +kernel
  directories := by decide +kernel

theorem exampleTree_distinct : exampleTree.DistinctSiblings exampleSetup where
  devices := by decide +kernel
  volumes := by decide +kernel
  directories := by decide +kernel

theorem exampleTree_size : exampleTree.FitsItemIds := by
  unfold FitsItemIds
  decide +kernel

theorem exampleTree_enterChild : ∀ item < 2,
    (exampleTree.enterChild exampleSetup (examplePaths.answers 0)
      (exampleTree.shelf.id 2) item).toOption.isSome = true ∧
      ¬ FailsToEnter exampleSetup (examplePaths.answers 0) exampleTree 2 item := by
  decide +kernel

theorem exampleTree_mayEnter {item : ℕ} (hitem : item < 2) (n : ℕ) :
    exampleTree.MayEnter exampleSetup (examplePaths.answers n) 2 item where
  continues := rfl
  possible he := by
    obtain ⟨hok, -⟩ := exampleTree_enterChild item hitem
    rw [show exampleTree.enterChild exampleSetup (examplePaths.answers 0) (exampleTree.shelf.id 2) item =
      _ from he] at hok
    cases hok
  enters := (exampleTree_enterChild item hitem).2
  keeps := nofun

end UsbTree

end Listbrokers.Tree
