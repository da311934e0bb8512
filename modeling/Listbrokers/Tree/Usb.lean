import Listbrokers.Tree.Shelf
import Mathlib.Data.List.Perm.Basic

/-!
# The USB list tree

The lists of `usb_list.hh`, all of them flat, and the operations of
`USB::ListTree` that change which lists are cached or linked: the signals of
MounTA, entering a child, the garbage collector, and what these call.

What the surroundings answer during an operation is given by `Answers`: whether
the cache accepts a list, the ID it gets, what the garbage collector discards,
and what is found on the file system. A failed assertion ends the program,
provided that assertions have been compiled in. `LRU::KilledLists` is left out,
as only tiled lists add to it.
-/

namespace Listbrokers.Tree

open Framework Tiles

/-- The `ListError` codes of entering a child. -/
inductive EnterError
  | ok
  | internal
  | invalidId
  | interrupted
  | physicalMediaIo
  deriving DecidableEq, Repr

/-- Why an operation has no result. -/
inductive Fault
  /-- `msg_log_assert` has failed. -/
  | assertion
  /-- A null pointer is dereferenced. -/
  | crash
  /-- The enumeration of sublists goes in circles. -/
  | endless
  /-- The surroundings do not answer like this. -/
  | impossible
  deriving DecidableEq, Repr

/-- `ListItemKind`, as far as directories contain it. -/
inductive ListItemKind
  | directory
  | regularFile
  deriving DecidableEq, Repr

/-- `DeviceItemData::VolumeInfo`. -/
structure VolumeInfo where
  number : ℕ
  displayName : String
  mountpointPath : String
  deriving DecidableEq, Repr

/-- `DeviceItemData`. -/
structure DeviceItemData where
  devId : ℕ
  displayName : String
  usbPort : String
  volumes : List VolumeInfo
  deriving DecidableEq, Repr

/-- `VolumeItemData`. -/
structure VolumeItemData where
  deviceId : ℕ
  number : ℕ
  deriving DecidableEq, Repr

/-- `ItemData`. -/
structure ItemData where
  name : String
  kind : ListItemKind
  deriving DecidableEq, Repr

/-! ## Flat lists -/

section

variable {α : Type}

/-- The items of a `FlatList`. -/
abbrev FlatList (α : Type) := List (ListItem α)

namespace FlatList

variable (items : FlatList α)

def links : List ListId := items.map (·.child)

/-- `append_unsorted` of a new item. -/
def appendUnsorted (data : α) : FlatList α := items ++ [⟨.invalid, data⟩]

/-- `insert_before`. -/
def insertBefore (idx : ℕ) (data : α) : FlatList α := items.insertIdx idx ⟨.invalid, data⟩

/-- `lookup_item_id_by_child_id`. -/
def lookupItemIdByChildId (childId : ListId) : Option ℕ := items.findIdx? (·.child = childId)

/-- Replace the link of an item. -/
def setLink (idx : ℕ) (child : ListId) : FlatList α := items.modify idx fun item => { item with child := child }

/-- `obliviate_child` of a list. -/
def obliviateChild (childId : ListId) : FlatList α :=
  match items.lookupItemIdByChildId childId with
  | none => items
  | some idx => items.setLink idx .invalid

end FlatList

end

/-- The items of a list of the tree. -/
inductive UsbList
  | devices (items : FlatList DeviceItemData)
  | volumes (items : FlatList VolumeItemData)
  | dir (items : FlatList ItemData)

namespace UsbList

/-- The child links of the items. -/
def links : UsbList → List ListId
  | devices items => FlatList.links items
  | volumes items => FlatList.links items
  | dir items => FlatList.links items

def setLink (idx : ℕ) (child : ListId) : UsbList → UsbList
  | devices items => .devices (FlatList.setLink items idx child)
  | volumes items => .volumes (FlatList.setLink items idx child)
  | dir items => .dir (FlatList.setLink items idx child)

/-- `obliviate_child` of the three kinds of lists. -/
def obliviateChild (childId : ListId) : UsbList → UsbList
  | devices items => .devices (FlatList.obliviateChild items childId)
  | volumes items => .volumes (FlatList.obliviateChild items childId)
  | dir items => .dir (FlatList.obliviateChild items childId)

/-- `enumerate_direct_sublists`. -/
def enumerateDirectSublists : UsbList → List ListId
  | devices _ => []
  | volumes items => (FlatList.links items).filter ListId.isValid
  | dir items => (FlatList.links items).filter ListId.isValid

end UsbList

/-! ## The tree -/

/-- The tree of list objects, of which the device list is the root, and whether assertions have been compiled in. -/
structure UsbSetup (P : Type) where
  forest : Forest P
  deviceList : P
  root : forest.parent deviceList = none
  assertions : Bool

/-- `USB::ListTree` with its lists. -/
structure UsbTree (P : Type) where
  shelf : Shelf P
  lists : P → UsbList
  devicesListId : ListId

/-- What the surroundings of an operation answer. -/
structure Answers (P : Type) where
  mayContinue : Bool
  /-- The list object that the cache accepts, and its ID. -/
  inserted : Option (P × ListId)
  /-- What the garbage collector discards in an insertion. -/
  collected : List P
  /-- What it discards when the object with this ID is unpinned, if it is pinned. -/
  unpinned : ListId → List P
  /-- The order in which a kill list is purged. -/
  toposortForPurge : List ListId → List ListId
  /-- The ID for a list that is inserted again. -/
  newId : ListId
  /-- The directories and the regular files in a path, if it can be read. -/
  readDir : String → Option (List String × List String)

variable {P : Type} [DecidableEq P] (S : UsbSetup P) (a : Answers P)

/-- `msg_log_assert`. -/
def UsbSetup.assert (c : Prop) [Decidable c] : Except Fault Unit :=
  if S.assertions = true ∧ ¬ c then .error .assertion else .ok ()

/-- The answers are possible. -/
def possible (c : Prop) [Decidable c] : Except Fault Unit := if c then .ok () else .error .impossible

/-- What a pointer points to, unless it is null. -/
def deref {α : Type} : Option α → Except Fault α
  | none => .error .crash
  | some x => .ok x

namespace UsbTree

variable (s : UsbTree P)

/-- Change the items of a list. -/
def setList (p : P) (items : UsbList) : UsbTree P := { s with lists := Function.update s.lists p items }

/-- `LRU::Cache::discard`. -/
def discard (p : P) : UsbTree P :=
  { s with
    shelf := s.shelf.remove p
    lists := match S.forest.parent p with
      | none => s.lists
      | some q => Function.update s.lists q ((s.lists q).obliviateChild (s.shelf.id p)) }

/-- The garbage collector discards objects, one after the other. -/
def collect (victims : List P) (s : UsbTree P) : UsbTree P :=
  victims.foldl (fun s p => if p ∈ s.shelf.cached then s.discard S p else s) s

/-- `add_child_list_to_cache`, for a list that is created with these items. -/
def addChildListToCache (parent : P) (items : UsbList) : Except Fault (ListId × UsbTree P) :=
  match a.inserted with
  | none => .ok (.invalid, s)
  | some (p, id) => do
    possible (S.forest.parent p = some parent ∧ s.shelf.Unused S.forest p ∧ s.shelf.Free id)
    let s := { s with shelf := s.shelf.insert p id }.setList p items
    return (id, s.collect S a.collected)

/-- `ListTreeManager::reinsert_list`. -/
def reinsertList (id : ListId) : Except Fault (ListId × UsbTree P) := do
  let p ← deref (s.shelf.find id)
  possible ((s.shelf.remove p).Free a.newId)
  S.assert (a.newId ≠ id)
  return (a.newId, { s with shelf := s.shelf.insertAgain p a.newId })

/-! ## Purging -/

/-- The loop of `LRU::Entry::enumerate_tree_of_sublists`, over the nodes that have not been processed. -/
def enumerateTreeOfSublists : ℕ → List ListId → Except Fault (List ListId)
  | _, [] => .ok []
  | 0, _ :: _ => .error .endless
  | n + 1, id :: nodes => do
    let p ← deref (s.shelf.find id)
    let rest ← enumerateTreeOfSublists n (nodes ++ (s.lists p).enumerateDirectSublists)
    return id :: rest

/-- `LRU::Cache::purge_entries`. -/
def purgeEntries : List ListId → UsbTree P → UsbTree P
  | [], s => s
  | id :: killList, s =>
    match s.shelf.find id with
    | none => purgeEntries killList s
    | some p => purgeEntries killList ((s.collect S (a.unpinned id)).discard S p)

/-- `ListTreeManager::purge_subtree`. -/
def purgeSubtree (oldId newId : ListId) (setRoot : UsbTree P → Except Fault (UsbTree P)) : Except Fault (UsbTree P) :=
  match if oldId.isValid then s.shelf.find oldId else none with
  | none => setRoot s
  | some _ => do
    let killList ← s.enumerateTreeOfSublists s.shelf.cached.length [oldId]
    if newId.isValid = false then do
      let s ← setRoot s
      let sorted := a.toposortForPurge killList
      possible (sorted.Perm killList)
      return s.purgeEntries S a sorted
    else do
      let s ← setRoot (if oldId = newId then s else s.purgeEntries S a [oldId])
      let sorted := a.toposortForPurge killList.tail
      possible (sorted.Perm killList.tail)
      return s.purgeEntries S a sorted

/-! ## Entering a child -/

/-- `DeviceList::get_device_by_id`, with the index of the device. -/
def getDeviceById (items : FlatList DeviceItemData) (id : ℕ) : Option (ℕ × DeviceItemData) := do
  let idx ← items.findIdx? (·.data.devId = id)
  let item ← items[idx]?
  return (idx, item.data)

/-- `USB::ListTree::get_list_of_usb_devices`, and its items. -/
def getListOfUsbDevices : Except Fault (P × FlatList DeviceItemData) := do
  let p ← deref (s.shelf.find s.devicesListId)
  match s.lists p with
  | .devices items => return (p, items)
  | _ => .error .crash

/-- `VolumeItemData::get_url`. -/
def getUrl (volume : VolumeItemData) : Except Fault String := do
  let (_, devices) ← s.getListOfUsbDevices
  let (_, device) ← deref (getDeviceById devices volume.deviceId)
  let info ← deref (device.volumes.find? fun info => volume.number ≤ info.number)
  return info.mountpointPath

/-- `get_parent_link`, for the items of the parent. -/
def getParentLink (p parent : P) : Option ℕ := do
  let _ ← s.shelf.find (s.shelf.id p)
  (s.lists parent).links.findIdx? (· = s.shelf.id p)

/-- `USB::Helpers::construct_fspath_to_item`, for an item of the first list of the path to the root; `none` if a list is
not linked. -/
def constructFspathToItem : List P → ℕ → Except Fault (Option String)
  | p :: parent :: path, item => do
    match s.lists p with
    | .dir items =>
      let entry ← deref items[item]?
      match s.getParentLink p parent with
      | none => return none
      | some idx =>
        match ← constructFspathToItem (parent :: path) idx with
        | none => return none
        | some base => return some (base ++ "/" ++ entry.data.name)
    | .volumes items =>
      let volume ← deref items[item]?
      some <$> s.getUrl volume.data
    | .devices _ => .error .crash
  | _, _ => .error .crash

/-- The items of a `DirList` after `fill_from_file_system`. -/
def fillFromFileSystem (directories files : List String) : FlatList ItemData :=
  (directories.mergeSort (· ≤ ·)).map (fun name => ⟨.invalid, name, .directory⟩) ++
    (files.mergeSort (· ≤ ·)).map fun name => ⟨.invalid, name, .regularFile⟩

/-- `attach_new_dirlist`. -/
def attachNewDirlist (parent : P) (path : String) : Except Fault (ListId × EnterError × UsbTree P) := do
  let (id, s) ← s.addChildListToCache S a parent (.dir [])
  if id.isValid = false then return (.invalid, .internal, s)
  else do
    let p ← deref (s.shelf.find id)
    match a.readDir path with
    | none => return (.invalid, .physicalMediaIo, s)
    | some (directories, files) =>
      return (id, .ok, s.setList p (.dir (fillFromFileSystem directories files)))

/-- `fill_volume_list`. -/
def fillVolumeList (device : DeviceItemData) : FlatList VolumeItemData :=
  device.volumes.map fun info => ⟨.invalid, device.devId, info.number⟩

/-- `DeviceList::enter_child`: how the new list is added to the cache. -/
def addVolumeList (this : P) (device : DeviceItemData) : Except Fault (ListId × EnterError × UsbTree P) := do
  let (id, s) ← s.addChildListToCache S a this (.volumes [])
  if id.isValid = false then return (id, .internal, s)
  else do
    let p ← deref (s.shelf.find id)
    return (id, .ok, s.setList p (.volumes (fillVolumeList device)))

/-- `VolumeList::enter_child`. -/
def addRootDirectory (this : P) (volume : VolumeItemData) : Except Fault (ListId × EnterError × UsbTree P) := do
  let path ← s.getUrl volume
  s.attachNewDirlist S a this path

/-- `DirList::enter_child`. -/
def addDirectory (this : P) (item : ℕ) (data : ItemData) : Except Fault (ListId × EnterError × UsbTree P) :=
  if data.kind = .directory then do
    match ← s.constructFspathToItem (S.forest.path this) item with
    | none => return (.invalid, .internal, s)
    | some path => s.attachNewDirlist S a this path
  else return (.invalid, .invalidId, s)

/-- The `add_to_cache` function of a list, for an item of it. -/
def addToCache (this : P) (item : ℕ) : Except Fault (ListId × EnterError × UsbTree P) :=
  match s.lists this with
  | .devices items => do
    let device ← deref items[item]?
    s.addVolumeList S a this device.data
  | .volumes items => do
    let volume ← deref items[item]?
    s.addRootDirectory S a this volume.data
  | .dir items => do
    let entry ← deref items[item]?
    s.addDirectory S a this item entry.data

/-- `ListItem_::set_child_list`, as `enter_child_template` calls it. -/
def setChildList (this : P) (item : ℕ) (newId : ListId) : Except Fault (UsbTree P) := do
  S.assert (newId.isValid = true)
  S.assert (∀ child ∈ (s.lists this).links[item]?, child.isValid = false)
  return s.setList this ((s.lists this).setLink item newId)

/-- `enter_child_template`. -/
def enterChildTemplate (this : P) (item : ℕ) : Except Fault (ListId × EnterError × UsbTree P) :=
  if a.mayContinue then
    match (s.lists this).links[item]? with
    | none => .ok (.invalid, .invalidId, s)
    | some cachedChildId =>
      if cachedChildId.isValid = true ∧ cachedChildId.nocacheBit = false then .ok (cachedChildId, .ok, s)
      else do
        let (newId, error, s) ← s.addToCache S a this item
        let s ← s.purgeSubtree S a cachedChildId newId fun s =>
          if newId.isValid = true ∨ error ≠ .invalidId then s.setChildList S this item newId else .ok s
        return (newId, error, s)
  else .ok (.invalid, .interrupted, s)

/-- `USB::ListTree::enter_child`. -/
def enterChild (listId : ListId) (item : ℕ) : Except Fault (ListId × EnterError × UsbTree P) :=
  match s.shelf.find listId with
  | none => .ok (.invalid, .invalidId, s)
  | some this => s.enterChildTemplate S a this item

/-! ## Signals -/

/-- `reinsert_device_list`. -/
def reinsertDeviceList : Except Fault (UsbTree P) := do
  let (id, s) ← s.reinsertList S a s.devicesListId
  return { s with devicesListId := id }

/-- `DeviceList::add_to_list`, for a device that is not in the list. -/
def addToList (items : FlatList DeviceItemData) (id : ℕ) (name usbPort : String) : Option (FlatList DeviceItemData) :=
  if items.any (·.data.devId = id) then none else some (FlatList.appendUnsorted items ⟨id, name, usbPort, []⟩)

/-- The signal `NewUSBDevice`. -/
def newUsbDevice (id : ℕ) (name usbPort : String) : Except Fault (UsbTree P) := do
  let (list, items) ← s.getListOfUsbDevices
  match addToList items id name usbPort with
  | none => return s
  | some items => (s.setList list (.devices items)).reinsertDeviceList S a

/-- `DeviceItemData::add_volume`, with the index at which the volume has been added. -/
def addVolume (volumes : List VolumeInfo) (info : VolumeInfo) : Option (ℕ × List VolumeInfo) :=
  let idx := volumes.findIdx fun other => info.number ≤ other.number
  if ∀ other ∈ volumes[idx]?, info.number < other.number then some (idx, volumes.insertIdx idx info) else none

/-- `reinsert_volume_list`. -/
def reinsertVolumeList (deviceId number addedAtIndex : ℕ) : Except Fault (UsbTree P) := do
  let (list, items) ← s.getListOfUsbDevices
  match getDeviceById items deviceId with
  | none => return s
  | some (idx, _) =>
    let child := (FlatList.links items)[idx]?.getD .invalid
    match if child.isValid then s.shelf.find child else none with
    | none => return s
    | some p =>
      match s.lists p with
      | .volumes volumes =>
        let s := s.setList p (.volumes (FlatList.insertBefore volumes addedAtIndex ⟨deviceId, number⟩))
        let s := s.setList list ((s.lists list).setLink idx .invalid)
        let (id, s) ← s.reinsertList S a (s.shelf.id p)
        s.setChildList S list idx id
      | _ => .error .crash

/-- The devices, of which one has got other volumes. -/
def withVolumes (items : FlatList DeviceItemData) (idx : ℕ) (volumes : List VolumeInfo) : FlatList DeviceItemData :=
  items.modify idx fun item => { item with data := { item.data with volumes := volumes } }

/-- The signal `NewVolume`. -/
def newVolume (number : ℕ) (label mountpoint : String) (deviceId : ℕ) : Except Fault (UsbTree P) := do
  let (list, items) ← s.getListOfUsbDevices
  match getDeviceById items deviceId with
  | none => return s
  | some (idx, device) =>
    match addVolume device.volumes ⟨number, label, mountpoint⟩ with
    | none => return s
    | some (addedAtIndex, volumes) =>
      (s.setList list (.devices (withVolumes items idx volumes))).reinsertVolumeList S a deviceId number addedAtIndex

/-- `purge_device_subtree_and_reinsert_device_list`. -/
def purgeDeviceSubtreeAndReinsertDeviceList (volumeList : ListId) : Except Fault (UsbTree P) := do
  if volumeList.isValid then do
    S.assert (volumeList ≠ s.devicesListId)
    S.assert (∃ p ∈ s.shelf.find volumeList, ∃ q ∈ S.forest.parent p, s.shelf.id q = s.devicesListId)
    let s ← s.purgeSubtree S a volumeList .invalid .ok
    s.reinsertDeviceList S a
  else s.reinsertDeviceList S a

/-- The signal `DeviceRemoved`, with `remove_from_list`. -/
def deviceRemoved (id : ℕ) : Except Fault (UsbTree P) := do
  let (list, items) ← s.getListOfUsbDevices
  match getDeviceById items id with
  | none => return s
  | some (idx, _) =>
    let removedListId := (FlatList.links items)[idx]?.getD .invalid
    (s.setList list (.devices (items.eraseIdx idx))).purgeDeviceSubtreeAndReinsertDeviceList S a removedListId

/-! ## Initialization -/

/-- `fill_list_from_mounta_data`: a volume that MounTA knows, with the ID of its device. -/
def addKnownVolume (items : FlatList DeviceItemData) (known : ℕ × VolumeInfo) : FlatList DeviceItemData :=
  if known.1 = 0 then items
  else
    match getDeviceById items known.1 with
    | none => items
    | some (idx, device) =>
      match addVolume device.volumes known.2 with
      | none => items
      | some (_, volumes) => withVolumes items idx volumes

/-- `fill_list_from_mounta_data`, for the IDs, names and ports of the devices, and for the volumes. -/
def fillListFromMountaData (devices : List (ℕ × String × String)) (volumes : List (ℕ × VolumeInfo)) :
    FlatList DeviceItemData :=
  let items := devices.foldl (fun items device => (addToList items device.1 device.2.1 device.2.2).getD items) []
  volumes.foldl addKnownVolume items

/-- The tree after its initialization, with what MounTA knows by then. -/
def init (id : ListId) (devices : List (ℕ × String × String)) (volumes : List (ℕ × VolumeInfo)) : UsbTree P where
  shelf := ⟨[S.deviceList], fun _ => id⟩
  lists := Function.update (fun _ => .dir []) S.deviceList (.devices (fillListFromMountaData devices volumes))
  devicesListId := id

end UsbTree

end Listbrokers.Tree
