import Listbrokers.Lru.Manager
import Listbrokers.Tree.UsbRuns

/-!
# The USB list tree on the cache

`USB::ListTree` with the cache of `lru.cc`. `UsbTree` takes from the surroundings
what the cache does with the lists. Here the cache itself is called: it decides
whether it accepts a list, which ID the list gets, and what it discards.

What a call looks up, it looks up in the tree that the cache holds (`usbTree`). A
failed assertion of the cache ends the program like one of the list tree.
-/

namespace Listbrokers.Tree

open Framework Tiles

/-- The tree of list objects, the limits of the cache, and `std::partition`. -/
structure CachedSetup (P : Type) extends UsbSetup P where
  memoryLimits : Lru.CacheLimits
  countLimits : Lru.CacheLimits
  maximumAgeThreshold : ℕ
  partition : Lru.Partition ListId

/-- `USB::ListTree` with its cache, the content of which are the lists. -/
structure CachedTree (P : Type) where
  cache : Lru.Cache P (P → UsbList)
  devicesListId : ListId

/-- What a call meets. -/
structure Circumstances (P : Type) where
  now : ℕ
  /-- What the callbacks of the cache do. -/
  handlers : Lru.Handlers
  mayContinue : Bool
  /-- The list object that is created, when it is created, and its estimated size. -/
  entry : P
  created : ℕ
  size : ℕ
  readDir : String → Option (List String × List String)

variable {P : Type} [DecidableEq P]

/-- The cache of the list tree: discarding a list removes the link to it from the parent list. -/
def CachedSetup.manager (S : CachedSetup P) : Lru.Manager P (P → UsbList) where
  memoryLimits := S.memoryLimits
  countLimits := S.countLimits
  maximumAgeThreshold := S.maximumAgeThreshold
  forest := S.forest
  obliviateChild p id _ lists := Function.update lists p ((lists p).obliviateChild id)
  notifyObjectRemoved _ lists := lists
  enumerateDirectSublists p lists := (lists p).enumerateDirectSublists
  partition := S.partition

/-- What a call of the cache returns. -/
def ofCache {α : Type} : Except Lru.Fault α → Except Fault α
  | .ok x => .ok x
  | .error .endless => .error .endless
  | .error _ => .error .assertion

namespace CachedTree

variable (S : CachedSetup P) (e : Circumstances P) (t : CachedTree P)

/-- The tree that the cache holds. -/
def usbTree : UsbTree P := ⟨⟨t.cache.allObjects, t.cache.id⟩, t.cache.content, t.devicesListId⟩

/-- Change the items of a list. -/
def setList (p : P) (items : UsbList) : CachedTree P :=
  { t with cache := { t.cache with content := Function.update t.cache.content p items } }

/-! ## The cache and its manager -/

/-- `add_child_list_to_cache`, for a list that is created with these items. If the cache rejects it, it is gone
again. -/
def addChildListToCache (parent : P) (items : UsbList) : Except Fault (ListId × CachedTree P) := do
  possible (S.forest.parent e.entry = some parent ∧ (t.cache.id e.entry).isValid = false ∧ e.entry ∉ t.cache.allObjects)
  if t.cache.Accepts S.manager.toSetup e.created e.entry then do
    let (id, cache) ← ofCache
      ((t.setList e.entry items).cache.insert S.manager.toSetup e.now e.handlers e.created .cached
      (Lru.CacheIdGenerator.getContext (t.cache.id parent)) e.size e.entry)
    return (id, { t with cache := cache })
  else return (.invalid, t)

/-- `ListTreeManager::reinsert_list`. -/
def reinsertList (id : ListId) : Except Fault (ListId × CachedTree P) := do
  let (newId, cache) ← ofCache (t.cache.reinsertList id)
  return (newId, { t with cache := cache })

/-- `LRU::Cache::purge_entries`. -/
def purgeEntries (notify : Bool) (killList : List ListId) : Except Fault (CachedTree P) := do
  let cache ← ofCache (t.cache.purgeEntries S.manager.toSetup notify e.now killList)
  return { t with cache := cache }

/-- The part of `purge_subtree` that processes the kill list. -/
def processKillList (killList : List ListId) : Except Fault (CachedTree P) := do
  let cache ← ofCache (t.cache.processKillList S.manager e.now killList)
  return { t with cache := cache }

/-- `ListTreeManager::purge_subtree`, in which `set_root` may fail. -/
def purgeSubtree (oldId newId : ListId) (setRoot : CachedTree P → Except Fault (CachedTree P)) :
    Except Fault (CachedTree P) :=
  match if oldId.isValid then t.cache.find oldId else none with
  | none => setRoot t
  | some _ => do
    let killList ← ofCache (t.cache.enumerateTreeOfSublists S.manager t.cache.count [oldId])
    let firstToKill := if newId.isValid then 1 else 0
    match Lru.Cache.purgeResult oldId newId killList with
    | .invalid | .untouched => setRoot t
    | .purged => do
      let t ← setRoot t
      t.processKillList S e (killList.drop firstToKill)
    | .replacedRoot => do
      let t ← t.purgeEntries S e false [oldId]
      setRoot t
    | .purgedAndReplaced => do
      let t ← t.purgeEntries S e false [oldId]
      let t ← setRoot t
      t.processKillList S e (killList.drop firstToKill)

/-! ## Entering a child -/

/-- `attach_new_dirlist`. -/
def attachNewDirlist (parent : P) (path : String) : Except Fault (ListId × EnterError × CachedTree P) := do
  let (id, t) ← t.addChildListToCache S e parent (.dir [])
  if id.isValid = false then return (.invalid, .internal, t)
  else do
    let p ← deref (t.usbTree.shelf.find id)
    match e.readDir path with
    | none => return (.invalid, .physicalMediaIo, t)
    | some (directories, files) =>
      return (id, .ok, t.setList p (.dir (UsbTree.fillFromFileSystem directories files)))

/-- `DeviceList::enter_child`: how the new list is added to the cache. -/
def addVolumeList (this : P) (device : DeviceItemData) : Except Fault (ListId × EnterError × CachedTree P) := do
  let (id, t) ← t.addChildListToCache S e this (.volumes [])
  if id.isValid = false then return (id, .internal, t)
  else do
    let p ← deref (t.usbTree.shelf.find id)
    return (id, .ok, t.setList p (.volumes (UsbTree.fillVolumeList device)))

/-- `VolumeList::enter_child`. -/
def addRootDirectory (this : P) (volume : VolumeItemData) : Except Fault (ListId × EnterError × CachedTree P) := do
  let path ← t.usbTree.getUrl volume
  t.attachNewDirlist S e this path

/-- `DirList::enter_child`. -/
def addDirectory (this : P) (item : ℕ) (data : ItemData) : Except Fault (ListId × EnterError × CachedTree P) :=
  if data.kind = .directory then do
    match ← t.usbTree.constructFspathToItem (S.forest.path this) item with
    | none => return (.invalid, .internal, t)
    | some path => t.attachNewDirlist S e this path
  else return (.invalid, .invalidId, t)

/-- The `add_to_cache` function of a list, for an item of it. -/
def addToCache (this : P) (item : ℕ) : Except Fault (ListId × EnterError × CachedTree P) :=
  match t.cache.content this with
  | .devices items => do
    let device ← deref items[item]?
    t.addVolumeList S e this device.data
  | .volumes items => do
    let volume ← deref items[item]?
    t.addRootDirectory S e this volume.data
  | .dir items => do
    let entry ← deref items[item]?
    t.addDirectory S e this item entry.data

/-- `ListItem_::set_child_list`, as `enter_child_template` calls it. -/
def setChildList (this : P) (item : ℕ) (newId : ListId) : Except Fault (CachedTree P) := do
  S.assert (newId.isValid = true)
  S.assert (∀ child ∈ (t.cache.content this).links[item]?, child.isValid = false)
  return t.setList this ((t.cache.content this).setLink item newId)

/-- `enter_child_template`. -/
def enterChildTemplate (this : P) (item : ℕ) : Except Fault (ListId × EnterError × CachedTree P) :=
  if e.mayContinue then
    match (t.cache.content this).links[item]? with
    | none => .ok (.invalid, .invalidId, t)
    | some cachedChildId =>
      if cachedChildId.isValid = true ∧ cachedChildId.nocacheBit = false then .ok (cachedChildId, .ok, t)
      else do
        let (newId, error, t) ← t.addToCache S e this item
        let t ← t.purgeSubtree S e cachedChildId newId fun t =>
          if newId.isValid = true ∨ error ≠ .invalidId then t.setChildList S this item newId else .ok t
        return (newId, error, t)
  else .ok (.invalid, .interrupted, t)

/-- `USB::ListTree::enter_child`. -/
def enterChild (listId : ListId) (item : ℕ) : Except Fault (ListId × EnterError × CachedTree P) :=
  match t.usbTree.shelf.find listId with
  | none => .ok (.invalid, .invalidId, t)
  | some this => t.enterChildTemplate S e this item

/-! ## Signals -/

/-- `reinsert_device_list`. -/
def reinsertDeviceList : Except Fault (CachedTree P) := do
  let (id, t) ← t.reinsertList t.devicesListId
  return { t with devicesListId := id }

/-- The signal `NewUSBDevice`. -/
def newUsbDevice (id : ℕ) (name usbPort : String) : Except Fault (CachedTree P) := do
  let (list, items) ← t.usbTree.getListOfUsbDevices
  match UsbTree.addToList items id name usbPort with
  | none => return t
  | some items => (t.setList list (.devices items)).reinsertDeviceList

/-- `reinsert_volume_list`. -/
def reinsertVolumeList (deviceId number addedAtIndex : ℕ) : Except Fault (CachedTree P) := do
  let (list, items) ← t.usbTree.getListOfUsbDevices
  match UsbTree.getDeviceById items deviceId with
  | none => return t
  | some (idx, _) =>
    let child := (FlatList.links items)[idx]?.getD .invalid
    match if child.isValid then t.usbTree.shelf.find child else none with
    | none => return t
    | some p =>
      match t.cache.content p with
      | .volumes volumes =>
        let t := t.setList p (.volumes (FlatList.insertBefore volumes addedAtIndex ⟨deviceId, number⟩))
        let t := t.setList list ((t.cache.content list).setLink idx .invalid)
        let (id, t) ← t.reinsertList (t.cache.id p)
        t.setChildList S list idx id
      | _ => .error .crash

/-- The signal `NewVolume`. -/
def newVolume (number : ℕ) (label mountpoint : String) (deviceId : ℕ) : Except Fault (CachedTree P) := do
  let (list, items) ← t.usbTree.getListOfUsbDevices
  match UsbTree.getDeviceById items deviceId with
  | none => return t
  | some (idx, device) =>
    match UsbTree.addVolume device.volumes ⟨number, label, mountpoint⟩ with
    | none => return t
    | some (addedAtIndex, volumes) =>
      (t.setList list (.devices (UsbTree.withVolumes items idx volumes))).reinsertVolumeList S deviceId number
        addedAtIndex

/-- `purge_device_subtree_and_reinsert_device_list`. -/
def purgeDeviceSubtreeAndReinsertDeviceList (volumeList : ListId) : Except Fault (CachedTree P) := do
  if volumeList.isValid then do
    S.assert (volumeList ≠ t.devicesListId)
    S.assert (∃ p ∈ t.usbTree.shelf.find volumeList, ∃ q ∈ S.forest.parent p, t.cache.id q = t.devicesListId)
    let t ← t.purgeSubtree S e volumeList .invalid .ok
    t.reinsertDeviceList
  else t.reinsertDeviceList

/-- The signal `DeviceRemoved`, with `remove_from_list`. -/
def deviceRemoved (id : ℕ) : Except Fault (CachedTree P) := do
  let (list, items) ← t.usbTree.getListOfUsbDevices
  match UsbTree.getDeviceById items id with
  | none => return t
  | some (idx, _) =>
    let removedListId := (FlatList.links items)[idx]?.getD .invalid
    (t.setList list (.devices (items.eraseIdx idx))).purgeDeviceSubtreeAndReinsertDeviceList S e removedListId

/-! ## Initialization -/

/-- `init` and `pre_main_loop`, with what MounTA knows by then. -/
def init (devices : List (ℕ × String × String)) (volumes : List (ℕ × VolumeInfo)) : Except Fault (CachedTree P) := do
  let content := Function.update (fun _ => .dir []) S.deviceList (.devices [])
  let tree ← ofCache (Lru.ListTree.init S.manager e.handlers e.now content S.deviceList)
  let t : CachedTree P := ⟨tree.cache, tree.rootListId⟩
  S.assert (t.usbTree.shelf.find t.devicesListId ≠ none)
  let list ← deref (t.usbTree.shelf.find t.devicesListId)
  let t := t.setList list (.devices (UsbTree.fillListFromMountaData devices volumes))
  if devices = [] then return t else t.reinsertDeviceList

end CachedTree

/-! ## Runs -/

/-- What is done to the tree: what changes it, and what its clients tell about the lists they use. -/
inductive CachedCall
  | usb (call : UsbCall)
  | useList (id : ListId) (pinIt : Bool)
  | discardListHint (id : ListId)
  deriving DecidableEq, Repr

namespace CachedTree

def run (S : CachedSetup P) (e : Circumstances P) (t : CachedTree P) : CachedCall → Except Fault (CachedTree P)
  | .usb (.newUsbDevice id name usbPort) => t.newUsbDevice id name usbPort
  | .usb (.newVolume number label mountpoint deviceId) => t.newVolume S number label mountpoint deviceId
  | .usb (.deviceRemoved id) => t.deviceRemoved S e id
  | .usb (.enterChild list item) => (·.2.2) <$> t.enterChild S e list item
  | .usb .gc => do
    let (_, cache) ← ofCache (t.cache.gc S.manager.toSetup e.now)
    return { t with cache := cache }
  | .useList id pinIt => do
    let (_, cache) ← ofCache (t.cache.useList S.manager e.now id pinIt)
    return { t with cache := cache }
  | .discardListHint id =>
    if id ≠ t.devicesListId then do
      let cache ← ofCache (t.cache.repinIfFirstIsDeepestPinnedList S.manager e.now id t.devicesListId)
      return { t with cache := cache }
    else return t

/-- A call, with what it meets. -/
def Step (S : CachedSetup P) (t : CachedTree P) (call : CachedCall × Circumstances P) (t' : CachedTree P) : Prop :=
  t.run S call.2 call.1 = .ok t'

end CachedTree

end Listbrokers.Tree
