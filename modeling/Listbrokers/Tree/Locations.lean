import Listbrokers.Tree.FollowPath

/-!
# Locations of USB items

Location keys and location traces of `usb_listtree.cc`. `get_location_key` and
`get_location_trace` climb from an item up to the device list and collect the
names on the way. `realize` goes down again: `enter_volume` looks up the device and
the volume, and `follow_path` looks up the rest.

The classes for locations are not part of the repository. What is known of them is
that appending a component to a path puts a slash in between
(`LocationFormat.JoinsBySlash`), and that all components of a location are the same
after it has been made a string and parsed again. Thus, `realize` gets the location
itself here.
-/

namespace Listbrokers.Tree

open Framework Tiles

/-- `USB::LocationKeySimple::Components`. -/
structure LocationKeySimple where
  device : String
  partition : String
  path : String
  deriving DecidableEq, Repr

/-- `USB::LocationKeyReference::Components`. The position is counted from 1, if it is valid. -/
structure LocationKeyReference where
  device : String
  partition : String
  referencePoint : String
  itemName : String
  itemPosition : Option ℕ
  deriving DecidableEq, Repr

/-- `USB::LocationTrace::Components`. -/
structure LocationTrace where
  device : String
  partition : String
  referencePoint : String
  itemName : String
  itemPosition : Option ℕ
  deriving DecidableEq, Repr

/-- `StrBoUrl::Location`, for USB. -/
inductive Location
  | simple (key : LocationKeySimple)
  | reference (key : LocationKeyReference)
  | trace (trace : LocationTrace)
  deriving DecidableEq, Repr

/-- What the classes for locations do. -/
structure LocationFormat where
  append : String → String → String
  traceLength : LocationTrace → ℕ

namespace LocationFormat

variable (F : LocationFormat)

/-- Components that are appended to a path are joined by slashes. -/
def JoinsBySlash : Prop :=
  ∀ path component, F.append path component = if path = "" then component else path ++ "/" ++ component

/-- The path after components have been appended, one after the other. -/
def join (components : List String) : String := components.foldl F.append ""

end LocationFormat

/-- Paths with slashes, and traces that are as long as the path from the reference point. -/
def exampleFormat : LocationFormat where
  append := fun path component => if path = "" then component else path ++ "/" ++ component
  traceLength := fun trace => (components trace.itemName.toList).length

/-! ## From an item to its location -/

/-- The result of a function that may set an error. -/
abbrev Located (α : Type) := ExceptT EnterError (Except Fault) α

variable {P R β : Type} [DecidableEq P]

/-- What `get_location_trace` collects on the way up. -/
structure TraceElements where
  foundReferencePoint : Bool
  refElements : List String
  itemElements : List String
  /-- Whether `elements` points to `ref_elements`. -/
  intoRef : Bool
  deriving DecidableEq, Repr

/-- `elements->push_back`. -/
def TraceElements.push (elements : TraceElements) (name : String) : TraceElements :=
  if elements.intoRef then { elements with refElements := elements.refElements ++ [name] }
  else { elements with itemElements := elements.itemElements ++ [name] }

/-- The item of a trace, with the path from the reference point. -/
def LocationFormat.traceItemName (F : LocationFormat) (listDepth : ℕ) (itemElements : List String) :
    Except Fault String :=
  if listDepth ≤ 2 then .ok ""
  else do
    let front ← deref itemElements.head?
    return F.append (F.join itemElements.tail.reverse) front

/-- `handle_reference_point`. -/
def handleReferencePoint (listId : ListId) (item : ℕ) (refListId : ListId) (refItemPos : ℕ)
    (actionIfFound : TraceElements → TraceElements) (elements : TraceElements) : Option TraceElements :=
  if listId ≠ refListId then some elements
  else if (item + 1) % 2 ^ 32 ≠ refItemPos then none
  else some (actionIfFound { elements with foundReferencePoint := true })

namespace UsbTree

section

variable (S : UsbSetup P) (F : LocationFormat) (s : UsbTree P)

/-- `ListTreeManager::get_list_depth`. -/
def getListDepth (listId : ListId) : ℕ :=
  match if listId.isValid then s.shelf.find listId else none with
  | none => 0
  | some p => (S.forest.path p).length

/-- `USB::ListTree::get_parent_link`: the parent list and its item, or the list itself if it has no parent. -/
def getParentLinkOrSelf (listId : ListId) (item : ℕ) : Option (P × ℕ) := do
  let list ← s.shelf.find listId
  match S.forest.parent list with
  | none => return (list, item)
  | some parentList =>
    let parentItem ← s.getParentLink list parentList
    return (parentList, parentItem)

/-- The name of an item, for a list that is taken for one of this kind. -/
def getItemName (kind : ListKind) (list : P) (item : ℕ) : Except Fault String :=
  match kind, s.lists list with
  | .devices, .devices items => do
    let device ← deref items[item]?
    return device.data.displayName
  | .volumes, .volumes items => do
    let volume ← deref items[item]?
    s.getVolumeName volume.data
  | .dir, .dir items => do
    let entry ← deref items[item]?
    return entry.data.name
  | _, _ => .error .crash

/-- `get_component_name`, which goes on to the parent list. What is done with the list, the item and its name fails by
`none`, and so it does if there is no name. -/
def getComponentName (kind : ListKind) (lruEntry : Option P) (destListId : ListId) (item : ℕ)
    (process : P → ℕ → String → β → Option β) (b : β) : Located (P × ℕ × β) := do
  match lruEntry.or (s.shelf.find destListId) with
  | none => throw .invalidId
  | some list =>
    if (s.lists list).links.length ≤ item then throw .invalidId
    else
      let name ← s.getItemName kind list item
      match if name = "" then none else process list item name b with
      | none => throw .internal
      | some b =>
        match s.getParentLinkOrSelf S (s.shelf.id list) item with
        | none => throw .internal
        | some (parentList, parentItem) => return (parentList, parentItem, b)

/-- The loop over the directories above an item. -/
def getDirectoryNames (destListId : ListId) (process : P → ℕ → String → β → Option β) :
    ℕ → Option P → ℕ → β → Located (Option P × ℕ × β)
  | 0, lruEntry, item, b => return (lruEntry, item, b)
  | n + 1, lruEntry, item, b => do
    let (list, item, b) ← s.getComponentName S .dir lruEntry destListId item process b
    getDirectoryNames destListId process n (some list) item b

/-- The volume level of both functions below: nothing is done for a device. -/
def getVolumeComponent (listDepth : ℕ) (lruEntry : Option P) (destListId : ListId) (item : ℕ)
    (process : P → ℕ → String → β → Option β) (b : β) : Located (Option P × ℕ × β) :=
  if 2 ≤ listDepth then (fun r => (some r.1, r.2)) <$> s.getComponentName S .volumes lruEntry destListId item process b
  else pure (lruEntry, item, b)

/-- `USB::ListTree::get_location_key`. -/
def getLocationKey (listId : ListId) (itemPos : ℕ) (asReferenceKey : Bool) : Located Location := do
  let listDepth := s.getListDepth S listId
  if listDepth = 0 then throw .invalidId
  else
    let (list, item, elements) ←
      s.getDirectoryNames S listId (fun _ _ name names => some (names ++ [name])) (listDepth - 2) none
        ((itemPos - 1) % 2 ^ 32) []
    let (list, item, partition) ← s.getVolumeComponent S listDepth list listId item (fun _ _ name _ => some name) ""
    let (_, _, device) ← s.getComponentName S .devices list listId item (fun _ _ name _ => some name) ""
    if asReferenceKey then
      return .reference
        { device := device
          partition := partition
          referencePoint := F.join elements.tail.reverse
          itemName := elements.head?.getD ""
          itemPosition := if listDepth = 1 then none else some itemPos }
    else
      return .simple
        { device := device
          partition := partition
          path := F.join elements.reverse }

/-- `USB::ListTree::get_location_trace`. -/
def getLocationTrace (listId : ListId) (itemPos : ℕ) (refListId : ListId) (refItemPos : ℕ) : Located LocationTrace := do
  let listDepth := s.getListDepth S listId
  if listDepth = 0 then throw .invalidId
  else
    let handle (actionIfFound : TraceElements → TraceElements) (list : P) (item : ℕ) :=
      handleReferencePoint (s.shelf.id list) item refListId refItemPos actionIfFound
    let (list, item, elements) ←
      s.getDirectoryNames S listId
        (fun list item name elements =>
          (handle (fun elements => { elements with intoRef := true }) list item elements).map (·.push name))
        (listDepth - 2) none ((itemPos - 1) % 2 ^ 32) ⟨!refListId.isValid, [], [], false⟩
    let itemName ← F.traceItemName listDepth elements.itemElements
    let process (list : P) (item : ℕ) (name : String) (b : TraceElements × String) :=
      (handle id list item b.1).map (·, name)
    let (list, item, elements, partition) ← s.getVolumeComponent S listDepth list listId item process (elements, "")
    let (_, _, elements, device) ← s.getComponentName S .devices list listId item process (elements, "")
    let trace : LocationTrace :=
      { device := device
        partition := partition
        referencePoint := F.join elements.refElements.reverse
        itemName := itemName
        itemPosition := if listDepth = 1 then none else some itemPos }
    if elements.foundReferencePoint then return trace else throw .invalidId

end

end UsbTree

/-! ## From a location to an item -/

/-- `RealizeURLResult`. -/
structure RealizeUrlResult where
  listId : ListId := .invalid
  itemId : ℕ := 2 ^ 32 - 1
  itemKind : PathItemKind := .logoutLink
  refListId : ListId := .invalid
  refItemId : ℕ := 0
  distance : ℕ := 0
  traceLength : ℕ := 0
  listTitle : I18nString := ⟨"", false⟩
  deriving DecidableEq, Repr

/-- `set_item_data`. -/
def RealizeUrlResult.setItemData (result : RealizeUrlResult) (listId : ListId) (item : ℕ) (kind : PathItemKind) :
    RealizeUrlResult :=
  { result with
    listId := listId
    itemId := item
    itemKind := kind }

section

variable (S : PathSetup P) (F : LocationFormat)

/-- `DeviceList::get_device_by_name`, with the index of the device. -/
def getDeviceByName (items : FlatList DeviceItemData) (name : String) : Option ℕ :=
  (items.findIdx? (·.data.displayName = name)).map (· % 2 ^ 32)

/-- `enter_volume`. -/
def enterVolume (deviceName volumeName : String) (w : Walk P RealizeUrlResult) :
    Except Fault (LocationError × Walk P RealizeUrlResult) :=
  if deviceName = "" then .ok (.enter .internal, w)
  else do
    let (deviceList, devices) ← w.tree.getListOfUsbDevices
    match getDeviceByName devices deviceName with
    | none => return (.notFound, w)
    | some deviceIndex =>
      let deviceListId := w.tree.shelf.id deviceList
      let (volumesListId, error, tree) ← w.tree.enterChild S.tree (S.answers w.entered) deviceListId deviceIndex
      let w := { w with
        tree := tree
        entered := w.entered + 1 }
      if volumesListId.isValid = false then return (.enter error, w)
      else
        let w := { w with parentLinkCandidate := (deviceListId, deviceIndex) }
        let (error, search) ←
          if volumeName = "" then pure (error, ⟨false, 0, .logoutLink⟩)
          else w.tree.forEach S volumesListId 0 0 (Search.visit volumeName) ⟨false, 0, .logoutLink⟩
        if error ≠ .ok ∨ search.found = false then
          let w := { w with result := w.result.setItemData deviceListId deviceIndex .storageDevice }
          if error ≠ .ok ∨ volumeName = "" then return (.enter error, w) else return (.notFound, w)
        else
          let volumeIndex := search.idx % 2 ^ 32
          let (rootdirListId, error, tree) ← w.tree.enterChild S.tree (S.answers w.entered) volumesListId volumeIndex
          let w := { w with
            tree := tree
            entered := w.entered + 1
            dirListId := rootdirListId }
          if rootdirListId.isValid then
            return (.enter error, { w with
              parentLink := w.parentLinkCandidate
              parentLinkCandidate := (volumesListId, volumeIndex)
              result := w.result.setItemData volumesListId volumeIndex search.kind })
          else return (.enter error, w)

/-- `found_item` for the item of a location. -/
def foundItem (listId : ListId) (item : ℕ) (kind : PathItemKind) (result : RealizeUrlResult) :
    LocationError × RealizeUrlResult :=
  (.enter .ok, result.setItemData listId item kind)

/-- `found_item` on the way to a reference point. -/
def foundReference (listId : ListId) (item : ℕ) (kind : PathItemKind) (result : RealizeUrlResult) :
    LocationError × RealizeUrlResult :=
  if kind.isDirectory S.storageIsDirectory then (.enter .ok, result.setItemData listId item kind)
    else (.notFound, result)

/-- `found_item` on the way from a reference point to the item. -/
def foundBelowReference (listId : ListId) (item : ℕ) (kind : PathItemKind) (result : RealizeUrlResult) :
    LocationError × RealizeUrlResult :=
  (.enter .ok, { result.setItemData listId item kind with distance := result.distance + 1 })

/-- Go on if there has not been an error. -/
def andThen (follow : Walk P R → Except Fault (LocationError × Walk P R)) (r : LocationError × Walk P R) :
    Except Fault (LocationError × Walk P R) :=
  if r.1.failed then .ok r else follow r.2

/-- `realize`, for simple keys, before the title is set. -/
def realizeSimple (key : LocationKeySimple) (w : Walk P RealizeUrlResult) :
    Except Fault (LocationError × Walk P RealizeUrlResult) :=
  enterVolume S key.device key.partition w >>= andThen (followPath S false foundItem key.path.toList (0, 0))

/-- `realize`, for reference keys, before the title is set. -/
def realizeReference (key : LocationKeyReference) (w : Walk P RealizeUrlResult) :
    Except Fault (LocationError × Walk P RealizeUrlResult) :=
  enterVolume S key.device key.partition w
    >>= andThen (followPath S false (foundReference S) key.referencePoint.toList (0, 0))
    >>= andThen (followPath S true foundItem key.itemName.toList
      (match key.itemPosition with
        | none => (0, 0)
        | some position => ((position - 1) % 2 ^ 32, 1)))

/-- `realize`, for traces, before the title is set. -/
def realizeTrace (trace : LocationTrace) (w : Walk P RealizeUrlResult) :
    Except Fault (LocationError × Walk P RealizeUrlResult) :=
  enterVolume S trace.device trace.partition { w with result := { w.result with traceLength := F.traceLength trace } }
    >>= andThen (followPath S false (foundReference S) trace.referencePoint.toList (0, 0))
    >>= andThen fun w => followPath S false foundBelowReference trace.itemName.toList (0, 0) { w with
      result := { w.result with
        refListId := w.parentLinkCandidate.1
        refItemId := w.parentLinkCandidate.2 } }

/-- `set_list_title`. -/
def setListTitle (w : Walk P RealizeUrlResult) : Except Fault RealizeUrlResult :=
  if w.result.listId.isValid = false then .ok w.result
  else do
    let title ←
      if w.parentLink.1.isValid then
        w.tree.getChildListTitle S.storageIsDirectory w.parentLink.1 w.parentLink.2
      else .ok UsbTree.listTitle
    return { w.result with listTitle := title }

/-- What `realize` starts with. -/
def Walk.start (s : UsbTree P) : Walk P RealizeUrlResult where
  tree := s
  dirListId := .invalid
  parentLinkCandidate := (.invalid, 0)
  parentLink := (.invalid, 0)
  result := {}
  entered := 0

/-- `realize`, for the three kinds of locations, before the title is set. -/
def realizeLocation (location : Location) (w : Walk P RealizeUrlResult) :
    Except Fault (LocationError × Walk P RealizeUrlResult) :=
  match location with
  | .simple key => realizeSimple S key w
  | .reference key => realizeReference S key w
  | .trace trace => realizeTrace S F trace w

/-- `realize`. -/
def realize (location : Location) (s : UsbTree P) : Except Fault (LocationError × RealizeUrlResult × UsbTree P) := do
  let (error, w) ← realizeLocation S F location (.start s)
  let result ← setListTitle S w
  return (error, result, w.tree)

end

end Listbrokers.Tree
