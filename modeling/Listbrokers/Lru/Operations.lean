import Listbrokers.Lru.Cache

/-!
# Operations of the cache

Garbage collection, pinning, insertion and purge. The callbacks for the first
object and for exceeded limits may start the garbage collector at once, or not
(`Handlers`).
-/

namespace Listbrokers.Lru

open Framework

variable {P σ : Type} [DecidableEq P] (S : Setup P σ)

/-- Whether the callbacks of `insert` run the garbage collector. -/
structure Handlers where
  firstObjectInserted : Bool
  garbageCollectionNeeded : Bool
  deriving DecidableEq, Repr

namespace Cache

variable (s : Cache P σ)

/-! ## Garbage collection -/

/-- An object that has not been used for this long is discarded, in milliseconds. -/
def maximumAge : ℕ := S.maximumAgeThreshold * 60000

def exceedsSoft : Bool := S.memoryLimits.exceedsSoft s.totalSize || S.countLimits.exceedsSoft s.count

def exceedsHard : Bool := S.memoryLimits.exceedsHard s.totalSize || S.countLimits.exceedsHard s.count

def isLowEnough : Bool := S.memoryLimits.isLowEnough s.totalSize && S.countLimits.isLowEnough s.count

/-- The first loop of `gc`: discard what has reached the maximum age. -/
def collectAged (now : ℕ) : ℕ → Option P → Cache P σ → Except Fault (Option P × Cache P σ)
  | _, none, s => return (none, s)
  | 0, some _, _ => throw .endless
  | n + 1, some candidate, s =>
    if maximumAge S ≤ s.getAge now candidate then
      if s.isPinned candidate then collectAged now n (s.links.next candidate) s
      else do
        let (next, s) ← s.discard S true candidate
        collectAged now n next s
    else return (some candidate, s)

/-- The second loop of `gc`: discard until the sizes are low enough. -/
def relievePressure : ℕ → Option P → Cache P σ → Except Fault (Option P × Cache P σ)
  | _, none, s => return (none, s)
  | 0, some _, _ => throw .endless
  | n + 1, some candidate, s =>
    if s.isLowEnough S then return (some candidate, s)
    else if s.isPinned candidate then relievePressure n (s.links.next candidate) s
    else if s.deepestYoungestObject ≠ some candidate ∨ s.exceedsHard S then do
      let (next, s) ← s.discard S true candidate
      relievePressure n next s
    else return (some candidate, s)

/-- The last loop of `gc`. -/
def skipPinned : ℕ → Option P → Option P
  | _, none => none
  | 0, some candidate => some candidate
  | n + 1, some candidate => if s.isPinned candidate then skipPinned n (s.links.next candidate) else some candidate

/-- When to run the garbage collector again, in seconds; `none` is the maximum. -/
def nextCall (now : ℕ) (candidate : Option P) : Except Fault (Option ℕ) :=
  if s.oldestObject = none then do
    check (s.rootObject = none ∧ s.deepestYoungestObject = none ∧ s.allObjects = []) .notEmptied
    return none
  else
    match s.skipPinned s.count candidate with
    | none => do
      check (∀ p ∈ s.allObjects, s.isPinned p = true) .notAllPinned
      return none
    | some p =>
      return some (max 1 (S.maximumAgeThreshold * 60 - s.getAge now p / 1000))

/-- The two loops of `gc` that discard objects. -/
def collect (now : ℕ) : Except Fault (Option P × Cache P σ) := do
  let (candidate, s) ← collectAged S now s.count s.oldestObject s
  if s.exceedsSoft S then relievePressure S s.count candidate s else return (candidate, s)

def gc (now : ℕ) : Except Fault (Option ℕ × Cache P σ) := do
  check (s.isGarbageCollectorRunning = false) .collectorRunning
  let (candidate, s) ← collect S { s with isGarbageCollectorRunning := true } now
  let wait ← s.nextCall S now candidate
  return (wait, { s with isGarbageCollectorRunning := false })

/-! ## Pinning -/

/-- The part of `pin` before it runs the garbage collector. -/
def setPinned (id : ListId) : Cache P σ :=
  let s := if s.pinnedObjectId.isValid then (s.pinOrUnpinObjectsOnPathToRoot S s.pinnedObjectId false).2 else s
  let s := { s with pinnedObjectId := id }
  if id.isValid then
    let (result, s) := s.pinOrUnpinObjectsOnPathToRoot S id true
    if result then s else { s with pinnedObjectId := .invalid }
  else s

def pin (now : ℕ) (id : ListId) : Except Fault (Bool × Cache P σ) :=
  if s.pinnedObjectId = id then return (s.pinnedObjectId.isValid, s)
  else do
    let needGc := s.pinnedObjectId.isValid
    let s := s.setPinned S id
    if s.isGarbageCollectorRunning = false ∧ needGc then do
      let (_, s) ← s.gc S now
      return (s.pinnedObjectId.isValid, s)
    else return (s.pinnedObjectId.isValid, s)

/-! ## Insertion -/

/-- The sizes of objects are counted in a `size_t`. -/
def sizeMax : ℕ := 2 ^ 64

/-- The links after `Entry::insert_before`, and whether the entry is the oldest now. -/
def insertBeforeParent (entry : P) (parent : Option P) (l : Links P) : Except Fault (Bool × Links P) :=
  match parent with
  | none => return (true, l)
  | some parent =>
    match l.prev parent with
    | none => return (true, l.insertBefore entry parent)
    | some older => do
      check (l.next older = some parent) .agingList
      return (false, l.insertBefore entry parent)

/-- The part of `insert` that makes room in the tree for a new entry, the parent of which has been used. -/
def prepareInsert (now created : ℕ) (entry : P) : Except Fault (Cache P σ) :=
  match S.forest.parent entry with
  | none => do
    check (s.rootObject = none) .secondRoot
    return { s with rootObject := some entry, deepestYoungestObject := some entry }
  | some parent => do
    let (depth, s) ← s.useEntry S now parent
    let s := if depth < 0 then { s with deepestYoungestObject := some parent } else s
    let s := { s with childrenCount := Function.update s.childrenCount parent (s.childrenCount parent + 1) }
    check (s.deepestYoungestObject = some parent) .agingList
    return if created = s.lastUsed parent then { s with deepestYoungestObject := some entry } else s

/-- The part of `insert` that puts the entry into the cache. -/
def link (mode : CacheMode) (ctx size : ℕ) (entry : P) : Except Fault (ListId × Cache P σ) := do
  let (id, s) ← s.nextListId mode ctx
  check (s.find id = none) .idTaken
  let (isOldest, links) ← insertBeforeParent entry (S.forest.parent entry) s.links
  let s := { s with
    allObjects := entry :: s.allObjects
    id := Function.update s.id entry id
    minimumRequiredCreationTime := s.lastUsed entry
    links := links
    oldestObject := if isOldest then some entry else s.oldestObject
    objectSize := Function.update s.objectSize entry size
    totalSize := (s.totalSize + size) % sizeMax }
  check (∃ o ∈ s.oldestObject, s.isLeaf o = true) .oldestNotLeaf
  return (id, s)

/-- Run the garbage collector, or do not. -/
def gcIf (b : Bool) (now : ℕ) : Except Fault (Cache P σ) :=
  if b then do
    let (_, s) ← s.gc S now
    return s
  else return s

/-- The reasons for which `insert` rejects an entry that was created at `created`. -/
def Accepts (created : ℕ) (entry : P) : Prop :=
  (s.id entry).isValid = false ∧ s.minimumRequiredCreationTime ≤ created ∧
    ∀ parent ∈ S.forest.parent entry, (s.id parent).isValid = true ∧ s.lastUsed parent ≤ created

instance (created : ℕ) (entry : P) : Decidable (s.Accepts S created entry) := inferInstanceAs (Decidable (_ ∧ _ ∧ _))

/-- `insert` of an entry that was created at the given time. -/
def insert (now : ℕ) (handlers : Handlers) (created : ℕ) (mode : CacheMode) (ctx size : ℕ) (entry : P) :
    Except Fault (ListId × Cache P σ) :=
  if s.Accepts S created entry then do
    let s ← prepareInsert S { s with lastUsed := Function.update s.lastUsed entry created } now created entry
    let (id, s) ← s.link S mode ctx size entry
    let s ← s.gcIf S (s.count = 1 && handlers.firstObjectInserted) now
    let s ← s.gcIf S (s.exceedsSoft S && handlers.garbageCollectionNeeded) now
    return (id, s)
  else return (.invalid, s)

def insertAgain (entry : P) : Except Fault (ListId × Cache P σ) :=
  let oldId := s.id entry
  if s.find oldId = none then return (.invalid, s)
  else do
    let s := { s with allObjects := s.allObjects.filter (s.id · ≠ oldId) }
    let (newId, s) ← s.nextListId (CacheIdGenerator.getCacheMode oldId) (CacheIdGenerator.getContext oldId)
    check (s.find newId = none) .idTaken
    return (newId, { s with
      allObjects := entry :: s.allObjects
      id := Function.update s.id entry newId
      pinnedObjectId := if oldId = s.pinnedObjectId then newId else s.pinnedObjectId })

def setObjectSize (now : ℕ) (id : ListId) (size : ℕ) : Except Fault (Bool × Cache P σ) := do
  match ← s.lookup id with
  | none => return (false, s)
  | some p => do
    let oldSize := s.objectSize p
    check (oldSize ≤ s.totalSize) .totalSize
    let s := { s with
      totalSize := (s.totalSize - oldSize + size) % sizeMax
      objectSize := Function.update s.objectSize p size }
    let (_, s) ← s.useEntry S now p
    let s ← s.gcIf S (oldSize < size && S.memoryLimits.exceedsSoft s.totalSize) now
    return (true, s)

/-! ## Purge -/

/-- `pin` nothing, if the object is pinned. -/
def unpinIfPinned (now : ℕ) (p : P) : Except Fault (Cache P σ) :=
  if s.isPinned p then do
    let (_, s) ← s.pin S now .invalid
    return s
  else return s

/-- One round of the loop of `purge_entries`. -/
def purgeEntry (notify : Bool) (now : ℕ) (id : ListId) : Except Fault (Cache P σ) := do
  match ← s.lookup id with
  | none => return s
  | some p => do
    let s ← s.unpinIfPinned S now p
    let (_, s) ← s.discard S notify p
    return s

def purgeEntries (notify : Bool) (now : ℕ) : List ListId → Cache P σ → Except Fault (Cache P σ)
  | [], s => return s
  | id :: killList, s => do
    let s ← s.purgeEntry S notify now id
    purgeEntries notify now killList s

end Cache

end Listbrokers.Lru
