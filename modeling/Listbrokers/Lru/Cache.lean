import Listbrokers.Framework.Chain
import Listbrokers.Framework.Forest
import Listbrokers.Framework.Outcome
import Listbrokers.Tiles.Tile
import Mathlib.Data.Int.Notation

/-!
# The cache of lists

`LRU::Cache` of `lru.cc`. Its objects know their parents, and are linked in the
aging list, from the object that was not used for the longest time to the root.

The data of the objects (`LRU::Entry`) are kept as functions of the object. The
parents are given by the forest of the setup, as they never change. Time points
are in nanoseconds. An operation sees one value of the clock. An assertion that
fails ends the operation with a fault.
-/

namespace Listbrokers.Lru

open Framework

/-- `LRU::CacheMode`. -/
inductive CacheMode
  | cached
  | uncached
  deriving DecidableEq, Repr

/-- The assertions of the cache. -/
inductive Fault
  | notCached
  | clock
  | agingList
  | oldestNotLeaf
  | pinned
  | childrenCount
  | totalSize
  | discardedTwice
  | invalidId
  | idTaken
  | badContext
  | secondRoot
  | collectorRunning
  | notEmptied
  | notAllPinned
  | endless
  deriving DecidableEq, Repr

/-! ## Limits -/

/-- `LRU::CacheLimits`, with what its constructor asserts. -/
structure CacheLimits where
  hardUpperLimit : ℕ
  highPermil : ℕ
  lowPermil : ℕ
  hard_pos : 0 < hardUpperLimit
  low_lt_high : lowPermil < highPermil
  high_le : highPermil ≤ 1000
  watermarks_lt : (hardUpperLimit * lowPermil + 500) / 1000 < (hardUpperLimit * highPermil + 500) / 1000

namespace CacheLimits

variable (limits : CacheLimits)

def highWatermark : ℕ := (limits.hardUpperLimit * limits.highPermil + 500) / 1000

def lowWatermark : ℕ := (limits.hardUpperLimit * limits.lowPermil + 500) / 1000

def exceedsSoft (value : ℕ) : Bool := limits.highWatermark < value

def exceedsHard (value : ℕ) : Bool := limits.hardUpperLimit < value

def isLowEnough (value : ℕ) : Bool := value < limits.lowWatermark

end CacheLimits

/-- What does not change in the life of a cache: its limits, the parents of the objects, and its calls to the objects
and to the owner of the cache, which change the content `σ` of the objects. -/
structure Setup (P σ : Type) where
  memoryLimits : CacheLimits
  countLimits : CacheLimits
  /-- In minutes. -/
  maximumAgeThreshold : ℕ
  forest : Forest P
  obliviateChild : P → ListId → P → σ → σ
  notifyObjectRemoved : ListId → σ → σ

/-- `LRU::Cache` with the data of its objects. The key of an object in `allObjects` is its ID. -/
structure Cache (P σ : Type) where
  allObjects : List P
  id : P → ListId
  objectSize : P → ℕ
  isPinned : P → Bool
  childrenCount : P → ℕ
  lastUsed : P → ℕ
  /-- The aging list, from older to younger objects. -/
  links : Links P
  rootObject : Option P
  oldestObject : Option P
  deepestYoungestObject : Option P
  pinnedObjectId : ListId
  minimumRequiredCreationTime : ℕ
  totalSize : ℕ
  isGarbageCollectorRunning : Bool
  nextId : ℕ → ℕ
  content : σ

variable {P σ : Type} [DecidableEq P] (S : Setup P σ)

namespace Cache

/-- A new cache, created at time `now`; objects outside of the cache are as their constructors made them. -/
def init (now : ℕ) (content : σ) : Cache P σ where
  allObjects := []
  id _ := .invalid
  objectSize _ := 0
  isPinned _ := false
  childrenCount _ := 0
  lastUsed _ := now
  links := ⟨fun _ => none, fun _ => none⟩
  rootObject := none
  oldestObject := none
  deepestYoungestObject := none
  pinnedObjectId := .invalid
  minimumRequiredCreationTime := now
  totalSize := 0
  isGarbageCollectorRunning := false
  nextId _ := 1
  content := content

variable (s : Cache P σ)

/-- `all_objects_.find`. -/
def find (id : ListId) : Option P := s.allObjects.find? (s.id · = id)

def lookup (id : ListId) : Except Fault (Option P) := do
  check (id.isValid = true) .invalidId
  return s.find id

def isLeaf (p : P) : Bool := s.childrenCount p = 0

instance (o : Option P) (s : Cache P σ) : Decidable (∀ p ∈ o, s.isLeaf p = true) := Option.decidableForallMem ..

/-- In milliseconds. -/
def getAge (now : ℕ) (p : P) : ℕ := (now - s.lastUsed p) / 10 ^ 6

def count : ℕ := s.allObjects.length

/-- The objects of the aging list, as the iterator of the cache visits them. -/
def agingList : List P := Links.follow s.links.next s.count s.oldestObject

end Cache

/-! ## IDs -/

/-- `ID::List::VALUE_MASK`, the largest ID without context and no-cache bit. -/
def idMax : ℕ := 2 ^ 27 - 1

/-- `DBUS_LISTS_CONTEXT_ID_MAX`. -/
def contextIdMax : ℕ := 15

namespace CacheIdGenerator

/-- `make_list_id`. -/
def makeListId (rawId : ℕ) (mode : CacheMode) (ctx : ℕ) : ListId :=
  ⟨rawId ||| ctx <<< 28 ||| if mode = .uncached then 2 ^ 27 else 0⟩

def getCacheMode (id : ListId) : CacheMode := if id.raw.testBit 27 then .uncached else .cached

def getContext (id : ListId) : ℕ := id.raw >>> 28

/-- The loop of `next`: the candidate that is free, if any, and the next candidate after it. -/
def search (isFree : ListId → Bool) (mode : CacheMode) (ctx start : ℕ) : ℕ → ℕ → ListId × ℕ
  | 0, next => (.invalid, next)
  | n + 1, next =>
    let candidate := makeListId next mode ctx
    let next := if next < idMax then next + 1 else 1
    if isFree candidate then (candidate, next)
    else if start = next then (.invalid, next)
    else search isFree mode ctx start n next

end CacheIdGenerator

namespace Cache

/-- `CacheIdGenerator::next`. -/
def nextListId (mode : CacheMode) (ctx : ℕ) (s : Cache P σ) : Except Fault (ListId × Cache P σ) := do
  check (ctx ≤ contextIdMax) .badContext
  let r := CacheIdGenerator.search (fun id => (s.find id).isNone) mode ctx (s.nextId ctx) idMax (s.nextId ctx)
  return (r.1, { s with nextId := Function.update s.nextId ctx r.2 })

/-! ## Use -/

/-- `Entry::append` -/
def appendList (l : Links P) (tail head : P) : Except Fault (Links P) := do
  check (l.prev head = none) .agingList
  check (l.next tail = none) .agingList
  return l.append tail head

/-- `join_lists`, if there is a tail to join to. -/
def joinLists (l : Links P) (tail : Option P) (head : P) : Except Fault (Links P) :=
  match tail with
  | none => return l
  | some tail => appendList l tail head

/-- The pointers that `unlink_objects_on_path_to_root` works with. -/
structure Cursors (P : Type) where
  links : Links P
  oldest : Option P
  reconnectTail : Option P

/-- The first loop of `unlink_objects_on_path_to_root`, over the path of `entry`. -/
def unlinkPath (entry : P) : List P → Cursors P → Cursors P
  | [], c => c
  | e :: path, c => unlinkPath entry path {
      links := c.links.unlink e
      oldest := if c.oldest = some e then some ((c.links.next e).getD entry) else c.oldest
      reconnectTail := if c.reconnectTail = some e then c.links.prev e else c.reconnectTail }

/-- The second loop, over the ancestors of the tail: those which are still linked. -/
def findReconnectTail (lastUsed : P → ℕ) (l : Links P) : List P → P → Except Fault P
  | [], tail => return tail
  | e :: path, tail =>
    if l.next e ≠ none ∨ l.prev e ≠ none then do
      check (lastUsed e = lastUsed tail) .agingList
      findReconnectTail lastUsed l path e
    else return tail

/-- The second loop, if there is a tail. -/
def moveReconnectTail (lastUsed : P → ℕ) (c : Cursors P) : Except Fault (Option P) :=
  match c.reconnectTail with
  | none => return none
  | some tail => some <$> findReconnectTail lastUsed c.links (S.forest.path tail).tail tail

def unlinkObjectsOnPathToRoot (entry : P) (s : Cache P σ) : Except Fault (ℤ × Cursors P) := do
  let path := S.forest.path entry
  let c := unlinkPath entry path ⟨s.links, s.oldestObject, s.deepestYoungestObject⟩
  let tail ← moveReconnectTail S s.lastUsed c
  check (∀ t ∈ tail, c.links.next t = none) .agingList
  return ((path.length : ℤ) - 1, { c with reconnectTail := tail })

/-- The links that `link_objects_on_path_to_root` makes. -/
def linkPath : List P → Links P → Except Fault (Links P)
  | [], l => return l
  | e :: path, l =>
    match S.forest.parent e with
    | none => linkPath path l
    | some parent => do
      let l ← appendList l e parent
      linkPath path l

def usedEntryAlreadyUpToDate : ℤ := -1

def usedEntryInvalidId : ℤ := -2

/-- `use` of an entry. -/
def useEntry (now : ℕ) (entry : P) (s : Cache P σ) : Except Fault (ℤ × Cache P σ) := do
  let found ← s.lookup (s.id entry)
  check (found ≠ none) .notCached
  check (s.minimumRequiredCreationTime ≤ now) .clock
  if now ≤ s.minimumRequiredCreationTime then
    return (usedEntryAlreadyUpToDate, s)
  else do
    let (depth, c) ← unlinkObjectsOnPathToRoot S entry s
    let path := S.forest.path entry
    let links ← linkPath S path c.links
    let links ← joinLists links c.reconnectTail entry
    let s := { s with
      deepestYoungestObject := some entry
      oldestObject := c.oldest
      lastUsed := fun p => if p ∈ path then now else s.lastUsed p
      links := links }
    check (∀ o ∈ c.oldest, s.isLeaf o = true) .oldestNotLeaf
    return (depth, s)

/-- `use` of an ID. -/
def use (now : ℕ) (id : ListId) (s : Cache P σ) : Except Fault (ℤ × Cache P σ) := do
  match ← s.lookup id with
  | some entry => s.useEntry S now entry
  | none => return (usedEntryInvalidId, s)

/-! ## Discarding objects -/

def pinOrUnpinObjectsOnPathToRoot (id : ListId) (pinThem : Bool) (s : Cache P σ) : Bool × Cache P σ :=
  if id.isValid then
    match s.find id with
    | none => (false, s)
    | some entry => (true, { s with isPinned := fun p => if p ∈ S.forest.path entry then pinThem else s.isPinned p })
  else (false, s)

/-- The cache after `discard` has removed the candidate. -/
def without (notify : Bool) (candidate : P) (s : Cache P σ) : Cache P σ :=
  let parent := S.forest.parent candidate
  let oldest := if s.oldestObject = some candidate then s.links.next candidate else s.oldestObject
  let content := match parent with
    | none => s.content
    | some p => S.obliviateChild p (s.id candidate) candidate s.content
  { s with
    allObjects := s.allObjects.filter (s.id · ≠ s.id candidate)
    childrenCount := match parent with
      | none => s.childrenCount
      | some p => Function.update s.childrenCount p (s.childrenCount p - 1)
    links := s.links.unlink candidate
    rootObject := if oldest = none then none else s.rootObject
    oldestObject := oldest
    deepestYoungestObject := if s.deepestYoungestObject = some candidate then parent else s.deepestYoungestObject
    totalSize := s.totalSize - s.objectSize candidate
    content := if notify then S.notifyObjectRemoved (s.id candidate) content else content }

def discard (notify : Bool) (candidate : P) (s : Cache P σ) : Except Fault (Option P × Cache P σ) := do
  check (∃ o ∈ s.oldestObject, s.isLeaf o = true) .oldestNotLeaf
  check (s.isPinned candidate = false) .pinned
  check (∀ p ∈ S.forest.parent candidate, 0 < s.childrenCount p) .childrenCount
  check (s.objectSize candidate ≤ s.totalSize) .totalSize
  check (s.find (s.id candidate) ≠ none) .discardedTwice
  return (s.links.next candidate, s.without S notify candidate)

end Cache

end Listbrokers.Lru
