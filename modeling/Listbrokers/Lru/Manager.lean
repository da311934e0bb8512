import Listbrokers.Lru.Toposort

/-!
# The list tree manager

`ListTreeManager` of `listtree_manager.cc` on the cache, and what the list trees
for USB devices and for UPnP servers do with their root list, the list of all
devices or servers (`usb_listtree.hh`, `upnp_listtree.hh`). The root list is put
into the cache and pinned when a tree is initialized. The tree remembers its ID.

The signals that are emitted when a list gets another ID are left out.
-/

namespace Listbrokers.Lru

open Framework

/-- A cache of lists which know their sublists. -/
structure Manager (P σ : Type) extends Setup P σ where
  enumerateDirectSublists : P → σ → List ListId
  partition : Partition ListId

/-- `ListTreeManager::PurgeResult`. -/
inductive PurgeResult
  | invalid
  | untouched
  | replacedRoot
  | purged
  | purgedAndReplaced
  deriving DecidableEq, Repr

variable {P σ : Type} [DecidableEq P] (M : Manager P σ)

namespace Cache

variable (s : Cache P σ)

/-- The loop of `LRU::Entry::enumerate_tree_of_sublists`, over the nodes that have not been processed. It is left after
`n` nodes at the latest. -/
def enumerateTreeOfSublists : ℕ → List ListId → Except Fault (List ListId)
  | _, [] => return []
  | 0, _ :: _ => throw .endless
  | n + 1, id :: nodes => do
    match ← s.lookup id with
    | none => throw .notCached
    | some list => do
      let rest ← enumerateTreeOfSublists n (nodes ++ M.enumerateDirectSublists list s.content)
      return id :: rest

/-- `ListTreeManager::reinsert_list`. -/
def reinsertList (id : ListId) : Except Fault (ListId × Cache P σ) := do
  match ← s.lookup id with
  | none => throw .notCached
  | some list => do
    let (newId, s) ← s.insertAgain list
    check (newId ≠ id) .idTaken
    return (newId, s)

/-- `ListTreeManager::use_list`. -/
def useList (now : ℕ) (id : ListId) (pinIt : Bool) : Except Fault (Bool × Cache P σ) :=
  if id.isValid = false then return (false, s)
  else do
    let (depth, s) ← s.use M.toSetup now id
    if depth = usedEntryInvalidId then return (false, s)
    else if pinIt = false then return (true, s)
    else do
      let previousPinned := s.pinnedObjectId
      let (pinned, s) ← s.pin M.toSetup now id
      if pinned = false ∧ previousPinned.isValid = true then do
        let (_, s) ← s.pin M.toSetup now previousPinned
        return (true, s)
      else return (true, s)

/-- `ListTreeManager::repin_if_first_is_deepest_pinned_list`. -/
def repinIfFirstIsDeepestPinnedList (now : ℕ) (firstId otherId : ListId) : Except Fault (Cache P σ) := do
  check (otherId.isValid = true) .invalidId
  if firstId.isValid = true ∧ firstId = s.pinnedObjectId then do
    let (_, s) ← s.pin M.toSetup now otherId
    return s
  else return s

/-- What `purge_subtree` does to a list with these sublists. -/
def purgeResult (oldId newId : ListId) (killList : List ListId) : PurgeResult :=
  if newId.isValid = false then .purged
  else if oldId = newId then if 1 < killList.length then .purged else .untouched
  else if 1 < killList.length then .purgedAndReplaced else .replacedRoot

/-- The part of `purge_subtree` that processes the kill list. -/
def processKillList (now : ℕ) (killList : List ListId) : Except Fault (Cache P σ) := do
  let (_, killList) ← s.toposortForPurge M.toSetup M.partition killList
  s.purgeEntries M.toSetup true now killList

/-- `ListTreeManager::purge_subtree`, in which `set_root` changes the content of a list. -/
def purgeSubtree (n now : ℕ) (oldId newId : ListId) (setRoot : ListId → ListId → σ → σ) :
    Except Fault (PurgeResult × Cache P σ) :=
  let patch := fun s : Cache P σ => { s with content := setRoot oldId newId s.content }
  match if oldId.isValid then s.find oldId else none with
  | none => return (.invalid, patch s)
  | some _ => do
    let killList ← s.enumerateTreeOfSublists M n [oldId]
    let result := purgeResult oldId newId killList
    let firstToKill := if newId.isValid then 1 else 0
    match result with
    | .invalid | .untouched => return (result, patch s)
    | .purged => do
      let s ← (patch s).processKillList M now (killList.drop firstToKill)
      return (result, s)
    | .replacedRoot => do
      let s ← s.purgeEntries M.toSetup false now [oldId]
      return (result, patch s)
    | .purgedAndReplaced => do
      let s ← s.purgeEntries M.toSetup false now [oldId]
      let s ← (patch s).processKillList M now (killList.drop firstToKill)
      return (result, s)

end Cache

/-! ## The root list -/

/-- `USB::ListTree` or `UPnP::ListTree`, at a time. -/
structure ListTree (P σ : Type) where
  now : ℕ
  cache : Cache P σ
  /-- `devices_list_id_` or `server_list_id_`. -/
  rootListId : ListId

/-- `init`. -/
def ListTree.init (handlers : Handlers) (now : ℕ) (content : σ) (root : P) : Except Fault (ListTree P σ) := do
  let (id, s) ← (Cache.init now content).insert M.toSetup now handlers now .cached 0 0 root
  let (_, s) ← s.pin M.toSetup now id
  check (id.isValid = true) .invalidId
  return ⟨now, s, id⟩

/-- The operations of a list tree. -/
inductive TreeCall (P : Type)
  | useList (id : ListId) (pinIt : Bool)
  | discardListHint (id : ListId)
  | enterChild (handlers : Handlers) (created : ℕ) (mode : CacheMode) (ctx size : ℕ) (entry : P)
  | gc
  /-- `purge_subtree` without a new root, of at most `n` lists. -/
  | purgeSubtree (n : ℕ) (id : ListId)
  | reinsertRootList
  deriving DecidableEq, Repr

namespace TreeCall

/-- What the call makes of the tree. -/
def run (now : ℕ) (t : ListTree P σ) : TreeCall P → Except Fault (ListTree P σ)
  | useList id pinIt => do
    let (_, s) ← t.cache.useList M now id pinIt
    return { t with now := now, cache := s }
  | discardListHint id =>
    if id ≠ t.rootListId then do
      let s ← t.cache.repinIfFirstIsDeepestPinnedList M now id t.rootListId
      return { t with now := now, cache := s }
    else return { t with now := now }
  | enterChild handlers created mode ctx size entry => do
    let (_, s) ← t.cache.insert M.toSetup now handlers created mode ctx size entry
    return { t with now := now, cache := s }
  | gc => do
    let (_, s) ← t.cache.gc M.toSetup now
    return { t with now := now, cache := s }
  | purgeSubtree n id => do
    let (_, s) ← t.cache.purgeSubtree M n now id .invalid fun _ _ content => content
    return { t with now := now, cache := s }
  | reinsertRootList => do
    let (id, s) ← t.cache.reinsertList t.rootListId
    return { now := now, cache := s, rootListId := id }

/-- Children are entered in cached lists, and the root list is not purged. -/
def Allowed (t : ListTree P σ) : TreeCall P → Prop
  | enterChild _ _ _ _ _ entry => ∃ q ∈ M.forest.parent entry, q ∈ t.cache.allObjects
  | purgeSubtree _ id => t.cache.find id ≠ none ∧ id ≠ t.rootListId
  | _ => True

instance (t : ListTree P σ) (call : TreeCall P) : Decidable (call.Allowed M t) := by
  cases call <;> unfold Allowed <;> infer_instance

end TreeCall

namespace ListTree

/-- A call at a time that returns. -/
def Step (t : ListTree P σ) (l : ℕ × TreeCall P) (t' : ListTree P σ) : Prop :=
  t.now ≤ l.1 ∧ l.2.Allowed M t ∧ l.2.run M l.1 t = .ok t'

/-- The state after a call. -/
def next (t : ListTree P σ) (l : ℕ × TreeCall P) : Option (ListTree P σ) :=
  if t.now ≤ l.1 ∧ l.2.Allowed M t then (l.2.run M l.1 t).toOption else none

/-- The tree has been initialized: its root list is cached and pinned. -/
def Initialized (root : P) (t : ListTree P σ) : Prop :=
  ∃ handlers now content, ListTree.init M handlers now content root = .ok t ∧ t.cache.isPinned root = true

end ListTree

end Listbrokers.Lru
