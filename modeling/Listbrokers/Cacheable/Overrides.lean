import Listbrokers.Tree.Shelf
import Mathlib.Data.Int.Notation

/-!
# Overrides of the cache mode

`Cacheable::CheckWithOverrides`: lists that are to be cached for some time
although their IDs say otherwise. An override is an object in memory whose
address its timer holds, and which is moved to another address when its list
gets a new ID. Times are in microseconds, and `INT64_MIN` is `none`.
-/

namespace Listbrokers.Cacheable

/-- `Override::EXPIRY_TIME`, in seconds. -/
def expirySeconds : ℕ := 180

def expiryTime : ℕ := expirySeconds * 10 ^ 6

/-- `Override`; of `expired_fn_` the ID is left that it has captured. -/
structure Override where
  expiredFn : ListId
  nodesOnOverriddenPathToRoot : List ListId
  startTime : Option ℕ
  activeTimerId : ℕ
  deriving DecidableEq, Repr

def Override.isInvalidated (ovr : Override) : Bool := ovr.startTime.isNone

/-- `Override::list_invalidate`. -/
def Override.listInvalidate (ovr : Override) (id replacement : ListId) : Override :=
  if id ∈ ovr.nodesOnOverriddenPathToRoot then
    { ovr with nodesOnOverriddenPathToRoot := replacement :: ovr.nodesOnOverriddenPathToRoot.filter (· ≠ id) }
  else ovr

/-- An override in the map. -/
structure Node where
  key : ListId
  address : ℕ
  ovr : Override
  deriving DecidableEq, Repr

/-- A timeout of GLib that has not fired yet, with the object that `trampoline` is called for. -/
structure Timer where
  id : ℕ
  origin : ℕ
  created : ℕ
  deriving DecidableEq, Repr

/-- `CheckWithOverrides`, and the timeouts. -/
structure CheckWithOverrides where
  overrides : List Node
  timers : List Timer
  nextAddress : ℕ
  nextTimerId : ℕ
  deriving DecidableEq, Repr

/-- A timer refers to memory that is no override any more. -/
inductive Fault
  | useAfterFree
  deriving DecidableEq, Repr

namespace CheckWithOverrides

def init : CheckWithOverrides := ⟨[], [], 0, 1⟩

variable (s : CheckWithOverrides) (now : ℕ)

def find (id : ListId) : Option Node := s.overrides.find? (·.key = id)

/-- `std::map::emplace`. -/
def emplace (id : ListId) (ovr : Override) : CheckWithOverrides :=
  if (s.find id).isSome then s
  else { s with overrides := ⟨id, s.nextAddress, ovr⟩ :: s.overrides, nextAddress := s.nextAddress + 1 }

def erase (id : ListId) : CheckWithOverrides := { s with overrides := s.overrides.filter (·.key ≠ id) }

/-- Change the override at an address. -/
def modify (address : ℕ) (f : Override → Override) : CheckWithOverrides :=
  { s with overrides := s.overrides.map fun n => if n.address = address then { n with ovr := f n.ovr } else n }

/-- `remove_timeout`, unless there is no timer. -/
def removeTimeout (id : ℕ) : CheckWithOverrides :=
  if id = 0 then s else { s with timers := s.timers.filter (·.id ≠ id) }

/-- `create_timeout`. -/
def createTimeout (origin : ℕ) : CheckWithOverrides :=
  { s with timers := ⟨s.nextTimerId, origin, now⟩ :: s.timers, nextTimerId := s.nextTimerId + 1 }

/-- `Override::keep_alive`. -/
def keepAlive (n : Node) : CheckWithOverrides :=
  ((s.removeTimeout n.ovr.activeTimerId).createTimeout now n.address).modify n.address fun ovr =>
    { ovr with startTime := some now, activeTimerId := s.nextTimerId }

/-- `Override::invalidate`, with the call of `expired_fn_`. -/
def invalidate (n : Node) : CheckWithOverrides :=
  let s := (s.removeTimeout n.ovr.activeTimerId).modify n.address fun ovr =>
    { ovr with startTime := none, activeTimerId := 0 }
  if n.ovr.isInvalidated then s else s.erase n.ovr.expiredFn

/-- `put_override`, for a list with these IDs of its ancestors, if it is cached; the result is in seconds. -/
def putOverride (id : ListId) (ancestors : Option (List ListId)) : ℤ × CheckWithOverrides :=
  match ancestors with
  | none => (-1, s)
  | some ancestors =>
    let s := s.emplace id ⟨id, ancestors.takeWhile ListId.nocacheBit, none, 0⟩
    match s.find id with
    | none => (-1, s)
    | some n => (expirySeconds, s.keepAlive now n)

/-- `remove_override`. -/
def removeOverride (id : ListId) : Bool × CheckWithOverrides :=
  match s.find id with
  | none => (false, s)
  | some n => (true, s.invalidate n)

/-- `invalidate_override`: the override is moved. -/
def moveOverride (id replacement : ListId) : CheckWithOverrides :=
  match s.find id with
  | none => s
  | some n => if id ≠ replacement then (s.emplace replacement n.ovr).erase id else s

/-- `patch_paths_to_root`. -/
def patchPathsToRoot (id replacement : ListId) : CheckWithOverrides :=
  { s with overrides := s.overrides.map fun n => { n with ovr := n.ovr.listInvalidate id replacement } }

/-- `list_invalidate`. -/
def listInvalidate (id replacement : ListId) : CheckWithOverrides :=
  if id.isValid then
    if replacement.isValid then (s.moveOverride id replacement).patchPathsToRoot id replacement
    else (s.removeOverride id).2
  else s

/-- `trampoline`, for an override at an address. -/
def trampoline (address : ℕ) : Except Fault CheckWithOverrides :=
  match s.overrides.find? (·.address = address) with
  | none => .error .useAfterFree
  | some n =>
    if ∀ start ∈ n.ovr.startTime, expiryTime ≤ now - start then .ok (s.erase n.ovr.expiredFn) else .ok s

/-- `is_cacheable`, for lists in this tree. -/
def isCacheable {P : Type} [DecidableEq P] (T : Framework.Forest P) (lists : Tree.Shelf P) (id : ListId) : Bool :=
  if id.isValid = false then false
  else
    match lists.find id with
    | none => false
    | some p =>
      if id.nocacheBit = false then true
      else if s.overrides.isEmpty then false
      else if s.overrides.any fun n => n.key = id || id ∈ n.ovr.nodesOnOverriddenPathToRoot then true
      else (T.path p).tail.any fun q => (s.find (lists.id q)).any fun n => !n.ovr.isInvalidated

end CheckWithOverrides

end Listbrokers.Cacheable
