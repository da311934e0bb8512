import Mathlib.Data.List.Basic
import Mathlib.Data.Nat.Notation
import Mathlib.Logic.Function.Basic
import Mathlib.Tactic.Common
import Mathlib.Algebra.Order.Ring.Int

/-!
# UPnP servers lost and found

`UPnP::ServersLostAndFound`: for each object path, the proxy creations that have
been announced by `server_found` and not been reported to `server_processed`
yet. An entry is known by how many entries have been created before it; its
serial number is that number as an `unsigned int`.
-/

namespace Listbrokers.Upnp

/-- `AddToListData`. -/
structure AddToListData where
  number : ℕ
  cancelled : Bool
  deriving DecidableEq, Repr

/-- The serial number of the entry that is created after so many others. -/
def serial (number : ℕ) : ℕ := number % 2 ^ 32

/-- What `server_processed` complains about. -/
inductive Report
  | unknown
  | queueEmpty
  | notFirst
  | notInQueue
  deriving DecidableEq, Repr

structure ServersLostAndFound where
  nextNumber : ℕ
  serverAddedQueues : String → Option (List AddToListData)

/-- `queue.back()->cancel()`, unless the queue is empty. -/
def cancelBack (queue : List AddToListData) : List AddToListData :=
  match queue.getLast? with
  | none => queue
  | some data => queue.dropLast ++ [{ data with cancelled := true }]

namespace ServersLostAndFound

variable (s : ServersLostAndFound) (path : String)

/-- Replace a queue, whose entry is erased from the map if nothing is left. -/
def setQueue (queue : List AddToListData) : ServersLostAndFound :=
  { s with serverAddedQueues := Function.update s.serverAddedQueues path (if queue = [] then none else some queue) }

/-- `server_found`. -/
def serverFound : AddToListData × ServersLostAndFound :=
  let queue := (s.serverAddedQueues path).getD []
  let data := ⟨s.nextNumber, false⟩
  (data, { nextNumber := s.nextNumber + 1
           serverAddedQueues := Function.update s.serverAddedQueues path (some (cancelBack queue ++ [data])) })

/-- `server_lost`, and whether something has been cancelled. -/
def serverLost : Bool × ServersLostAndFound :=
  match s.serverAddedQueues path with
  | none => (false, s)
  | some queue =>
    match queue.getLast? with
    | none => (false, s)
    | some data =>
      (!data.cancelled, { s with
        serverAddedQueues := Function.update s.serverAddedQueues path (some (cancelBack queue)) })

/-- `server_processed`. What `erase` does for the end of the queue is not defined; nothing is removed here. -/
def serverProcessed (number : ℕ) : Option Report × ServersLostAndFound :=
  match s.serverAddedQueues path with
  | none => (some .unknown, s)
  | some [] => (some .queueEmpty, s.setQueue path [])
  | some (front :: queue) =>
    if serial front.number = serial number then (none, s.setQueue path queue)
    else
      match queue.findIdx? fun data => serial data.number = serial number with
      | some idx => (some .notFirst, s.setQueue path (front :: queue.eraseIdx idx))
      | none => (some .notInQueue, s)

/-- The creations that are kept for a path. -/
def queueOf : List AddToListData := (s.serverAddedQueues path).getD []

end ServersLostAndFound

/-! ## Cancelling the newest creation -/

section

variable {queue : List AddToListData} {data : AddToListData}

theorem map_number_cancelBack (queue : List AddToListData) :
    (cancelBack queue).map (·.number) = queue.map (·.number) := by
  unfold cancelBack
  split
  · rfl
  · next data hlast =>
    conv_rhs => rw [← List.dropLast_append_getLast? _ hlast]
    rw [List.map_append, List.map_append]
    rfl

theorem cancelled_cancelBack (h : ∀ data ∈ queue.dropLast, data.cancelled = true) :
    ∀ data ∈ cancelBack queue, data.cancelled = true := by
  unfold cancelBack
  split
  · next hlast =>
    rw [List.getLast?_eq_none_iff.mp hlast]
    simp
  · next data hlast =>
    intro other hother
    rcases List.mem_append.mp hother with hother | hother
    · exact h other hother
    · rw [List.mem_singleton.mp hother]

end

end Listbrokers.Upnp
