import Listbrokers.Framework.StateOp
import Listbrokers.Tiles.Tile

/-!
# The thread pool of the tiled lists

All tiled lists of one type share one `ListThreads` object with one work queue.
The reading thread puts tiles into the queue (`enqueue`), takes them out again
(`cancelFiller`, `cancelAllQueuedFillers`) and waits for them
(`waitForReadyState`); worker threads take the work at the front of the queue
and fill its tile (`WorkerStep`).

Workers make progress between the operations of the reading thread, and while
it waits: a wait for a tile that is being filled ends when this fill ends, a
wait for a queued tile when the works in front of it and the tile's own work are
done. A wait for a tile nobody is going to fill does not return.
-/

namespace Listbrokers.Tiles

open Framework

/-- `ListTiles_::ItemLocation` without `NIL`. -/
inductive ItemLocation
  | up
  | center
  | down
  deriving DecidableEq, Repr

/-- What a `TiledList` holds: `hot_tiles_`, `active_tiles_` and `number_of_entries_`. -/
structure TiledList (α : Type) where
  hot : Fin 3 → ListTile α
  active : ItemLocation → Option (Fin 3)
  numberOfEntries : ℕ

/-- `TiledList(parent, number_of_entries, filler)`. -/
def TiledList.init {α : Type} [Inhabited α] (numberOfEntries : ℕ) : TiledList α :=
  ⟨fun _ => .init, fun _ => Option.none, numberOfEntries⟩

/-- `ListThreads::Work`: a tile, named by its list and its place in `hot_tiles_`. -/
abbrev Work (κ : Type) := κ × Fin 3

instance neZero_tiles : NeZero 3 := ⟨by decide⟩

instance {κ : Type} [DecidableEq κ] : LawfulBEq (Work κ) := inferInstance

/-- All tiled lists of one type, their work queue, the works that are being done, and the killed lists. -/
structure Sys (κ α : Type) where
  lists : κ → TiledList α
  queue : List (Work κ)
  running : List (Work κ)
  killed : List ListId

variable {κ α : Type} [DecidableEq κ]

namespace Sys

/-- All lists are new. -/
def init [Inhabited α] (numberOfEntries : κ → ℕ) : Sys κ α := ⟨fun a => .init (numberOfEntries a), [], [], []⟩

/-- The tile a work is about. -/
def tile (s : Sys κ α) (w : Work κ) : ListTile α := (s.lists w.1).hot w.2

/-- Replace a list. -/
def setList (s : Sys κ α) (a : κ) (l : TiledList α) : Sys κ α :=
  { s with lists := Function.update s.lists a l }

/-- Replace a tile, and record killed lists. -/
def setTile (s : Sys κ α) (w : Work κ) (r : List ListId × ListTile α) : Sys κ α :=
  { s with
    lists := Function.update s.lists w.1
      { s.lists w.1 with hot := Function.update (s.lists w.1).hot w.2 r.2 }
    killed := s.killed ++ r.1 }

@[simp] theorem setTile_queue (s : Sys κ α) (w : Work κ) (r) : (s.setTile w r).queue = s.queue := rfl

@[simp] theorem setTile_running (s : Sys κ α) (w : Work κ) (r) : (s.setTile w r).running = s.running := rfl

@[simp] theorem setTile_tile (s : Sys κ α) (w : Work κ) (r) : (s.setTile w r).tile w = r.2 := by
  simp [tile, setTile]

theorem setTile_tile_ne (s : Sys κ α) {w v : Work κ} (r) (h : v ≠ w) : (s.setTile w r).tile v = s.tile v := by
  obtain ⟨a, i⟩ := w
  obtain ⟨b, j⟩ := v
  by_cases hab : b = a
  · subst hab
    have hij : j ≠ i := fun hij => h (by rw [hij])
    simp [tile, setTile, hij]
  · simp [tile, setTile, hab]

theorem setTile_lists_ne (s : Sys κ α) {w : Work κ} {b : κ} (r) (h : b ≠ w.1) :
    (s.setTile w r).lists b = s.lists b := by
  simp [setTile, h]

end Sys

/-- What does not change in a `ListThreads` object: which filler the works of a list come with, and
`is_synchronous_mode_`; the tile size of its lists is positive. -/
structure ListThreads (κ α : Type) (tileSize : ℕ) where
  filler : κ → Filler tileSize α
  isSynchronousMode : Bool
  tileSize_pos : 0 < tileSize

variable [Inhabited α] {tileSize : ℕ} (p : ListThreads κ α tileSize)

/-! ## Worker threads -/

namespace Sys

/-- A worker takes the work at the front of the queue. -/
def take (s : Sys κ α) (w : Work κ) (rest : List (Work κ)) : Sys κ α :=
  { s with queue := rest, running := w :: s.running }

/-- A worker ends its work, having been told whether it may continue. -/
def finish (s : Sys κ α) (w : Work κ) (mayContinue : Bool) : Sys κ α :=
  { s with running := s.running.erase w }.setTile w ((s.tile w).doFillTile (p.filler w.1) mayContinue)

end Sys

/-- `ListThreads::worker`, in two steps. -/
inductive WorkerStep : Sys κ α → Sys κ α → Prop
  | take {s : Sys κ α} {w : Work κ} {rest : List (Work κ)} (h : s.queue = w :: rest) :
      WorkerStep s (s.take w rest)
  | finish {s : Sys κ α} {w : Work κ} (h : w ∈ s.running) : WorkerStep s (s.finish p w true)

/-- The worker threads make some progress. -/
abbrev Workers : Sys κ α → Sys κ α → Prop := Relation.ReflTransGen (WorkerStep p)

/-- Do the works at the front of the queue, up to and including `w`. -/
def doUpTo (w : Work κ) : List (Work κ) → Sys κ α → Sys κ α
  | [], s => s
  | v :: rest, s =>
    let s' := (s.take v rest).finish p v true
    if v = w then s' else doUpTo w rest s'

/-- What the workers do while the reading thread waits for a tile. -/
def Sys.awaited (s : Sys κ α) (w : Work κ) : Sys κ α :=
  if w ∈ s.running then s.finish p w true
  else if w ∈ s.queue then doUpTo p w s.queue s
  else s

/-! ## The reading thread -/

/-- `msg_log_assert`. -/
def check {σ : Type} (p : Prop) [Decidable p] : Op σ Unit := fun s => if p then some ((), s) else .none

/-- The list the reading thread works with. -/
def theList (a : κ) : Op (Sys κ α) (TiledList α) := fun s => some (s.lists a, s)

/-- `is_free`: the tile is not locked by a worker, and free. -/
def isFree (w : Work κ) : Op (Sys κ α) Bool := fun s =>
  some (decide (w ∉ s.running ∧ (s.tile w).state = .free), s)

/-- Change what the reading thread keeps of a list. -/
def modifyList (a : κ) (f : TiledList α → TiledList α) : Op (Sys κ α) Unit := fun s =>
  some ((), s.setList a (f (s.lists a)))

/-- Assign `active_tiles_`. -/
def setActive (a : κ) (active : ItemLocation → Option (Fin 3)) : Op (Sys κ α) Unit :=
  modifyList a fun l => { l with active := active }

/-- `activate_tile`. -/
def activateTile (tileSize : ℕ) (w : Work κ) (idx : ℕ) : Op (Sys κ α) Unit := fun s =>
  ((s.tile w).activateTile tileSize idx).map fun t => ((), s.setTile w ([], t))

/-- `ListTile_::reset`, with its default arguments. -/
def resetTile (tileSize : ℕ) (w : Work κ) : Op (Sys κ α) Unit := fun s =>
  some ((), s.setTile w ((s.tile w).reset tileSize .ok .free))

/-- `ListThreads::enqueue`. -/
def enqueue (w : Work κ) : Op (Sys κ α) Unit := fun s =>
  if (s.tile w).state = .filling then some ((), { s with queue := s.queue ++ [w] }) else .none

/-- Make a worker stop filling a tile, or take the tile out of the queue. -/
def Sys.withoutFiller (s : Sys κ α) (w : Work κ) : Sys κ α :=
  if w ∈ s.running then s.finish p w false
  else if (s.tile w).state = .canceled then s
  else
    let s' := if (s.tile w).state = .filling then { s with queue := s.queue.erase w } else s
    s'.setTile w ((s.tile w).canceledNotification tileSize .ok)

/-- `ListThreads::cancel_filler`. -/
def cancelFiller (w : Work κ) : Op (Sys κ α) Unit := fun s =>
  let s' := s.withoutFiller p w
  if (s'.tile w).state ≠ .free ∧ (s'.tile w).state ≠ .filling then some ((), s') else .none

/-- The loop over the queue in `cancel_all_queued_fillers`. -/
def cancelQueued (tileSize : ℕ) : List (Work κ) → Sys κ α → Option (Sys κ α)
  | [], s => some s
  | w :: rest, s =>
    if (s.tile w).state = .filling then
      cancelQueued tileSize rest (s.setTile w ((s.tile w).canceledNotification tileSize .ok))
    else .none

/-- `ListThreads::cancel_all_queued_fillers`: it empties the queue of all lists. -/
def cancelAllQueuedFillers (tileSize : ℕ) : Op (Sys κ α) Unit := fun s =>
  (cancelQueued tileSize s.queue s).map fun s => ((), { s with queue := [] })

/-- `wait_for_ready_state`; `ListIterException` carries the error of the tile. -/
def waitForReadyState (w : Work κ) : Op (Sys κ α) (Except ListError Unit) := fun s =>
  let s := s.awaited p w
  match (s.tile w).state with
  | .filling => .none
  | .ready => some (.ok (), s)
  | _ => some (.error (s.tile w).error, s)

/-- `SyncThreads`: in synchronous mode, wait until the workers have taken all works. -/
def waitEmptyIfSynchronized : Op (Sys κ α) Unit := fun s =>
  some ((), if p.isSynchronousMode then { s with queue := [], running := s.queue.reverse ++ s.running } else s)

end Listbrokers.Tiles
