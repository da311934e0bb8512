import Listbrokers.Framework.Lts
import Listbrokers.Tiles.Tile

/-!
# The threads of a tile pool, lock by lock

The reading thread and the worker threads of `ListThreads`, in the steps between
which the others may run: each acquires or releases a lock (`write_lock_` of a
tile, `lock_` of the work queue), or does something to what the locks protect.
A filler writes its items one after the other, and ends in whatever way.

Each activation of a tile is counted, and the work that is enqueued for it
carries the number, so that it can be told whether a work is a stale one.
-/

namespace Listbrokers.Tiles

variable {τ ω α : Type}

/-- The thread that reads, or a worker. -/
inductive Thread (ω : Type)
  | reader
  | worker (w : ω)
  deriving DecidableEq

/-- `ListThreads::Work`: the tile, and for which of its activations it is to be filled. -/
structure Request (τ : Type) where
  tile : τ
  number : ℕ
  deriving DecidableEq

/-- Where a worker is in `ListThreads::worker`. -/
inductive WorkerPc (τ : Type)
  /-- About to lock the queue. -/
  | idle
  /-- In `work_available_.wait`, with the queue locked. -/
  | dequeuing
  /-- With a work of its own, and the queue locked. -/
  | dequeued (r : Request τ)
  /-- With the tile locked, too. -/
  | locked (r : Request τ)
  /-- In `do_fill_tile`. -/
  | filling (r : Request τ)
  /-- Behind `do_fill_tile`, about to unlock the tile. -/
  | notified (t : τ)
  deriving DecidableEq

/-- Where the reading thread is. -/
inductive ReaderPc (τ : Type)
  | idle
  /-- In `wait_for_ready_state`, with the tile locked. -/
  | reading (t : τ)
  /-- In `enqueue`, about to lock the queue. -/
  | entering (r : Request τ)
  | enqueuing (r : Request τ)
  /-- About to unlock the queue. -/
  | enqueued
  /-- In `cancel_filler`, about to lock the queue. -/
  | canceling (t : τ)
  | queueLocked (t : τ)
  /-- With both locks. -/
  | owning (t : τ)
  /-- Behind the search through the queue; `tstate` is what the state has been before. -/
  | erased (t : τ) (tstate : ListTileState)
  | settled (t : τ)
  /-- About to unlock the queue, and return. -/
  | tileUnlocked (t : τ)
  /-- The tile is locked by another thread. -/
  | busy (t : τ)
  | waiting (t : τ)
  | regained (t : τ)
  /-- `cancel_filler` has returned. -/
  | canceled (t : τ)
  /-- In the loop of `cancel_all_queued_fillers`. -/
  | clearing (rest : List (Request τ))
  | cleared
  deriving DecidableEq

/-- The queue is locked by the worker. -/
def WorkerPc.holdsQueue : WorkerPc τ → Bool
  | dequeuing | dequeued _ | locked _ => true
  | _ => false

/-- The tile that is locked by the worker. -/
def WorkerPc.holdsTile : WorkerPc τ → Option τ
  | locked r | filling r => some r.tile
  | notified t => some t
  | _ => none

/-- The work that the worker has still to do. -/
def WorkerPc.request : WorkerPc τ → Option (Request τ)
  | dequeued r | locked r | filling r => some r
  | _ => none

namespace ReaderPc

/-- The queue is locked by the reading thread. -/
def holdsQueue : ReaderPc τ → Bool
  | enqueuing _ | enqueued | queueLocked _ | owning _ | erased _ _ | settled _ | tileUnlocked _ | busy _ | clearing _
  | cleared => true
  | _ => false

/-- The tile that is locked by the reading thread. -/
def holdsTile : ReaderPc τ → Option τ
  | reading t | owning t | erased t _ | settled t | regained t => some t
  | _ => none

/-- The work that is about to be put into the queue. -/
def request : ReaderPc τ → Option (Request τ)
  | entering r | enqueuing r => some r
  | _ => none

end ReaderPc

/-- The threads with their tiles, and the `WorkQueue`. -/
structure Threads (τ ω α : Type) where
  tile : τ → ListTile α
  cancelFillingRequest : τ → Bool
  activations : τ → ℕ
  tileLock : τ → Option (Thread ω)
  queue : List (Request τ)
  queueLock : Option (Thread ω)
  killed : List ListId
  worker : ω → WorkerPc τ
  reader : ReaderPc τ

/-- What a thread does next. -/
inductive ThreadEvent (τ ω α : Type)
  | lockQueue (w : ω)
  | waitForWork (w : ω)
  | dequeue (w : ω)
  | lockTile (w : ω)
  | unlockQueue (w : ω)
  | write (w : ω) (rawIndex : ℕ) (data : α)
  | doneNotification (w : ω) (count : ℕ)
  | canceledNotification (w : ω) (e : ListError)
  | unlockTile (w : ω)
  | readerLocks (t : τ)
  | readerUnlocks
  | setChildList (t : τ) (rawIndex : ℕ) (child : ListId)
  | activate (t : τ) (idx : ℕ)
  | enterQueue
  | enqueue
  | leaveQueue
  | cancel (t : τ)
  | cancelLocksQueue
  | tryLockTile
  | erase
  | settle
  | cancelUnlocksTile
  | cancelUnlocksQueue
  | giveUpQueue
  | regainTile
  | releaseTile
  | reset
  | clearAll
  | clearNext
  | clearQueue
  | leaveCleared

section

variable [DecidableEq τ] [DecidableEq ω] [Inhabited α]

namespace Threads

/-- Nothing has been activated. -/
def init : Threads τ ω α :=
  ⟨fun _ => .init, fun _ => false, fun _ => 0, fun _ => none, [], none, [], fun _ => .idle, .idle⟩

/-- A worker gets on. -/
def moveWorker (s : Threads τ ω α) (w : ω) (pc : WorkerPc τ) : Threads τ ω α :=
  { s with worker := Function.update s.worker w pc }

/-- A tile changes, and its lists are killed. -/
def change (s : Threads τ ω α) (t : τ) (r : List ListId × ListTile α) : Threads τ ω α :=
  { s with tile := Function.update s.tile t r.2, killed := s.killed ++ r.1 }

end Threads

/-- The steps of the threads. -/
inductive ThreadStep (tileSize : ℕ) (s : Threads τ ω α) : ThreadEvent τ ω α → Threads τ ω α → Prop
  -- `worker`
  | lockQueue {w : ω} (hpc : s.worker w = .idle) (hlock : s.queueLock = none) :
      ThreadStep tileSize s (.lockQueue w) ({ s with queueLock := some (.worker w) }.moveWorker w .dequeuing)
  | waitForWork {w : ω} (hpc : s.worker w = .dequeuing) (hqueue : s.queue = []) :
      ThreadStep tileSize s (.waitForWork w) ({ s with queueLock := none }.moveWorker w .idle)
  | dequeue {w : ω} {r : Request τ} {rest : List (Request τ)} (hpc : s.worker w = .dequeuing)
    (hqueue : s.queue = r :: rest) :
      ThreadStep tileSize s (.dequeue w) ({ s with queue := rest }.moveWorker w (.dequeued r))
  | lockTile {w : ω} {r : Request τ} (hpc : s.worker w = .dequeued r) (hlock : s.tileLock r.tile = none) :
      ThreadStep tileSize s (.lockTile w)
        ({ s with tileLock := Function.update s.tileLock r.tile (some (.worker w)) }.moveWorker w (.locked r))
  | unlockQueue {w : ω} {r : Request τ} (hpc : s.worker w = .locked r) :
      ThreadStep tileSize s (.unlockQueue w) ({ s with queueLock := none }.moveWorker w (.filling r))
  | write {w : ω} {r : Request τ} {rawIndex : ℕ} {data : α} (hpc : s.worker w = .filling r)
    (hindex : rawIndex < tileSize) :
      ThreadStep tileSize s (.write w rawIndex data) (s.change r.tile ([], { s.tile r.tile with
        items := Function.update (s.tile r.tile).items rawIndex { (s.tile r.tile).items rawIndex with data := data } }))
  | doneNotification {w : ω} {r : Request τ} {count : ℕ} (hpc : s.worker w = .filling r) (hcount : 0 < count) :
      ThreadStep tileSize s (.doneNotification w count)
        ((s.change r.tile ([], (s.tile r.tile).doneNotification count)).moveWorker w (.notified r.tile))
  | canceledNotification {w : ω} {r : Request τ} {e : ListError} (hpc : s.worker w = .filling r) :
      ThreadStep tileSize s (.canceledNotification w e)
        ((s.change r.tile ((s.tile r.tile).canceledNotification tileSize e)).moveWorker w (.notified r.tile))
  | unlockTile {w : ω} {t : τ} (hpc : s.worker w = .notified t) :
      ThreadStep tileSize s (.unlockTile w)
        ({ s with tileLock := Function.update s.tileLock t none }.moveWorker w .idle)
  -- `wait_for_ready_state`, which unlocks the tile also while it sleeps, and `get_child_list` of an item that is there
  | readerLocks {t : τ} (hpc : s.reader = .idle) (hlock : s.tileLock t = none) :
      ThreadStep tileSize s (.readerLocks t)
        { s with tileLock := Function.update s.tileLock t (some .reader), reader := .reading t }
  | readerUnlocks {t : τ} (hpc : s.reader = .reading t) :
      ThreadStep tileSize s .readerUnlocks { s with tileLock := Function.update s.tileLock t none, reader := .idle }
  | setChildList {t : τ} {rawIndex : ℕ} {child : ListId} (hpc : s.reader = .idle) (hready : (s.tile t).state = .ready) :
      ThreadStep tileSize s (.setChildList t rawIndex child) (s.change t ([], { s.tile t with
        items := Function.update (s.tile t).items rawIndex { (s.tile t).items rawIndex with child := child } }))
  -- `activate_tile` and `enqueue`, which follow each other
  | activate {t : τ} {idx : ℕ} {tile : ListTile α} (hpc : s.reader = .idle)
      (htile : (s.tile t).activateTile tileSize idx = some tile) :
      ThreadStep tileSize s (.activate t idx)
        { s.change t ([], tile) with
          cancelFillingRequest := Function.update s.cancelFillingRequest t false
          activations := Function.update s.activations t (s.activations t + 1)
          reader := .entering ⟨t, s.activations t + 1⟩ }
  | enterQueue {r : Request τ} (hpc : s.reader = .entering r) (hlock : s.queueLock = none) :
      ThreadStep tileSize s .enterQueue { s with queueLock := some .reader, reader := .enqueuing r }
  | enqueue {r : Request τ} (hpc : s.reader = .enqueuing r) :
      ThreadStep tileSize s .enqueue { s with queue := s.queue ++ [r], reader := .enqueued }
  | leaveQueue (hpc : s.reader = .enqueued) :
      ThreadStep tileSize s .leaveQueue { s with queueLock := none, reader := .idle }
  -- `cancel_filler`, which is never called for a free tile
  | cancel {t : τ} (hpc : s.reader = .idle) (hused : (s.tile t).state ≠ .free) :
      ThreadStep tileSize s (.cancel t)
        { s with cancelFillingRequest := Function.update s.cancelFillingRequest t true, reader := .canceling t }
  | cancelLocksQueue {t : τ} (hpc : s.reader = .canceling t) (hlock : s.queueLock = none) :
      ThreadStep tileSize s .cancelLocksQueue { s with queueLock := some .reader, reader := .queueLocked t }
  | tryLockTile {t : τ} (hpc : s.reader = .queueLocked t) :
      ThreadStep tileSize s .tryLockTile
        (if s.tileLock t = none then
          { s with tileLock := Function.update s.tileLock t (some .reader), reader := .owning t }
        else { s with reader := .busy t })
  | erase {t : τ} (hpc : s.reader = .owning t) :
      ThreadStep tileSize s .erase
        { s with
          queue := if (s.tile t).state = .filling then s.queue.eraseP (·.tile = t) else s.queue
          reader := .erased t (s.tile t).state }
  | settle {t : τ} {tstate : ListTileState} (hpc : s.reader = .erased t tstate) :
      ThreadStep tileSize s .settle
        { (if tstate ≠ .canceled then s.change t ((s.tile t).canceledNotification tileSize .ok) else s) with
          reader := .settled t }
  | cancelUnlocksTile {t : τ} (hpc : s.reader = .settled t) :
      ThreadStep tileSize s .cancelUnlocksTile
        { s with tileLock := Function.update s.tileLock t none, reader := .tileUnlocked t }
  | cancelUnlocksQueue {t : τ} (hpc : s.reader = .tileUnlocked t) :
      ThreadStep tileSize s .cancelUnlocksQueue { s with queueLock := none, reader := .canceled t }
  | giveUpQueue {t : τ} (hpc : s.reader = .busy t) :
      ThreadStep tileSize s .giveUpQueue { s with queueLock := none, reader := .waiting t }
  | regainTile {t : τ} (hpc : s.reader = .waiting t) (hlock : s.tileLock t = none) :
      ThreadStep tileSize s .regainTile
        { s with tileLock := Function.update s.tileLock t (some .reader), reader := .regained t }
  | releaseTile {t : τ} (hpc : s.reader = .regained t) :
      ThreadStep tileSize s .releaseTile { s with tileLock := Function.update s.tileLock t none, reader := .canceled t }
  -- `reset`, which follows `cancel_filler`
  | reset {t : τ} (hpc : s.reader = .canceled t) :
      ThreadStep tileSize s .reset { s.change t ((s.tile t).reset tileSize .ok .free) with reader := .idle }
  -- `cancel_all_queued_fillers`
  | clearAll (hpc : s.reader = .idle) (hlock : s.queueLock = none) :
      ThreadStep tileSize s .clearAll { s with queueLock := some .reader, reader := .clearing s.queue }
  | clearNext {r : Request τ} {rest : List (Request τ)} (hpc : s.reader = .clearing (r :: rest)) :
      ThreadStep tileSize s .clearNext
        { s.change r.tile ((s.tile r.tile).canceledNotification tileSize .ok) with reader := .clearing rest }
  | clearQueue (hpc : s.reader = .clearing []) :
      ThreadStep tileSize s .clearQueue { s with queue := [], reader := .cleared }
  | leaveCleared (hpc : s.reader = .cleared) :
      ThreadStep tileSize s .leaveCleared { s with queueLock := none, reader := .idle }

end

end Listbrokers.Tiles
