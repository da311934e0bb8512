import Listbrokers.Tiles.Pool

/-!
# The tile window

`ListTiles_` of `lists_base.hh` keeps up to three tiles of a list: a center
tile, and the tiles above and below it. The window slides over the list
(`slide`, `slideUp`, `slideDown`), wraps around between its ends, and is filled
from scratch when nothing of it can be used (`fill`). `prefetch` chooses between
these from the requested range.
-/

namespace Listbrokers.Tiles

open Framework

variable {κ α : Type} [DecidableEq κ] [Inhabited α] {tileSize : ℕ}

/-- `ListTiles_::contains`. -/
def TiledList.contains (tileSize : ℕ) (l : TiledList α) (idx : ℕ) : Option ItemLocation :=
  [.up, .center, .down].find? fun loc => (l.active loc).any fun i => (l.hot i).isTileFor tileSize idx

/-- `index_in_adjacent_tile`. -/
def indexInAdjacentTile (tileSize idx totalNumberOfItems : ℕ) : Option ItemLocation → ℕ
  | none => totalNumberOfItems
  | some .up => if tileSize ≤ idx then idx - tileSize else totalNumberOfItems - 1
  | some .center => idx
  | some .down => if idx + tileSize < totalNumberOfItems then idx + tileSize else 0

/-- `compute_number_of_required_slides`, with the direction it leaves in its first argument. -/
def computeNumberOfRequiredSlides (isFirstItem : Bool) (numberOfSpannedTiles : ℕ) :
    Option ItemLocation → ℕ × Option ItemLocation
  | some .up => (if isFirstItem then 0 else numberOfSpannedTiles - 1, some .up)
  | some .down => (if isFirstItem then numberOfSpannedTiles - 1 else 0, some .down)
  | some .center =>
    let ret := if 2 ≤ numberOfSpannedTiles then numberOfSpannedTiles - 2 else 0
    (ret, some (if 0 < ret then if isFirstItem then .up else .down else .center))
  | none => (3, none)

/-- The number of tiles that `count` items from `first` on are spread over. -/
def numberOfSpannedTiles (tileSize first count : ℕ) : ℕ := 1 + (first % tileSize + count - 1) / tileSize

/-- `check_overlapping_range_for_prefetch`: the number of slides, and their direction. -/
def TiledList.checkOverlappingRangeForPrefetch (tileSize : ℕ) (l : TiledList α) (first count : ℕ) :
    ℕ × Option ItemLocation :=
  let spanned := numberOfSpannedTiles tileSize first count
  let last := first + count - 1
  if (l.contains tileSize first).isSome then
    computeNumberOfRequiredSlides true spanned (l.contains tileSize first)
  else if 1 < spanned ∧ (l.contains tileSize last).isSome then
    computeNumberOfRequiredSlides false spanned (l.contains tileSize last)
  else (3, none)

variable (p : ListThreads κ α tileSize) (a : κ)

/-- `find_free_tile`. -/
def findFreeTile : Op (Sys κ α) (Option (Fin 3)) := fun s =>
  some ([0, 1, 2].find? fun i => (a, i) ∉ s.running ∧ (s.tile (a, i)).state = .free, s)

/-- Stop filling a tile, and make it free. -/
def cancelAndReset (w : Work κ) : Op (Sys κ α) Unit := do
  cancelFiller p w
  resetTile tileSize w

/-- Get a tile filled from scratch: activate it, point to it, and enqueue it. -/
def materializeTile (tileSize : ℕ) (w : Work κ) (loc : Option ItemLocation) (idx : ℕ) : Op (Sys κ α) Unit := do
  activateTile tileSize w idx
  let l ← theList w.1
  setActive w.1 (match loc with
    | none => l.active
    | some loc => Function.update l.active loc (some w.2))
  enqueue w

/-- The center tile, if there is none in `slide`. -/
def materializeCenterTile (tileSize : ℕ) (a : κ) (idx : ℕ) : Op (Sys κ α) Unit := do
  let l ← theList a
  match l.active .center with
  | some _ => pure ()
  | none =>
    match ← findFreeTile a with
    | none => check False
    | some i => materializeTile tileSize (a, i) (some .center) idx

/-- What the active tiles are, after rotation by one place. -/
def rotate {β : Type} (active : ItemLocation → β) (tileToPushOut tileToKeep : ItemLocation) : ItemLocation → β :=
  Function.update (Function.update (Function.update active tileToPushOut (active .center))
    .center (active tileToKeep)) tileToKeep (active tileToPushOut)

/-- `slide`; `idx` is some index in the new center tile. -/
def slide (idx totalNumberOfItems : ℕ) (tileToPushOut tileToKeep : ItemLocation) : Op (Sys κ α) Unit := do
  let l ← theList a
  setActive a (rotate l.active tileToPushOut tileToKeep)
  check (l.active .center).isSome
  let adjacentIndex := indexInAdjacentTile tileSize idx totalNumberOfItems (some tileToKeep)
  match l.active tileToPushOut with
  | none =>
    materializeCenterTile tileSize a idx
    waitEmptyIfSynchronized p
  | some temp =>
    if (l.hot temp).isTileFor tileSize adjacentIndex then
      -- the list is short and resides completely in memory
      check (l.active tileToKeep).isSome
    else
      check (!(← isFree (a, temp)))
      cancelAndReset p (a, temp)
      materializeCenterTile tileSize a idx
      materializeTile tileSize (a, temp) none adjacentIndex
      waitEmptyIfSynchronized p

/-- `slide_up`. -/
def slideUp (idx totalNumberOfItems steps : ℕ) : Op (Sys κ α) Unit := do
  check (0 < steps ∧ steps < 3 * tileSize)
  (List.range steps).forM fun i =>
    slide p a (idx + (steps - i - 1) * tileSize) totalNumberOfItems .down .up

/-- `slide_down`. -/
def slideDown (idx totalNumberOfItems steps : ℕ) : Op (Sys κ α) Unit := do
  check (0 < steps ∧ steps < 3 * tileSize)
  (List.range steps).forM fun i =>
    slide p a (idx - (steps - i - 1) * tileSize) totalNumberOfItems .up .down

/-- `ListTiles_::clear`. -/
def clear : Op (Sys κ α) Unit := do
  cancelAllQueuedFillers tileSize
  [0, 1, 2].forM fun i => do
    if !(← isFree (a, i)) then cancelAndReset p (a, i)
  setActive a fun _ => none

/-- `TiledList::clear_all`. -/
def clearAll : Op (Sys κ α) Unit := do
  clear p a
  modifyList a fun l => { l with numberOfEntries := 0 }

/-- `ListTiles_::fill`. -/
def fill (centerIdx totalNumberOfItems : ℕ) : Op (Sys κ α) Unit := do
  clear p a
  if totalNumberOfItems = 0 then
    pure ()
  else
    let base := centerIdx - centerIdx % tileSize
    materializeTile tileSize (a, 0) (some .center) centerIdx
    if totalNumberOfItems ≤ tileSize then
      waitEmptyIfSynchronized p
    else
      materializeTile tileSize (a, 1) (some .down)
        (if base < totalNumberOfItems - tileSize then base + tileSize else 0)
      if totalNumberOfItems ≤ 2 * tileSize then
        waitEmptyIfSynchronized p
      else
        materializeTile tileSize (a, 2) (some .up) (if 0 < base then base - tileSize else totalNumberOfItems - 1)
        waitEmptyIfSynchronized p

/-- The index that `prefetch` puts into the center tile: `first`, unless three tiles are needed. -/
def centerIndex (tileSize first spanned required : ℕ) (direction : Option ItemLocation) (autoSlide : Bool) : ℕ :=
  if (autoSlide ∧ spanned < 3) ∨ (direction = none ∧ spanned < 3) ∨ (direction = some .down ∧ required = 1)
  then first else first + tileSize

/-- The switch over the slide direction in `prefetch`. -/
def slideOrFill (center totalNumberOfItems required : ℕ) :
    Option ItemLocation → Op (Sys κ α) (Except ListError Bool)
  | some .center => pure (.error .internal)
  | some .up => do
    slideUp p a center totalNumberOfItems required
    pure (.ok true)
  | some .down => do
    slideDown p a center totalNumberOfItems required
    pure (.ok true)
  | none => do
    fill p a center totalNumberOfItems
    pure (.ok true)

/-- `ListTiles_::prefetch`, for the tiles of `l`. -/
def prefetchFrom (l : TiledList α) (first count totalNumberOfItems : ℕ) (autoSlide : Bool) :
    Op (Sys κ α) (Except ListError Bool) :=
  if count = 0 ∨ 3 * tileSize < count + first % tileSize then
    pure (.ok false)
  else do
    let spanned := numberOfSpannedTiles tileSize first count
    let overlap := l.checkOverlappingRangeForPrefetch tileSize first count
    check (1 ≤ spanned ∧ spanned ≤ 3 ∧ (overlap.2.isSome → overlap.1 < 3))
    if overlap.1 = 0 ∧ ¬ (autoSlide ∧ (overlap.2 = some .up ∨ overlap.2 = some .down)) then
      pure (.ok true)
    else
      let required := if overlap.1 = 0 then 1 else overlap.1
      slideOrFill p a (centerIndex tileSize first spanned required overlap.2 autoSlide) totalNumberOfItems required
        overlap.2

/-- `ListTiles_::prefetch`. -/
def prefetch (first count totalNumberOfItems : ℕ) (autoSlide : Bool) :
    Op (Sys κ α) (Except ListError Bool) := do
  prefetchFrom p a (← theList a) first count totalNumberOfItems autoSlide

end Listbrokers.Tiles
