import Listbrokers.Tiles.Window

/-!
# Reading a tiled list

The three ways to read a `TiledList`: `operator[]`, which makes the tile of the
item the center tile (`access`); the iterator over the active tiles
(`ConstIterator`); and `for_each_item`, which prefetches its range and iterates,
or accesses item after item when the range does not fit into the tiles.
-/

namespace Listbrokers.Tiles

open Framework

variable {κ α β : Type} [DecidableEq κ] [Inhabited α] {tileSize : ℕ} (p : ListThreads κ α tileSize) (a : κ)

/-- The number of items in an active tile, `ListTile_::size`. -/
def sizeOfTile (i : Fin 3) : Op (Sys κ α) (Except ListError ℕ) := do
  match ← waitForReadyState p (a, i) with
  | .error e => pure (.error e)
  | .ok () => pure (.ok ((← theList a).hot i).storedItemsCount)

/-- `get_list_item_by_raw_index`. -/
def getListItemByRawIndex (i : Fin 3) (rawIndex : ℕ) : Op (Sys κ α) (Except ListError (ListItem α)) := do
  match ← waitForReadyState p (a, i) with
  | .error e => pure (.error e)
  | .ok () => pure (.ok (((← theList a).hot i).items rawIndex))

/-- `get_list_item_unsafe`: read from the center tile. -/
def getListItemUnsafe (idx : ℕ) : Op (Sys κ α) (Except ListError (ListItem α)) := do
  let l ← theList a
  match l.active .center with
  | none => fun _ => none
  | some i => getListItemByRawIndex p a i (idx - (l.hot i).base)

/-- `TiledList::operator[]`, with `materialize`. -/
def access (idx : ℕ) : Op (Sys κ α) (Except ListError (ListItem α)) := do
  let l ← theList a
  if l.numberOfEntries ≤ idx then
    pure (.error .internal)
  else
    match ← prefetch p a idx 1 l.numberOfEntries true with
    | .error e => pure (.error e)
    | .ok false => pure (.error .ok)
    | .ok true => getListItemUnsafe p a idx

/-! ## The iterator -/

/-- `ListTiles_::const_iterator`. The tiles are those from `which_tile_` to `last_tile_`; the end has none. -/
structure ConstIterator where
  tiles : List ItemLocation
  idx : ℕ
  firstListError : ListError

namespace ConstIterator

/-- The tiles in the order of `next_tile`, from the given one to the one of `determine_last_tile`. -/
def tilesFrom : Option ItemLocation → List ItemLocation
  | none => []
  | some .up => [.up, .center, .down]
  | some .center => [.center, .down, .up]
  | some .down => [.down, .up, .center]

/-- `get_list_error_code`. -/
def listErrorCode (it : ConstIterator) : ListError :=
  if it.firstListError = .ok then .internal else it.firstListError

/-- `put_list_error`. -/
def putListError (first e : ListError) : ListError := if first = .ok then e else first

/-- `find_first`: stay where there is an item at `idx`, else go on with the next tile (`step`, which increments
the index beyond the size of the tile once more, does the same). -/
def findFirst : List ItemLocation → ℕ → ListError → Op (Sys κ α) ConstIterator
  | [], idx, err => pure ⟨[], idx, err⟩
  | loc :: rest, idx, err => do
    let l ← theList a
    match l.active loc with
    | none => findFirst rest 0 err
    | some i =>
      match ← sizeOfTile p a i with
      | .ok size => if idx < size then pure ⟨loc :: rest, idx, err⟩ else findFirst rest 0 err
      | .error e => findFirst rest 0 (putListError err e)

/-- `TiledList::begin`, and the constructor of the iterator. -/
def start (first : ℕ) : Op (Sys κ α) ConstIterator := do
  let l ← theList a
  let it ← findFirst p a (tilesFrom (l.contains tileSize first)) 0 .ok
  pure (if it.tiles = [] then it else { it with idx := first % tileSize })

/-- `operator*`. -/
def deref (it : ConstIterator) : Op (Sys κ α) (Except ListError (ListItem α)) :=
  match it.tiles with
  | [] => pure (.error it.listErrorCode)
  | loc :: _ => do
    let l ← theList a
    match l.active loc with
    | none => fun _ => none
    | some i => getListItemByRawIndex p a i it.idx

/-- `operator++`. -/
def next (it : ConstIterator) : Op (Sys κ α) (Except ListError ConstIterator) :=
  match it.tiles with
  | [] => pure (.error it.listErrorCode)
  | loc :: rest => do
    let l ← theList a
    match l.active loc with
    | none => fun _ => none
    | some i =>
      match ← sizeOfTile p a i with
      | .ok size =>
        if it.idx + 1 < size then pure (.ok { it with idx := it.idx + 1 })
        else return .ok (← findFirst p a rest 0 it.firstListError)
      | .error e => return .ok (← findFirst p a rest 0 (putListError it.firstListError e))

end ConstIterator

/-! ## for_each_item -/

/-- The loop of `for_each_item` over `left` items from `i` on, with the tile iterator. -/
def forEachCached (apply : β → ℕ → ListItem α → Bool × β) :
    ℕ → ℕ → ConstIterator → β → Op (Sys κ α) (ListError × β)
  | 0, _, _, b => pure (.ok, b)
  | left + 1, i, it, b => do
    match ← it.deref p a with
    | .error e => pure (e, b)
    | .ok item =>
      match ← it.next p a with
      | .error e => pure (e, b)
      | .ok it =>
        let r := apply b i item
        if r.1 then forEachCached apply left (i + 1) it r.2 else pure (.ok, r.2)

/-- The loop of `for_each_item` over `left` items from `i` on, with `operator[]`. -/
def forEachAccessed (apply : β → ℕ → ListItem α → Bool × β) :
    ℕ → ℕ → β → Op (Sys κ α) (ListError × β)
  | 0, _, b => pure (.ok, b)
  | left + 1, i, b => do
    match ← access p a i with
    | .error e => pure (e, b)
    | .ok item =>
      let r := apply b i item
      if r.1 then forEachAccessed apply left (i + 1) r.2 else pure (.ok, r.2)

/-- The end of the range of `for_each_item`, computed with a `size_t` of `sizeBits` bits. -/
def endOfRange (sizeBits first count size : ℕ) : ℕ :=
  if 0 < count then min ((first + count) % 2 ^ sizeBits) size else size

/-- `for_each_item` on a tiled list. The function applied to the items works on a state `b`. -/
def forEachItem (sizeBits first count : ℕ) (apply : β → ℕ → ListItem α → Bool × β) (b : β) :
    Op (Sys κ α) (ListError × β) := do
  let l ← theList a
  let last := endOfRange sizeBits first count l.numberOfEntries
  if last ≤ first then
    pure (.ok, b)
  else
    match ← prefetch p a first (last - first) l.numberOfEntries false with
    | .error e => pure (e, b)
    | .ok true => do
      let it ← ConstIterator.start p a first
      forEachCached p a apply (last - first) first it b
    | .ok false => forEachAccessed p a apply (last - first) first b

end Listbrokers.Tiles
