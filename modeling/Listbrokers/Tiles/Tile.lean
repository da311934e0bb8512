import Mathlib.Data.Nat.Notation
import Mathlib.Tactic.Common
import Mathlib.Logic.Function.Basic
import Mathlib.Algebra.Order.Ring.Int

/-!
# Tiles of a tiled list

A tiled list keeps at most three tiles of its items in memory (`ListTile_` of
`lists_base.hh`). A tile holds `tileSize` items from `base` on, as many of them
as its filler has stored. An item carries the link to the list that was entered
through it, its child.
-/

namespace Listbrokers

/-- `ID::List`, by its raw value. -/
structure ListId where
  raw : ℕ
  deriving DecidableEq, Repr

namespace ListId

/-- The default `ID::List()`, which is invalid. -/
def invalid : ListId := ⟨0⟩

/-- `ID::List::get_cooked_id`: the bits under `VALUE_MASK`, below the no-cache bit and the context. -/
def cookedId (id : ListId) : ℕ := id.raw % 2 ^ 27

/-- `ID::List::is_valid`. -/
def isValid (id : ListId) : Bool := id.cookedId ≠ 0

@[simp] theorem not_isValid_invalid : invalid.isValid = false := rfl

end ListId

/-- The `ListError` codes that the list code tells apart, and all others. -/
inductive ListError
  | ok
  | internal
  | other (code : ℕ)
  deriving DecidableEq, Repr

namespace Tiles

/-- `ListItem_`; the default value of `α` stands for data after `reset`. -/
structure ListItem (α : Type) where
  child : ListId
  data : α
  deriving DecidableEq

/-- `ListTileState`. -/
inductive ListTileState
  | free
  | filling
  | ready
  | canceled
  | error
  deriving DecidableEq, Repr

/-- `ListTile_`. -/
structure ListTile (α : Type) where
  items : ℕ → ListItem α
  base : ℕ
  storedItemsCount : ℕ
  state : ListTileState
  error : ListError

variable {α : Type} [Inhabited α]

/-- `ListItem_::reset`. -/
def ListItem.reset : ListItem α := ⟨ListId.invalid, default⟩

namespace ListTile

variable (tileSize : ℕ)

/-- A tile that was never used. -/
def init : ListTile α := ⟨fun _ => .reset, 0, 0, .free, .internal⟩

/-- `is_tile_for`, with the end of the tile computed as `uint32_t`. -/
def isTileFor (t : ListTile α) (idx : ℕ) : Bool :=
  t.base ≤ idx && idx < (t.base + tileSize) % 2 ^ 32

/-- The children of the items in the tile. -/
def children (t : ListTile α) : List ListId :=
  ((List.range tileSize).map fun i => (t.items i).child).filter ListId.isValid

/-- `reset`; the children are for the list of killed lists. -/
def reset (t : ListTile α) (error : ListError) (state : ListTileState) : List ListId × ListTile α :=
  (t.children tileSize, ⟨fun _ => .reset, 0, 0, state, error⟩)

/-- `canceled_notification`. -/
def canceledNotification (t : ListTile α) (error : ListError) : List ListId × ListTile α :=
  t.reset tileSize error (if error = .ok then .canceled else .error)

/-- `done_notification`. -/
def doneNotification (t : ListTile α) (count : ℕ) : ListTile α :=
  { t with storedItemsCount := t.storedItemsCount + count, state := .ready }

/-- `activate_tile`; `none` if the tile is not free. -/
def activateTile (t : ListTile α) (idx : ℕ) : Option (ListTile α) :=
  if t.state = .free then some { t with base := idx - idx % tileSize, state := .filling } else none

end ListTile

/-! ## Filling a tile -/

/-- What `TiledListFillerIface::fill` does to a tile: the items it writes, which fit into the tile, whether it
fails hard (returns -1), and the error it reports. -/
structure FillResult (tileSize : ℕ) (α : Type) where
  items : List α
  fits : items.length ≤ tileSize
  failed : Bool
  error : ListError

/-- A filler, given the first index of a tile and the answer of `may_continue`. A fill that fails without
having been told to stop reports an error. -/
structure Filler (tileSize : ℕ) (α : Type) where
  fill : ℕ → Bool → FillResult tileSize α
  error_of_failed : ∀ base, (fill base true).failed → (fill base true).error ≠ .ok

/-- A filler that always succeeds, for a list of `n` items. -/
def Filler.succeeding (tileSize : ℕ) (item : ℕ → α) (n : ℕ) : Filler tileSize α where
  fill base _ :=
    { items := (List.range (min tileSize (n - base))).map fun i => item (base + i)
      fits := by
        rw [List.length_map, List.length_range]
        exact Nat.min_le_left ..
      failed := false
      error := .ok }
  error_of_failed := by simp

/-- The items of a tile after an item provider has handed them out to a filler. -/
def ListTile.write (t : ListTile α) (data : List α) : ListTile α :=
  { t with items := fun i => if h : i < data.length then ⟨(t.items i).child, data[i]⟩ else t.items i }

/-- `do_fill_tile`: a fill that stores nothing leaves the tile as it is. -/
def ListTile.doFillTile {tileSize : ℕ} (t : ListTile α) (filler : Filler tileSize α) (mayContinue : Bool) :
    List ListId × ListTile α :=
  let r := filler.fill t.base mayContinue
  if r.failed then (t.write r.items).canceledNotification tileSize r.error
  else if r.items.length = 0 then ([], t)
  else ([], (t.write r.items).doneNotification r.items.length)

end Tiles

end Listbrokers
