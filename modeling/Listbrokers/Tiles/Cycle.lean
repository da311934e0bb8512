import Listbrokers.Tiles.Reading

/-!
# Windows on a cycle of tiles

A list of `m` tiles seen through its window: for each place the number of the
tile it shows, if any (`TileWindow`). The window is meant to show tiles that are
next to each other on the cycle of all tiles (`Contiguous`): the center tile,
and its predecessor and successor as far as there are so many tiles. Sliding by
one tile keeps it so (`Contiguous.shiftUp`, `Contiguous.shiftDown`), and a range
of tiles is read in order when it starts at the right place (`Reads`).
-/

namespace Listbrokers.Tiles

/-- The tiles in the window, by their number in the list. -/
structure TileWindow where
  up : Option ℕ
  center : Option ℕ
  down : Option ℕ

/-- The number of tiles of a list of `n` items. -/
def tileCount (tileSize n : ℕ) : ℕ := (n + tileSize - 1) / tileSize

theorem lt_tileCount {tileSize n k : ℕ} (htile : 0 < tileSize) : k < tileCount tileSize n ↔ k * tileSize < n := by
  rw [tileCount, ← Nat.add_one_le_iff, Nat.le_div_iff_mul_le htile, Nat.add_mul]
  omega

theorem div_lt_tileCount {tileSize n idx : ℕ} (htile : 0 < tileSize) (h : idx < n) :
    idx / tileSize < tileCount tileSize n := by
  rw [lt_tileCount htile]
  have := Nat.div_mul_le_self idx tileSize
  omega

/-- The tile that follows on the cycle. -/
def succTile (m k : ℕ) : ℕ := if k + 1 < m then k + 1 else 0

/-- The tile that precedes on the cycle. -/
def predTile (m k : ℕ) : ℕ := if k = 0 then m - 1 else k - 1

namespace TileWindow

variable {W : TileWindow} {m k : ℕ}

/-- The tile at a place of the window. -/
def get (W : TileWindow) : ItemLocation → Option ℕ
  | .up => W.up
  | .center => W.center
  | .down => W.down

/-- Where the tile is. -/
def find (W : TileWindow) (k : ℕ) : Option ItemLocation :=
  [.up, .center, .down].find? fun loc => W.get loc = some k

theorem get_of_find {loc : ItemLocation} (h : W.find k = some loc) : W.get loc = some k := by
  simpa using List.find?_some h

theorem get_ne_of_find (h : W.find k = none) (loc : ItemLocation) : W.get loc ≠ some k := by
  have := List.find?_eq_none.mp h loc (by cases loc <;> simp)
  simpa using this

/-- The window, slid up by one tile; `adjacent` comes in above it if a tile has left it below. -/
def shiftUp (W : TileWindow) (adjacent : ℕ) : TileWindow := ⟨W.down.map fun _ => adjacent, W.up, W.center⟩

/-- The window, slid down by one tile. -/
def shiftDown (W : TileWindow) (adjacent : ℕ) : TileWindow := ⟨W.center, W.down, W.up.map fun _ => adjacent⟩

/-- The window, filled from scratch around tile `k`. -/
def filled (m k : ℕ) : TileWindow :=
  ⟨if 2 < m then some (predTile m k) else none, some k, if 1 < m then some (succTile m k) else none⟩

/-- The window shows tiles that are next to each other, or nothing. -/
inductive Contiguous (m : ℕ) : TileWindow → Prop
  | empty : Contiguous m ⟨none, none, none⟩
  | one (hm : m = 1) : Contiguous m ⟨none, some 0, none⟩
  | twoUp {c : ℕ} (hm : m = 2) (hc : c < 2) : Contiguous m ⟨some (1 - c), some c, none⟩
  | twoDown {c : ℕ} (hm : m = 2) (hc : c < 2) : Contiguous m ⟨none, some c, some (1 - c)⟩
  | many {c : ℕ} (hm : 2 < m) (hc : c < m) : Contiguous m ⟨some (predTile m c), some c, some (succTile m c)⟩

theorem contiguous_filled (hk : k < m) : Contiguous m (filled m k) := by
  unfold filled
  rcases (by omega : m = 1 ∨ m = 2 ∨ 2 < m) with hm | hm | hm
  · obtain rfl : k = 0 := by omega
    rw [if_neg (by omega), if_neg (by omega)]
    exact .one hm
  · rw [if_neg (by omega), if_pos (by omega), show succTile m k = 1 - k by unfold succTile; split <;> omega]
    exact .twoDown hm (by omega)
  · rw [if_pos hm, if_pos (by omega)]
    exact .many hm hk

theorem Contiguous.lt (h : Contiguous m W) {loc : ItemLocation} (hk : W.get loc = some k) : k < m := by
  cases h <;> cases loc <;> simp only [get, Option.some.injEq, reduceCtorEq] at hk
  all_goals subst hk
  all_goals try unfold predTile
  all_goals try unfold succTile
  all_goals first | omega | (split <;> omega)

theorem Contiguous.shiftUp (h : Contiguous m W) (hk : W.up = some k) :
    Contiguous m (W.shiftUp (predTile m k)) ∧ (W.shiftUp (predTile m k)).center = some k := by
  refine ⟨?_, hk⟩
  cases h with
  | empty => cases hk
  | one hm => cases hk
  | @twoUp c hm hc =>
    cases hk
    have : c = 1 - (1 - c) := by omega
    simp only [TileWindow.shiftUp, Option.map_none]
    nth_rewrite 2 [this]
    exact .twoDown hm (by omega)
  | twoDown hm hc => cases hk
  | @many c hm hc =>
    cases hk
    have : c = succTile m (predTile m c) := by unfold succTile predTile; split <;> split <;> omega
    simp only [TileWindow.shiftUp, Option.map_some]
    nth_rewrite 3 [this]
    exact .many hm (by unfold predTile; split <;> omega)

theorem Contiguous.shiftDown (h : Contiguous m W) (hk : W.down = some k) :
    Contiguous m (W.shiftDown (succTile m k)) ∧ (W.shiftDown (succTile m k)).center = some k := by
  refine ⟨?_, hk⟩
  cases h with
  | empty => cases hk
  | one hm => cases hk
  | twoUp hm hc => cases hk
  | @twoDown c hm hc =>
    cases hk
    have : c = 1 - (1 - c) := by omega
    simp only [TileWindow.shiftDown, Option.map_none]
    nth_rewrite 1 [this]
    exact .twoUp hm (by omega)
  | @many c hm hc =>
    cases hk
    have : c = predTile m (succTile m c) := by unfold succTile predTile; split <;> split <;> omega
    simp only [TileWindow.shiftDown, Option.map_some]
    nth_rewrite 1 [this]
    exact .many hm (by unfold succTile; split <;> omega)

/-! ## Where tiles are -/

theorem find_up (hu : W.up = some k) : W.find k = some .up := by
  simp [find, get, hu]

/-- The tiles of a contiguous window are distinct. -/
theorem find_center (h : Contiguous m W) (hc : W.center = some k) : W.find k = some .center := by
  have hu : W.up ≠ some k := by
    cases h with
    | empty => cases hc
    | one => simp
    | twoUp hm hlt =>
      cases hc
      simp only [ne_eq, Option.some.injEq]
      omega
    | twoDown => simp
    | many hm hlt =>
      cases hc
      simp only [ne_eq, Option.some.injEq, predTile]
      split <;> omega
  simp [find, get, hu, hc]

/-- The window shows the tile after `k`, but not tile `k`: it begins there, and has a tile at every place. -/
theorem begins_of_second (h : Contiguous m W) (hk : k + 1 < m) (h0 : W.find k = none) {loc : ItemLocation}
    (h1 : W.find (k + 1) = some loc) : loc = .up ∧ ∃ q, W.down = some q := by
  have hu := get_ne_of_find h0 .up
  have hc := get_ne_of_find h0 .center
  have hd := get_ne_of_find h0 .down
  have hget := get_of_find h1
  cases h with
  | empty => cases loc <;> cases hget
  | one => omega
  | twoUp hm hlt =>
    simp only [get, ne_eq, Option.some.injEq] at hu hc
    omega
  | twoDown hm hlt =>
    simp only [get, ne_eq, Option.some.injEq] at hd hc
    omega
  | many hm hlt =>
    simp only [get, ne_eq, Option.some.injEq, predTile, succTile] at hu hc hd
    refine ⟨?_, _, rfl⟩
    cases loc with
    | up => rfl
    | center =>
      simp only [get, Option.some.injEq] at hget
      split at hu <;> omega
    | down =>
      simp only [get, Option.some.injEq, succTile] at hget
      split at hget <;> omega

/-- The window shows the second tile after `k`, but not tile `k`, and not in the center: it begins there. -/
theorem begins_of_third (h : Contiguous m W) (hk : k + 2 < m) (h0 : W.find k = none) {loc : ItemLocation}
    (h2 : W.find (k + 2) = some loc) (hne : loc ≠ .center) :
    loc = .up ∧ (∃ c, W.center = some c) ∧ ∃ q, W.down = some q := by
  have hu := get_ne_of_find h0 .up
  have hget := get_of_find h2
  cases h with
  | empty => cases loc <;> cases hget
  | one => omega
  | twoUp => omega
  | twoDown => omega
  | many hm hlt =>
    simp only [get, ne_eq, Option.some.injEq, predTile] at hu
    refine ⟨?_, ⟨_, rfl⟩, _, rfl⟩
    cases loc with
    | up => rfl
    | center => exact absurd rfl hne
    | down =>
      simp only [get, Option.some.injEq, succTile] at hget
      split at hget
      · split at hu <;> omega
      · omega

/-! ## Reading tile after tile -/

/-- Iteration from tile `k` on visits the tiles `k`, `k + 1`, ... of a range of `count` tiles first. -/
def Reads (W : TileWindow) (k count : ℕ) : Prop :=
  List.range' k count <+: (ConstIterator.tilesFrom (W.find k)).filterMap W.get

theorem reads_one {loc : ItemLocation} (h : W.find k = some loc) : Reads W k 1 := by
  have hk := get_of_find h
  unfold Reads
  rw [h]
  cases loc <;> simp [ConstIterator.tilesFrom, hk]

theorem reads_two_up (h : Contiguous m W) (hk : k + 1 < m) (hloc : W.find k = some .up) : Reads W k 2 := by
  have hup := get_of_find hloc
  unfold Reads
  rw [hloc]
  cases h with
  | empty => cases hup
  | one hm => cases hup
  | @twoUp c hm hc =>
    cases hup
    have : c = 1 - c + 1 := by omega
    simp [ConstIterator.tilesFrom, get, List.range'_succ, ← this]
  | twoDown hm hc => cases hup
  | @many c hm hc =>
    cases hup
    have : c = predTile m c + 1 := by unfold predTile at hk ⊢; split at hk <;> split <;> omega
    simp [ConstIterator.tilesFrom, get, List.range'_succ, ← this]

theorem reads_two_center (h : Contiguous m W) (hk : k + 1 < m) (hloc : W.find k = some .center) : Reads W k 2 := by
  have hcenter := get_of_find hloc
  unfold Reads
  rw [hloc]
  cases h with
  | empty => cases hcenter
  | one hm => omega
  | twoUp hm hc =>
    cases hcenter
    have : 1 - k = k + 1 := by omega
    simp [ConstIterator.tilesFrom, get, List.range'_succ, List.filterMap_cons, this]
  | twoDown hm hc =>
    cases hcenter
    have : 1 - k = k + 1 := by omega
    simp [ConstIterator.tilesFrom, get, List.range'_succ, this]
  | many hm hc =>
    cases hcenter
    have : succTile m k = k + 1 := by unfold succTile; split <;> omega
    simp [ConstIterator.tilesFrom, get, List.range'_succ, this]

theorem reads_three (h : Contiguous m W) (hk : k + 2 < m) (hloc : W.find k = some .up) : Reads W k 3 := by
  have hup := get_of_find hloc
  unfold Reads
  rw [hloc]
  cases h with
  | empty => cases hup
  | one hm => cases hup
  | twoUp hm hc => omega
  | twoDown hm hc => cases hup
  | @many c hm hc =>
    cases hup
    have hc' : c = predTile m c + 1 := by unfold predTile at hk ⊢; split at hk <;> split <;> omega
    have hs : succTile m c = c + 1 := by unfold succTile; split <;> omega
    simp [ConstIterator.tilesFrom, get, List.range'_succ, ← hc', hs]

end TileWindow

end Listbrokers.Tiles
