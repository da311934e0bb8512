import Listbrokers.Tiles.Sequence

/-!
# Random access

Whatever has been read before, and even where the window is not contiguous, all
that `slide` needs is there: the window is empty, or it has a center tile, and
tiles at all places if the list has more than two (`Stocked`). So `operator[]`
always gets the tile it wants into the center, and no operation on the tiles
fails.
-/

namespace Listbrokers.Tiles

open Framework TileWindow

variable {κ α β : Type} [DecidableEq κ] [Inhabited α] {tileSize : ℕ} {p : ListThreads κ α tileSize} {a : κ}
  {item : ℕ → α} {n : ℕ} {s s' : Sys κ α} {W W' : TileWindow} {m k idx : ℕ} {loc : ItemLocation}

/-- Nothing is shown, or there is a center tile, and all places are in use if there are tiles for them. -/
inductive TileWindow.Stocked (m : ℕ) (W : TileWindow) : Prop
  | empty (h : ∀ loc, W.get loc = none)
  | used (center : W.center ≠ none) (all : 2 < m → ∀ loc, W.get loc ≠ none)

namespace TileWindow.Stocked

theorem filled : Stocked m (filled m k) := by
  refine .used (by simp [TileWindow.filled]) fun hm loc => ?_
  unfold TileWindow.filled
  rw [if_pos hm, if_pos (by omega)]
  cases loc <;> simp [TileWindow.get]

theorem exists_center (h : Stocked m W) (hk : W.get loc = some k) : ∃ c, W.center = some c := by
  cases h with
  | empty h =>
    rw [h loc] at hk
    cases hk
  | used center => exact Option.ne_none_iff_exists'.mp center

theorem get_ne_none (h : Stocked m W) (hk : W.get loc = some k) (hm : 2 < m) (loc' : ItemLocation) :
    W.get loc' ≠ none := by
  cases h with
  | empty h =>
    rw [h loc] at hk
    cases hk
  | used center all => exact all hm loc'

theorem shiftUp (h : Stocked m W) (hk : W.up = some k) (q : ℕ) : Stocked m (W.shiftUp q) := by
  refine .used (by simp [TileWindow.shiftUp, hk]) fun hm loc => ?_
  have hall := h.get_ne_none (show W.get .up = _ from hk) hm
  cases loc with
  | up => simpa [TileWindow.get, TileWindow.shiftUp] using hall .down
  | center => exact hall .up
  | down => exact hall .center

theorem shiftDown (h : Stocked m W) (hk : W.down = some k) (q : ℕ) : Stocked m (W.shiftDown q) := by
  refine .used (by simp [TileWindow.shiftDown, hk]) fun hm loc => ?_
  have hall := h.get_ne_none (show W.get .down = _ from hk) hm
  cases loc with
  | up => exact hall .center
  | center => exact hall .down
  | down => simpa [TileWindow.get, TileWindow.shiftDown] using hall .up

end TileWindow.Stocked

section

omit [DecidableEq κ] [Inhabited α]

/-- An item that is found is in the tile at this place. -/
theorem Shows.get_of_contains (h : Shows a tileSize item n s W) (htile : 0 < tileSize)
    (hc : (s.lists a).contains tileSize idx = some loc) : W.get loc = some (idx / tileSize) := by
  obtain ⟨active, slots, h⟩ := h
  have hfor := List.find?_some hc
  rw [h.content.active_eq] at hfor
  obtain ⟨i, hi, hfor⟩ := (Option.any_eq_true _ _).mp hfor
  obtain ⟨k, hk, hget⟩ := h.exists_slot hi
  rw [hget, h.content.div_of_isTileFor htile hk hfor]

/-- How often the window is going to slide, and in which direction: the tile there is in use. -/
theorem overlap_cases (h : Shows a tileSize item n s W) (hW : Stocked m W) (htile : 0 < tileSize) {first count : ℕ}
    (hspanned : numberOfSpannedTiles tileSize first count ≤ 3)
    (hm : numberOfSpannedTiles tileSize first count = 3 → 2 < m) :
    (s.lists a).checkOverlappingRangeForPrefetch tileSize first count = (3, none) ∨
    (∃ loc, (s.lists a).checkOverlappingRangeForPrefetch tileSize first count = (0, some loc)) ∨
    ∃ loc k steps, (loc = .up ∨ loc = .down) ∧ W.get loc = some k ∧
      (s.lists a).checkOverlappingRangeForPrefetch tileSize first count = (steps, some loc) ∧
      (steps = 1 ∨ steps = 2 ∧ numberOfSpannedTiles tileSize first count = 3) := by
  have hpos : 0 < numberOfSpannedTiles tileSize first count := Nat.add_pos_left Nat.one_pos _
  unfold TiledList.checkOverlappingRangeForPrefetch
  generalize numberOfSpannedTiles tileSize first count = spanned at hspanned hm hpos
  have hdirection : ∀ (isFirstItem : Bool) (idx : ℕ) (loc : ItemLocation),
      (s.lists a).contains tileSize idx = some loc →
      (∃ loc', computeNumberOfRequiredSlides isFirstItem spanned (some loc) = (0, some loc')) ∨
      ∃ loc' k steps, (loc' = .up ∨ loc' = .down) ∧ W.get loc' = some k ∧
        computeNumberOfRequiredSlides isFirstItem spanned (some loc) = (steps, some loc') ∧
        (steps = 1 ∨ steps = 2 ∧ spanned = 3) := by
    intro isFirstItem idx loc hfind
    have hget := h.get_of_contains htile hfind
    have hall : spanned = 3 → ∀ loc', ∃ k, W.get loc' = some k := fun h3 loc' =>
      Option.ne_none_iff_exists'.mp (hW.get_ne_none hget (hm h3) loc')
    rcases (by omega : spanned = 1 ∨ spanned = 2 ∨ spanned = 3) with rfl | rfl | rfl <;> cases loc <;>
      cases isFirstItem <;>
      simp [computeNumberOfRequiredSlides, hget, hall]
  dsimp only
  split
  · next hfirst =>
    obtain ⟨loc, hloc⟩ := Option.isSome_iff_exists.mp hfirst
    rw [hloc]
    exact .inr (hdirection true first loc hloc)
  · split
    · next hlast =>
      obtain ⟨loc, hloc⟩ := Option.isSome_iff_exists.mp hlast.2
      rw [hloc]
      exact .inr (hdirection false _ loc hloc)
    · exact .inl rfl

end

section

variable (hf : (p.filler a).Fills item n)

include hf

/-! ## Sliding -/

theorem slideUp_stocked (h : Shows a tileSize item n s W) (hW : Stocked m W) (hk : W.up = some k) (hn : 0 < n)
    (hidx : idx < n + tileSize) : ∃ q s', slide p a idx n .down .up s = some ((), s') ∧
      Shows a tileSize item n s' (W.shiftUp q) ∧ Stocked m (W.shiftUp q) := by
  have hget : W.get .up = some k := hk
  obtain ⟨c, hc⟩ := hW.exists_center hget
  have hadj := (adjacent_up p.tileSize_pos hn hidx).2
  generalize hq : indexInAdjacentTile tileSize idx n (some .up) / tileSize = q
  have h₃ : (W.shiftUp q).get .up = (W.get .down).map fun _ => q := rfl
  have hne : ItemLocation.down ≠ .center ∧ ItemLocation.up ≠ .center ∧ ItemLocation.down ≠ .up := by decide
  obtain ⟨s', hs', h'⟩ := slide_shows hf hne.1 hne.2.1 hne.2.2 h hc hget hq hadj rfl rfl h₃
  exact ⟨q, s', hs', h', hW.shiftUp hk q⟩

theorem slideDown_stocked (h : Shows a tileSize item n s W) (hW : Stocked m W) (hk : W.down = some k) (hn : 0 < n)
    (idx : ℕ) : ∃ q s', slide p a idx n .up .down s = some ((), s') ∧
      Shows a tileSize item n s' (W.shiftDown q) ∧ Stocked m (W.shiftDown q) := by
  have hget : W.get .down = some k := hk
  obtain ⟨c, hc⟩ := hW.exists_center hget
  have hadj : indexInAdjacentTile tileSize idx n (some .down) < n := by
    unfold indexInAdjacentTile
    dsimp only
    split <;> omega
  generalize hq : indexInAdjacentTile tileSize idx n (some .down) / tileSize = q
  have h₃ : (W.shiftDown q).get .down = (W.get .up).map fun _ => q := rfl
  have hne : ItemLocation.up ≠ .center ∧ ItemLocation.down ≠ .center ∧ ItemLocation.up ≠ .down := by decide
  obtain ⟨s', hs', h'⟩ := slide_shows hf hne.1 hne.2.1 hne.2.2 h hc hget hq hadj rfl rfl h₃
  exact ⟨q, s', hs', h', hW.shiftDown hk q⟩

theorem slideUpSteps_stocked (h : Shows a tileSize item n s W) (hW : Stocked m W) (hk : W.up = some k) (hn : 0 < n)
    {steps : ℕ} (hsteps : steps = 1 ∧ idx < n + tileSize ∨ steps = 2 ∧ 2 < m ∧ idx < n) :
    ∃ s' W', slideUp p a idx n steps s = some ((), s') ∧ Shows a tileSize item n s' W' ∧ Stocked m W' := by
  rcases hsteps with ⟨rfl, hidx⟩ | ⟨rfl, hm, hidx⟩
  · obtain ⟨q, s', hs', h', hW'⟩ := slideUp_stocked hf h hW hk hn hidx
    exact ⟨s', _, (slideUp_one idx).trans hs', h', hW'⟩
  · obtain ⟨q, s₁, hs₁, h₁, hW₁⟩ := slideUp_stocked hf h hW hk hn (by omega : idx + tileSize < n + tileSize)
    have hcenter : (W.shiftUp q).get .center = some k := hk
    obtain ⟨k₁, hk₁⟩ := Option.ne_none_iff_exists'.mp (hW₁.get_ne_none hcenter hm .up)
    obtain ⟨q₂, s₂, hs₂, h₂, hW₂⟩ := slideUp_stocked hf h₁ hW₁ hk₁ hn (by omega : idx < n + tileSize)
    exact ⟨s₂, _, (slideUp_two idx).trans ((Op.bind_of_some hs₁).trans hs₂), h₂, hW₂⟩

theorem slideDownSteps_stocked (h : Shows a tileSize item n s W) (hW : Stocked m W) (hk : W.down = some k) (hn : 0 < n)
    (idx : ℕ) {steps : ℕ} (hsteps : steps = 1 ∨ steps = 2 ∧ 2 < m) :
    ∃ s' W', slideDown p a idx n steps s = some ((), s') ∧ Shows a tileSize item n s' W' ∧ Stocked m W' := by
  rcases hsteps with rfl | ⟨rfl, hm⟩
  · obtain ⟨q, s', hs', h', hW'⟩ := slideDown_stocked hf h hW hk hn idx
    exact ⟨s', _, (slideDown_one idx).trans hs', h', hW'⟩
  · obtain ⟨q, s₁, hs₁, h₁, hW₁⟩ := slideDown_stocked hf h hW hk hn (idx - tileSize)
    have hcenter : (W.shiftDown q).get .center = some k := hk
    obtain ⟨k₁, hk₁⟩ := Option.ne_none_iff_exists'.mp (hW₁.get_ne_none hcenter hm .down)
    obtain ⟨q₂, s₂, hs₂, h₂, hW₂⟩ := slideDown_stocked hf h₁ hW₁ hk₁ hn idx
    exact ⟨s₂, _, (slideDown_two idx).trans ((Op.bind_of_some hs₁).trans hs₂), h₂, hW₂⟩

theorem fill_stocked (h : Shows a tileSize item n s W) (hidx : idx < n) :
    ∃ s', fill p a idx n s = some ((), s') ∧ ∃ W', Shows a tileSize item n s' W' ∧ Stocked (tileCount tileSize n) W' ∧
      W'.center = some (idx / tileSize) := by
  obtain ⟨s', hs', h'⟩ := fill_shows hf h hidx
  exact ⟨s', hs', _, h', Stocked.filled, rfl⟩

/-! ## Prefetching -/

/-- An access brings the tile of the item to the center. -/
theorem prefetch_single_stocked (h : Shows a tileSize item n s W) (hW : Stocked (tileCount tileSize n) W)
    (hidx : idx < n) :
    ∃ s' W', prefetch p a idx 1 n true s = some (.ok true, s') ∧ Shows a tileSize item n s' W' ∧
      Stocked (tileCount tileSize n) W' ∧ W'.center = some (idx / tileSize) := by
  have htile := p.tileSize_pos
  have hmod := Nat.mod_lt idx htile
  have hspanned := numberOfSpannedTiles_one htile idx
  have hfits : 1 + idx % tileSize ≤ 3 * tileSize := by omega
  cases hfind : (s.lists a).contains tileSize idx with
  | none =>
    have hover : (s.lists a).checkOverlappingRangeForPrefetch tileSize idx 1 = (3, none) := by
      simp [TiledList.checkOverlappingRangeForPrefetch, hfind, hspanned]
    obtain ⟨s', hs', W', h'⟩ := fill_stocked hf h hidx
    refine ⟨s', W', ?_, h'⟩
    rw [prefetch_eq (by omega) hfits hover (by simp)]
    simp [centerIndex, hspanned, slideOrFill, Op.bind_of_some hs', Op.pure_apply]
  | some loc =>
    have hget := h.get_of_contains htile hfind
    have hover : (s.lists a).checkOverlappingRangeForPrefetch tileSize idx 1 = (0, some loc) := by
      cases loc <;>
        simp [TiledList.checkOverlappingRangeForPrefetch, hfind, hspanned, computeNumberOfRequiredSlides]
    have heq : prefetch p a idx 1 n true s = _ := prefetch_eq (by omega) hfits hover (by simp)
    cases loc with
    | center =>
      exact ⟨s, W, heq, h, hW, hget⟩
    | up =>
      obtain ⟨q, s', hs', h', hW'⟩ := slideUp_stocked hf h hW hget (by omega) (by omega : idx < n + tileSize)
      refine ⟨s', _, ?_, h', hW', hget⟩
      rw [heq]
      simp [centerIndex, hspanned, slideOrFill, Op.bind_of_some ((slideUp_one idx).trans hs'), Op.pure_apply]
    | down =>
      obtain ⟨q, s', hs', h', hW'⟩ := slideDown_stocked hf h hW hget (by omega) idx
      refine ⟨s', _, ?_, h', hW', hget⟩
      rw [heq]
      simp [centerIndex, hspanned, slideOrFill, Op.bind_of_some ((slideDown_one idx).trans hs'), Op.pure_apply]

/-- A range leaves the window good enough for what follows. -/
theorem prefetch_range_stocked (h : Shows a tileSize item n s W) (hW : Stocked (tileCount tileSize n) W)
    {first count : ℕ} (hcount : 0 < count) (hend : first + count ≤ n)
    (hfits : count + first % tileSize ≤ 3 * tileSize) :
    ∃ s' W', prefetch p a first count n false s = some (.ok true, s') ∧ Shows a tileSize item n s' W' ∧
      Stocked (tileCount tileSize n) W' := by
  have htile := p.tileSize_pos
  have hlast := last_div htile first hcount
  have hlt := div_lt_tileCount htile (by omega : first + count - 1 < n)
  have hspanned : numberOfSpannedTiles tileSize first count ≤ 3 := by
    have : (first % tileSize + count - 1) / tileSize < 3 := by
      rw [Nat.div_lt_iff_lt_mul htile]
      omega
    unfold numberOfSpannedTiles
    generalize (first % tileSize + count - 1) / tileSize = q at this ⊢
    omega
  have hnonneg := Nat.zero_le (first / tileSize)
  have hthree : numberOfSpannedTiles tileSize first count = 3 → 2 < tileCount tileSize n ∧ first + tileSize < n := by
    intro h3
    refine ⟨by omega, ?_⟩
    have hnext : (first + tileSize) / tileSize = first / tileSize + 1 := Nat.add_div_right _ htile
    by_contra hout
    have := Nat.div_le_div_right (c := tileSize) (by omega : first + count - 1 ≤ first + tileSize)
    omega
  rcases overlap_cases h hW htile hspanned fun h3 => (hthree h3).1 with hover | ⟨loc, hover⟩ |
    ⟨loc, k, steps, hloc, hget, hover, hsteps⟩
  · -- the window is filled from scratch
    have hcenter : centerIndex tileSize first (numberOfSpannedTiles tileSize first count) 3 none false < n := by
      unfold centerIndex
      split
      · omega
      · next hnot => exact (hthree (by simp at hnot; omega)).2
    obtain ⟨s', hs', W', h', hW', -⟩ := fill_stocked hf h hcenter
    refine ⟨s', W', ?_, h', hW'⟩
    rw [prefetch_eq hcount hfits hover (by simp), if_neg (by omega)]
    exact (Op.bind_of_some hs').trans rfl
  · exact ⟨s, W, prefetch_hit loc hcount hfits hover, h, hW⟩
  · have heq : prefetch p a first count n false s = _ := prefetch_eq hcount hfits hover (by omega)
    rw [if_neg (by omega), if_neg (by omega)] at heq
    have hsteps :
        steps = 1 ∧ centerIndex tileSize first (numberOfSpannedTiles tileSize first count) steps (some loc) false <
          n + tileSize ∨ steps = 2 ∧ 2 < tileCount tileSize n ∧
        centerIndex tileSize first (numberOfSpannedTiles tileSize first count) steps (some loc) false < n := by
      unfold centerIndex
      rcases hsteps with rfl | ⟨rfl, h3⟩
      · refine .inl ⟨rfl, ?_⟩
        split <;> omega
      · obtain ⟨hm, hin⟩ := hthree h3
        refine .inr ⟨rfl, hm, ?_⟩
        split <;> omega
    generalize centerIndex tileSize first (numberOfSpannedTiles tileSize first count) steps (some loc) false = center
      at heq hsteps
    rcases hloc with rfl | rfl
    · obtain ⟨s', W', hs', h', hW'⟩ := slideUpSteps_stocked hf h hW hget (by omega) hsteps
      exact ⟨s', W', heq.trans ((Op.bind_of_some hs').trans rfl), h', hW'⟩
    · obtain ⟨s', W', hs', h', hW'⟩ := slideDownSteps_stocked hf h hW hget (by omega) center <|
        hsteps.imp And.left fun ⟨h2, hm, _⟩ => ⟨h2, hm⟩
      exact ⟨s', W', heq.trans ((Op.bind_of_some hs').trans rfl), h', hW'⟩

/-! ## operator[] -/

/-- `operator[]` returns the item, and brings its tile to the center. -/
theorem access_stocked (h : Shows a tileSize item n s W) (hW : Stocked (tileCount tileSize n) W) (hidx : idx < n) :
    ∃ s' W', access p a idx s = some (.ok (plainItem item idx), s') ∧ Shows a tileSize item n s' W' ∧
      Stocked (tileCount tileSize n) W' ∧ W'.center = some (idx / tileSize) := by
  obtain ⟨s₁, W₁, hs₁, h₁, hW₁, hc₁⟩ := prefetch_single_stocked hf h hW hidx
  obtain ⟨s₂, hs₂, h₂⟩ := access_of_prefetch hf h.size hidx hs₁ h₁ hc₁
  exact ⟨s₂, W₁, hs₂, h₂, hW₁, hc₁⟩

theorem forEachAccessed_stocked (apply : β → ℕ → ListItem α → Bool × β) (left : ℕ) {i : ℕ} (x : β)
    (h : Shows a tileSize item n s W) (hW : Stocked (tileCount tileSize n) W) (hend : i + left ≤ n) :
    ∃ r s' W', forEachAccessed p a apply left i x s = some (r, s') ∧ Shows a tileSize item n s' W' ∧
      Stocked (tileCount tileSize n) W' := by
  induction left generalizing i x s W with
  | zero => exact ⟨_, s, W, rfl, h, hW⟩
  | succ left ih =>
    obtain ⟨s₁, W₁, hs₁, h₁, hW₁, -⟩ := access_stocked hf h hW (by omega : i < n)
    rw [forEachAccessed, Op.bind_of_some hs₁]
    dsimp only
    split
    · exact ih _ h₁ hW₁ (by omega)
    · exact ⟨_, s₁, W₁, rfl, h₁, hW₁⟩

/-! ## The iterator -/

/-- An item of a tile of the window, also one that is not there. -/
theorem getListItem_returns (h : Shows a tileSize item n s W) (hk : W.get loc = some k) (j : ℕ) :
    ∃ i r s', (s.lists a).active loc = some i ∧ getListItemByRawIndex p a i j s = some (r, s') ∧
      Shows a tileSize item n s' W := by
  obtain ⟨active, slots, h⟩ := h
  obtain ⟨i, hi, hslot⟩ := h.exists_active hk
  obtain ⟨s', hs', c', -⟩ := waitForReadyState_content hf h.content hslot
  have hitem : getListItemByRawIndex p a i j s = some (.ok (((s'.lists a).hot i).items j), s') := by
    rw [getListItemByRawIndex, Op.bind_of_some hs']
    rfl
  exact ⟨i, _, s', h.content.active_eq ▸ hi, hitem, ⟨active, slots, { h with content := c' }⟩⟩

/-- The iterator is at its end, or at a tile of the window. -/
def ConstIterator.InWindow (W : TileWindow) (it : ConstIterator) : Prop :=
  ∀ loc rest, it.tiles = loc :: rest → ∃ k, W.get loc = some k

namespace ConstIterator

theorem findFirst_returns (tiles : List ItemLocation) (e : ListError) (h : Shows a tileSize item n s W) :
    ∃ it s', findFirst p a tiles 0 e s = some (it, s') ∧ Shows a tileSize item n s' W ∧ it.InWindow W := by
  obtain ⟨it, s', hs', h', hnone, hit⟩ := findFirst_shows hf tiles e h
  refine ⟨it, s', hs', h', fun loc rest htiles => ?_⟩
  cases hget : tiles.filterMap W.get with
  | nil =>
    rw [hnone hget] at htiles
    cases htiles
  | cons k ks =>
    obtain ⟨loc', rest', htiles', -, hloc', -⟩ := hit k ks hget
    obtain ⟨rfl, -⟩ := List.cons.inj (htiles.symm.trans htiles')
    exact ⟨k, hloc'⟩

theorem start_returns (h : Shows a tileSize item n s W) (first : ℕ) :
    ∃ it s', start p a first s = some (it, s') ∧ Shows a tileSize item n s' W ∧ it.InWindow W := by
  have htheList : theList a s = some (s.lists a, s) := rfl
  obtain ⟨it, s', hs', h', hin⟩ := findFirst_returns hf (tilesFrom ((s.lists a).contains tileSize first)) .ok h
  refine ⟨if it.tiles = [] then it else { it with idx := first % tileSize }, s', ?_, h', ?_⟩
  · rw [start, Op.bind_of_some htheList, Op.bind_of_some hs']
    rfl
  · split <;> exact hin

theorem deref_returns (h : Shows a tileSize item n s W) {it : ConstIterator} (hit : it.InWindow W) :
    ∃ r s', it.deref p a s = some (r, s') ∧ Shows a tileSize item n s' W := by
  have htheList : theList a s = some (s.lists a, s) := rfl
  unfold deref
  cases htiles : it.tiles with
  | nil => exact ⟨_, s, rfl, h⟩
  | cons loc rest =>
    obtain ⟨k, hk⟩ := hit loc rest htiles
    obtain ⟨i, r, s', hi, hs', h'⟩ := getListItem_returns hf h hk it.idx
    refine ⟨r, s', ?_, h'⟩
    dsimp only
    rw [Op.bind_of_some htheList, hi]
    exact hs'

theorem next_returns (h : Shows a tileSize item n s W) {it : ConstIterator} (hit : it.InWindow W) :
    ∃ r s', it.next p a s = some (r, s') ∧ Shows a tileSize item n s' W ∧ ∀ it', r = .ok it' → it'.InWindow W := by
  have htheList : theList a s = some (s.lists a, s) := rfl
  unfold next
  cases htiles : it.tiles with
  | nil => exact ⟨_, s, rfl, h, nofun⟩
  | cons loc rest =>
    obtain ⟨k, hk⟩ := hit loc rest htiles
    obtain ⟨i, s₁, hi, hs₁, h₁, -⟩ := sizeOfTile_shows hf h hk
    dsimp only
    rw [Op.bind_of_some htheList, hi]
    dsimp only
    rw [Op.bind_of_some hs₁]
    dsimp only
    split
    · refine ⟨.ok _, s₁, rfl, h₁, fun it' hit' => ?_⟩
      cases hit'
      exact fun loc' rest' htiles' => hit loc' rest' (htiles.trans htiles')
    · obtain ⟨it', s₂, hs₂, h₂, hin⟩ := findFirst_returns hf rest it.firstListError h₁
      refine ⟨.ok it', s₂, (Op.bind_of_some hs₂).trans rfl, h₂, fun it'' hit'' => ?_⟩
      cases hit''
      exact hin

end ConstIterator

theorem forEachCached_returns (apply : β → ℕ → ListItem α → Bool × β) (left : ℕ) {i : ℕ} (x : β) {it : ConstIterator}
    (h : Shows a tileSize item n s W) (hit : it.InWindow W) :
    ∃ r s', forEachCached p a apply left i it x s = some (r, s') ∧ Shows a tileSize item n s' W := by
  induction left generalizing i x s it with
  | zero => exact ⟨_, s, rfl, h⟩
  | succ left ih =>
    obtain ⟨r₁, s₁, hs₁, h₁⟩ := ConstIterator.deref_returns hf h hit
    rw [forEachCached, Op.bind_of_some hs₁]
    cases r₁ with
    | error e => exact ⟨_, s₁, rfl, h₁⟩
    | ok x₁ =>
      obtain ⟨r₂, s₂, hs₂, h₂, hit₂⟩ := ConstIterator.next_returns hf h₁ hit
      dsimp only
      rw [Op.bind_of_some hs₂]
      cases r₂ with
      | error e => exact ⟨_, s₂, rfl, h₂⟩
      | ok it₂ =>
        dsimp only
        split
        · exact ih _ h₂ (hit₂ it₂ rfl)
        · exact ⟨_, s₂, rfl, h₂⟩

/-! ## Histories -/

/-- `for_each_item` returns, though maybe with an error. -/
theorem forEachItem_stocked (h : Shows a tileSize item n s W) (hW : Stocked (tileCount tileSize n) W)
    (sizeBits first count : ℕ) (apply : β → ℕ → ListItem α → Bool × β) (x : β) :
    ∃ r s' W', forEachItem p a sizeBits first count apply x s = some (r, s') ∧ Shows a tileSize item n s' W' ∧
      Stocked (tileCount tileSize n) W' := by
  have htheList : theList a s = some (s.lists a, s) := rfl
  have hle := endOfRange_le sizeBits first count n
  rw [forEachItem, Op.bind_of_some htheList]
  rw [h.size]
  generalize endOfRange sizeBits first count n = last at hle ⊢
  by_cases hempty : last ≤ first
  · rw [if_pos hempty]
    exact ⟨_, s, W, rfl, h, hW⟩
  · rw [if_neg hempty]
    by_cases hfits : last - first + first % tileSize ≤ 3 * tileSize
    · obtain ⟨s₁, W₁, hs₁, h₁, hW₁⟩ := prefetch_range_stocked hf h hW (by omega : 0 < last - first) (by omega) hfits
      obtain ⟨it, s₂, hs₂, h₂, hit⟩ := ConstIterator.start_returns hf h₁ first
      obtain ⟨r, s₃, hs₃, h₃⟩ := forEachCached_returns hf apply (last - first) x h₂ hit
      refine ⟨r, s₃, W₁, ?_, h₃, hW₁⟩
      rw [Op.bind_of_some hs₁]
      dsimp only
      rw [Op.bind_of_some hs₂, hs₃]
    · have hrefuse : prefetch p a first (last - first) n false s = some (.ok false, s) := by
        change prefetchFrom p a (s.lists a) first (last - first) n false s = _
        rw [prefetchFrom, if_pos (.inr (by omega))]
        rfl
      obtain ⟨r, s₁, W₁, hs₁, h₁, hW₁⟩ := forEachAccessed_stocked hf apply (last - first) x h hW
        (by omega : first + (last - first) ≤ n)
      refine ⟨r, s₁, W₁, ?_, h₁, hW₁⟩
      rw [Op.bind_of_some hrefuse]
      exact hs₁

/-- A call, and not a step of a worker. -/
def Call.OfReader : Call α → Prop
  | .worker => False
  | .access _ | .forEach .. => True

/-- Every call leaves the window good enough for the next one. -/
theorem CallStep.stocked {c : Call α} (hs : CallStep p a s c s')
    (h : ∃ W, Shows a tileSize item n s W ∧ Stocked (tileCount tileSize n) W) :
    ∃ W, Shows a tileSize item n s' W ∧ Stocked (tileCount tileSize n) W := by
  obtain ⟨W, h, hW⟩ := h
  cases hs with
  | worker hw => exact ⟨W, Workers.shows hf (.single hw) h, hW⟩
  | @access _ _ idx r ha =>
    by_cases hidx : idx < n
    · obtain ⟨s₁, W₁, hs₁, h₁, hW₁, -⟩ := access_stocked hf h hW hidx
      rw [hs₁] at ha
      cases ha
      exact ⟨W₁, h₁, hW₁⟩
    · have htheList : theList a s = some (s.lists a, s) := rfl
      rw [Tiles.access, Op.bind_of_some htheList, h.size, if_pos (by omega)] at ha
      cases ha
      exact ⟨W, h, hW⟩
  | forEach hfe =>
    obtain ⟨r₁, s₁, W₁, hs₁, h₁, hW₁⟩ := forEachItem_stocked hf h hW _ _ _ _ _
    rw [hs₁] at hfe
    cases hfe
    exact ⟨W₁, h₁, hW₁⟩

/-- After every history of calls, `operator[]` returns the item, with the tile that covers it in the center; and
neither an access nor `for_each_item` fails. -/
theorem random_access {numberOfEntries : κ → ℕ} (hn : numberOfEntries a = n) {calls : List (Call α)}
    (hrun : Run (CallStep p a) (.init numberOfEntries) calls s) :
    (∀ i < n, ∃ s' c, access p a i s = some (.ok (plainItem item i), s') ∧ (s'.lists a).active .center = some c ∧
      ((s'.lists a).hot c).base = i / tileSize * tileSize) ∧
    ∀ call : Call α, call.OfReader → ∃ s', CallStep p a s call s' := by
  obtain ⟨W, h, hW⟩ :=
    hrun.invariant (P := fun s => ∃ W, Shows a tileSize item n s W ∧ Stocked (tileCount tileSize n) W)
    (fun s c s' h hs => hs.stocked hf h)
    ⟨_, hn ▸ init_shows numberOfEntries item, .empty fun loc => by cases loc <;> rfl⟩
  constructor
  · intro i hi
    obtain ⟨s', W', hs', h', -, hc⟩ := access_stocked hf h hW hi
    obtain ⟨active, slots, h'⟩ := h'
    obtain ⟨c, hc, hslot⟩ := h'.exists_active (show W'.get .center = _ from hc)
    have hbase := h'.content.slot c
    rw [hslot] at hbase
    exact ⟨s', c, hs', h'.content.active_eq ▸ hc, hbase.2.1⟩
  · intro call hcall
    cases call with
    | worker => cases hcall
    | access idx =>
      by_cases hidx : idx < n
      · obtain ⟨s', -, hs', -⟩ := access_stocked hf h hW hidx
        exact ⟨s', .access hs'⟩
      · have htheList : theList a s = some (s.lists a, s) := rfl
        refine ⟨s, .access (r := .error .internal) ?_⟩
        rw [access, Op.bind_of_some htheList, h.size, if_pos (by omega)]
        rfl
    | forEach sizeBits first count apply x =>
      obtain ⟨r, s', -, hs', -⟩ := forEachItem_stocked hf h hW sizeBits first count apply x
      exact ⟨s', .forEach hs'⟩

end

/-- The window shows tile 0 twice after it has slid down from item 3. -/
theorem random_access_not_contiguous : ∃ s, Run (CallStep (countingList 2 5 (by decide)) ()) (.init fun _ => 5)
    [.access 0, .access 3] s ∧ (s.lists ()).contains 2 4 = none ∧
    ∀ i < 5, ∃ s', access (countingList 2 5 (by decide)) () i s = some (.ok (plainItem id i), s') := by
  have hrun : (access (countingList 2 5 (by decide)) () 0 (.init fun _ => 5)).any (fun r =>
      (access (countingList 2 5 (by decide)) () 3 r.2).any fun r' => (r'.2.lists ()).contains 2 4 = none) = true := by
    decide +kernel
  obtain ⟨r, hr, hrun⟩ := (Option.any_eq_true _ _).mp hrun
  obtain ⟨r', hr', hnone⟩ := (Option.any_eq_true _ _).mp hrun
  have hcalls : Run (CallStep (countingList 2 5 (by decide)) ()) (.init fun _ => 5) [.access 0, .access 3] r'.2 :=
    .cons (.access hr) (.cons (.access hr') (.nil r'.2))
  refine ⟨r'.2, hcalls, of_decide_eq_true hnone, fun i hi => ?_⟩
  obtain ⟨s', -, hs', -⟩ := (random_access (Filler.succeeding_fills (by decide) id 5) rfl hcalls).1 i hi
  exact ⟨s', hs'⟩

end Listbrokers.Tiles
