import Listbrokers.Tiles.Sliding

/-!
# Prefetching

What `prefetch` makes of a contiguous window, for an access to one item
(`prefetch_access`) and for a range that fits into the tiles (`prefetch_range`).
All it needs is how `slide` and `fill` change the window, and how the tile of an
item is found in it (`Frame`). That the window shows the items of the list is
such a frame (`shows_frame`).

It goes wrong where the window slides down from an index that cannot reach the
next tile (`Dangling`), since `index_in_adjacent_tile` then takes the list to be
at its end, and where a range of three tiles overlaps the window in the center
tile only, since the window then slides away from the range. `AccessSafe` and
`RangeSafe` exclude this.
-/

namespace Listbrokers.Tiles

open Framework TileWindow

variable {κ α : Type} [DecidableEq κ] [Inhabited α] {tileSize : ℕ} {p : ListThreads κ α tileSize} {a : κ}
  {item : ℕ → α} {n : ℕ} {s s' : Sys κ α} {W W' : TileWindow} {total : Prop} {F : Sys κ α → TileWindow → Prop}

/-- The window does not slide down from a dangling index to get to the item. -/
def TiledList.AccessSafe (tileSize : ℕ) (l : TiledList α) (idx : ℕ) : Prop :=
  l.contains tileSize idx = some .down → 2 * tileSize < l.numberOfEntries →
    ¬ Dangling tileSize l.numberOfEntries idx

/-- The window slides the right way to get to the range, and not down from a dangling index. -/
structure TiledList.RangeSafe (tileSize : ℕ) (l : TiledList α) (first count : ℕ) : Prop where
  first_two : numberOfSpannedTiles tileSize first count = 2 → l.contains tileSize first = some .down →
    2 * tileSize < l.numberOfEntries → ¬ Dangling tileSize l.numberOfEntries first
  first_three : numberOfSpannedTiles tileSize first count = 3 → l.contains tileSize first = some .down →
    ¬ Dangling tileSize l.numberOfEntries (first + tileSize)
  first_not_center : numberOfSpannedTiles tileSize first count = 3 → l.contains tileSize first ≠ some .center
  last_not_center : numberOfSpannedTiles tileSize first count = 3 → l.contains tileSize first = none →
    l.contains tileSize (first + count - 1) ≠ some .center

/-! ## Frames -/

/-- The operations on the window of list `a`, of `n` items, change it as a window `F` of tiles. In the last tile of the
list `contains` need not find an item, as the end of the tile may not fit into 32 bits. -/
structure Frame (p : ListThreads κ α tileSize) (a : κ) (n : ℕ) (total : Prop) (F : Sys κ α → TileWindow → Prop) :
    Prop where
  size {s : Sys κ α} {W : TileWindow} : F s W → (s.lists a).numberOfEntries = n
  finds {s : Sys κ α} {W : TileWindow} {idx : ℕ} : F s W → idx < n →
    (s.lists a).contains tileSize idx = W.find (idx / tileSize) ∨
      (s.lists a).contains tileSize idx = none ∧ tileCount tileSize n ≤ idx / tileSize + 1
  slides {s : Sys κ α} {W W' : TileWindow} {push keep : ItemLocation} {c k q idx : ℕ} : F s W → push ≠ .center →
    keep ≠ .center → push ≠ keep → W.center = some c → W.get keep = some k →
    indexInAdjacentTile tileSize idx n (some keep) / tileSize = q →
    indexInAdjacentTile tileSize idx n (some keep) < n → W'.get push = W.center → W'.center = W.get keep →
    W'.get keep = ((W.get push).map fun _ => q) → Leads total (slide p a idx n push keep) s fun _ s' => F s' W'
  fills {s : Sys κ α} {W : TileWindow} {idx : ℕ} : F s W → idx < n →
    Leads total (fill p a idx n) s fun _ s' => F s' (.filled (tileCount tileSize n) (idx / tileSize))

section

omit [DecidableEq κ] [Inhabited α]

theorem Shows.size (h : Shows a tileSize item n s W) : (s.lists a).numberOfEntries = n := by
  obtain ⟨_, _, h⟩ := h
  exact h.content.size

end

/-- With a filler that succeeds, the window shows the items of the list. -/
theorem shows_frame (hf : (p.filler a).Fills item n) (hbound : tileCount tileSize n * tileSize < 2 ^ 32) :
    Frame p a n True (Shows a tileSize item n) where
  size h := h.size
  finds h _ := .inl (h.contains_eq p.tileSize_pos hbound _)
  slides h hp hk hpk hc hkeep hadj hlt h₁ h₂ h₃ := by
    obtain ⟨s', hs', h'⟩ := slide_shows hf hp hk hpk h hc hkeep hadj hlt h₁ h₂ h₃
    exact .of_some hs' h'
  fills h hidx := by
    obtain ⟨s', hs', h'⟩ := fill_shows hf h hidx
    exact .of_some hs' h'

/-- A window that shows something has a center tile. -/
theorem TileWindow.Contiguous.exists_center {m k : ℕ} (h : Contiguous m W) {loc : ItemLocation}
    (hk : W.get loc = some k) : ∃ c, W.center = some c := by
  cases h with
  | empty => cases loc <;> cases hk
  | one => exact ⟨_, rfl⟩
  | twoUp => exact ⟨_, rfl⟩
  | twoDown => exact ⟨_, rfl⟩
  | many => exact ⟨_, rfl⟩

/-- A window with tiles on both sides belongs to a list of more than two tiles. -/
theorem TileWindow.Contiguous.many_of_both {m k k' : ℕ} (h : Contiguous m W) (hu : W.up = some k)
    (hd : W.down = some k') : 2 < m := by
  cases h with
  | empty => cases hu
  | one => cases hu
  | twoUp => cases hd
  | twoDown => cases hu
  | many hm => exact hm

namespace Frame

/-- Where an item is found, its tile is. -/
theorem find_of_contains (hF : Frame p a n total F) (h : F s W) {idx : ℕ} (hidx : idx < n) {loc : ItemLocation}
    (hc : (s.lists a).contains tileSize idx = some loc) : W.find (idx / tileSize) = some loc := by
  rcases hF.finds h hidx with heq | ⟨hnone, -⟩
  · rw [← heq, hc]
  · rw [hc] at hnone
    cases hnone

/-- Where an item is not found, its tile is not, unless it is the last one. -/
theorem find_of_not_contains (hF : Frame p a n total F) (h : F s W) {idx : ℕ} (hidx : idx < n)
    (hlast : idx / tileSize + 1 < tileCount tileSize n) (hc : (s.lists a).contains tileSize idx = none) :
    W.find (idx / tileSize) = none := by
  rcases hF.finds h hidx with heq | ⟨-, hle⟩
  · rw [← heq, hc]
  · exact absurd hlast (Nat.not_lt.mpr hle)

section

variable (hF : Frame p a n total F) (h : F s W) (hW : Contiguous (tileCount tileSize n) W) (hn : 0 < n) {idx : ℕ}

include hF h hW hn

theorem slidesUp (hk : W.up = some (idx / tileSize)) (hidx : idx < n + tileSize) :
    Leads total (slide p a idx n .down .up) s fun _ s' =>
      F s' (W.shiftUp (predTile (tileCount tileSize n) (idx / tileSize))) := by
  obtain ⟨c, hc⟩ := hW.exists_center (show W.get .up = _ from hk)
  obtain ⟨hadj, hlt⟩ := adjacent_up p.tileSize_pos hn hidx
  exact hF.slides h (by decide) (by decide) (by decide) hc hk hadj hlt rfl rfl rfl

theorem slidesDown (hk : W.down = some (idx / tileSize)) (hd : W.up ≠ none → ¬ Dangling tileSize n idx) :
    Leads total (slide p a idx n .up .down) s fun _ s' =>
      F s' (W.shiftDown (succTile (tileCount tileSize n) (idx / tileSize))) := by
  obtain ⟨c, hc⟩ := hW.exists_center (show W.get .down = _ from hk)
  have hlt : indexInAdjacentTile tileSize idx n (some .down) < n := by
    unfold indexInAdjacentTile
    dsimp only
    split <;> omega
  by_cases hu : W.up = none
  · refine hF.slides h (by decide) (by decide) (by decide) hc hk rfl hlt rfl rfl ?_
    simp [shiftDown, TileWindow.get, hu]
  · obtain ⟨hadj, -⟩ := adjacent_down p.tileSize_pos hn (hd hu)
    exact hF.slides h (by decide) (by decide) (by decide) hc hk hadj hlt rfl rfl rfl

end

end Frame

/-! ## Sliding -/

theorem slideUp_one (idx : ℕ) : slideUp p a idx n 1 s = slide p a idx n .down .up s := by
  have htile := p.tileSize_pos
  have hcheck : check (0 < 1 ∧ 1 < 3 * tileSize) s = some ((), s) := if_pos (by omega)
  unfold slideUp
  rw [Op.bind_of_some hcheck]
  change (slide p a (idx + (1 - 0 - 1) * tileSize) n .down .up >>= fun _ => pure ()) s = _
  rw [show idx + (1 - 0 - 1) * tileSize = idx by omega]
  simp

theorem slideUp_two (idx : ℕ) : slideUp p a idx n 2 s =
    (slide p a (idx + tileSize) n .down .up >>= fun _ => slide p a idx n .down .up) s := by
  have htile := p.tileSize_pos
  have hcheck : check (0 < 2 ∧ 2 < 3 * tileSize) s = some ((), s) := if_pos (by omega)
  unfold slideUp
  rw [Op.bind_of_some hcheck]
  change (slide p a (idx + (2 - 0 - 1) * tileSize) n .down .up >>= fun _ =>
    slide p a (idx + (2 - 1 - 1) * tileSize) n .down .up >>= fun _ => pure ()) s = _
  rw [show idx + (2 - 0 - 1) * tileSize = idx + tileSize by omega, show idx + (2 - 1 - 1) * tileSize = idx by omega]
  simp

theorem slideDown_one (idx : ℕ) : slideDown p a idx n 1 s = slide p a idx n .up .down s := by
  have htile := p.tileSize_pos
  have hcheck : check (0 < 1 ∧ 1 < 3 * tileSize) s = some ((), s) := if_pos (by omega)
  unfold slideDown
  rw [Op.bind_of_some hcheck]
  change (slide p a (idx - (1 - 0 - 1) * tileSize) n .up .down >>= fun _ => pure ()) s = _
  rw [show idx - (1 - 0 - 1) * tileSize = idx by omega]
  simp

theorem slideDown_two (idx : ℕ) : slideDown p a idx n 2 s =
    (slide p a (idx - tileSize) n .up .down >>= fun _ => slide p a idx n .up .down) s := by
  have htile := p.tileSize_pos
  have hcheck : check (0 < 2 ∧ 2 < 3 * tileSize) s = some ((), s) := if_pos (by omega)
  unfold slideDown
  rw [Op.bind_of_some hcheck]
  change (slide p a (idx - (2 - 0 - 1) * tileSize) n .up .down >>= fun _ =>
    slide p a (idx - (2 - 1 - 1) * tileSize) n .up .down >>= fun _ => pure ()) s = _
  rw [show idx - (2 - 0 - 1) * tileSize = idx - tileSize by omega, show idx - (2 - 1 - 1) * tileSize = idx by omega]
  simp

/-! ## Choosing what to do -/

/-- `prefetch`, with the check of the numbers done. -/
theorem prefetch_eq {first count : ℕ} {autoSlide : Bool} {required : ℕ} {direction : Option ItemLocation}
    (hcount : 0 < count) (hfits : count + first % tileSize ≤ 3 * tileSize)
    (hover : (s.lists a).checkOverlappingRangeForPrefetch tileSize first count = (required, direction))
    (hrequired : direction ≠ none → required < 3) :
    prefetch p a first count n autoSlide s =
      if required = 0 ∧ ¬ (autoSlide ∧ (direction = some .up ∨ direction = some .down)) then some (.ok true, s)
      else
        slideOrFill p a
          (centerIndex tileSize first (numberOfSpannedTiles tileSize first count)
            (if required = 0 then 1 else required) direction autoSlide)
          n (if required = 0 then 1 else required) direction s := by
  have hspanned : (first % tileSize + count - 1) / tileSize < 3 := by
    rw [Nat.div_lt_iff_lt_mul p.tileSize_pos]
    omega
  have hcheck : check (1 ≤ numberOfSpannedTiles tileSize first count ∧ numberOfSpannedTiles tileSize first count ≤ 3 ∧
      (direction.isSome → required < 3)) s = some ((), s) := by
    unfold numberOfSpannedTiles
    generalize (first % tileSize + count - 1) / tileSize = q at hspanned ⊢
    exact if_pos ⟨by omega, by omega, fun hd => hrequired (Option.isSome_iff_ne_none.mp hd)⟩
  change prefetchFrom p a (s.lists a) first count n autoSlide s = _
  unfold prefetchFrom
  rw [if_neg (by omega), hover]
  rw [Op.bind_of_some hcheck]
  split <;> rfl

/-- `prefetch` leads to what the slides, or `fill`, lead to. -/
theorem leads_prefetch {first count required : ℕ} {direction : Option ItemLocation} {autoSlide : Bool}
    {m : Op (Sys κ α) Unit} {Q : Sys κ α → Prop} (hm : Leads total m s fun _ s' => Q s') (hcount : 0 < count)
    (hfits : count + first % tileSize ≤ 3 * tileSize)
    (hover : (s.lists a).checkOverlappingRangeForPrefetch tileSize first count = (required, direction))
    (hrequired : direction ≠ none → required < 3)
    (heq : (if required = 0 ∧ ¬ (autoSlide ∧ (direction = some .up ∨ direction = some .down)) then some (.ok true, s)
      else
        slideOrFill p a
          (centerIndex tileSize first (numberOfSpannedTiles tileSize first count)
            (if required = 0 then 1 else required) direction autoSlide)
          n (if required = 0 then 1 else required) direction s) = (m >>= fun _ => pure (.ok true)) s) :
    Leads total (prefetch p a first count n autoSlide) s fun r s' => r = .ok true ∧ Q s' :=
  (hm.bind fun _ _ hq => .of_some rfl ⟨rfl, hq⟩).congr ((prefetch_eq hcount hfits hover hrequired).trans heq)

theorem numberOfSpannedTiles_one (htile : 0 < tileSize) (idx : ℕ) : numberOfSpannedTiles tileSize idx 1 = 1 := by
  unfold numberOfSpannedTiles
  rw [Nat.add_sub_cancel, Nat.div_eq_of_lt (Nat.mod_lt _ htile)]

/-- An access brings the tile of the item to the center, and leaves the window contiguous. -/
theorem prefetch_access (hF : Frame p a n total F) (h : F s W) (hW : Contiguous (tileCount tileSize n) W) {idx : ℕ}
    (hidx : idx < n) (hsafe : (s.lists a).AccessSafe tileSize idx) :
    Leads total (prefetch p a idx 1 n true) s fun r s' => r = .ok true ∧ ∃ W', F s' W' ∧
      Contiguous (tileCount tileSize n) W' ∧ W'.center = some (idx / tileSize) := by
  have htile := p.tileSize_pos
  have hmod := Nat.mod_lt idx htile
  have hspanned := numberOfSpannedTiles_one htile idx
  have hfits : 1 + idx % tileSize ≤ 3 * tileSize := by omega
  have hsize := hF.size h
  cases hfind : (s.lists a).contains tileSize idx with
  | none =>
    have hover : (s.lists a).checkOverlappingRangeForPrefetch tileSize idx 1 = (3, none) := by
      simp [TiledList.checkOverlappingRangeForPrefetch, hfind, hspanned]
    have hlt := div_lt_tileCount htile hidx
    refine leads_prefetch ((hF.fills h hidx).mono fun _ s' h' => ⟨_, h', contiguous_filled hlt, rfl⟩) (by omega) hfits
      hover (by simp) ?_
    simp [centerIndex, hspanned, slideOrFill]
  | some loc =>
    have hget := get_of_find (hF.find_of_contains h hidx hfind)
    have hover : (s.lists a).checkOverlappingRangeForPrefetch tileSize idx 1 = (0, some loc) := by
      cases loc <;>
        simp [TiledList.checkOverlappingRangeForPrefetch, hfind, hspanned, computeNumberOfRequiredSlides]
    cases loc with
    | center =>
      refine .of_some (prefetch_eq (by omega) hfits hover (by simp)) ⟨rfl, W, h, hW, hget⟩
    | up =>
      obtain ⟨hW', hc'⟩ := hW.shiftUp hget
      refine leads_prefetch (m := slideUp p a idx n 1) (.congr (.mono (hF.slidesUp h hW (by omega) hget (by omega))
        fun _ s' h' => ⟨_, h', hW', hc'⟩) (slideUp_one idx)) (by omega) hfits hover (by simp) ?_
      simp [centerIndex, hspanned, slideOrFill]
    | down =>
      have hd : W.up ≠ none → ¬ Dangling tileSize n idx := fun hu => by
        obtain ⟨k, hk⟩ := Option.ne_none_iff_exists'.mp hu
        have hm := hW.many_of_both hk hget
        rw [lt_tileCount htile] at hm
        have := hsafe hfind (by rwa [hsize])
        rwa [hsize] at this
      obtain ⟨hW', hc'⟩ := hW.shiftDown hget
      refine leads_prefetch (m := slideDown p a idx n 1) (.congr (.mono (hF.slidesDown h hW (by omega) hget hd)
        fun _ s' h' => ⟨_, h', hW', hc'⟩) (slideDown_one idx)) (by omega) hfits hover (by simp) ?_
      simp [centerIndex, hspanned, slideOrFill]

/-! ## Ranges -/

theorem last_div (htile : 0 < tileSize) (first : ℕ) {count : ℕ} (hcount : 0 < count) :
    (first + count - 1) / tileSize + 1 = first / tileSize + numberOfSpannedTiles tileSize first count := by
  have hdiv := Nat.div_add_mod' first tileSize
  have h : first + count - 1 = first % tileSize + count - 1 + tileSize * (first / tileSize) := by
    rw [Nat.mul_comm]
    omega
  unfold numberOfSpannedTiles
  rw [h, Nat.add_mul_div_left _ _ htile]
  omega

/-- A window that shows what is going to be read is left alone. -/
theorem prefetch_hit {first count : ℕ} (loc : ItemLocation) (hcount : 0 < count)
    (hfits : count + first % tileSize ≤ 3 * tileSize)
    (hover : (s.lists a).checkOverlappingRangeForPrefetch tileSize first count = (0, some loc)) :
    prefetch p a first count n false s = some (.ok true, s) := by
  rw [prefetch_eq hcount hfits hover (by simp)]
  simp

section

variable {first count : ℕ} (hF : Frame p a n total F) (h : F s W) (hW : Contiguous (tileCount tileSize n) W)
  (hcount : 0 < count) (hend : first + count ≤ n) (hfits : count + first % tileSize ≤ 3 * tileSize)

include hF h hW hcount hend hfits

/-- What a range within one tile makes of the window. -/
theorem prefetch_one (hspanned : numberOfSpannedTiles tileSize first count = 1) :
    Leads total (prefetch p a first count n false) s fun r s' => r = .ok true ∧ ∃ W', F s' W' ∧
      Contiguous (tileCount tileSize n) W' ∧ Reads W' (first / tileSize) 1 := by
  have htile := p.tileSize_pos
  have hidx : first < n := by omega
  have hlt := div_lt_tileCount htile hidx
  cases hfind : (s.lists a).contains tileSize first with
  | some loc =>
    refine .of_some (prefetch_hit loc hcount hfits ?_) ⟨rfl, W, h, hW, reads_one (hF.find_of_contains h hidx hfind)⟩
    cases loc <;>
      simp [TiledList.checkOverlappingRangeForPrefetch, hfind, hspanned, computeNumberOfRequiredSlides]
  | none =>
    have hover : (s.lists a).checkOverlappingRangeForPrefetch tileSize first count = (3, none) := by
      simp [TiledList.checkOverlappingRangeForPrefetch, hfind, hspanned]
    have hW' := contiguous_filled hlt
    refine leads_prefetch ((hF.fills h hidx).mono fun _ s' h' => ⟨_, h', hW', reads_one (find_center hW' rfl)⟩) hcount
      hfits hover (by simp) ?_
    simp [centerIndex, hspanned, slideOrFill]

/-- What a range over two tiles makes of the window. -/
theorem prefetch_two (hspanned : numberOfSpannedTiles tileSize first count = 2)
    (hsafe : (s.lists a).RangeSafe tileSize first count) :
    Leads total (prefetch p a first count n false) s fun r s' => r = .ok true ∧ ∃ W', F s' W' ∧
      Contiguous (tileCount tileSize n) W' ∧ Reads W' (first / tileSize) 2 := by
  have htile := p.tileSize_pos
  have hidx : first < n := by omega
  have hidx' : first + count - 1 < n := by omega
  have hdiv := last_div htile first hcount
  have hlast := div_lt_tileCount htile hidx'
  have hk : first / tileSize + 1 < tileCount tileSize n := by omega
  have hlt := div_lt_tileCount htile hidx
  have hnonneg := Nat.zero_le (first / tileSize)
  have hnext : (first + tileSize) / tileSize = first / tileSize + 1 := Nat.add_div_right _ htile
  have hnext' : (first + count - 1) / tileSize = first / tileSize + 1 := by omega
  cases hfind : (s.lists a).contains tileSize first with
  | some loc =>
    have hloc := hF.find_of_contains h hidx hfind
    have hget := get_of_find hloc
    cases loc with
    | up =>
      refine .of_some (prefetch_hit .up hcount hfits ?_) ⟨rfl, W, h, hW, reads_two_up hW hk hloc⟩
      simp [TiledList.checkOverlappingRangeForPrefetch, hfind, computeNumberOfRequiredSlides]
    | center =>
      refine .of_some (prefetch_hit .center hcount hfits ?_) ⟨rfl, W, h, hW, reads_two_center hW hk hloc⟩
      simp [TiledList.checkOverlappingRangeForPrefetch, hfind, hspanned, computeNumberOfRequiredSlides]
    | down =>
      have hover : (s.lists a).checkOverlappingRangeForPrefetch tileSize first count = (1, some .down) := by
        simp [TiledList.checkOverlappingRangeForPrefetch, hfind, hspanned, computeNumberOfRequiredSlides]
      have hd : W.up ≠ none → ¬ Dangling tileSize n first := fun hu => by
        obtain ⟨k, hu⟩ := Option.ne_none_iff_exists'.mp hu
        have hm := hW.many_of_both hu hget
        rw [lt_tileCount htile] at hm
        have := hsafe.first_two hspanned hfind (by rwa [hF.size h])
        rwa [hF.size h] at this
      obtain ⟨hW', hc'⟩ := hW.shiftDown hget
      refine leads_prefetch (m := slideDown p a first n 1) (.congr (.mono (hF.slidesDown h hW (by omega) hget hd)
        fun _ s' h' => ⟨_, h', hW', reads_two_center hW' hk (find_center hW' hc')⟩) (slideDown_one first)) hcount hfits
        hover (by simp) ?_
      simp [centerIndex, hspanned, slideOrFill]
  | none =>
    have hloc := hF.find_of_not_contains h hidx hk hfind
    cases hfind' : (s.lists a).contains tileSize (first + count - 1) with
    | none =>
      have hover : (s.lists a).checkOverlappingRangeForPrefetch tileSize first count = (3, none) := by
        simp [TiledList.checkOverlappingRangeForPrefetch, hfind, hfind', hspanned]
      have hW' := contiguous_filled hlt
      refine leads_prefetch ((hF.fills h hidx).mono fun _ s' h' =>
        ⟨_, h', hW', reads_two_center hW' hk (find_center hW' rfl)⟩) hcount hfits hover (by simp) ?_
      simp [centerIndex, hspanned, slideOrFill]
    | some loc =>
      have hloc' := hF.find_of_contains h hidx' hfind'
      rw [hnext'] at hloc'
      obtain ⟨rfl, q, hdown⟩ := begins_of_second hW hk hloc hloc'
      have hover : (s.lists a).checkOverlappingRangeForPrefetch tileSize first count = (1, some .up) := by
        simp [TiledList.checkOverlappingRangeForPrefetch, hfind, hfind', hspanned, computeNumberOfRequiredSlides]
      have hget : W.up = some ((first + tileSize) / tileSize) := by rw [hnext]; exact get_of_find hloc'
      obtain ⟨hW', -⟩ := hW.shiftUp hget
      have hup : (W.shiftUp (predTile (tileCount tileSize n) ((first + tileSize) / tileSize))).up =
          some (first / tileSize) := by
        rw [shiftUp, hdown, Option.map_some, hnext, predTile, if_neg (by omega), Nat.add_sub_cancel]
      refine leads_prefetch (m := slideUp p a (first + tileSize) n 1)
        (.congr (.mono (hF.slidesUp h hW (by omega) hget (by omega))
          fun _ s' h' => ⟨_, h', hW', reads_two_up hW' hk (find_up hup)⟩) (slideUp_one _)) hcount hfits hover
            (by simp) ?_
      simp [centerIndex, slideOrFill]

/-- What a range over three tiles makes of the window. -/
theorem prefetch_three (hspanned : numberOfSpannedTiles tileSize first count = 3)
    (hsafe : (s.lists a).RangeSafe tileSize first count) :
    Leads total (prefetch p a first count n false) s fun r s' => r = .ok true ∧ ∃ W', F s' W' ∧
      Contiguous (tileCount tileSize n) W' ∧ Reads W' (first / tileSize) 3 := by
  have htile := p.tileSize_pos
  have hidx : first < n := by omega
  have hidx' : first + count - 1 < n := by omega
  have hdiv := last_div htile first hcount
  have hlast := div_lt_tileCount htile hidx'
  have hk : first / tileSize + 2 < tileCount tileSize n := by omega
  have hlt := div_lt_tileCount htile hidx
  have hnonneg := Nat.zero_le (first / tileSize)
  have hnext : (first + tileSize) / tileSize = first / tileSize + 1 := Nat.add_div_right _ htile
  have hnext' : (first + tileSize + tileSize) / tileSize = first / tileSize + 2 := by
    rw [Nat.add_div_right _ htile, hnext]
  have hlast' : (first + count - 1) / tileSize = first / tileSize + 2 := by omega
  have hin : first + tileSize < n := by
    by_contra hout
    have := div_lt_tileCount htile (by omega : n - 1 < n)
    have hle := Nat.div_le_div_right (c := tileSize) (by omega : n - 1 ≤ first + tileSize)
    have hmono := Nat.div_le_div_right (c := tileSize) (by omega : first + count - 1 ≤ n - 1)
    omega
  cases hfind : (s.lists a).contains tileSize first with
  | some loc =>
    have hloc := hF.find_of_contains h hidx hfind
    have hget := get_of_find hloc
    cases loc with
    | up =>
      refine .of_some (prefetch_hit .up hcount hfits ?_) ⟨rfl, W, h, hW, reads_three hW hk hloc⟩
      simp [TiledList.checkOverlappingRangeForPrefetch, hfind, computeNumberOfRequiredSlides]
    | center => exact absurd hfind (hsafe.first_not_center hspanned)
    | down =>
      have hover : (s.lists a).checkOverlappingRangeForPrefetch tileSize first count = (2, some .down) := by
        simp [TiledList.checkOverlappingRangeForPrefetch, hfind, hspanned, computeNumberOfRequiredSlides]
      obtain ⟨q, hup⟩ : ∃ q, W.up = some q := by
        cases hW with
        | empty => cases hget
        | one => cases hget
        | twoUp => exact ⟨_, rfl⟩
        | twoDown hm => omega
        | many => exact ⟨_, rfl⟩
      have hd : ¬ Dangling tileSize n first := fun hd => absurd hd.1 (by omega)
      have hd' : ¬ Dangling tileSize n (first + tileSize) := by
        have := hsafe.first_three hspanned hfind
        rwa [hF.size h] at this
      obtain ⟨hW₁, hc₁⟩ := hW.shiftDown hget
      have hdown : (W.shiftDown (succTile (tileCount tileSize n) (first / tileSize))).down =
          some ((first + tileSize) / tileSize) := by
        rw [shiftDown, hup, Option.map_some, hnext, succTile, if_pos (by omega)]
      obtain ⟨hW₂, -⟩ := hW₁.shiftDown hdown
      refine leads_prefetch (m := slideDown p a (first + tileSize) n 2)
        (.congr (.bind (hF.slidesDown h hW (by omega) hget fun _ => hd) fun _ s₁ h₁ =>
          .mono (hF.slidesDown h₁ hW₁ (by omega) hdown fun _ => hd')
            fun _ s' h' => ⟨_, h', hW₂, reads_three hW₂ hk (find_up hc₁)⟩) ?_) hcount hfits hover (by simp) ?_
      · rw [slideDown_two, Nat.add_sub_cancel]
      · simp [centerIndex, hspanned, slideOrFill]
  | none =>
    have hloc := hF.find_of_not_contains h hidx (by omega) hfind
    cases hfind' : (s.lists a).contains tileSize (first + count - 1) with
    | none =>
      have hover : (s.lists a).checkOverlappingRangeForPrefetch tileSize first count = (3, none) := by
        simp [TiledList.checkOverlappingRangeForPrefetch, hfind, hfind', hspanned]
      have hW' : Contiguous (tileCount tileSize n) (filled (tileCount tileSize n) ((first + tileSize) / tileSize)) :=
        contiguous_filled (by omega)
      have hup : (filled (tileCount tileSize n) ((first + tileSize) / tileSize)).up = some (first / tileSize) := by
        rw [hnext, filled, if_pos (by omega), predTile, if_neg (by omega), Nat.add_sub_cancel]
      refine leads_prefetch ((hF.fills h hin).mono fun _ s' h' =>
        ⟨_, h', hW', reads_three hW' hk (find_up hup)⟩) hcount hfits hover (by simp) ?_
      simp [centerIndex, hspanned, slideOrFill]
    | some loc =>
      have hloc' := hF.find_of_contains h hidx' hfind'
      rw [hlast'] at hloc'
      have hne : loc ≠ .center := fun he => hsafe.last_not_center hspanned hfind (by rw [hfind', he])
      obtain ⟨rfl, ⟨c, hcenter⟩, q, hdown⟩ := begins_of_third hW hk hloc hloc' hne
      have hover : (s.lists a).checkOverlappingRangeForPrefetch tileSize first count = (2, some .up) := by
        simp [TiledList.checkOverlappingRangeForPrefetch, hfind, hfind', hspanned, computeNumberOfRequiredSlides]
      have hget : W.up = some ((first + tileSize + tileSize) / tileSize) := by
        rw [hnext']
        exact get_of_find hloc'
      obtain ⟨hW₁, -⟩ := hW.shiftUp hget
      have hup₁ : (W.shiftUp (predTile (tileCount tileSize n) ((first + tileSize + tileSize) / tileSize))).up =
          some ((first + tileSize) / tileSize) := by
        rw [shiftUp, hdown, Option.map_some, hnext', hnext, predTile, if_neg (by omega)]
        rfl
      obtain ⟨hW₂, -⟩ := hW₁.shiftUp hup₁
      have hup₂ : ((W.shiftUp (predTile (tileCount tileSize n) ((first + tileSize + tileSize) / tileSize))).shiftUp
          (predTile (tileCount tileSize n) ((first + tileSize) / tileSize))).up = some (first / tileSize) := by
        simp only [shiftUp, hcenter, Option.map_some]
        rw [hnext, predTile, if_neg (by omega), Nat.add_sub_cancel]
      refine leads_prefetch (m := slideUp p a (first + tileSize) n 2)
        (.congr (.bind (hF.slidesUp h hW (by omega) hget (by omega)) fun _ s₁ h₁ =>
          .mono (hF.slidesUp h₁ hW₁ (by omega) hup₁ (by omega))
            fun _ s' h' => ⟨_, h', hW₂, reads_three hW₂ hk (find_up hup₂)⟩) (slideUp_two _)) hcount hfits hover
        (by simp) ?_
      simp [centerIndex, slideOrFill]

/-- A range that fits into the tiles is there to be read tile after tile, and the window stays contiguous. -/
theorem prefetch_range (hsafe : (s.lists a).RangeSafe tileSize first count) :
    Leads total (prefetch p a first count n false) s fun r s' => r = .ok true ∧ ∃ W', F s' W' ∧
      Contiguous (tileCount tileSize n) W' ∧
      Reads W' (first / tileSize) (numberOfSpannedTiles tileSize first count) := by
  have hspanned : (first % tileSize + count - 1) / tileSize < 3 := by
    rw [Nat.div_lt_iff_lt_mul p.tileSize_pos]
    omega
  have hcases : numberOfSpannedTiles tileSize first count = 1 ∨ numberOfSpannedTiles tileSize first count = 2 ∨
      numberOfSpannedTiles tileSize first count = 3 := by
    unfold numberOfSpannedTiles
    generalize (first % tileSize + count - 1) / tileSize = q at hspanned ⊢
    omega
  rcases hcases with h1 | h2 | h3
  · rw [h1]
    exact prefetch_one hF h hW hcount hend hfits h1
  · rw [h2]
    exact prefetch_two hF h hW hcount hend hfits h2 hsafe
  · rw [h3]
    exact prefetch_three hF h hW hcount hend hfits h3 hsafe

end

end Listbrokers.Tiles
