import Listbrokers.Framework.Lts
import Listbrokers.Tiles.Prefetch

/-!
# A tiled list reads like a plain list

From a contiguous window, `access` returns the item asked for, and
`for_each_item` applies its function to the items of its range in order, as it
does on a plain list (`forEachPlain`). Both leave the window contiguous, so that
this holds after every history of calls, as long as no call makes the window
slide in one of the ways that `prefetch` gets wrong (`CallSafe`).
-/

namespace Listbrokers.Tiles

open Framework TileWindow

variable {κ α β : Type} [DecidableEq κ] [Inhabited α] {tileSize : ℕ} {p : ListThreads κ α tileSize} {a : κ}
  {item : ℕ → α} {n : ℕ} {s s' : Sys κ α} {W W' : TileWindow}

/-- Item `i` of the list. -/
def plainItem (item : ℕ → α) (i : ℕ) : ListItem α := ⟨.invalid, item i⟩

/-- `for_each_item` on a plain list: `left` items from `i` on, until `apply` returns `false`. -/
def forEachPlain (item : ℕ → α) (apply : β → ℕ → ListItem α → Bool × β) : ℕ → ℕ → β → β
  | 0, _, x => x
  | left + 1, i, x =>
    let r := apply x i (plainItem item i)
    if r.1 then forEachPlain item apply left (i + 1) r.2 else r.2

section

variable (hf : (p.filler a).Fills item n)

include hf

/-- The number of items in a tile of the window. -/
theorem sizeOfTile_shows (h : Shows a tileSize item n s W) {loc : ItemLocation} {k : ℕ} (hk : W.get loc = some k) :
    ∃ i s', (s.lists a).active loc = some i ∧ sizeOfTile p a i s = some (.ok (min tileSize (n - k * tileSize)), s') ∧
      Shows a tileSize item n s' W ∧ k * tileSize < n := by
  obtain ⟨active, slots, h⟩ := h
  obtain ⟨i, hi, hslot⟩ := h.exists_active hk
  obtain ⟨s', hs', c', hhas⟩ := waitForReadyState_content hf h.content hslot
  have hlt : k * tileSize < n := by
    have := h.content.slot i
    rw [hslot] at this
    exact this.1
  have hsize : sizeOfTile p a i s = some (.ok ((s'.lists a).hot i).storedItemsCount, s') := by
    rw [sizeOfTile, Op.bind_of_some hs']
    rfl
  rw [show ((s'.lists a).hot i).storedItemsCount = _ from hhas.stored] at hsize
  exact ⟨i, s', h.content.active_eq ▸ hi, hsize, ⟨active, slots, { h with content := c' }⟩, hlt⟩

/-- An item of a tile of the window. -/
theorem getListItem_shows (h : Shows a tileSize item n s W) {loc : ItemLocation} {k j : ℕ} (hk : W.get loc = some k)
    (hj : j < tileSize) (hlt : k * tileSize + j < n) :
    ∃ i s', (s.lists a).active loc = some i ∧ ((s.lists a).hot i).base = k * tileSize ∧
      getListItemByRawIndex p a i j s = some (.ok (plainItem item (k * tileSize + j)), s') ∧
      Shows a tileSize item n s' W := by
  obtain ⟨active, slots, h⟩ := h
  obtain ⟨i, hi, hslot⟩ := h.exists_active hk
  obtain ⟨s', hs', c', hhas⟩ := waitForReadyState_content hf h.content hslot
  have hbase : ((s.lists a).hot i).base = k * tileSize := by
    have := h.content.slot i
    rw [hslot] at this
    exact this.2.1
  have hitem : getListItemByRawIndex p a i j s = some (.ok (((s'.lists a).hot i).items j), s') := by
    rw [getListItemByRawIndex, Op.bind_of_some hs']
    rfl
  rw [show ((s'.lists a).hot i).items j = _ from hhas.items j (by omega)] at hitem
  exact ⟨i, s', h.content.active_eq ▸ hi, hbase, hitem, ⟨active, slots, { h with content := c' }⟩⟩

/-! ## operator[] -/

/-- `operator[]` returns the item if `prefetch` has brought its tile to the center. -/
theorem access_of_prefetch (hsize : (s.lists a).numberOfEntries = n) {idx : ℕ} (hidx : idx < n)
    (hs : prefetch p a idx 1 n true s = some (.ok true, s')) (h : Shows a tileSize item n s' W)
    (hc : W.center = some (idx / tileSize)) :
    ∃ s'', access p a idx s = some (.ok (plainItem item idx), s'') ∧ Shows a tileSize item n s'' W := by
  have hdiv := Nat.div_add_mod' idx tileSize
  obtain ⟨i, s₂, hi, hbase, hitem, h₂⟩ := getListItem_shows hf h (show W.get .center = _ from hc)
    (Nat.mod_lt idx p.tileSize_pos) (by omega)
  rw [hdiv] at hitem
  refine ⟨s₂, ?_, h₂⟩
  have htheList : theList a s = some (s.lists a, s) := rfl
  have htheList' : theList a s' = some (s'.lists a, s') := rfl
  rw [access, Op.bind_of_some htheList, hsize, if_neg (by omega), Op.bind_of_some hs]
  change getListItemUnsafe p a idx s' = _
  rw [getListItemUnsafe, Op.bind_of_some htheList', hi]
  change getListItemByRawIndex p a i (idx - ((s'.lists a).hot i).base) s' = _
  rw [hbase, show idx - idx / tileSize * tileSize = idx % tileSize by omega]
  exact hitem

/-- `operator[]` returns the item, brings its tile to the center, and leaves the window contiguous. -/
theorem access_shows (hbound : tileCount tileSize n * tileSize < 2 ^ 32) (h : Shows a tileSize item n s W)
    (hW : Contiguous (tileCount tileSize n) W) {idx : ℕ} (hidx : idx < n)
    (hsafe : (s.lists a).AccessSafe tileSize idx) :
    ∃ s' W', access p a idx s = some (.ok (plainItem item idx), s') ∧ Shows a tileSize item n s' W' ∧
      Contiguous (tileCount tileSize n) W' ∧ W'.center = some (idx / tileSize) := by
  obtain ⟨_, s₁, hs₁, rfl, W₁, h₁, hW₁, hc₁⟩ := (prefetch_access (shows_frame hf hbound) h hW hidx hsafe).exists_some
  obtain ⟨s₂, hs₂, h₂⟩ := access_of_prefetch hf h.size hidx hs₁ h₁ hc₁
  exact ⟨s₂, W₁, hs₂, h₂, hW₁, hc₁⟩

section

omit [DecidableEq κ] [Inhabited α]

omit hf in
/-- After an access, the next item can be accessed without sliding down from a dangling index. -/
theorem accessSafe_succ (htile : 0 < tileSize) (hbound : tileCount tileSize n * tileSize < 2 ^ 32)
    (h : Shows a tileSize item n s W) (hW : Contiguous (tileCount tileSize n) W) {idx : ℕ}
    (hc : W.center = some (idx / tileSize)) : (s.lists a).AccessSafe tileSize (idx + 1) := by
  intro hdown _ hd
  rw [h.contains_eq htile hbound] at hdown
  have hne : (idx + 1) / tileSize ≠ idx / tileSize := fun he => by
    rw [he, find_center hW hc] at hdown
    cases hdown
  have hdvd : tileSize ∣ idx + 1 := by
    by_contra hn
    exact hne (Nat.succ_div_of_not_dvd hn)
  have hmul := Nat.div_mul_cancel hdvd
  obtain ⟨hle, hlt⟩ := hd
  rw [Nat.add_mul, Nat.one_mul, hmul] at hlt
  omega

end

theorem forEachAccessed_shows (hbound : tileCount tileSize n * tileSize < 2 ^ 32)
    (apply : β → ℕ → ListItem α → Bool × β) (left : ℕ) {i : ℕ} (x : β) (h : Shows a tileSize item n s W)
    (hW : Contiguous (tileCount tileSize n) W) (hend : i + left ≤ n)
    (hsafe : 0 < left → (s.lists a).AccessSafe tileSize i) :
    ∃ s' W', forEachAccessed p a apply left i x s = some ((.ok, forEachPlain item apply left i x), s') ∧
      Shows a tileSize item n s' W' ∧ Contiguous (tileCount tileSize n) W' := by
  induction left generalizing i x s W with
  | zero => exact ⟨s, W, rfl, h, hW⟩
  | succ left ih =>
    obtain ⟨s₁, W₁, hs₁, h₁, hW₁, hc₁⟩ := access_shows hf hbound h hW (by omega : i < n) (hsafe (by omega))
    rw [forEachAccessed, Op.bind_of_some hs₁, forEachPlain]
    dsimp only
    split
    · exact ih _ h₁ hW₁ (by omega) fun _ => accessSafe_succ p.tileSize_pos hbound h₁ hW₁ hc₁
    · exact ⟨s₁, W₁, rfl, h₁, hW₁⟩

/-! ## The iterator -/

namespace ConstIterator

/-- `find_first` finds the first item of the next tile in the window, if there is one. -/
theorem findFirst_shows (tiles : List ItemLocation) (e : ListError) (h : Shows a tileSize item n s W) :
    ∃ it s', findFirst p a tiles 0 e s = some (it, s') ∧ Shows a tileSize item n s' W ∧
      (tiles.filterMap W.get = [] → it.tiles = []) ∧
        ∀ k ks, tiles.filterMap W.get = k :: ks → ∃ loc rest, it.tiles = loc :: rest ∧ it.idx = 0 ∧
        W.get loc = some k ∧ rest.filterMap W.get = ks := by
  have htile := p.tileSize_pos
  induction tiles with
  | nil => exact ⟨_, s, rfl, h, fun _ => rfl, fun k ks hk => by cases hk⟩
  | cons loc rest ih =>
    have htheList : theList a s = some (s.lists a, s) := rfl
    rw [findFirst, Op.bind_of_some htheList]
    cases hk : W.get loc with
    | none =>
      have hactive : (s.lists a).active loc = none := by
        obtain ⟨active, slots, h⟩ := h
        rw [h.content.active_eq]
        exact h.active_none hk
      rw [hactive]
      obtain ⟨it, s', hs', h', hnone, hit⟩ := ih
      rw [List.filterMap_cons, hk]
      exact ⟨it, s', hs', h', hnone, hit⟩
    | some k =>
      obtain ⟨i, s', hi, hs', h', hlt⟩ := sizeOfTile_shows hf h hk
      rw [hi]
      refine ⟨⟨loc :: rest, 0, e⟩, s', ?_, h', fun hnil => ?_, fun k' ks hks => ?_⟩
      · dsimp only
        rw [Op.bind_of_some hs']
        dsimp only
        rw [if_pos (by omega)]
        rfl
      · rw [List.filterMap_cons, hk] at hnil
        cases hnil
      · rw [List.filterMap_cons, hk] at hks
        obtain ⟨rfl, rfl⟩ := List.cons.inj hks
        exact ⟨loc, rest, rfl, rfl, hk, rfl⟩

/-- The iterator stands at item `i`, and the tiles up to the one of item `last` are still to come. -/
structure At (W : TileWindow) (tileSize : ℕ) (it : ConstIterator) (i last : ℕ) : Prop where
  tiles : ∃ loc rest, it.tiles = loc :: rest ∧ W.get loc = some (i / tileSize) ∧
    List.range' (i / tileSize + 1) (last / tileSize - i / tileSize) <+: rest.filterMap W.get
  idx : it.idx = i % tileSize

theorem start_shows (hbound : tileCount tileSize n * tileSize < 2 ^ 32) (h : Shows a tileSize item n s W)
    {first last : ℕ}
    (hreads : Reads W (first / tileSize) (last / tileSize - first / tileSize + 1)) :
    ∃ it s', start p a first s = some (it, s') ∧ Shows a tileSize item n s' W ∧ it.At W tileSize first last := by
  have htheList : theList a s = some (s.lists a, s) := rfl
  unfold Reads at hreads
  rw [List.range'_succ] at hreads
  obtain ⟨it, s', hs', h', -, hit⟩ := findFirst_shows hf (tilesFrom (W.find (first / tileSize))) .ok h
  obtain ⟨ks, hks⟩ := hreads
  obtain ⟨loc, rest, htiles, -, hget, hrest⟩ := hit _ _ hks.symm
  refine ⟨{ it with idx := first % tileSize }, s', ?_, h', ⟨loc, rest, htiles, hget, ?_⟩, rfl⟩
  · rw [start, Op.bind_of_some htheList, h.contains_eq p.tileSize_pos hbound, Op.bind_of_some hs', htiles]
    simp [Op.pure_apply]
  · rw [hrest]
    exact List.prefix_append _ _

theorem deref_shows (h : Shows a tileSize item n s W) {it : ConstIterator} {i last : ℕ}
    (hat : it.At W tileSize i last) (hi : i < n) :
    ∃ s', it.deref p a s = some (.ok (plainItem item i), s') ∧ Shows a tileSize item n s' W := by
  have hdiv := Nat.div_add_mod' i tileSize
  obtain ⟨⟨loc, rest, htiles, hget, -⟩, hidx⟩ := hat
  obtain ⟨slot, s', hslot, -, hitem, h'⟩ := getListItem_shows hf h hget (Nat.mod_lt i p.tileSize_pos) (by omega)
  have htheList : theList a s = some (s.lists a, s) := rfl
  rw [hdiv] at hitem
  refine ⟨s', ?_, h'⟩
  unfold deref
  rw [htiles]
  dsimp only
  rw [Op.bind_of_some htheList, hslot, hidx]
  exact hitem

theorem next_shows (h : Shows a tileSize item n s W) {it : ConstIterator} {i last : ℕ}
    (hat : it.At W tileSize i last) (hi : i < n) :
    ∃ it' s', it.next p a s = some (.ok it', s') ∧ Shows a tileSize item n s' W ∧
      (i + 1 ≤ last → last < n → it'.At W tileSize (i + 1) last) := by
  have htile := p.tileSize_pos
  have hdiv := Nat.div_add_mod' i tileSize
  have hmod := Nat.mod_lt i htile
  obtain ⟨⟨loc, rest, htiles, hget, hrest⟩, hidx⟩ := hat
  obtain ⟨slot, s₁, hslot, hs₁, h₁, hlt⟩ := sizeOfTile_shows hf h hget
  have htheList : theList a s = some (s.lists a, s) := rfl
  unfold next
  rw [htiles]
  dsimp only
  rw [Op.bind_of_some htheList, hslot]
  dsimp only
  rw [Op.bind_of_some hs₁]
  dsimp only
  by_cases hstay : it.idx + 1 < min tileSize (n - i / tileSize * tileSize)
  · have hsame : (i + 1) / tileSize = i / tileSize := (div_eq_iff_mem htile).mpr (by omega)
    have hmod' : (i + 1) % tileSize = i % tileSize + 1 := by
      have := Nat.div_add_mod' (i + 1) tileSize
      rw [hsame] at this
      omega
    refine ⟨_, s₁, by rw [if_pos hstay]; rfl, h₁, fun _ _ => ⟨⟨loc, rest, rfl, ?_, ?_⟩, ?_⟩⟩
    · rw [hsame]
      exact hget
    · rw [hsame]
      exact hrest
    · rw [hmod', ← hidx]
  · obtain ⟨it', s₂, hs₂, h₂, -, hit⟩ := findFirst_shows hf rest it.firstListError h₁
    refine ⟨it', s₂, ?_, h₂, fun hle hlast => ?_⟩
    · rw [if_neg hstay, Op.bind_of_some hs₂]
      rfl
    · have hmul : (i + 1) / tileSize = i / tileSize + 1 := by
        rw [div_eq_iff_mem htile, Nat.add_mul, Nat.one_mul]
        omega
      have hmod' : (i + 1) % tileSize = 0 := by
        have := Nat.div_add_mod' (i + 1) tileSize
        rw [hmul, Nat.add_mul, Nat.one_mul] at this
        omega
      have hmono := Nat.div_le_div_right (c := tileSize) hle
      rw [hmul] at hmono
      rw [show last / tileSize - i / tileSize = last / tileSize - (i / tileSize + 1) + 1 by omega,
        List.range'_succ] at hrest
      obtain ⟨ks, hks⟩ := hrest
      obtain ⟨loc', rest', htiles', hidx', hget', hrest'⟩ := hit _ _ hks.symm
      refine ⟨⟨loc', rest', htiles', by rw [hmul]; exact hget', ?_⟩, by rw [hidx', hmod']⟩
      rw [hmul, hrest']
      exact List.prefix_append _ _

end ConstIterator

theorem forEachCached_shows (apply : β → ℕ → ListItem α → Bool × β) (left : ℕ) {i last : ℕ} (x : β) {it : ConstIterator}
    (h : Shows a tileSize item n s W) (hat : 0 < left → it.At W tileSize i last) (hend : 0 < left → i + left = last + 1)
    (hlast : last < n) :
    ∃ s', forEachCached p a apply left i it x s = some ((.ok, forEachPlain item apply left i x), s') ∧
      Shows a tileSize item n s' W := by
  induction left generalizing i x s it with
  | zero => exact ⟨s, rfl, h⟩
  | succ left ih =>
    have hend := hend (by omega)
    obtain ⟨s₁, hs₁, h₁⟩ := ConstIterator.deref_shows hf h (hat (by omega)) (by omega)
    obtain ⟨it', s₂, hs₂, h₂, hit'⟩ := ConstIterator.next_shows hf h₁ (hat (by omega)) (by omega)
    rw [forEachCached, Op.bind_of_some hs₁]
    dsimp only
    rw [Op.bind_of_some hs₂, forEachPlain]
    dsimp only
    split
    · exact ih _ h₂ (fun hpos => hit' (by omega) hlast) fun _ => by omega
    · exact ⟨s₂, rfl, h₂⟩

end

/-! ## for_each_item -/

/-- The end of the range of a call on a plain list. -/
def plainEnd (first count n : ℕ) : ℕ := if count = 0 then n else min (first + count) n

theorem endOfRange_le (sizeBits first count size : ℕ) : endOfRange sizeBits first count size ≤ size := by
  unfold endOfRange
  split
  · exact Nat.min_le_right ..
  · exact Nat.le_refl _

theorem endOfRange_eq {sizeBits first count : ℕ} (h : first + count < 2 ^ sizeBits) :
    endOfRange sizeBits first count n = plainEnd first count n := by
  unfold endOfRange plainEnd
  by_cases hc : count = 0
  · rw [if_pos hc, if_neg (by omega)]
  · rw [if_neg hc, if_pos (by omega), Nat.mod_eq_of_lt h]

/-- What the reader of a list does, or a worker in between. -/
inductive Call (α : Type) : Type 1
  | worker
  | access (idx : ℕ)
  | forEach {β : Type} (sizeBits first count : ℕ) (apply : β → ℕ → ListItem α → Bool × β) (x : β)

/-- A call on list `a`. -/
inductive CallStep (p : ListThreads κ α tileSize) (a : κ) : Sys κ α → Call α → Sys κ α → Prop
  | worker {s s' : Sys κ α} (h : WorkerStep p s s') : CallStep p a s .worker s'
  | access {s s' : Sys κ α} {idx : ℕ} {r : Except ListError (ListItem α)} (h : access p a idx s = some (r, s')) :
      CallStep p a s (.access idx) s'
  | forEach {β : Type} {s s' : Sys κ α} {sizeBits first count : ℕ} {apply : β → ℕ → ListItem α → Bool × β} {x : β}
      {r : ListError × β} (h : forEachItem p a sizeBits first count apply x s = some (r, s')) :
      CallStep p a s (.forEach sizeBits first count apply x) s'

/-- The call does not make the window slide the wrong way, or down from a dangling index. -/
def CallSafe (a : κ) (tileSize : ℕ) (s : Sys κ α) : Call α → Prop
  | .worker => True
  | .access idx => idx < (s.lists a).numberOfEntries → (s.lists a).AccessSafe tileSize idx
  | .forEach sizeBits first count _ _ =>
    let left := endOfRange sizeBits first count (s.lists a).numberOfEntries - first
    0 < left →
      (left + first % tileSize ≤ 3 * tileSize → (s.lists a).RangeSafe tileSize first left) ∧
      (3 * tileSize < left + first % tileSize → (s.lists a).AccessSafe tileSize first)

section

variable (hf : (p.filler a).Fills item n) (hbound : tileCount tileSize n * tileSize < 2 ^ 32)

include hf hbound

/-- `for_each_item` from a contiguous window. -/
theorem forEachItem_shows (h : Shows a tileSize item n s W) (hW : Contiguous (tileCount tileSize n) W)
    {sizeBits first count : ℕ} (apply : β → ℕ → ListItem α → Bool × β) (x : β)
    (hsafe : CallSafe a tileSize s (.forEach sizeBits first count apply x)) :
    ∃ s' W', forEachItem p a sizeBits first count apply x s =
        some ((.ok, forEachPlain item apply (endOfRange sizeBits first count n - first) first x), s') ∧
      Shows a tileSize item n s' W' ∧ Contiguous (tileCount tileSize n) W' := by
  have htheList : theList a s = some (s.lists a, s) := rfl
  have hle := endOfRange_le sizeBits first count n
  simp only [CallSafe, h.size] at hsafe
  rw [forEachItem, Op.bind_of_some htheList]
  rw [h.size]
  generalize endOfRange sizeBits first count n = last at hle hsafe ⊢
  by_cases hempty : last ≤ first
  · rw [if_pos hempty, show last - first = 0 by omega]
    exact ⟨s, W, rfl, h, hW⟩
  · obtain ⟨hrange, haccess⟩ := hsafe (by omega)
    rw [if_neg hempty]
    by_cases hfits : last - first + first % tileSize ≤ 3 * tileSize
    · obtain ⟨_, s₁, hs₁, rfl, W₁, h₁, hW₁, hreads⟩ := (prefetch_range (shows_frame hf hbound) h hW
        (by omega : 0 < last - first) (by omega) hfits (hrange hfits)).exists_some
      have hdiv := last_div p.tileSize_pos first (by omega : 0 < last - first)
      rw [show first + (last - first) - 1 = last - 1 by omega] at hdiv
      have hmono := Nat.div_le_div_right (c := tileSize) (by omega : first ≤ last - 1)
      rw [show numberOfSpannedTiles tileSize first (last - first) =
        (last - 1) / tileSize - first / tileSize + 1 by omega] at hreads
      obtain ⟨it, s₂, hs₂, h₂, hat⟩ := ConstIterator.start_shows hf hbound h₁ hreads
      obtain ⟨s₃, hs₃, h₃⟩ := forEachCached_shows hf apply (last - first) x h₂ (fun _ => hat)
        (fun _ => by omega) (by omega)
      refine ⟨s₃, W₁, ?_, h₃, hW₁⟩
      rw [Op.bind_of_some hs₁]
      dsimp only
      rw [Op.bind_of_some hs₂, hs₃]
    · obtain ⟨s₁, W₁, hs₁, h₁, hW₁⟩ := forEachAccessed_shows hf hbound apply (last - first) x h hW (by omega)
        fun _ => haccess (by omega)
      have hrefuse : prefetch p a first (last - first) n false s = some (.ok false, s) := by
        change prefetchFrom p a (s.lists a) first (last - first) n false s = _
        rw [prefetchFrom, if_pos (.inr (by omega))]
        rfl
      refine ⟨s₁, W₁, ?_, h₁, hW₁⟩
      rw [Op.bind_of_some hrefuse]
      exact hs₁

/-- Every safe call leaves the window contiguous. -/
theorem callStep_shows {c : Call α} (hs : When (CallStep p a) (CallSafe a tileSize) s c s')
    (h : ∃ W, Shows a tileSize item n s W ∧ Contiguous (tileCount tileSize n) W) :
    ∃ W, Shows a tileSize item n s' W ∧ Contiguous (tileCount tileSize n) W := by
  obtain ⟨hsafe, hstep⟩ := hs
  obtain ⟨W, h, hW⟩ := h
  cases hstep with
  | worker hw => exact ⟨W, Workers.shows hf (.single hw) h, hW⟩
  | @access _ _ idx r ha =>
    by_cases hidx : idx < n
    · obtain ⟨s₁, W₁, hs₁, h₁, hW₁, -⟩ := access_shows hf hbound h hW hidx (hsafe (by rwa [h.size]))
      rw [hs₁] at ha
      cases ha
      exact ⟨W₁, h₁, hW₁⟩
    · have htheList : theList a s = some (s.lists a, s) := rfl
      rw [access, Op.bind_of_some htheList, h.size, if_pos (by omega)] at ha
      cases ha
      exact ⟨W, h, hW⟩
  | forEach hfe =>
    obtain ⟨s₁, W₁, hs₁, h₁, hW₁⟩ := forEachItem_shows hf hbound h hW _ _ hsafe
    rw [hs₁] at hfe
    cases hfe
    exact ⟨W₁, h₁, hW₁⟩

/-- After every history of safe calls, a safe call of `for_each_item` delivers what it delivers on a plain list. -/
theorem reads_like_plain_list {numberOfEntries : κ → ℕ} (hn : numberOfEntries a = n) {calls : List (Call α)}
    (hrun : Run (When (CallStep p a) (CallSafe a tileSize)) (.init numberOfEntries) calls s)
    {sizeBits first count : ℕ} (hsize : first + count < 2 ^ sizeBits) (apply : β → ℕ → ListItem α → Bool × β) (x : β)
    (hsafe : CallSafe a tileSize s (.forEach sizeBits first count apply x)) :
    ∃ s', forEachItem p a sizeBits first count apply x s =
      some ((.ok, forEachPlain item apply (plainEnd first count n - first) first x), s') := by
  obtain ⟨W, h, hW⟩ := hrun.invariant (P := fun s => ∃ W, Shows a tileSize item n s W ∧
    Contiguous (tileCount tileSize n) W) (fun s c s' h hs => callStep_shows hf hbound hs h)
    ⟨_, hn ▸ init_shows numberOfEntries item, .empty⟩
  obtain ⟨s', W', hs', -⟩ := forEachItem_shows hf hbound h hW apply x hsafe
  rw [endOfRange_eq hsize] at hs'
  exact ⟨s', hs'⟩

end

/-! ## Histories that are not safe -/

/-- A list of `n` items, where item `i` is `i`. -/
def countingList (tileSize n : ℕ) (h : 0 < tileSize) : ListThreads Unit ℕ tileSize :=
  ⟨fun _ => .succeeding tileSize id n, false, h⟩

/-- A function for `for_each_item` that collects the items with their index. -/
def collectItems (xs : List (ℕ × ℕ)) (i : ℕ) (item : ListItem ℕ) : Bool × List (ℕ × ℕ) := (true, xs ++ [(i, item.data)])

/-- Of five items in tiles of two, item 3 cannot reach the last tile by adding the tile size: the window slides down
to the first tile instead, and delivers item 0 for item 4. Of four items in tiles of one, with item 3 in the center,
the window slides away from the range of items 1 to 3. -/
theorem reads_unlike_plain_list :
    (∃ s, Run (CallStep (countingList 2 5 (by decide)) ()) (.init fun _ => 5) [.access 0, .access 3] s ∧
      (forEachItem (countingList 2 5 (by decide)) () 32 2 3 collectItems [] s).map Prod.fst =
        some (.ok, [(2, 2), (3, 3), (4, 0)])) ∧
    (∃ s, Run (CallStep (countingList 1 4 (by decide)) ()) (.init fun _ => 4) [.access 3] s ∧
      (forEachItem (countingList 1 4 (by decide)) () 32 1 3 collectItems [] s).map Prod.fst = some (.internal, [])) ∧
    forEachPlain id collectItems 3 2 [] = [(2, 2), (3, 3), (4, 4)] ∧
    forEachPlain id collectItems 3 1 [] = [(1, 1), (2, 2), (3, 3)] := by
  have hfirst : (access (countingList 2 5 (by decide)) () 0 (.init fun _ => 5)).any (fun r =>
      (access (countingList 2 5 (by decide)) () 3 r.2).any fun r' =>
        (forEachItem (countingList 2 5 (by decide)) () 32 2 3 collectItems [] r'.2).map Prod.fst =
          some (.ok, [(2, 2), (3, 3), (4, 0)])) = true := by
    decide +kernel
  have hsecond : (access (countingList 1 4 (by decide)) () 3 (.init fun _ => 4)).any (fun r =>
      (forEachItem (countingList 1 4 (by decide)) () 32 1 3 collectItems [] r.2).map Prod.fst =
        some (.internal, [])) = true := by
    decide +kernel
  obtain ⟨r, hr, hfirst⟩ := (Option.any_eq_true _ _).mp hfirst
  obtain ⟨r', hr', hfirst⟩ := (Option.any_eq_true _ _).mp hfirst
  obtain ⟨q, hq, hsecond⟩ := (Option.any_eq_true _ _).mp hsecond
  exact ⟨⟨r'.2, .cons (.access hr) (.cons (.access hr') (.nil _)), of_decide_eq_true hfirst⟩,
    ⟨q.2, .cons (.access hq) (.nil _), of_decide_eq_true hsecond⟩, by decide, by decide⟩

/-- After access to an item, a range over three tiles that begins in the up tile is read as on the plain list. -/
theorem reads_like_plain_list_up : ∃ s s', Run (CallStep (countingList 2 5 (by decide)) ()) (.init fun _ => 5)
    [.access 2] s ∧ forEachItem (countingList 2 5 (by decide)) () 32 1 0 collectItems [] s =
      some ((.ok, [(1, 1), (2, 2), (3, 3), (4, 4)]), s') := by
  have hrun : (access (countingList 2 5 (by decide)) () 2 (.init fun _ => 5)).any (fun r =>
      (r.2.lists ()).contains 2 1 = some .up ∧ (r.2.lists ()).numberOfEntries = 5) = true := by
    decide +kernel
  obtain ⟨r, hr, hrun⟩ := (Option.any_eq_true _ _).mp hrun
  obtain ⟨hup, hsize⟩ := of_decide_eq_true hrun
  have hsafe : CallSafe () 2 (.init fun _ => 5 : Sys Unit ℕ) (.access 2) := fun _ hdown => by cases hdown
  have hsafe' : CallSafe () 2 r.2 (.forEach 32 1 0 collectItems []) := by
    simp only [CallSafe, hsize]
    refine fun _ => ⟨fun _ => ⟨?_, ?_, ?_, ?_⟩, fun h => absurd h (by decide)⟩ <;> simp [hup]
  obtain ⟨s', hs'⟩ := reads_like_plain_list (Filler.succeeding_fills (by decide) id 5) (by decide) rfl
    (.cons ⟨hsafe, .access hr⟩ (.nil _)) (by decide) collectItems [] hsafe'
  exact ⟨r.2, s', .cons (.access hr) (.nil _), hs'⟩

end Listbrokers.Tiles
