import Listbrokers.Tiles.Prefetch

/-!
# The bases of the window

Where the tiles of the window are in the list is known from their bases alone,
whatever the filler has stored in them (`Based`). The operations on the window
keep it so as long as no fill fails (`based_frame`): a tile that could not be
filled is reset, and its base is 0 then.
-/

namespace Listbrokers.Tiles

open Framework TileWindow

variable {κ α : Type} {tileSize : ℕ} {p : ListThreads κ α tileSize} {a : κ} {n : ℕ}
  {s s' : Sys κ α} {l l' : TiledList α} {W W' : TileWindow} {push keep loc : ItemLocation} {i : Fin 3} {idx q : ℕ}

/-- The base of an active tile. -/
def TiledList.base (l : TiledList α) (loc : ItemLocation) : Option ℕ := (l.active loc).map fun i => (l.hot i).base

/-- The active tiles are the tiles `W` of the list, by their bases. -/
structure Based (tileSize n : ℕ) (l : TiledList α) (W : TileWindow) : Prop where
  size : l.numberOfEntries = n
  inj : ∀ loc loc' i, l.active loc = some i → l.active loc' = some i → loc = loc'
  base : ∀ loc, l.base loc = (W.get loc).map (· * tileSize)
  lt : ∀ loc k, W.get loc = some k → k * tileSize < n

namespace Based

theorem exists_active (h : Based tileSize n l W) {k : ℕ} (hk : W.get loc = some k) :
    ∃ i, l.active loc = some i ∧ (l.hot i).base = k * tileSize := by
  have := h.base loc
  rw [hk, TiledList.base, Option.map_some, Option.map_eq_some_iff] at this
  exact this

theorem exists_get (h : Based tileSize n l W) (hi : l.active loc = some i) :
    ∃ k, W.get loc = some k ∧ (l.hot i).base = k * tileSize := by
  have := h.base loc
  rw [TiledList.base, hi, Option.map_some, eq_comm, Option.map_eq_some_iff] at this
  obtain ⟨k, hk, hbase⟩ := this
  exact ⟨k, hk, hbase.symm⟩

/-- Nothing but the bases of the active tiles counts. -/
theorem congr (h : Based tileSize n l W) (hsize : l'.numberOfEntries = l.numberOfEntries)
    (hactive : l'.active = l.active) (hbase : ∀ loc i, l.active loc = some i → (l'.hot i).base = (l.hot i).base) :
    Based tileSize n l' W where
  size := hsize.trans h.size
  inj := hactive ▸ h.inj
  base loc := by
    rw [← h.base loc, TiledList.base, TiledList.base, hactive]
    cases hi : l.active loc with
    | none => rfl
    | some i => simp only [Option.map_some, hbase loc i hi]
  lt := h.lt

/-! ## Finding an item -/

theorem contains_eq (h : Based tileSize n l W) (htile : 0 < tileSize) (hn : n ≤ 2 ^ 32) :
    l.contains tileSize idx = W.find (idx / tileSize) ∨
      l.contains tileSize idx = none ∧ tileCount tileSize n ≤ idx / tileSize + 1 := by
  have hfind : ∀ loc, ((l.active loc).any fun i => (l.hot i).isTileFor tileSize idx) = true ↔
      W.get loc = some (idx / tileSize) ∧ idx < (idx / tileSize * tileSize + tileSize) % 2 ^ 32 := by
    intro loc
    cases hi : l.active loc with
    | none =>
      have := h.base loc
      rw [TiledList.base, hi, Option.map_none, eq_comm, Option.map_eq_none_iff] at this
      simp [this]
    | some i =>
      obtain ⟨k, hk, hbase⟩ := h.exists_get hi
      rw [Option.any_some, isTileFor_iff htile hbase, hk, Option.some.injEq, eq_comm]
  by_cases hwrap : idx < (idx / tileSize * tileSize + tileSize) % 2 ^ 32
  · left
    unfold TiledList.contains TileWindow.find
    refine congrArg (List.find? · _) (funext fun loc => ?_)
    rw [Bool.eq_iff_iff, hfind, decide_eq_true_iff]
    exact and_iff_left hwrap
  · right
    constructor
    · unfold TiledList.contains
      refine List.find?_eq_none.mpr fun loc _ => ?_
      rw [hfind]
      exact fun hf => hwrap hf.2
    · by_contra hlt
      have hlast := (lt_tileCount htile).mp (Nat.not_le.mp hlt)
      rw [Nat.add_mul, Nat.one_mul] at hlast
      have hmem := (div_eq_iff_mem htile).mp (rfl : idx / tileSize = idx / tileSize)
      rw [Nat.mod_eq_of_lt (by omega)] at hwrap
      exact hwrap hmem.2

end Based

/-! ## Canceling and waiting -/

/-- A tile is canceled and reset, and nothing else of its list changes. -/
theorem cancelAndReset_other [DecidableEq κ] [Inhabited α] {w : Work κ} (hs : cancelAndReset p w s = some ((), s')) :
    (s'.lists w.1).active = (s.lists w.1).active ∧ (s'.lists w.1).numberOfEntries = (s.lists w.1).numberOfEntries ∧
      ∀ v, v ≠ w → s'.tile v = s.tile v := by
  obtain ⟨_, s₁, hc, hreset⟩ := Op.bind_eq_some.mp hs
  simp only [cancelFiller, Option.ite_none_right_eq_some, Option.some.injEq, Prod.mk.injEq, true_and] at hc
  obtain ⟨-, rfl⟩ := hc
  cases hreset
  obtain ⟨hactive, hsize⟩ := withoutFiller_lists (p := p) s w
  refine ⟨?_, ?_, fun v hv => ?_⟩
  · rw [(Sys.setTile_lists _ w _).1, hactive]
  · rw [(Sys.setTile_lists _ w _).2, hsize]
  · rw [Sys.setTile_tile_ne _ _ hv]
    exact (withoutFiller_other hv).1

theorem waitEmpty_lists (hs : waitEmptyIfSynchronized p s = some ((), s')) : s'.lists = s.lists := by
  cases hs
  split <;> rfl

/-! ## Sliding -/

namespace Based

/-- The window after rotation by one place, with the tile that was pushed out loaded with tile `q`. -/
theorem rotate (h : Based tileSize n l W) (hp : push ≠ .center) (hk : keep ≠ .center) (hpk : push ≠ keep)
    (hsize : l'.numberOfEntries = l.numberOfEntries) (hactive : l'.active = Tiles.rotate l.active push keep)
    (hother : ∀ i, l.active push ≠ some i → (l'.hot i).base = (l.hot i).base)
    (hpush : ∀ i, l.active push = some i → (l'.hot i).base = q * tileSize) (hq : q * tileSize < n)
    (h₁ : W'.get push = W.center) (h₂ : W'.center = W.get keep) (h₃ : W'.get keep = (W.get push).map fun _ => q) :
    Based tileSize n l' W' where
  size := hsize.trans h.size
  inj := by
    rw [hactive]
    exact rotate_injective h.inj hp hk hpk
  base loc := by
    have hkept : ∀ loc i, loc ≠ push → l.active loc = some i → (l'.hot i).base = (l.hot i).base :=
      fun loc i hne hi => hother i fun hpi => hne (h.inj loc push i hi hpi)
    rw [TiledList.base, hactive]
    rcases eq_of_three hp hk hpk loc with rfl | rfl | rfl
    · rw [rotate_push l.active hp hpk, h₁, show W.center = W.get .center from rfl, ← h.base, TiledList.base]
      cases hi : l.active .center with
      | none => rfl
      | some i => simp only [Option.map_some, hkept _ i hp.symm hi]
    · rw [rotate_center l.active hk, show W'.get .center = W.get keep from h₂, ← h.base, TiledList.base]
      cases hi : l.active keep with
      | none => rfl
      | some i => simp only [Option.map_some, hkept _ i hpk.symm hi]
    · rw [rotate_keep l.active, h₃]
      have hbase := h.base push
      cases hi : l.active push with
      | none =>
        rw [TiledList.base, hi, Option.map_none, eq_comm, Option.map_eq_none_iff] at hbase
        rw [hbase]
        rfl
      | some i =>
        obtain ⟨k, hget, -⟩ := h.exists_get hi
        rw [hget]
        simp only [Option.map_some, hpush i hi]
  lt loc k hget := by
    rcases eq_of_three hp hk hpk loc with rfl | rfl | rfl
    · rw [h₁] at hget
      exact h.lt .center k hget
    · exact h.lt keep k (h₂.symm.trans hget)
    · rw [h₃, Option.map_eq_some_iff] at hget
      obtain ⟨-, -, rfl⟩ := hget
      exact hq

end Based

/-- `slide` shifts the window by one tile. -/
theorem slide_based [DecidableEq κ] [Inhabited α] (h : Based tileSize n (s.lists a) W) (hp : push ≠ .center)
    (hk : keep ≠ .center) (hpk : push ≠ keep) {k : ℕ} (hkeep : W.get keep = some k)
    (hadj : indexInAdjacentTile tileSize idx n (some keep) / tileSize = q)
    (hlt : indexInAdjacentTile tileSize idx n (some keep) < n) (h₁ : W'.get push = W.center)
    (h₂ : W'.center = W.get keep) (h₃ : W'.get keep = (W.get push).map fun _ => q)
    (hs : slide p a idx n push keep s = some ((), s')) : Based tileSize n (s'.lists a) W' := by
  have hq : q * tileSize < n := by
    have := Nat.div_mul_le_self (indexInAdjacentTile tileSize idx n (some keep)) tileSize
    rw [hadj] at this
    omega
  obtain ⟨ik, hik, -⟩ := h.exists_active hkeep
  have hcenter : Tiles.rotate (s.lists a).active push keep .center = some ik := (rotate_center _ hk).trans hik
  obtain ⟨_, _, hl, hs⟩ := Op.bind_eq_some.mp hs
  cases hl
  obtain ⟨_, s₁, hs₁, hs⟩ := Op.bind_eq_some.mp hs
  cases hs₁
  obtain ⟨_, s₁, hcheck, hs⟩ := Op.bind_eq_some.mp hs
  simp only [check, Option.ite_none_right_eq_some, Option.some.injEq, Prod.mk.injEq, true_and] at hcheck
  obtain ⟨-, rfl⟩ := hcheck
  have hnoop : ∀ {u u' : Sys κ α}, (u.lists a).active = Tiles.rotate (s.lists a).active push keep →
      materializeCenterTile tileSize a idx u = some ((), u') → u' = u := by
    intro u u' hu hu'
    obtain ⟨_, _, hl, hu'⟩ := Op.bind_eq_some.mp hu'
    cases hl
    rw [hu, hcenter] at hu'
    cases hu'
    rfl
  set s₁ := s.setList a { s.lists a with active := Tiles.rotate (s.lists a).active push keep } with hs₁
  have hl₁ : s₁.lists a = { s.lists a with active := Tiles.rotate (s.lists a).active push keep } := by
    simp [hs₁, Sys.setList]
  have hactive₁ : (s₁.lists a).active = Tiles.rotate (s.lists a).active push keep := by rw [hl₁]
  cases htemp : (s.lists a).active push with
  | none =>
    rw [htemp] at hs
    obtain ⟨_, s₂, hs₂, hs⟩ := Op.bind_eq_some.mp hs
    rw [hnoop hactive₁ hs₂] at hs
    rw [waitEmpty_lists hs]
    refine h.rotate hp hk hpk (by rw [hl₁]) hactive₁ (fun i _ => by rw [hl₁]) (fun i hi => ?_) hq h₁ h₂ h₃
    rw [htemp] at hi
    cases hi
  | some temp =>
    rw [htemp] at hs
    dsimp only at hs
    obtain ⟨t, -, hbase⟩ := h.exists_get htemp
    have hfor : ((s.lists a).hot temp).isTileFor tileSize (indexInAdjacentTile tileSize idx n (some keep)) = true →
        ((s.lists a).hot temp).base = q * tileSize := by
      rw [isTileFor_iff p.tileSize_pos hbase, hadj]
      rintro ⟨rfl, -⟩
      exact hbase
    split at hs
    · next hshort =>
      simp only [check, Option.ite_none_right_eq_some, Option.some.injEq, Prod.mk.injEq, true_and] at hs
      obtain ⟨-, rfl⟩ := hs
      refine h.rotate hp hk hpk (by rw [hl₁]) hactive₁ (fun i _ => by rw [hl₁]) (fun i hi => ?_) hq h₁ h₂ h₃
      cases htemp.symm.trans hi
      rw [hl₁]
      exact hfor hshort
    · obtain ⟨_, _, hfree, hs⟩ := Op.bind_eq_some.mp hs
      cases hfree
      obtain ⟨_, _, hcheck, hs⟩ := Op.bind_eq_some.mp hs
      simp only [check, Option.ite_none_right_eq_some, Option.some.injEq, Prod.mk.injEq, true_and] at hcheck
      obtain ⟨-, rfl⟩ := hcheck
      obtain ⟨_, s₂, hs₂, hs⟩ := Op.bind_eq_some.mp hs
      obtain ⟨hactive₂, hsize₂, hother₂⟩ := cancelAndReset_other hs₂
      obtain ⟨_, s₃, hs₃, hs⟩ := Op.bind_eq_some.mp hs
      rw [hnoop (hactive₂.trans hactive₁) hs₃] at hs
      obtain ⟨_, s₄, hs₄, hs⟩ := Op.bind_eq_some.mp hs
      rw [materializeTile_eq, Option.ite_none_right_eq_some, Option.some.injEq, Prod.mk.injEq] at hs₄
      obtain ⟨-, -, rfl⟩ := hs₄
      rw [waitEmpty_lists hs]
      have hhot : ∀ i, (((s₂.materialized tileSize (a, temp) none
          (indexInAdjacentTile tileSize idx n (some keep))).lists a).hot i).base =
          if i = temp then q * tileSize else ((s.lists a).hot i).base := by
        intro i
        have htile : (s₂.materialized tileSize (a, temp) none
            (indexInAdjacentTile tileSize idx n (some keep))).tile (a, i) = _ := s₂.materialized_tile _ _ _ _
        by_cases hi : i = temp
        · subst hi
          rw [if_pos rfl] at htile ⊢
          rw [← hadj, ← base_eq]
          exact congrArg ListTile.base htile
        · have hne : (a, i) ≠ (a, temp) := fun e => hi (by simpa using e)
          have hkept := hother₂ (a, i) hne
          rw [if_neg hne, hkept] at htile
          rw [if_neg hi]
          refine (congrArg ListTile.base htile).trans ?_
          rw [Sys.tile, hl₁]
      refine h.rotate hp hk hpk ?_ ?_ (fun i hi => ?_) (fun i hi => ?_) hq h₁ h₂ h₃
      · simpa [Sys.materialized, Sys.setList, hl₁] using hsize₂
      · simpa [Sys.materialized, Sys.setList, hl₁] using hactive₂
      · have hne : i ≠ temp := fun e => hi (e ▸ htemp)
        rw [hhot, if_neg hne]
      · cases htemp.symm.trans hi
        rw [hhot, if_pos rfl]

/-! ## Filling the window -/

theorem cancelQueued_size [DecidableEq κ] [Inhabited α] {queue : List (Work κ)}
    (hs : cancelQueued tileSize queue s = some s') :
    (s'.lists a).numberOfEntries = (s.lists a).numberOfEntries := by
  induction queue generalizing s with
  | nil => cases hs; rfl
  | cons w rest ih =>
    rw [cancelQueued, Option.ite_none_right_eq_some] at hs
    rw [ih hs.2]
    by_cases ha : a = w.1
    · subst ha
      exact (Sys.setTile_lists _ w _).2
    · rw [Sys.setTile_lists_ne _ _ ha]

/-- `clear` leaves no active tile. -/
theorem clear_based [DecidableEq κ] [Inhabited α] (hsize : (s.lists a).numberOfEntries = n)
    (hs : clear p a s = some ((), s')) :
    Based tileSize n (s'.lists a) ⟨none, none, none⟩ ∧ (s'.lists a).active = fun _ => none := by
  obtain ⟨_, s₁, hs₁, hs⟩ := Op.bind_eq_some.mp hs
  obtain ⟨_, s₂, hs₂, hs⟩ := Op.bind_eq_some.mp hs
  cases hs
  have hround : ∀ (i : Fin 3) (u u' : Sys κ α) (r : Unit),
      (do if !(← isFree (a, i)) then cancelAndReset p (a, i) : Op (Sys κ α) Unit) u = some (r, u') →
        (u'.lists a).numberOfEntries = (u.lists a).numberOfEntries := by
    intro i u u' r hu
    obtain ⟨_, _, hfree, hu⟩ := Op.bind_eq_some.mp hu
    cases hfree
    split at hu
    · exact (cancelAndReset_other hu).2.1
    · cases hu
      rfl
  have h₁ : (s₁.lists a).numberOfEntries = (s.lists a).numberOfEntries := by
    simp only [cancelAllQueuedFillers, Option.map_eq_some_iff, Prod.mk.injEq, true_and] at hs₁
    obtain ⟨u, hu, rfl⟩ := hs₁
    have hsize : (u.lists a).numberOfEntries = (s.lists a).numberOfEntries := cancelQueued_size hu
    exact hsize
  have h₂ : (s₂.lists a).numberOfEntries = (s₁.lists a).numberOfEntries := by
    obtain ⟨_, u₁, hu₁, hs₂⟩ := Op.bind_eq_some.mp hs₂
    obtain ⟨_, u₂, hu₂, hs₂⟩ := Op.bind_eq_some.mp hs₂
    obtain ⟨_, u₃, hu₃, hs₂⟩ := Op.bind_eq_some.mp hs₂
    cases hs₂
    rw [hround 2 _ _ _ hu₃, hround 1 _ _ _ hu₂, hround 0 _ _ _ hu₁]
  have hactive : ((s₂.setList a { s₂.lists a with active := fun _ => none }).lists a).active = fun _ => none := by
    simp [Sys.setList]
  refine ⟨⟨?_, by rw [hactive]; simp, fun loc => ?_, fun loc k hk => by cases loc <;> cases hk⟩, hactive⟩
  · rw [← hsize, ← h₁, ← h₂]
    simp [Sys.setList]
  · rw [TiledList.base, hactive]
    cases loc <;> rfl

/-- A tile that is not in the window gets a place in it. -/
theorem Based.materialize [DecidableEq κ] (h : Based tileSize n (s.lists a) W) (W' : TileWindow) (i : Fin 3)
    (loc : ItemLocation) (hfresh : ∀ l, (s.lists a).active l ≠ some i) (hidx : idx < n)
    (hW : ∀ l, W'.get l = if l = loc then some (idx / tileSize) else W.get l)
    (hs : materializeTile tileSize (a, i) (some loc) idx s = some ((), s')) :
    Based tileSize n (s'.lists a) W' ∧ (s'.lists a).active = Function.update (s.lists a).active loc (some i) := by
  rw [materializeTile_eq, Option.ite_none_right_eq_some, Option.some.injEq, Prod.mk.injEq] at hs
  obtain ⟨-, -, rfl⟩ := hs
  have hactive : ((s.materialized tileSize (a, i) (some loc) idx).lists a).active =
      Function.update (s.lists a).active loc (some i) := by
    simp [Sys.materialized, Sys.setList]
  have hhot : ∀ j, (((s.materialized tileSize (a, i) (some loc) idx).lists a).hot j).base =
      if j = i then idx / tileSize * tileSize else ((s.lists a).hot j).base := by
    intro j
    have htile : (s.materialized tileSize (a, i) (some loc) idx).tile (a, j) = _ := s.materialized_tile _ _ _ _
    by_cases hj : j = i
    · subst hj
      rw [if_pos rfl] at htile ⊢
      rw [← base_eq]
      exact congrArg ListTile.base htile
    · have hne : (a, j) ≠ (a, i) := fun e => hj (by simpa using e)
      rw [if_neg hne] at htile
      rw [if_neg hj]
      exact congrArg ListTile.base htile
  refine ⟨⟨?_, fun l l' j hl hl' => ?_, fun l => ?_, fun l k hk => ?_⟩, hactive⟩
  · rw [← h.size]
    simp [Sys.materialized, Sys.setList]
  · rw [hactive] at hl hl'
    by_cases hll : l = loc
    · by_cases hll' : l' = loc
      · rw [hll, hll']
      · rw [hll, Function.update_self] at hl
        rw [Function.update_of_ne hll'] at hl'
        exact absurd (hl'.trans hl.symm) (hfresh l')
    · rw [Function.update_of_ne hll] at hl
      by_cases hll' : l' = loc
      · rw [hll', Function.update_self] at hl'
        exact absurd (hl.trans hl'.symm) (hfresh l)
      · rw [Function.update_of_ne hll'] at hl'
        exact h.inj l l' j hl hl'
  · rw [TiledList.base, hactive, hW]
    by_cases hll : l = loc
    · rw [if_pos hll, hll, Function.update_self]
      simp only [Option.map_some, hhot, if_pos]
    · rw [if_neg hll, Function.update_of_ne hll, ← h.base, TiledList.base]
      cases hl : (s.lists a).active l with
      | none => rfl
      | some j =>
        have hj : j ≠ i := fun e => hfresh l (e ▸ hl)
        simp only [Option.map_some, hhot, if_neg hj]
  · rw [hW] at hk
    by_cases hll : l = loc
    · rw [if_pos hll] at hk
      cases hk
      have := Nat.div_mul_le_self idx tileSize
      omega
    · rw [if_neg hll] at hk
      exact h.lt l k hk

/-- `fill` loads the tile of `idx` into the center, and its neighbours. -/
theorem fill_based [DecidableEq κ] [Inhabited α] (hsize : (s.lists a).numberOfEntries = n) (hidx : idx < n)
    (hs : fill p a idx n s = some ((), s')) :
    Based tileSize n (s'.lists a) (.filled (tileCount tileSize n) (idx / tileSize)) := by
  have htile := p.tileSize_pos
  obtain ⟨h1, h2⟩ := lt_tileCount_of_size (n := n) htile
  obtain ⟨_, s₁, hs₁, hs⟩ := Op.bind_eq_some.mp hs
  obtain ⟨b₁, hactive₁⟩ := clear_based hsize hs₁
  rw [if_neg (by omega)] at hs
  obtain ⟨_, s₂, hs₂, hs⟩ := Op.bind_eq_some.mp hs
  obtain ⟨b₂, hactive₂⟩ := b₁.materialize ⟨none, some (idx / tileSize), none⟩ 0 .center (by simp [hactive₁]) hidx
    (fun l => by cases l <;> rfl) hs₂
  unfold TileWindow.filled
  by_cases hn1 : n ≤ tileSize
  · rw [if_pos hn1] at hs
    rw [waitEmpty_lists hs, if_neg (by omega), if_neg (by omega)]
    exact b₂
  · obtain ⟨hd, hdlt⟩ := fillDown_eq htile (by omega) hidx
    rw [if_neg hn1] at hs
    obtain ⟨_, s₃, hs₃, hs⟩ := Op.bind_eq_some.mp hs
    obtain ⟨b₃, hactive₃⟩ := b₂.materialize
      ⟨none, some (idx / tileSize), some (succTile (tileCount tileSize n) (idx / tileSize))⟩ 1 .down
      (fun l => by rw [hactive₂, hactive₁]; cases l <;> simp [Function.update]) hdlt
      (fun l => by rw [hd]; cases l <;> rfl) hs₃
    by_cases hn2 : n ≤ 2 * tileSize
    · rw [if_pos hn2] at hs
      rw [waitEmpty_lists hs, if_neg (by omega), if_pos (by omega)]
      exact b₃
    · obtain ⟨hu, hult⟩ := fillUp_eq htile hidx
      rw [if_neg hn2] at hs
      obtain ⟨_, s₄, hs₄, hs⟩ := Op.bind_eq_some.mp hs
      obtain ⟨b₄, -⟩ := b₃.materialize
        ⟨some (predTile (tileCount tileSize n) (idx / tileSize)), some (idx / tileSize),
          some (succTile (tileCount tileSize n) (idx / tileSize))⟩ 2 .up
        (fun l => by rw [hactive₃, hactive₂, hactive₁]; cases l <;> simp [Function.update]) hult
        (fun l => by rw [hu]; cases l <;> rfl) hs₄
      rw [waitEmpty_lists hs, if_pos (by omega), if_pos (by omega)]
      exact b₄

/-- By their bases, the active tiles are a window of the list. -/
theorem based_frame [DecidableEq κ] [Inhabited α] (hn : n ≤ 2 ^ 32) : Frame p a n False fun s W =>
    Based tileSize n (s.lists a) W where
  size h := h.size
  finds h _ := h.contains_eq p.tileSize_pos hn
  slides h hp hk hpk _ hkeep hadj hlt h₁ h₂ h₃ :=
    ⟨False.elim, fun _ _ hs => slide_based h hp hk hpk hkeep hadj hlt h₁ h₂ h₃ hs⟩
  fills h hidx := ⟨False.elim, fun _ _ hs => fill_based h.size hidx hs⟩

/-! ## The workers -/

/-- A fill that does not fail leaves the base of the tile alone, and so does one of the first tile. -/
theorem doFillTile_base [Inhabited α] {t : ListTile α} {f : Filler tileSize α} {mayContinue : Bool}
    (hf : t.base ≠ 0 → (f.fill t.base mayContinue).failed = false) : (t.doFillTile f mayContinue).2.base = t.base := by
  unfold ListTile.doFillTile
  dsimp only
  by_cases hfail : (f.fill t.base mayContinue).failed = true
  · have hzero : t.base = 0 := by
      by_contra hne
      rw [hf hne] at hfail
      cases hfail
    rw [if_pos hfail, hzero]
    rfl
  · rw [if_neg hfail]
    split <;> rfl

theorem finish_based [DecidableEq κ] [Inhabited α] {w : Work κ} (h : Based tileSize n (s.lists a) W)
    (hf : w.1 = a → (s.tile w).base ≠ 0 → ((p.filler a).fill (s.tile w).base true).failed = false) :
    Based tileSize n ((s.finish p w true).lists a) W := by
  obtain ⟨hactive, hsize⟩ := s.finish_lists w true a (p := p)
  refine h.congr hsize hactive fun loc i _ => ?_
  change ((s.finish p w true).tile (a, i)).base = (s.tile (a, i)).base
  by_cases hw : (a, i) = w
  · subst hw
    rw [Sys.finish, Sys.setTile_tile]
    exact doFillTile_base (hf rfl)
  · rw [Sys.finish, Sys.setTile_tile_ne _ _ hw]
    rfl

end Listbrokers.Tiles
