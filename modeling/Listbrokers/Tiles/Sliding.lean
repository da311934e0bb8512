import Listbrokers.Tiles.Cycle
import Listbrokers.Tiles.Loaded

/-!
# Sliding and filling the window

The window of list `a` shows tiles of the list (`Shows`) when its active tiles
hold them. `slide` shifts it by one tile, `fill` fills it around a tile, and
`contains` finds the tile of an item in it.
-/

namespace Listbrokers.Tiles

open Framework

variable {κ α : Type} {tileSize : ℕ} {p : ListThreads κ α tileSize} {a : κ}
  {item : ℕ → α} {n : ℕ} {s s' : Sys κ α} {W W' : TileWindow}

/-- The tiles `slots` of list `a` are at the places given by `active`, each at one place, and none is left over. -/
structure Placed (a : κ) (tileSize : ℕ) (item : ℕ → α) (n : ℕ) (s : Sys κ α) (W : TileWindow)
    (active : ItemLocation → Option (Fin 3)) (slots : Fin 3 → Option ℕ) : Prop where
  content : Content a tileSize item n s active slots
  inj : ∀ loc loc' i, active loc = some i → active loc' = some i → loc = loc'
  used : ∀ i, slots i ≠ none ↔ ∃ loc, active loc = some i
  get : ∀ loc, W.get loc = (active loc).bind slots

/-- The window of list `a` shows the tiles `W`. -/
def Shows (a : κ) (tileSize : ℕ) (item : ℕ → α) (n : ℕ) (s : Sys κ α) (W : TileWindow) : Prop :=
  ∃ active slots, Placed a tileSize item n s W active slots

theorem init_shows [Inhabited α] (numberOfEntries : κ → ℕ) (item : ℕ → α) :
    Shows a tileSize item (numberOfEntries a) (.init numberOfEntries) ⟨none, none, none⟩ :=
  ⟨_, _, init_content numberOfEntries item, by simp, by simp, fun loc => by cases loc <;> rfl⟩

theorem Workers.shows [DecidableEq κ] [Inhabited α] (hf : (p.filler a).Fills item n) (hs : Workers p s s')
    (h : Shows a tileSize item n s W) : Shows a tileSize item n s' W := by
  obtain ⟨active, slots, h⟩ := h
  exact ⟨active, slots, { h with content := Workers.content hf hs h.content }⟩

section

variable {active : ItemLocation → Option (Fin 3)} {slots : Fin 3 → Option ℕ} {loc : ItemLocation} {i : Fin 3} {k : ℕ}

theorem Placed.exists_slot (h : Placed a tileSize item n s W active slots) (hi : active loc = some i) :
    ∃ k, slots i = some k ∧ W.get loc = some k := by
  obtain ⟨k, hk⟩ := Option.ne_none_iff_exists'.mp ((h.used i).mpr ⟨loc, hi⟩)
  exact ⟨k, hk, by rw [h.get, hi, Option.bind_some, hk]⟩

theorem Placed.exists_active (h : Placed a tileSize item n s W active slots) (hk : W.get loc = some k) :
    ∃ i, active loc = some i ∧ slots i = some k := by
  rw [h.get, Option.bind_eq_some_iff] at hk
  exact hk

theorem Placed.active_none (h : Placed a tileSize item n s W active slots) (hk : W.get loc = none) :
    active loc = none := by
  by_contra hn
  obtain ⟨i, hi⟩ := Option.ne_none_iff_exists'.mp hn
  obtain ⟨k, -, hk'⟩ := h.exists_slot hi
  rw [hk] at hk'
  cases hk'

/-! ## Finding an item -/

theorem div_eq_iff_mem (htile : 0 < tileSize) {idx : ℕ} :
    idx / tileSize = k ↔ k * tileSize ≤ idx ∧ idx < k * tileSize + tileSize := by
  rw [Nat.div_eq_iff htile]
  omega

/-- The end of a tile may not fit into 32 bits. -/
theorem isTileFor_iff (htile : 0 < tileSize) {t : ListTile α} {idx : ℕ} (hb : t.base = k * tileSize) :
    t.isTileFor tileSize idx = true ↔
      idx / tileSize = k ∧ idx < (idx / tileSize * tileSize + tileSize) % 2 ^ 32 := by
  have hmod := Nat.mod_le (k * tileSize + tileSize) (2 ^ 32)
  rw [div_eq_iff_mem htile, ListTile.isTileFor, hb, Bool.and_eq_true, decide_eq_true_eq, decide_eq_true_eq]
  constructor
  · rintro ⟨hle, hlt⟩
    have hk : idx / tileSize = k := (div_eq_iff_mem htile).mpr ⟨hle, by omega⟩
    exact ⟨⟨hle, by omega⟩, by rw [hk]; exact hlt⟩
  · rintro ⟨hk, hlt⟩
    rw [(div_eq_iff_mem htile).mpr hk] at hlt
    exact ⟨hk.1, hlt⟩

theorem isTileFor_eq (htile : 0 < tileSize) (hbound : tileCount tileSize n * tileSize < 2 ^ 32) {t : ListTile α}
    (hk : k * tileSize < n) (hb : t.base = k * tileSize) (idx : ℕ) :
    t.isTileFor tileSize idx = decide (idx / tileSize = k) := by
  have hend : k * tileSize + tileSize ≤ tileCount tileSize n * tileSize := by
    have := Nat.mul_le_mul_right tileSize (Nat.succ_le_of_lt ((lt_tileCount htile).mpr hk))
    rwa [Nat.succ_mul] at this
  rw [Bool.eq_iff_iff, decide_eq_true_iff, div_eq_iff_mem htile]
  simp only [ListTile.isTileFor, hb, Bool.and_eq_true, decide_eq_true_eq, Nat.mod_eq_of_lt (by omega :
    k * tileSize + tileSize < 2 ^ 32)]

theorem Content.isTileFor (h : Content a tileSize item n s active slots) (htile : 0 < tileSize)
    (hbound : tileCount tileSize n * tileSize < 2 ^ 32) (hi : slots i = some k) (idx : ℕ) :
    ((s.lists a).hot i).isTileFor tileSize idx = decide (idx / tileSize = k) := by
  have hslot := h.slot i
  rw [hi] at hslot
  exact isTileFor_eq htile hbound hslot.1 hslot.2.1 idx

theorem Content.div_of_isTileFor (h : Content a tileSize item n s active slots) (htile : 0 < tileSize)
    (hi : slots i = some k) {idx : ℕ} (hfor : ((s.lists a).hot i).isTileFor tileSize idx = true) :
    idx / tileSize = k := by
  have hslot := h.slot i
  rw [hi] at hslot
  exact ((isTileFor_iff htile hslot.2.1).mp hfor).1

theorem Shows.contains_eq (h : Shows a tileSize item n s W) (htile : 0 < tileSize)
    (hbound : tileCount tileSize n * tileSize < 2 ^ 32) (idx : ℕ) :
    (s.lists a).contains tileSize idx = W.find (idx / tileSize) := by
  obtain ⟨active, slots, h⟩ := h
  unfold TiledList.contains TileWindow.find
  refine congrArg (List.find? · _) (funext fun loc => ?_)
  rw [h.content.active_eq]
  cases hi : active loc with
  | none => simp [h.get, hi]
  | some i =>
    obtain ⟨k, hk, hget⟩ := h.exists_slot hi
    rw [Option.any_some, h.content.isTileFor htile hbound hk, hget]
    simp only [Option.some.injEq, eq_comm]

/-! ## Adjacent tiles -/

/-- The tile above. -/
theorem adjacent_up (htile : 0 < tileSize) (hn : 0 < n) {idx : ℕ} (hidx : idx < n + tileSize) :
    indexInAdjacentTile tileSize idx n (some .up) / tileSize = predTile (tileCount tileSize n) (idx / tileSize) ∧
      indexInAdjacentTile tileSize idx n (some .up) < n := by
  unfold indexInAdjacentTile predTile
  dsimp only
  by_cases hle : tileSize ≤ idx
  · rw [if_pos hle, if_neg (Nat.ne_of_gt (Nat.div_pos hle htile))]
    refine ⟨?_, by omega⟩
    rw [← Nat.sub_mul_div idx tileSize 1, Nat.mul_one]
  · rw [if_neg hle, if_pos (Nat.div_eq_of_lt (by omega))]
    refine ⟨?_, by omega⟩
    rw [tileCount, show n + tileSize - 1 = n - 1 + tileSize by omega, Nat.add_div_right _ htile,
      Nat.succ_sub_one]

/-- Nothing of the tile below the tile of `idx` can be reached by adding the tile size to `idx`. -/
def Dangling (tileSize n idx : ℕ) : Prop := n ≤ idx + tileSize ∧ (idx / tileSize + 1) * tileSize < n

instance (tileSize n idx : ℕ) : Decidable (Dangling tileSize n idx) := inferInstanceAs (Decidable (_ ∧ _))

/-- The tile below, if the index is not dangling. -/
theorem adjacent_down (htile : 0 < tileSize) (hn : 0 < n) {idx : ℕ} (hd : ¬ Dangling tileSize n idx) :
    indexInAdjacentTile tileSize idx n (some .down) / tileSize = succTile (tileCount tileSize n) (idx / tileSize) ∧
      indexInAdjacentTile tileSize idx n (some .down) < n := by
  unfold indexInAdjacentTile succTile
  dsimp only
  by_cases hlt : idx + tileSize < n
  · have hm : idx / tileSize + 1 < tileCount tileSize n := by
      rw [← Nat.add_div_right _ htile]
      exact div_lt_tileCount htile hlt
    rw [if_pos hlt, if_pos hm, Nat.add_div_right _ htile]
    exact ⟨rfl, hlt⟩
  · have hm : ¬ idx / tileSize + 1 < tileCount tileSize n := by
      rw [lt_tileCount htile]
      exact fun h => hd ⟨by omega, h⟩
    rw [if_neg hlt, if_neg hm]
    exact ⟨Nat.zero_div _, hn⟩

end

/-! ## Sliding by one tile -/

section

variable {push keep : ItemLocation}

theorem rotate_push {β : Type} (f : ItemLocation → β) (hp : push ≠ .center) (hpk : push ≠ keep) :
    rotate f push keep push = f .center := by
  rw [rotate, Function.update_of_ne hpk, Function.update_of_ne hp, Function.update_self]

theorem rotate_center {β : Type} (f : ItemLocation → β) (hk : keep ≠ .center) :
    rotate f push keep .center = f keep := by
  rw [rotate, Function.update_of_ne hk.symm, Function.update_self]

theorem rotate_keep {β : Type} (f : ItemLocation → β) : rotate f push keep keep = f push := by
  rw [rotate, Function.update_self]

/-- The three places. -/
theorem eq_of_three (hp : push ≠ .center) (hk : keep ≠ .center) (hpk : push ≠ keep) (loc : ItemLocation) :
    loc = push ∨ loc = .center ∨ loc = keep := by
  cases push <;> cases keep <;> cases loc <;> simp at *

/-- After rotation each tile is at one place. -/
theorem rotate_injective {active : ItemLocation → Option (Fin 3)}
    (hinj : ∀ loc loc' i, active loc = some i → active loc' = some i → loc = loc') (hp : push ≠ .center)
    (hk : keep ≠ .center) (hpk : push ≠ keep) (loc loc' : ItemLocation) (i : Fin 3)
    (hl : rotate active push keep loc = some i) (hl' : rotate active push keep loc' = some i) : loc = loc' := by
  have hpush := rotate_push active hp hpk
  have hcenter : rotate active push keep .center = active keep := rotate_center active hk
  have hkeep : rotate active push keep keep = active push := rotate_keep active
  rcases eq_of_three hp hk hpk loc with rfl | rfl | rfl <;>
    rcases eq_of_three hp hk hpk loc' with rfl | rfl | rfl <;>
    simp only [hpush, hcenter, hkeep] at hl hl' <;>
    first
      | rfl
      | exact absurd (hinj _ _ _ hl hl') (by first | assumption | (apply Ne.symm; assumption))

/-- After rotation the tiles are the same, at other places. -/
theorem Placed.rotate {active : ItemLocation → Option (Fin 3)} {slots : Fin 3 → Option ℕ}
    (h : Placed a tileSize item n s W active slots) (hp : push ≠ .center) (hk : keep ≠ .center) (hpk : push ≠ keep) :
    (∀ loc loc' i, Tiles.rotate active push keep loc = some i → Tiles.rotate active push keep loc' = some i →
      loc = loc') ∧ ∀ i, slots i ≠ none ↔ ∃ loc, Tiles.rotate active push keep loc = some i := by
  have hpush := rotate_push active hp hpk
  have hcenter : Tiles.rotate active push keep .center = active keep := rotate_center active hk
  have hkeep : Tiles.rotate active push keep keep = active push := rotate_keep active
  constructor
  · exact rotate_injective h.inj hp hk hpk
  · intro i
    rw [h.used]
    constructor
    · rintro ⟨loc, hi⟩
      rcases eq_of_three hp hk hpk loc with rfl | rfl | rfl
      · exact ⟨keep, hkeep.trans hi⟩
      · exact ⟨push, hpush.trans hi⟩
      · exact ⟨.center, hcenter.trans hi⟩
    · rintro ⟨loc, hi⟩
      rcases eq_of_three hp hk hpk loc with rfl | rfl | rfl
      · exact ⟨.center, hpush.symm.trans hi⟩
      · exact ⟨keep, hcenter.symm.trans hi⟩
      · exact ⟨push, hkeep.symm.trans hi⟩

theorem setActive_content [DecidableEq κ] (active' : ItemLocation → Option (Fin 3))
    {active : ItemLocation → Option (Fin 3)} {slots : Fin 3 → Option ℕ} (h : Content a tileSize item n s active slots) :
    ∃ s', setActive a active' s = some ((), s') ∧ Content a tileSize item n s' active' slots := by
  have ht : ∀ v, (s.setList a { s.lists a with active := active' }).tile v = s.tile v := by
    intro v
    by_cases hv : v.1 = a
    · simp [Sys.tile, Sys.setList, hv]
    · simp [Sys.tile, Sys.setList, hv]
  refine ⟨_, rfl, h.wellFormed.modifyList a rfl, ?_, ?_, fun i => ?_⟩
  · simpa [Sys.setList] using h.size
  · simp [Sys.setList]
  · rw [ht]
    exact h.slot i

/-- There is a center tile, so `slide` materializes none. -/
theorem materializeCenterTile_eq [DecidableEq κ] {active : ItemLocation → Option (Fin 3)}
    {slots : Fin 3 → Option ℕ} {i : Fin 3} (h : Content a tileSize item n s active slots)
    (hc : active .center = some i) (idx : ℕ) : materializeCenterTile tileSize a idx s = some ((), s) := by
  have htheList : theList a s = some (s.lists a, s) := rfl
  rw [materializeCenterTile, Op.bind_of_some htheList, h.active_eq, hc]
  rfl

/-- `slide` shifts the window by one tile. -/
theorem slide_shows [DecidableEq κ] [Inhabited α] (hf : (p.filler a).Fills item n) (hp : push ≠ .center)
    (hk : keep ≠ .center) (hpk : push ≠ keep) (h : Shows a tileSize item n s W) {c k q idx : ℕ}
    (hc : W.center = some c) (hkeep : W.get keep = some k)
    (hadj : indexInAdjacentTile tileSize idx n (some keep) / tileSize = q)
    (hlt : indexInAdjacentTile tileSize idx n (some keep) < n) (h₁ : W'.get push = W.center)
    (h₂ : W'.center = W.get keep) (h₃ : W'.get keep = (W.get push).map fun _ => q) :
    ∃ s', slide p a idx n push keep s = some ((), s') ∧ Shows a tileSize item n s' W' := by
  obtain ⟨active, slots, h⟩ := h
  have htheList : theList a s = some (s.lists a, s) := rfl
  have hact : (s.lists a).active = active := h.content.active_eq
  obtain ⟨ic, hic, -⟩ := h.exists_active (show W.get .center = some c from hc)
  obtain ⟨ik, hik, hslotk⟩ := h.exists_active hkeep
  obtain ⟨hinj, hused⟩ := h.rotate hp hk hpk
  obtain ⟨s₁, hs₁, c₁⟩ := setActive_content (rotate active push keep) h.content
  have hcenter : rotate active push keep .center = some ik := (rotate_center active hk).trans hik
  have hcheck : check (active .center).isSome s₁ = some ((), s₁) := by simp [check, hic]
  unfold slide
  rw [Op.bind_of_some htheList, hact, Op.bind_of_some hs₁, Op.bind_of_some hcheck]
  cases htemp : active push with
  | none =>
    obtain ⟨s₂, hs₂, c₂⟩ := waitEmpty_content hf c₁
    refine ⟨s₂, ?_, _, _, c₂, hinj, hused, fun loc => ?_⟩
    · dsimp only
      rw [Op.bind_of_some (materializeCenterTile_eq c₁ hcenter idx), hs₂]
    · rcases eq_of_three hp hk hpk loc with rfl | rfl | rfl
      · rw [rotate_push active hp hpk, h₁]
        exact h.get .center
      · rw [rotate_center active hk, ← h.get]
        exact h₂
      · rw [rotate_keep active, h₃, h.get, htemp]
        rfl
  | some temp =>
    obtain ⟨t, ht, hget⟩ := h.exists_slot htemp
    dsimp only
    by_cases hfor : ((s.lists a).hot temp).isTileFor tileSize (indexInAdjacentTile tileSize idx n (some keep)) = true
    · obtain rfl : q = t := hadj ▸ h.content.div_of_isTileFor p.tileSize_pos ht hfor
      refine ⟨s₁, ?_, _, _, c₁, hinj, hused, fun loc => ?_⟩
      · simp [hfor, check, hik]
      · rcases eq_of_three hp hk hpk loc with rfl | rfl | rfl
        · rw [rotate_push active hp hpk, h₁]
          exact h.get .center
        · rw [rotate_center active hk, ← h.get]
          exact h₂
        · rw [rotate_keep active, h₃, hget, htemp, Option.bind_some, ht]
          rfl
    · obtain ⟨s₂, hs₂, c₂⟩ := cancelAndReset_content hf c₁ ht
      obtain ⟨s₃, hs₃, c₃⟩ := materializeTile_content c₂ (Function.update_self temp none slots) hlt none
      dsimp only at c₃
      obtain ⟨s₄, hs₄, c₄⟩ := waitEmpty_content hf c₃
      have hfree : check (!decide (slots temp = none)) s₁ = some ((), s₁) := by simp [check, ht]
      refine ⟨s₄, ?_, _, _, c₄, hinj, fun i => ?_, fun loc => ?_⟩
      · rw [if_neg hfor, Op.bind_of_some (isFree_content c₁ temp), Op.bind_of_some hfree,
          Op.bind_of_some hs₂, Op.bind_of_some (materializeCenterTile_eq c₂ hcenter idx), Op.bind_of_some hs₃, hs₄]
      · rw [← hused, Function.update_idem]
        by_cases hi : i = temp
        · subst hi
          simp [ht]
        · rw [Function.update_of_ne hi]
      · have hne : ∀ loc, loc ≠ push → ∀ i, active loc = some i → i ≠ temp := fun loc hl i hi he =>
          hl (h.inj loc push i hi (he ▸ htemp))
        rw [Function.update_idem]
        rcases eq_of_three hp hk hpk loc with rfl | rfl | rfl
        · rw [rotate_push active hp hpk, h₁, hic, Option.bind_some, Function.update_of_ne (hne _ hp.symm _ hic)]
          have := h.get .center
          rwa [hic, Option.bind_some] at this
        · rw [rotate_center active hk, hik, Option.bind_some, Function.update_of_ne (hne _ hpk.symm _ hik), hslotk,
            ← hkeep]
          exact h₂
        · rw [rotate_keep active, htemp, Option.bind_some, Function.update_self, h₃, hget, hadj]
          rfl

end

/-! ## Filling the window -/

/-- A free tile gets a place in the window. -/
theorem Placed.materialize [DecidableEq κ] {active : ItemLocation → Option (Fin 3)} {slots : Fin 3 → Option ℕ}
    (h : Placed a tileSize item n s W active slots) (W' : TileWindow) (i : Fin 3) (loc : ItemLocation)
    (hi : slots i = none) (hloc : active loc = none) {idx : ℕ} (hidx : idx < n)
    (hW : ∀ l, W'.get l = if l = loc then some (idx / tileSize) else W.get l) :
    ∃ s', materializeTile tileSize (a, i) (some loc) idx s = some ((), s') ∧
      Placed a tileSize item n s' W' (Function.update active loc (some i))
        (Function.update slots i (some (idx / tileSize))) := by
  obtain ⟨s', hs', c⟩ := materializeTile_content h.content hi hidx (some loc)
  have hfresh : ∀ l, active l ≠ some i := fun l hl => (h.used i).mpr ⟨l, hl⟩ hi
  refine ⟨s', hs', c, fun l l' j hl hl' => ?_, fun j => ?_, fun l => ?_⟩
  · by_cases hll : l = loc
    · by_cases hll' : l' = loc
      · rw [hll, hll']
      · rw [hll, Function.update_self] at hl
        rw [Function.update_of_ne hll'] at hl'
        exact absurd (hl'.trans hl.symm) (hfresh l')
    · rw [Function.update_of_ne hll] at hl
      by_cases hll' : l' = loc
      · rw [hll', Function.update_self] at hl'
        exact absurd (hl.trans hl'.symm) (hfresh l)
      · rw [Function.update_of_ne hll'] at hl'
        exact h.inj l l' j hl hl'
  · by_cases hj : j = i
    · subst hj
      exact ⟨fun _ => ⟨loc, by simp⟩, fun _ => by simp⟩
    · rw [Function.update_of_ne hj, h.used]
      constructor
      · rintro ⟨l, hl⟩
        have hne : l ≠ loc := fun he => by
          rw [he, hloc] at hl
          cases hl
        exact ⟨l, by rw [Function.update_of_ne hne, hl]⟩
      · rintro ⟨l, hl⟩
        by_cases hll : l = loc
        · rw [hll, Function.update_self] at hl
          cases hl
          exact absurd rfl hj
        · rw [Function.update_of_ne hll] at hl
          exact ⟨l, hl⟩
  · rw [hW]
    by_cases hll : l = loc
    · rw [if_pos hll, hll, Function.update_self, Option.bind_some, Function.update_self]
    · rw [if_neg hll, Function.update_of_ne hll, h.get]
      cases hl : active l with
      | none => rfl
      | some j =>
        have hj : j ≠ i := fun he => hfresh l (he ▸ hl)
        rw [Option.bind_some, Option.bind_some, Function.update_of_ne hj]

theorem lt_tileCount_of_size (htile : 0 < tileSize) :
    (1 < tileCount tileSize n ↔ tileSize < n) ∧ (2 < tileCount tileSize n ↔ 2 * tileSize < n) := by
  rw [lt_tileCount htile, lt_tileCount htile, Nat.one_mul]
  exact ⟨Iff.rfl, Iff.rfl⟩

/-- The down tile of `fill`. -/
theorem fillDown_eq (htile : 0 < tileSize) {idx : ℕ} (hn : tileSize < n) (hidx : idx < n) :
    (if idx - idx % tileSize < n - tileSize then idx - idx % tileSize + tileSize else 0) / tileSize =
      succTile (tileCount tileSize n) (idx / tileSize) ∧
    (if idx - idx % tileSize < n - tileSize then idx - idx % tileSize + tileSize else 0) < n := by
  have hiff : idx - idx % tileSize < n - tileSize ↔ idx / tileSize + 1 < tileCount tileSize n := by
    rw [lt_tileCount htile, base_eq, Nat.add_mul, Nat.one_mul]
    omega
  unfold succTile
  by_cases h : idx / tileSize + 1 < tileCount tileSize n
  · rw [if_pos h, if_pos (hiff.mpr h), base_eq, Nat.add_div_right _ htile, Nat.mul_div_cancel _ htile]
    have := (lt_tileCount htile).mp h
    rw [Nat.add_mul, Nat.one_mul] at this
    exact ⟨rfl, this⟩
  · rw [if_neg h, if_neg (mt hiff.mp h)]
    exact ⟨Nat.zero_div _, by omega⟩

/-- The up tile of `fill`. -/
theorem fillUp_eq (htile : 0 < tileSize) {idx : ℕ} (hidx : idx < n) :
    (if 0 < idx - idx % tileSize then idx - idx % tileSize - tileSize else n - 1) / tileSize =
      predTile (tileCount tileSize n) (idx / tileSize) ∧
    (if 0 < idx - idx % tileSize then idx - idx % tileSize - tileSize else n - 1) < n := by
  rw [base_eq]
  have hup := adjacent_up (n := n) htile (by omega) (show idx / tileSize * tileSize < n + tileSize by
    have := Nat.div_mul_le_self idx tileSize
    omega)
  rw [Nat.mul_div_cancel _ htile] at hup
  unfold indexInAdjacentTile at hup
  dsimp only at hup
  have hiff : 0 < idx / tileSize * tileSize ↔ tileSize ≤ idx / tileSize * tileSize := by
    constructor
    · intro h
      exact Nat.le_mul_of_pos_left _ (Nat.pos_of_mul_pos_right h)
    · omega
  simpa only [hiff] using hup

/-- `fill` shows the tile of `idx` in the center, and its neighbours. -/
theorem fill_shows [DecidableEq κ] [Inhabited α] (hf : (p.filler a).Fills item n) (h : Shows a tileSize item n s W)
    {idx : ℕ} (hidx : idx < n) :
    ∃ s', fill p a idx n s = some ((), s') ∧
      Shows a tileSize item n s' (.filled (tileCount tileSize n) (idx / tileSize)) := by
  obtain ⟨active, slots, h⟩ := h
  have htile := p.tileSize_pos
  obtain ⟨h1, h2⟩ := lt_tileCount_of_size (n := n) htile
  obtain ⟨s₁, hs₁, c₁⟩ := clear_content hf h.content
  have p₁ : Placed a tileSize item n s₁ ⟨none, none, none⟩ (fun _ => none) fun _ => none :=
    ⟨c₁, by simp, by simp, fun loc => by cases loc <;> rfl⟩
  obtain ⟨s₂, hs₂, p₂⟩ := p₁.materialize ⟨none, some (idx / tileSize), none⟩ 0 .center rfl rfl hidx
    fun l => by cases l <;> rfl
  unfold fill
  rw [Op.bind_of_some hs₁, if_neg (by omega), Op.bind_of_some hs₂]
  unfold TileWindow.filled
  by_cases hn1 : n ≤ tileSize
  · obtain ⟨s₃, hs₃, c₃⟩ := waitEmpty_content hf p₂.content
    rw [if_pos hn1, if_neg (by omega), if_neg (by omega)]
    exact ⟨s₃, hs₃, _, _, { p₂ with content := c₃ }⟩
  · obtain ⟨hd, hdlt⟩ := fillDown_eq htile (by omega) hidx
    obtain ⟨s₃, hs₃, p₃⟩ := p₂.materialize
      ⟨none, some (idx / tileSize), some (succTile (tileCount tileSize n) (idx / tileSize))⟩
      1 .down rfl rfl hdlt fun l => by rw [hd]; cases l <;> rfl
    rw [if_neg hn1, Op.bind_of_some hs₃]
    by_cases hn2 : n ≤ 2 * tileSize
    · obtain ⟨s₄, hs₄, c₄⟩ := waitEmpty_content hf p₃.content
      rw [if_pos hn2, if_neg (by omega), if_pos (by omega)]
      exact ⟨s₄, hs₄, _, _, { p₃ with content := c₄ }⟩
    · obtain ⟨hu, hult⟩ := fillUp_eq htile hidx
      obtain ⟨s₄, hs₄, p₄⟩ := p₃.materialize
        ⟨some (predTile (tileCount tileSize n) (idx / tileSize)), some (idx / tileSize),
          some (succTile (tileCount tileSize n) (idx / tileSize))⟩
        2 .up rfl rfl hult fun l => by rw [hu]; cases l <;> rfl
      obtain ⟨s₅, hs₅, c₅⟩ := waitEmpty_content hf p₄.content
      rw [if_neg hn2, Op.bind_of_some hs₄, if_pos (by omega), if_pos (by omega)]
      exact ⟨s₅, hs₅, _, _, { p₄ with content := c₅ }⟩

end Listbrokers.Tiles
