import Listbrokers.Tiles.Outcomes
import Listbrokers.Tiles.Sequence

/-!
# Failed and short tiles

`for_each_item` numbers the items that its iterator delivers, and the iterator
skips tiles that have failed, and goes on with the next tile behind one with too
few items. This is right as long as the tiles with items follow each other like
the items of the list (`InOrder`), and wrong in all other cases.
-/

namespace Listbrokers.Tiles

open Framework

variable {κ α β : Type} [DecidableEq κ] [Inhabited α] {tileSize : ℕ} {p : ListThreads κ α tileSize} {a : κ}
  {item : ℕ → ListItem α} {n : ℕ} {s s' : Sys κ α} {W : TileWindow} {o : ItemLocation → Outcome}

/-! ## What the reader is promised -/

/-- Apply a function to `count` items from `i` on. It returns `false` to stop. -/
def applyTo (item : ℕ → ListItem α) (apply : β → ℕ → ListItem α → Bool × β) : ℕ → ℕ → β → Bool × β
  | 0, _, x => (true, x)
  | count + 1, i, x =>
    let r := apply x i (item i)
    if r.1 then applyTo item apply count (i + 1) r.2 else (false, r.2)

/-- The result of a call for `left` items from `first` on: the function has been applied to the first ones of them,
each with its index, and to no others. Unless it has asked to stop, it has been applied to all, or an error is
returned, `code` if this is one. -/
def Reported (item : ℕ → ListItem α) (apply : β → ℕ → ListItem α → Bool × β) (x : β) (first left : ℕ) (code : ListError)
    (r : ListError × β) : Prop :=
  ∃ count ≤ left, r.2 = (applyTo item apply count first x).2 ∧
    ((applyTo item apply count first x).1 = true → count < left → r.1 ≠ .ok ∧ (code ≠ .ok → r.1 = code))

/-- The error of the first one of `count` tiles from tile `k` on that has failed. -/
def failureCode (W : TileWindow) (o : ItemLocation → Outcome) (k count : ℕ) : ListError :=
  ((List.range' k count).findSome? fun k => (W.find k).bind fun loc =>
    match o loc with
    | .ok _ => none
    | .error e => some e).getD .ok

/-- The tiles with items hold the items of the list from `i` to `last`, one tile after the other. Or they hold the
first of these items, with no tile behind them, and the error that the iterator has at its end is the one to be
returned. -/
inductive InOrder (tileSize : ℕ) (errorRight : Prop) (last : ℕ) : ℕ → List (ℕ × ℕ) → Prop
  | all {i k count : ℕ} {ready : List (ℕ × ℕ)} (hk : i / tileSize = k) (hlast : last ≤ k * tileSize + count) :
      InOrder tileSize errorRight last i ((k, count) :: ready)
  | next {i k : ℕ} {ready : List (ℕ × ℕ)} (hk : i / tileSize = k)
      (h : InOrder tileSize errorRight last ((k + 1) * tileSize) ready) :
      InOrder tileSize errorRight last i ((k, tileSize) :: ready)
  | short {i k count : ℕ} (hk : i / tileSize = k) (hi : i % tileSize < count) (he : errorRight) :
      InOrder tileSize errorRight last i [(k, count)]
  | none {i : ℕ} (he : errorRight) : InOrder tileSize errorRight last i []

variable {errorRight : Prop} {first last i k count idx left : ℕ} {ready : List (ℕ × ℕ)} {code e : ListError}

/-! ## Tiles in order are reported -/

theorem InOrder.div_eq (h : InOrder tileSize errorRight last i ((k, count) :: ready)) : i / tileSize = k := by
  cases h <;> assumption

/-- The item is there. -/
theorem InOrder.lt (htile : 0 < tileSize) (h : InOrder tileSize errorRight last i ((k, count) :: ready))
    (hi : i < last) : i % tileSize < count := by
  have hdiv := Nat.div_add_mod' i tileSize
  cases h with
  | all hk hlast =>
    rw [hk] at hdiv
    omega
  | next => exact Nat.mod_lt i htile
  | short _ hlt => exact hlt

theorem mod_succ_of_lt (hlt : i % tileSize + 1 < count) (hcount : count ≤ tileSize) :
    (i + 1) / tileSize = i / tileSize ∧ (i + 1) % tileSize = i % tileSize + 1 := by
  have hdiv := Nat.div_add_mod' i tileSize
  have hdiv' := Nat.div_add_mod' (i + 1) tileSize
  have hsame : (i + 1) / tileSize = i / tileSize := (div_eq_iff_mem (by omega)).mpr (by omega)
  rw [hsame] at hdiv'
  exact ⟨hsame, by omega⟩

/-- The next item in the same tile. -/
theorem InOrder.stay (h : InOrder tileSize errorRight last i ((k, count) :: ready)) (hlt : i % tileSize + 1 < count)
    (hcount : count ≤ tileSize) : InOrder tileSize errorRight last (i + 1) ((k, count) :: ready) := by
  obtain ⟨hdiv, hmod⟩ := mod_succ_of_lt hlt hcount
  cases h with
  | all hk hlast => exact .all (hdiv.trans hk) hlast
  | next hk h => exact .next (hdiv.trans hk) h
  | short hk _ he => exact .short (hdiv.trans hk) (by rw [hmod]; exact hlt) he

/-- The next item after those of a tile. -/
theorem InOrder.leave (h : InOrder tileSize errorRight last i ((k, count) :: ready)) (hi : i % tileSize + 1 = count)
    (hlast : i + 1 < last) :
    InOrder tileSize errorRight last (i + 1) ready ∧ (ready ≠ [] → (i + 1) % tileSize = 0) := by
  have hdiv := Nat.div_add_mod' i tileSize
  cases h with
  | all hk hle =>
    rw [hk] at hdiv
    omega
  | next hk h =>
    have hnext : i + 1 = (k + 1) * tileSize := by
      rw [Nat.add_mul, Nat.one_mul, ← hk]
      omega
    rw [hnext]
    exact ⟨h, fun _ => Nat.mul_mod_left ..⟩
  | short _ _ he => exact ⟨.none he, fun h => absurd rfl h⟩

/-- From tiles in order, the loop delivers what it should. -/
theorem deliver_reported (apply : β → ℕ → ListItem α → Bool × β) (x : β) (htile : 0 < tileSize) (he : e ≠ .ok)
    (hfits : ∀ v ∈ ready, v.2 ≤ tileSize)
    (h : 0 < left → InOrder tileSize (code ≠ .ok → e = code) (i + left) i ready ∧ (ready ≠ [] → idx = i % tileSize)) :
    Reported item apply x i left code (deliver tileSize item e apply left i ready idx x) := by
  induction left generalizing i ready idx x with
  | zero => exact ⟨0, Nat.le_refl _, by cases ready <;> rfl, fun _ hlt => absurd hlt (Nat.lt_irrefl _)⟩
  | succ left ih =>
    obtain ⟨horder, hidx⟩ := h (Nat.succ_pos _)
    cases ready with
    | nil =>
      cases horder with
      | none hcode => exact ⟨0, Nat.zero_le _, rfl, fun _ _ => ⟨he, hcode⟩⟩
    | cons v ready =>
      obtain ⟨k, count⟩ := v
      obtain rfl := hidx (by simp)
      have hcount : count ≤ tileSize := hfits _ List.mem_cons_self
      have hlt := horder.lt htile (by omega)
      have hstored : storedItem tileSize item k count (i % tileSize) = item i := by
        rw [storedItem, if_pos hlt, ← horder.div_eq, Nat.div_add_mod']
      have hlast : i + (left + 1) = i + 1 + left := by omega
      rw [deliver, hstored]
      by_cases hstop : (apply x i (item i)).1 = true
      · -- the call goes on
        have hrest : Reported item apply (apply x i (item i)).2 (i + 1) left code
            (if i % tileSize + 1 < count then
              deliver tileSize item e apply left (i + 1) ((k, count) :: ready) (i % tileSize + 1) (apply x i (item i)).2
            else deliver tileSize item e apply left (i + 1) ready 0 (apply x i (item i)).2) := by
          split
          · next hstay =>
            refine ih _ hfits fun _ => ⟨hlast ▸ horder.stay hstay hcount, fun _ => ?_⟩
            exact (mod_succ_of_lt hstay hcount).2.symm
          · refine ih _ (fun v hv => hfits v (List.mem_cons_of_mem _ hv)) fun hpos => ?_
            obtain ⟨hleave, hmod⟩ := horder.leave (by omega) (by omega)
            exact ⟨hlast ▸ hleave, fun hne => (hmod hne).symm⟩
        obtain ⟨m, hm, hx, hcode⟩ := hrest
        have hsucc : applyTo item apply (m + 1) i x = applyTo item apply m (i + 1) (apply x i (item i)).2 := by
          rw [applyTo, if_pos hstop]
        rw [if_pos hstop]
        exact ⟨m + 1, by omega, by rw [hsucc, hx], fun hgo hlt => hcode (by rw [← hsucc, hgo]) (by omega)⟩
      · rw [if_neg hstop]
        have hone : applyTo item apply 1 i x = (false, (apply x i (item i)).2) := by
          rw [applyTo, if_neg hstop]
        exact ⟨1, by omega, by rw [hone], fun hgo => by rw [hone] at hgo; cases hgo⟩

/-! ## Nothing else is reported -/

/-- The items of the list are different, and different from the content of an item that has been reset. -/
structure Distinct (item : ℕ → ListItem α) (n : ℕ) : Prop where
  inj : ∀ i j, i < n → j < n → item i = item j → i = j
  not_reset : ∀ i < n, item i ≠ .reset

/-- Gather the items, each with its index. -/
def gather (xs : List (ℕ × ListItem α)) (i : ℕ) (x : ListItem α) : Bool × List (ℕ × ListItem α) :=
  (true, xs ++ [(i, x)])

section

omit [Inhabited α]

theorem applyTo_gather (xs : List (ℕ × ListItem α)) (count i : ℕ) :
    applyTo item gather count i xs = (true, xs ++ (List.range' i count).map fun j => (j, item j)) := by
  induction count generalizing i xs with
  | zero => simp [applyTo]
  | succ count ih => simp [applyTo, gather, ih, List.range'_succ]

end

theorem deliver_gather_cons (left i k count : ℕ) (ready : List (ℕ × ℕ)) (idx : ℕ) (xs : List (ℕ × ListItem α)) :
    deliver tileSize item e gather (left + 1) i ((k, count) :: ready) idx xs =
      if idx + 1 < count then
        deliver tileSize item e gather left (i + 1) ((k, count) :: ready) (idx + 1)
          (xs ++ [(i, storedItem tileSize item k count idx)])
      else deliver tileSize item e gather left (i + 1) ready 0 (xs ++ [(i, storedItem tileSize item k count idx)]) := by
  simp [deliver, gather]

/-- What is gathered is added at the end. -/
theorem deliver_gather (left i : ℕ) (ready : List (ℕ × ℕ)) (idx : ℕ) (xs : List (ℕ × ListItem α)) :
    xs <+: (deliver tileSize item e gather left i ready idx xs).2 := by
  induction left generalizing i ready idx xs with
  | zero => cases ready <;> exact List.prefix_rfl
  | succ left ih =>
    cases ready with
    | nil => exact List.prefix_rfl
    | cons v ready =>
      rw [deliver_gather_cons]
      split
      · exact (List.prefix_append _ _).trans (ih _ _ _ _)
      · exact (List.prefix_append _ _).trans (ih _ _ _ _)

/-- The tile before, if all its items have been delivered, or some more of them. -/
theorem InOrder.back (hk : k * tileSize + idx = i) (hlt : idx < count) (hcount : count ≤ tileSize)
    (hstay : idx + 1 < count → InOrder tileSize errorRight last (i + 1) ((k, count) :: ready))
    (hleave : ¬ idx + 1 < count → InOrder tileSize errorRight last (i + 1) ready ∧
      ∀ k' count' ready', ready = (k', count') :: ready' → k' * tileSize = i + 1) :
    InOrder tileSize errorRight last i ((k, count) :: ready) := by
  have hdiv : i / tileSize = k := (div_eq_iff_mem (by omega)).mpr (by omega)
  have hmod : i % tileSize = idx := by
    have := Nat.div_add_mod' i tileSize
    rw [hdiv] at this
    omega
  by_cases hlt' : idx + 1 < count
  · cases hstay hlt' with
    | all _ hlast => exact .all hdiv hlast
    | next _ h => exact .next hdiv h
    | short _ _ he => exact .short hdiv (by omega) he
  · obtain ⟨h, hhead⟩ := hleave hlt'
    cases ready with
    | nil =>
      cases h with
      | none he => exact .short hdiv (by omega) he
    | cons v ready =>
      -- the tile behind begins where this one ends
      have hnext := hhead v.1 v.2 ready rfl
      have hk' : k < v.1 := by
        by_contra hle
        have := Nat.mul_le_mul_right tileSize (Nat.le_of_not_lt hle)
        omega
      have hmul := Nat.mul_le_mul_right tileSize (Nat.succ_le_of_lt hk')
      rw [Nat.succ_mul] at hmul
      obtain rfl : count = tileSize := by omega
      refine .next hdiv ?_
      rw [Nat.add_mul, Nat.one_mul, show k * count + count = i + 1 by omega]
      exact h

/-- If the loop delivers what it should, the tiles are in order. -/
theorem inOrder_of_reported (hitem : Distinct item n) (hpos : 0 < left) (hn : i + left ≤ n)
    (hbounds : ∀ v ∈ ready, 0 < v.2 ∧ v.2 ≤ tileSize ∧ v.1 * tileSize + v.2 ≤ n) (xs : List (ℕ × ListItem α))
    (h : Reported item gather xs i left code (deliver tileSize item e gather left i ready idx xs)) :
    InOrder tileSize (code ≠ .ok → e = code) (i + left) i ready ∧
      ∀ k count ready', ready = (k, count) :: ready' → k * tileSize + idx = i := by
  induction left generalizing i ready idx xs with
  | zero => omega
  | succ left ih =>
    obtain ⟨m, hm, hx, hcode⟩ := h
    rw [applyTo_gather] at hx hcode
    dsimp only at hx
    cases ready with
    | nil =>
      have hm0 : m = 0 := by simpa [deliver] using congrArg List.length hx
      exact ⟨.none (hcode rfl (by omega)).2, fun k count ready' h => by cases h⟩
    | cons v ready =>
      obtain ⟨k, count⟩ := v
      obtain ⟨-, hcount, hk⟩ : 0 < count ∧ count ≤ tileSize ∧ k * tileSize + count ≤ n := hbounds _ List.mem_cons_self
      rw [deliver_gather_cons] at hx hcode
      -- the item delivered at `i` is the one of the list
      have hprefix : xs ++ [(i, storedItem tileSize item k count idx)] <+:
          xs ++ (List.range' i m).map fun j => (j, item j) := by
        rw [← hx]
        split
        · exact deliver_gather ..
        · exact deliver_gather ..
      rw [List.prefix_append_right_inj] at hprefix
      obtain ⟨m, rfl⟩ : ∃ m', m = m' + 1 := by
        refine Nat.exists_eq_succ_of_ne_zero fun hm0 => ?_
        simp [hm0] at hprefix
      have hsame : storedItem tileSize item k count idx = item i := by
        simpa [List.range'_succ] using hprefix
      have hlt : idx < count := by
        by_contra hge
        rw [storedItem, if_neg hge] at hsame
        exact hitem.not_reset i (by omega) hsame.symm
      have hki : k * tileSize + idx = i := by
        rw [storedItem, if_pos hlt] at hsame
        exact hitem.inj _ _ (by omega) (by omega) hsame
      refine ⟨?_, fun k' count' ready' he => ?_⟩
      · by_cases hleft : left = 0
        · exact .all ((div_eq_iff_mem (by omega)).mpr (by omega)) (by omega)
        · have hlast : i + (left + 1) = i + 1 + left := by omega
          rw [hsame] at hx hcode
          have hrest : Reported item gather (xs ++ [(i, item i)]) (i + 1) left code
              (if idx + 1 < count then
                deliver tileSize item e gather left (i + 1) ((k, count) :: ready) (idx + 1) (xs ++ [(i, item i)])
              else deliver tileSize item e gather left (i + 1) ready 0 (xs ++ [(i, item i)])) := by
            refine ⟨m, by omega, ?_, fun _ hm' => hcode rfl (by omega)⟩
            rw [hx, applyTo_gather, List.range'_succ]
            simp
          rw [hlast]
          refine .back hki hlt hcount (fun hstay => ?_) fun hleave => ?_
          · rw [if_pos hstay] at hrest
            exact (ih (by omega) (by omega) hbounds _ hrest).1
          · rw [if_neg hleave] at hrest
            exact ih (by omega) (by omega) (fun v hv => hbounds v (List.mem_cons_of_mem _ hv)) _ hrest
      · obtain ⟨⟨rfl, rfl⟩, -⟩ : (k = k' ∧ count = count') ∧ ready = ready' := by simpa using he
        exact hki

/-! ## for_each_item -/

/-- The error that the iterator has for its reader when it has gone through the tiles. -/
def errorAtEnd (tiles : List (ℕ × Outcome)) : ListError :=
  (⟨[], 0, firstError .ok tiles⟩ : ConstIterator).listErrorCode

theorem errorAtEnd_ne_ok (tiles : List (ℕ × Outcome)) : errorAtEnd tiles ≠ .ok := by
  unfold errorAtEnd ConstIterator.listErrorCode
  split
  · simp
  · assumption

section

omit [DecidableEq κ]

theorem Resolves.ready_bounds (h : Resolves p a item n s W o) (locs : List ItemLocation) :
    ∀ v ∈ readyTiles (visited W o locs), 0 < v.2 ∧ v.2 ≤ tileSize ∧ v.1 * tileSize + v.2 ≤ n := by
  intro v hv
  simp only [readyTiles, visited, List.mem_filterMap, Option.map_eq_some_iff] at hv
  obtain ⟨-, ⟨loc, -, k, hk, rfl⟩, count, hcount, rfl⟩ := hv
  have ho : o loc = .ok count := by
    cases ho : o loc <;> simp [ho, Except.toOption] at hcount
    rw [hcount]
  exact h.bounds hk ho

end

/-- The tiles that the iterator of a call visits. -/
def visitedFrom (tileSize : ℕ) (l : TiledList α) (W : TileWindow) (o : ItemLocation → Outcome) (first : ℕ) :
    List (ℕ × Outcome) :=
  visited W o (ConstIterator.tilesFrom (l.contains tileSize first))

/-- The error of the first failed tile of a range. -/
def rangeCode (tileSize : ℕ) (W : TileWindow) (o : ItemLocation → Outcome) (first last : ℕ) : ListError :=
  failureCode W o (first / tileSize) (numberOfSpannedTiles tileSize first (last - first))

/-- The items from `first` to `last` are delivered, each under its own index, or the failure is reported, whatever
is done with the items. -/
def ReportsFailures (p : ListThreads κ α tileSize) (a : κ) (item : ℕ → ListItem α) (s : Sys κ α) (W : TileWindow)
    (o : ItemLocation → Outcome) (first last : ℕ) : Prop :=
  ∀ (β : Type) (apply : β → ℕ → ListItem α → Bool × β) (x : β), ∃ r s', forEachInWindow p a first last apply x s =
    some (r, s') ∧ Reported item apply x first (last - first) (rangeCode tileSize W o first last) r

/-- Failures are reported if the tiles with items that the iterator visits are in the order of the list, and, if the
items of the list are different, only then. -/
theorem reports_failures_iff (h : Resolves p a item n s W o) (hfirst : first < last) (hlast : last ≤ n) :
    let tiles := visitedFrom tileSize (s.lists a) W o first
    let errorRight := rangeCode tileSize W o first last ≠ .ok → errorAtEnd tiles = rangeCode tileSize W o first last
    (InOrder tileSize errorRight last first (readyTiles tiles) → ReportsFailures p a item s W o first last) ∧
      (Distinct item n → ReportsFailures p a item s W o first last →
        InOrder tileSize errorRight last first (readyTiles tiles)) ∧
      ∀ (β : Type) (apply : β → ℕ → ListItem α → Bool × β) (x : β) (sizeBits count : ℕ) (s₀ : Sys κ α),
        (s₀.lists a).numberOfEntries = n → endOfRange sizeBits first count n = last →
        prefetch p a first (last - first) n false s₀ = some (.ok true, s) →
        forEachItem p a sizeBits first count apply x s₀ = forEachInWindow p a first last apply x s := by
  have hend : first + (last - first) = last := by omega
  have hbounds := h.ready_bounds (ConstIterator.tilesFrom ((s.lists a).contains tileSize first))
  dsimp only
  refine ⟨fun horder β apply x => ?_, fun hitem hreports => ?_,
    fun β apply x sizeBits count s₀ hsize hrange hwarm => ?_⟩
  · obtain ⟨s', hs'⟩ := forEachInWindow_resolves first last apply x h
    refine ⟨_, s', hs', deliver_reported apply x p.tileSize_pos (errorAtEnd_ne_ok _) (fun v hv => (hbounds v hv).2.1)
      fun _ => ⟨?_, fun _ => rfl⟩⟩
    rw [hend]
    exact horder
  · obtain ⟨r, s', hs', hr⟩ := hreports _ gather ([] : List (ℕ × ListItem α))
    obtain ⟨s'', hs''⟩ := forEachInWindow_resolves first last gather ([] : List (ℕ × ListItem α)) h
    rw [hs''] at hs'
    obtain ⟨rfl, rfl⟩ : _ = r ∧ s'' = s' := by simpa using hs'
    have horder := (inOrder_of_reported hitem (by omega) (by omega) hbounds [] hr).1
    rw [hend] at horder
    exact horder
  · rw [← hsize] at hrange hwarm
    rw [← hrange] at hfirst hwarm ⊢
    exact forEachItem_of_prefetch apply x hfirst hwarm

/-! ## Failures that are not reported -/

/-- Item `i` of the list is `i`, but the fill of one tile has another result. -/
def stumblingFiller (tileSize n bad : ℕ) (r : FillResult tileSize ℕ) (hr : r.failed = true → r.error ≠ .ok) :
    Filler tileSize ℕ where
  fill base _ := if base = bad then r else (Filler.succeeding tileSize id n).fill base true
  error_of_failed base h := by
    split at h
    · next hb =>
      rw [if_pos hb]
      exact hr h
    · simp [Filler.succeeding] at h

/-- A fill that stores one item. -/
def storesOne (x : ℕ) : FillResult 2 ℕ := ⟨[x], by simp, false, .ok⟩

/-- A fill that fails. -/
def fails (tileSize : ℕ) (code : ℕ) : FillResult tileSize ℕ := ⟨[], by simp, true, .other code⟩

instance (item : ℕ → ListItem ℕ) (apply : List (ℕ × ℕ) → ℕ → ListItem ℕ → Bool × List (ℕ × ℕ)) (x : List (ℕ × ℕ))
    (first left : ℕ) (code : ListError) (r : ListError × List (ℕ × ℕ)) :
    Decidable (Reported item apply x first left code r) :=
  decidable_of_iff (∃ count, count < left + 1 ∧ r.2 = (applyTo item apply count first x).2 ∧
      ((applyTo item apply count first x).1 = true → count < left → r.1 ≠ .ok ∧ (code ≠ .ok → r.1 = code))) (by
    simp only [Reported, Nat.lt_succ_iff])

/-- Of five items in tiles of two, the first tile stores one item only: items of the next tiles are delivered under
the indices of the missing item and of those behind it, and asked for alone, item 1 is what has been in the tile
before. The first tile fails: item 2 is delivered for item 0. Of five items in tiles of one, the tile of item 1 has
failed by the time that the range of items 1 to 3 is read: the error is not the one of the tile. -/
theorem failures_not_reported :
    (∃ r, (forEachItem ⟨fun _ => stumblingFiller 2 5 0 (storesOne 0) (by decide), false, by decide⟩ () 32 0 4
      collectItems []
        (.init fun _ => 5)).map Prod.fst = some r ∧ r = (.ok, [(0, 0), (1, 2), (2, 3), (3, 4)]) ∧
      ¬ Reported (plainItem id) collectItems [] 0 4 .ok r) ∧
    (∃ r, (forEachItem ⟨fun _ => stumblingFiller 2 5 0 (storesOne 0) (by decide), false, by decide⟩ () 32 1 1
      collectItems []
        (.init fun _ => 5)).map Prod.fst = some r ∧ r = (.ok, [(1, 0)]) ∧
      ¬ Reported (plainItem id) collectItems [] 1 1 .ok r) ∧
    (∃ r, (forEachItem ⟨fun _ => stumblingFiller 2 5 0 (fails 2 7) (by simp [fails]), false, by decide⟩ () 32 0 1
      collectItems []
        (.init fun _ => 5)).map Prod.fst = some r ∧ r = (.ok, [(0, 2)]) ∧
      ¬ Reported (plainItem id) collectItems [] 0 1 (.other 7) r) ∧
    ∃ p : ListThreads Unit ℕ 1, p = ⟨fun _ => stumblingFiller 1 5 1 (fails 1 7) (by simp [fails]), false, by decide⟩ ∧
      ∃ s s' r, prefetch p () 1 3 5 false (.init fun _ => 5) = some (.ok true, s) ∧ (s.tile ((), 2)).base = 1 ∧
        Workers p s s' ∧ (s'.tile ((), 2)).error = .other 7 ∧
        (forEachItem p () 32 1 3 collectItems [] s').map Prod.fst = some r ∧ r = (.internal, []) ∧
        ¬ Reported (plainItem id) collectItems [] 1 3 (.other 7) r := by
  refine ⟨⟨_, by decide +kernel, rfl, by decide +kernel⟩, ⟨_, by decide +kernel, rfl, by decide +kernel⟩,
    ⟨_, by decide +kernel, rfl, by decide +kernel⟩, _, rfl, ?_⟩
  have hrun : (prefetch ⟨fun _ => stumblingFiller 1 5 1 (fails 1 7) (by simp [fails]), false, by decide⟩ () 1 3 5 false
      (.init fun _ => 5)).any (fun r => r.1 = .ok true ∧ (r.2.tile ((), 2)).base = 1 ∧
        ((r.2.awaited ⟨fun _ => stumblingFiller 1 5 1 (fails 1 7) (by simp [fails]), false, by decide⟩ ((), 2)).tile
          ((), 2)).error = .other 7 ∧
        (forEachItem ⟨fun _ => stumblingFiller 1 5 1 (fails 1 7) (by simp [fails]), false, by decide⟩ () 32 1 3
          collectItems []
          (r.2.awaited ⟨fun _ => stumblingFiller 1 5 1 (fails 1 7) (by simp [fails]), false, by decide⟩ ((), 2))).map
            Prod.fst = some (.internal, [])) = true := by
    decide +kernel
  obtain ⟨⟨r, s⟩, hs, hrun⟩ := (Option.any_eq_true _ _).mp hrun
  obtain ⟨rfl, hbase, herror, hresult⟩ := of_decide_eq_true hrun
  exact ⟨s, _, _, hs, hbase, awaited_workers _ s ((), 2), herror, hresult, rfl, by decide +kernel⟩

/-- A window of two tiles of one item each, both of which are to be filled. -/
def twoTiles : Sys Unit ℕ where
  lists _ :=
    { hot := fun i => { ListTile.init with base := i, state := if i < 2 then .filling else .free }
      active := fun
        | .up => none
        | .center => some 0
        | .down => some 1
      numberOfEntries := 2 }
  queue := [((), 0), ((), 1)]
  running := []
  killed := []

/-- The first one of two tiles is filled, the second one fails: the reader gets the item of the first one, and the error
of the second one. -/
theorem reports_failure_second : ReportsFailures
    ⟨fun _ => stumblingFiller 1 2 1 (fails 1 7) (by simp [fails]), false, by decide⟩ () (plainItem id) twoTiles
    ⟨none, some 0, some 1⟩ (fun loc => if loc = .center then .ok 1 else .error (.other 7)) 0 2 := by
  have h : Resolves ⟨fun _ => stumblingFiller 1 2 1 (fails 1 7) (by simp [fails]), false, by decide⟩ () (plainItem id) 2
      twoTiles ⟨none, some 0, some 1⟩ (fun loc => if loc = .center then .ok 1 else .error (.other 7)) := by
    refine ⟨⟨by decide, by decide, by decide, by decide, by decide⟩, fun loc hloc => ?_, fun loc k hk => ?_⟩
    · cases loc <;> first | rfl | cases hloc
    · cases loc with
      | up => cases hk
      | center =>
        obtain rfl : 0 = k := Option.some.inj hk
        exact ⟨0, rfl, .filling rfl rfl rfl (fun _ => rfl) (by simp [Sys.Pending, twoTiles])
          (.stored rfl (by decide) (by decide) (by decide))⟩
      | down =>
        obtain rfl : 1 = k := Option.some.inj hk
        exact ⟨1, rfl, .filling rfl rfl rfl (fun _ => rfl) (by simp [Sys.Pending, twoTiles]) (.failed rfl)⟩
  exact (reports_failures_iff h (by decide) (by decide)).1 (.next rfl (.none (by decide)))

end Listbrokers.Tiles
