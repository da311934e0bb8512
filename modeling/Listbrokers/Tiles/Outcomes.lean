import Listbrokers.Tiles.Cycle
import Listbrokers.Tiles.Loaded

/-!
# What becomes of the tiles

A tile of the window may be filled completely or with too few items, it may
fail, and it may be canceled (`Outcome`). Whether this has happened already, or
will happen when the workers get to the tile, makes no difference to a reader,
who waits for it (`Resolves`). What the loop of `for_each_item` delivers is
computed from the outcomes of the tiles that its iterator visits (`deliver`).
-/

namespace Listbrokers.Tiles

open Framework

variable {κ α β : Type} [DecidableEq κ] [Inhabited α] {tileSize : ℕ}

/-- What `size` answers for a tile: the number of stored items, or the error of a tile that is not ready. A canceled
tile has the error `ok`. -/
abbrev Outcome := Except ListError ℕ

/-- What an item of tile `k` is when `count` items have been stored there. -/
def storedItem (tileSize : ℕ) (item : ℕ → ListItem α) (k count rawIndex : ℕ) : ListItem α :=
  if rawIndex < count then item (k * tileSize + rawIndex) else .reset

/-- A fill of tile `k` fails, or stores the first items that the list has there. -/
inductive FillResult.Gives (r : FillResult tileSize α) (item : ℕ → ListItem α) (n k : ℕ) : Outcome → Prop
  | failed (h : r.failed = true) : Gives r item n k (.error r.error)
  | stored (h : r.failed = false) (hne : r.items ≠ []) (hn : k * tileSize + r.items.length ≤ n)
      (hitems : ∀ j (hj : j < r.items.length), item (k * tileSize + j) = ⟨.invalid, r.items[j]⟩) :
      Gives r item n k (.ok r.items.length)

/-- The tile is, or will be, what the outcome says of tile `k`. -/
inductive ListTile.Comes (f : Filler tileSize α) (item : ℕ → ListItem α) (n k : ℕ) (t : ListTile α) (pending : Prop) :
    Outcome → Prop
  | filling {o : Outcome} (state : t.state = .filling) (base : t.base = k * tileSize) (stored : t.storedItemsCount = 0)
      (items : ∀ j, t.items j = .reset) (hp : pending) (gives : (f.fill (k * tileSize) true).Gives item n k o) :
      Comes f item n k t pending o
  | ready {count : ℕ} (state : t.state = .ready) (base : t.base = k * tileSize) (stored : t.storedItemsCount = count)
      (pos : 0 < count) (fits : count ≤ tileSize) (hn : k * tileSize + count ≤ n)
      (items : ∀ j, t.items j = storedItem tileSize item k count j) : Comes f item n k t pending (.ok count)
  | failed {e : ListError} (state : t.state = .canceled ∨ t.state = .error) (error : t.error = e) :
      Comes f item n k t pending (.error e)

theorem ListTile.Comes.imp {f : Filler tileSize α} {item : ℕ → ListItem α} {n k : ℕ} {t : ListTile α}
    {pending pending' : Prop} {o : Outcome} (hp : pending → pending') (h : t.Comes f item n k pending o) :
    t.Comes f item n k pending' o := by
  cases h with
  | filling state base stored items hpending gives => exact .filling state base stored items (hp hpending) gives
  | ready state base stored pos fits hn items => exact .ready state base stored pos fits hn items
  | failed state error => exact .failed state error

/-- The work on a tile has its outcome. -/
theorem ListTile.Comes.doFillTile {f : Filler tileSize α} {item : ℕ → ListItem α} {n k : ℕ} {t : ListTile α}
    {pending pending' : Prop} {o : Outcome} (hfilling : t.state = .filling) (h : t.Comes f item n k pending o) :
    (t.doFillTile f true).2.Comes f item n k pending' o := by
  cases h with
  | filling state base stored items hp gives =>
    unfold ListTile.doFillTile
    dsimp only
    rw [base]
    cases gives with
    | failed hfailed =>
      rw [if_pos hfailed]
      refine .failed ?_ rfl
      simp only [canceledNotification, reset]
      split
      · exact .inl rfl
      · exact .inr rfl
    | stored hfailed hne hn hitems =>
      have hpos : (f.fill (k * tileSize) true).items.length ≠ 0 := fun h => hne (List.eq_nil_of_length_eq_zero h)
      rw [if_neg (by simp [hfailed]), if_neg hpos]
      refine .ready rfl base (by simp [doneNotification, write, stored]) (Nat.pos_of_ne_zero hpos)
        (f.fill (k * tileSize) true).fits hn fun j => ?_
      simp only [doneNotification, write, items, storedItem]
      split
      · next hj => exact (hitems j hj).symm
      · rfl
  | ready state =>
    rw [hfilling] at state
    cases state
  | failed state =>
    rw [hfilling] at state
    rcases state with state | state <;> cases state

/-- The tiles in the window of list `a` are, or will be, what the outcomes say of the tiles `W` of the list. -/
structure Resolves (p : ListThreads κ α tileSize) (a : κ) (item : ℕ → ListItem α) (n : ℕ) (s : Sys κ α) (W : TileWindow)
    (o : ItemLocation → Outcome) : Prop where
  wellFormed : s.WellFormed
  absent : ∀ loc, W.get loc = none → (s.lists a).active loc = none
  present : ∀ loc k, W.get loc = some k → ∃ i, (s.lists a).active loc = some i ∧
    (s.tile (a, i)).Comes (p.filler a) item n k (s.Pending (a, i)) (o loc)

variable {p : ListThreads κ α tileSize} {a : κ} {item : ℕ → ListItem α} {n : ℕ} {s s' : Sys κ α} {W : TileWindow}
  {o : ItemLocation → Outcome}

section

omit [DecidableEq κ]

/-- No tile is empty, or holds items beyond its end or the end of the list. -/
theorem Resolves.bounds (h : Resolves p a item n s W o) {loc : ItemLocation} {k count : ℕ} (hk : W.get loc = some k)
    (ho : o loc = .ok count) : 0 < count ∧ count ≤ tileSize ∧ k * tileSize + count ≤ n := by
  obtain ⟨i, -, hcomes⟩ := h.present loc k hk
  rw [ho] at hcomes
  cases hcomes with
  | filling _ _ _ _ _ gives =>
    generalize (p.filler a).fill (k * tileSize) true = r at gives
    generalize hres : (Except.ok count : Outcome) = result at gives
    cases gives with
    | failed => cases hres
    | stored _ hne hn =>
      obtain rfl := Except.ok.inj hres
      exact ⟨List.length_pos_iff.mpr hne, r.fits, hn⟩
  | ready _ _ _ pos fits hn => exact ⟨pos, fits, hn⟩

end

theorem WorkerStep.resolves (hs : WorkerStep p s s') (h : Resolves p a item n s W o) : Resolves p a item n s' W o := by
  have hactive : (s'.lists a).active = (s.lists a).active := by
    cases hs with
    | take => rfl
    | finish => exact (s.finish_lists _ true a).1
  refine ⟨hs.wellFormed p h.wellFormed, fun loc hloc => by rw [hactive, h.absent loc hloc], fun loc k hk => ?_⟩
  obtain ⟨i, hi, hcomes⟩ := h.present loc k hk
  refine ⟨i, by rw [hactive, hi], ?_⟩
  cases hs with
  | @take w rest hq =>
    refine hcomes.imp fun hp => ?_
    simp only [Sys.Pending, Sys.take, List.mem_cons]
    rcases hp with hp | hp
    · rw [hq, List.mem_cons] at hp
      tauto
    · exact .inr (.inr hp)
  | @finish w hw =>
    by_cases hwi : (a, i) = w
    · subst hwi
      rw [Sys.finish, Sys.setTile_tile]
      exact hcomes.doFillTile (h.wellFormed.running_filling _ hw)
    · have ht : (s.finish p w true).tile (a, i) = s.tile (a, i) := by
        rw [Sys.finish, Sys.setTile_tile_ne _ _ hwi]
        rfl
      rw [ht]
      refine hcomes.imp fun hp => ?_
      simpa only [Sys.Pending, Sys.finish, Sys.setTile_queue, Sys.setTile_running, List.mem_erase_of_ne hwi] using hp

theorem Workers.resolves (hs : Workers p s s') (h : Resolves p a item n s W o) : Resolves p a item n s' W o := by
  induction hs with
  | refl => exact h
  | tail _ hstep ih => exact hstep.resolves ih

/-- After the wait for a tile, its outcome is there. -/
theorem waitForReadyState_resolves (h : Resolves p a item n s W o) {loc : ItemLocation} {k : ℕ}
    (hk : W.get loc = some k) :
    ∃ i s', (s.lists a).active loc = some i ∧ waitForReadyState p (a, i) s = some ((o loc).map fun _ => (), s') ∧
      Resolves p a item n s' W o ∧ ∀ count, o loc = .ok count →
        (s'.tile (a, i)).storedItemsCount = count ∧ count ≤ tileSize ∧
          ∀ j, (s'.tile (a, i)).items j = storedItem tileSize item k count j := by
  obtain ⟨i, hi, -⟩ := h.present loc k hk
  have h' := Workers.resolves (awaited_workers p s (a, i)) h
  have hactive : ((s.awaited p (a, i)).lists a).active loc = some i := by
    obtain ⟨j, hj, -⟩ := h'.present loc k hk
    have hsame : ∀ {s s' : Sys κ α}, Workers p s s' → (s'.lists a).active = (s.lists a).active := by
      intro s s' hs
      induction hs with
      | refl => rfl
      | tail _ hstep ih =>
        cases hstep with
        | take => exact ih
        | finish => exact ((Sys.finish_lists _ _ true a).1).trans ih
    rw [hsame (awaited_workers p s (a, i)), hi]
  obtain ⟨j, hj, hcomes⟩ := h'.present loc k hk
  obtain rfl : i = j := by simpa [hactive] using hj
  refine ⟨i, s.awaited p (a, i), hi, ?_, h', ?_⟩
  · unfold waitForReadyState
    dsimp only
    generalize hres : o loc = result at hcomes
    cases hcomes with
    | filling _ _ _ _ hp => exact absurd hp (awaited_not_pending h.wellFormed (a, i))
    | ready state => simp only [state, Except.map]
    | failed state error => rcases state with state | state <;> simp only [state, error, Except.map]
  · intro count hcount
    rw [hcount] at hcomes
    cases hcomes with
    | filling _ _ _ _ hp => exact absurd hp (awaited_not_pending h.wellFormed (a, i))
    | ready _ _ stored _ fits _ items => exact ⟨stored, fits, items⟩

/-! ## The iterator -/

/-- The tiles at the places that the iterator visits, by number, with their outcomes. -/
def visited (W : TileWindow) (o : ItemLocation → Outcome) (locs : List ItemLocation) : List (ℕ × Outcome) :=
  locs.filterMap fun loc => (W.get loc).map fun k => (k, o loc)

/-- The tiles with items among the visited ones, with the number of their items. -/
def readyTiles (tiles : List (ℕ × Outcome)) : List (ℕ × ℕ) :=
  tiles.filterMap fun v => v.2.toOption.map fun count => (v.1, count)

/-- What `put_list_error` makes of the errors of the visited tiles. -/
def firstError : ListError → List (ℕ × Outcome) → ListError
  | e, [] => e
  | e, (_, .ok _) :: tiles => firstError e tiles
  | e, (_, .error e') :: tiles => firstError (ConstIterator.putListError e e') tiles

namespace ConstIterator

/-- The iterator stands at an item of the first of the tiles `ready`, or at the end; there will be the error `e` when it
has got to the end. -/
structure Stands (it : ConstIterator) (W : TileWindow) (o : ItemLocation → Outcome) (ready : List (ℕ × ℕ))
    (e : ListError) : Prop where
  ready_eq : readyTiles (visited W o it.tiles) = ready
  error_eq : firstError it.firstListError (visited W o it.tiles) = e
  head : ∀ loc rest, it.tiles = loc :: rest → ∃ k count, W.get loc = some k ∧ o loc = .ok count

variable {it : ConstIterator} {ready : List (ℕ × ℕ)} {e : ListError}

/-- At the end, there are no tiles left. -/
theorem Stands.eq_end (h : it.Stands W o [] e) : it.tiles = [] ∧ it.firstListError = e := by
  obtain ⟨hready, herror, hhead⟩ := h
  cases ht : it.tiles with
  | nil =>
    rw [ht] at herror
    exact ⟨rfl, herror⟩
  | cons loc rest =>
    obtain ⟨k, count, hk, ho⟩ := hhead loc rest ht
    simp [ht, visited, readyTiles, hk, ho, Except.toOption] at hready

theorem Stands.eq_cons {k count : ℕ} (h : it.Stands W o ((k, count) :: ready) e) :
    ∃ loc rest, it.tiles = loc :: rest ∧ W.get loc = some k ∧ o loc = .ok count ∧
      readyTiles (visited W o rest) = ready ∧ firstError it.firstListError (visited W o rest) = e := by
  obtain ⟨hready, herror, hhead⟩ := h
  cases ht : it.tiles with
  | nil =>
    rw [ht] at hready
    cases hready
  | cons loc rest =>
    obtain ⟨k', count', hk, ho⟩ := hhead loc rest ht
    rw [ht] at hready herror
    simp only [visited, readyTiles, List.filterMap_cons, hk, ho, Option.map_some, Except.toOption, List.cons.injEq,
      Prod.mk.injEq] at hready
    simp only [visited, List.filterMap_cons, hk, ho, Option.map_some, firstError] at herror
    obtain ⟨⟨rfl, rfl⟩, hready⟩ := hready
    exact ⟨loc, rest, rfl, hk, ho, hready, herror⟩

/-- The number of items of a tile, or its error. -/
theorem sizeOfTile_resolves (h : Resolves p a item n s W o) {loc : ItemLocation} {k : ℕ} (hk : W.get loc = some k) :
    ∃ i s', (s.lists a).active loc = some i ∧ sizeOfTile p a i s = some (o loc, s') ∧ Resolves p a item n s' W o := by
  obtain ⟨i, s', hi, hwait, h', hready⟩ := waitForReadyState_resolves h hk
  refine ⟨i, s', hi, ?_, h'⟩
  rw [sizeOfTile, Op.bind_of_some hwait]
  cases ho : o loc with
  | error e => rfl
  | ok count =>
    obtain ⟨hstored, -⟩ := hready count ho
    rw [← hstored]
    rfl

/-- `find_first` skips the tiles that are absent, or have failed. -/
theorem findFirst_resolves (tiles : List ItemLocation) (e : ListError) (h : Resolves p a item n s W o) :
    ∃ it s', findFirst p a tiles 0 e s = some (it, s') ∧ Resolves p a item n s' W o ∧ it.idx = 0 ∧
      it.Stands W o (readyTiles (visited W o tiles)) (firstError e (visited W o tiles)) := by
  induction tiles generalizing e s with
  | nil => exact ⟨_, s, rfl, h, rfl, rfl, rfl, fun loc rest ht => by cases ht⟩
  | cons loc rest ih =>
    have htheList : theList a s = some (s.lists a, s) := rfl
    rw [findFirst, Op.bind_of_some htheList]
    cases hk : W.get loc with
    | none =>
      rw [h.absent loc hk, show visited W o (loc :: rest) = visited W o rest by simp [visited, hk]]
      exact ih e h
    | some k =>
      obtain ⟨i, s₁, hi, hsize, h₁⟩ := sizeOfTile_resolves h hk
      have hvisited : visited W o (loc :: rest) = (k, o loc) :: visited W o rest := by simp [visited, hk]
      rw [hi]
      dsimp only
      rw [Op.bind_of_some hsize, hvisited]
      cases ho : o loc with
      | ok count =>
        dsimp only
        rw [if_pos (h.bounds hk ho).1]
        refine ⟨_, s₁, rfl, h₁, rfl, by rw [hvisited, ho], by rw [hvisited, ho], fun loc' rest' ht => ?_⟩
        obtain ⟨rfl, rfl⟩ := List.cons.inj ht
        exact ⟨k, count, hk, ho⟩
      | error e' => exact ih _ h₁

/-- The iterator of `begin`. -/
theorem start_resolves (first : ℕ) (h : Resolves p a item n s W o) :
    let tiles := visited W o (tilesFrom ((s.lists a).contains tileSize first))
    ∃ it s', start p a first s = some (it, s') ∧ Resolves p a item n s' W o ∧
      it.Stands W o (readyTiles tiles) (firstError .ok tiles) ∧
        (readyTiles tiles ≠ [] → it.idx = first % tileSize) := by
  obtain ⟨it, s', hfind, h', -, hstands⟩ :=
    findFirst_resolves (tilesFrom ((s.lists a).contains tileSize first)) .ok h
  have htheList : theList a s = some (s.lists a, s) := rfl
  refine ⟨if it.tiles = [] then it else { it with idx := first % tileSize }, s', ?_, h', ?_, fun hne => ?_⟩
  · rw [start, Op.bind_of_some htheList, Op.bind_of_some hfind]
    rfl
  · split
    · exact hstands
    · exact ⟨hstands.ready_eq, hstands.error_eq, hstands.head⟩
  · rw [if_neg fun ht => hne ?_]
    rw [← hstands.ready_eq, ht]
    rfl

/-- Beyond the last tile, the iterator has an error for the reader. -/
theorem deref_end (hstands : it.Stands W o [] e) (s : Sys κ α) :
    it.deref p a s = some (.error (if e = .ok then .internal else e), s) := by
  obtain ⟨ht, rfl⟩ := hstands.eq_end
  unfold deref
  rw [ht]
  rfl

theorem deref_resolves {k count : ℕ} (h : Resolves p a item n s W o) (hstands : it.Stands W o ((k, count) :: ready) e) :
    ∃ s', it.deref p a s = some (.ok (storedItem tileSize item k count it.idx), s') ∧ Resolves p a item n s' W o := by
  obtain ⟨loc, rest, ht, hk, ho, -⟩ := hstands.eq_cons
  obtain ⟨i, s', hi, hwait, h', hready⟩ := waitForReadyState_resolves h hk
  obtain ⟨-, -, hitems⟩ := hready count ho
  have htheList : theList a s = some (s.lists a, s) := rfl
  refine ⟨s', ?_, h'⟩
  unfold deref
  rw [ht]
  dsimp only
  rw [Op.bind_of_some htheList, hi]
  dsimp only
  rw [getListItemByRawIndex, Op.bind_of_some hwait, ho, ← hitems]
  rfl

theorem next_resolves {k count : ℕ} (h : Resolves p a item n s W o) (hstands : it.Stands W o ((k, count) :: ready) e) :
    ∃ it' s', it.next p a s = some (.ok it', s') ∧ Resolves p a item n s' W o ∧
      it'.Stands W o (if it.idx + 1 < count then (k, count) :: ready else ready) e ∧
      it'.idx = if it.idx + 1 < count then it.idx + 1 else 0 := by
  obtain ⟨loc, rest, ht, hk, ho, hready, herror⟩ := hstands.eq_cons
  obtain ⟨i, s₁, hi, hsize, h₁⟩ := sizeOfTile_resolves h hk
  have htheList : theList a s = some (s.lists a, s) := rfl
  unfold next
  rw [ht]
  dsimp only
  rw [Op.bind_of_some htheList, hi]
  dsimp only
  rw [Op.bind_of_some hsize, ho]
  dsimp only
  split
  · exact ⟨{ it with idx := it.idx + 1 }, s₁, by rw [ht]; rfl, h₁, ⟨hstands.ready_eq, hstands.error_eq, hstands.head⟩,
      rfl⟩
  · obtain ⟨it', s₂, hfind, h₂, hidx, hstands'⟩ := findFirst_resolves rest it.firstListError h₁
    rw [hready, herror] at hstands'
    exact ⟨it', s₂, by rw [Op.bind_of_some hfind]; rfl, h₂, hstands', hidx⟩

end ConstIterator

/-! ## The loop of for_each_item -/

/-- What the loop does with the tiles `ready`, from the item at `idx` of the first one on; `e` is the error at their
end. -/
def deliver (tileSize : ℕ) (item : ℕ → ListItem α) (e : ListError) (apply : β → ℕ → ListItem α → Bool × β) :
    ℕ → ℕ → List (ℕ × ℕ) → ℕ → β → ListError × β
  | 0, _, _, _, x => (.ok, x)
  | _ + 1, _, [], _, x => (e, x)
  | left + 1, i, (k, count) :: ready, idx, x =>
    let r := apply x i (storedItem tileSize item k count idx)
    if r.1 then
      if idx + 1 < count then deliver tileSize item e apply left (i + 1) ((k, count) :: ready) (idx + 1) r.2
      else deliver tileSize item e apply left (i + 1) ready 0 r.2
    else (.ok, r.2)

theorem forEachCached_resolves (apply : β → ℕ → ListItem α → Bool × β) (left : ℕ) {i : ℕ} (x : β) {it : ConstIterator}
    {ready : List (ℕ × ℕ)} {e : ListError} (h : Resolves p a item n s W o) (hstands : it.Stands W o ready e) :
    ∃ s', forEachCached p a apply left i it x s =
      some (deliver tileSize item (if e = .ok then .internal else e) apply left i ready it.idx x, s') := by
  induction left generalizing i x s it ready with
  | zero => exact ⟨s, by cases ready <;> rfl⟩
  | succ left ih =>
    rw [forEachCached]
    cases ready with
    | nil =>
      rw [Op.bind_of_some (ConstIterator.deref_end hstands s)]
      exact ⟨s, rfl⟩
    | cons v ready =>
      obtain ⟨k, count⟩ := v
      obtain ⟨s₁, hderef, h₁⟩ := ConstIterator.deref_resolves h hstands
      obtain ⟨it', s₂, hnext, h₂, hstands', hidx'⟩ := ConstIterator.next_resolves h₁ hstands
      rw [Op.bind_of_some hderef]
      dsimp only
      rw [Op.bind_of_some hnext, deliver]
      dsimp only
      split
      · obtain ⟨s₃, hs₃⟩ := ih (i := i + 1) (apply x i (storedItem tileSize item k count it.idx)).2 h₂ hstands'
        refine ⟨s₃, hs₃.trans ?_⟩
        rw [hidx']
        by_cases hlt : it.idx + 1 < count
        · simp only [if_pos hlt]
        · simp only [if_neg hlt]
      · exact ⟨s₂, rfl⟩

/-- What `for_each_item` does for the items up to `last` when `warm_up_cache` has found them in the window. -/
def forEachInWindow (p : ListThreads κ α tileSize) (a : κ) (first last : ℕ)
    (apply : β → ℕ → ListItem α → Bool × β) (x : β) :
    Op (Sys κ α) (ListError × β) := do
  let it ← ConstIterator.start p a first
  forEachCached p a apply (last - first) first it x

theorem forEachItem_of_prefetch {sizeBits first count : ℕ} (apply : β → ℕ → ListItem α → Bool × β) (x : β)
    (hfirst : first < endOfRange sizeBits first count (s.lists a).numberOfEntries)
    (h : prefetch p a first (endOfRange sizeBits first count (s.lists a).numberOfEntries - first)
      (s.lists a).numberOfEntries false s = some (.ok true, s')) :
    forEachItem p a sizeBits first count apply x s =
      forEachInWindow p a first (endOfRange sizeBits first count (s.lists a).numberOfEntries) apply x s' := by
  have htheList : theList a s = some (s.lists a, s) := rfl
  rw [forEachItem, Op.bind_of_some htheList]
  rw [if_neg (by omega), Op.bind_of_some h]
  rfl

/-- What the loop delivers depends on the outcomes of the visited tiles only. -/
theorem forEachInWindow_resolves (first last : ℕ) (apply : β → ℕ → ListItem α → Bool × β) (x : β)
    (h : Resolves p a item n s W o) :
    let tiles := visited W o (ConstIterator.tilesFrom ((s.lists a).contains tileSize first))
    ∃ s', forEachInWindow p a first last apply x s =
      some (deliver tileSize item (if firstError .ok tiles = .ok then .internal else firstError .ok tiles) apply
        (last - first) first (readyTiles tiles) (first % tileSize) x, s') := by
  obtain ⟨it, s₁, hstart, h₁, hstands, hidx⟩ := ConstIterator.start_resolves first h
  obtain ⟨s₂, hs₂⟩ := forEachCached_resolves apply (last - first) (i := first) x h₁ hstands
  refine ⟨s₂, ?_⟩
  rw [forEachInWindow, Op.bind_of_some hstart, hs₂]
  generalize readyTiles _ = ready at hidx
  cases ready with
  | nil => cases last - first <;> rfl
  | cons v ready => rw [hidx (by simp)]

end Listbrokers.Tiles
