import Listbrokers.Tiles.Reading

/-!
# What the operations on a tiled list are made of

Every operation of the reading thread on a list `a` is composed of a few basic
ones (`Basic`). What holds of these holds of `slide`, `prefetch`, `access` and
`forEachItem`, so that it need not be proved for each of them. The basic
operation `cancelAllQueuedFillers` stands apart: only `clear` uses it.
-/

namespace Listbrokers.Tiles

open Framework

variable {κ α β γ : Type} [DecidableEq κ] [Inhabited α] {tileSize : ℕ} (p : ListThreads κ α tileSize) (a : κ)

/-- The basic operations on list `a`; with `cancelAllQueuedFillers` only if `clears`. -/
inductive Basic (clears : Prop) : (γ : Type) → Op (Sys κ α) γ → Prop
  | fail {γ : Type} : Basic clears _ (fun _ => none : Op (Sys κ α) γ)
  | check (c : Prop) [Decidable c] : Basic clears _ (check c)
  | theList : Basic clears _ (theList a)
  | isFree (i : Fin 3) : Basic clears _ (isFree (a, i))
  | findFreeTile : Basic clears _ (findFreeTile a)
  | modifyList (f : TiledList α → TiledList α) (hf : ∀ l, (f l).hot = l.hot) : Basic clears _ (modifyList a f)
  | materializeTile (i : Fin 3) (loc : Option ItemLocation) (idx : ℕ) :
      Basic clears _ (materializeTile tileSize (a, i) loc idx)
  | cancelAndReset (i : Fin 3) : Basic clears _ (cancelAndReset p (a, i))
  | waitForReadyState (i : Fin 3) : Basic clears _ (waitForReadyState p (a, i))
  | waitEmpty : Basic clears _ (waitEmptyIfSynchronized p)
  | cancelAll (h : clears) : Basic clears _ (cancelAllQueuedFillers tileSize)

/-- Made of the basic operations on list `a`. -/
abbrev Made (clears : Prop) (m : Op (Sys κ α) γ) : Prop := Composed (Basic p a clears) m

variable {clears : Prop}

theorem materializeCenterTile_made (idx : ℕ) : Made p a clears (materializeCenterTile tileSize a idx) := by
  refine .bind (.basic .theList) fun l => ?_
  cases l.active .center with
  | some i => exact .pure ()
  | none =>
    refine .bind (.basic .findFreeTile) fun i => ?_
    cases i with
    | none => exact .basic (.check False)
    | some i => exact .basic (.materializeTile i _ idx)

theorem slide_made (idx n : ℕ) (tileToPushOut tileToKeep : ItemLocation) :
    Made p a clears (slide p a idx n tileToPushOut tileToKeep) := by
  refine .bind (.basic .theList) fun l => .bind (.basic (.modifyList _ fun _ => rfl)) fun _ =>
    .bind (.basic (.check _)) fun _ => ?_
  cases l.active tileToPushOut with
  | none => exact .bind (materializeCenterTile_made p a idx) fun _ => .basic .waitEmpty
  | some temp =>
    refine .ite (.basic (.check _)) ?_
    exact .bind (.basic (.isFree temp)) fun _ => .bind (.basic (.check _)) fun _ =>
      .bind (.basic (.cancelAndReset temp)) fun _ => .bind (materializeCenterTile_made p a idx) fun _ =>
      .bind (.basic (.materializeTile temp _ _)) fun _ => .basic .waitEmpty

theorem slideUp_made (idx n steps : ℕ) : Made p a clears (slideUp p a idx n steps) :=
  .bind (.basic (.check _)) fun _ => .forM (fun _ => slide_made p a _ _ _ _) _

theorem slideDown_made (idx n steps : ℕ) : Made p a clears (slideDown p a idx n steps) :=
  .bind (.basic (.check _)) fun _ => .forM (fun _ => slide_made p a _ _ _ _) _

theorem clear_made (h : clears) : Made p a clears (clear p a) :=
  .bind (.basic (.cancelAll h)) fun _ => .bind
    (.forM (fun i => .bind (.basic (.isFree i)) fun _ => .ite (.basic (.cancelAndReset i)) (.pure ())) _)
    fun _ => .basic (.modifyList _ fun _ => rfl)

theorem fill_made (h : clears) (centerIdx n : ℕ) : Made p a clears (fill p a centerIdx n) := by
  refine .bind (clear_made p a h) fun _ => .ite (.pure ()) ?_
  refine .bind (.basic (.materializeTile 0 _ _)) fun _ => .ite (.basic .waitEmpty) ?_
  refine .bind (.basic (.materializeTile 1 _ _)) fun _ => .ite (.basic .waitEmpty) ?_
  exact .bind (.basic (.materializeTile 2 _ _)) fun _ => .basic .waitEmpty

theorem clearAll_made (h : clears) : Made p a clears (clearAll p a) :=
  .bind (clear_made p a h) fun _ => .basic (.modifyList _ fun _ => rfl)

/-- `prefetch` clears the list: the range fits into the tiles, but none of them is of any use for it. -/
def TiledList.Clears (tileSize : ℕ) (l : TiledList α) (first count : ℕ) : Prop :=
  0 < count ∧ count + first % tileSize ≤ 3 * tileSize ∧
    (l.checkOverlappingRangeForPrefetch tileSize first count).2 = none

theorem slideOrFill_made {center n required : ℕ} {direction : Option ItemLocation} (h : direction = none → clears) :
    Made p a clears (slideOrFill p a center n required direction) := by
  rcases direction with _ | loc
  · exact .bind (fill_made p a (h rfl) _ _) fun _ => .pure _
  · cases loc with
    | up => exact .bind (slideUp_made p a _ _ _) fun _ => .pure _
    | center => exact .pure _
    | down => exact .bind (slideDown_made p a _ _ _) fun _ => .pure _

theorem prefetchFrom_made (l : TiledList α) (first count n : ℕ) (autoSlide : Bool)
    (h : l.Clears tileSize first count → clears) : Made p a clears (prefetchFrom p a l first count n autoSlide) := by
  unfold prefetchFrom
  split
  · exact .pure _
  · rename_i hfits
    exact .bind (.basic (.check _)) fun _ => .ite (.pure _)
      (slideOrFill_made p a fun hd => h ⟨by omega, by omega, hd⟩)

theorem prefetch_made (h : clears) (first count n : ℕ) (autoSlide : Bool) :
    Made p a clears (prefetch p a first count n autoSlide) :=
  .bind (.basic .theList) fun l => prefetchFrom_made p a l first count n autoSlide fun _ => h

/-! ## Reading -/

theorem sizeOfTile_made (i : Fin 3) : Made p a clears (sizeOfTile p a i) := by
  refine .bind (.basic (.waitForReadyState i)) fun r => ?_
  cases r with
  | error e => exact .pure _
  | ok _ => exact .bind (.basic .theList) fun _ => .pure _

theorem getListItemByRawIndex_made (i : Fin 3) (rawIndex : ℕ) :
    Made p a clears (getListItemByRawIndex p a i rawIndex) := by
  refine .bind (.basic (.waitForReadyState i)) fun r => ?_
  cases r with
  | error e => exact .pure _
  | ok _ => exact .bind (.basic .theList) fun _ => .pure _

theorem getListItemUnsafe_made (idx : ℕ) : Made p a clears (getListItemUnsafe p a idx) := by
  refine .bind (.basic .theList) fun l => ?_
  split
  · exact .basic .fail
  · exact getListItemByRawIndex_made p a _ _

theorem access_made (h : clears) (idx : ℕ) : Made p a clears (access p a idx) := by
  refine .bind (.basic .theList) fun _ => .ite (.pure _) (.bind (prefetch_made p a h _ _ _ _) fun r => ?_)
  rcases r with e | b
  · exact .pure _
  · cases b with
    | false => exact .pure _
    | true => exact getListItemUnsafe_made p a idx

namespace ConstIterator

theorem findFirst_made (tiles : List ItemLocation) (idx : ℕ) (e : ListError) :
    Made p a clears (findFirst p a tiles idx e) := by
  induction tiles generalizing idx e with
  | nil => exact .pure _
  | cons loc rest ih =>
    refine .bind (.basic .theList) fun l => ?_
    split
    · exact ih _ _
    · refine .bind (sizeOfTile_made p a _) fun r => ?_
      cases r with
      | error e => exact ih _ _
      | ok size => exact .ite (.pure _) (ih _ _)

theorem start_made (first : ℕ) : Made p a clears (start p a first) :=
  .bind (.basic .theList) fun _ => .bind (findFirst_made p a _ _ _) fun _ => .pure _

theorem deref_made (it : ConstIterator) : Made p a clears (it.deref p a) := by
  unfold deref
  split
  · exact .pure _
  · refine .bind (.basic .theList) fun l => ?_
    split
    · exact .basic .fail
    · exact getListItemByRawIndex_made p a _ _

theorem next_made (it : ConstIterator) : Made p a clears (it.next p a) := by
  unfold next
  split
  · exact .pure _
  · refine .bind (.basic .theList) fun l => ?_
    split
    · exact .basic .fail
    · refine .bind (sizeOfTile_made p a _) fun r => ?_
      cases r with
      | error e => exact .bind (findFirst_made p a _ _ _) fun _ => .pure _
      | ok size => exact .ite (.pure _) (.bind (findFirst_made p a _ _ _) fun _ => .pure _)

end ConstIterator

variable (apply : β → ℕ → ListItem α → Bool × β)

theorem forEachCached_made (left i : ℕ) (it : ConstIterator) (b : β) :
    Made p a clears (forEachCached p a apply left i it b) := by
  induction left generalizing i it b with
  | zero => exact .pure _
  | succ left ih =>
    refine .bind (it.deref_made p a) fun r => ?_
    cases r with
    | error e => exact .pure _
    | ok item =>
      refine .bind (it.next_made p a) fun r => ?_
      cases r with
      | error e => exact .pure _
      | ok it => exact .ite (ih _ _ _) (.pure _)

theorem forEachAccessed_made (h : clears) (left i : ℕ) (b : β) :
    Made p a clears (forEachAccessed p a apply left i b) := by
  induction left generalizing i b with
  | zero => exact .pure _
  | succ left ih =>
    refine .bind (access_made p a h i) fun r => ?_
    cases r with
    | error e => exact .pure _
    | ok item => exact .ite (ih _ _) (.pure _)

end Listbrokers.Tiles
