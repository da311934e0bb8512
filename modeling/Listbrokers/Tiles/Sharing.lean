import Listbrokers.Tiles.Isolation

/-!
# Which operations leave another list undisturbed

The operations of the reading thread on list `a`, and when they spare another
list `b` (`Operation.Spares`): no `clear` of `a` while a fill is queued for `b`.
A `clear` comes with an access to an item, or a range that fits into the tiles,
of which no tile of `a` holds anything, and with `clear_all` and the destruction
of `a`. An operation that spares `b` leaves it to the workers, and one that does
not cancels a queued tile of `b` (`Settles`).
-/

namespace Listbrokers.Tiles

open Framework

variable {κ α β γ : Type} [DecidableEq κ] [Inhabited α] {tileSize : ℕ} (p : ListThreads κ α tileSize)

/-- What the reading thread does with a tiled list. -/
inductive Operation (α β : Type)
  | access (idx : ℕ)
  | forEach (sizeBits first count : ℕ) (apply : β → ℕ → ListItem α → Bool × β) (x : β)
  | clearAll
  | destroy

/-- Run an operation on list `a`; the destructor of `ListTiles_` clears the list. -/
def Operation.run (a : κ) : Operation α β → Op (Sys κ α) Unit
  | .access idx => do
    let _ ← Tiles.access p a idx
    pure ()
  | .forEach sizeBits first count apply x => do
    let _ ← forEachItem p a sizeBits first count apply x
    pure ()
  | .clearAll => Tiles.clearAll p a
  | .destroy => clear p a

variable (a b : κ)

/-- An access to item `idx` does not clear list `a` while a fill is queued for `b`. -/
def AccessSpares (tileSize idx : ℕ) (s : Sys κ α) : Prop :=
  idx < (s.lists a).numberOfEntries → (s.lists a).Clears tileSize idx 1 → s.NoneQueued b

/-- None of the accesses of the loop over `left` items from `i` on does. -/
def SweepSpares (apply : β → ℕ → ListItem α → Bool × β) : ℕ → ℕ → β → Sys κ α → Prop
  | 0, _, _, _ => True
  | left + 1, i, x, s => AccessSpares a b tileSize i s ∧
    ∀ item s', access p a i s = some (.ok item, s') → (apply x i item).1 = true →
      SweepSpares apply left (i + 1) (apply x i item).2 s'

/-- The operation on list `a` spares list `b`. -/
def Operation.Spares (s : Sys κ α) : Operation α β → Prop
  | .access idx => AccessSpares a b tileSize idx s
  | .forEach sizeBits first count apply x =>
    let left := endOfRange sizeBits first count (s.lists a).numberOfEntries - first
    ((s.lists a).Clears tileSize first left → s.NoneQueued b) ∧
      (3 * tileSize < left + first % tileSize → SweepSpares p a b apply left first x s)
  | .clearAll => s.NoneQueued b
  | .destroy => s.NoneQueued b

variable {p a b} {s s' s'' : Sys κ α}

/-- From `s` to `s'`, list `b` is left to the workers if it is spared, and disturbed if it is not. -/
structure Settles (p : ListThreads κ α tileSize) (b : κ) (spares : Prop) (s s' : Sys κ α) : Prop where
  progress : spares → Progress p b s s'
  disturbs : ¬ spares → Disturbs b s s'

theorem Settles.of_progress {spares : Prop} (hs : spares) (h : Progress p b s s') : Settles p b spares s s' :=
  ⟨fun _ => h, fun hn => absurd hs hn⟩

/-- What follows on an operation, without clearing the list, changes nothing of this. -/
theorem Settles.made {spares : Prop} {m : Op (Sys κ α) γ} {r : γ} (h : Settles p b spares s s')
    (hm : Made p a False m) (hab : a ≠ b) (hwf : s'.WellFormed) (hs : m s' = some (r, s'')) :
    Settles p b spares s s'' := by
  refine ⟨fun hsp => (h.progress hsp).trans (hm.progress hab hwf False.elim hs), fun hsp => ?_⟩
  obtain ⟨i, hn, hc⟩ := h.disturbs hsp
  exact ⟨i, hn, hm.canceled hab hwf hc hs⟩

section

omit [Inhabited α]

theorem exists_queued (h : ¬ s.NoneQueued b) : ∃ i, (b, i) ∈ s.queue := by
  simp only [Sys.NoneQueued, not_forall, Decidable.not_not] at h
  obtain ⟨w, hw, rfl⟩ := h
  exact ⟨w.2, hw⟩

end

/-- An operation that cancels all queued tiles spares `b` only if none is queued. -/
theorem Cancels.settles {m : Op (Sys κ α) γ} (hc : Cancels b m) (hm : Made p a True m) (hab : a ≠ b) {r : γ}
    (h : s.WellFormed) (hs : m s = some (r, s')) : Settles p b (s.NoneQueued b) s s' := by
  refine ⟨fun hn => hm.progress hab h (fun _ => hn) hs, fun hn => ?_⟩
  obtain ⟨i, hi⟩ := exists_queued hn
  refine ⟨i, ?_, (hc s r s' i h hi hs).2⟩
  rw [h.queue_filling _ hi]
  decide

/-! ## Prefetching -/

theorem fill_cancels (hab : a ≠ b) (centerIdx n : ℕ) : Cancels b (fill p a centerIdx n) := by
  refine (clear_cancels hab).bind p (fun _ => .ite (.pure ()) ?_) hab
  refine .bind (.basic (.materializeTile 0 _ _)) fun _ => .ite (.basic .waitEmpty) ?_
  refine .bind (.basic (.materializeTile 1 _ _)) fun _ => .ite (.basic .waitEmpty) ?_
  exact .bind (.basic (.materializeTile 2 _ _)) fun _ => .basic .waitEmpty

theorem prefetchFrom_cancels {l : TiledList α} {first count n : ℕ} {autoSlide : Bool} (hab : a ≠ b)
    (h : l.Clears tileSize first count) : Cancels b (prefetchFrom p a l first count n autoSlide) := by
  obtain ⟨h0, hfits, hnone⟩ := h
  intro s r s' i hwf hi hs
  unfold prefetchFrom at hs
  rw [if_neg (by omega)] at hs
  obtain ⟨_, s₁, hcheck, hs⟩ := Op.bind_eq_some.mp hs
  simp only [check, Option.ite_none_right_eq_some, Option.some.injEq, Prod.mk.injEq, true_and] at hcheck
  obtain ⟨-, rfl⟩ := hcheck
  have h3 : (l.checkOverlappingRangeForPrefetch tileSize first count).1 ≠ 0 := by
    revert hnone
    unfold TiledList.checkOverlappingRangeForPrefetch
    dsimp only
    split
    · cases hl : l.contains tileSize first with
      | none => simp_all
      | some loc => cases loc <;> simp [computeNumberOfRequiredSlides]
    · split
      · cases hl : l.contains tileSize (first + count - 1) with
        | none => simp_all
        | some loc => cases loc <;> simp [computeNumberOfRequiredSlides]
      · simp
  rw [if_neg (by simp [h3]), hnone] at hs
  exact ((fill_cancels hab _ n).bind p (fun _ => .pure _) hab) s r s' i hwf hi hs

theorem prefetch_settles {first count n : ℕ} {autoSlide : Bool} {r} (hab : a ≠ b) (h : s.WellFormed)
    (hs : prefetch p a first count n autoSlide s = some (r, s')) :
    Settles p b ((s.lists a).Clears tileSize first count → s.NoneQueued b) s s' := by
  have hs : prefetchFrom p a (s.lists a) first count n autoSlide s = some (r, s') := hs
  refine ⟨fun hn => (prefetchFrom_made p a _ first count n autoSlide id).progress hab h hn hs, fun hn => ?_⟩
  obtain ⟨hc, hn⟩ := Classical.not_imp.mp hn
  exact ((prefetchFrom_cancels hab hc).settles (prefetchFrom_made p a _ first count n autoSlide fun _ => trivial)
    hab h hs).disturbs hn

/-- `prefetch` refuses only ranges that do not fit into the tiles. -/
theorem prefetch_refuses {first count n : ℕ} {autoSlide : Bool}
    (hs : prefetch p a first count n autoSlide s = some (.ok false, s')) :
    s' = s ∧ (count = 0 ∨ 3 * tileSize < count + first % tileSize) := by
  have hs : prefetchFrom p a (s.lists a) first count n autoSlide s = some (.ok false, s') := hs
  unfold prefetchFrom at hs
  split at hs
  · cases hs
    exact ⟨rfl, by assumption⟩
  · obtain ⟨_, s₁, -, hs⟩ := Op.bind_eq_some.mp hs
    split at hs
    · cases hs
    · revert hs
      generalize ((s.lists a).checkOverlappingRangeForPrefetch tileSize first count).2 = direction
      intro hs
      rcases direction with _ | loc
      · obtain ⟨_, _, -, hs⟩ := Op.bind_eq_some.mp hs
        cases hs
      · cases loc with
        | center => cases hs
        | up | down =>
          obtain ⟨_, _, -, hs⟩ := Op.bind_eq_some.mp hs
          cases hs

/-! ## Reading -/

theorem access_settles {idx : ℕ} {r} (hab : a ≠ b) (h : s.WellFormed) (hs : access p a idx s = some (r, s')) :
    Settles p b (AccessSpares a b tileSize idx s) s s' := by
  obtain ⟨l, s₁, hl, hs⟩ := Op.bind_eq_some.mp hs
  cases hl
  split at hs
  · cases hs
    exact .of_progress (fun hn => absurd hn (by omega)) (.refl b _)
  · obtain ⟨r₁, s₁, hp, hs⟩ := Op.bind_eq_some.mp hs
    have hset := prefetch_settles hab h hp
    have hwf := (prefetch_made p a trivial _ _ _ _).wellFormed p _ _ _ hp h
    have hset : Settles p b (AccessSpares a b tileSize idx s) s s₁ :=
      ⟨fun hsp => hset.progress (hsp (by omega)), fun hsp => hset.disturbs (fun hn => hsp fun _ => hn)⟩
    rcases r₁ with e | ok
    · cases hs
      exact hset
    · cases ok with
      | false =>
        cases hs
        exact hset
      | true => exact hset.made (getListItemUnsafe_made p a idx) hab hwf hs

theorem forEachAccessed_settles {apply : β → ℕ → ListItem α → Bool × β} {left i : ℕ} {x : β} {r} (hab : a ≠ b)
    (h : s.WellFormed) (hs : forEachAccessed p a apply left i x s = some (r, s')) :
    Settles p b (SweepSpares p a b apply left i x s) s s' := by
  induction left generalizing i x s with
  | zero =>
    cases hs
    exact .of_progress trivial (.refl b _)
  | succ left ih =>
    obtain ⟨r₁, s₁, ha, hs⟩ := Op.bind_eq_some.mp hs
    have hset := access_settles hab h ha
    have hwf := (access_made p a trivial i).wellFormed p _ _ _ ha h
    by_cases hsp : AccessSpares a b tileSize i s
    · -- the access spares the list; what the rest of the loop does decides
      have hprog := hset.progress hsp
      have hrest : Settles p b (∀ item s', access p a i s = some (.ok item, s') → (apply x i item).1 = true →
          SweepSpares p a b apply left (i + 1) (apply x i item).2 s') s s' := by
        rw [ha]
        rcases r₁ with e | item
        · cases hs
          exact .of_progress (fun _ _ he => by cases he) hprog
        · dsimp only at hs
          split at hs
          · rename_i hgo
            have hih := ih hwf hs
            refine ⟨fun hall => hprog.trans (hih.progress (hall item s₁ rfl hgo)),
              fun hall => hprog.disturbs h (hih.disturbs fun hsw => hall ?_)⟩
            rintro item' s₂ he -
            cases he
            exact hsw
          · rename_i hstop
            cases hs
            exact .of_progress (fun item' s₂ he hgo => by cases he; exact absurd hgo hstop) hprog
      exact ⟨fun hsw => hrest.progress hsw.2, fun hsw => hrest.disturbs fun hall => hsw ⟨hsp, hall⟩⟩
    · refine ⟨fun hsw => absurd hsw.1 hsp, fun _ => ?_⟩
      obtain ⟨j, hn, hc⟩ := hset.disturbs hsp
      refine ⟨j, hn, ?_⟩
      rcases r₁ with e | item
      · cases hs
        exact hc
      · dsimp only at hs
        split at hs
        · exact (forEachAccessed_made p a apply trivial _ _ _).canceled hab hwf hc hs
        · cases hs
          exact hc

theorem forEachItem_settles {sizeBits first count : ℕ} {apply : β → ℕ → ListItem α → Bool × β} {x : β} {r}
    (hab : a ≠ b) (h : s.WellFormed) (hs : forEachItem p a sizeBits first count apply x s = some (r, s')) :
    Settles p b ((Operation.forEach sizeBits first count apply x).Spares p a b s) s s' := by
  obtain ⟨l, s₁, hl, hs⟩ := Op.bind_eq_some.mp hs
  cases hl
  simp only [Operation.Spares]
  generalize hlast : endOfRange sizeBits first count (s.lists a).numberOfEntries = last at hs ⊢
  split at hs
  · cases hs
    have h0 : last - first = 0 := by omega
    rw [h0]
    exact .of_progress ⟨fun hc => absurd hc.1 (by omega), fun _ => trivial⟩ (.refl b _)
  · obtain ⟨r₁, s₁, hp, hrest⟩ := Op.bind_eq_some.mp hs
    have hset := prefetch_settles hab h hp
    have hwf := (prefetch_made p a trivial _ _ _ _).wellFormed p _ _ _ hp h
    by_cases hfits : 3 * tileSize < last - first + first % tileSize
    · have hclears : ¬ (s.lists a).Clears tileSize first (last - first) := fun hc => by
        have := hc.2.1
        omega
      have hpre : r₁ = .ok false ∧ s₁ = s := by
        have hp : prefetchFrom p a (s.lists a) first (last - first) _ false s = some (r₁, s₁) := hp
        rw [prefetchFrom, if_pos (.inr hfits)] at hp
        cases hp
        exact ⟨rfl, rfl⟩
      obtain ⟨rfl, rfl⟩ := hpre
      have hsweep := forEachAccessed_settles hab hwf hrest
      exact ⟨fun hsp => hsweep.progress (hsp.2 hfits),
        fun hsp => hsweep.disturbs fun hsw => hsp ⟨fun hc => absurd hc hclears, fun _ => hsw⟩⟩
    · have hset : Settles p b (((s.lists a).Clears tileSize first (last - first) → s.NoneQueued b) ∧
          (3 * tileSize < last - first + first % tileSize → SweepSpares p a b apply (last - first) first x s)) s s₁ :=
        ⟨fun hsp => hset.progress hsp.1, fun hsp => hset.disturbs fun hn => hsp ⟨hn, fun hf => absurd hf hfits⟩⟩
      rcases r₁ with e | ok
      · cases hrest
        exact hset
      · cases ok with
        | false =>
          have := (prefetch_refuses hp).2
          omega
        | true =>
          exact hset.made (.bind (ConstIterator.start_made p a first) fun it => forEachCached_made p a apply _ _ _ _)
            hab hwf hrest

/-! ## The operations -/

theorem Operation.settles (op : Operation α β) (hab : a ≠ b) (h : s.WellFormed)
    (hs : op.run p a s = some ((), s')) : Settles p b (op.Spares p a b s) s s' := by
  cases op with
  | access idx =>
    obtain ⟨r, s₁, hr, hs⟩ := Op.bind_eq_some.mp hs
    cases hs
    exact access_settles hab h hr
  | forEach sizeBits first count apply x =>
    obtain ⟨r, s₁, hr, hs⟩ := Op.bind_eq_some.mp hs
    cases hs
    exact forEachItem_settles hab h hr
  | clearAll =>
    refine Cancels.settles ?_ (clearAll_made p a trivial) hab h hs
    exact (clear_cancels hab).bind p (fun _ => .basic (.modifyList _ fun _ => rfl)) hab
  | destroy => exact (clear_cancels hab).settles (clear_made p a trivial) hab h hs

/-- A function for `for_each_item` that collects the items. -/
def collect (xs : List (ℕ × ℕ)) (i : ℕ) (item : ListItem ℕ) : Bool × List (ℕ × ℕ) := (true, xs ++ [(i, item.data)])

end Listbrokers.Tiles
