import Listbrokers.Tiles.WellFormed

/-!
# What is loaded into the tiles

With a filler that succeeds, a tile of list `a` is free, or it holds tile `k` of
the list, or it is going to hold it as soon as the workers get to it (`Slot`).
`Content` says so of the three tiles of a list, given which tile each of them is
used for. The workers keep the content (`Workers.content`); each basic operation
returns and changes it in the obvious way.
-/

namespace Listbrokers.Tiles

open Framework

variable {κ α γ : Type} {tileSize : ℕ}

/-- The filler stores exactly the items of the list that belong into a tile; if told to stop, it stores something
or fails. -/
structure Filler.Fills (f : Filler tileSize α) (item : ℕ → α) (n : ℕ) : Prop where
  not_failed : ∀ base, (f.fill base true).failed = false
  items : ∀ base, (f.fill base true).items = (List.range (min tileSize (n - base))).map fun i => item (base + i)
  stops : ∀ base < n, (f.fill base false).failed = true ∨ (f.fill base false).items ≠ []

theorem Filler.succeeding_fills (htile : 0 < tileSize) (item : ℕ → α) (n : ℕ) :
    (Filler.succeeding tileSize item n).Fills item n := by
  refine ⟨fun _ => rfl, fun _ => rfl, fun base hbase => .inr ?_⟩
  have hpos : min tileSize (n - base) ≠ 0 := by omega
  rw [ne_eq, ← List.length_eq_zero_iff]
  simpa [Filler.succeeding] using hpos

/-- A tile without items. -/
structure ListTile.Blank (t : ListTile α) : Prop where
  stored : t.storedItemsCount = 0
  child : ∀ j, (t.items j).child = .invalid

/-- Tile `k` of the list is ready to be read. -/
structure ListTile.Has (t : ListTile α) (tileSize : ℕ) (item : ℕ → α) (n k : ℕ) : Prop where
  state : t.state = .ready
  stored : t.storedItemsCount = min tileSize (n - k * tileSize)
  items : ∀ j < min tileSize (n - k * tileSize), t.items j = ⟨.invalid, item (k * tileSize + j)⟩

/-- What a tile is used for: for nothing, or for tile `k` of the list. -/
def Slot (tileSize : ℕ) (item : ℕ → α) (n : ℕ) (t : ListTile α) (pending : Prop) : Option ℕ → Prop
  | none => t.state = .free ∧ t.Blank
  | some k => k * tileSize < n ∧ t.base = k * tileSize ∧
    (t.state = .filling ∧ t.Blank ∧ pending ∨ t.Has tileSize item n k)

theorem Slot.imp {item : ℕ → α} {n : ℕ} {t : ListTile α} {pending pending' : Prop} {k : Option ℕ}
    (hp : pending → pending') (h : Slot tileSize item n t pending k) : Slot tileSize item n t pending' k := by
  cases k with
  | none => exact h
  | some k =>
    obtain ⟨hk, hb, hfill | hhas⟩ := h
    · exact ⟨hk, hb, .inl ⟨hfill.1, hfill.2.1, hp hfill.2.2⟩⟩
    · exact ⟨hk, hb, .inr hhas⟩

/-- The work for a tile is queued or being done. -/
def Sys.Pending (s : Sys κ α) (w : Work κ) : Prop := w ∈ s.queue ∨ w ∈ s.running

/-- The tiles of list `a`, of `n` items, hold the tiles `slots` of the list. -/
structure Content (a : κ) (tileSize : ℕ) (item : ℕ → α) (n : ℕ) (s : Sys κ α)
    (active : ItemLocation → Option (Fin 3)) (slots : Fin 3 → Option ℕ) : Prop where
  wellFormed : s.WellFormed
  size : (s.lists a).numberOfEntries = n
  active_eq : (s.lists a).active = active
  slot : ∀ i, Slot tileSize item n (s.tile (a, i)) (s.Pending (a, i)) (slots i)

variable {p : ListThreads κ α tileSize} {a : κ} {item : ℕ → α} {n : ℕ} {s s' : Sys κ α}
  {active : ItemLocation → Option (Fin 3)} {slots : Fin 3 → Option ℕ}

theorem blank_reset [Inhabited α] (t : ListTile α) (e : ListError) (state : ListTileState) :
    (t.reset tileSize e state).2.Blank :=
  ⟨rfl, fun _ => rfl⟩

theorem init_content [Inhabited α] (numberOfEntries : κ → ℕ) (item : ℕ → α) :
    Content a tileSize item (numberOfEntries a) (.init numberOfEntries) (fun _ => none) fun _ => none :=
  ⟨Sys.init_wellFormed _, rfl, rfl, fun _ => ⟨rfl, rfl, fun _ => rfl⟩⟩

/-! ## The workers -/

/-- A successful fill. -/
theorem doFillTile_has [Inhabited α] {f : Filler tileSize α} (hf : f.Fills item n) (htile : 0 < tileSize)
    {t : ListTile α} {k : ℕ} (hk : k * tileSize < n) (hb : t.base = k * tileSize) (ht : t.Blank) :
    (t.doFillTile f true).2.Has tileSize item n k ∧ (t.doFillTile f true).2.base = k * tileSize := by
  have hne : (f.fill t.base true).items.length = min tileSize (n - k * tileSize) := by
    rw [hf.items, List.length_map, List.length_range, hb]
  have hpos : min tileSize (n - k * tileSize) ≠ 0 := by omega
  unfold ListTile.doFillTile
  dsimp only
  rw [hf.not_failed, if_neg Bool.false_ne_true, if_neg (by rw [hne]; exact hpos)]
  refine ⟨⟨rfl, ?_, fun j hj => ?_⟩, hb⟩
  · simp only [ListTile.doneNotification, ListTile.write, hne, ht.stored, Nat.zero_add]
  · simp only [ListTile.doneNotification, ListTile.write, ht.child, hf.items, List.getElem_map, List.getElem_range, hb,
      List.length_map, List.length_range, hj, ↓reduceDIte]

theorem Sys.finish_lists [DecidableEq κ] [Inhabited α] (s : Sys κ α) (w : Work κ) (mayContinue : Bool) (b : κ) :
    ((s.finish p w mayContinue).lists b).active = (s.lists b).active ∧
      ((s.finish p w mayContinue).lists b).numberOfEntries = (s.lists b).numberOfEntries := by
  by_cases hb : b = w.1
  · subst hb
    simp [Sys.finish, Sys.setTile]
  · simp [Sys.finish, Sys.setTile, hb]

theorem WorkerStep.content [DecidableEq κ] [Inhabited α] (hf : (p.filler a).Fills item n) (hs : WorkerStep p s s')
    (h : Content a tileSize item n s active slots) : Content a tileSize item n s' active slots := by
  refine ⟨hs.wellFormed p h.wellFormed, ?_, ?_, fun i => ?_⟩
  · cases hs with
    | take => exact h.size
    | finish => rw [(s.finish_lists _ true a).2, h.size]
  · cases hs with
    | take => exact h.active_eq
    | finish => rw [(s.finish_lists _ true a).1, h.active_eq]
  · have hslot := h.slot i
    cases hs with
    | @take w rest hq =>
      have hp : (s.take w rest).Pending (a, i) ↔ s.Pending (a, i) := by
        simp only [Sys.Pending, Sys.take, hq, List.mem_cons]
        tauto
      exact Slot.imp hp.mpr hslot
    | @finish w hw =>
      have hfilling := h.wellFormed.running_filling w hw
      by_cases hwi : (a, i) = w
      · subst hwi
        rw [Sys.finish, Sys.setTile_tile]
        cases hi : slots i with
        | none =>
          rw [hi] at hslot
          rw [hslot.1] at hfilling
          cases hfilling
        | some k =>
          rw [hi] at hslot
          obtain ⟨hk, hb, hfill | hhas⟩ := hslot
          · obtain ⟨hhas, hbase⟩ := doFillTile_has hf p.tileSize_pos hk hb hfill.2.1
            exact ⟨hk, hbase, .inr hhas⟩
          · rw [hhas.state] at hfilling
            cases hfilling
      · have hp : (s.finish p w true).Pending (a, i) ↔ s.Pending (a, i) := by
          simp only [Sys.Pending, Sys.finish, Sys.setTile_queue, Sys.setTile_running, List.mem_erase_of_ne hwi]
        have ht : (s.finish p w true).tile (a, i) = s.tile (a, i) := by
          rw [Sys.finish, Sys.setTile_tile_ne _ _ hwi]
          rfl
        rw [ht]
        exact Slot.imp hp.mpr hslot

theorem Workers.content [DecidableEq κ] [Inhabited α] (hf : (p.filler a).Fills item n) (hs : Workers p s s')
    (h : Content a tileSize item n s active slots) : Content a tileSize item n s' active slots := by
  induction hs with
  | refl => exact h
  | tail _ hstep ih => exact hstep.content hf ih

/-! ## Waiting for a tile -/

theorem doUpTo_not_pending [DecidableEq κ] [Inhabited α] {w : Work κ} {queue : List (Work κ)} (s : Sys κ α)
    (h : s.WellFormed) (hq : s.queue = queue) (hw : w ∈ queue) : ¬ (doUpTo p w queue s).Pending w := by
  induction queue generalizing s with
  | nil => cases hw
  | cons v rest ih =>
    have htake := h.take hq
    have hfin := htake.finish p (List.mem_cons_self ..) true
    rw [doUpTo]
    split
    · rename_i hv
      subst hv
      rintro (hmem | hmem)
      · exact htake.disjoint v hmem (List.mem_cons_self ..)
      · exact htake.running_nodup.not_mem_erase hmem
    · rename_i hv
      exact ih _ hfin rfl (by simpa [Ne.symm hv] using hw)

/-- After the wait for a tile nobody fills it any more. -/
theorem awaited_not_pending [DecidableEq κ] [Inhabited α] (h : s.WellFormed) (w : Work κ) :
    ¬ (s.awaited p w).Pending w := by
  unfold Sys.awaited
  by_cases hr : w ∈ s.running
  · rw [if_pos hr]
    rintro (hmem | hmem)
    · exact h.disjoint w hmem hr
    · exact h.running_nodup.not_mem_erase hmem
  · rw [if_neg hr]
    by_cases hq : w ∈ s.queue
    · rw [if_pos hq]
      exact doUpTo_not_pending s h rfl hq
    · rw [if_neg hq]
      exact not_or.mpr ⟨hq, hr⟩

/-- A used tile can be read, if need be after a wait. -/
theorem waitForReadyState_content [DecidableEq κ] [Inhabited α] (hf : (p.filler a).Fills item n)
    (h : Content a tileSize item n s active slots) {i : Fin 3} {k : ℕ} (hi : slots i = some k) :
    ∃ s', waitForReadyState p (a, i) s = some (.ok (), s') ∧ Content a tileSize item n s' active slots ∧
      (s'.tile (a, i)).Has tileSize item n k := by
  have h' := Workers.content hf (awaited_workers p s (a, i)) h
  have hslot := h'.slot i
  rw [hi] at hslot
  obtain ⟨-, -, hfill | hhas⟩ := hslot
  · exact absurd hfill.2.2 (awaited_not_pending h.wellFormed (a, i))
  · refine ⟨s.awaited p (a, i), ?_, h', hhas⟩
    unfold waitForReadyState
    simp only [hhas.state]

theorem waitEmpty_content [DecidableEq κ] [Inhabited α] (hf : (p.filler a).Fills item n)
    (h : Content a tileSize item n s active slots) :
    ∃ s', waitEmptyIfSynchronized p s = some ((), s') ∧ Content a tileSize item n s' active slots :=
  ⟨_, rfl, Workers.content hf (waitEmpty_workers p s () _ rfl) h⟩

/-! ## Tiles come and go -/

theorem isFree_content [DecidableEq κ] (h : Content a tileSize item n s active slots) (i : Fin 3) :
    isFree (a, i) s = some (decide (slots i = none), s) := by
  have hslot := h.slot i
  unfold isFree
  cases hi : slots i with
  | none =>
    rw [hi] at hslot
    obtain ⟨hfree, -⟩ := hslot
    have hr : (a, i) ∉ s.running := fun hr => by
      rw [h.wellFormed.running_filling _ hr] at hfree
      cases hfree
    simp [hr, hfree]
  | some k =>
    rw [hi] at hslot
    obtain ⟨-, -, hfill | hhas⟩ := hslot
    · simp [hfill.1]
    · simp [hhas.state]

/-- The index of the first item of a tile. -/
theorem base_eq (idx : ℕ) : idx - idx % tileSize = idx / tileSize * tileSize := by
  have := Nat.div_add_mod' idx tileSize
  omega

theorem materializeTile_content [DecidableEq κ] (h : Content a tileSize item n s active slots) {i : Fin 3}
    (hi : slots i = none) {idx : ℕ} (hidx : idx < n) (loc : Option ItemLocation) :
    ∃ s', materializeTile tileSize (a, i) loc idx s = some ((), s') ∧
      Content a tileSize item n s' (match loc with
        | none => active
        | some loc => Function.update active loc (some i)) (Function.update slots i (some (idx / tileSize))) := by
  have hslot := h.slot i
  rw [hi] at hslot
  obtain ⟨hfree, hblank⟩ := hslot
  refine ⟨s.materialized tileSize (a, i) loc idx, by rw [materializeTile_eq, if_pos hfree],
    h.wellFormed.materialized hfree loc idx, ?_, ?_, fun j => ?_⟩
  · simpa [Sys.materialized, Sys.setList] using h.size
  · have hactive := h.active_eq
    cases loc <;> simp [Sys.materialized, Sys.setList, hactive]
  · rw [Sys.materialized_tile]
    by_cases hj : j = i
    · subst hj
      rw [if_pos rfl, Function.update_self]
      have hlt : idx / tileSize * tileSize < n := by
        have := Nat.div_mul_le_self idx tileSize
        omega
      refine ⟨hlt, base_eq idx, .inl ⟨rfl, ⟨hblank.stored, hblank.child⟩, .inl ?_⟩⟩
      simp [Sys.materialized]
    · have hne : (a, j) ≠ (a, i) := fun he => hj (by simpa using he)
      rw [if_neg hne, Function.update_of_ne hj]
      refine Slot.imp (fun hp => ?_) (h.slot j)
      rcases hp with hp | hp
      · exact .inl (List.mem_append_left _ hp)
      · exact .inr hp

/-- A tile can be canceled unless it is free, or being filled by nobody. -/
def Sys.Cancelable (s : Sys κ α) (n : ℕ) (w : Work κ) : Prop :=
  (s.tile w).state ≠ .free ∧ ((s.tile w).state = .filling → s.Pending w ∧ (s.tile w).base < n)

/-- The effect of canceling and resetting one tile. -/
structure TileReset (w : Work κ) (s s' : Sys κ α) : Prop where
  wellFormed : s'.WellFormed
  free : (s'.tile w).state = .free ∧ (s'.tile w).Blank
  other : ∀ v, v ≠ w → s'.tile v = s.tile v ∧ (s'.Pending v ↔ s.Pending v)
  active : (s'.lists w.1).active = (s.lists w.1).active
  size : (s'.lists w.1).numberOfEntries = (s.lists w.1).numberOfEntries

theorem Sys.setTile_lists [DecidableEq κ] (s : Sys κ α) (w : Work κ) (r) :
    ((s.setTile w r).lists w.1).active = (s.lists w.1).active ∧
    ((s.setTile w r).lists w.1).numberOfEntries = (s.lists w.1).numberOfEntries := by
  simp [Sys.setTile]

theorem doFillTile_stopped [Inhabited α] {f : Filler tileSize α} (hf : f.Fills item n) {t : ListTile α}
    (hb : t.base < n) : (t.doFillTile f false).2.state ≠ .free ∧ (t.doFillTile f false).2.state ≠ .filling := by
  unfold ListTile.doFillTile
  dsimp only
  by_cases hfail : (f.fill t.base false).failed = true
  · rw [if_pos hfail]
    simp only [ListTile.canceledNotification, ListTile.reset]
    split <;> simp
  · rw [if_neg hfail]
    have hne := (hf.stops t.base hb).resolve_left hfail
    rw [if_neg (by simpa using hne)]
    simp [ListTile.doneNotification]

theorem withoutFiller_state [DecidableEq κ] [Inhabited α] {w : Work κ} (hf : (p.filler w.1).Fills item n)
    (h : s.WellFormed) (hc : s.Cancelable n w) :
    ((s.withoutFiller p w).tile w).state ≠ .free ∧ ((s.withoutFiller p w).tile w).state ≠ .filling := by
  unfold Sys.withoutFiller
  by_cases hr : w ∈ s.running
  · rw [if_pos hr, Sys.finish, Sys.setTile_tile]
    exact doFillTile_stopped hf (hc.2 (h.running_filling w hr)).2
  · rw [if_neg hr]
    by_cases hcan : (s.tile w).state = .canceled
    · rw [if_pos hcan, hcan]
      simp
    · rw [if_neg hcan]
      dsimp only
      rw [Sys.setTile_tile]
      simp [ListTile.canceledNotification, ListTile.reset]

theorem withoutFiller_other [DecidableEq κ] [Inhabited α] {w v : Work κ} (hv : v ≠ w) :
    (s.withoutFiller p w).tile v = s.tile v ∧ ((s.withoutFiller p w).Pending v ↔ s.Pending v) := by
  unfold Sys.withoutFiller
  split
  · refine ⟨by rw [Sys.finish, Sys.setTile_tile_ne _ _ hv]; rfl, ?_⟩
    simp only [Sys.Pending, Sys.finish, Sys.setTile_queue, Sys.setTile_running, List.mem_erase_of_ne hv]
  · split
    · exact ⟨rfl, Iff.rfl⟩
    · dsimp only
      rw [Sys.setTile_tile_ne _ _ hv]
      split
      · refine ⟨rfl, ?_⟩
        simp only [Sys.Pending, Sys.setTile_queue, Sys.setTile_running, List.mem_erase_of_ne hv]
      · exact ⟨rfl, Iff.rfl⟩

theorem withoutFiller_lists [DecidableEq κ] [Inhabited α] (s : Sys κ α) (w : Work κ) :
    ((s.withoutFiller p w).lists w.1).active = (s.lists w.1).active ∧
      ((s.withoutFiller p w).lists w.1).numberOfEntries = (s.lists w.1).numberOfEntries := by
  unfold Sys.withoutFiller
  split
  · exact s.finish_lists w false w.1
  · split
    · exact ⟨rfl, rfl⟩
    · dsimp only
      split
      · exact Sys.setTile_lists _ w _
      · exact Sys.setTile_lists _ w _

theorem cancelAndReset_tileReset [DecidableEq κ] [Inhabited α] {w : Work κ} (hf : (p.filler w.1).Fills item n)
    (h : s.WellFormed) (hc : s.Cancelable n w) : ∃ s', cancelAndReset p w s = some ((), s') ∧ TileReset w s s' := by
  have hstate := withoutFiller_state hf h hc
  have hcancel : cancelFiller p w s = some ((), s.withoutFiller p w) := by
    unfold cancelFiller
    exact if_pos hstate
  obtain ⟨hwf, hq, hr⟩ := cancelFiller_wellFormed p h hcancel
  refine ⟨_, by rw [cancelAndReset, Op.bind_of_some hcancel]; rfl, hwf.setTile hq hr _, ?_, fun v hv => ?_, ?_, ?_⟩
  · rw [Sys.setTile_tile]
    exact ⟨rfl, blank_reset _ _ _⟩
  · rw [Sys.setTile_tile_ne _ _ hv]
    exact withoutFiller_other hv
  · rw [(Sys.setTile_lists _ w _).1, (withoutFiller_lists s w).1]
  · rw [(Sys.setTile_lists _ w _).2, (withoutFiller_lists s w).2]

theorem Content.cancelable (h : Content a tileSize item n s active slots) {i : Fin 3} {k : ℕ}
    (hi : slots i = some k) : s.Cancelable n (a, i) := by
  have hslot := h.slot i
  rw [hi] at hslot
  obtain ⟨hk, hb, hfill | hhas⟩ := hslot
  · exact ⟨by rw [hfill.1]; simp, fun _ => ⟨hfill.2.2, by rw [hb]; exact hk⟩⟩
  · refine ⟨by rw [hhas.state]; simp, fun hc => ?_⟩
    rw [hhas.state] at hc
    cases hc

theorem cancelAndReset_content [DecidableEq κ] [Inhabited α] (hf : (p.filler a).Fills item n)
    (h : Content a tileSize item n s active slots) {i : Fin 3} {k : ℕ} (hi : slots i = some k) :
    ∃ s', cancelAndReset p (a, i) s = some ((), s') ∧
      Content a tileSize item n s' active (Function.update slots i none) := by
  obtain ⟨s', hs', hreset⟩ := cancelAndReset_tileReset (w := (a, i)) hf h.wellFormed (h.cancelable hi)
  refine ⟨s', hs', hreset.wellFormed, hreset.size.trans h.size, hreset.active.trans h.active_eq, fun j => ?_⟩
  by_cases hj : j = i
  · subst hj
    rw [Function.update_self]
    exact hreset.free
  · obtain ⟨ht, hp⟩ := hreset.other (a, j) fun he => hj (by simpa using he)
    rw [Function.update_of_ne hj, ht]
    exact Slot.imp hp.mpr (h.slot j)

/-! ## Clearing the list -/

/-- The state in the loop of `clear`: the tiles `done` are free, the others free or cancelable. -/
structure Clearing (a : κ) (n : ℕ) (s : Sys κ α) (done : Fin 3 → Prop) : Prop where
  wellFormed : s.WellFormed
  size : (s.lists a).numberOfEntries = n
  tile : ∀ i, ((s.tile (a, i)).state = .free ∧ (s.tile (a, i)).Blank) ∨ ¬ done i ∧ s.Cancelable n (a, i)

theorem cancelAll_clearing [DecidableEq κ] [Inhabited α] (h : Content a tileSize item n s active slots) :
    ∃ s', cancelAllQueuedFillers tileSize s = some ((), s') ∧ Clearing a n s' fun _ => False := by
  obtain ⟨s', hs', hq, hr, hl⟩ := cancelAllQueuedFillers_eq tileSize h.wellFormed
  refine ⟨s', hs', cancelAll_wellFormed h.wellFormed hs', ?_, fun i => ?_⟩
  · rw [hl, Sys.canceledList]
    exact h.size
  · have ht : s'.tile (a, i) = if (a, i) ∈ s.queue then ((s.tile (a, i)).canceledNotification tileSize .ok).2
        else s.tile (a, i) := by
      rw [Sys.tile, hl, Sys.canceledList]
      rfl
    by_cases hqi : (a, i) ∈ s.queue
    · rw [if_pos hqi] at ht
      refine .inr ⟨not_false, ?_, fun hfill => ?_⟩
      · rw [ht]
        simp [ListTile.canceledNotification, ListTile.reset]
      · rw [ht] at hfill
        cases hfill
    · rw [if_neg hqi] at ht
      have hslot := h.slot i
      unfold Sys.Cancelable
      rw [ht]
      cases hi : slots i with
      | none =>
        rw [hi] at hslot
        exact .inl hslot
      | some k =>
        obtain ⟨hn, hfill⟩ := h.cancelable hi
        refine .inr ⟨not_false, hn, fun hf => ?_⟩
        obtain ⟨hp, hb⟩ := hfill hf
        exact ⟨.inr (by rw [hr]; exact hp.resolve_left hqi), hb⟩

/-- One round of the loop in `clear`. -/
theorem clearTile_clearing [DecidableEq κ] [Inhabited α] (hf : (p.filler a).Fills item n) {done : Fin 3 → Prop}
    (h : Clearing a n s done) (i : Fin 3) :
    ∃ s', (do if !(← isFree (a, i)) then cancelAndReset p (a, i) : Op (Sys κ α) Unit) s = some ((), s') ∧
      Clearing a n s' fun j => done j ∨ j = i := by
  rcases h.tile i with hfree | ⟨hd, hc⟩
  · have hr : (a, i) ∉ s.running := fun hr => by
      have := h.wellFormed.running_filling _ hr
      rw [hfree.1] at this
      cases this
    refine ⟨s, by simp [Op.bind_apply, isFree, hr, hfree.1, Op.pure_apply], h.wellFormed, h.size, fun j => ?_⟩
    by_cases hj : j = i
    · exact .inl (hj ▸ hfree)
    · exact (h.tile j).imp_right fun ⟨hd, hc⟩ => ⟨not_or.mpr ⟨hd, hj⟩, hc⟩
  · obtain ⟨s', hs', hreset⟩ := cancelAndReset_tileReset (w := (a, i)) hf h.wellFormed hc
    refine ⟨s', by simp [Op.bind_apply, isFree, hc.1, hs'], hreset.wellFormed, hreset.size.trans h.size, fun j => ?_⟩
    by_cases hj : j = i
    · subst hj
      exact .inl hreset.free
    · obtain ⟨ht, hp⟩ := hreset.other (a, j) fun he => hj (by simpa using he)
      unfold Sys.Cancelable
      rw [ht, hp]
      exact (h.tile j).imp_right fun ⟨hd, hc⟩ => ⟨not_or.mpr ⟨hd, hj⟩, hc⟩

theorem clear_content [DecidableEq κ] [Inhabited α] (hf : (p.filler a).Fills item n)
    (h : Content a tileSize item n s active slots) :
    ∃ s', clear p a s = some ((), s') ∧ Content a tileSize item n s' (fun _ => none) fun _ => none := by
  obtain ⟨s₁, h₁, c₁⟩ := cancelAll_clearing h
  obtain ⟨s₂, h₂, c₂⟩ := clearTile_clearing hf c₁ 0
  obtain ⟨s₃, h₃, c₃⟩ := clearTile_clearing hf c₂ 1
  obtain ⟨s₄, h₄, c₄⟩ := clearTile_clearing hf c₃ 2
  have hloop : ([0, 1, 2].forM fun i => do
      if !(← isFree (a, i)) then cancelAndReset p (a, i) : Op (Sys κ α) Unit) s₁ = some ((), s₄) := by
    exact (Op.bind_of_some h₂).trans ((Op.bind_of_some h₃).trans ((Op.bind_of_some h₄).trans rfl))
  refine ⟨_, by rw [clear, Op.bind_of_some h₁, Op.bind_of_some hloop]; rfl, ?_, ?_, ?_, fun i => ?_⟩
  · exact c₄.wellFormed.modifyList a rfl
  · simpa [Sys.setList] using c₄.size
  · simp [Sys.setList]
  · have hi : ((((fun _ => False) i ∨ i = 0) ∨ i = 1) ∨ i = 2) := by
      revert i
      decide
    have ht := (c₄.tile i).resolve_right fun hn => hn.1 hi
    simpa [Sys.tile, Sys.setList, Slot] using ht

end Listbrokers.Tiles
