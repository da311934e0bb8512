import Listbrokers.Tiles.Composition

/-!
# The invariant of the thread pool

The pool is well formed (`WellFormed`) if a work is pending at most once, and the
tile of a pending work is being filled. The workers (`Workers.wellFormed`) and
everything made of the basic operations (`Made.wellFormed`) keep it so. Waiting
is nothing but progress of the workers (`waitForReadyState_workers`).
-/

namespace Listbrokers.Tiles

open Framework

variable {κ α β γ : Type} [DecidableEq κ] [Inhabited α] {tileSize : ℕ} (p : ListThreads κ α tileSize)

/-- No work is pending twice, and the tiles of the pending works are being filled. -/
structure Sys.WellFormed (s : Sys κ α) : Prop where
  queue_nodup : s.queue.Nodup
  running_nodup : s.running.Nodup
  disjoint : ∀ w ∈ s.queue, w ∉ s.running
  queue_filling : ∀ w ∈ s.queue, (s.tile w).state = .filling
  running_filling : ∀ w ∈ s.running, (s.tile w).state = .filling

section

variable {s s' : Sys κ α} {w : Work κ}

section

omit [DecidableEq κ]

theorem Sys.init_wellFormed (numberOfEntries : κ → ℕ) : (Sys.init numberOfEntries : Sys κ α).WellFormed := by
  constructor <;> simp [Sys.init]

end

section

omit [Inhabited α]

/-- Tiles nobody is going to fill may change. -/
theorem Sys.WellFormed.setTile (h : s.WellFormed) (hq : w ∉ s.queue) (hr : w ∉ s.running)
    (r : List ListId × ListTile α) : (s.setTile w r).WellFormed where
  queue_nodup := h.queue_nodup
  running_nodup := h.running_nodup
  disjoint := h.disjoint
  queue_filling v hv := by
    rw [Sys.setTile_tile_ne s r (ne_of_mem_of_not_mem hv hq)]
    exact h.queue_filling v hv
  running_filling v hv := by
    rw [Sys.setTile_tile_ne s r (ne_of_mem_of_not_mem hv hr)]
    exact h.running_filling v hv

end

section

omit [DecidableEq κ] [Inhabited α]

theorem Sys.WellFormed.take {rest : List (Work κ)} (h : s.WellFormed) (hq : s.queue = w :: rest) :
    (s.take w rest).WellFormed := by
  obtain ⟨h₁, h₂, h₃, h₄, h₅⟩ := h
  rw [hq] at h₁ h₃ h₄
  obtain ⟨hw, hrest⟩ := List.nodup_cons.mp h₁
  have hwr := h₃ w (List.mem_cons_self ..)
  refine ⟨hrest, List.nodup_cons.mpr ⟨hwr, h₂⟩, ?_, ?_, ?_⟩
  · intro v hv hvr
    rcases List.mem_cons.mp hvr with rfl | hvr
    · exact hw hv
    · exact h₃ v (List.mem_cons_of_mem _ hv) hvr
  · exact fun v hv => h₄ v (List.mem_cons_of_mem _ hv)
  · intro v hv
    rcases List.mem_cons.mp hv with rfl | hv
    · exact h₄ v (List.mem_cons_self ..)
    · exact h₅ v hv

/-- With works removed, the pool is still well formed. -/
theorem Sys.WellFormed.sublist (h : s.WellFormed) {queue running : List (Work κ)} (hq : queue.Sublist s.queue)
    (hr : running.Sublist s.running) : { s with queue := queue, running := running }.WellFormed where
  queue_nodup := h.queue_nodup.sublist hq
  running_nodup := h.running_nodup.sublist hr
  disjoint v hv hvr := h.disjoint v (hq.subset hv) (hr.subset hvr)
  queue_filling v hv := h.queue_filling v (hq.subset hv)
  running_filling v hv := h.running_filling v (hr.subset hv)

end

theorem Sys.WellFormed.finish (h : s.WellFormed) (hw : w ∈ s.running) (mayContinue : Bool) :
    (s.finish p w mayContinue).WellFormed :=
  (h.sublist (List.Sublist.refl _) List.erase_sublist).setTile (fun hq => h.disjoint w hq hw)
    h.running_nodup.not_mem_erase _

theorem WorkerStep.wellFormed (hs : WorkerStep p s s') (h : s.WellFormed) : s'.WellFormed := by
  cases hs with
  | take hq => exact h.take hq
  | finish hw => exact h.finish p hw true

theorem Workers.wellFormed (hs : Workers p s s') (h : s.WellFormed) : s'.WellFormed := by
  induction hs with
  | refl => exact h
  | tail _ hstep ih => exact hstep.wellFormed p ih

/-! ## Waiting is progress of the workers -/

theorem doUpTo_workers (w : Work κ) (queue : List (Work κ)) (s : Sys κ α) (hq : s.queue = queue) :
    Workers p s (doUpTo p w queue s) := by
  induction queue generalizing s with
  | nil => exact .refl
  | cons v rest ih =>
    have hdo : Workers p s ((s.take v rest).finish p v true) :=
      .tail (.single (.take hq)) (.finish (List.mem_cons_self ..))
    simp only [doUpTo]
    split
    · exact hdo
    · exact hdo.trans (ih _ rfl)

theorem awaited_workers (s : Sys κ α) (w : Work κ) : Workers p s (s.awaited p w) := by
  unfold Sys.awaited
  split
  · exact .single (.finish (by assumption))
  · split
    · exact doUpTo_workers p w s.queue s rfl
    · exact .refl

theorem waitForReadyState_workers : Keeps (Workers p) (waitForReadyState p w) := by
  intro s r s' h
  have hs := awaited_workers p s w
  unfold waitForReadyState at h
  dsimp only at h
  split at h
  · cases h
  all_goals
    cases h
    exact hs

theorem takeAll_workers (s : Sys κ α) :
    Workers p s { s with queue := [], running := s.queue.reverse ++ s.running } := by
  generalize hq : s.queue = queue
  induction queue generalizing s with
  | nil =>
    rw [show s = { s with queue := [], running := s.running } by rw [← hq]]
    exact .refl
  | cons w rest ih =>
    have h := ih (s.take w rest) rfl
    simp only [List.reverse_cons, List.append_assoc, List.singleton_append]
    exact .trans (.single (.take hq)) h

theorem waitEmpty_workers : Keeps (Workers p) (waitEmptyIfSynchronized p) := by
  intro s r s' h
  cases h
  split
  · exact takeAll_workers p s
  · exact .refl

/-! ## The basic operations keep the pool well formed -/

/-- The list, with the tiles in `queue` canceled. -/
def Sys.canceledList (s : Sys κ α) (tileSize : ℕ) (queue : List (Work κ)) (b : κ) : TiledList α :=
  { s.lists b with hot := fun i =>
      if (b, i) ∈ queue then (((s.lists b).hot i).canceledNotification tileSize .ok).2 else (s.lists b).hot i }

theorem cancelQueued_eq (tileSize : ℕ) (queue : List (Work κ)) (s : Sys κ α) (hn : queue.Nodup)
    (hf : ∀ w ∈ queue, (s.tile w).state = .filling) :
    ∃ s', cancelQueued tileSize queue s = some s' ∧ s'.running = s.running ∧
      ∀ b, s'.lists b = s.canceledList tileSize queue b := by
  induction queue generalizing s with
  | nil => exact ⟨s, rfl, rfl, fun b => by simp [Sys.canceledList]⟩
  | cons w rest ih =>
    obtain ⟨hw, hrest⟩ := List.nodup_cons.mp hn
    have hfw := hf w (List.mem_cons_self ..)
    obtain ⟨s', hs', hr, hl⟩ := ih (s.setTile w ((s.tile w).canceledNotification tileSize .ok)) hrest fun v hv => by
      rw [Sys.setTile_tile_ne s _ (ne_of_mem_of_not_mem hv hw)]
      exact hf v (List.mem_cons_of_mem _ hv)
    refine ⟨s', by rw [cancelQueued, if_pos hfw, hs'], hr, fun b => ?_⟩
    rw [hl b]
    by_cases hb : b = w.1
    · subst hb
      simp only [Sys.canceledList, Sys.setTile, Sys.tile, Function.update_self, TiledList.mk.injEq, and_true]
      funext i
      by_cases hi : i = w.2
      · subst hi
        simp [hw]
      · have hne : (w.1, i) ≠ w := fun h => hi (by rw [← h])
        simp [hi, hne]
    · have hne : ∀ i, (b, i) ≠ w := fun i h => hb (by rw [← h])
      simp [Sys.canceledList, Sys.setTile, hb, hne]

/-- What `cancel_all_queued_fillers` does to a well-formed pool. -/
theorem cancelAllQueuedFillers_eq (tileSize : ℕ) (h : s.WellFormed) :
    ∃ s', cancelAllQueuedFillers tileSize s = some ((), s') ∧ s'.queue = [] ∧ s'.running = s.running ∧
      ∀ b, s'.lists b = s.canceledList tileSize s.queue b := by
  obtain ⟨s', hs', hr, hl⟩ := cancelQueued_eq tileSize s.queue s h.queue_nodup h.queue_filling
  exact ⟨{ s' with queue := [] }, by simp [cancelAllQueuedFillers, hs'], rfl, hr, hl⟩

/-- After `cancel_filler` nobody is going to fill the tile. -/
theorem cancelFiller_wellFormed (h : s.WellFormed) (hs : cancelFiller p w s = some ((), s')) :
    s'.WellFormed ∧ w ∉ s'.queue ∧ w ∉ s'.running := by
  simp only [cancelFiller, Option.ite_none_right_eq_some, Option.some.injEq, Prod.mk.injEq, true_and] at hs
  obtain ⟨-, rfl⟩ := hs
  unfold Sys.withoutFiller
  by_cases hr : w ∈ s.running
  · rw [if_pos hr]
    exact ⟨h.finish p hr false, fun hq => h.disjoint w hq hr, h.running_nodup.not_mem_erase⟩
  · rw [if_neg hr]
    by_cases hc : (s.tile w).state = .canceled
    · rw [if_pos hc]
      exact ⟨h, fun hq => by simp [h.queue_filling w hq] at hc, hr⟩
    · rw [if_neg hc]
      by_cases hf : (s.tile w).state = .filling
      · rw [if_pos hf]
        have hq : w ∉ s.queue.erase w := h.queue_nodup.not_mem_erase
        exact ⟨(h.sublist List.erase_sublist (List.Sublist.refl _)).setTile hq hr _, hq, hr⟩
      · rw [if_neg hf]
        have hq : w ∉ s.queue := fun hq => hf (h.queue_filling w hq)
        exact ⟨h.setTile hq hr _, hq, hr⟩

/-- The state after a tile has been materialized. -/
def Sys.materialized (s : Sys κ α) (tileSize : ℕ) (w : Work κ) (loc : Option ItemLocation) (idx : ℕ) : Sys κ α :=
  let l := s.lists w.1
  let t : ListTile α := { l.hot w.2 with base := idx - idx % tileSize, state := .filling }
  { s.setList w.1
      { l with
        hot := Function.update l.hot w.2 t
        active := match loc with
          | none => l.active
          | some loc => Function.update l.active loc (some w.2) } with
    queue := s.queue ++ [w] }

section

omit [Inhabited α]

theorem materializeTile_eq (s : Sys κ α) (w : Work κ) (loc : Option ItemLocation) (idx : ℕ) :
    materializeTile tileSize w loc idx s =
      if (s.tile w).state = .free then some ((), s.materialized tileSize w loc idx) else none := by
  simp only [Sys.tile]
  by_cases hf : ((s.lists w.1).hot w.2).state = .free
  · cases loc <;>
      simp [materializeTile, Op.bind_apply, activateTile, ListTile.activateTile, hf, theList, setActive, modifyList,
        enqueue, Sys.setTile, Sys.tile, Sys.setList, Sys.materialized]
  · simp [materializeTile, Op.bind_apply, activateTile, ListTile.activateTile, Sys.tile, hf]

theorem Sys.materialized_tile (s : Sys κ α) (w v : Work κ) (loc : Option ItemLocation) (idx : ℕ) :
    (s.materialized tileSize w loc idx).tile v =
      if v = w then { s.tile w with base := idx - idx % tileSize, state := .filling } else s.tile v := by
  obtain ⟨a, i⟩ := w
  obtain ⟨b, j⟩ := v
  by_cases hb : b = a
  · subst hb
    by_cases hj : j = i
    · subst hj
      simp [Sys.tile, Sys.materialized, Sys.setList]
    · simp [Sys.tile, Sys.materialized, Sys.setList, hj]
  · simp [Sys.tile, Sys.materialized, Sys.setList, hb]

theorem Sys.WellFormed.materialized (h : s.WellFormed) (hf : (s.tile w).state = .free) (loc : Option ItemLocation)
    (idx : ℕ) : (s.materialized tileSize w loc idx).WellFormed := by
  have hq : w ∉ s.queue := fun hq => by simp [h.queue_filling w hq] at hf
  have hr : w ∉ s.running := fun hr => by simp [h.running_filling w hr] at hf
  refine ⟨?_, h.running_nodup, ?_, ?_, ?_⟩
  · refine List.nodup_append.mpr ⟨h.queue_nodup, by simp, fun v hv u hu => ?_⟩
    rw [List.mem_singleton.mp hu]
    exact ne_of_mem_of_not_mem hv hq
  · intro v hv
    rcases List.mem_append.mp hv with hv | hv
    · exact h.disjoint v hv
    · rw [List.mem_singleton.mp hv]
      exact hr
  · intro v hv
    rw [Sys.materialized_tile]
    split
    · rfl
    · rcases List.mem_append.mp hv with hv | hv
      · exact h.queue_filling v hv
      · exact absurd (List.mem_singleton.mp hv) (by assumption)
  · intro v hv
    rw [Sys.materialized_tile, if_neg (ne_of_mem_of_not_mem hv hr)]
    exact h.running_filling v hv

/-- The reading thread changes no tile by pointing to other tiles. -/
theorem Sys.WellFormed.modifyList (h : s.WellFormed) (a : κ) {l : TiledList α} (hl : l.hot = (s.lists a).hot) :
    (s.setList a l).WellFormed := by
  have ht : ∀ v, (s.setList a l).tile v = s.tile v := by
    intro v
    by_cases hv : v.1 = a
    · simp [Sys.tile, Sys.setList, hv, hl]
    · simp [Sys.tile, Sys.setList, hv]
  exact ⟨h.queue_nodup, h.running_nodup, h.disjoint, fun v hv => by rw [ht]; exact h.queue_filling v hv,
    fun v hv => by rw [ht]; exact h.running_filling v hv⟩

end

theorem cancelAll_wellFormed (h : s.WellFormed) (hs : cancelAllQueuedFillers tileSize s = some ((), s')) :
    s'.WellFormed := by
  obtain ⟨s₁, hs₁, hq, hr, hl⟩ := cancelAllQueuedFillers_eq tileSize h
  obtain rfl : s₁ = s' := by simpa [hs₁] using hs
  refine ⟨by simp [hq], by rw [hr]; exact h.running_nodup, by simp [hq], by simp [hq], fun v hv => ?_⟩
  rw [hr] at hv
  have hvq : (v.1, v.2) ∉ s.queue := fun hvq => h.disjoint v hvq hv
  rw [Sys.tile, hl, Sys.canceledList]
  simpa [hvq, Sys.tile] using h.running_filling v hv

theorem Basic.wellFormed {a : κ} {clears : Prop} {m : Op (Sys κ α) γ} (hm : Basic p a clears γ m) :
    Keeps (fun s s' => s.WellFormed → s'.WellFormed) m := by
  intro s r s' hs h
  cases hm with
  | fail => cases hs
  | check c =>
    simp only [Tiles.check, Option.ite_none_right_eq_some, Option.some.injEq, Prod.mk.injEq, true_and] at hs
    exact hs.2 ▸ h
  | theList => cases hs; exact h
  | isFree i => cases hs; exact h
  | findFreeTile => cases hs; exact h
  | modifyList f hf => cases hs; exact h.modifyList a (hf _)
  | materializeTile i loc idx =>
    simp only [materializeTile_eq, Option.ite_none_right_eq_some, Option.some.injEq, Prod.mk.injEq, true_and] at hs
    obtain ⟨hf, rfl⟩ := hs
    exact h.materialized hf loc idx
  | cancelAndReset i =>
    obtain ⟨_, s₁, hc, hreset⟩ := Op.bind_eq_some.mp hs
    obtain ⟨h₁, hq, hr⟩ := cancelFiller_wellFormed p h hc
    cases hreset
    exact h₁.setTile hq hr _
  | waitForReadyState i => exact (waitForReadyState_workers p s r s' hs).wellFormed p h
  | waitEmpty => exact (waitEmpty_workers p s r s' hs).wellFormed p h
  | cancelAll => exact cancelAll_wellFormed h hs

/-- Whatever is made of basic operations keeps the pool well formed. -/
theorem Made.wellFormed {a : κ} {clears : Prop} {m : Op (Sys κ α) γ} (hm : Made p a clears m) :
    Keeps (fun s s' => s.WellFormed → s'.WellFormed) m :=
  hm.keeps (R := fun s s' => s.WellFormed → s'.WellFormed) (fun _ h => h) (fun _ _ _ h h' => h' ∘ h)
    fun hb => hb.wellFormed p

end

end Listbrokers.Tiles
