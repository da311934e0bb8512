import Listbrokers.Tiles.Threads

/-!
# Cancellation of fillers

When `cancel_filler` returns, nobody is going to fill the tile for an earlier
activation. This rests on three facts about all reachable states: the locks are
held by those who have locked them (`Locked`); the work for a tile is at one
place, and its tile is being filled (`Assigned`); and at each point of
`cancel_filler` some of this work is known to be out of the way (`Canceling`).
-/

namespace Listbrokers.Tiles

open Framework

variable {τ ω α : Type} {tileSize : ℕ} {s s' : Threads τ ω α}
  {e : ThreadEvent τ ω α} {r : Request τ} {t : τ} {w : ω}

/-- Where the work for a tile is. -/
inductive Place (ω : Type)
  | entering
  | queued
  | taken (w : ω)

namespace Threads

/-- The work is at the place. -/
def At (s : Threads τ ω α) (r : Request τ) : Place ω → Prop
  | .entering => s.reader.request = some r
  | .queued => r ∈ s.queue
  | .taken w => (s.worker w).request = some r

/-- There is no work for the tile. -/
def Unclaimed (s : Threads τ ω α) (t : τ) : Prop := ∀ r pl, s.At r pl → r.tile ≠ t

/-- Nobody fills the tile, or is going to, and it has been filled or given up. -/
structure Ended (s : Threads τ ω α) (t : τ) : Prop where
  unclaimed : s.Unclaimed t
  state : (s.tile t).state ≠ .free ∧ (s.tile t).state ≠ .filling
  unlocked : ∀ w, s.tileLock t ≠ some (.worker w)

/-- The locks are held by the threads that have locked them. -/
structure Locked (s : Threads τ ω α) : Prop where
  queue_worker : ∀ w, s.queueLock = some (.worker w) ↔ (s.worker w).holdsQueue = true
  queue_reader : s.queueLock = some .reader ↔ s.reader.holdsQueue = true
  tile_worker : ∀ w t, s.tileLock t = some (.worker w) ↔ (s.worker w).holdsTile = some t
  tile_reader : ∀ t, s.tileLock t = some .reader ↔ s.reader.holdsTile = some t

/-- Each work is at one place, for the last activation of its tile, which is being filled (or is just being canceled
with the whole queue); and a tile that is being filled has its work (unless this is just being canceled). -/
structure Assigned (s : Threads τ ω α) : Prop where
  nodup : (s.queue.map Request.tile).Nodup
  unique : ∀ r r' pl pl', s.At r pl → s.At r' pl' → r.tile = r'.tile → pl = pl'
  number : ∀ r pl, s.At r pl → r.number = s.activations r.tile
  filling : ∀ r pl, s.At r pl → (s.tile r.tile).state = .filling ∨
    pl = .queued ∧ ∃ rest, s.reader = .clearing rest ∧ r.tile ∉ rest.map Request.tile
  clearing : ∀ rest, s.reader = .clearing rest → rest <:+ s.queue ∧
    ∀ r ∈ s.queue, r.tile ∉ rest.map Request.tile → (s.tile r.tile).state ≠ .filling
  known : ∀ t, (s.tile t).state = .filling → (∃ r pl, s.At r pl ∧ r.tile = t) ∨ ∃ st, s.reader = .erased t st
  notified : ∀ w t, s.worker w = .notified t → s.Unclaimed t ∧ (s.tile t).state ≠ .free

/-- What is known at the points of `cancel_filler`. -/
structure Canceling (s : Threads τ ω α) : Prop where
  used : ∀ t, s.reader = .canceling t ∨ s.reader = .queueLocked t ∨ s.reader = .owning t → (s.tile t).state ≠ .free
  erased : ∀ t st, s.reader = .erased t st → st = (s.tile t).state ∧ st ≠ .free ∧ s.Unclaimed t
  awaited : ∀ t, s.reader = .busy t ∨ s.reader = .waiting t → (s.tile t).state ≠ .free ∧
    ∀ r pl, s.At r pl → r.tile = t → ∃ w, s.worker w = .filling r
  ended : ∀ t, s.reader = .settled t ∨ s.reader = .tileUnlocked t ∨ s.reader = .regained t ∨ s.reader = .canceled t →
    s.Ended t

end Threads

open Threads

/-! ## The locks -/

theorem init_locked [Inhabited α] : (Threads.init : Threads τ ω α).Locked := by
  constructor <;> simp [Threads.init, WorkerPc.holdsQueue, WorkerPc.holdsTile, ReaderPc.holdsQueue, ReaderPc.holdsTile]

theorem ThreadStep.locked [DecidableEq τ] [DecidableEq ω] [Inhabited α] (hs : ThreadStep tileSize s e s')
    (h : s.Locked) : s'.Locked := by
  obtain ⟨h1, h2, h3, h4⟩ := h
  cases hs <;> (try split) <;> (constructor <;> first | assumption |
    (simp only [moveWorker, change]
     grind -linarith [Function.update_apply, WorkerPc.holdsQueue, WorkerPc.holdsTile, ReaderPc.holdsQueue,
       ReaderPc.holdsTile]))

/-! ## The works -/

theorem init_assigned [Inhabited α] : (Threads.init : Threads τ ω α).Assigned := by
  have hat : ∀ r pl, ¬ (Threads.init : Threads τ ω α).At r pl := by
    rintro r (_ | _ | w) h <;> cases h
  refine ⟨.nil, fun r _ pl _ h => absurd h (hat r pl), fun r pl h => absurd h (hat r pl), fun r pl h =>
    absurd h (hat r pl), ?_, ?_, ?_⟩ <;> intros <;> simp_all [Threads.init, ListTile.init]

/-- Works that are where they have been. -/
theorem Threads.At.congr {pl : Place ω} (hqueue : s'.queue = s.queue) (hreader : s'.reader.request = s.reader.request)
    (hworker : ∀ w, (s'.worker w).request = (s.worker w).request) : s'.At r pl ↔ s.At r pl := by
  cases pl with
  | entering => simp only [At, hreader]
  | queued => simp only [At, hqueue]
  | taken w => simp only [At, hworker]

/-- A step that makes no work. -/
theorem Threads.Assigned.mono (h : s.Assigned) (hqueue : s'.queue.Sublist s.queue)
    (hat : ∀ r pl, s'.At r pl → s.At r pl) (hactivations : s'.activations = s.activations)
    (hfilling : ∀ r pl, s'.At r pl → (s'.tile r.tile).state = .filling ∨
      pl = .queued ∧ ∃ rest, s'.reader = .clearing rest ∧ r.tile ∉ rest.map Request.tile)
    (hclearing : ∀ rest, s'.reader = .clearing rest → rest <:+ s'.queue ∧
      ∀ r ∈ s'.queue, r.tile ∉ rest.map Request.tile → (s'.tile r.tile).state ≠ .filling)
    (hknown : ∀ t, (s'.tile t).state = .filling → (∃ r pl, s'.At r pl ∧ r.tile = t) ∨ ∃ st, s'.reader = .erased t st)
    (hnotified : ∀ w t, s'.worker w = .notified t → s'.Unclaimed t ∧ (s'.tile t).state ≠ .free) : s'.Assigned where
  nodup := h.nodup.sublist (hqueue.map _)
  unique r r' pl pl' hr hr' := h.unique r r' pl pl' (hat r pl hr) (hat r' pl' hr')
  number r pl hr := by rw [hactivations, h.number r pl (hat r pl hr)]
  filling := hfilling
  clearing := hclearing
  known := hknown
  notified := hnotified

/-- A step that has nothing to do with the works. -/
theorem Threads.Assigned.congr (h : s.Assigned) (hqueue : s'.queue = s.queue)
    (hreader : s'.reader.request = s.reader.request) (hworker : ∀ w, (s'.worker w).request = (s.worker w).request)
    (hactivations : s'.activations = s.activations) (hstate : ∀ t, (s'.tile t).state = (s.tile t).state)
    (hclearing : ∀ rest, s'.reader = .clearing rest ↔ s.reader = .clearing rest)
    (herased : ∀ t st, s.reader = .erased t st → s'.reader = .erased t st)
    (hnotified : ∀ w t, s'.worker w = .notified t → s.worker w = .notified t) : s'.Assigned := by
  have hat : ∀ r pl, s'.At r pl ↔ s.At r pl := fun r pl => Threads.At.congr hqueue hreader hworker
  refine h.mono (hqueue ▸ .refl _) (fun r pl => (hat r pl).mp) hactivations (fun r pl hr => ?_) (fun rest hrest => ?_)
    (fun t ht => ?_) fun w t ht => ?_
  · rw [hstate]
    simp only [hclearing]
    exact h.filling r pl ((hat r pl).mp hr)
  · rw [hqueue]
    simp only [hstate]
    exact h.clearing rest ((hclearing rest).mp hrest)
  · rw [hstate] at ht
    rcases h.known t ht with ⟨r, pl, hr, hrt⟩ | ⟨st, hst⟩
    · exact .inl ⟨r, pl, (hat r pl).mpr hr, hrt⟩
    · exact .inr ⟨st, herased t st hst⟩
  · obtain ⟨hunclaimed, hfree⟩ := h.notified w t (hnotified w t ht)
    exact ⟨fun r pl hr => hunclaimed r pl ((hat r pl).mp hr), by rw [hstate]; exact hfree⟩

/-- The program counter of one worker changes, and keeps its work. -/
theorem request_update [DecidableEq ω] {worker : ω → WorkerPc τ} {w : ω} {pc : WorkerPc τ}
    (h : pc.request = (worker w).request) (w' : ω) :
    (Function.update worker w pc w').request = (worker w').request := by
  by_cases hw : w' = w
  · subst hw
    rw [Function.update_self, h]
  · rw [Function.update_of_ne hw]

theorem notified_update [DecidableEq ω] {worker : ω → WorkerPc τ} {w : ω} {pc : WorkerPc τ}
    (h : ∀ t, pc ≠ .notified t) {w' : ω} {t : τ} (h' : Function.update worker w pc w' = .notified t) :
    worker w' = .notified t := by
  by_cases hw : w' = w
  · subst hw
    rw [Function.update_self] at h'
    exact absurd h' (h t)
  · rwa [Function.update_of_ne hw] at h'

/-- A worker gets on with its work, or without one. -/
theorem Threads.Assigned.moveWorker [DecidableEq ω] (h : s.Assigned) {pc : WorkerPc τ}
    (hpc : pc.request = (s.worker w).request) (hnotified : ∀ t, pc ≠ .notified t) (hqueue : s'.queue = s.queue)
    (hreader : s'.reader = s.reader) (hworker : s'.worker = Function.update s.worker w pc)
    (hactivations : s'.activations = s.activations) (htile : s'.tile = s.tile) : s'.Assigned :=
  h.congr hqueue (by rw [hreader]) (fun w' => by rw [hworker]; exact request_update hpc w') hactivations
    (fun t => by rw [htile]) (fun rest => by rw [hreader]) (fun t st => by rw [hreader]; exact id)
    fun w' t ht => notified_update hnotified (by rwa [hworker] at ht)

/-- The reading thread gets on. -/
theorem Threads.Assigned.moveReader (h : s.Assigned) (hreader : s'.reader.request = s.reader.request)
    (hclearing : ∀ rest, s.reader ≠ .clearing rest ∧ s'.reader ≠ .clearing rest)
    (herased : ∀ t st, s.reader ≠ .erased t st) (hqueue : s'.queue = s.queue) (hworker : s'.worker = s.worker)
    (hactivations : s'.activations = s.activations) (hstate : ∀ t, (s'.tile t).state = (s.tile t).state) :
    s'.Assigned :=
  h.congr hqueue hreader (fun w => by rw [hworker]) hactivations hstate
    (fun rest => ⟨fun hr => absurd hr (hclearing rest).2, fun hr => absurd hr (hclearing rest).1⟩)
    (fun t st hr => absurd hr (herased t st)) fun w t ht => by rwa [hworker] at ht

theorem Threads.change_state [DecidableEq τ] {x : List ListId × ListTile α}
    (h : x.2.state = (s.tile t).state) (t' : τ) : ((s.change t x).tile t').state = (s.tile t').state := by
  by_cases ht : t' = t
  · subst ht
    simp [change, h]
  · simp [change, ht]

theorem ListTile.canceledNotification_state [Inhabited α] (tileSize : ℕ) (t : ListTile α) (e : ListError) :
    (t.canceledNotification tileSize e).2.state ≠ .filling ∧ (t.canceledNotification tileSize e).2.state ≠ .free := by
  simp only [canceledNotification, reset]
  split <;> simp

/-- A worker that is done with its work has none any more. -/
theorem Threads.Assigned.finish_at [DecidableEq τ] [DecidableEq ω] (h : s.Assigned) (hpc : s.worker w = .filling r)
    {x : List ListId × ListTile α} {r' : Request τ} {pl : Place ω}
    (h' : ((s.change r.tile x).moveWorker w (.notified r.tile)).At r' pl) :
    s.At r' pl ∧ r'.tile ≠ r.tile := by
  have hr : s.At r (.taken w) := by simp [At, hpc, WorkerPc.request]
  cases pl with
  | entering => exact ⟨h', fun ht => by cases h.unique _ _ _ _ (show s.At r' .entering from h') hr ht⟩
  | queued => exact ⟨h', fun ht => by cases h.unique _ _ _ _ (show s.At r' .queued from h') hr ht⟩
  | taken w' =>
    by_cases hw : w' = w
    · subst hw
      simp [At, Threads.moveWorker, WorkerPc.request] at h'
    · have h' : s.At r' (.taken w') := by simpa [At, Threads.moveWorker, change, hw] using h'
      exact ⟨h', fun ht => hw (by cases h.unique _ _ _ _ h' hr ht; rfl)⟩

/-- A worker is done with its work. -/
theorem Threads.Assigned.finish [DecidableEq τ] [DecidableEq ω] (h : s.Assigned) (hpc : s.worker w = .filling r)
    {x : List ListId × ListTile α} (hx : x.2.state ≠ .filling ∧ x.2.state ≠ .free) :
    ((s.change r.tile x).moveWorker w (.notified r.tile)).Assigned := by
  have hr : s.At r (.taken w) := by simp [At, hpc, WorkerPc.request]
  have hat : ∀ r' pl, ((s.change r.tile x).moveWorker w (.notified r.tile)).At r' pl → s.At r' pl ∧ r'.tile ≠ r.tile :=
    fun r' pl h' => h.finish_at hpc h'
  have htile : ∀ t, t ≠ r.tile → ((s.change r.tile x).moveWorker w (.notified r.tile)).tile t =
      s.tile t := fun t ht => by
    simp [Threads.moveWorker, change, ht]
  have hself : ((s.change r.tile x).moveWorker w (.notified r.tile)).tile r.tile = x.2 := by
    simp [Threads.moveWorker, change]
  refine h.mono (.refl _) (fun r' pl hr' => (hat r' pl hr').1) rfl (fun r' pl hr' => ?_)
    (fun rest hrest => ⟨(h.clearing rest hrest).1, fun r' hr' hnot => ?_⟩) (fun t ht => ?_) fun w' t ht => ?_
  · obtain ⟨h₁, h₂⟩ := hat r' pl hr'
    rw [htile _ h₂]
    exact h.filling r' pl h₁
  · rw [htile _ (hat r' .queued hr').2]
    exact (h.clearing rest hrest).2 r' hr' hnot
  · by_cases htr : t = r.tile
    · subst htr
      rw [hself] at ht
      exact absurd ht hx.1
    · rw [htile t htr] at ht
      refine (h.known t ht).imp_left fun ⟨r', pl, hr', hrt⟩ => ⟨r', pl, ?_, hrt⟩
      cases pl with
      | entering => exact hr'
      | queued => exact hr'
      | taken w' =>
        have hw : w' ≠ w := by
          rintro rfl
          obtain rfl : r = r' := by simpa [At, hpc, WorkerPc.request] using hr'
          exact htr hrt.symm
        simpa [At, Threads.moveWorker, change, hw] using hr'
  · by_cases hw : w' = w
    · subst hw
      obtain rfl : r.tile = t := by simpa [Threads.moveWorker] using ht
      exact ⟨fun r' pl hr' => (hat r' pl hr').2, by rw [hself]; exact hx.2⟩
    · have ht : s.worker w' = .notified t := by simpa [Threads.moveWorker, change, hw] using ht
      obtain ⟨hunclaimed, hfree⟩ := h.notified w' t ht
      have htr : t ≠ r.tile := fun he => hunclaimed r _ hr he.symm
      exact ⟨fun r' pl hr' => hunclaimed r' pl (hat r' pl hr').1, by rw [htile t htr]; exact hfree⟩

/-- A work goes to another place. -/
theorem Threads.Assigned.relocate [DecidableEq τ] (h : s.Assigned) {pl₀ : Place ω} (pl₁ : Place ω) (hr : s.At r pl₀)
    (hat : ∀ r' pl, s'.At r' pl ↔ r'.tile ≠ r.tile ∧ s.At r' pl ∨ r' = r ∧ pl = pl₁)
    (hnodup : (s'.queue.map Request.tile).Nodup) (hactivations : s'.activations = s.activations)
    (htile : s'.tile = s.tile) (hclearing : ∀ rest, s.reader ≠ .clearing rest ∧ s'.reader ≠ .clearing rest)
    (herased : ∀ t st, s.reader = .erased t st → s'.reader = .erased t st)
    (hnotified : ∀ w t, s'.worker w = .notified t → s.worker w = .notified t) : s'.Assigned := by
  have hfilling : ∀ r pl, s.At r pl → (s.tile r.tile).state = .filling := fun r pl hr =>
    (h.filling r pl hr).resolve_right fun ⟨_, rest, hrest, _⟩ => (hclearing rest).1 hrest
  refine ⟨hnodup, fun r₁ r₂ pl pl' h₁ h₂ he => ?_, fun r' pl h' => ?_, fun r' pl h' => .inl ?_,
    fun rest hrest => absurd hrest (hclearing rest).2, fun t ht => ?_, fun w t ht => ?_⟩
  · rcases (hat r₁ pl).mp h₁ with ⟨hne₁, h₁⟩ | ⟨rfl, rfl⟩ <;> rcases (hat r₂ pl').mp h₂ with ⟨hne₂, h₂⟩ | ⟨rfl, rfl⟩
    · exact h.unique r₁ r₂ pl pl' h₁ h₂ he
    · exact absurd he hne₁
    · exact absurd he.symm hne₂
    · rfl
  · rw [hactivations]
    rcases (hat r' pl).mp h' with ⟨-, h'⟩ | ⟨rfl, -⟩
    · exact h.number r' pl h'
    · exact h.number r' pl₀ hr
  · rw [htile]
    rcases (hat r' pl).mp h' with ⟨-, h'⟩ | ⟨rfl, -⟩
    · exact hfilling r' pl h'
    · exact hfilling r' pl₀ hr
  · rw [htile] at ht
    rcases h.known t ht with ⟨r', pl, hr', hrt⟩ | ⟨st, hst⟩
    · by_cases he : r'.tile = r.tile
      · exact .inl ⟨r, pl₁, (hat r pl₁).mpr (.inr ⟨rfl, rfl⟩), he.symm.trans hrt⟩
      · exact .inl ⟨r', pl, (hat r' pl).mpr (.inl ⟨he, hr'⟩), hrt⟩
    · exact .inr ⟨st, herased t st hst⟩
  · obtain ⟨hunclaimed, hfree⟩ := h.notified w t (hnotified w t ht)
    refine ⟨fun r' pl h' => ?_, by rw [htile]; exact hfree⟩
    rcases (hat r' pl).mp h' with ⟨-, h'⟩ | ⟨rfl, -⟩
    · exact hunclaimed r' pl h'
    · exact hunclaimed r' pl₀ hr

/-- A worker takes the work at the front of the queue. -/
theorem Threads.Assigned.dequeue [DecidableEq τ] [DecidableEq ω] (hl : s.Locked) (h : s.Assigned)
    {rest : List (Request τ)} (hpc : s.worker w = .dequeuing) (hqueue : s.queue = r :: rest) :
    ({ s with queue := rest }.moveWorker w (.dequeued r)).Assigned := by
  have hlock : s.queueLock = some (.worker w) := (hl.queue_worker w).mpr (by rw [hpc]; rfl)
  have hreader : s.reader.holdsQueue = false := by
    simpa [hlock] using hl.queue_reader
  have hr : s.At r .queued := by simp [At, hqueue]
  have hnodup := h.nodup
  rw [hqueue, List.map_cons, List.nodup_cons] at hnodup
  refine h.relocate (.taken w) hr (fun r' pl => ?_) hnodup.2 rfl rfl (fun rest' => ?_) (fun t st hst => hst)
    fun w' t => notified_update fun t => by simp
  · cases pl with
    | entering =>
      have hne : s.At r' .entering → r'.tile ≠ r.tile := fun h' he => by cases h.unique _ _ _ _ h' hr he
      simp only [At, Threads.moveWorker] at hne ⊢
      grind
    | queued =>
      have hne : r' ∈ rest → r'.tile ≠ r.tile := fun h' he => hnodup.1 (he ▸ List.mem_map_of_mem h')
      simp only [At, Threads.moveWorker, hqueue, List.mem_cons]
      grind
    | taken w' =>
      have hne : s.At r' (.taken w') → r'.tile ≠ r.tile := fun h' he => by cases h.unique _ _ _ _ h' hr he
      simp only [At, Threads.moveWorker, Place.taken.injEq] at hne ⊢
      by_cases hw : w' = w
      · subst hw
        simp [hpc, WorkerPc.request, eq_comm]
      · simp only [Function.update_of_ne hw, hw, and_false, or_false]
        exact ⟨fun h' => ⟨hne h', h'⟩, fun h' => h'.2⟩
  · refine ⟨?_, ?_⟩
    all_goals
      rintro (hrest : s.reader = _)
      rw [hrest] at hreader
      cases hreader

/-- The reading thread puts its work into the queue. -/
theorem Threads.Assigned.enqueue [DecidableEq τ] (h : s.Assigned) (hpc : s.reader = .enqueuing r) :
    { s with queue := s.queue ++ [r], reader := .enqueued }.Assigned := by
  have hr : s.At r .entering := by simp [At, hpc, ReaderPc.request]
  have hfresh : ∀ q ∈ s.queue, q.tile ≠ r.tile := fun q hq he => by
    cases h.unique _ _ _ _ (show s.At q .queued from hq) hr he
  refine h.relocate .queued hr (fun r' pl => ?_) ?_ rfl rfl (fun rest => by simp [hpc])
    (fun t st hst => by simp [hpc] at hst) fun w t ht => ht
  · cases pl with
    | entering =>
      simp only [At, hpc, ReaderPc.request, Option.some.injEq, reduceCtorEq, and_false, or_false, false_iff, not_and]
      exact fun hne he => hne (congrArg Request.tile he.symm)
    | queued =>
      simp only [At, List.mem_append, List.mem_singleton]
      exact ⟨fun h' => h'.imp (fun h' => ⟨hfresh r' h', h'⟩) fun h' => ⟨h', trivial⟩, fun h' => h'.imp (·.2) (·.1)⟩
    | taken w =>
      have hne : s.At r' (.taken w) → r'.tile ≠ r.tile := fun h' he => by cases h.unique _ _ _ _ h' hr he
      simp only [At, reduceCtorEq, and_false, or_false]
      exact ⟨fun h' => ⟨hne h', h'⟩, fun h' => h'.2⟩
  · rw [List.map_append, List.nodup_append]
    refine ⟨h.nodup, by simp, fun t ht t' ht' => ?_⟩
    obtain ⟨q, hq, rfl⟩ := List.mem_map.mp ht
    obtain rfl : t' = r.tile := by simpa using ht'
    exact hfresh q hq

/-- A free tile is activated, and has a work. -/
theorem Threads.Assigned.activate [DecidableEq τ] (h : s.Assigned) (hpc : s.reader = .idle)
    (hfree : (s.tile t).state = .free) (hqueue : s'.queue = s.queue) (hworker : s'.worker = s.worker)
    (hreader : s'.reader = .entering ⟨t, s.activations t + 1⟩) (hstate : (s'.tile t).state = .filling)
    (htile : ∀ t', t' ≠ t → s'.tile t' = s.tile t')
    (hactivations : s'.activations = Function.update s.activations t (s.activations t + 1)) : s'.Assigned := by
  have hidle : ∀ rest, s.reader ≠ .clearing rest := fun rest hrest => by
    rw [hpc] at hrest
    cases hrest
  have hunclaimed : s.Unclaimed t := fun r pl hr he => by
    rcases h.filling r pl hr with hfilling | ⟨-, rest, hrest, -⟩
    · rw [he, hfree] at hfilling
      cases hfilling
    · exact hidle rest hrest
  have hat : ∀ r pl, s'.At r pl → s.At r pl ∨ r = ⟨t, s.activations t + 1⟩ ∧ pl = .entering := by
    rintro r (_ | _ | w) hr
    · refine .inr ⟨?_, rfl⟩
      simpa [At, hreader, ReaderPc.request, eq_comm] using hr
    · exact .inl (by simpa only [At, hqueue] using hr)
    · exact .inl (by simpa only [At, hworker] using hr)
  refine ⟨by rw [hqueue]; exact h.nodup, fun r r' pl pl' hr hr' he => ?_, fun r pl hr => ?_, fun r pl hr => .inl ?_,
    fun rest hrest => ?_, fun t' ht => ?_, fun w t' ht => ?_⟩
  · rcases hat r pl hr with hr | ⟨rfl, rfl⟩ <;> rcases hat r' pl' hr' with hr' | ⟨rfl, rfl⟩
    · exact h.unique r r' pl pl' hr hr' he
    · exact absurd he (hunclaimed r pl hr)
    · exact absurd he.symm (hunclaimed r' pl' hr')
    · rfl
  · rcases hat r pl hr with hr | ⟨rfl, -⟩
    · rw [hactivations, Function.update_of_ne (hunclaimed r pl hr), h.number r pl hr]
    · rw [hactivations, Function.update_self]
  · rcases hat r pl hr with hr | ⟨rfl, -⟩
    · rw [htile _ (hunclaimed r pl hr)]
      exact (h.filling r pl hr).resolve_right fun ⟨_, rest, hrest, _⟩ => hidle rest hrest
    · exact hstate
  · rw [hreader] at hrest
    cases hrest
  · by_cases htt : t' = t
    · exact .inl ⟨⟨t, s.activations t + 1⟩, .entering, by simp only [At, hreader, ReaderPc.request], htt.symm⟩
    · rw [htile t' htt] at ht
      rcases h.known t' ht with ⟨r, pl, hr, hrt⟩ | ⟨st, hst⟩
      · refine .inl ⟨r, pl, ?_, hrt⟩
        cases pl with
        | entering => simp [At, hpc, ReaderPc.request] at hr
        | queued => simpa only [At, hqueue] using hr
        | taken w => simpa only [At, hworker] using hr
      · rw [hpc] at hst
        cases hst
  · rw [hworker] at ht
    obtain ⟨hfree', hne⟩ := h.notified w t' ht
    have htt : t' ≠ t := fun he => hne (he ▸ hfree)
    refine ⟨fun r pl hr => ?_, by rw [htile t' htt]; exact hne⟩
    rcases hat r pl hr with hr | ⟨rfl, -⟩
    · exact hfree' r pl hr
    · exact fun he => htt he.symm

/-- The tile is taken out of the queue. -/
theorem Threads.Assigned.erase [DecidableEq τ] (h : s.Assigned) (hpc : s.reader = .owning t) {st : ListTileState}
    (hreader : s'.reader = .erased t st) (hsub : s'.queue.Sublist s.queue)
    (hother : ∀ r ∈ s.queue, r.tile ≠ t → r ∈ s'.queue) (hworker : s'.worker = s.worker)
    (hactivations : s'.activations = s.activations) (htile : s'.tile = s.tile) : s'.Assigned := by
  have hat : ∀ r pl, s'.At r pl → s.At r pl := by
    rintro r (_ | _ | w) hr
    · simp [At, hreader, ReaderPc.request] at hr
    · exact hsub.subset hr
    · simpa only [At, hworker] using hr
  refine h.mono hsub hat hactivations (fun r pl hr => .inl ?_) (fun rest hrest => ?_) (fun t' ht => ?_)
    fun w t' ht => ?_
  · rw [htile]
    refine (h.filling r pl (hat r pl hr)).resolve_right fun ⟨_, rest, hrest, _⟩ => ?_
    rw [hpc] at hrest
    cases hrest
  · rw [hreader] at hrest
    cases hrest
  · by_cases htt : t' = t
    · exact .inr ⟨st, by rw [hreader, htt]⟩
    · rw [htile] at ht
      rcases h.known t' ht with ⟨r, pl, hr, hrt⟩ | ⟨st, hst⟩
      · refine .inl ⟨r, pl, ?_, hrt⟩
        cases pl with
        | entering => simp [At, hpc, ReaderPc.request] at hr
        | queued => exact hother r hr fun he => htt (hrt.symm.trans he)
        | taken w => simpa only [At, hworker] using hr
      · rw [hpc] at hst
        cases hst
  · rw [hworker] at ht
    obtain ⟨hunclaimed, hfree⟩ := h.notified w t' ht
    exact ⟨fun r pl hr => hunclaimed r pl (hat r pl hr), by rw [htile]; exact hfree⟩

/-- A tile without a work changes, and is not to be filled. -/
theorem Threads.Assigned.changeUnclaimed [DecidableEq τ] (h : s.Assigned) (hunclaimed : s.Unclaimed t)
    {x : List ListId × ListTile α} (hx : x.2.state ≠ .filling)
    (hnotified : x.2.state ≠ .free ∨ ∀ w, s.worker w ≠ .notified t)
    (hclearing : ∀ rest, s.reader ≠ .clearing rest ∧ s'.reader ≠ .clearing rest)
    (herased : ∀ t' st, s.reader = .erased t' st → t' = t) (hreader : s'.reader.request = s.reader.request)
    (hqueue : s'.queue = s.queue) (hworker : s'.worker = s.worker) (hactivations : s'.activations = s.activations)
    (htile : s'.tile = Function.update s.tile t x.2) : s'.Assigned := by
  have hat : ∀ r pl, s'.At r pl ↔ s.At r pl := fun r pl => At.congr hqueue hreader fun w => by rw [hworker]
  refine h.mono (hqueue ▸ .refl _) (fun r pl => (hat r pl).mp) hactivations (fun r pl hr => .inl ?_)
    (fun rest hrest => absurd hrest (hclearing rest).2) (fun t' ht => .inl ?_) fun w t' ht => ?_
  · have hr := (hat r pl).mp hr
    rw [htile, Function.update_of_ne (hunclaimed r pl hr)]
    exact (h.filling r pl hr).resolve_right fun ⟨_, rest, hrest, _⟩ => (hclearing rest).1 hrest
  · have htt : t' ≠ t := by
      rintro rfl
      rw [htile, Function.update_self] at ht
      exact hx ht
    rw [htile, Function.update_of_ne htt] at ht
    rcases h.known t' ht with ⟨r, pl, hr, hrt⟩ | ⟨st, hst⟩
    · exact ⟨r, pl, (hat r pl).mpr hr, hrt⟩
    · exact absurd (herased t' st hst) htt
  · rw [hworker] at ht
    obtain ⟨hfree, hne⟩ := h.notified w t' ht
    refine ⟨fun r pl hr => hfree r pl ((hat r pl).mp hr), ?_⟩
    by_cases htt : t' = t
    · subst htt
      rw [htile, Function.update_self]
      exact hnotified.resolve_right fun hnot => hnot w ht
    · rw [htile, Function.update_of_ne htt]
      exact hne

/-- A tile in the queue is canceled with the others. -/
theorem Threads.Assigned.clearNext [DecidableEq τ] (h : s.Assigned) {rest : List (Request τ)}
    (hpc : s.reader = .clearing (r :: rest)) {x : List ListId × ListTile α} (hx : x.2.state ≠ .filling)
    (hreader : s'.reader = .clearing rest) (hqueue : s'.queue = s.queue) (hworker : s'.worker = s.worker)
    (hactivations : s'.activations = s.activations) (htile : s'.tile = Function.update s.tile r.tile x.2) :
    s'.Assigned := by
  obtain ⟨hsuffix, hcleared⟩ := h.clearing _ hpc
  have hr : s.At r .queued := hsuffix.subset List.mem_cons_self
  have hnot : r.tile ∉ rest.map Request.tile := by
    have := h.nodup.sublist (hsuffix.sublist.map Request.tile)
    rw [List.map_cons, List.nodup_cons] at this
    exact this.1
  have hat : ∀ r' pl, s'.At r' pl ↔ s.At r' pl := fun r' pl =>
    At.congr hqueue (by rw [hreader, hpc]; rfl) fun w => by rw [hworker]
  refine h.mono (hqueue ▸ .refl _) (fun r' pl => (hat r' pl).mp) hactivations (fun r' pl hr' => ?_)
    (fun rest' hrest => ?_) (fun t ht => .inl ?_) fun w t ht => ?_
  · have hr' := (hat r' pl).mp hr'
    by_cases he : r'.tile = r.tile
    · exact .inr ⟨h.unique _ _ _ _ hr' hr he, rest, hreader, he ▸ hnot⟩
    · rw [htile, Function.update_of_ne he]
      refine (h.filling r' pl hr').imp_right fun ⟨hpl, rest', hrest, hnot'⟩ =>
        ⟨hpl, rest, hreader, fun hmem => hnot' ?_⟩
      obtain rfl : r :: rest = rest' := by simpa [hpc] using hrest
      exact List.mem_cons_of_mem _ hmem
  · obtain rfl : rest = rest' := by simpa [hreader] using hrest
    rw [hqueue]
    refine ⟨(List.suffix_cons r rest).trans hsuffix, fun r' hr' hnot' => ?_⟩
    by_cases he : r'.tile = r.tile
    · rw [htile, he, Function.update_self]
      exact hx
    · rw [htile, Function.update_of_ne he]
      exact hcleared r' hr' (by simpa [he] using hnot')
  · have htt : t ≠ r.tile := by
      rintro rfl
      rw [htile, Function.update_self] at ht
      exact hx ht
    rw [htile, Function.update_of_ne htt] at ht
    rcases h.known t ht with ⟨r', pl, hr', hrt⟩ | ⟨st, hst⟩
    · exact ⟨r', pl, (hat r' pl).mpr hr', hrt⟩
    · rw [hpc] at hst
      cases hst
  · rw [hworker] at ht
    obtain ⟨hunclaimed, hfree⟩ := h.notified w t ht
    have htt : t ≠ r.tile := (hunclaimed r _ hr).symm
    exact ⟨fun r' pl hr' =>
      hunclaimed r' pl ((hat r' pl).mp hr'), by rw [htile, Function.update_of_ne htt]; exact hfree⟩

/-- The queue is emptied, when all of its tiles have been canceled. -/
theorem Threads.Assigned.clearQueue (h : s.Assigned) (hpc : s.reader = .clearing []) :
    { s with queue := [], reader := .cleared }.Assigned := by
  obtain ⟨-, hcleared⟩ := h.clearing _ hpc
  refine h.mono (List.nil_sublist _) ?_ rfl (fun r pl hr => ?_) (fun rest hrest => by cases hrest) (fun t ht => .inl ?_)
    fun w t ht => ?_
  all_goals
    have hat : ∀ r pl, { s with queue := [], reader := .cleared }.At r pl → s.At r pl ∧ pl ≠ .queued := by
      rintro r (_ | _ | w) hr
      · cases hr
      · cases hr
      · exact ⟨hr, by simp⟩
  · exact fun r pl hr => (hat r pl hr).1
  · obtain ⟨hr, hpl⟩ := hat r pl hr
    exact .inl ((h.filling r pl hr).resolve_right fun hq => hpl hq.1)
  · rcases h.known t ht with ⟨r, pl, hr, hrt⟩ | ⟨st, hst⟩
    · refine ⟨r, pl, ?_, hrt⟩
      cases pl with
      | entering => simp [At, hpc, ReaderPc.request] at hr
      | queued => exact absurd (hrt ▸ ht) (hcleared r hr (by simp))
      | taken w => exact hr
    · rw [hpc] at hst
      cases hst
  · obtain ⟨hunclaimed, hfree⟩ := h.notified w t ht
    exact ⟨fun r pl hr => hunclaimed r pl (hat r pl hr).1, hfree⟩

theorem ThreadStep.assigned [DecidableEq τ] [DecidableEq ω] [Inhabited α] (hs : ThreadStep tileSize s e s')
    (hl : s.Locked) (hc : s.Canceling) (h : s.Assigned) : s'.Assigned := by
  cases hs with
  | lockQueue hpc hlock => exact h.moveWorker (by rw [hpc]; rfl) (by simp) rfl rfl rfl rfl rfl
  | waitForWork hpc hqueue => exact h.moveWorker (by rw [hpc]; rfl) (by simp) rfl rfl rfl rfl rfl
  | dequeue hpc hqueue => exact h.dequeue hl hpc hqueue
  | lockTile hpc hlock => exact h.moveWorker (by rw [hpc]; rfl) (by simp) rfl rfl rfl rfl rfl
  | unlockQueue hpc => exact h.moveWorker (by rw [hpc]; rfl) (by simp) rfl rfl rfl rfl rfl
  | write hpc hindex =>
    exact h.congr rfl rfl (fun _ => rfl) rfl (change_state rfl) (fun _ => Iff.rfl) (fun _ _ => id) fun _ _ => id
  | doneNotification hpc hcount => exact h.finish hpc (by simp [ListTile.doneNotification])
  | canceledNotification hpc => exact h.finish hpc (ListTile.canceledNotification_state _ _ _)
  | unlockTile hpc => exact h.moveWorker (by rw [hpc]; rfl) (by simp) rfl rfl rfl rfl rfl
  | readerLocks hpc hlock =>
    exact h.moveReader (by rw [hpc]; rfl) (by simp [hpc]) (by simp [hpc]) rfl rfl rfl fun _ => rfl
  | readerUnlocks hpc => exact h.moveReader (by rw [hpc]; rfl) (by simp [hpc]) (by simp [hpc]) rfl rfl rfl fun _ => rfl
  | setChildList hpc hready =>
    exact h.congr rfl rfl (fun _ => rfl) rfl (change_state rfl) (fun _ => Iff.rfl) (fun _ _ => id) fun _ _ => id
  | @activate t idx tile hpc htile =>
    obtain ⟨hfree, rfl⟩ : (s.tile t).state = .free ∧ _ = tile := by simpa [ListTile.activateTile] using htile
    exact h.activate hpc hfree rfl rfl rfl (by simp [change]) (fun t' ht => by simp [change, ht]) rfl
  | enterQueue hpc hlock =>
    exact h.moveReader (by rw [hpc]; rfl) (by simp [hpc]) (by simp [hpc]) rfl rfl rfl fun _ => rfl
  | enqueue hpc => exact h.enqueue hpc
  | leaveQueue hpc => exact h.moveReader (by rw [hpc]; rfl) (by simp [hpc]) (by simp [hpc]) rfl rfl rfl fun _ => rfl
  | cancel hpc hused => exact h.moveReader (by rw [hpc]; rfl) (by simp [hpc]) (by simp [hpc]) rfl rfl rfl fun _ => rfl
  | cancelLocksQueue hpc hlock =>
    exact h.moveReader (by rw [hpc]; rfl) (by simp [hpc]) (by simp [hpc]) rfl rfl rfl fun _ => rfl
  | tryLockTile hpc =>
    split
    · exact h.moveReader (by rw [hpc]; rfl) (by simp [hpc]) (by simp [hpc]) rfl rfl rfl fun _ => rfl
    · exact h.moveReader (by rw [hpc]; rfl) (by simp [hpc]) (by simp [hpc]) rfl rfl rfl fun _ => rfl
  | @erase t hpc =>
    refine h.erase hpc rfl ?_ (fun r hr hne => ?_) rfl rfl rfl
    · dsimp only
      split
      · exact List.eraseP_sublist
      · exact .refl _
    · dsimp only
      split
      · exact (List.mem_eraseP_of_neg (by simpa using hne)).mpr hr
      · exact hr
  | @settle t st hpc =>
    obtain ⟨hst, hfree, hunclaimed⟩ := hc.erased t st hpc
    split
    · obtain ⟨h₁, h₂⟩ := ListTile.canceledNotification_state tileSize (s.tile t) .ok
      exact h.changeUnclaimed hunclaimed h₁ (.inl h₂) (by simp [hpc]) (by simp [hpc]) (by rw [hpc]; rfl) rfl rfl rfl rfl
    · next hcan =>
      have hstate : (s.tile t).state = .canceled := hst ▸ not_not.mp hcan
      refine h.changeUnclaimed hunclaimed (x := ([], s.tile t)) (by simp [hstate]) (.inl (by simp [hstate]))
        (by simp [hpc]) (by simp [hpc]) (by rw [hpc]; rfl) rfl rfl rfl ?_
      simp
  | cancelUnlocksTile hpc =>
    exact h.moveReader (by rw [hpc]; rfl) (by simp [hpc]) (by simp [hpc]) rfl rfl rfl fun _ => rfl
  | cancelUnlocksQueue hpc =>
    exact h.moveReader (by rw [hpc]; rfl) (by simp [hpc]) (by simp [hpc]) rfl rfl rfl fun _ => rfl
  | giveUpQueue hpc => exact h.moveReader (by rw [hpc]; rfl) (by simp [hpc]) (by simp [hpc]) rfl rfl rfl fun _ => rfl
  | regainTile hpc hlock =>
    exact h.moveReader (by rw [hpc]; rfl) (by simp [hpc]) (by simp [hpc]) rfl rfl rfl fun _ => rfl
  | releaseTile hpc => exact h.moveReader (by rw [hpc]; rfl) (by simp [hpc]) (by simp [hpc]) rfl rfl rfl fun _ => rfl
  | @reset t hpc =>
    have hended := hc.ended t (.inr (.inr (.inr hpc)))
    refine h.changeUnclaimed hended.unclaimed (by simp [ListTile.reset]) (.inr fun w hw => hended.unlocked w ?_)
      (by simp [hpc]) (by simp [hpc]) (by rw [hpc]; rfl) rfl rfl rfl rfl
    exact (hl.tile_worker w t).mpr (by rw [hw]; rfl)
  | clearAll hpc hlock =>
    have hat : ∀ r pl, { s with queueLock := some .reader, reader := .clearing s.queue }.At r pl ↔ s.At r pl :=
      fun r pl => At.congr rfl (by rw [hpc]; rfl) fun _ => rfl
    refine h.mono (.refl _) (fun r pl => (hat r pl).mp) rfl (fun r pl hr => .inl ?_) (fun rest hrest => ?_)
      (fun t ht => .inl ?_) fun w t ht => ?_
    · refine (h.filling r pl ((hat r pl).mp hr)).resolve_right fun ⟨_, rest, hrest, _⟩ => ?_
      rw [hpc] at hrest
      cases hrest
    · obtain rfl : s.queue = rest := by simpa using hrest
      exact ⟨List.suffix_refl _, fun r hr hnot => absurd (List.mem_map_of_mem hr) hnot⟩
    · rcases h.known t ht with ⟨r, pl, hr, hrt⟩ | ⟨st, hst⟩
      · exact ⟨r, pl, (hat r pl).mpr hr, hrt⟩
      · rw [hpc] at hst
        cases hst
    · obtain ⟨hunclaimed, hfree⟩ := h.notified w t ht
      exact ⟨fun r pl hr => hunclaimed r pl ((hat r pl).mp hr), hfree⟩
  | clearNext hpc =>
    exact h.clearNext hpc (ListTile.canceledNotification_state _ _ _).1 rfl rfl rfl rfl rfl
  | clearQueue hpc => exact h.clearQueue hpc
  | leaveCleared hpc => exact h.moveReader (by rw [hpc]; rfl) (by simp [hpc]) (by simp [hpc]) rfl rfl rfl fun _ => rfl

/-! ## The points of cancel_filler -/

theorem init_canceling [Inhabited α] : (Threads.init : Threads τ ω α).Canceling := by
  constructor <;> simp [Threads.init]

/-- The reading thread has no work for the queue. -/
theorem Threads.At.of_reader {pl : Place ω} (h : s'.At r pl) (hreader : s'.reader.request = none)
    (hqueue : s'.queue = s.queue) (hworker : s'.worker = s.worker) : s.At r pl := by
  cases pl with
  | entering => simp [At, hreader] at h
  | queued => simpa only [At, hqueue] using h
  | taken w => simpa only [At, hworker] using h

theorem Threads.Unclaimed.of_reader (h : s.Unclaimed t) (hreader : s'.reader.request = none)
    (hqueue : s'.queue = s.queue) (hworker : s'.worker = s.worker) : s'.Unclaimed t :=
  fun r pl hr => h r pl (hr.of_reader hreader hqueue hworker)

/-- Workers make no works, leave tiles without a work alone, and stay with a tile that they fill. -/
theorem Threads.Canceling.ofWorker (h : s.Canceling) (hreader : s'.reader = s.reader)
    (hat : ∀ r pl, s'.At r pl → ∃ pl', s.At r pl')
    (htile : ∀ t, s.Unclaimed t → s'.tile t = s.tile t ∧ ∀ w, s'.tileLock t = some (.worker w) →
      s.tileLock t = some (.worker w))
    (hfree : ∀ t, (s.tile t).state ≠ .free → (s'.tile t).state ≠ .free)
    (hkeep : ∀ w r pl, s.worker w = .filling r → s'.At r pl → s'.worker w = .filling r) : s'.Canceling := by
  have hunclaimed : ∀ t, s.Unclaimed t → s'.Unclaimed t := fun t ht r pl hr => by
    obtain ⟨pl', hr'⟩ := hat r pl hr
    exact ht r pl' hr'
  refine ⟨fun t hpc => ?_, fun t st hpc => ?_, fun t hpc => ?_, fun t hpc => ?_⟩ <;> rw [hreader] at hpc
  · exact hfree t (h.used t hpc)
  · obtain ⟨hst, hne, ht⟩ := h.erased t st hpc
    exact ⟨by rw [(htile t ht).1, hst], hne, hunclaimed t ht⟩
  · obtain ⟨hne, hfilling⟩ := h.awaited t hpc
    refine ⟨hfree t hne, fun r pl hr hrt => ?_⟩
    obtain ⟨pl', hr'⟩ := hat r pl hr
    obtain ⟨w, hw⟩ := hfilling r pl' hr' hrt
    exact ⟨w, hkeep w r pl hw hr⟩
  · obtain ⟨ht, hstate, hlock⟩ := h.ended t hpc
    exact ⟨hunclaimed t ht, by rw [(htile t ht).1]; exact hstate, fun w hw => hlock w ((htile t ht).2 w hw)⟩

/-- A worker gets on with its work, or without one. -/
theorem Threads.Canceling.moveWorker [DecidableEq ω] (h : s.Canceling) {pc : WorkerPc τ}
    (hpc : pc.request = (s.worker w).request) (hkeep : ∀ r, s.worker w ≠ .filling r) (hqueue : s'.queue = s.queue)
    (hreader : s'.reader = s.reader) (hworker : s'.worker = Function.update s.worker w pc) (htile : s'.tile = s.tile)
    (hlock : ∀ t, s.Unclaimed t → ∀ w, s'.tileLock t = some (.worker w) → s.tileLock t = some (.worker w)) :
    s'.Canceling := by
  refine h.ofWorker hreader (fun r pl hr => ⟨pl, ?_⟩) (fun t ht => ⟨by rw [htile], hlock t ht⟩)
    (fun t => by rw [htile]; exact id) fun w' r pl hw hr => ?_
  · exact (At.congr hqueue (by rw [hreader]) fun w' => by rw [hworker]; exact request_update hpc w').mp hr
  · have hne : w' ≠ w := by
      rintro rfl
      exact hkeep r hw
    rw [hworker, Function.update_of_ne hne, hw]

/-- A worker ends its work. -/
theorem Threads.Canceling.finish [DecidableEq τ] [DecidableEq ω] (h : s.Canceling) (ha : s.Assigned)
    (hpc : s.worker w = .filling r) {x : List ListId × ListTile α} (hx : x.2.state ≠ .free) :
    ((s.change r.tile x).moveWorker w (.notified r.tile)).Canceling := by
  have hr : s.At r (.taken w) := by simp [At, hpc, WorkerPc.request]
  refine h.ofWorker rfl (fun r' pl hr' => ⟨pl, (ha.finish_at hpc hr').1⟩) (fun t ht => ⟨?_, fun w' hw => hw⟩)
    (fun t ht => ?_) fun w' r' pl hw hr' => ?_
  · simp [Threads.moveWorker, change, (ht r _ hr).symm]
  · by_cases htr : t = r.tile
    · subst htr
      simpa [Threads.moveWorker, change] using hx
    · simpa [Threads.moveWorker, change, htr] using ht
  · have hne : w' ≠ w := by
      rintro rfl
      obtain rfl : r = r' := by simpa [hpc] using hw
      exact (ha.finish_at hpc hr').2 rfl
    simpa [Threads.moveWorker, change, hne] using hw

/-- If the tile is locked while the queue is, by other threads, then its work, if there is one, is being done. -/
theorem Threads.Assigned.filling_of_locked (h : s.Assigned) (hl : s.Locked) (hqueue : s.reader.holdsQueue = true)
    (htile : s.reader.holdsTile = none) (hlock : s.tileLock t ≠ none) {pl : Place ω} (hr : s.At r pl)
    (hrt : r.tile = t) : ∃ w, s.worker w = .filling r := by
  obtain ⟨th, hth⟩ := Option.ne_none_iff_exists'.mp hlock
  have hreader : s.queueLock = some .reader := hl.queue_reader.mpr hqueue
  cases th with
  | reader =>
    rw [hl.tile_reader, htile] at hth
    cases hth
  | worker w =>
    rw [hl.tile_worker] at hth
    have hnot : (s.worker w).holdsQueue ≠ true := fun hw => by
      rw [← hl.queue_worker, hreader] at hw
      cases hw
    cases hw : s.worker w with
    | idle | dequeuing | dequeued => simp [hw, WorkerPc.holdsTile] at hth
    | locked => simp [hw, WorkerPc.holdsQueue] at hnot
    | filling r' =>
      have hr' : s.At r' (.taken w) := by simp [At, hw, WorkerPc.request]
      have htile : r'.tile = t := by simpa [hw, WorkerPc.holdsTile] using hth
      obtain rfl := h.unique _ _ _ _ hr hr' (hrt.trans htile.symm)
      obtain rfl : r' = r := by simpa [At, hw, WorkerPc.request] using hr
      exact ⟨w, hw⟩
    | notified t' =>
      obtain rfl : t' = t := by simpa [hw, WorkerPc.holdsTile] using hth
      exact absurd hrt ((h.notified w t' hw).1 r pl hr)

/-- With both locks, the work for the tile can only be in the queue. -/
theorem Threads.Locked.queued_of_owning (hl : s.Locked) (hpc : s.reader = .owning t) {pl : Place ω}
    (hr : s.At r pl) (hrt : r.tile = t) : pl = .queued := by
  have hqueue : s.queueLock = some .reader := hl.queue_reader.mpr (by rw [hpc]; rfl)
  have htile : s.tileLock t = some .reader := (hl.tile_reader t).mpr (by rw [hpc]; rfl)
  cases pl with
  | entering => simp [At, hpc, ReaderPc.request] at hr
  | queued => rfl
  | taken w =>
    have hr : (s.worker w).request = some r := hr
    have hnot := hl.queue_worker w
    have hnot' := hl.tile_worker w t
    rw [hqueue] at hnot
    rw [htile] at hnot'
    cases hw : s.worker w with
    | idle | dequeuing | notified => simp [hw, WorkerPc.request] at hr
    | dequeued | locked => simp [hw, WorkerPc.holdsQueue] at hnot
    | filling r' =>
      obtain rfl : r' = r := by simpa [hw, WorkerPc.request] using hr
      simp [hw, WorkerPc.holdsTile, hrt] at hnot'

theorem Threads.Assigned.erase_unclaimed [DecidableEq τ] (h : s.Assigned) (hl : s.Locked) (hpc : s.reader = .owning t)
    (hreader : s'.reader.request = none) (hsub : s'.queue.Sublist s.queue) (hworker : s'.worker = s.worker)
    (herase : (s.tile t).state = .filling → s'.queue = s.queue.eraseP (·.tile = t)) : s'.Unclaimed t := by
  rintro r (_ | _ | w) hr hrt
  · simp [At, hreader] at hr
  · have hmem : r ∈ s.queue := hsub.subset hr
    have hstate : (s.tile t).state = .filling := by
      rcases h.filling r .queued hmem with hstate | ⟨-, rest, hrest, -⟩
      · rwa [hrt] at hstate
      · rw [hpc] at hrest
        cases hrest
    have hnodup := h.nodup
    have hr : r ∈ s'.queue := hr
    rw [herase hstate] at hr
    -- there is no second work for the tile
    obtain ⟨q, before, after, hnot, hq, hqueue, hrest⟩ :=
      List.exists_of_eraseP (p := (·.tile = t)) hmem (by simpa using hrt)
    rw [hrest] at hr
    rw [hqueue] at hnodup
    have hq : q.tile = t := by simpa using hq
    rcases List.mem_append.mp hr with hr | hr
    · exact hnot r hr (decide_eq_true hrt)
    · simp only [List.map_append, List.map_cons, List.nodup_append, List.nodup_cons] at hnodup
      exact hnodup.2.1.1 (hq ▸ hrt ▸ List.mem_map_of_mem hr)
  · have hr : s.At r (.taken w) := by simpa only [At, hworker] using hr
    cases hl.queued_of_owning hpc hr hrt

/-! The thread that reads is at one point of `cancel_filler`, and only what is known there has to be shown. -/

theorem Threads.Canceling.of_used (hreader : s.reader = .canceling t ∨ s.reader = .queueLocked t ∨ s.reader = .owning t)
    (h : (s.tile t).state ≠ .free) : s.Canceling := by
  rcases hreader with hr | hr | hr <;>
    exact ⟨fun t' ht => (by simpa [hr] using ht : t = t') ▸ h, by simp [hr], by simp [hr], by simp [hr]⟩

theorem Threads.Canceling.of_erased {st : ListTileState} (hreader : s.reader = .erased t st)
    (h : st = (s.tile t).state ∧ st ≠ .free ∧ s.Unclaimed t) : s.Canceling := by
  refine ⟨by simp [hreader], fun t' st' ht => ?_, by simp [hreader], by simp [hreader]⟩
  obtain ⟨rfl, rfl⟩ : t = t' ∧ st = st' := by simpa [hreader] using ht
  exact h

theorem Threads.Canceling.of_awaited (hreader : s.reader = .busy t ∨ s.reader = .waiting t)
    (h : (s.tile t).state ≠ .free ∧ ∀ r pl, s.At r pl → r.tile = t → ∃ w, s.worker w = .filling r) : s.Canceling := by
  rcases hreader with hr | hr <;>
    exact ⟨by simp [hr], by simp [hr], fun t' ht => (by simpa [hr] using ht : t = t') ▸ h, by simp [hr]⟩

theorem Threads.Canceling.of_ended (hreader : s.reader = .settled t ∨ s.reader = .tileUnlocked t ∨
    s.reader = .regained t ∨ s.reader = .canceled t) (h : s.Ended t) : s.Canceling := by
  rcases hreader with hr | hr | hr | hr <;>
    exact ⟨by simp [hr], by simp [hr], by simp [hr], fun t' ht => (by simpa [hr] using ht : t = t') ▸ h⟩

/-- A worker takes a work off the queue. -/
theorem Threads.Canceling.dequeue [DecidableEq ω] (h : s.Canceling) {rest : List (Request τ)}
    (hpc : s.worker w = .dequeuing) (hqueue : s.queue = r :: rest) :
    ({ s with queue := rest }.moveWorker w (.dequeued r)).Canceling := by
  refine h.ofWorker rfl (fun r' pl hr' => ?_) (fun t ht => ⟨rfl, fun _ => id⟩) (fun _ => id) fun w' r' pl hw hr' => ?_
  · cases pl with
    | entering => exact ⟨.entering, hr'⟩
    | queued => exact ⟨.queued, by simpa [At, hqueue] using .inr hr'⟩
    | taken w' =>
      by_cases hw : w' = w
      · subst hw
        obtain rfl : r = r' := by simpa [At, Threads.moveWorker, WorkerPc.request] using hr'
        exact ⟨.queued, by simp [At, hqueue]⟩
      · exact ⟨.taken w', by simpa [At, Threads.moveWorker, hw] using hr'⟩
  · have hne : w' ≠ w := by
      rintro rfl
      simp [hpc] at hw
    simpa [Threads.moveWorker, hne] using hw

/-- Where the tile of a canceled filler can be locked again, the filler is gone. -/
theorem Threads.Locked.unclaimed_of_unlocked (hl : s.Locked) (hlock : s.tileLock t = none)
    (hfilling : ∀ r pl, s.At r pl → r.tile = t → ∃ w, s.worker w = .filling r) : s.Unclaimed t := fun r pl hr hrt => by
  obtain ⟨w, hw⟩ := hfilling r pl hr hrt
  have := (hl.tile_worker w t).mpr (by rw [hw, ← hrt]; rfl)
  rw [hlock] at this
  cases this

theorem ThreadStep.canceling [DecidableEq τ] [DecidableEq ω] [Inhabited α] (hs : ThreadStep tileSize s e s')
    (hl : s.Locked) (ha : s.Assigned) (h : s.Canceling) : s'.Canceling := by
  cases hs with
  | lockQueue hpc hlock => exact h.moveWorker (by rw [hpc]; rfl) (by simp [hpc]) rfl rfl rfl rfl fun _ _ _ => id
  | waitForWork hpc hqueue => exact h.moveWorker (by rw [hpc]; rfl) (by simp [hpc]) rfl rfl rfl rfl fun _ _ _ => id
  | dequeue hpc hqueue => exact h.dequeue hpc hqueue
  | @lockTile w r hpc hlock =>
    refine h.moveWorker (by rw [hpc]; rfl) (by simp [hpc]) rfl rfl rfl rfl fun t ht w' hw => ?_
    have hne : r.tile ≠ t := ht r (.taken w) (by simp [At, hpc, WorkerPc.request])
    simpa [Threads.moveWorker, hne.symm] using hw
  | unlockQueue hpc => exact h.moveWorker (by rw [hpc]; rfl) (by simp [hpc]) rfl rfl rfl rfl fun _ _ _ => id
  | @write w r rawIndex data hpc hindex =>
    have hr : s.At r (.taken w) := by simp [At, hpc, WorkerPc.request]
    refine h.ofWorker rfl (fun r' pl hr' => ⟨pl, hr'⟩) (fun t ht => ⟨?_, fun _ => id⟩) (fun t ht => ?_)
      fun w' r' pl hw _ => hw
    · simp [change, (ht r _ hr).symm]
    · rw [change_state rfl]
      exact ht
  | doneNotification hpc hcount => exact h.finish ha hpc (by simp [ListTile.doneNotification])
  | canceledNotification hpc => exact h.finish ha hpc (ListTile.canceledNotification_state _ _ _).2
  | @unlockTile w t hpc =>
    refine h.moveWorker (by rw [hpc]; rfl) (by simp [hpc]) rfl rfl rfl rfl fun t' _ w' hw => ?_
    by_cases htt : t' = t
    · subst htt
      simp [Threads.moveWorker] at hw
    · simpa [Threads.moveWorker, htt] using hw
  | cancel hpc hused => exact .of_used (.inl rfl) hused
  | cancelLocksQueue hpc hlock => exact .of_used (.inr (.inl rfl)) (h.used _ (.inl hpc))
  | @tryLockTile t hpc =>
    have hused := h.used t (.inr (.inl hpc))
    split
    · exact .of_used (.inr (.inr rfl)) hused
    · next hlock =>
      refine .of_awaited (.inl rfl) ⟨hused, fun r pl hr hrt => ?_⟩
      exact ha.filling_of_locked hl (by rw [hpc]; rfl) (by rw [hpc]; rfl) hlock (hr.of_reader rfl rfl rfl) hrt
  | @erase t hpc =>
    refine .of_erased rfl ⟨rfl, h.used t (.inr (.inr hpc)), ha.erase_unclaimed hl hpc rfl ?_ rfl fun hs => if_pos hs⟩
    dsimp only
    split
    · exact List.eraseP_sublist
    · exact .refl _
  | @settle t st hpc =>
    obtain ⟨hst, hused, hunclaimed⟩ := h.erased t st hpc
    have hlock : s.tileLock t = some .reader := (hl.tile_reader t).mpr (by rw [hpc]; rfl)
    refine .of_ended (.inl rfl) ?_
    split
    · obtain ⟨h₁, h₂⟩ := ListTile.canceledNotification_state tileSize (s.tile t) .ok
      exact ⟨hunclaimed.of_reader rfl rfl rfl, by simpa [change] using ⟨h₂, h₁⟩, fun w => by simp [change, hlock]⟩
    · next hcan =>
      have hstate : (s.tile t).state = .canceled := hst ▸ not_not.mp hcan
      exact ⟨hunclaimed.of_reader rfl rfl rfl, by simp [hstate], fun w => by simp [hlock]⟩
  | @cancelUnlocksTile t hpc =>
    obtain ⟨hunclaimed, hstate, -⟩ := h.ended t (.inl hpc)
    exact .of_ended (.inr (.inl rfl)) ⟨hunclaimed.of_reader rfl rfl rfl, hstate, by simp⟩
  | @cancelUnlocksQueue t hpc =>
    obtain ⟨hunclaimed, hstate, hlock⟩ := h.ended t (.inr (.inl hpc))
    exact .of_ended (.inr (.inr (.inr rfl))) ⟨hunclaimed.of_reader rfl rfl rfl, hstate, hlock⟩
  | @giveUpQueue t hpc =>
    obtain ⟨hused, hfilling⟩ := h.awaited t (.inl hpc)
    exact .of_awaited (.inr rfl) ⟨hused, fun r pl hr => hfilling r pl (hr.of_reader rfl rfl rfl)⟩
  | @regainTile t hpc hlock =>
    obtain ⟨hused, hfilling⟩ := h.awaited t (.inr hpc)
    have hunclaimed := hl.unclaimed_of_unlocked hlock hfilling
    refine .of_ended (.inr (.inr (.inl rfl))) ⟨hunclaimed.of_reader rfl rfl rfl, ⟨hused, fun hs => ?_⟩, by simp⟩
    rcases ha.known t hs with ⟨r, pl, hr, hrt⟩ | ⟨st, hst⟩
    · exact hunclaimed r pl hr hrt
    · rw [hpc] at hst
      cases hst
  | @releaseTile t hpc =>
    obtain ⟨hunclaimed, hstate, -⟩ := h.ended t (.inr (.inr (.inl hpc)))
    exact .of_ended (.inr (.inr (.inr rfl))) ⟨hunclaimed.of_reader rfl rfl rfl, hstate, by simp⟩
  | setChildList hpc => constructor <;> simp [change, hpc]
  | _ => constructor <;> simp

theorem run_sound [DecidableEq τ] [DecidableEq ω] [Inhabited α] {es : List (ThreadEvent τ ω α)}
    (h : Run (ThreadStep tileSize) .init es s) : s.Locked ∧ s.Assigned ∧ s.Canceling :=
  h.invariant (P := fun s => s.Locked ∧ s.Assigned ∧ s.Canceling)
    (fun _ _ _ ⟨hl, ha, hc⟩ hs => ⟨hs.locked hl, hs.assigned hl hc ha, hs.canceling hl ha hc⟩)
    ⟨init_locked, init_assigned, init_canceling⟩

/-! ## Items that are stored -/

/-- Only tiles that are ready have items. -/
def Threads.Unfilled (s : Threads τ ω α) : Prop := ∀ t, (s.tile t).state ≠ .ready → (s.tile t).storedItemsCount = 0

theorem Threads.Unfilled.change [DecidableEq τ] (h : s.Unfilled) (t : τ) (x : List ListId × ListTile α)
    (hx : x.2.state ≠ .ready → x.2.storedItemsCount = 0) : (s.change t x).Unfilled := fun t' hstate => by
  simp only [Threads.change] at hstate ⊢
  by_cases ht : t' = t
  · subst ht
    rw [Function.update_self] at hstate ⊢
    exact hx hstate
  · rw [Function.update_of_ne ht] at hstate ⊢
    exact h t' hstate

theorem ThreadStep.unfilled [DecidableEq τ] [DecidableEq ω] [Inhabited α] (hs : ThreadStep tileSize s e s')
    (h : s.Unfilled) : s'.Unfilled := by
  cases hs with
  | @write w r rawIndex data => exact h.change r.tile _ (h r.tile)
  | @doneNotification w r count => exact h.change r.tile ([], (s.tile r.tile).doneNotification count) (absurd rfl)
  | @canceledNotification w r e =>
    exact h.change r.tile ((s.tile r.tile).canceledNotification tileSize e) fun _ => rfl
  | @setChildList t rawIndex child => exact h.change t _ (h t)
  | @activate t idx tile hpc htile =>
    unfold ListTile.activateTile at htile
    split at htile
    · next hfree =>
      cases htile
      exact h.change t _ fun _ => h t (by simp [hfree])
    · cases htile
  | tryLockTile => split <;> exact h
  | @settle t tstate hpc =>
    split
    · exact h.change t ((s.tile t).canceledNotification tileSize .ok) fun _ => rfl
    · exact h
  | @reset t hpc => exact h.change t ((s.tile t).reset tileSize .ok .free) fun _ => rfl
  | @clearNext r rest hpc => exact h.change r.tile ((s.tile r.tile).canceledNotification tileSize .ok) fun _ => rfl
  | _ => exact h

theorem run_unfilled [DecidableEq τ] [DecidableEq ω] [Inhabited α] {es : List (ThreadEvent τ ω α)}
    (h : Run (ThreadStep tileSize) .init es s) : s.Unfilled :=
  h.invariant (fun _ _ _ h hs => hs.unfilled h) fun _ _ => rfl

/-! ## The links of a tile -/

/-- The tile for which the reading thread is in `cancel_filler`. -/
def ReaderPc.call : ReaderPc τ → Option τ
  | canceling t | queueLocked t | owning t | erased t _ | settled t | tileUnlocked t | busy t | waiting t | regained t
  | canceled t => some t
  | _ => none

/-- A link of the tile, also one that has been killed. -/
def Threads.Linked (tileSize : ℕ) (s : Threads τ ω α) (t : τ) (child : ListId) : Prop :=
  child ∈ (s.tile t).children tileSize ∨ child ∈ s.killed

theorem ListTile.children_congr {t t' : ListTile α} (h : ∀ i, (t'.items i).child = (t.items i).child) :
    t'.children tileSize = t.children tileSize := by
  simp only [children, h]

/-- Lists that are in a tile are killed when it changes, unless they stay. -/
theorem Threads.Linked.change [DecidableEq τ] {child : ListId} (h : s.Linked tileSize t child) (t' : τ)
    (x : List ListId × ListTile α)
    (hx : ∀ child ∈ (s.tile t').children tileSize, child ∈ x.1 ∨ child ∈ x.2.children tileSize) :
    (s.change t' x).Linked tileSize t child := by
  simp only [Linked, Threads.change, List.mem_append]
  rcases h with h | h
  · by_cases ht : t = t'
    · subst ht
      rw [Function.update_self]
      exact (hx child h).elim (fun h => .inr (.inr h)) .inl
    · rw [Function.update_of_ne ht]
      exact .inl h
  · exact .inr (.inl h)

/-- While the reading thread is in `cancel_filler`, no link gets lost. -/
theorem ThreadStep.linked [DecidableEq τ] [DecidableEq ω] [Inhabited α] (hs : ThreadStep tileSize s e s')
    (hcall : s.reader.call = some t) (hreset : e ≠ .reset) :
    s'.reader.call = some t ∧ ∀ child, s.Linked tileSize t child → s'.Linked tileSize t child := by
  cases hs with
  | @write w r rawIndex data hpc hindex =>
    refine ⟨hcall, fun child h => h.change r.tile _ fun c hc => .inr ?_⟩
    rw [ListTile.children_congr fun i => ?_]
    · exact hc
    · dsimp only
      by_cases hi : i = rawIndex
      · rw [hi, Function.update_self]
      · rw [Function.update_of_ne hi]
  | @doneNotification w r count hpc hcount =>
    exact ⟨hcall, fun child h => h.change r.tile ([], (s.tile r.tile).doneNotification count) fun c hc => .inr hc⟩
  | @canceledNotification w r e hpc =>
    exact ⟨hcall, fun child h => h.change r.tile ((s.tile r.tile).canceledNotification tileSize e) fun c hc => .inl hc⟩
  | @settle t' st hpc =>
    rw [hpc] at hcall
    refine ⟨hcall, fun child h => ?_⟩
    split
    · exact h.change t' ((s.tile t').canceledNotification tileSize .ok) fun c hc => .inl hc
    · exact h
  | tryLockTile hpc =>
    rw [hpc] at hcall
    split <;> exact ⟨hcall, fun _ => id⟩
  | reset => exact absurd rfl hreset
  | lockQueue | waitForWork | dequeue | lockTile | unlockQueue | unlockTile => exact ⟨hcall, fun _ => id⟩
  | cancelLocksQueue hpc | erase hpc | cancelUnlocksTile hpc | cancelUnlocksQueue hpc | giveUpQueue hpc | regainTile hpc
  | releaseTile hpc =>
    rw [hpc] at hcall
    exact ⟨hcall, fun _ => id⟩
  | _ => simp_all [ReaderPc.call]

end Listbrokers.Tiles
