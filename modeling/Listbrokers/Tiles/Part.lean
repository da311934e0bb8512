import Listbrokers.Tiles.WellFormed

/-!
# The part of the thread pool that belongs to one list

What the reading thread can see of a list `b`, and what it needs the workers
for, is the list with its tiles and the works pending for them (`Sys.part`).
An operation on a list does the same from any two states that have this list's
part in common (`Made.agrees`), and what the workers can make of the part does not
depend on the rest either (`Workers.simulate`).
-/

namespace Listbrokers.Tiles

open Framework

variable {κ α γ : Type} {tileSize : ℕ} (p : ListThreads κ α tileSize)

/-- What belongs to one list. -/
structure Part (κ α : Type) where
  list : TiledList α
  queue : List (Work κ)
  running : List (Work κ)

/-- The part of list `b`. -/
def Sys.part [DecidableEq κ] (s : Sys κ α) (b : κ) : Part κ α :=
  ⟨s.lists b, s.queue.filter (·.1 = b), s.running.filter (·.1 = b)⟩

section

variable {s s' u : Sys κ α} {w : Work κ} {a b : κ}

theorem Sys.part_eq_iff [DecidableEq κ] : s.part b = u.part b ↔ s.lists b = u.lists b ∧
    s.queue.filter (·.1 = b) = u.queue.filter (·.1 = b) ∧
    s.running.filter (·.1 = b) = u.running.filter (·.1 = b) := by
  simp [Sys.part]

theorem mem_queue_congr [DecidableEq κ] (h : s.part w.1 = u.part w.1) : w ∈ s.queue ↔ w ∈ u.queue := by
  have := congrArg (w ∈ ·) (Sys.part_eq_iff.mp h).2.1
  simpa using this

theorem mem_running_congr [DecidableEq κ] (h : s.part w.1 = u.part w.1) : w ∈ s.running ↔ w ∈ u.running := by
  have := congrArg (w ∈ ·) (Sys.part_eq_iff.mp h).2.2
  simpa using this

theorem tile_congr [DecidableEq κ] (h : s.part w.1 = u.part w.1) : s.tile w = u.tile w := by
  rw [Sys.tile, Sys.tile, (Sys.part_eq_iff.mp h).1]

/-! ## Changing one list -/

theorem setTile_part_ne [DecidableEq κ] (s : Sys κ α) (r) (hb : w.1 ≠ b) : (s.setTile w r).part b = s.part b := by
  rw [Sys.part, Sys.part, Sys.setTile_lists_ne s r hb.symm]
  rfl

theorem setTile_part_congr [DecidableEq κ] (h : s.part w.1 = u.part w.1) (r) :
    (s.setTile w r).part w.1 = (u.setTile w r).part w.1 := by
  obtain ⟨hl, hq, hr⟩ := Sys.part_eq_iff.mp h
  exact Sys.part_eq_iff.mpr ⟨by simp [Sys.setTile, hl], hq, hr⟩

theorem filter_erase_ne [DecidableEq κ] {l : List (Work κ)} (hb : w.1 ≠ b) :
    (l.erase w).filter (·.1 = b) = l.filter (·.1 = b) := by
  rw [← List.erase_filter, List.erase_of_not_mem (by simp [hb])]

theorem finish_part_ne [DecidableEq κ] [Inhabited α] (mayContinue : Bool) (hb : w.1 ≠ b) :
    (s.finish p w mayContinue).part b = s.part b := by
  rw [Sys.finish, setTile_part_ne _ _ hb]
  simp [Sys.part, filter_erase_ne hb]

theorem finish_part_congr [DecidableEq κ] [Inhabited α] (h : s.part w.1 = u.part w.1) (mayContinue : Bool) :
    (s.finish p w mayContinue).part w.1 = (u.finish p w mayContinue).part w.1 := by
  obtain ⟨hl, hq, hr⟩ := Sys.part_eq_iff.mp h
  rw [Sys.finish, Sys.finish, tile_congr h]
  have hp : { s with running := s.running.erase w }.part w.1 = { u with running := u.running.erase w }.part w.1 := by
    refine Sys.part_eq_iff.mpr ⟨hl, hq, ?_⟩
    rw [← List.erase_filter, ← List.erase_filter, hr]
  exact setTile_part_congr hp _

theorem take_part_ne [DecidableEq κ] {rest : List (Work κ)} (hq : s.queue = w :: rest) (hb : w.1 ≠ b) :
    (s.take w rest).part b = s.part b := by
  simp [Sys.part, Sys.take, hq, hb]

theorem take_part_congr [DecidableEq κ] {rest rest' : List (Work κ)} (h : s.part w.1 = u.part w.1)
    (hs : s.queue = w :: rest) (hu : u.queue = w :: rest') : (s.take w rest).part w.1 = (u.take w rest').part w.1 := by
  obtain ⟨hl, hq, hr⟩ := Sys.part_eq_iff.mp h
  rw [hs, hu] at hq
  exact Sys.part_eq_iff.mpr ⟨hl, by simpa [Sys.take] using hq, by simpa [Sys.take] using hr⟩

/-! ## Progress of the workers -/

/-- The workers get to the first work of a list in the queue without changing the list's part. -/
theorem exists_front [DecidableEq κ] [Inhabited α] {v : Work κ} {r queue : List (Work κ)} (u : Sys κ α)
    (hu : u.queue = queue) (hq : queue.filter (·.1 = b) = v :: r) :
    ∃ u' rest, Workers p u u' ∧ u'.queue = v :: rest ∧ u'.part b = u.part b ∧
      ∀ w : Work κ, w.1 = b → doUpTo p w queue u = doUpTo p w (v :: rest) u' := by
  induction queue generalizing u with
  | nil => cases hq
  | cons x rest ih =>
    by_cases hx : x.1 = b
    · rw [List.filter_cons_of_pos (by simpa using hx)] at hq
      obtain ⟨rfl, -⟩ := List.cons.inj hq
      exact ⟨u, rest, .refl, hu, rfl, fun _ _ => rfl⟩
    · rw [List.filter_cons_of_neg (by simpa using hx)] at hq
      obtain ⟨u', rest', hw, hu', hp, hd⟩ := ih ((u.take x rest).finish p x true) rfl hq
      refine ⟨u', rest', .trans (.tail (.single (.take hu)) (.finish (List.mem_cons_self ..))) hw, hu', ?_, ?_⟩
      · rw [hp, finish_part_ne p true hx, take_part_ne hu hx]
      · intro w hwb
        have hne : x ≠ w := fun h => hx (by rw [h, hwb])
        rw [doUpTo, if_neg hne, hd w hwb]

/-- What the workers can make of the part of a list in one state, they can make of it in every state with the
same part. -/
theorem WorkerStep.simulate [DecidableEq κ] [Inhabited α] (h : s.part b = u.part b) (hs : WorkerStep p s s') :
    ∃ u', Workers p u u' ∧ u'.part b = s'.part b := by
  cases hs with
  | @take w rest hq =>
    by_cases hb : w.1 = b
    · subst hb
      have hf : u.queue.filter (·.1 = w.1) = w :: rest.filter (·.1 = w.1) := by
        rw [← (Sys.part_eq_iff.mp h).2.1, hq]
        exact List.filter_cons_of_pos (by simp)
      obtain ⟨u', rest', hw, hu', hp, -⟩ := exists_front p u rfl hf
      exact ⟨u'.take w rest', hw.tail (.take hu'), take_part_congr (hp.trans h.symm) hu' hq⟩
    · exact ⟨u, .refl, by rw [take_part_ne hq hb, h]⟩
  | @finish w hw =>
    by_cases hb : w.1 = b
    · subst hb
      exact ⟨_, .single (.finish ((mem_running_congr h).mp hw)), finish_part_congr p h.symm true⟩
    · exact ⟨u, .refl, by rw [finish_part_ne p true hb, h]⟩

theorem Workers.simulate [DecidableEq κ] [Inhabited α] (h : s.part b = u.part b) (hs : Workers p s s') :
    ∃ u', Workers p u u' ∧ u'.part b = s'.part b := by
  induction hs with
  | refl => exact ⟨u, .refl, h.symm⟩
  | tail _ hstep ih =>
    obtain ⟨u₁, hu₁, hp₁⟩ := ih
    obtain ⟨u₂, hu₂, hp₂⟩ := hstep.simulate p hp₁.symm
    exact ⟨u₂, hu₁.trans hu₂, hp₂⟩

/-- Waiting does the same to the part of a list, whatever else is in the queue. -/
theorem doUpTo_part_congr [DecidableEq κ] [Inhabited α] {queue : List (Work κ)} (s u : Sys κ α) (hs : s.queue = queue)
    (h : s.part w.1 = u.part w.1) (hw : w ∈ queue) :
    (doUpTo p w queue s).part w.1 = (doUpTo p w u.queue u).part w.1 := by
  induction queue generalizing s u with
  | nil => cases hw
  | cons v rest ih =>
    by_cases hb : v.1 = w.1
    · have hf : u.queue.filter (·.1 = w.1) = v :: rest.filter (·.1 = w.1) := by
        rw [← (Sys.part_eq_iff.mp h).2.1, hs]
        exact List.filter_cons_of_pos (by simpa using hb)
      obtain ⟨u', rest', -, hu', hp, hd⟩ := exists_front p u rfl hf
      have hpart : ((s.take v rest).finish p v true).part w.1 = ((u'.take v rest').finish p v true).part w.1 := by
        rw [← hb] at h hp ⊢
        exact finish_part_congr p (take_part_congr (h.trans hp.symm) hs hu') true
      rw [hd w rfl, doUpTo, doUpTo]
      by_cases hv : v = w
      · rw [if_pos hv, if_pos hv]
        exact hpart
      · rw [if_neg hv, if_neg hv]
        exact ih _ _ rfl hpart (by simpa [Ne.symm hv] using hw)
    · have hv : v ≠ w := fun h => hb (by rw [h])
      rw [doUpTo, if_neg hv]
      refine ih _ _ rfl ?_ (by simpa [Ne.symm hv] using hw)
      rw [finish_part_ne p true hb, take_part_ne hs hb, h]

theorem awaited_part_congr [DecidableEq κ] [Inhabited α] (h : s.part w.1 = u.part w.1) :
    (s.awaited p w).part w.1 = (u.awaited p w).part w.1 := by
  unfold Sys.awaited
  by_cases hr : w ∈ s.running
  · rw [if_pos hr, if_pos ((mem_running_congr h).mp hr)]
    exact finish_part_congr p h true
  · rw [if_neg hr, if_neg (mt (mem_running_congr h).mpr hr)]
    by_cases hq : w ∈ s.queue
    · rw [if_pos hq, if_pos ((mem_queue_congr h).mp hq)]
      exact doUpTo_part_congr p s u rfl h hq
    · rw [if_neg hq, if_neg (mt (mem_queue_congr h).mpr hq)]
      exact h

/-! ## Other lists -/

theorem withoutFiller_part_ne [DecidableEq κ] [Inhabited α] (hb : w.1 ≠ b) :
    (s.withoutFiller p w).part b = s.part b := by
  unfold Sys.withoutFiller
  split
  · exact finish_part_ne p false hb
  · split
    · rfl
    · rw [setTile_part_ne _ _ hb]
      split
      · simp [Sys.part, filter_erase_ne hb]
      · rfl

theorem materialized_part_ne [DecidableEq κ] (loc : Option ItemLocation) (idx : ℕ) (hb : w.1 ≠ b) :
    (s.materialized tileSize w loc idx).part b = s.part b := by
  simp [Sys.part, Sys.materialized, Sys.setList, hb, Ne.symm hb]

theorem cancelAll_part_ne [DecidableEq κ] [Inhabited α] (h : s.WellFormed) (hb : ∀ w ∈ s.queue, w.1 ≠ b)
    (hs : cancelAllQueuedFillers tileSize s = some ((), s')) : s'.part b = s.part b := by
  obtain ⟨s₁, hs₁, hq, hr, hl⟩ := cancelAllQueuedFillers_eq tileSize h
  obtain rfl : s₁ = s' := by simpa [hs₁] using hs
  refine Sys.part_eq_iff.mpr ⟨?_, ?_, by rw [hr]⟩
  · have hn : ∀ i, (b, i) ∉ s.queue := fun i hi => hb _ hi rfl
    rw [hl b]
    simp [Sys.canceledList, hn]
  · rw [hq, List.filter_nil]
    exact (List.filter_eq_nil_iff.mpr fun w hw => by simpa using hb w hw).symm

/-- A basic operation on list `a` leaves the part of another list to the workers. -/
theorem Basic.workers_part [DecidableEq κ] [Inhabited α] {clears : Prop} {m : Op (Sys κ α) γ}
    (hm : Basic p a clears γ m) (hab : a ≠ b) {r : γ} (h : s.WellFormed) (hb : clears → ∀ w ∈ s.queue, w.1 ≠ b)
    (hs : m s = some (r, s')) : ∃ u, Workers p s u ∧ u.part b = s'.part b := by
  cases hm with
  | fail => cases hs
  | check c =>
    simp only [Tiles.check, Option.ite_none_right_eq_some, Option.some.injEq, Prod.mk.injEq, true_and] at hs
    exact ⟨s, .refl, by rw [hs.2]⟩
  | theList => cases hs; exact ⟨_, .refl, rfl⟩
  | isFree i => cases hs; exact ⟨_, .refl, rfl⟩
  | findFreeTile => cases hs; exact ⟨_, .refl, rfl⟩
  | modifyList f hf =>
    cases hs
    exact ⟨s, .refl, by simp [Sys.part, Sys.setList, Ne.symm hab]⟩
  | materializeTile i loc idx =>
    simp only [materializeTile_eq, Option.ite_none_right_eq_some, Option.some.injEq, Prod.mk.injEq, true_and] at hs
    obtain ⟨-, rfl⟩ := hs
    exact ⟨s, .refl, (materialized_part_ne loc idx hab).symm⟩
  | cancelAndReset i =>
    obtain ⟨_, s₁, hc, hreset⟩ := Op.bind_eq_some.mp hs
    simp only [cancelFiller, Option.ite_none_right_eq_some, Option.some.injEq, Prod.mk.injEq, true_and] at hc
    obtain ⟨-, rfl⟩ := hc
    cases hreset
    exact ⟨s, .refl, by rw [setTile_part_ne _ _ hab, withoutFiller_part_ne p hab]⟩
  | waitForReadyState i => exact ⟨s', waitForReadyState_workers p s r s' hs, rfl⟩
  | waitEmpty => exact ⟨s', waitEmpty_workers p s r s' hs, rfl⟩
  | cancelAll hc => exact ⟨s, .refl, (cancelAll_part_ne h (hb hc) hs).symm⟩

/-! ## The own list -/

/-- Two well-formed states have the part of a list in common. -/
structure Same [DecidableEq κ] (b : κ) (s u : Sys κ α) : Prop where
  left : s.WellFormed
  right : u.WellFormed
  part : s.part b = u.part b

theorem withoutFiller_part_congr [DecidableEq κ] [Inhabited α] (h : s.part w.1 = u.part w.1) :
    (s.withoutFiller p w).part w.1 = (u.withoutFiller p w).part w.1 := by
  unfold Sys.withoutFiller
  rw [tile_congr h]
  by_cases hr : w ∈ s.running
  · rw [if_pos hr, if_pos ((mem_running_congr h).mp hr)]
    exact finish_part_congr p h false
  · rw [if_neg hr, if_neg (mt (mem_running_congr h).mpr hr)]
    obtain ⟨hl, hq, hrun⟩ := Sys.part_eq_iff.mp h
    split
    · exact h
    · refine setTile_part_congr ?_ _
      split
      · refine Sys.part_eq_iff.mpr ⟨hl, ?_, hrun⟩
        rw [← List.erase_filter, ← List.erase_filter, hq]
      · exact h

theorem materialized_part_congr [DecidableEq κ] (h : s.part w.1 = u.part w.1) (loc : Option ItemLocation) (idx : ℕ) :
    (s.materialized tileSize w loc idx).part w.1 = (u.materialized tileSize w loc idx).part w.1 := by
  obtain ⟨hl, hq, hr⟩ := Sys.part_eq_iff.mp h
  exact Sys.part_eq_iff.mpr ⟨by simp [Sys.materialized, Sys.setList, hl], by
    simp only [Sys.materialized, List.filter_append, hq], hr⟩

theorem modifyList_part_congr [DecidableEq κ] (h : s.part b = u.part b) (f : TiledList α → TiledList α) :
    (s.setList b (f (s.lists b))).part b = (u.setList b (f (u.lists b))).part b := by
  obtain ⟨hl, hq, hr⟩ := Sys.part_eq_iff.mp h
  exact Sys.part_eq_iff.mpr ⟨by simp [Sys.setList, hl], hq, hr⟩

theorem waitForReadyState_agrees [DecidableEq κ] [Inhabited α] (h : s.part w.1 = u.part w.1) :
    (waitForReadyState p w s = none ∧ waitForReadyState p w u = none) ∨ ∃ r,
      waitForReadyState p w s = some (r, s.awaited p w) ∧ waitForReadyState p w u = some (r, u.awaited p w) := by
  unfold waitForReadyState
  dsimp only
  rw [tile_congr (awaited_part_congr p h)]
  split
  · exact .inl ⟨rfl, rfl⟩
  · exact .inr ⟨_, rfl, rfl⟩
  · exact .inr ⟨_, rfl, rfl⟩

theorem takeAll_part_congr [DecidableEq κ] (h : s.part b = u.part b) :
    { s with queue := [], running := s.queue.reverse ++ s.running }.part b =
      { u with queue := [], running := u.queue.reverse ++ u.running }.part b := by
  obtain ⟨hl, hq, hr⟩ := Sys.part_eq_iff.mp h
  exact Sys.part_eq_iff.mpr ⟨hl, rfl, by rw [List.filter_append, List.filter_append, List.filter_reverse,
    List.filter_reverse, hq, hr]⟩

theorem cancelAll_agrees [DecidableEq κ] [Inhabited α] (tileSize : ℕ) (h : Same b s u) :
    ∃ s' u', cancelAllQueuedFillers tileSize s = some ((), s') ∧
    cancelAllQueuedFillers tileSize u = some ((), u') ∧ s'.part b = u'.part b := by
  obtain ⟨s', hs', hq, hr, hl⟩ := cancelAllQueuedFillers_eq tileSize h.left
  obtain ⟨u', hu', hq', hr', hl'⟩ := cancelAllQueuedFillers_eq tileSize h.right
  obtain ⟨hlist, -, hrun⟩ := Sys.part_eq_iff.mp h.part
  have hmem : ∀ i, (b, i) ∈ s.queue ↔ (b, i) ∈ u.queue := fun i => mem_queue_congr (w := (b, i)) h.part
  refine ⟨s', u', hs', hu', Sys.part_eq_iff.mpr ⟨?_, by rw [hq, hq'], by rw [hr, hr', hrun]⟩⟩
  rw [hl, hl', Sys.canceledList, Sys.canceledList, hlist]
  simp only [hmem]

/-- A basic operation on a list does the same from two states that have the part of the list in common. -/
theorem Basic.agrees [DecidableEq κ] [Inhabited α] {clears : Prop} {m : Op (Sys κ α) γ} (hm : Basic p a clears γ m) :
    Agrees (Same a) m := by
  intro s u h
  suffices hpart : (m s = none ∧ m u = none) ∨
      ∃ r s' u', m s = some (r, s') ∧ m u = some (r, u') ∧ s'.part a = u'.part a by
    rcases hpart with hnone | ⟨r, s', u', hs, hu, hp⟩
    · exact .inl hnone
    · exact .inr ⟨r, s', u', hs, hu, hm.wellFormed p s r s' hs h.left, hm.wellFormed p u r u' hu h.right, hp⟩
  obtain ⟨hl, hq, hr⟩ := Sys.part_eq_iff.mp h.part
  cases hm with
  | fail => exact .inl ⟨rfl, rfl⟩
  | check c =>
    by_cases hc : c
    · exact .inr ⟨(), s, u, if_pos hc, if_pos hc, h.part⟩
    · exact .inl ⟨if_neg hc, if_neg hc⟩
  | theList => exact .inr ⟨_, s, u, rfl, by rw [Tiles.theList, hl], h.part⟩
  | isFree i =>
    refine .inr ⟨_, s, u, rfl, ?_, h.part⟩
    simp only [Tiles.isFree, mem_running_congr (w := (a, i)) h.part, tile_congr (w := (a, i)) h.part]
  | findFreeTile =>
    refine .inr ⟨_, s, u, rfl, ?_, h.part⟩
    have hmem : ∀ i, (a, i) ∈ s.running ↔ (a, i) ∈ u.running := fun i => mem_running_congr (w := (a, i)) h.part
    have htile : ∀ i, s.tile (a, i) = u.tile (a, i) := fun i => tile_congr (w := (a, i)) h.part
    simp only [Tiles.findFreeTile, hmem, htile]
  | modifyList f hf => exact .inr ⟨(), _, _, rfl, rfl, modifyList_part_congr h.part f⟩
  | materializeTile i loc idx =>
    rw [materializeTile_eq, materializeTile_eq, tile_congr (w := (a, i)) h.part]
    split
    · exact .inr ⟨(), _, _, rfl, rfl, materialized_part_congr (w := (a, i)) h.part loc idx⟩
    · exact .inl ⟨rfl, rfl⟩
  | cancelAndReset i =>
    have hp := withoutFiller_part_congr p (w := (a, i)) h.part
    simp only [Tiles.cancelAndReset, Op.bind_apply, cancelFiller, tile_congr hp]
    split
    · refine .inr ⟨(), _, _, rfl, rfl, ?_⟩
      rw [tile_congr hp]
      exact setTile_part_congr hp _
    · exact .inl ⟨rfl, rfl⟩
  | waitForReadyState i =>
    rcases waitForReadyState_agrees p (w := (a, i)) h.part with hn | ⟨r, hs, hu⟩
    · exact .inl hn
    · exact .inr ⟨r, _, _, hs, hu, awaited_part_congr p (w := (a, i)) h.part⟩
  | waitEmpty =>
    refine .inr ⟨(), _, _, rfl, rfl, ?_⟩
    split
    · exact takeAll_part_congr h.part
    · exact h.part
  | cancelAll =>
    obtain ⟨s', u', hs', hu', hp⟩ := cancelAll_agrees tileSize h
    exact .inr ⟨(), s', u', hs', hu', hp⟩

/-- An operation on a list does the same from two states that have the part of the list in common. -/
theorem Made.agrees [DecidableEq κ] [Inhabited α] {clears : Prop} {m : Op (Sys κ α) γ} (hm : Made p a clears m) :
    Agrees (Same a) m :=
  Composed.agrees (fun hb => hb.agrees p) hm

end

end Listbrokers.Tiles
