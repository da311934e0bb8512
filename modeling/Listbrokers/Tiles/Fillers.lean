import Mathlib.Data.List.Perm.Subperm
import Listbrokers.Framework.Forest
import Listbrokers.Framework.Lts
import Listbrokers.Tiles.Loaded

/-!
# The filler threads

The worker threads of a pool of `numberOfThreads`, and the threads that read the
media lists. A worker which has taken a tile looks up the D-Bus path of its list
first, in the tiles of the list above (`get_dbus_object_path`). It waits for
those that are being filled (`waits`), while it occupies a thread of the pool.

Threads that read a list do so in steps made of the basic operations (`Basic`).
They wait for tiles, too, but not in the pool.
-/

namespace Listbrokers.Tiles

open Framework

/-- How far the lookup of the D-Bus path has got. -/
inductive LookupPc
  /-- The iterator is about to get the size of the tile. -/
  | looking (which : ItemLocation)
  | found
  /-- `msg_log_assert` has failed. -/
  | lost
  deriving DecidableEq, Repr

def LookupPc.isLooking : LookupPc → Bool
  | looking _ => true
  | _ => false

theorem LookupPc.exists_of_isLooking {pc : LookupPc} (h : pc.isLooking = true) : ∃ which, pc = .looking which := by
  cases pc with
  | looking which => exact ⟨which, rfl⟩
  | found | lost => cases h

/-- The next tile of the iterator. -/
def LookupPc.next : ItemLocation → LookupPc
  | .up => looking .center
  | .center => looking .down
  | .down => lost

/-- The tiles that are still to be looked at. -/
def LookupPc.ahead : LookupPc → List ItemLocation
  | looking .up => [.up, .center, .down]
  | looking .center => [.center, .down]
  | looking .down => [.down]
  | found | lost => []

/-- The lists and the thread pool, with the lookups of the works that are running. -/
structure Fillers (κ α : Type) where
  sys : Sys κ α
  lookup : Work κ → LookupPc

/-- The tree of media lists, and their IDs. Lists of servers have no media list above. -/
structure MediaTree (κ : Type) extends Forest κ where
  cacheId : κ → ListId

variable {κ α : Type} {tileSize : ℕ} (T : MediaTree κ) (p : ListThreads κ α tileSize)
  (numberOfThreads : ℕ)

namespace Fillers

/-- All lists are new. -/
def init [Inhabited α] (numberOfEntries : κ → ℕ) : Fillers κ α := ⟨.init numberOfEntries, fun _ => .found⟩

variable (s : Fillers κ α)

/-- A tile in the window of the list above. -/
def tileAbove (w : Work κ) (which : ItemLocation) : Option (Work κ) :=
  (T.parent w.1).bind fun b => ((s.sys.lists b).active which).map fun i => (b, i)

/-- The tile that the lookup of a work is at. -/
def tileOfLookup (w : Work κ) : Option (Work κ) :=
  match s.lookup w with
  | .looking which => s.tileAbove T w which
  | _ => none

/-- In `wait_for_ready_state`. -/
def waits (w : Work κ) : Bool := (s.tileOfLookup T w).any fun t => (s.sys.tile t).state = .filling

/-- The item for the child is in the tile. -/
def holdsChild (t : Work κ) (child : ListId) : Bool :=
  (s.sys.tile t).state = .ready &&
    (List.range (s.sys.tile t).storedItemsCount).any fun j => ((s.sys.tile t).items j).child = child

/-- The lookup goes on: the item is in the tile, or the iterator moves on to the next tile. -/
def lookUp (w : Work κ) : LookupPc :=
  match s.lookup w with
  | .looking which =>
    if (s.tileOfLookup T w).any fun t => s.holdsChild t (T.cacheId w.1) then .found else .next which
  | pc => pc

/-- `lookup_child_by_id` of the list above; a list of servers is not tiled. -/
def startLookup (w : Work κ) : LookupPc := if (T.parent w.1).isSome then .looking .up else .found

end Fillers

inductive FillerLabel (κ α : Type)
  | take
  | lookUp (w : Work κ)
  | finish (w : Work κ) (mayContinue : Bool)
  | setList (a : κ) (l : TiledList α)
  | materializeTile (w : Work κ) (loc : Option ItemLocation) (idx : ℕ)
  | cancelAndReset (w : Work κ)
  | cancelAllQueuedFillers
  | setChildList (w : Work κ) (j : ℕ) (child : ListId)

/-- A step that a worker takes. -/
def FillerLabel.OfWorker : FillerLabel κ α → Prop
  | .take | .lookUp _ | .finish _ _ => True
  | _ => False

/-- `set_child_list`. -/
def Sys.setChildList [DecidableEq κ] (s : Sys κ α) (w : Work κ) (j : ℕ) (child : ListId) : Sys κ α :=
  s.setTile w ([], { s.tile w with
    items := Function.update (s.tile w).items j { (s.tile w).items j with child := child } })

/-- The steps of workers and of threads that read. `cancel_filler` waits for the worker that has the tile. -/
inductive FillerStep [DecidableEq κ] [Inhabited α] (s : Fillers κ α) : FillerLabel κ α → Fillers κ α → Prop
  | take {w : Work κ} {rest : List (Work κ)} : s.sys.running.length < numberOfThreads → s.sys.queue = w :: rest →
      FillerStep s .take
        { sys := s.sys.take w rest
          lookup := Function.update s.lookup w (Fillers.startLookup T w) }
  | lookUp {w : Work κ} : w ∈ s.sys.running → (s.lookup w).isLooking = true → s.waits T w = false →
      FillerStep s (.lookUp w) { s with lookup := Function.update s.lookup w (s.lookUp T w) }
  | finish {w : Work κ} (mayContinue : Bool) : w ∈ s.sys.running → s.lookup w = .found →
      FillerStep s (.finish w mayContinue) { s with sys := s.sys.finish p w mayContinue }
  | setList (a : κ) (l : TiledList α) : l.hot = (s.sys.lists a).hot →
      FillerStep s (.setList a l) { s with sys := s.sys.setList a l }
  | materializeTile (w : Work κ) (loc : Option ItemLocation) (idx : ℕ) {sys : Sys κ α} :
      materializeTile tileSize w loc idx s.sys = some ((), sys) →
      FillerStep s (.materializeTile w loc idx) { s with sys := sys }
  | cancelAndReset (w : Work κ) {sys : Sys κ α} : w ∉ s.sys.running →
      cancelAndReset p w s.sys = some ((), sys) → FillerStep s (.cancelAndReset w) { s with sys := sys }
  | cancelAllQueuedFillers {sys : Sys κ α} : cancelAllQueuedFillers tileSize s.sys = some ((), sys) →
      FillerStep s .cancelAllQueuedFillers { s with sys := sys }
  | setChildList (w : Work κ) (j : ℕ) (child : ListId) : (s.sys.tile w).state = .ready →
      FillerStep s (.setChildList w j child) { s with sys := s.sys.setChildList w j child }

/-- A worker has nothing to do but to take a work, or it does not wait for a tile. -/
def Fillers.CanProgress (s : Fillers κ α) : Prop :=
  s.sys.running.length < numberOfThreads ∨ ∃ w ∈ s.sys.running, s.waits T w = false

instance (s : Fillers κ α) : Decidable (s.CanProgress T numberOfThreads) := inferInstanceAs (Decidable (_ ∨ _))

/-! ## Works that may be stuck -/

namespace Fillers

variable (s : Fillers κ α)

/-- The works whose lookups go on. -/
def looking : List (Work κ) := s.sys.running.filter fun w => (s.lookup w).isLooking

/-- The lookup of a work starts when the work is taken. -/
def lookupOf [DecidableEq κ] (w : Work κ) : LookupPc := if w ∈ s.sys.running then s.lookup w else startLookup T w

/-- The lookup may come to the tile: none of those before it holds the item for the child. -/
def ComesTo [DecidableEq κ] (w t : Work κ) : Prop :=
  ∃ before which after, (s.lookupOf T w).ahead = before ++ which :: after ∧ s.tileAbove T w which = some t ∧
    ∀ loc ∈ before, ∀ u ∈ s.tileAbove T w loc, s.holdsChild u (T.cacheId w.1) = false

/-- The work may be stuck after the works `taken` have been taken: its lookup may come to a tile that is being filled,
but nobody has taken the work for this tile; or to one whose work may be stuck itself. -/
inductive Stuck [DecidableEq κ] (taken : List (Work κ)) : Work κ → Prop
  | left {w t : Work κ} : s.ComesTo T w t → (s.sys.tile t).state = .filling → t ∉ s.sys.running → t ∉ taken →
      Stuck taken w
  | behind {w t : Work κ} : s.ComesTo T w t → t ∈ s.looking ++ taken → Stuck taken t → Stuck taken w

/-- As many works as there are threads may be taken, and stuck then. -/
def Hazard [DecidableEq κ] : Prop :=
  ∃ taken left works : List (Work κ), s.sys.queue = taken ++ left ∧ works.Nodup ∧ numberOfThreads ≤ works.length ∧
    ∀ w ∈ works, w ∈ s.looking ++ taken ∧ s.Stuck T taken w

end Fillers

/-- Neither does a thread that reads change the lists so that as many works as there are threads may be stuck, nor does
a worker that leaves a tile behind as it has stored no items. -/
def Unblocked [DecidableEq κ] [Inhabited α] (s : Fillers κ α) : FillerLabel κ α → Prop
  | .finish w mayContinue =>
    ((p.filler w.1).fill (s.sys.tile w).base mayContinue).failed = true ∨
      ((p.filler w.1).fill (s.sys.tile w).base mayContinue).items.length ≠ 0 ∨
      ¬ Fillers.Hazard T numberOfThreads { s with sys := s.sys.finish p w mayContinue }
  | .setList a l => ¬ Fillers.Hazard T numberOfThreads { s with sys := s.sys.setList a l }
  | .materializeTile w loc idx =>
    ∀ r ∈ materializeTile tileSize w loc idx s.sys, ¬ Fillers.Hazard T numberOfThreads { s with sys := r.2 }
  | .cancelAndReset w => ∀ r ∈ cancelAndReset p w s.sys, ¬ Fillers.Hazard T numberOfThreads { s with sys := r.2 }
  | .setChildList w j child =>
    ¬ Fillers.Hazard T numberOfThreads { s with sys := s.sys.setChildList w j child }
  | .take | .lookUp _ | .cancelAllQueuedFillers => True

variable {T p numberOfThreads} {s s' : Fillers κ α} {l : FillerLabel κ α} {w t : Work κ} {taken taken' : List (Work κ)}

namespace Fillers

theorem mem_looking : w ∈ s.looking ↔ w ∈ s.sys.running ∧ (s.lookup w).isLooking = true := List.mem_filter

/-- A lookup that comes to a tile later comes to it now, if it stands where it stood, and tiles that hold an item still
hold it. -/
theorem ComesTo.mono [DecidableEq κ] (h : s'.ComesTo T w t) (hlookup : s'.lookupOf T w = s.lookupOf T w)
    (habove : ∀ which, s'.tileAbove T w which = s.tileAbove T w which)
    (hholds : ∀ u child, s.holdsChild u child = true → s'.holdsChild u child = true) : s.ComesTo T w t := by
  obtain ⟨before, which, after, hahead, htile, hbefore⟩ := h
  refine ⟨before, which, after, hlookup ▸ hahead, habove which ▸ htile, fun loc hloc u hu => ?_⟩
  by_contra hchild
  have := hholds u _ (by simpa using hchild)
  rw [hbefore loc hloc u (habove loc ▸ hu)] at this
  cases this

/-- A lookup that goes on comes to no other tiles. -/
theorem ComesTo.of_lookUp [DecidableEq κ] (hrunning : w ∈ s.sys.running)
    (hisLooking : (s.lookup w).isLooking = true) {v : Work κ}
    (h : ({ s with lookup := Function.update s.lookup w (s.lookUp T w) } : Fillers κ α).ComesTo T v t) :
    s.ComesTo T v t := by
  by_cases e : v = w
  · subst e
    obtain ⟨which, hlooking⟩ := LookupPc.exists_of_isLooking hisLooking
    obtain ⟨before, which', after, hahead, htile, hbefore⟩ := h
    rw [lookupOf, if_pos hrunning] at hahead
    dsimp only at hahead
    rw [Function.update_self, lookUp, hlooking] at hahead
    dsimp only at hahead
    split at hahead
    · simp [LookupPc.ahead] at hahead
    · next hnot =>
      refine ⟨which :: before, which', after, ?_, htile, fun loc hloc u hu => ?_⟩
      · rw [lookupOf, if_pos hrunning, hlooking, List.cons_append, ← hahead]
        cases which <;> rfl
      · rcases List.mem_cons.mp hloc with rfl | hloc
        · have hat : s.tileOfLookup T v = some u := by rw [tileOfLookup, hlooking]; exact hu
          rw [hat] at hnot
          simpa using hnot
        · exact hbefore loc hloc u hu
  · refine h.mono ?_ (fun _ => rfl) fun _ _ => id
    simp only [lookupOf, Function.update_of_ne e]

theorem lookupOf_congr [DecidableEq κ] (hlookup : s'.lookup w = s.lookup w)
    (hrunning : w ∈ s'.sys.running ↔ w ∈ s.sys.running) : s'.lookupOf T w = s.lookupOf T w := by
  simp only [lookupOf, hlookup, hrunning]

/-- With `taken'` taken in `s'`, lookups come to no other tiles than with `taken` taken in `s`, and there are no other
works, neither among those that look up a path nor among those that nobody has taken. -/
structure Eased [DecidableEq κ] (T : MediaTree κ) (s : Fillers κ α) (taken : List (Work κ)) (s' : Fillers κ α)
    (taken' : List (Work κ)) : Prop where
  comesTo : ∀ w ∈ s'.looking ++ taken', ∀ t, s'.ComesTo T w t → s.ComesTo T w t
  subset : s'.looking ++ taken' ⊆ s.looking ++ taken
  left : ∀ t, (s'.sys.tile t).state = .filling → t ∉ s'.sys.running → t ∉ taken' →
    (s.sys.tile t).state = .filling ∧ t ∉ s.sys.running ∧ t ∉ taken

theorem Eased.stuck [DecidableEq κ] (h : Eased T s taken s' taken') (hw : w ∈ s'.looking ++ taken')
    (hstuck : s'.Stuck T taken' w) : s.Stuck T taken w := by
  induction hstuck with
  | left hcome hfilling hrunning ht =>
    obtain ⟨hfilling, hrunning, ht⟩ := h.left _ hfilling hrunning ht
    exact .left (h.comesTo _ hw _ hcome) hfilling hrunning ht
  | behind hcome ht _ ih => exact .behind (h.comesTo _ hw _ hcome) (h.subset ht) (ih ht)

theorem Hazard.eased [DecidableEq κ] (h : s'.Hazard T numberOfThreads) (heased : ∀ taken' left', s'.sys.queue =
    taken' ++ left' → ∃ taken left, s.sys.queue = taken ++ left ∧ Eased T s taken s' taken') :
    s.Hazard T numberOfThreads := by
  obtain ⟨taken', left', works, hqueue', hnodup, hlength, hworks⟩ := h
  obtain ⟨taken, left, hqueue, heased⟩ := heased taken' left' hqueue'
  exact ⟨taken, left, works, hqueue, hnodup, hlength, fun w hw =>
    ⟨heased.subset (hworks w hw).1, heased.stuck (hworks w hw).1 (hworks w hw).2⟩⟩

theorem Stuck.exists_left [DecidableEq κ] (h : s.Stuck T taken w) :
    ∃ t, (s.sys.tile t).state = .filling ∧ t ∉ s.sys.running ∧ t ∉ taken := by
  induction h with
  | left _ hfilling hrunning ht => exact ⟨_, hfilling, hrunning, ht⟩
  | behind _ _ _ ih => exact ih

/-- There is no hazard if there are enough threads. -/
theorem not_hazard_of_length [DecidableEq κ] (hthreads : 0 < numberOfThreads)
    (hfilling : ∀ t, (s.sys.tile t).state = .filling → t ∈ s.sys.queue ∨ t ∈ s.sys.running)
    (hlength : s.looking.length + s.sys.queue.length ≤ numberOfThreads) : ¬ s.Hazard T numberOfThreads := by
  rintro ⟨taken, left, works, hqueue, hnodup, hworks, hstuck⟩
  obtain ⟨w, hw⟩ := List.exists_mem_of_length_pos (Nat.lt_of_lt_of_le hthreads hworks)
  obtain ⟨t, ht, hrunning, htaken⟩ := (hstuck w hw).2.exists_left
  have hleft : t ∈ left := by
    have hqueued := (hfilling t ht).resolve_right hrunning
    rw [hqueue] at hqueued
    exact (List.mem_append.mp hqueued).resolve_left htaken
  have hpos : 0 < left.length := List.length_pos_of_mem hleft
  have hle : works.length ≤ (s.looking ++ taken).length :=
    (List.subperm_of_subset hnodup fun v hv => (hstuck v hv).1).length_le
  rw [hqueue] at hlength
  simp only [List.length_append] at hlength hle
  omega

end Fillers

/-- A tile is not left behind if the filler stores items, or fails. -/
theorem doFillTile_state_ne [Inhabited α] (t : ListTile α) (filler : Filler tileSize α) (mayContinue : Bool)
    (h : (filler.fill t.base mayContinue).failed = true ∨ (filler.fill t.base mayContinue).items.length ≠ 0) :
    (t.doFillTile filler mayContinue).2.state ≠ .filling := by
  simp only [ListTile.doFillTile]
  split
  · simp only [ListTile.canceledNotification, ListTile.reset]
    split <;> decide
  · next hfailed =>
    rw [if_neg (h.resolve_left hfailed)]
    show ListTileState.ready ≠ .filling
    decide

/-! ## Runs -/

/-- The hazard is away. -/
structure Fillers.Sound [DecidableEq κ] (T : MediaTree κ) (numberOfThreads : ℕ) (s : Fillers κ α) : Prop where
  wellFormed : s.sys.WellFormed
  safe : ¬ s.Hazard T numberOfThreads

namespace Fillers.Sound

section

variable [DecidableEq κ] (h : s.Sound T numberOfThreads)

include h

theorem take {rest : List (Work κ)} (hq : s.sys.queue = w :: rest) :
    ({ sys := s.sys.take w rest, lookup := Function.update s.lookup w (startLookup T w) } : Fillers κ α).Sound T
      numberOfThreads := by
  refine ⟨h.wellFormed.take hq, fun hhazard => h.safe (hhazard.eased fun taken left hqueue => ?_)⟩
  have hnot : w ∉ s.sys.running := h.wellFormed.disjoint w (hq ▸ List.mem_cons_self)
  -- the work at the front has been taken before those that are going to be taken
  refine ⟨w :: taken, left, hq.trans (congrArg _ hqueue), fun v _ t ht => ?_, fun v hv => ?_,
    fun t hfilling hrunning ht => ?_⟩
  · refine ht.mono ?_ (fun _ => rfl) fun _ _ => id
    by_cases e : v = w
    · subst e
      have htaken : v ∈ (s.sys.take v rest).running := List.mem_cons_self
      rw [lookupOf, lookupOf, if_neg hnot]
      exact (if_pos htaken).trans (Function.update_self ..)
    · exact lookupOf_congr (Function.update_of_ne e ..) (by simp [Sys.take, e])
  · by_cases e : v = w
    · exact List.mem_append_right _ (e ▸ List.mem_cons_self)
    · refine (List.mem_append.mp hv).elim (fun hv => List.mem_append_left _ ?_)
        fun hv => List.mem_append_right _ (List.mem_cons_of_mem w hv)
      obtain ⟨hrunning, hlooking⟩ := mem_looking.mp hv
      dsimp only at hlooking
      exact mem_looking.mpr ⟨List.mem_of_ne_of_mem e hrunning, by rwa [Function.update_of_ne e] at hlooking⟩
  · refine ⟨hfilling, fun hr => hrunning (List.mem_cons_of_mem w hr), fun ht' => ?_⟩
    rcases List.mem_cons.mp ht' with rfl | ht'
    · exact hrunning List.mem_cons_self
    · exact ht ht'

theorem lookUp (hw : w ∈ s.sys.running) (hlooking : (s.lookup w).isLooking = true) :
    ({ s with lookup := Function.update s.lookup w (s.lookUp T w) } : Fillers κ α).Sound T numberOfThreads := by
  refine ⟨h.wellFormed, fun hhazard => h.safe (hhazard.eased fun taken left hqueue => ⟨taken, left, hqueue,
    fun v _ t ht => ht.of_lookUp hw hlooking, fun v hv => ?_, fun t hfilling hrunning ht => ⟨hfilling, hrunning, ht⟩⟩)⟩
  refine (List.mem_append.mp hv).elim (fun hv => List.mem_append_left _ ?_) (List.mem_append_right _)
  obtain ⟨hrunning, hlooking'⟩ := mem_looking.mp hv
  refine mem_looking.mpr ⟨hrunning, ?_⟩
  by_cases e : v = w
  · exact e ▸ hlooking
  · dsimp only at hlooking'
    rwa [Function.update_of_ne e] at hlooking'

theorem finish [Inhabited α] (hw : w ∈ s.sys.running) (hfound : s.lookup w = .found) (mayContinue : Bool)
    (hfill : ((p.filler w.1).fill (s.sys.tile w).base mayContinue).failed = true ∨
      ((p.filler w.1).fill (s.sys.tile w).base mayContinue).items.length ≠ 0) :
    ({ s with sys := s.sys.finish p w mayContinue } : Fillers κ α).Sound T numberOfThreads := by
  refine ⟨h.wellFormed.finish p hw mayContinue, fun hhazard => h.safe (hhazard.eased fun taken left hqueue =>
    ⟨taken, left, hqueue, fun v hv t ht => ?_, fun v hv => ?_, fun t hfilling hrunning ht => ?_⟩)⟩
  · have hne : v ≠ w := by
      rintro rfl
      rcases List.mem_append.mp hv with hv | hv
      · simpa [hfound, LookupPc.isLooking] using (mem_looking.mp hv).2
      · exact h.wellFormed.disjoint v (hqueue ▸ List.mem_append_left left hv) hw
    refine ht.mono (lookupOf_congr rfl (List.mem_erase_of_ne hne)) (fun which => ?_) fun u child hchild => ?_
    · simp only [tileAbove, (Sys.finish_lists s.sys w mayContinue _).1]
    · -- the tile of the work has not held anything while it was filled
      have hu : u ≠ w := by
        rintro rfl
        simp [holdsChild, h.wellFormed.running_filling u hw] at hchild
      rwa [holdsChild, Sys.finish, Sys.setTile_tile_ne _ _ hu]
  · refine (List.mem_append.mp hv).elim (fun hv => List.mem_append_left _ ?_) (List.mem_append_right _)
    exact mem_looking.mpr ⟨List.mem_of_mem_erase (mem_looking.mp hv).1, (mem_looking.mp hv).2⟩
  · have hne : t ≠ w := by
      rintro rfl
      rw [Sys.finish, Sys.setTile_tile] at hfilling
      exact doFillTile_state_ne _ _ _ hfill hfilling
    rw [Sys.finish, Sys.setTile_tile_ne _ _ hne] at hfilling
    exact ⟨hfilling, fun hr => hrunning ((List.mem_erase_of_ne hne).mpr hr), ht⟩

theorem cancelAllQueuedFillers [Inhabited α] {sys : Sys κ α}
    (hs : Tiles.cancelAllQueuedFillers tileSize s.sys = some ((), sys)) :
    ({ s with sys := sys } : Fillers κ α).Sound T numberOfThreads := by
  obtain ⟨sys₁, hs₁, hq, hr, hl⟩ := cancelAllQueuedFillers_eq tileSize h.wellFormed
  obtain rfl : sys₁ = sys := by simpa [hs₁] using hs
  have htile : ∀ t, t ∉ s.sys.queue → sys₁.tile t = s.sys.tile t := fun t ht => by
    rw [Sys.tile, hl, Sys.canceledList]
    exact if_neg ht
  refine ⟨cancelAll_wellFormed h.wellFormed hs, fun hhazard => h.safe (hhazard.eased fun taken left hqueue => ?_)⟩
  obtain ⟨rfl, -⟩ := List.append_eq_nil_iff.mp (hqueue.symm.trans hq)
  refine ⟨[], s.sys.queue, rfl, fun v _ _ ht => ht.mono (lookupOf_congr rfl (by rw [hr])) (fun which => ?_)
    fun u _ hchild => ?_, fun v hv => ?_, fun t hfilling hrunning _ => ?_⟩
  · simp only [tileAbove, hl, Sys.canceledList]
  · have hu : u ∉ s.sys.queue := fun hu => by simp [holdsChild, h.wellFormed.queue_filling u hu] at hchild
    rwa [holdsChild, htile u hu]
  · rw [List.append_nil] at hv ⊢
    exact mem_looking.mpr ⟨hr ▸ (mem_looking.mp hv).1, (mem_looking.mp hv).2⟩
  · have ht : t ∉ s.sys.queue := fun ht => by
      have hstate : (sys₁.tile t).state = .canceled := by
        rw [Sys.tile, hl, Sys.canceledList]
        simp [ht, ListTile.canceledNotification, ListTile.reset]
      cases hstate.symm.trans hfilling
    exact ⟨htile t ht ▸ hfilling, hr ▸ hrunning, List.not_mem_nil⟩

/-- One step of a worker or of a thread that reads. -/
theorem step [Inhabited α] (hunblocked : Unblocked T p numberOfThreads s l)
    (hs : FillerStep T p numberOfThreads s l s') : s'.Sound T numberOfThreads := by
  cases hs with
  | take _ hq => exact h.take hq
  | lookUp hw hlooking _ => exact h.lookUp hw hlooking
  | finish mayContinue hw hfound =>
    rcases hunblocked with hfailed | hstored | hsafe
    · exact h.finish hw hfound mayContinue (.inl hfailed)
    · exact h.finish hw hfound mayContinue (.inr hstored)
    · exact ⟨h.wellFormed.finish p hw mayContinue, hsafe⟩
  | setList a l hl => exact ⟨h.wellFormed.modifyList a hl, hunblocked⟩
  | @materializeTile w loc idx sys hs =>
    have hsafe := hunblocked _ hs
    simp only [materializeTile_eq, Option.ite_none_right_eq_some, Option.some.injEq, Prod.mk.injEq, true_and] at hs
    obtain ⟨hfree, rfl⟩ := hs
    exact ⟨h.wellFormed.materialized hfree loc idx, hsafe⟩
  | @cancelAndReset w sys _ hs =>
    refine ⟨?_, hunblocked _ hs⟩
    obtain ⟨_, sys₁, hcancel, hreset⟩ := Op.bind_eq_some.mp hs
    obtain ⟨h₁, hqueue, hrunning⟩ := cancelFiller_wellFormed p h.wellFormed hcancel
    cases hreset
    exact h₁.setTile hqueue hrunning _
  | cancelAllQueuedFillers hs => exact h.cancelAllQueuedFillers hs
  | setChildList w j child hready =>
    refine ⟨h.wellFormed.setTile (fun hw => ?_) (fun hw => ?_) _, hunblocked⟩
    · cases hready.symm.trans (h.wellFormed.queue_filling w hw)
    · cases hready.symm.trans (h.wellFormed.running_filling w hw)

end

end Fillers.Sound

theorem Fillers.Sound.init [DecidableEq κ] [Inhabited α] (hthreads : 0 < numberOfThreads) (numberOfEntries : κ → ℕ) :
    (Fillers.init numberOfEntries : Fillers κ α).Sound T numberOfThreads :=
  ⟨Sys.init_wellFormed numberOfEntries, Fillers.not_hazard_of_length hthreads (fun _ ht => by cases ht) (Nat.zero_le _)⟩

/-- A worker that does not wait takes a step, unless it has not found the path of its list. -/
theorem Fillers.CanProgress.exists_step [DecidableEq κ] [Inhabited α] (h : s.CanProgress T numberOfThreads)
    (hqueue : s.sys.queue ≠ []) :
    (∃ l s', l.OfWorker ∧ FillerStep T p numberOfThreads s l s') ∨ ∃ w ∈ s.sys.running, s.lookup w = .lost := by
  rcases h with hidle | ⟨w, hw, hwaits⟩
  · obtain ⟨w, rest, hq⟩ := List.exists_cons_of_ne_nil hqueue
    exact .inl ⟨.take, _, trivial, .take hidle hq⟩
  · cases hlookup : s.lookup w with
    | looking which => exact .inl ⟨.lookUp w, _, trivial, .lookUp hw (by rw [hlookup]; rfl) hwaits⟩
    | found => exact .inl ⟨.finish w true, _, trivial, .finish true hw hlookup⟩
    | lost => exact .inr ⟨w, hw, hlookup⟩

/-- A list of two items, and the list of one of them. -/
def exampleTree : MediaTree (Fin 2) where
  parent a := if a = 1 then some 0 else none
  rank a := a
  rank_lt {a b} h := by revert a b; decide
  cacheId a := ⟨a + 1⟩

end Listbrokers.Tiles
