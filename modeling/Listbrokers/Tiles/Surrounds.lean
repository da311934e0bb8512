import Listbrokers.Framework.Lts
import Listbrokers.Tiles.Bases
import Listbrokers.Tiles.Sequence

/-!
# The documented window

The window consists of a center tile and its two neighbours on the cycle of the
tiles of the list, as far as there are so many (`Surrounds`). In a history of
`prefetch` calls it does, once tiles have been loaded, unless a tile cannot be
filled, or the window slides in one of the ways that `prefetch` gets wrong
(`PrefetchSafe`).
-/

namespace Listbrokers.Tiles

open Framework TileWindow

variable {κ α : Type} [DecidableEq κ] [Inhabited α] {tileSize : ℕ} {p : ListThreads κ α tileSize} {a : κ} {n : ℕ}
  {s s' : Sys κ α} {l : TiledList α} {W : TileWindow}

/-- The bases of the active tiles are those of the center tile and of its neighbours. -/
inductive Surrounds (tileSize n : ℕ) (base : ItemLocation → Option ℕ) : Prop
  | three (c : ℕ) (hn : 2 * tileSize < n) (hc : c < tileCount tileSize n)
      (up : base .up = some (predTile (tileCount tileSize n) c * tileSize))
      (center : base .center = some (c * tileSize))
      (down : base .down = some (succTile (tileCount tileSize n) c * tileSize))
  | two (c : ℕ) (hn : tileSize < n ∧ n ≤ 2 * tileSize) (hc : c < 2) (center : base .center = some (c * tileSize))
      (other : base .up = some ((1 - c) * tileSize) ∧ base .down = none ∨
        base .up = none ∧ base .down = some ((1 - c) * tileSize))
  | one (hn : 0 < n ∧ n ≤ tileSize) (up : base .up = none) (center : base .center = some 0) (down : base .down = none)

/-- The active tiles have different bases. -/
theorem Surrounds.distinct {base : ItemLocation → Option ℕ} (htile : 0 < tileSize) (h : Surrounds tileSize n base)
    {loc loc' : ItemLocation} {b : ℕ} (hb : base loc = some b) (hb' : base loc' = some b) : loc = loc' := by
  cases h with
  | three c hn hc up center down =>
    have hm : 2 < tileCount tileSize n := (lt_tileCount htile).mpr hn
    have hpred : predTile (tileCount tileSize n) c ≠ c := by unfold predTile; split <;> omega
    have hsucc : succTile (tileCount tileSize n) c ≠ c := by unfold succTile; split <;> omega
    have hboth : predTile (tileCount tileSize n) c ≠ succTile (tileCount tileSize n) c := by
      unfold predTile succTile
      split <;> split <;> omega
    have hinj : ∀ {j k : ℕ}, j * tileSize = k * tileSize → j = k := Nat.eq_of_mul_eq_mul_right htile
    cases loc <;> cases loc' <;>
      simp only [up, center, down, Option.some.injEq] at hb hb' <;>
      first
        | rfl
        | exact absurd (hinj (hb.trans hb'.symm)) (by first | assumption | (apply Ne.symm; assumption))
  | two c hn hc center other =>
    have hne : c ≠ 1 - c := by omega
    have hinj : ∀ {j k : ℕ}, j * tileSize = k * tileSize → j = k := Nat.eq_of_mul_eq_mul_right htile
    rcases other with ⟨up, down⟩ | ⟨up, down⟩ <;>
      cases loc <;> cases loc' <;>
      simp only [up, center, down, Option.some.injEq, reduceCtorEq] at hb hb' <;>
      first
        | rfl
        | exact absurd (hinj (hb.trans hb'.symm)) (by first | assumption | (apply Ne.symm; assumption))
  | one hn up center down =>
    cases loc <;> cases loc' <;> simp_all

section

omit [Inhabited α]

/-- A contiguous window that shows something is the documented one. -/
theorem Based.surrounds (htile : 0 < tileSize) (h : Based tileSize n l W) (hW : Contiguous (tileCount tileSize n) W)
    (hc : W.center ≠ none) : Surrounds tileSize n l.base := by
  obtain ⟨h1, h2⟩ := lt_tileCount_of_size (n := n) htile
  have hup := h.base .up
  have hcenter := h.base .center
  have hdown := h.base .down
  cases hW with
  | empty => exact absurd rfl hc
  | one hm =>
    have hpos : 0 < n := by
      have := (lt_tileCount (n := n) htile).mp (show 0 < _ by omega)
      omega
    refine .one ⟨hpos, by omega⟩ hup ?_ hdown
    rw [hcenter, TileWindow.get, Option.map_some, Nat.zero_mul]
  | twoUp hm hlt => exact .two _ ⟨by omega, by omega⟩ hlt hcenter (.inl ⟨hup, hdown⟩)
  | twoDown hm hlt => exact .two _ ⟨by omega, by omega⟩ hlt hcenter (.inr ⟨hup, hdown⟩)
  | many hm hlt => exact .three _ (by omega) hlt hup hcenter hdown

end

/-! ## Histories -/

/-- What happens to the tiles of a list: the workers take a work or fill a tile, and `prefetch` is called, for one
item with automatic sliding, or for a range. -/
inductive Event (κ : Type)
  | take
  | fill (w : Work κ)
  | single (idx : ℕ) (result : Except ListError Bool)
  | range (first count : ℕ) (result : Except ListError Bool)

/-- A step in the history of list `a`, of `n` items. -/
inductive PrefetchStep (p : ListThreads κ α tileSize) (a : κ) (n : ℕ) : Sys κ α → Event κ → Sys κ α → Prop
  | take {s : Sys κ α} {w : Work κ} {rest : List (Work κ)} (h : s.queue = w :: rest) :
      PrefetchStep p a n s .take (s.take w rest)
  | fill {s : Sys κ α} {w : Work κ} (h : w ∈ s.running) : PrefetchStep p a n s (.fill w) (s.finish p w true)
  | single {s s' : Sys κ α} {idx : ℕ} {r : Except ListError Bool} (hidx : idx < n)
      (h : prefetch p a idx 1 n true s = some (r, s')) : PrefetchStep p a n s (.single idx r) s'
  | range {s s' : Sys κ α} {first count : ℕ} {r : Except ListError Bool} (hfirst : first < n)
      (hend : first + count ≤ n) (h : prefetch p a first count n false s = some (r, s')) :
      PrefetchStep p a n s (.range first count r) s'

/-- The call has the tiles loaded that it is for. -/
def Event.Loads : Event κ → Prop
  | .single _ r => r = .ok true
  | .range _ _ r => r = .ok true
  | _ => False

/-- No tile but the first one of the list fails to be filled, and no call makes the window slide the wrong way, or down
from a dangling index. -/
def PrefetchSafe (p : ListThreads κ α tileSize) (a : κ) (s : Sys κ α) : Event κ → Prop
  | .take => True
  | .fill w => w.1 = a → (s.tile w).base ≠ 0 → ((p.filler a).fill (s.tile w).base true).failed = false
  | .single idx _ => (s.lists a).AccessSafe tileSize idx
  | .range first count _ => 0 < count → count + first % tileSize ≤ 3 * tileSize →
      (s.lists a).RangeSafe tileSize first count

/-- A window of the list, with tiles in it if any have been loaded. -/
def Windowed (a : κ) (tileSize n : ℕ) (loaded : Prop) (s : Sys κ α) : Prop :=
  ∃ W, Based tileSize n (s.lists a) W ∧ Contiguous (tileCount tileSize n) W ∧ (loaded → W.center ≠ none)

theorem TileWindow.Reads.center_ne_none {m k count : ℕ} (h : Reads W k (count + 1)) (hW : Contiguous m W) :
    W.center ≠ none := by
  unfold Reads at h
  rw [List.range'_succ] at h
  have hk := h.subset List.mem_cons_self
  obtain ⟨loc, -, hloc⟩ := List.mem_filterMap.mp hk
  obtain ⟨c, hc⟩ := hW.exists_center hloc
  simp [hc]

/-- A safe step leads to a window again. -/
theorem PrefetchStep.windowed (hn : n ≤ 2 ^ 32) {e : Event κ} {loaded : Prop}
    (hs : When (PrefetchStep p a n) (PrefetchSafe p a) s e s') (h : Windowed a tileSize n loaded s) :
    Windowed a tileSize n (loaded ∨ e.Loads) s' := by
  have hF := based_frame (p := p) (a := a) hn
  obtain ⟨hsafe, hstep⟩ := hs
  obtain ⟨W, hbased, hW, hc⟩ := h
  cases hstep with
  | take hq => exact ⟨W, hbased, hW, fun hl => hc (hl.resolve_right id)⟩
  | fill hw => exact ⟨W, finish_based hbased hsafe, hW, fun hl => hc (hl.resolve_right id)⟩
  | single hidx hcall =>
    obtain ⟨-, W', hbased', hW', hc'⟩ := (prefetch_access hF hbased hW hidx hsafe).2 _ _ hcall
    exact ⟨W', hbased', hW', fun _ => by simp [hc']⟩
  | @range _ first count r hfirst hend hcall =>
    by_cases hfits : 0 < count ∧ count + first % tileSize ≤ 3 * tileSize
    · obtain ⟨-, W', hbased', hW', hreads⟩ :=
        (prefetch_range hF hbased hW hfits.1 hend hfits.2 (hsafe hfits.1 hfits.2)).2 _ _ hcall
      rw [numberOfSpannedTiles, Nat.add_comm 1] at hreads
      exact ⟨W', hbased', hW', fun _ => hreads.center_ne_none hW'⟩
    · -- the range is refused
      have hrefuse : prefetch p a first count n false s = some (.ok false, s) := by
        change prefetchFrom p a (s.lists a) first count n false s = _
        rw [prefetchFrom, if_pos (by omega)]
        rfl
      rw [hrefuse] at hcall
      cases hcall
      refine ⟨W, hbased, hW, fun hl => hc (hl.resolve_right fun hr => ?_)⟩
      cases hr

theorem run_windowed (hn : n ≤ 2 ^ 32) {events : List (Event κ)} {loaded : Prop}
    (hrun : Run (When (PrefetchStep p a n) (PrefetchSafe p a)) s events s') (h : Windowed a tileSize n loaded s) :
    Windowed a tileSize n (loaded ∨ ∃ e ∈ events, e.Loads) s' := by
  induction hrun generalizing loaded with
  | nil => simpa using h
  | @cons _ _ _ e events hstep _ ih =>
    obtain ⟨W, hbased, hW, hc⟩ := ih (PrefetchStep.windowed hn hstep h)
    refine ⟨W, hbased, hW, fun hl => hc ?_⟩
    rcases hl with hl | ⟨e', he', hl⟩
    · exact .inl (.inl hl)
    · rcases List.mem_cons.mp he' with rfl | he'
      · exact .inl (.inr hl)
      · exact .inr ⟨e', he', hl⟩

/-- In a history of safe calls, the window is the documented one after the first call that loads tiles. -/
theorem window_surrounds (hn : n ≤ 2 ^ 32) {numberOfEntries : κ → ℕ} (hentries : numberOfEntries a = n)
    {events : List (Event κ)}
    (hrun : Run (When (PrefetchStep p a n) (PrefetchSafe p a)) (.init numberOfEntries) events s)
    (hloaded : ∃ e ∈ events, e.Loads) :
    Surrounds tileSize n (s.lists a).base ∧
      (∀ loc loc' b, (s.lists a).base loc = some b → (s.lists a).base loc' = some b → loc = loc') := by
  have hinit : Windowed a tileSize n False (.init numberOfEntries : Sys κ α) :=
    ⟨⟨none, none, none⟩, ⟨hentries, by simp [Sys.init, TiledList.init], fun loc => by cases loc <;> rfl,
      fun loc k hk => by cases loc <;> cases hk⟩, .empty, False.elim⟩
  obtain ⟨W, hbased, hW, hc⟩ := run_windowed hn hrun hinit
  have hsurrounds := hbased.surrounds p.tileSize_pos hW (hc (.inr hloaded))
  exact ⟨hsurrounds, fun _ _ _ hb hb' => hsurrounds.distinct p.tileSize_pos hb hb'⟩

/-! ## Histories that are not safe -/

/-- The step for an event, if it can happen. -/
def PrefetchStep.next (p : ListThreads κ α tileSize) (a : κ) (n : ℕ) (s : Sys κ α) : Event κ → Option (Sys κ α)
  | .take =>
    match s.queue with
    | [] => none
    | w :: rest => some (s.take w rest)
  | .fill w => if w ∈ s.running then some (s.finish p w true) else none
  | .single idx r =>
    (prefetch p a idx 1 n true s).bind fun x => if idx < n ∧ x.1 = r then some x.2 else none
  | .range first count r =>
    (prefetch p a first count n false s).bind fun x =>
    if first < n ∧ first + count ≤ n ∧ x.1 = r then some x.2 else none

theorem PrefetchStep.of_next {e : Event κ} (h : PrefetchStep.next p a n s e = some s') : PrefetchStep p a n s e s' := by
  cases e with
  | take =>
    simp only [PrefetchStep.next] at h
    split at h
    · cases h
    · next hq =>
      cases h
      exact .take hq
  | fill w =>
    simp only [PrefetchStep.next, Option.ite_none_right_eq_some, Option.some.injEq] at h
    obtain ⟨hw, rfl⟩ := h
    exact .fill hw
  | single idx r =>
    simp only [PrefetchStep.next, Option.bind_eq_some_iff, Option.ite_none_right_eq_some, Option.some.injEq] at h
    obtain ⟨⟨r', s''⟩, hcall, ⟨hidx, rfl⟩, rfl⟩ := h
    exact .single hidx hcall
  | range first count r =>
    simp only [PrefetchStep.next, Option.bind_eq_some_iff, Option.ite_none_right_eq_some, Option.some.injEq] at h
    obtain ⟨⟨r', s''⟩, hcall, ⟨hfirst, hend, rfl⟩, rfl⟩ := h
    exact .range hfirst hend hcall

/-- A filler that fails for item 2. -/
def failingFiller : Filler 1 ℕ where
  fill base _ := ⟨if base = 2 then [] else [base], by split <;> simp, base = 2, if base = 2 then .internal else .ok⟩
  error_of_failed base h := by simpa using h

/-- The three bases of the window of a list. -/
def TiledList.bases (l : TiledList α) : List (Option ℕ) := [l.base .up, l.base .center, l.base .down]

section

omit [Inhabited α]

/-- A window with other neighbours than the center tile has. -/
theorem not_surrounds {u c d : ℕ} (h : l.bases = [some u, some c, some d])
    (hne : ∀ k < tileCount tileSize n, k * tileSize = c →
      u ≠ predTile (tileCount tileSize n) k * tileSize ∨ d ≠ succTile (tileCount tileSize n) k * tileSize) :
    ¬ Surrounds tileSize n l.base := by
  obtain ⟨hu, hc, hd⟩ : l.base .up = some u ∧ l.base .center = some c ∧ l.base .down = some d := by
    simpa [TiledList.bases] using h
  intro h
  cases h with
  | three k hn hk up center down =>
    have h1 := Option.some.inj (hu.symm.trans up)
    have h2 := Option.some.inj (hc.symm.trans center)
    have h3 := Option.some.inj (hd.symm.trans down)
    exact (hne k hk h2.symm).elim (fun h => h h1) fun h => h h3
  | two k hn hk center other =>
    rcases other with ⟨-, hnone⟩ | ⟨hnone, -⟩
    · rw [hd] at hnone
      cases hnone
    · rw [hu] at hnone
      cases hnone
  | one hn up =>
    rw [hu] at up
    cases up

end

/-- What holds after the events of an example. -/
theorem PrefetchStep.run_any {p : ListThreads Unit ℕ tileSize} {events : List (Event Unit)}
    {ok : Sys Unit ℕ → Event Unit → Prop} [∀ s e, Decidable (ok s e)] {bases : List (Option ℕ)}
    (h : (exec (PrefetchStep.next p () n) ok events (.init fun _ => n)).any
      (fun s => (s.lists ()).bases = bases) = true) :
    ∃ s, Run (When (PrefetchStep p () n) ok) (.init fun _ => n) events s ∧ (s.lists ()).bases = bases := by
  obtain ⟨s, hrun, hs⟩ := Run.of_exec_any
    (fun _ _ _ h => .of_next h : ∀ s e s', PrefetchStep.next p () n s e = some s' → PrefetchStep p () n s e s') h
  exact ⟨s, hrun, of_decide_eq_true hs⟩

/-- Histories that end with a call that loads tiles, and with another window than the documented one: with access to an
index that is dangling; with a range that begins in the center tile; with one that ends there; and with a center tile
that could not be filled. In the first two, two tiles have the same base. -/
theorem window_not_documented :
    (∃ s, Run (PrefetchStep (countingList 2 5 (by decide)) () 5) (.init fun _ => 5)
      [.single 0 (.ok true), .single 3 (.ok true)] s ∧ (s.lists ()).bases = [some 0, some 2, some 0] ∧
      ¬ Surrounds 2 5 (s.lists ()).base) ∧
    (∃ s, Run (PrefetchStep (countingList 1 5 (by decide)) () 5) (.init fun _ => 5)
      [.single 1 (.ok true), .range 1 3 (.ok true)] s ∧ (s.lists ()).bases = [some 1, some 0, some 1] ∧
      ¬ Surrounds 1 5 (s.lists ()).base) ∧
    (∃ s, Run (PrefetchStep (countingList 1 5 (by decide)) () 5) (.init fun _ => 5)
      [.single 3 (.ok true), .range 1 3 (.ok true)] s ∧ (s.lists ()).bases = [some 3, some 4, some 2] ∧
      ¬ Surrounds 1 5 (s.lists ()).base) ∧
    (∃ s, Run (PrefetchStep ⟨fun _ => failingFiller, false, by decide⟩ () 5) (.init fun _ => 5)
      [.single 2 (.ok true), .take, .fill ((), 0), .single 3 (.ok true)] s ∧
      (s.lists ()).bases = [some 0, some 3, some 4] ∧ ¬ Surrounds 1 5 (s.lists ()).base) := by
  refine ⟨?_, ?_, ?_, ?_⟩
  · obtain ⟨s, hrun, hs⟩ := PrefetchStep.run_any (show (exec (PrefetchStep.next (countingList 2 5 (by decide)) () 5)
      (fun _ _ => True) [.single 0 (.ok true), .single 3 (.ok true)] (.init fun _ => 5)).any
      (fun s => (s.lists ()).bases = [some 0, some 2, some 0]) = true by decide +kernel)
    exact ⟨s, hrun.of_when, hs, not_surrounds hs (by decide)⟩
  · obtain ⟨s, hrun, hs⟩ := PrefetchStep.run_any (show (exec (PrefetchStep.next (countingList 1 5 (by decide)) () 5)
      (fun _ _ => True) [.single 1 (.ok true), .range 1 3 (.ok true)] (.init fun _ => 5)).any
      (fun s => (s.lists ()).bases = [some 1, some 0, some 1]) = true by decide +kernel)
    exact ⟨s, hrun.of_when, hs, not_surrounds hs (by decide)⟩
  · obtain ⟨s, hrun, hs⟩ := PrefetchStep.run_any (show (exec (PrefetchStep.next (countingList 1 5 (by decide)) () 5)
      (fun _ _ => True) [.single 3 (.ok true), .range 1 3 (.ok true)] (.init fun _ => 5)).any
      (fun s => (s.lists ()).bases = [some 3, some 4, some 2]) = true by decide +kernel)
    exact ⟨s, hrun.of_when, hs, not_surrounds hs (by decide)⟩
  · obtain ⟨s, hrun, hs⟩ :=
      PrefetchStep.run_any (show (exec (PrefetchStep.next ⟨fun _ => failingFiller, false, by decide⟩ () 5)
      (fun _ _ => True) [.single 2 (.ok true), .take, .fill ((), 0), .single 3 (.ok true)] (.init fun _ => 5)).any
      (fun s => (s.lists ()).bases = [some 0, some 3, some 4]) = true by decide +kernel)
    exact ⟨s, hrun.of_when, hs, not_surrounds hs (by decide)⟩

/-! ## A history that is safe -/

instance (tileSize : ℕ) (l : TiledList α) (idx : ℕ) : Decidable (l.AccessSafe tileSize idx) := by
  unfold TiledList.AccessSafe
  infer_instance

instance (tileSize : ℕ) (l : TiledList α) (first count : ℕ) : Decidable (l.RangeSafe tileSize first count) :=
  decidable_of_iff
    ((numberOfSpannedTiles tileSize first count = 2 → l.contains tileSize first = some .down →
        2 * tileSize < l.numberOfEntries → ¬ Dangling tileSize l.numberOfEntries first) ∧
      (numberOfSpannedTiles tileSize first count = 3 → l.contains tileSize first = some .down →
        ¬ Dangling tileSize l.numberOfEntries (first + tileSize)) ∧
      (numberOfSpannedTiles tileSize first count = 3 → l.contains tileSize first ≠ some .center) ∧
      (numberOfSpannedTiles tileSize first count = 3 → l.contains tileSize first = none →
        l.contains tileSize (first + count - 1) ≠ some .center))
    ⟨fun ⟨h1, h2, h3, h4⟩ => ⟨h1, h2, h3, h4⟩, fun ⟨h1, h2, h3, h4⟩ => ⟨h1, h2, h3, h4⟩⟩

instance (p : ListThreads κ α tileSize) (a : κ) (s : Sys κ α) (e : Event κ) : Decidable (PrefetchSafe p a s e) := by
  cases e <;> unfold PrefetchSafe <;> infer_instance

/-- An access, and a range that begins in the tile above. -/
theorem window_surrounds_up : ∃ s : Sys Unit ℕ, (s.lists ()).bases = [some 2, some 4, some 6] ∧
    Surrounds 2 9 (s.lists ()).base := by
  obtain ⟨s, hrun, hs⟩ := PrefetchStep.run_any (show (exec (PrefetchStep.next (countingList 2 9 (by decide)) () 9)
    (PrefetchSafe (countingList 2 9 (by decide)) ()) [.single 0 (.ok true), .take, .fill ((), 0), .range 2 5 (.ok true)]
    (.init fun _ => 9)).any (fun s => (s.lists ()).bases = [some 2, some 4, some 6]) = true by decide +kernel)
  exact ⟨s, hs, (window_surrounds (a := ()) (n := 9) (by decide) rfl hrun
    ⟨.single 0 (.ok true), List.mem_cons_self, rfl⟩).1⟩

end Listbrokers.Tiles
