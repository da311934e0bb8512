import Listbrokers.Lru.Effects
import Listbrokers.Lru.Integrity

/-!
# Use within one tick of the clock

`use` does nothing when the clock has not advanced since the last insertion, as
the object and its parents are taken to have been used at that time already. So
they have, if the object itself has (`up_to_date_iff`), because parents are used
with their children. This needs every insertion to find a parent that has been
used in its tick, or to use it.
-/

namespace Listbrokers.Lru

open Framework Cache

variable {P σ : Type} [DecidableEq P] {S : Setup P σ} {T : Forest P} {s s' : Cache P σ} {c c' : System P σ}
  {calls : List (ℕ × Call P)} {e p q : P} {now : ℕ} {content : σ}

/-- When `use` of the parent does nothing for a new entry, the parent has been used at this time. -/
def Call.BelowUsed (S : Setup P σ) (now : ℕ) (s : Cache P σ) : Call P → Prop
  | insert _ created _ _ _ entry => s.Accepts S created entry → ∀ parent ∈ S.forest.parent entry,
      now ≤ s.minimumRequiredCreationTime → s.lastUsed parent = now
  | _ => True

instance (call : Call P) : Decidable (call.BelowUsed S now s) :=
  match call with
  | .insert _ created _ _ _ entry =>
    inferInstanceAs (Decidable (s.Accepts S created entry → ∀ parent ∈ S.forest.parent entry,
      now ≤ s.minimumRequiredCreationTime → s.lastUsed parent = now))
  | .insertAgain .. | .setObjectSize .. | .useEntry _ | .use _ | .pin _ | .gc | .purgeEntries .. => .isTrue trivial

/-- Entries are inserted below parents that have been used. -/
def InsertsBelowUsed (S : Setup P σ) (c : System P σ) (l : ℕ × Call P) : Prop := l.2.BelowUsed S l.1 c.cache

instance (l : ℕ × Call P) : Decidable (InsertsBelowUsed S c l) :=
  inferInstanceAs (Decidable (l.2.BelowUsed S l.1 c.cache))

/-- The object has been inserted, and is in the cache or has an ID. -/
def Known (s : Cache P σ) (p : P) : Prop := p ∈ s.allObjects ∨ (s.id p).isValid = true

/-- No object has been used after its parent. -/
structure ParentsUsed (T : Forest P) (c : System P σ) : Prop where
  parent : ∀ p, Known c.cache p → ∀ q, T.parent p = some q →
    (c.cache.id q).isValid = true ∧ c.cache.lastUsed p ≤ c.cache.lastUsed q
  past : ∀ p, Known c.cache p → c.cache.lastUsed p ≤ c.now
  minimum : c.cache.minimumRequiredCreationTime ≤ c.now
  nextIds : NextIds c.cache

section

omit [DecidableEq P]

theorem ParentsUsed.start : ParentsUsed T (.start now content : System P σ) where
  parent p hp := by rcases hp with hp | hp <;> cases hp
  past p hp := by rcases hp with hp | hp <;> cases hp
  minimum := Nat.le_refl now
  nextIds _ := ⟨Nat.one_pos, show 1 ≤ idMax by decide⟩

/-- All ancestors have been used, too. -/
theorem ParentsUsed.path (h : ParentsUsed T c) (hp : Known c.cache p) (hq : q ∈ T.path p) :
    Known c.cache q ∧ c.cache.lastUsed p ≤ c.cache.lastUsed q := by
  induction p using T.induction_from_root with
  | root p hroot =>
    rw [Forest.path_of_root hroot, List.mem_singleton] at hq
    subst hq
    exact ⟨hp, Nat.le_refl _⟩
  | child p p' hpar ih =>
    rw [Forest.path_of_parent hpar, List.mem_cons] at hq
    rcases hq with rfl | hq
    · exact ⟨hp, Nat.le_refl _⟩
    · obtain ⟨hvalid, hle⟩ := h.parent p hp p' hpar
      obtain ⟨hknown, hle'⟩ := ih (.inr hvalid) hq
      exact ⟨hknown, hle.trans hle'⟩

theorem Keeps.known {ages : P → ℕ} (h : Keeps ages s s') (hp : Known s' p) : Known s p :=
  hp.imp (h.subset p) fun hvalid => h.id ▸ hvalid

end

/-! ## What the calls preserve -/

section

omit [DecidableEq P]

/-- Time goes on, and objects are discarded. -/
theorem ParentsUsed.kept (h : ParentsUsed T c) (hnow : c.now ≤ now) (hkeeps : Keeps c.cache.lastUsed c.cache s') :
    ParentsUsed T ⟨now, s'⟩ where
  parent p hp q hq := by
    rw [hkeeps.id, hkeeps.lastUsed]
    exact h.parent p (hkeeps.known hp) q hq
  past p hp := by
    rw [hkeeps.lastUsed]
    exact (h.past p (hkeeps.known hp)).trans hnow
  minimum := hkeeps.minimum ▸ h.minimum.trans hnow
  nextIds ctx := hkeeps.nextId ▸ h.nextIds ctx

end

/-- An object is used with its path. -/
theorem ParentsUsed.used (h : ParentsUsed S.forest c) (hnow : c.now ≤ now)
    (hkeeps : Keeps (c.cache.agesUsing S now e) c.cache s') : ParentsUsed S.forest ⟨now, s'⟩ where
  parent p hp q hq := by
    obtain ⟨hvalid, hle⟩ := h.parent p (hkeeps.known hp) q hq
    refine ⟨hkeeps.id ▸ hvalid, ?_⟩
    have hpast := (h.past p (hkeeps.known hp)).trans hnow
    rw [hkeeps.lastUsed, agesUsing, agesUsing]
    by_cases hpe : c.cache.minimumRequiredCreationTime < now ∧ p ∈ S.forest.path e
    · rw [if_pos hpe, if_pos ⟨hpe.1, Forest.mem_path_of_parent hpe.2 hq⟩]
    · rw [if_neg hpe]
      split
      · exact hpast
      · exact hle
  past p hp := by
    rw [hkeeps.lastUsed, agesUsing]
    split
    · exact Nat.le_refl now
    · exact (h.past p (hkeeps.known hp)).trans hnow
  minimum := hkeeps.minimum ▸ h.minimum.trans hnow
  nextIds ctx := hkeeps.nextId ▸ h.nextIds ctx

/-- An object gets another ID. -/
theorem ParentsUsed.renamed (h : ParentsUsed T c) (hnow : c.now ≤ now) {i : ListId} (hvalid : i.isValid = true)
    (hold : (c.cache.id e).isValid = true) (hren : Renaming e i c.cache s') : ParentsUsed T ⟨now, s'⟩ := by
  have hids : ∀ p, (s'.id p).isValid = (c.cache.id p).isValid := fun p => by
    rw [hren.id]
    by_cases hpe : p = e
    · rw [hpe, Function.update_self, hvalid, hold]
    · rw [Function.update_of_ne hpe]
  have hknown : ∀ p, Known s' p → Known c.cache p := fun p hp => by
    rcases hp with hp | hp
    · rw [hren.allObjects] at hp
      rcases List.mem_cons.mp hp with rfl | hp
      · exact .inr hold
      · exact .inl (List.mem_filter.mp hp).1
    · exact .inr (hids p ▸ hp)
  refine ⟨fun p hp q hq => ?_, fun p hp => ?_, hren.minimum ▸ h.minimum.trans hnow, hren.nextIds h.nextIds⟩
  · rw [hids, hren.lastUsed]
    exact h.parent p (hknown p hp) q hq
  · rw [hren.lastUsed]
    exact (h.past p (hknown p hp)).trans hnow

/-- The ages after an insertion. -/
theorem agesInserting_cases (S : Setup P σ) (now created : ℕ) (s : Cache P σ) {entry : P} (hp : p ≠ entry) :
    s.agesInserting S now created entry p = s.lastUsed p ∨
      s.agesInserting S now created entry p = now ∧ s.minimumRequiredCreationTime < now ∧
        ∃ parent ∈ S.forest.parent entry, p ∈ S.forest.path parent := by
  unfold agesInserting
  cases S.forest.parent entry with
  | none => exact .inl (Function.update_of_ne hp ..)
  | some parent =>
    dsimp only
    rw [agesUsing]
    split
    · next huse => exact .inr ⟨rfl, huse.1, parent, rfl, huse.2⟩
    · exact .inl (Function.update_of_ne hp ..)

theorem agesInserting_path {created : ℕ} {entry : P} (hpar : S.forest.parent entry = some q)
    (hmin : s.minimumRequiredCreationTime < now) (hp : p ∈ S.forest.path q) :
    s.agesInserting S now created entry p = now := by
  unfold agesInserting
  rw [hpar]
  exact if_pos ⟨hmin, hp⟩

/-- An entry is inserted below a parent that has been used. -/
theorem ParentsUsed.inserted (h : ParentsUsed S.forest c) (hnow : c.now ≤ now) {created : ℕ} {entry : P} {i : ListId}
    (hcreated : created ≤ now)
    (hused : ∀ parent ∈ S.forest.parent entry, now ≤ c.cache.minimumRequiredCreationTime →
      c.cache.lastUsed parent = now)
    (hplaced : Placing S now created entry i c.cache s') : ParentsUsed S.forest ⟨now, s'⟩ := by
  obtain ⟨hinvalid, -, hparent⟩ := hplaced.accepts
  have hknown : ∀ p, Known s' p → p ≠ entry → Known c.cache p := fun p hp hne => by
    rcases hp with hp | hp
    · exact .inl ((hplaced.subset p hp).resolve_left hne)
    · rw [hplaced.id, Function.update_of_ne hne] at hp
      exact .inr hp
  have hage : ∀ p, Known s' p → s'.lastUsed p ≤ now := fun p hp => by
    rw [hplaced.lastUsed]
    by_cases hpe : p = entry
    · rw [hpe, agesInserting_entry]
      exact hcreated
    · rcases agesInserting_cases S now created c.cache hpe with he | ⟨he, -⟩
      · rw [he]
        exact (h.past p (hknown p hp hpe)).trans hnow
      · exact Nat.le_of_eq he
  refine ⟨fun p hp q hq => ?_, hage, ?_, hplaced.nextIds h.nextIds⟩
  · -- the entry has no children yet, as it had no ID
    have hqe : (c.cache.id q).isValid = true ∧ q ≠ entry := by
      have hvalid : (c.cache.id q).isValid = true := by
        by_cases hpe : p = entry
        · exact (hparent q (hpe ▸ hq)).1
        · exact (h.parent p (hknown p hp hpe) q hq).1
      refine ⟨hvalid, fun e => ?_⟩
      rw [e, hinvalid] at hvalid
      cases hvalid
    refine ⟨by rw [hplaced.id, Function.update_of_ne hqe.2]; exact hqe.1, ?_⟩
    rcases agesInserting_cases S now created c.cache hqe.2 with heq | ⟨heq, -⟩
    · rw [hplaced.lastUsed, heq]
      by_cases hpe : p = entry
      · subst hpe
        rw [agesInserting_entry]
        rcases Nat.lt_or_ge c.cache.minimumRequiredCreationTime now with hlt | hge
        · rw [agesInserting_path hq hlt Forest.mem_path_self] at heq
          exact heq ▸ hcreated
        · exact hused q hq hge ▸ hcreated
      · have hp' := agesInserting_cases S now created c.cache hpe
        rcases hp' with hep | ⟨hep, hlt, parent, hpar, hpath⟩
        · rw [hep]
          exact (h.parent p (hknown p hp hpe) q hq).2
        · rw [agesInserting_path hpar hlt (Forest.mem_path_of_parent hpath hq)] at heq
          rw [hep, ← heq]
    · rw [hplaced.lastUsed, heq, ← hplaced.lastUsed]
      exact hage p hp
  · change s'.minimumRequiredCreationTime ≤ now
    rw [hplaced.minimum, hplaced.lastUsed, agesInserting_entry]
    exact hcreated

theorem ParentsUsed.step {l : ℕ × Call P} (h : ParentsUsed S.forest c) (hstep : Step S c l c')
    (hok : InsertsBelowUsed S c l) : ParentsUsed S.forest c' := by
  obtain ⟨now, call⟩ := l
  obtain ⟨clock, s'⟩ := c'
  obtain ⟨hnow, hlive, hrun, rfl⟩ := hstep
  cases (Call.run_effect call c.cache).ok hrun with
  | kept hkeeps => exact h.kept hnow hkeeps
  | used e _ _ hkeeps => exact h.used hnow hkeeps
  | renamed hcall hren hvalid =>
    subst hcall
    exact h.renamed hnow (hvalid h.nextIds hlive.1) hlive.1 hren
  | inserted hcall hplaced =>
    subst hcall
    exact h.inserted hnow hlive.1 (hok hplaced.accepts) hplaced

theorem parents_used (h : Run (When (Step S) (InsertsBelowUsed S)) (.start now content) calls c) :
    ParentsUsed S.forest c :=
  h.invariant (P := ParentsUsed S.forest) (fun _ _ _ hc hstep => hc.step hstep.2 hstep.1) .start

/-! ## The shortcut -/

/-- `use` of a cached object returns a depth unless it does nothing. -/
theorem useEntry_upToDate (hlookup : s.lookup (s.id e) = .ok (some e)) (hmin : s.minimumRequiredCreationTime ≤ now) :
    (∃ s', s.useEntry S now e = .ok (usedEntryAlreadyUpToDate, s')) ↔ now ≤ s.minimumRequiredCreationTime := by
  unfold useEntry
  constructor
  · rintro ⟨s', h⟩
    obtain ⟨found, -, h⟩ := bind_eq_ok h
    obtain ⟨⟨⟩, -, h⟩ := bind_eq_ok h
    obtain ⟨⟨⟩, -, h⟩ := bind_eq_ok h
    by_contra hle
    rw [if_neg hle] at h
    -- the depth is that of a path, which is not empty
    obtain ⟨⟨depth, cursors⟩, hunlink, h⟩ := bind_eq_ok h
    obtain ⟨links, -, h⟩ := bind_eq_ok h
    obtain ⟨links', -, h⟩ := bind_eq_ok h
    obtain ⟨⟨⟩, -, h⟩ := bind_eq_ok h
    have hdepth : depth = -1 := congrArg Prod.fst (Except.ok.inj h)
    obtain ⟨tail, -, hunlink⟩ := bind_eq_ok hunlink
    obtain ⟨⟨⟩, -, hunlink⟩ := bind_eq_ok hunlink
    have hpath : ((S.forest.path e).length : ℤ) - 1 = depth := congrArg Prod.fst (Except.ok.inj hunlink)
    obtain ⟨M, hM⟩ := S.forest.exists_path_eq e
    rw [hM, List.length_cons] at hpath
    omega
  · intro hle
    exact ⟨s, by simp [hlookup, check, hmin, hle, bind, Except.bind, pure, Except.pure]⟩

/-- The object 1 is used in the tick in which object 2 is inserted. -/
def staleUseCalls : List (ℕ × Call ℕ) := [exampleInsert 0 0, exampleInsert 1 1, exampleInsert 2 2]

/-- `use` takes the object for up to date, although it has been used one millisecond before for the last time. -/
theorem stale_up_to_date : ∃ c, Run (Step exampleSetup) (.start 0 ()) staleUseCalls c ∧
    c.cache.lookup (c.cache.id 1) = .ok (some 1) ∧
    (∃ s', c.cache.useEntry exampleSetup 2000000 1 = .ok (usedEntryAlreadyUpToDate, s')) ∧
    c.cache.lastUsed 1 = 1000000 := by
  obtain ⟨c, hrun, hc⟩ := exec_any (fun _ _ => True) staleUseCalls
    (Q := fun c => ((c.cache.id 1).isValid = true ∧ c.cache.find (c.cache.id 1) = some 1) ∧
      c.cache.minimumRequiredCreationTime = 2000000 ∧ c.cache.lastUsed 1 = 1000000) (by decide +kernel)
  obtain ⟨⟨hvalid, hfind⟩, hmin, hused⟩ := of_decide_eq_true hc
  have hlookup : c.cache.lookup (c.cache.id 1) = .ok (some 1) := by
    rw [Cache.lookup, check, if_pos hvalid, hfind]
    rfl
  exact ⟨c, hrun.of_when, hlookup, (useEntry_upToDate hlookup (Nat.le_of_eq hmin)).mpr (Nat.le_of_eq hmin.symm), hused⟩

/-- When `use` takes an object for up to date, the object and all its ancestors have been used at this time, if and
only if time has advanced since the last insertion, or the object itself has been used at this time. -/
theorem up_to_date_iff (h : Run (When (Step S) (InsertsBelowUsed S)) (.start now content) calls c) {t : ℕ}
    (ht : c.now ≤ t) (hlookup : c.cache.lookup (c.cache.id e) = .ok (some e)) :
    (∀ s', c.cache.useEntry S t e = .ok (usedEntryAlreadyUpToDate, s') →
      ∀ p ∈ S.forest.path e, c.cache.lastUsed p = t) ↔
    c.cache.minimumRequiredCreationTime < t ∨ c.cache.lastUsed e = t := by
  have hinv := parents_used h
  have hreturns := useEntry_upToDate (S := S) hlookup (hinv.minimum.trans ht)
  have hknown : Known c.cache e := by
    obtain ⟨-, hfind⟩ := (lookup_ensures (c.cache.id e) c.cache).ok hlookup
    exact .inl (mem_of_find hfind.symm).1
  constructor
  · intro hall
    rcases Nat.lt_or_ge c.cache.minimumRequiredCreationTime t with hlt | hge
    · exact .inl hlt
    · obtain ⟨s', hs'⟩ := hreturns.mpr hge
      exact .inr (hall s' hs' e Forest.mem_path_self)
  · intro hor s' hs' p hp
    have hused : c.cache.lastUsed e = t := hor.resolve_left (Nat.not_lt.mpr (hreturns.mp ⟨s', hs'⟩))
    obtain ⟨hknown', hle⟩ := hinv.path hknown hp
    have := (hinv.past p hknown').trans ht
    omega

/-- The entry that was inserted last is up to date in its tick. -/
theorem up_to_date_inserted : ∃ c : System ℕ Unit,
    (∃ s', c.cache.useEntry exampleSetup 2000000 2 = .ok (usedEntryAlreadyUpToDate, s')) ∧
    ∀ p ∈ exampleSetup.forest.path 2, c.cache.lastUsed p = 2000000 := by
  obtain ⟨c, hrun, hc⟩ := exec_any (InsertsBelowUsed exampleSetup) staleUseCalls
    (Q := fun c => c.now = 2000000 ∧ ((c.cache.id 2).isValid = true ∧ c.cache.find (c.cache.id 2) = some 2) ∧
      c.cache.minimumRequiredCreationTime = 2000000 ∧ c.cache.lastUsed 2 = 2000000) (by decide +kernel)
  obtain ⟨hclock, ⟨hvalid, hfind⟩, hmin, hused⟩ := of_decide_eq_true hc
  have hlookup : c.cache.lookup (c.cache.id 2) = .ok (some 2) := by
    rw [Cache.lookup, check, if_pos hvalid, hfind]
    rfl
  obtain ⟨s', hs'⟩ := (useEntry_upToDate (S := exampleSetup) hlookup (Nat.le_of_eq hmin)).mpr (Nat.le_of_eq hmin.symm)
  exact ⟨c, ⟨s', hs'⟩, (up_to_date_iff hrun (Nat.le_of_eq hclock) hlookup).mpr (.inr hused) s' hs'⟩

end Listbrokers.Lru
