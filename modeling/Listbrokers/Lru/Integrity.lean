import Listbrokers.Lru.Runs

/-!
# Integrity of the cache

What holds of the cache in all runs in which every insertion finds the place of
its entry (`Call.Placed`). An insertion that does not find it, as the clock has
not advanced since an object was inserted elsewhere, sets the pointer to the
deepest object to an object from which on the aging list does not go up to the
root; the next `use` then cuts off objects from the aging list.
-/

namespace Listbrokers.Lru

open Framework Cache

variable {P σ : Type} [DecidableEq P] {S : Setup P σ} {T : Forest P} {s s' : Cache P σ} {c c' : System P σ}
  {calls : List (ℕ × Call P)} {L L' : List P} {p q : P} {sized : Prop} {now : ℕ} {content : σ}

/-- The aging list as it is documented, in a cache that is not empty. -/
structure SoundAgingList (T : Forest P) (s : Cache P σ) (L : List P) : Prop where
  from_oldest : Links.Follows s.links.next s.oldestObject L
  from_root : Links.Follows s.links.prev s.rootObject L.reverse
  nodup : L.Nodup
  all : ∀ p, p ∈ L ↔ p ∈ s.allObjects
  ends_at_root : L.getLast? = s.rootObject
  parent_after : ∀ A p B, L = A ++ p :: B → ∀ q ∈ T.parent p, q ∈ B
  oldest_leaf : ∃ o ∈ s.oldestObject, s.isLeaf o = true
  deepest : ∃ d ∈ s.deepestYoungestObject, d ∈ s.allObjects ∧ T.path d <:+ L

theorem Intact.sound (h : Intact sized T s L) (hne : s.allObjects ≠ []) : SoundAgingList T s L := by
  have hL : L ≠ [] := by
    rintro rfl
    exact hne (List.eq_nil_iff_forall_not_mem.mpr fun p hp => by simpa using (h.registered.cached p).mp hp)
  refine ⟨?_, ?_, h.nodup, fun p => (h.registered.cached p).symm, h.aged.root.symm, fun A p B e q hq => ?_, ?_, ?_⟩
  · rw [h.aged.oldest]
    exact h.aged.chain.follows
  · rw [h.aged.root]
    exact h.aged.chain.follows_prev
  · subst e
    exact h.aged.parent_after hq
  · obtain ⟨o, B, rfl⟩ := List.exists_cons_of_ne_nil hL
    exact ⟨o, h.aged.oldest, h.registered.isLeaf_iff.mpr h.aged.childless_head⟩
  · rcases h.aged.deepest with ⟨-, hnil⟩ | ⟨d, hd, hsuffix⟩
    · exact absurd hnil hL
    · exact ⟨d, hd, (h.registered.cached d).mpr (hsuffix.subset Forest.mem_path_self), hsuffix⟩

theorem init_intact (sized : Prop) (T : Forest P) (now : ℕ) (content : σ) :
    Intact sized T (Cache.init now content : Cache P σ) [] where
  aged := ⟨.nil, fun _ _ => ⟨rfl, rfl⟩, .nil, by simp, by simp, rfl, rfl, .inl ⟨rfl, rfl⟩⟩
  registered := ⟨fun _ => Iff.rfl, .nil, by simp, fun _ => rfl, fun _ => rfl, fun _ =>
    ⟨Nat.one_pos, show 1 ≤ idMax by decide⟩⟩
  pinned := ⟨fun p => by simp [Cache.init, ListId.isValid, ListId.cookedId, ListId.invalid], fun h => by cases h⟩

/-- The cache is intact in every state of a run. -/
theorem run_intact (sized : Prop) {ok : System P σ → ℕ × Call P → Prop}
    (hplaced : ∀ c l, ok c l → l.2.Placed S l.1 c.cache) (hsize : sized → ∀ c l, ok c l → l.2.Countable S c.cache)
    (hspares : sized → ∀ c l, ok c l → l.2.SparesPinned S l.1 c.cache)
    (h : Run (When (Step S) ok) (.start now content) calls c) : ∃ L, Intact sized S.forest c.cache L := by
  refine h.invariant (P := fun c => ∃ L, Intact sized S.forest c.cache L) (fun c l c' hc hstep => ?_)
    ⟨[], init_intact sized S.forest now content⟩
  obtain ⟨L, hintact⟩ := hc
  obtain ⟨hok, -, hlive, hrun, -⟩ := hstep
  obtain ⟨L', hpreserved⟩ := (Call.run_ensures hintact hlive (hplaced c l hok) (fun hs => hsize hs c l hok)
    fun hs => hspares hs c l hok).ok hrun
  exact ⟨L', hpreserved.intact⟩

/-! ## An example -/

/-- The forest with these parents. -/
def forestOf (parents : List (Option ℕ)) : Forest ℕ where
  parent p := parents[p]?.join.filter (· < p)
  rank p := p
  rank_lt h := by simpa using (Option.filter_eq_some_iff.mp h).2

def exampleLimits : CacheLimits := ⟨1000, 900, 400, by decide, by decide, by decide, by decide⟩

/-- A cache of objects that are discarded after 15 minutes. -/
def exampleSetup : Setup ℕ Unit where
  memoryLimits := exampleLimits
  countLimits := exampleLimits
  maximumAgeThreshold := 15
  forest := forestOf [none, some 0, some 0, some 2, some 3, some 1, some 3, some 0]
  obliviateChild _ _ _ content := content
  notifyObjectRemoved _ content := content

/-- Insertion of an object of size 10 that is created at this time, in milliseconds. -/
def exampleInsert (ms : ℕ) (p : ℕ) : ℕ × Call ℕ := (ms * 10 ^ 6, .insert ⟨true, true⟩ (ms * 10 ^ 6) .cached 0 10 p)

/-- A call at a time in milliseconds. -/
def exampleCall (ms : ℕ) (call : Call ℕ) : ℕ × Call ℕ := (ms * 10 ^ 6, call)

/-- What holds after the calls of an example that is run. -/
theorem exec_any (ok : System ℕ Unit → ℕ × Call ℕ → Prop) [∀ c l, Decidable (ok c l)] (calls : List (ℕ × Call ℕ))
    {Q : System ℕ Unit → Bool} (h : (System.exec exampleSetup ok calls (.start 0 ())).any Q = true) :
    ∃ c, Run (When (Step exampleSetup) ok) (.start 0 ()) calls c ∧ Q c = true := by
  obtain ⟨c, hc, hQ⟩ := (Option.any_eq_true _ _).mp h
  exact ⟨c, System.run_of_exec hc, hQ⟩

/-! ## The aging list -/

/-- An insertion finds the place of its entry. -/
def FindsPlace (S : Setup P σ) (c : System P σ) (l : ℕ × Call P) : Prop := l.2.Placed S l.1 c.cache

instance (c : System P σ) (l : ℕ × Call P) : Decidable (FindsPlace S c l) :=
  inferInstanceAs (Decidable (l.2.Placed S l.1 c.cache))

/-- Inserting three objects at one time, the last one below the first one, and using the last one later. -/
def sameTickCalls : List (ℕ × Call ℕ) :=
  [exampleInsert 0 0, exampleInsert 0 1, exampleInsert 0 2, exampleInsert 0 5, exampleCall 1 (.useEntry 5)]

/-- The aging list loses objects when the clock does not advance between insertions at different places. -/
theorem aging_list_loses_objects : ∃ c, Run (Step exampleSetup) (.start 0 ()) sameTickCalls c ∧
    c.cache.allObjects = [5, 2, 1, 0] ∧ c.cache.agingList = [2] ∧
    ¬ ∃ L, SoundAgingList exampleSetup.forest c.cache L := by
  obtain ⟨c, hrun, hc⟩ := exec_any (fun _ _ => True) sameTickCalls
    (Q := fun c => c.cache.allObjects = [5, 2, 1, 0] ∧ c.cache.agingList = [2] ∧ c.cache.oldestObject = some 2 ∧
      c.cache.links.next 2 = none) (by decide +kernel)
  obtain ⟨hall, hlist, holdest, hnext⟩ := of_decide_eq_true hc
  refine ⟨c, hrun.of_when, hall, hlist, ?_⟩
  rintro ⟨L, hL⟩
  have hfollows : Links.Follows c.cache.links.next c.cache.oldestObject [2] := by
    rw [holdest]
    exact ⟨rfl, hnext⟩
  have h0 : 0 ∈ L := (hL.all 0).mpr (by rw [hall]; decide)
  rw [hL.from_oldest.unique hfollows] at h0
  cases h0 with
  | tail _ h => cases h

/-- The aging list is as it is documented if every insertion finds the place of its entry. -/
theorem aging_list_sound (h : Run (When (Step S) (FindsPlace S)) (.start now content) calls c)
    (hne : c.cache.allObjects ≠ []) : ∃ L, SoundAgingList S.forest c.cache L := by
  obtain ⟨L, hintact⟩ := run_intact False (fun _ _ hok => hok) (fun hf => hf.elim) (fun hf => hf.elim) h
  exact ⟨L, hintact.sound hne⟩

/-- Insertions at one time, each below the entry of the one before, and uses. -/
theorem aging_list_sound_nested : ∃ c : System ℕ Unit, c.cache.allObjects = [5, 3, 2, 1, 0] ∧
    ∃ L, SoundAgingList exampleSetup.forest c.cache L := by
  obtain ⟨c, hrun, hc⟩ := exec_any (FindsPlace exampleSetup)
    [exampleInsert 0 0, exampleInsert 0 1, exampleInsert 1 2, exampleInsert 1 3, exampleCall 2 (.useEntry 1),
      exampleInsert 3 5] (Q := fun c => c.cache.allObjects = [5, 3, 2, 1, 0]) (by decide +kernel)
  have hall := of_decide_eq_true hc
  exact ⟨c, hall, aging_list_sound hrun (by rw [hall]; decide)⟩

/-! ## Pinning -/

/-- The pinned path is cached, and nothing else is flagged. -/
structure SoundPins (S : Setup P σ) (s : Cache P σ) : Prop where
  flagged : ∀ p, p ∈ s.allObjects ∧ s.isPinned p = true ↔ p ∈ s.pinnedPath S
  pinned_cached : s.pinnedObjectId.isValid = true → ∃ x ∈ s.allObjects, s.id x = s.pinnedObjectId

/-- The insertion of object 3 does not find its place, and the use of object 1 cuts off objects 2 and 3. Object 1 is
discarded before its child 5, which is pinned afterwards. -/
def cutOffCalls : List (ℕ × Call ℕ) :=
  [exampleInsert 0 0, exampleInsert 0 2, exampleInsert 0 1, exampleInsert 0 5, exampleInsert 0 3,
    exampleInsert 900000 4, exampleCall 900001 (.useEntry 1), exampleCall 900002 (.pin ⟨5⟩),
    exampleInsert 1800002 7, exampleCall 1800002 .gc, exampleCall 1800003 (.pin ⟨4⟩)]

/-- An object of the pinned path is not cached, as it was discarded when it still had a child. -/
theorem pinned_path_not_cached : ∃ c, Run (Step exampleSetup) (.start 0 ()) cutOffCalls c ∧
    c.cache.pinnedPath exampleSetup = [5, 1, 0] ∧ c.cache.allObjects = [7, 5, 0] ∧
      ¬ SoundPins exampleSetup c.cache := by
  obtain ⟨c, hrun, hc⟩ := exec_any (fun _ _ => True) cutOffCalls
    (Q := fun c => c.cache.pinnedPath exampleSetup = [5, 1, 0] ∧ c.cache.allObjects = [7, 5, 0]) (by decide +kernel)
  obtain ⟨hpath, hall⟩ := of_decide_eq_true hc
  refine ⟨c, hrun.of_when, hpath, hall, fun h => ?_⟩
  have h1 := ((h.flagged 1).mpr (by rw [hpath]; decide)).1
  rw [hall] at h1
  revert h1
  decide

/-- The flags agree with the pinned ID, and no garbage collector discards an object of the pinned path, if every
insertion finds the place of its entry. -/
theorem pins_sound (h : Run (When (Step S) (FindsPlace S)) (.start now content) calls c) :
    SoundPins S c.cache ∧ ∀ l c', FindsPlace S c l → Step S c l c' →
      ∀ p ∈ l.2.pathAtGc S c.cache, p ∈ c'.cache.allObjects := by
  obtain ⟨L, hintact⟩ := run_intact False (fun _ _ hok => hok) (fun hf => hf.elim) (fun hf => hf.elim) h
  refine ⟨⟨fun p => ?_, fun hvalid => ?_⟩, fun l c' hplaced hstep p hp => ?_⟩
  · rw [hintact.mem_pinnedPath, hintact.registered.cached, and_iff_right_iff_imp]
    exact hintact.mem_of_pinned
  · obtain ⟨x, hx, hid⟩ := hintact.pinned.cached hvalid
    exact ⟨x, (hintact.registered.cached x).mpr hx, hid⟩
  · obtain ⟨-, hlive, hrun, -⟩ := hstep
    obtain ⟨L', hpreserved⟩ := (Call.run_ensures hintact hlive hplaced (fun hf => hf.elim) fun hf => hf.elim).ok hrun
    exact (hpreserved.intact.registered.cached p).mpr (hpreserved.keeps_pinned p hp)

/-- An object is pinned, another one is pinned instead and gets a new ID, and a third one is used. -/
theorem pins_sound_moved : ∃ c : System ℕ Unit, c.cache.pinnedPath exampleSetup = [3, 2, 0] ∧
    SoundPins exampleSetup c.cache := by
  obtain ⟨c, hrun, hc⟩ := exec_any (FindsPlace exampleSetup)
    [exampleInsert 0 0, exampleInsert 0 1, exampleInsert 1 2, exampleInsert 1 3, exampleCall 2 (.pin ⟨2⟩),
      exampleCall 3 (.pin ⟨4⟩), exampleCall 3 (.insertAgain 3), exampleCall 4 (.useEntry 1)]
    (Q := fun c => c.cache.pinnedPath exampleSetup = [3, 2, 0]) (by decide +kernel)
  exact ⟨c, of_decide_eq_true hc, (pins_sound hrun).1⟩

/-! ## Accounting -/

/-- The counters of the cache. -/
structure SoundCounters (T : Forest P) (s : Cache P σ) : Prop where
  totalSize : s.totalSize = (s.allObjects.map s.objectSize).sum
  childrenCount : ∀ p, s.childrenCount p = s.allObjects.countP fun q => T.parent q = some p

/-- An insertion finds the place of its entry, sizes can be counted, and a purge is the one to discard its objects. -/
def KeepsCount (S : Setup P σ) (c : System P σ) (l : ℕ × Call P) : Prop :=
  l.2.Placed S l.1 c.cache ∧ l.2.Countable S c.cache ∧ l.2.SparesPinned S l.1 c.cache

instance (c : System P σ) (l : ℕ × Call P) : Decidable (KeepsCount S c l) := inferInstanceAs (Decidable (_ ∧ _ ∧ _))

/-- An object that was used when the cache was new, pinned since then, and is purged when it has reached the maximum
age. -/
def purgeAgedCalls : List (ℕ × Call ℕ) :=
  [exampleInsert 0 0, exampleInsert 0 1, exampleInsert 900000 2, exampleCall 900000 (.pin ⟨2⟩)]

/-- The purge of a pinned object unpins it, whereupon the garbage collector discards it, and then the purge discards it
again. -/
theorem purge_discards_twice : ∃ c, Run (Step exampleSetup) (.start 0 ()) purgeAgedCalls c ∧
    c.cache.allObjects = [2, 1, 0] ∧ c.cache.id 1 = ⟨2⟩ ∧
    (Call.purgeEntries true [⟨2⟩]).Live exampleSetup (900000 * 10 ^ 6) c.cache ∧
    (Call.purgeEntries true [⟨2⟩]).run exampleSetup (900000 * 10 ^ 6) c.cache = .error .discardedTwice := by
  obtain ⟨c, hrun, hc⟩ := exec_any (fun _ _ => True) purgeAgedCalls
    (Q := fun c => c.cache.allObjects = [2, 1, 0] ∧ c.cache.id 1 = ⟨2⟩ ∧
      (Call.purgeEntries true [⟨2⟩]).Live exampleSetup (900000 * 10 ^ 6) c.cache ∧
      faultOf ((Call.purgeEntries true [⟨2⟩]).run exampleSetup (900000 * 10 ^ 6) c.cache) = some .discardedTwice)
    (by decide +kernel)
  obtain ⟨hall, hid, hlive, hfault⟩ := of_decide_eq_true hc
  exact ⟨c, hrun.of_when, hall, hid, hlive, eq_error_of_faultOf hfault⟩

/-- The counters are right, and no counter is decremented below zero and no object discarded twice. -/
theorem accounting (h : Run (When (Step S) (KeepsCount S)) (.start now content) calls c) :
    SoundCounters S.forest c.cache ∧ ∀ l f, KeepsCount S c l → l.2.Live S l.1 c.cache →
      l.2.run S l.1 c.cache = .error f → f ≠ .childrenCount ∧ f ≠ .totalSize ∧ f ≠ .discardedTwice := by
  obtain ⟨L, hintact⟩ := run_intact True (fun _ _ hok => hok.1) (fun _ _ _ hok => hok.2.1)
    (fun _ _ _ hok => hok.2.2) h
  have hperm : c.cache.allObjects.Perm L :=
    (List.perm_ext_iff_of_nodup hintact.registered.nodup hintact.nodup).mpr hintact.registered.cached
  refine ⟨⟨?_, fun p => ?_⟩, fun l f hok hlive hrun => ?_⟩
  · rw [hintact.registered.size trivial]
    exact (hperm.map _).sum_nat.symm
  · rw [hintact.registered.children p]
    exact (hperm.countP_eq _).symm
  · exact (Call.run_ensures hintact hlive hok.1 (fun _ => hok.2.1) fun _ => hok.2.2).fault hrun trivial

/-- A purge of the pinned object and its child, before they are old, and a change of sizes. -/
theorem accounting_purge : ∃ c : System ℕ Unit, c.cache.allObjects = [1, 0] ∧ c.cache.totalSize = 35 ∧
    SoundCounters exampleSetup.forest c.cache := by
  obtain ⟨c, hrun, hc⟩ := exec_any (KeepsCount exampleSetup)
    [exampleInsert 0 0, exampleInsert 0 1, exampleInsert 1 2, exampleInsert 1 3, exampleCall 2 (.pin ⟨4⟩),
      exampleCall 3 (.setObjectSize ⟨2⟩ 25), exampleCall 4 (.purgeEntries true [⟨4⟩, ⟨3⟩])]
    (Q := fun c => c.cache.allObjects = [1, 0] ∧ c.cache.totalSize = 35) (by decide +kernel)
  obtain ⟨hall, hsize⟩ := of_decide_eq_true hc
  exact ⟨c, hall, hsize, (accounting hrun).1⟩

end Listbrokers.Lru
