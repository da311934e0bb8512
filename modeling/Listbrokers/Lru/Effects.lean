import Listbrokers.Lru.Runs

/-!
# The effects of the calls

What the calls do to the ages, the IDs and the set of the objects, whatever the
state of the aging list is, and whatever assertion may fail. `Keeps` is for the
calls that give no ID, and `Effect` for all of them.
-/

namespace Listbrokers.Lru

open Framework Cache

variable {P σ : Type} [DecidableEq P] {S : Setup P σ} {s s' : Cache P σ} {e p q : P} {now : ℕ}

/-- Any fault may happen. -/
def AnyFault (_ : Fault) : Prop := True

theorem ensures_anyFault {α : Type} (x : Except Fault α) : Ensures AnyFault x fun _ => True := by
  cases x <;> trivial

/-! ## The garbage collector -/

/-- What the garbage collector preserves, as it does nothing but discard objects. -/
structure Discarding (S : Setup P σ) (R : Cache P σ → Cache P σ → Prop) : Prop where
  refl (s : Cache P σ) : R s s
  trans {s₁ s₂ s₃ : Cache P σ} : R s₁ s₂ → R s₂ s₃ → R s₁ s₃
  running (s : Cache P σ) (b : Bool) : R s { s with isGarbageCollectorRunning := b }
  discard (s : Cache P σ) (notify : Bool) (p : P) : Ensures AnyFault (s.discard S notify p) fun r => R s r.2

namespace Discarding

variable {R : Cache P σ → Cache P σ → Prop} (h : Discarding S R)

include h

theorem collectAged (n : ℕ) (candidate : Option P) (s : Cache P σ) :
    Ensures AnyFault (collectAged S now n candidate s) fun r => R s r.2 := by
  induction n generalizing candidate s with
  | zero =>
    cases candidate with
    | none => exact .pure (h.refl s)
    | some p => exact .error trivial
  | succ n ih =>
    cases candidate with
    | none => exact .pure (h.refl s)
    | some p =>
      rw [Cache.collectAged]
      refine .ite (fun _ => .ite (fun _ => ih _ s) fun _ => ?_) fun _ => .pure (h.refl s)
      refine (h.discard s true p).bind fun r hr => ?_
      obtain ⟨next, s₁⟩ := r
      exact (ih next s₁).mono fun r' hr' => h.trans hr hr'

theorem relievePressure (n : ℕ) (candidate : Option P) (s : Cache P σ) :
    Ensures AnyFault (relievePressure S n candidate s) fun r => R s r.2 := by
  induction n generalizing candidate s with
  | zero =>
    cases candidate with
    | none => exact .pure (h.refl s)
    | some p => exact .error trivial
  | succ n ih =>
    cases candidate with
    | none => exact .pure (h.refl s)
    | some p =>
      rw [Cache.relievePressure]
      refine .ite (fun _ => .pure (h.refl s)) fun _ => .ite (fun _ => ih _ s) fun _ => ?_
      refine .ite (fun _ => ?_) fun _ => .pure (h.refl s)
      refine (h.discard s true p).bind fun r hr => ?_
      obtain ⟨next, s₁⟩ := r
      exact (ih next s₁).mono fun r' hr' => h.trans hr hr'

theorem collect (s : Cache P σ) : Ensures AnyFault (s.collect S now) fun r => R s r.2 := by
  unfold Cache.collect
  refine (h.collectAged _ _ s).bind fun r hr => ?_
  obtain ⟨candidate, s₁⟩ := r
  exact .ite (fun _ => (h.relievePressure _ _ s₁).mono fun r' hr' => h.trans hr hr') fun _ => .pure hr

theorem gc (s : Cache P σ) : Ensures AnyFault (s.gc S now) fun r => R s r.2 := by
  unfold Cache.gc
  refine .check_bind (fun _ => trivial) fun _ => (h.collect _).bind fun r hr => ?_
  obtain ⟨candidate, s₁⟩ := r
  refine (ensures_anyFault _).bind fun _ _ => .pure ?_
  exact h.trans (h.running s true) (h.trans hr (h.running s₁ false))

theorem gcIf (b : Bool) (s : Cache P σ) : Ensures AnyFault (s.gcIf S b now) fun s' => R s s' := by
  unfold Cache.gcIf
  refine .ite (fun _ => (h.gc s).bind fun r hr => .pure hr) fun _ => .pure (h.refl s)

end Discarding

/-! ## Calls that give no ID -/

/-- Objects may have been discarded, and the ages have been set, but nothing else has happened to what the effects
of calls are about. -/
structure Keeps (ages : P → ℕ) (s s' : Cache P σ) : Prop where
  subset : ∀ p ∈ s'.allObjects, p ∈ s.allObjects
  id : s'.id = s.id
  nextId : s'.nextId = s.nextId
  minimum : s'.minimumRequiredCreationTime = s.minimumRequiredCreationTime
  lastUsed : s'.lastUsed = ages

section

omit [DecidableEq P]

theorem Keeps.refl (s : Cache P σ) : Keeps s.lastUsed s s := ⟨fun _ hp => hp, rfl, rfl, rfl, rfl⟩

theorem Keeps.trans {ages ages' : P → ℕ} {s₁ s₂ s₃ : Cache P σ} (h : Keeps ages s₁ s₂) (h' : Keeps ages' s₂ s₃) :
    Keeps ages' s₁ s₃ :=
  ⟨fun p hp => h.subset p (h'.subset p hp), h'.id.trans h.id, h'.nextId.trans h.nextId, h'.minimum.trans h.minimum,
    h'.lastUsed⟩

theorem Keeps.ages {ages : P → ℕ} (h : Keeps ages s s') (he : ages = s.lastUsed) : Keeps s.lastUsed s s' := he ▸ h

end

theorem keeps_discarding : Discarding S fun s s' => Keeps s.lastUsed s s' where
  refl := .refl
  trans h h' := (h.trans h').ages (by rw [← h.lastUsed])
  running s b := ⟨fun _ hp => hp, rfl, rfl, rfl, rfl⟩
  discard s notify p := by
    unfold Cache.discard
    refine .check_bind (fun _ => trivial) fun _ => .check_bind (fun _ => trivial) fun _ => ?_
    refine .check_bind (fun _ => trivial) fun _ => .check_bind (fun _ => trivial) fun _ => ?_
    refine .check_bind (fun _ => trivial) fun _ => .pure ⟨fun q hq => ?_, rfl, rfl, rfl, rfl⟩
    exact (List.mem_filter.mp hq).1

/-- The ages after the use of an object. -/
def Cache.agesUsing (S : Setup P σ) (now : ℕ) (e : P) (s : Cache P σ) (p : P) : ℕ :=
  if s.minimumRequiredCreationTime < now ∧ p ∈ S.forest.path e then now else s.lastUsed p

section

omit [DecidableEq P]

theorem lookup_ensures (i : ListId) (s : Cache P σ) :
    Ensures AnyFault (s.lookup i) fun r => i.isValid = true ∧ r = s.find i :=
  .check_bind (fun _ => trivial) fun hvalid => .pure ⟨hvalid, rfl⟩

end

/-- Use of an object that is cached. -/
theorem useEntry_keeps (e : P) (s : Cache P σ) :
    Ensures AnyFault (s.useEntry S now e) fun r =>
      s.find (s.id e) ≠ none ∧ r.2.allObjects = s.allObjects ∧ Keeps (s.agesUsing S now e) s r.2 := by
  unfold useEntry
  refine (lookup_ensures _ s).bind fun r hr => .check_bind (fun _ => trivial) fun hfound => ?_
  obtain ⟨-, rfl⟩ := hr
  refine .check_bind (fun _ => trivial) fun _ => .ite (fun hle => ?_) fun hle => ?_
  · refine .pure ⟨hfound, rfl, fun _ hp => hp, rfl, rfl, rfl, funext fun p => ?_⟩
    rw [agesUsing, if_neg fun h => Nat.not_lt.mpr hle h.1]
  refine (ensures_anyFault _).bind fun r _ => ?_
  obtain ⟨depth, cursors⟩ := r
  refine (ensures_anyFault _).bind fun _ _ => (ensures_anyFault _).bind fun _ _ => ?_
  refine .check_bind (fun _ => trivial) fun _ => 
    .pure ⟨hfound, rfl, fun _ hp => hp, rfl, rfl, rfl, funext fun p => ?_⟩
  simp [agesUsing, Nat.not_le.mp hle]

/-- Pinning sets flags, and nothing else. -/
theorem pinOrUnpin_flags (i : ListId) (b : Bool) (s : Cache P σ) :
    ∃ flags, (s.pinOrUnpinObjectsOnPathToRoot S i b).2 = { s with isPinned := flags } := by
  unfold pinOrUnpinObjectsOnPathToRoot
  split
  · split <;> exact ⟨_, rfl⟩
  · exact ⟨_, rfl⟩

theorem setPinned_flags (i : ListId) (s : Cache P σ) :
    ∃ flags j, s.setPinned S i = { s with isPinned := flags, pinnedObjectId := j } := by
  obtain ⟨flags, hflags⟩ : ∃ flags, (if s.pinnedObjectId.isValid then
      (s.pinOrUnpinObjectsOnPathToRoot S s.pinnedObjectId false).2 else s) = { s with isPinned := flags } := by
    split
    · exact pinOrUnpin_flags _ _ s
    · exact ⟨_, rfl⟩
  obtain ⟨flags', hflags'⟩ := pinOrUnpin_flags (S := S) i true { s with isPinned := flags, pinnedObjectId := i }
  unfold setPinned
  rw [hflags]
  dsimp only
  split
  · rw [hflags']
    split <;> exact ⟨_, _, rfl⟩
  · exact ⟨_, _, rfl⟩

theorem setPinned_keeps (i : ListId) (s : Cache P σ) : Keeps s.lastUsed s (s.setPinned S i) := by
  obtain ⟨flags, j, h⟩ := setPinned_flags (S := S) i s
  rw [h]
  exact ⟨fun _ hp => hp, rfl, rfl, rfl, rfl⟩

theorem pin_keeps (i : ListId) (s : Cache P σ) : Ensures AnyFault (s.pin S now i) fun r => Keeps s.lastUsed s r.2 := by
  have hset := setPinned_keeps (S := S) i s
  unfold Cache.pin
  refine .ite (fun _ => .pure (.refl s)) fun _ => .ite (fun _ => ?_) fun _ => .pure hset
  refine (keeps_discarding.gc _).bind fun r hr => ?_
  obtain ⟨_, s₁⟩ := r
  exact .pure ((hset.trans hr).ages hset.lastUsed)

theorem purgeEntries_keeps (notify : Bool) (kill : List ListId) (s : Cache P σ) :
    Ensures AnyFault (purgeEntries S notify now kill s) fun s' => Keeps s.lastUsed s s' := by
  induction kill generalizing s with
  | nil => exact .pure (.refl s)
  | cons i kill ih =>
    refine .bind (Q := fun s' => Keeps s.lastUsed s s') ?_ fun s₁ hs₁ =>
      (ih s₁).mono fun s' hs' => (hs₁.trans hs').ages hs₁.lastUsed
    unfold purgeEntry unpinIfPinned
    refine (ensures_anyFault _).bind fun r _ => ?_
    cases r with
    | none => exact .pure (.refl s)
    | some p =>
      refine .bind (Q := fun s' => Keeps s.lastUsed s s') ?_ fun s₁ hs₁ => ?_
      · exact .ite (fun _ => (pin_keeps _ s).bind fun r hr => .pure hr) fun _ => .pure (.refl s)
      · refine (keeps_discarding.discard s₁ notify p).bind fun r hr => ?_
        obtain ⟨_, s₂⟩ := r
        exact .pure ((hs₁.trans hr).ages hs₁.lastUsed)

/-! ## Insertion -/

/-- What the generator relies on. -/
def NextIds (s : Cache P σ) : Prop := ∀ ctx, 0 < s.nextId ctx ∧ s.nextId ctx ≤ idMax

/-- The ages of the objects after the insertion of one. -/
def Cache.agesInserting (S : Setup P σ) (now created : ℕ) (entry : P) (s : Cache P σ) : P → ℕ :=
  let s := { s with lastUsed := Function.update s.lastUsed entry created }
  match S.forest.parent entry with
  | none => s.lastUsed
  | some parent => s.agesUsing S now parent

theorem prepareInsert_keeps {created : ℕ} {entry : P} (s : Cache P σ) :
    Ensures AnyFault (prepareInsert S { s with lastUsed := Function.update s.lastUsed entry created } now created entry)
      fun s' => s'.allObjects = s.allObjects ∧ Keeps (s.agesInserting S now created entry) s s' := by
  unfold prepareInsert agesInserting
  cases S.forest.parent entry with
  | none => exact .check_bind (fun _ => trivial) fun _ => .pure ⟨rfl, fun _ hp => hp, rfl, rfl, rfl, rfl⟩
  | some parent =>
    refine (useEntry_keeps parent _).bind fun r hr => ?_
    obtain ⟨depth, s₁⟩ := r
    obtain ⟨-, hall, hkeeps⟩ := hr
    refine .check_bind (fun _ => trivial) fun _ => .pure ⟨?_, ?_, ?_, ?_, ?_, ?_⟩
    · split <;> split <;> exact hall
    · split <;> split <;> exact hkeeps.subset
    · split <;> split <;> exact hkeeps.id
    · split <;> split <;> exact hkeeps.nextId
    · split <;> split <;> exact hkeeps.minimum
    · split <;> split <;> exact hkeeps.lastUsed

section

omit [DecidableEq P]

/-- The generator is asked for an ID. -/
theorem nextListId_effect (mode : CacheMode) (ctx : ℕ) (s : Cache P σ) :
    Ensures AnyFault (s.nextListId mode ctx) fun r => (∃ next, r.2 = { s with nextId := next }) ∧
      (NextIds s → NextIds r.2) ∧
      r.1 = (CacheIdGenerator.search (fun i => (s.find i).isNone) mode ctx (s.nextId ctx) idMax (s.nextId ctx)).1 := by
  unfold nextListId
  refine .check_bind (fun _ => trivial) fun _ => .pure ⟨⟨_, rfl⟩, fun h ctx' => ?_, rfl⟩
  by_cases hctx : ctx' = ctx
  · subst hctx
    dsimp only
    rw [Function.update_self]
    exact CacheIdGenerator.search_mem _ _ _ (h ctx')
  · dsimp only
    rw [Function.update_of_ne hctx]
    exact h ctx'

end

/-- What `link` does to the objects and their IDs. -/
structure Linked (entry : P) (i : ListId) (s s' : Cache P σ) : Prop where
  free : s.find i = none
  allObjects : s'.allObjects = entry :: s.allObjects
  id : s'.id = Function.update s.id entry i
  nextIds : NextIds s → NextIds s'
  minimum : s'.minimumRequiredCreationTime = s.lastUsed entry
  lastUsed : s'.lastUsed = s.lastUsed

theorem link_effect {mode : CacheMode} {ctx size : ℕ} {entry : P} (s : Cache P σ) :
    Ensures AnyFault (s.link S mode ctx size entry) fun r => Linked entry r.1 s r.2 ∧
      r.2.totalSize = (s.totalSize + size) % sizeMax ∧
      r.1 = (CacheIdGenerator.search (fun i => (s.find i).isNone) mode ctx (s.nextId ctx) idMax (s.nextId ctx)).1 := by
  unfold link
  refine (nextListId_effect mode ctx s).bind fun r hr => ?_
  obtain ⟨i, s₁⟩ := r
  obtain ⟨⟨next, rfl⟩, hnext, hsearch⟩ := hr
  refine .check_bind (fun _ => trivial) fun hfree => (ensures_anyFault _).bind fun r _ => ?_
  obtain ⟨isOldest, links⟩ := r
  exact .check_bind (fun _ => trivial) fun _ => .pure ⟨⟨hfree, rfl, rfl, hnext, rfl, rfl⟩, rfl, hsearch⟩

/-- What an insertion that is accepted does. -/
structure Placing (S : Setup P σ) (now created : ℕ) (entry : P) (i : ListId) (s s' : Cache P σ) : Prop where
  accepts : s.Accepts S created entry
  free : s.find i = none
  subset : ∀ p ∈ s'.allObjects, p = entry ∨ p ∈ s.allObjects
  id : s'.id = Function.update s.id entry i
  nextIds : NextIds s → NextIds s'
  minimum : s'.minimumRequiredCreationTime = s'.lastUsed entry
  lastUsed : s'.lastUsed = s.agesInserting S now created entry

theorem agesInserting_entry {created : ℕ} {entry : P} : s.agesInserting S now created entry entry = created := by
  unfold agesInserting
  cases hpar : S.forest.parent entry with
  | none => exact Function.update_self ..
  | some q =>
    have : entry ∉ S.forest.path q := Forest.not_mem_path_parent hpar
    simp [agesUsing, this]

theorem insert_effect {handlers : Handlers} {created ctx size : ℕ} {mode : CacheMode} {entry : P} (s : Cache P σ) :
    Ensures AnyFault (s.insert S now handlers created mode ctx size entry) fun r =>
      (¬ s.Accepts S created entry ∧ r = (.invalid, s)) ∨
      (Placing S now created entry r.1 s r.2 ∧ (handlers = ⟨false, false⟩ → entry ∈ r.2.allObjects) ∧
        r.1 = (CacheIdGenerator.search (fun i => (s.find i).isNone) mode ctx (s.nextId ctx) idMax
          (s.nextId ctx)).1) := by
  unfold Cache.insert
  refine .ite (fun haccepts => ?_) fun haccepts => .pure (.inl ⟨haccepts, rfl⟩)
  refine (prepareInsert_keeps s).bind fun s₁ hs₁ => (link_effect s₁).bind fun r hr => ?_
  obtain ⟨i, s₂⟩ := r
  obtain ⟨hall, hkeeps⟩ := hs₁
  obtain ⟨hlinked, -, hsearch⟩ := hr
  have hfind : s₁.find = s.find := by
    funext i
    rw [Cache.find, hall, hkeeps.id]
    rfl
  rw [hfind, hkeeps.nextId] at hsearch
  refine .bind (Q := fun s₃ => Keeps s₂.lastUsed s₂ s₃ ∧ (handlers = ⟨false, false⟩ → s₃ = s₂)) ?_ fun s₃ hs₃ =>
    .bind (Q := fun s₄ => Keeps s₂.lastUsed s₂ s₄ ∧ (handlers = ⟨false, false⟩ → s₄ = s₂)) ?_ fun s₄ hs₄ => ?_
  · cases hb : handlers.firstObjectInserted with
    | false =>
      rw [Bool.and_false]
      exact .pure ⟨.refl s₂, fun _ => rfl⟩
    | true => exact (keeps_discarding.gcIf _ s₂).mono fun s₃ hs₃ => ⟨hs₃, fun he => by rw [he] at hb; cases hb⟩
  · cases hb : handlers.garbageCollectionNeeded with
    | false =>
      rw [Bool.and_false]
      exact .pure hs₃
    | true =>
      exact (keeps_discarding.gcIf _ s₃).mono fun s₄ hs₄ =>
        ⟨(hs₃.1.trans hs₄).ages hs₃.1.lastUsed, fun he => by rw [he] at hb; cases hb⟩
  · obtain ⟨hkeeps₄, heq⟩ := hs₄
    refine .pure (.inr ⟨⟨haccepts, hfind ▸ hlinked.free, fun p hp => ?_, ?_, fun h => ?_, ?_, ?_⟩,
      fun he => ?_, hsearch⟩)
    · have := hkeeps₄.subset p hp
      rw [hlinked.allObjects, hall] at this
      exact List.mem_cons.mp this
    · rw [hkeeps₄.id, hlinked.id, hkeeps.id]
    · have h₂ := hlinked.nextIds (s := s₁) fun ctx' => hkeeps.nextId ▸ h ctx'
      exact fun ctx' => hkeeps₄.nextId ▸ h₂ ctx'
    · rw [hkeeps₄.minimum, hlinked.minimum, hkeeps₄.lastUsed, hlinked.lastUsed]
    · rw [hkeeps₄.lastUsed, hlinked.lastUsed, hkeeps.lastUsed]
    · rw [heq he, hlinked.allObjects]
      exact List.mem_cons_self

/-- Another ID for a cached object. -/
structure Renaming (entry : P) (i : ListId) (s s' : Cache P σ) : Prop where
  found : s.find (s.id entry) ≠ none
  free : ∀ p ∈ s.allObjects, s.id p ≠ s.id entry → s.id p ≠ i
  allObjects : s'.allObjects = entry :: s.allObjects.filter (s.id · ≠ s.id entry)
  id : s'.id = Function.update s.id entry i
  nextIds : NextIds s → NextIds s'
  minimum : s'.minimumRequiredCreationTime = s.minimumRequiredCreationTime
  lastUsed : s'.lastUsed = s.lastUsed

section

omit [DecidableEq P]

theorem find_filter (s : Cache P σ) (i j : ListId) :
    ((s.allObjects.filter (s.id · ≠ i)).find? (s.id · = j)).isNone = ((s.find j).isNone || decide (j = i)) := by
  rw [Bool.eq_iff_iff, Option.isNone_iff_eq_none, List.find?_eq_none, Bool.or_eq_true, Option.isNone_iff_eq_none,
    find_eq_none, decide_eq_true_iff]
  constructor
  · intro h
    by_cases hj : j = i
    · exact .inr hj
    · refine .inl fun p hp hid => h p (List.mem_filter.mpr ⟨hp, ?_⟩) (by simpa using hid)
      simpa [hid] using hj
  · rintro (h | rfl) p hp
    · simpa using h p (List.mem_filter.mp hp).1
    · simpa using (List.mem_filter.mp hp).2

end

/-- The generator finds an ID that is free. -/
theorem search_finds {isFree : ListId → Bool} {i : ListId} {next : ℕ} (hnext : 0 < next ∧ next ≤ idMax)
    (hvalid : i.isValid = true) (hfree : isFree i = true) :
    (CacheIdGenerator.search isFree (CacheIdGenerator.getCacheMode i) (CacheIdGenerator.getContext i) next idMax
      next).1.isValid = true := by
  refine CacheIdGenerator.search_isValid hnext (CacheIdGenerator.cookedId_mem hvalid) ?_
  rw [CacheIdGenerator.makeListId_cookedId]
  exact hfree

theorem insertAgain_effect {entry : P} (s : Cache P σ) :
    Ensures AnyFault (s.insertAgain entry) fun r => (s.find (s.id entry) = none ∧ r = (.invalid, s)) ∨
      (Renaming entry r.1 s r.2 ∧ (NextIds s → (s.id entry).isValid = true → r.1.isValid = true) ∧
        r.1 = (CacheIdGenerator.search (fun j => (s.find j).isNone || decide (j = s.id entry))
        (CacheIdGenerator.getCacheMode (s.id entry)) (CacheIdGenerator.getContext (s.id entry))
        (s.nextId (CacheIdGenerator.getContext (s.id entry))) idMax
        (s.nextId (CacheIdGenerator.getContext (s.id entry)))).1) := by
  unfold Cache.insertAgain
  dsimp only
  refine .ite (fun hfind => .pure (.inl ⟨hfind, rfl⟩)) fun hfind => ?_
  refine (nextListId_effect _ _ _).bind fun r hr => ?_
  obtain ⟨i, s₁⟩ := r
  obtain ⟨⟨next, rfl⟩, hnext, hsearch⟩ := hr
  replace hsearch := hsearch.trans (congrArg (fun isFree => (CacheIdGenerator.search isFree _ _ _ _ _).1)
    (funext (find_filter s (s.id entry))))
  refine .check_bind (fun _ => trivial) fun hfree =>
    .pure (.inr ⟨⟨hfind, fun p hp hne => ?_, rfl, rfl, hnext, rfl, rfl⟩, fun hids hvalid => ?_, hsearch⟩)
  · exact find_eq_none.mp hfree p (List.mem_filter.mpr ⟨hp, by simpa using hne⟩)
  · rw [hsearch]
    exact search_finds (hids _) hvalid (by simp)

/-! ## All calls -/

/-- What a call does to the ages, the IDs and the set of the objects. -/
inductive Effect (S : Setup P σ) (now : ℕ) (call : Call P) (s s' : Cache P σ) : Prop
  | kept (keeps : Keeps s.lastUsed s s')
  | used (e : P) (call_used : call.used s = some e) (found : s.find (s.id e) ≠ none)
      (keeps : Keeps (s.agesUsing S now e) s s')
  | renamed {entry : P} {i : ListId} (is_insertAgain : call = .insertAgain entry) (renamed : Renaming entry i s s')
      (valid : NextIds s → (s.id entry).isValid = true → i.isValid = true)
  | inserted {handlers : Handlers} {created ctx size : ℕ} {mode : CacheMode} {entry : P} {i : ListId}
      (is_insert : call = .insert handlers created mode ctx size entry) (placed : Placing S now created entry i s s')

theorem Effect.nextIds {call : Call P} (h : Effect S now call s s') (hs : NextIds s) : NextIds s' := by
  cases h with
  | kept hkeeps => exact fun ctx => hkeeps.nextId ▸ hs ctx
  | used e _ _ hkeeps => exact fun ctx => hkeeps.nextId ▸ hs ctx
  | renamed _ hrenaming _ => exact hrenaming.nextIds hs
  | inserted _ hplacing => exact hplacing.nextIds hs

theorem setObjectSize_effect (i : ListId) (size : ℕ) (s : Cache P σ) :
    Ensures AnyFault (s.setObjectSize S now i size) fun r => Effect S now (.setObjectSize i size) s r.2 := by
  unfold Cache.setObjectSize
  refine (lookup_ensures i s).bind fun r hr => ?_
  obtain ⟨-, rfl⟩ := hr
  cases hfind : s.find i with
  | none => exact .pure (.kept (.refl s))
  | some p =>
    refine .check_bind (fun _ => trivial) fun _ => (useEntry_keeps p _).bind fun r hr => ?_
    obtain ⟨depth, s₁⟩ := r
    obtain ⟨hfound, hall, hkeeps⟩ := hr
    refine (keeps_discarding.gcIf _ s₁).bind fun s₂ hs₂ => .pure (.used p hfind hfound ?_)
    have h₁ : Keeps (s.agesUsing S now p) s s₁ :=
      ⟨hkeeps.subset, hkeeps.id, hkeeps.nextId, hkeeps.minimum, hkeeps.lastUsed⟩
    exact hkeeps.lastUsed ▸ h₁.trans hs₂

theorem Call.run_effect (call : Call P) (s : Cache P σ) :
    Ensures AnyFault (call.run S now s) fun s' => Effect S now call s s' := by
  cases call with
  | insert handlers created mode ctx size entry =>
    refine (insert_effect s).map fun r hr => ?_
    rcases hr with ⟨-, hr⟩ | ⟨hplacing, -⟩
    · exact hr ▸ .kept (.refl s)
    · exact .inserted rfl hplacing
  | insertAgain entry =>
    refine (insertAgain_effect s).map fun r hr => ?_
    rcases hr with ⟨-, hr⟩ | ⟨hrenaming, hvalid, -⟩
    · exact hr ▸ .kept (.refl s)
    · exact .renamed rfl hrenaming hvalid
  | useEntry entry => exact (useEntry_keeps entry s).map fun r hr => .used entry rfl hr.1 hr.2.2
  | use listId =>
    refine .map (Q := fun r : ℤ × Cache P σ => Effect S now (.use listId) s r.2) ?_ fun r hr => hr
    unfold Cache.use
    refine (lookup_ensures listId s).bind fun r hr => ?_
    obtain ⟨-, rfl⟩ := hr
    cases hfind : s.find listId with
    | none => exact .pure (.kept (.refl s))
    | some e => exact (useEntry_keeps e s).mono fun r hr => .used e hfind hr.1 hr.2.2
  | setObjectSize listId size => exact (setObjectSize_effect listId size s).map fun r hr => hr
  | pin listId => exact (pin_keeps listId s).map fun r hr => .kept hr
  | gc => exact (keeps_discarding.gc s).map fun r hr => .kept hr
  | purgeEntries notify killList => exact (purgeEntries_keeps notify killList s).mono fun s' hs' => .kept hs'

end Listbrokers.Lru
