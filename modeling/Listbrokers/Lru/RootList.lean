import Listbrokers.Lru.FreshIds
import Listbrokers.Lru.Manager

/-!
# The root list

The root list stays in the cache as long as it is pinned. Its pin is moved, but
it is not given up, by `use_list` and by `discard_list_hint`: whatever list they
pin is below the root list. It is given up by `purge_subtree` of a list on the
pinned path: `purge_entries` unpins everything, and nobody pins the root list
again before a client uses some list. In the meantime the root list grows old,
and the garbage collector discards it.

The invariant (`Guarded`) does not need a sound aging list. The garbage collector
goes through the objects to which the cache refers (`Refers`), be they cached or
not; it discards the object that it has come to, by the ID of the object. This is
harmless if the ID has not been given to another object.
-/

namespace Listbrokers.Lru

open Framework Cache

variable {P σ : Type} {S : Setup P σ} {M : Manager P σ} {s s' : Cache P σ} {K : P → Prop}
  {root e p q : P} {rootId : ListId} {now : ℕ}

/-- The cache refers to the object: in the aging list, by one of its pointers, or as the ancestor of a cached object. -/
def Cache.Refers (S : Setup P σ) (s : Cache P σ) (p : P) : Prop :=
  s.links.Mentions p ∨ s.oldestObject = some p ∨ s.deepestYoungestObject = some p ∨
    ∃ q ∈ s.allObjects, p ∈ S.forest.path q

/-- No object outside of the cache to which the cache refers has the ID. -/
def Unclaimed (S : Setup P σ) (s : Cache P σ) (i : ListId) : Prop := ∀ p, s.Refers S p → p ∉ s.allObjects → s.id p ≠ i

theorem refers_cached (h : p ∈ s.allObjects) : s.Refers S p := .inr (.inr (.inr ⟨p, h, Forest.mem_path_self⟩))

theorem refers_oldest (h : s.oldestObject = some p) : s.Refers S p := .inr (.inl h)

theorem refers_path (h : p ∈ s.allObjects) (hq : q ∈ S.forest.path p) : s.Refers S q := .inr (.inr (.inr ⟨p, h, hq⟩))

/-! ## Discarding objects -/

/-- No object to which the cache refers has the ID of another object. -/
def NoneReused (S : Setup P σ) (s : Cache P σ) : Prop := ∀ p, s.Refers S p → NotReused s p

theorem NoneReused.find_id (h : NoneReused S s) (hp : p ∈ s.allObjects) : s.find (s.id p) = some p :=
  (h p (refers_cached hp)).resolve_left fun hnone => find_eq_none.mp hnone p hp rfl

theorem NoneReused.ids (h : NoneReused S s) (hp : p ∈ s.allObjects) (hq : q ∈ s.allObjects)
    (e : s.id p = s.id q) : p = q :=
  Option.some.inj ((h.find_id hp).symm.trans (e ▸ h.find_id hq))

/-- Some objects have been discarded, but none that is pinned. -/
structure Thinned (S : Setup P σ) (s s' : Cache P σ) : Prop where
  subset : ∀ p ∈ s'.allObjects, p ∈ s.allObjects
  keeps_pinned : ∀ p ∈ s.allObjects, s.isPinned p = true → p ∈ s'.allObjects
  refers : ∀ p, s'.Refers S p → s.Refers S p
  id : s'.id = s.id
  isPinned : s'.isPinned = s.isPinned
  pinnedObjectId : s'.pinnedObjectId = s.pinnedObjectId
  nextId : s'.nextId = s.nextId

namespace Thinned

theorem refl (s : Cache P σ) : Thinned S s s := ⟨fun _ h => h, fun _ hp _ => hp, fun _ h => h, rfl, rfl, rfl, rfl⟩

theorem trans {s₁ s₂ s₃ : Cache P σ} (h : Thinned S s₁ s₂) (h' : Thinned S s₂ s₃) : Thinned S s₁ s₃ where
  subset p hp := h.subset p (h'.subset p hp)
  keeps_pinned p hp hpinned := h'.keeps_pinned p (h.keeps_pinned p hp hpinned) (h.isPinned ▸ hpinned)
  refers p hp := h.refers p (h'.refers p hp)
  id := h'.id.trans h.id
  isPinned := h'.isPinned.trans h.isPinned
  pinnedObjectId := h'.pinnedObjectId.trans h.pinnedObjectId
  nextId := h'.nextId.trans h.nextId

theorem notReused (h : Thinned S s s') (hs : NoneReused S s) (hp : NotReused s p) : NotReused s' p := by
  rcases hfind : s'.find (s'.id p) with _ | q
  · exact .inl hfind
  obtain ⟨hq, hid⟩ := mem_of_find hfind
  have hq := h.subset q hq
  rw [h.id] at hid
  rcases hp with hnone | hsome
  · exact absurd hid (find_eq_none.mp hnone q hq)
  · rw [← hid, hs.find_id hq] at hsome
    exact .inr (hfind.trans hsome)

theorem noneReused (h : Thinned S s s') (hs : NoneReused S s) : NoneReused S s' :=
  fun p hp => h.notReused hs (hs p (h.refers p hp))

end Thinned

/-- Discarding an object that is not mistaken for another one. -/
theorem discard_thins [DecidableEq P] (hs : NoneReused S s) (hp : NotReused s p) (notify : Bool) :
    Ensures AnyFault (s.discard S notify p) fun r => Thinned S s r.2 ∧ ∀ q ∈ r.1, NotReused s q := by
  unfold Cache.discard
  refine .check_bind (fun _ => trivial) fun _ => .check_bind (fun _ => trivial) fun hunpinned => ?_
  refine .check_bind (fun _ => trivial) fun _ => .check_bind (fun _ => trivial) fun _ => ?_
  refine .check_bind (fun _ => trivial) fun hfound =>
    .pure ⟨⟨?_, fun q hq hpinned => ?_, fun q hq => ?_, rfl, rfl, rfl, rfl⟩, ?_⟩
  · exact fun q hq => (List.mem_filter.mp hq).1
  · refine List.mem_filter.mpr ⟨hq, ?_⟩
    have hne : s.id q ≠ s.id p := fun e => by
      have := (hs.find_id hq).symm.trans (e ▸ hp.resolve_left hfound)
      rw [Option.some.inj this, hunpinned] at hpinned
      cases hpinned
    simpa using hne
  · have hpall := (mem_of_find (hp.resolve_left hfound)).1
    rcases hq with hlinks | holdest | hdeepest | ⟨r, hr, hpath⟩
    · exact .inl (Links.mentions_unlink hlinks)
    · change (if s.oldestObject = some p then s.links.next p else s.oldestObject) = some q at holdest
      split at holdest
      · exact .inl (Links.mentions_next holdest).2
      · exact refers_oldest holdest
    · change (if s.deepestYoungestObject = some p then S.forest.parent p else s.deepestYoungestObject) =
        some q at hdeepest
      split at hdeepest
      · exact refers_path hpall (Forest.mem_path_of_parent Forest.mem_path_self hdeepest)
      · exact .inr (.inr (.inl hdeepest))
    · exact refers_path (List.mem_filter.mp hr).1 hpath
  · exact fun q hq => hs q (.inl (Links.mentions_next hq).2)

theorem collectAged_thins [DecidableEq P] (n : ℕ) {candidate : Option P} (hs : NoneReused S s)
    (hc : ∀ p ∈ candidate, NotReused s p) :
    Ensures AnyFault (collectAged S now n candidate s) fun r => Thinned S s r.2 ∧ ∀ p ∈ r.1, NotReused r.2 p := by
  induction n generalizing candidate s with
  | zero =>
    cases candidate with
    | none => exact .pure ⟨.refl s, hc⟩
    | some p => exact .error trivial
  | succ n ih =>
    cases candidate with
    | none => exact .pure ⟨.refl s, hc⟩
    | some p =>
      rw [collectAged]
      refine .ite (fun _ => .ite (fun _ => ?_) fun _ => ?_) fun _ => .pure ⟨.refl s, hc⟩
      · exact ih hs fun q hq => hs q (.inl (Links.mentions_next hq).2)
      · refine (discard_thins hs (hc p rfl) true).bind fun r hr => ?_
        obtain ⟨next, s₁⟩ := r
        obtain ⟨hthinned, hnext⟩ := hr
        refine (ih (hthinned.noneReused hs) fun q hq => hthinned.notReused hs (hnext q hq)).mono fun r' hr' => ?_
        exact ⟨hthinned.trans hr'.1, hr'.2⟩

theorem relievePressure_thins [DecidableEq P] (n : ℕ) {candidate : Option P} (hs : NoneReused S s)
    (hc : ∀ p ∈ candidate, NotReused s p) :
    Ensures AnyFault (relievePressure S n candidate s) fun r => Thinned S s r.2 := by
  induction n generalizing candidate s with
  | zero =>
    cases candidate with
    | none => exact .pure (.refl s)
    | some p => exact .error trivial
  | succ n ih =>
    cases candidate with
    | none => exact .pure (.refl s)
    | some p =>
      rw [relievePressure]
      refine .ite (fun _ => .pure (.refl s)) fun _ => .ite (fun _ => ?_) fun _ => .ite (fun _ => ?_) fun _ =>
        .pure (.refl s)
      · exact ih hs fun q hq => hs q (.inl (Links.mentions_next hq).2)
      · refine (discard_thins hs (hc p rfl) true).bind fun r hr => ?_
        obtain ⟨next, s₁⟩ := r
        obtain ⟨hthinned, hnext⟩ := hr
        exact (ih (hthinned.noneReused hs) fun q hq => hthinned.notReused hs (hnext q hq)).mono fun _ => hthinned.trans

/-- The garbage collector does not discard what is pinned. -/
theorem gc_thins [DecidableEq P] (hs : NoneReused S s) : Ensures AnyFault (s.gc S now) fun r => Thinned S s r.2 := by
  unfold Cache.gc
  refine .check_bind (fun _ => trivial) fun _ => ?_
  have hs₀ : NoneReused S { s with isGarbageCollectorRunning := true } := hs
  refine .bind (Q := fun r => Thinned S s r.2) ?_ fun r hr => ?_
  · unfold Cache.collect
    refine (collectAged_thins _ hs₀ fun p hp => hs₀ p (refers_oldest hp)).bind fun r hr => ?_
    obtain ⟨candidate, s₁⟩ := r
    obtain ⟨hthinned, hc⟩ := hr
    have h₁ : Thinned S s s₁ := ⟨hthinned.subset, hthinned.keeps_pinned, hthinned.refers, hthinned.id,
      hthinned.isPinned, hthinned.pinnedObjectId, hthinned.nextId⟩
    exact .ite (fun _ => (relievePressure_thins _ (h₁.noneReused hs) hc).mono fun _ => h₁.trans) fun _ => .pure h₁
  · obtain ⟨candidate, s₁⟩ := r
    refine (ensures_anyFault _).bind fun _ _ => .pure ?_
    exact ⟨hr.subset, hr.keeps_pinned, hr.refers, hr.id, hr.isPinned, hr.pinnedObjectId, hr.nextId⟩

theorem gcIf_thins [DecidableEq P] (hs : NoneReused S s) (b : Bool) :
    Ensures AnyFault (s.gcIf S b now) fun s' => Thinned S s s' := by
  unfold Cache.gcIf
  exact .ite (fun _ => (gc_thins hs).bind fun r hr => .pure hr) fun _ => .pure (.refl s)

/-! ## Use -/

/-- All that is referred to while a path is unlinked satisfies `K`. -/
structure Cache.Cursors.Within (K : P → Prop) (c : Cursors P) : Prop where
  links : ∀ p, c.links.Mentions p → K p
  oldest : ∀ p ∈ c.oldest, K p
  reconnectTail : ∀ p ∈ c.reconnectTail, K p

theorem unlinkPath_within [DecidableEq P] {path : List P} {c : Cursors P} (hc : c.Within K) (he : K e) :
    (unlinkPath e path c).Within K := by
  induction path generalizing c with
  | nil => exact hc
  | cons x path ih =>
    rw [unlinkPath]
    refine ih ⟨fun p hp => hc.links p (Links.mentions_unlink hp), fun p hp => ?_, fun p hp => ?_⟩
    · dsimp only at hp
      split at hp
      · cases hx : c.links.next x with
        | none =>
          rw [hx] at hp
          exact Option.some.inj hp ▸ he
        | some y =>
          rw [hx] at hp
          exact Option.some.inj hp ▸ hc.links y (Links.mentions_next hx).2
      · exact hc.oldest p hp
    · dsimp only at hp
      split at hp
      · exact hc.links p (Links.mentions_prev hp).2
      · exact hc.reconnectTail p hp

theorem findReconnectTail_within {lastUsed : P → ℕ} {l : Links P} {path : List P} {tail : P}
    (hl : ∀ p, l.Mentions p → K p) (htail : K tail) :
    Ensures AnyFault (findReconnectTail lastUsed l path tail) K := by
  induction path generalizing tail with
  | nil => exact .pure htail
  | cons x path ih =>
    rw [findReconnectTail]
    refine .ite (fun hx => .check_bind (fun _ => trivial) fun _ => ih (hl x ?_)) fun _ => .pure htail
    rcases hx with hx | hx
    · obtain ⟨y, hy⟩ := Option.ne_none_iff_exists'.mp hx
      exact (Links.mentions_next hy).1
    · obtain ⟨y, hy⟩ := Option.ne_none_iff_exists'.mp hx
      exact (Links.mentions_prev hy).1

theorem appendList_within [DecidableEq P] {l : Links P} {tail head : P} (hl : ∀ p, l.Mentions p → K p)
    (htail : K tail) (hhead : K head) :
    Ensures AnyFault (appendList l tail head) fun l' => ∀ p, l'.Mentions p → K p := by
  refine .check_bind (fun _ => trivial) fun _ => .check_bind (fun _ => trivial) fun _ => .pure fun p hp => ?_
  rcases Links.mentions_append hp with hp | rfl | rfl
  · exact hl p hp
  · exact htail
  · exact hhead

theorem linkPath_within [DecidableEq P] {path : List P} {l : Links P} (hl : ∀ p, l.Mentions p → K p)
    (hpath : ∀ p ∈ path, K p) (hparent : ∀ p ∈ path, ∀ q, S.forest.parent p = some q → K q) :
    Ensures AnyFault (linkPath S path l) fun l' => ∀ p, l'.Mentions p → K p := by
  induction path generalizing l with
  | nil => exact .pure hl
  | cons x path ih =>
    have ih' {l : Links P} (hl : ∀ p, l.Mentions p → K p) :
        Ensures AnyFault (linkPath S path l) fun l' => ∀ p, l'.Mentions p → K p :=
      ih hl (fun p hp => hpath p (List.mem_cons_of_mem x hp)) fun p hp => hparent p (List.mem_cons_of_mem x hp)
    rw [linkPath]
    cases hpar : S.forest.parent x with
    | none => exact ih' hl
    | some y =>
      exact (appendList_within hl (hpath x List.mem_cons_self) (hparent x List.mem_cons_self y hpar)).bind
        fun l' hl' => ih' hl'

/-- The cache has the same objects, with the same IDs and pins, and refers to objects that satisfy `K`. -/
structure Rearranged (S : Setup P σ) (K : P → Prop) (s s' : Cache P σ) : Prop where
  allObjects : s'.allObjects = s.allObjects
  refers : ∀ p, s'.Refers S p → K p
  id : s'.id = s.id
  isPinned : s'.isPinned = s.isPinned
  pinnedObjectId : s'.pinnedObjectId = s.pinnedObjectId
  nextId : s'.nextId = s.nextId

/-- Use of a cached object. -/
theorem useEntry_rearranges [DecidableEq P] (hK : ∀ p, s.Refers S p → K p) (he : e ∈ s.allObjects) :
    Ensures AnyFault (s.useEntry S now e) fun r => Rearranged S K s r.2 := by
  have hpath : ∀ p ∈ S.forest.path e, K p := fun p hp => hK p (refers_path he hp)
  unfold useEntry
  refine (lookup_ensures _ s).bind fun _ _ => .check_bind (fun _ => trivial) fun _ =>
    .check_bind (fun _ => trivial) fun _ => ?_
  refine .ite (fun _ => .pure ⟨rfl, hK, rfl, rfl, rfl, rfl⟩) fun _ => ?_
  have hunlinked : (unlinkPath e (S.forest.path e) ⟨s.links, s.oldestObject, s.deepestYoungestObject⟩).Within K :=
    unlinkPath_within
      ⟨fun p hp => hK p (.inl hp), fun p hp => hK p (refers_oldest hp), fun p hp => hK p (.inr (.inr (.inl hp)))⟩
      (hpath e Forest.mem_path_self)
  refine .bind (Q := fun r => r.2.Within K) ?_ fun r hr => ?_
  · unfold unlinkObjectsOnPathToRoot moveReconnectTail
    refine .bind (Q := fun tail => ∀ p ∈ tail, K p) ?_ fun tail htail =>
      .check_bind (fun _ => trivial) fun _ => .pure ⟨hunlinked.links, hunlinked.oldest, htail⟩
    split
    · exact .pure nofun
    · next tail htail =>
      refine (findReconnectTail_within hunlinked.links (hunlinked.reconnectTail tail htail)).map fun t ht p hp => ?_
      exact Option.some.inj hp ▸ ht
  obtain ⟨depth, c⟩ := r
  have hparent : ∀ p ∈ S.forest.path e, ∀ q, S.forest.parent p = some q → K q :=
    fun p hp q hpar => hpath q (Forest.mem_path_of_parent hp hpar)
  refine (linkPath_within hr.links hpath hparent).bind fun links hlinks => ?_
  refine .bind (Q := fun l' => ∀ p, l'.Mentions p → K p) ?_ fun links' hlinks' => ?_
  · unfold joinLists
    split
    · exact .pure hlinks
    · next tail htail => exact appendList_within hlinks (hr.reconnectTail tail htail) (hpath e Forest.mem_path_self)
  · refine .check_bind (fun _ => trivial) fun _ => .pure ⟨rfl, fun p hp => ?_, rfl, rfl, rfl, rfl⟩
    rcases hp with hp | hp | hp | ⟨q, hq, hp⟩
    · exact hlinks' p hp
    · exact hr.oldest p hp
    · exact Option.some.inj hp ▸ hpath e Forest.mem_path_self
    · exact hK p (refers_path hq hp)

/-! ## Insertion -/

theorem prepareInsert_rearranges [DecidableEq P] {created : ℕ} (hK : ∀ p, s.Refers S p → K p) (he : K e)
    (hparent : ∀ q, S.forest.parent e = some q → q ∈ s.allObjects) :
    Ensures AnyFault (s.prepareInsert S now created e) fun s' => Rearranged S K s s' := by
  unfold prepareInsert
  cases hpar : S.forest.parent e with
  | none =>
    refine .check_bind (fun _ => trivial) fun _ => .pure ⟨rfl, fun p hp => ?_, rfl, rfl, rfl, rfl⟩
    rcases hp with hp | hp | hp | hp
    · exact hK p (.inl hp)
    · exact hK p (refers_oldest hp)
    · exact Option.some.inj hp ▸ he
    · exact hK p (.inr (.inr (.inr hp)))
  | some q =>
    have hq := hparent q hpar
    refine (useEntry_rearranges hK hq).bind fun r hr => ?_
    obtain ⟨depth, s₁⟩ := r
    -- the pointer to the deepest object is set to the parent, and to the entry if they have the same age
    have hset : ∀ (d : Option P) (n : P → ℕ), (∀ p ∈ d, K p) →
        Rearranged S K s { s₁ with deepestYoungestObject := d, childrenCount := n } := fun d n hd =>
      ⟨hr.allObjects, fun p hp => hp.elim (fun h => hr.refers p (.inl h)) fun hp => hp.elim
        (fun h => hr.refers p (refers_oldest h)) fun hp => hp.elim (hd p) fun h => hr.refers p (.inr (.inr (.inr h))),
        hr.id, hr.isPinned, hr.pinnedObjectId, hr.nextId⟩
    have hdeepest : ∀ p ∈ s₁.deepestYoungestObject, K p := fun p hp => hr.refers p (.inr (.inr (.inl hp)))
    have hsome : ∀ x, K x → ∀ p ∈ some x, K p := fun x hx p hp => Option.some.inj hp ▸ hx
    refine .check_bind (fun _ => trivial) fun _ => ?_
    dsimp only
    refine .pure ?_
    split <;> split
    · exact hset _ _ (hsome e he)
    · exact hset _ _ (hsome q (hK q (refers_cached hq)))
    · exact hset _ _ (hsome e he)
    · exact hset _ _ hdeepest

/-- The entry is in the cache, under a free ID, and the cache refers to objects that satisfy `K`. -/
structure Joined [DecidableEq P] (S : Setup P σ) (K : P → Prop) (entry : P) (i : ListId) (s s' : Cache P σ) : Prop where
  free : s.find i = none
  allObjects : s'.allObjects = entry :: s.allObjects
  refers : ∀ p, s'.Refers S p → K p
  id : s'.id = Function.update s.id entry i
  isPinned : s'.isPinned = s.isPinned
  pinnedObjectId : s'.pinnedObjectId = s.pinnedObjectId
  nextIds : NextIds s → NextIds s'

/-- The ID that the generator gives to an entry that is inserted. -/
def Cache.nextFreeId (s : Cache P σ) (mode : CacheMode) (ctx : ℕ) : ListId :=
  (CacheIdGenerator.search (fun i => (s.find i).isNone) mode ctx (s.nextId ctx) idMax (s.nextId ctx)).1

theorem link_joins [DecidableEq P] {mode : CacheMode} {ctx size : ℕ} (hK : ∀ p, s.Refers S p → K p) (he : K e)
    (hparent : ∀ q, S.forest.parent e = some q → q ∈ s.allObjects) :
    Ensures AnyFault (s.link S mode ctx size e) fun r => Joined S K e r.1 s r.2 ∧ r.1 = s.nextFreeId mode ctx := by
  unfold link
  refine (nextListId_effect mode ctx s).bind fun r hr => ?_
  obtain ⟨i, s₁⟩ := r
  obtain ⟨⟨next, rfl⟩, hnext, hsearch⟩ := hr
  refine .check_bind (fun _ => trivial) fun hfree => ?_
  refine .bind (Q := fun r => ∀ p, r.2.Mentions p → K p) ?_ fun r hr => ?_
  · have hl : ∀ p, s.links.Mentions p → K p := fun p hp => hK p (.inl hp)
    unfold insertBeforeParent
    split
    · exact .pure hl
    · next q hpar =>
      have hinsert : ∀ p, (s.links.insertBefore e q).Mentions p → K p := fun p hp => by
        rcases Links.mentions_insertBefore hp with hp | rfl | rfl
        · exact hl p hp
        · exact he
        · exact hK p (refers_cached (hparent p hpar))
      dsimp only
      split
      · exact .pure hinsert
      · exact .check_bind (fun _ => trivial) fun _ => .pure hinsert
  · obtain ⟨isOldest, links⟩ := r
    refine .check_bind (fun _ => trivial) fun _ => .pure ⟨⟨hfree, rfl, fun p hp => ?_, rfl, rfl, rfl, hnext⟩, hsearch⟩
    rcases hp with hp | hp | hp | ⟨q, hq, hp⟩
    · exact hr p hp
    · dsimp only at hp
      split at hp
      · exact Option.some.inj hp ▸ he
      · exact hK p (refers_oldest hp)
    · exact hK p (.inr (.inr (.inl hp)))
    · rcases List.mem_cons.mp hq with rfl | hq
      · cases hpar : S.forest.parent q with
        | none =>
          rw [Forest.path_of_root hpar, List.mem_singleton] at hp
          exact hp ▸ he
        | some x =>
          rw [Forest.path_of_parent hpar] at hp
          rcases List.mem_cons.mp hp with rfl | hp
          · exact he
          · exact hK p (refers_path (hparent x hpar) hp)
      · exact hK p (refers_path hq hp)

/-! ## The invariant -/

/-- The root list is in the cache under its ID, all lists are below it, and one of them is pinned. -/
structure Guarded (S : Setup P σ) (root : P) (rootId : ListId) (s : Cache P σ) : Prop where
  noneReused : NoneReused S s
  nextIds : NextIds s
  below : ∀ p ∈ s.allObjects, root ∈ S.forest.path p
  pinned : PinnedPath S.forest s s.allObjects
  pinnedObject : s.pinnedObjectId.isValid = true
  cached : root ∈ s.allObjects
  id : s.id root = rootId
  valid : rootId.isValid = true

namespace Guarded

theorem find_root (h : Guarded S root rootId s) : s.find rootId = some root := by
  rw [← h.id]
  exact h.noneReused.find_id h.cached

/-- The root list is pinned. -/
theorem root_pinned (h : Guarded S root rootId s) : s.isPinned root = true := by
  obtain ⟨x, hx, hid⟩ := h.pinned.cached h.pinnedObject
  exact (h.pinned.flag root).mpr ⟨h.pinnedObject, x, hx, hid, h.below x hx⟩

/-- Objects that are not pinned may be discarded. -/
theorem thinned (h : Guarded S root rootId s) (ht : Thinned S s s') : Guarded S root rootId s' where
  noneReused := ht.noneReused h.noneReused
  nextIds ctx := ht.nextId ▸ h.nextIds ctx
  below p hp := h.below p (ht.subset p hp)
  pinned := by
    have hkept : ∀ x ∈ s.allObjects, s.id x = s.pinnedObjectId → s.pinnedObjectId.isValid = true → x ∈ s'.allObjects :=
      fun x hx hid hvalid => ht.keeps_pinned x hx ((h.pinned.flag x).mpr ⟨hvalid, x, hx, hid, Forest.mem_path_self⟩)
    refine ⟨fun p => ?_, fun hvalid => ?_⟩
    · rw [ht.isPinned, h.pinned.flag, ht.pinnedObjectId, ht.id]
      refine and_congr_right fun hvalid => ⟨?_, ?_⟩
      · rintro ⟨x, hx, hid, hp⟩
        exact ⟨x, hkept x hx hid hvalid, hid, hp⟩
      · rintro ⟨x, hx, hid, hp⟩
        exact ⟨x, ht.subset x hx, hid, hp⟩
    · rw [ht.pinnedObjectId] at hvalid ⊢
      obtain ⟨x, hx, hid⟩ := h.pinned.cached hvalid
      exact ⟨x, hkept x hx hid hvalid, ht.id ▸ hid⟩
  pinnedObject := ht.pinnedObjectId ▸ h.pinnedObject
  cached := ht.keeps_pinned root h.cached h.root_pinned
  id := ht.id ▸ h.id
  valid := h.valid

theorem rearranged (h : Guarded S root rootId s) (hr : Rearranged S (s.Refers S) s s') : Guarded S root rootId s' := by
  have hfind : ∀ i, s'.find i = s.find i := fun i => by rw [Cache.find, Cache.find, hr.allObjects, hr.id]
  refine ⟨fun p hp => ?_, fun ctx => hr.nextId ▸ h.nextIds ctx, fun p hp => h.below p (hr.allObjects ▸ hp), ?_,
    hr.pinnedObjectId ▸ h.pinnedObject, hr.allObjects ▸ h.cached, hr.id ▸ h.id, h.valid⟩
  · rw [NotReused, hfind, hr.id]
    exact h.noneReused p (hr.refers p hp)
  · rw [hr.allObjects]
    exact h.pinned.congr (fun _ => Iff.rfl) hr.id hr.isPinned hr.pinnedObjectId

/-- An entry below a cached object may be put into the cache, under an ID that is not claimed. -/
theorem inserted [DecidableEq P] (h : Guarded S root rootId s) {i : ListId}
    (hjoined : Joined S (fun p => s.Refers S p ∨ p = e) e i s s') (hnew : (s.id e).isValid = false)
    (hparent : ∃ q, S.forest.parent e = some q ∧ q ∈ s.allObjects) (hclaim : Unclaimed S s i) :
    Guarded S root rootId s' := by
  obtain ⟨q, hpar, hq⟩ := hparent
  have hfree := find_eq_none.mp hjoined.free
  have hother : ∀ {p}, p ≠ e → s'.id p = s.id p := fun hpe => by rw [hjoined.id, Function.update_of_ne hpe]
  have hself : s'.id e = i := by rw [hjoined.id, Function.update_self]
  have hvalid_ne : ∀ {p}, (s.id p).isValid = true → p ≠ e := fun {p} hvalid hpe => by
    rw [hpe, hnew] at hvalid
    cases hvalid
  have hroot : root ≠ e := hvalid_ne (h.id ▸ h.valid)
  have hmem : ∀ {p}, p ∈ s'.allObjects ↔ p = e ∨ p ∈ s.allObjects := by simp [hjoined.allObjects]
  refine ⟨fun p hp => ?_, hjoined.nextIds h.nextIds, fun p hp => ?_, ?_, hjoined.pinnedObjectId ▸ h.pinnedObject,
    hmem.mpr (.inr h.cached), (hother hroot).trans h.id, h.valid⟩
  · rcases hfind : s'.find (s'.id p) with _ | x
    · exact .inl hfind
    obtain ⟨hx, hid⟩ := mem_of_find hfind
    by_cases hpe : p = e
    · subst hpe
      rw [hself, Cache.find, hjoined.allObjects, List.find?_cons_of_pos (by simpa using hself)] at hfind
      rw [NotReused, hself, Cache.find, hjoined.allObjects, List.find?_cons_of_pos (by simpa using hself)]
      exact .inr rfl
    have href := (hjoined.refers p hp).resolve_right hpe
    rw [hother hpe] at hid
    have hxe : x ≠ e := by
      rintro rfl
      rw [hself] at hid
      by_cases hpall : p ∈ s.allObjects
      · exact hfree p hpall hid.symm
      · exact hclaim p href hpall hid.symm
    rw [hother hxe] at hid
    have hxall := (hmem.mp hx).resolve_left hxe
    rcases h.noneReused p href with hnone | hsome
    · exact absurd hid (find_eq_none.mp hnone x hxall)
    · rw [← hid, h.noneReused.find_id hxall] at hsome
      exact .inr (hfind.trans hsome)
  · rcases hmem.mp hp with rfl | hp
    · rw [Forest.path_of_parent hpar]
      exact List.mem_cons_of_mem p (h.below q hq)
    · exact h.below p hp
  · obtain ⟨y, hy, hidy⟩ := h.pinned.cached h.pinnedObject
    have hpinned : ∀ x, x ∈ s'.allObjects ∧ s'.id x = s.pinnedObjectId ↔
        x ∈ s.allObjects ∧ s.id x = s.pinnedObjectId := by
      intro x
      by_cases hxe : x = e
      · subst hxe
        rw [hself]
        refine iff_of_false (fun hx => hfree y hy (hidy.trans hx.2.symm)) fun hx => ?_
        rw [hx.2, h.pinnedObject] at hnew
        cases hnew
      · rw [hmem, hother hxe, or_iff_right hxe]
    refine ⟨fun p => ?_, fun _ => ⟨y, hjoined.pinnedObjectId ▸ (hpinned y).mpr ⟨hy, hidy⟩⟩⟩
    rw [hjoined.isPinned, h.pinned.flag, hjoined.pinnedObjectId]
    simp only [← and_assoc, hpinned]

end Guarded

theorem insert_guarded [DecidableEq P] {handlers : Handlers} {created ctx size : ℕ} {mode : CacheMode}
    (h : Guarded S root rootId s) (hparent : ∃ q, S.forest.parent e = some q ∧ q ∈ s.allObjects)
    (hclaim : Unclaimed S s (s.nextFreeId mode ctx)) :
    Ensures AnyFault (s.insert S now handlers created mode ctx size e) fun r => Guarded S root rootId r.2 := by
  unfold Cache.insert
  refine .ite (fun haccepts => ?_) fun _ => .pure h
  -- the time of creation does not matter
  have h₀ : Guarded S root rootId { s with lastUsed := Function.update s.lastUsed e created } :=
    ⟨h.noneReused, h.nextIds, h.below, ⟨h.pinned.flag, h.pinned.cached⟩, h.pinnedObject, h.cached, h.id, h.valid⟩
  have hnew : (Cache.id { s with lastUsed := Function.update s.lastUsed e created } e).isValid = false := haccepts.1
  have hparent₀ : ∃ q, S.forest.parent e = some q ∧
      q ∈ Cache.allObjects { s with lastUsed := Function.update s.lastUsed e created } := hparent
  have hclaim₀ : Unclaimed S { s with lastUsed := Function.update s.lastUsed e created }
      (Cache.nextFreeId { s with lastUsed := Function.update s.lastUsed e created } mode ctx) := hclaim
  generalize { s with lastUsed := Function.update s.lastUsed e created } = s₀ at h₀ hnew hparent₀ hclaim₀ ⊢
  have hcached : ∀ q, S.forest.parent e = some q → q ∈ s₀.allObjects := fun q hq => by
    obtain ⟨q', hq', hmem⟩ := hparent₀
    exact Option.some.inj (hq'.symm.trans hq) ▸ hmem
  refine (prepareInsert_rearranges (K := fun p => s₀.Refers S p ∨ p = e) (fun p hp => .inl hp) (.inr rfl) hcached).bind
    fun s₁ hs₁ => ?_
  refine (link_joins hs₁.refers (.inr rfl) fun q hq => hs₁.allObjects ▸ hcached q hq).bind fun r hr => ?_
  obtain ⟨i, s₂⟩ := r
  obtain ⟨hjoined, hi⟩ := hr
  have hfind : s₁.find = s₀.find := funext fun j => by rw [Cache.find, Cache.find, hs₁.allObjects, hs₁.id]
  have h₂ : Guarded S root rootId s₂ := by
    refine h₀.inserted (i := i) ⟨hfind ▸ hjoined.free, hs₁.allObjects ▸ hjoined.allObjects, hjoined.refers, ?_,
      hjoined.isPinned.trans hs₁.isPinned, hjoined.pinnedObjectId.trans hs₁.pinnedObjectId, fun hids => ?_⟩
        hnew hparent₀ ?_
    · rw [hjoined.id, hs₁.id]
    · exact hjoined.nextIds fun ctx => hs₁.nextId ▸ hids ctx
    · have hfree : i = s₀.nextFreeId mode ctx := by
        rw [show i = s₁.nextFreeId mode ctx from hi, nextFreeId, hfind, hs₁.nextId]
        rfl
      exact hfree ▸ hclaim₀
  refine (gcIf_thins h₂.noneReused _).bind fun s₃ hs₃ => ?_
  have h₃ := h₂.thinned hs₃
  exact (gcIf_thins h₃.noneReused _).bind fun s₄ hs₄ => .pure (h₃.thinned hs₄)

end Listbrokers.Lru
