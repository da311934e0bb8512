import Listbrokers.Lru.RootList

/-!
# Runs of a list tree

What the operations of a list tree do to its root list, and that it stays in the
cache in every run in which no pinned list is purged (`root_stays_cached`).
-/

namespace Listbrokers.Lru

open Framework Cache

variable {P σ : Type} [DecidableEq P] {S : Setup P σ} {M : Manager P σ} {s s' : Cache P σ} {root e p q : P}
  {rootId i : ListId} {now : ℕ}

/-! ## Pinning and use -/

/-- Another cached list is pinned, and the root list with it. -/
theorem Guarded.pin (h : Guarded S root rootId s) (hvalid : i.isValid = true) (hfind : s.find i ≠ none) :
    Ensures AnyFault (s.pin S now i) fun r => r.1 = true ∧ Guarded S root rootId r.2 := by
  have hcached : ∀ x ∈ s.allObjects, s.find (s.id x) = some x := fun x hx => h.noneReused.find_id hx
  have hpinned := h.pinned.setPinned hcached (fun _ hx => hx) i
  have hset : Guarded S root rootId (s.setPinned S i) := by
    rw [h.pinned.setPinned_eq hcached] at hpinned ⊢
    refine ⟨h.noneReused, h.nextIds, h.below, hpinned, ?_, h.cached, h.id, h.valid⟩
    dsimp only
    rw [if_neg fun hn => hfind hn.2]
    exact hvalid
  unfold Cache.pin
  refine .ite (fun hsame => .pure ⟨hsame ▸ hvalid, h⟩) fun _ => .ite (fun _ => ?_) fun _ =>
    .pure ⟨hset.pinnedObject, hset⟩
  refine (gc_thins hset.noneReused).bind fun r hr => ?_
  have hgc := hset.thinned hr
  exact .pure ⟨hgc.pinnedObject, hgc⟩

theorem Guarded.use (h : Guarded S root rootId s) :
    Ensures AnyFault (s.use S now i) fun r => Guarded S root rootId r.2 ∧
      (r.1 ≠ usedEntryInvalidId → r.2.find i ≠ none) := by
  refine (lookup_ensures i s).bind fun r hr => ?_
  obtain ⟨-, rfl⟩ := hr
  cases hfind : s.find i with
  | none => exact .pure ⟨h, fun hne => absurd rfl hne⟩
  | some p =>
    refine (useEntry_rearranges (fun _ hp => hp) (mem_of_find hfind).1).mono fun r hr => ⟨h.rearranged hr, fun _ => ?_⟩
    rw [Cache.find, hr.allObjects, hr.id]
    exact (congrArg (· ≠ none) hfind).mpr (Option.some_ne_none p)

theorem Guarded.useList (h : Guarded M.toSetup root rootId s) (pinIt : Bool) :
    Ensures AnyFault (s.useList M now i pinIt) fun r => Guarded M.toSetup root rootId r.2 := by
  unfold Cache.useList
  refine .ite (fun _ => .pure h) fun hvalid => (h.use).bind fun r hr => ?_
  obtain ⟨depth, s₁⟩ := r
  obtain ⟨h₁, hfind⟩ := hr
  refine .ite (fun _ => .pure h₁) fun hdepth => .ite (fun _ => .pure h₁) fun _ => ?_
  refine (h₁.pin (by simpa using hvalid) (hfind hdepth)).bind fun r hr => ?_
  obtain ⟨pinned, s₂⟩ := r
  obtain ⟨hpinned, h₂⟩ := hr
  dsimp only at hpinned ⊢
  rw [hpinned]
  exact .ite (fun hfalse => absurd hfalse.1 nofun) fun _ => .pure h₂

theorem Guarded.repin (h : Guarded M.toSetup root rootId s) :
    Ensures AnyFault (s.repinIfFirstIsDeepestPinnedList M now i rootId) fun s' => Guarded M.toSetup root rootId s' := by
  unfold repinIfFirstIsDeepestPinnedList
  refine .check_bind (fun _ => trivial) fun hvalid => .ite (fun _ => ?_) fun _ => .pure h
  refine (h.pin hvalid (by rw [h.find_root]; nofun)).bind fun r hr => ?_
  obtain ⟨_, s₁⟩ := r
  exact .pure hr.2

/-! ## Purging -/

/-- Purging lists that are not pinned. -/
theorem purgeEntries_thins (hs : NoneReused S s) (notify : Bool) {kill : List ListId}
    (hkill : ∀ i ∈ kill, ∀ p ∈ s.find i, s.isPinned p = false) :
    Ensures AnyFault (s.purgeEntries S notify now kill) fun s' => Thinned S s s' := by
  induction kill generalizing s with
  | nil => exact .pure (.refl s)
  | cons i kill ih =>
    rw [Cache.purgeEntries]
    refine .bind (Q := fun s' => Thinned S s s') ?_ fun s₁ hs₁ => ?_
    · refine (lookup_ensures i s).bind fun r hr => ?_
      obtain ⟨-, rfl⟩ := hr
      cases hfind : s.find i with
      | none => exact .pure (.refl s)
      | some p =>
        have hunpinned := hkill i List.mem_cons_self p hfind
        unfold unpinIfPinned
        dsimp only
        rw [hunpinned, if_neg Bool.false_ne_true]
        refine (discard_thins hs (hs p (refers_cached (mem_of_find hfind).1)) notify).bind fun r hr => ?_
        obtain ⟨_, s₁⟩ := r
        exact .pure hr.1
    · refine (ih (hs₁.noneReused hs) fun j hj p hp => ?_).mono fun _ => hs₁.trans
      obtain ⟨hp, hid⟩ := mem_of_find hp
      rw [hs₁.isPinned]
      rw [hs₁.id] at hid
      exact hkill j (List.mem_cons_of_mem i hj) p (hid ▸ hs.find_id (hs₁.subset p hp))

section

omit [DecidableEq P]

theorem mem_sortByDistance {leaves internal : List ListId} (h : i ∈ s.sortByDistance S leaves internal) :
    i ∈ internal := by
  unfold Cache.sortByDistance at h
  obtain ⟨r, hr, rfl⟩ := List.mem_map.mp h
  obtain ⟨node, hnode, rfl⟩ := List.mem_map.mp ((List.mergeSort_perm _ _).mem_iff.mp hr)
  exact List.mem_dedup.mp hnode

/-- Sorted or not, there is nothing in the list but what is to be purged. -/
theorem toposortForPurge_subset (partition : Partition ListId) (killList : List ListId) :
    Ensures AnyFault (s.toposortForPurge S partition killList) fun r => ∀ i ∈ r.2, i ∈ killList := by
  have hperm := partition.perm s.isLeafId killList
  unfold Cache.toposortForPurge
  refine .check_bind (fun _ => trivial) fun _ => .check_bind (fun _ => trivial) fun _ => ?_
  generalize partition.split s.isLeafId killList = groups at hperm
  obtain ⟨leaves, internal⟩ := groups
  have hmem : ∀ {j}, j ∈ leaves ∨ j ∈ internal → j ∈ killList := fun hj => hperm.mem_iff.mp (List.mem_append.mpr hj)
  refine .ite (fun _ => .pure fun j hj => hmem (.inl hj)) fun _ =>
    .ite (fun _ => .pure fun j hj => hmem (.inr hj)) fun _ => ?_
  refine .ite (fun _ => .pure fun j hj => hmem (List.mem_append.mp hj)) fun _ => .pure fun j hj => ?_
  exact hmem ((List.mem_append.mp hj).imp_right mem_sortByDistance)

end

/-- No list that `purge_subtree` would purge is pinned. -/
def PurgesUnpinned (M : Manager P σ) (s : Cache P σ) (n : ℕ) (i : ListId) : Prop :=
  ∀ killList ∈ (s.enumerateTreeOfSublists M n [i]).toOption, ∀ j ∈ killList, ∀ p ∈ s.find j, s.isPinned p = false

theorem Guarded.purgeSubtree (h : Guarded M.toSetup root rootId s) {n : ℕ} (hunpinned : PurgesUnpinned M s n i) :
    Ensures AnyFault (s.purgeSubtree M n now i .invalid fun _ _ content => content) fun r =>
      Guarded M.toSetup root rootId r.2 := by
  unfold Cache.purgeSubtree
  dsimp only
  split
  · exact .pure h
  · refine .bind (Q := fun killList => ∀ j ∈ killList, ∀ p ∈ s.find j, s.isPinned p = false) ?_ fun killList hkill => ?_
    · cases hlists : s.enumerateTreeOfSublists M n [i] with
      | error f => exact .error trivial
      | ok killList => exact .pure (hunpinned killList (by rw [hlists]; rfl))
    · have hresult : purgeResult i .invalid killList = .purged := if_pos rfl
      rw [hresult]
      refine .bind (Q := fun s' => Thinned M.toSetup s s') ?_ fun s' hs' => .pure (h.thinned hs')
      refine (toposortForPurge_subset M.partition killList).bind fun r hr => ?_
      exact purgeEntries_thins h.noneReused true fun j hj => hkill j (hr j hj)

/-! ## Another ID for the root list -/

/-- The ID that `insert_again` gives to an object. -/
def Cache.nextIdAgain (s : Cache P σ) (p : P) : ListId :=
  (CacheIdGenerator.search (fun j => (s.find j).isNone || decide (j = s.id p)) (CacheIdGenerator.getCacheMode (s.id p))
    (CacheIdGenerator.getContext (s.id p)) (s.nextId (CacheIdGenerator.getContext (s.id p))) idMax
    (s.nextId (CacheIdGenerator.getContext (s.id p)))).1

/-- The root list may get another ID that is not claimed. -/
theorem Guarded.renamed (h : Guarded S root rootId s)
    (hall : s'.allObjects = root :: s.allObjects.filter (s.id · ≠ rootId)) (hid : s'.id = Function.update s.id root i)
    (hfree : ∀ p ∈ s.allObjects, s.id p ≠ rootId → s.id p ≠ i) (hvalid : i.isValid = true) (hclaim : Unclaimed S s i)
    (hrefers : ∀ p, s'.Refers S p → s.Refers S p) (hpinned : s'.isPinned = s.isPinned)
    (hpinnedId : s'.pinnedObjectId = if rootId = s.pinnedObjectId then i else s.pinnedObjectId) (hnext : NextIds s') :
    Guarded S root i s' := by
  have hself : s'.id root = i := by rw [hid, Function.update_self]
  have hother : ∀ {p}, p ≠ root → s'.id p = s.id p := fun hp => by rw [hid, Function.update_of_ne hp]
  have hne : ∀ {p}, p ∈ s.allObjects → p ≠ root → s.id p ≠ rootId := fun hp hpr e =>
    hpr (h.noneReused.ids hp h.cached (e.trans h.id.symm))
  have hmem : ∀ {p}, p ∈ s'.allObjects ↔ p ∈ s.allObjects := fun {p} => by
    rw [hall, List.mem_cons, List.mem_filter]
    refine ⟨fun hp => hp.elim (fun e => e ▸ h.cached) And.left, fun hp => ?_⟩
    by_cases hpr : p = root
    · exact .inl hpr
    · exact .inr ⟨hp, by simpa using hne hp hpr⟩
  have hothers : ∀ x ∈ s.allObjects, x ≠ root → s.id x ≠ i := fun x hx hxr => hfree x hx (hne hx hxr)
  have hpinnedValid : s'.pinnedObjectId.isValid = true := by
    rw [hpinnedId]
    split
    · exact hvalid
    · exact h.pinnedObject
  have hpath : PinnedPath S.forest s' s.allObjects :=
    h.pinned.rename (fun x hx e => h.noneReused.ids hx h.cached e) hothers (h.id ▸ h.valid) hvalid hid hpinned
      (h.id ▸ hpinnedId)
  refine ⟨fun p hp => ?_, hnext, fun p hp => h.below p (hmem.mp hp), hpath.congr (fun _ => hmem.symm) rfl rfl rfl,
    hpinnedValid, hmem.mpr h.cached, hself, hvalid⟩
  · rcases hfind : s'.find (s'.id p) with _ | x
    · exact .inl hfind
    obtain ⟨hx, hidx⟩ := mem_of_find hfind
    have hx := hmem.mp hx
    suffices hxp : x = p by
      subst hxp
      exact .inr hfind
    by_cases hxr : x = root <;> by_cases hpr : p = root
    · rw [hxr, hpr]
    · rw [hxr, hself, hother hpr] at hidx
      by_cases hpall : p ∈ s.allObjects
      · exact absurd hidx.symm (hothers p hpall hpr)
      · exact absurd hidx.symm (hclaim p (hrefers p hp) hpall)
    · rw [hpr, hself, hother hxr] at hidx
      exact absurd hidx (hothers x hx hxr)
    · rw [hother hxr, hother hpr] at hidx
      rcases h.noneReused p (hrefers p hp) with hnone | hsome
      · exact absurd hidx (find_eq_none.mp hnone x hx)
      · exact Option.some.inj ((h.noneReused.find_id hx).symm.trans (hidx ▸ hsome))

theorem Guarded.reinsertList (h : Guarded S root rootId s) (hclaim : Unclaimed S s (s.nextIdAgain root)) :
    Ensures AnyFault (s.reinsertList rootId) fun r => Guarded S root r.1 r.2 := by
  unfold Cache.reinsertList
  refine (lookup_ensures rootId s).bind fun r hr => ?_
  obtain ⟨-, rfl⟩ := hr
  rw [h.find_root]
  refine .bind (Q := fun r => Guarded S root r.1 r.2) ?_ fun r hr => .check_bind (fun _ => trivial) fun _ => .pure hr
  unfold Cache.insertAgain
  dsimp only
  rw [h.id, h.find_root]
  refine .ite nofun fun _ => (nextListId_effect _ _ _).bind fun r hr => ?_
  obtain ⟨i, s₁⟩ := r
  obtain ⟨⟨next, rfl⟩, hnext, hsearch⟩ := hr
  -- the ID of the root list counts as free
  replace hsearch := hsearch.trans (congrArg (fun isFree => (CacheIdGenerator.search isFree _ _ _ _ _).1)
    (funext (find_filter s rootId)))
  have hagain : i = s.nextIdAgain root := by
    rw [nextIdAgain, h.id]
    exact hsearch
  have hvalid : i.isValid = true := by
    rw [show i = _ from hsearch]
    exact search_finds (h.nextIds _) h.valid (by simp)
  refine .check_bind (fun _ => trivial) fun hfree =>
    .pure (h.renamed rfl rfl (fun p hp hne => ?_) hvalid (hagain ▸ hclaim) (fun p hp => ?_) rfl rfl (hnext h.nextIds))
  · exact find_eq_none.mp hfree p (List.mem_filter.mpr ⟨hp, by simpa using hne⟩)
  · rcases hp with hp | hp | hp | ⟨q, hq, hp⟩
    · exact .inl hp
    · exact refers_oldest hp
    · exact .inr (.inr (.inl hp))
    · rcases List.mem_cons.mp hq with rfl | hq
      · exact refers_path h.cached hp
      · exact refers_path (List.mem_filter.mp hq).1 hp

/-- A list that is cached is not missing when it is to get another ID. -/
theorem reinsertList_found (hvalid : i.isValid = true) (hfind : s.find i = some p) :
    Ensures (· ≠ .notCached) (s.reinsertList i) fun _ => True := by
  unfold Cache.reinsertList
  refine .bind (Q := fun r => r = some p) (.check_bind (fun hn => absurd hvalid hn) fun _ => .pure hfind) fun r hr => ?_
  subst hr
  refine .bind (Q := fun _ => True) ?_ fun r _ => .check_bind (fun _ => nofun) fun _ => .pure trivial
  unfold Cache.insertAgain nextListId
  refine .ite (fun _ => .pure trivial) fun _ => ?_
  exact .bind (Q := fun _ => True) (.check_bind (fun _ => nofun) fun _ => .pure trivial) fun r _ =>
    .check_bind (fun _ => nofun) fun _ => .pure trivial

/-! ## Initialization -/

/-- There is at most the root list in the cache, and it is not pinned yet. -/
structure Unpinned (S : Setup P σ) (root : P) (i : ListId) (s : Cache P σ) : Prop where
  noneReused : NoneReused S s
  nextIds : NextIds s
  only : ∀ p ∈ s.allObjects, p = root
  isPinned : ∀ p, s.isPinned p = false
  pinnedObject : s.pinnedObjectId = .invalid
  id : s.id root = i

section

omit [DecidableEq P]

theorem Unpinned.thinned (h : Unpinned S root i s) (ht : Thinned S s s') : Unpinned S root i s' where
  noneReused := ht.noneReused h.noneReused
  nextIds ctx := ht.nextId ▸ h.nextIds ctx
  only p hp := h.only p (ht.subset p hp)
  isPinned p := ht.isPinned ▸ h.isPinned p
  pinnedObject := ht.pinnedObjectId.trans h.pinnedObject
  id := ht.id ▸ h.id

end

/-- The root list is put into a new cache. -/
theorem insert_unpinned (hroot : S.forest.parent root = none) {content : σ} {handlers : Handlers} :
    Ensures AnyFault ((Cache.init now content).insert S now handlers now .cached 0 0 root) fun r =>
      Unpinned S root r.1 r.2 := by
  have haccepts : (Cache.init now content).Accepts S now root := ⟨rfl, Nat.le_refl now, by rw [hroot]; nofun⟩
  unfold Cache.insert
  rw [if_pos haccepts]
  generalize hs₀ : ({ Cache.init now content with
    lastUsed := Function.update (Cache.init now content).lastUsed root now } : Cache P σ) = s₀
  have hrefers : ∀ p, s₀.Refers S p → p = root := by
    subst hs₀
    rintro p (⟨q, hq | hq | hq | hq⟩ | hq | hq | ⟨q, hq, -⟩)
    all_goals cases hq
  refine (prepareInsert_rearranges (K := (· = root)) hrefers rfl fun q hq => by rw [hroot] at hq; cases hq).bind
    fun s₁ hs₁ => ?_
  refine (link_joins hs₁.refers rfl fun q hq => by rw [hroot] at hq; cases hq).bind fun r hr => ?_
  obtain ⟨i, s₂⟩ := r
  obtain ⟨hjoined, -⟩ := hr
  have hall : s₂.allObjects = [root] := by
    rw [hjoined.allObjects, hs₁.allObjects, ← hs₀]
    rfl
  have h₂ : Unpinned S root i s₂ := by
    refine ⟨fun p hp => .inr ?_, hjoined.nextIds fun ctx => ?_, fun p hp => ?_, fun p => ?_, ?_, ?_⟩
    · obtain rfl := hjoined.refers p hp
      rw [Cache.find, hall, List.find?_cons_of_pos (by simp)]
    · rw [hs₁.nextId, ← hs₀]
      exact ⟨Nat.one_pos, show 1 ≤ idMax by decide⟩
    · rw [hall] at hp
      exact List.mem_singleton.mp hp
    · rw [hjoined.isPinned, hs₁.isPinned, ← hs₀]
      rfl
    · rw [hjoined.pinnedObjectId, hs₁.pinnedObjectId, ← hs₀]
      rfl
    · rw [hjoined.id, Function.update_self]
  refine (gcIf_thins h₂.noneReused _).bind fun s₃ hs₃ => ?_
  have h₃ := h₂.thinned hs₃
  exact (gcIf_thins h₃.noneReused _).bind fun s₄ hs₄ => .pure (h₃.thinned hs₄)

/-- Then it is pinned, unless the garbage collector has discarded it already. -/
theorem Unpinned.pin (h : Unpinned S root i s) : Ensures AnyFault (s.pin S now i) fun r =>
    r.2.isPinned root = true → Guarded S root i r.2 := by
  have hcached : ∀ x ∈ s.allObjects, s.find (s.id x) = some x := fun x hx => h.noneReused.find_id hx
  have hpath : PinnedPath S.forest s s.allObjects := by
    refine ⟨fun p => ?_, fun hvalid => ?_⟩
    · rw [h.isPinned, h.pinnedObject]
      exact iff_of_false nofun fun hp => nomatch hp.1
    · rw [h.pinnedObject] at hvalid
      cases hvalid
  have hset := hpath.setPinned hcached (fun _ hx => hx) i
  unfold Cache.pin
  refine .ite (fun _ => .pure fun hp => ?_) fun _ => .ite (fun hgc => ?_) fun _ => .pure fun hp => ?_
  · rw [h.isPinned] at hp
    cases hp
  · rw [h.pinnedObject] at hgc
    exact absurd hgc.2 nofun
  · dsimp only at hp ⊢
    rw [hpath.setPinned_eq hcached] at hset hp ⊢
    obtain ⟨hvalid, x, hx, hid, -⟩ := (hset.flag root).mp hp
    obtain rfl := h.only x hx
    refine ⟨h.noneReused, h.nextIds, fun p hp => ?_, hset, hvalid, hx, h.id, ?_⟩
    · rw [h.only p hp]
      exact Forest.mem_path_self
    · rw [← hid, h.id] at hvalid
      exact hvalid

theorem init_guarded {content : σ} {handlers : Handlers} (hroot : M.forest.parent root = none) :
    Ensures AnyFault (ListTree.init M handlers now content root) fun t =>
      t.cache.isPinned root = true → Guarded M.toSetup root t.rootListId t.cache := by
  unfold ListTree.init
  refine (insert_unpinned hroot).bind fun r hr => hr.pin.bind fun r' hr' => ?_
  exact .check_bind (fun _ => trivial) fun _ => .pure hr'

/-! ## Runs -/

namespace ListTree

variable {t t' : ListTree P σ} {calls : List (ℕ × TreeCall P)}

/-- No pinned list is purged, and a new ID is not that of a list outside of the cache to which the cache still
refers. -/
def Managed (M : Manager P σ) (t : ListTree P σ) (l : ℕ × TreeCall P) : Prop :=
  match l.2 with
  | .enterChild _ _ mode ctx _ _ => Unclaimed M.toSetup t.cache (t.cache.nextFreeId mode ctx)
  | .purgeSubtree n listId => PurgesUnpinned M t.cache n listId
  | .reinsertRootList => ∀ p ∈ t.cache.find t.rootListId, Unclaimed M.toSetup t.cache (t.cache.nextIdAgain p)
  | _ => True

/-- What one call does to the root list. -/
theorem step_guarded (h : Guarded M.toSetup root t.rootListId t.cache) {l : ℕ × TreeCall P} (hmanaged : Managed M t l)
    (hstep : Step M t l t') : Guarded M.toSetup root t'.rootListId t'.cache := by
  obtain ⟨now, call⟩ := l
  obtain ⟨-, hallowed, hrun⟩ := hstep
  have hensures : Ensures AnyFault (call.run M now t) fun t' => Guarded M.toSetup root t'.rootListId t'.cache := by
    unfold Managed at hmanaged
    cases call with
    | useList id pinIt => exact (h.useList pinIt).bind fun r hr => .pure hr
    | discardListHint id => exact .ite (fun _ => h.repin.bind fun s hs => .pure hs) fun _ => .pure h
    | enterChild handlers created mode ctx size entry =>
      exact (insert_guarded h hallowed hmanaged).bind fun r hr => .pure hr
    | gc => exact (gc_thins h.noneReused).bind fun r hr => .pure (h.thinned hr)
    | purgeSubtree n id => exact (h.purgeSubtree hmanaged).bind fun r hr => .pure hr
    | reinsertRootList => exact (h.reinsertList (hmanaged root h.find_root)).bind fun r hr => .pure hr
  exact hensures.ok hrun

/-- Two devices, of which one has a list. -/
def exampleManager : Manager Bool Unit where
  memoryLimits := exampleLimits
  countLimits := exampleLimits
  maximumAgeThreshold := 15
  forest :=
    { parent := fun p => if p then some false else none
      rank := fun p => p.toNat
      rank_lt := fun {p q} h => by
        cases p with
        | false => cases h
        | true =>
          cases h
          decide }
  obliviateChild _ _ _ content := content
  notifyObjectRemoved _ content := content
  enumerateDirectSublists _ _ := []
  partition := stablePartition ListId

instance (s : Cache Bool Unit) (i : ListId) : Decidable (Unclaimed exampleManager.toSetup s i) :=
  inferInstanceAs
    (Decidable (∀ p : Bool, ((∃ q, s.links.next p = some q ∨ s.links.prev p = some q ∨ s.links.next q = some p ∨
    s.links.prev q = some p) ∨ s.oldestObject = some p ∨ s.deepestYoungestObject = some p ∨
      ∃ q ∈ s.allObjects, p ∈ exampleManager.forest.path q) → p ∉ s.allObjects → s.id p ≠ i))

instance (t : ListTree Bool Unit) : ∀ l : ℕ × TreeCall Bool, Decidable (Managed exampleManager t l)
  | (_, .enterChild _ _ mode ctx _ _) =>
    inferInstanceAs (Decidable (Unclaimed exampleManager.toSetup t.cache (t.cache.nextFreeId mode ctx)))
  | (_, .purgeSubtree n listId) =>
    inferInstanceAs (Decidable (∀ killList ∈ (t.cache.enumerateTreeOfSublists exampleManager n [listId]).toOption,
      ∀ j ∈ killList, ∀ p ∈ t.cache.find j, t.cache.isPinned p = false))
  | (_, .reinsertRootList) =>
    inferInstanceAs (Decidable (∀ p ∈ t.cache.find t.rootListId,
      Unclaimed exampleManager.toSetup t.cache (t.cache.nextIdAgain p)))
  | (_, .useList ..) | (_, .discardListHint _) | (_, .gc) => inferInstanceAs (Decidable True)

theorem step_of_next {l : ℕ × TreeCall P} (h : next M t l = some t') : Step M t l t' := by
  unfold ListTree.next at h
  split at h
  · next hallowed => exact ⟨hallowed.1, hallowed.2, ok_of_toOption h⟩
  · cases h

/-- What holds after the calls of an example that is run. -/
theorem run_any (ok : ListTree Bool Unit → ℕ × TreeCall Bool → Prop) [∀ t l, Decidable (ok t l)]
    (calls : List (ℕ × TreeCall Bool)) {Q : ListTree Bool Unit → Bool}
    (h : ((ListTree.init exampleManager ⟨true, true⟩ 0 () false).toOption.any fun t =>
      t.cache.isPinned false && (exec (next exampleManager) ok calls t).any Q) = true) :
    ∃ t t', Initialized exampleManager false t ∧ Run (When (Step exampleManager) ok) t calls t' ∧ Q t' = true := by
  obtain ⟨t, hinit, h⟩ := (Option.any_eq_true _ _).mp h
  obtain ⟨hpinned, h⟩ := (Bool.and_eq_true _ _).mp h
  obtain ⟨t', hrun, hQ⟩ := Run.of_exec_any (fun _ _ _ => step_of_next) h
  exact ⟨t, t', ⟨⟨true, true⟩, 0, (), ok_of_toOption hinit, hpinned⟩, hrun, hQ⟩

/-- The list of a device is used, and then the device is removed: nothing is pinned from then on. After 20 minutes, the
garbage collector discards the root list. -/
theorem root_discarded : ∃ t t', Initialized exampleManager false t ∧ Run (Step exampleManager) t
    [(1, .enterChild ⟨true, true⟩ 1 .cached 0 10 true), (2, .useList ⟨2⟩ true), (3, .purgeSubtree 1 ⟨2⟩),
      (4, .reinsertRootList), (20 * 60 * 10 ^ 9, .gc)] t' ∧
    t'.rootListId = ⟨3⟩ ∧ t'.cache.allObjects = [] ∧ t'.cache.lookup t'.rootListId = .ok none := by
  obtain ⟨t, t', hinit, hrun, ht'⟩ := run_any (fun _ _ => True)
    [(1, .enterChild ⟨true, true⟩ 1 .cached 0 10 true), (2, .useList ⟨2⟩ true), (3, .purgeSubtree 1 ⟨2⟩),
      (4, .reinsertRootList), (20 * 60 * 10 ^ 9, .gc)]
    (Q := fun t' => t'.rootListId = ⟨3⟩ ∧ t'.cache.allObjects = []) (by decide +kernel)
  obtain ⟨hid, hnone⟩ := of_decide_eq_true ht'
  refine ⟨t, t', hinit, hrun.of_when, hid, hnone, ?_⟩
  rw [hid, Cache.lookup, Cache.find, hnone]
  rfl

/-- In every run, the root list is found under its ID, which is valid, and may get another one. -/
theorem root_stays_cached (hroot : M.forest.parent root = none) (hinit : Initialized M root t)
    (h : Run (When (Step M) (Managed M)) t calls t') :
    t'.rootListId.isValid = true ∧ t'.cache.lookup t'.rootListId = .ok (some root) ∧
      t'.cache.reinsertList t'.rootListId ≠ .error .notCached := by
  obtain ⟨handlers, now, content, hinit, hpinned⟩ := hinit
  have hguarded : Guarded M.toSetup root t'.rootListId t'.cache :=
    h.invariant (P := fun t => Guarded M.toSetup root t.rootListId t.cache)
      (fun _ _ _ hs hstep => step_guarded hs hstep.1 hstep.2) ((init_guarded hroot).ok hinit hpinned)
  refine ⟨hguarded.valid, ?_, fun hmissing => ?_⟩
  · rw [Cache.lookup, check, if_pos hguarded.valid]
    exact congrArg Except.ok hguarded.find_root
  · exact (reinsertList_found hguarded.valid hguarded.find_root).fault hmissing rfl

/-- The client leaves the list before the device is removed. -/
theorem root_stays_cached_left : ∃ t' : ListTree Bool Unit, t'.rootListId = ⟨3⟩ ∧ t'.cache.allObjects = [false] ∧
    t'.cache.lookup t'.rootListId = .ok (some false) := by
  obtain ⟨t, t', hinit, hrun, ht'⟩ := run_any (Managed exampleManager)
    [(1, .enterChild ⟨true, true⟩ 1 .cached 0 10 true), (2, .useList ⟨2⟩ true), (3, .discardListHint ⟨2⟩),
      (4, .purgeSubtree 1 ⟨2⟩), (5, .reinsertRootList), (20 * 60 * 10 ^ 9, .gc)]
    (Q := fun t' => t'.rootListId = ⟨3⟩ ∧ t'.cache.allObjects = [false]) (by decide +kernel)
  obtain ⟨hid, hall⟩ := of_decide_eq_true ht'
  exact ⟨t', hid, hall, (root_stays_cached rfl hinit hrun).2.1⟩

end ListTree

end Listbrokers.Lru
