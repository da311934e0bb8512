import Listbrokers.Lru.Collect
import Listbrokers.Lru.IdGenerator

/-!
# What the operations preserve

Each operation leads from an intact cache to an intact cache. For `insert` this
needs that, where `use` of the parent finds the clock unchanged and does
nothing, the aging list goes on from the parent with the path of the parent
(`Placed`), as the pointer to the deepest object is set to the parent or to the
new object in any case.
-/

namespace Listbrokers.Lru

open Framework Cache

variable {P σ : Type} [DecidableEq P] {S : Setup P σ} {T : Forest P} {s s' : Cache P σ} {L L' A B : List P}
  {c p q : P} {sized : Prop} {now : ℕ}

/-! ## Pinning -/

/-- The data of the objects that pinning does not change, either. -/
structure SameAges (s s' : Cache P σ) : Prop where
  id : s'.id = s.id
  objectSize : s'.objectSize = s.objectSize
  lastUsed : s'.lastUsed = s.lastUsed
  minimumRequiredCreationTime : s'.minimumRequiredCreationTime = s.minimumRequiredCreationTime
  nextId : s'.nextId = s.nextId

section

omit [DecidableEq P]

theorem SameData.ages (h : SameData s s') : SameAges s s' :=
  ⟨h.id, h.objectSize, h.lastUsed, h.minimumRequiredCreationTime, h.nextId⟩

theorem SameAges.refl (s : Cache P σ) : SameAges s s := (SameData.refl s).ages

theorem SameAges.trans {s₁ s₂ s₃ : Cache P σ} (h : SameAges s₁ s₂) (h' : SameAges s₂ s₃) : SameAges s₁ s₃ :=
  ⟨h'.id.trans h.id, h'.objectSize.trans h.objectSize, h'.lastUsed.trans h.lastUsed,
    h'.minimumRequiredCreationTime.trans h.minimumRequiredCreationTime, h'.nextId.trans h.nextId⟩

end

/-- A change of flags and of the pinned ID alone. -/
theorem Intact.repin (h : Intact sized T s L) {flags : P → Bool} {id : ListId}
    (hpinned : PinnedPath T { s with isPinned := flags, pinnedObjectId := id } L) :
    Intact sized T { s with isPinned := flags, pinnedObjectId := id } L where
  aged := h.aged.congr rfl rfl rfl rfl
  registered := ⟨h.registered.cached, h.registered.nodup, h.registered.ids, h.registered.children, h.registered.size,
    h.registered.nextId⟩
  pinned := hpinned

/-- `pin` without the garbage collector: the path of the object with the ID is pinned, if there is such an object. -/
theorem PinnedPath.setPinned_eq (h : PinnedPath S.forest s L) (hfind : ∀ x ∈ L, s.find (s.id x) = some x)
    (id : ListId) :
    s.setPinned S id = { s with
      isPinned := fun p => id.isValid && decide (∃ x ∈ s.find id, p ∈ S.forest.path x)
      pinnedObjectId := if id.isValid = true ∧ s.find id = none then .invalid else id } := by
  have hclear : (if s.pinnedObjectId.isValid then (s.pinOrUnpinObjectsOnPathToRoot S s.pinnedObjectId false).2 else s) =
      { s with isPinned := fun _ => false } := by
    split
    · next hvalid =>
      obtain ⟨x, hx, hid⟩ := h.cached hvalid
      have hpinned : s.find s.pinnedObjectId = some x := hid ▸ hfind x hx
      simp only [pinOrUnpinObjectsOnPathToRoot, hvalid, if_true, hpinned]
      congr 1
      funext p
      split
      · rfl
      · next hp =>
        by_contra hflag
        obtain ⟨-, y, hy, hid', hpath⟩ := (h.flag p).mp (by simpa using hflag)
        obtain rfl : y = x := Option.some.inj ((hfind y hy).symm.trans (hid' ▸ hpinned))
        exact hp hpath
    · next hvalid =>
      have hflags : s.isPinned = fun _ => false := by
        funext p
        by_contra hflag
        exact hvalid ((h.flag p).mp (by simpa using hflag)).1
      rw [← hflags]
  unfold Cache.setPinned
  rw [hclear]
  by_cases hvalid : id.isValid = true
  · have hsame : ∀ b : P → Bool, Cache.find { s with isPinned := b, pinnedObjectId := id } id = s.find id :=
      fun _ => rfl
    cases hx : s.find id with
    | none => simp [pinOrUnpinObjectsOnPathToRoot, hvalid, hsame, hx]
    | some x =>
      simp only [pinOrUnpinObjectsOnPathToRoot, hvalid, if_true, hsame, hx]
      simp
  · simp [hvalid]

/-- Then the pinned path is that of the object with the ID. -/
theorem PinnedPath.setPinned (h : PinnedPath S.forest s L) (hfind : ∀ x ∈ L, s.find (s.id x) = some x)
    (hcached : ∀ x ∈ s.allObjects, x ∈ L) (id : ListId) : PinnedPath S.forest (s.setPinned S id) L := by
  rw [h.setPinned_eq hfind]
  refine ⟨fun p => ?_, fun hvalid => ?_⟩
  · dsimp only
    cases hx : s.find id with
    | none =>
      by_cases hvalid : id.isValid = true
      · simp [hvalid]
      · simp [hvalid]
    | some x =>
      obtain ⟨hxall, hxid⟩ := mem_of_find hx
      simp only [reduceCtorEq, and_false, if_false, Bool.and_eq_true, decide_eq_true_eq]
      refine and_congr_right fun _ => ⟨?_, ?_⟩
      · rintro ⟨y, hy, hp⟩
        cases hy
        exact ⟨x, hcached x hxall, hxid, hp⟩
      · rintro ⟨y, hy, hid, hp⟩
        obtain rfl : y = x := Option.some.inj ((hfind y hy).symm.trans (hid ▸ hx))
        exact ⟨y, rfl, hp⟩
  · dsimp only at hvalid ⊢
    split at hvalid
    · simp at hvalid
    · next hnot =>
      rw [if_neg hnot]
      cases hx : s.find id with
      | none => exact absurd ⟨hvalid, hx⟩ hnot
      | some x =>
        obtain ⟨hxall, hxid⟩ := mem_of_find hx
        exact ⟨x, hcached x hxall, hxid⟩

theorem setPinned_eq (h : Intact sized S.forest s L) (id : ListId) :
    s.setPinned S id = { s with
      isPinned := fun p => id.isValid && decide (∃ x ∈ s.find id, p ∈ S.forest.path x)
      pinnedObjectId := if id.isValid = true ∧ s.find id = none then .invalid else id } :=
  h.pinned.setPinned_eq (fun _ hx => h.registered.find_id hx) id

theorem setPinned_intact (h : Intact sized S.forest s L) (id : ListId) :
    Intact sized S.forest (s.setPinned S id) L := by
  have hpinned := h.pinned.setPinned (fun _ hx => h.registered.find_id hx)
    (fun x hx => (h.registered.cached x).mp hx) id
  rw [setPinned_eq h] at hpinned ⊢
  exact h.repin hpinned

theorem setPinned_ages (h : Intact sized S.forest s L) (id : ListId) : SameAges s (s.setPinned S id) := by
  rw [setPinned_eq h]
  exact ⟨rfl, rfl, rfl, rfl, rfl⟩

/-- `pin` discards some objects, as the garbage collector does, but none that it has pinned. -/
theorem pin_ensures (h : Intact sized S.forest s L) (id : ListId) :
    Ensures (Tolerated sized) (s.pin S now id) fun r =>
      ∃ L', Intact sized S.forest r.2 L' ∧ SameAges s r.2 ∧ L'.Sublist L ∧
        ∀ p, (s.setPinned S id).isPinned p = true → p ∈ L' := by
  have h' := setPinned_intact h id
  have hages := setPinned_ages h id
  unfold Cache.pin
  refine .ite (fun _ => .pure ⟨L, h, .refl s, .refl L, fun p => h'.mem_of_pinned⟩) fun _ => ?_
  refine .ite (fun _ => (gc_ensures h').bind fun r hr => ?_) fun _ =>
    .pure ⟨L, h', hages, .refl L, fun p => h'.mem_of_pinned⟩
  obtain ⟨_, s₁⟩ := r
  obtain ⟨L', hred⟩ := hr
  exact .pure ⟨L', hred.intact, hages.trans hred.same.ages, hred.sublist, fun p hp =>
    hred.keeps_pinned p (h'.mem_of_pinned hp) hp⟩

/-! ## Use -/

/-- The ages and the aging list after `use` of `q`, when the cache was last changed by an insertion at `minimum`. -/
def Touched (T : Forest P) (now minimum : ℕ) (q : P) (ages ages' : P → ℕ) (L L' : List P) : Prop :=
  now = minimum ∧ ages' = ages ∧ L' = L ∨
    minimum < now ∧ (ages' = fun p => if p ∈ T.path q then now else ages p) ∧ L' = usedList T q L

theorem Aged.usedList_perm (h : Aged T s L) {e : P} (he : e ∈ L) : L.Perm (usedList T e L) := by
  refine (List.perm_ext_iff_of_nodup h.nodup ?_).mpr fun p => (h.mem_usedList he).symm
  rw [usedList, List.nodup_append]
  refine ⟨h.nodup.filter _, T.nodup_path e, fun a ha b hb hab => ?_⟩
  have := List.of_mem_filter ha
  simp [hab, hb] at this

/-- `use` of a cached object. -/
theorem useEntry_ensures (h : Intact sized S.forest s L) {e : P} (he : e ∈ L) :
    Ensures (Tolerated sized) (s.useEntry S now e) fun r => ∃ L', Intact sized S.forest r.2 L' ∧
      Touched S.forest now s.minimumRequiredCreationTime e s.lastUsed r.2.lastUsed L L' ∧
      (r.1 < 0 → now = s.minimumRequiredCreationTime ∧ L' = L) ∧ (0 ≤ r.1 → S.forest.path e <:+ L') ∧
      r.2.id = s.id ∧ r.2.objectSize = s.objectSize ∧ r.2.isPinned = s.isPinned ∧
      r.2.pinnedObjectId = s.pinnedObjectId ∧
      r.2.minimumRequiredCreationTime = s.minimumRequiredCreationTime ∧ r.2.nextId = s.nextId ∧
      r.2.totalSize = s.totalSize ∧ r.2.rootObject = s.rootObject := by
  refine (h.aged.useEntry_ensures he (fun _ => tolerated (by decide)) (fun _ => tolerated (by decide))
    (fun _ => tolerated (by decide)) (fun _ => tolerated (by decide)) fun _ => tolerated (by decide)).mono
      fun r hr => ?_
  obtain ⟨hnow, ⟨heq, rfl⟩ | ⟨hlt, -, hlen, oldest, links, hr2, haged⟩⟩ := hr
  · refine ⟨L, h, .inl ⟨heq, rfl, rfl⟩, fun _ => ⟨heq, rfl⟩, fun hn => ?_, rfl, rfl, rfl, rfl, rfl, rfl, rfl, rfl⟩
    simp [usedEntryAlreadyUpToDate] at hn
  · obtain ⟨depth, s₁⟩ := r
    dsimp only at hr2 hlen haged ⊢
    subst hr2
    have hdepth : 0 ≤ depth := by
      have := List.length_pos_iff.mpr (Forest.path_ne_nil (T := S.forest) (p := e))
      omega
    have hperm := h.aged.usedList_perm he
    refine ⟨_, ⟨haged, ?_, h.pinned.congr (fun p => hperm.mem_iff) rfl rfl rfl⟩, .inr ⟨hlt, rfl, rfl⟩,
      fun hn => absurd hdepth (Int.not_le.mpr hn), fun _ => List.suffix_append _ _, rfl, rfl, rfl, rfl, rfl,
        rfl, rfl, rfl⟩
    have := h.registered.perm hperm
    exact ⟨this.cached, this.nodup, this.ids, this.children, this.size, this.nextId⟩

/-! ## Insertion -/

/-- The time at which an object was created that is not in the cache yet. -/
theorem Intact.setCreated (h : Intact sized T s L) (created : ℕ) :
    Intact sized T { s with lastUsed := Function.update s.lastUsed p created } L where
  aged := h.aged.congr rfl rfl rfl rfl
  registered := ⟨h.registered.cached, h.registered.nodup, h.registered.ids, h.registered.children, h.registered.size,
    h.registered.nextId⟩
  pinned := ⟨h.pinned.flag, h.pinned.cached⟩

section

omit [DecidableEq P]

/-- The generator returns a new ID, unless all IDs of the context and the cache mode are taken. -/
theorem nextListId_ensures (hnext : ∀ ctx, 0 < s.nextId ctx ∧ s.nextId ctx ≤ idMax) (mode : CacheMode) (ctx : ℕ) :
    Ensures (Tolerated sized) (s.nextListId mode ctx) fun r =>
      (∃ next, r.2 = { s with nextId := next } ∧ ∀ ctx, 0 < next ctx ∧ next ctx ≤ idMax) ∧
        ∀ raw, 0 < raw → raw ≤ idMax → s.find (CacheIdGenerator.makeListId raw mode ctx) = none →
          r.1.isValid = true := by
  obtain ⟨hpos, hle⟩ := hnext ctx
  unfold nextListId
  refine .check_bind (fun _ => tolerated (by decide)) fun _ =>
    .pure ⟨⟨_, rfl, fun ctx' => ?_⟩, fun raw h0 hmax hfree => ?_⟩
  · by_cases h : ctx' = ctx
    · subst h
      rw [Function.update_self]
      exact CacheIdGenerator.search_mem _ _ _ ⟨hpos, hle⟩
    · rw [Function.update_of_ne h]
      exact hnext ctx'
  · exact CacheIdGenerator.search_isValid ⟨hpos, hle⟩ ⟨h0, hmax⟩ (by simp [hfree])

end

/-- The cache is as `insert` prepares it for the new entry. -/
structure Prepared (sized : Prop) (T : Forest P) (entry : P) (s s₁ : Cache P σ) (A L : List P) : Prop where
  intact : Intact sized T s₁ L
  root : T.parent entry = none → L = [] ∧ A = [] ∧ s = { s₁ with
    rootObject := some entry
    deepestYoungestObject := some entry }
  child : ∀ q, T.parent entry = some q → L = A ++ T.path q ∧ ∃ d, (d = entry ∨ d = q) ∧ s = { s₁ with
    deepestYoungestObject := some d
    childrenCount := Function.update s₁.childrenCount q (s₁.childrenCount q + 1) }

/-- What `insert` does before it puts the entry into the cache. -/
theorem prepareInsert_ensures (h : Intact sized S.forest s L) {created : ℕ} {entry : P}
    (hparent : ∀ q, S.forest.parent entry = some q → q ∈ L)
    (hplace : ∀ q, S.forest.parent entry = some q → now ≤ s.minimumRequiredCreationTime → S.forest.path q <:+ L) :
    Ensures (Tolerated sized) (s.prepareInsert S now created entry) fun r => ∃ s₁ A L₁,
      Prepared sized S.forest entry r s₁ A L₁ ∧ s₁.id = s.id ∧ s₁.objectSize = s.objectSize ∧
      s₁.isPinned = s.isPinned ∧ s₁.pinnedObjectId = s.pinnedObjectId ∧ s₁.totalSize = s.totalSize ∧
      (∀ p, p ∈ L₁ ↔ p ∈ L) ∧
      match S.forest.parent entry with
      | none => L = [] ∧ s₁.lastUsed = s.lastUsed
      | some q => Touched S.forest now s.minimumRequiredCreationTime q s.lastUsed s₁.lastUsed L L₁ := by
  unfold prepareInsert
  cases hpar : S.forest.parent entry with
  | none =>
    refine .check_bind (fun _ => tolerated (by decide)) fun hroot => .pure ?_
    rw [h.aged.root] at hroot
    have hL := List.getLast?_eq_none_iff.mp hroot
    refine ⟨s, [], L, ⟨h, fun _ => ⟨hL, rfl, rfl⟩, fun q hq => ?_⟩, rfl, rfl, rfl, rfl, rfl, fun _ => Iff.rfl, hL, rfl⟩
    rw [hpar] at hq
    cases hq
  | some q =>
    dsimp only
    refine (useEntry_ensures h (hparent q hpar)).bind fun r hr => ?_
    obtain ⟨depth, s₁⟩ := r
    obtain ⟨L₁, hintact, htouched, hneg, hpos, hid, hsize, hpin, hpinid, -, -, htotal, -⟩ := hr
    dsimp only at hintact htouched hneg hpos hid hsize hpin hpinid htotal ⊢
    have hsuffix : S.forest.path q <:+ L₁ := by
      by_cases hd : depth < 0
      · obtain ⟨hnow, rfl⟩ := hneg hd
        exact hplace q hpar (Nat.le_of_eq hnow)
      · exact hpos (Int.not_lt.mp hd)
    obtain ⟨A, hA⟩ := hsuffix
    refine .check_bind (fun _ => tolerated (by decide)) fun hdeep => .pure ?_
    have hmem : ∀ p, p ∈ L₁ ↔ p ∈ L := by
      rcases htouched with ⟨-, -, rfl⟩ | ⟨-, -, rfl⟩
      · exact fun _ => Iff.rfl
      · exact fun p => h.aged.mem_usedList (hparent q hpar)
    refine ⟨s₁, A, L₁, ⟨hintact, fun hn => ?_, fun q' hq' => ?_⟩, hid, hsize, hpin, hpinid, htotal, hmem, htouched⟩
    · rw [hpar] at hn
      cases hn
    · rw [hpar] at hq'
      cases hq'
      refine ⟨hA.symm, ?_⟩
      by_cases hd : depth < 0
      · simp only [hd, if_true]
        split
        · exact ⟨entry, .inl rfl, rfl⟩
        · exact ⟨q, .inr rfl, rfl⟩
      · simp only [hd, if_false] at hdeep ⊢
        split
        · exact ⟨entry, .inl rfl, rfl⟩
        · exact ⟨q, .inr rfl, by rw [← hdeep]⟩

namespace Prepared

variable {entry : P} {s₁ : Cache P σ}

theorem same (h : Prepared sized T entry s s₁ A L) : s.allObjects = s₁.allObjects ∧ s.id = s₁.id ∧
    s.objectSize = s₁.objectSize ∧ s.isPinned = s₁.isPinned ∧ s.lastUsed = s₁.lastUsed ∧ s.links = s₁.links ∧
    s.oldestObject = s₁.oldestObject ∧ s.pinnedObjectId = s₁.pinnedObjectId ∧ s.totalSize = s₁.totalSize ∧
    s.nextId = s₁.nextId := by
  cases hpar : T.parent entry with
  | none =>
    obtain ⟨-, -, rfl⟩ := h.root hpar
    exact ⟨rfl, rfl, rfl, rfl, rfl, rfl, rfl, rfl, rfl, rfl⟩
  | some q =>
    obtain ⟨-, d, -, rfl⟩ := h.child q hpar
    exact ⟨rfl, rfl, rfl, rfl, rfl, rfl, rfl, rfl, rfl, rfl⟩

/-- The new aging list has one more object. -/
theorem perm (h : Prepared sized T entry s s₁ A L) : (A ++ T.path entry).Perm (entry :: L) := by
  cases hpar : T.parent entry with
  | none =>
    obtain ⟨rfl, rfl, -⟩ := h.root hpar
    rw [Forest.path_of_root hpar]
    exact .refl _
  | some q =>
    obtain ⟨rfl, -⟩ := h.child q hpar
    rw [Forest.path_of_parent hpar]
    exact List.perm_middle

/-- The counters with the new entry. -/
theorem registered (h : Prepared sized T entry s s₁ A L) (hnew : entry ∉ L) {id : ListId} (hid : s.find id = none)
    {size : ℕ} (hsize : sized → s₁.totalSize + size < sizeMax) (hall : s'.allObjects = entry :: s.allObjects)
    (hids : s'.id = Function.update s.id entry id) (hchildren : s'.childrenCount = s.childrenCount)
    (hsizes : s'.objectSize = Function.update s.objectSize entry size)
    (htotal : s'.totalSize = (s.totalSize + size) % sizeMax)
    (hnext : ∀ ctx, 0 < s'.nextId ctx ∧ s'.nextId ctx ≤ idMax) : Registered sized T s' (A ++ T.path entry) := by
  obtain ⟨hall₁, hid₁, hsize₁, -, -, -, -, -, htotal₁, -⟩ := h.same
  have hreg := h.intact.registered
  have hne : ∀ p ∈ L, p ≠ entry := fun p hp e => hnew (e ▸ hp)
  have hfresh : ∀ p ∈ L, s.id p ≠ id := fun p hp =>
    find_eq_none.mp hid p (hall₁ ▸ (hreg.cached p).mpr hp)
  have hcons : Registered sized T s' (entry :: L) := by
    refine ⟨fun p => ?_, ?_, fun p hp q hq e => ?_, fun p => ?_, fun hs => ?_, hnext⟩
    · rw [hall, List.mem_cons, List.mem_cons, hall₁, hreg.cached]
    · rw [hall, hall₁]
      exact List.nodup_cons.mpr ⟨fun hmem => hnew ((hreg.cached entry).mp hmem), hreg.nodup⟩
    · rw [hids] at e
      by_cases hpe : p = entry <;> by_cases hqe : q = entry
      · rw [hpe, hqe]
      · have hq' := (List.mem_cons.mp hq).resolve_left hqe
        rw [hpe, Function.update_self, Function.update_of_ne hqe] at e
        exact absurd e.symm (hfresh q hq')
      · have hp' := (List.mem_cons.mp hp).resolve_left hpe
        rw [hqe, Function.update_self, Function.update_of_ne hpe] at e
        exact absurd e (hfresh p hp')
      · rw [Function.update_of_ne hpe, Function.update_of_ne hqe, hid₁] at e
        exact hreg.ids p ((List.mem_cons.mp hp).resolve_left hpe) q ((List.mem_cons.mp hq).resolve_left hqe) e
    · rw [hchildren, List.countP_cons, ← hreg.children p]
      cases hpar : T.parent entry with
      | none =>
        obtain ⟨-, -, rfl⟩ := h.root hpar
        simp
      | some q =>
        obtain ⟨-, d, -, rfl⟩ := h.child q hpar
        by_cases hqp : q = p
        · simp [hqp]
        · have hpq : p ≠ q := fun e => hqp e.symm
          simp [Function.update_of_ne hpq, hqp]
    · have hsum : L.map s'.objectSize = L.map s₁.objectSize := by
        refine List.map_congr_left fun p hp => ?_
        rw [hsizes, Function.update_of_ne (hne p hp), hsize₁]
      rw [List.map_cons, List.sum_cons, hsum, ← hreg.size hs, hsizes, Function.update_self, htotal, htotal₁,
        Nat.mod_eq_of_lt (hsize hs), Nat.add_comm]
  exact hcons.perm h.perm.symm

theorem pinnedPath (h : Prepared sized T entry s s₁ A L) (hnew : entry ∉ L) {id : ListId} (hid : s.find id = none)
    (hids : s'.id = Function.update s.id entry id) (hflag : s'.isPinned = s.isPinned)
    (hpinned : s'.pinnedObjectId = s.pinnedObjectId) : PinnedPath T s' (A ++ T.path entry) := by
  obtain ⟨hall₁, hid₁, -, hflag₁, -, -, -, hpinned₁, -⟩ := h.same
  have hpin := h.intact.pinned
  have hiff : s.pinnedObjectId.isValid = true → ∀ x, x ∈ A ++ T.path entry ∧ s'.id x = s.pinnedObjectId ↔
      x ∈ L ∧ s₁.id x = s.pinnedObjectId := by
    intro hvalid x
    rw [h.perm.mem_iff, List.mem_cons, hids, hid₁]
    by_cases hx : x = entry
    · subst hx
      obtain ⟨y, hy, hidy⟩ := hpin.cached (hpinned₁ ▸ hvalid)
      have hne : id ≠ s.pinnedObjectId := fun e => by
        refine find_eq_none.mp hid y (hall₁ ▸ (h.intact.registered.cached y).mpr hy) ?_
        rw [hid₁, hidy, e, hpinned₁]
      simp [hne, hnew]
    · simp [hx]
  refine ⟨fun p => ?_, fun hvalid => ?_⟩
  · rw [hflag, hflag₁, hpinned, hpin.flag, hpinned₁]
    refine and_congr_right fun hvalid => ?_
    have := hiff (hpinned₁ ▸ hvalid)
    rw [hpinned₁] at this
    constructor
    · rintro ⟨x, hx, hidx, hp⟩
      obtain ⟨hx', hidx'⟩ := (this x).mpr ⟨hx, hidx⟩
      exact ⟨x, hx', hidx', hp⟩
    · rintro ⟨x, hx, hidx, hp⟩
      obtain ⟨hx', hidx'⟩ := (this x).mp ⟨hx, hidx⟩
      exact ⟨x, hx', hidx', hp⟩
  · rw [hpinned] at hvalid ⊢
    obtain ⟨y, hy, hidy⟩ := hpin.cached (hpinned₁ ▸ hvalid)
    obtain ⟨hy', hidy'⟩ := (hiff hvalid y).mpr ⟨hy, hidy.trans hpinned₁.symm⟩
    exact ⟨y, hy', hidy'⟩

end Prepared

/-- What `insert` does when it puts the entry into the cache. -/
theorem link_ensures {entry : P} {s₁ : Cache P σ} (h : Prepared sized S.forest entry s s₁ A L) (hnew : entry ∉ L)
    {size : ℕ} (hsize : sized → s₁.totalSize + size < sizeMax) (mode : CacheMode) (ctx : ℕ) :
    Ensures (Tolerated sized) (s.link S mode ctx size entry) fun r =>
      Intact sized S.forest r.2 (A ++ S.forest.path entry) ∧ r.2.id = Function.update s.id entry r.1 ∧
        r.2.lastUsed = s.lastUsed ∧ r.2.minimumRequiredCreationTime = s.lastUsed entry ∧
        r.2.isPinned = s.isPinned ∧ r.2.pinnedObjectId = s.pinnedObjectId := by
  unfold link
  refine (nextListId_ensures (h.same.2.2.2.2.2.2.2.2.2 ▸ h.intact.registered.nextId) mode ctx).bind fun r hr => ?_
  obtain ⟨id, s₂⟩ := r
  obtain ⟨⟨next, rfl, hnext⟩, -⟩ := hr
  refine .check_bind (fun _ => tolerated (by decide)) fun hid => ?_
  have hid' : s.find id = none := hid
  obtain ⟨-, -, -, -, -, hlinks₁, holdest₁, -, -⟩ := h.same
  cases hpar : S.forest.parent entry with
  | none =>
    obtain ⟨rfl, rfl, hs⟩ := h.root hpar
    refine .bind (Q := fun r => r = (true, s.links)) (.pure rfl) fun r hr => ?_
    subst hr
    refine .check_bind (fun _ => tolerated (by decide)) fun _ => .pure ⟨⟨?_, ?_, ?_⟩, rfl, rfl, rfl, rfl, rfl⟩
    · rw [List.nil_append, Forest.path_of_root hpar]
      exact h.intact.aged.insert_root hpar hlinks₁ (by rw [hs]) rfl (by rw [hs])
    · exact h.registered hnew hid' hsize rfl rfl rfl rfl rfl hnext
    · exact h.pinnedPath hnew hid' rfl rfl rfl
  | some q =>
    obtain ⟨rfl, d, hd, hs⟩ := h.child q hpar
    obtain ⟨D, hD⟩ := S.forest.exists_path_eq q
    have hchain : s.links.Chain (A ++ q :: D) := by
      rw [hlinks₁, ← hD]
      exact h.intact.aged.chain
    refine (insertBeforeParent_ensures (p := entry) (tolerated (by decide)) hchain).bind fun r hr => ?_
    obtain ⟨isOldest, links⟩ := r
    obtain ⟨hlinks, hoal⟩ := hr
    dsimp only at hlinks hoal ⊢
    refine .check_bind (fun _ => tolerated (by decide)) fun _ => .pure ⟨⟨?_, ?_, ?_⟩, rfl, rfl, rfl, rfl, rfl⟩
    · refine h.intact.aged.insert hnew hpar (hlinks.trans (by rw [hlinks₁])) (by rw [hs]) ?_ ?_
      · have holdest := h.intact.aged.oldest
        rw [← holdest₁] at holdest
        dsimp only
        rw [List.head?_append, Forest.head?_path]
        cases A with
        | nil => rw [if_pos (hoal.mpr rfl)]; rfl
        | cons a A =>
          rw [if_neg (fun e => by cases hoal.mp e), holdest]
          rfl
      · rw [hs]
        rcases hd with rfl | rfl
        · exact .inl rfl
        · exact .inr rfl
    · exact h.registered hnew hid' hsize rfl rfl rfl rfl rfl hnext
    · exact h.pinnedPath hnew hid' rfl rfl rfl

end Listbrokers.Lru
