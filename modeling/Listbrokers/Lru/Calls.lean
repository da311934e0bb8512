import Listbrokers.Lru.Preserve

/-!
# Calls of the cache

`insert`, `insert_again`, `set_object_size` and `purge_entries`, assembled from
the steps they consist of.
-/

namespace Listbrokers.Lru

open Framework Cache

variable {P σ : Type} [DecidableEq P] {S : Setup P σ} {T : Forest P} {s s' : Cache P σ} {L L' A B : List P}
  {c p q : P} {sized : Prop} {now : ℕ}

/-! ## Insertion -/

/-- The cache after an insertion, before the garbage collector may run. -/
structure Inserted (sized : Prop) (T : Forest P) (now created : ℕ) (entry : P) (s s' : Cache P σ) (L L' : List P) :
    Prop where
  intact : Intact sized T s' L'
  minimum : s'.minimumRequiredCreationTime = created
  isPinned : s'.isPinned = s.isPinned
  pinnedObjectId : s'.pinnedObjectId = s.pinnedObjectId
  ids : ∃ id, s'.id = Function.update s.id entry id
  mem : ∀ p, p ∈ L' ↔ p = entry ∨ p ∈ L
  root : T.parent entry = none → L = [] ∧ L' = [entry] ∧ s'.lastUsed = Function.update s.lastUsed entry created
  child : ∀ q, T.parent entry = some q → ∃ A, L' = A ++ entry :: T.path q ∧
    Touched T now s.minimumRequiredCreationTime q (Function.update s.lastUsed entry created) s'.lastUsed L
      (A ++ T.path q)

/-- An insertion that the cache accepts puts the entry in front of its parent. -/
theorem insert_ensures (h : Intact sized S.forest s L) {created : ℕ} {entry : P}
    (hnew : s.Accepts S created entry → entry ∉ L)
    (hparent : s.Accepts S created entry → ∀ q, S.forest.parent entry = some q → q ∈ L)
    (hplace : s.Accepts S created entry → ∀ q, S.forest.parent entry = some q →
      now ≤ s.minimumRequiredCreationTime → S.forest.path q <:+ L) {size : ℕ}
    (hsize : sized → s.Accepts S created entry → s.totalSize + size < sizeMax) (handlers : Handlers) (mode : CacheMode)
    (ctx : ℕ) :
    Ensures (Tolerated sized) (s.insert S now handlers created mode ctx size entry) fun r =>
      r.2 = s ∨ s.Accepts S created entry ∧ ∃ s₂ L₂ L', Inserted sized S.forest now created entry s s₂ L L₂ ∧
        Reduced sized S.forest s₂ r.2 L₂ L' := by
  unfold Cache.insert
  refine .ite (fun haccepts => ?_) fun _ => .pure (.inl rfl)
  have hnew := hnew haccepts
  have hparent := hparent haccepts
  refine (prepareInsert_ensures (h.setCreated created) hparent (hplace haccepts)).bind fun s₁ hs₁ => ?_
  obtain ⟨s₀, A, L₁, hprep, hid, hobj, hpin, hpinid, htotal, hmem, hages⟩ := hs₁
  have hnew₁ : entry ∉ L₁ := fun hmem' => hnew ((hmem entry).mp hmem')
  have hsize₁ : sized → s₀.totalSize + size < sizeMax := fun hs => by
    rw [htotal]
    exact hsize hs haccepts
  refine (link_ensures hprep hnew₁ hsize₁ mode ctx).bind fun r hr => ?_
  obtain ⟨id, s₂⟩ := r
  obtain ⟨hintact, hids, hlast, hmin, hflags, hpinned⟩ := hr
  obtain ⟨-, hid₁, -, hpin₁, hlast₁, -, -, hpinid₁, -, -⟩ := hprep.same
  dsimp only at hintact hids hlast hmin hflags hpinned
  have hinserted : Inserted sized S.forest now created entry s s₂ L (A ++ S.forest.path entry) := by
    refine ⟨hintact, ?_, hflags.trans (hpin₁.trans hpin), hpinned.trans (hpinid₁.trans hpinid),
      ⟨id, hids.trans (by rw [hid₁, hid])⟩, fun p => ?_, fun hroot => ?_, fun q hq => ?_⟩
    · rw [hmin, hlast₁]
      cases hpar : S.forest.parent entry with
      | none =>
        rw [hpar] at hages
        rw [hages.2]
        exact Function.update_self ..
      | some q =>
        rw [hpar] at hages
        obtain ⟨-, hages, -⟩ | ⟨-, hages, -⟩ := hages
        · rw [hages]
          exact Function.update_self ..
        · rw [hages]
          have : entry ∉ S.forest.path q := Forest.not_mem_path_parent hpar
          simp [this]
    · rw [hprep.perm.mem_iff, List.mem_cons, hmem]
    · obtain ⟨rfl, rfl, -⟩ := hprep.root hroot
      rw [hroot] at hages
      exact ⟨hages.1, by rw [Forest.path_of_root hroot]; rfl, hlast.trans (hlast₁.trans hages.2)⟩
    · obtain ⟨rfl, -⟩ := hprep.child q hq
      rw [hq] at hages
      refine ⟨A, by rw [Forest.path_of_parent hq], ?_⟩
      rw [hlast, hlast₁]
      exact hages
  refine (gcIf_ensures hintact _).bind fun s₃ hs₃ => ?_
  obtain ⟨L₃, hred₃⟩ := hs₃
  refine (gcIf_ensures hred₃.intact _).bind fun s₄ hs₄ => ?_
  obtain ⟨L₄, hred₄⟩ := hs₄
  exact .pure (.inr ⟨haccepts, s₂, _, L₄, hinserted, hred₃.trans hred₄⟩)

/-- An object gets another ID, and the pinned ID with it if it is that of the object. -/
theorem PinnedPath.rename (h : PinnedPath T s L) {entry : P} {id : ListId}
    (hids : ∀ x ∈ L, s.id x = s.id entry → x = entry) (hothers : ∀ x ∈ L, x ≠ entry → s.id x ≠ id)
    (hvalid : (s.id entry).isValid = true) (hvalid' : id.isValid = true) (hid : s'.id = Function.update s.id entry id)
    (hflag : s'.isPinned = s.isPinned)
    (hpinned : s'.pinnedObjectId = if s.id entry = s.pinnedObjectId then id else s.pinnedObjectId) :
    PinnedPath T s' L := by
  have hiff : s.pinnedObjectId.isValid = true → ∀ x ∈ L, s'.id x = s'.pinnedObjectId ↔ s.id x = s.pinnedObjectId := by
    intro hpinvalid x hx
    rw [hid, hpinned]
    by_cases hxe : x = entry
    · subst hxe
      rw [Function.update_self]
      split
      · next he => exact iff_of_true rfl he
      · next he =>
        obtain ⟨y, hy, hidy⟩ := h.cached hpinvalid
        have hyx : y ≠ x := fun e => he (e ▸ hidy)
        exact iff_of_false (fun e => hothers y hy hyx (hidy.trans e.symm)) he
    · rw [Function.update_of_ne hxe]
      split
      · next he => exact iff_of_false (hothers x hx hxe) fun e => hxe (hids x hx (e.trans he.symm))
      · exact Iff.rfl
  have hvaliff : s'.pinnedObjectId.isValid = true ↔ s.pinnedObjectId.isValid = true := by
    rw [hpinned]
    split
    · next he => exact iff_of_true hvalid' (he ▸ hvalid)
    · exact Iff.rfl
  refine ⟨fun p => ?_, fun hv => ?_⟩
  · rw [hflag, h.flag p, hvaliff]
    refine and_congr_right fun hpinvalid => exists_congr fun x => and_congr_right fun hx => ?_
    rw [hiff hpinvalid x hx]
  · obtain ⟨y, hy, hidy⟩ := h.cached (hvaliff.mp hv)
    exact ⟨y, hy, (hiff (hvaliff.mp hv) y hy).mpr hidy⟩

/-- Another ID for a cached object. -/
theorem insertAgain_ensures (h : Intact sized S.forest s L) {entry : P} (hentry : entry ∈ L)
    (hvalid : (s.id entry).isValid = true) :
    Ensures (Tolerated sized) (s.insertAgain entry) fun r => Intact sized S.forest r.2 L ∧
      r.1.isValid = true ∧ r.2.id = Function.update s.id entry r.1 ∧ r.2.lastUsed = s.lastUsed ∧
      r.2.minimumRequiredCreationTime = s.minimumRequiredCreationTime ∧ r.2.isPinned = s.isPinned ∧
      r.2.pinnedObjectId = if s.id entry = s.pinnedObjectId then r.1 else s.pinnedObjectId := by
  have hreg := h.registered
  unfold Cache.insertAgain
  dsimp only
  rw [if_neg (by simp [hreg.find_id hentry])]
  refine (nextListId_ensures (s := { s with allObjects := s.allObjects.filter (s.id · ≠ s.id entry) })
    hreg.nextId _ _).bind fun r hr => ?_
  obtain ⟨id, s₁⟩ := r
  obtain ⟨⟨next, rfl, hnext⟩, hfree⟩ := hr
  refine .check_bind (fun _ => tolerated (by decide)) fun hid => .pure ?_
  dsimp only at hid ⊢
  have hothers : ∀ p ∈ L, p ≠ entry → s.id p ≠ id := fun p hp hne => by
    refine find_eq_none.mp hid p (List.mem_filter.mpr ⟨(hreg.cached p).mpr hp, ?_⟩)
    simpa using fun e => hne (hreg.ids p hp entry hentry e)
  -- the old ID of the entry is free
  have hvalid' : id.isValid = true := by
    obtain ⟨hpos, hle⟩ := CacheIdGenerator.cookedId_mem hvalid
    refine hfree (s.id entry).cookedId hpos hle ?_
    rw [CacheIdGenerator.makeListId_cookedId, find_eq_none]
    intro p hp
    simpa using (List.mem_filter.mp hp).2
  have hids : ∀ p ∈ L, ∀ q ∈ L, Function.update s.id entry id p = Function.update s.id entry id q → p = q := by
    intro p hp q hq e
    by_cases hpe : p = entry <;> by_cases hqe : q = entry
    · rw [hpe, hqe]
    · rw [hpe, Function.update_self, Function.update_of_ne hqe] at e
      exact absurd e.symm (hothers q hq hqe)
    · rw [hqe, Function.update_self, Function.update_of_ne hpe] at e
      exact absurd e (hothers p hp hpe)
    · rw [Function.update_of_ne hpe, Function.update_of_ne hqe] at e
      exact hreg.ids p hp q hq e
  refine ⟨⟨h.aged.congr rfl rfl rfl rfl, ⟨fun p => ?_, ?_, hids, hreg.children, hreg.size, hnext⟩, ?_⟩,
    hvalid', rfl, rfl, rfl, rfl, rfl⟩
  · simp only [List.mem_cons, List.mem_filter, hreg.cached, decide_not, Bool.not_eq_true', decide_eq_false_iff_not]
    constructor
    · rintro (rfl | ⟨hp, -⟩)
      · exact hentry
      · exact hp
    · intro hp
      by_cases hpe : p = entry
      · exact .inl hpe
      · exact .inr ⟨hp, fun e => hpe (hreg.ids p hp entry hentry e)⟩
  · exact List.nodup_cons.mpr ⟨fun hmem => by simpa using (List.mem_filter.mp hmem).2, hreg.nodup.filter _⟩
  · exact h.pinned.rename (fun x hx e => hreg.ids x hx entry hentry e) hothers hvalid hvalid' rfl rfl rfl

/-! ## Sizes -/

theorem sum_update (hL : L.Nodup) (hp : p ∈ L) (f : P → ℕ) (n : ℕ) :
    (L.map f).sum - f p + n = (L.map (Function.update f p n)).sum := by
  obtain ⟨A, B, rfl⟩ := List.append_of_mem hp
  obtain ⟨-, hpB, hAB⟩ := List.nodup_append.mp hL
  have hneA : ∀ q ∈ A, q ≠ p := fun q hq => hAB q hq p List.mem_cons_self
  have hneB : ∀ q ∈ B, q ≠ p := fun q hq e => (List.nodup_cons.mp hpB).1 (e ▸ hq)
  have hA : A.map (Function.update f p n) = A.map f :=
    List.map_congr_left fun q hq => Function.update_of_ne (hneA q hq) ..
  have hB : B.map (Function.update f p n) = B.map f :=
    List.map_congr_left fun q hq => Function.update_of_ne (hneB q hq) ..
  simp only [List.map_append, List.map_cons, List.sum_append, List.sum_cons, hA, hB, Function.update_self]
  omega

/-- `set_object_size` uses the object. -/
theorem setObjectSize_ensures (h : Intact sized S.forest s L) {id : ListId} {size : ℕ}
    (hsize : sized → ∀ p, s.find id = some p → s.totalSize - s.objectSize p + size < sizeMax) :
    Ensures (Tolerated sized) (s.setObjectSize S now id size) fun r =>
      r.2 = s ∨ ∃ p s₁ L₁ L', s.find id = some p ∧ Reduced sized S.forest s₁ r.2 L₁ L' ∧
        Touched S.forest now s.minimumRequiredCreationTime p s.lastUsed s₁.lastUsed L L₁ ∧
        s₁.minimumRequiredCreationTime = s.minimumRequiredCreationTime ∧ s₁.isPinned = s.isPinned ∧ s₁.id = s.id ∧
        s₁.pinnedObjectId = s.pinnedObjectId ∧ ∀ p, p ∈ L₁ ↔ p ∈ L := by
  unfold Cache.setObjectSize lookup
  refine .bind (Q := fun r => r = s.find id) (.check_bind (fun _ => tolerated (by decide)) fun _ => .pure rfl)
    fun r hr => ?_
  subst hr
  cases hfind : s.find id with
  | none => exact .pure (.inl rfl)
  | some p =>
    have hp := h.registered.mem_of_find hfind
    dsimp only
    have hsum := fun hs => h.registered.size hs
    refine .check_bind (fun hn hs => absurd ?_ hn) fun _ => ?_
    · obtain ⟨A, B, rfl⟩ := List.append_of_mem hp
      rw [hsum hs, List.map_append, List.map_cons, List.sum_append, List.sum_cons]
      omega
    · have h₁ : Intact sized S.forest { s with
          totalSize := (s.totalSize - s.objectSize p + size) % sizeMax
          objectSize := Function.update s.objectSize p size } L := by
        refine ⟨h.aged.congr rfl rfl rfl rfl, ⟨h.registered.cached, h.registered.nodup, h.registered.ids,
          h.registered.children, fun hs => ?_, h.registered.nextId⟩, h.pinned.flag, h.pinned.cached⟩
        rw [Nat.mod_eq_of_lt (hsize hs p hfind), hsum hs]
        exact sum_update h.nodup hp s.objectSize size
      refine (useEntry_ensures h₁ hp).bind fun r hr => ?_
      obtain ⟨depth, s₁⟩ := r
      obtain ⟨L₁, hintact, htouched, -, -, hid, -, hflags, hpinned, hmin, -, -, -⟩ := hr
      refine (gcIf_ensures hintact _).bind fun s₂ hs₂ => ?_
      obtain ⟨L', hred⟩ := hs₂
      have hmem : ∀ q, q ∈ L₁ ↔ q ∈ L := by
        rcases htouched with ⟨-, -, rfl⟩ | ⟨-, -, rfl⟩
        · exact fun _ => Iff.rfl
        · exact fun q => h.aged.mem_usedList hp
      exact .pure (.inr ⟨p, s₁, L₁, L', rfl, hred, htouched, hmin, hflags, hid, hpinned, hmem⟩)

end Listbrokers.Lru
