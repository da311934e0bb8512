import Listbrokers.Lru.Calls
import Mathlib.Data.List.Infix

/-!
# Purge

`purge_entries` discards the objects of a kill list. When it reaches the pinned
object it unpins it, which runs the garbage collector, and then discards the
object, which the collector may have discarded before. `Spared` says when the
collector leaves an object of the aging list alone.
-/

namespace Listbrokers.Lru

open Framework Cache

variable {P σ : Type} [DecidableEq P] {S : Setup P σ} {T : Forest P} {s s' : Cache P σ} {L L' A B M : List P}
  {c p q x y : P} {sized : Prop} {now : ℕ}

/-! ## What the collector leaves -/

/-- The sizes with these objects in the cache alone exceed a soft limit. -/
def SoftExceeded (S : Setup P σ) (s : Cache P σ) (L : List P) : Prop :=
  S.memoryLimits.exceedsSoft (L.map s.objectSize).sum = true ∨ S.countLimits.exceedsSoft L.length = true

/-- The sizes with these objects in the cache alone exceed a hard limit. -/
def HardExceeded (S : Setup P σ) (s : Cache P σ) (L : List P) : Prop :=
  S.memoryLimits.exceedsHard (L.map s.objectSize).sum = true ∨ S.countLimits.exceedsHard L.length = true

/-- The sizes with these objects in the cache alone are low enough. -/
def LowEnough (S : Setup P σ) (s : Cache P σ) (L : List P) : Prop :=
  S.memoryLimits.isLowEnough (L.map s.objectSize).sum = true ∧ S.countLimits.isLowEnough L.length = true

/-- The collector leaves `x` alone when nothing is pinned and `M` is the aging list: it stops at `x` or before, first
for the age of the object it looks at, and then as the sizes are low enough, or as it has reached the deepest object. -/
def Spared (S : Setup P σ) (s : Cache P σ) (now : ℕ) (M : List P) (x : P) : Prop :=
  let R := M.dropWhile fun p => maximumAge S ≤ s.getAge now p
  x ∈ R ∧ (¬ SoftExceeded S s R ∨ ∃ B ∈ R.tails, x ∈ B ∧
    (LowEnough S s B ∨ (∃ y ∈ B.head?, y ∈ s.deepestPath S.forest) ∧ ¬ HardExceeded S s B))

instance (s : Cache P σ) (L : List P) : Decidable (SoftExceeded S s L) := inferInstanceAs (Decidable (_ ∨ _))

instance (s : Cache P σ) (L : List P) : Decidable (HardExceeded S s L) := inferInstanceAs (Decidable (_ ∨ _))

instance (s : Cache P σ) (L : List P) : Decidable (LowEnough S s L) := inferInstanceAs (Decidable (_ ∧ _))

instance (s : Cache P σ) (now : ℕ) (M : List P) (x : P) : Decidable (Spared S s now M x) :=
  inferInstanceAs (Decidable (_ ∧ _))

theorem softExceeded_iff (h : Intact True T s L) : s.exceedsSoft S = true ↔ SoftExceeded S s L := by
  rw [Cache.exceedsSoft, h.registered.size trivial, h.count_eq, Bool.or_eq_true]
  rfl

theorem hardExceeded_iff (h : Intact True T s L) : s.exceedsHard S = true ↔ HardExceeded S s L := by
  rw [Cache.exceedsHard, h.registered.size trivial, h.count_eq, Bool.or_eq_true]
  rfl

theorem lowEnough_iff (h : Intact True T s L) : s.isLowEnough S = true ↔ LowEnough S s L := by
  rw [Cache.isLowEnough, h.registered.size trivial, h.count_eq, Bool.and_eq_true]
  rfl

/-- The sizes of the same objects. -/
theorem Reduced.soft (h : Reduced sized T s s' L L') (M : List P) : SoftExceeded S s' M ↔ SoftExceeded S s M := by
  rw [SoftExceeded, SoftExceeded, h.same.objectSize]

/-- Where the second loop of `gc` stops does not depend on what has been discarded before. -/
theorem Reduced.stops (h : Reduced sized T s s' L L') (hy : y ∈ L') :
    LowEnough S s' M ∨ y ∈ s'.deepestPath T ∧ ¬ HardExceeded S s' M ↔
      LowEnough S s M ∨ y ∈ s.deepestPath T ∧ ¬ HardExceeded S s M := by
  rw [LowEnough, LowEnough, HardExceeded, HardExceeded, h.same.objectSize, h.deepest y hy]

/-- The second loop of `gc` stops at the latest where the sizes or the deepest object make it stop. -/
theorem relievePressure_spares {n : ℕ} (h : Intact True S.forest s B) (hflags : ∀ p ∈ B, s.isPinned p = false)
    (hn : B.length ≤ n) {K B' : List P} (hB : B = K ++ y :: B') (hx : x ∈ y :: B')
    (hstop : LowEnough S s (y :: B') ∨ y ∈ s.deepestPath S.forest ∧ ¬ HardExceeded S s (y :: B')) :
    Ensures (Tolerated True) (relievePressure S n B.head? s) fun r =>
      ∃ L', Reduced True S.forest s r.2 B L' ∧ x ∈ L' := by
  have hxB : x ∈ B := hB ▸ List.mem_append_right K hx
  induction B generalizing n s K with
  | nil => cases hxB
  | cons c B ih =>
    obtain ⟨m, rfl⟩ : ∃ m, n = m + 1 := ⟨n - 1, by simp at hn; omega⟩
    have hc := hflags c List.mem_cons_self
    have hdone : Ensures (Tolerated True) (.ok (some c, s)) fun r : Option P × Cache P σ =>
        ∃ L', Reduced True S.forest s r.2 (c :: B) L' ∧ x ∈ L' := .pure ⟨_, .refl h, hxB⟩
    rw [List.head?_cons, relievePressure]
    refine .ite (fun _ => hdone) fun hlow => ?_
    rw [if_neg (by simp [hc])]
    refine .ite (fun hgo => ?_) fun _ => hdone
    have hchildless := h.childless (A := []) (by simp) hc
    -- the collector does not stop here, hence stops later
    have hK : K ≠ [] := by
      rintro rfl
      cases hB
      rcases hstop with hstop | ⟨hdeep, hhard⟩
      · exact hlow ((lowEnough_iff h).mpr hstop)
      · rcases hgo with hgo | hgo
        · rcases h.aged.deepest with ⟨-, hnil⟩ | ⟨d, hd, hsuffix⟩
          · cases hnil
          · rw [deepestPath, hd, Option.elim_some] at hdeep
            have := hchildless.eq_of_mem_path (fun q hq => hsuffix.subset hq) hdeep
            exact hgo (this ▸ hd)
        · exact hhard ((hardExceeded_iff h).mp hgo)
    obtain ⟨k, K, rfl⟩ := List.exists_cons_of_ne_nil hK
    obtain ⟨rfl, rfl⟩ := List.cons.inj hB
    refine (discard_reduces (A := []) h hchildless hc true).bind fun r hr => ?_
    obtain ⟨next, s₁⟩ := r
    obtain ⟨rfl, hred₁⟩ := hr
    refine (ih hred₁.intact (fun p hp => ?_) (by simpa using hn) rfl ?_ (List.mem_append_right K hx)).mono
      fun r' hr' => ?_
    · rw [hred₁.same.isPinned]
      exact hflags p (List.mem_cons_of_mem c hp)
    · exact (hred₁.stops (List.mem_append_right K List.mem_cons_self)).mpr hstop
    obtain ⟨L', hred, hxL⟩ := hr'
    exact ⟨L', hred₁.trans hred, hxL⟩

/-- The collector leaves an object alone that is spared. -/
theorem collect_spares (h : Intact True S.forest s M) (hflags : ∀ p ∈ M, s.isPinned p = false)
    (hx : Spared S s now M x) :
    Ensures (Tolerated True) (s.collect S now) fun r => ∃ L', Reduced True S.forest s r.2 M L' ∧ x ∈ L' := by
  unfold Cache.collect
  rw [h.aged.oldest]
  refine ((Reduced.discards s M).collectAged_ensures (A := []) (.refl h) (by simp)
    (Nat.le_of_eq h.count_eq.symm)).bind fun r hr => ?_
  obtain ⟨candidate, s₁⟩ := r
  obtain ⟨K, B, rfl, rfl, -, hred, hK, hB⟩ := hr
  have hnone : K.filter (s.isPinned ·) = [] :=
    List.filter_eq_nil_iff.mpr fun p hp => by simp [hflags p (List.mem_append_left B hp)]
  rw [hnone, List.nil_append] at hred
  have hR : (K ++ B).dropWhile (fun p => decide (maximumAge S ≤ s.getAge now p)) = B := by
    rw [List.dropWhile_append_of_pos fun p hp => by simpa using hK p hp]
    cases B with
    | nil => rfl
    | cons b B => exact List.dropWhile_cons_of_neg (by simpa using hB b rfl)
  rw [Spared, hR] at hx
  obtain ⟨hxB, hx⟩ := hx
  rw [List.nil_append] at hred
  refine .ite (fun hsoft => ?_) fun _ => .pure ⟨B, hred, hxB⟩
  rw [softExceeded_iff hred.intact, hred.soft] at hsoft
  obtain ⟨B', ⟨K', rfl⟩, hxy, hstop⟩ : ∃ B', B' <:+ B ∧ x ∈ B' ∧
      (LowEnough S s B' ∨ (∃ y ∈ B'.head?, y ∈ s.deepestPath S.forest) ∧ ¬ HardExceeded S s B') := by
    simpa using hx.resolve_left fun hn => hn hsoft
  obtain ⟨y, B', rfl⟩ := List.exists_cons_of_ne_nil (List.ne_nil_of_mem hxy)
  replace hstop : LowEnough S s (y :: B') ∨ y ∈ s.deepestPath S.forest ∧ ¬ HardExceeded S s (y :: B') := by
    simpa using hstop
  refine (relievePressure_spares hred.intact (fun p hp => ?_) (Nat.le_of_eq hred.intact.count_eq.symm) rfl hxy
    ((hred.stops (List.mem_append_right K' List.mem_cons_self)).mpr hstop)).mono fun r hr => ?_
  · rw [hred.same.isPinned]
    exact hflags p (List.mem_append_right K hp)
  · obtain ⟨L', hred', hxL⟩ := hr
    exact ⟨L', hred.trans hred', hxL⟩

theorem gc_spares (h : Intact True S.forest s M) (hflags : ∀ p ∈ M, s.isPinned p = false) (hx : Spared S s now M x) :
    Ensures (Tolerated True) (s.gc S now) fun r => ∃ L', Reduced True S.forest s r.2 M L' ∧ x ∈ L' := by
  unfold Cache.gc
  refine .check_bind (fun _ => tolerated (by decide)) fun _ => ?_
  refine (collect_spares (h.setRunning true) hflags hx).bind fun r hr => ?_
  obtain ⟨candidate, s₁⟩ := r
  obtain ⟨L', hred, hxL⟩ := hr
  refine (nextCall_ensures candidate).bind fun wait _ => .pure ⟨L', ?_, hxL⟩
  obtain ⟨h1, h2, h3, h4, h5, h6, h7⟩ := hred.same
  exact ⟨hred.intact.setRunning false, ⟨h1, h2, h3, h4, h5, h6, h7⟩, hred.sublist, hred.keeps_pinned, hred.deepest⟩

/-- What has been spared before some discards still is. -/
theorem Spared.reduced (h : Reduced sized S.forest s s' L L') (hM : M ⊆ L') (hx : Spared S s now M x) :
    Spared S s' now M x := by
  have hage : s'.getAge now = s.getAge now := by
    funext p
    rw [Cache.getAge, Cache.getAge, h.same.lastUsed]
  rw [Spared, hage]
  refine ⟨hx.1, hx.2.imp (fun hn => by rwa [h.soft]) ?_⟩
  rintro ⟨B, hB, hxB, hstop⟩
  refine ⟨B, hB, hxB, ?_⟩
  obtain ⟨y, B, rfl⟩ := List.exists_cons_of_ne_nil (List.ne_nil_of_mem hxB)
  have hy := (List.dropWhile_sublist _).mem (((List.mem_tails _ _).mp hB).subset List.mem_cons_self)
  simpa using (h.stops (hM hy)).mpr (by simpa using hstop)

/-! ## Unpinning -/

section

omit [DecidableEq P]

/-- The objects are not pinned when no ID is. -/
theorem PinnedPath.none_pinned (h : PinnedPath T s L) (hid : s.pinnedObjectId.isValid = false) (p : P) :
    s.isPinned p = false := by
  by_contra hp
  have := ((h.flag p).mp (by simpa using hp)).1
  rw [hid] at this
  cases this

end

/-- Unpinning runs the garbage collector, which leaves an object that is spared. -/
theorem pin_invalid_ensures (h : Intact sized S.forest s L) (hx : sized → Spared S s now L x) :
    Ensures (Tolerated sized) (s.pin S now .invalid) fun r => ∃ L', Intact sized S.forest r.2 L' ∧ SameAges s r.2 ∧
      L'.Sublist L ∧ r.2.pinnedObjectId = .invalid ∧ (sized → x ∈ L → x ∈ L') := by
  unfold Cache.pin
  refine .ite (fun hid => .pure ⟨L, h, .refl s, .refl L, hid, fun _ hxL => hxL⟩) fun _ => ?_
  have h' := setPinned_intact h .invalid
  have hages := setPinned_ages h .invalid
  have hinvalid : (s.setPinned S .invalid).pinnedObjectId = .invalid := by rw [setPinned_eq h]; rfl
  refine .ite (fun _ => ?_) fun _ => .pure ⟨L, h', hages, .refl L, hinvalid, fun _ hxL => hxL⟩
  by_cases hs : sized
  · obtain rfl : sized = True := eq_true hs
    have hx' : Spared S (s.setPinned S .invalid) now L x := by
      rw [setPinned_eq h]
      exact hx trivial
    refine (gc_spares h' (fun p _ => h'.pinned.none_pinned (by rw [hinvalid]; rfl) p) hx').bind fun r hr => ?_
    obtain ⟨_, s₁⟩ := r
    obtain ⟨L', hred, hxL⟩ := hr
    exact .pure ⟨L', hred.intact, hages.trans hred.same.ages, hred.sublist, hred.same.pinnedObjectId.trans hinvalid,
      fun _ _ => hxL⟩
  · refine (gc_ensures h').bind fun r hr => ?_
    obtain ⟨_, s₁⟩ := r
    obtain ⟨L', hred⟩ := hr
    exact .pure ⟨L', hred.intact, hages.trans hred.same.ages, hred.sublist, hred.same.pinnedObjectId.trans hinvalid,
      fun hs' => absurd hs' hs⟩

/-! ## Kill lists -/

/-- The part of a kill list before an ID. -/
def killedBefore (kill : List ListId) (id : ListId) : List ListId := kill.takeWhile (· ≠ id)

/-- Every object of the kill list is preceded by its cached children. -/
def ChildrenFirst (T : Forest P) (s : Cache P σ) (L : List P) (kill : List ListId) : Prop :=
  ∀ p ∈ L, s.id p ∈ kill → ∀ q ∈ L, T.parent q = some p → s.id q ∈ killedBefore kill (s.id p)

/-- The collector leaves the first pinned object of the kill list alone when that object is unpinned, which is when the
objects before it have been discarded. -/
def SparesPinned (S : Setup P σ) (s : Cache P σ) (now : ℕ) (L : List P) (kill : List ListId) : Prop :=
  ∀ p ∈ L, s.id p ∈ kill → s.isPinned p = true →
    (∀ q ∈ L, s.id q ∈ killedBefore kill (s.id p) → s.isPinned q = false) →
    Spared S s now (L.filter (s.id · ∉ killedBefore kill (s.id p))) p

theorem killedBefore_self (id : ListId) (kill : List ListId) : killedBefore (id :: kill) id = [] := by
  simp [killedBefore]

theorem killedBefore_cons {id id' : ListId} (h : id' ≠ id) (kill : List ListId) :
    killedBefore (id :: kill) id' = id :: killedBefore kill id' := by
  simp [killedBefore, Ne.symm h]

section

omit [DecidableEq P]

/-- The rest of the kill list, when the first object has been discarded. -/
theorem ChildrenFirst.tail {id : ListId} {kill : List ListId} (h : ChildrenFirst T s L (id :: kill))
    (hid : s'.id = s.id) (hL : L' ⊆ L) (hgone : ∀ p ∈ L', s.id p ≠ id) :
    ChildrenFirst T s' L' kill := fun p hp hpkill q hq hpar => by
  rw [hid] at hpkill ⊢
  have := h p (hL hp) (List.mem_cons_of_mem id hpkill) q (hL hq) hpar
  rw [killedBefore_cons (hgone p hp)] at this
  exact (List.mem_cons.mp this).resolve_left (hgone q hq)

theorem ChildrenFirst.childless {id : ListId} {kill : List ListId} (h : ChildrenFirst T s L (id :: kill)) (hp : p ∈ L)
    (hid : s.id p = id) : Childless T L p := fun q hq hpar => by
  subst hid
  have := h p hp List.mem_cons_self q hq hpar
  rw [killedBefore_self] at this
  cases this

end

theorem SparesPinned.tail {id : ListId} {kill : List ListId} (h : SparesPinned S s now L (id :: kill))
    (hred : Reduced sized S.forest s s' L L') (hL : L' = L.filter (s.id · ≠ id))
    (hid : ∀ p ∈ L, s.id p = id → s.isPinned p = false) : SparesPinned S s' now L' kill := by
  intro p hp hpkill hpinned hbefore
  rw [hred.same.id] at hpkill hbefore ⊢
  rw [hred.same.isPinned] at hpinned hbefore
  have hpL := hred.sublist.mem hp
  have hpid : s.id p ≠ id := fun e => by
    rw [hid p hpL e] at hpinned
    cases hpinned
  have hfilter : L'.filter (s.id · ∉ killedBefore kill (s.id p)) =
      L.filter (s.id · ∉ killedBefore (id :: kill) (s.id p)) := by
    rw [hL, List.filter_filter, killedBefore_cons hpid]
    refine List.filter_congr fun q _ => ?_
    simp [Bool.and_comm]
  refine Spared.reduced hred (List.filter_subset_self _) ?_
  rw [hfilter]
  refine h p hpL (List.mem_cons_of_mem id hpkill) hpinned fun q hq hqid => ?_
  rw [killedBefore_cons hpid] at hqid
  by_cases hqid' : s.id q = id
  · exact hid q hq hqid'
  · refine hbefore q ?_ ((List.mem_cons.mp hqid).resolve_left hqid')
    rw [hL]
    exact List.mem_filter.mpr ⟨hq, by simpa using hqid'⟩

/-- Discarding an object that is not cached any more fails, at the latest because it has been discarded before. -/
theorem discard_uncached_ensures (hsized : ¬ sized) (hp : s.find (s.id p) = none) (notify : Bool)
    {Q : Option P × Cache P σ → Prop} : Ensures (Tolerated sized) (s.discard S notify p) Q := by
  have htolerated : ∀ f, Tolerated sized f := fun f hs => absurd hs hsized
  unfold Cache.discard
  refine .check_bind (fun _ => htolerated _) fun _ => .check_bind (fun _ => htolerated _) fun _ => ?_
  refine .check_bind (fun _ => htolerated _) fun _ => .check_bind (fun _ => htolerated _) fun _ => ?_
  exact .check_bind (fun _ => htolerated _) fun hfind => absurd hp hfind

/-- The cache after a round of `purge_entries`: the object is gone, and either nothing else, or nothing is pinned any
more. -/
structure Purged (sized : Prop) (S : Setup P σ) (id : ListId) (s s' : Cache P σ) (L L' : List P) : Prop where
  intact : Intact sized S.forest s' L'
  ages : SameAges s s'
  sublist : L'.Sublist L
  gone : ∀ p ∈ L', s.id p ≠ id
  rest : s'.pinnedObjectId.isValid = false ∨ Reduced sized S.forest s s' L L' ∧ L' = L.filter (s.id · ≠ id) ∧
    ∀ p ∈ L, s.id p = id → s.isPinned p = false

/-- One round of `purge_entries`. -/
theorem purgeEntry_ensures (h : Intact sized S.forest s L) {id : ListId} {kill : List ListId}
    (hkill : ChildrenFirst S.forest s L (id :: kill)) (hspares : sized → SparesPinned S s now L (id :: kill))
    (notify : Bool) :
    Ensures (Tolerated sized) (s.purgeEntry S notify now id) fun s' => ∃ L', Purged sized S id s s' L L' := by
  unfold Cache.purgeEntry lookup
  refine .bind (Q := fun r => r = s.find id) (.check_bind (fun _ => tolerated (by decide)) fun _ => .pure rfl)
    fun r hr => ?_
  subst hr
  cases hfind : s.find id with
  | none =>
    have hnone : ∀ p ∈ L, s.id p ≠ id := fun p hp => find_eq_none.mp hfind p ((h.registered.cached p).mpr hp)
    refine .pure ⟨L, h, .refl s, .refl L, hnone, .inr ⟨.refl h, ?_, fun p hp hid => absurd hid (hnone p hp)⟩⟩
    exact (List.filter_eq_self.mpr fun p hp => by simpa using hnone p hp).symm
  | some p =>
    obtain ⟨hpall, hpid⟩ := mem_of_find hfind
    have hp : p ∈ L := (h.registered.cached p).mp hpall
    have hchildless := hkill.childless hp hpid
    dsimp only [unpinIfPinned]
    cases hpinned : s.isPinned p with
    | true =>
      have hspared : sized → Spared S s now L p := fun hs => by
        have := hspares hs p hp (hpid ▸ List.mem_cons_self) hpinned
        rw [hpid, killedBefore_self] at this
        simpa using this
      simp only [if_true]
      refine .bind (Q := fun s₁ => ∃ L₁, Intact sized S.forest s₁ L₁ ∧ SameAges s s₁ ∧ L₁.Sublist L ∧
        s₁.pinnedObjectId = .invalid ∧ (sized → p ∈ L → p ∈ L₁)) ?_ fun s₁ hs₁ => ?_
      · refine (pin_invalid_ensures h hspared).bind fun r hr => ?_
        exact .pure hr
      obtain ⟨L₁, h₁, hages, hsub, hinvalid, hkept⟩ := hs₁
      by_cases hp₁ : p ∈ L₁
      · obtain ⟨A, B, rfl⟩ := List.append_of_mem hp₁
        refine (discard_ensures h₁ (hchildless.subset hsub.subset) notify).bind fun r hr => ?_
        obtain ⟨next, s₂⟩ := r
        obtain ⟨heq, -, h₂⟩ := hr
        obtain ⟨rfl, rfl⟩ := Prod.mk.inj heq
        have hdel : (A ++ B).Sublist (A ++ p :: B) := List.Sublist.append_left (List.sublist_cons_self p B) A
        refine .pure ⟨A ++ B, h₂, hages.trans (sameData_without s₁ notify p).ages, hdel.trans hsub, fun q hq hqid => ?_,
          .inl ?_⟩
        · have hqp := h.registered.ids q ((hdel.trans hsub).mem hq) p hp (hqid.trans hpid.symm)
          obtain ⟨hpA, hpB, -⟩ := h₁.aged.chain.not_mem_split
          rcases List.mem_append.mp hq with hq | hq
          · exact hpA (hqp ▸ hq)
          · exact hpB (hqp ▸ hq)
        · change s₁.pinnedObjectId.isValid = false
          rw [hinvalid]
          rfl
      · have hnot : ¬ sized := fun hs => hp₁ (hkept hs hp)
        refine (discard_uncached_ensures hnot ?_ notify (Q := fun _ => False)).bind fun _ hf => hf.elim
        rw [find_eq_none, hages.id]
        intro q hq hqid
        have hq₁ := (h₁.registered.cached q).mp hq
        exact hp₁ (h.registered.ids q (hsub.mem hq₁) p hp hqid ▸ hq₁)
    | false =>
      simp only [Bool.false_eq_true, if_false]
      refine .bind (Q := fun s₁ => s₁ = s) (.pure rfl) fun s₁ hs₁ => ?_
      subst hs₁
      obtain ⟨A, B, rfl⟩ := List.append_of_mem hp
      refine (discard_reduces h hchildless hpinned notify).bind fun r hr => ?_
      obtain ⟨next, s₂⟩ := r
      obtain ⟨-, hred⟩ := hr
      have hothers : ∀ q ∈ A ++ p :: B, s₁.id q = id → q = p := fun q hq hqid =>
        h.registered.ids q hq p hp (hqid.trans hpid.symm)
      obtain ⟨hpA, hpB, -⟩ := h.aged.chain.not_mem_split
      have hne : ∀ q ∈ A ++ B, s₁.id q ≠ id := fun q hq hqid => by
        have hqp := hothers q (hred.sublist.mem hq) hqid
        rcases List.mem_append.mp hq with hq | hq
        · exact hpA (hqp ▸ hq)
        · exact hpB (hqp ▸ hq)
      refine .pure ⟨A ++ B, hred.intact, hred.same.ages, hred.sublist, hne, .inr ⟨hred, ?_, fun q hq hqid => ?_⟩⟩
      · have hself : (A ++ B).filter (s₁.id · ≠ id) = A ++ B :=
          List.filter_eq_self.mpr fun q hq => by simpa using hne q hq
        rw [List.filter_append, List.filter_cons, if_neg (by simpa using hpid), ← List.filter_append]
        exact hself.symm
      · rw [hothers q hq hqid]
        exact hpinned

section

omit [DecidableEq P]

/-- When nothing is pinned, the collector is not run. -/
theorem SparesPinned.of_none_pinned (h : PinnedPath T s L) (hid : s.pinnedObjectId.isValid = false)
    (kill : List ListId) : SparesPinned S s now L kill := fun p _ _ hpinned _ => by
  rw [h.none_pinned hid p] at hpinned
  cases hpinned

end

/-- `purge_entries` of a kill list that has the children of an object before the object. -/
theorem purgeEntries_ensures (h : Intact sized S.forest s L) {kill : List ListId}
    (hkill : ChildrenFirst S.forest s L kill) (hspares : sized → SparesPinned S s now L kill) (notify : Bool) :
    Ensures (Tolerated sized) (purgeEntries S notify now kill s) fun s' =>
      ∃ L', Intact sized S.forest s' L' ∧ SameAges s s' ∧ L'.Sublist L := by
  induction kill generalizing s L with
  | nil => exact .pure ⟨L, h, .refl s, .refl L⟩
  | cons id kill ih =>
    refine (purgeEntry_ensures h hkill hspares notify).bind fun s₁ hs₁ => ?_
    obtain ⟨L₁, hpurged⟩ := hs₁
    have hkill₁ : ChildrenFirst S.forest s₁ L₁ kill := hkill.tail hpurged.ages.id hpurged.sublist.subset hpurged.gone
    have hspares₁ : sized → SparesPinned S s₁ now L₁ kill := fun hs => by
      rcases hpurged.rest with hinvalid | ⟨hred, hL, hid⟩
      · exact .of_none_pinned hpurged.intact.pinned hinvalid kill
      · exact (hspares hs).tail hred hL hid
    refine (ih hpurged.intact hkill₁ hspares₁).mono fun s' hs' => ?_
    obtain ⟨L', hintact, hages, hsub⟩ := hs'
    exact ⟨L', hintact, hpurged.ages.trans hages, hsub.trans hpurged.sublist⟩

end Listbrokers.Lru
