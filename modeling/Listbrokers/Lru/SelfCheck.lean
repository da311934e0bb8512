import Listbrokers.Lru.Ages
import Listbrokers.Lru.FreshIds
import Listbrokers.Lru.MoveToEnd
import Mathlib.Algebra.BigOperators.Group.List.Basic

/-!
# The self check

`self_check` compares the counters, the links and the ages of the cache with each
other. In an intact cache it can only find ages: it passes if and only if the ages
do not increase along the aging list, the deepest path has one age, and no object
has the invalid ID while nothing is pinned (`self_check_iff`). There is nothing to
find as long as each insertion keeps the order of the ages and gets an ID
(`self_check_passes`), and the use of an object does what it is meant to do then
(`use_succeeds`).
-/

namespace Listbrokers.Lru

open Framework Cache

variable {P σ : Type} [DecidableEq P] {S : Setup P σ} {T : Forest P} {s s' : Cache P σ} {c c' : System P σ}
  {calls : List (ℕ × Call P)} {L : List P} {e p q : P} {sized : Prop} {now t : ℕ} {content : σ}

/-! ## Definition -/

/-- The loop over the ages of objects: the last age, if each age is in order with the one before it. -/
def compareAges (inOrder : ℕ → ℕ → Prop) [DecidableRel inOrder] : ℕ → List ℕ → Option ℕ
  | prev, [] => some prev
  | prev, age :: ages => if inOrder prev age then compareAges inOrder age ages else none

namespace Cache

variable (S) (now : ℕ) (s : Cache P σ)

/-- The objects of the aging list, as the reverse iterator of the cache visits them. -/
def reverseAgingList : List P := Links.follow s.links.prev s.count s.rootObject

/-- The number of objects with this parent. -/
def numberOfChildren (p : P) : ℕ := s.allObjects.countP fun q => S.forest.parent q = some p

/-- What is checked for each object. The ID of an object is its key by definition. -/
def checkObject (p : P) : Prop :=
  (s.isPinned p = true → ∀ e ∈ (S.forest.path p).tail, s.isPinned e = true) ∧ S.forest.parent p ≠ some p ∧
    s.numberOfChildren S p = s.childrenCount p ∧ (s.numberOfChildren S p = 0 ↔ s.isLeaf p = true)

/-- What is checked for the objects that have been counted. -/
def checkCounts : Prop :=
  (∀ o ∈ [s.rootObject, s.oldestObject, s.deepestYoungestObject],
    s.allObjects.countP (fun p => o = some p) = if o = none then 0 else 1) ∧
  (s.allObjects.map (s.numberOfChildren S)).sum + (if s.rootObject = none then 0 else 1) =
    (if s.rootObject = none then 0 else s.count) ∧
  s.allObjects.countP (fun p => s.id p = s.pinnedObjectId) = if s.pinnedObjectId.isValid then 1 else 0

/-- What is checked for the ages, in both directions. -/
def checkAges (oldest : P) : Prop :=
  ((compareAges (· ≥ ·) (s.getAge now oldest) (s.agingList.map (s.getAge now))).bind fun prev =>
    compareAges (· ≤ ·) prev (s.reverseAgingList.map (s.getAge now))).isSome = true

/-- What is checked for the ends of the aging list and its deepest path, if there are objects. -/
def checkAgingList : Prop :=
  match s.rootObject, s.oldestObject, s.deepestYoungestObject with
  | none, none, none => True
  | some root, some oldest, some deepest =>
    S.forest.parent root = none ∧ s.links.next root = none ∧ s.links.prev oldest = none ∧ s.checkAges now oldest ∧
      ∀ e ∈ (S.forest.path deepest).tail, s.getAge now e = s.getAge now deepest
  | _, _, _ => False

/-- `LRU::Cache::self_check` finds nothing. -/
def selfCheck : Prop :=
  (∀ p ∈ s.allObjects, s.checkObject S p) ∧ s.checkCounts S ∧ s.checkAgingList S now

instance (p : P) : Decidable (s.checkObject S p) := inferInstanceAs (Decidable (_ ∧ _))

instance : Decidable (s.checkCounts S) := inferInstanceAs (Decidable (_ ∧ _))

instance (oldest : P) : Decidable (s.checkAges now oldest) := inferInstanceAs (Decidable (_ = _))

instance : Decidable (s.checkAgingList S now) := by
  unfold checkAgingList
  split <;> infer_instance

instance : Decidable (s.selfCheck S now) := inferInstanceAs (Decidable (_ ∧ _))

end Cache

/-! ## Ages -/

section

variable {r : ℕ → ℕ → Prop} [DecidableRel r] {age : ℕ} {ages : List ℕ}

/-- The loop ends with the last age. -/
theorem getLast?_of_compareAges {last : ℕ} (h : compareAges r age ages = some last) :
    (age :: ages).getLast? = some last := by
  induction ages generalizing age with
  | nil =>
    cases h
    rfl
  | cons next ages ih =>
    rw [compareAges] at h
    split at h
    · rw [List.getLast?_cons_cons]
      exact ih h
    · cases h

/-- Comparing neighbours is enough. -/
theorem compareAges_isSome (htrans : ∀ a b c, r a b → r b c → r a c) :
    (compareAges r age ages).isSome = true ↔ (age :: ages).Pairwise r := by
  induction ages generalizing age with
  | nil => simp [compareAges]
  | cons next ages ih =>
    rw [compareAges]
    by_cases hage : r age next
    · rw [if_pos hage, ih, List.pairwise_cons (a := age)]
      refine (and_iff_right_of_imp fun h b hb => ?_).symm
      rcases List.mem_cons.mp hb with rfl | hb
      · exact hage
      · exact htrans _ _ _ hage ((List.pairwise_cons.mp h).1 b hb)
    · rw [if_neg hage]
      exact iff_of_false nofun fun h => hage ((List.pairwise_cons.mp h).1 next List.mem_cons_self)

theorem compareAges_self (h : r age age) : compareAges r age (age :: ages) = compareAges r age ages := by
  rw [compareAges, if_pos h]

end

/-- The ages are compared there and back, from the first one on. -/
theorem compareAges_twice (age : ℕ) (ages : List ℕ) :
    ((compareAges (· ≥ ·) age (age :: ages)).bind fun prev =>
      compareAges (· ≤ ·) prev (age :: ages).reverse).isSome = true ↔
      (age :: ages).Pairwise (· ≥ ·) := by
  have hforward : (compareAges (· ≥ ·) age ages).isSome = true ↔ (age :: ages).Pairwise (· ≥ ·) :=
    compareAges_isSome fun a b c hab hbc => Nat.le_trans hbc hab
  rw [compareAges_self (r := (· ≥ ·)) (Nat.le_refl age), ← hforward]
  cases hages : compareAges (· ≥ ·) age ages with
  | none => simp
  | some last =>
    rw [hages] at hforward
    obtain ⟨rest, hrest⟩ := List.getLast?_eq_some_iff.mp (getLast?_of_compareAges hages)
    rw [hrest] at hforward ⊢
    rw [Option.bind_some, List.reverse_append, List.reverse_singleton, List.singleton_append,
      compareAges_self (r := (· ≤ ·)) (Nat.le_refl last), compareAges_isSome (r := (· ≤ ·)) fun _ _ _ => Nat.le_trans]
    refine iff_of_true ?_ rfl
    have hback := List.pairwise_reverse.mpr (hforward.mp rfl)
    rwa [List.reverse_append] at hback

section

omit [DecidableEq P]

/-- The two loops over the aging list. -/
theorem Aged.checkAges_iff (h : Aged T s (p :: L)) (hcount : s.count = (p :: L).length) :
    s.checkAges t p ↔ (p :: L).Pairwise fun p q => s.getAge t q ≤ s.getAge t p := by
  have hreverse : s.reverseAgingList = (p :: L).reverse := by
    rw [Cache.reverseAgingList, h.root]
    exact Links.follow_eq h.chain.follows_prev (by rw [List.length_reverse, hcount])
  rw [Cache.checkAges, h.agingList_eq (Nat.le_of_eq hcount.symm), hreverse, List.map_reverse, List.map_cons,
    compareAges_twice, ← List.map_cons, List.pairwise_map]

end

/-! ## Counters -/

/-- An object is the child of one object of the list at most. -/
theorem sum_indicator (hL : L.Nodup) (o : Option P) :
    (L.map fun p => if o = some p then 1 else 0).sum = if ∃ p ∈ L, o = some p then 1 else 0 := by
  induction L with
  | nil => simp
  | cons p L ih =>
    obtain ⟨hp, hL⟩ := List.nodup_cons.mp hL
    rw [List.map_cons, List.sum_cons, ih hL]
    by_cases ho : o = some p
    · have hother : ¬ ∃ q ∈ L, o = some q := by
        rintro ⟨q, hq, hoq⟩
        exact hp (Option.some.inj (ho.symm.trans hoq) ▸ hq)
      rw [if_pos ho, if_neg hother, if_pos ⟨p, List.mem_cons_self, ho⟩]
    · simp [ho]

/-- Objects, counted by their parents. -/
theorem sum_countP_parent (hL : L.Nodup) (M : List P) :
    (L.map fun p => M.countP fun q => T.parent q = some p).sum = M.countP fun q => ∃ p ∈ L, T.parent q = some p := by
  induction M with
  | nil => simp
  | cons q M ih =>
    simp only [List.countP_cons, List.sum_map_add, ih, decide_eq_true_eq, sum_indicator hL]

/-- All objects but the root are children. -/
theorem Aged.countP_parent (h : Aged T s L) (hL : L ≠ []) :
    (L.countP fun q => ∃ p ∈ L, T.parent q = some p) + 1 = L.length := by
  obtain ⟨K, r, rfl⟩ : ∃ K r, L = K ++ [r] := ⟨_, _, (List.dropLast_append_getLast hL).symm⟩
  have hroot := h.root_parent (List.getLast?_concat ..)
  have hall : ∀ q ∈ K, ∃ p ∈ K ++ [r], T.parent q = some p := fun q hq => by
    cases hpar : T.parent q with
    | none =>
      have := h.rooted q (List.mem_append_left _ hq) hpar
      rw [List.getLast?_concat] at this
      obtain rfl := Option.some.inj this
      exact absurd hq (List.nodup_append.mp h.nodup |>.2.2 |> fun hd hq => hd _ hq _ List.mem_cons_self rfl)
    | some p => exact ⟨p, h.closed q (List.mem_append_left _ hq) p hpar, rfl⟩
  rw [List.countP_append, List.countP_eq_length.mpr fun q hq => by simpa using hall q hq]
  simp [hroot]

/-- An object of the cache is counted once. -/
theorem Registered.countP_eq (h : Registered sized T s L) {o : Option P} (ho : ∀ p ∈ o, p ∈ L) :
    s.allObjects.countP (fun p => o = some p) = if o = none then 0 else 1 := by
  cases o with
  | none => simp
  | some p =>
    have hcount := h.nodup.count (a := p)
    rw [if_pos ((h.cached p).mpr (ho p rfl))] at hcount
    rw [if_neg nofun, ← hcount, List.count]
    refine List.countP_congr fun q _ => ?_
    rw [decide_eq_true_iff, Option.some.injEq, beq_iff_eq]
    exact eq_comm

theorem Registered.perm_allObjects (h : Registered sized T s L) (hL : L.Nodup) : s.allObjects.Perm L :=
  (List.perm_ext_iff_of_nodup h.nodup hL).mpr h.cached

namespace Intact

variable (h : Intact sized S.forest s L)

include h

theorem numberOfChildren_eq (p : P) : s.numberOfChildren S p = s.childrenCount p := by
  rw [h.registered.children p, Cache.numberOfChildren]
  exact (h.registered.perm_allObjects h.nodup).countP_eq _

/-- There is nothing wrong with an object of an intact cache. -/
theorem checkObject (p : P) : s.checkObject S p := by
  refine ⟨fun hp e he => ?_, fun hpar => Nat.lt_irrefl _ (S.forest.rank_lt hpar), h.numberOfChildren_eq p, ?_⟩
  · obtain ⟨hvalid, x, hx, hid, hpath⟩ := (h.pinned.flag p).mp hp
    exact (h.pinned.flag e).mpr ⟨hvalid, x, hx, hid, Forest.mem_path_trans hpath (List.mem_of_mem_tail he)⟩
  · rw [h.numberOfChildren_eq p, Cache.isLeaf, decide_eq_true_iff]

/-- Nor is there with the numbers of objects, but an object may have the invalid ID. -/
theorem checkCounts_iff :
    s.checkCounts S ↔ (s.pinnedObjectId.isValid = false → ∀ p ∈ L, s.id p ≠ s.pinnedObjectId) := by
  have hends : ∀ o ∈ [s.rootObject, s.oldestObject, s.deepestYoungestObject], ∀ p ∈ o, p ∈ L := by
    intro o ho p hp
    simp only [List.mem_cons, List.not_mem_nil, or_false] at ho
    rcases ho with rfl | rfl | rfl
    · exact List.mem_of_getLast? (h.aged.root.symm.trans hp)
    · exact List.mem_of_head? (h.aged.oldest.symm.trans hp)
    · rcases h.aged.deepest with ⟨hnone, -⟩ | ⟨d, hd, hsuffix⟩
      · rw [hnone] at hp
        cases hp
      · rw [hd] at hp
        cases hp
        exact hsuffix.subset Forest.mem_path_self
  have hperm := h.registered.perm_allObjects h.nodup
  have hsum : (s.allObjects.map (s.numberOfChildren S)).sum + (if s.rootObject = none then 0 else 1) =
      (if s.rootObject = none then 0 else s.count) := by
    rw [h.aged.root]
    by_cases hL : L = []
    · subst hL
      rw [hperm.eq_nil]
      rfl
    · rw [if_neg (List.getLast?_eq_none_iff.not.mpr hL), if_neg (List.getLast?_eq_none_iff.not.mpr hL), h.count_eq,
        ← h.aged.countP_parent hL]
      refine congrArg (· + 1) ((sum_countP_parent h.registered.nodup _).trans ?_)
      rw [hperm.countP_eq]
      simp only [h.registered.cached]
  refine ⟨fun hcounts hinvalid p hp hid => ?_, fun hids => ⟨fun o ho => h.registered.countP_eq (hends o ho), hsum, ?_⟩⟩
  · have hnone := hcounts.2.2
    rw [if_neg (by rw [hinvalid]; exact Bool.false_ne_true), List.countP_eq_zero] at hnone
    exact hnone p ((h.registered.cached p).mpr hp) (decide_eq_true hid)
  · by_cases hvalid : s.pinnedObjectId.isValid = true
    · obtain ⟨x, hx, hid⟩ := h.pinned.cached hvalid
      have hcount := h.registered.countP_eq (o := some x) fun p hp => Option.some.inj hp ▸ hx
      rw [if_neg nofun] at hcount
      rw [if_pos hvalid, ← hcount]
      refine List.countP_congr fun p hp => ?_
      rw [decide_eq_true_iff, decide_eq_true_iff, Option.some.injEq]
      exact ⟨fun hidp => h.registered.ids x hx p ((h.registered.cached p).mp hp) (hid.trans hidp.symm),
        fun e => e ▸ hid⟩
    · rw [if_neg hvalid, List.countP_eq_zero]
      intro p hp hid
      exact hids (by simpa using hvalid) p ((h.registered.cached p).mp hp) (of_decide_eq_true hid)

/-- The check of the aging list is about ages. -/
theorem checkAgingList_iff : s.checkAgingList S t ↔ L.Pairwise (fun p q => s.getAge t q ≤ s.getAge t p) ∧
    ∀ d ∈ s.deepestYoungestObject, ∀ p ∈ S.forest.path d, s.getAge t p = s.getAge t d := by
  cases L with
  | nil =>
    have hdeepest : s.deepestYoungestObject = none := by
      rcases h.aged.deepest with ⟨hnone, -⟩ | ⟨d, -, hsuffix⟩
      · exact hnone
      · exact absurd (List.suffix_nil.mp hsuffix) Forest.path_ne_nil
    rw [Cache.checkAgingList, show s.rootObject = none from h.aged.root,
      show s.oldestObject = none from h.aged.oldest, hdeepest]
    simp
  | cons o L =>
    obtain ⟨r, hr⟩ : ∃ r, (o :: L).getLast? = some r := ⟨_, List.getLast?_eq_getLast_of_ne_nil (List.cons_ne_nil o L)⟩
    obtain ⟨d, hd, -⟩ := h.aged.deepest.resolve_left fun hn => List.cons_ne_nil o L hn.2
    have hrnext : s.links.next r = none := by
      obtain ⟨K, hK⟩ := List.getLast?_eq_some_iff.mp hr
      exact (Links.Chain.links_at (A := K) (B := []) (hK ▸ h.aged.chain)).2
    have hoprev : s.links.prev o = none := (Links.Chain.links_at (A := []) h.aged.chain).1
    rw [Cache.checkAgingList, show s.rootObject = some r from h.aged.root.trans hr,
      show s.oldestObject = some o from h.aged.oldest, hd]
    dsimp only
    rw [h.aged.checkAges_iff h.count_eq]
    constructor
    · rintro ⟨-, -, -, hages, hpath⟩
      refine ⟨hages, fun d' hd' p hp => ?_⟩
      cases hd'
      obtain ⟨D, hD⟩ := S.forest.exists_path_eq d
      rw [hD] at hp hpath
      rcases List.mem_cons.mp hp with rfl | hp
      · rfl
      · exact hpath p hp
    · rintro ⟨hages, hpath⟩
      exact ⟨h.aged.root_parent hr, hrnext, hoprev, hages, fun e he => hpath d rfl e (List.mem_of_mem_tail he)⟩

/-- What `self_check` checks in an intact cache. -/
theorem selfCheck_iff : s.selfCheck S t ↔ L.Pairwise (fun p q => s.getAge t q ≤ s.getAge t p) ∧
    (∀ d ∈ s.deepestYoungestObject, ∀ p ∈ S.forest.path d, s.getAge t p = s.getAge t d) ∧
    (s.pinnedObjectId.isValid = false → ∀ p ∈ L, s.id p ≠ s.pinnedObjectId) := by
  rw [Cache.selfCheck, h.checkCounts_iff, h.checkAgingList_iff]
  constructor
  · rintro ⟨-, hids, hages, hpath⟩
    exact ⟨hages, hpath, hids⟩
  · rintro ⟨hages, hpath, hids⟩
    exact ⟨fun p _ => h.checkObject p, hids, hages, hpath⟩

end Intact

/-! ## The age of the deepest path -/

/-- The objects on the deepest path have been used at one time. -/
def DeepestAge (T : Forest P) (s : Cache P σ) : Prop :=
  ∀ d ∈ s.deepestYoungestObject, ∀ p ∈ T.path d, s.lastUsed p = s.lastUsed d

section

omit [DecidableEq P]

theorem DeepestAge.congr (h : DeepestAge T s) (hdeepest : s'.deepestYoungestObject = s.deepestYoungestObject)
    (hages : s'.lastUsed = s.lastUsed) : DeepestAge T s' := by
  unfold DeepestAge
  rw [hdeepest, hages]
  exact h

end

/-- When the deepest object is discarded, its parent takes its place. -/
theorem deepestAge_discarding : Discarding S fun s s' : Cache P σ =>
    DeepestAge S.forest s → DeepestAge S.forest s' where
  refl _ := id
  trans h h' := h' ∘ h
  running _ _ := id
  discard s notify c := by
    unfold Cache.discard
    refine .check_bind (fun _ => trivial) fun _ => .check_bind (fun _ => trivial) fun _ => ?_
    refine .check_bind (fun _ => trivial) fun _ => .check_bind (fun _ => trivial) fun _ => ?_
    refine .check_bind (fun _ => trivial) fun _ => .pure fun h d hd p hp => ?_
    simp only [Cache.without, Option.mem_def] at hd ⊢
    split at hd
    · next hc =>
      have hpath := fun p hp => h c hc p (Forest.path_of_parent hd ▸ List.mem_cons_of_mem c hp)
      rw [hpath p hp, hpath d Forest.mem_path_self]
    · exact h d hd p hp

/-- `use` does nothing, or the entry is the deepest object, the path of which is used. -/
theorem useEntry_deepest (e : P) (s : Cache P σ) : Ensures AnyFault (s.useEntry S now e) fun r =>
    now ≤ s.minimumRequiredCreationTime ∧ r.2 = s ∨ r.2.deepestYoungestObject = some e ∧
      (∀ p ∈ S.forest.path e, r.2.lastUsed p = now) ∧ ∀ p, p ∉ S.forest.path e → r.2.lastUsed p = s.lastUsed p := by
  unfold useEntry
  refine (lookup_ensures _ s).bind fun r _ => .check_bind (fun _ => trivial) fun _ => ?_
  refine .check_bind (fun _ => trivial) fun _ => .ite (fun hle => .pure (.inl ⟨hle, rfl⟩)) fun _ => ?_
  refine (ensures_anyFault _).bind fun r _ => ?_
  obtain ⟨depth, cursors⟩ := r
  refine (ensures_anyFault _).bind fun _ _ => (ensures_anyFault _).bind fun _ _ => ?_
  exact .check_bind (fun _ => trivial) fun _ => .pure (.inr ⟨rfl, fun p hp => if_pos hp, fun p hp => if_neg hp⟩)

theorem useEntry_deepestAge (e : P) (s : Cache P σ) :
    Ensures AnyFault (s.useEntry S now e) fun r => DeepestAge S.forest s → DeepestAge S.forest r.2 := by
  refine (useEntry_deepest e s).mono fun r hr h => ?_
  rcases hr with ⟨-, hr⟩ | ⟨hdeepest, hages, -⟩
  · exact hr ▸ h
  · intro d hd p hp
    rw [hdeepest] at hd
    cases hd
    rw [hages p hp, hages e Forest.mem_path_self]

/-- A new entry becomes the deepest object if it is as old as its parent, which has been used. -/
theorem prepareInsert_deepestAge {created : ℕ} {entry : P} (hparent : ∀ q ∈ S.forest.parent entry,
      now ≤ s.minimumRequiredCreationTime → ∀ p ∈ S.forest.path q, s.lastUsed p = s.lastUsed q) :
    Ensures AnyFault (prepareInsert S { s with lastUsed := Function.update s.lastUsed entry created } now created entry)
      (DeepestAge S.forest) := by
  unfold prepareInsert
  cases hpar : S.forest.parent entry with
  | none =>
    refine .check_bind (fun _ => trivial) fun _ => .pure fun d hd p hp => ?_
    cases hd
    rw [Forest.path_of_root hpar, List.mem_singleton] at hp
    rw [hp]
  | some q =>
    have hentry : entry ∉ S.forest.path q := Forest.not_mem_path_parent hpar
    have hother : ∀ p ∈ S.forest.path q, p ≠ entry := fun p hp e => hentry (e ▸ hp)
    refine (useEntry_deepest q _).bind fun r hr => ?_
    obtain ⟨depth, s₁⟩ := r
    -- the entry has its own age, and its ancestors have one age
    obtain ⟨hcreated, hages⟩ : s₁.lastUsed entry = created ∧ ∀ p ∈ S.forest.path q, s₁.lastUsed p = s₁.lastUsed q := by
      rcases hr with ⟨hnow, rfl⟩ | ⟨-, hused, hunused⟩
      · refine ⟨Function.update_self .., fun p hp => ?_⟩
        dsimp only
        rw [Function.update_of_ne (hother p hp), Function.update_of_ne (hother q Forest.mem_path_self)]
        exact hparent q hpar hnow p hp
      · exact ⟨(hunused entry hentry).trans (Function.update_self ..), fun p hp =>
          (hused p hp).trans (hused q Forest.mem_path_self).symm⟩
    dsimp only
    generalize hs₂ : (if depth < 0 then { s₁ with deepestYoungestObject := some q } else s₁) = s₂
    have hlast : s₂.lastUsed = s₁.lastUsed := by
      rw [← hs₂]
      split <;> rfl
    refine .check_bind (fun _ => trivial) fun hdeepest => .pure ?_
    split
    · next hage =>
      intro d hd p hp
      cases hd
      rw [Forest.path_of_parent hpar, List.mem_cons] at hp
      rcases hp with rfl | hp
      · rfl
      · dsimp only at hage ⊢
        rw [hlast] at hage ⊢
        rw [hages p hp, hcreated, hage]
    · intro d hd p hp
      obtain rfl := Option.some.inj (hdeepest.symm.trans hd)
      dsimp only
      rw [hlast]
      exact hages p hp

theorem link_deepest {mode : CacheMode} {ctx size : ℕ} {entry : P} (s : Cache P σ) :
    Ensures AnyFault (s.link S mode ctx size entry) fun r => DeepestAge S.forest s → DeepestAge S.forest r.2 := by
  unfold link
  refine (nextListId_effect mode ctx s).bind fun r hr => ?_
  obtain ⟨i, s₁⟩ := r
  obtain ⟨⟨next, rfl⟩, -, -⟩ := hr
  refine .check_bind (fun _ => trivial) fun _ => (ensures_anyFault _).bind fun r _ => ?_
  obtain ⟨isOldest, links⟩ := r
  exact .check_bind (fun _ => trivial) fun _ => .pure fun h => h.congr rfl rfl

theorem pin_deepestAge (i : ListId) (s : Cache P σ) :
    Ensures AnyFault (s.pin S now i) fun r => DeepestAge S.forest s → DeepestAge S.forest r.2 := by
  obtain ⟨flags, j, hset⟩ := setPinned_flags (S := S) i s
  unfold Cache.pin
  refine .ite (fun _ => .pure id) fun _ => ?_
  rw [hset]
  refine .ite (fun _ => (deepestAge_discarding.gc _).bind fun r hr => ?_) fun _ => .pure fun h => h.congr rfl rfl
  exact .pure fun h => hr (h.congr rfl rfl)

theorem purgeEntries_deepestAge (notify : Bool) (kill : List ListId) (s : Cache P σ) :
    Ensures AnyFault (purgeEntries S notify now kill s) fun s' => DeepestAge S.forest s → DeepestAge S.forest s' := by
  induction kill generalizing s with
  | nil => exact .pure id
  | cons i kill ih =>
    refine .bind (Q := fun s' => DeepestAge S.forest s → DeepestAge S.forest s') ?_ fun s₁ hs₁ =>
      (ih s₁).mono fun s' hs' => hs' ∘ hs₁
    unfold purgeEntry unpinIfPinned
    refine (ensures_anyFault _).bind fun r _ => ?_
    cases r with
    | none => exact .pure id
    | some p =>
      refine .bind (Q := fun s' => DeepestAge S.forest s → DeepestAge S.forest s') ?_ fun s₁ hs₁ => ?_
      · exact .ite (fun _ => (pin_deepestAge _ s).bind fun r hr => .pure hr) fun _ => .pure id
      · exact (deepestAge_discarding.discard s₁ notify p).bind fun r hr => .pure (hr ∘ hs₁)

/-- All calls but an insertion at the time of the last one keep the age of the deepest path. -/
theorem Call.run_deepestAge {call : Call P} (h : DeepestAge S.forest s)
    (hinsert : ∀ handlers created mode ctx size entry, call = .insert handlers created mode ctx size entry →
      s.Accepts S created entry → ∀ q ∈ S.forest.parent entry, now ≤ s.minimumRequiredCreationTime →
        ∀ p ∈ S.forest.path q, s.lastUsed p = s.lastUsed q) :
    Ensures AnyFault (call.run S now s) (DeepestAge S.forest) := by
  cases call with
  | insert handlers created mode ctx size entry =>
    refine .map (Q := fun r : ListId × Cache P σ => DeepestAge S.forest r.2) ?_ fun r hr => hr
    unfold Cache.insert
    refine .ite (fun haccepts => ?_) fun _ => .pure h
    refine (prepareInsert_deepestAge (hinsert _ _ _ _ _ _ rfl haccepts)).bind fun s₁ hs₁ => ?_
    refine (link_deepest s₁).bind fun r hr => ?_
    obtain ⟨i, s₂⟩ := r
    refine (deepestAge_discarding.gcIf _ s₂).bind fun s₃ hs₃ => (deepestAge_discarding.gcIf _ s₃).bind fun s₄ hs₄ => ?_
    exact .pure (hs₄ (hs₃ (hr hs₁)))
  | insertAgain entry =>
    refine .map (Q := fun r : ListId × Cache P σ => DeepestAge S.forest r.2) ?_ fun r hr => hr
    unfold Cache.insertAgain
    refine .ite (fun _ => .pure h) fun _ => (nextListId_effect _ _ _).bind fun r hr => ?_
    obtain ⟨i, s₁⟩ := r
    obtain ⟨⟨next, rfl⟩, -, -⟩ := hr
    exact .check_bind (fun _ => trivial) fun _ => .pure (h.congr rfl rfl)
  | useEntry entry => exact (useEntry_deepestAge entry s).map fun r hr => hr h
  | use listId =>
    refine .map (Q := fun r : ℤ × Cache P σ => DeepestAge S.forest r.2) ?_ fun r hr => hr
    unfold Cache.use
    refine (ensures_anyFault _).bind fun r _ => ?_
    cases r with
    | none => exact .pure h
    | some e => exact (useEntry_deepestAge e s).mono fun r hr => hr h
  | setObjectSize listId size =>
    refine .map (Q := fun r : Bool × Cache P σ => DeepestAge S.forest r.2) ?_ fun r hr => hr
    unfold Cache.setObjectSize
    refine (ensures_anyFault _).bind fun r _ => ?_
    cases r with
    | none => exact .pure h
    | some p =>
      refine .check_bind (fun _ => trivial) fun _ => (useEntry_deepestAge p _).bind fun r hr => ?_
      obtain ⟨depth, s₁⟩ := r
      exact (deepestAge_discarding.gcIf _ s₁).bind fun s₂ hs₂ => .pure (hs₂ (hr (h.congr rfl rfl)))
  | pin listId => exact (pin_deepestAge listId s).map fun r hr => hr h
  | gc => exact (deepestAge_discarding.gc s).map fun r hr => hr h
  | purgeEntries notify killList => exact (purgeEntries_deepestAge notify killList s).mono fun s' hs' => hs' h

/-! ## Runs -/

/-- In any run in which insertions find their places, the self check passes if and only if the ages do not increase
along the aging list, the deepest path has one age, and no object has the invalid ID while nothing is pinned. -/
theorem self_check_iff (h : Run (When (Step S) (FindsPlace S)) (.start now content) calls c) (t : ℕ) :
    c.cache.selfCheck S t ↔ c.cache.agingList.Pairwise (fun p q => c.cache.getAge t q ≤ c.cache.getAge t p) ∧
      (∀ d ∈ c.cache.deepestYoungestObject, ∀ p ∈ S.forest.path d, c.cache.getAge t p = c.cache.getAge t d) ∧
      (c.cache.pinnedObjectId.isValid = false → ∀ p ∈ c.cache.allObjects, c.cache.id p ≠ c.cache.pinnedObjectId) := by
  obtain ⟨L, hintact⟩ := run_intact False (fun _ _ hok => hok) (fun hf => hf.elim) (fun hf => hf.elim) h
  rw [hintact.selfCheck_iff, hintact.agingList_eq]
  simp only [hintact.registered.cached]

/-- Object 3 is older than object 1, but comes after it. -/
theorem self_check_iff_older : ∃ c : System ℕ Unit, c.cache.agingList = [1, 3, 2, 0] ∧
    ¬ c.cache.selfCheck exampleSetup 6000000 := by
  obtain ⟨c, hrun, hc⟩ := exec_any (FindsPlace exampleSetup) createdEarlierCalls
    (Q := fun c => c.cache.agingList = [1, 3, 2, 0] ∧ c.cache.getAge 6000000 1 = 2 ∧ c.cache.getAge 6000000 3 = 3)
    (by decide +kernel)
  obtain ⟨hlist, h1, h3⟩ := of_decide_eq_true hc
  refine ⟨c, hlist, fun h => ?_⟩
  obtain ⟨hages, -⟩ := (self_check_iff hrun 6000000).mp h
  rw [hlist] at hages
  have := (List.pairwise_cons.mp hages).1 3 (by decide)
  omega

/-- The age of the deepest path after a call. -/
theorem deepestAge_step {l : ℕ × Call P} (h : DeepestAge S.forest c.cache) (hintact : Intact sized S.forest c.cache L)
    (hsorted : Sorted l.1 c.cache L) (hok : KeepsOrder S c l) (hrun : l.2.run S l.1 c.cache = .ok s') :
    DeepestAge S.forest s' := by
  refine (Call.run_deepestAge h fun handlers created mode ctx size entry hcall haccepts q hq hnow p hp => ?_).ok hrun
  obtain ⟨hplaced, horder⟩ := hok
  unfold FindsPlace at hplaced
  rw [hcall] at hplaced horder
  have horder := horder haccepts q hq
  rw [if_neg (Nat.not_lt.mpr hnow)] at horder
  -- the path of the parent is at the end of the aging list, and the parent has been used at this time
  obtain ⟨K, hK⟩ := hplaced haccepts q hq hnow
  rw [hintact.agingList_eq] at hK
  have hmem : ∀ p ∈ S.forest.path q, p ∈ L := fun p hp => hK ▸ List.mem_append_right K hp
  have hq : l.1 ≤ c.cache.lastUsed q := hnow.trans (haccepts.2.1.trans horder)
  have hp' : c.cache.lastUsed q ≤ c.cache.lastUsed p := by
    obtain ⟨Q, hQ⟩ := S.forest.exists_path_eq q
    have hpair := (List.pairwise_append.mp (hK ▸ hsorted.ordered)).2.1
    rw [hQ] at hp hpair
    rcases List.mem_cons.mp hp with rfl | hp
    · exact Nat.le_refl _
    · exact (List.pairwise_cons.mp hpair).1 p hp
  have := hsorted.past p (hmem p hp)
  omega

/-- What holds in all runs in which insertions keep the order of the ages. -/
theorem run_sorted (h : Run (When (Step S) (KeepsOrder S)) (.start now content) calls c) :
    ∃ L, Intact False S.forest c.cache L ∧ Sorted c.now c.cache L ∧ DeepestAge S.forest c.cache := by
  refine h.invariant (P := fun c => ∃ L, Intact False S.forest c.cache L ∧ Sorted c.now c.cache L ∧
    DeepestAge S.forest c.cache)
    (fun c l c' hc hstep => ?_) ⟨[], init_intact False S.forest now content, ⟨.nil, by simp⟩, nofun⟩
  obtain ⟨L, hintact, hsorted, hdeepest⟩ := hc
  obtain ⟨hok, hnow, hlive, hrun, hclock⟩ := hstep
  have hsorted := hsorted.later hnow
  obtain ⟨L', hpreserved⟩ := (Call.run_ensures hintact hlive hok.1 (fun hf => hf.elim) fun hf => hf.elim).ok hrun
  exact ⟨L', hpreserved.intact, hclock ▸ hsorted.step hintact hok hlive hpreserved.aging,
    deepestAge_step hdeepest hintact hsorted hok hrun⟩

/-- All objects of the cache have valid IDs. -/
def ValidIds (s : Cache P σ) : Prop := ∀ p ∈ s.allObjects, (s.id p).isValid = true

/-- An entry that is inserted gets a valid ID. -/
def GetsId (S : Setup P σ) (c : System P σ) (l : ℕ × Call P) : Prop :=
  match l.2 with
  | .insert _ created mode ctx _ entry => c.cache.Accepts S created entry → HasFreeId c.cache mode ctx
  | _ => True

section

omit [DecidableEq P]

theorem Keeps.validIds {ages : P → ℕ} (h : Keeps ages s s') (hs : ValidIds s) : ValidIds s' := fun p hp => by
  rw [h.id]
  exact hs p (h.subset p hp)

end

theorem validIds_step {l : ℕ × Call P} (h : ValidIds c.cache) (hids : NextIds c.cache) (hlive : l.2.Live S l.1 c.cache)
    (hok : GetsId S c l) (hrun : l.2.run S l.1 c.cache = .ok s') : ValidIds s' := by
  obtain ⟨now, call⟩ := l
  have hnew : ∀ entry i, i.isValid = true → ∀ p, (p = entry ∨ p ∈ c.cache.allObjects) →
      (Function.update c.cache.id entry i p).isValid = true := by
    intro entry i hi p hp
    by_cases e : p = entry
    · rw [e, Function.update_self]
      exact hi
    · rw [Function.update_of_ne e]
      exact h p (hp.resolve_left e)
  rcases (Call.run_effect call c.cache).ok hrun with hkeeps | ⟨e, -, -, hkeeps⟩ | ⟨rfl, hrenaming, hvalid⟩ | ⟨rfl, -⟩
  · exact hkeeps.validIds h
  · exact hkeeps.validIds h
  · intro p hp
    rw [hrenaming.id]
    rw [hrenaming.allObjects, List.mem_cons] at hp
    exact hnew _ _ (hvalid hids hlive.1) p (hp.imp_right fun hp => (List.mem_filter.mp hp).1)
  · rename_i handlers created ctx size mode entry i
    have hinsert : Ensures AnyFault ((Call.insert handlers created mode ctx size entry).run S now c.cache)
        ValidIds := by
      refine (insert_effect c.cache).map fun r hr => ?_
      rcases hr with ⟨-, rfl⟩ | ⟨hplacing, -, hsearch⟩
      · exact h
      · intro p hp
        rw [hplacing.id]
        refine hnew _ _ ?_ p (hplacing.subset p hp)
        rw [hsearch]
        exact (search_isValid_iff hids mode ctx).mpr (hok hplacing.accepts)
    exact hinsert.ok hrun

/-- The self check passes in every state of a run, and at any time, if all insertions keep the order of the ages and
get an ID. -/
theorem self_check_passes
    (h : Run (When (Step S) fun c l => KeepsOrder S c l ∧ GetsId S c l) (.start now content) calls c) (t : ℕ) :
    c.cache.selfCheck S t := by
  have hvalid : NextIds c.cache ∧ ValidIds c.cache := by
    refine h.invariant (P := fun c => NextIds c.cache ∧ ValidIds c.cache) (fun c l c' hc hstep => ?_)
      ⟨fun _ => ⟨Nat.one_pos, show 1 ≤ idMax by decide⟩, nofun⟩
    exact ⟨((Call.run_effect l.2 c.cache).ok hstep.2.2.2.1).nextIds hc.1,
      validIds_step hc.2 hc.1 hstep.2.2.1 hstep.1.2 hstep.2.2.2.1⟩
  obtain ⟨L, hintact, hsorted, hdeepest⟩ := run_sorted (h.when_mono fun _ _ hok => hok.1)
  refine hintact.selfCheck_iff.mpr ⟨hsorted.ordered.imp fun hle => ?_, fun d hd p hp => ?_, fun hinvalid p hp hid => ?_⟩
  · exact Nat.div_le_div_right (Nat.sub_le_sub_left hle t)
  · rw [Cache.getAge, Cache.getAge, hdeepest d hd p hp]
  · rw [← hid, hvalid.2 p ((hintact.registered.cached p).mpr hp)] at hinvalid
    cases hinvalid

/-- Insertions at different places, the last one in the tick of the one before, and a use. -/
def consistentCalls : List (ℕ × Call ℕ) :=
  [exampleInsert 0 0, exampleInsert 1 1, exampleInsert 2 2, exampleInsert 2 3, exampleCall 3 (.useEntry 1)]

/-- There are IDs left for the insertions. -/
theorem self_check_passes_insertions : ∃ c : System ℕ Unit, c.cache.agingList = [3, 2, 1, 0] ∧
    c.cache.selfCheck exampleSetup 6000000 := by
  obtain ⟨c, hrun, hc⟩ := exec_any (fun c l => KeepsOrder exampleSetup c l ∧
      (c.cache.find (CacheIdGenerator.makeListId idMax .cached 0) = none ∧ l ∈ consistentCalls)) consistentCalls
    (Q := fun c => c.cache.agingList = [3, 2, 1, 0]) (by decide +kernel)
  refine ⟨c, of_decide_eq_true hc, self_check_passes (hrun.when_mono fun c l hok => ⟨hok.1, ?_⟩) 6000000⟩
  obtain ⟨-, hfree, hl⟩ := hok
  simp only [consistentCalls, exampleInsert, exampleCall, List.mem_cons, List.not_mem_nil, or_false] at hl
  rcases hl with rfl | rfl | rfl | rfl | rfl
  all_goals first | exact fun _ => ⟨idMax, ⟨by decide, Nat.le_refl _⟩, hfree⟩ | exact trivial

/-- In every state of such a run, the use of an object moves its path to the end of the aging list, and no assertion
fails. -/
theorem use_succeeds (h : Run (When (Step S) (KeepsOrder S)) (.start now content) calls c) {e : P}
    (he : e ∈ c.cache.allObjects) (hid : (c.cache.id e).isValid = true)
    (hlater : c.cache.minimumRequiredCreationTime < t) : MovesPath S t e c.cache.agingList c.cache := by
  obtain ⟨L, hintact, -, hdeepest⟩ := run_sorted h
  have hage : OneAge S.forest c.cache e := fun d hd q hq _ => hdeepest d hd q hq
  obtain ⟨r, hr, -, hlength, hmoved⟩ :=
    (useEntry_moves hintact.aged hintact.registered ((hintact.registered.cached e).mp he)
    hid hlater fun hn => hn hage).exists_ok
  rw [hintact.agingList_eq]
  exact ⟨r.2, by rw [hr, ← hlength], hmoved⟩

theorem use_succeeds_insertions : ∃ c : System ℕ Unit, c.cache.agingList = [3, 2, 1, 0] ∧
    MovesPath exampleSetup 6000000 3 c.cache.agingList c.cache := by
  obtain ⟨c, hrun, hc⟩ := exec_any (KeepsOrder exampleSetup) consistentCalls
    (Q := fun c => c.cache.agingList = [3, 2, 1, 0] ∧ 3 ∈ c.cache.allObjects ∧ (c.cache.id 3).isValid = true ∧
      c.cache.minimumRequiredCreationTime < 6000000) (by decide +kernel)
  obtain ⟨hlist, hmem, hid, hlater⟩ := of_decide_eq_true hc
  exact ⟨c, hlist, use_succeeds hrun hmem hid hlater⟩

end Listbrokers.Lru
