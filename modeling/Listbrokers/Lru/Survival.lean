import Listbrokers.Lru.Effects
import Listbrokers.Lru.Integrity
import Listbrokers.Lru.Policy
import Mathlib.Algebra.Order.BigOperators.Group.List
import Mathlib.Algebra.Order.Group.Nat

/-!
# Objects that are inserted and collected at once

The garbage collector that is run within `insert` may discard the new object
before its ID is returned. The object is in front of its parent in the aging
list, behind all objects that are not on the path of the parent. `Survives` is
the condition under which the collector leaves it alone: it stops before, or
finds the sizes low enough when it has come to the object, or finds that the
object is the hot one and does not need to be touched.
-/

namespace Listbrokers.Lru

open Framework Cache

variable {P σ : Type} [DecidableEq P] {S : Setup P σ} {T : Forest P} {s s' : Cache P σ} {c : System P σ}
  {calls : List (ℕ × Call P)} {L L' A B : List P} {p q x y : P} {now : ℕ} {content : σ}

/-- The garbage collector leaves the object `x` alone, which is not pinned and stands between `A` and `B` in the aging
list. -/
def Survives (S : Setup P σ) (s : Cache P σ) (now : ℕ) (A : List P) (x : P) (B : List P) (hot : Prop) : Prop :=
  let aged := fun p => decide (maximumAge S ≤ s.getAge now p)
  let young := (A ++ x :: B).dropWhile aged
  let left := A.filter (s.isPinned ·) ++ x :: B
  x ∈ young ∧ (¬ SoftExceeded S s (((A ++ x :: B).takeWhile aged).filter (s.isPinned ·) ++ young) ∨ LowEnough S s left ∨
    hot ∧ ¬ HardExceeded S s left)

instance {hot : Prop} [Decidable hot] : Decidable (Survives S s now A x B hot) := inferInstanceAs (Decidable (_ ∧ _))

/-! ## The garbage collector -/

theorem CacheLimits.isLowEnough_mono {limits : CacheLimits} {m n : ℕ} (hle : m ≤ n) (h : limits.isLowEnough n = true) :
    limits.isLowEnough m = true := by
  simp only [CacheLimits.isLowEnough, decide_eq_true_eq] at h ⊢
  omega

section

omit [DecidableEq P]

/-- Sizes that are low enough stay so when objects are left out. -/
theorem LowEnough.sublist (h : LowEnough S s L) (hsub : L'.Sublist L) : LowEnough S s L' :=
  ⟨CacheLimits.isLowEnough_mono ((hsub.map s.objectSize).sum_le_sum fun _ _ => Nat.zero_le _) h.1,
    CacheLimits.isLowEnough_mono hsub.length_le h.2⟩

end

theorem Reduced.low (h : Reduced True T s s' L L') (M : List P) : LowEnough S s' M ↔ LowEnough S s M := by
  rw [LowEnough, LowEnough, h.same.objectSize]

theorem Reduced.hard (h : Reduced True T s s' L L') (M : List P) : HardExceeded S s' M ↔ HardExceeded S s M := by
  rw [HardExceeded, HardExceeded, h.same.objectSize]

section

omit [DecidableEq P]

/-- An object without children is the deepest one if it is on the path of the deepest one. -/
theorem Aged.deepest_of_mem (h : Aged T s L) (hx : Childless T L x) :
    x ∈ s.deepestPath T ↔ s.deepestYoungestObject = some x := by
  rw [deepestPath]
  constructor
  · intro hmem
    rcases h.deepest with ⟨hnone, -⟩ | ⟨d, hd, hsuffix⟩
    · rw [hnone] at hmem
      cases hmem
    · rw [hd, Option.elim_some] at hmem
      rw [hd, hx.eq_of_mem_path (fun q hq => hsuffix.subset hq) hmem]
  · intro hd
    rw [hd, Option.elim_some]
    exact Forest.mem_path_self

end

theorem takeWhile_eq_of_split {α : Type} {f : α → Bool} {K R : List α} (hK : ∀ k ∈ K, f k = true)
    (hR : ∀ r, R.head? = some r → f r = false) : (K ++ R).takeWhile f = K ∧ (K ++ R).dropWhile f = R := by
  rw [List.takeWhile_append_of_pos hK, List.dropWhile_append_of_pos hK]
  cases R with
  | nil => simp
  | cons r R => rw [List.takeWhile_cons_of_neg (by simp [hR r rfl]),
    List.dropWhile_cons_of_neg (by simp [hR r rfl])]; simp

/-- The second loop of the collector, when it has come to the object or stopped before. -/
theorem relieved_iff (h : Intact True S.forest s (A ++ x :: B)) (hx : s.isPinned x = false)
    (hchildless : Childless S.forest (A ++ x :: B) x) {K M N : List P} (hA : A ++ x :: B = K ++ (M ++ N))
    (hxN : x ∈ M ++ N)
    (hred : Reduced True S.forest s s' (A ++ x :: B) (K.filter (s.isPinned ·) ++ M.filter (s.isPinned ·) ++ N))
    (hrelieved : Relieved S s' N)
    (hpassed : ∀ M₁ y M₂, M = M₁ ++ y :: M₂ → s.isPinned y = false → ∃ s₁,
      Reduced True S.forest s s₁ (A ++ x :: B) (K.filter (s.isPinned ·) ++ M₁.filter (s.isPinned ·) ++ y :: (M₂ ++ N)) ∧
        s₁.isLowEnough S = false ∧ (s₁.deepestYoungestObject ≠ some y ∨ s₁.exceedsHard S = true)) :
    x ∈ K.filter (s.isPinned ·) ++ M.filter (s.isPinned ·) ++ N ↔
      LowEnough S s (A.filter (s.isPinned ·) ++ x :: B) ∨
        s.deepestYoungestObject = some x ∧ ¬ HardExceeded S s (A.filter (s.isPinned ·) ++ x :: B) := by
  have hnodup := h.nodup
  obtain ⟨hxA, hxB, -⟩ := h.aged.chain.not_mem_split
  have hchildless' : ∀ {L'}, L'.Sublist (A ++ x :: B) → Childless S.forest L' x := fun hsub q hq =>
    hchildless q (hsub.mem hq)
  have hxnot : ∀ l : List P, x ∉ l.filter (s.isPinned ·) := fun l hmem => by
    have := (List.mem_filter.mp hmem).2
    rw [hx] at this
    cases this
  rcases List.mem_append.mp hxN with hxM | hxN
  · -- the loop has passed the object
    obtain ⟨M₁, M₂, rfl⟩ := List.append_of_mem hxM
    have hsplit : A ++ x :: B = (K ++ M₁) ++ x :: (M₂ ++ N) := by simpa using hA
    rw [hsplit] at hnodup
    obtain ⟨rfl, -, rfl⟩ := (List.append_cons_inj_of_notMem hxA hxB).mp hsplit
    obtain ⟨s₁, hred₁, hlow, hgo⟩ := hpassed M₁ x M₂ rfl hx
    rw [← List.filter_append] at hred₁
    have hxL : x ∉ K.filter (s.isPinned ·) ++ (M₁ ++ x :: M₂).filter (s.isPinned ·) ++ N := fun hmem => by
      rcases List.mem_append.mp hmem with hmem | hmem
      · rw [← List.filter_append] at hmem
        exact hxnot _ hmem
      · exact (List.nodup_cons.mp (List.nodup_append.mp hnodup).2.1).1 (List.mem_append_right M₂ hmem)
    refine iff_of_false hxL ?_
    rintro (hle | ⟨hdeep, hhard⟩)
    · rw [← hred₁.low, ← lowEnough_iff hred₁.intact, hlow] at hle
      cases hle
    · rw [← hred₁.hard, ← hardExceeded_iff hred₁.intact] at hhard
      refine hgo.elim (fun hne => hne ?_) hhard
      refine (hred₁.intact.aged.deepest_of_mem (hchildless' hred₁.sublist)).mp ?_
      exact (hred₁.deepest x (by simp)).mpr ((h.aged.deepest_of_mem hchildless).mpr hdeep)
  · obtain ⟨N₁, N₂, rfl⟩ := List.append_of_mem hxN
    have hsplit : A ++ x :: B = (K ++ M ++ N₁) ++ x :: N₂ := by simpa using hA
    rw [hsplit] at hnodup
    have hnot : x ∉ K ++ M ++ N₁ := fun hmem => (List.nodup_append.mp hnodup).2.2 x hmem x List.mem_cons_self rfl
    obtain ⟨rfl, -, rfl⟩ := (List.append_cons_inj_of_notMem hxA hxB).mp hsplit
    refine iff_of_true (List.mem_append_right _ hxN) ?_
    rcases hrelieved with hlow | hnil | ⟨c, hc, hdeep, hhard⟩
    · refine .inl (LowEnough.sublist ((hred.low _).mp ((lowEnough_iff hred.intact).mp hlow)) ?_)
      rw [List.filter_append, List.filter_append, List.append_assoc _ (N₁.filter _)]
      exact List.Sublist.append_left (List.Sublist.append_right List.filter_sublist _) _
    · simp at hnil
    · obtain ⟨N', hN'⟩ := List.head?_eq_some_iff.mp hc
      have haged := hred.intact.aged
      have hmem' : x ∈ s'.deepestPath S.forest := by
        rw [hN'] at haged
        rw [haged.deepestPath_eq hdeep, ← hN']
        exact hxN
      have hdeepest' := (haged.deepest_of_mem (hchildless' hred.sublist)).mp hmem'
      obtain rfl : x = c := Option.some.inj (hdeepest'.symm.trans hdeep)
      have hN₁ : N₁ = [] := by
        cases N₁ with
        | nil => rfl
        | cons n N₁ =>
          obtain ⟨rfl, -⟩ := List.cons.inj hN'
          exact absurd (List.mem_append_right (K ++ M) List.mem_cons_self) hnot
      subst hN₁
      refine .inr ⟨(h.aged.deepest_of_mem hchildless).mp ((hred.deepest x (List.mem_append_right _ hxN)).mp hmem'), ?_⟩
      rw [List.append_nil, List.filter_append, ← hred.hard]
      intro hexceeded
      have := (hardExceeded_iff (S := S) hred.intact).mpr hexceeded
      rw [hhard] at this
      cases this

/-- What the two loops of the collector do to an object that is not pinned and has no children. -/
theorem collect_keeps_iff (h : Intact True S.forest s (A ++ x :: B)) (hx : s.isPinned x = false)
    (hchildless : Childless S.forest (A ++ x :: B) x) :
    Ensures (Tolerated True) (s.collect S now) fun r => ∃ L', Reduced True S.forest s r.2 (A ++ x :: B) L' ∧
      (x ∈ L' ↔ Survives S s now A x B (s.deepestYoungestObject = some x)) := by
  have hI : Discards S (Tolerated True) fun s' L => Reduced True S.forest s s' (A ++ x :: B) L := Reduced.discards s _
  have hxnot : ∀ l : List P, x ∉ l.filter (s.isPinned ·) := fun l hmem => by
    have := (List.mem_filter.mp hmem).2
    rw [hx] at this
    cases this
  unfold Cache.collect
  rw [h.aged.oldest]
  refine (hI.collectAged_ensures (A := []) (.refl h) (by simp) (Nat.le_of_eq h.count_eq.symm)).bind fun r hr => ?_
  obtain ⟨candidate, s₁⟩ := r
  obtain ⟨K, R, hsplit, rfl, hsame, hred, hK, hR⟩ := hr
  replace hsplit : A ++ x :: B = K ++ R := hsplit
  rw [List.nil_append] at hred
  dsimp only at hsame hred ⊢
  obtain ⟨htake, hdrop⟩ := takeWhile_eq_of_split (f := fun p => decide (maximumAge S ≤ s.getAge now p))
    (fun k hk => by simpa using hK k hk) fun r hr => by simpa using hR r hr
  rw [← hsplit] at htake hdrop
  simp only [Survives, htake, hdrop]
  by_cases hxR : x ∈ R
  · simp only [hxR, true_and]
    refine .ite (fun hsoft => ?_) fun hsoft => .pure ⟨_, hred, ?_⟩
    · rw [softExceeded_iff hred.intact, hred.soft] at hsoft
      have hpinned : ∀ a ∈ K.filter (s.isPinned ·), s₁.isPinned a = true := fun a ha => by
        rw [hsame.isPinned]
        exact (List.mem_filter.mp ha).2
      refine (hI.relievePressure_passes hred hpinned ?_).mono fun r' hr' => ?_
      · have := hI.count hred
        rw [this, List.length_append]
        exact Nat.le_add_left _ _
      · obtain ⟨M, N, rfl, -, -, hred', hrelieved, hpassed⟩ := hr'
        rw [hsame.isPinned] at hred' hpassed
        refine ⟨_, hred', (relieved_iff h hx hchildless hsplit hxR hred' hrelieved hpassed).trans ?_⟩
        simp [hsoft]
    · rw [softExceeded_iff hred.intact, hred.soft] at hsoft
      simp [hsoft, hxR]
  · simp only [hxR, false_and, iff_false]
    refine .ite (fun _ => ?_) fun _ => .pure ⟨_, hred, ?_⟩
    · refine (hI.relievePressure_ensures hred (fun a ha => ?_) ?_).mono fun r' hr' => ?_
      · rw [hsame.isPinned]
        exact (List.mem_filter.mp ha).2
      · have := hI.count hred
        rw [this, List.length_append]
        exact Nat.le_add_left _ _
      · obtain ⟨M, N, rfl, -, -, hred', -⟩ := hr'
        refine ⟨_, hred', fun hmem => ?_⟩
        rw [hsame.isPinned] at hmem
        rcases List.mem_append.mp hmem with hmem | hmem
        · rw [← List.filter_append] at hmem
          exact hxnot _ hmem
        · exact hxR (List.mem_append_right M hmem)
    · exact fun hmem => (List.mem_append.mp hmem).elim (hxnot K) hxR

theorem gc_keeps_iff (h : Intact True S.forest s (A ++ x :: B)) (hx : s.isPinned x = false)
    (hchildless : Childless S.forest (A ++ x :: B) x) :
    Ensures (Tolerated True) (s.gc S now) fun r => ∃ L', Reduced True S.forest s r.2 (A ++ x :: B) L' ∧
      (x ∈ L' ↔ Survives S s now A x B (s.deepestYoungestObject = some x)) := by
  unfold Cache.gc
  refine .check_bind (fun _ => tolerated (by decide)) fun _ => ?_
  refine (collect_keeps_iff (h.setRunning true) hx hchildless).bind fun r hr => ?_
  obtain ⟨candidate, s₁⟩ := r
  obtain ⟨L', hred, hiff⟩ := hr
  refine (nextCall_ensures candidate).bind fun wait _ => .pure ⟨L', ?_, hiff⟩
  obtain ⟨h1, h2, h3, h4, h5, h6, h7⟩ := hred.same
  exact ⟨hred.intact.setRunning false, ⟨h1, h2, h3, h4, h5, h6, h7⟩, hred.sublist, hred.keeps_pinned, hred.deepest⟩

/-! ## Insertion -/

namespace Cache

/-- The objects that will be in front of a new entry. -/
def front (S : Setup P σ) (entry : P) (s : Cache P σ) : List P :=
  s.agingList.filter (· ∉ (S.forest.path entry).tail)

/-- The cache with the data of a new entry. -/
def withEntry (S : Setup P σ) (now created size : ℕ) (entry : P) (s : Cache P σ) : Cache P σ := { s with
  objectSize := Function.update s.objectSize entry size
  lastUsed := s.agesInserting S now created entry }

/-- A new entry is as old as its parent, so that it is the deepest object of those that have been used last. -/
def IsHot (S : Setup P σ) (now created : ℕ) (entry : P) (s : Cache P σ) : Prop :=
  ∀ parent ∈ S.forest.parent entry, created = s.agesInserting S now created entry parent

/-- Insertion runs the garbage collector: for the first object, or as a soft limit is exceeded. -/
def RunsGc (S : Setup P σ) (handlers : Handlers) (now created size : ℕ) (entry : P) (s : Cache P σ) : Prop :=
  S.forest.parent entry = none ∧ handlers.firstObjectInserted = true ∨
    SoftExceeded S (s.withEntry S now created size entry) (s.front S entry ++ entry :: (S.forest.path entry).tail) ∧
      handlers.garbageCollectionNeeded = true

/-- The garbage collector that is run by an insertion leaves the new entry in the cache. -/
def StaysCached (S : Setup P σ) (handlers : Handlers) (now created size : ℕ) (entry : P) (s : Cache P σ) : Prop :=
  s.RunsGc S handlers now created size entry →
    Survives S (s.withEntry S now created size entry) now (s.front S entry) entry (S.forest.path entry).tail
      (s.IsHot S now created entry)

instance (created : ℕ) (entry : P) : Decidable (s.IsHot S now created entry) := inferInstanceAs (Decidable (∀ _ ∈ _, _))

instance (handlers : Handlers) (created size : ℕ) (entry : P) :
    Decidable (s.RunsGc S handlers now created size entry) := inferInstanceAs (Decidable (_ ∨ _))

instance (handlers : Handlers) (created size : ℕ) (entry : P) :
    Decidable (s.StaysCached S handlers now created size entry) := inferInstanceAs (Decidable (_ → _))

end Cache

theorem prepareInsert_data {created : ℕ} {entry : P} (s : Cache P σ) :
    Ensures AnyFault (s.prepareInsert S now created entry) fun s' => s'.objectSize = s.objectSize ∧
      (s'.deepestYoungestObject = some entry ↔ ∀ parent ∈ S.forest.parent entry, created = s'.lastUsed parent) := by
  unfold prepareInsert
  cases hpar : S.forest.parent entry with
  | none => exact .check_bind (fun _ => trivial) fun _ => .pure ⟨rfl, by simp⟩
  | some parent =>
    have hne : parent ≠ entry := fun e => by
      have := Forest.not_mem_path_parent hpar
      rw [e] at this
      exact this Forest.mem_path_self
    refine .bind (Q := fun r => r.2.objectSize = s.objectSize) ?_ fun r hr => ?_
    · unfold useEntry
      refine (ensures_anyFault _).bind fun _ _ => .check_bind (fun _ => trivial) fun _ => ?_
      refine .check_bind (fun _ => trivial) fun _ => .ite (fun _ => .pure rfl) fun _ => ?_
      refine (ensures_anyFault _).bind fun r _ => ?_
      obtain ⟨depth, cursors⟩ := r
      refine (ensures_anyFault _).bind fun _ _ => (ensures_anyFault _).bind fun _ _ => ?_
      exact .check_bind (fun _ => trivial) fun _ => .pure rfl
    · obtain ⟨depth, s₁⟩ := r
      refine .check_bind (fun _ => trivial) fun hdeep => .pure ?_
      have hsize : (if depth < 0 then { s₁ with deepestYoungestObject := some parent } else s₁).objectSize =
          s.objectSize := by
        split <;> exact hr
      generalize (if depth < 0 then { s₁ with deepestYoungestObject := some parent } else s₁) = s₂ at hdeep hsize ⊢
      have hdeep : s₂.deepestYoungestObject = some parent := hdeep
      by_cases hcreated : created = s₂.lastUsed parent
      · rw [if_pos hcreated]
        exact ⟨hsize, by simpa using hcreated⟩
      · rw [if_neg hcreated]
        refine ⟨hsize, ?_⟩
        rw [hdeep]
        simp [hcreated, hne]

/-- The part of `insert` before the garbage collector may run. -/
theorem insert_split {handlers : Handlers} {created ctx size : ℕ} {mode : CacheMode} {entry : P} {i : ListId}
    (haccepts : s.Accepts S created entry) (h : s.insert S now handlers created mode ctx size entry = .ok (i, s')) :
    ∃ s₂ s₃, s.insert S now ⟨false, false⟩ created mode ctx size entry = .ok (i, s₂) ∧
      s₂.gcIf S (s₂.count = 1 && handlers.firstObjectInserted) now = .ok s₃ ∧
      s₃.gcIf S (s₃.exceedsSoft S && handlers.garbageCollectionNeeded) now = .ok s' := by
  unfold Cache.insert at h ⊢
  rw [if_pos haccepts] at h ⊢
  obtain ⟨s₁, hprepare, h⟩ := bind_eq_ok h
  obtain ⟨⟨j, s₂⟩, hlink, h⟩ := bind_eq_ok h
  obtain ⟨s₃, hfirst, h⟩ := bind_eq_ok h
  obtain ⟨s₄, hneeded, h⟩ := bind_eq_ok h
  obtain ⟨rfl, rfl⟩ := Prod.mk.inj (Except.ok.inj h)
  refine ⟨s₂, s₃, ?_, hfirst, hneeded⟩
  rw [hprepare]
  simp [bind, Except.bind, hlink, gcIf, pure, Except.pure]

/-- The data of the cache after an insertion that runs no garbage collector. -/
theorem insert_data {created ctx size : ℕ} {mode : CacheMode} {entry : P} (haccepts : s.Accepts S created entry) :
    Ensures AnyFault (s.insert S now ⟨false, false⟩ created mode ctx size entry) fun r =>
      r.2.objectSize = Function.update s.objectSize entry size ∧ r.2.allObjects = entry :: s.allObjects ∧
        (r.2.deepestYoungestObject = some entry ↔ s.IsHot S now created entry) := by
  unfold Cache.insert
  rw [if_pos haccepts]
  refine ((prepareInsert_keeps s).and (prepareInsert_data _)).bind fun s₁ hs₁ => ?_
  obtain ⟨⟨hall, hkeeps⟩, hsize, hdeepest⟩ := hs₁
  refine .bind (Q := fun r => r.2.objectSize = Function.update s₁.objectSize entry size ∧
    r.2.allObjects = entry :: s₁.allObjects ∧ r.2.deepestYoungestObject = s₁.deepestYoungestObject) ?_ fun r hr => ?_
  · unfold link
    refine (nextListId_effect mode ctx s₁).bind fun r hr => ?_
    obtain ⟨i, s₂⟩ := r
    obtain ⟨⟨next, rfl⟩, -⟩ := hr
    refine .check_bind (fun _ => trivial) fun _ => (ensures_anyFault _).bind fun r _ => ?_
    obtain ⟨isOldest, links⟩ := r
    exact .check_bind (fun _ => trivial) fun _ => .pure ⟨rfl, rfl, rfl⟩
  · obtain ⟨i, s₂⟩ := r
    obtain ⟨hsize₂, hall₂, hdeepest₂⟩ := hr
    simp only [Bool.and_false, gcIf]
    refine .pure ⟨hsize₂.trans (hsize ▸ rfl), hall₂.trans (hall ▸ rfl), ?_⟩
    rw [hdeepest₂, hdeepest, hkeeps.lastUsed, Cache.IsHot]

/-- Where a new entry is put, with nothing behind it but its ancestors. -/
theorem Inserted.front_eq {created : ℕ} {entry : P} {s₂ : Cache P σ} {L₂ : List P} (h : Intact True S.forest s L)
    (hins : Inserted True S.forest now created entry s s₂ L L₂) :
    L₂ = s.front S entry ++ entry :: (S.forest.path entry).tail := by
  rw [front, h.agingList_eq]
  cases hpar : S.forest.parent entry with
  | none =>
    obtain ⟨rfl, rfl, -⟩ := hins.root hpar
    rw [Forest.path_of_root hpar]
    rfl
  | some q =>
    obtain ⟨A, rfl, htouched⟩ := hins.child q hpar
    rw [Forest.path_of_parent hpar, List.tail_cons]
    congr 1
    rcases htouched with ⟨-, -, hL⟩ | ⟨-, -, hL⟩
    · have hnodup := h.nodup
      rw [← hL] at hnodup ⊢
      have hA : ∀ a ∈ A, a ∉ S.forest.path q := fun a ha hq => (List.nodup_append.mp hnodup).2.2 a ha a hq rfl
      rw [List.filter_append, List.filter_eq_self.mpr fun a ha => by simpa using hA a ha,
        List.filter_eq_nil_iff.mpr fun a ha => by simpa using ha, List.append_nil]
    · exact List.append_cancel_right hL

section

omit [DecidableEq P]

/-- An object that is not pinned and has no children is left alone for the data of the cache alone. -/
theorem survives_congr {hot : Prop} (hsize : s'.objectSize = s.objectSize) (hages : s'.lastUsed = s.lastUsed)
    (hpinned : s'.isPinned = s.isPinned) : Survives S s' now A x B hot ↔ Survives S s now A x B hot := by
  have hage : s'.getAge now = s.getAge now := funext fun p => by rw [getAge, getAge, hages]
  simp only [Survives, SoftExceeded, HardExceeded, LowEnough, hsize, hage, hpinned]

end

/-- The garbage collector, when it runs. -/
theorem gcIf_keeps_iff {b : Bool} (h : Intact True S.forest s (A ++ x :: B)) (hx : s.isPinned x = false)
    (hchildless : Childless S.forest (A ++ x :: B) x) :
    Ensures (Tolerated True) (s.gcIf S b now) fun s' => ∃ L', Reduced True S.forest s s' (A ++ x :: B) L' ∧
      (x ∈ L' ↔ (b = true → Survives S s now A x B (s.deepestYoungestObject = some x))) ∧ (b = false → s' = s) := by
  cases b with
  | false => exact .pure ⟨_, .refl h, by simp, fun _ => rfl⟩
  | true =>
    refine (gc_keeps_iff h hx hchildless).bind fun r hr => ?_
    obtain ⟨L', hred, hiff⟩ := hr
    exact .pure ⟨L', hred, by simpa using hiff, nofun⟩

/-- The cache after an insertion that has been accepted, before the garbage collector may run. -/
structure Entered (S : Setup P σ) (now created size : ℕ) (entry : P) (i : ListId) (s s' : Cache P σ) : Prop where
  intact : Intact True S.forest s' (s.front S entry ++ entry :: (S.forest.path entry).tail)
  unpinned : s'.isPinned entry = false
  childless : Childless S.forest (s.front S entry ++ entry :: (S.forest.path entry).tail) entry
  alone : S.forest.parent entry = none → s.front S entry = []
  id : s'.id entry = i
  isPinned : s'.isPinned = s.isPinned
  objectSize : s'.objectSize = (s.withEntry S now created size entry).objectSize
  lastUsed : s'.lastUsed = (s.withEntry S now created size entry).lastUsed
  deepest : s'.deepestYoungestObject = some entry ↔ s.IsHot S now created entry

theorem insert_enters (h : Intact True S.forest s L) {created ctx size : ℕ} {mode : CacheMode} {entry : P} {i : ListId}
    {handlers : Handlers} (haccepts : s.Accepts S created entry)
    (hlive : (Call.insert handlers created mode ctx size entry).Live S now s)
    (hplaced : (Call.insert handlers created mode ctx size entry).Placed S now s)
    (hcountable : (Call.insert handlers created mode ctx size entry).Countable S s)
    (hplain : s.insert S now ⟨false, false⟩ created mode ctx size entry = .ok (i, s')) :
    Entered S now created size entry i s s' := by
  obtain ⟨hsize, hall, hdeepest⟩ := (insert_data haccepts).ok hplain
  have hplacing : Placing S now created entry i s s' := by
    rcases (insert_effect s).ok hplain with ⟨hn, -⟩ | ⟨hplacing, -⟩
    · exact absurd haccepts hn
    · exact hplacing
  have hnew : entry ∉ L := fun hmem => hlive.2.1 haccepts.1 ((h.registered.cached entry).mpr hmem)
  obtain ⟨s₀, L₂, L', hins, hred⟩ : ∃ s₀ L₂ L', Inserted True S.forest now created entry s s₀ L L₂ ∧
      Reduced True S.forest s₀ s' L₂ L' := by
    have hlive' : (Call.insert ⟨false, false⟩ created mode ctx size entry).Live S now s := hlive
    rcases (run_insert_ensures h hlive' hplaced fun _ => hcountable).ok hplain with heq | hins
    · have := congrArg List.length (heq ▸ hall)
      simp at this
    · exact hins.2
  -- no garbage collector has run, so that all objects are still there
  obtain rfl : L' = L₂ := by
    refine hred.sublist.eq_of_length_le ?_
    have hperm : L₂.Perm (entry :: L) :=
      (List.perm_ext_iff_of_nodup hins.intact.nodup (List.nodup_cons.mpr ⟨hnew, h.nodup⟩)).mpr fun p => by
        rw [hins.mem, List.mem_cons]
    rw [hperm.length_eq, ← hred.intact.count_eq, Cache.count, hall, List.length_cons, List.length_cons]
    exact Nat.succ_le_succ (Nat.le_of_eq h.count_eq.symm)
  have hfront := hins.front_eq h
  have hflags := hred.same.isPinned.trans hins.isPinned
  refine ⟨hfront ▸ hred.intact, ?_, hfront ▸ fun q hq hpar => ?_, fun hpar => ?_, ?_, hflags, hsize,
    hplacing.lastUsed, hdeepest⟩
  · rw [hflags]
    exact Bool.eq_false_iff.mpr fun hpinned => hnew (h.mem_of_pinned hpinned)
  · rcases (hins.mem q).mp hq with rfl | hq
    · exact absurd (S.forest.rank_lt hpar) (Nat.lt_irrefl _)
    · exact hnew (h.aged.closed q hq entry hpar)
  · rw [front, h.agingList_eq, (hins.root hpar).1, List.filter_nil]
  · rw [hplacing.id]
    exact Function.update_self ..

/-- The entry is alone in the cache if and only if it is a root. -/
theorem Entered.count_one {created size : ℕ} {entry : P} {i : ListId} (h : Entered S now created size entry i s s') :
    s'.count = 1 ↔ S.forest.parent entry = none := by
  rw [h.intact.count_eq]
  constructor
  · intro hlen
    cases hpar : S.forest.parent entry with
    | none => rfl
    | some q =>
      rw [Forest.path_of_parent hpar, List.tail_cons, List.length_append, List.length_cons] at hlen
      have := List.length_pos_iff.mpr (Forest.path_ne_nil (T := S.forest) (p := q))
      omega
  · intro hpar
    rw [h.alone hpar, Forest.path_of_root hpar]
    rfl

/-- Whether the new entry is left in the aging list by an insertion that is accepted. -/
theorem insert_keeps_iff (h : Intact True S.forest s L) {handlers : Handlers} {created ctx size : ℕ} {mode : CacheMode}
    {entry : P} {i : ListId} (haccepts : s.Accepts S created entry)
    (hlive : (Call.insert handlers created mode ctx size entry).Live S now s)
    (hplaced : (Call.insert handlers created mode ctx size entry).Placed S now s)
    (hcountable : (Call.insert handlers created mode ctx size entry).Countable S s)
    (hinsert : s.insert S now handlers created mode ctx size entry = .ok (i, s')) :
    ∃ L', Intact True S.forest s' L' ∧ s'.id entry = i ∧
      (entry ∈ L' ↔ s.StaysCached S handlers now created size entry) := by
  obtain ⟨s₂, s₃, hplain, hfirst, hneeded⟩ := insert_split haccepts hinsert
  have hentered := insert_enters h haccepts hlive hplaced hcountable hplain
  have hsurvives : Survives S s₂ now (s.front S entry) entry (S.forest.path entry).tail
      (s₂.deepestYoungestObject = some entry) ↔
        Survives S (s.withEntry S now created size entry) now (s.front S entry) entry
        (S.forest.path entry).tail (s.IsHot S now created entry) := by
    rw [hentered.deepest]
    exact survives_congr hentered.objectSize hentered.lastUsed hentered.isPinned
  obtain ⟨L₃, hred₃, hiff₃, hsame⟩ :=
    (gcIf_keeps_iff hentered.intact hentered.unpinned hentered.childless).ok hfirst
  rw [hsurvives, Bool.and_eq_true, decide_eq_true_iff, hentered.count_one] at hiff₃
  by_cases hruns : S.forest.parent entry = none ∧ handlers.firstObjectInserted = true
  · -- the first object
    have hstays : s.StaysCached S handlers now created size entry ↔ entry ∈ L₃ := by
      rw [hiff₃]
      exact ⟨fun hs _ => hs (.inl hruns), fun hs _ => hs hruns⟩
    by_cases hleft : entry ∈ L₃
    · have halone : s.front S entry ++ entry :: (S.forest.path entry).tail = [] ++ entry :: [] := by
        rw [hentered.alone hruns.1, Forest.path_of_root hruns.1]
        rfl
      obtain rfl : L₃ = [] ++ entry :: [] :=
        (halone ▸ hred₃.sublist).eq_of_length_le (List.length_pos_iff.mpr (List.ne_nil_of_mem hleft))
      have hunpinned : s₃.isPinned entry = false := hred₃.same.isPinned ▸ hentered.unpinned
      obtain ⟨L₄, hred₄, hiff₄, -⟩ :=
        (gcIf_keeps_iff hred₃.intact hunpinned (halone ▸ hentered.childless)).ok hneeded
      refine ⟨L₄, hred₄.intact, ?_, ?_⟩
      · rw [hred₄.same.id, hred₃.same.id, hentered.id]
      · rw [hiff₄, hstays]
        refine iff_of_true (fun _ => ?_) hleft
        -- the second run of the collector finds what the first one has found
        have hfirst := hsurvives.mpr (hiff₃.mp hleft hruns)
        rw [hentered.alone hruns.1, Forest.path_of_root hruns.1] at hfirst
        refine (survives_congr hred₃.same.objectSize hred₃.same.lastUsed hred₃.same.isPinned).mpr ?_
        rwa [← hred₃.intact.aged.deepest_of_mem (halone ▸ hentered.childless), hred₃.deepest entry hleft,
          hentered.intact.aged.deepest_of_mem hentered.childless]
    · obtain ⟨L₄, hred₄⟩ := (gcIf_ensures hred₃.intact _).ok hneeded
      refine ⟨L₄, hred₄.intact, ?_, ?_⟩
      · rw [hred₄.same.id, hred₃.same.id, hentered.id]
      · rw [hstays]
        exact iff_of_false (fun hmem => hleft (hred₄.sublist.mem hmem)) hleft
  · obtain rfl : s₃ = s₂ := hsame (by
      rw [Bool.eq_false_iff, Ne, Bool.and_eq_true, decide_eq_true_iff, hentered.count_one]
      exact hruns)
    obtain ⟨L₄, hred₄, hiff₄, -⟩ :=
      (gcIf_keeps_iff hentered.intact hentered.unpinned hentered.childless).ok hneeded
    refine ⟨L₄, hred₄.intact, ?_, ?_⟩
    · rw [hred₄.same.id, hentered.id]
    · rw [hiff₄, hsurvives, Bool.and_eq_true, softExceeded_iff hentered.intact, StaysCached, RunsGc, or_iff_right hruns,
        SoftExceeded, SoftExceeded, hentered.objectSize]

/-! ## Runs -/

/-- In every run that keeps the counters right, the entry that `insert` returns a valid ID for can be looked up if
and only if the garbage collector leaves it in the cache. -/
theorem inserted_cached_iff (h : Run (When (Step S) (KeepsCount S)) (.start now content) calls c)
    {t created ctx size : ℕ} {handlers : Handlers} {mode : CacheMode} {entry : P} {i : ListId}
    (hkeeps : KeepsCount S c (t, .insert handlers created mode ctx size entry))
    (hlive : (Call.insert handlers created mode ctx size entry).Live S t c.cache)
    (hinsert : c.cache.insert S t handlers created mode ctx size entry = .ok (i, s')) (hvalid : i.isValid = true) :
    s'.lookup i = .ok (some entry) ↔ c.cache.StaysCached S handlers t created size entry := by
  obtain ⟨L, hintact⟩ := run_intact True (fun _ _ hok => hok.1) (fun _ _ _ hok => hok.2.1) (fun _ _ _ hok => hok.2.2) h
  have haccepts : c.cache.Accepts S created entry := by
    by_contra hn
    unfold Cache.insert at hinsert
    rw [if_neg hn] at hinsert
    obtain ⟨rfl, -⟩ := Prod.mk.inj (Except.ok.inj hinsert)
    cases hvalid
  obtain ⟨L', hintact', hid, hiff⟩ := insert_keeps_iff hintact haccepts hlive hkeeps.1 hkeeps.2.1 hinsert
  rw [← hiff]
  have hlookup : s'.lookup i = .ok (s'.find i) := by
    rw [Cache.lookup, check, if_pos hvalid]
    rfl
  rw [hlookup, Except.ok.injEq]
  constructor
  · exact hintact'.registered.mem_of_find
  · intro hmem
    rw [← hid]
    exact hintact'.registered.find_id hmem

/-- The root is the only object in the cache. The object 1 has been created one millisecond before it is inserted. A
soft limit is exceeded, so that the garbage collector is run, which discards it. -/
theorem inserted_not_cached : ∃ c,
    Run (When (Step exampleSetup) (KeepsCount exampleSetup)) (.start 0 ()) [exampleInsertSized 0 100 0] c ∧
    KeepsCount exampleSetup c (2000000, .insert ⟨true, true⟩ 1000000 .cached 0 850 1) ∧
    (Call.insert ⟨true, true⟩ 1000000 .cached 0 850 1).Live exampleSetup 2000000 c.cache ∧
    ∃ s', c.cache.insert exampleSetup 2000000 ⟨true, true⟩ 1000000 .cached 0 850 1 = .ok (⟨2⟩, s') ∧
      s'.lookup ⟨2⟩ = .ok none := by
  obtain ⟨c, hrun, hc⟩ := exec_any (KeepsCount exampleSetup) [exampleInsertSized 0 100 0]
    (Q := fun c => KeepsCount exampleSetup c (2000000, .insert ⟨true, true⟩ 1000000 .cached 0 850 1) ∧
      (Call.insert ⟨true, true⟩ 1000000 .cached 0 850 1).Live exampleSetup 2000000 c.cache ∧
      (c.cache.insert exampleSetup 2000000 ⟨true, true⟩ 1000000 .cached 0 850 1).toOption.any (fun r =>
        r.1 = ⟨2⟩ ∧ r.2.find ⟨2⟩ = none) = true) (by decide +kernel)
  obtain ⟨hkeeps, hlive, hany⟩ := of_decide_eq_true hc
  obtain ⟨⟨i, s'⟩, hr, hQ⟩ := (Option.any_eq_true _ _).mp hany
  obtain ⟨rfl, hfind⟩ := of_decide_eq_true hQ
  refine ⟨c, hrun, hkeeps, hlive, s', ok_of_toOption hr, ?_⟩
  rw [Cache.lookup, check, if_pos (by decide), hfind]
  rfl

/-- The garbage collector that is run by the insertion discards the older object 7, after which the sizes are low
enough. -/
theorem inserted_cached_older : ∃ (c : System ℕ Unit) (s' : Cache ℕ Unit),
    c.cache.insert exampleSetup 3000000 ⟨true, true⟩ 2000000 .cached 0 350 1 = .ok (⟨3⟩, s') ∧
      s'.lookup ⟨3⟩ = .ok (some 1) := by
  obtain ⟨c, hrun, hc⟩ := exec_any (KeepsCount exampleSetup) [exampleInsertSized 0 10 0, exampleInsertSized 1 600 7]
    (Q := fun c => KeepsCount exampleSetup c (3000000, .insert ⟨true, true⟩ 2000000 .cached 0 350 1) ∧
      (Call.insert ⟨true, true⟩ 2000000 .cached 0 350 1).Live exampleSetup 3000000 c.cache ∧
      (c.cache.insert exampleSetup 3000000 ⟨true, true⟩ 2000000 .cached 0 350 1).toOption.any
        (fun r => r.1 = ⟨3⟩) = true ∧
      c.cache.StaysCached exampleSetup ⟨true, true⟩ 3000000 2000000 350 1) (by decide +kernel)
  obtain ⟨hkeeps, hlive, hany, hstays⟩ := of_decide_eq_true hc
  obtain ⟨⟨i, s'⟩, hr, hQ⟩ := (Option.any_eq_true _ _).mp hany
  obtain rfl := of_decide_eq_true hQ
  exact ⟨c, s', ok_of_toOption hr, (inserted_cached_iff hrun hkeeps hlive (ok_of_toOption hr) (by decide)).mpr hstays⟩

end Listbrokers.Lru
