import Listbrokers.Lru.Integrity

/-!
# Ages

The objects of the aging list are sorted by the time of their last use as long
as no object is inserted that was created before another part of the tree was
used (`KeepsOrder`). The minimum creation time, however, is only set by
insertions. It is the time of the last use of the root as long as no object is
used after the insertion of the last one, and each object is inserted at the
time at which it is created (`KeepsMinimum`).
-/

namespace Listbrokers.Lru

open Framework Cache

variable {P σ : Type} [DecidableEq P] {S : Setup P σ} {T : Forest P} {s s' : Cache P σ} {c c' : System P σ}
  {calls : List (ℕ × Call P)} {L L' A : List P} {p q r : P} {now : ℕ} {content : σ}

/-- The ages as they are documented. -/
structure SoundAges (T : Forest P) (s : Cache P σ) : Prop where
  sorted : ∃ L, Links.Follows s.links.next s.oldestObject L ∧ L.getLast? = s.rootObject ∧
    L.Pairwise fun p q => s.lastUsed p ≤ s.lastUsed q
  parent_younger : ∀ p ∈ s.allObjects, ∀ q ∈ T.parent p, s.lastUsed p ≤ s.lastUsed q

/-- The minimum creation time is the time at which the root was used. -/
def SoundMinimum (s : Cache P σ) : Prop := ∀ r ∈ s.rootObject, s.minimumRequiredCreationTime = s.lastUsed r

/-- An entry finds its place, and was created after the last use of the objects in front of it, but not after that
of its parent. -/
def KeepsOrder (S : Setup P σ) (c : System P σ) (l : ℕ × Call P) : Prop :=
  FindsPlace S c l ∧ match l.2 with
    | .insert _ created _ _ _ entry => c.cache.Accepts S created entry → ∀ parent ∈ S.forest.parent entry,
        if c.cache.minimumRequiredCreationTime < l.1 then
          ∀ p ∈ c.cache.agingList, p ∉ S.forest.path parent → c.cache.lastUsed p ≤ created
        else created ≤ c.cache.lastUsed parent
    | _ => True

/-- The time does not advance before an object is used, and an entry is created when it is inserted. -/
def KeepsMinimum (S : Setup P σ) (c : System P σ) (l : ℕ × Call P) : Prop :=
  ((l.2.used c.cache).isSome = true → l.1 ≤ c.cache.minimumRequiredCreationTime) ∧ match l.2 with
    | .insert _ created _ _ _ entry => c.cache.Accepts S created entry → S.forest.parent entry ≠ none → created = l.1
    | _ => True

/-! ## Order -/

/-- The objects of the list have been used one after the other. -/
structure Sorted (now : ℕ) (s : Cache P σ) (L : List P) : Prop where
  ordered : L.Pairwise fun p q => s.lastUsed p ≤ s.lastUsed q
  past : ∀ p ∈ L, s.lastUsed p ≤ now

section

omit [DecidableEq P]

theorem Sorted.sublist (h : Sorted now s L) (hsub : L'.Sublist L) (hages : s'.lastUsed = s.lastUsed) :
    Sorted now s' L' := by
  refine ⟨?_, fun p hp => ?_⟩
  · rw [hages]
    exact h.ordered.sublist hsub
  · rw [hages]
    exact h.past p (hsub.mem hp)

theorem Sorted.later {now' : ℕ} (h : Sorted now s L) (hnow : now ≤ now') : Sorted now' s L :=
  ⟨h.ordered, fun p hp => (h.past p hp).trans hnow⟩

end

/-- A path that is used at the end of a list. -/
theorem Sorted.used {ages : P → ℕ} (hA : A.Pairwise fun p q => ages p ≤ ages q) (hpast : ∀ p ∈ A, ages p ≤ now)
    (hpath : ∀ p ∈ A, p ∉ T.path q) (hages : s.lastUsed = fun p => if p ∈ T.path q then now else ages p) :
    Sorted now s (A ++ T.path q) := by
  have hon : ∀ p ∈ T.path q, s.lastUsed p = now := fun p hp => by rw [hages]; exact if_pos hp
  have hoff : ∀ p ∈ A, s.lastUsed p = ages p := fun p hp => by rw [hages]; exact if_neg (hpath p hp)
  refine ⟨List.pairwise_append.mpr ⟨?_, ?_, fun p hp r hr => ?_⟩, fun p hp => ?_⟩
  · refine hA.imp_of_mem fun hp hr hle => ?_
    rw [hoff _ hp, hoff _ hr]
    exact hle
  · refine List.pairwise_of_forall_mem_list fun p hp r hr => ?_
    rw [hon p hp, hon r hr]
  · rw [hoff p hp, hon r hr]
    exact hpast p hp
  · rcases List.mem_append.mp hp with hp | hp
    · rw [hoff p hp]
      exact hpast p hp
    · rw [hon p hp]

section

omit [DecidableEq P]

/-- An entry in front of the path of its parent. -/
theorem Sorted.insert {entry : P} (h : Sorted now s (A ++ T.path q)) (hle : ∀ p ∈ A, s.lastUsed p ≤ s.lastUsed entry)
    (hparent : s.lastUsed entry ≤ s.lastUsed q) : Sorted now s (A ++ entry :: T.path q) := by
  obtain ⟨hA, hQ, hAQ⟩ := List.pairwise_append.mp h.ordered
  obtain ⟨D, hD⟩ := T.exists_path_eq q
  have hq : ∀ p ∈ T.path q, s.lastUsed q ≤ s.lastUsed p := fun p hp => by
    rw [hD] at hp hQ
    rcases List.mem_cons.mp hp with rfl | hp
    · exact Nat.le_refl _
    · exact (List.pairwise_cons.mp hQ).1 p hp
  refine ⟨List.pairwise_append.mpr ⟨hA, List.pairwise_cons.mpr ⟨fun p hp => hparent.trans (hq p hp), hQ⟩,
    fun p hp r hr => ?_⟩, fun p hp => ?_⟩
  · rcases List.mem_cons.mp hr with rfl | hr
    · exact hle p hp
    · exact hAQ p hp r hr
  · rcases List.mem_append.mp hp with hp | hp
    · exact h.past p (List.mem_append_left _ hp)
    · rcases List.mem_cons.mp hp with rfl | hp
      · exact hparent.trans (h.past q (List.mem_append_right A Forest.mem_path_self))
      · exact h.past p (List.mem_append_right A hp)

end

/-- Insertion below a parent that is used, or has been used at the same time. -/
theorem Sorted.inserted_child {created : ℕ} {entry : P} {s₂ : Cache P σ} (hs : Sorted now s L)
    (hcreated : created ≤ now) (hmin : s.minimumRequiredCreationTime ≤ created)
    (horder : if s.minimumRequiredCreationTime < now then ∀ p ∈ L, p ∉ T.path q → s.lastUsed p ≤ created
      else created ≤ s.lastUsed q)
    (hA : entry ∉ A) (hQ : entry ∉ T.path q)
    (htouched : Touched T now s.minimumRequiredCreationTime q (Function.update s.lastUsed entry created) s₂.lastUsed L
      (A ++ T.path q)) : Sorted now s₂ (A ++ entry :: T.path q) := by
  have hq : q ≠ entry := fun e => hQ (e ▸ Forest.mem_path_self)
  rcases htouched with ⟨hnow, hages, hL⟩ | ⟨hlt, hages, hL⟩
  · -- nothing has been used, so that the entry is as old as its parent
    have hsame : ∀ p ∈ L, s₂.lastUsed p = s.lastUsed p := fun p hp => by
      rw [hages, Function.update_of_ne]
      rintro rfl
      rw [← hL] at hp
      exact (List.mem_append.mp hp).elim hA hQ
    have hentry : s₂.lastUsed entry = created := by rw [hages, Function.update_self]
    rw [if_neg (by omega)] at horder
    have hsorted : Sorted now s₂ (A ++ T.path q) := by
      rw [hL]
      refine ⟨hs.ordered.imp_of_mem fun hp hr hle => ?_, fun p hp => ?_⟩
      · rw [hsame _ hp, hsame _ hr]
        exact hle
      · rw [hsame p hp]
        exact hs.past p hp
    refine hsorted.insert (fun p hp => ?_) ?_
    · have hpL : p ∈ L := hL ▸ List.mem_append_left _ hp
      rw [hentry, hsame p hpL]
      exact (hs.past p hpL).trans (hnow ▸ hmin)
    · rw [hentry, hsame q (hL ▸ List.mem_append_right A Forest.mem_path_self)]
      exact horder
  · rw [if_pos hlt] at horder
    have hA' : A = L.filter (· ∉ T.path q) := List.append_cancel_right hL
    have hpath : ∀ p ∈ A, p ∉ T.path q := fun p hp => by
      rw [hA'] at hp
      simpa using List.of_mem_filter hp
    have hsub : A.Sublist L := hA' ▸ List.filter_sublist
    have hupdate : ∀ p ∈ A, Function.update s.lastUsed entry created p = s.lastUsed p := fun p hp =>
      Function.update_of_ne (show p ≠ entry from fun e => hA (e ▸ hp)) ..
    have hentry : s₂.lastUsed entry = created := by
      rw [hages]
      simp only [hQ, if_false, Function.update_self]
    have hsorted : Sorted now s₂ (A ++ T.path q) := by
      refine .used ?_ (fun p hp => ?_) hpath hages
      · refine (hs.ordered.sublist hsub).imp_of_mem fun hp hr hle => ?_
        rw [hupdate _ hp, hupdate _ hr]
        exact hle
      · rw [hupdate p hp]
        exact hs.past p (hsub.mem hp)
    refine hsorted.insert (fun p hp => ?_) ?_
    · rw [hentry, hages]
      simp only [hpath p hp, if_false, hupdate p hp]
      exact horder p (hsub.mem hp) (hpath p hp)
    · rw [hentry, hages]
      simp only [Forest.mem_path_self, if_true]
      exact hcreated

/-- A call keeps the order of the aging list. -/
theorem Sorted.step {l : ℕ × Call P} (hs : Sorted l.1 c.cache L) (hintact : Intact False S.forest c.cache L)
    (hok : KeepsOrder S c l) (hlive : l.2.Live S l.1 c.cache) (h : Aging S l.1 l.2 c.cache s' L L') :
    Sorted l.1 s' L' := by
  obtain ⟨now, call⟩ := l
  dsimp only at hs hlive h ⊢
  cases h with
  | same hages hmin hsub => exact hs.sublist hsub hages
  | used e he hcall hlt hages hmin hsub =>
    refine Sorted.sublist (s := s')
      (.used (hs.ordered.sublist List.filter_sublist) (fun p hp => ?_) (fun p hp => ?_) hages) hsub rfl
    · exact hs.past p (List.filter_sublist.mem hp)
    · simpa using List.of_mem_filter hp
  | inserted hinsert haccepts hins hages hmin hsub =>
    subst hinsert
    obtain ⟨-, horder⟩ := hok
    refine Sorted.sublist ?_ hsub hages
    rename_i entry s₂ L₂
    cases hpar : S.forest.parent entry with
    | none =>
      obtain ⟨-, hL₂, hlast⟩ := hins.root hpar
      subst hL₂
      refine ⟨List.pairwise_singleton _ _, fun p hp => ?_⟩
      rw [List.mem_singleton.mp hp, hlast, Function.update_self]
      exact hlive.1
    | some q =>
      obtain ⟨A, hL₂, htouched⟩ := hins.child q hpar
      subst hL₂
      have hentry := hins.intact.aged.chain.not_mem_split
      have := horder haccepts q hpar
      rw [hintact.agingList_eq] at this
      exact hs.inserted_child hlive.1 haccepts.2.1 this hentry.1 hentry.2.1 htouched

/-- The ages of an intact cache with a sorted aging list. -/
theorem Sorted.sound (h : Sorted now s L) (hintact : Intact False T s L) : SoundAges T s := by
  refine ⟨⟨L, ?_, hintact.aged.root.symm, h.ordered⟩, fun p hp q hq => ?_⟩
  · rw [hintact.aged.oldest]
    exact hintact.aged.chain.follows
  · obtain ⟨A, B, rfl⟩ := List.append_of_mem ((hintact.registered.cached p).mp hp)
    exact (List.pairwise_cons.mp (List.pairwise_append.mp h.ordered).2.1).1 q (hintact.aged.parent_after hq)

/-- The objects of the cache have been used in the order of the aging list, and parents after their children. -/
theorem ages_sorted (h : Run (When (Step S) (KeepsOrder S)) (.start now content) calls c) :
    SoundAges S.forest c.cache := by
  have hinv : ∃ L, Intact False S.forest c.cache L ∧ Sorted c.now c.cache L := by
    refine h.invariant (P := fun c => ∃ L, Intact False S.forest c.cache L ∧ Sorted c.now c.cache L)
      (fun c l c' hc hstep => ?_) ⟨[], init_intact False S.forest now content, .nil, by simp⟩
    obtain ⟨L, hintact, hsorted⟩ := hc
    obtain ⟨hok, hnow, hlive, hrun, hclock⟩ := hstep
    obtain ⟨L', hpreserved⟩ := (Call.run_ensures hintact hlive hok.1 (fun hf => hf.elim) fun hf => hf.elim).ok hrun
    exact ⟨L', hpreserved.intact, hclock ▸ (hsorted.later hnow).step hintact hok hlive hpreserved.aging⟩
  obtain ⟨L, hintact, hsorted⟩ := hinv
  exact hsorted.sound hintact

/-! ## The minimum creation time -/

/-- The root is the same when objects have been discarded, if it is still there. -/
theorem Intact.root_of_subset {sized sized' : Prop} (h : Intact sized T s L) (h' : Intact sized' T s' L')
    (hsub : L' ⊆ L) (hr : L'.getLast? = some r) : L.getLast? = some r :=
  h.aged.rooted r (hsub (List.mem_of_getLast? hr)) (h'.aged.root_parent hr)

/-- A call keeps the minimum creation time at the last use of the root. -/
theorem minimum_step {l : ℕ × Call P} (hmin : SoundMinimum c.cache) (hintact : Intact False S.forest c.cache L)
    (hintact' : Intact False S.forest s' L') (hok : KeepsMinimum S c l) (h : Aging S l.1 l.2 c.cache s' L L') :
    SoundMinimum s' := by
  obtain ⟨now, call⟩ := l
  dsimp only at h
  rw [SoundMinimum, hintact.aged.root] at hmin
  rw [SoundMinimum, hintact'.aged.root]
  intro r hr
  cases h with
  | same hages hminimum hsub =>
    rw [hages, hminimum]
    exact hmin r (hintact.root_of_subset hintact' hsub.subset hr)
  | used e he hcall hlt hages hminimum hsub =>
    exact absurd (hok.1 (by rw [hcall]; rfl)) (Nat.not_le.mpr hlt)
  | inserted hinsert haccepts hins hages hminimum hsub =>
    subst hinsert
    rename_i created _ _ _ entry s₂ L₂
    have hr₂ := hins.intact.root_of_subset hintact' hsub.subset hr
    rw [hages, hminimum, hins.minimum]
    cases hpar : S.forest.parent entry with
    | none =>
      obtain ⟨-, rfl, hlast⟩ := hins.root hpar
      rw [List.mem_singleton.mp (List.mem_of_getLast? hr₂), hlast, Function.update_self]
    | some q =>
      obtain ⟨A, rfl, htouched⟩ := hins.child q hpar
      have hcreated : created = now := hok.2 haccepts (by rw [hpar]; simp)
      have hroot := hins.intact.aged.root_parent hr₂
      have hne : r ≠ entry := fun e => by
        rw [e, hpar] at hroot
        cases hroot
      have hrL : r ∈ L := ((hins.mem r).mp (List.mem_of_getLast? hr₂)).resolve_left hne
      have hlast := hintact.aged.rooted r hrL hroot
      rcases htouched with ⟨hnow, hages₂, -⟩ | ⟨hlt, hages₂, hL⟩
      · rw [hages₂, Function.update_of_ne hne, ← hmin r hlast, hcreated, hnow]
      · have hq : q ∈ L := ((hins.mem q).mp (by simp)).resolve_left fun e => by
          have := Forest.not_mem_path_parent hpar
          rw [e] at this
          exact this Forest.mem_path_self
        simp only [hages₂, hintact.aged.root_mem_path hq hlast, if_true]
        exact hcreated

/-- The object 3 is created below object 2, then object 1 is used, and then object 3 is inserted. -/
def createdEarlierCalls : List (ℕ × Call ℕ) :=
  [exampleInsert 0 0, exampleInsert 1 1, exampleInsert 2 2, exampleCall 4 (.useEntry 1),
    (5 * 10 ^ 6, .insert ⟨true, true⟩ (3 * 10 ^ 6) .cached 0 10 3)]

/-- An object that is older than the objects in front of it, and a minimum creation time that is not the time at which
the root was used. -/
theorem ages_not_sorted : ∃ c, Run (Step exampleSetup) (.start 0 ()) createdEarlierCalls c ∧
    c.cache.agingList = [1, 3, 2, 0] ∧ c.cache.agingList.map c.cache.lastUsed = [4000000, 3000000, 5000000, 5000000] ∧
    c.cache.minimumRequiredCreationTime = 3000000 ∧ c.cache.rootObject = some 0 ∧
    ¬ SoundAges exampleSetup.forest c.cache ∧ ¬ SoundMinimum c.cache := by
  obtain ⟨c, hrun, hc⟩ := exec_any (FindsPlace exampleSetup) createdEarlierCalls
    (Q := fun c => c.cache.agingList = [1, 3, 2, 0] ∧
      c.cache.agingList.map c.cache.lastUsed = [4000000, 3000000, 5000000, 5000000] ∧
      c.cache.minimumRequiredCreationTime = 3000000 ∧ c.cache.rootObject = some 0) (by decide +kernel)
  obtain ⟨hlist, hages, hmin, hroot⟩ := of_decide_eq_true hc
  obtain ⟨L, hintact⟩ := run_intact False (fun _ _ hok => hok) (fun hf => hf.elim) (fun hf => hf.elim) hrun
  have hL : L = [1, 3, 2, 0] := hintact.agingList_eq.symm.trans hlist
  rw [hlist] at hages
  obtain ⟨h1, h3, -, h0⟩ : c.cache.lastUsed 1 = 4000000 ∧ c.cache.lastUsed 3 = 3000000 ∧ c.cache.lastUsed 2 = 5000000 ∧
      c.cache.lastUsed 0 = 5000000 := by simpa using hages
  refine ⟨c, hrun.of_when, hlist, by rw [hlist, hages], hmin, hroot, fun h => ?_, fun h => ?_⟩
  · obtain ⟨⟨K, hK, -, hsorted⟩, -⟩ := h
    rw [hintact.aged.oldest] at hK
    rw [hK.unique hintact.aged.chain.follows, hL] at hsorted
    have := (List.pairwise_cons.mp hsorted).1 3 (by decide)
    rw [h1, h3] at this
    revert this
    decide
  · have := h 0 hroot
    rw [hmin, h0] at this
    cases this

/-- Ages and the minimum creation time are as they are documented if nothing keeps the aging list from being sorted, and
nothing is used between the creation of an object, its insertion, and the next insertion. -/
theorem ages_sound
    (h : Run (When (Step S) fun c l => KeepsOrder S c l ∧ KeepsMinimum S c l) (.start now content) calls c) :
    SoundAges S.forest c.cache ∧ SoundMinimum c.cache := by
  refine ⟨ages_sorted (h.when_mono fun _ _ hok => hok.1), ?_⟩
  have hinv : ∃ L, Intact False S.forest c.cache L ∧ SoundMinimum c.cache := by
    refine h.invariant (P := fun c => ∃ L, Intact False S.forest c.cache L ∧ SoundMinimum c.cache)
      (fun c l c' hc hstep => ?_) ⟨[], init_intact False S.forest now content, fun r hr => by cases hr⟩
    obtain ⟨L, hintact, hmin⟩ := hc
    obtain ⟨hok, -, hlive, hrun, -⟩ := hstep
    obtain ⟨L', hpreserved⟩ := (Call.run_ensures hintact hlive hok.1.1 (fun hf => hf.elim) fun hf => hf.elim).ok hrun
    exact ⟨L', hpreserved.intact, minimum_step hmin hintact hpreserved.intact hok.2 hpreserved.aging⟩
  obtain ⟨-, -, hmin⟩ := hinv
  exact hmin

instance (c : System P σ) (l : ℕ × Call P) : Decidable (KeepsOrder S c l) := by
  unfold KeepsOrder
  split <;> infer_instance

instance (c : System P σ) (l : ℕ × Call P) : Decidable (KeepsMinimum S c l) := by
  unfold KeepsMinimum
  split <;> infer_instance

/-- Insertions as time goes on, and a use at the time of the last one. -/
theorem ages_sound_insertions : ∃ c : System ℕ Unit, c.cache.agingList = [1, 3, 2, 0] ∧
    SoundAges exampleSetup.forest c.cache ∧ SoundMinimum c.cache := by
  obtain ⟨c, hrun, hc⟩ := exec_any (fun c l => KeepsOrder exampleSetup c l ∧ KeepsMinimum exampleSetup c l)
    [exampleInsert 0 0, exampleInsert 1 1, exampleInsert 2 2, exampleInsert 2 3, exampleCall 2 (.useEntry 3)]
    (Q := fun c => c.cache.agingList = [1, 3, 2, 0]) (by decide +kernel)
  exact ⟨c, of_decide_eq_true hc, ages_sound hrun⟩

end Listbrokers.Lru
