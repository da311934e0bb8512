import Listbrokers.Lru.Integrity

/-!
# The policy of the garbage collector

`gc` discards objects from the oldest on. What it discards is the beginning of
the objects that are not pinned (`Collected`). It goes on until all objects are
young, and then as long as there is pressure, but for the path of the deepest
object, which only gives way to a hard limit.
-/

namespace Listbrokers.Lru

open Framework Cache

variable {P σ : Type} [DecidableEq P] {S : Setup P σ} {T : Forest P} {s s' : Cache P σ} {L A B K : List P} {c p q : P}
  {now : ℕ}

/-- A cache as the garbage collector finds it: with a complete and sorted aging list, right counters, and the parents of
pinned objects pinned as well. -/
structure Tidy (T : Forest P) (s : Cache P σ) (L : List P) : Prop where
  aged : Aged T s L
  registered : Registered True T s L
  pinned_parent : ∀ p ∈ L, s.isPinned p = true → ∀ q, T.parent p = some q → s.isPinned q = true
  sorted : L.Pairwise fun p q => s.lastUsed p ≤ s.lastUsed q

/-- The discarded objects, and what the cache is like afterwards. -/
structure Collected (S : Setup P σ) (now : ℕ) (s s' : Cache P σ) (L removed : List P) : Prop where
  oldest_unpinned : removed <+: L.filter (fun p => !s.isPinned p)
  tidy : Tidy S.forest s' (L.filter (· ∉ removed))
  same : SameData s s'
  young : ∀ p ∈ s'.allObjects, s'.isPinned p = false → s'.getAge now p < maximumAge S
  soft : s'.exceedsSoft S = true → ∀ p ∈ s'.allObjects, s'.isPinned p = true ∨ p ∈ s'.deepestPath S.forest
  hard : s'.exceedsHard S = true → ∀ p ∈ s'.allObjects, s'.isPinned p = true

/-! ## Limits -/

theorem CacheLimits.exceedsSoft_of_exceedsHard {limits : CacheLimits} {n : ℕ} (h : limits.exceedsHard n = true) :
    limits.exceedsSoft n = true := by
  have hle : limits.highWatermark ≤ limits.hardUpperLimit := by
    have := Nat.mul_le_mul_left limits.hardUpperLimit limits.high_le
    rw [CacheLimits.highWatermark]
    omega
  simp only [CacheLimits.exceedsHard, CacheLimits.exceedsSoft, decide_eq_true_eq] at h ⊢
  omega

theorem CacheLimits.not_exceedsSoft_of_isLowEnough {limits : CacheLimits} {n : ℕ} (h : limits.isLowEnough n = true) :
    limits.exceedsSoft n = false := by
  have hlt : limits.lowWatermark < limits.highWatermark := limits.watermarks_lt
  simp only [CacheLimits.isLowEnough, CacheLimits.exceedsSoft, decide_eq_true_eq, decide_eq_false_iff_not] at h ⊢
  omega

section

omit [DecidableEq P]

theorem exceedsSoft_of_exceedsHard (h : s.exceedsHard S = true) : s.exceedsSoft S = true := by
  rw [Cache.exceedsHard, Bool.or_eq_true] at h
  rw [Cache.exceedsSoft, Bool.or_eq_true]
  exact h.imp CacheLimits.exceedsSoft_of_exceedsHard CacheLimits.exceedsSoft_of_exceedsHard

theorem not_exceedsSoft_of_isLowEnough (h : s.isLowEnough S = true) : s.exceedsSoft S = false := by
  rw [Cache.isLowEnough, Bool.and_eq_true] at h
  rw [Cache.exceedsSoft, CacheLimits.not_exceedsSoft_of_isLowEnough h.1, CacheLimits.not_exceedsSoft_of_isLowEnough h.2]
  rfl

end

/-! ## Discarding -/

namespace Tidy

theorem count_eq (h : Tidy T s L) : s.count = L.length := h.registered.length_eq h.aged.nodup

/-- Behind pinned objects, an object that is not pinned has no children. -/
theorem childless (h : Tidy T s (A ++ c :: B)) (hA : ∀ a ∈ A, s.isPinned a = true) (hc : s.isPinned c = false) :
    Childless T (A ++ c :: B) c := fun q hq hpar => by
  have := h.pinned_parent q hq (hA q (h.aged.child_before hq hpar)) c hpar
  rw [hc] at this
  cases this

theorem isLeaf_oldest (h : Tidy T s L) (hL : L ≠ []) : ∃ o ∈ s.oldestObject, s.isLeaf o = true := by
  obtain ⟨o, M, rfl⟩ := List.exists_cons_of_ne_nil hL
  exact ⟨o, h.aged.oldest, h.registered.isLeaf_iff.mpr h.aged.childless_head⟩

theorem without (h : Tidy S.forest s (A ++ c :: B)) (hc : Childless S.forest (A ++ c :: B) c) (notify : Bool) :
    Tidy S.forest (s.without S notify c) (A ++ B) := by
  have hsub : (A ++ B).Sublist (A ++ c :: B) := List.Sublist.append_left (List.sublist_cons_self c B) A
  exact ⟨h.aged.without hc notify, h.registered.without h.aged.nodup rfl rfl notify,
    fun p hp => h.pinned_parent p (hsub.mem hp), h.sorted.sublist hsub⟩

/-- No assertion fails when the collector discards an object. -/
theorem discard_ensures (h : Tidy S.forest s (A ++ c :: B)) (hA : ∀ a ∈ A, s.isPinned a = true)
    (hc : s.isPinned c = false) :
    Ensures (fun _ => False) (s.discard S true c) fun r =>
      r.1 = B.head? ∧ SameData s r.2 ∧ Tidy S.forest r.2 (A ++ B) := by
  have hmem : c ∈ A ++ c :: B := List.mem_append_right A List.mem_cons_self
  unfold Cache.discard
  refine .check_bind (fun hn => hn (h.isLeaf_oldest (by simp))) fun _ => .check_bind (fun hn => hn hc) fun _ => ?_
  refine .check_bind (fun hn => hn fun p hp => ?_) fun _ => .check_bind (fun hn => hn ?_) fun _ =>
    .check_bind (fun hn => hn (by simp [h.registered.find_id hmem])) fun _ => .pure ?_
  · rw [h.registered.children p, List.countP_pos_iff]
    exact ⟨c, hmem, by simpa using hp⟩
  · rw [h.registered.size trivial, List.map_append, List.map_cons, List.sum_append, List.sum_cons]
    omega
  · exact ⟨h.aged.chain.links_at.2, sameData_without s true c, h.without (h.childless hA hc) true⟩

theorem discards : Discards S (fun _ => False) (Tidy S.forest (σ := σ)) where
  chain h := h.aged.chain
  oldest h := h.aged.oldest
  count h := h.count_eq
  discard h hA hc := h.discard_ensures hA hc

theorem setRunning (h : Tidy T s L) (b : Bool) : Tidy T { s with isGarbageCollectorRunning := b } L where
  aged := h.aged.congr rfl rfl rfl rfl
  registered := ⟨h.registered.cached, h.registered.nodup, h.registered.ids, h.registered.children, h.registered.size,
    h.registered.nextId⟩
  pinned_parent := h.pinned_parent
  sorted := h.sorted

/-! ## The next call -/

section

omit [DecidableEq P]

theorem skipPinned_eq {n : ℕ} (h : s.links.Chain (A ++ B)) (hn : B.length ≤ n) :
    s.skipPinned n B.head? = B.find? fun p => !s.isPinned p := by
  induction B generalizing n A with
  | nil => cases n <;> rfl
  | cons c B ih =>
    obtain ⟨m, rfl⟩ : ∃ m, n = m + 1 := ⟨n - 1, by simp at hn; omega⟩
    rw [List.head?_cons, skipPinned]
    cases hc : s.isPinned c with
    | true =>
      rw [if_pos rfl, h.links_at.2, List.find?_cons_of_neg (by simp [hc])]
      exact ih (A := A ++ [c]) (by simpa using h) (by simpa using hn)
    | false => rw [if_neg (by simp), List.find?_cons_of_pos (by simp [hc])]

end

/-- The next call is due when the oldest object that is not pinned reaches the maximum age. -/
theorem nextCall_ensures (h : Tidy T s (A ++ B)) (hA : ∀ a ∈ A, s.isPinned a = true) :
    Ensures (fun _ => False) (s.nextCall S now B.head?) fun wait =>
      wait = ((A ++ B).find? fun p => !s.isPinned p).map fun p =>
        max 1 (S.maximumAgeThreshold * 60 - s.getAge now p / 1000) := by
  have hfindA : A.find? (fun p => !s.isPinned p) = none := by simpa using hA
  unfold nextCall
  refine .ite (fun hold => .check_bind (fun hn => hn ?_) fun _ => .pure ?_) fun hold => ?_
  · have hnil : A ++ B = [] := List.head?_eq_none_iff.mp (h.aged.oldest.symm.trans hold)
    have hroot := h.aged.root
    have hcached := h.registered.cached
    have hdeepest := h.aged.deepest
    rw [hnil] at hroot hcached hdeepest
    refine ⟨hroot, ?_, List.eq_nil_iff_forall_not_mem.mpr fun p hp => by simpa using (hcached p).mp hp⟩
    rcases hdeepest with ⟨hd, -⟩ | ⟨d, -, hsuffix⟩
    · exact hd
    · exact absurd (List.suffix_nil.mp hsuffix) Forest.path_ne_nil
  · rw [List.head?_eq_none_iff.mp (h.aged.oldest.symm.trans hold)]
    rfl
  · have hlength : B.length ≤ s.count := by
      rw [h.count_eq, List.length_append]
      exact Nat.le_add_left _ _
    rw [skipPinned_eq h.aged.chain hlength, List.find?_append, hfindA, Option.none_or]
    cases hfind : B.find? fun p => !s.isPinned p with
    | none =>
      refine .check_bind (fun hn => hn fun p hp => ?_) fun _ => .pure rfl
      rcases List.mem_append.mp ((h.registered.cached p).mp hp) with hp | hp
      · exact hA p hp
      · simpa using List.find?_eq_none.mp hfind p hp
    | some p => exact .pure rfl

end Tidy

/-! ## The policy -/

section

omit [DecidableEq P]

/-- The objects from the deepest one on are its path. -/
theorem Aged.deepestPath_eq (h : Aged T s (A ++ c :: B)) (hd : s.deepestYoungestObject = some c) :
    s.deepestPath T = c :: B := by
  obtain ⟨hcA, hcB, -⟩ := h.chain.not_mem_split
  rcases h.deepest with ⟨hnone, -⟩ | ⟨d, hd', K, hK⟩
  · rw [hd] at hnone
    cases hnone
  · cases hd.symm.trans hd'
    obtain ⟨D, hD⟩ := T.exists_path_eq c
    rw [hD] at hK
    rw [deepestPath, hd, Option.elim_some, hD, ((List.append_cons_inj_of_notMem hcA hcB).mp hK.symm).2.2]

end

theorem filter_notMem_filter {f : P → Bool} (h : (K ++ B).Nodup) :
    (K ++ B).filter (· ∉ K.filter (fun p => !f p)) = K.filter f ++ B := by
  have hdisj := (List.nodup_append.mp h).2.2
  rw [List.filter_append]
  congr 1
  · refine List.filter_congr fun p hp => ?_
    simp [hp]
  · refine List.filter_eq_self.mpr fun p hp => ?_
    have : p ∉ K := fun hK => hdisj p hK p hp rfl
    simp [this]

/-- An object is not older than those in front of it. -/
theorem Tidy.getAge_le (h : Tidy T s (A ++ p :: B)) (hq : q ∈ p :: B) : s.getAge now q ≤ s.getAge now p := by
  have hle : s.lastUsed p ≤ s.lastUsed q := by
    rcases List.mem_cons.mp hq with rfl | hq
    · exact Nat.le_refl _
    · exact (List.pairwise_cons.mp (List.pairwise_append.mp h.sorted).2.1).1 q hq
  exact Nat.div_le_div_right (Nat.sub_le_sub_left hle now)

/-- What the two loops leave is as the policy says. -/
theorem Tidy.collected (h : Tidy S.forest s (K ++ B)) (h' : Tidy S.forest s' (K.filter (s.isPinned ·) ++ B))
    (hsame : SameData s s') (hsoft : s'.exceedsSoft S = false ∨ Relieved S s' B) {B' : List P} (hL : B' <:+ K ++ B)
    (hB : B <:+ B') (hage : ∀ b, B'.head? = some b → ¬ maximumAge S ≤ s.getAge now b) :
    Collected S now s s' (K ++ B) (K.filter fun p => !s.isPinned p) := by
  have hmem : ∀ p ∈ s'.allObjects, s'.isPinned p = true ∨ p ∈ B := fun p hp => by
    rw [hsame.isPinned]
    exact (List.mem_append.mp ((h'.registered.cached p).mp hp)).imp_left fun hp => (List.mem_filter.mp hp).2
  refine ⟨?_, ?_, hsame, fun p hp hpin => ?_, fun hs => ?_, fun hs => ?_⟩
  · rw [List.filter_append]
    exact List.prefix_append _ _
  · rw [filter_notMem_filter h.aged.nodup]
    exact h'
  · have hpB := hB.subset ((hmem p hp).resolve_left (by simp [hpin]))
    obtain ⟨b, M, rfl⟩ := List.exists_cons_of_ne_nil (List.ne_nil_of_mem hpB)
    obtain ⟨A, hA⟩ := hL
    rw [← hA] at h
    have hle : s'.getAge now p ≤ s.getAge now b := by
      rw [Cache.getAge, hsame.lastUsed]
      exact h.getAge_le hpB
    exact Nat.lt_of_le_of_lt hle (Nat.not_le.mp (hage b rfl))
  · intro p hp
    refine (hmem p hp).imp_right fun hpB => ?_
    rcases hsoft with hno | hlow | rfl | ⟨c, hc, hd, -⟩
    · rw [hs] at hno
      cases hno
    · rw [not_exceedsSoft_of_isLowEnough hlow] at hs
      cases hs
    · cases hpB
    · obtain ⟨M, rfl⟩ := List.head?_eq_some_iff.mp hc
      rw [h'.aged.deepestPath_eq hd]
      exact hpB
  · intro p hp
    refine (hmem p hp).resolve_right fun hpB => ?_
    have hexceeded := exceedsSoft_of_exceedsHard hs
    rcases hsoft with hno | hlow | rfl | ⟨c, -, -, hhard⟩
    · rw [hexceeded] at hno
      cases hno
    · rw [not_exceedsSoft_of_isLowEnough hlow] at hexceeded
      cases hexceeded
    · cases hpB
    · rw [hs] at hhard
      cases hhard

/-- Setting the flag of the collector changes nothing of what the policy is about. -/
theorem Collected.setRunning {removed : List P} {b b' : Bool}
    (h : Collected S now { s with isGarbageCollectorRunning := b } s' L removed) :
    Collected S now s { s' with isGarbageCollectorRunning := b' } L removed :=
  ⟨h.oldest_unpinned, h.tidy.setRunning b', ⟨h.same.id, h.same.objectSize, h.same.isPinned, h.same.lastUsed,
    h.same.pinnedObjectId, h.same.minimumRequiredCreationTime, h.same.nextId⟩, h.young, h.soft, h.hard⟩

/-- What `gc` returns: the time until the oldest object that is left and not pinned reaches the maximum age. -/
theorem gc_ensures_wait (h : Tidy S.forest s L) (hidle : s.isGarbageCollectorRunning = false) :
    Ensures (fun _ => False) (s.gc S now) fun r => ∃ removed, Collected S now s r.2 L removed ∧
      r.1 = ((L.filter (· ∉ removed)).find? fun p => !r.2.isPinned p).map fun p =>
        max 1 (S.maximumAgeThreshold * 60 - r.2.getAge now p / 1000) := by
  unfold Cache.gc
  refine .check_bind (fun hn => hn hidle) fun _ => ?_
  refine (Tidy.discards.collect_ensures (h.setRunning true)).bind fun r hr => ?_
  obtain ⟨candidate, s₁⟩ := r
  obtain ⟨K, B, rfl, rfl, hsame, htidy, hsoft, B', hL, hB, hage⟩ := hr
  have hpinned : ∀ a ∈ K.filter (s.isPinned ·), s₁.isPinned a = true := fun a ha => by
    rw [hsame.isPinned]
    exact (List.mem_filter.mp ha).2
  refine (htidy.nextCall_ensures hpinned).bind fun wait hwait => .pure ⟨_,
    ((h.setRunning true).collected htidy hsame hsoft hL hB hage).setRunning, hwait.trans ?_⟩
  congr 2
  exact (filter_notMem_filter h.aged.nodup).symm

/-- `gc` returns, and discards what its policy allows. -/
theorem gc_collects (h : Tidy S.forest s L) (hidle : s.isGarbageCollectorRunning = false) :
    ∃ wait s' removed, s.gc S now = .ok (wait, s') ∧ Collected S now s s' L removed := by
  obtain ⟨r, hr, removed, hcollected, -⟩ := (gc_ensures_wait h hidle).exists_ok
  exact ⟨r.1, r.2, removed, hr, hcollected⟩

/-- An intact cache is tidy as long as its aging list is sorted. -/
theorem Intact.tidy (h : Intact True T s L)
    (hsorted : L.Pairwise fun p q => s.lastUsed p ≤ s.lastUsed q) : Tidy T s L :=
  ⟨h.aged, h.registered, fun _ _ hp _ hq => h.pinned.parent hp hq, hsorted⟩

/-- Insertion of an object of the given size, without garbage collection. -/
def exampleInsertSized (ms size : ℕ) (p : ℕ) : ℕ × Call ℕ :=
  (ms * 10 ^ 6, .insert ⟨false, false⟩ (ms * 10 ^ 6) .cached 0 size p)

/-- A soft limit is exceeded, and one object after the other is discarded in front of the pinned object 2, the parent of
which is the root. -/
theorem gc_collects_pressure : ∃ (c : System ℕ Unit) (s' : Cache ℕ Unit) (removed : List ℕ),
    c.cache.agingList = [7, 1, 3, 2, 0] ∧ c.cache.exceedsSoft exampleSetup = true ∧ c.cache.isPinned 2 = true ∧
    (∃ wait, c.cache.gc exampleSetup 6000000 = .ok (wait, s')) ∧
    Collected exampleSetup 6000000 c.cache s' [7, 1, 3, 2, 0] removed := by
  obtain ⟨c, hrun, hc⟩ :=
    exec_any (fun c l => l.2.Placed exampleSetup l.1 c.cache ∧ l.2.Countable exampleSetup c.cache ∧
      l.2.SparesPinned exampleSetup l.1 c.cache)
    [exampleInsertSized 0 100 0, exampleInsertSized 1 300 7, exampleInsertSized 2 300 1, exampleInsertSized 3 150 2,
      exampleInsertSized 4 100 3, exampleCall 5 (.pin ⟨4⟩)]
    (Q := fun c => c.cache.agingList = [7, 1, 3, 2, 0] ∧ c.cache.exceedsSoft exampleSetup = true ∧
      c.cache.isPinned 2 = true ∧ c.cache.isGarbageCollectorRunning = false ∧
      c.cache.agingList.Pairwise fun p q => c.cache.lastUsed p ≤ c.cache.lastUsed q) (by decide +kernel)
  obtain ⟨hlist, hsoft, hpin, hidle, hsorted⟩ := of_decide_eq_true hc
  obtain ⟨L, hintact⟩ :=
    run_intact True (fun _ _ hok => hok.1) (fun _ _ _ hok => hok.2.1) (fun _ _ _ hok => hok.2.2) hrun
  obtain rfl : L = [7, 1, 3, 2, 0] := hintact.agingList_eq.symm.trans hlist
  rw [hlist] at hsorted
  obtain ⟨wait, s', removed, hgc, hcollected⟩ : ∃ wait s' removed, c.cache.gc exampleSetup 6000000 = .ok (wait, s') ∧
      Collected exampleSetup 6000000 c.cache s' [7, 1, 3, 2, 0] removed := gc_collects (hintact.tidy hsorted) hidle
  exact ⟨c, s', removed, hlist, hsoft, hpin, ⟨wait, hgc⟩, hcollected⟩

end Listbrokers.Lru
