import Listbrokers.Lru.Intact

/-!
# Garbage collection and pinning

The two loops of `gc` go through the aging list. What they have passed is left
with its pinned objects alone: `K.filter (s.isPinned ·)` for the objects `K`
that a loop has passed. So an object that is looked at has no children left but
pinned ones, and none if it is not pinned itself.
-/

namespace Listbrokers.Lru

open Framework Cache

variable {P σ : Type} [DecidableEq P] {S : Setup P σ} {T : Forest P} {s s' : Cache P σ} {L L' A B : List P}
  {c p q y : P} {sized : Prop} {now : ℕ}

/-- The path of the deepest object, which the collector only touches when a hard limit is exceeded. -/
def Cache.deepestPath (T : Forest P) (s : Cache P σ) : List P := s.deepestYoungestObject.elim [] T.path

theorem mem_deepestPath_without (hy : y ≠ c) (notify : Bool) :
    y ∈ (s.without S notify c).deepestPath S.forest ↔ y ∈ s.deepestPath S.forest := by
  simp only [deepestPath, Cache.without]
  by_cases hd : s.deepestYoungestObject = some c
  · rw [if_pos hd, hd, Option.elim_some]
    cases hpar : S.forest.parent c with
    | none => simp [Forest.path_of_root hpar, hy]
    | some q => simp [Forest.path_of_parent hpar, hy]
  · rw [if_neg hd]

/-- Some objects of the list have been discarded. -/
structure Reduced (sized : Prop) (T : Forest P) (s s' : Cache P σ) (L L' : List P) : Prop where
  intact : Intact sized T s' L'
  same : SameData s s'
  sublist : L'.Sublist L
  /-- Pinned objects are left. -/
  keeps_pinned : ∀ p ∈ L, s.isPinned p = true → p ∈ L'
  deepest : ∀ y ∈ L', y ∈ s'.deepestPath T ↔ y ∈ s.deepestPath T

theorem Reduced.refl (h : Intact sized T s L) : Reduced sized T s s L L :=
  ⟨h, .refl s, .refl L, fun _ hp _ => hp, fun _ _ => Iff.rfl⟩

theorem Reduced.trans {s₁ s₂ s₃ : Cache P σ} {L₁ L₂ L₃ : List P} (h : Reduced sized T s₁ s₂ L₁ L₂)
    (h' : Reduced sized T s₂ s₃ L₂ L₃) : Reduced sized T s₁ s₃ L₁ L₃ :=
  ⟨h'.intact, h.same.trans h'.same, h'.sublist.trans h.sublist, fun p hp hpin =>
    h'.keeps_pinned p (h.keeps_pinned p hp hpin) (by rw [h.same.isPinned]; exact hpin),
    fun y hy => (h'.deepest y hy).trans (h.deepest y (h'.sublist.mem hy))⟩

/-- Behind pinned objects, an object that is not pinned has no children. -/
theorem Intact.childless (h : Intact sized T s (A ++ c :: B)) (hA : ∀ a ∈ A, s.isPinned a = true)
    (hc : s.isPinned c = false) : Childless T (A ++ c :: B) c := fun q hq hpar => by
  have := h.pinned.parent (hA q (h.aged.child_before hq hpar)) hpar
  rw [hc] at this
  cases this

/-- Discarding an object that is not pinned. -/
theorem discard_reduces (h : Intact sized S.forest s (A ++ c :: B)) (hchildless : Childless S.forest (A ++ c :: B) c)
    (hc : s.isPinned c = false) (notify : Bool) :
    Ensures (Tolerated sized) (s.discard S notify c) fun r =>
      r.1 = B.head? ∧ Reduced sized S.forest s r.2 (A ++ c :: B) (A ++ B) := by
  refine (discard_ensures h hchildless notify).mono fun r hr => ?_
  obtain ⟨rfl, -, hintact⟩ := hr
  refine ⟨rfl, hintact, sameData_without s notify c, List.Sublist.append_left (List.sublist_cons_self c B) A,
    fun p hp hpin => ?_, fun y hy => mem_deepestPath_without (fun e => ?_) notify⟩
  rotate_left
  · obtain ⟨hcA, hcB, -⟩ := h.aged.chain.not_mem_split
    rcases List.mem_append.mp hy with hy | hy
    · exact hcA (e ▸ hy)
    · exact hcB (e ▸ hy)
  have hpc : p ≠ c := fun e => by
    rw [e, hc] at hpin
    cases hpin
  simp only [List.mem_append, List.mem_cons] at hp ⊢
  tauto

/-! ## The loops -/

/-- What the loops of `gc` need of an invariant: they discard objects that are not pinned, with none but pinned
objects in front of them. -/
structure Discards (S : Setup P σ) (allowed : Fault → Prop) (I : Cache P σ → List P → Prop) : Prop where
  chain {s : Cache P σ} {L : List P} : I s L → s.links.Chain L
  oldest {s : Cache P σ} {L : List P} : I s L → s.oldestObject = L.head?
  count {s : Cache P σ} {L : List P} : I s L → s.count = L.length
  discard {s : Cache P σ} {A B : List P} {c : P} : I s (A ++ c :: B) → (∀ a ∈ A, s.isPinned a = true) →
    s.isPinned c = false → Ensures allowed (s.discard S true c) fun r => r.1 = B.head? ∧ SameData s r.2 ∧ I r.2 (A ++ B)

/-- Where the second loop of `gc` stops. -/
def Relieved (S : Setup P σ) (s : Cache P σ) (B : List P) : Prop :=
  s.isLowEnough S = true ∨ B = [] ∨
    ∃ c, B.head? = some c ∧ s.deepestYoungestObject = some c ∧ s.exceedsHard S = false

namespace Discards

variable {allowed : Fault → Prop} {I : Cache P σ → List P → Prop} (hI : Discards S allowed I)

include hI

/-- The first loop of `gc` passes the objects that have reached the maximum age. -/
theorem collectAged_ensures {n : ℕ} (h : I s (A ++ B)) (hA : ∀ a ∈ A, s.isPinned a = true) (hn : B.length ≤ n) :
    Ensures allowed (collectAged S now n B.head? s) fun r => ∃ K B', B = K ++ B' ∧ r.1 = B'.head? ∧
      SameData s r.2 ∧ I r.2 (A ++ K.filter (s.isPinned ·) ++ B') ∧
      (∀ k ∈ K, maximumAge S ≤ s.getAge now k) ∧ ∀ b, B'.head? = some b → ¬ maximumAge S ≤ s.getAge now b := by
  induction B generalizing n s A with
  | nil =>
    have hdone : collectAged S now n ([] : List P).head? s = .ok (none, s) := by cases n <;> rfl
    rw [hdone]
    exact .pure ⟨[], [], rfl, rfl, .refl s, by simpa using h, by simp, by simp⟩
  | cons c B ih =>
    obtain ⟨m, rfl⟩ : ∃ m, n = m + 1 := ⟨n - 1, by simp at hn; omega⟩
    have hm : B.length ≤ m := by simpa using hn
    rw [List.head?_cons, collectAged]
    refine .ite (fun hage => .ite (fun hc => ?_) fun hc => ?_) fun hage => ?_
    · -- a pinned object is passed
      rw [(hI.chain h).links_at.2]
      refine (ih (A := A ++ [c]) (by simpa using h) (fun a ha => ?_) hm).mono fun r hr => ?_
      · rcases List.mem_append.mp ha with ha | ha
        · exact hA a ha
        · rw [List.mem_singleton.mp ha]
          exact hc
      · obtain ⟨K, B', rfl, hhead, hsame, hinv, hK, hB'⟩ := hr
        refine ⟨c :: K, B', rfl, hhead, hsame, by simpa [hc] using hinv, fun k hk => ?_, hB'⟩
        rcases List.mem_cons.mp hk with rfl | hk
        · exact hage
        · exact hK k hk
    · rw [Bool.not_eq_true] at hc
      refine (hI.discard h hA hc).bind fun r hr => ?_
      obtain ⟨next, s₁⟩ := r
      obtain ⟨rfl, hsame, hinv⟩ := hr
      refine (ih hinv (by rw [hsame.isPinned]; exact hA) hm).mono fun r' hr' => ?_
      obtain ⟨K, B', rfl, hhead, hsame', hinv', hK, hB'⟩ := hr'
      have hlastUsed : s₁.lastUsed = s.lastUsed := hsame.lastUsed
      rw [hsame.isPinned] at hinv'
      simp only [Cache.getAge, hlastUsed] at hK hB'
      refine ⟨c :: K, B', rfl, hhead, hsame.trans hsame', by simpa [hc] using hinv', fun k hk => ?_, hB'⟩
      rcases List.mem_cons.mp hk with rfl | hk
      · exact hage
      · exact hK k hk
    · refine .pure ⟨[], c :: B, rfl, rfl, .refl s, by simpa using h, by simp, fun b hb => ?_⟩
      cases hb
      exact hage

/-- The second loop of `gc` passes some objects. When it discards one, the sizes are not low enough, and the object
is not the deepest one unless a hard limit is exceeded. -/
theorem relievePressure_passes {n : ℕ} (h : I s (A ++ B)) (hA : ∀ a ∈ A, s.isPinned a = true) (hn : B.length ≤ n) :
    Ensures allowed (relievePressure S n B.head? s) fun r => ∃ K B', B = K ++ B' ∧ r.1 = B'.head? ∧
      SameData s r.2 ∧ I r.2 (A ++ K.filter (s.isPinned ·) ++ B') ∧ Relieved S r.2 B' ∧
      ∀ K₁ y K₂, K = K₁ ++ y :: K₂ → s.isPinned y = false →
        ∃ s₁, I s₁ (A ++ K₁.filter (s.isPinned ·) ++ y :: (K₂ ++ B')) ∧ s₁.isLowEnough S = false ∧
          (s₁.deepestYoungestObject ≠ some y ∨ s₁.exceedsHard S = true) := by
  induction B generalizing n s A with
  | nil =>
    have hdone : relievePressure S n ([] : List P).head? s = .ok (none, s) := by cases n <;> rfl
    rw [hdone]
    exact .pure ⟨[], [], rfl, rfl, .refl s, by simpa using h, .inr (.inl rfl), by simp⟩
  | cons c B ih =>
    obtain ⟨m, rfl⟩ : ∃ m, n = m + 1 := ⟨n - 1, by simp at hn; omega⟩
    have hm : B.length ≤ m := by simpa using hn
    have hinv : I s (A ++ ([] : List P).filter (s.isPinned ·) ++ c :: B) := by simpa using h
    have hstop (hrelieved : Relieved S s (c :: B)) : Ensures allowed (.ok (some c, s)) fun r : Option P × Cache P σ =>
        ∃ K B', c :: B = K ++ B' ∧ r.1 = B'.head? ∧ SameData s r.2 ∧ I r.2 (A ++ K.filter (s.isPinned ·) ++ B') ∧
          Relieved S r.2 B' ∧ ∀ K₁ y K₂, K = K₁ ++ y :: K₂ → s.isPinned y = false →
            ∃ s₁, I s₁ (A ++ K₁.filter (s.isPinned ·) ++ y :: (K₂ ++ B')) ∧ s₁.isLowEnough S = false ∧
              (s₁.deepestYoungestObject ≠ some y ∨ s₁.exceedsHard S = true) :=
      .pure ⟨[], c :: B, rfl, rfl, .refl s, hinv, hrelieved, by simp⟩
    rw [List.head?_cons, relievePressure]
    refine .ite (fun hlow => hstop (.inl hlow)) fun hlow => .ite (fun hc => ?_) fun hc =>
      .ite (fun hgo => ?_) fun hhot => ?_
    · rw [(hI.chain h).links_at.2]
      refine (ih (A := A ++ [c]) (by simpa using h) (fun a ha => ?_) hm).mono fun r hr => ?_
      · rcases List.mem_append.mp ha with ha | ha
        · exact hA a ha
        · rw [List.mem_singleton.mp ha]
          exact hc
      · obtain ⟨K, B', rfl, hhead, hsame, hinv', hrelieved, hpassed⟩ := hr
        refine ⟨c :: K, B', rfl, hhead, hsame, by simpa [hc] using hinv', hrelieved, fun K₁ y K₂ hK hy => ?_⟩
        rcases List.cons_eq_append_iff.mp hK with ⟨-, hcy⟩ | ⟨K₁, rfl, hK'⟩
        · rw [(List.cons.inj hcy).1, hc] at hy
          cases hy
        · simpa [hc] using hpassed K₁ y K₂ hK' hy
    · rw [Bool.not_eq_true] at hc
      refine (hI.discard h hA hc).bind fun r hr => ?_
      obtain ⟨next, s₁⟩ := r
      obtain ⟨rfl, hsame, hinv₁⟩ := hr
      refine (ih hinv₁ (by rw [hsame.isPinned]; exact hA) hm).mono fun r' hr' => ?_
      obtain ⟨K, B', rfl, hhead, hsame', hinv', hrelieved, hpassed⟩ := hr'
      rw [hsame.isPinned] at hinv' hpassed
      refine ⟨c :: K, B', rfl, hhead, hsame.trans hsame', by simpa [hc] using hinv', hrelieved, fun K₁ y K₂ hK hy => ?_⟩
      rcases List.cons_eq_append_iff.mp hK with ⟨rfl, hcy⟩ | ⟨K₁, rfl, hK'⟩
      · obtain ⟨rfl, rfl⟩ := List.cons.inj hcy
        exact ⟨s, hinv, by simpa using hlow, hgo⟩
      · simpa [hc] using hpassed K₁ y K₂ hK' hy
    · -- the deepest object is not touched
      simp only [ne_eq, not_or, not_not, Bool.not_eq_true] at hhot
      exact hstop (.inr (.inr ⟨c, rfl, hhot⟩))

theorem relievePressure_ensures {n : ℕ} (h : I s (A ++ B)) (hA : ∀ a ∈ A, s.isPinned a = true) (hn : B.length ≤ n) :
    Ensures allowed (relievePressure S n B.head? s) fun r => ∃ K B', B = K ++ B' ∧ r.1 = B'.head? ∧
      SameData s r.2 ∧ I r.2 (A ++ K.filter (s.isPinned ·) ++ B') ∧ Relieved S r.2 B' :=
  (hI.relievePressure_passes h hA hn).mono fun _ ⟨K, B', hB, hhead, hsame, hinv, hrelieved, _⟩ =>
    ⟨K, B', hB, hhead, hsame, hinv, hrelieved⟩

/-- The two loops discard some objects `K` that are not pinned, from the oldest on. -/
theorem collect_ensures (h : I s L) :
    Ensures allowed (s.collect S now) fun r => ∃ K B, L = K ++ B ∧ r.1 = B.head? ∧ SameData s r.2 ∧
      I r.2 (K.filter (s.isPinned ·) ++ B) ∧ (r.2.exceedsSoft S = false ∨ Relieved S r.2 B) ∧
      ∃ B', B' <:+ L ∧ B <:+ B' ∧ ∀ b, B'.head? = some b → ¬ maximumAge S ≤ s.getAge now b := by
  unfold Cache.collect
  rw [hI.oldest h]
  refine (hI.collectAged_ensures (A := []) h (by simp) (Nat.le_of_eq (hI.count h).symm)).bind fun r hr => ?_
  obtain ⟨candidate, s₁⟩ := r
  obtain ⟨K, B, rfl, rfl, hsame, hinv, -, hB⟩ := hr
  rw [List.nil_append] at hinv
  refine .ite (fun _ => ?_) fun hsoft => .pure ⟨K, B, rfl, rfl, hsame, hinv, .inl (by simpa using hsoft), B,
    List.suffix_append K B, List.suffix_refl B, hB⟩
  refine (hI.relievePressure_ensures hinv (fun a ha => ?_) ?_).mono fun r' hr' => ?_
  · rw [hsame.isPinned]
    exact (List.mem_filter.mp ha).2
  · have := hI.count hinv
    rw [this, List.length_append]
    exact Nat.le_add_left _ _
  · obtain ⟨K', B', rfl, hhead, hsame', hinv', hrelieved⟩ := hr'
    rw [hsame.isPinned, ← List.filter_append] at hinv'
    exact ⟨K ++ K', B', by simp, hhead, hsame.trans hsame', hinv', .inr hrelieved, K' ++ B', List.suffix_append K _,
      List.suffix_append K' B', hB⟩

end Discards

/-- The loops of `gc` go on from what has been discarded before. -/
theorem Reduced.discards (s₀ : Cache P σ) (L₀ : List P) :
    Discards S (Tolerated sized) fun s L => Reduced sized S.forest s₀ s L₀ L where
  chain h := h.intact.aged.chain
  oldest h := h.intact.aged.oldest
  count h := h.intact.count_eq
  discard h hA hc := (discard_reduces h.intact (h.intact.childless hA hc) hc true).mono fun _ hr =>
    ⟨hr.1, hr.2.same, h.trans hr.2⟩

section

omit [DecidableEq P]

theorem nextCall_ensures (candidate : Option P) :
    Ensures (Tolerated sized) (s.nextCall S now candidate) fun _ => True := by
  unfold nextCall
  refine .ite (fun _ => .check_bind (fun _ => tolerated (by decide)) fun _ => .pure trivial) fun _ => ?_
  cases s.skipPinned s.count candidate with
  | none => exact .check_bind (fun _ => tolerated (by decide)) fun _ => .pure trivial
  | some p => exact .pure trivial

end

theorem Intact.congr (h : Intact sized T s L) (haged : Aged T s' L) (hsame : SameData s s')
    (hall : s'.allObjects = s.allObjects) (hchildren : s'.childrenCount = s.childrenCount)
    (hsize : s'.totalSize = s.totalSize) : Intact sized T s' L where
  aged := haged
  registered := by
    refine ⟨fun p => ?_, ?_, fun p hp q hq => ?_, fun p => ?_, fun hs => ?_, ?_⟩
    · rw [hall]; exact h.registered.cached p
    · rw [hall]; exact h.registered.nodup
    · rw [hsame.id]; exact h.registered.ids p hp q hq
    · rw [hchildren]; exact h.registered.children p
    · rw [hsize, hsame.objectSize]; exact h.registered.size hs
    · rw [hsame.nextId]; exact h.registered.nextId
  pinned := h.pinned.congr (fun _ => Iff.rfl) hsame.id hsame.isPinned hsame.pinnedObjectId

/-- Setting the flag of the garbage collector. -/
theorem Intact.setRunning (h : Intact sized T s L) (b : Bool) :
    Intact sized T { s with isGarbageCollectorRunning := b } L :=
  h.congr (h.aged.congr rfl rfl rfl rfl) ⟨rfl, rfl, rfl, rfl, rfl, rfl, rfl⟩ rfl rfl rfl

/-- The two loops discard objects that are not pinned. -/
theorem collect_ensures (h : Intact sized S.forest s L) :
    Ensures (Tolerated sized) (s.collect S now) fun r => ∃ L', Reduced sized S.forest s r.2 L L' := by
  refine ((Reduced.discards s L).collect_ensures (.refl h)).mono fun r hr => ?_
  obtain ⟨K, B, -, -, -, hred, -⟩ := hr
  exact ⟨_, hred⟩

/-- The garbage collector discards objects that are not pinned. -/
theorem gc_ensures (h : Intact sized S.forest s L) :
    Ensures (Tolerated sized) (s.gc S now) fun r => ∃ L', Reduced sized S.forest s r.2 L L' := by
  unfold Cache.gc
  refine .check_bind (fun _ => tolerated (by decide)) fun _ => ?_
  refine (collect_ensures (h.setRunning true)).bind fun r hr => ?_
  obtain ⟨candidate, s₁⟩ := r
  obtain ⟨L', hred⟩ := hr
  refine (nextCall_ensures candidate).bind fun wait _ => .pure ⟨L', ?_⟩
  obtain ⟨h1, h2, h3, h4, h5, h6, h7⟩ := hred.same
  exact ⟨hred.intact.setRunning false, ⟨h1, h2, h3, h4, h5, h6, h7⟩, hred.sublist, hred.keeps_pinned, hred.deepest⟩

theorem gcIf_ensures (h : Intact sized S.forest s L) (b : Bool) :
    Ensures (Tolerated sized) (s.gcIf S b now) fun s' => ∃ L', Reduced sized S.forest s s' L L' := by
  unfold gcIf
  refine .ite (fun _ => (gc_ensures h).bind fun r hr => .pure hr) fun _ => .pure ⟨L, .refl h⟩

end Listbrokers.Lru
