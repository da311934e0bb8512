import Listbrokers.Lru.Policy

/-!
# The time until the next collection

The interval that `gc` returns is the maximum age, in seconds, less the age of
the oldest object that it leaves and that is not pinned, which is cut off to
milliseconds and then to seconds. As an age is cut off, the interval is not too
short: the object has reached the maximum age when it has passed, and is
discarded then (`gc_interval`). There is no such interval when `gc` has
discarded all objects that are not pinned.
-/

namespace Listbrokers.Lru

open Framework Cache

variable {P σ : Type} [DecidableEq P] {S : Setup P σ} {T : Forest P} {s s' : Cache P σ} {L : List P} {p : P} {now n : ℕ}
  {wait : Option ℕ}

/-- The oldest object that may be discarded. -/
def Cache.oldestUnpinned (s : Cache P σ) : Option P := s.agingList.find? fun p => !s.isPinned p

theorem Tidy.agingList_eq (h : Tidy T s L) : s.agingList = L := h.aged.agingList_eq (Nat.le_of_eq h.count_eq.symm)

section

omit [DecidableEq P]

/-- The age of an object when it is not used for some seconds. -/
theorem getAge_add (hpast : s.lastUsed p ≤ now) : s.getAge (now + n * 10 ^ 9) p = s.getAge now p + n * 1000 := by
  rw [Cache.getAge, Cache.getAge, show now + n * 10 ^ 9 - s.lastUsed p =
    now - s.lastUsed p + n * 1000 * 10 ^ 6 by omega]
  exact Nat.add_mul_div_right _ _ (by decide)

/-- The interval that `gc` returns for an object that has not reached the maximum age. -/
theorem interval_bounds (hage : s.getAge now p < maximumAge S) (hpast : s.lastUsed p ≤ now)
    (hn : n = max 1 (S.maximumAgeThreshold * 60 - s.getAge now p / 1000)) :
    1 ≤ n ∧ n ≤ max (S.maximumAgeThreshold * 60) 1 ∧ maximumAge S ≤ s.getAge (now + n * 10 ^ 9) p := by
  rw [getAge_add hpast]
  rw [maximumAge] at hage ⊢
  omega

end

/-- An object that has reached the maximum age is discarded. -/
theorem Tidy.gc_discards (h : Tidy S.forest s L) (hidle : s.isGarbageCollectorRunning = false)
    (hpinned : s.isPinned p = false) (hage : maximumAge S ≤ s.getAge now p) :
    ∃ wait s', s.gc S now = .ok (wait, s') ∧ p ∉ s'.allObjects := by
  obtain ⟨r, hr, removed, hcollected, -⟩ := (gc_ensures_wait h hidle).exists_ok
  refine ⟨r.1, r.2, hr, fun hp => ?_⟩
  have hyoung := hcollected.young p hp (by rw [hcollected.same.isPinned]; exact hpinned)
  rw [Cache.getAge, hcollected.same.lastUsed] at hyoung
  exact Nat.not_le.mpr hyoung hage

/-- If `gc` leaves objects that are not pinned, then it returns an interval after which it will discard the oldest
of them, whatever happens to the cache until then, if this object is neither used nor pinned. -/
theorem gc_interval (h : Tidy S.forest s L) (hidle : s.isGarbageCollectorRunning = false)
    (hpast : ∀ p ∈ L, s.lastUsed p ≤ now) :
    ∃ wait s', s.gc S now = .ok (wait, s') ∧ ((∃ p ∈ s'.allObjects, s'.isPinned p = false) →
      ∃ n p, wait = some n ∧ s'.oldestUnpinned = some p ∧ 1 ≤ n ∧ n ≤ max (S.maximumAgeThreshold * 60) 1 ∧
        maximumAge S ≤ s'.getAge (now + n * 10 ^ 9) p ∧
        ∀ s₁ L₁, Tidy S.forest s₁ L₁ → s₁.isGarbageCollectorRunning = false → s₁.isPinned p = false →
          s₁.lastUsed p = s'.lastUsed p →
          ∃ wait' s₂, s₁.gc S (now + n * 10 ^ 9) = .ok (wait', s₂) ∧ p ∉ s₂.allObjects) := by
  obtain ⟨⟨wait, s'⟩, hgc, removed, hcollected, hwait⟩ := Ensures.exists_ok (x := s.gc S now) (gc_ensures_wait h hidle)
  refine ⟨wait, s', hgc, fun ⟨q, hq, hqPinned⟩ => ?_⟩
  have hlist := hcollected.tidy.agingList_eq
  rw [← hlist] at hwait
  obtain ⟨p, hp⟩ : ∃ p, s'.oldestUnpinned = some p := by
    refine Option.isSome_iff_exists.mp (List.find?_isSome.mpr ⟨q, ?_, by simp [hqPinned]⟩)
    rw [hlist]
    exact (hcollected.tidy.registered.cached q).mp hq
  have hpMem := List.mem_of_find?_eq_some hp
  have hpPinned : s'.isPinned p = false := by simpa using List.find?_some hp
  rw [hlist] at hpMem
  have hpPast : s'.lastUsed p ≤ now := by
    rw [hcollected.same.lastUsed]
    exact hpast p (List.mem_of_mem_filter hpMem)
  have hyoung := hcollected.young p ((hcollected.tidy.registered.cached p).mpr hpMem) hpPinned
  obtain ⟨hpos, hmax, hage⟩ := interval_bounds hyoung hpPast rfl
  change wait = s'.oldestUnpinned.map _ at hwait
  rw [hp, Option.map_some] at hwait
  refine ⟨_, p, hwait, hp, hpos, hmax, hage, fun s₁ L₁ htidy hidle' hpinned hused =>
    htidy.gc_discards hidle' hpinned ?_⟩
  rwa [Cache.getAge, hused]

/-- A run with a root and two objects below it, one of which is pinned. -/
def intervalCalls : List (ℕ × Call ℕ) :=
  [exampleInsert 0 0, exampleInsert 300 1, exampleInsert 1700 2, exampleCall 1800 (.pin ⟨3⟩)]

/-- Object 1 is the oldest one that is not pinned, and 898 seconds are left until it has reached the maximum age. -/
theorem gc_interval_pinned : ∃ (c : System ℕ Unit) (s' : Cache ℕ Unit), Run (Step exampleSetup) (.start 0 ())
    intervalCalls c ∧
    c.cache.gc exampleSetup 2900000000 = .ok (some 898, s') ∧ s'.oldestUnpinned = some 1 ∧
    maximumAge exampleSetup ≤ s'.getAge (2900000000 + 898 * 10 ^ 9) 1 := by
  obtain ⟨c, hrun, hc⟩ :=
    exec_any (fun c l => l.2.Placed exampleSetup l.1 c.cache ∧ l.2.Countable exampleSetup c.cache ∧
      l.2.SparesPinned exampleSetup l.1 c.cache) intervalCalls
    (Q := fun c => c.cache.isGarbageCollectorRunning = false ∧
      (c.cache.agingList.Pairwise fun p q => c.cache.lastUsed p ≤ c.cache.lastUsed q) ∧
      (∀ p ∈ c.cache.agingList, c.cache.lastUsed p ≤ 2900000000) ∧
      (c.cache.gc exampleSetup 2900000000).toOption.any fun r =>
        r.1 = some 898 ∧ r.2.oldestUnpinned = some 1 ∧ 1 ∈ r.2.allObjects ∧ r.2.isPinned 1 = false) (by decide +kernel)
  obtain ⟨hidle, hsorted, hpast, hcollected⟩ := of_decide_eq_true hc
  obtain ⟨L, hintact⟩ :=
    run_intact True (fun _ _ hok => hok.1) (fun _ _ _ hok => hok.2.1) (fun _ _ _ hok => hok.2.2) hrun
  rw [hintact.agingList_eq] at hsorted hpast
  obtain ⟨wait, s', hgc, hinterval⟩ := gc_interval (hintact.tidy hsorted) hidle hpast
  rw [hgc] at hcollected
  obtain ⟨rfl, holdest, hmem, hunpinned⟩ := of_decide_eq_true hcollected
  obtain ⟨n, p, hn, hp, -, -, hage, -⟩ := hinterval ⟨1, hmem, hunpinned⟩
  obtain rfl := Option.some.inj hn
  obtain rfl := Option.some.inj (hp.symm.trans holdest)
  exact ⟨c, s', hrun.of_when, hgc, holdest, hage⟩

/-- The root is the only object, and has reached the maximum age: `gc` discards it, and returns no interval. -/
theorem gc_without_interval : ∃ (c : System ℕ Unit) (L : List ℕ) (s' : Cache ℕ Unit),
    Run (Step exampleSetup) (.start 0 ()) [exampleInsert 0 0] c ∧ Tidy exampleSetup.forest c.cache L ∧
    (∃ p ∈ L, c.cache.isPinned p = false) ∧ (∀ p ∈ L, c.cache.lastUsed p ≤ 900000000000) ∧
    c.cache.gc exampleSetup 900000000000 = .ok (none, s') := by
  obtain ⟨c, hrun, hc⟩ :=
    exec_any (fun c l => l.2.Placed exampleSetup l.1 c.cache ∧ l.2.Countable exampleSetup c.cache ∧
      l.2.SparesPinned exampleSetup l.1 c.cache) [exampleInsert 0 0]
    (Q := fun c => c.cache.agingList = [0] ∧ c.cache.isPinned 0 = false ∧ c.cache.lastUsed 0 = 0 ∧
      (c.cache.gc exampleSetup 900000000000).toOption.map Prod.fst = some none) (by decide +kernel)
  obtain ⟨hlist, hpinned, hused, hgc⟩ := of_decide_eq_true hc
  obtain ⟨L, hintact⟩ :=
    run_intact True (fun _ _ hok => hok.1) (fun _ _ _ hok => hok.2.1) (fun _ _ _ hok => hok.2.2) hrun
  obtain rfl : L = [0] := hintact.agingList_eq.symm.trans hlist
  cases hresult : c.cache.gc exampleSetup 900000000000 with
  | error e =>
    rw [hresult] at hgc
    cases hgc
  | ok r =>
    obtain ⟨wait, s'⟩ := r
    obtain rfl : wait = none := by simpa [hresult, Except.toOption] using hgc
    exact ⟨c, [0], s', hrun.of_when, hintact.tidy (by simp), ⟨0, by simp, hpinned⟩, by simp [hused], hresult⟩

end Listbrokers.Lru
