import Listbrokers.Lru.Integrity

/-!
# Use of an object

`use` takes the path of an entry out of the aging list, node by node, and
appends it to the end. It finds the end by climbing from the deepest object up
to the path of the entry, and asserts on the way that the ages are the same
(`OneAge`). With this it moves the path; without, the assertion fails.
-/

namespace Listbrokers.Lru

open Framework Cache

variable {P σ : Type} [DecidableEq P] {S : Setup P σ} {T : Forest P} {s s' : Cache P σ} {L : List P}
    {e p q : P} {now : ℕ}

/-- The path of `e` has been moved to the end of the aging list `L`, and nothing else has changed. -/
structure PathMoved (T : Forest P) (now : ℕ) (e : P) (L : List P) (s s' : Cache P σ) : Prop where
  aged : Aged T s' (L.filter (· ∉ T.path e) ++ T.path e)
  oldest : s'.oldestObject = (L.filter (· ∉ T.path e) ++ T.path e).head?
  deepest : s'.deepestYoungestObject = some e
  on_path : ∀ p ∈ T.path e, s'.lastUsed p = now
  off_path : ∀ p, p ∉ T.path e → s'.lastUsed p = s.lastUsed p
  others : s' = { s with
    links := s'.links
    lastUsed := s'.lastUsed
    oldestObject := s'.oldestObject
    deepestYoungestObject := s'.deepestYoungestObject }

/-- `use` moves the path to the end, and returns the number of its edges. -/
def MovesPath (S : Setup P σ) (now : ℕ) (e : P) (L : List P) (s : Cache P σ) : Prop :=
  ∃ s', s.useEntry S now e = .ok (((S.forest.path e).length : ℤ) - 1, s') ∧ PathMoved S.forest now e L s s'

theorem pathMoved_used {oldest : Option P} {links : Links P}
    (haged : Aged S.forest (s.used S.forest now e oldest links) (usedList S.forest e L)) :
    PathMoved S.forest now e L s (s.used S.forest now e oldest links) where
  aged := haged
  oldest := haged.oldest
  deepest := rfl
  on_path _ hp := if_pos hp
  off_path _ hp := if_neg hp
  others := rfl

/-- The first object of the new aging list has no children. -/
theorem Registered.isLeaf_head {sized : Prop} (hreg : Registered sized T s L) (h : Aged T s L) (he : e ∈ L)
    (ho : (usedList T e L).head? = some p) : s.isLeaf p = true := by
  obtain ⟨M, hM⟩ := List.head?_eq_some_iff.mp ho
  have hpair := h.children_first_usedList (e := e)
  rw [hM] at hpair
  refine hreg.isLeaf_iff.mpr fun q hq hpar => ?_
  have hqM : q ∈ p :: M := hM ▸ (h.mem_usedList he).mpr hq
  rcases List.mem_cons.mp hqM with rfl | hqM
  · exact absurd (T.rank_lt hpar) (Nat.lt_irrefl _)
  · exact (List.pairwise_cons.mp hpair).1 q hqM hpar

section

variable {sized : Prop} (h : Aged S.forest s L) (hreg : Registered sized S.forest s L) (he : e ∈ L)
  (hid : (s.id e).isValid = true) (hnow : s.minimumRequiredCreationTime < now)

include h hreg he hid hnow

/-- Under the faults that are left, `use` moves the path. -/
theorem useEntry_moves {allowed : Fault → Prop} (hal : ¬ OneAge S.forest s e → allowed .agingList) :
    Ensures allowed (s.useEntry S now e) fun r => OneAge S.forest s e ∧
      r.1 = ((S.forest.path e).length : ℤ) - 1 ∧ PathMoved S.forest now e L s r.2 := by
  refine (h.useEntry_ensures he (fun hv => ?_) (fun hn => ?_) (fun hlt => absurd hlt (Nat.lt_asymm hnow)) hal
    fun hleaf => ?_).mono fun r hr => ?_
  · rw [hid] at hv
    cases hv
  · rw [hreg.find_id he] at hn
    cases hn
  · obtain ⟨o, ho, hleaf⟩ := hleaf
    rw [hreg.isLeaf_head h he ho] at hleaf
    cases hleaf
  · obtain ⟨-, ⟨heq, -⟩ | ⟨-, hage, hlen, oldest, links, hr2, haged⟩⟩ := hr
    · exact absurd heq (Nat.ne_of_gt hnow)
    · refine ⟨hage, hlen, ?_⟩
      rw [hr2] at haged ⊢
      exact pathMoved_used haged

/-- The assertion of `use` fails when the ages differ. -/
theorem useEntry_asserts (hage : ¬ OneAge S.forest s e) : s.useEntry S now e = .error .agingList := by
  have hens := useEntry_moves h hreg he hid hnow (show ¬ _ → _ = Fault.agingList from fun _ => rfl)
  cases hr : s.useEntry S now e with
  | ok r => exact absurd (hens.ok hr).1 hage
  | error f => rw [hens.fault hr]

/-- `use` moves the path of the entry to the end of the aging list if and only if the part of the deepest path that
stays in its place has been used at one time. -/
theorem use_moves_path : MovesPath S now e L s ↔ OneAge S.forest s e := by
  constructor
  · rintro ⟨s', hs', -⟩
    by_contra hage
    rw [useEntry_asserts h hreg he hid hnow hage] at hs'
    cases hs'
  · intro hage
    obtain ⟨r, hr, -, hlen, hmoved⟩ := (useEntry_moves h hreg he hid hnow fun hn => hn hage).exists_ok
    exact ⟨r.2, by rw [hr, ← hlen], hmoved⟩

end

instance (T : Forest P) (s : Cache P σ) (e : P) : Decidable (OneAge T s e) :=
  inferInstanceAs
    (Decidable (∀ d ∈ s.deepestYoungestObject, ∀ q ∈ T.path d, q ∉ T.path e → s.lastUsed q = s.lastUsed d))

/-- Object 3 is created before its parent 2 is used, and object 4 is inserted below it at the time of the last
insertion, so that 3 becomes the deepest object. -/
def olderThanParentCalls : List (ℕ × Call ℕ) :=
  [exampleInsert 0 0, exampleInsert 1 1, exampleInsert 2 2,
    (7 * 10 ^ 6, .insert ⟨true, true⟩ (5 * 10 ^ 6) .cached 0 10 3),
    exampleInsert 7 7, exampleCall 7 (.purgeEntries true [⟨5⟩]), exampleInsert 7 4]

/-- The aging list ends with the path of the deepest object 3, but its parent 2 is younger, so that the assertion of
`use` fails for the object 1. -/
theorem use_fails_on_ages : ∃ (c : System ℕ Unit) (L : List ℕ),
    Run (Step exampleSetup) (.start 0 ()) olderThanParentCalls c ∧ L = [1, 4, 3, 2, 0] ∧
      Aged exampleSetup.forest c.cache L ∧
      Registered False exampleSetup.forest c.cache L ∧ 1 ∈ L ∧
    (c.cache.id 1).isValid = true ∧ c.cache.minimumRequiredCreationTime < 8000000 ∧
    c.cache.useEntry exampleSetup 8000000 1 = .error .agingList ∧ ¬ MovesPath exampleSetup 8000000 1 L c.cache := by
  obtain ⟨c, hrun, hc⟩ := exec_any (FindsPlace exampleSetup) olderThanParentCalls
    (Q := fun c => c.cache.agingList = [1, 4, 3, 2, 0] ∧ (c.cache.id 1).isValid = true ∧
      c.cache.minimumRequiredCreationTime < 8000000 ∧
      faultOf (c.cache.useEntry exampleSetup 8000000 1) = some .agingList) (by decide +kernel)
  obtain ⟨hlist, hid, hmin, hfault⟩ := of_decide_eq_true hc
  obtain ⟨L, hintact⟩ := run_intact False (fun _ _ hok => hok) (fun hf => hf.elim) (fun hf => hf.elim) hrun
  have hL : L = [1, 4, 3, 2, 0] := hintact.agingList_eq.symm.trans hlist
  have hfails := eq_error_of_faultOf hfault
  refine ⟨c, L, hrun.of_when, hL, hintact.aged, hintact.registered, by rw [hL]; decide, hid, hmin, hfails, ?_⟩
  rintro ⟨s', hs', -⟩
  rw [hfails] at hs'
  cases hs'

/-- A use of object 4 while the deepest object 1 is in another branch. -/
theorem use_moves_path_nested : ∃ (c : System ℕ Unit) (L : List ℕ), L = [4, 3, 2, 1, 0] ∧
    MovesPath exampleSetup 8000000 4 L c.cache := by
  obtain ⟨c, hrun, hc⟩ := exec_any (FindsPlace exampleSetup)
    [exampleInsert 0 0, exampleInsert 1 2, exampleInsert 2 3, exampleInsert 3 4, exampleInsert 4 1]
    (Q := fun c => c.cache.agingList = [4, 3, 2, 1, 0] ∧ (c.cache.id 4).isValid = true ∧
      c.cache.minimumRequiredCreationTime < 8000000 ∧ OneAge exampleSetup.forest c.cache 4) (by decide +kernel)
  obtain ⟨hlist, hid, hmin, hage⟩ := of_decide_eq_true hc
  obtain ⟨L, hintact⟩ := run_intact False (fun _ _ hok => hok) (fun hf => hf.elim) (fun hf => hf.elim) hrun
  have hL : L = [4, 3, 2, 1, 0] := hintact.agingList_eq.symm.trans hlist
  exact ⟨c, L, hL, (use_moves_path hintact.aged hintact.registered (by rw [hL]; decide) hid hmin).mpr hage⟩

end Listbrokers.Lru
