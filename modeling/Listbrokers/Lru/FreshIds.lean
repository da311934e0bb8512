import Listbrokers.Lru.Effects
import Listbrokers.Lru.Integrity

/-!
# New IDs

The generator tries all IDs of a context from its cursor on, in a cycle
(`search_eq`). `insert` takes what the generator returns for an ID even if there
is none left, and puts the entry into the cache under the invalid ID.
`insert_again` releases the old ID before it asks for another one, so that the
generator may return the old one when its cursor has gone round.
-/

namespace Listbrokers.Lru

open Framework Cache

variable {P σ : Type} [DecidableEq P] {S : Setup P σ} {s s' : Cache P σ} {c c' : System P σ} {calls : List (ℕ × Call P)}
  {e p q : P} {now : ℕ} {content : σ}

namespace CacheIdGenerator

/-- The values that the generator tries, from the cursor on. -/
def candidate (start k : ℕ) : ℕ := (start - 1 + k) % idMax + 1

theorem candidate_le (start k : ℕ) : 0 < candidate start k ∧ candidate start k ≤ idMax :=
  Wrapping.nth_mem (by decide : 1 ≤ idMax) start k

/-- All IDs of a context, from the cursor on. -/
def candidates (mode : CacheMode) (ctx start : ℕ) : List ListId :=
  (List.range idMax).map fun k => makeListId (candidate start k) mode ctx

/-- The generator returns the first candidate that is free. -/
theorem search_eq {isFree : ListId → Bool} {mode : CacheMode} {ctx start : ℕ} (h : 0 < start ∧ start ≤ idMax) :
    (search isFree mode ctx start idMax start).1 = ((candidates mode ctx start).find? isFree).getD .invalid := by
  have hids : (ofCache start).ids mode ctx = candidates mode ctx start := by
    rw [ids, Wrapping.round, List.map_map]
    rfl
  obtain ⟨cursor, hsearch, -⟩ := search_eq_find h isFree mode ctx
  rw [hsearch, hids]

end CacheIdGenerator

/-- What a refused insertion must not change. -/
structure Unchanged (s s' : Cache P σ) : Prop where
  cached : ∀ p, p ∈ s'.allObjects ↔ p ∈ s.allObjects
  ids : ∀ p ∈ s.allObjects, s'.id p = s.id p
  agingList : s'.agingList = s.agingList
  children : s'.childrenCount = s.childrenCount
  pinned : s'.pinnedObjectId = s.pinnedObjectId
  size : s'.totalSize = s.totalSize

section

omit [DecidableEq P]

theorem Unchanged.refl (s : Cache P σ) : Unchanged s s := ⟨fun _ => Iff.rfl, fun _ _ => rfl, rfl, rfl, rfl, rfl⟩

end

/-- The result of an insertion: nothing has happened if there is no ID, and an ID has not been in use before. -/
structure GivesFreshId (s : Cache P σ) (r : ListId × Cache P σ) : Prop where
  refused : r.1.isValid = false → Unchanged s r.2
  fresh : r.1.isValid = true → ∀ p ∈ s.allObjects, s.id p ≠ r.1

/-- An ID is left in the context. -/
def HasFreeId (s : Cache P σ) (mode : CacheMode) (ctx : ℕ) : Prop :=
  ∃ raw, (0 < raw ∧ raw ≤ idMax) ∧ s.find (CacheIdGenerator.makeListId raw mode ctx) = none

/-- The generator meets an ID that is free before it comes to the one that the entry has now. -/
def MeetsFreeId (s : Cache P σ) (entry : P) : Prop :=
  let old := s.id entry
  let ctx := CacheIdGenerator.getContext old
  ∃ K i M, CacheIdGenerator.candidates (CacheIdGenerator.getCacheMode old) ctx (s.nextId ctx) = K ++ i :: M ∧
    s.find i = none ∧ old ∉ K

/-! ## Insertion -/

section

omit [DecidableEq P]

/-- The generator returns a valid ID if one is left. -/
theorem search_isValid_iff (h : NextIds s) (mode : CacheMode) (ctx : ℕ) :
    (CacheIdGenerator.search (fun i => (s.find i).isNone) mode ctx (s.nextId ctx) idMax (s.nextId ctx)).1.isValid =
    true ↔
      HasFreeId s mode ctx := by
  constructor
  · intro hvalid
    rw [CacheIdGenerator.search_eq (h ctx)] at hvalid
    cases hfind : (CacheIdGenerator.candidates mode ctx (s.nextId ctx)).find? fun i => (s.find i).isNone with
    | none =>
      rw [hfind] at hvalid
      cases hvalid
    | some i =>
      obtain ⟨k, -, rfl⟩ := List.mem_map.mp (List.mem_of_find?_eq_some hfind)
      exact ⟨_, CacheIdGenerator.candidate_le _ k, by simpa using List.find?_some hfind⟩
  · rintro ⟨raw, hraw, hfree⟩
    exact CacheIdGenerator.search_isValid (h ctx) hraw (by simp [hfree])

end

/-- An insertion gives a new ID if it is rejected, or if there is one. -/
theorem insert_fresh (h : NextIds s) {handlers : Handlers} {created ctx size : ℕ} {mode : CacheMode} {entry : P}
    {r : ListId × Cache P σ} (hrun : s.insert S now handlers created mode ctx size entry = .ok r)
    (hok : ¬ s.Accepts S created entry ∨ HasFreeId s mode ctx) : GivesFreshId s r := by
  rcases (insert_effect s).ok hrun with ⟨-, rfl⟩ | ⟨hplaced, -, hsearch⟩
  · exact ⟨fun _ => .refl s, nofun⟩
  · have hvalid := (search_isValid_iff h mode ctx).mpr (hok.resolve_left fun hn => hn hplaced.accepts)
    rw [← hsearch] at hvalid
    refine ⟨fun hinvalid => ?_, fun _ => find_eq_none.mp hplaced.free⟩
    rw [hvalid] at hinvalid
    cases hinvalid

/-- An accepted insertion puts its entry into the cache, even if there is no ID left. -/
theorem insert_fresh_only (h : NextIds s) {created ctx size : ℕ} {mode : CacheMode} {entry : P}
    {r : ListId × Cache P σ} (hrun : s.insert S now ⟨false, false⟩ created mode ctx size entry = .ok r)
    (hnew : (s.id entry).isValid = false → entry ∉ s.allObjects) (hfresh : GivesFreshId s r) :
    ¬ s.Accepts S created entry ∨ HasFreeId s mode ctx := by
  rcases (insert_effect s).ok hrun with ⟨hn, -⟩ | ⟨hplaced, hmem, hsearch⟩
  · exact .inl hn
  · refine .inr ((search_isValid_iff h mode ctx).mp ?_)
    rw [← hsearch]
    by_contra hinvalid
    have hunchanged := hfresh.refused (by simpa using hinvalid)
    exact hnew hplaced.accepts.1 ((hunchanged.cached entry).mp (hmem rfl))

/-! ## Insertion under another ID -/

theorem insertAgain_fresh_iff (h : NextIds s) {entry : P} {r : ListId × Cache P σ} (hrun : s.insertAgain entry = .ok r)
    (hvalid : (s.id entry).isValid = true) :
    GivesFreshId s r ↔ s.find (s.id entry) = none ∨ MeetsFreeId s entry := by
  rcases (insertAgain_effect s).ok hrun with ⟨hfind, rfl⟩ | ⟨hren, hnew, hsearch⟩
  · exact ⟨fun _ => .inl hfind, fun _ => ⟨fun _ => .refl s, nofun⟩⟩
  have hnew := hnew h hvalid
  -- the ID is new if it is not the old one
  have hfresh : GivesFreshId s r ↔ r.1 ≠ s.id entry := by
    constructor
    · intro hgives he
      obtain ⟨p, hp⟩ := Option.ne_none_iff_exists'.mp hren.found
      obtain ⟨hmem, hid⟩ := mem_of_find hp
      exact hgives.fresh hnew p hmem (hid.trans he.symm)
    · intro hne
      refine ⟨fun hinvalid => ?_, fun _ p hp => ?_⟩
      · rw [hnew] at hinvalid
        cases hinvalid
      · by_cases hid : s.id p = s.id entry
        · exact fun he => hne (he.symm.trans hid)
        · exact hren.free p hp hid
  rw [hfresh, or_iff_right hren.found]
  rw [CacheIdGenerator.search_eq (h _)] at hsearch
  unfold MeetsFreeId
  dsimp only
  generalize CacheIdGenerator.candidates _ _ _ = candidates at hsearch ⊢
  constructor
  · intro hne
    cases hfind : candidates.find? fun j => (s.find j).isNone || decide (j = s.id entry) with
    | none =>
      rw [hsearch, hfind] at hnew
      cases hnew
    | some i =>
      rw [hfind, Option.getD_some] at hsearch
      obtain ⟨hfree, K, M, hlist, hK⟩ := List.find?_eq_some_iff_append.mp hfind
      refine ⟨K, i, M, hlist, ?_, fun hold => by simpa using hK _ hold⟩
      rw [hsearch] at hne
      simpa [hne] using hfree
  · rintro ⟨K, i, M, rfl, hfree, hold⟩
    have hne : i ≠ s.id entry := fun e => hren.found (e ▸ hfree)
    rw [List.find?_append, List.find?_cons_of_pos (by simp [hfree])] at hsearch
    cases hfind : K.find? fun j => (s.find j).isNone || decide (j = s.id entry) with
    | none =>
      rw [hfind, Option.none_or, Option.getD_some] at hsearch
      exact hsearch ▸ hne
    | some j =>
      rw [hfind, Option.some_or, Option.getD_some] at hsearch
      rw [hsearch]
      exact fun e => hold (e ▸ List.mem_of_find?_eq_some hfind)

/-! ## Runs -/

theorem run_nextIds (h : Run (Step S) (.start now content) calls c) : NextIds c.cache := by
  refine h.invariant (P := fun c => NextIds c.cache) (fun c l c' hc hstep => ?_)
    fun _ => ⟨Nat.one_pos, show 1 ≤ idMax by decide⟩
  exact ((Call.run_effect l.2 c.cache).ok hstep.2.2.1).nextIds hc

/-- The run in which the cursor goes round: the root and another object, which gets all IDs of the context, one
after the other. -/
def wrapCalls : List (ℕ × Call ℕ) :=
  [exampleInsert 0 0, exampleInsert 1 1] ++ List.replicate (idMax - 2) (exampleCall 1 (.insertAgain 1))

/-- The root has the first ID, the other object the `n`th one, and the cursor is behind it. -/
structure Renamed (n : ℕ) (c : System ℕ Unit) : Prop where
  now : c.now = 10 ^ 6
  allObjects : c.cache.allObjects = [1, 0]
  root : c.cache.id 0 = ⟨1⟩
  other : c.cache.id 1 = ⟨n⟩
  nextId : c.cache.nextId 0 = if n < idMax then n + 1 else 1

theorem getContext_of_lt {n : ℕ} (h : n ≤ idMax) : CacheIdGenerator.getContext ⟨n⟩ = 0 := by
  rw [idMax] at h
  rw [CacheIdGenerator.getContext, Nat.shiftRight_eq_div_pow]
  exact Nat.div_eq_of_lt (show n < 2 ^ 28 by omega)

theorem getCacheMode_of_lt {n : ℕ} (h : n ≤ idMax) : CacheIdGenerator.getCacheMode ⟨n⟩ = .cached := by
  have hlt : n < 2 ^ 27 := by rw [idMax] at h; omega
  rw [CacheIdGenerator.getCacheMode, Nat.testBit_lt_two_pow hlt]
  rfl

theorem makeListId_cached (n : ℕ) : CacheIdGenerator.makeListId n .cached 0 = ⟨n⟩ := by
  simp [CacheIdGenerator.makeListId]

/-- The first candidate is taken if it is free. -/
theorem search_first {f : ListId → Bool} {n : ℕ} (start next : ℕ) (hfree : f ⟨next⟩ = true) :
    CacheIdGenerator.search f .cached 0 start (n + 1) next = (⟨next⟩, if next < idMax then next + 1 else 1) := by
  simp only [CacheIdGenerator.search, makeListId_cached, hfree, if_true]

/-- `insert_again` when the next ID is free after the old one has been released. -/
theorem insertAgain_first (entry : ℕ) {s : Cache ℕ Unit} {n next : ℕ} (hfind : s.find ⟨n⟩ ≠ none)
    (hid : s.id entry = ⟨n⟩) (hn : n ≤ idMax) (hnext : s.nextId 0 = next)
    (hfree : ∀ p ∈ s.allObjects, s.id p ≠ ⟨n⟩ → s.id p ≠ ⟨next⟩) :
    s.insertAgain entry = .ok (⟨next⟩, { s with
      allObjects := entry :: s.allObjects.filter (s.id · ≠ ⟨n⟩)
      nextId := Function.update s.nextId 0 (if next < idMax then next + 1 else 1)
      id := Function.update s.id entry ⟨next⟩
      pinnedObjectId := if ⟨n⟩ = s.pinnedObjectId then ⟨next⟩ else s.pinnedObjectId }) := by
  have hnone : ({ s with allObjects := s.allObjects.filter (s.id · ≠ ⟨n⟩) } : Cache ℕ Unit).find ⟨next⟩ = none := by
    refine find_eq_none.mpr fun p hp => ?_
    obtain ⟨hp, hne⟩ := List.mem_filter.mp hp
    exact hfree p hp (by simpa using hne)
  have hsearch := search_first (n := idMax - 1)
    (f := fun i => (({ s with allObjects := s.allObjects.filter (s.id · ≠ ⟨n⟩) } : Cache ℕ Unit).find i).isNone)
      next next
    (by rw [hnone]; rfl)
  rw [show idMax - 1 + 1 = idMax by decide] at hsearch
  unfold Cache.insertAgain nextListId
  dsimp only
  rw [hid, if_neg hfind, getContext_of_lt hn, getCacheMode_of_lt hn, check, if_pos (Nat.zero_le _), hnext]
  change (check (_ = none) Fault.idTaken >>= _) = _
  simp only [hsearch]
  change (check (({ s with allObjects := s.allObjects.filter (s.id · ≠ ⟨n⟩) } : Cache ℕ Unit).find ⟨next⟩ = none)
    Fault.idTaken >>= _) = _
  rw [check, if_pos hnone]
  rfl

theorem Renamed.next {n : ℕ} {c : System ℕ Unit} (h : Renamed n c) (h2 : 2 ≤ n) (hn : n < idMax) :
    ∃ c', Step exampleSetup c (exampleCall 1 (.insertAgain 1)) c' ∧ Renamed (n + 1) c' := by
  have hne : ∀ k : ℕ, k ≠ 1 → (⟨1⟩ : ListId) ≠ ⟨k⟩ := fun k hk e => hk (congrArg ListId.raw e).symm
  have hother : c.cache.find ⟨n⟩ = some 1 := by
    rw [Cache.find, h.allObjects]
    simp [h.other]
  have hnext : c.cache.nextId 0 = n + 1 := by rw [h.nextId, if_pos hn]
  have hrun := insertAgain_first 1 (by rw [hother]; exact Option.some_ne_none 1) h.other hn.le hnext fun p hp hpn => by
    rw [h.allObjects] at hp
    rcases List.mem_cons.mp hp with rfl | hp
    · exact absurd h.other hpn
    · rw [List.mem_singleton.mp hp, h.root]
      exact hne (n + 1) (by omega)
  refine ⟨⟨10 ^ 6, _⟩, ⟨h.now.le, ⟨?_, .inr ?_⟩, congrArg (Prod.snd <$> ·) hrun, rfl⟩, rfl, ?_, ?_, ?_, ?_⟩
  · have hlt : n < 2 ^ 27 := by rw [idMax] at hn; omega
    rw [h.other, ListId.isValid, ListId.cookedId]
    simp
    omega
  · rw [h.other]
    exact hother
  · have hn1 := hne n (by omega)
    simp [h.allObjects, h.root, h.other, hn1]
  · exact (Function.update_of_ne (show (0 : ℕ) ≠ 1 by decide) ⟨n + 1⟩ c.cache.id).trans h.root
  · exact Function.update_self 1 ⟨n + 1⟩ c.cache.id
  · exact Function.update_self 0 _ c.cache.nextId

/-- The other object gets one ID after the other. -/
theorem Renamed.run {n m : ℕ} {c : System ℕ Unit} (h : Renamed n c) (h2 : 2 ≤ n) (hm : n + m ≤ idMax) :
    ∃ c', Run (Step exampleSetup) c (List.replicate m (exampleCall 1 (.insertAgain 1))) c' ∧ Renamed (n + m) c' := by
  induction m generalizing n c with
  | zero => exact ⟨c, .nil c, h⟩
  | succ m ih =>
    obtain ⟨c₁, hstep, h₁⟩ := h.next h2 (by omega)
    obtain ⟨c₂, hrun, h₂⟩ := ih h₁ (by omega) (by omega)
    exact ⟨c₂, .cons hstep hrun, by rwa [show n + (m + 1) = n + 1 + m by omega]⟩

/-- When the cursor has gone round, the root gets the ID again that it has had. -/
theorem old_id_again : ∃ c, Run (Step exampleSetup) (.start 0 ()) wrapCalls c ∧ c.cache.id 0 = ⟨1⟩ ∧
    ∃ r, c.cache.insertAgain 0 = .ok r ∧ r.1 = ⟨1⟩ ∧ ¬ GivesFreshId c.cache r := by
  obtain ⟨c₁, hrun₁, hc₁⟩ := exec_any (fun _ _ => True) [exampleInsert 0 0, exampleInsert 1 1]
    (Q := fun c => c.now = 10 ^ 6 ∧ c.cache.allObjects = [1, 0] ∧ c.cache.id 0 = ⟨1⟩ ∧ c.cache.id 1 = ⟨2⟩ ∧
      c.cache.nextId 0 = 3) (by decide +kernel)
  obtain ⟨hnow, hall, hroot, hother, hnext⟩ := of_decide_eq_true hc₁
  obtain ⟨c, hrun, hc⟩ := Renamed.run (n := 2) (m := idMax - 2) ⟨hnow, hall, hroot, hother, hnext.trans (by decide)⟩
    (Nat.le_refl 2) (by decide)
  rw [show 2 + (idMax - 2) = idMax by decide] at hc
  refine ⟨c, hrun₁.of_when.append hrun, hc.root, ?_⟩
  have hmem : 0 ∈ c.cache.allObjects := by rw [hc.allObjects]; decide
  have hne : (⟨idMax⟩ : ListId) ≠ ⟨1⟩ := by decide
  have hfind : c.cache.find ⟨1⟩ ≠ none := fun hnone => find_eq_none.mp hnone 0 hmem hc.root
  have hnext₁ : c.cache.nextId 0 = 1 := by rw [hc.nextId, if_neg (Nat.lt_irrefl _)]
  refine ⟨_, insertAgain_first 0 hfind hc.root (by decide) hnext₁ fun p hp hp1 => hp1, rfl, fun h => ?_⟩
  exact h.fresh (show (⟨1⟩ : ListId).isValid = true by decide) 0 hmem hc.root

/-- In every state of a run, an insertion gives a new ID or changes nothing if it is rejected or an ID is left in
the context, and puts its entry under the invalid ID into the cache otherwise. An object that is inserted again gets
a new ID if and only if it is not cached, or the generator meets a free ID before the old one. -/
theorem fresh_ids_iff (h : Run (Step S) (.start now content) calls c) :
    (∀ {t created ctx size : ℕ} {mode : CacheMode} {entry : P} {r : ListId × Cache P σ} (handlers : Handlers),
      (Call.insert handlers created mode ctx size entry).Live S t c.cache →
      c.cache.insert S t handlers created mode ctx size entry = .ok r →
        (¬ c.cache.Accepts S created entry ∨ HasFreeId c.cache mode ctx → GivesFreshId c.cache r) ∧
        (handlers = ⟨false, false⟩ → GivesFreshId c.cache r →
          ¬ c.cache.Accepts S created entry ∨ HasFreeId c.cache mode ctx)) ∧
    ∀ {entry : P} {r : ListId × Cache P σ}, (Call.insertAgain entry).Live S c.now c.cache →
      c.cache.insertAgain entry = .ok r →
        (GivesFreshId c.cache r ↔ c.cache.find (c.cache.id entry) = none ∨ MeetsFreeId c.cache entry) := by
  have hids := run_nextIds h
  refine ⟨fun handlers hlive hrun => ⟨insert_fresh hids hrun, ?_⟩, fun hlive hrun =>
    insertAgain_fresh_iff hids hrun hlive.1⟩
  rintro rfl
  exact insert_fresh_only hids hrun hlive.2.1

/-- The insertion of an object below the root. -/
theorem fresh_ids_second : ∃ (c : System ℕ Unit) (r : ListId × Cache ℕ Unit), c.cache.allObjects = [0] ∧
    c.cache.insert exampleSetup (10 ^ 6) ⟨true, true⟩ (10 ^ 6) .cached 0 10 1 = .ok r ∧ GivesFreshId c.cache r := by
  obtain ⟨c, hrun, hc⟩ := exec_any (fun _ _ => True) [exampleInsert 0 0]
    (Q := fun c => c.cache.allObjects = [0] ∧ c.cache.id 0 = ⟨1⟩ ∧
      (Call.insert ⟨true, true⟩ (10 ^ 6) .cached 0 10 1).Live exampleSetup (10 ^ 6) c.cache ∧
      (c.cache.insert exampleSetup (10 ^ 6) ⟨true, true⟩ (10 ^ 6) .cached 0 10 1).toOption.isSome = true)
        (by decide +kernel)
  obtain ⟨hall, hid, hlive, hsome⟩ := of_decide_eq_true hc
  cases hresult : c.cache.insert exampleSetup (10 ^ 6) ⟨true, true⟩ (10 ^ 6) .cached 0 10 1 with
  | error f =>
    rw [hresult] at hsome
    cases hsome
  | ok r =>
    have hfree : HasFreeId c.cache .cached 0 := by
      refine ⟨2, by decide, find_eq_none.mpr fun p hp => ?_⟩
      rw [hall, List.mem_singleton] at hp
      rw [hp, hid]
      decide
    exact ⟨c, r, hall, hresult, ((fresh_ids_iff hrun.of_when).1 ⟨true, true⟩ hlive hresult).1 (.inr hfree)⟩

end Listbrokers.Lru
