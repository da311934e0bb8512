import Listbrokers.Framework.Wrapping
import Listbrokers.Framework.Lts
import Listbrokers.Lru.Cache

/-!
# The ID generator

`CacheIdGenerator` for any range of values. Each context has its cursor, which is
shared by both cache modes. `next` tries the values from the cursor on, in one
round through the range (`tryIds_eq`), and leaves the cursors of the other
contexts alone. What it returns is as it should be where the range does not
contain 0, which is the value of the invalid ID, and leaves the bits for the
context and the cache mode free (`next_exhaustive`).
-/

namespace Listbrokers.Lru

open Framework Cache

/-- `CacheIdGenerator`, without the function that tells which IDs are free. -/
structure CacheIdGenerator where
  baseIdMin : ℕ
  baseIdMax : ℕ
  nextId : ℕ → ℕ

/-- A call of `CacheIdGenerator::next`, with the IDs that are free at that time. -/
structure GeneratorCall where
  isIdFree : ListId → Bool
  cacheMode : CacheMode
  ctx : ℕ

namespace CacheIdGenerator

variable {g g' : CacheIdGenerator} {isIdFree : ListId → Bool} {mode : CacheMode} {ctx baseIdMin baseIdMax : ℕ}
  {calls : List GeneratorCall}

/-- The constructor. -/
def init (baseIdMin baseIdMax : ℕ) : CacheIdGenerator := ⟨baseIdMin, baseIdMax, fun _ => baseIdMin⟩

/-- The loop of `next` for up to `n` candidates: the result of `next`, and the cursor after it. -/
def tryIds (g : CacheIdGenerator) (isIdFree : ListId → Bool) (mode : CacheMode) (ctx startPoint : ℕ) :
    ℕ → ℕ → Option (ListId × ℕ)
  | 0, _ => none
  | n + 1, nextIdForContext =>
    let candidate := makeListId nextIdForContext mode ctx
    let nextIdForContext := if nextIdForContext < g.baseIdMax then nextIdForContext + 1 else g.baseIdMin
    if isIdFree candidate then some (candidate, nextIdForContext)
    else if startPoint = nextIdForContext then some (.invalid, nextIdForContext)
    else tryIds g isIdFree mode ctx startPoint n nextIdForContext

/-- `CacheIdGenerator::next`, if up to `n` candidates are enough. -/
def next (call : GeneratorCall) (n : ℕ) (g : CacheIdGenerator) : Except Fault (Option (ListId × CacheIdGenerator)) := do
  check (call.ctx ≤ contextIdMax) .badContext
  let r := g.tryIds call.isIdFree call.cacheMode call.ctx (g.nextId call.ctx) n (g.nextId call.ctx)
  return r.map fun r => (r.1, { g with nextId := Function.update g.nextId call.ctx r.2 })

/-- `next` returns. -/
def Step (g : CacheIdGenerator) (call : GeneratorCall) (g' : CacheIdGenerator) : Prop :=
  ∃ n id, g.next call n = .ok (some (id, g'))

/-- The cursors are in the range. -/
def InRange (g : CacheIdGenerator) : Prop := ∀ ctx, g.baseIdMin ≤ g.nextId ctx ∧ g.nextId ctx ≤ g.baseIdMax

/-- The number of candidates. -/
def numberOfIds (g : CacheIdGenerator) : ℕ := g.baseIdMax - g.baseIdMin + 1

/-! ## The loop -/

/-- The loop tries the candidates that are left of the round, and returns the first one that is free. -/
theorem tryIds_from (isIdFree : ListId → Bool) (mode : CacheMode) (ctx : ℕ) {start : ℕ}
    (h : g.baseIdMin ≤ start ∧ start ≤ g.baseIdMax) {k n : ℕ} (hn : 0 < n) (hk : k + n = g.numberOfIds) :
    ∃ cursor, g.tryIds isIdFree mode ctx start n (Wrapping.nth g.baseIdMin g.baseIdMax start k) =
      some ((((List.range' k n).map fun j => makeListId (Wrapping.nth g.baseIdMin g.baseIdMax start j) mode ctx).find?
        isIdFree).getD .invalid, cursor) ∧ g.baseIdMin ≤ cursor ∧ cursor ≤ g.baseIdMax := by
  have hle := h.1.trans h.2
  induction n generalizing k with
  | zero => exact absurd hn (Nat.lt_irrefl 0)
  | succ n ih =>
    have hcursor := Wrapping.nth_mem hle start (k + 1)
    rw [List.range'_succ, List.map_cons, tryIds, ← Wrapping.next, Wrapping.next_nth hle]
    cases hfree : isIdFree (makeListId (Wrapping.nth g.baseIdMin g.baseIdMax start k) mode ctx) with
    | true =>
      rw [if_pos rfl, List.find?_cons_of_pos hfree, Option.getD_some]
      exact ⟨_, rfl, hcursor⟩
    | false =>
      rw [if_neg Bool.false_ne_true, List.find?_cons_of_neg (by simp [hfree])]
      have hback := Wrapping.start_eq_nth_iff h ⟨Nat.succ_pos k, show k + 1 ≤ Wrapping.size g.baseIdMin g.baseIdMax by
        unfold Wrapping.size; unfold numberOfIds at hk; omega⟩
      unfold numberOfIds at hk
      unfold Wrapping.size at hback
      cases n with
      | zero =>
        rw [if_pos (hback.mpr (by omega))]
        exact ⟨_, rfl, hcursor⟩
      | succ n =>
        rw [if_neg fun he => absurd (hback.mp he) (by omega)]
        exact ih (Nat.succ_pos n) (by unfold numberOfIds; omega)

/-- All IDs of a context and a cache mode, from the cursor on. -/
def ids (g : CacheIdGenerator) (mode : CacheMode) (ctx : ℕ) : List ListId :=
  (Wrapping.round g.baseIdMin g.baseIdMax (g.nextId ctx)).map fun raw => makeListId raw mode ctx

/-- One round is enough, and finds the first ID that is free. -/
theorem tryIds_eq (h : g.InRange) (isIdFree : ListId → Bool) (mode : CacheMode) (ctx : ℕ) :
    ∃ cursor, g.tryIds isIdFree mode ctx (g.nextId ctx) g.numberOfIds (g.nextId ctx) =
      some (((g.ids mode ctx).find? isIdFree).getD .invalid, cursor) ∧ g.baseIdMin ≤ cursor ∧ cursor ≤ g.baseIdMax := by
  have hfrom := tryIds_from isIdFree mode ctx (h ctx) (Nat.succ_pos _) (Nat.zero_add g.numberOfIds)
  rw [Wrapping.nth_zero (h ctx), ← List.range_eq_range'] at hfrom
  rw [ids, Wrapping.round, List.map_map]
  exact hfrom

theorem mem_ids (h : g.InRange) {i : ListId} :
    i ∈ g.ids mode ctx ↔ ∃ raw, (g.baseIdMin ≤ raw ∧ raw ≤ g.baseIdMax) ∧ makeListId raw mode ctx = i := by
  simp only [ids, List.mem_map, Wrapping.mem_round (h ctx)]

/-- However many candidates there are, the cursor stays in the range. -/
theorem tryIds_mem (hle : g.baseIdMin ≤ g.baseIdMax) {start n cursor : ℕ} {r : ListId × ℕ}
    (hcursor : g.baseIdMin ≤ cursor ∧ cursor ≤ g.baseIdMax) (h : g.tryIds isIdFree mode ctx start n cursor = some r) :
    g.baseIdMin ≤ r.2 ∧ r.2 ≤ g.baseIdMax := by
  induction n generalizing cursor with
  | zero => cases h
  | succ n ih =>
    rw [tryIds, ← Wrapping.next] at h
    have hnext := Wrapping.next_mem hle hcursor
    split at h
    · cases h
      exact hnext
    · split at h
      · cases h
        exact hnext
      · exact ih hnext h

/-! ## Runs -/

/-- What a call leaves: the cursor of its context has moved inside of the range. -/
structure Advanced (ctx : ℕ) (g g' : CacheIdGenerator) : Prop where
  baseIdMin : g'.baseIdMin = g.baseIdMin
  baseIdMax : g'.baseIdMax = g.baseIdMax
  inRange : g'.InRange
  others : ∀ ctx' ≠ ctx, g'.nextId ctx' = g.nextId ctx'

theorem advanced_update (h : g.InRange) (ctx : ℕ) {cursor : ℕ} (hcursor : g.baseIdMin ≤ cursor ∧ cursor ≤ g.baseIdMax) :
    Advanced ctx g { g with nextId := Function.update g.nextId ctx cursor } where
  baseIdMin := rfl
  baseIdMax := rfl
  inRange ctx' := by
    by_cases hctx : ctx' = ctx
    · subst hctx
      simpa using hcursor
    · simpa [Function.update_of_ne hctx] using h ctx'
  others _ hctx := Function.update_of_ne hctx _ _

theorem step_advances (h : g.InRange) {call : GeneratorCall} (hstep : Step g call g') : Advanced call.ctx g g' := by
  obtain ⟨n, id, hnext⟩ := hstep
  obtain ⟨-, -, hnext⟩ := bind_eq_ok hnext
  obtain ⟨r, hr, hg⟩ := Option.map_eq_some_iff.mp (Except.ok.inj hnext)
  cases hg
  exact advanced_update h _ (tryIds_mem ((h 0).1.trans (h 0).2) (h _) hr)

/-- In every state that calls lead to, the cursors are in the range. -/
theorem run_inRange (h : g.InRange) (hrun : Run Step g calls g') :
    g'.InRange ∧ g'.baseIdMin = g.baseIdMin ∧ g'.baseIdMax = g.baseIdMax := by
  refine hrun.invariant (P := fun g' => g'.InRange ∧ g'.baseIdMin = g.baseIdMin ∧ g'.baseIdMax = g.baseIdMax) ?_
    ⟨h, rfl, rfl⟩
  rintro g₁ call g₂ ⟨h₁, hmin, hmax⟩ hstep
  have hadvanced := step_advances h₁ hstep
  exact ⟨hadvanced.inRange, hadvanced.baseIdMin.trans hmin, hadvanced.baseIdMax.trans hmax⟩

/-- Calls for other contexts leave the cursor of a context alone. -/
theorem run_others (h : g.InRange) (hrun : Run Step g calls g') (hctx : ∀ call ∈ calls, call.ctx ≠ ctx) :
    g'.nextId ctx = g.nextId ctx := by
  induction hrun with
  | nil => rfl
  | cons hstep _ ih =>
    have hadvanced := step_advances h hstep
    rw [ih hadvanced.inRange fun call hcall => hctx call (List.mem_cons_of_mem _ hcall)]
    exact hadvanced.others _ (hctx _ List.mem_cons_self).symm

theorem init_inRange (h : baseIdMin ≤ baseIdMax) : (init baseIdMin baseIdMax).InRange := fun _ => ⟨Nat.le_refl _, h⟩

/-! ## IDs -/

theorem cookedId_makeListId {raw : ℕ} (h : raw ≤ idMax) (mode : CacheMode) (ctx : ℕ) :
    (makeListId raw mode ctx).cookedId = raw := by
  have hlt : raw < 2 ^ 27 := by rw [idMax] at h; omega
  have hctx : (ctx <<< 28) % 2 ^ 27 = 0 := by rw [Nat.shiftLeft_eq]; omega
  have hbit : (if mode = CacheMode.uncached then 2 ^ 27 else 0) % 2 ^ 27 = 0 := by split <;> rfl
  rw [ListId.cookedId, makeListId, Nat.or_mod_two_pow, Nat.or_mod_two_pow, hctx, hbit, Nat.mod_eq_of_lt hlt]
  simp

/-- An ID consists of its value, its no-cache bit and its context. -/
theorem makeListId_cookedId (id : ListId) : makeListId id.cookedId (getCacheMode id) (getContext id) = id := by
  obtain ⟨raw⟩ := id
  rw [makeListId, ListId.cookedId, getCacheMode, getContext]
  congr 1
  refine Nat.eq_of_testBit_eq fun i => ?_
  have hbit : (if (if raw.testBit 27 = true then CacheMode.uncached else CacheMode.cached) =
    CacheMode.uncached then 2 ^ 27
      else 0).testBit i = (decide (i = 27) && raw.testBit 27) := by
    by_cases h : raw.testBit 27 = true
    · simp only [h, if_true, Bool.and_true]
      rw [Nat.testBit_two_pow, decide_eq_decide]
      exact eq_comm
    · simp [h]
  simp only [Nat.testBit_or, Nat.testBit_mod_two_pow, Nat.testBit_shiftLeft, Nat.testBit_shiftRight, hbit]
  rcases Nat.lt_trichotomy i 27 with h | rfl | h
  · simp [h, show ¬ 28 ≤ i by omega, show i ≠ 27 by omega]
  · simp
  · simp [show ¬ i < 27 by omega, show 28 ≤ i by omega, show i ≠ 27 by omega]

theorem getContext_makeListId {raw : ℕ} (h : raw ≤ idMax) (mode : CacheMode) (ctx : ℕ) :
    getContext (makeListId raw mode ctx) = ctx := by
  have hraw : raw >>> 28 = 0 := by rw [Nat.shiftRight_eq_div_pow, Nat.div_eq_of_lt (by unfold idMax at h; omega)]
  have hbit : (if mode = CacheMode.uncached then 2 ^ 27 else 0) >>> 28 = 0 := by split <;> rfl
  rw [getContext, makeListId, Nat.shiftRight_or_distrib, Nat.shiftRight_or_distrib, hraw, hbit,
    Nat.shiftLeft_shiftRight]
  simp

theorem getCacheMode_makeListId {raw : ℕ} (h : raw ≤ idMax) (mode : CacheMode) (ctx : ℕ) :
    getCacheMode (makeListId raw mode ctx) = mode := by
  have hraw : raw.testBit 27 = false := Nat.testBit_lt_two_pow (by unfold idMax at h; omega)
  have hctx : (ctx <<< 28).testBit 27 = false := by simp [Nat.testBit_shiftLeft]
  rw [getCacheMode, makeListId, Nat.testBit_or, Nat.testBit_or, hraw, hctx]
  cases mode with
  | cached => simp
  | uncached => decide

/-- No ID of the context and the cache mode is left. -/
def NoneFree (baseIdMin baseIdMax : ℕ) (call : GeneratorCall) : Prop :=
  ∀ raw, baseIdMin ≤ raw → raw ≤ baseIdMax → call.isIdFree (makeListId raw call.cacheMode call.ctx) = false

/-- What `next` promises about the ID that it returns. -/
structure Suits (baseIdMin baseIdMax : ℕ) (call : GeneratorCall) (id : ListId) : Prop where
  exhausted : 0 < baseIdMin → (id = .invalid ↔ NoneFree baseIdMin baseIdMax call)
  free : id ≠ .invalid → call.isIdFree id = true
  parts : baseIdMax ≤ idMax → id ≠ .invalid → getContext id = call.ctx ∧ getCacheMode id = call.cacheMode ∧
    baseIdMin ≤ id.cookedId ∧ id.cookedId ≤ baseIdMax

theorem makeListId_ne_invalid {raw : ℕ} (h : 0 < raw) (mode : CacheMode) (ctx : ℕ) :
    makeListId raw mode ctx ≠ .invalid := by
  intro he
  have hzero : raw ||| ctx <<< 28 ||| (if mode = CacheMode.uncached then 2 ^ 27 else 0) = 0 := congrArg ListId.raw he
  rw [Nat.or_eq_zero_iff, Nat.or_eq_zero_iff] at hzero
  omega

/-- The first ID that is free suits. -/
theorem suits_find (h : g.InRange) (call : GeneratorCall) :
    Suits g.baseIdMin g.baseIdMax call (((g.ids call.cacheMode call.ctx).find? call.isIdFree).getD .invalid) := by
  cases hfind : (g.ids call.cacheMode call.ctx).find? call.isIdFree with
  | none =>
    rw [Option.getD_none]
    refine ⟨fun _ => iff_of_true rfl fun raw hmin hmax => ?_, absurd rfl, fun _ => absurd rfl⟩
    have hnone := List.find?_eq_none.mp hfind _ ((mem_ids h).mpr ⟨raw, ⟨hmin, hmax⟩, rfl⟩)
    simpa using hnone
  | some i =>
    rw [Option.getD_some]
    have hfree := List.find?_some hfind
    obtain ⟨raw, ⟨hmin, hmax⟩, rfl⟩ := (mem_ids h).mp (List.mem_of_find?_eq_some hfind)
    refine ⟨fun hpos => iff_of_false (makeListId_ne_invalid (by omega) _ _) fun hnone => ?_, fun _ => hfree,
      fun hidMax _ => ?_⟩
    · rw [hnone raw hmin hmax] at hfree
      cases hfree
    · have hraw := hmax.trans hidMax
      exact ⟨getContext_makeListId hraw _ _, getCacheMode_makeListId hraw _ _,
        (cookedId_makeListId hraw _ _).symm ▸ ⟨hmin, hmax⟩⟩

/-- One round is enough for `next`. -/
theorem next_eq (h : g.InRange) {call : GeneratorCall} (hctx : call.ctx ≤ contextIdMax) :
    ∃ g', g.next call g.numberOfIds =
      .ok (some (((g.ids call.cacheMode call.ctx).find? call.isIdFree).getD .invalid, g')) := by
  obtain ⟨cursor, htry, -⟩ := tryIds_eq h call.isIdFree call.cacheMode call.ctx
  refine ⟨{ g with nextId := Function.update g.nextId call.ctx cursor }, ?_⟩
  rw [next, check, if_pos hctx, htry]
  rfl

/-! ## The generator of the cache -/

/-- The cache goes through all IDs of a context. -/
theorem search_of_tryIds (hmin : g.baseIdMin = 1) (hmax : g.baseIdMax = idMax) {start n cursor : ℕ} {r : ListId × ℕ}
    (h : g.tryIds isIdFree mode ctx start n cursor = some r) : search isIdFree mode ctx start n cursor = r := by
  induction n generalizing cursor with
  | zero => cases h
  | succ n ih =>
    rw [tryIds, hmin, hmax] at h
    rw [search]
    generalize (if cursor < idMax then cursor + 1 else 1) = cursor' at h ⊢
    split at h
    · next hfree => rw [if_pos hfree, Option.some.inj h]
    · next hfree =>
      rw [if_neg hfree]
      split at h
      · next hback => rw [if_pos hback, Option.some.inj h]
      · next hback =>
        rw [if_neg hback]
        exact ih h

/-- The generator of a cache whose cursors are at `start`. -/
def ofCache (start : ℕ) : CacheIdGenerator := ⟨1, idMax, fun _ => start⟩

/-- The generator returns the first ID that is free. -/
theorem search_eq_find {start : ℕ} (h : 0 < start ∧ start ≤ idMax) (isIdFree : ListId → Bool)
    (mode : CacheMode) (ctx : ℕ) :
    ∃ cursor, search isIdFree mode ctx start idMax start =
      ((((ofCache start).ids mode ctx).find? isIdFree).getD .invalid, cursor) ∧ 0 < cursor ∧ cursor ≤ idMax := by
  have hrange : (ofCache start).InRange := fun _ => h
  obtain ⟨cursor, htry, hcursor⟩ := tryIds_eq hrange isIdFree mode ctx
  exact ⟨cursor, search_of_tryIds rfl rfl htry, hcursor⟩

/-- The cursor of a context stays in the range. -/
theorem search_mem (isIdFree : ListId → Bool) (mode : CacheMode) (ctx : ℕ) {start : ℕ} (h : 0 < start ∧ start ≤ idMax) :
    0 < (search isIdFree mode ctx start idMax start).2 ∧ (search isIdFree mode ctx start idMax start).2 ≤ idMax := by
  obtain ⟨cursor, hsearch, hcursor⟩ := search_eq_find h isIdFree mode ctx
  rw [hsearch]
  exact hcursor

theorem cookedId_mem {i : ListId} (h : i.isValid = true) : 0 < i.cookedId ∧ i.cookedId ≤ idMax := by
  have hne : i.cookedId ≠ 0 := by simpa [ListId.isValid] using h
  have hlt : i.cookedId < 2 ^ 27 := Nat.mod_lt _ (by decide)
  rw [idMax]
  omega

/-- The search finds a free ID, if there is one. -/
theorem search_isValid {start raw : ℕ} (h : 0 < start ∧ start ≤ idMax) (hraw : 0 < raw ∧ raw ≤ idMax)
    (hfree : isIdFree (makeListId raw mode ctx) = true) :
    (search isIdFree mode ctx start idMax start).1.isValid = true := by
  have hrange : (ofCache start).InRange := fun _ => h
  obtain ⟨cursor, hsearch, -⟩ := search_eq_find h isIdFree mode ctx
  obtain ⟨i, hfind⟩ := List.find?_isSome.mpr ⟨_, (mem_ids hrange).mpr ⟨raw, hraw, rfl⟩, hfree⟩ |>
    Option.isSome_iff_exists.mp
  obtain ⟨raw', hraw', rfl⟩ := (mem_ids hrange).mp (List.mem_of_find?_eq_some hfind)
  rw [hsearch, hfind, Option.getD_some, ListId.isValid, cookedId_makeListId hraw'.2]
  simpa using Nat.ne_of_gt hraw'.1

/-- With 0 in the range, the invalid ID is returned as an ID that is free. With values that reach into the bits of the
context, an ID of another context is returned. -/
theorem next_out_of_range : (∃ g', (init 0 0).next ⟨fun _ => true, .cached, 0⟩ 1 = .ok (some (.invalid, g'))) ∧
    ¬ NoneFree 0 0 ⟨fun _ => true, .cached, 0⟩ ∧
    ∃ g', (init (2 ^ 28) (2 ^ 28)).next ⟨fun _ => true, .cached, 0⟩ 1 = .ok (some (makeListId 0 .cached 1, g')) := by
  refine ⟨⟨_, rfl⟩, fun h => ?_, ⟨_, rfl⟩⟩
  cases h 0 (Nat.le_refl 0) (Nat.le_refl 0)

/-- In every state that earlier calls lead to, `next` returns after one round at the latest, and what it returns
suits. Calls for other contexts do not make a difference. -/
theorem next_exhaustive (hrange : baseIdMin ≤ baseIdMax) (hrun : Run Step (init baseIdMin baseIdMax) calls g)
    {call : GeneratorCall} (hctx : call.ctx ≤ contextIdMax) :
    ∃ id g', g.next call (baseIdMax - baseIdMin + 1) = .ok (some (id, g')) ∧ Suits baseIdMin baseIdMax call id ∧
      ∀ calls' g₁, Run Step g calls' g₁ → (∀ call' ∈ calls', call'.ctx ≠ call.ctx) →
        ∃ g₁', g₁.next call (baseIdMax - baseIdMin + 1) = .ok (some (id, g₁')) := by
  obtain ⟨h, rfl, rfl⟩ := run_inRange (init_inRange hrange) hrun
  obtain ⟨g', hnext⟩ := next_eq h hctx
  refine ⟨_, g', hnext, suits_find h call, fun calls' g₁ hrun₁ hothers => ?_⟩
  obtain ⟨h₁, hmin, hmax⟩ := run_inRange h hrun₁
  obtain ⟨g₁', hnext₁⟩ := next_eq h₁ hctx
  rw [numberOfIds, ids, hmin, hmax, run_others h hrun₁ hothers] at hnext₁
  exact ⟨g₁', hnext₁⟩

/-- The second ID of a context, with the first one in use. -/
theorem next_exhaustive_second : ∃ id g', (init 10 12).next ⟨fun i => i ≠ makeListId 10 .uncached 3, .uncached, 3⟩
    (12 - 10 + 1) =
      .ok (some (id, g')) ∧ Suits 10 12 ⟨fun i => i ≠ makeListId 10 .uncached 3, .uncached, 3⟩ id ∧
      ∀ calls' g₁, Run Step (init 10 12) calls' g₁ → (∀ call' ∈ calls', call'.ctx ≠ 3) →
        ∃ g₁', g₁.next ⟨fun i => i ≠ makeListId 10 .uncached 3, .uncached, 3⟩ (12 - 10 + 1) = .ok (some (id, g₁')) :=
  next_exhaustive (by decide) (.nil _) (by decide)

end CacheIdGenerator

end Listbrokers.Lru
