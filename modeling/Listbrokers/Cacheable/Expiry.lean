import Listbrokers.Cacheable.Overrides
import Listbrokers.Framework.Lts
import Listbrokers.Framework.Outcome

/-!
# Expiry of overrides

Runs of overrides being put, removed and moved, and of timers that fire, which
they may do a fraction of a second before the time is over. All overrides can be
removed, and all expire, exactly as long as no list that has an override gets a
new ID, and no timer fires early: an override goes by the ID and has its timer
call the address that it had when it was put, and a timer that fires early fires
for nothing.
-/

namespace Listbrokers.Cacheable

open Framework

namespace CheckWithOverrides

variable {s : CheckWithOverrides} {x : Option ℕ} {n m : Node} {t : Timer} {id : ListId} {now : ℕ}

/-- Every override but the one at the address `x` has got a timer, which refers to it. -/
structure Armed (x : Option ℕ) (s : CheckWithOverrides) : Prop where
  keys : (s.overrides.map (·.key)).Nodup
  addresses : (s.overrides.map (·.address)).Nodup
  address_lt : ∀ n ∈ s.overrides, n.address < s.nextAddress
  captured : ∀ n ∈ s.overrides, n.ovr.expiredFn = n.key
  pending : ∀ n ∈ s.overrides, x ≠ some n.address →
    ∃ start, n.ovr.startTime = some start ∧ ⟨n.ovr.activeTimerId, n.address, start⟩ ∈ s.timers
  owner : ∀ t ∈ s.timers, x ≠ some t.origin ∧ ∃ n ∈ s.overrides, n.address = t.origin ∧ n.ovr.activeTimerId = t.id
  ids : (s.timers.map (·.id)).Nodup
  id_lt : ∀ t ∈ s.timers, 0 < t.id ∧ t.id < s.nextTimerId
  nextTimerId_pos : 0 < s.nextTimerId

theorem armed_init : Armed none init := ⟨.nil, .nil, nofun, nofun, nofun, nofun, .nil, nofun, Nat.one_pos⟩

theorem mem_of_find (h : s.find id = some n) : n ∈ s.overrides ∧ n.key = id :=
  ⟨List.mem_of_find?_eq_some h, by simpa using List.find?_some h⟩

theorem find_eq_none : s.find id = none ↔ ∀ n ∈ s.overrides, n.key ≠ id := by simp [find]

theorem emplace_of_find (h : s.find id = some n) (ovr : Override) : s.emplace id ovr = s := by
  rw [emplace, h]
  rfl

theorem emplace_new (h : s.find id = none) (ovr : Override) : s.emplace id ovr =
    { s with overrides := ⟨id, s.nextAddress, ovr⟩ :: s.overrides, nextAddress := s.nextAddress + 1 } := by
  rw [emplace, h]
  rfl

theorem mem_modify {address : ℕ} {f : Override → Override} :
    m ∈ (s.modify address f).overrides ↔
      ∃ n ∈ s.overrides, (if n.address = address then { n with ovr := f n.ovr } else n) = m := by
  rw [modify, List.mem_map]

namespace Armed

theorem eq_of_address (h : Armed x s) (hn : n ∈ s.overrides) (hm : m ∈ s.overrides)
    (e : n.address = m.address) : n = m :=
  List.inj_on_of_nodup_map h.addresses hn hm e

theorem eq_of_key (h : Armed x s) (hn : n ∈ s.overrides) (hm : m ∈ s.overrides) (e : n.key = m.key) : n = m :=
  List.inj_on_of_nodup_map h.keys hn hm e

theorem eq_of_id {t' : Timer} (h : Armed x s) (ht : t ∈ s.timers) (ht' : t' ∈ s.timers) (e : t.id = t'.id) : t = t' :=
  List.inj_on_of_nodup_map h.ids ht ht' e

theorem find_key (h : Armed x s) (hn : n ∈ s.overrides) : s.find n.key = some n := by
  cases hfind : s.find n.key with
  | none => exact absurd rfl (find_eq_none.mp hfind n hn)
  | some m =>
    obtain ⟨hm, e⟩ := mem_of_find hfind
    rw [h.eq_of_key hm hn e]

/-- The timer of an override is gone. -/
theorem release (h : Armed none s) (hn : n ∈ s.overrides) :
    Armed (some n.address) { s with timers := s.timers.filter (·.id ≠ n.ovr.activeTimerId) } := by
  obtain ⟨start, -, htimer⟩ := h.pending n hn nofun
  refine ⟨h.keys, h.addresses, h.address_lt, h.captured, fun m hm hne => ?_, fun t ht => ?_,
    h.ids.sublist (List.filter_sublist.map _), fun t ht => h.id_lt t (List.mem_of_mem_filter ht), h.nextTimerId_pos⟩
  · obtain ⟨start', hstart', htimer'⟩ := h.pending m hm nofun
    have hid : m.ovr.activeTimerId ≠ n.ovr.activeTimerId := fun e =>
      hne (congrArg (some ∘ Timer.origin) (h.eq_of_id htimer htimer' e.symm))
    exact ⟨start', hstart', List.mem_filter.mpr ⟨htimer', by simpa using hid⟩⟩
  · obtain ⟨ht, hid⟩ := List.mem_filter.mp ht
    obtain ⟨-, m, hm, horigin, hactive⟩ := h.owner t ht
    refine ⟨fun e => ?_, m, hm, horigin, hactive⟩
    obtain rfl := h.eq_of_address hn hm ((Option.some.inj e).trans horigin.symm)
    simp [hactive] at hid

theorem release_timeout (h : Armed none s) (hn : n ∈ s.overrides) :
    Armed (some n.address) (s.removeTimeout n.ovr.activeTimerId) := by
  obtain ⟨start, -, htimer⟩ := h.pending n hn nofun
  have hpos := (h.id_lt _ htimer).1
  rw [removeTimeout, if_neg (by dsimp only at hpos; omega)]
  exact h.release hn

/-- An override without timer changes. -/
theorem modify {address : ℕ} {f : Override → Override} (h : Armed (some address) s)
    (hf : ∀ ovr, (f ovr).expiredFn = ovr.expiredFn) : Armed (some address) (s.modify address f) := by
  have hkey : ∀ n : Node, (if n.address = address then { n with ovr := f n.ovr } else n).key = n.key := fun n => by
    split <;> rfl
  have haddress : ∀ n : Node, (if n.address = address then { n with ovr := f n.ovr } else n).address = n.address :=
    fun n => by split <;> rfl
  refine ⟨?_, ?_, fun m hm => ?_, fun m hm => ?_, fun m hm hne => ?_, fun t ht => ?_, h.ids, h.id_lt, h.nextTimerId_pos⟩
  · rw [CheckWithOverrides.modify, List.map_map]
    exact (List.map_congr_left fun n _ => hkey n) ▸ h.keys
  · rw [CheckWithOverrides.modify, List.map_map]
    exact (List.map_congr_left fun n _ => haddress n) ▸ h.addresses
  · obtain ⟨n, hn, rfl⟩ := mem_modify.mp hm
    rw [haddress]
    exact h.address_lt n hn
  · obtain ⟨n, hn, rfl⟩ := mem_modify.mp hm
    rw [hkey, ← h.captured n hn]
    split
    · exact hf n.ovr
    · rfl
  · obtain ⟨n, hn, rfl⟩ := mem_modify.mp hm
    rw [haddress] at hne
    rw [if_neg fun e => hne (by rw [e])]
    exact h.pending n hn hne
  · obtain ⟨hne, n, hn, horigin, hactive⟩ := h.owner t ht
    have e : n.address ≠ address := fun e => hne (by rw [← horigin, e])
    exact ⟨hne, n, mem_modify.mpr ⟨n, hn, if_neg e⟩, horigin, hactive⟩

/-- An override gets a timer. -/
theorem arm {f : Override → Override} (h : Armed (some n.address) s) (hn : n ∈ s.overrides)
    (hf : ∀ ovr, (f ovr).expiredFn = ovr.expiredFn ∧ (f ovr).startTime = some now ∧
      (f ovr).activeTimerId = s.nextTimerId) :
    Armed none ((s.createTimeout now n.address).modify n.address f) := by
  have h' := h.modify fun ovr => (hf ovr).1
  refine ⟨h'.keys, h'.addresses, h'.address_lt, h'.captured, fun m hm _ => ?_, fun t ht => ⟨nofun, ?_⟩, ?_,
    fun t ht => ?_, Nat.succ_pos _⟩
  · obtain ⟨m, hmem, rfl⟩ := mem_modify.mp hm
    by_cases e : m.address = n.address
    · rw [if_pos e]
      obtain ⟨-, hstart, hactive⟩ := hf m.ovr
      refine ⟨now, hstart, List.mem_cons.mpr (.inl ?_)⟩
      dsimp only
      rw [hactive, e]
    · rw [if_neg e]
      obtain ⟨start, hstart, htimer⟩ := h.pending m hmem fun e' => e (Option.some.inj e').symm
      exact ⟨start, hstart, List.mem_cons_of_mem _ htimer⟩
  · rcases List.mem_cons.mp ht with rfl | ht
    · exact ⟨_, mem_modify.mpr ⟨n, hn, if_pos rfl⟩, rfl, (hf n.ovr).2.2⟩
    · exact (h'.owner t ht).2
  · refine List.nodup_cons.mpr ⟨fun hmem => ?_, h.ids⟩
    obtain ⟨t, ht, e⟩ := List.mem_map.mp hmem
    have := (h.id_lt t ht).2
    dsimp only at e
    omega
  · change 0 < t.id ∧ t.id < s.nextTimerId + 1
    rcases List.mem_cons.mp ht with rfl | ht
    · exact ⟨h.nextTimerId_pos, Nat.lt_succ_self _⟩
    · have := h.id_lt t ht
      omega

/-- An override without timer is erased. -/
theorem erase (h : Armed (some n.address) s) (hn : n ∈ s.overrides) : Armed none (s.erase n.key) := by
  refine ⟨h.keys.sublist (List.filter_sublist.map _), h.addresses.sublist (List.filter_sublist.map _),
    fun m hm => h.address_lt m (List.mem_of_mem_filter hm), fun m hm => h.captured m (List.mem_of_mem_filter hm),
    fun m hm _ => ?_, fun t ht => ⟨nofun, ?_⟩, h.ids, h.id_lt, h.nextTimerId_pos⟩
  · obtain ⟨hm, hkey⟩ := List.mem_filter.mp hm
    refine h.pending m hm fun e => ?_
    rw [h.eq_of_address hn hm (Option.some.inj e)] at hkey
    simp at hkey
  · obtain ⟨hne, m, hm, horigin, hactive⟩ := h.owner t ht
    have hkey : m.key ≠ n.key := fun e => hne (by rw [h.eq_of_key hn hm e.symm, horigin])
    exact ⟨m, List.mem_filter.mpr ⟨hm, by simpa using hkey⟩, horigin, hactive⟩

/-- A new override. -/
theorem emplace (h : Armed none s) (hnew : s.find id = none) (ovr : Override) (hovr : ovr.expiredFn = id) :
    Armed (some s.nextAddress) (s.emplace id ovr) := by
  have hnot := find_eq_none.mp hnew
  rw [emplace_new hnew]
  refine ⟨List.nodup_cons.mpr ⟨fun hmem => ?_, h.keys⟩, List.nodup_cons.mpr ⟨fun hmem => ?_, h.addresses⟩,
    fun m hm => ?_, fun m hm => ?_, fun m hm hne => ?_, fun t ht => ?_, h.ids, h.id_lt, h.nextTimerId_pos⟩
  · obtain ⟨m, hm, e⟩ := List.mem_map.mp hmem
    exact hnot m hm e
  · obtain ⟨m, hm, e⟩ := List.mem_map.mp hmem
    have := h.address_lt m hm
    dsimp only at e
    omega
  · change m.address < s.nextAddress + 1
    rcases List.mem_cons.mp hm with rfl | hm
    · exact Nat.lt_succ_self _
    · exact Nat.lt_succ_of_lt (h.address_lt m hm)
  · rcases List.mem_cons.mp hm with rfl | hm
    · exact hovr
    · exact h.captured m hm
  · rcases List.mem_cons.mp hm with rfl | hm
    · exact absurd rfl hne
    · exact h.pending m hm nofun
  · obtain ⟨-, m, hm, horigin, hactive⟩ := h.owner t ht
    refine ⟨fun e => ?_, m, List.mem_cons_of_mem _ hm, horigin, hactive⟩
    have := h.address_lt m hm
    have := Option.some.inj e
    omega

/-- Nothing but the nodes on paths changes. -/
theorem patchPathsToRoot (h : Armed x s) (id replacement : ListId) : Armed x (s.patchPathsToRoot id replacement) := by
  have hovr : ∀ ovr : Override, (ovr.listInvalidate id replacement).expiredFn = ovr.expiredFn ∧
      (ovr.listInvalidate id replacement).startTime = ovr.startTime ∧
      (ovr.listInvalidate id replacement).activeTimerId = ovr.activeTimerId := fun ovr => by
    unfold Override.listInvalidate
    split <;> exact ⟨rfl, rfl, rfl⟩
  refine ⟨?_, ?_, fun m hm => ?_, fun m hm => ?_, fun m hm hne => ?_, fun t ht => ?_, h.ids, h.id_lt, h.nextTimerId_pos⟩
  · rw [CheckWithOverrides.patchPathsToRoot, List.map_map]
    exact h.keys
  · rw [CheckWithOverrides.patchPathsToRoot, List.map_map]
    exact h.addresses
  · obtain ⟨n, hn, rfl⟩ := List.mem_map.mp hm
    exact h.address_lt n hn
  · obtain ⟨n, hn, rfl⟩ := List.mem_map.mp hm
    exact (hovr n.ovr).1.trans (h.captured n hn)
  · obtain ⟨n, hn, rfl⟩ := List.mem_map.mp hm
    dsimp only
    rw [(hovr n.ovr).2.1, (hovr n.ovr).2.2]
    exact h.pending n hn hne
  · obtain ⟨hne, n, hn, horigin, hactive⟩ := h.owner t ht
    exact ⟨hne, _, List.mem_map.mpr ⟨n, hn, rfl⟩, horigin, (hovr n.ovr).2.2.trans hactive⟩

theorem putOverride (h : Armed none s) (ancestors : Option (List ListId)) :
    Armed none (s.putOverride now id ancestors).2 := by
  unfold CheckWithOverrides.putOverride
  cases ancestors with
  | none => exact h
  | some ancestors =>
    dsimp only
    cases hold : s.find id with
    | some n =>
      obtain ⟨hn, -⟩ := mem_of_find hold
      rw [emplace_of_find hold, hold]
      change Armed none (s.keepAlive now n)
      unfold keepAlive
      refine (h.release_timeout hn).arm ?_ fun _ => ⟨rfl, rfl, ?_⟩
      · unfold removeTimeout
        split <;> exact hn
      · unfold removeTimeout
        split <;> rfl
    | none =>
      have h' := h.emplace hold ⟨id, ancestors.takeWhile ListId.nocacheBit, none, 0⟩ rfl
      obtain ⟨n, hn, hfind, haddress, hactive⟩ : ∃ n,
          n ∈ (s.emplace id ⟨id, ancestors.takeWhile ListId.nocacheBit, none, 0⟩).overrides ∧
          (s.emplace id ⟨id, ancestors.takeWhile ListId.nocacheBit, none, 0⟩).find id = some n ∧
          n.address = s.nextAddress ∧ n.ovr.activeTimerId = 0 := by
        rw [emplace_new hold]
        exact ⟨_, List.mem_cons_self, by simp [find], rfl, rfl⟩
      generalize s.emplace id ⟨id, ancestors.takeWhile ListId.nocacheBit, none, 0⟩ = s₁ at h' hn hfind ⊢
      rw [← haddress] at h'
      rw [hfind]
      change Armed none (s₁.keepAlive now n)
      rw [keepAlive, hactive]
      exact h'.arm hn fun _ => ⟨rfl, rfl, rfl⟩

theorem not_isInvalidated (h : Armed none s) (hn : n ∈ s.overrides) : n.ovr.isInvalidated = false := by
  obtain ⟨start, hstart, -⟩ := h.pending n hn nofun
  rw [Override.isInvalidated, hstart, Option.isNone_some]

/-- The override is removed, and nothing else is stored under its ID. -/
theorem removeOverride (h : Armed none s) (id : ListId) :
    Armed none (s.removeOverride id).2 ∧ (s.removeOverride id).2.find id = none := by
  unfold CheckWithOverrides.removeOverride
  cases hfind : s.find id with
  | none => exact ⟨h, hfind⟩
  | some n =>
    obtain ⟨hn, rfl⟩ := mem_of_find hfind
    have h₁ := (h.release_timeout hn).modify (f := fun ovr => { ovr with startTime := none, activeTimerId := 0 })
      fun _ => rfl
    have hn₁ : n ∈ (s.removeTimeout n.ovr.activeTimerId).overrides := by
      unfold removeTimeout
      split <;> exact hn
    dsimp only
    rw [invalidate, h.not_isInvalidated hn, if_neg (by simp), h.captured n hn]
    refine ⟨Armed.erase (n := { n with ovr := { n.ovr with startTime := none, activeTimerId := 0 } }) h₁
      (mem_modify.mpr ⟨n, hn₁, if_pos rfl⟩), ?_⟩
    rw [find_eq_none]
    intro m hm
    simpa using List.of_mem_filter hm

/-- A timer fires in time, and its override is erased. -/
theorem fire (h : Armed none s) (ht : t ∈ s.timers) (hnow : t.created + expiryTime ≤ now) :
    ∃ n ∈ s.overrides, n.ovr.activeTimerId = t.id ∧
      trampoline { s with timers := s.timers.filter (·.id ≠ t.id) } now t.origin =
        .ok ({ s with timers := s.timers.filter (·.id ≠ t.id) }.erase n.key) ∧
      Armed none ({ s with timers := s.timers.filter (·.id ≠ t.id) }.erase n.key) := by
  obtain ⟨-, n, hn, horigin, hactive⟩ := h.owner t ht
  obtain ⟨start, hstart, htimer⟩ := h.pending n hn nofun
  have hcreated : start = t.created := congrArg Timer.created (h.eq_of_id htimer ht hactive)
  refine ⟨n, hn, hactive, ?_, hactive ▸ (h.release hn).erase hn⟩
  have hfind : s.overrides.find? (·.address = t.origin) = some n := by
    cases hfind : s.overrides.find? (·.address = t.origin) with
    | none => exact absurd horigin (by simpa using List.find?_eq_none.mp hfind n hn)
    | some m =>
      rw [h.eq_of_address (List.mem_of_find?_eq_some hfind) hn
        ((by simpa using List.find?_some hfind :).trans horigin.symm)]
  unfold trampoline
  dsimp only
  rw [hfind]
  dsimp only
  rw [if_pos, h.captured n hn]
  intro start' hstart'
  obtain rfl := Option.some.inj (hstart'.symm.trans hstart)
  omega

/-- A timer fires too early, and nothing happens. -/
theorem fire_early {s' : CheckWithOverrides} (h : Armed none s) (ht : t ∈ s.timers)
    (hnow : ¬ t.created + expiryTime ≤ now)
    (hs' : trampoline { s with timers := s.timers.filter (·.id ≠ t.id) } now t.origin = .ok s') :
    s' = { s with timers := s.timers.filter (·.id ≠ t.id) } ∧
      ∃ n ∈ s.overrides, n.ovr.activeTimerId = t.id := by
  obtain ⟨-, n, hn, horigin, hactive⟩ := h.owner t ht
  obtain ⟨start, hstart, htimer⟩ := h.pending n hn nofun
  have hcreated : start = t.created := congrArg Timer.created (h.eq_of_id htimer ht hactive)
  refine ⟨?_, n, hn, hactive⟩
  unfold trampoline at hs'
  dsimp only at hs'
  split at hs'
  · cases hs'
  · next m hfind =>
    have hm : m ∈ s.overrides := List.mem_of_find?_eq_some hfind
    have haddress : m.address = t.origin := by simpa using List.find?_some hfind
    obtain rfl := h.eq_of_address hm hn (haddress.trans horigin.symm)
    have hpos : 0 < expiryTime := by decide
    rw [if_neg fun hall => by have := hall start hstart; omega] at hs'
    exact (Except.ok.inj hs').symm

/-- A list without override gets a new ID. -/
theorem listInvalidate {replacement : ListId} (h : Armed none s)
    (hnone : id.isValid = true → replacement.isValid = true → s.find id = none) :
    Armed none (s.listInvalidate id replacement) := by
  unfold CheckWithOverrides.listInvalidate
  split
  · next hid =>
    split
    · next hreplacement =>
      rw [moveOverride, hnone hid hreplacement]
      exact h.patchPathsToRoot id replacement
    · exact (h.removeOverride id).1
  · exact h

end Armed

/-! ## Runs -/

/-- What happens to the overrides, and when. -/
inductive Event
  /-- The IDs of the ancestors of the list are known if it is cached. -/
  | putOverride (id : ListId) (ancestors : Option (List ListId))
  | removeOverride (id : ListId)
  | listInvalidate (id replacement : ListId)
  | fire (timer : ℕ)
  deriving DecidableEq, Repr

/-- What an event leads to, if it can happen: time does not go back, a new ID is one that no list has had an
override for, and a timer may fire a fraction of a second before its time. -/
def next (s : ℕ × CheckWithOverrides) (e : ℕ × Event) : Option (Except Fault (ℕ × CheckWithOverrides)) :=
  if e.1 < s.1 then none
  else
    match e.2 with
    | .putOverride id ancestors => some (.ok (e.1, (s.2.putOverride e.1 id ancestors).2))
    | .removeOverride id => some (.ok (e.1, (s.2.removeOverride id).2))
    | .listInvalidate id replacement =>
      if replacement.isValid = true → replacement ≠ id ∧ s.2.find replacement = none then
        some (.ok (e.1, s.2.listInvalidate id replacement))
      else none
    | .fire timer =>
      match s.2.timers.find? (·.id = timer) with
      | none => none
      | some t =>
        if t.created + expiryTime < e.1 + 10 ^ 6 then
          some ((trampoline { s.2 with timers := s.2.timers.filter (·.id ≠ t.id) } e.1 t.origin).map (e.1, ·))
        else none

def Step (s : ℕ × CheckWithOverrides) (e : ℕ × Event) (s' : ℕ × CheckWithOverrides) : Prop := next s e = some (.ok s')

/-- What an event does to the overrides. -/
def After (t : ℕ) (s s' : CheckWithOverrides) : Event → Prop
  | .putOverride id ancestors => s' = (s.putOverride t id ancestors).2
  | .removeOverride id => s' = (s.removeOverride id).2
  | .listInvalidate id new => (new.isValid = true → new ≠ id ∧ s.find new = none) ∧ s' = s.listInvalidate id new
  | .fire timer => ∃ tm ∈ s.timers, tm.id = timer ∧
      trampoline { s with timers := s.timers.filter (·.id ≠ tm.id) } t tm.origin = .ok s'

/-- An event can happen, and does no harm. -/
theorem after_of_step {s s' : ℕ × CheckWithOverrides} {e : Event} (h : Step s (now, e) s') : After now s.2 s'.2 e := by
  unfold Step next at h
  split at h
  · cases h
  · cases e with
    | putOverride id ancestors =>
      cases h
      rfl
    | removeOverride id =>
      cases h
      rfl
    | listInvalidate id replacement =>
      dsimp only at h
      split at h
      · next hnew =>
        cases h
        exact ⟨hnew, rfl⟩
      · cases h
    | fire timer =>
      dsimp only at h
      split at h
      · cases h
      · next t hfind =>
        split at h
        · obtain ⟨s₁, hs₁, rfl⟩ := map_eq_ok.mp (Option.some.inj h)
          exact ⟨t, List.mem_of_find?_eq_some hfind, by simpa using List.find?_some hfind, hs₁⟩
        · cases h

/-- Only a timer that fires can refer to memory that has been freed: that of an override which has been moved, or
erased. -/
theorem origin_of_fault {s : ℕ × CheckWithOverrides} {e : Event} {f : Fault} (h : next s (now, e) = some (.error f)) :
    ∃ t ∈ s.2.timers, e = .fire t.id ∧ ∀ n ∈ s.2.overrides, n.address ≠ t.origin := by
  unfold next at h
  split at h
  · cases h
  · cases e with
    | putOverride id ancestors => cases h
    | removeOverride id => cases h
    | listInvalidate id replacement =>
      dsimp only at h
      split at h <;> cases h
    | fire timer =>
      dsimp only at h
      split at h
      · cases h
      · next t hfind =>
        have hid : t.id = timer := by simpa using List.find?_some hfind
        split at h
        · refine ⟨t, List.mem_of_find?_eq_some hfind, by rw [hid], ?_⟩
          have hfault := map_eq_error.mp (Option.some.inj h)
          unfold trampoline at hfault
          split at hfault
          · next hnone => simpa using hnone
          · split at hfault <;> cases hfault
        · cases h

/-- No list that has an override gets a new ID, and no timer fires early. -/
def InTime (s : ℕ × CheckWithOverrides) : ℕ × Event → Prop
  | (_, .listInvalidate id replacement) => id.isValid = true → replacement.isValid = true → s.2.find id = none
  | (now, .fire timer) => ∀ t ∈ s.2.timers, t.id = timer → t.created + expiryTime ≤ now
  | _ => True

/-- The overrides that are stored are valid, are stored under the ID that their expiry callback erases, and timers
are for overrides that are stored. -/
structure Sound (s : CheckWithOverrides) : Prop where
  not_invalidated : ∀ n ∈ s.overrides, n.ovr.isInvalidated = false
  expiredFn : ∀ n ∈ s.overrides, n.ovr.expiredFn = n.key
  timers : ∀ t ∈ s.timers, ∃ n ∈ s.overrides, n.address = t.origin

/-- After an event the state is sound, an override that has been removed is gone, and so is one whose timer has
fired. -/
structure Kept (s : ℕ × CheckWithOverrides) (e : ℕ × Event) (s' : ℕ × CheckWithOverrides) : Prop where
  sound : s'.2.Sound
  removed : ∀ id, e.2 = .removeOverride id → s'.2.find id = none
  expired : ∀ timer, e.2 = .fire timer → ∀ n ∈ s.2.overrides, n.ovr.activeTimerId = timer →
    ∀ m ∈ s'.2.overrides, m.address ≠ n.address

theorem Armed.sound (h : Armed none s) : s.Sound where
  not_invalidated _ hn := h.not_isInvalidated hn
  expiredFn := h.captured
  timers t ht := by
    obtain ⟨-, n, hn, horigin, -⟩ := h.owner t ht
    exact ⟨n, hn, horigin⟩

/-- An override that is moved erases another ID than its own. -/
theorem not_sound_listInvalidate {replacement : ListId} (hn : s.find id = some n) (hcaptured : n.ovr.expiredFn = id)
    (hid : id.isValid = true) (hreplacement : replacement.isValid = true) (hne : replacement ≠ id)
    (hfresh : s.find replacement = none) : ¬ (s.listInvalidate id replacement).Sound := fun h => by
  have hmem : (⟨replacement, s.nextAddress, n.ovr.listInvalidate id replacement⟩ : Node) ∈
      (s.listInvalidate id replacement).overrides := by
    rw [listInvalidate, if_pos hid, if_pos hreplacement, moveOverride, hn]
    dsimp only
    rw [if_pos hne.symm, emplace_new hfresh]
    exact List.mem_map.mpr ⟨_, List.mem_filter.mpr ⟨List.mem_cons_self, by simpa using hne⟩, rfl⟩
  have hexpired : (n.ovr.listInvalidate id replacement).expiredFn = n.ovr.expiredFn := by
    unfold Override.listInvalidate
    split <;> rfl
  exact hne ((h.expiredFn _ hmem).symm.trans (hexpired.trans hcaptured))

theorem Armed.step {s s' : ℕ × CheckWithOverrides} {e : ℕ × Event} (h : Armed none s.2) (hok : InTime s e)
    (hstep : Step s e s') : Armed none s'.2 := by
  obtain ⟨now, e⟩ := e
  have hafter := after_of_step hstep
  cases e with
  | putOverride id ancestors =>
    rw [show s'.2 = _ from hafter]
    exact h.putOverride ancestors
  | removeOverride id =>
    rw [show s'.2 = _ from hafter]
    exact (h.removeOverride id).1
  | listInvalidate id replacement =>
    rw [hafter.2]
    exact h.listInvalidate hok
  | fire timer =>
    obtain ⟨t, ht, hid, hfired⟩ := hafter
    obtain ⟨n, -, -, hfire, harmed⟩ := h.fire ht (hok t ht hid)
    rw [← Except.ok.inj (hfire.symm.trans hfired)]
    exact harmed

/-- Every timer refers to an override. -/
theorem Armed.no_fault {s : ℕ × CheckWithOverrides} (h : Armed none s.2) (e : ℕ × Event) (f : Fault) :
    next s e ≠ some (.error f) := fun hfault => by
  obtain ⟨now, e⟩ := e
  obtain ⟨t, ht, -, hno⟩ := origin_of_fault hfault
  obtain ⟨-, n, hn, horigin, -⟩ := h.owner t ht
  exact hno n hn horigin

theorem Armed.kept_iff {s s' : ℕ × CheckWithOverrides} {e : ℕ × Event} (h : Armed none s.2) (hstep : Step s e s') :
    Kept s e s' ↔ InTime s e := by
  constructor
  · intro hkept
    obtain ⟨now, e⟩ := e
    have hafter := after_of_step hstep
    cases e with
    | putOverride id ancestors => trivial
    | removeOverride id => trivial
    | listInvalidate id replacement =>
      intro hid hreplacement
      by_contra hsome
      obtain ⟨n, hn⟩ := Option.ne_none_iff_exists'.mp hsome
      obtain ⟨hfresh, hs'⟩ := hafter
      obtain ⟨hmem, hkey⟩ := mem_of_find hn
      exact not_sound_listInvalidate hn ((h.captured n hmem).trans hkey) hid hreplacement (hfresh hreplacement).1
        (hfresh hreplacement).2 (hs' ▸ hkept.sound)
    | fire timer =>
      intro t' ht' hid
      by_contra hearly
      obtain ⟨t, ht, hid', hfire⟩ := hafter
      obtain rfl : t = t' := h.eq_of_id ht ht' (hid'.trans hid.symm)
      obtain ⟨hs', n, hn, hactive⟩ := h.fire_early ht' hearly hfire
      exact hkept.expired timer rfl n hn (hactive.trans hid) n (by rw [hs']; exact hn) rfl
  · intro hok
    have h' := h.step hok hstep
    refine ⟨h'.sound, fun id he => ?_, fun timer he n hn hactive m hm e' => ?_⟩
    · obtain ⟨now, e⟩ := e
      obtain rfl : e = .removeOverride id := he
      rw [show s'.2 = _ from after_of_step hstep]
      exact (h.removeOverride id).2
    · obtain ⟨now, e⟩ := e
      obtain rfl : e = .fire timer := he
      obtain ⟨t, ht, hid, hfired⟩ := after_of_step hstep
      obtain ⟨n', hn', hactive', hfire, -⟩ := h.fire ht (hok t ht hid)
      rw [← Except.ok.inj (hfire.symm.trans hfired)] at hm
      obtain ⟨hm, hkey⟩ := List.mem_filter.mp hm
      obtain rfl := h.eq_of_address hm hn e'
      obtain ⟨start, -, htimer⟩ := h.pending m hm nofun
      obtain ⟨start', -, htimer'⟩ := h.pending n' hn' nofun
      have := h.eq_of_id htimer htimer' (hactive.trans (hid.symm.trans hactive'.symm))
      rw [h.eq_of_address hm hn' (congrArg Timer.origin this)] at hkey
      simp at hkey

theorem step_det (s : ℕ × CheckWithOverrides) (e : ℕ × Event) (s₁ s₂ : ℕ × CheckWithOverrides) (h₁ : Step s e s₁)
    (h₂ : Step s e s₂) : s₁ = s₂ := Except.ok.inj (Option.some.inj (Eq.trans (Eq.symm h₁) h₂))

/-- An override gets a new ID, and is removed: it stays. Another one gets a new ID, and its timer refers to memory
that has been freed. And a timer that fires early leaves its override without timer. -/
theorem override_stays : (∃ s, Run Step (0, init)
    [(0, .putOverride ⟨2 ^ 27 + 1⟩ (some [])), (1, .listInvalidate ⟨2 ^ 27 + 1⟩ ⟨2 ^ 27 + 2⟩),
      (2, .removeOverride ⟨2 ^ 27 + 2⟩), (3, .putOverride ⟨2 ^ 27 + 1⟩ (some [])),
      (4, .listInvalidate ⟨2 ^ 27 + 1⟩ ⟨2 ^ 27 + 3⟩)] s ∧
    (s.2.find ⟨2 ^ 27 + 2⟩).map (·.ovr.isInvalidated) = some true ∧ ¬ s.2.Sound ∧
      ∃ t ∈ s.2.timers, s.2.trampoline (180 * 10 ^ 6 + 3) t.origin = .error .useAfterFree) ∧
    ∃ s, Run Step (0, init) [(0, .putOverride ⟨2 ^ 27 + 1⟩ (some [])), (1795 * 10 ^ 5, .fire 1)] s ∧
      (s.2.find ⟨2 ^ 27 + 1⟩).map (·.ovr.isInvalidated) = some false ∧ s.2.timers = [] := by
  refine ⟨⟨_, .cons rfl (.cons rfl (.cons rfl (.cons rfl (.cons rfl (.nil _))))), by decide, fun h => ?_,
    ⟨2, 2, 3⟩, by decide, by decide⟩, _, .cons rfl (.cons rfl (.nil _)), by decide, by decide⟩
  have := h.not_invalidated ⟨⟨2 ^ 27 + 2⟩, 1, ⟨2 ^ 27 + 1⟩, [], none, 0⟩ (by decide)
  cases this

/-- In a run, all overrides can be removed, and all expire, if and only if no list that has an override gets a new
ID, and no timer fires early. -/
theorem overrides_expire_iff {events : List (ℕ × Event)} {s : ℕ × CheckWithOverrides} {start : ℕ}
    (h : Run Step (start, init) events s) :
    Throughout Step Kept (start, init) events ↔ Run (When Step InTime) (start, init) events s := by
  refine Run.throughout_iff (P := fun s => Armed none s.2) step_det ?_ ?_ h armed_init
  · exact fun _ _ _ hs hstep => hs.kept_iff hstep
  · exact fun _ _ _ hs hok hstep => hs.step hok hstep

/-- In such runs no timer refers to memory that has been freed. -/
theorem no_fault_in_time {events : List (ℕ × Event)} {s : ℕ × CheckWithOverrides} {start : ℕ}
    (h : Run (When Step InTime) (start, init) events s) (e : ℕ × Event) (f : Fault) : next s e ≠ some (.error f) :=
  (h.invariant (P := fun s => Armed none s.2) (fun _ _ _ hs hstep => hs.step hstep.1 hstep.2) armed_init).no_fault e f

/-- An override is kept alive, removed, put again, and expires. -/
def exampleEvents : List (ℕ × Event) :=
  [(0, .putOverride ⟨2 ^ 27 + 1⟩ (some [⟨2 ^ 27 + 2⟩, ⟨3⟩])),
    (100 * 10 ^ 6, .putOverride ⟨2 ^ 27 + 1⟩ (some [⟨2 ^ 27 + 2⟩, ⟨3⟩])),
    (200 * 10 ^ 6, .listInvalidate ⟨2 ^ 27 + 2⟩ ⟨2 ^ 27 + 4⟩), (210 * 10 ^ 6, .removeOverride ⟨2 ^ 27 + 1⟩),
    (280 * 10 ^ 6, .putOverride ⟨2 ^ 27 + 1⟩ (some [])), (460 * 10 ^ 6, .fire 3)]

instance (s : ℕ × CheckWithOverrides) (e : ℕ × Event) : Decidable (InTime s e) :=
  match e with
  | (_, .listInvalidate id replacement) =>
    inferInstanceAs (Decidable (id.isValid = true → replacement.isValid = true → s.2.find id = none))
  | (now, .fire timer) => inferInstanceAs (Decidable (∀ t ∈ s.2.timers, t.id = timer → t.created + expiryTime ≤ now))
  | (_, .putOverride ..) | (_, .removeOverride _) => inferInstanceAs (Decidable True)

theorem overrides_expire_kept_alive : ∃ s : ℕ × CheckWithOverrides, s = (460 * 10 ^ 6, ⟨[], [], 2, 4⟩) ∧
    Run Step (0, init) exampleEvents s ∧ Throughout Step Kept (0, init) exampleEvents := by
  obtain ⟨s, hrun, hs⟩ := Run.of_exec_any (fun _ _ _ => some_ok_of_toOption)
    (show (exec (fun s e => (next s e).bind Except.toOption) InTime exampleEvents (0, init)).any
      (fun s => s = (460 * 10 ^ 6, ⟨[], [], 2, 4⟩)) = true by decide)
  exact ⟨s, of_decide_eq_true hs, hrun.of_when, (overrides_expire_iff hrun.of_when).mpr hrun⟩

end CheckWithOverrides

end Listbrokers.Cacheable
