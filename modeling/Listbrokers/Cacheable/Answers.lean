import Listbrokers.Cacheable.Expiry

/-!
# Answers of `is_cacheable`

Runs in which lists are inserted, discarded and get new IDs while overrides are
put, removed, and expire. The answers follow the tree as long as no override is
removed, and no timer fires for one, after its list has got a new ID: then an
override is stored under the current ID of its list, with the current IDs of the
lists above it that are not cacheable (`Follows`). A list that gets a new ID
keeps its answer, as do all others.
-/

namespace Listbrokers.Cacheable

open Framework Listbrokers.Tree CheckWithOverrides

variable {P : Type}

/-! ## The tree -/

/-- A tree of cached lists with different, valid IDs. -/
structure ListTree (T : Forest P) (lists : Tree.Shelf P) : Prop where
  ids : ∀ p ∈ lists.cached, ∀ q ∈ lists.cached, lists.id p = lists.id q → p = q
  valid : ∀ p ∈ lists.cached, (lists.id p).isValid = true
  closed : ∀ p ∈ lists.cached, ∀ q, T.parent p = some q → q ∈ lists.cached

/-- No list is to be cached. -/
def nocache (lists : Tree.Shelf P) (p : P) : Bool := (lists.id p).nocacheBit

/-- An active override is stored for the list. -/
def HasOverride (lists : Tree.Shelf P) (s : CheckWithOverrides) (p : P) : Prop :=
  ∃ n ∈ s.overrides, n.key = lists.id p ∧ n.ovr.isInvalidated = false

/-- An active override is stored for the list, for one of its ancestors, or for a descendant such that the list and all
lists in between have the nocache bit. -/
def Overridden (T : Forest P) (lists : Tree.Shelf P) (s : CheckWithOverrides) (p : P) : Prop :=
  ∃ d ∈ lists.cached, HasOverride lists s d ∧
    (d ∈ T.path p ∨ p ∈ (T.path d).tail ∧ ∀ q ∈ (T.path d).tail, p ∈ T.path q → nocache lists q = true)

/-! ## What happens -/

/-- What happens to the lists and to the overrides. -/
inductive TreeEvent (P : Type)
  | insert (p : P) (id : ListId)
  | discard (p : P)
  | insertAgain (p : P) (id : ListId)
  | putOverride (id : ListId)
  | removeOverride (id : ListId)
  | fire (timer : ℕ)
  deriving DecidableEq, Repr

namespace TreeEvent

/-- The lists after an event. -/
def lists [DecidableEq P] (s : Tree.Shelf P) : TreeEvent P → Tree.Shelf P
  | insert p id => s.insert p id
  | discard p => s.remove p
  | insertAgain p id => s.insertAgain p id
  | _ => s

/-- What the overrides see of an event; a list that is discarded gets an invalid ID. -/
def event (T : Forest P) (s : Tree.Shelf P) : TreeEvent P → Event
  | insert _ id => .listInvalidate .invalid id
  | discard p => .listInvalidate (s.id p) .invalid
  | insertAgain p id => .listInvalidate (s.id p) id
  | putOverride id => .putOverride id ((s.find id).map fun p => (T.path p).tail.map s.id)
  | removeOverride id => .removeOverride id
  | fire timer => .fire timer

/-- A new ID is valid and free, and tells whether to cache the list as the old one does. Lists are discarded before
their parents. -/
def Allowed (T : Forest P) (s : Tree.Shelf P) : TreeEvent P → Prop
  | insert p id => p ∉ s.cached ∧ (∀ q ∈ T.parent p, q ∈ s.cached) ∧ id.isValid = true ∧ ∀ q ∈ s.cached, s.id q ≠ id
  | discard p => p ∈ s.cached ∧ ∀ q ∈ s.cached, T.parent q ≠ some p
  | insertAgain p id => p ∈ s.cached ∧ id.isValid = true ∧ (∀ q ∈ s.cached, s.id q ≠ id) ∧
      id.nocacheBit = (s.id p).nocacheBit
  | _ => True

instance [DecidableEq P] (T : Forest P) (s : Tree.Shelf P) (e : TreeEvent P) : Decidable (e.Allowed T s) := by
  cases e <;> unfold Allowed <;> infer_instance

end TreeEvent

/-- The lists, the time, and the overrides. -/
structure Checked (P : Type) where
  lists : Tree.Shelf P
  checks : ℕ × CheckWithOverrides

def Checked.next [DecidableEq P] (T : Forest P) (c : Checked P) (e : ℕ × TreeEvent P) :
    Option (Except Fault (Checked P)) :=
  if e.2.Allowed T c.lists then
    (CheckWithOverrides.next c.checks (e.1, e.2.event T c.lists)).map (·.map fun checks => ⟨e.2.lists c.lists, checks⟩)
  else none

variable {T : Forest P} {lists : Tree.Shelf P} {s s' : CheckWithOverrides} {n m : Node} {p q d : P}
    {id new : ListId} {now : ℕ}
  {x : Option ℕ}

/-! ## The tree of lists -/

namespace ListTree

variable (h : ListTree T lists)

include h

theorem path_subset (hp : p ∈ lists.cached) : ∀ q ∈ T.path p, q ∈ lists.cached :=
  Forest.path_subset (fun p q hp hq => h.closed p hp q hq) hp

theorem find_id (hp : p ∈ lists.cached) : lists.find (lists.id p) = some p := by
  cases hfind : lists.find (lists.id p) with
  | none => exact absurd rfl (Tree.Shelf.find_eq_none.mp hfind p hp)
  | some q =>
    obtain ⟨hq, hid⟩ := Tree.Shelf.mem_of_find hfind
    rw [h.ids q hq p hp hid]

theorem mem_remove (hp : p ∈ lists.cached) : q ∈ (lists.remove p).cached ↔ q ∈ lists.cached ∧ q ≠ p := by
  simp only [Tree.Shelf.remove, List.mem_filter, decide_not, Bool.not_eq_true', decide_eq_false_iff_not]
  exact and_congr_right fun hq => not_congr ⟨h.ids q hq p hp, fun e => by rw [e]⟩

theorem mem_insertAgain [DecidableEq P] (hp : p ∈ lists.cached) :
    q ∈ (lists.insertAgain p new).cached ↔ q ∈ lists.cached := by
  change q ∈ p :: (lists.remove p).cached ↔ _
  rw [List.mem_cons, h.mem_remove hp]
  by_cases e : q = p
  · simp [e, hp]
  · simp [e]

theorem insert [DecidableEq P] (hvalid : new.isValid = true) (hfree : ∀ q ∈ lists.cached, lists.id q ≠ new)
    (hparent : ∀ q ∈ T.parent p, q ∈ lists.cached) : ListTree T (lists.insert p new) where
  ids q hq r hr e := by
    by_cases hqp : q = p <;> by_cases hrp : r = p
    · rw [hqp, hrp]
    · rw [hqp, Tree.Shelf.insert_id_self, Tree.Shelf.insert_id_of_ne hrp] at e
      exact absurd e.symm (hfree r (List.mem_of_ne_of_mem hrp hr))
    · rw [hrp, Tree.Shelf.insert_id_self, Tree.Shelf.insert_id_of_ne hqp] at e
      exact absurd e (hfree q (List.mem_of_ne_of_mem hqp hq))
    · rw [Tree.Shelf.insert_id_of_ne hqp, Tree.Shelf.insert_id_of_ne hrp] at e
      exact h.ids q (List.mem_of_ne_of_mem hqp hq) r (List.mem_of_ne_of_mem hrp hr) e
  valid := Tree.Shelf.forall_insert (C := fun i => i.isValid = true) h.valid hvalid
  closed q hq r hr := by
    refine List.mem_cons_of_mem p ?_
    rcases List.mem_cons.mp hq with rfl | hq
    · exact hparent r hr
    · exact h.closed q hq r hr

theorem remove (hp : p ∈ lists.cached) (hleaf : ∀ q ∈ lists.cached, T.parent q ≠ some p) :
    ListTree T (lists.remove p) where
  ids q hq r hr := h.ids q (List.mem_of_mem_filter hq) r (List.mem_of_mem_filter hr)
  valid q hq := h.valid q (List.mem_of_mem_filter hq)
  closed q hq r hr := by
    have hq := List.mem_of_mem_filter hq
    exact (h.mem_remove hp).mpr ⟨h.closed q hq r hr, fun e => hleaf q hq (e ▸ hr)⟩

theorem insertAgain [DecidableEq P] (hp : p ∈ lists.cached) (hvalid : new.isValid = true)
    (hfree : ∀ q ∈ lists.cached, lists.id q ≠ new) : ListTree T (lists.insertAgain p new) where
  ids q hq r hr e := by
    have hq := (h.mem_insertAgain hp).mp hq
    have hr := (h.mem_insertAgain hp).mp hr
    change Function.update lists.id p new q = Function.update lists.id p new r at e
    by_cases hqp : q = p <;> by_cases hrp : r = p
    · rw [hqp, hrp]
    · rw [hqp, Function.update_self, Function.update_of_ne hrp] at e
      exact absurd e.symm (hfree r hr)
    · rw [hrp, Function.update_self, Function.update_of_ne hqp] at e
      exact absurd e (hfree q hq)
    · rw [Function.update_of_ne hqp, Function.update_of_ne hrp] at e
      exact h.ids q hq r hr e
  valid q hq := by
    have hq := (h.mem_insertAgain hp).mp hq
    change (Function.update lists.id p new q).isValid = true
    by_cases hqp : q = p
    · rw [hqp, Function.update_self, hvalid]
    · rw [Function.update_of_ne hqp]
      exact h.valid q hq
  closed q hq r hr := (h.mem_insertAgain hp).mpr (h.closed q ((h.mem_insertAgain hp).mp hq) r hr)

end ListTree

/-! ## The overrides follow the lists -/

/-- The lists above `d` that are not cacheable, up to the first one that is. -/
def uncacheableAbove (T : Forest P) (lists : Tree.Shelf P) (d : P) : List P := (T.path d).tail.takeWhile (nocache lists)

/-- The override is stored under the ID of a cached list, with the IDs of the lists above it that are not cacheable. -/
def Tracked (T : Forest P) (lists : Tree.Shelf P) (n : Node) : Prop :=
  ∃ d ∈ lists.cached, n.key = lists.id d ∧
    ∀ i, i ∈ n.ovr.nodesOnOverriddenPathToRoot ↔ ∃ q ∈ uncacheableAbove T lists d, lists.id q = i

/-- All overrides are active but the one at the address `x`, and they are different objects for different lists. -/
structure Stored (x : Option ℕ) (s : CheckWithOverrides) : Prop where
  keys : (s.overrides.map (·.key)).Nodup
  addresses : (s.overrides.map (·.address)).Nodup
  address_lt : ∀ n ∈ s.overrides, n.address < s.nextAddress
  active : ∀ n ∈ s.overrides, x ≠ some n.address → n.ovr.isInvalidated = false

/-- All overrides are active, and follow the lists. -/
structure Follows (T : Forest P) (lists : Tree.Shelf P) (s : CheckWithOverrides) : Prop where
  stored : Stored none s
  tracked : ∀ n ∈ s.overrides, Tracked T lists n

theorem Stored.find_key (h : Stored x s) (hn : n ∈ s.overrides) : s.find n.key = some n := by
  cases hfind : s.find n.key with
  | none => exact absurd rfl (find_eq_none.mp hfind n hn)
  | some m =>
    obtain ⟨hm, e⟩ := mem_of_find hfind
    rw [List.inj_on_of_nodup_map h.keys hm hn e]

theorem mem_takeWhile_tail {f : P → Bool} :
    p ∈ (T.path d).tail.takeWhile f ↔ p ∈ (T.path d).tail ∧ ∀ q ∈ (T.path d).tail, p ∈ T.path q → f q = true := by
  cases hpar : T.parent d with
  | none => simp [Forest.path_of_root hpar]
  | some e =>
    rw [Forest.path_of_parent hpar, List.tail_cons]
    exact Forest.mem_takeWhile_path

/-- The answer for a cached list that is not cacheable by itself. -/
theorem isCacheable_eq [DecidableEq P] (ht : ListTree T lists) (hp : p ∈ lists.cached) (hno : nocache lists p = true) :
    s.isCacheable T lists (lists.id p) =
      ((s.overrides.any fun n => n.key = lists.id p || lists.id p ∈ n.ovr.nodesOnOverriddenPathToRoot) ||
        (T.path p).tail.any fun q => (s.find (lists.id q)).any fun n => !n.ovr.isInvalidated) := by
  unfold isCacheable
  rw [if_neg (by simp [ht.valid p hp]), ht.find_id hp]
  dsimp only
  rw [if_neg (by rw [show (lists.id p).nocacheBit = true from hno]; decide)]
  cases hempty : s.overrides with
  | nil => simp [CheckWithOverrides.find, hempty]
  | cons n l =>
    rw [List.isEmpty_cons, if_neg Bool.false_ne_true]
    split
    · next h => rw [h, Bool.true_or]
    · next h => rw [Bool.eq_false_iff.mpr h, Bool.false_or]

/-- The answers follow the tree if the overrides do. -/
theorem Follows.isCacheable_iff [DecidableEq P] (h : Follows T lists s) (ht : ListTree T lists) (hp : p ∈ lists.cached)
    (hno : nocache lists p = true) : s.isCacheable T lists (lists.id p) = true ↔ Overridden T lists s p := by
  rw [isCacheable_eq ht hp hno, Bool.or_eq_true, List.any_eq_true, List.any_eq_true]
  constructor
  · rintro (⟨n, hn, hor⟩ | ⟨q, hq, hfind⟩)
    · obtain ⟨d, hd, hkey, hnodes⟩ := h.tracked n hn
      have hover : HasOverride lists s d := ⟨n, hn, hkey, h.stored.active n hn nofun⟩
      rw [Bool.or_eq_true, decide_eq_true_iff, decide_eq_true_iff] at hor
      rcases hor with hid | hmem
      · obtain rfl := ht.ids d hd p hp (hkey.symm.trans hid)
        exact ⟨d, hd, hover, .inl Forest.mem_path_self⟩
      · obtain ⟨q, hq, hid⟩ := (hnodes _).mp hmem
        have hq' := mem_takeWhile_tail.mp hq
        obtain rfl := ht.ids q (ht.path_subset hd q (List.mem_of_mem_tail hq'.1)) p hp hid
        exact ⟨d, hd, hover, .inr hq'⟩
    · obtain ⟨n, hsome, hactive⟩ := (Option.any_eq_true _ _).mp hfind
      obtain ⟨hn, hkey⟩ := mem_of_find hsome
      have hq := List.mem_of_mem_tail hq
      exact ⟨q, ht.path_subset hp q hq, ⟨n, hn, hkey, by simpa using hactive⟩, .inl hq⟩
  · rintro ⟨d, hd, ⟨n, hn, hkey, hactive⟩, hrel⟩
    rcases hrel with hdp | hbelow
    · by_cases e : d = p
      · exact .inl ⟨n, hn, by simp [hkey, e]⟩
      · refine .inr ⟨d, ?_, ?_⟩
        · obtain ⟨M, hM⟩ := T.exists_path_eq p
          rw [hM] at hdp ⊢
          exact List.mem_of_ne_of_mem e hdp
        · rw [← hkey, h.stored.find_key hn, Option.any_some, hactive]
          rfl
    · obtain ⟨d', hd', hkey', hnodes⟩ := h.tracked n hn
      obtain rfl := ht.ids d' hd' d hd (hkey'.symm.trans hkey)
      refine .inl ⟨n, hn, ?_⟩
      rw [Bool.or_eq_true, decide_eq_true_iff, decide_eq_true_iff]
      exact .inr ((hnodes _).mpr ⟨p, mem_takeWhile_tail.mpr hbelow, rfl⟩)

/-! ## Lists that are inserted, discarded, and get new IDs -/

theorem mem_uncacheableAbove {lists' : Tree.Shelf P} (h : ∀ q ∈ T.path d, nocache lists' q = nocache lists q) :
    p ∈ uncacheableAbove T lists' d ↔ p ∈ uncacheableAbove T lists d := by
  rw [uncacheableAbove, uncacheableAbove, mem_takeWhile_tail, mem_takeWhile_tail]
  refine and_congr_right fun _ => forall₂_congr fun q hq => ?_
  rw [h q (List.mem_of_mem_tail hq)]

/-- A list and its ancestors have kept their IDs. -/
theorem Tracked.congr {lists' : Tree.Shelf P} (hd : d ∈ lists'.cached) (hkey : n.key = lists.id d)
    (hnodes : ∀ i, i ∈ n.ovr.nodesOnOverriddenPathToRoot ↔ ∃ q ∈ uncacheableAbove T lists d, lists.id q = i)
    (hids : ∀ q ∈ T.path d, lists'.id q = lists.id q) : Tracked T lists' n := by
  have hnocache : ∀ q ∈ T.path d, nocache lists' q = nocache lists q := fun q hq => by rw [nocache, nocache, hids q hq]
  have habove : ∀ q ∈ uncacheableAbove T lists d, lists'.id q = lists.id q := fun q hq =>
    hids q (List.mem_of_mem_tail ((List.takeWhile_sublist _).mem hq))
  refine ⟨d, hd, hkey.trans (hids d Forest.mem_path_self).symm, fun i => (hnodes i).trans ?_⟩
  constructor
  · rintro ⟨q, hq, rfl⟩
    exact ⟨q, (mem_uncacheableAbove hnocache).mpr hq, habove q hq⟩
  · rintro ⟨q, hq, rfl⟩
    have hq := (mem_uncacheableAbove hnocache).mp hq
    exact ⟨q, hq, (habove q hq).symm⟩

theorem Tracked.insert [DecidableEq P] (h : Tracked T lists n) (ht : ListTree T lists) (hp : p ∉ lists.cached) :
    Tracked T (lists.insert p new) n := by
  obtain ⟨d, hd, hkey, hnodes⟩ := h
  refine Tracked.congr (List.mem_cons_of_mem p hd) hkey hnodes fun q hq => Tree.Shelf.insert_id_of_ne fun e => hp ?_
  exact e ▸ ht.path_subset hd q hq

theorem Tracked.remove (h : Tracked T lists n) (ht : ListTree T lists) (hp : p ∈ lists.cached)
    (hne : n.key ≠ lists.id p) : Tracked T (lists.remove p) n := by
  obtain ⟨d, hd, hkey, hnodes⟩ := h
  exact .congr ((ht.mem_remove hp).mpr ⟨hd, fun e => hne (e ▸ hkey)⟩) hkey hnodes fun _ _ => rfl

/-- The IDs on the path of an override are patched. -/
theorem mem_listInvalidate {ovr : Override} {i : ListId} :
    i ∈ (ovr.listInvalidate id new).nodesOnOverriddenPathToRoot ↔
      i ∈ ovr.nodesOnOverriddenPathToRoot ∧ i ≠ id ∨ i = new ∧ id ∈ ovr.nodesOnOverriddenPathToRoot := by
  unfold Override.listInvalidate
  split
  · next h =>
    rw [List.mem_cons, List.mem_filter]
    simp only [decide_not, Bool.not_eq_true', decide_eq_false_iff_not, h, and_true]
    exact or_comm
  · next h =>
    by_cases e : i = id
    · simp [e, h]
    · simp [e, h]

/-- What a new ID does to an override; it is moved to another address if it is the override of the list. -/
def renamed (id new : ListId) (address : ℕ) (n : Node) : Node :=
  ⟨if n.key = id then new else n.key, if n.key = id then address else n.address, n.ovr.listInvalidate id new⟩

/-- A list gets a new ID, under which its override is stored then. -/
theorem Tracked.insertAgain [DecidableEq P] (h : Tracked T lists n) (ht : ListTree T lists) (hp : p ∈ lists.cached)
    (hbit : new.nocacheBit = (lists.id p).nocacheBit) (address : ℕ) :
    Tracked T (lists.insertAgain p new) (renamed (lists.id p) new address n) := by
  obtain ⟨d, hd, hkey, hnodes⟩ := h
  have hid : ∀ q, q ≠ p → (lists.insertAgain p new).id q = lists.id q := fun q hq => Function.update_of_ne hq ..
  have hidp : (lists.insertAgain p new).id p = new := Function.update_self ..
  have hnocache : ∀ q ∈ T.path d, nocache (lists.insertAgain p new) q = nocache lists q := fun q _ => by
    by_cases e : q = p
    · rw [e, nocache, nocache, hidp, hbit]
    · rw [nocache, nocache, hid q e]
  have hmem : ∀ q ∈ uncacheableAbove T lists d, q ∈ lists.cached := fun q hq =>
    ht.path_subset hd q (List.mem_of_mem_tail ((List.takeWhile_sublist _).mem hq))
  have hold : lists.id p ∈ n.ovr.nodesOnOverriddenPathToRoot ↔ p ∈ uncacheableAbove T lists d := by
    rw [hnodes]
    constructor
    · rintro ⟨q, hq, e⟩
      exact ht.ids q (hmem q hq) p hp e ▸ hq
    · exact fun hq => ⟨p, hq, rfl⟩
  refine ⟨d, (ht.mem_insertAgain hp).mpr hd, ?_, fun i => ?_⟩
  · rw [renamed]
    dsimp only
    by_cases e : d = p
    · rw [hkey, e, if_pos rfl, hidp]
    · rw [hkey, if_neg fun hids => e (ht.ids d hd p hp hids), hid d e]
  · rw [renamed]
    dsimp only
    rw [mem_listInvalidate, hold]
    constructor
    · rintro (⟨hi, hne⟩ | ⟨rfl, hq⟩)
      · obtain ⟨q, hq, rfl⟩ := (hnodes i).mp hi
        exact ⟨q, (mem_uncacheableAbove hnocache).mpr hq, hid q fun e => hne (by rw [e])⟩
      · exact ⟨p, (mem_uncacheableAbove hnocache).mpr hq, hidp⟩
    · rintro ⟨q, hq, rfl⟩
      have hq := (mem_uncacheableAbove hnocache).mp hq
      by_cases e : q = p
      · exact .inr ⟨by rw [e, hidp], e ▸ hq⟩
      · refine .inl ⟨(hnodes _).mpr ⟨q, hq, (hid q e).symm⟩, fun hids => ?_⟩
        rw [hid q e] at hids
        exact e (ht.ids q (hmem q hq) p hp hids)

/-! ## Overrides that are put, removed, and expire -/

namespace Stored

/-- Overrides that are left after some have been erased. -/
theorem filter {f : Node → Bool} (h : Stored none s) (hs : s'.overrides = s.overrides.filter f)
    (hnext : s'.nextAddress = s.nextAddress) : Stored none s' where
  keys := hs ▸ h.keys.sublist (List.filter_sublist.map _)
  addresses := hs ▸ h.addresses.sublist (List.filter_sublist.map _)
  address_lt n hn := hnext ▸ h.address_lt n (List.mem_of_mem_filter (hs ▸ hn))
  active n hn := h.active n (List.mem_of_mem_filter (hs ▸ hn))

/-- Overrides that change where they are. -/
theorem map {f : Node → Node} (h : Stored x s) (hs : s'.overrides = s.overrides.map f)
    (hnext : s'.nextAddress = s.nextAddress) (hkey : ∀ n, (f n).key = n.key) (haddress : ∀ n, (f n).address = n.address)
    (hactive : ∀ n, (x ≠ some n.address → n.ovr.isInvalidated = false) → (f n).ovr.isInvalidated = false) :
    Stored none s' where
  keys := by
    rw [hs, List.map_map, show (fun n : Node => n.key) ∘ f = fun n => n.key from funext hkey]
    exact h.keys
  addresses := by
    rw [hs, List.map_map, show (fun n : Node => n.address) ∘ f = fun n => n.address from funext haddress]
    exact h.addresses
  address_lt n hn := by
    rw [hs] at hn
    obtain ⟨m, hm, rfl⟩ := List.mem_map.mp hn
    rw [haddress, hnext]
    exact h.address_lt m hm
  active n hn _ := by
    rw [hs] at hn
    obtain ⟨m, hm, rfl⟩ := List.mem_map.mp hn
    exact hactive m (h.active m hm)

/-- Another override, which is not active yet. -/
theorem cons (h : Stored none s) (hs : s'.overrides = ⟨id, s.nextAddress, n.ovr⟩ :: s.overrides)
    (hnext : s'.nextAddress = s.nextAddress + 1) (hnew : s.find id = none) : Stored (some s.nextAddress) s' where
  keys := by
    rw [hs, List.map_cons, List.nodup_cons]
    refine ⟨fun hmem => ?_, h.keys⟩
    obtain ⟨m, hm, e⟩ := List.mem_map.mp hmem
    exact find_eq_none.mp hnew m hm e
  addresses := by
    rw [hs, List.map_cons, List.nodup_cons]
    refine ⟨fun hmem => ?_, h.addresses⟩
    obtain ⟨m, hm, e⟩ := List.mem_map.mp hmem
    exact absurd (h.address_lt m hm) (e ▸ Nat.lt_irrefl _)
  address_lt m hm := by
    rw [hs] at hm
    rw [hnext]
    rcases List.mem_cons.mp hm with rfl | hm
    · exact Nat.lt_succ_self _
    · exact Nat.lt_succ_of_lt (h.address_lt m hm)
  active m hm hne := by
    rw [hs] at hm
    rcases List.mem_cons.mp hm with rfl | hm
    · exact absurd rfl hne
    · exact h.active m hm nofun

end Stored

theorem removeTimeout_overrides (timer : ℕ) : (s.removeTimeout timer).overrides = s.overrides ∧
    (s.removeTimeout timer).nextAddress = s.nextAddress ∧ (s.removeTimeout timer).nextTimerId = s.nextTimerId := by
  unfold removeTimeout
  split <;> exact ⟨rfl, rfl, rfl⟩

/-- An override that is kept alive is active. -/
theorem Follows.keepAlive (h : Stored x s) (htracked : ∀ m ∈ s.overrides, Tracked T lists m)
    (hx : ∀ a, x = some a → a = n.address) : Follows T lists (s.keepAlive now n) := by
  obtain ⟨hovr, haddr, -⟩ := removeTimeout_overrides (s := s) n.ovr.activeTimerId
  have hs : (s.keepAlive now n).overrides = s.overrides.map fun m => if m.address = n.address then
      { m with ovr := { m.ovr with startTime := some now, activeTimerId := s.nextTimerId } } else m := by
    rw [← hovr]
    rfl
  constructor
  · refine h.map hs haddr (fun m => by split <;> rfl) (fun m => by split <;> rfl) fun m hm => ?_
    dsimp only
    split
    · rfl
    · next hne => exact hm fun e => hne (hx _ e)
  · intro m hm
    rw [hs] at hm
    obtain ⟨m, hmem, rfl⟩ := List.mem_map.mp hm
    obtain ⟨d, hd, hkey, hnodes⟩ := htracked m hmem
    exact ⟨d, hd, by split <;> exact hkey, by split <;> exact hnodes⟩

theorem Follows.putOverride (h : Follows T lists s) :
    Follows T lists (s.putOverride now id ((lists.find id).map fun p => (T.path p).tail.map lists.id)).2 := by
  unfold CheckWithOverrides.putOverride
  cases hlist : lists.find id with
  | none => exact h
  | some p =>
    obtain ⟨hp, hid⟩ := Tree.Shelf.mem_of_find hlist
    dsimp only [Option.map_some]
    cases hold : s.find id with
    | some n =>
      rw [emplace_of_find hold, hold]
      exact .keepAlive h.stored h.tracked nofun
    | none =>
      obtain ⟨s₁, n, hs₁, hs, hnext, hfind, haddress, hkey, hnodes⟩ : ∃ s₁ n,
          s₁ = s.emplace id ⟨id, ((T.path p).tail.map lists.id).takeWhile ListId.nocacheBit, none, 0⟩ ∧
          s₁.overrides = n :: s.overrides ∧ s₁.nextAddress = s.nextAddress + 1 ∧ s₁.find id = some n ∧
          n.address = s.nextAddress ∧ n.key = id ∧
          n.ovr.nodesOnOverriddenPathToRoot = ((T.path p).tail.map lists.id).takeWhile ListId.nocacheBit := by
        refine ⟨_, ⟨id, s.nextAddress, ⟨id, ((T.path p).tail.map lists.id).takeWhile ListId.nocacheBit, none, 0⟩⟩,
          rfl, ?_⟩
        rw [emplace_new hold]
        exact ⟨rfl, rfl, by simp [CheckWithOverrides.find], rfl, rfl, rfl⟩
      rw [← hs₁, hfind]
      refine .keepAlive (x := some s.nextAddress) (h.stored.cons (n := n) ?_ hnext hold) (fun m hm => ?_) fun a ha => ?_
      · rw [hs, ← haddress, ← hkey]
      · rw [hs] at hm
        rcases List.mem_cons.mp hm with rfl | hm
        · refine ⟨p, hp, hkey.trans hid.symm, fun i => ?_⟩
          rw [hnodes, List.takeWhile_map, List.mem_map]
          rfl
        · exact h.tracked m hm
      · rw [haddress]
        exact (Option.some.inj ha).symm

/-- The override of a list is removed, unless the list has got a new ID since it has been put. -/
theorem removeOverride_overrides (h : Stored none s) (hunmoved : ∀ n ∈ s.find id, n.ovr.expiredFn = id) :
    (s.removeOverride id).2.overrides = s.overrides.filter (·.key ≠ id) ∧
      (s.removeOverride id).2.nextAddress = s.nextAddress := by
  unfold CheckWithOverrides.removeOverride
  cases hfind : s.find id with
  | none =>
    refine ⟨?_, rfl⟩
    rw [List.filter_eq_self.mpr fun m hm => by simpa using find_eq_none.mp hfind m hm]
  | some n =>
    obtain ⟨hn, hkey⟩ := mem_of_find hfind
    obtain ⟨hovr, haddr, -⟩ := removeTimeout_overrides (s := s) n.ovr.activeTimerId
    dsimp only
    rw [invalidate, h.active n hn (Option.some_ne_none _).symm, if_neg Bool.false_ne_true, hunmoved n hfind]
    refine ⟨?_, haddr⟩
    rw [CheckWithOverrides.erase, CheckWithOverrides.modify, hovr, List.filter_map]
    -- only the override that is erased has been changed
    refine (List.map_congr_left fun m hm => if_neg fun e => ?_).trans ?_
    · obtain ⟨hm, hne⟩ := List.mem_filter.mp hm
      rw [List.inj_on_of_nodup_map h.addresses hm hn e] at hne
      simp [hkey] at hne
    · rw [List.map_id']
      refine List.filter_congr fun m _ => ?_
      dsimp only [Function.comp]
      split <;> rfl

theorem Follows.removeOverride (h : Follows T lists s) (hunmoved : ∀ n ∈ s.find id, n.ovr.expiredFn = id) :
    Follows T lists (s.removeOverride id).2 := by
  obtain ⟨hs, hnext⟩ := removeOverride_overrides h.stored hunmoved
  exact ⟨h.stored.filter hs hnext, fun n hn => h.tracked n (List.mem_of_mem_filter (hs ▸ hn))⟩

/-- A timer fires for an override. -/
theorem Follows.trampoline (h : Follows T lists s) {address : ℕ} (hs' : s.trampoline now address = .ok s') :
    Follows T lists s' := by
  unfold CheckWithOverrides.trampoline at hs'
  split at hs'
  · cases hs'
  · split at hs'
    · obtain rfl := Except.ok.inj hs'
      exact ⟨h.stored.filter rfl rfl, fun m hm => h.tracked m (List.mem_of_mem_filter hm)⟩
    · obtain rfl := Except.ok.inj hs'
      exact h

/-- The overrides after a list has got a new ID. -/
theorem mem_listInvalidate_overrides (h : Stored none s) (hid : id.isValid = true) (hvalid : new.isValid = true)
    (hne : new ≠ id) (hfree : s.find new = none) :
    m ∈ (s.listInvalidate id new).overrides ↔ ∃ n ∈ s.overrides, renamed id new s.nextAddress n = m := by
  have hpatched : ∀ n : Node, n.key ≠ id →
      renamed id new s.nextAddress n = { n with ovr := n.ovr.listInvalidate id new } :=
    fun n hn => by rw [renamed, if_neg hn, if_neg hn]
  rw [listInvalidate, if_pos hid, if_pos hvalid, patchPathsToRoot, List.mem_map, moveOverride]
  cases hfind : s.find id with
  | none => exact exists_congr fun n => and_congr_right fun hn => by rw [hpatched n (find_eq_none.mp hfind n hn)]
  | some n =>
    obtain ⟨hn, hkey⟩ := mem_of_find hfind
    dsimp only
    rw [if_pos hne.symm, emplace_new hfree]
    constructor
    · rintro ⟨k, hk, rfl⟩
      obtain ⟨hk, hkeep⟩ := List.mem_filter.mp hk
      rcases List.mem_cons.mp hk with rfl | hk
      · exact ⟨n, hn, by rw [renamed, if_pos hkey, if_pos hkey]⟩
      · exact ⟨k, hk, hpatched k (by simpa using hkeep)⟩
    · rintro ⟨k, hk, rfl⟩
      by_cases e : k.key = id
      · obtain rfl := List.inj_on_of_nodup_map h.keys hk hn (e.trans hkey.symm)
        exact ⟨⟨new, s.nextAddress, k.ovr⟩, List.mem_filter.mpr ⟨List.mem_cons_self, by simpa using hne⟩, by
          rw [renamed, if_pos e, if_pos e]⟩
      · exact ⟨k, List.mem_filter.mpr ⟨List.mem_cons_of_mem _ hk, by simpa using e⟩, (hpatched k e).symm⟩

theorem Stored.listInvalidate (h : Stored none s) (hid : id.isValid = true) (hvalid : new.isValid = true)
    (hne : new ≠ id) (hfree : s.find new = none) : Stored none (s.listInvalidate id new) := by
  have hmoved : Stored none (s.moveOverride id new) := by
    unfold moveOverride
    cases hfind : s.find id with
    | none => exact h
    | some n =>
      dsimp only
      rw [if_pos hne.symm, emplace_new hfree]
      have h₁ : Stored (some s.nextAddress) { s with
          overrides := ⟨new, s.nextAddress, n.ovr⟩ :: s.overrides, nextAddress := s.nextAddress + 1 } :=
        .cons (n := n) h rfl rfl hfree
      have h₂ : Stored none { s with
          overrides := ⟨new, s.nextAddress, n.ovr⟩ :: s.overrides, nextAddress := s.nextAddress + 1 } :=
        { h₁ with
          active := fun m hm _ => by
            rcases List.mem_cons.mp hm with rfl | hm
            · exact h.active n (mem_of_find hfind).1 nofun
            · exact h.active m hm nofun }
      exact h₂.filter (f := fun m => decide (m.key ≠ id)) rfl rfl
  have hactive : ∀ ovr : Override, (ovr.listInvalidate id new).isInvalidated = ovr.isInvalidated := fun ovr => by
    unfold Override.listInvalidate
    split <;> rfl
  rw [CheckWithOverrides.listInvalidate, if_pos hid, if_pos hvalid]
  exact hmoved.map rfl rfl (fun _ => rfl) (fun _ => rfl) fun n hn => (hactive n.ovr).trans (hn nofun)

theorem Follows.insertAgain [DecidableEq P] (h : Follows T lists s) (ht : ListTree T lists) (hp : p ∈ lists.cached)
    (hvalid : new.isValid = true) (hne : new ≠ lists.id p) (hfree : s.find new = none)
    (hbit : new.nocacheBit = (lists.id p).nocacheBit) :
    Follows T (lists.insertAgain p new) (s.listInvalidate (lists.id p) new) := by
  refine ⟨h.stored.listInvalidate (ht.valid p hp) hvalid hne hfree, fun m hm => ?_⟩
  obtain ⟨n, hn, rfl⟩ := (mem_listInvalidate_overrides h.stored (ht.valid p hp) hvalid hne hfree).mp hm
  exact (h.tracked n hn).insertAgain ht hp hbit _

/-- The overrides are stored for the same lists as before. -/
theorem overridden_insertAgain [DecidableEq P] (h : Follows T lists s) (ht : ListTree T lists) (hp : p ∈ lists.cached)
    (hvalid : new.isValid = true) (hne : new ≠ lists.id p) (hfree : s.find new = none)
    (hfreeList : ∀ q ∈ lists.cached, lists.id q ≠ new) (hbit : new.nocacheBit = (lists.id p).nocacheBit) :
    Overridden T (lists.insertAgain p new) (s.listInvalidate (lists.id p) new) q ↔ Overridden T lists s q := by
  have hnocache : ∀ r, nocache (lists.insertAgain p new) r = nocache lists r := fun r => by
    change (Function.update lists.id p new r).nocacheBit = _
    by_cases e : r = p
    · rw [e, Function.update_self, hbit, nocache]
    · rw [Function.update_of_ne e, nocache]
  have hover : ∀ d ∈ lists.cached, (HasOverride (lists.insertAgain p new) (s.listInvalidate (lists.id p) new) d ↔
      HasOverride lists s d) := fun d hd => by
    have hstored := h.insertAgain ht hp hvalid hne hfree hbit
    have hmem := fun m => mem_listInvalidate_overrides (m := m) h.stored (ht.valid p hp) hvalid hne hfree
    have hkey : ∀ n ∈ s.overrides, ((renamed (lists.id p) new s.nextAddress n).key = (lists.insertAgain p new).id d ↔
        n.key = lists.id d) := fun n hn => by
      change (if n.key = lists.id p then new else n.key) = Function.update lists.id p new d ↔ _
      by_cases e : d = p
      · rw [e, Function.update_self]
        split
        · next he => simp [he]
        · next he => exact iff_of_false (find_eq_none.mp hfree n hn) he
      · rw [Function.update_of_ne e]
        split
        · next he =>
          refine iff_of_false (hfreeList d hd).symm fun hids => e (ht.ids d hd p hp (hids.symm.trans he))
        · rfl
    constructor
    · rintro ⟨m, hm, e, -⟩
      obtain ⟨n, hn, rfl⟩ := (hmem m).mp hm
      exact ⟨n, hn, (hkey n hn).mp e, h.stored.active n hn nofun⟩
    · rintro ⟨n, hn, e, -⟩
      have hm := (hmem _).mpr ⟨n, hn, rfl⟩
      exact ⟨_, hm, (hkey n hn).mpr e, hstored.stored.active _ hm nofun⟩
  unfold Overridden
  simp only [hnocache]
  refine exists_congr fun d => ?_
  rw [ht.mem_insertAgain hp]
  exact and_congr_right fun hd => and_congr_left fun _ => hover d hd

/-! ## Runs -/

/-- No lists and no overrides. -/
def Checked.start (t : ℕ) : Checked P := ⟨⟨[], fun _ => .invalid⟩, t, .init⟩

/-- The state after an event that does no harm. -/
def Checked.after [DecidableEq P] (T : Forest P) (c : Checked P) (e : ℕ × TreeEvent P) : Option (Checked P) :=
  (c.next T e).bind Except.toOption

def TreeStep [DecidableEq P] (T : Forest P) (c : Checked P) (e : ℕ × TreeEvent P) (c' : Checked P) : Prop :=
  c.next T e = some (.ok c')

/-- The override that is stored under the ID has been put under this ID. -/
def Unmoved (s : CheckWithOverrides) (id : ListId) : Prop := ∀ n ∈ s.find id, n.ovr.expiredFn = id

instance (s : CheckWithOverrides) (id : ListId) : Decidable (Unmoved s id) := inferInstanceAs (Decidable (∀ _ ∈ _, _))

/-- The override of the timer is where it was when the timer was created. -/
def HasOrigin (s : CheckWithOverrides) (timer : ℕ) : Prop :=
  ∀ t ∈ s.timers, t.id = timer → ∃ n ∈ s.overrides, n.address = t.origin

instance (s : CheckWithOverrides) (timer : ℕ) : Decidable (HasOrigin s timer) :=
  inferInstanceAs (Decidable (∀ _ ∈ _, _))

/-- An override is removed, or its list is discarded, only if the list has got no new ID since the override has been
put; and no timer fires for an override that has been moved since. -/
def RemovesUnmoved (c : Checked P) (e : ℕ × TreeEvent P) : Prop :=
  match e.2 with
  | .discard p => Unmoved c.checks.2 (c.lists.id p)
  | .removeOverride id => Unmoved c.checks.2 id
  | .fire timer => HasOrigin c.checks.2 timer
  | _ => True

instance (c : Checked P) (e : ℕ × TreeEvent P) : Decidable (RemovesUnmoved c e) :=
  match e with
  | (_, .discard p) => inferInstanceAs (Decidable (Unmoved c.checks.2 (c.lists.id p)))
  | (_, .removeOverride id) => inferInstanceAs (Decidable (Unmoved c.checks.2 id))
  | (_, .fire timer) => inferInstanceAs (Decidable (HasOrigin c.checks.2 timer))
  | (_, .insert ..) | (_, .insertAgain ..) | (_, .putOverride _) => inferInstanceAs (Decidable True)

/-- The answer for a list under its current ID. -/
def Checked.isCacheable [DecidableEq P] (T : Forest P) (c : Checked P) (p : P) : Bool :=
  c.checks.2.isCacheable T c.lists (c.lists.id p)

/-- The lists form a tree, and the overrides follow them. -/
structure Kept (T : Forest P) (c : Checked P) : Prop where
  tree : ListTree T c.lists
  follows : Follows T c.lists c.checks.2

theorem Kept.start (T : Forest P) (t : ℕ) : Kept T (.start t) :=
  ⟨⟨nofun, nofun, nofun⟩, ⟨.nil, .nil, nofun, nofun⟩, nofun⟩

theorem TreeStep.cases [DecidableEq P] {c c' : Checked P} {t : ℕ} {e : TreeEvent P} (h : TreeStep T c (t, e) c') :
    e.Allowed T c.lists ∧ c'.lists = e.lists c.lists ∧
      CheckWithOverrides.After t c.checks.2 c'.checks.2 (e.event T c.lists) := by
  unfold TreeStep Checked.next at h
  split at h
  · next hallowed =>
    obtain ⟨r, hnext, hr⟩ := Option.map_eq_some_iff.mp h
    obtain ⟨checks, rfl, rfl⟩ := map_eq_ok.mp hr
    exact ⟨hallowed, rfl, after_of_step hnext⟩
  · cases h

/-- No timer that may fire refers to memory that has been freed. -/
theorem RemovesUnmoved.no_fault [DecidableEq P] {c : Checked P} {e : ℕ × TreeEvent P} (hok : RemovesUnmoved c e)
    (f : Fault) : c.next T e ≠ some (.error f) := fun hfault => by
  obtain ⟨t, e⟩ := e
  unfold Checked.next at hfault
  split at hfault
  · obtain ⟨r, hnext, hr⟩ := Option.map_eq_some_iff.mp hfault
    obtain ⟨tm, htm, he, hno⟩ := origin_of_fault (map_eq_error.mp hr ▸ hnext)
    cases e with
    | fire timer =>
      obtain rfl : timer = tm.id := Event.fire.inj he
      obtain ⟨n, hn, horigin⟩ := hok tm htm rfl
      exact hno n hn horigin
    | _ => cases he
  · cases hfault

/-- A list gets a new ID: the overrides follow, and the lists that are overridden are the same. -/
theorem Kept.insertAgain [DecidableEq P] {c c' : Checked P} (h : Kept T c) {t : ℕ}
    (hstep : TreeStep T c (t, .insertAgain p new) c') :
    Kept T c' ∧ (∀ q, q ∈ c'.lists.cached ↔ q ∈ c.lists.cached) ∧ (∀ q, nocache c'.lists q = nocache c.lists q) ∧
      ∀ q, Overridden T c'.lists c'.checks.2 q ↔ Overridden T c.lists c.checks.2 q := by
  obtain ⟨⟨hp, hvalid, hfree, hbit⟩, hlists, hnew, hchecks⟩ := hstep.cases
  obtain ⟨hne, hfind⟩ := hnew hvalid
  change c'.lists = c.lists.insertAgain p new at hlists
  rw [hlists, hchecks]
  refine ⟨⟨hlists ▸ h.tree.insertAgain hp hvalid hfree, ?_⟩, fun q => h.tree.mem_insertAgain hp, fun q => ?_, fun q =>
    overridden_insertAgain h.follows h.tree hp hvalid hne hfind hfree hbit⟩
  · rw [hlists, hchecks]
    exact h.follows.insertAgain h.tree hp hvalid hne hfind hbit
  · change (Function.update c.lists.id p new q).nocacheBit = _
    by_cases e : q = p
    · rw [e, Function.update_self, hbit, nocache]
    · rw [Function.update_of_ne e, nocache]

theorem Kept.step [DecidableEq P] {c c' : Checked P} {e : ℕ × TreeEvent P} (h : Kept T c) (hok : RemovesUnmoved c e)
    (hstep : TreeStep T c e c') : Kept T c' := by
  obtain ⟨t, e⟩ := e
  obtain ⟨hallowed, hlists, hafter⟩ := hstep.cases
  cases e with
  | insertAgain p id => exact (h.insertAgain hstep).1
  | insert p id =>
    obtain ⟨hp, hparent, hvalid, hfree⟩ := hallowed
    obtain ⟨-, hchecks⟩ := hafter
    refine ⟨hlists ▸ h.tree.insert hvalid hfree hparent, ?_⟩
    rw [hlists, hchecks]
    exact ⟨h.follows.stored, fun n hn => (h.follows.tracked n hn).insert h.tree hp⟩
  | discard p =>
    obtain ⟨hp, hleaf⟩ := hallowed
    obtain ⟨-, hchecks⟩ := hafter
    refine ⟨hlists ▸ h.tree.remove hp hleaf, ?_⟩
    have hremoved : c'.checks.2 = (c.checks.2.removeOverride (c.lists.id p)).2 := by
      rw [hchecks, listInvalidate, if_pos (h.tree.valid p hp), if_neg (by decide)]
    obtain ⟨hs, hnext⟩ := removeOverride_overrides h.follows.stored hok
    rw [hlists, hremoved]
    refine ⟨h.follows.stored.filter hs hnext, fun n hn => ?_⟩
    rw [hs] at hn
    obtain ⟨hn, hne⟩ := List.mem_filter.mp hn
    exact (h.follows.tracked n hn).remove h.tree hp (by simpa using hne)
  | putOverride id =>
    refine ⟨hlists ▸ h.tree, ?_⟩
    rw [hlists, show c'.checks.2 = _ from hafter]
    exact h.follows.putOverride
  | removeOverride id =>
    refine ⟨hlists ▸ h.tree, ?_⟩
    rw [hlists, show c'.checks.2 = _ from hafter]
    exact h.follows.removeOverride hok
  | fire timer =>
    obtain ⟨tm, -, rfl, hfire⟩ := hafter
    refine ⟨hlists ▸ h.tree, ?_⟩
    have hstored := h.follows.stored
    have hfollows : Follows T c.lists { c.checks.2 with timers := c.checks.2.timers.filter (·.id ≠ tm.id) } :=
      ⟨⟨hstored.keys, hstored.addresses, hstored.address_lt, hstored.active⟩, h.follows.tracked⟩
    rw [hlists]
    exact hfollows.trampoline hfire

/-- Lists that can be cached need no override. -/
theorem isCacheable_of_cacheable [DecidableEq P] (ht : ListTree T lists) (hp : p ∈ lists.cached)
    (hno : nocache lists p = false) : s.isCacheable T lists (lists.id p) = true := by
  unfold CheckWithOverrides.isCacheable
  rw [if_neg (by simp [ht.valid p hp]), ht.find_id hp]
  exact if_pos hno

/-- New IDs change no answer. -/
theorem Kept.answers [DecidableEq P] {c c' : Checked P} {events : List (ℕ × TreeEvent P)} (h : Kept T c)
    (hrun : Run (TreeStep T) c events c') (hevents : ∀ e ∈ events, ∃ p id, e.2 = .insertAgain p id)
    (hp : p ∈ c.lists.cached) : p ∈ c'.lists.cached ∧ c'.isCacheable T p = c.isCacheable T p := by
  induction hrun with
  | nil => exact ⟨hp, rfl⟩
  | @cons c₁ c₂ c₃ e events hstep hrun ih =>
    obtain ⟨t, e⟩ := e
    obtain ⟨q, id, rfl⟩ := hevents (t, e) List.mem_cons_self
    obtain ⟨hkept, hcached, hbits, hover⟩ := h.insertAgain hstep
    have hp₂ := (hcached p).mpr hp
    obtain ⟨hp₃, hanswer⟩ := ih hkept (fun e he => hevents e (List.mem_cons_of_mem _ he)) hp₂
    refine ⟨hp₃, hanswer.trans ?_⟩
    cases hno : nocache c₁.lists p with
    | false =>
      exact (isCacheable_of_cacheable hkept.tree hp₂ ((hbits p).trans hno)).trans
        (isCacheable_of_cacheable h.tree hp hno).symm
    | true =>
      refine Bool.eq_iff_iff.mpr ?_
      exact ((hkept.follows.isCacheable_iff hkept.tree hp₂ ((hbits p).trans hno)).trans (hover p)).trans
        (h.follows.isCacheable_iff h.tree hp hno).symm

/-- Lists below each other: the root can be cached, the others cannot. -/
def exampleTree : Forest ℕ where
  parent p := if p = 0 then none else some (p - 1)
  rank p := p
  rank_lt {p q} h := by
    split at h
    · cases h
    · cases h
      omega

/-- An override is put for a list, which gets a new ID, and is removed. -/
def removedEvents : List (ℕ × TreeEvent ℕ) :=
  [(0, .insert 0 ⟨2 ^ 27 + 1⟩), (1, .putOverride ⟨2 ^ 27 + 1⟩), (2, .insertAgain 0 ⟨2 ^ 27 + 2⟩),
    (3, .removeOverride ⟨2 ^ 27 + 2⟩)]

/-- The list is cacheable still, without any active override. -/
theorem cacheable_without_override : ∃ c, Run (TreeStep exampleTree) (.start 0) removedEvents c ∧
    0 ∈ c.lists.cached ∧ nocache c.lists 0 = true ∧ c.isCacheable exampleTree 0 = true ∧
    ¬ Overridden exampleTree c.lists c.checks.2 0 := by
  obtain ⟨c, hrun, hc⟩ := Run.of_exec_any
    (fun _ _ _ => some_ok_of_toOption : ∀ c e c', c.after exampleTree e = some c' → TreeStep exampleTree c e c')
    (show (exec (Checked.after exampleTree) (fun _ _ => True) removedEvents (.start 0)).any (fun c =>
      0 ∈ c.lists.cached ∧ nocache c.lists 0 = true ∧ c.isCacheable exampleTree 0 = true ∧
        ∀ n ∈ c.checks.2.overrides, n.ovr.isInvalidated = true) = true by decide +kernel)
  obtain ⟨hcached, hno, hanswer, hinvalidated⟩ := of_decide_eq_true hc
  refine ⟨c, hrun.of_when, hcached, hno, hanswer, ?_⟩
  rintro ⟨d, -, ⟨n, hn, -, hactive⟩, -⟩
  rw [hinvalidated n hn] at hactive
  cases hactive

/-- As long as no override is removed after its list has got a new ID, and no timer fires for an override that has been
moved, the answers follow the tree. New IDs change no answer. And no timer refers to memory that has been freed. -/
theorem answers_follow_tree [DecidableEq P] {t : ℕ} {c : Checked P} {events : List (ℕ × TreeEvent P)}
    (h : Run (When (TreeStep T) RemovesUnmoved) (.start t) events c) :
    (∀ p ∈ c.lists.cached, nocache c.lists p = true →
      (c.isCacheable T p = true ↔ Overridden T c.lists c.checks.2 p)) ∧
    (∀ events' c', Run (TreeStep T) c events' c' → (∀ e ∈ events', ∃ p id, e.2 = .insertAgain p id) →
      ∀ p ∈ c.lists.cached, p ∈ c'.lists.cached ∧ c'.isCacheable T p = c.isCacheable T p) ∧
    ∀ e f, RemovesUnmoved c e → c.next T e ≠ some (.error f) := by
  have hkept : Kept T c :=
    h.invariant (P := Kept T) (fun _ _ _ hc hstep => hc.step hstep.1 hstep.2) (.start T t)
  exact ⟨fun p hp hno => hkept.follows.isCacheable_iff hkept.tree hp hno,
    fun events' c' hrun hevents p hp => hkept.answers hrun hevents hp, fun _ f hok => hok.no_fault f⟩

/-- An override of list 1 expires; one is put for list 2, and lists 1 and 2 get new IDs. -/
def renamedEvents : List (ℕ × TreeEvent ℕ) :=
  [(0, .insert 0 ⟨1⟩), (1, .insert 1 ⟨2 ^ 27 + 1⟩), (2, .putOverride ⟨2 ^ 27 + 1⟩), (180 * 10 ^ 6 + 2, .fire 1),
    (190 * 10 ^ 6, .insert 2 ⟨2 ^ 27 + 2⟩), (190 * 10 ^ 6, .putOverride ⟨2 ^ 27 + 2⟩),
    (191 * 10 ^ 6, .insertAgain 1 ⟨2 ^ 27 + 3⟩), (192 * 10 ^ 6, .insertAgain 2 ⟨2 ^ 27 + 1⟩)]

/-- List 1, above the list with the override, is overridden, and stays so under another ID. -/
theorem answers_follow_tree_renamed : ∃ c c' : Checked ℕ, Overridden exampleTree c.lists c.checks.2 1 ∧
    c'.lists.id 1 = ⟨2 ^ 27 + 2⟩ ∧ c'.isCacheable exampleTree 1 = true := by
  obtain ⟨c, hrun, hc⟩ := Run.of_exec_any
    (fun _ _ _ => some_ok_of_toOption : ∀ c e c', c.after exampleTree e = some c' → TreeStep exampleTree c e c')
    (show (exec (Checked.after exampleTree) RemovesUnmoved renamedEvents (.start 0)).any (fun c =>
      1 ∈ c.lists.cached ∧ nocache c.lists 1 = true ∧ c.isCacheable exampleTree 1 = true ∧
        (c.after exampleTree (200 * 10 ^ 6, .insertAgain 1 ⟨2 ^ 27 + 2⟩)).any fun c' => c'.lists.id 1 =
          ⟨2 ^ 27 + 2⟩) = true by
      decide +kernel)
  obtain ⟨hcached, hno, hanswer, hnext⟩ := of_decide_eq_true hc
  obtain ⟨c', hstep, hid⟩ := (Option.any_eq_true _ _).mp hnext
  obtain ⟨htree, hrenamed, -⟩ := answers_follow_tree hrun
  have hlast := hrenamed [(200 * 10 ^ 6, .insertAgain 1 ⟨2 ^ 27 + 2⟩)] c' (.single (some_ok_of_toOption hstep))
    (fun e he => ⟨1, ⟨2 ^ 27 + 2⟩, by rw [List.mem_singleton.mp he]⟩) 1 hcached
  exact ⟨c, c', (htree 1 hcached hno).mp hanswer, of_decide_eq_true hid, hlast.2.trans hanswer⟩

end Listbrokers.Cacheable
