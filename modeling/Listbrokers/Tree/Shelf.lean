import Listbrokers.Framework.Forest
import Listbrokers.Tiles.Tile

/-!
# The cached lists of a list tree

What a list tree sees of `LRU::Cache`: which list objects are cached, and under
which IDs. A list object may be discarded at any time when the garbage collector
runs. IDs are unique, and a new ID is one that is free.
-/

namespace Listbrokers

/-- `ID::List::get_nocache_bit`. -/
def ListId.nocacheBit (id : ListId) : Bool := id.raw.testBit 27

namespace Tree

open Framework

variable {P : Type} [DecidableEq P]

/-- The cached list objects, and the ID that each list object has got last. -/
structure Shelf (P : Type) where
  cached : List P
  id : P → ListId

namespace Shelf

variable (s : Shelf P)

/-- `LRU::Cache::lookup`. -/
def find (id : ListId) : Option P := s.cached.find? (s.id · = id)

/-- No list has the ID. -/
def Free (id : ListId) : Prop := id.isValid = true ∧ id.nocacheBit = false ∧ ∀ p ∈ s.cached, s.id p ≠ id

instance (id : ListId) : Decidable (s.Free id) := inferInstanceAs (Decidable (_ ∧ _ ∧ _))

/-- The object does not exist: neither is it cached, nor is it above a cached object. -/
def Unused (T : Forest P) (p : P) : Prop := ∀ q ∈ s.cached, p ∉ T.path q

instance (T : Forest P) (p : P) : Decidable (s.Unused T p) := inferInstanceAs (Decidable (∀ q ∈ s.cached, p ∉ T.path q))

def remove (p : P) : Shelf P := { s with cached := s.cached.filter (s.id · ≠ s.id p) }

def insert (p : P) (id : ListId) : Shelf P := ⟨p :: s.cached, Function.update s.id p id⟩

/-- `LRU::Cache::insert_again`. -/
def insertAgain (p : P) (id : ListId) : Shelf P := (s.remove p).insert p id

/-- The cached objects have different, valid IDs. -/
structure Labelled : Prop where
  ids : ∀ p ∈ s.cached, ∀ q ∈ s.cached, s.id p = s.id q → p = q
  valid : ∀ p ∈ s.cached, (s.id p).isValid = true
  cacheable : ∀ p ∈ s.cached, (s.id p).nocacheBit = false

variable {s} {p q : P} {id : ListId}

section

omit [DecidableEq P]

theorem mem_of_find (h : s.find id = some p) : p ∈ s.cached ∧ s.id p = id :=
  ⟨List.mem_of_find?_eq_some h, by simpa using List.find?_some h⟩

theorem find_eq_none : s.find id = none ↔ ∀ p ∈ s.cached, s.id p ≠ id := by simp [find]

end

/-- Whatever holds of the IDs of the cached lists, and of the new ID, holds of the IDs after an insertion. -/
theorem forall_insert {C : ListId → Prop} (hC : ∀ q ∈ s.cached, C (s.id q)) (hid : C id) :
    ∀ q ∈ (s.insert p id).cached, C ((s.insert p id).id q) := fun q hq => by
  change C (Function.update s.id p id q)
  by_cases e : q = p
  · rw [e, Function.update_self]
    exact hid
  · rw [Function.update_of_ne e]
    exact hC q (List.mem_of_ne_of_mem e hq)

namespace Labelled

variable (h : s.Labelled)

include h

section

omit [DecidableEq P]

theorem mem_remove (hp : p ∈ s.cached) : q ∈ (s.remove p).cached ↔ q ∈ s.cached ∧ q ≠ p := by
  simp only [Shelf.remove, List.mem_filter, decide_not, Bool.not_eq_true', decide_eq_false_iff_not]
  refine and_congr_right fun hq => not_congr ⟨h.ids q hq p hp, fun e => by rw [e]⟩

theorem remove (p : P) : (s.remove p).Labelled where
  ids q hq r hr := h.ids q (List.mem_of_mem_filter hq) r (List.mem_of_mem_filter hr)
  valid q hq := h.valid q (List.mem_of_mem_filter hq)
  cacheable q hq := h.cacheable q (List.mem_of_mem_filter hq)

end

theorem insert (hid : s.Free id) : (s.insert p id).Labelled where
  ids q hq r hr e := by
    change Function.update s.id p id q = Function.update s.id p id r at e
    by_cases hqp : q = p <;> by_cases hrp : r = p
    · rw [hqp, hrp]
    · rw [hqp, Function.update_self, Function.update_of_ne hrp] at e
      exact absurd e.symm (hid.2.2 r (List.mem_of_ne_of_mem hrp hr))
    · rw [hrp, Function.update_self, Function.update_of_ne hqp] at e
      exact absurd e (hid.2.2 q (List.mem_of_ne_of_mem hqp hq))
    · rw [Function.update_of_ne hqp, Function.update_of_ne hrp] at e
      exact h.ids q (List.mem_of_ne_of_mem hqp hq) r (List.mem_of_ne_of_mem hrp hr) e
  valid := forall_insert (C := fun i => i.isValid = true) h.valid hid.1
  cacheable := forall_insert (C := fun i => i.nocacheBit = false) h.cacheable hid.2.1

theorem insertAgain (hid : (s.remove p).Free id) : (s.insertAgain p id).Labelled :=
  (h.remove p).insert hid

theorem mem_insertAgain (hp : p ∈ s.cached) : q ∈ (s.insertAgain p id).cached ↔ q ∈ s.cached := by
  change q ∈ p :: (s.remove p).cached ↔ _
  rw [List.mem_cons, h.mem_remove hp]
  by_cases e : q = p
  · simp [e, hp]
  · simp [e]

section

omit [DecidableEq P]

theorem find_id (hp : p ∈ s.cached) : s.find (s.id p) = some p := by
  cases hfind : s.find (s.id p) with
  | none => exact absurd rfl (find_eq_none.mp hfind p hp)
  | some q =>
    obtain ⟨hq, hid⟩ := mem_of_find hfind
    rw [h.ids q hq p hp hid]

end

end Labelled

theorem insert_id_of_ne (hq : q ≠ p) : (s.insert p id).id q = s.id q := Function.update_of_ne hq ..

@[simp] theorem insert_id_self : (s.insert p id).id p = id := Function.update_self ..

end Shelf

end Tree

end Listbrokers
