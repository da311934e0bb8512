import Listbrokers.Tiles.Reading
import Listbrokers.Tree.Usb
import Mathlib.Data.Int.Notation

/-!
# Ranges of flat lists

`for_each_item` of `lists.hh` on a flat list, and the D-Bus requests that are
about a range: `CheckRange`, which clips a range in signed and unsigned numbers,
and `GetRange`, which iterates over it. `size_t` has `sizeBits` bits, and the
numbers of D-Bus have 32.

Where `size_t` has 32 bits, the end of the range that `for_each_item` computes
may wrap around. Then nothing is delivered, but `CheckRange` has promised items.
-/

namespace Listbrokers.Tree

open Tiles

variable {α β : Type}

/-- The loop of `for_each_item` over `left` items from `i` on, with `operator[]` of a `FlatList`. -/
def forEachAccessed (items : List α) (apply : β → ℕ → α → Bool × β) : ℕ → ℕ → β → β
  | 0, _, b => b
  | left + 1, i, b =>
    -- item IDs have 32 bits
    match items[i % 2 ^ 32]? with
    | none => b
    | some item =>
      let r := apply b (i % 2 ^ 32) item
      if r.1 then forEachAccessed items apply left (i + 1) r.2 else r.2

/-- `for_each_item` on a flat list. The function applied to the items works on a state `b`. -/
def forEachItem (sizeBits : ℕ) (items : List α) (first count : ℕ) (apply : β → ℕ → α → Bool × β) (b : β) : β :=
  let last := endOfRange sizeBits first count items.length
  if last ≤ first then b else forEachAccessed items apply (last - first) first b

/-- The items that `GetRange::do_run` returns. -/
def getRange (sizeBits : ℕ) (items : List α) (first count : ℕ) : List α :=
  forEachItem sizeBits items first count (fun builder _ item => (true, builder ++ [item])) []

/-! ## `CheckRange` -/

/-- Conversion to `size_t`. -/
def toSizeT (sizeBits : ℕ) (x : ℤ) : ℕ := (x % 2 ^ sizeBits).toNat

/-- Conversion to `ssize_t`. -/
def toSSizeT (sizeBits : ℕ) (x : ℤ) : ℤ := x.bmod (2 ^ sizeBits)

/-- Conversion to `guint`. -/
def toGuint (x : ℤ) : ℕ := (x % 2 ^ 32).toNat

/-- `ListTreeIface::size`, for the items of a list, if there is the list. -/
def listSize (sizeBits : ℕ) : Option (List α) → ℤ
  | none => -1
  | some items => toSSizeT sizeBits items.length

/-- `DBusNavlists::check_range`: the error code, the first item and the number of items of the answer. -/
def checkRange (sizeBits : ℕ) (listId : ListId) (list : Option (List α)) (first count : ℕ) : EnterError × ℕ × ℕ :=
  let numberOfItems := listSize sizeBits list
  if listId.isValid = true ∧ 0 ≤ numberOfItems then
    let numberOfItems := if first ≤ toSizeT sizeBits numberOfItems then toSSizeT sizeBits (numberOfItems - first) else 0
    let numberOfItems :=
      if 0 < count ∧ count < toSizeT sizeBits numberOfItems then toSSizeT sizeBits count else numberOfItems
    (.ok, first, toGuint numberOfItems)
  else (.invalidId, 0, 0)

/-! ## The number of items -/

/-- The number of items of a range, clipped without wrap-around. -/
def clippedCount (size first count : ℕ) : ℕ := if count = 0 then size - first else min size (first + count) - first

variable {sizeBits first count : ℕ} {items : List α}

theorem forEachAccessed_all (hsize : items.length ≤ 2 ^ 32) {n i : ℕ} (h : i + n ≤ items.length) (acc : List α) :
    forEachAccessed items (fun builder _ item => (true, builder ++ [item])) n i acc = acc ++ (items.drop i).take n := by
  induction n generalizing i acc with
  | zero => simp [forEachAccessed]
  | succ n ih =>
    have hi : i < items.length := by omega
    rw [forEachAccessed, Nat.mod_eq_of_lt (by omega), List.getElem?_eq_getElem hi]
    dsimp only
    rw [if_pos rfl, ih (by omega), List.drop_eq_getElem_cons hi, List.take_succ_cons, List.append_assoc,
      List.singleton_append]

theorem endOfRange_le (sizeBits first count size : ℕ) : endOfRange sizeBits first count size ≤ size := by
  unfold endOfRange
  split <;> omega

/-- `GetRange` returns the items between the first one and the end. -/
theorem length_getRange (sizeBits first count : ℕ) (hsize : items.length ≤ 2 ^ 32) :
    (getRange sizeBits items first count).length = endOfRange sizeBits first count items.length - first := by
  have hend := endOfRange_le sizeBits first count items.length
  unfold getRange forEachItem
  dsimp only
  split
  · next h => rw [Nat.sub_eq_zero_of_le h, List.length_nil]
  · rw [forEachAccessed_all hsize (by omega), List.nil_append, List.length_take, List.length_drop]
    omega

theorem toSizeT_natCast {n : ℕ} (h : n < 2 ^ sizeBits) : toSizeT sizeBits n = n := by
  rw [toSizeT, Int.emod_eq_of_lt (Int.natCast_nonneg n) (by exact_mod_cast h), Int.toNat_natCast]

theorem toSSizeT_natCast {n : ℕ} (h : 2 * n < 2 ^ sizeBits) : toSSizeT sizeBits n = n := by
  rw [toSSizeT, Int.bmod_eq_of_le] <;> omega

/-- `CheckRange` clips the range without wrap-around, as the sizes of lists have fewer than 32 bits. -/
theorem checkRange_clips (first count : ℕ) (hbits : 32 ≤ sizeBits) {listId : ListId} (hid : listId.isValid = true)
    (hsize : items.length < 2 ^ 31) :
    checkRange sizeBits listId (some items) first count = (.ok, first, clippedCount items.length first count) := by
  have hpow : 2 ^ 32 ≤ 2 ^ sizeBits := Nat.pow_le_pow_right (by decide) hbits
  have hsigned {n : ℕ} (hn : n < 2 ^ 31) : toSSizeT sizeBits n = n := toSSizeT_natCast (by omega)
  have hunsigned {n : ℕ} (hn : n < 2 ^ 31) : toSizeT sizeBits n = n := toSizeT_natCast (by omega)
  have hguint {n : ℕ} (hn : n < 2 ^ 31) : toGuint n = n := @toSizeT_natCast 32 n (by omega)
  unfold checkRange listSize
  dsimp only
  rw [hsigned hsize, if_pos ⟨hid, Int.natCast_nonneg _⟩, hunsigned hsize]
  -- what is left of the list behind the first item
  have hleft : (if first ≤ items.length then toSSizeT sizeBits (items.length - first) else 0) =
      ((items.length - first : ℕ) : ℤ) := by
    split
    · next h => rw [← Int.ofNat_sub h, hsigned (by omega)]
    · next h => rw [Nat.sub_eq_zero_of_le (Nat.le_of_not_le h), Int.natCast_zero]
  rw [hleft, hunsigned (by omega)]
  refine congrArg (fun n => (EnterError.ok, first, n)) ?_
  unfold clippedCount
  split
  · next h =>
    rw [hsigned (by omega), hguint (by omega), if_neg (by omega)]
    omega
  · next h =>
    rw [hguint (by omega)]
    split <;> omega

/-- `CheckRange` and `GetRange` agree on the number of items, which is that of the clipped range. -/
def RangesAgree (sizeBits : ℕ) (listId : ListId) (items : List α) (first count : ℕ) : Prop :=
  checkRange sizeBits listId (some items) first count = (.ok, first, (getRange sizeBits items first count).length) ∧
    (getRange sizeBits items first count).length = clippedCount items.length first count

/-- All items but the first one, with the largest number for the count, where `size_t` has 32 bits: one item is
promised, but none is delivered. -/
theorem range_wraps_around : checkRange 32 ⟨1⟩ (some ["a", "b"]) 1 (2 ^ 32 - 1) = (.ok, 1, 1) ∧
    getRange 32 ["a", "b"] 1 (2 ^ 32 - 1) = [] ∧ ¬ RangesAgree 32 ⟨1⟩ ["a", "b"] 1 (2 ^ 32 - 1) := by
  have hcheck : checkRange 32 ⟨1⟩ (some ["a", "b"]) 1 (2 ^ 32 - 1) = (.ok, 1, 1) := by decide +kernel
  have hget : getRange 32 ["a", "b"] 1 (2 ^ 32 - 1) = [] := by decide +kernel
  refine ⟨hcheck, hget, fun h => ?_⟩
  have hagree := h.1
  rw [hcheck, hget] at hagree
  cases hagree

/-- On both word sizes, for every list and every range that a client may ask for, `CheckRange` and `GetRange` agree
unless the end of the range wraps around. -/
theorem ranges_agree_iff (hbits : sizeBits = 32 ∨ sizeBits = 64) {listId : ListId} (hid : listId.isValid = true)
    (hsize : items.length < 2 ^ 31) (hfirst : first < 2 ^ 32) (hcount : count < 2 ^ 32) :
    RangesAgree sizeBits listId items first count ↔
      sizeBits = 64 ∨ first + count < 2 ^ 32 ∨ items.length ≤ first := by
  have hbits' : 32 ≤ sizeBits := by omega
  have hlength := length_getRange sizeBits first count (Nat.le_trans (Nat.le_of_lt hsize) (by decide))
  have hclips := checkRange_clips first count hbits' hid hsize
  have hiff : RangesAgree sizeBits listId items first count ↔
      endOfRange sizeBits first count items.length - first = clippedCount items.length first count := by
    rw [RangesAgree, hclips, hlength]
    refine ⟨And.right, fun h => ⟨by rw [h], h⟩⟩
  rw [hiff]
  unfold endOfRange clippedCount
  by_cases hzero : count = 0
  · subst hzero
    simp only [Nat.lt_irrefl, if_false, if_true, Nat.add_zero, true_iff]
    exact .inr (.inl hfirst)
  rw [if_pos (Nat.pos_of_ne_zero hzero), if_neg hzero]
  rcases hbits with rfl | rfl
  · by_cases hwrap : first + count < 2 ^ 32
    · rw [Nat.mod_eq_of_lt hwrap, Nat.min_comm]
      exact iff_of_true rfl (.inr (.inl hwrap))
    · -- the sum wraps around once, and is in front of the range then
      rw [Nat.mod_eq_sub_mod (by omega), Nat.mod_eq_of_lt (by omega)]
      omega
  · rw [Nat.mod_eq_of_lt (by omega), Nat.min_comm]
    exact iff_of_true rfl (.inl rfl)

/-- The second of three items, on a machine with 32 bits. -/
theorem ranges_agree_second : RangesAgree 32 ⟨1⟩ ["a", "b", "c"] 1 1 ↔
    32 = 64 ∨ 1 + 1 < 2 ^ 32 ∨ ["a", "b", "c"].length ≤ 1 :=
  ranges_agree_iff (.inl rfl) (by decide) (by decide) (by decide) (by decide)

end Listbrokers.Tree
