import Mathlib.Data.List.Range

/-!
# Counters that wrap around

A counter runs from `lo` to `hi` and then starts again at `lo`. `Wrapping.nth` is its
value after some steps from `start`. One round visits every number between the
bounds (`mem_round`), and the counter is back at `start` at the end of the round
and not before (`start_eq_nth_iff`).
-/

namespace Listbrokers.Framework.Wrapping

variable {lo hi start k x : ℕ}

/-- The number after `x`. -/
def next (lo hi x : ℕ) : ℕ := if x < hi then x + 1 else lo

/-- The number of different values. -/
def size (lo hi : ℕ) : ℕ := hi - lo + 1

/-- The value after `k` steps from `start`. -/
def nth (lo hi start k : ℕ) : ℕ := (start - lo + k) % size lo hi + lo

/-- The values of one round, in their order. -/
def round (lo hi start : ℕ) : List ℕ := (List.range (size lo hi)).map (nth lo hi start)

theorem size_pos (lo hi : ℕ) : 0 < size lo hi := Nat.succ_pos _

theorem next_mem (h : lo ≤ hi) (hx : lo ≤ x ∧ x ≤ hi) : lo ≤ next lo hi x ∧ next lo hi x ≤ hi := by
  unfold next
  split <;> omega

theorem nth_zero (hstart : lo ≤ start ∧ start ≤ hi) : nth lo hi start 0 = start := by
  rw [nth, Nat.mod_eq_of_lt (by unfold size; omega)]
  omega

theorem nth_mem (h : lo ≤ hi) (start k : ℕ) : lo ≤ nth lo hi start k ∧ nth lo hi start k ≤ hi := by
  have hlt : (start - lo + k) % size lo hi < size lo hi := Nat.mod_lt _ (size_pos lo hi)
  unfold nth
  unfold size at hlt ⊢
  omega

theorem next_nth (h : lo ≤ hi) (start k : ℕ) : next lo hi (nth lo hi start k) = nth lo hi start (k + 1) := by
  have hlt : (start - lo + k) % size lo hi < size lo hi := Nat.mod_lt _ (size_pos lo hi)
  have hsucc : nth lo hi start (k + 1) = ((start - lo + k) % size lo hi + 1) % size lo hi + lo := by
    rw [nth, ← Nat.add_assoc, Nat.mod_add_mod]
  rw [hsucc, next, nth]
  unfold size at hlt ⊢
  generalize (start - lo + k) % (hi - lo + 1) = r at hlt ⊢
  split
  · next hr =>
    rw [Nat.mod_eq_of_lt (by omega)]
    omega
  · next hr => rw [show r + 1 = hi - lo + 1 by omega, Nat.mod_self, Nat.zero_add]

/-- The counter is where it has started after one round, and not before. -/
theorem start_eq_nth_iff (hstart : lo ≤ start ∧ start ≤ hi) (hk : 0 < k ∧ k ≤ size lo hi) :
    start = nth lo hi start k ↔ k = size lo hi := by
  unfold nth
  unfold size at hk ⊢
  rcases Nat.lt_or_ge (start - lo + k) (hi - lo + 1) with hlt | hge
  · rw [Nat.mod_eq_of_lt hlt]
    omega
  · rw [Nat.mod_eq_sub_mod hge, Nat.mod_eq_of_lt (by omega)]
    omega

theorem exists_nth (hstart : lo ≤ start ∧ start ≤ hi) (hx : lo ≤ x ∧ x ≤ hi) :
    ∃ k < size lo hi, nth lo hi start k = x := by
  rcases Nat.le_total start x with hle | hle
  · refine ⟨x - start, by unfold size; omega, ?_⟩
    unfold nth size
    rw [Nat.mod_eq_of_lt (by omega)]
    omega
  · by_cases he : start = x
    · exact ⟨0, size_pos lo hi, he ▸ nth_zero hstart⟩
    · refine ⟨size lo hi - (start - x), by unfold size; omega, ?_⟩
      unfold nth size
      rw [Nat.mod_eq_sub_mod (by omega), Nat.mod_eq_of_lt (by omega)]
      omega

/-- One round visits every number. -/
theorem mem_round (hstart : lo ≤ start ∧ start ≤ hi) : x ∈ round lo hi start ↔ lo ≤ x ∧ x ≤ hi := by
  rw [round, List.mem_map]
  constructor
  · rintro ⟨k, -, rfl⟩
    exact nth_mem (hstart.1.trans hstart.2) start k
  · intro hx
    obtain ⟨k, hk, rfl⟩ := exists_nth hstart hx
    exact ⟨k, List.mem_range.mpr hk, rfl⟩

end Listbrokers.Framework.Wrapping
