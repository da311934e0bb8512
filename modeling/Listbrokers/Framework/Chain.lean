import Mathlib.Data.List.Basic
import Mathlib.Data.List.Nodup
import Mathlib.Data.Nat.Notation
import Mathlib.Logic.Function.Basic
import Mathlib.Tactic.Common

/-!
# Doubly linked lists

Links of objects to a next and a previous object, as they are kept in the
objects themselves. `Links.Chain L` says that the objects of `L`, in this order
and none twice, are linked in both directions and to nothing else. The
operations on links are described by what they make of such chains:
`Chain.unlink`, `Chain.append` and `Chain.insertBefore`. A chain that they do
not touch stays a chain. Links that are not those of chains are described by the
objects that they mention (`Mentions`).
-/

namespace Listbrokers.Framework

/-- For each object, the next and the previous one. -/
structure Links (P : Type) where
  next : P → Option P
  prev : P → Option P

namespace Links

variable {P : Type}

/-- The objects of the list are linked in both directions, with `before` in front of them and `after` behind them. -/
def Segment (l : Links P) : Option P → List P → Option P → Prop
  | _, [], _ => True
  | before, p :: L, after => l.prev p = before ∧ l.next p = L.head?.or after ∧ l.Segment (some p) L after

/-- The objects of the list are linked in both directions, and to nothing else. -/
structure Chain (l : Links P) (L : List P) : Prop where
  segment : l.Segment none L none
  nodup : L.Nodup

/-- The object is linked to nothing. -/
def Isolated (l : Links P) (p : P) : Prop := l.next p = none ∧ l.prev p = none

/-- The list is what is visited by following `f` to its end. -/
def Follows (f : P → Option P) : Option P → List P → Prop
  | o, [] => o = none
  | o, p :: L => o = some p ∧ Follows f (f p) L

/-- What is visited by following `f` for at most `n` objects. -/
def follow (f : P → Option P) : ℕ → Option P → List P
  | 0, _ => []
  | _, none => []
  | n + 1, some p => p :: follow f n (f p)

/-- The same links in the other direction. -/
def swap (l : Links P) : Links P := ⟨l.prev, l.next⟩

/-! ## Segments -/

variable {l l' : Links P} {K L A B : List P} {p q t h : P} {before after : Option P}

theorem segment_append : l.Segment before (K ++ L) after ↔
    l.Segment before K (L.head?.or after) ∧ l.Segment (K.getLast?.or before) L after := by
  induction K generalizing before with
  | nil => simp [Segment]
  | cons p K ih =>
    have hhead : (K ++ L).head?.or after = K.head?.or (L.head?.or after) := by cases K <;> simp
    have hlast : (p :: K).getLast?.or before = K.getLast?.or (some p) := by
      rw [List.getLast?_cons]
      cases K.getLast? <;> rfl
    simp only [List.cons_append, Segment, hhead, hlast, ih, and_assoc]

/-- A segment only depends on the links of its objects. -/
theorem Segment.congr (hl : l.Segment before L after)
    (heq : ∀ p ∈ L, l'.next p = l.next p ∧ l'.prev p = l.prev p) : l'.Segment before L after := by
  induction L generalizing before with
  | nil => trivial
  | cons p L ih =>
    obtain ⟨hprev, hnext, hseg⟩ := hl
    obtain ⟨hn, hp⟩ := heq p List.mem_cons_self
    exact ⟨hp.trans hprev, hn.trans hnext, ih hseg fun q hq => heq q (List.mem_cons_of_mem _ hq)⟩

theorem segment_reverse : l.Segment before L after → l.swap.Segment after L.reverse before := by
  induction L generalizing before with
  | nil => intro _; trivial
  | cons p L ih =>
    rintro ⟨hprev, hnext, hseg⟩
    rw [List.reverse_cons, segment_append]
    refine ⟨ih hseg, ?_, ?_, trivial⟩
    · rw [List.getLast?_reverse]
      exact hnext
    · exact hprev

theorem Segment.follows (hl : l.Segment before L none) : Follows l.next L.head? L := by
  induction L generalizing before with
  | nil => rfl
  | cons p L ih =>
    obtain ⟨-, hnext, hseg⟩ := hl
    refine ⟨rfl, ?_⟩
    rw [hnext, Option.or_none]
    exact ih hseg

theorem follow_eq {f : P → Option P} {n : ℕ} {o : Option P} (hf : Follows f o L) (hn : L.length ≤ n) :
    follow f n o = L := by
  induction L generalizing n o with
  | nil =>
    rw [show o = none from hf]
    cases n <;> rfl
  | cons p L ih =>
    obtain ⟨rfl, hf⟩ := hf
    obtain ⟨m, rfl⟩ : ∃ m, n = m + 1 := ⟨n - 1, by simp at hn; omega⟩
    rw [follow, ih hf (by simpa using hn)]

/-- Following `f` gives one list at most. -/
theorem Follows.unique {f : P → Option P} {o : Option P} (hK : Follows f o K) (hL : Follows f o L) : K = L :=
  (follow_eq hK (Nat.le_max_left K.length L.length)).symm.trans (follow_eq hL (Nat.le_max_right _ _))

/-- Linking the end of a segment to something else. -/
theorem Segment.change_after {after' : Option P} (hA : l.Segment before A after) (hnodup : A.Nodup)
    (hprev : ∀ q ∈ A, l'.prev q = l.prev q) (hnext : ∀ q ∈ A, A.getLast? ≠ some q → l'.next q = l.next q)
    (hlast : ∀ q, A.getLast? = some q → l'.next q = after') : l'.Segment before A after' := by
  induction A generalizing before with
  | nil => trivial
  | cons p A ih =>
    obtain ⟨hp, hn, hA⟩ := hA
    obtain ⟨hpA, hnodup⟩ := List.nodup_cons.mp hnodup
    have hgetLast : ∀ q ∈ A, A.getLast? = (p :: A).getLast? := fun q hq => by
      rw [List.getLast?_cons]
      cases h : A.getLast? with
      | none => rw [List.getLast?_eq_none_iff.mp h] at hq; cases hq
      | some r => rfl
    refine ⟨(hprev p List.mem_cons_self).trans hp, ?_, ?_⟩
    · cases A with
      | nil => exact hlast p rfl
      | cons q A =>
        rw [hnext p List.mem_cons_self, hn]
        · rfl
        · rw [← hgetLast q List.mem_cons_self]
          exact fun h => hpA (List.mem_of_getLast? h)
    · refine ih hA hnodup (fun q hq => hprev q (List.mem_cons_of_mem p hq)) (fun q hq h => ?_) fun q hq => ?_
      · exact hnext q (List.mem_cons_of_mem p hq) (hgetLast q hq ▸ h)
      · exact hlast q (hgetLast q (List.mem_of_getLast? hq) ▸ hq)

/-- Linking the front of a segment to something else. -/
theorem Segment.change_before {before' : Option P} (hB : l.Segment before B after)
    (hnodup : B.Nodup) (hnext : ∀ q ∈ B, l'.next q = l.next q)
    (hprev : ∀ q ∈ B, B.head? ≠ some q → l'.prev q = l.prev q)
    (hhead : ∀ q, B.head? = some q → l'.prev q = before') : l'.Segment before' B after := by
  cases B with
  | nil => trivial
  | cons p B =>
    obtain ⟨hp, hn, hB⟩ := hB
    obtain ⟨hpB, -⟩ := List.nodup_cons.mp hnodup
    refine ⟨hhead p rfl, (hnext p List.mem_cons_self).trans hn, hB.congr fun q hq => ?_⟩
    have hq' := List.mem_cons_of_mem p hq
    refine ⟨hnext q hq', hprev q hq' fun h => hpB ?_⟩
    cases h
    exact hq

/-! ## Chains -/

namespace Chain

theorem nil : l.Chain [] := ⟨trivial, .nil⟩

theorem singleton (h : l.Isolated p) : l.Chain [p] := ⟨⟨h.2, h.1, trivial⟩, List.nodup_singleton p⟩

theorem isolated (h : l.Chain [p]) : l.Isolated p := ⟨h.segment.2.1, h.segment.1⟩

theorem congr (hL : l.Chain L) (heq : ∀ p ∈ L, l'.next p = l.next p ∧ l'.prev p = l.prev p) : l'.Chain L :=
  ⟨hL.segment.congr heq, hL.nodup⟩

theorem swap (hL : l.Chain L) : l.swap.Chain L.reverse := ⟨segment_reverse hL.segment, List.nodup_reverse.mpr hL.nodup⟩

theorem follows (hL : l.Chain L) : Follows l.next L.head? L := hL.segment.follows

theorem follows_prev (hL : l.Chain L) : Follows l.prev L.getLast? L.reverse := by
  have h := hL.swap.follows
  rwa [List.head?_reverse] at h

/-- What the links of an object in the middle are. -/
theorem links_at (hL : l.Chain (A ++ p :: B)) : l.prev p = A.getLast? ∧ l.next p = B.head? := by
  obtain ⟨-, hprev, hnext, -⟩ := segment_append.mp hL.segment
  simpa using And.intro hprev hnext

theorem not_mem_split (hL : l.Chain (A ++ p :: B)) : p ∉ A ∧ p ∉ B ∧ ∀ q ∈ A, q ∉ B := by
  obtain ⟨-, hpB, hAB⟩ := List.nodup_append.mp hL.nodup
  rw [List.nodup_cons] at hpB
  exact ⟨fun hp => hAB p hp p List.mem_cons_self rfl, hpB.1,
    fun q hA hB => hAB q hA q (List.mem_cons_of_mem _ hB) rfl⟩

/-- Chains that share an object are the same. -/
theorem eq_of_mem (hK : l.Chain K) (hL : l.Chain L) (hpK : p ∈ K) (hpL : p ∈ L) : K = L := by
  have after : ∀ {l : Links P} {A B A' B' : List P}, l.Chain (A ++ p :: B) → l.Chain (A' ++ p :: B') → B = B' := by
    intro l A B A' B' h h'
    obtain ⟨-, -, hnext, hB⟩ := segment_append.mp h.segment
    obtain ⟨-, -, hnext', hB'⟩ := segment_append.mp h'.segment
    have hBB' : B.head? = B'.head? := by simpa [hnext] using hnext'
    exact hB.follows.unique (hBB' ▸ hB'.follows)
  obtain ⟨A, B, rfl⟩ := List.append_of_mem hpK
  obtain ⟨A', B', rfl⟩ := List.append_of_mem hpL
  have hB := after hK hL
  have hK' := hK.swap
  have hL' := hL.swap
  rw [List.reverse_append, List.reverse_cons, List.append_assoc] at hK' hL'
  have hA := after hK' hL'
  rw [hB, List.reverse_injective hA]

/-- An object outside of a chain is not linked to it. -/
theorem not_linked (hL : l.Chain L) (hp : p ∉ L) (hq : q ∈ L) : l.next q ≠ some p ∧ l.prev q ≠ some p := by
  obtain ⟨A, B, rfl⟩ := List.append_of_mem hq
  obtain ⟨hprev, hnext⟩ := hL.links_at
  rw [hprev, hnext]
  refine ⟨fun h => hp ?_, fun h => hp ?_⟩
  · exact List.mem_append_right A (List.mem_cons_of_mem q (List.mem_of_mem_head? h))
  · exact List.mem_append_left _ (List.mem_of_getLast? h)

end Chain

/-! ## Operations -/

variable [DecidableEq P]

/-- Take an object out of its list. -/
def unlink (l : Links P) (p : P) : Links P where
  next q := if q = p then none else if l.prev p = some q then l.next p else l.next q
  prev q := if q = p then none else if l.next p = some q then l.prev p else l.prev q

/-- Append the list that begins with `h` to the list that ends with `t`. -/
def append (l : Links P) (t h : P) : Links P where
  next q := if q = t then some h else l.next q
  prev q := if q = h then some t else l.prev q

/-- Put an object that is in no list in front of `q`. -/
def insertBefore (l : Links P) (p q : P) : Links P where
  next r := if r = p then some q else if l.prev q = some r then some p else l.next r
  prev r := if r = p then l.prev q else if r = q then some p else l.prev r

@[simp] theorem unlink_isolated (l : Links P) (p : P) : (l.unlink p).Isolated p := by simp [Isolated, unlink]

namespace Chain

/-- Taking an object out of its chain. -/
theorem unlink (hL : l.Chain (A ++ p :: B)) : (l.unlink p).Chain (A ++ B) := by
  obtain ⟨hprev, hnext⟩ := hL.links_at
  obtain ⟨hpA, hpB, hAB⟩ := hL.not_mem_split
  obtain ⟨hA, -, -, hB⟩ := segment_append.mp hL.segment
  obtain ⟨hnodupA, hnodupB, -⟩ := List.nodup_append.mp hL.nodup
  have hneA : ∀ q ∈ A, q ≠ p := fun q hq h => hpA (h ▸ hq)
  have hneB : ∀ q ∈ B, q ≠ p := fun q hq h => hpB (h ▸ hq)
  refine ⟨segment_append.mpr ⟨?_, ?_⟩, ?_⟩
  · refine hA.change_after hnodupA (fun q hq => ?_) (fun q hq h => ?_) fun q hq => ?_
    · have : l.next p ≠ some q := fun h => hAB q hq (List.mem_of_mem_head? (hnext ▸ h))
      simp [Links.unlink, hneA q hq, this]
    · simp [Links.unlink, hneA q hq, hprev, h]
    · simp [Links.unlink, hneA q (List.mem_of_getLast? hq), hprev, hq, hnext]
  · refine hB.change_before (List.nodup_cons.mp hnodupB).2 (fun q hq => ?_) (fun q hq h => ?_) fun q hq => ?_
    · have : l.prev p ≠ some q := fun h => hAB q (List.mem_of_getLast? (hprev ▸ h)) hq
      simp [Links.unlink, hneB q hq, this]
    · simp [Links.unlink, hneB q hq, hnext, h]
    · simp [Links.unlink, hneB q (List.mem_of_mem_head? hq), hnext, hq, hprev]
  · exact hL.nodup.sublist (List.Sublist.append_left (List.sublist_cons_self p B) A)

/-- Joining two chains. -/
theorem append (hK : l.Chain (K ++ [t])) (hL : l.Chain (h :: L)) (hdisj : ∀ q ∈ K ++ [t], q ∉ h :: L) :
    (l.append t h).Chain (K ++ [t] ++ h :: L) := by
  have hnext : ∀ q, q ∉ K ++ [t] → q ≠ t := fun q hq e => hq (e ▸ List.mem_append_right K List.mem_cons_self)
  refine ⟨segment_append.mpr ⟨?_, ?_⟩,
    List.nodup_append.mpr ⟨hK.nodup, hL.nodup, fun q hq r hr e => hdisj q hq (e ▸ hr)⟩⟩
  · refine hK.segment.change_after hK.nodup (fun q hq => ?_) (fun q hq hne => ?_) fun q hq => ?_
    · have : q ≠ h := fun e => hdisj q hq (e ▸ List.mem_cons_self)
      simp [Links.append, this]
    · have : q ≠ t := fun e => hne (by simp [e])
      simp [Links.append, this]
    · have : q = t := by simpa using hq.symm
      simp [Links.append, this]
  · refine hL.segment.change_before hL.nodup (fun q hq => ?_) (fun q hq hne => ?_) fun q hq => ?_
    · have : q ≠ t := hnext q fun hqK => hdisj q hqK hq
      simp [Links.append, this]
    · have : q ≠ h := fun e => hne (by simp [e])
      simp [Links.append, this]
    · have : q = h := by simpa using hq.symm
      simp [Links.append, this]

/-- Putting an object in front of an object of a chain. -/
theorem insertBefore (hL : l.Chain (A ++ q :: B)) (hp : p ∉ A ++ q :: B) :
    (l.insertBefore p q).Chain (A ++ p :: q :: B) := by
  obtain ⟨hprev, hnext⟩ := hL.links_at
  obtain ⟨hqA, hqB, hAB⟩ := hL.not_mem_split
  obtain ⟨hA, hsegB⟩ := segment_append.mp hL.segment
  obtain ⟨hnodupA, hnodupB, -⟩ := List.nodup_append.mp hL.nodup
  have hpq : p ≠ q := fun e => hp (e ▸ List.mem_append_right A List.mem_cons_self)
  have hneA : ∀ r ∈ A, r ≠ p := fun r hr e => hp (e ▸ List.mem_append_left _ hr)
  have hneB : ∀ r ∈ q :: B, r ≠ p := fun r hr e => hp (e ▸ List.mem_append_right A hr)
  refine ⟨segment_append.mpr ⟨?_, ?_, ?_, ?_⟩, ?_⟩
  · refine hA.change_after hnodupA (fun r hr => ?_) (fun r hr h => ?_) fun r hr => ?_
    · have : r ≠ q := fun e => hqA (e ▸ hr)
      simp [Links.insertBefore, hneA r hr, this]
    · simp [Links.insertBefore, hneA r hr, hprev, h]
    · simp [Links.insertBefore, hneA r (List.mem_of_getLast? hr), hprev, hr]
  · simp [Links.insertBefore, hprev]
  · simp [Links.insertBefore]
  · refine hsegB.change_before hnodupB (fun r hr => ?_) (fun r hr h => ?_) fun r hr => ?_
    · have : A.getLast? ≠ some r := fun h => by
        have hrA := List.mem_of_getLast? h
        rcases List.mem_cons.mp hr with rfl | hr
        · exact hqA hrA
        · exact hAB r hrA hr
      simp [Links.insertBefore, hneB r hr, hprev, this]
    · have : r ≠ q := fun e => h (by simp [e])
      simp [Links.insertBefore, hneB r hr, this]
    · have : r = q := by simpa using hr.symm
      simp [Links.insertBefore, this, hpq.symm]
  · obtain ⟨hA, hB, hdisj⟩ := List.nodup_append.mp hL.nodup
    refine List.nodup_append.mpr ⟨hA, List.nodup_cons.mpr ⟨fun h => hneB p h rfl, hB⟩, fun r hr r' hr' => ?_⟩
    rcases List.mem_cons.mp hr' with rfl | hr'
    · exact hneA r hr
    · exact hdisj r hr r' hr'

end Chain

/-! ## The objects that are linked -/

/-- The object is linked to another one, or the other one to it, whether or not both agree. -/
def Mentions (l : Links P) (p : P) : Prop :=
  ∃ q, l.next p = some q ∨ l.prev p = some q ∨ l.next q = some p ∨ l.prev q = some p

omit [DecidableEq P] in
theorem mentions_next (h : l.next p = some q) : l.Mentions p ∧ l.Mentions q :=
  ⟨⟨q, .inl h⟩, ⟨p, .inr (.inr (.inl h))⟩⟩

omit [DecidableEq P] in
theorem mentions_prev (h : l.prev p = some q) : l.Mentions p ∧ l.Mentions q :=
  ⟨⟨q, .inr (.inl h)⟩, ⟨p, .inr (.inr (.inr h))⟩⟩

omit [DecidableEq P] in
/-- The objects that are linked have a property if the ends of all links have it. -/
theorem forall_mentions {K : P → Prop} (hnext : ∀ p q, l.next p = some q → K p ∧ K q)
    (hprev : ∀ p q, l.prev p = some q → K p ∧ K q) (hp : l.Mentions p) : K p := by
  obtain ⟨q, h | h | h | h⟩ := hp
  · exact (hnext p q h).1
  · exact (hprev p q h).1
  · exact (hnext q p h).2
  · exact (hprev q p h).2

/-- No object gets linked by taking one out. -/
theorem mentions_unlink (h : (l.unlink p).Mentions q) : l.Mentions q := by
  refine forall_mentions (fun r t hr => ?_) (fun r t hr => ?_) h
  · simp only [unlink] at hr
    split at hr
    · cases hr
    · split at hr
      · next hprev => exact ⟨(mentions_prev hprev).2, (mentions_next hr).2⟩
      · exact mentions_next hr
  · simp only [unlink] at hr
    split at hr
    · cases hr
    · split at hr
      · next hnext => exact ⟨(mentions_next hnext).2, (mentions_prev hr).2⟩
      · exact mentions_prev hr

theorem mentions_append {t u : P} (h : (l.append t u).Mentions q) : l.Mentions q ∨ q = t ∨ q = u := by
  refine forall_mentions (K := fun q => l.Mentions q ∨ q = t ∨ q = u) (fun r v hr => ?_) (fun r v hr => ?_) h
  · simp only [append] at hr
    split at hr
    · next he => exact ⟨.inr (.inl he), .inr (.inr (Option.some.inj hr).symm)⟩
    · exact ⟨.inl (mentions_next hr).1, .inl (mentions_next hr).2⟩
  · simp only [append] at hr
    split at hr
    · next he => exact ⟨.inr (.inr he), .inr (.inl (Option.some.inj hr).symm)⟩
    · exact ⟨.inl (mentions_prev hr).1, .inl (mentions_prev hr).2⟩

theorem mentions_insertBefore {t u : P} (h : (l.insertBefore t u).Mentions q) :
    l.Mentions q ∨ q = t ∨ q = u := by
  refine forall_mentions (K := fun q => l.Mentions q ∨ q = t ∨ q = u) (fun r v hr => ?_) (fun r v hr => ?_) h
  · simp only [insertBefore] at hr
    split at hr
    · next he => exact ⟨.inr (.inl he), .inr (.inr (Option.some.inj hr).symm)⟩
    · split at hr
      · next hprev => exact ⟨.inl (mentions_prev hprev).2, .inr (.inl (Option.some.inj hr).symm)⟩
      · exact ⟨.inl (mentions_next hr).1, .inl (mentions_next hr).2⟩
  · simp only [insertBefore] at hr
    split at hr
    · next he => exact ⟨.inr (.inl he), .inl (mentions_prev hr).2⟩
    · split at hr
      · next he => exact ⟨.inr (.inr he), .inr (.inl (Option.some.inj hr).symm)⟩
      · exact ⟨.inl (mentions_prev hr).1, .inl (mentions_prev hr).2⟩

end Links

end Listbrokers.Framework
