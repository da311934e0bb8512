import Listbrokers.Lru.Operations

/-!
# The aging list

`Aged T s L` says that `L` is the aging list of the cache: its objects are
linked in this order, no object comes before one of its children, and the
pointers of the cache point to where they should. Taking out an object without
children (`Aged.without`), moving a path to the end (`Aged.use`) and putting an
object in front of its parent (`Aged.link`) lead to such lists again.
-/

namespace Listbrokers.Lru

open Framework

variable {P σ : Type} {S : Setup P σ} {T : Forest P} {s s' : Cache P σ} {L A B : List P} {c p q : P}

/-- The aging list of the cache. -/
structure Aged (T : Forest P) (s : Cache P σ) (L : List P) : Prop where
  chain : s.links.Chain L
  isolated : ∀ p, p ∉ L → s.links.Isolated p
  children_first : L.Pairwise fun p q => T.parent q ≠ some p
  closed : ∀ p ∈ L, ∀ q, T.parent p = some q → q ∈ L
  rooted : ∀ p ∈ L, T.parent p = none → L.getLast? = some p
  root : s.rootObject = L.getLast?
  oldest : s.oldestObject = L.head?
  deepest : s.deepestYoungestObject = none ∧ L = [] ∨ ∃ d, s.deepestYoungestObject = some d ∧ T.path d <:+ L

/-- No object of the list has the parent `p`. -/
def Childless (T : Forest P) (L : List P) (p : P) : Prop := ∀ q ∈ L, T.parent q ≠ some p

theorem Childless.subset {K : List P} (h : Childless T L p) (hK : K ⊆ L) : Childless T K p := fun q hq => h q (hK hq)

/-- A childless object on the path of an object of the list is that object. -/
theorem Childless.eq_of_mem_path (h : Childless T L p) {d : P} (hsub : ∀ q ∈ T.path d, q ∈ L) (hp : p ∈ T.path d) :
    p = d := by
  induction d using T.induction_from_root with
  | root d hd => simpa [Forest.path_of_root hd] using hp
  | child d d' hd ih =>
    rw [Forest.path_of_parent hd, List.mem_cons] at hp
    rcases hp with rfl | hp
    · rfl
    · have := ih (fun q hq => hsub q (by rw [Forest.path_of_parent hd]; exact List.mem_cons_of_mem _ hq)) hp
      exact absurd (this ▸ hd) (h d (hsub d Forest.mem_path_self))

namespace Aged

theorem path_subset (h : Aged T s L) (hp : p ∈ L) : ∀ q ∈ T.path p, q ∈ L :=
  Forest.path_subset (fun p q hp hq => h.closed p hp q hq) hp

/-- The parent of an object comes after it. -/
theorem parent_after (h : Aged T s (A ++ p :: B)) (hq : T.parent p = some q) : q ∈ B := by
  have hmem := h.closed p (by simp) q hq
  obtain ⟨-, hpair, hA⟩ := List.pairwise_append.mp h.children_first
  rcases List.mem_append.mp hmem with hq' | hq'
  · exact absurd hq (hA q hq' p List.mem_cons_self)
  · rcases List.mem_cons.mp hq' with rfl | hq'
    · exact absurd (T.rank_lt hq) (Nat.lt_irrefl _)
    · exact hq'

/-- Of an object, only the children come before it that are in the list at all. -/
theorem child_before (h : Aged T s (A ++ p :: B)) (hq : q ∈ A ++ p :: B) (hpar : T.parent q = some p) : q ∈ A := by
  obtain ⟨-, hpair, -⟩ := List.pairwise_append.mp h.children_first
  rcases List.mem_append.mp hq with hq | hq
  · exact hq
  · rcases List.mem_cons.mp hq with rfl | hq
    · exact absurd (T.rank_lt hpar) (Nat.lt_irrefl _)
    · exact absurd hpar ((List.pairwise_cons.mp hpair).1 q hq)

/-- The root is on the path of every object of the list. -/
theorem root_mem_path (h : Aged T s L) (hp : p ∈ L) {r : P} (hr : L.getLast? = some r) : r ∈ T.path p := by
  obtain ⟨r', hr', hroot⟩ := T.exists_getLast?_path p
  have hmem := List.mem_of_getLast? hr'
  have := h.rooted r' (h.path_subset hp r' hmem) hroot
  rw [hr] at this
  cases this
  exact hmem

theorem root_parent (h : Aged T s L) {r : P} (hr : L.getLast? = some r) : T.parent r = none := by
  obtain ⟨r', hr', hroot⟩ := T.exists_getLast?_path r
  have := h.rooted r' (h.path_subset (List.mem_of_getLast? hr) r' (List.mem_of_getLast? hr')) hroot
  rw [hr] at this
  cases this
  exact hroot

theorem childless_head (h : Aged T s (p :: L)) : Childless T (p :: L) p := fun q hq hpar => by
  have := h.child_before (A := []) hq hpar
  cases this

theorem nodup (h : Aged T s L) : L.Nodup := h.chain.nodup

/-- The iterator of the cache visits the aging list. -/
theorem agingList_eq (h : Aged T s L) (hlen : L.length ≤ s.count) : s.agingList = L := by
  rw [Cache.agingList, h.oldest]
  exact Links.follow_eq h.chain.follows hlen

/-- The links of the list, for the same pointers. -/
theorem congr (h : Aged T s L) (hlinks : s'.links = s.links) (hroot : s'.rootObject = s.rootObject)
    (holdest : s'.oldestObject = s.oldestObject) (hdeepest : s'.deepestYoungestObject = s.deepestYoungestObject) :
    Aged T s' L where
  chain := hlinks ▸ h.chain
  isolated := hlinks ▸ h.isolated
  children_first := h.children_first
  closed := h.closed
  rooted := h.rooted
  root := hroot.trans h.root
  oldest := holdest.trans h.oldest
  deepest := hdeepest ▸ h.deepest

/-! ## Discarding an object -/

/-- Taking an object without children out of the aging list. -/
theorem without [DecidableEq P] (h : Aged S.forest s (A ++ c :: B)) (hc : Childless S.forest (A ++ c :: B) c)
    (notify : Bool) : Aged S.forest (s.without S notify c) (A ++ B) := by
  obtain ⟨hprev, hnext⟩ := h.chain.links_at
  obtain ⟨hcA, hcB, -⟩ := h.chain.not_mem_split
  have hsub : (A ++ B).Sublist (A ++ c :: B) := List.Sublist.append_left (List.sublist_cons_self c B) A
  have holdest : (s.without S notify c).oldestObject = (A ++ B).head? := by
    simp only [Cache.without, h.oldest, hnext]
    cases A with
    | nil => simp
    | cons a A =>
      have : a ≠ c := fun e => hcA (e ▸ List.mem_cons_self)
      simp [this]
  -- the root of the tree has no children only if it is alone
  have hlast : B = [] → A = [] := by
    rintro rfl
    by_contra hA
    obtain ⟨a, ha⟩ := List.exists_mem_of_ne_nil A hA
    have hmem : a ∈ A ++ [c] := List.mem_append_left _ ha
    have := h.root_mem_path hmem (by simp : (A ++ [c]).getLast? = some c)
    exact hcA (hc.eq_of_mem_path (h.path_subset hmem) this ▸ ha)
  have hgetLast : B ≠ [] → (A ++ B).getLast? = (A ++ c :: B).getLast? := by
    intro hB
    obtain ⟨b, B, rfl⟩ := List.exists_cons_of_ne_nil hB
    simp [List.getLast?_append, List.getLast?_cons]
  refine ⟨h.chain.unlink, fun p hp => ?_, h.children_first.sublist hsub, fun p hp q hq => ?_, fun p hp hroot => ?_,
    ?_, holdest, ?_⟩
  · by_cases hpc : p = c
    · rw [hpc]
      exact Links.unlink_isolated _ _
    · have hpL : p ∉ A ++ c :: B := by
        simp only [List.mem_append, List.mem_cons, not_or] at hp ⊢
        exact ⟨hp.1, hpc, hp.2⟩
      obtain ⟨hn, hpr⟩ := h.chain.not_linked hpL (List.mem_append_right A List.mem_cons_self)
      obtain ⟨hn', hpr'⟩ := h.isolated p hpL
      exact ⟨by simp [Cache.without, Links.unlink, hpc, hpr, hn'], by simp [Cache.without, Links.unlink, hpc, hn, hpr']⟩
  · have hmem := h.closed p (hsub.mem hp) q hq
    have hqc : q ≠ c := fun e => hc p (hsub.mem hp) (e ▸ hq)
    simp only [List.mem_append, List.mem_cons] at hmem ⊢
    tauto
  · have hB : B ≠ [] := fun e => by
      rw [e, hlast e] at hp
      cases hp
    rw [hgetLast hB]
    exact h.rooted p (hsub.mem hp) hroot
  · by_cases hB : B = []
    · have hA := hlast hB
      subst hA hB
      simp [Cache.without, h.oldest, hnext]
    · rw [hgetLast hB, ← h.root]
      have hne : (A ++ B).head? ≠ none := by simp [hB]
      rw [← holdest] at hne
      simp only [Cache.without] at hne ⊢
      rw [if_neg hne]
  · rcases h.deepest with ⟨-, hnil⟩ | ⟨d, hd, hsuffix⟩
    · simp at hnil
    · by_cases hdc : d = c
      · subst hdc
        cases hpar : S.forest.parent d with
        | none =>
          left
          have hB : B = [] := by
            have := h.rooted d (by simp) hpar
            by_contra hB
            rw [← hgetLast hB] at this
            rw [List.getLast?_append_of_ne_nil _ hB] at this
            exact hcB (List.mem_of_getLast? this)
          exact ⟨by simp [Cache.without, hd, hpar], by rw [hlast hB, hB]; rfl⟩
        | some q =>
          right
          rw [Forest.path_of_parent hpar] at hsuffix
          obtain ⟨K, hK⟩ := hsuffix
          have := (List.append_cons_inj_of_notMem hcA hcB).mp hK.symm
          exact ⟨q, by simp [Cache.without, hd, hpar], A, by rw [this.2.2]⟩
      · right
        refine ⟨d, by simp [Cache.without, hd, hdc], ?_⟩
        have hcd : c ∉ S.forest.path d := fun hmem => hdc (hc.eq_of_mem_path (fun q hq => hsuffix.subset hq) hmem).symm
        rcases List.suffix_or_suffix_of_suffix hsuffix (List.suffix_append A (c :: B)) with hs | hs
        · rcases List.suffix_cons_iff.mp hs with hs | hs
          · exact absurd (hs ▸ List.mem_cons_self) hcd
          · exact List.suffix_append_of_suffix hs
        · exact absurd (hs.subset List.mem_cons_self) hcd

end Aged

/-! ## Unlinking a path -/

open Cache Links

theorem unlinkPath_append [DecidableEq P] (e : P) (K M : List P) (c : Cursors P) :
    unlinkPath e (K ++ M) c = unlinkPath e M (unlinkPath e K c) := by
  induction K generalizing c with
  | nil => rfl
  | cons q K ih => exact ih _

/-- The pointer to the tail stays where it is if it is not on the path. -/
theorem unlinkPath_tail_of_not_mem [DecidableEq P] {e t : P} {K : List P} {c : Cursors P}
    (htail : c.reconnectTail = some t) (ht : t ∉ K) : (unlinkPath e K c).reconnectTail = some t := by
  induction K generalizing c with
  | nil => exact htail
  | cons q K ih =>
    simp only [List.mem_cons, not_or] at ht
    refine ih ?_ ht.2
    simp [htail, ht.1]

theorem unlinkPath_tail_none [DecidableEq P] {e : P} {K : List P} {c : Cursors P} (htail : c.reconnectTail = none) :
    (unlinkPath e K c).reconnectTail = none := by
  induction K generalizing c with
  | nil => exact htail
  | cons q K ih => exact ih (by simp [htail])

theorem filter_notMem_cons [DecidableEq P] (A B K : List P) (q : P) (hA : q ∉ A) (hB : q ∉ B) :
    (A ++ q :: B).filter (· ∉ q :: K) = (A ++ B).filter (· ∉ K) := by
  simp only [List.filter_append, List.filter_cons, List.mem_cons, true_or, not_true, decide_false, Bool.false_eq_true,
    if_false]
  congr 1 <;> refine List.filter_congr fun p hp => ?_
  · have : p ≠ q := fun e => hA (e ▸ hp)
    simp [this]
  · have : p ≠ q := fun e => hB (e ▸ hp)
    simp [this]

/-- Unlinking some objects of a chain leaves the chain of the others. -/
theorem unlinkPath_chain [DecidableEq P] {e : P} {K M : List P} {c : Cursors P} (hM : c.links.Chain M) (hK : K.Nodup)
    (hsub : ∀ q ∈ K, q ∈ M) (hisolated : ∀ q, q ∉ M → c.links.Isolated q)
    (holdest : c.oldest = some (M.head?.getD e)) :
    (unlinkPath e K c).links.Chain (M.filter (· ∉ K)) ∧
      (∀ q, q ∉ M.filter (· ∉ K) → (unlinkPath e K c).links.Isolated q) ∧
      (unlinkPath e K c).oldest = some ((M.filter (· ∉ K)).head?.getD e) := by
  induction K generalizing M c with
  | nil => simpa [unlinkPath] using ⟨hM, hisolated, holdest⟩
  | cons q K ih =>
    obtain ⟨hqK, hK⟩ := List.nodup_cons.mp hK
    obtain ⟨A, B, rfl⟩ := List.append_of_mem (hsub q List.mem_cons_self)
    obtain ⟨hprev, hnext⟩ := hM.links_at
    obtain ⟨hqA, hqB, -⟩ := hM.not_mem_split
    rw [filter_notMem_cons A B K q hqA hqB]
    refine ih hM.unlink hK (fun p hp => ?_) (fun p hp => ?_) ?_
    · have hmem := hsub p (List.mem_cons_of_mem q hp)
      have hpq : p ≠ q := fun e => hqK (e ▸ hp)
      simp only [List.mem_append, List.mem_cons] at hmem ⊢
      tauto
    · by_cases hpq : p = q
      · rw [hpq]
        exact unlink_isolated _ _
      · have hpM : p ∉ A ++ q :: B := by
          simp only [List.mem_append, List.mem_cons, not_or] at hp ⊢
          exact ⟨hp.1, hpq, hp.2⟩
        obtain ⟨hn, hpr⟩ := hM.not_linked hpM (List.mem_append_right A List.mem_cons_self)
        obtain ⟨hn', hpr'⟩ := hisolated p hpM
        exact ⟨by simp [Links.unlink, hpq, hpr, hn'], by simp [Links.unlink, hpq, hn, hpr']⟩
    · dsimp only
      rw [holdest, hnext]
      cases A with
      | nil => simp
      | cons a A =>
        have : a ≠ q := fun e => hqA (e ▸ List.mem_cons_self)
        simp [this]

/-- The search for the object to connect to goes up as long as the ancestors are linked, and have been used at the same
time. -/
theorem findReconnectTail_ensures {allowed : Fault → Prop} {lastUsed : P → ℕ} {l : Links P} {A B : List P} (t : P)
    (hal : ¬ (∀ q ∈ A, lastUsed q = lastUsed t) → allowed .agingList) (hA : ∀ q ∈ A, ¬ l.Isolated q)
    (hB : ∀ q, B.head? = some q → l.Isolated q) :
    Ensures allowed (findReconnectTail lastUsed l (A ++ B) t) fun r =>
      r = A.getLast?.getD t ∧ ∀ q ∈ A, lastUsed q = lastUsed t := by
  induction A generalizing t with
  | nil =>
    cases B with
    | nil => exact .pure ⟨rfl, by simp⟩
    | cons q B =>
      obtain ⟨hn, hp⟩ := hB q rfl
      rw [List.nil_append, findReconnectTail, if_neg (by simp [hn, hp])]
      exact .pure ⟨rfl, by simp⟩
  | cons q A ih =>
    have hq : l.next q ≠ none ∨ l.prev q ≠ none := by
      have := hA q List.mem_cons_self
      rw [Isolated] at this
      tauto
    rw [List.cons_append, findReconnectTail, if_pos hq]
    refine .check_bind (fun hne => hal fun h => hne (h q List.mem_cons_self)) fun hage => ?_
    refine (ih q (fun hne => hal fun h => hne fun p hp => ?_) fun p hp => hA p (List.mem_cons_of_mem q hp)).mono
      fun r hr => ?_
    · rw [h p (List.mem_cons_of_mem q hp), hage]
    · refine ⟨?_, fun p hp => ?_⟩
      · rw [hr.1, List.getLast?_cons]
        rfl
      · rcases List.mem_cons.mp hp with rfl | hp
        · exact hage
        · rw [hr.2 p hp, hage]

/-- The objects on the path of the deepest object that `use` of the entry leaves in their places have been used at one
time. -/
def OneAge (T : Forest P) (s : Cache P σ) (e : P) : Prop :=
  ∀ d ∈ s.deepestYoungestObject, ∀ q ∈ T.path d, q ∉ T.path e → s.lastUsed q = s.lastUsed d

theorem oneAge_of_mem {e d : P} (hd : s.deepestYoungestObject = some d) (hde : d ∈ T.path e) : OneAge T s e :=
  fun d' hd' q hq hqe => by
    cases hd.symm.trans hd'
    exact absurd (Forest.mem_path_trans hde hq) hqe

theorem oneAge_iff {e d : P} {A B : List P} (hd : s.deepestYoungestObject = some d) (hpath : T.path d = d :: (A ++ B))
    (hA : ∀ q ∈ A, q ∉ T.path e) (hB : ∀ q ∈ B, q ∈ T.path e) :
    (∀ q ∈ A, s.lastUsed q = s.lastUsed d) ↔ OneAge T s e := by
  constructor
  · intro hage d' hd' q hq hqe
    cases hd.symm.trans hd'
    rw [hpath, List.mem_cons, List.mem_append] at hq
    rcases hq with rfl | hq | hq
    · rfl
    · exact hage q hq
    · exact absurd (hB q hq) hqe
  · intro hage q hq
    exact hage d hd q (by simp [hpath, hq]) (hA q hq)

/-- The last object that is not on the path of the entry: its parent comes after it, hence is on the path. -/
theorem Aged.path_of_last [DecidableEq P] (h : Aged S.forest s L) {e t : P} {M B : List P}
    (hM : L.filter (· ∉ S.forest.path e) = M ++ [t]) (hB : S.forest.path t = t :: B) :
    ∀ q ∈ B, q ∈ S.forest.path e := by
  intro q hq
  cases hpar : S.forest.parent t with
  | none =>
    rw [Forest.path_of_root hpar] at hB
    cases hB
    cases hq
  | some r =>
    rw [Forest.path_of_parent hpar] at hB
    cases hB
    refine Forest.mem_path_trans ?_ hq
    by_contra hr
    have htL : t ∈ L := List.mem_of_mem_filter (hM ▸ List.mem_append_right M (List.mem_singleton_self t))
    have hrR : r ∈ M ++ [t] := hM ▸ (by simpa [hr] using h.closed t htL r hpar)
    have hpair : (M ++ [t]).Pairwise fun p q => S.forest.parent q ≠ some p :=
      hM ▸ h.children_first.sublist List.filter_sublist
    rcases List.mem_append.mp hrR with hrM | hrt
    · exact (List.pairwise_append.mp hpair).2.2 r hrM t (by simp) hpar
    · rw [List.mem_singleton.mp hrt] at hpar
      exact absurd (S.forest.rank_lt hpar) (Nat.lt_irrefl _)

/-- Where the deepest object is unlinked too, what was in front of it becomes the tail. -/
theorem Aged.unlinkPath_tail_of_mem [DecidableEq P] (h : Aged S.forest s L) {e d : P} (he : e ∈ L)
    (hd : s.deepestYoungestObject = some d) (hsuffix : S.forest.path d <:+ L) (hde : d ∈ S.forest.path e) :
    (unlinkPath e (S.forest.path e) ⟨s.links, s.oldestObject, s.deepestYoungestObject⟩).reconnectTail =
      (L.filter (· ∉ S.forest.path e)).getLast? := by
  obtain ⟨K, hK⟩ := hsuffix
  obtain ⟨E, hE⟩ := Forest.path_eq_append hde
  obtain ⟨D, hD⟩ := S.forest.exists_path_eq d
  have hnodupE := S.forest.nodup_path e
  rw [hE] at hnodupE
  have hdisjE : ∀ q ∈ S.forest.path d, q ∉ E := fun q hq hqE => (List.nodup_append.mp hnodupE).2.2 q hqE q hq rfl
  have hdisjK : ∀ q ∈ K, q ∉ S.forest.path d := fun q hqK hq =>
    (List.nodup_append.mp (hK ▸ h.nodup)).2.2 q hqK q hq rfl
  have hfilter : L.filter (· ∉ E) = K.filter (· ∉ E) ++ d :: D := by
    have hself : (S.forest.path d).filter (· ∉ E) = S.forest.path d :=
      List.filter_eq_self.mpr fun q hq => by simpa using hdisjE q hq
    rw [← hK, List.filter_append, hself, hD]
  have hR : L.filter (· ∉ S.forest.path e) = K.filter (· ∉ E) := by
    have hnil : (S.forest.path d).filter (· ∉ S.forest.path e) = [] :=
      List.filter_eq_nil_iff.mpr fun q hq => by simpa using Forest.mem_path_trans hde hq
    simp only [← hK, List.filter_append, hnil, List.append_nil]
    refine List.filter_congr fun q hq => ?_
    simp [hE, hdisjK q hq]
  have hsubE : ∀ q ∈ E, q ∈ L := fun q hq => h.path_subset he q (hE ▸ List.mem_append_left _ hq)
  obtain ⟨hchain, -, -⟩ := unlinkPath_chain (e := e) (c := ⟨s.links, s.oldestObject, s.deepestYoungestObject⟩) h.chain
    (List.nodup_append.mp hnodupE).1 hsubE h.isolated (by
      obtain ⟨a, M, hM⟩ := List.exists_cons_of_ne_nil (List.ne_nil_of_mem he)
      rw [hM]
      exact h.oldest.trans (by rw [hM]; rfl))
  rw [hfilter] at hchain
  have htail : (unlinkPath e E ⟨s.links, s.oldestObject, s.deepestYoungestObject⟩).reconnectTail = some d :=
    unlinkPath_tail_of_not_mem hd (hdisjE d Forest.mem_path_self)
  -- the pointer steps back from the deepest object, and stays there
  rw [hR, hE, hD, unlinkPath_append]
  simp only [unlinkPath, htail, if_true, hchain.links_at.1]
  cases hlast : (K.filter (· ∉ E)).getLast? with
  | none => exact unlinkPath_tail_none rfl
  | some t =>
    have htK : t ∈ K := List.mem_of_mem_filter (List.mem_of_getLast? hlast)
    exact unlinkPath_tail_of_not_mem rfl fun ht => hdisjK t htK (hD ▸ List.mem_cons_of_mem d ht)

/-- Where the first loop of `use` leaves the pointer to the tail: at an object from which on the chain that is left goes
up a path, up to an object of the path of the entry. -/
theorem Aged.unlinkPath_tail [DecidableEq P] (h : Aged S.forest s L) {e d : P} (he : e ∈ L)
    (hd : s.deepestYoungestObject = some d) (hsuffix : S.forest.path d <:+ L) :
    let R := L.filter (· ∉ S.forest.path e)
    let tail := (unlinkPath e (S.forest.path e) ⟨s.links, s.oldestObject, s.deepestYoungestObject⟩).reconnectTail
    (tail = none ∧ R = [] ∧ OneAge S.forest s e) ∨ ∃ t K A B, tail = some t ∧ S.forest.path t = t :: (A ++ B) ∧
      R = K ++ t :: A ∧ (∀ q ∈ B, q ∈ S.forest.path e) ∧
      ((∀ q ∈ A, s.lastUsed q = s.lastUsed t) ↔ OneAge S.forest s e) := by
  intro R tail
  by_cases hde : d ∈ S.forest.path e
  · have htail : tail = R.getLast? := h.unlinkPath_tail_of_mem he hd hsuffix hde
    have hage := oneAge_of_mem hd hde
    cases hlast : R.getLast? with
    | none => exact .inl ⟨htail.trans hlast, List.getLast?_eq_none_iff.mp hlast, hage⟩
    | some t =>
      obtain ⟨M, hM⟩ : ∃ M, R = M ++ [t] := ⟨R.dropLast, (List.dropLast_append_getLast? t hlast).symm⟩
      obtain ⟨B, hB⟩ := S.forest.exists_path_eq t
      exact .inr ⟨t, M, [], B, htail.trans hlast, hB, hM, h.path_of_last hM hB, by simpa using hage⟩
  · -- the deepest object stays linked, and a part of its path with it
    right
    obtain ⟨K, hK⟩ := hsuffix
    obtain ⟨A, B, hAB, hA, hB⟩ := S.forest.path_split d e
    obtain ⟨D, hD⟩ := S.forest.exists_path_eq d
    obtain ⟨A', rfl⟩ : ∃ A', A = d :: A' := by
      cases A with
      | nil =>
        have : d ∈ B := by rw [← show S.forest.path d = B from hAB]; exact Forest.mem_path_self
        exact absurd (hB d this) hde
      | cons a A =>
        rw [hD] at hAB
        cases hAB
        exact ⟨A, rfl⟩
    have hR : R = K.filter (· ∉ S.forest.path e) ++ d :: A' := by
      have hnil : B.filter (· ∉ S.forest.path e) = [] := List.filter_eq_nil_iff.mpr fun q hq => by simpa using hB q hq
      have hself : (d :: A').filter (· ∉ S.forest.path e) = d :: A' :=
        List.filter_eq_self.mpr fun q hq => by simpa using hA q hq
      simp only [R, ← hK, hAB, List.filter_append, hnil, hself, List.append_nil]
    exact ⟨d, _, A', B, unlinkPath_tail_of_not_mem hd hde, hAB, hR, hB,
      oneAge_iff hd hAB (fun q hq => hA q (List.mem_cons_of_mem d hq)) hB⟩

/-- What `use` has unlinked when it relinks the path of the entry. -/
theorem Aged.unlink_ensures [DecidableEq P] {allowed : Fault → Prop} (h : Aged S.forest s L) {e : P} (he : e ∈ L)
    (hal : ¬ OneAge S.forest s e → allowed .agingList) :
    Ensures allowed (unlinkObjectsOnPathToRoot S e s) fun r =>
      let R := L.filter (· ∉ S.forest.path e)
      OneAge S.forest s e ∧ r.1 = ((S.forest.path e).length : ℤ) - 1 ∧ r.2.links.Chain R ∧
        (∀ q, q ∉ R → r.2.links.Isolated q) ∧ r.2.oldest = some (R.head?.getD e) ∧
        r.2.reconnectTail = R.getLast? := by
  have hne : L ≠ [] := List.ne_nil_of_mem he
  obtain ⟨hchain, hisolated, holdest⟩ := unlinkPath_chain (e := e)
    (c := ⟨s.links, s.oldestObject, s.deepestYoungestObject⟩) h.chain (S.forest.nodup_path e) (h.path_subset he)
    h.isolated (by
      obtain ⟨a, M, rfl⟩ := List.exists_cons_of_ne_nil hne
      exact h.oldest)
  obtain ⟨-, hnil⟩ | ⟨d, hd, hsuffix⟩ := h.deepest
  · exact absurd hnil hne
  unfold unlinkObjectsOnPathToRoot moveReconnectTail
  dsimp only
  rcases h.unlinkPath_tail he hd hsuffix with ⟨htail, hR, hage⟩ | ⟨t, K, A, B, htail, hpath, hR, hB, hage⟩
  · rw [htail]
    refine .bind (Q := fun r => r = none) (.pure rfl) fun r hr => ?_
    subst hr
    refine .check_bind (fun hn => absurd (by simp) hn) fun _ => .pure ⟨hage, rfl, hchain, hisolated, holdest, ?_⟩
    rw [hR]
    rfl
  · rw [htail]
    refine .bind (Q := fun r => OneAge S.forest s e ∧ r = (L.filter (· ∉ S.forest.path e)).getLast?) ?_ fun r hr => ?_
    · dsimp only
      rw [hpath, List.tail_cons]
      refine .map (findReconnectTail_ensures t (fun hn => hal fun h => hn (hage.mpr h)) (fun q hq => ?_) fun q hq => ?_)
        fun r hr => ?_
      · -- something comes before an ancestor of the tail that is left in the list
        obtain ⟨A₁, A₂, rfl⟩ := List.append_of_mem hq
        rw [hR] at hchain
        have hprev := (show _ from hchain : Links.Chain _ (K ++ t :: (A₁ ++ q :: A₂)))
        rw [show K ++ t :: (A₁ ++ q :: A₂) = (K ++ t :: A₁) ++ q :: A₂ by simp] at hprev
        intro hq
        have := hprev.links_at.1
        rw [hq.2, List.getLast?_append, List.getLast?_cons] at this
        cases this
      · refine hisolated q fun hmem => ?_
        have := List.of_mem_filter hmem
        simp [hB q (List.mem_of_mem_head? hq)] at this
      · refine ⟨hage.mp hr.2, ?_⟩
        rw [hr.1, hR, List.getLast?_append, List.getLast?_cons]
        rfl
    · refine .check_bind (fun hn => absurd (fun t ht => ?_) hn) fun _ =>
        .pure ⟨hr.1, rfl, hchain, hisolated, holdest, hr.2⟩
      obtain ⟨M, hM⟩ : ∃ M, L.filter (· ∉ S.forest.path e) = M ++ [t] :=
        ⟨_, (List.dropLast_append_getLast? t (hr.2.symm.trans ht)).symm⟩
      rw [hM] at hchain
      exact hchain.links_at.2

/-! ## Linking a path -/

theorem appendList_eq [DecidableEq P] {l : Links P} {t h : P} (ht : l.next t = none) (hh : l.prev h = none) :
    appendList l t h = .ok (l.append t h) := by
  unfold appendList check
  rw [if_pos hh, if_pos ht]
  rfl

/-- Linking a path of which only the first object is in a chain, at its end. -/
theorem linkPath_chain [DecidableEq P] {l : Links P} {K : List P} {e : P} (hchain : l.Chain (K ++ [e]))
    (hisolated : ∀ q ∈ (S.forest.path e).tail, l.Isolated q ∧ q ∉ K ++ [e]) :
    ∃ l', linkPath S (S.forest.path e) l = .ok l' ∧ l'.Chain (K ++ S.forest.path e) ∧
      ∀ q, q ∉ K ++ S.forest.path e → l'.next q = l.next q ∧ l'.prev q = l.prev q := by
  induction e using S.forest.induction_from_root generalizing l K with
  | root e he =>
    rw [Forest.path_of_root he]
    refine ⟨l, ?_, hchain, fun q _ => ⟨rfl, rfl⟩⟩
    simp only [linkPath, he]
    rfl
  | child e p he ih =>
    rw [Forest.path_of_parent he] at hisolated ⊢
    rw [List.tail_cons] at hisolated
    obtain ⟨hp, hpK⟩ := hisolated p Forest.mem_path_self
    have hnext : l.next e = none := (hchain.links_at (A := K) (B := [])).2
    have hchain' : (l.append e p).Chain (K ++ [e] ++ [p]) :=
      hchain.append (.singleton hp) fun q hq hqp => hpK (List.mem_singleton.mp hqp ▸ hq)
    obtain ⟨D, hD⟩ := S.forest.exists_path_eq p
    have hnodup := S.forest.nodup_path p
    rw [hD, List.nodup_cons] at hnodup
    obtain ⟨l', hl', hchain'', hframe⟩ := ih hchain' fun q hq => by
      rw [hD, List.tail_cons] at hq
      obtain ⟨hiso, hnot⟩ := hisolated q (by rw [hD]; exact List.mem_cons_of_mem p hq)
      have hqp : q ≠ p := fun h => hnodup.1 (h ▸ hq)
      have hqe : q ≠ e := fun h => hnot (h ▸ by simp)
      refine ⟨⟨by simp [Links.append, hqe, hiso.1], by simp [Links.append, hqp, hiso.2]⟩, ?_⟩
      simp only [List.mem_append, List.mem_singleton, not_or] at hnot ⊢
      exact ⟨hnot, hqp⟩
    refine ⟨l', ?_, by simpa using hchain'', fun q hq => ?_⟩
    · simp only [linkPath, he, appendList_eq hnext hp.2]
      exact hl'
    · have hq' : q ∉ K ++ [e] ++ S.forest.path p := by simpa using hq
      obtain ⟨hn, hpr⟩ := hframe q hq'
      simp only [List.mem_append, List.mem_cons, not_or] at hq
      have hqp : q ≠ p := fun h => hq.2.2 (h ▸ Forest.mem_path_self)
      exact ⟨by rw [hn]; simp [Links.append, hq.2.1], by rw [hpr]; simp [Links.append, hqp]⟩

/-- What `use` makes of the cache, when it does not leave it as it is. -/
def Cache.used [DecidableEq P] (T : Forest P) (now : ℕ) (e : P) (oldest : Option P) (links : Links P)
    (s : Cache P σ) : Cache P σ :=
  { s with
    deepestYoungestObject := some e
    oldestObject := oldest
    lastUsed := fun p => if p ∈ T.path e then now else s.lastUsed p
    links := links }

/-- The aging list after `use`. -/
def usedList [DecidableEq P] (T : Forest P) (e : P) (L : List P) : List P := L.filter (· ∉ T.path e) ++ T.path e

theorem Aged.mem_usedList [DecidableEq P] (h : Aged T s L) {e : P} (he : e ∈ L) : q ∈ usedList T e L ↔ q ∈ L := by
  rw [usedList, List.mem_append, List.mem_filter]
  have := h.path_subset he q
  by_cases hq : q ∈ T.path e <;> simp_all

theorem Aged.getLast?_usedList [DecidableEq P] (h : Aged T s L) {e : P} (he : e ∈ L) :
    (usedList T e L).getLast? = L.getLast? := by
  obtain ⟨r, hr, hroot⟩ := T.exists_getLast?_path e
  rw [usedList, List.getLast?_append, hr]
  exact (h.rooted r (h.path_subset he r (List.mem_of_getLast? hr)) hroot).symm

theorem Aged.children_first_usedList [DecidableEq P] (h : Aged T s L) {e : P} :
    (usedList T e L).Pairwise fun p q => T.parent q ≠ some p :=
  List.pairwise_append.mpr ⟨h.children_first.sublist List.filter_sublist, T.pairwise_path e, fun p hp q hq hpar => by
    have := Forest.mem_path_of_parent hq hpar
    simpa [this] using List.of_mem_filter hp⟩

/-- The path of an entry has been moved to the end of the aging list. -/
theorem Aged.used [DecidableEq P] (h : Aged T s L) {e : P} (he : e ∈ L) {now : ℕ} {oldest : Option P} {links : Links P}
    (hchain : links.Chain (usedList T e L)) (hisolated : ∀ q, q ∉ usedList T e L → links.Isolated q)
    (holdest : oldest = (usedList T e L).head?) : Aged T (s.used T now e oldest links) (usedList T e L) where
  chain := hchain
  isolated := hisolated
  children_first := h.children_first_usedList
  closed p hp q hq := (h.mem_usedList he).mpr (h.closed p ((h.mem_usedList he).mp hp) q hq)
  rooted p hp hroot := (h.getLast?_usedList he).trans (h.rooted p ((h.mem_usedList he).mp hp) hroot)
  root := h.root.trans (h.getLast?_usedList he).symm
  oldest := holdest
  deepest := .inr ⟨e, rfl, List.suffix_append _ _⟩

/-- `use` of an entry of the list does nothing, or moves its path to the end. It fails if the entry is not
registered, or some ages on the path of the deepest object differ. -/
theorem Aged.useEntry_ensures [DecidableEq P] {allowed : Fault → Prop} (h : Aged S.forest s L) {now : ℕ} {e : P}
    (he : e ∈ L) (hid : (s.id e).isValid = false → allowed .invalidId)
    (hcached : s.find (s.id e) = none → allowed .notCached)
    (hclock : now < s.minimumRequiredCreationTime → allowed .clock) (hal : ¬ OneAge S.forest s e → allowed .agingList)
    (hleaf : (∃ o, (usedList S.forest e L).head? = some o ∧ s.isLeaf o = false) → allowed .oldestNotLeaf) :
    Ensures allowed (s.useEntry S now e) fun r =>
      s.minimumRequiredCreationTime ≤ now ∧
        (now = s.minimumRequiredCreationTime ∧ r = (usedEntryAlreadyUpToDate, s) ∨
          s.minimumRequiredCreationTime < now ∧ OneAge S.forest s e ∧ r.1 = ((S.forest.path e).length : ℤ) - 1 ∧
            ∃ oldest links, r.2 = s.used S.forest now e oldest links ∧ Aged S.forest r.2 (usedList S.forest e L)) := by
  unfold useEntry lookup
  refine .bind (Q := fun r => r = s.find (s.id e)) (.check_bind (fun hv => hid (by simpa using hv)) fun _ => .pure rfl)
    fun r hr => ?_
  subst hr
  refine .check_bind (fun hn => hcached (by simpa using hn)) fun _ =>
    .check_bind (fun hlt => hclock (Nat.not_le.mp hlt)) fun hnow => ?_
  refine .ite (fun hle => .pure ⟨hnow, .inl ⟨Nat.le_antisymm hle hnow, rfl⟩⟩) fun hlt => ?_
  refine (h.unlink_ensures he hal).bind fun r hr => ?_
  obtain ⟨hage, hdepth, hchain, hisolated, holdest, htail⟩ := hr
  obtain ⟨depth, c⟩ := r
  dsimp only at hdepth hchain hisolated holdest htail ⊢
  have hiso : ∀ q ∈ S.forest.path e, c.links.Isolated q := fun q hq => hisolated q (by simp [hq])
  have hnodup := S.forest.nodup_path e
  obtain ⟨D, hD⟩ := S.forest.exists_path_eq e
  obtain ⟨l, hl, hpath, hframe⟩ := linkPath_chain (S := S) (K := []) (Chain.singleton (hiso e Forest.mem_path_self))
    fun q hq => by
      rw [hD] at hnodup
      rw [hD, List.tail_cons] at hq
      refine ⟨hiso q (by rw [hD]; exact List.mem_cons_of_mem e hq), fun hqe => ?_⟩
      have hqe : q = e := by simpa using hqe
      exact (List.nodup_cons.mp hnodup).1 (hqe ▸ hq)
  rw [List.nil_append] at hpath hframe
  have hR : ∀ q ∈ L.filter (· ∉ S.forest.path e), q ∉ S.forest.path e := fun q hq => by
    simpa using List.of_mem_filter hq
  have hchain' : l.Chain (L.filter (· ∉ S.forest.path e)) := hchain.congr fun q hq => hframe q (hR q hq)
  have hiso' : ∀ q, q ∉ usedList S.forest e L → l.Isolated q := fun q hq => by
    rw [usedList, List.mem_append, not_or] at hq
    obtain ⟨hn, hp⟩ := hframe q hq.2
    obtain ⟨hn', hp'⟩ := hisolated q hq.1
    exact ⟨hn.trans hn', hp.trans hp'⟩
  have hhead : c.oldest = (usedList S.forest e L).head? := by
    rw [holdest, usedList, List.head?_append, Forest.head?_path]
    cases (L.filter (· ∉ S.forest.path e)).head? <;> rfl
  rw [hl]
  refine .bind (Q := fun r => r = l) (.pure rfl) fun _ hr => ?_
  subst hr
  refine .bind (Q := fun links : Links P => links.Chain (usedList S.forest e L) ∧
    ∀ q, q ∉ usedList S.forest e L → links.Isolated q) ?_ fun links hlinks => ?_
  · -- the two lists are joined, unless there is only the path
    rw [htail]
    cases hlast : (L.filter (· ∉ S.forest.path e)).getLast? with
    | none =>
      have hnil := List.getLast?_eq_none_iff.mp hlast
      refine .pure ⟨?_, hiso'⟩
      rw [usedList, hnil]
      exact hpath
    | some t =>
      obtain ⟨K, hK⟩ : ∃ K, L.filter (· ∉ S.forest.path e) = K ++ [t] :=
        ⟨_, (List.dropLast_append_getLast? t hlast).symm⟩
      have ht : t ∉ S.forest.path e := hR t (List.mem_of_getLast? hlast)
      rw [hK] at hchain' hR
      rw [hD] at hpath hR
      rw [joinLists, appendList_eq hchain'.links_at.2 (hpath.links_at (A := []) (B := D)).1]
      refine .pure ⟨?_, fun q hq => ?_⟩
      · rw [usedList, hK, hD]
        exact hchain'.append hpath hR
      · obtain ⟨hn, hp⟩ := hiso' q hq
        rw [usedList, hK, hD, List.mem_append, not_or] at hq
        have hqt : q ≠ t := fun h => hq.1 (h ▸ by simp)
        have hqe : q ≠ e := fun h => hq.2 (h ▸ List.mem_cons_self)
        exact ⟨by simp [Links.append, hqt, hn], by simp [Links.append, hqe, hp]⟩
  · refine .check_bind (fun hn => hleaf ?_) fun _ => .pure ?_
    · have hn' : ¬ ∀ o ∈ c.oldest, s.isLeaf o = true := hn
      rw [← hhead]
      simpa using hn'
    · exact ⟨hnow, .inr ⟨by omega, hage, hdepth, c.oldest, links, rfl, h.used he hlinks.1 hlinks.2 hhead⟩⟩

/-! ## Inserting an object -/

theorem insertBeforeParent_ensures [DecidableEq P] {allowed : Fault → Prop} (hal : allowed .agingList)
    {l : Links P} {p q : P} (h : l.Chain (A ++ q :: B)) :
    Ensures allowed (insertBeforeParent p (some q) l) fun r =>
      r.2 = l.insertBefore p q ∧ (r.1 = true ↔ A = []) := by
  obtain ⟨hprev, -⟩ := h.links_at
  unfold insertBeforeParent
  dsimp only
  rw [hprev]
  cases hA : A.getLast? with
  | none => exact .pure ⟨rfl, by simpa using List.getLast?_eq_none_iff.mp hA⟩
  | some o =>
    refine .check_bind (fun _ => hal) fun _ => .pure ⟨rfl, ?_⟩
    have : A ≠ [] := fun e => by rw [e] at hA; cases hA
    simp [this]

namespace Aged

/-- Putting an object in front of its parent, from which on the list is the path of the parent. -/
theorem insert [DecidableEq P] (h : Aged T s (A ++ T.path q)) (hp : p ∉ A ++ T.path q) (hpar : T.parent p = some q)
    (hlinks : s'.links = s.links.insertBefore p q) (hroot : s'.rootObject = s.rootObject)
    (holdest : s'.oldestObject = (A ++ T.path p).head?)
    (hdeepest : s'.deepestYoungestObject = some p ∨ s'.deepestYoungestObject = some q) :
    Aged T s' (A ++ T.path p) := by
  obtain ⟨D, hD⟩ := T.exists_path_eq q
  have hpath := Forest.path_of_parent hpar
  have hmem : ∀ r, r ∈ A ++ T.path p ↔ r = p ∨ r ∈ A ++ T.path q := fun r => by
    rw [hpath]
    simp only [List.mem_append, List.mem_cons]
    tauto
  have hlast : (A ++ T.path p).getLast? = (A ++ T.path q).getLast? := by
    rw [hpath, hD]
    simp [List.getLast?_append, List.getLast?_cons]
  have hqA : q ∈ A ++ T.path q := List.mem_append_right A Forest.mem_path_self
  refine ⟨?_, fun r hr => ?_, ?_, fun r hr t ht => ?_, fun r hr hroot => ?_, ?_, holdest, .inr ?_⟩
  · rw [hlinks, hpath, hD]
    exact (hD ▸ h.chain).insertBefore (hD ▸ hp)
  · have hrp : r ≠ p := fun e => hr ((hmem r).mpr (.inl e))
    have hr' : r ∉ A ++ T.path q := fun e => hr ((hmem r).mpr (.inr e))
    have hrq : r ≠ q := fun e => hr' (e ▸ hqA)
    obtain ⟨hn, hpr⟩ := h.isolated r hr'
    rw [hlinks]
    exact ⟨by simp [Links.insertBefore, hrp, (h.chain.not_linked hr' hqA).2, hn],
      by simp [Links.insertBefore, hrp, hrq, hpr]⟩
  · obtain ⟨hA, hQ, hAQ⟩ := List.pairwise_append.mp h.children_first
    rw [hpath]
    refine List.pairwise_append.mpr ⟨hA, List.pairwise_cons.mpr ⟨fun r hr hrp => ?_, hQ⟩, fun a ha r hr har => ?_⟩
    · exact hp (h.closed r (List.mem_append_right A hr) p hrp)
    · rcases List.mem_cons.mp hr with rfl | hr
      · rw [hpar] at har
        cases har
        exact (List.nodup_append.mp h.nodup).2.2 q ha q Forest.mem_path_self rfl
      · exact hAQ a ha r hr har
  · rcases (hmem r).mp hr with rfl | hr
    · rw [hpar] at ht
      cases ht
      exact (hmem q).mpr (.inr hqA)
    · exact (hmem t).mpr (.inr (h.closed r hr t ht))
  · rcases (hmem r).mp hr with rfl | hr
    · rw [hpar] at hroot
      cases hroot
    · exact hlast.trans (h.rooted r hr hroot)
  · exact hroot.trans (h.root.trans hlast.symm)
  · rcases hdeepest with hd | hd
    · exact ⟨p, hd, List.suffix_append _ _⟩
    · exact ⟨q, hd, A ++ [p], by rw [hpath]; simp⟩

/-- Inserting the root into an empty list. -/
theorem insert_root (h : Aged T s []) (hpar : T.parent p = none) (hlinks : s'.links = s.links)
    (hroot : s'.rootObject = some p) (holdest : s'.oldestObject = some p)
    (hdeepest : s'.deepestYoungestObject = some p) : Aged T s' [p] where
  chain := hlinks ▸ .singleton (h.isolated p (by simp))
  isolated r _ := hlinks ▸ h.isolated r (by simp)
  children_first := List.pairwise_singleton _ _
  closed r hr t ht := by
    rw [List.mem_singleton.mp hr, hpar] at ht
    cases ht
  rooted r hr _ := by rw [List.mem_singleton.mp hr]; rfl
  root := hroot
  oldest := holdest
  deepest := .inr ⟨p, hdeepest, Forest.path_of_root hpar ▸ List.suffix_refl [p]⟩

end Aged

end Listbrokers.Lru
