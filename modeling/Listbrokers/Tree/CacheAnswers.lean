import Listbrokers.Lru.FreshIds
import Listbrokers.Tree.CachedTree
import Listbrokers.Tree.Purging

/-!
# What the cache answers

Each call of the cache that the list tree makes, seen as what `UsbTree` takes the
call for. The garbage collector discards some lists, one after the other
(`gc_collected`). An insertion puts the list into the tree under a free ID before
lists are discarded (`insert_answers`), a list that is inserted again gets a free
ID (`reinsertList_answers`), and so on. The cache stays intact all the time; so
whatever it discards, it discards along with the lists below.
-/

namespace Listbrokers.Tree

open Framework Tiles
open Lru (Cache Intact Tolerated AnyFault)

variable {P : Type} [DecidableEq P] {S : CachedSetup P} {s s' s₁ s₂ : Cache P (P → UsbList)} {L L' : List P}
    {p q entry : P}
  {i : ListId} {now : ℕ}

/-- Without sizes being counted, any fault is tolerated. -/
theorem tolerates {α : Type} {x : Except Lru.Fault α} {Q : α → Prop} (h : Ensures AnyFault x Q) :
    Ensures (Tolerated False) x Q := by
  cases x with
  | ok a => exact h
  | error f => exact fun hf => hf.elim

/-! ## Discarding lists -/

namespace CachedTree

/-- The tree that a cache holds, the device list of which has the ID `i`. -/
abbrev treeOf (i : ListId) (s : Cache P (P → UsbList)) : UsbTree P := (CachedTree.mk s i).usbTree

theorem treeOf_without (notify : Bool) (p : P) :
    treeOf i (s.without S.manager.toSetup notify p) = (treeOf i s).discard S.toUsbSetup p := by
  cases notify <;> rfl

theorem discard_without (notify : Bool) (p : P) (s : Cache P (P → UsbList)) :
    Ensures AnyFault (s.discard S.manager.toSetup notify p) fun r => r.2 = s.without S.manager.toSetup notify p := by
  refine .check_bind (fun _ => trivial) fun _ => .check_bind (fun _ => trivial) fun _ => ?_
  refine .check_bind (fun _ => trivial) fun _ => .check_bind (fun _ => trivial) fun _ => ?_
  exact .check_bind (fun _ => trivial) fun _ => .pure rfl

/-- The cache has done nothing to the tree but discard lists. -/
def Collects (S : CachedSetup P) (i : ListId) (s s' : Cache P (P → UsbList)) : Prop :=
  ∃ victims, treeOf i s' = (treeOf i s).collect S.toUsbSetup victims

theorem Collects.of_eq (h : treeOf i s' = treeOf i s) : Collects S i s s' := ⟨[], h⟩

theorem Collects.trans (h : Collects S i s s₁) (h' : Collects S i s₁ s') : Collects S i s s' := by
  obtain ⟨victims, hv⟩ := h
  obtain ⟨victims', hv'⟩ := h'
  refine ⟨victims ++ victims', ?_⟩
  rw [hv', hv, UsbTree.collect, UsbTree.collect, UsbTree.collect, List.foldl_append]

theorem collects_without (hp : p ∈ s.allObjects) (notify : Bool) :
    Collects S i s (s.without S.manager.toSetup notify p) := by
  refine ⟨[p], (treeOf_without notify p).trans ?_⟩
  rw [UsbTree.collect, List.foldl_cons, List.foldl_nil]
  exact (if_pos hp).symm

/-- An intact cache, from which lists have been discarded. -/
structure Collected (S : CachedSetup P) (i : ListId) (s s' : Cache P (P → UsbList)) (L' : List P) : Prop where
  intact : Intact False S.forest s' L'
  collects : Collects S i s s'

/-- The loops of the garbage collector. -/
theorem collected_discards (i : ListId) (s₀ : Cache P (P → UsbList)) :
    Lru.Discards S.manager.toSetup (Tolerated False) fun s L => Collected S i s₀ s L where
  chain h := h.intact.aged.chain
  oldest h := h.intact.aged.oldest
  count h := h.intact.count_eq
  discard {s A B c} h hA hc := by
    have hmem : c ∈ s.allObjects :=
      (h.intact.registered.cached c).mpr (List.mem_append_right A List.mem_cons_self)
    refine (Lru.discard_ensures h.intact (h.intact.childless hA hc) true).mono fun r hr => ?_
    obtain ⟨rfl, -, hintact⟩ := hr
    exact ⟨rfl, Lru.sameData_without s true c, hintact, h.collects.trans (collects_without hmem true)⟩

theorem gc_collected (i : ListId) (h : Intact False S.forest s L) :
    Ensures (Tolerated False) (s.gc S.manager.toSetup now) fun r => ∃ L', Collected S i s r.2 L' := by
  unfold Cache.gc
  refine .check_bind (fun _ hf => hf.elim) fun _ => ?_
  have hrunning : Collected S i s { s with isGarbageCollectorRunning := true } L := ⟨h.setRunning true, .of_eq rfl⟩
  refine ((collected_discards i s).collect_ensures hrunning).bind fun r hr => ?_
  obtain ⟨candidate, s₁⟩ := r
  obtain ⟨K, B, -, -, -, hcollected, -⟩ := hr
  refine (Lru.nextCall_ensures candidate).bind fun wait _ => .pure ⟨_, hcollected.intact.setRunning false, ?_⟩
  exact hcollected.collects.trans (.of_eq rfl)

theorem gcIf_collects (i : ListId) (h : Intact False S.forest s L) (b : Bool) :
    Ensures (Tolerated False) (s.gcIf S.manager.toSetup b now) fun s' => ∃ L', Collected S i s s' L' := by
  unfold Cache.gcIf
  refine .ite (fun _ => (gc_collected i h).bind fun r hr => .pure hr) fun _ => .pure ⟨L, h, .of_eq rfl⟩

theorem treeOf_setPinned (j : ListId) : treeOf i (s.setPinned S.manager.toSetup j) = treeOf i s := by
  obtain ⟨flags, j', h⟩ := Lru.setPinned_flags (S := S.manager.toSetup) j s
  rw [h]
  rfl

/-- `pin` runs the garbage collector. -/
theorem pin_collects (i : ListId) (h : Intact False S.forest s L) (j : ListId) :
    Ensures (Tolerated False) (s.pin S.manager.toSetup now j) fun r => ∃ L', Collected S i s r.2 L' := by
  have h' : Intact False S.forest (s.setPinned S.manager.toSetup j) L :=
    Lru.setPinned_intact (S := S.manager.toSetup) h j
  have hset : Collects S i s (s.setPinned S.manager.toSetup j) := .of_eq (treeOf_setPinned j)
  unfold Cache.pin
  refine .ite (fun _ => .pure ⟨L, h, .of_eq rfl⟩) fun _ => .ite (fun _ => ?_) fun _ => .pure ⟨L, h', hset⟩
  refine (gc_collected i h').bind fun r hr => ?_
  obtain ⟨_, s₁⟩ := r
  obtain ⟨L', hcollected⟩ := hr
  exact .pure ⟨L', hcollected.intact, hset.trans hcollected.collects⟩

/-! ## Use -/

theorem treeOf_useEntry (i : ListId) (e : P) (s : Cache P (P → UsbList)) :
    Ensures AnyFault (s.useEntry S.manager.toSetup now e) fun r => treeOf i r.2 = treeOf i s := by
  unfold Cache.useEntry
  refine (Lru.ensures_anyFault _).bind fun _ _ => ?_
  refine .check_bind (fun _ => trivial) fun _ => .check_bind (fun _ => trivial) fun _ => ?_
  refine .ite (fun _ => .pure rfl) fun _ => (Lru.ensures_anyFault _).bind fun r _ => ?_
  obtain ⟨depth, cursors⟩ := r
  refine (Lru.ensures_anyFault _).bind fun _ _ => (Lru.ensures_anyFault _).bind fun _ _ => ?_
  exact .check_bind (fun _ => trivial) fun _ => .pure rfl

theorem use_answers (i : ListId) (h : Intact False S.forest s L) (j : ListId) :
    Ensures (Tolerated False) (s.use S.manager.toSetup now j) fun r =>
      (∃ L', Intact False S.forest r.2 L') ∧ treeOf i r.2 = treeOf i s := by
  unfold Cache.use
  refine (tolerates (Lru.lookup_ensures j s)).bind fun r hr => ?_
  obtain ⟨-, rfl⟩ := hr
  cases hfind : s.find j with
  | none => exact .pure ⟨⟨L, h⟩, rfl⟩
  | some p =>
    refine ((Lru.useEntry_ensures h (h.registered.mem_of_find hfind)).and (tolerates (treeOf_useEntry i p s))).mono
      fun r hr => ?_
    obtain ⟨⟨L', hintact, -⟩, htree⟩ := hr
    exact ⟨⟨L', hintact⟩, htree⟩

theorem useList_collects (i : ListId) (h : Intact False S.forest s L) (j : ListId) (pinIt : Bool) :
    Ensures (Tolerated False) (s.useList S.manager now j pinIt) fun r => ∃ L', Collected S i s r.2 L' := by
  unfold Cache.useList
  refine .ite (fun _ => .pure ⟨L, h, .of_eq rfl⟩) fun _ => (use_answers i h j).bind fun r hr => ?_
  obtain ⟨depth, s₁⟩ := r
  obtain ⟨⟨L₁, h₁⟩, htree⟩ := hr
  have hused : Collects S i s s₁ := .of_eq htree
  refine .ite (fun _ => .pure ⟨L₁, h₁, hused⟩) fun _ => .ite (fun _ => .pure ⟨L₁, h₁, hused⟩) fun _ => ?_
  refine (pin_collects i h₁ j).bind fun r hr => ?_
  obtain ⟨pinned, s₂⟩ := r
  obtain ⟨L₂, h₂⟩ := hr
  refine .ite (fun _ => (pin_collects i h₂.intact _).bind fun r hr => ?_) fun _ =>
    .pure ⟨L₂, h₂.intact, hused.trans h₂.collects⟩
  obtain ⟨_, s₃⟩ := r
  obtain ⟨L₃, h₃⟩ := hr
  exact .pure ⟨L₃, h₃.intact, (hused.trans h₂.collects).trans h₃.collects⟩

theorem repin_collects (i : ListId) (h : Intact False S.forest s L) (j j' : ListId) :
    Ensures (Tolerated False) (s.repinIfFirstIsDeepestPinnedList S.manager now j j') fun s' =>
      ∃ L', Collected S i s s' L' := by
  unfold Cache.repinIfFirstIsDeepestPinnedList
  refine .check_bind (fun _ hf => hf.elim) fun _ => .ite (fun _ => ?_) fun _ => .pure ⟨L, h, .of_eq rfl⟩
  exact (pin_collects i h j').bind fun r hr => .pure hr

/-! ## Insertion -/

theorem treeOf_prepareInsert (i : ListId) {created : ℕ} (s : Cache P (P → UsbList)) :
    Ensures AnyFault (s.prepareInsert S.manager.toSetup now created entry) fun s' => treeOf i s' = treeOf i s := by
  unfold Cache.prepareInsert
  cases S.manager.forest.parent entry with
  | none => exact .check_bind (fun _ => trivial) fun _ => .pure rfl
  | some parent =>
    refine (treeOf_useEntry i parent s).bind fun r hr => ?_
    obtain ⟨depth, s₁⟩ := r
    refine .check_bind (fun _ => trivial) fun _ => .pure ?_
    split <;> split <;> exact hr

theorem treeOf_link (i : ListId) {mode : Lru.CacheMode} {ctx size : ℕ} (s : Cache P (P → UsbList)) :
    Ensures AnyFault (s.link S.manager.toSetup mode ctx size entry) fun r =>
      treeOf i r.2 = { treeOf i s with shelf := (treeOf i s).shelf.insert entry r.1 } := by
  unfold Cache.link
  refine (Lru.nextListId_effect mode ctx s).bind fun r hr => ?_
  obtain ⟨j, s₁⟩ := r
  obtain ⟨⟨next, rfl⟩, -, -⟩ := hr
  refine .check_bind (fun _ => trivial) fun _ => (Lru.ensures_anyFault _).bind fun r _ => ?_
  obtain ⟨isOldest, links⟩ := r
  exact .check_bind (fun _ => trivial) fun _ => .pure rfl

theorem nocacheBit_eq_false_iff {id : ListId} :
    id.nocacheBit = false ↔ Lru.CacheIdGenerator.getCacheMode id = .cached := by
  unfold ListId.nocacheBit Lru.CacheIdGenerator.getCacheMode
  cases id.raw.testBit 27 <;> simp

theorem nocacheBit_search {isFree : ListId → Bool} {ctx start : ℕ} (hstart : 0 < start ∧ start ≤ Lru.idMax) :
    (Lru.CacheIdGenerator.search isFree .cached ctx start Lru.idMax start).1.nocacheBit = false := by
  rw [Lru.CacheIdGenerator.search_eq hstart]
  cases hfind : (Lru.CacheIdGenerator.candidates .cached ctx start).find? isFree with
  | none => decide
  | some j =>
    obtain ⟨k, -, rfl⟩ := List.mem_map.mp (List.mem_of_find?_eq_some hfind)
    exact nocacheBit_eq_false_iff.mpr
      (Lru.CacheIdGenerator.getCacheMode_makeListId (Lru.CacheIdGenerator.candidate_le start k).2 .cached ctx)

/-- A list has been inserted, and some lists have been discarded afterwards. -/
structure Inserted (S : CachedSetup P) (i : ListId) (entry : P) (id : ListId)
    (s s' : Cache P (P → UsbList)) : Prop where
  intact : ∃ L', Intact False S.forest s' L'
  free : ∀ p ∈ s.allObjects, s.id p ≠ id
  cacheable : id.nocacheBit = false
  tree : ∃ victims, treeOf i s' =
    UsbTree.collect S.toUsbSetup victims { treeOf i s with shelf := (treeOf i s).shelf.insert entry id }

/-- An insertion that is accepted, in a later tick than the one before unless it is the first one. -/
theorem insert_answers (i : ListId) (h : Intact False S.forest s L) {handlers : Lru.Handlers} {created ctx size : ℕ}
    (haccepts : s.Accepts S.manager.toSetup created entry) (hnew : entry ∉ L)
    (hparent : ∀ q, S.forest.parent entry = some q → q ∈ L)
    (hlater : ∀ q, S.forest.parent entry = some q → s.minimumRequiredCreationTime < now) :
    Ensures (Tolerated False) (s.insert S.manager.toSetup now handlers created .cached ctx size entry) fun r =>
      Inserted S i entry r.1 s r.2 ∧ (Lru.HasFreeId s .cached ctx → r.1.isValid = true) := by
  have hids : Lru.NextIds s := h.registered.nextId
  refine .mono (Q := fun r => (∃ L' victims, Intact False S.forest r.2 L' ∧ treeOf i r.2 =
      UsbTree.collect S.toUsbSetup victims { treeOf i s with shelf := (treeOf i s).shelf.insert entry r.1 }) ∧ _)
    (.and ?_ (tolerates (Lru.insert_effect s))) fun r hr => ?_
  · unfold Cache.insert
    rw [if_pos haccepts]
    have hplace : ∀ q, S.forest.parent entry = some q → now ≤ s.minimumRequiredCreationTime → S.forest.path q <:+ L :=
      fun q hq hnow => absurd (hlater q hq) (Nat.not_lt.mpr hnow)
    refine ((Lru.prepareInsert_ensures (S := S.manager.toSetup) (h.setCreated created) hparent hplace).and
      (tolerates (treeOf_prepareInsert i _))).bind fun s₁ hs₁ => ?_
    obtain ⟨⟨s₀, A, L₁, hprep, -, -, -, -, -, hmem, -⟩, htree₁⟩ := hs₁
    refine ((Lru.link_ensures (S := S.manager.toSetup) hprep (fun hmem' => hnew ((hmem entry).mp hmem'))
      (fun hf => hf.elim) .cached ctx).and (tolerates (treeOf_link i s₁))).bind fun r hr => ?_
    obtain ⟨j, s₂⟩ := r
    obtain ⟨⟨hintact₂, -⟩, htree₂⟩ := hr
    refine (gcIf_collects i hintact₂ _).bind fun s₃ hs₃ => ?_
    obtain ⟨L₃, h₃⟩ := hs₃
    refine (gcIf_collects i h₃.intact _).bind fun s₄ hs₄ => ?_
    obtain ⟨L₄, h₄⟩ := hs₄
    obtain ⟨victims, hvictims⟩ := h₃.collects.trans h₄.collects
    refine .pure ⟨L₄, victims, h₄.intact, hvictims.trans ?_⟩
    rw [show treeOf i s₂ = _ from htree₂, htree₁]
    rfl
  · obtain ⟨⟨L', victims, hintact, htree⟩, ⟨hnot, -⟩ | ⟨hplacing, -, hsearch⟩⟩ := hr
    · exact absurd haccepts hnot
    · refine ⟨⟨⟨L', hintact⟩, fun p hp => Lru.find_eq_none.mp hplacing.free p hp, ?_, ⟨victims, htree⟩⟩,
        fun hfree => ?_⟩
      · rw [hsearch]
        exact nocacheBit_search (hids ctx)
      · rw [hsearch]
        exact (Lru.search_isValid_iff hids .cached ctx).mpr hfree

/-! ## Another ID -/

theorem treeOf_insertAgain (i : ListId) (s : Cache P (P → UsbList)) (hfind : s.find (s.id p) ≠ none) :
    Ensures AnyFault (s.insertAgain p) fun r =>
      treeOf i r.2 = { treeOf i s with shelf := (treeOf i s).shelf.insertAgain p r.1 } := by
  unfold Cache.insertAgain
  dsimp only
  rw [if_neg hfind]
  refine (Lru.nextListId_effect _ _ _).bind fun r hr => ?_
  obtain ⟨j, s₁⟩ := r
  obtain ⟨⟨next, rfl⟩, -, -⟩ := hr
  exact .check_bind (fun _ => trivial) fun _ => .pure rfl

/-- A list has got another ID. -/
structure Reinserted (S : CachedSetup P) (i : ListId) (p : P) (id newId : ListId)
    (s s' : Cache P (P → UsbList)) : Prop where
  intact : ∃ L', Intact False S.forest s' L'
  found : (treeOf i s).shelf.find id = some p
  free : ((treeOf i s).shelf.remove p).Free newId
  other : newId ≠ id
  tree : treeOf i s' = { treeOf i s with shelf := (treeOf i s).shelf.insertAgain p newId }

theorem reinsertList_answers (i : ListId) (h : Intact False S.forest s L) (hlabelled : (treeOf i s).shelf.Labelled)
    (id : ListId) : Ensures (Tolerated False) (s.reinsertList id) fun r => ∃ p, Reinserted S i p id r.1 s r.2 := by
  unfold Cache.reinsertList
  refine (tolerates (Lru.lookup_ensures id s)).bind fun r hr => ?_
  obtain ⟨-, rfl⟩ := hr
  cases hfind : s.find id with
  | none => exact .error fun hf => hf.elim
  | some p =>
    obtain ⟨hp, rfl⟩ := Lru.mem_of_find hfind
    have hpL := (h.registered.cached p).mp hp
    have hfound : s.find (s.id p) ≠ none := by rw [hfind]; nofun
    refine (((Lru.insertAgain_ensures (S := S.manager.toSetup) h hpL (hlabelled.valid p hp)).and
      (tolerates (Lru.insertAgain_effect s))).and (tolerates (treeOf_insertAgain i s hfound))).bind fun r hr => ?_
    obtain ⟨newId, s₁⟩ := r
    obtain ⟨⟨⟨hintact, hvalid, -⟩, ⟨hnone, -⟩ | ⟨hrenaming, -, hsearch⟩⟩, htree⟩ := hr
    · exact absurd hnone hfound
    refine .check_bind (fun _ hf => hf.elim) fun hne =>
      .pure ⟨p, ⟨L, hintact⟩, hfind, ⟨hvalid, ?_, fun q hq => ?_⟩, hne, htree⟩
    · rw [nocacheBit_eq_false_iff.mp (show (s.id p).nocacheBit = false from hlabelled.cacheable p hp)] at hsearch
      rw [show newId = _ from hsearch]
      exact nocacheBit_search (h.registered.nextId _)
    · obtain ⟨hq, hne⟩ := List.mem_filter.mp hq
      exact hrenaming.free q hq (of_decide_eq_true hne)

/-! ## Purging -/

/-- Lists that are not cached are not discarded. -/
theorem collect_skip {u : UsbTree P} {gone : List P} (h : ∀ p ∈ gone, p ∉ u.shelf.cached) (victims : List P) :
    u.collect S.toUsbSetup (gone ++ victims) = u.collect S.toUsbSetup victims := by
  induction gone with
  | nil => rfl
  | cons p gone ih =>
    rw [← ih fun q hq => h q (List.mem_cons_of_mem p hq), List.cons_append, UsbTree.collect, List.foldl_cons,
      if_neg (h p List.mem_cons_self)]
    rfl

theorem purgeEntries_congr {a a' : Answers P} {kill : List ListId} {u : UsbTree P}
    (h : ∀ id ∈ kill, ∃ gone, a.unpinned id = gone ++ a'.unpinned id ∧ ∀ p ∈ gone, p ∉ u.shelf.cached) :
    u.purgeEntries S.toUsbSetup a kill = u.purgeEntries S.toUsbSetup a' kill := by
  induction kill generalizing u with
  | nil => rfl
  | cons id kill ih =>
    obtain ⟨gone, hgone, hnot⟩ := h id List.mem_cons_self
    rw [UsbTree.purgeEntries, UsbTree.purgeEntries, hgone]
    split
    · exact ih fun j hj => h j (List.mem_cons_of_mem id hj)
    · rw [collect_skip hnot]
      refine ih fun j hj => ?_
      obtain ⟨gone', hgone', hnot'⟩ := h j (List.mem_cons_of_mem id hj)
      exact ⟨gone', hgone', fun p hp hmem =>
        hnot' p hp ((UsbTree.collect_shrunk _ u).cached p (List.mem_filter.mp hmem).1)⟩

/-- One round of `purge_entries`: the lists that the garbage collector discards before the one that is purged. -/
structure PurgedOne (S : CachedSetup P) (i : ListId) (id : ListId) (victims : List P)
    (s s' : Cache P (P → UsbList)) : Prop where
  tree : treeOf i s' = match (treeOf i s).shelf.find id with
    | none => treeOf i s
    | some p => ((treeOf i s).collect S.toUsbSetup victims).discard S.toUsbSetup p
  closed : ∀ q ∈ s.allObjects, ∀ p ∈ S.forest.parent q, p ∈ victims → q ∈ victims
  kept : ∀ p ∈ s'.allObjects, p ∉ victims

theorem purgeEntry_answers (i : ListId) (h : Intact False S.forest s L) (hlabelled : (treeOf i s).shelf.Labelled)
    (notify : Bool) (id : ListId) :
    Ensures (Tolerated False) (s.purgeEntry S.manager.toSetup notify now id) fun s' =>
      ∃ victims, PurgedOne S i id victims s s' := by
  unfold Cache.purgeEntry
  refine (tolerates (Lru.lookup_ensures id s)).bind fun r hr => ?_
  obtain ⟨-, rfl⟩ := hr
  cases hfind : s.find id with
  | none =>
    refine .pure ⟨[], ?_, fun _ _ _ _ hp => absurd hp List.not_mem_nil, fun _ _ => List.not_mem_nil⟩
    rw [show (treeOf i s).shelf.find id = none from hfind]
  | some p =>
    have hunpin : Ensures (Tolerated False) (s.unpinIfPinned S.manager.toSetup now p) fun s' =>
        ∃ L', Collected S i s s' L' := by
      unfold Cache.unpinIfPinned
      exact .ite (fun _ => (pin_collects i h _).bind fun r hr => .pure hr) fun _ => .pure ⟨L, h, .of_eq rfl⟩
    refine hunpin.bind fun s₁ hs₁ => ?_
    obtain ⟨L₁, h₁, victims, htree⟩ := hs₁
    have hmem : ∀ q, q ∈ s₁.allObjects ↔ q ∈ s.allObjects ∧ q ∉ victims := fun q => by
      have hcollect : q ∈ ((treeOf i s).collect S.toUsbSetup victims).shelf.cached ↔ _ :=
        UsbTree.mem_collect_iff hlabelled
      rwa [← htree] at hcollect
    refine (tolerates (discard_without notify p s₁)).bind fun r hr => ?_
    obtain ⟨next, s₂⟩ := r
    obtain rfl : s₂ = _ := hr
    refine .pure ⟨victims, ?_, fun q hq r hr hvictim => ?_, fun q hq => ?_⟩
    · rw [show (treeOf i s).shelf.find id = some p from hfind, treeOf_without, htree]
    · by_contra hnot
      have hparent := h₁.cacheTree.parents q ((hmem q).mpr ⟨hq, hnot⟩) r hr
      exact ((hmem r).mp hparent).2 hvictim
    · exact ((hmem q).mp (List.mem_filter.mp hq).1).2

/-- A kill list has been purged, and the garbage collector has discarded some lists before a list was purged. -/
structure Purged (S : CachedSetup P) (i : ListId) (unpinned : ListId → List P) (kill : List ListId)
    (s s' : Cache P (P → UsbList)) : Prop where
  intact : ∃ L', Intact False S.forest s' L'
  tree : ∀ a : Answers P, a.unpinned = unpinned → treeOf i s' = (treeOf i s).purgeEntries S.toUsbSetup a kill
  closed : ∀ id, ∀ q ∈ s.allObjects, ∀ p ∈ S.forest.parent q, p ∈ unpinned id → q ∈ unpinned id
  kept : ∀ id, ∀ p ∈ s'.allObjects, p ∉ unpinned id

theorem purgeEntries_answers (i : ListId) {kill : List ListId} (h : Intact False S.forest s L)
    (hlabelled : (treeOf i s).shelf.Labelled) (hkill : Lru.ChildrenFirst S.forest s L kill) (hnodup : kill.Nodup)
    (notify : Bool) :
    Ensures (Tolerated False) (s.purgeEntries S.manager.toSetup notify now kill) fun s' =>
      ∃ unpinned, Purged S i unpinned kill s s' := by
  induction kill generalizing s L with
  | nil =>
    exact .pure ⟨fun _ => [], ⟨L, h⟩, fun _ _ => rfl, fun _ _ _ _ _ hp => absurd hp List.not_mem_nil,
      fun _ _ _ => List.not_mem_nil⟩
  | cons id kill ih =>
    obtain ⟨hid, hnodup⟩ := List.nodup_cons.mp hnodup
    rw [Cache.purgeEntries]
    refine ((Lru.purgeEntry_ensures (S := S.manager.toSetup) h hkill (fun hf => hf.elim) notify).and
      (purgeEntry_answers i h hlabelled notify id)).bind fun s₁ hs₁ => ?_
    obtain ⟨⟨L₁, hpurged⟩, victims, hone⟩ := hs₁
    have hsub : ∀ p ∈ s₁.allObjects, p ∈ s.allObjects := fun p hp =>
      (h.registered.cached p).mpr (hpurged.sublist.mem ((hpurged.intact.registered.cached p).mp hp))
    have hids : s₁.id = s.id := hpurged.ages.id
    have hlabelled₁ : (Shelf.mk s₁.allObjects s₁.id).Labelled := by
      rw [hids]
      exact ⟨fun p hp q hq e => hlabelled.ids p (hsub p hp) q (hsub q hq) e, fun p hp => hlabelled.valid p (hsub p hp),
        fun p hp => hlabelled.cacheable p (hsub p hp)⟩
    refine ((ih hpurged.intact hlabelled₁ (hkill.tail hids hpurged.sublist.subset hpurged.gone) hnodup).and
      (tolerates (Lru.purgeEntries_keeps notify kill s₁))).mono fun s' hs' => ?_
    obtain ⟨⟨unpinned, hintact', htree', hclosed', hkept'⟩, hkeeps⟩ := hs'
    -- what has gone by then is named once more, so that the lists below a list are named with it
    obtain ⟨gone, hgone⟩ : ∃ gone, ∀ p, p ∈ gone ↔ p ∈ s.allObjects ∧ p ∉ s₁.allObjects :=
      ⟨s.allObjects.filter (· ∉ s₁.allObjects), fun p => by simp⟩
    refine ⟨fun j => if j = id then victims else gone ++ unpinned j, hintact', fun a ha => ?_,
      fun j q hq p hp hmem => ?_, fun j p hp hmem => ?_⟩
    · have hcongr : (treeOf i s₁).purgeEntries S.toUsbSetup a kill = treeOf i s' := by
        rw [htree' { a with unpinned := unpinned } rfl]
        refine purgeEntries_congr fun j hj => ⟨gone, ?_, fun p hp => ((hgone p).mp hp).2⟩
        rw [ha]
        exact if_neg fun e : j = id => hid (e ▸ hj)
      have htree := hone.tree
      have hself : a.unpinned id = victims := ha ▸ if_pos rfl
      rw [UsbTree.purgeEntries, hself]
      cases hfind : (treeOf i s).shelf.find id with
      | none => rw [hfind] at htree; rw [← hcongr, htree]
      | some p => rw [hfind] at htree; rw [← hcongr, htree]
    · change p ∈ (if j = id then victims else gone ++ unpinned j) at hmem
      split at hmem
      · next e => rw [if_pos e]; exact hone.closed q hq p hp hmem
      · next e =>
        rw [if_neg e]
        by_cases hq₁ : q ∈ s₁.allObjects
        · have hp₁ := hpurged.intact.cacheTree.parents q hq₁ p hp
          refine List.mem_append_right _ (hclosed' j q hq₁ p hp ((List.mem_append.mp hmem).resolve_left fun hg => ?_))
          exact ((hgone p).mp hg).2 hp₁
        · exact List.mem_append_left _ ((hgone q).mpr ⟨hq, hq₁⟩)
    · have hp₁ := hkeeps.subset p hp
      change p ∈ (if j = id then victims else gone ++ unpinned j) at hmem
      split at hmem
      · exact hone.kept p hp₁ hmem
      · rcases List.mem_append.mp hmem with hg | hmem
        · exact ((hgone p).mp hg).2 hp₁
        · exact hkept' j p hp hmem

end CachedTree

end Listbrokers.Tree
