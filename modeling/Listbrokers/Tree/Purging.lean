import Listbrokers.Framework.Subtree
import Listbrokers.Tree.Trails

/-!
# Purging the lists of a device

When a device is removed, `purge_subtree` follows the links of its list of volumes
to find out what is below, and discards it. A list that is pinned is unpinned
before, and the garbage collector may discard other lists then.

The cache discards a list only along with the lists below it, and it never
discards the device list (`Discards`). As long as this holds, the parents of the
cached lists are cached (`Grounded`), and the removal of a device discards exactly
the lists that are below its list of volumes, apart from those that the garbage
collector has chosen (`device_removed_exactly`).
-/

namespace Listbrokers.Tree

open Framework Tiles

variable {P : Type} [DecidableEq P] {S : UsbSetup P} {a : Answers P} {s s' : UsbTree P} {p q this : P} {X : Set P}
  {cached victims : List P} {item : ℕ}

/-- The device list is not discarded, and the lists below a list are discarded along with it. A list that is not
cached may be named among the victims as well. -/
structure Discards (S : UsbSetup P) (cached victims : List P) : Prop where
  root : S.deviceList ∉ victims
  below : ∀ q ∈ cached, ∀ p ∈ S.forest.parent q, p ∈ victims → q ∈ victims

/-- The device list is cached, and so is the parent of each cached list. -/
structure Grounded (S : UsbSetup P) (cached : List P) : Prop where
  root : S.deviceList ∈ cached
  closed : S.forest.Closed cached

instance (S : UsbSetup P) (cached victims : List P) : Decidable (Discards S cached victims) :=
  decidable_of_iff (S.deviceList ∉ victims ∧ ∀ q ∈ cached, ∀ p ∈ S.forest.parent q, p ∈ victims → q ∈ victims)
    ⟨fun h => ⟨h.1, h.2⟩, fun h => ⟨h.root, h.below⟩⟩

section

omit [DecidableEq P]

theorem Grounded.congr (h : Grounded S cached) {cached' : List P} (hmem : ∀ q, q ∈ cached' ↔ q ∈ cached) :
    Grounded S cached' :=
  ⟨(hmem _).mpr h.root, fun q hq p hp => (hmem p).mpr (h.closed q ((hmem q).mp hq) p hp)⟩

end

namespace UsbTree

/-! ## Lists that stay in the cache -/

/-- The garbage collector discards the lists that it has chosen, and no other ones. -/
theorem mem_collect_iff (h : s.shelf.Labelled) :
    p ∈ (s.collect S victims).shelf.cached ↔ p ∈ s.shelf.cached ∧ p ∉ victims := by
  induction victims generalizing s with
  | nil => simp [collect]
  | cons q victims ih =>
    change p ∈ (UsbTree.collect S victims (if q ∈ s.shelf.cached then s.discard S q else s)).shelf.cached ↔ _
    rw [List.mem_cons, not_or]
    split
    · next hq =>
      rw [ih (h.remove q), show (s.discard S q).shelf = s.shelf.remove q from rfl, h.mem_remove hq, and_assoc]
    · next hq =>
      rw [ih h]
      exact and_congr_right fun hp => ⟨fun hnot => ⟨fun e => hq (e ▸ hp), hnot⟩, And.right⟩

/-- Purging one list. -/
theorem mem_purgeEntry (h : s.shelf.Labelled) (hp : p ∈ s.shelf.cached) :
    q ∈ ((s.collect S victims).discard S p).shelf.cached ↔ q ∈ s.shelf.cached ∧ q ∉ victims ∧ q ≠ p := by
  have hmem : q ∈ ((s.collect S victims).discard S p).shelf.cached ↔
      q ∈ (s.collect S victims).shelf.cached ∧ s.shelf.id q ≠ s.shelf.id p := by
    change q ∈ List.filter _ _ ↔ _
    rw [List.mem_filter, (collect_shrunk victims s).id, decide_eq_true_eq]
  rw [hmem, mem_collect_iff h, and_assoc]
  exact and_congr_right fun hq => and_congr_right fun _ => not_congr ⟨h.ids q hq p hp, fun e => by rw [e]⟩

theorem purgeEntry_labelled (h : s.shelf.Labelled) : ((s.collect S victims).discard S p).shelf.Labelled :=
  ((collect_shrunk victims s).labelled h).remove p

theorem purgeEntry_id : ((s.collect S victims).discard S p).shelf.id = s.shelf.id := (collect_shrunk victims s).id

/-- The garbage collector, if it runs when a list is unpinned, discards lists only along with the lists below them. -/
def KeepsAbove (S : UsbSetup P) (a : Answers P) (s : UsbTree P) : Prop :=
  ∀ p ∈ s.shelf.cached, Discards S s.shelf.cached (a.unpinned (s.shelf.id p))

instance (S : UsbSetup P) (a : Answers P) (s : UsbTree P) : Decidable (KeepsAbove S a s) :=
  inferInstanceAs (Decidable (∀ _ ∈ _, _))

theorem KeepsAbove.purgeEntry (h : s.KeepsAbove S a) (hlabelled : s.shelf.Labelled) (hp : p ∈ s.shelf.cached) :
    ((s.collect S victims).discard S p).KeepsAbove S a := fun q hq => by
  have hmem : ∀ {q}, q ∈ ((s.collect S victims).discard S p).shelf.cached → q ∈ s.shelf.cached :=
    fun hq => ((mem_purgeEntry hlabelled hp).mp hq).1
  rw [purgeEntry_id]
  exact ⟨(h q (hmem hq)).root, fun r hr => (h q (hmem hq)).below r (hmem hr)⟩

/-- A list stays in the cache unless it is on the kill list, or chosen by the garbage collector. -/
theorem mem_purgeEntries (h : s.shelf.Labelled) {killList : List ListId} (hq : q ∈ s.shelf.cached)
    (hkill : s.shelf.id q ∉ killList) (hunpinned : ∀ p ∈ s.shelf.cached, q ∉ a.unpinned (s.shelf.id p)) :
    q ∈ (s.purgeEntries S a killList).shelf.cached := by
  induction killList generalizing s with
  | nil => exact hq
  | cons id killList ih =>
    obtain ⟨hne, hkill⟩ := not_or.mp (List.mem_cons.not.mp hkill)
    rw [UsbTree.purgeEntries]
    split
    · exact ih h hq hkill hunpinned
    · next p hfind =>
      obtain ⟨hp, rfl⟩ := Shelf.mem_of_find hfind
      refine ih (purgeEntry_labelled h) ((mem_purgeEntry h hp).mpr ⟨hq, hunpinned p hp, fun e => hne (by rw [e])⟩) ?_
        fun r hr => ?_
      · rwa [purgeEntry_id]
      · rw [purgeEntry_id]
        exact hunpinned r ((mem_purgeEntry h hp).mp hr).1

/-- The lists above those that are not purged stay in the cache. -/
theorem purgeEntries_closed {killList : List ListId} {below : P → Prop}
    (hbelow : ∀ q, ∀ p ∈ S.forest.parent q, below p → below q) (h : s.shelf.Labelled)
    (hkill : ∀ p ∈ s.shelf.cached, s.shelf.id p ∈ killList → below p) (hkeeps : s.KeepsAbove S a)
    (hclosed : ∀ q ∈ s.shelf.cached, ¬ below q → ∀ p ∈ S.forest.parent q, p ∈ s.shelf.cached) :
    ∀ q ∈ (s.purgeEntries S a killList).shelf.cached, ¬ below q →
      ∀ p ∈ S.forest.parent q, p ∈ (s.purgeEntries S a killList).shelf.cached := by
  induction killList generalizing s with
  | nil => exact hclosed
  | cons id killList ih =>
    rw [UsbTree.purgeEntries]
    split
    · exact ih h (fun p hp hid => hkill p hp (List.mem_cons_of_mem _ hid)) hkeeps hclosed
    · next p hfind =>
      obtain ⟨hp, rfl⟩ := Shelf.mem_of_find hfind
      have hmem : ∀ q, q ∈ ((s.collect S (a.unpinned (s.shelf.id p))).discard S p).shelf.cached ↔ _ :=
        fun q => mem_purgeEntry h hp
      refine ih (purgeEntry_labelled h) (fun q hq hid => ?_) (hkeeps.purgeEntry h hp) fun q hq hnot r hr => ?_
      · rw [purgeEntry_id] at hid
        exact hkill q ((hmem q).mp hq).1 (List.mem_cons_of_mem _ hid)
      · obtain ⟨hq, hvictim, -⟩ := (hmem q).mp hq
        refine (hmem r).mpr ⟨hclosed q hq hnot r hr, fun hr' => hvictim ((hkeeps p hp).below q hq r hr hr'),
          fun e => ?_⟩
        exact hnot (hbelow q r hr (e ▸ hkill p hp List.mem_cons_self))

/-! ## The lists below a list -/

/-- The lists that the items of a list link to. -/
def childLists (s : UsbTree P) (p : P) : List P := (s.children p).filterMap s.shelf.find

section

omit [DecidableEq P]

theorem Sound.mem_childLists (h : s.Sound S X) (hp : q ∈ s.childLists p) :
    q ∈ s.shelf.cached ∧ S.forest.parent q = some p := by
  obtain ⟨id, hid, hfind⟩ := List.mem_filterMap.mp hp
  obtain ⟨hq, rfl⟩ := Shelf.mem_of_find hfind
  exact ⟨hq, h.booked.eq_of_mem hq hid⟩

/-- Every link leads to a list. -/
theorem Sound.map_childLists (h : s.Sound S X) (p : P) : (s.childLists p).map s.shelf.id = s.children p := by
  rw [childLists, List.map_filterMap]
  refine (List.filterMap_congr fun id hid => ?_).trans List.filterMap_some
  obtain ⟨q, hq, -, rfl⟩ := h.booked.sound p id hid
  rw [h.booked.labelled.find_id hq, Option.map_some]

/-- The lists that are recorded are child lists of their parents, once. -/
theorem Sound.childLists_spec (h : s.Sound S X) (hX : ∀ x ∈ X, S.forest.parent x ≠ some p) :
    (s.childLists p).Nodup ∧ ∀ q, q ∈ s.childLists p ↔ q ∈ s.shelf.cached ∧ S.forest.parent q = some p := by
  have hcount : ∀ q ∈ s.shelf.cached, S.forest.parent q = some p → (s.children p).count (s.shelf.id q) = 1 :=
    fun q hq hpar => by
      obtain ⟨p', hpar', hcount⟩ := h.booked.linked q hq (fun e => by rw [e, S.root] at hpar; cases hpar)
        fun hx => hX q hx hpar
      rwa [Option.some.inj (hpar.symm.trans hpar'), ← List.append_nil (s.children p')]
  have hnodup : (s.children p).Nodup := List.nodup_iff_count_le_one.mpr fun id => by
    by_cases hid : id ∈ s.children p
    · obtain ⟨q, hq, hpar, rfl⟩ := h.booked.sound p id hid
      exact (hcount q hq hpar).le
    · rw [List.count_eq_zero.mpr hid]
      exact Nat.zero_le 1
  refine ⟨.of_map s.shelf.id (by rwa [h.map_childLists]), fun q => ⟨h.mem_childLists, fun ⟨hq, hpar⟩ => ?_⟩⟩
  exact List.mem_filterMap.mpr
    ⟨_, List.count_pos_iff.mp (by rw [hcount q hq hpar]; exact Nat.one_pos), h.booked.labelled.find_id hq⟩

/-- The loop over IDs finds what the loop over lists finds. -/
theorem Sound.enumerateTreeOfSublists_eq (h : s.Sound S X) {n : ℕ} {queue lists : List P}
    (hqueue : ∀ p ∈ queue, p ∈ s.shelf.cached ∧ p ≠ S.deviceList)
    (hlists : Forest.enumerate s.childLists n queue = some lists) :
    s.enumerateTreeOfSublists n (queue.map s.shelf.id) = .ok (lists.map s.shelf.id) := by
  induction n generalizing queue lists with
  | zero =>
    cases queue with
    | nil => cases hlists; rfl
    | cons p queue => cases hlists
  | succ n ih =>
    cases queue with
    | nil => cases hlists; rfl
    | cons p queue =>
      obtain ⟨hp, hne⟩ := hqueue p List.mem_cons_self
      have hdirect : (s.lists p).enumerateDirectSublists = s.children p := by
        cases hlist : s.lists p with
        | devices items => exact absurd (h.devices p items hlist) hne
        | volumes items => rw [children, hlist]; rfl
        | dir items => rw [children, hlist]; rfl
      obtain ⟨rest, hrest, rfl⟩ := Option.map_eq_some_iff.mp hlists
      have hrest := ih (fun q hq => ?_) hrest
      · rw [List.map_append, h.map_childLists] at hrest
        simp only [List.map_cons, enumerateTreeOfSublists, h.booked.labelled.find_id hp, deref, bind,
          Except.bind, hdirect, hrest, pure, Except.pure]
      · rcases List.mem_append.mp hq with hq | hq
        · exact hqueue q (List.mem_cons_of_mem _ hq)
        · obtain ⟨hq, hpar⟩ := h.mem_childLists hq
          exact ⟨hq, fun e => by rw [e, S.root] at hpar; cases hpar⟩

end

/-- The enumeration ends, and finds the cached lists below the list. -/
theorem Sound.enumerateTreeOfSublists_spec (h : s.Sound S X) (hclosed : S.forest.Closed s.shelf.cached)
    (hp : p ∈ s.shelf.cached) (hne : p ≠ S.deviceList)
    (hX : ∀ x ∈ X, ∀ q, S.forest.parent x = some q → p ∉ S.forest.path q) :
    ∃ killList, s.enumerateTreeOfSublists s.shelf.cached.length [s.shelf.id p] = .ok killList ∧ killList.Nodup ∧
      ∀ q ∈ s.shelf.cached, s.shelf.id q ∈ killList ↔ p ∈ S.forest.path q := by
  have hbelow : ∀ q, S.forest.BelowAny [p] q ↔ p ∈ S.forest.path q := fun q => by simp [Forest.BelowAny]
  have hchildren : S.forest.Lists s.shelf.cached s.childLists [p] := fun q _ hq =>
    h.childLists_spec fun x hx hpar => hX x hx q hpar ((hbelow q).mp hq)
  have hqueue : ∀ q ∈ [p], q ∈ s.shelf.cached ∧ q ≠ S.deviceList := fun q hq => List.mem_singleton.mp hq ▸ ⟨hp, hne⟩
  obtain ⟨lists, hlists, hnodup, hmem⟩ := Forest.enumerate_spec hclosed (fun q hq => (hqueue q hq).1)
    (List.pairwise_singleton _ _) hchildren (List.length_filter_le ..)
  have hcached : ∀ q ∈ lists, q ∈ s.shelf.cached := fun q hq => ((hmem q).mp hq).1
  refine ⟨lists.map s.shelf.id, h.enumerateTreeOfSublists_eq hqueue hlists, ?_, fun q hq => ?_⟩
  · exact (List.nodup_map_iff_inj_on hnodup).mpr fun q hq r hr e =>
      h.booked.labelled.ids q (hcached q hq) r (hcached r hr) e
  · rw [← hbelow]
    refine ⟨fun hid => ?_, fun hq' => List.mem_map.mpr ⟨q, (hmem q).mpr ⟨hq, hq'⟩, rfl⟩⟩
    obtain ⟨r, hr, e⟩ := List.mem_map.mp hid
    exact h.booked.labelled.ids r (hcached r hr) q hq e ▸ ((hmem r).mp hr).2

/-! ## Purging what is below a list -/

/-- The lists below a list are not cached any more, and the other ones are, apart from those that the garbage
collector has chosen. -/
structure Purged (S : UsbSetup P) (a : Answers P) (p : P) (s s' : UsbTree P) : Prop where
  gone : ∀ q ∈ s'.shelf.cached, q ∈ s.shelf.cached ∧ p ∉ S.forest.path q
  kept : ∀ q ∈ s.shelf.cached, p ∉ S.forest.path q → (∀ r ∈ s.shelf.cached, q ∉ a.unpinned (s.shelf.id r)) →
    q ∈ s'.shelf.cached
  grounded : s.KeepsAbove S a → Grounded S s'.shelf.cached

section

variable (h : s.Sound S X) (hgrounded : Grounded S s.shelf.cached) (hp : p ∈ s.shelf.cached) (hne : p ≠ S.deviceList)
  (hX : ∀ x ∈ X, ∀ q, S.forest.parent x = some q → p ∉ S.forest.path q)

include h hgrounded hp hne hX

/-- The lists below a list are found, sorted and purged. -/
theorem Sound.purgeSubtree_eq : ∃ killList, (∀ q ∈ s.shelf.cached, s.shelf.id q ∈ killList ↔ p ∈ S.forest.path q) ∧
    s.purgeSubtree S a (s.shelf.id p) .invalid .ok =
      (possible ((a.toposortForPurge killList).Perm killList) >>= fun _ =>
        .ok (s.purgeEntries S a (a.toposortForPurge killList))) := by
  obtain ⟨killList, hkill, -, hmem⟩ := h.enumerateTreeOfSublists_spec hgrounded.closed hp hne hX
  refine ⟨killList, hmem, ?_⟩
  rw [UsbTree.purgeSubtree, if_pos (h.booked.labelled.valid p hp), h.booked.labelled.find_id hp]
  simp only [hkill, bind, Except.bind]
  rfl

theorem Sound.purgeSubtree_purged (hr : s.purgeSubtree S a (s.shelf.id p) .invalid .ok = .ok s') :
    Purged S a p s s' := by
  obtain ⟨killList, hmem, heq⟩ := h.purgeSubtree_eq (a := a) hgrounded hp hne hX
  rw [heq] at hr
  obtain ⟨hperm, hr⟩ := of_possible hr
  cases hr
  have hmem : ∀ q ∈ s.shelf.cached, s.shelf.id q ∈ a.toposortForPurge killList ↔ p ∈ S.forest.path q :=
    fun q hq => hperm.mem_iff.trans (hmem q hq)
  have hgone : ∀ q ∈ (s.purgeEntries S a (a.toposortForPurge killList)).shelf.cached,
      q ∈ s.shelf.cached ∧ p ∉ S.forest.path q := fun q hq => by
    have hq' := (purgeEntries_shrunk (S := S) (a := a) (a.toposortForPurge killList) s).cached q hq
    exact ⟨hq', fun hbelow => (h.purgeEntries _).2 q hq ((hmem q hq').mpr hbelow)⟩
  refine ⟨hgone, fun q hq hnot hunpinned => ?_, fun hkeeps => ⟨?_, fun q hq r hr => ?_⟩⟩
  · exact mem_purgeEntries h.booked.labelled hq (fun hid => hnot ((hmem q hq).mp hid)) hunpinned
  · refine mem_purgeEntries h.booked.labelled hgrounded.root (fun hid => ?_) fun q hq => (hkeeps q hq).root
    have hroot := (hmem _ hgrounded.root).mp hid
    rw [Forest.path_of_root S.root, List.mem_singleton] at hroot
    exact hne hroot
  · have hbelow : ∀ q, ∀ r ∈ S.forest.parent q, p ∈ S.forest.path r → p ∈ S.forest.path q := fun q r hr hmem => by
      rw [Forest.path_of_parent hr]
      exact List.mem_cons_of_mem _ hmem
    exact purgeEntries_closed hbelow h.booked.labelled (fun q hq hid => (hmem q hq).mp hid) hkeeps
      (fun q hq _ r hr => hgrounded.closed q hq r hr) q hq (hgone q hq).2 r hr

end

/-! ## The cached lists and their parents -/

theorem mem_reinsertDeviceList (h : s.shelf.Labelled) (hr : s.reinsertDeviceList S a = .ok s') :
    q ∈ s'.shelf.cached ↔ q ∈ s.shelf.cached := by
  unfold UsbTree.reinsertDeviceList at hr
  obtain ⟨r, hr', hr⟩ := bind_eq_ok hr
  cases hr
  obtain ⟨p, hfind, -, hr⟩ := of_reinsertList hr'
  rw [hr]
  exact h.mem_insertAgain (Shelf.mem_of_find hfind).1

theorem mem_newUsbDevice {id : ℕ} {name usbPort : String} (h : s.shelf.Labelled)
    (hr : s.newUsbDevice S a id name usbPort = .ok s') : q ∈ s'.shelf.cached ↔ q ∈ s.shelf.cached := by
  unfold UsbTree.newUsbDevice at hr
  obtain ⟨⟨list, items⟩, -, hr⟩ := bind_eq_ok hr
  dsimp only at hr
  split at hr
  · cases hr
    rfl
  · exact mem_reinsertDeviceList (s := s.setList list _) h hr

theorem mem_newVolume {number deviceId : ℕ} {label mountpoint : String} (h : s.shelf.Labelled)
    (hr : s.newVolume S a number label mountpoint deviceId = .ok s') : q ∈ s'.shelf.cached ↔ q ∈ s.shelf.cached := by
  unfold UsbTree.newVolume at hr
  obtain ⟨⟨list, items⟩, -, hr⟩ := bind_eq_ok hr
  dsimp only at hr
  split at hr
  · cases hr
    rfl
  split at hr
  · cases hr
    rfl
  unfold UsbTree.reinsertVolumeList at hr
  obtain ⟨⟨list', items'⟩, -, hr⟩ := bind_eq_ok hr
  dsimp only at hr
  split at hr
  · cases hr
    rfl
  split at hr
  · cases hr
    rfl
  split at hr
  · obtain ⟨⟨id, t⟩, hreinsert, hr⟩ := bind_eq_ok hr
    unfold UsbTree.setChildList at hr
    obtain ⟨-, hr⟩ := of_assert hr
    obtain ⟨-, hr⟩ := of_assert hr
    cases hr
    obtain ⟨p, hfind, -, ht⟩ := of_reinsertList hreinsert
    change q ∈ t.shelf.cached ↔ _
    rw [show t = _ from ht]
    exact h.mem_insertAgain (Shelf.mem_of_find hfind).1
  · cases hr

/-- Where entering a child changes the cached lists. -/
theorem Sound.of_enterChild {listId : ListId} {r : ListId × EnterError × UsbTree P} (h : s.Sound S X)
    (hr : s.enterChild S a listId item = .ok r) : r.2.2 = s ∨ ∃ this r', s.shelf.find listId = some this ∧
      s.addToCache S a this item = .ok r' ∧ r.2.2.shelf = r'.2.2.shelf := by
  unfold UsbTree.enterChild at hr
  split at hr
  · cases hr
    exact .inl rfl
  · next this hfind =>
    by_cases hcontinue : a.mayContinue = true
    swap
    · rw [UsbTree.enterChildTemplate, if_neg hcontinue] at hr
      cases hr
      exact .inl rfl
    cases hlink : (s.lists this).links[item]? with
    | none =>
      rw [UsbTree.enterChildTemplate, if_pos hcontinue, hlink] at hr
      cases hr
      exact .inl rfl
    | some child =>
      by_cases hchild : child.isValid = true ∧ child.nocacheBit = false
      · rw [UsbTree.enterChildTemplate, if_pos hcontinue, hlink] at hr
        dsimp only at hr
        rw [if_pos hchild] at hr
        cases hr
        exact .inl rfl
      · rw [enterChildTemplate_unlinked hcontinue hlink (h.link_invalid hlink hchild)] at hr
        obtain ⟨r', hadd, hr⟩ := bind_eq_ok hr
        obtain ⟨t, ht, hr⟩ := bind_eq_ok hr
        cases hr
        refine .inr ⟨this, r', hfind, hadd, ?_⟩
        split at ht
        · unfold UsbTree.setChildList at ht
          obtain ⟨-, ht⟩ := of_assert ht
          obtain ⟨-, ht⟩ := of_assert ht
          cases ht
          rfl
        · cases ht
          rfl

/-- What the cache discards in the course of a call, it discards along with the lists below. -/
def Orderly (S : UsbSetup P) (s : UsbTree P) : UsbCall × Answers P → Prop
  | (.gc, a) => Discards S s.shelf.cached a.collected
  | (.enterChild _ _, a) => Discards S (a.inserted.toList.map (·.1) ++ s.shelf.cached) a.collected
  | (.deviceRemoved _, a) => s.KeepsAbove S a
  | (.newUsbDevice .., _) | (.newVolume .., _) => True

instance (S : UsbSetup P) (s : UsbTree P) (call : UsbCall × Answers P) : Decidable (Orderly S s call) := by
  unfold Orderly
  split <;> infer_instance

/-- The garbage collector keeps the parents of the lists that it keeps. -/
theorem collect_grounded (h : s.shelf.Labelled) (hg : Grounded S s.shelf.cached)
    (hkeeps : Discards S s.shelf.cached victims) : Grounded S (s.collect S victims).shelf.cached := by
  refine ⟨(mem_collect_iff h).mpr ⟨hg.root, hkeeps.root⟩, fun q hq p hp => ?_⟩
  obtain ⟨hq, hnot⟩ := (mem_collect_iff h).mp hq
  exact (mem_collect_iff h).mpr ⟨hg.closed q hq p hp, fun hvictim => hnot (hkeeps.below q hq p hp hvictim)⟩

theorem addToCache_grounded {r : ListId × EnterError × UsbTree P} (h : s.shelf.Labelled)
    (hg : Grounded S s.shelf.cached) (hthis : this ∈ s.shelf.cached)
    (hkeeps : Discards S (a.inserted.toList.map (·.1) ++ s.shelf.cached) a.collected)
    (hr : s.addToCache S a this item = .ok r) : Grounded S r.2.2.shelf.cached := by
  refine (addToCache_keeps (Q := fun t =>
    t.shelf.Labelled ∧ Grounded S t.shelf.cached ∧ Discards S t.shelf.cached a.collected)
    (fun t hQ => ?_) (fun p id hins hpar _ hfree => ?_) (fun _ _ _ _ _ _ hQ => hQ) hr
    ⟨h, hg, hkeeps.root, fun q hq => hkeeps.below q (List.mem_append_right _ hq)⟩).2.1
  · have hshrunk := collect_shrunk (S := S) a.collected t
    exact ⟨hshrunk.labelled hQ.1, collect_grounded hQ.1 hQ.2.1 hQ.2.2, hQ.2.2.root,
      fun q hq => hQ.2.2.below q (hshrunk.cached q hq)⟩
  · refine ⟨h.insert hfree, ⟨List.mem_cons_of_mem p hg.root, fun q hq r hr => ?_⟩, ?_⟩
    · rcases List.mem_cons.mp hq with rfl | hq
      · exact List.mem_cons_of_mem _ (Option.some.inj (hpar.symm.trans hr) ▸ hthis)
      · exact List.mem_cons_of_mem _ (hg.closed q hq r hr)
    · rw [hins] at hkeeps
      exact hkeeps

/-! ## Removing a device -/

/-- The list is the one with the ID, or below it. -/
def IsBelow (S : UsbSetup P) (s : UsbTree P) (id : ListId) (q : P) : Prop := ∃ p ∈ s.shelf.find id, p ∈ S.forest.path q

/-- What the removal of a device has done, of which the item linked to the list `child`: the lists below that one
have been discarded, and no others but those that the garbage collector has chosen; the device list has a new ID,
and lacks the device. -/
structure DeviceRemoved (S : UsbSetup P) (a : Answers P) (id : ℕ) (child : ListId) (s s' : UsbTree P) : Prop where
  gone : ∀ q ∈ s'.shelf.cached, q ∈ s.shelf.cached ∧ ¬ IsBelow S s child q
  kept : ∀ q ∈ s.shelf.cached, ¬ IsBelow S s child q → (∀ r ∈ s.shelf.cached, q ∉ a.unpinned (s.shelf.id r)) →
    q ∈ s'.shelf.cached
  grounded : Grounded S s'.shelf.cached
  ids : ∀ q, q ≠ S.deviceList → s'.shelf.id q = s.shelf.id q
  root : s'.devicesListId = a.newId ∧ s'.shelf.id S.deviceList = a.newId
  devices : ∀ device, device ∈ (s'.lists S.deviceList).deviceData ↔
    device ∈ (s.lists S.deviceList).deviceData ∧ device.devId ≠ id
  others : ∀ q, q ≠ S.deviceList → (s'.lists q).bare = (s.lists q).bare

/-- The device list is found, and gets its new ID. -/
theorem Rooted.of_reinsertDeviceList (h : s.Rooted S) (hroot : S.deviceList ∈ s.shelf.cached)
    (hr : s.reinsertDeviceList S a = .ok s') :
    s' = { s with shelf := s.shelf.insertAgain S.deviceList a.newId, devicesListId := a.newId } := by
  unfold UsbTree.reinsertDeviceList UsbTree.reinsertList at hr
  rw [← h.id hroot, h.labelled.find_id hroot] at hr
  obtain ⟨r, hr', hr⟩ := bind_eq_ok hr
  obtain ⟨p, hp, hr'⟩ := of_deref hr'
  obtain rfl := Option.some.inj hp
  obtain ⟨-, hr'⟩ := of_possible hr'
  obtain ⟨-, hr'⟩ := of_assert hr'
  cases hr'
  cases hr
  rfl

/-- The devices but the one with an ID. -/
theorem mem_eraseIdx_devices {devices : List DeviceItemData} (hids : (devices.map (·.devId)).Nodup) {idx : ℕ}
    {removed device : DeviceItemData} (hidx : devices[idx]? = some removed) :
    device ∈ devices.eraseIdx idx ↔ device ∈ devices ∧ device.devId ≠ removed.devId := by
  rw [List.mem_eraseIdx_iff_getElem?, List.mem_iff_getElem?]
  constructor
  · rintro ⟨i, hne, hi⟩
    exact ⟨⟨i, hi⟩, fun e => hne (idx_eq_of_nodup hids hi hidx e)⟩
  · rintro ⟨⟨i, hi⟩, hne⟩
    refine ⟨i, fun e => hne ?_, hi⟩
    rw [e, hidx] at hi
    rw [Option.some.inj hi]

/-- A device is removed from the device list, and `t` is what remains after purging. -/
theorem Settled.deviceRemoved_of_purged {items : FlatList DeviceItemData} {item : ListItem DeviceItemData} {idx : ℕ}
    {t : UsbTree P} (h : s.Settled S) (hitems : s.lists S.deviceList = .devices items) (hidx : items[idx]? = some item)
    (hshrunk : Shrunk (s.setList S.deviceList (.devices (items.eraseIdx idx))) t) (hg : Grounded S t.shelf.cached)
    (hgone : ∀ q ∈ t.shelf.cached, ¬ IsBelow S s item.child q)
    (hkept : ∀ q ∈ s.shelf.cached, ¬ IsBelow S s item.child q → (∀ r ∈ s.shelf.cached, q ∉ a.unpinned (s.shelf.id r)) →
      q ∈ t.shelf.cached) (hr : t.reinsertDeviceList S a = .ok s') :
    DeviceRemoved S a item.data.devId item.child s s' := by
  have hrooted : t.Rooted S := hshrunk.rooted (h.rooted.setList (by rw [hitems]; rfl))
  have hmem : ∀ q, q ∈ s'.shelf.cached ↔ q ∈ t.shelf.cached := fun q => mem_reinsertDeviceList hrooted.labelled hr
  have hs' := hrooted.of_reinsertDeviceList hg.root hr
  have hlists : s'.lists = t.lists := by rw [hs']
  have hdata : (t.lists S.deviceList).deviceData = (items.map (·.data)).eraseIdx idx := by
    rw [UsbList.deviceData_of_bare (hshrunk.bare _), List.eraseIdx_map]
    simp only [UsbTree.setList, Function.update_self, UsbList.deviceData]
  refine ⟨fun q hq => ⟨hshrunk.cached q ((hmem q).mp hq), hgone q ((hmem q).mp hq)⟩,
    fun q hq hnot hunpinned => (hmem q).mpr (hkept q hq hnot hunpinned), hg.congr hmem, fun q hne => ?_, ?_,
      fun device => ?_,
    fun q hne => ?_⟩
  · rw [hs']
    exact (Shelf.insert_id_of_ne hne).trans (congrFun hshrunk.id q)
  · rw [hs']
    exact ⟨rfl, Shelf.insert_id_self⟩
  · rw [hlists, hdata, hitems]
    exact mem_eraseIdx_devices (h.sound.sorted_items hitems).ids (by rw [List.getElem?_map, hidx, Option.map_some])
  · rw [hlists, hshrunk.bare]
    simp only [UsbTree.setList, Function.update_of_ne hne]

/-- The list of volumes of a device that is removed, and what is needed for purging it. -/
theorem Settled.eraseDevice {items : FlatList DeviceItemData} {idx : ℕ} (h : s.Settled S)
    (hitems : s.lists S.deviceList = .devices items)
    (hvalid : ((FlatList.links items)[idx]?.getD .invalid).isValid = true) :
    ∃ p ∈ s.shelf.cached, s.shelf.id p = (FlatList.links items)[idx]?.getD .invalid ∧
      S.forest.parent p = some S.deviceList ∧ p ≠ S.deviceList ∧
      (s.setList S.deviceList (.devices (items.eraseIdx idx))).Sound S {p} ∧
      ∀ x ∈ ({p} : Set P), ∀ q, S.forest.parent x = some q → p ∉ S.forest.path q := by
  obtain ⟨p, hp, hpar, hid, hs⟩ := h.sound.eraseDevice_linked hitems hvalid
  have hne : p ≠ S.deviceList := fun e => by
    rw [e, S.root] at hpar
    cases hpar
  refine ⟨p, hp, hid, hpar, hne, by rwa [insert_empty_eq] at hs, fun x hx q hq hmem => ?_⟩
  obtain rfl : x = p := hx
  obtain rfl := Option.some.inj (hpar.symm.trans hq)
  rw [Forest.path_of_root S.root, List.mem_singleton] at hmem
  exact hne hmem

theorem Settled.deviceRemoved {items : FlatList DeviceItemData} {item : ListItem DeviceItemData} (h : s.Settled S)
    (hg : Grounded S s.shelf.cached) (hkeeps : s.KeepsAbove S a) (hitems : s.lists S.deviceList = .devices items)
    (hitem : item ∈ items) (hr : s.deviceRemoved S a item.data.devId = .ok s') :
    DeviceRemoved S a item.data.devId item.child s s' := by
  obtain ⟨items', hitems', hget⟩ := h.rooted.getListOfUsbDevices hg.root
  obtain rfl := UsbList.devices.inj (hitems.symm.trans hitems')
  obtain ⟨idx, hidx, hdevice⟩ := getDeviceById_of_mem (h.sound.sorted_items hitems) hitem
  have hchild : (FlatList.links items)[idx]?.getD .invalid = item.child := by
    rw [FlatList.links, List.getElem?_map, hidx]
    rfl
  unfold UsbTree.deviceRemoved at hr
  rw [hget] at hr
  simp only [bind, Except.bind, hdevice, hchild] at hr
  unfold purgeDeviceSubtreeAndReinsertDeviceList at hr
  split at hr
  · next hvalid =>
    rw [← hchild] at hvalid
    obtain ⟨p, hp, hid, -, hne, hs₁, hX⟩ := h.eraseDevice hitems hvalid
    rw [hchild] at hid
    have hbelow : ∀ q, IsBelow S s item.child q ↔ p ∈ S.forest.path q := fun q => by
      unfold IsBelow
      rw [← hid, h.rooted.labelled.find_id hp]
      simp
    obtain ⟨-, hr⟩ := of_assert hr
    obtain ⟨-, hr⟩ := of_assert hr
    obtain ⟨t, hpurge, hr⟩ := bind_eq_ok hr
    rw [← hid] at hpurge
    have hpurged := hs₁.purgeSubtree_purged hg hp hne hX hpurge
    refine h.deviceRemoved_of_purged hitems hidx (hs₁.purgeSubtree hp hpurge).2 (hpurged.grounded hkeeps)
      (fun q hq => ?_) (fun q hq hnot hunpinned => ?_) hr
    · rw [hbelow]
      exact (hpurged.gone q hq).2
    · rw [hbelow] at hnot
      exact hpurged.kept q hq hnot hunpinned
  · next hinvalid =>
    have hnone : s.shelf.find item.child = none := Shelf.find_eq_none.mpr fun p hp e => by
      rw [← e, h.rooted.labelled.valid p hp] at hinvalid
      exact hinvalid rfl
    have hnot : ∀ q, ¬ IsBelow S s item.child q := fun q => by
      unfold IsBelow
      rw [hnone]
      simp
    exact h.deviceRemoved_of_purged hitems hidx (.refl _) hg (fun q _ => hnot q) (fun q hq _ _ => hq) hr

/-! ## Runs -/

/-- The directories that are entered can be read, and the cache discards lists along with the lists below. -/
def Cooperates (S : UsbSetup P) (s : UsbTree P) (call : UsbCall × Answers P) : Prop :=
  s.ReadsDirectories S call ∧ s.Orderly S call

instance (S : UsbSetup P) (s : UsbTree P) (call : UsbCall × Answers P) : Decidable (Cooperates S s call) :=
  inferInstanceAs (Decidable (_ ∧ _))

theorem Settled.step_grounded {call : UsbCall × Answers P} (h : s.Settled S) (hg : Grounded S s.shelf.cached)
    (ho : s.Orderly S call) (hstep : s.Step S call s') : Grounded S s'.shelf.cached := by
  obtain ⟨call, a⟩ := call
  cases call with
  | newUsbDevice id name usbPort => exact hg.congr fun q => mem_newUsbDevice h.rooted.labelled hstep
  | newVolume number label mountpoint deviceId => exact hg.congr fun q => mem_newVolume h.rooted.labelled hstep
  | gc =>
    cases hstep
    exact collect_grounded h.rooted.labelled hg ho
  | deviceRemoved id =>
    obtain ⟨items, hitems, hget⟩ := h.rooted.getListOfUsbDevices hg.root
    cases hdevice : getDeviceById items id with
    | none =>
      change s.deviceRemoved S a id = .ok s' at hstep
      unfold UsbTree.deviceRemoved at hstep
      rw [hget] at hstep
      simp only [bind, Except.bind, hdevice] at hstep
      cases hstep
      exact hg
    | some r =>
      obtain ⟨idx, device⟩ := r
      obtain ⟨child, hidx, rfl⟩ := of_getDeviceById hdevice
      have hitem : (⟨child, device⟩ : ListItem DeviceItemData) ∈ items := List.mem_of_getElem? hidx
      exact (h.deviceRemoved hg ho hitems hitem hstep).grounded
  | enterChild list item =>
    obtain ⟨r, hr, hs'⟩ := bind_eq_ok (x := s.enterChild S a list item) (f := fun r => .ok r.2.2) hstep
    cases hs'
    rcases h.sound.of_enterChild hr with e | ⟨this, r', hfind, hadd, e⟩
    · rwa [e]
    · rw [e]
      exact addToCache_grounded h.rooted.labelled hg (Shelf.mem_of_find hfind).1 ho hadd

/-- What holds in all runs in which the surroundings cooperate. -/
theorem run_grounded {rootId : ListId} (hvalid : rootId.isValid = true) (hcacheable : rootId.nocacheBit = false)
    {devices : List (ℕ × String × String)} {volumes : List (ℕ × VolumeInfo)} {calls : List (UsbCall × Answers P)}
    (h : Run (When (Step S) (Cooperates S)) (init S rootId devices volumes) calls s) :
    s.Settled S ∧ Grounded S s.shelf.cached := by
  refine h.invariant (P := fun s => s.Settled S ∧ Grounded S s.shelf.cached)
    (fun _ _ _ hs hstep => ⟨hs.1.step hstep.1.1 hstep.2, hs.1.step_grounded hs.2 hstep.1.2 hstep.2⟩)
    ⟨run_settled hvalid hcacheable (.nil _), List.mem_singleton_self _, fun q hq p hp => ?_⟩
  rw [List.mem_singleton.mp hq, S.root] at hp
  cases hp

/-- When a device is removed, in any state of a run, exactly the lists below its list of volumes are discarded,
apart from lists that the garbage collector has chosen meanwhile. -/
theorem device_removed_exactly {rootId : ListId} (hvalid : rootId.isValid = true)
    (hcacheable : rootId.nocacheBit = false) {devices : List (ℕ × String × String)} {volumes : List (ℕ × VolumeInfo)}
    {calls : List (UsbCall × Answers P)}
    (h : Run (When (Step S) (Cooperates S)) (init S rootId devices volumes) calls s) (hkeeps : s.KeepsAbove S a)
    {items : FlatList DeviceItemData} (hitems : s.lists S.deviceList = .devices items)
    {item : ListItem DeviceItemData} (hitem : item ∈ items) (hstep : s.Step S (.deviceRemoved item.data.devId, a) s') :
    DeviceRemoved S a item.data.devId item.child s s' ∧ Linked S s' := by
  obtain ⟨hs, hg⟩ := run_grounded hvalid hcacheable h
  have hreads : s.ReadsDirectories S (.deviceRemoved item.data.devId, a) := trivial
  exact ⟨hs.deviceRemoved hg hkeeps hitems hitem hstep, (hs.step hreads hstep).sound.linked⟩

/-- A device list, and below each list two others. -/
def forkedSetup : UsbSetup ℕ where
  forest :=
    { parent := fun n => if n = 0 then none else some ((n - 1) / 2)
      rank := id
      rank_lt := fun {p q} h => by
        split at h
        · cases h
        · cases h
          exact (Nat.div_le_self _ _).trans_lt (Nat.sub_lt (Nat.pos_of_ne_zero ‹_›) Nat.one_pos) }
  deviceList := 0
  root := rfl
  assertions := true

/-- Two devices with a volume each, of which the lists of volumes and the root directories are entered. -/
def forkedCalls : List (UsbCall × Answers ℕ) :=
  let answers (inserted : Option (ℕ × ListId)) (newId : ListId) := exampleAnswers inserted newId fun _ =>
    some (["albums"], [])
  [(.newUsbDevice 1 "stick" "1-1", answers none ⟨2⟩),
    (.newUsbDevice 2 "disk" "1-2", answers none ⟨3⟩),
    (.newVolume 1 "music" "/run/MounTA/1" 1, answers none .invalid),
    (.newVolume 2 "photos" "/run/MounTA/2" 2, answers none .invalid),
    (.enterChild ⟨3⟩ 0, answers (some (1, ⟨4⟩)) .invalid),
    (.enterChild ⟨3⟩ 1, answers (some (2, ⟨5⟩)) .invalid),
    (.enterChild ⟨4⟩ 0, answers (some (3, ⟨6⟩)) .invalid),
    (.enterChild ⟨5⟩ 0, answers (some (5, ⟨7⟩)) .invalid)]

/-- The directory of the first device is pinned, and the garbage collector discards that of the other device. -/
def unpinningAnswers : Answers ℕ :=
  { exampleAnswers none ⟨8⟩ fun _ => none with unpinned := fun id => if id = ⟨6⟩ then [5] else [] }

theorem device_removed_exactly_forked : ∃ (s s' : UsbTree ℕ) (data : DeviceItemData), s.shelf.cached = [5, 3, 2, 1, 0] ∧
    s'.shelf.cached = [0, 2] ∧ DeviceRemoved forkedSetup unpinningAnswers data.devId ⟨4⟩ s s' ∧
      Linked forkedSetup s' := by
  obtain ⟨s, hrun, hs⟩ := Run.of_exec_any (fun _ _ _ => step_of_toOption)
    (show (exec (fun s c => (s.run forkedSetup c.2 c.1).toOption) (Cooperates forkedSetup) forkedCalls
      (init forkedSetup ⟨1⟩ [] [])).any (fun s =>
        s.shelf.cached = [5, 3, 2, 1, 0] ∧ s.KeepsAbove forkedSetup unpinningAnswers ∧
        ((s.lists 0).links = [⟨4⟩, ⟨5⟩] ∧ (s.lists 0).deviceData.map (·.devId) = [1, 2]) ∧
        (s.run forkedSetup unpinningAnswers (.deviceRemoved 1)).toOption.any (fun s' => s'.shelf.cached = [0, 2])) =
          true
      by decide +kernel)
  obtain ⟨hcached, hkeeps, ⟨hlinks, hdata⟩, hstep⟩ := of_decide_eq_true hs
  obtain ⟨s', hstep, hcached'⟩ := Option.any_eq_true _ _ |>.mp hstep
  cases hlist : s.lists 0 with
  | volumes _ => rw [hlist] at hdata; cases hdata
  | dir _ => rw [hlist] at hdata; cases hdata
  | devices items =>
    rw [hlist] at hlinks hdata
    obtain ⟨item, rest, rfl⟩ : ∃ item rest, items = item :: rest := List.exists_cons_of_ne_nil fun e => by
      rw [e] at hlinks
      cases hlinks
    obtain ⟨hchild, -⟩ := List.cons.inj hlinks
    have hid : item.data.devId = 1 := (List.cons.inj hdata).1
    have hstep : s.Step forkedSetup (.deviceRemoved 1, unpinningAnswers) s' := step_of_toOption hstep
    rw [← hid] at hstep
    refine ⟨s, s', item.data, hcached, of_decide_eq_true hcached', hchild ▸ ?_⟩
    exact device_removed_exactly (by decide) (by decide) hrun hkeeps hlist List.mem_cons_self hstep

end UsbTree

end Listbrokers.Tree
