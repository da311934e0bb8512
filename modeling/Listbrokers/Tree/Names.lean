import Listbrokers.Tree.Descent

/-!
# Names of items that are found

Whatever `realize` finds for a key has the names that it has been looking for, also
where several items of a list have the same name. The lists on the way to the item
stay in the tree as long as the cache discards nothing (`Grows`).
-/

namespace Listbrokers.Tree

open Framework Tiles

variable {P R : Type} {T : UsbSetup P} {a : Answers P} {s t u : UsbTree P} {p q this : P} {item : ℕ}
  {listId child : ListId} {error : EnterError}

/-! ## Trees that grow -/

namespace UsbTree

/-- What holds in all runs. -/
structure Regular (T : UsbSetup P) (s : UsbTree P) : Prop where
  sound : ∃ X, s.Sound T X
  levelled : s.Levelled T
  rooted : s.Rooted T

theorem Settled.regular (h : s.Settled T) : s.Regular T := ⟨⟨∅, h.sound⟩, h.levelled, h.rooted⟩

theorem Regular.enterChild [DecidableEq P] (h : s.Regular T)
    (hr : s.enterChild T a listId item = .ok (child, error, t)) : t.Regular T := by
  have hstep : s.Step T (.enterChild listId item, a) t := by
    change (·.2.2) <$> s.enterChild T a listId item = .ok t
    rw [hr]
    rfl
  obtain ⟨X, hsound⟩ := h.sound
  obtain ⟨X', hsound', -⟩ := hsound.step hstep
  exact ⟨⟨X', hsound'⟩, step_levelled h.levelled hstep, step_rooted h.rooted hstep⟩

/-- Lists have been added, and items without link have got one. -/
structure Grows (s t : UsbTree P) : Prop where
  kept : ∀ q ∈ s.shelf.cached, s.Kept t q
  links : ∀ q ∈ s.shelf.cached, ∀ (idx : ℕ) (id : ListId), (s.lists q).links[idx]? = some id → id.isValid = true →
    (t.lists q).links[idx]? = some id

theorem Grows.refl (s : UsbTree P) : s.Grows s := ⟨fun _ hq => ⟨hq, rfl, rfl⟩, fun _ _ _ _ h _ => h⟩

/-- What `add_to_cache` does to the lists that are there already, if nothing is discarded. -/
theorem addToCache_same [DecidableEq P] {r : ListId × EnterError × UsbTree P} (hnothing : a.collected = [])
    (hr : s.addToCache T a this item = .ok r) (hq : q ∈ s.shelf.cached) :
    q ∈ r.2.2.shelf.cached ∧ r.2.2.shelf.id q = s.shelf.id q ∧ r.2.2.lists q = s.lists q := by
  have hne : ∀ {p}, s.shelf.Unused T.forest p → q ≠ p := fun hunused e => hunused q hq (e ▸ Forest.mem_path_self)
  refine addToCache_keeps (Q := fun t => q ∈ t.shelf.cached ∧ t.shelf.id q = s.shelf.id q ∧ t.lists q = s.lists q)
    (fun t hQ => ?_) (fun p id _ _ hunused _ => ?_) (fun t p items _ hunused _ hQ => ?_) hr ⟨hq, rfl, rfl⟩
  · rw [hnothing]
    exact hQ
  · exact ⟨List.mem_cons_of_mem p hq, Shelf.insert_id_of_ne (hne hunused), rfl⟩
  · exact ⟨hQ.1, hQ.2.1, (Function.update_of_ne (hne hunused) ..).trans hQ.2.2⟩

/-- An item that has a link is not given another one, and an item that has been entered has one. -/
theorem Regular.enterChild_grows [DecidableEq P] (h : s.Regular T) (hnothing : a.collected = [])
    (hr : s.enterChild T a listId item = .ok (child, error, t)) :
    s.Grows t ∧ (child.isValid = true → ∀ this ∈ s.shelf.find listId, (t.lists this).links[item]? = some child) := by
  obtain ⟨X, hsound⟩ := h.sound
  unfold UsbTree.enterChild at hr
  cases hlist : s.shelf.find listId with
  | none =>
    rw [hlist] at hr
    cases hr
    exact ⟨.refl s, nofun⟩
  | some this =>
    rw [hlist] at hr
    dsimp only at hr
    by_cases hcontinue : a.mayContinue = true
    · cases hlink : (s.lists this).links[item]? with
      | none =>
        unfold UsbTree.enterChildTemplate at hr
        rw [if_pos hcontinue, hlink] at hr
        cases hr
        exact ⟨.refl s, nofun⟩
      | some old =>
        by_cases hold : old.isValid = true ∧ old.nocacheBit = false
        · unfold UsbTree.enterChildTemplate at hr
          rw [if_pos hcontinue, hlink] at hr
          dsimp only at hr
          rw [if_pos hold] at hr
          cases hr
          refine ⟨.refl s, fun _ this' hthis => ?_⟩
          cases hthis
          exact hlink
        · have hinvalid := hsound.link_invalid hlink hold
          rw [enterChildTemplate_unlinked hcontinue hlink hinvalid] at hr
          obtain ⟨⟨newId, error', s₁⟩, hadd, hr⟩ := bind_eq_ok hr
          obtain ⟨s₂, hset, hr⟩ := bind_eq_ok hr
          cases hr
          have hsame := fun q hq => addToCache_same hnothing hadd (q := q) hq
          have hthis := hsame this (Shelf.mem_of_find hlist).1
          dsimp only at hsame hthis hset
          split at hset
          · -- the new link
            unfold UsbTree.setChildList at hset
            obtain ⟨-, hset⟩ := of_assert hset
            obtain ⟨-, hset⟩ := of_assert hset
            cases hset
            have hlinks : (UsbTree.setList s₁ this ((s₁.lists this).setLink item newId)).lists this =
                (s.lists this).setLink item newId := by
              simp only [UsbTree.setList, Function.update_self, hthis.2.2]
            refine ⟨⟨fun q hq => ?_, fun q hq idx id hid hvalid => ?_⟩, fun _ this' hthis' => ?_⟩
            · obtain ⟨hcached, hid, hlists⟩ := hsame q hq
              exact ⟨hcached, hid, (setList_bare (UsbList.bare_setLink ..) q).trans (by rw [hlists])⟩
            · obtain ⟨-, -, hlists⟩ := hsame q hq
              by_cases e : q = this
              · subst e
                have hne : item ≠ idx := fun e => by
                  rw [← e, hlink] at hid
                  rw [← Option.some.inj hid, hinvalid] at hvalid
                  cases hvalid
                rwa [hlinks, UsbList.links_setLink, List.getElem?_set_ne hne]
              · simpa only [UsbTree.setList, Function.update_of_ne e, hlists] using hid
            · cases hthis'
              rw [hlinks, UsbList.links_setLink]
              exact List.getElem?_set_self (List.getElem?_eq_some_iff.mp hlink).1
          · next hnot =>
            cases hset
            refine ⟨⟨fun q hq => ?_, fun q hq idx id hid _ => ?_⟩, fun hvalid => absurd (.inl hvalid) hnot⟩
            · obtain ⟨hcached, hid, hlists⟩ := hsame q hq
              exact ⟨hcached, hid, by rw [hlists]⟩
            · rwa [(hsame q hq).2.2]
    · unfold UsbTree.enterChildTemplate at hr
      rw [if_neg hcontinue] at hr
      cases hr
      exact ⟨.refl s, nofun⟩

theorem attachNewDirlist_invalid [DecidableEq P] {path : String} {r : ListId × EnterError × UsbTree P}
    (hr : s.attachNewDirlist T a this path = .ok r) (hinvalid : r.1.isValid = false) : r.2.1 ≠ .ok := by
  unfold UsbTree.attachNewDirlist at hr
  obtain ⟨⟨id, s₁⟩, -, hr⟩ := bind_eq_ok hr
  dsimp only at hr
  split at hr
  · cases hr
    nofun
  · next hvalid =>
    obtain ⟨p, -, hr⟩ := of_deref hr
    split at hr
    · cases hr
      nofun
    · cases hr
      exact absurd hinvalid hvalid

/-- There is an error if no list has been made. -/
theorem addToCache_invalid [DecidableEq P] {r : ListId × EnterError × UsbTree P}
    (hr : s.addToCache T a this item = .ok r) (hinvalid : r.1.isValid = false) : r.2.1 ≠ .ok := by
  unfold UsbTree.addToCache at hr
  split at hr
  · obtain ⟨device, -, hr⟩ := of_deref hr
    unfold UsbTree.addVolumeList at hr
    obtain ⟨⟨id, s₁⟩, -, hr⟩ := bind_eq_ok hr
    dsimp only at hr
    split at hr
    · cases hr
      nofun
    · next hvalid =>
      obtain ⟨p, -, hr⟩ := of_deref hr
      cases hr
      exact absurd hinvalid hvalid
  · obtain ⟨volume, -, hr⟩ := of_deref hr
    obtain ⟨path, -, hr⟩ := bind_eq_ok hr
    exact attachNewDirlist_invalid hr hinvalid
  · obtain ⟨entry, -, hr⟩ := of_deref hr
    unfold UsbTree.addDirectory at hr
    split at hr
    · obtain ⟨path, -, hr⟩ := bind_eq_ok hr
      cases path with
      | none =>
        cases hr
        nofun
      | some path => exact attachNewDirlist_invalid hr hinvalid
    · cases hr
      nofun

/-- There is an error if no list is entered. -/
theorem enterChild_invalid [DecidableEq P] (hr : s.enterChild T a listId item = .ok (child, error, t))
    (hinvalid : child.isValid = false) : error ≠ .ok := by
  unfold UsbTree.enterChild at hr
  split at hr
  · cases hr
    nofun
  · unfold UsbTree.enterChildTemplate at hr
    split at hr
    · split at hr
      · cases hr
        nofun
      · split at hr
        · next hvalid =>
          cases hr
          rw [hvalid.1] at hinvalid
          cases hinvalid
        · obtain ⟨⟨newId, error', s₁⟩, hadd, hr⟩ := bind_eq_ok hr
          obtain ⟨s₂, -, hr⟩ := bind_eq_ok hr
          cases hr
          exact addToCache_invalid hadd hinvalid
    · cases hr
      nofun

end UsbTree

namespace Trail

variable {place parent : Place P} {above places : List (Place P)}

/-- A trail stays where it is. -/
theorem grows (hs : s.Rooted T) (ht : t.Rooted T) (hgrows : s.Grows t) (h : Trail T s places) : Trail T t places := by
  induction h with
  | device hroot hname =>
    have hkept := hgrows.kept _ hroot
    exact .device hkept.cached ((hkept.getItemName hs ht hroot hkept ..).trans hname)
  | child hp hpar hlink hname habove ih =>
    have hkept := hgrows.kept _ hp
    refine .child hkept.cached hpar ?_
      (((hgrows.kept _ habove.root).getItemName hs ht habove.root hkept ..).trans hname) ih
    rw [hkept.id]
    exact hgrows.links _ habove.cached _ _ hlink (hs.labelled.valid _ hp)

/-- A trail may go on in the list that is linked at its end. -/
theorem goesOn (hlevelled : s.Levelled T) (h : Trail T s (parent :: above)) (hp : p ∈ s.shelf.cached)
    (hpar : T.forest.parent p = some parent.list)
    (hlink : (s.lists parent.list).links[parent.item]? = some (s.shelf.id p)) :
    (s.lists p).kind = levelKind (above.length + 1) ∧
      ∀ item name, s.getItemName (levelKind (above.length + 1)) p item = .ok name →
        Trail T s (⟨p, item, name⟩ :: parent :: above) := by
  refine ⟨?_, fun item name hname => .child hp hpar hlink hname h⟩
  rw [hlevelled p hp _ hpar, h.kind]
  cases above with
  | nil => rfl
  | cons place above => cases above <;> rfl

end Trail

/-! ## Items that are found -/

/-- The walk has found the item at the end of a trail. -/
structure Walk.At (T : UsbSetup P) (w : Walk P RealizeUrlResult) (place : Place P) (above : List (Place P)) : Prop where
  trail : Trail T w.tree (place :: above)
  listId : w.result.listId = w.tree.shelf.id place.list
  itemId : w.result.itemId = place.item

/-- The walk has entered the item that it has found. -/
structure Walk.Inside (T : UsbSetup P) (w : Walk P RealizeUrlResult) (place : Place P) (above : List (Place P)) : Prop
    extends w.At T place above where
  regular : w.tree.Regular T
  inside : ∃ p ∈ w.tree.shelf.cached, w.tree.shelf.id p = w.dirListId ∧ T.forest.parent p = some place.list ∧
    (w.tree.lists place.list).links[place.item]? = some w.dirListId

section

variable {S : PathSetup P} {place parent : Place P} {above : List (Place P)} {w w' : Walk P RealizeUrlResult}
  {autoSearch isLastComponent goesOn : Bool}
  {foundItem : ListId → ℕ → PathItemKind → RealizeUrlResult → LocationError × RealizeUrlResult}
  {range range' : ℕ × ℕ} {component : String}

/-- An item at the end of a trail is entered. -/
theorem UsbTree.Regular.enterChild_trail [DecidableEq P] (h : s.Regular T) (hnothing : a.collected = [])
    (htrail : Trail T s (place :: above))
    (hr : s.enterChild T a (s.shelf.id place.list) place.item = .ok (child, error, t)) :
    Trail T t (place :: above) ∧ t.shelf.id place.list = s.shelf.id place.list ∧ (child.isValid = true →
      ∃ p ∈ t.shelf.cached, t.shelf.id p = child ∧ T.forest.parent p = some place.list ∧
        (t.lists place.list).links[place.item]? = some child) := by
  obtain ⟨hgrows, hlinks⟩ := h.enterChild_grows hnothing hr
  obtain ⟨X, hsound⟩ := h.sound
  refine ⟨htrail.grows h.rooted (h.enterChild hr).rooted hgrows, (hgrows.kept _ htrail.cached).id, fun hvalid => ?_⟩
  obtain ⟨this, hthis, p, hp, hid, hpar⟩ := hsound.enterChild_valid hr hvalid
  have hlink := hlinks hvalid this hthis
  obtain rfl := Option.some.inj ((h.rooted.labelled.find_id htrail.cached).symm.trans hthis)
  exact ⟨p, hp, hid, hpar, hlink⟩

/-- A component leads to an item of this name. -/
theorem Walk.Inside.followComponent [DecidableEq P] (h : w.Inside S.tree parent above) (habove : above ≠ [])
    (hnothing : ∀ n, (S.answers n).collected = [])
    (hset : ∀ listId item kind r, (foundItem listId item kind r).1 = .enter .ok →
      (foundItem listId item kind r).2.listId = listId ∧ (foundItem listId item kind r).2.itemId = item)
    (hrange : autoSearch = true ∨ range = (0, 0))
    (hr : followComponent S autoSearch foundItem component isLastComponent range w =
      .ok (goesOn, .enter .ok, range', w')) :
    goesOn = true ∧ (autoSearch = false → range' = (0, 0)) ∧
      ∃ place kind r, place.name = component ∧ w'.At S.tree place (parent :: above) ∧
      (foundItem w.dirListId place.item (.entry kind) r).1 = .enter .ok ∧
      match kind with
      | .directory => w'.Inside S.tree place (parent :: above)
      | .regularFile => isLastComponent = true := by
  obtain ⟨p, hp, hid, hpar, hlink⟩ := h.inside
  obtain ⟨hkind, hgoesOn⟩ := h.trail.goesOn h.regular.levelled hp hpar (hid ▸ hlink)
  have hdir : levelKind (above.length + 1) = .dir := by
    cases above with
    | nil => exact absurd rfl habove
    | cons _ _ => rfl
  have hfind : w.tree.shelf.find w.dirListId = some p := hid ▸ h.regular.rooted.labelled.find_id hp
  rw [hdir] at hkind hgoesOn
  cases hlist : w.tree.lists p with
  | devices items => rw [hlist] at hkind; cases hkind
  | volumes items => rw [hlist] at hkind; cases hkind
  | dir items =>
    obtain ⟨search, range'', hlookup, hsound, -, hrange'⟩ := lookupComponent_dir S component hfind hlist hrange
    unfold Tree.followComponent at hr
    rw [hlookup] at hr
    dsimp only [bind, Except.bind, pure, Except.pure] at hr
    rw [if_neg (not_not_intro rfl)] at hr
    split at hr
    · cases hr
    · next hfound =>
      obtain ⟨entry, hentry, hname, hkind'⟩ := hsound (by simpa using hfound)
      have htrail := hgoesOn (search.idx % 2 ^ 32) component (by
        unfold UsbTree.getItemName
        rw [hlist]
        simp only [hentry, deref, bind, Except.bind, hname]
        rfl)
      obtain ⟨⟨goesOn', error, w₁⟩, hfollow, hr⟩ := bind_eq_ok hr
      cases hr
      unfold followFound at hfollow
      rw [hkind'] at hfollow
      cases hentryKind : entry.data.kind with
      | directory =>
        rw [hentryKind] at hfollow
        dsimp only at hfollow
        rw [if_pos (by rfl)] at hfollow
        obtain ⟨⟨nextId, error, tree⟩, henter, hfollow⟩ := bind_eq_ok hfollow
        dsimp only at hfollow
        split at hfollow
        · next hinvalid =>
          have herror := UsbTree.enterChild_invalid henter hinvalid
          cases hfollow
          exact absurd rfl herror
        · next hvalid =>
          obtain ⟨hgoesOn', hpair⟩ := Prod.mk.inj (Except.ok.inj hfollow)
          obtain ⟨hfound', hw⟩ := Prod.mk.inj hpair
          obtain ⟨hlistId, hitemId⟩ := hset _ _ _ _ hfound'
          obtain ⟨htrail', hid', hinside⟩ := h.regular.enterChild_trail (hnothing _) htrail (hid ▸ henter)
          have hat : w₁.At S.tree ⟨p, search.idx % 2 ^ 32, component⟩ (parent :: above) := by
            rw [← hw]
            exact ⟨htrail', hlistId.trans (hid'.trans hid).symm, hitemId⟩
          refine ⟨hgoesOn'.symm, hrange', _, .directory, w.result, rfl, hat, hfound', hat, ?_, ?_⟩
          · rw [← hw]
            exact h.regular.enterChild henter
          · rw [← hw]
            exact hinside (by simpa using hvalid)
      | regularFile =>
        rw [hentryKind] at hfollow
        dsimp only at hfollow
        rw [if_neg (by simp [PathItemKind.isDirectory])] at hfollow
        obtain ⟨hgoesOn', hpair⟩ := Prod.mk.inj (Except.ok.inj hfollow)
        obtain ⟨herror, hw⟩ := Prod.mk.inj hpair
        split at herror
        · cases herror
        · next hlast =>
          obtain ⟨hlistId, hitemId⟩ := hset _ _ _ _ herror
          refine ⟨hgoesOn'.symm, hrange', ⟨p, search.idx % 2 ^ 32, component⟩, .regularFile, w.result, rfl,
            ⟨?_, ?_, ?_⟩, herror, ?_⟩
          · rw [← hw]
            exact htrail
          · rw [← hw]
            exact hlistId.trans hid.symm
          · rw [← hw]
            exact hitemId
          · rw [herror] at hlast
            simpa [LocationError.failed] using hlast

theorem followComponents_failed [DecidableEq P] {error : LocationError} (h : error.failed = true)
    (path : List (List Char)) :
    followComponents S autoSearch foundItem path error range w = pure (error, w) := by
  cases path with
  | nil => rfl
  | cons component rest => exact if_pos h

/-- A path leads to an item with the names of the path, and into it if it must be a directory. -/
theorem Walk.Inside.followComponents [DecidableEq P] (h : w.Inside S.tree parent above) (habove : above ≠ [])
    (hnothing : ∀ n, (S.answers n).collected = [])
    (hset : ∀ listId item kind r, (foundItem listId item kind r).1 = .enter .ok →
      (foundItem listId item kind r).2.listId = listId ∧ (foundItem listId item kind r).2.itemId = item)
    (hrange : autoSearch = true ∨ range = (0, 0)) {path : List (List Char)}
    (hr : followComponents S autoSearch foundItem path (.enter .ok) range w = .ok (.enter .ok, w')) :
    ∃ place above', (place :: above').map (·.name) =
      (path.map String.ofList).reverse ++ (parent :: above).map (·.name) ∧
      above' ≠ [] ∧ w'.At S.tree place above' ∧
      ((∀ listId item r, (foundItem listId item (.entry .regularFile) r).1 ≠ .enter .ok) →
        w'.Inside S.tree place above') := by
  induction path generalizing parent above w range with
  | nil =>
    cases hr
    exact ⟨parent, above, rfl, habove, h.toAt, fun _ => h⟩
  | cons component rest ih =>
    rw [Tree.followComponents, if_neg (by decide)] at hr
    obtain ⟨⟨goesOn, error, range', w₁⟩, hcomponent, hr⟩ := bind_eq_ok hr
    dsimp only at hr
    have herror : error = .enter .ok := by
      by_contra hne
      rw [followComponents_failed (by simpa [LocationError.failed] using hne), ite_self] at hr
      cases hr
      exact hne rfl
    subst herror
    obtain ⟨rfl, hrange', place, kind, r, hname, hat, hfound, hkind⟩ :=
      h.followComponent habove hnothing hset hrange hcomponent
    rw [if_pos rfl] at hr
    have hnames : ((component :: rest).map String.ofList).reverse ++ (parent :: above).map (·.name) =
        (rest.map String.ofList).reverse ++ (place :: parent :: above).map (·.name) := by
      simp [hname]
    rw [hnames]
    cases kind with
    | directory =>
      refine ih hkind (List.cons_ne_nil _ _) ?_ hr
      rcases hrange with hrange | -
      · exact .inl hrange
      · by_cases hauto : autoSearch = true
        · exact .inl hauto
        · exact .inr (hrange' (by simpa using hauto))
    | regularFile =>
      obtain rfl : rest = [] := by simpa using hkind
      cases hr
      exact ⟨place, parent :: above, rfl, List.cons_ne_nil _ _, hat, fun hdir => absurd hfound (hdir _ _ _)⟩

/-- An iteration keeps an invariant up to the item at which it stops. -/
theorem forEachAccessed_induct {α β : Type} {items : List α} {apply : β → ℕ → α → Bool × β} {I : ℕ → β → Prop}
    {Q : β → Prop} (hgoesOn : ∀ i b x b', I i b → items[i % 2 ^ 32]? = some x → apply b (i % 2 ^ 32) x = (true, b') →
      I (i + 1) b')
    (hstops : ∀ i b x b', I i b → items[i % 2 ^ 32]? = some x → apply b (i % 2 ^ 32) x = (false, b') → Q b')
    (hend : ∀ i b, I i b → Q b) {left i : ℕ} {b : β} (h : I i b) : Q (forEachAccessed items apply left i b) := by
  induction left generalizing i b with
  | zero => exact hend i b h
  | succ left ih =>
    rw [forEachAccessed]
    split
    · exact hend i b h
    · next x hx =>
      cases hr : apply b (i % 2 ^ 32) x with
      | mk goesOn b' =>
        cases goesOn with
        | true => exact ih (hgoesOn i b x b' h hx hr)
        | false => exact hstops i b x b' h hx hr

/-- An item that is found has the name. -/
theorem forEachNamed_sound {α : Type} {items : FlatList α} {name : α → Except Fault String} {kind : α → PathItemKind}
    {first count : ℕ} {k : PathItemKind} {search : Search}
    (hr : forEachNamed S items first count name kind (Search.visit component) ⟨false, first, k⟩ = .ok search)
    (hfound : search.found = true) :
    ∃ item, items[search.idx % 2 ^ 32]? = some item ∧ name item.data = .ok component := by
  let Q (b : Except Fault Search) : Prop := ∀ search, b = .ok search → search.found = true →
    ∃ item, items[search.idx % 2 ^ 32]? = some item ∧ name item.data = .ok component
  have hnot : ∀ i b, b = .ok ⟨false, i, k⟩ → Q b := by
    rintro i _ rfl search ⟨⟩
    nofun
  have hvisit : ∀ {i : ℕ} {n : String} {k' : PathItemKind}, Search.visit component ⟨false, i, k⟩ n k' =
      if n = component then (false, ⟨true, i, k'⟩) else (true, ⟨false, i + 1, k⟩) := rfl
  suffices hQ : Q (forEachNamed S items first count name kind (Search.visit component) ⟨false, first, k⟩) from
    hQ search hr hfound
  unfold forEachNamed forEachItem
  dsimp only
  split
  · exact hnot first _ rfl
  · refine forEachAccessed_induct (I := fun i b => b = .ok ⟨false, i, k⟩) ?_ ?_ hnot rfl
    · rintro i _ x b' rfl hx happly
      cases hname : name x.data with
      | error fault =>
        simp only [hname] at happly
        cases happly
      | ok n =>
        simp only [hname, hvisit] at happly
        split at happly <;> cases happly
        rfl
    · rintro i _ x b' rfl hx happly
      cases hname : name x.data with
      | error fault =>
        simp only [hname] at happly
        cases happly
        exact nofun
      | ok n =>
        simp only [hname, hvisit] at happly
        split at happly
        · next e =>
          cases happly
          rintro search ⟨⟩ -
          exact ⟨x, hx, hname.trans (congrArg _ e)⟩
        · cases happly

theorem forEach_sound {items : FlatList VolumeItemData} {search : Search} {k : PathItemKind}
    (hfind : s.shelf.find listId = some p)
    (hlist : s.lists p = .volumes items)
    (hr : s.forEach S listId 0 0 (Search.visit component) ⟨false, 0, k⟩ = .ok (error, search))
    (hfound : search.found = true) : s.getItemName .volumes p (search.idx % 2 ^ 32) = .ok component := by
  unfold UsbTree.forEach at hr
  rw [hfind] at hr
  dsimp only at hr
  rw [hlist] at hr
  dsimp only at hr
  cases hsearch : forEachNamed S items 0 0 s.getVolumeName (fun _ => .storageDevice) (Search.visit component)
    ⟨false, 0, k⟩ with
  | error fault =>
    rw [hsearch] at hr
    cases hr
  | ok search' =>
    rw [hsearch] at hr
    cases hr
    obtain ⟨item, hitem, hname⟩ := forEachNamed_sound hsearch hfound
    unfold UsbTree.getItemName
    rw [hlist]
    simp only [hitem, deref, bind, Except.bind, hname]

theorem getDeviceByName_sound {items : FlatList DeviceItemData} {name : String} {idx : ℕ}
    (hsize : items.length < 2 ^ 32) (h : getDeviceByName items name = some idx) :
    ∃ device, items[idx]? = some device ∧ device.data.displayName = name := by
  unfold getDeviceByName at h
  obtain ⟨idx', hfind, rfl⟩ := Option.map_eq_some_iff.mp h
  obtain ⟨hlt, hname, -⟩ := List.findIdx?_eq_some_iff_getElem.mp hfind
  rw [Nat.mod_eq_of_lt (by omega)]
  exact ⟨_, List.getElem?_eq_getElem hlt, by simpa using hname⟩

/-- The device, or the volume, that has been entered has the name. -/
theorem Walk.enterVolume_found [DecidableEq P] (hregular : w.tree.Regular S.tree) (hsize : w.tree.FitsItemIds)
    (hnothing : ∀ n, (S.answers n).collected = []) {deviceName volumeName : String}
    (hr : enterVolume S deviceName volumeName w = .ok (.enter .ok, w')) :
    (volumeName = "" ∧ w'.dirListId = w.dirListId ∧ ∃ device, device.name = deviceName ∧ w'.At S.tree device []) ∨
      (volumeName ≠ "" ∧ ∃ volume device, volume.name = volumeName ∧ device.name = deviceName ∧
        w'.Inside S.tree volume [device]) := by
  unfold enterVolume at hr
  split at hr
  · cases hr
  obtain ⟨⟨deviceList, devices⟩, hdevices, hr⟩ := bind_eq_ok hr
  dsimp only at hr
  cases hname : getDeviceByName devices deviceName with
  | none =>
    rw [hname] at hr
    cases hr
  | some deviceIndex =>
    rw [hname] at hr
    dsimp only at hr
    obtain ⟨⟨volumesListId, error, tree⟩, henter, hr⟩ := bind_eq_ok hr
    dsimp only at hr
    have hdevice : Trail S.tree w.tree [⟨deviceList, deviceIndex, deviceName⟩] := by
      obtain ⟨hfind, hitems⟩ := UsbTree.of_getListOfUsbDevices hdevices
      obtain ⟨X, hsound⟩ := hregular.sound
      obtain rfl := hsound.devices _ _ hitems
      have hroot := (Shelf.mem_of_find hfind).1
      have hlength := hsize _ hroot
      rw [hitems, UsbList.links, FlatList.links, List.length_map] at hlength
      obtain ⟨device, hdevice, hdeviceName⟩ := getDeviceByName_sound hlength hname
      refine .device hroot ?_
      unfold UsbTree.getItemName
      rw [hitems]
      simp only [hdevice, deref, bind, Except.bind, hdeviceName]
      rfl
    obtain ⟨htrail, hid, hinside⟩ := hregular.enterChild_trail (hnothing _) hdevice henter
    have hregular₁ := hregular.enterChild henter
    split at hr
    · next hinvalid =>
      have herror := UsbTree.enterChild_invalid henter hinvalid
      cases hr
      exact absurd rfl herror
    next hvalid =>
    obtain ⟨p, hp, hpid, hpar, hlink⟩ := hinside (by simpa using hvalid)
    obtain ⟨hkind, hgoesOn⟩ := htrail.goesOn hregular₁.levelled hp hpar (hpid ▸ hlink)
    change (tree.lists p).kind = .volumes at hkind
    split at hr
    · next hvolume =>
      dsimp only [bind, Except.bind, pure, Except.pure] at hr
      rw [if_pos (.inr rfl), if_pos (.inr hvolume)] at hr
      cases hr
      exact .inl ⟨hvolume, rfl, ⟨deviceList, deviceIndex, deviceName⟩, rfl, htrail, hid.symm, rfl⟩
    · next hvolume =>
      obtain ⟨⟨error', search⟩, hsearch, hr⟩ := bind_eq_ok hr
      dsimp only at hr
      split at hr
      · next hnot =>
        split at hr
        · next herror =>
          cases hr
          exact absurd rfl (herror.resolve_right hvolume)
        · cases hr
      · next hfound =>
        obtain ⟨-, hfound⟩ := not_or.mp hfound
        have hvolumeTrail : Trail S.tree tree
            [⟨p, search.idx % 2 ^ 32, volumeName⟩, ⟨deviceList, deviceIndex, deviceName⟩] := by
          have hfind : tree.shelf.find volumesListId = some p := hpid ▸ hregular₁.rooted.labelled.find_id hp
          cases hlist : tree.lists p with
          | devices items => rw [hlist] at hkind; cases hkind
          | dir items => rw [hlist] at hkind; cases hkind
          | volumes items => exact hgoesOn _ _ (forEach_sound hfind hlist hsearch (by simpa using hfound))
        obtain ⟨⟨rootdirListId, error'', tree'⟩, henter', hr⟩ := bind_eq_ok hr
        dsimp only at hr
        obtain ⟨htrail', hid', hinside'⟩ := hregular₁.enterChild_trail (hnothing _) hvolumeTrail (hpid ▸ henter')
        split at hr
        · next hvalid' =>
          cases hr
          exact .inr ⟨hvolume, _, _, rfl, rfl, ⟨htrail', hpid.symm.trans hid'.symm, rfl⟩, hregular₁.enterChild henter',
            hinside' hvalid'⟩
        · next hinvalid =>
          have herror := UsbTree.enterChild_invalid henter' (by simpa using hinvalid)
          cases hr
          exact absurd rfl herror

/-- The names in a path. -/
def pathNames (path : String) : List String := (components path.toList).map String.ofList

theorem pathNames_empty : pathNames "" = [] := by rw [pathNames, String.toList_empty, components_nil, List.map_nil]

/-- Both parts have been successful. -/
theorem of_andThen {follow : Walk P R → Except Fault (LocationError × Walk P R)} {r : LocationError × Walk P R}
    {w : Walk P R} (h : andThen follow r = .ok (.enter .ok, w)) :
    r.1 = .enter .ok ∧ follow r.2 = .ok (.enter .ok, w) := by
  unfold andThen at h
  split at h
  · next hfailed =>
    cases h
    cases hfailed
  · next hok => exact ⟨by simpa [LocationError.failed] using hok, h⟩

/-- Nothing is followed from a device on. -/
theorem of_followPath_invalid [DecidableEq P] {path : String} (hinvalid : w.dirListId.isValid = false)
    (hr : followPath S autoSearch foundItem path.toList range w = .ok (.enter .ok, w')) : path = "" ∧ w' = w := by
  unfold followPath at hr
  rw [if_neg (by simp [hinvalid])] at hr
  split at hr
  · next hpath =>
    cases hr
    exact ⟨String.toList_eq_nil_iff.mp hpath, rfl⟩
  · cases hr

/-- The path from a volume or a directory on leads to an item with its names. -/
theorem Walk.Inside.followPath [DecidableEq P] (h : w.Inside S.tree parent above) (habove : above ≠ [])
    (hnothing : ∀ n, (S.answers n).collected = [])
    (hset : ∀ listId item kind r, (foundItem listId item kind r).1 = .enter .ok →
      (foundItem listId item kind r).2.listId = listId ∧ (foundItem listId item kind r).2.itemId = item)
    (hrange : autoSearch = true ∨ range = (0, 0)) {path : String}
    (hr : followPath S autoSearch foundItem path.toList range w = .ok (.enter .ok, w')) :
    ∃ place above', (place :: above').map (·.name) = (pathNames path).reverse ++ (parent :: above).map (·.name) ∧
      above' ≠ [] ∧ w'.At S.tree place above' ∧
      ((∀ listId item r, (foundItem listId item (.entry .regularFile) r).1 ≠ .enter .ok) →
        w'.Inside S.tree place above') := by
  obtain ⟨p, hp, hid, -⟩ := h.inside
  rw [followPath_components _ _ (hid ▸ h.regular.rooted.labelled.valid _ hp)] at hr
  exact h.followComponents habove hnothing hset hrange hr

/-- The names of the item that a key is about, and of the items above it. -/
def keyNames (device partition path itemName : String) : List String :=
  (pathNames itemName).reverse ++
    ((pathNames path).reverse ++ ((if partition = "" then [] else [partition]) ++ [device]))

/-- What a simple key leads to has the names of the key. -/
theorem realizeSimple_found [DecidableEq P] (hs : s.Regular S.tree) (hsize : s.FitsItemIds)
    (hnothing : ∀ n, (S.answers n).collected = []) {key : LocationKeySimple}
    (hr : realizeSimple S key (.start s) = .ok (.enter .ok, w)) :
    ∃ place above, (place :: above).map (·.name) = keyNames key.device key.partition key.path "" ∧
      w.At S.tree place above := by
  unfold realizeSimple at hr
  obtain ⟨⟨error, w₁⟩, henter, hr⟩ := bind_eq_ok hr
  obtain ⟨rfl, hr⟩ := of_andThen hr
  unfold keyNames
  rw [pathNames_empty]
  rcases Walk.enterVolume_found hs hsize hnothing henter with ⟨hvolume, hid, device, hdevice, hat⟩ |
      ⟨hvolume, volume, device, hname, hdevice, hinside⟩
  · obtain ⟨hpath, rfl⟩ := of_followPath_invalid (hid ▸ rfl) hr
    refine ⟨device, [], ?_, hat⟩
    rw [hvolume, hpath, pathNames_empty, if_pos rfl, ← hdevice]
    rfl
  · obtain ⟨place, above, hnames, -, hat, -⟩ := hinside.followPath (List.cons_ne_nil _ _) hnothing
      (fun _ _ _ _ _ => ⟨rfl, rfl⟩) (.inr rfl) hr
    refine ⟨place, above, ?_, hat⟩
    rw [hnames, if_neg hvolume, ← hname, ← hdevice]
    rfl

/-- The way to a reference point leads to a device, or into a volume or directory with these names. -/
theorem Walk.reference_found [DecidableEq P] (hregular : w.tree.Regular S.tree) (hsize : w.tree.FitsItemIds)
    (hnothing : ∀ n, (S.answers n).collected = []) (hinvalid : w.dirListId.isValid = false)
    {device partition reference : String}
    (hr : (enterVolume S device partition w >>=
      andThen (followPath S false (foundReference S) reference.toList (0, 0))) =
      .ok (.enter .ok, w')) :
    (w'.dirListId = w.dirListId ∧ ∃ place, [place.name] = keyNames device partition reference "" ∧
      w'.At S.tree place []) ∨
      ∃ place above, (place :: above).map (·.name) = keyNames device partition reference "" ∧ above ≠ [] ∧
        w'.Inside S.tree place above := by
  obtain ⟨⟨error, w₁⟩, henter, hr⟩ := bind_eq_ok hr
  obtain ⟨rfl, hr⟩ := of_andThen hr
  unfold keyNames
  rw [pathNames_empty]
  rcases Walk.enterVolume_found hregular hsize hnothing henter with ⟨hvolume, hid, place, hdevice, hat⟩ |
      ⟨hvolume, volume, place, hname, hdevice, hinside⟩
  · obtain ⟨hreference, rfl⟩ := of_followPath_invalid (hid ▸ hinvalid) hr
    refine .inl ⟨hid, place, ?_, hat⟩
    rw [hvolume, hreference, pathNames_empty, if_pos rfl, ← hdevice]
    rfl
  · have hset : ∀ listId item kind r, (foundReference S listId item kind r).1 = .enter .ok →
        (foundReference S listId item kind r).2.listId = listId ∧
          (foundReference S listId item kind r).2.itemId = item := by
      intro listId item kind r hfound
      unfold foundReference at hfound ⊢
      split
      · exact ⟨rfl, rfl⟩
      · next hdir =>
        rw [if_neg hdir] at hfound
        cases hfound
    obtain ⟨reference, above, hnames, habove, -, hinside'⟩ := hinside.followPath (List.cons_ne_nil _ _) hnothing hset
      (.inr rfl) hr
    refine .inr ⟨reference, above, ?_, habove, hinside' nofun⟩
    rw [hnames, if_neg hvolume, ← hname, ← hdevice]
    rfl

/-- What a reference key leads to has the names of the key. -/
theorem realizeReference_found [DecidableEq P] (hs : s.Regular S.tree) (hsize : s.FitsItemIds)
    (hnothing : ∀ n, (S.answers n).collected = []) {key : LocationKeyReference}
    (hr : realizeReference S key (.start s) = .ok (.enter .ok, w)) :
    ∃ place above, (place :: above).map (·.name) = keyNames key.device key.partition key.referencePoint key.itemName ∧
      w.At S.tree place above := by
  obtain ⟨⟨error, w₁⟩, hr', hr⟩ := bind_eq_ok hr
  obtain ⟨rfl, hr⟩ := of_andThen hr
  rcases Walk.reference_found hs hsize hnothing rfl hr' with ⟨hid, place, hname, hat⟩ |
      ⟨reference, above, hnames, habove, hinside⟩
  · obtain ⟨hitem, rfl⟩ := of_followPath_invalid (hid ▸ rfl) hr
    exact ⟨place, [], hitem ▸ hname, hat⟩
  · obtain ⟨place, above', hnames', -, hat, -⟩ :=
      hinside.followPath habove hnothing (fun _ _ _ _ _ => ⟨rfl, rfl⟩) (.inl rfl) hr
    exact ⟨place, above', by rw [hnames', hnames, keyNames, pathNames_empty]; rfl, hat⟩

/-- What a trace leads to has the names of the trace. -/
theorem realizeTrace_found [DecidableEq P] {F : LocationFormat} (hs : s.Regular S.tree) (hsize : s.FitsItemIds)
    (hnothing : ∀ n, (S.answers n).collected = []) {trace : LocationTrace}
    (hr : realizeTrace S F trace (.start s) = .ok (.enter .ok, w)) :
    ∃ place above, (place :: above).map (·.name) =
      keyNames trace.device trace.partition trace.referencePoint trace.itemName ∧
      w.At S.tree place above := by
  obtain ⟨⟨error, w₁⟩, hr', hr⟩ := bind_eq_ok hr
  obtain ⟨rfl, hr⟩ := of_andThen hr
  rcases Walk.reference_found (w := { Walk.start s with
      result := { (Walk.start s).result with traceLength := F.traceLength trace } }) hs hsize hnothing rfl hr' with
    ⟨hid, place, hname, hat⟩ | ⟨reference, above, hnames, habove, hinside⟩
  · obtain ⟨hitem, rfl⟩ := of_followPath_invalid (hid ▸ rfl) hr
    exact ⟨place, [], hitem ▸ hname, hat.trail, hat.listId, hat.itemId⟩
  · -- the item of the reference point does not change
    have hinside' : Walk.Inside S.tree { w₁ with result := { w₁.result with
        refListId := w₁.parentLinkCandidate.1
        refItemId := w₁.parentLinkCandidate.2 } } reference above :=
      ⟨⟨hinside.trail, hinside.listId, hinside.itemId⟩, hinside.regular, hinside.inside⟩
    obtain ⟨place, above', hnames', -, hat, -⟩ :=
      hinside'.followPath habove hnothing (fun _ _ _ _ _ => ⟨rfl, rfl⟩) (.inr rfl) hr
    exact ⟨place, above', by rw [hnames', hnames, keyNames, pathNames_empty]; rfl, hat⟩

/-- The names of an item, and of the items above it up to the device. -/
def UsbTree.HasNames (T : UsbSetup P) (s : UsbTree P) (listId : ListId) (item : ℕ) (names : List String) : Prop :=
  ∃ place above, Trail T s (place :: above) ∧ s.shelf.id place.list = listId ∧ place.item = item ∧
    (place :: above).map (·.name) = names

/-- The names of a location. -/
def Location.names : Location → List String
  | .simple key => keyNames key.device key.partition key.path ""
  | .reference key => keyNames key.device key.partition key.referencePoint key.itemName
  | .trace key => keyNames key.device key.partition key.referencePoint key.itemName

theorem setListTitle_listId {result : RealizeUrlResult} (hr : setListTitle S w = .ok result) :
    result.listId = w.result.listId ∧ result.itemId = w.result.itemId := by
  unfold setListTitle at hr
  split at hr
  · cases hr
    exact ⟨rfl, rfl⟩
  · dsimp only at hr
    split at hr
    · obtain ⟨title, -, hr⟩ := bind_eq_ok hr
      cases hr
      exact ⟨rfl, rfl⟩
    · cases hr
      exact ⟨rfl, rfl⟩

/-- Whatever a location leads to has the names of the location. -/
theorem realize_found [DecidableEq P] {F : LocationFormat} (hs : s.Regular S.tree) (hsize : s.FitsItemIds)
    (hnothing : ∀ n, (S.answers n).collected = []) {location : Location} {result : RealizeUrlResult}
    (hr : realize S F location s = .ok (.enter .ok, result, t)) :
    t.HasNames S.tree result.listId result.itemId location.names := by
  unfold realize at hr
  obtain ⟨⟨error, w⟩, hlocation, hr⟩ := bind_eq_ok hr
  obtain ⟨result', htitle, hr⟩ := bind_eq_ok hr
  cases hr
  obtain ⟨hlist, hitem⟩ := setListTitle_listId htitle
  obtain ⟨place, above, hnames, hat⟩ : ∃ place above, (place :: above).map (·.name) = location.names ∧
      w.At S.tree place above := by
    cases location with
    | simple key => exact realizeSimple_found hs hsize hnothing hlocation
    | reference key => exact realizeReference_found hs hsize hnothing hlocation
    | trace trace => exact realizeTrace_found hs hsize hnothing hlocation
  exact ⟨place, above, hat.trail, by rw [hlist, hat.listId], by rw [hitem, hat.itemId], hnames⟩

/-- In every run, whatever a location leads to has the names of the location, if nothing is discarded on the way. -/
theorem locations_lead_to_names [DecidableEq P] {F : LocationFormat} {rootId : ListId} (hvalid : rootId.isValid = true)
    (hcacheable : rootId.nocacheBit = false) {devices : List (ℕ × String × String)} {volumes : List (ℕ × VolumeInfo)}
    {calls : List (UsbCall × Answers P)}
    (hrun : Run (UsbTree.Step S.tree) (UsbTree.init S.tree rootId devices volumes) calls s) (hsize : s.FitsItemIds)
    (hnothing : ∀ n, (S.answers n).collected = []) {location : Location} {result : RealizeUrlResult}
    (hr : realize S F location s = .ok (.enter .ok, result, t)) :
    t.HasNames S.tree result.listId result.itemId location.names :=
  realize_found ⟨(UsbTree.sound_init hvalid hcacheable devices volumes).run hrun, UsbTree.run_levelled hrun,
    UsbTree.run_rooted hvalid hcacheable hrun⟩ hsize hnothing hr

end

/-- A song, by its reference point and its name. -/
theorem locations_lead_to_names_song : ∃ result t,
    realize examplePaths exampleFormat (.reference ⟨"stick", "music", "", "//song.flac/", some 7⟩) UsbTree.exampleTree =
      .ok (.enter .ok, result, t) ∧
    t.HasNames UsbTree.exampleSetup result.listId result.itemId ["song.flac", "music", "stick"] := by
  have hr : ((realize examplePaths exampleFormat (.reference ⟨"stick", "music", "", "//song.flac/", some 7⟩)
      UsbTree.exampleTree).toOption.any fun r => r.1 = .enter .ok) = true := by decide +kernel
  obtain ⟨⟨error, result, t⟩, hr, herror⟩ := (Option.any_eq_true ..).mp hr
  obtain rfl := of_decide_eq_true herror
  exact ⟨result, t, ok_of_toOption hr, locations_lead_to_names (S := examplePaths) (by decide) (by decide)
    UsbTree.exampleTree_run.of_when UsbTree.exampleTree_size (fun _ => rfl) (ok_of_toOption hr)⟩

end Listbrokers.Tree
