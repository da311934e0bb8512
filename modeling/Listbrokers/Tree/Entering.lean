import Listbrokers.Tree.UsbRuns

/-!
# Entering a child of a USB list

Entering an item either leads to a cached list that the item links to, or
changes nothing, exactly if the list that is made for an item without link is
accepted by the cache, is not discarded right away, and, if it is for a
directory, the directory can be read. `Adds` says when `add_to_cache` has made
such a list.
-/

namespace Listbrokers.Tree

open Framework Tiles

variable {P : Type} [DecidableEq P] {S : UsbSetup P} {a : Answers P} {s s' : UsbTree P} {p q this : P} {X : Set P}
  {item : ℕ} {id listId : ListId}

/-- The same tree, in a program with assertions. -/
def UsbSetup.checked (S : UsbSetup P) : UsbSetup P := { S with assertions := true }

namespace UsbTree

/-- The cache accepts a list, and does not discard it right away. -/
def Accepted (a : Answers P) : Prop := ∃ r ∈ a.inserted, r.1 ∉ a.collected

/-- The path of the directory is known, and the directory can be read. -/
def ReadsDirectory (S : UsbSetup P) (a : Answers P) (s : UsbTree P) (this : P) (item : ℕ) : Prop :=
  ∃ path, s.pathToRead S this item = .ok (some path) ∧ (a.readDir path).isSome = true

/-- A list is made for the item: it is not a file. -/
def IsEnterable (s : UsbTree P) (this : P) (item : ℕ) : Prop :=
  match s.lists this with
  | .dir items => ∀ entry ∈ items[item]?, entry.data.kind = .directory
  | _ => True

/-- The list for an item can be made. -/
def CanEnter (S : UsbSetup P) (a : Answers P) (s : UsbTree P) (this : P) (item : ℕ) : Prop :=
  Accepted a ∧
    match s.lists this with
    | .devices _ => True
    | _ => ReadsDirectory S a s this item

/-- The item has no link, and the list for it cannot be made. -/
def FailsToEnter (S : UsbSetup P) (a : Answers P) (s : UsbTree P) (this : P) (item : ℕ) : Prop :=
  a.mayContinue = true ∧ (∃ child ∈ (s.lists this).links[item]?, child.isValid = false) ∧ IsEnterable s this item ∧
    ¬ CanEnter S a s this item

instance (a : Answers P) : Decidable (Accepted a) := inferInstanceAs (Decidable (∃ _ ∈ _, _))

instance (S : UsbSetup P) (a : Answers P) (s : UsbTree P) (this : P) (item : ℕ) :
    Decidable (ReadsDirectory S a s this item) :=
  decidable_of_iff ((s.pathToRead S this item).toOption.join.any fun path => (a.readDir path).isSome) <| by
    unfold ReadsDirectory
    cases s.pathToRead S this item with
    | error _ => simp [Except.toOption]
    | ok path => cases path <;> simp [Except.toOption]

instance (s : UsbTree P) (this : P) (item : ℕ) : Decidable (IsEnterable s this item) := by
  unfold IsEnterable
  split <;> infer_instance

instance (S : UsbSetup P) (a : Answers P) (s : UsbTree P) (this : P) (item : ℕ) :
    Decidable (CanEnter S a s this item) := by
  unfold CanEnter
  split <;> infer_instance

instance (S : UsbSetup P) (a : Answers P) (s : UsbTree P) (this : P) (item : ℕ) :
    Decidable (FailsToEnter S a s this item) :=
  inferInstanceAs (Decidable (_ ∧ _ ∧ _ ∧ _))

/-- Entering an item, in a program with assertions, leads to a cached list below the entered one, to which the item
links, or fails and changes neither the cached lists nor any link. -/
def AllOrNothing (S : UsbSetup P) (a : Answers P) (s : UsbTree P) (listId : ListId) (item : ℕ) : Prop :=
  ∃ id error s', s.enterChild S.checked a listId item = .ok (id, error, s') ∧
    (id.isValid = true → error = .ok ∧ ∃ this ∈ s.shelf.find listId, ∃ p ∈ s'.shelf.cached,
      s'.shelf.id p = id ∧ S.forest.parent p = some this ∧ (s'.lists this).links[item]? = some id) ∧
    (id.isValid = false → error ≠ .ok ∧ s'.shelf = s.shelf ∧ ∀ q, (s'.lists q).links = (s.lists q).links)

/-! ## Lists that are inserted -/

/-- The garbage collector keeps a list that it does not discard. -/
theorem mem_collect (h : s.shelf.Labelled) (hp : p ∈ s.shelf.cached) {victims : List P} (hnot : p ∉ victims) :
    p ∈ (s.collect S victims).shelf.cached := by
  induction victims generalizing s with
  | nil => exact hp
  | cons q victims ih =>
    obtain ⟨hne, hnot⟩ := not_or.mp (List.mem_cons.not.mp hnot)
    change p ∈ (UsbTree.collect S victims (if q ∈ s.shelf.cached then s.discard S q else s)).shelf.cached
    split
    · next hq => exact ih (h.remove q) ((h.mem_remove hq).mpr ⟨hp, hne⟩) hnot
    · exact ih h hp hnot

theorem Sound.collect_discards (h : s.Sound S X) {victims : List P} (hp : p ∈ victims) :
    p ∉ (s.collect S victims).shelf.cached := by
  induction victims generalizing s with
  | nil => cases hp
  | cons q victims ih =>
    change p ∉ (UsbTree.collect S victims (if q ∈ s.shelf.cached then s.discard S q else s)).shelf.cached
    have hsound : (if q ∈ s.shelf.cached then s.discard S q else s).Sound S X := by
      split
      · next hq => exact h.discard hq
      · exact h
    rcases List.mem_cons.mp hp with rfl | hp
    · intro hmem
      have hmem := (collect_shrunk victims _).cached p hmem
      split at hmem
      · next hq => exact ((h.booked.labelled.mem_remove hq).mp hmem).2 rfl
      · next hq => exact hq hmem
    · exact ih hsound hp

/-- An insertion that is possible is refused, or the new list is found if it is accepted. -/
theorem Sound.addChildListToCache_cases (h : s.Sound S X) {items : UsbList} (hitems : items.links = [])
    (hdevices : ∀ devices, items ≠ .devices devices)
    (hpossible : s.addChildListToCache S a this items ≠ .error .impossible) :
    (¬ Accepted a ∧ s.addChildListToCache S a this items = .ok (.invalid, s)) ∨
      ∃ id s₁, s.addChildListToCache S a this items = .ok (id, s₁) ∧ id.isValid = true ∧
        ((s₁.shelf.find id).isSome = true ↔ Accepted a) := by
  unfold UsbTree.addChildListToCache at hpossible ⊢
  cases hins : a.inserted with
  | none =>
    refine .inl ⟨?_, rfl⟩
    rintro ⟨r, hr, -⟩
    rw [hins] at hr
    cases hr
  | some r =>
    obtain ⟨p, id⟩ := r
    rw [hins] at hpossible
    dsimp only at hpossible ⊢
    rw [possible] at hpossible ⊢
    split at hpossible
    · next hcond =>
      rw [if_pos hcond]
      obtain ⟨hpar, hunused, hfree⟩ := hcond
      have h₁ := h.insertList hitems hdevices hpar hunused hfree
      refine .inr ⟨id, _, rfl, hfree.1, ?_⟩
      have haccepted : Accepted a ↔ p ∉ a.collected := by simp [Accepted, hins]
      rw [haccepted]
      generalize hs₁ : UsbTree.setList { s with shelf := s.shelf.insert p id } p items = s₁ at h₁
      have hid : s₁.shelf.id p = id := by rw [← hs₁]; exact Shelf.insert_id_self
      have hp : p ∈ s₁.shelf.cached := by rw [← hs₁]; exact List.mem_cons_self
      have hsound := h₁.collect a.collected
      have hshrunk := collect_shrunk (S := S) a.collected s₁
      constructor
      · intro hfind hmem
        obtain ⟨q, hq⟩ := Option.isSome_iff_exists.mp hfind
        obtain ⟨hq, hidq⟩ := Shelf.mem_of_find hq
        rw [hshrunk.id] at hidq
        obtain rfl := h₁.booked.labelled.ids q (hshrunk.cached q hq) p hp (hidq.trans hid.symm)
        exact h₁.collect_discards hmem hq
      · intro hnot
        have hkept := mem_collect (S := S) h₁.booked.labelled hp hnot
        have := hsound.booked.labelled.find_id hkept
        rw [hshrunk.id, hid] at this
        rw [this]
        rfl
    · exact absurd rfl hpossible

/-- A list has been made. -/
def Adds (r : Except Fault (ListId × EnterError × UsbTree P)) : Prop :=
  ∃ id s', r = .ok (id, .ok, s') ∧ id.isValid = true

section

omit [DecidableEq P]

theorem not_adds_error {f : Fault} : ¬ Adds (.error f : Except Fault (ListId × EnterError × UsbTree P)) := by
  rintro ⟨id, s', h, -⟩
  cases h

theorem adds_ok {r : ListId × EnterError × UsbTree P} :
    Adds (.ok r : Except Fault (ListId × EnterError × UsbTree P)) ↔ r.2.1 = .ok ∧ r.1.isValid = true := by
  constructor
  · rintro ⟨id, s', h, hvalid⟩
    cases h
    exact ⟨rfl, hvalid⟩
  · obtain ⟨id, error, s'⟩ := r
    rintro ⟨rfl, hvalid⟩
    exact ⟨id, s', rfl, hvalid⟩

end

/-- What a function that makes a list for an item returns: `adds` is the condition for a list, and there is an error
that is not about the item otherwise. -/
structure Makes (r : Except Fault (ListId × EnterError × UsbTree P)) (adds : Prop) : Prop where
  adds_iff : Adds r ↔ adds
  error : ∀ x, r = .ok x → x.1.isValid = false → x.2.1 ≠ .invalidId
  valid : ∀ x, r = .ok x → x.1.isValid = true → x.2.1 = .ok

namespace Makes

variable {adds : Prop}

section

omit [DecidableEq P]

theorem made (hvalid : id.isValid = true) (hadds : adds) : Makes (.ok (id, .ok, s)) adds where
  adds_iff := iff_of_true (adds_ok.mpr ⟨rfl, hvalid⟩) hadds
  error x hx hinvalid := by
    cases hx
    rw [hvalid] at hinvalid
    cases hinvalid
  valid x hx _ := by
    cases hx
    rfl

theorem refused {error : EnterError} (hok : error ≠ .ok) (hid : error ≠ .invalidId) (hnot : ¬ adds) :
    Makes (.ok (.invalid, error, s)) adds where
  adds_iff := iff_of_false (fun h => hok (adds_ok.mp h).1) hnot
  error x hx _ := by
    cases hx
    exact hid
  valid x hx hvalid := by
    cases hx
    cases hvalid

theorem congr {adds' : Prop} {r : Except Fault (ListId × EnterError × UsbTree P)} (h : Makes r adds)
    (hiff : adds ↔ adds') : Makes r adds' :=
  ⟨h.adds_iff.trans hiff, h.error, h.valid⟩

theorem fault {f : Fault} (hnot : ¬ adds) : Makes (.error f : Except Fault (ListId × EnterError × UsbTree P)) adds where
  adds_iff := iff_of_false not_adds_error hnot
  error := nofun
  valid := nofun

end

end Makes

theorem Sound.attachNewDirlist_makes (h : s.Sound S X) {path : String}
    (hpossible : s.attachNewDirlist S a this path ≠ .error .impossible) :
    Makes (s.attachNewDirlist S a this path) (Accepted a ∧ (a.readDir path).isSome = true) := by
  have hadd := h.addChildListToCache_cases (show (.dir [] : UsbList).links = [] from rfl) (by simp)
    fun e => hpossible <| by
    unfold UsbTree.attachNewDirlist
    rw [e]
    rfl
  unfold UsbTree.attachNewDirlist
  rcases hadd with ⟨hnot, hadd⟩ | ⟨id, s₁, hadd, hvalid, hfind⟩
  · rw [hadd]
    exact .refused nofun nofun fun h => hnot h.1
  · simp only [hadd, bind, Except.bind]
    rw [if_neg (by simp [hvalid]), ← hfind]
    cases hsome : s₁.shelf.find id with
    | none => exact .fault (by simp)
    | some p =>
      simp only [deref]
      cases hread : a.readDir path with
      | none => exact .refused nofun nofun (by simp)
      | some names => exact .made hvalid (by simp)

theorem Sound.addVolumeList_makes (h : s.Sound S X) {device : DeviceItemData}
    (hpossible : s.addVolumeList S a this device ≠ .error .impossible) :
    Makes (s.addVolumeList S a this device) (Accepted a) := by
  have hadd := h.addChildListToCache_cases (show (.volumes [] : UsbList).links = [] from rfl) (by simp)
    fun e => hpossible <| by
    unfold UsbTree.addVolumeList
    rw [e]
    rfl
  unfold UsbTree.addVolumeList
  rcases hadd with ⟨hnot, hadd⟩ | ⟨id, s₁, hadd, hvalid, hfind⟩
  · rw [hadd]
    exact .refused nofun nofun hnot
  · simp only [hadd, bind, Except.bind]
    rw [if_neg (by simp [hvalid]), ← hfind]
    cases hsome : s₁.shelf.find id with
    | none => exact .fault (by simp)
    | some p => exact .made hvalid (by simp)

/-- An item with a link. -/
theorem exists_of_link {α : Type} {items : FlatList α} {child : ListId}
    (h : (FlatList.links items)[item]? = some child) : ∃ entry, items[item]? = some entry := by
  rw [FlatList.links, List.getElem?_map] at h
  obtain ⟨entry, hentry, -⟩ := Option.map_eq_some_iff.mp h
  exact ⟨entry, hentry⟩

/-- What `add_to_cache` returns for an item that is not a file. -/
theorem Sound.addToCache_makes (h : s.Sound S X) {child : ListId} (hlink : (s.lists this).links[item]? = some child)
    (henter : IsEnterable s this item) (hpossible : s.addToCache S a this item ≠ .error .impossible) :
    Makes (s.addToCache S a this item) (CanEnter S a s this item) := by
  unfold UsbTree.addToCache at hpossible ⊢
  unfold CanEnter ReadsDirectory pathToRead
  unfold IsEnterable at henter
  cases hlist : s.lists this with
  | devices items =>
    rw [hlist] at hpossible hlink
    obtain ⟨device, hitem⟩ := exists_of_link hlink
    dsimp only at hpossible ⊢
    rw [hitem] at hpossible ⊢
    rw [and_true]
    exact h.addVolumeList_makes hpossible
  | volumes items =>
    rw [hlist] at hpossible hlink
    obtain ⟨volume, hitem⟩ := exists_of_link hlink
    simp only [hitem, deref, bind, Except.bind, addRootDirectory, Functor.map, Except.map] at hpossible ⊢
    cases hurl : s.getUrl volume.data with
    | error f => exact .fault (by simp)
    | ok path =>
      rw [hurl] at hpossible
      exact (h.attachNewDirlist_makes hpossible).congr (by simp)
  | dir items =>
    rw [hlist] at hpossible hlink henter
    obtain ⟨entry, hitem⟩ := exists_of_link hlink
    have hkind := henter entry hitem
    simp only [hitem, deref, bind, Except.bind, addDirectory, if_pos hkind] at hpossible ⊢
    cases hpath : s.constructFspathToItem (S.forest.path this) item with
    | error f => exact .fault (by simp)
    | ok path =>
      rw [hpath] at hpossible
      cases path with
      | none => exact .refused nofun nofun (by simp)
      | some path => exact (h.attachNewDirlist_makes hpossible).congr (by simp)

/-- Files are not entered. -/
theorem addToCache_file (hfile : ¬ IsEnterable s this item) :
    s.addToCache S a this item = .ok (.invalid, .invalidId, s) := by
  unfold IsEnterable at hfile
  unfold UsbTree.addToCache
  cases hlist : s.lists this with
  | devices items =>
    rw [hlist] at hfile
    exact absurd trivial hfile
  | volumes items =>
    rw [hlist] at hfile
    exact absurd trivial hfile
  | dir items =>
    rw [hlist] at hfile
    cases hitem : items[item]? with
    | none => exact absurd (by simp [hitem]) hfile
    | some entry =>
      have hkind : entry.data.kind ≠ .directory := fun hkind => hfile (by simpa [hitem] using hkind)
      simp only [hitem, deref, bind, Except.bind, addDirectory, if_neg hkind]
      rfl

/-! ## Entering an item -/

/-- The result of entering an item without link, when the list for it has been made or has not. -/
theorem enterChildTemplate_unlinked {child : ListId} (hcontinue : a.mayContinue = true)
    (hlink : (s.lists this).links[item]? = some child) (hinvalid : child.isValid = false) :
    s.enterChildTemplate S a this item = (s.addToCache S a this item >>= fun r =>
      (if r.1.isValid = true ∨ r.2.1 ≠ .invalidId then r.2.2.setChildList S this item r.1 else .ok r.2.2) >>= fun s' =>
        .ok (r.1, r.2.1, s')) := by
  unfold UsbTree.enterChildTemplate
  rw [if_pos hcontinue, hlink]
  dsimp only
  rw [if_neg (by simp [hinvalid])]
  refine congrArg (s.addToCache S a this item >>= ·) (funext fun r => ?_)
  obtain ⟨newId, error, s₁⟩ := r
  dsimp only
  rw [UsbTree.purgeSubtree, if_neg (by simp [hinvalid])]
  rfl

/-- A new list gets its link. -/
theorem Sound.enters (h : s.Sound S X) {child : ListId} (hlink : (s.lists this).links[item]? = some child)
    (hinvalid : child.isValid = false) (hadds : Adds (s.addToCache S a this item)) :
    ∃ id s₁ s', s.addToCache S a this item = .ok (id, .ok, s₁) ∧ id.isValid = true ∧
      s₁.setChildList S this item id = .ok s' ∧ ∃ p ∈ s'.shelf.cached,
        s'.shelf.id p = id ∧ S.forest.parent p = some this ∧ (s'.lists this).links[item]? = some id := by
  obtain ⟨id, s₁, hadd, hvalid⟩ := hadds
  rcases h.addToCache hadd with ⟨hid, -⟩ | ⟨p, hinserted, hp, -⟩ | ⟨-, hid, -⟩
  · rw [show id.isValid = false from hid] at hvalid
    cases hvalid
  · obtain ⟨old, hold, holdInvalid⟩ := hinserted.links item child hlink hinvalid
    refine ⟨id, s₁, s₁.setList this ((s₁.lists this).setLink item id), hadd, hvalid, ?_, p, hp, hinserted.id,
      hinserted.parent, ?_⟩
    · have hassert : ∀ {c : Prop} [Decidable c], c → S.assert c = .ok () := fun hc => if_neg fun hn => hn.2 hc
      unfold UsbTree.setChildList
      rw [hassert hvalid, hassert fun old' hold' => by
        rw [Option.mem_def, hold] at hold'
        exact Option.some.inj hold' ▸ holdInvalid]
      rfl
    · simp only [UsbTree.setList, Function.update_self, UsbList.links_setLink]
      exact List.getElem?_set_self (List.getElem?_eq_some_iff.mp hold).1
  · rw [show id.isValid = false from hid] at hvalid
    cases hvalid

/-- Entering an item is all or nothing, unless the list for it cannot be made. -/
theorem Sound.allOrNothing_iff (h : s.Sound S X) (hlist : s.shelf.find listId = some this)
    (hpossible : s.enterChild S.checked a listId item ≠ .error .impossible) :
    AllOrNothing S a s listId item ↔ ¬ FailsToEnter S a s this item := by
  have h' : s.Sound S.checked X := ⟨h.booked, h.devices, h.mirrors, h.sorted⟩
  have hunfold : s.enterChild S.checked a listId item = s.enterChildTemplate S.checked a this item := by
    unfold UsbTree.enterChild
    rw [hlist]
  unfold AllOrNothing
  rw [hunfold] at hpossible ⊢
  by_cases hcontinue : a.mayContinue = true
  · cases hlink : (s.lists this).links[item]? with
    | none =>
      refine iff_of_true ⟨.invalid, .invalidId, s, ?_, nofun, fun _ => ⟨nofun, rfl, fun _ => rfl⟩⟩ ?_
      · unfold UsbTree.enterChildTemplate
        rw [if_pos hcontinue, hlink]
      · rintro ⟨-, ⟨child, hchild, -⟩, -⟩
        rw [hlink] at hchild
        cases hchild
    | some child =>
      by_cases hchild : child.isValid = true ∧ child.nocacheBit = false
      · -- the item has a link
        obtain ⟨p, hp, hpar, hid⟩ :=
          h.booked.sound this child (List.mem_filter.mpr ⟨List.mem_of_getElem? hlink, hchild.1⟩)
        refine iff_of_true ⟨child, .ok, s, ?_, fun _ => ⟨rfl, this, hlist, p, hp, hid, hpar, hlink⟩,
          fun hinvalid => ?_⟩ ?_
        · unfold UsbTree.enterChildTemplate
          rw [if_pos hcontinue, hlink]
          exact if_pos hchild
        · rw [hchild.1] at hinvalid
          cases hinvalid
        · rintro ⟨-, ⟨child', hlink', hinvalid⟩, -⟩
          obtain rfl := Option.some.inj (hlink.symm.trans hlink')
          rw [hchild.1] at hinvalid
          cases hinvalid
      · have hinvalid := h.link_invalid hlink hchild
        rw [enterChildTemplate_unlinked hcontinue hlink hinvalid] at hpossible ⊢
        by_cases henter : IsEnterable s this item
        · have hmakes := h'.addToCache_makes hlink henter fun e => hpossible (by rw [e]; rfl)
          by_cases hcan : CanEnter S a s this item
          · -- a list is made, and linked
            obtain ⟨id, s₁, s', hadd, hvalid, hset, hlinked⟩ := h'.enters hlink hinvalid (hmakes.adds_iff.mpr hcan)
            refine iff_of_true ⟨id, .ok, s', ?_, fun _ => ⟨rfl, this, hlist, hlinked⟩, fun hn => ?_⟩ fun hf =>
              hf.2.2.2 hcan
            · simp only [hadd, bind, Except.bind, hvalid, true_or, if_true, hset]
            · rw [hvalid] at hn
              cases hn
          · -- the assertion about the new link fails
            refine iff_of_false ?_ (not_not.mpr ⟨hcontinue, ⟨child, hlink, hinvalid⟩, henter, hcan⟩)
            rintro ⟨id, error, s', hr, -⟩
            obtain ⟨r, hadd, hr⟩ := bind_eq_ok hr
            have hrInvalid : r.1.isValid = false := Bool.eq_false_iff.mpr fun hvalid =>
              hcan (hmakes.adds_iff.mp (hadd ▸ adds_ok.mpr ⟨hmakes.valid r hadd hvalid, hvalid⟩))
            obtain ⟨s₂, hset, -⟩ := bind_eq_ok hr
            rw [if_pos (.inr (hmakes.error r hadd hrInvalid))] at hset
            unfold UsbTree.setChildList at hset
            obtain ⟨hassert, -⟩ := of_assert hset
            rw [hassert rfl] at hrInvalid
            cases hrInvalid
        · -- the item is a file
          refine iff_of_true ⟨.invalid, .invalidId, s, ?_, nofun, fun _ => ⟨nofun, rfl, fun _ => rfl⟩⟩ fun hf =>
            henter hf.2.2.1
          rw [addToCache_file henter]
          rfl
  · refine iff_of_true ⟨.invalid, .interrupted, s, ?_, nofun, fun _ => ⟨nofun, rfl, fun _ => rfl⟩⟩ fun hn =>
      hcontinue hn.1
    unfold UsbTree.enterChildTemplate
    rw [if_neg hcontinue]

/-! ## Runs -/

/-- A device and a volume, and the list of volumes has been entered. -/
def enteredCalls : List (UsbCall × Answers ℕ) := (exampleCalls fun _ => none).take 3

/-- The directory of the volume cannot be read. In a program with assertions the invalid ID of the new link is noticed,
and in one without there is another list in the cache. -/
theorem unreadable_directory_not_nothing : ∃ s, Run (Step exampleSetup) (init exampleSetup ⟨1⟩ [] []) enteredCalls s ∧
    s.shelf.find ⟨3⟩ = some 1 ∧ s.shelf.cached = [1, 0] ∧
    ¬ AllOrNothing exampleSetup (exampleAnswers (some (2, ⟨4⟩)) .invalid fun _ => none) s ⟨3⟩ 0 ∧
    ∃ s', s.enterChild exampleSetup (exampleAnswers (some (2, ⟨4⟩)) .invalid fun _ => none) ⟨3⟩ 0 =
      .ok (.invalid, .physicalMediaIo, s') ∧ s'.shelf.cached = [2, 1, 0] := by
  obtain ⟨s, hrun, hs⟩ := run_any (fun _ _ => True) enteredCalls (Q := fun s =>
    s.shelf.find ⟨3⟩ = some 1 ∧ s.shelf.cached = [1, 0] ∧
    (s.enterChild exampleSetup.checked (exampleAnswers (some (2, ⟨4⟩)) .invalid fun _ => none) ⟨3⟩
      0).toOption.isSome = false ∧
    ((s.enterChild exampleSetup (exampleAnswers (some (2, ⟨4⟩)) .invalid fun _ => none) ⟨3⟩ 0).toOption.any fun r =>
      r.1 = .invalid ∧ r.2.1 = .physicalMediaIo ∧ r.2.2.shelf.cached = [2, 1, 0]) = true) (by decide +kernel)
  obtain ⟨hlist, hcached, hfails, hany⟩ := of_decide_eq_true hs
  refine ⟨s, hrun.of_when, hlist, hcached, ?_, ?_⟩
  · rintro ⟨id, error, s', h, -⟩
    rw [h] at hfails
    cases hfails
  · obtain ⟨⟨id, error, s'⟩, hr, hQ⟩ := (Option.any_eq_true _ _).mp hany
    obtain ⟨rfl, rfl, hcached'⟩ := of_decide_eq_true hQ
    exact ⟨s', ok_of_toOption hr, hcached'⟩

/-- In every state of a run, and for all answers of the surroundings that are possible, entering an item of a cached
list is all or nothing if and only if the item has a link, or is not entered, or the list for it can be made. -/
theorem all_or_nothing_iff {rootId : ListId} (hvalid : rootId.isValid = true) (hcacheable : rootId.nocacheBit = false)
    {devices : List (ℕ × String × String)} {volumes : List (ℕ × VolumeInfo)} {calls : List (UsbCall × Answers P)}
    (h : Run (Step S) (init S rootId devices volumes) calls s) (hlist : s.shelf.find listId = some this)
    (hpossible : s.enterChild S.checked a listId item ≠ .error .impossible) :
    AllOrNothing S a s listId item ↔ ¬ FailsToEnter S a s this item := by
  obtain ⟨X, hs⟩ := (sound_init hvalid hcacheable devices volumes).run h
  exact hs.allOrNothing_iff hlist hpossible

/-- The directory of the volume can be read. -/
theorem all_or_nothing_directory : ∃ s : UsbTree ℕ, s.shelf.find ⟨3⟩ = some 1 ∧
    AllOrNothing exampleSetup (exampleAnswers (some (2, ⟨4⟩)) .invalid fun _ => some (["albums"], [])) s ⟨3⟩ 0 := by
  obtain ⟨s, hrun, hs⟩ := run_any (fun _ _ => True) enteredCalls (Q := fun s => s.shelf.find ⟨3⟩ = some 1 ∧
    ¬ FailsToEnter exampleSetup (exampleAnswers (some (2, ⟨4⟩)) .invalid fun _ => some (["albums"], [])) s 1 0 ∧
    (s.enterChild exampleSetup.checked (exampleAnswers (some (2, ⟨4⟩)) .invalid fun _ => some (["albums"], [])) ⟨3⟩
      0).toOption.isSome = true) (by decide +kernel)
  obtain ⟨hlist, hcan, hok⟩ := of_decide_eq_true hs
  refine ⟨s, hlist, (all_or_nothing_iff (by decide) (by decide) hrun.of_when hlist fun he => ?_).mpr hcan⟩
  rw [he] at hok
  cases hok

end UsbTree

end Listbrokers.Tree
