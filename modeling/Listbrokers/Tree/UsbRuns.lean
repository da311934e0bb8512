import Listbrokers.Tree.UsbSignals

/-!
# Runs of the USB list tree

What holds after all runs of the operations.

* Every cached list is linked by exactly one item of its parent list, and every
  link leads to a cached list (`Linked`), as long as the file system can be read
  whenever the list for a directory has been inserted into the cache
  (`ReadsDirectories`). Where it cannot be read, the list stays in the cache, and
  nothing links to it.
* A list of volumes that a device links to holds the volumes of the device, and
  the items of a list of volumes keep their links when a volume is added.
-/

namespace Listbrokers.Tree

open Framework Tiles

variable {P : Type} [DecidableEq P] {S : UsbSetup P} {a : Answers P} {s s' : UsbTree P} {p q : P} {X : Set P}

/-! ## Runs -/

/-- What changes the tree. -/
inductive UsbCall
  | newUsbDevice (id : ℕ) (name usbPort : String)
  | newVolume (number : ℕ) (label mountpoint : String) (deviceId : ℕ)
  | deviceRemoved (id : ℕ)
  | enterChild (list : ListId) (item : ℕ)
  | gc
  deriving DecidableEq, Repr

namespace UsbTree

def run (S : UsbSetup P) (a : Answers P) (s : UsbTree P) : UsbCall → Except Fault (UsbTree P)
  | .newUsbDevice id name usbPort => s.newUsbDevice S a id name usbPort
  | .newVolume number label mountpoint deviceId => s.newVolume S a number label mountpoint deviceId
  | .deviceRemoved id => s.deviceRemoved S a id
  | .enterChild list item => (·.2.2) <$> s.enterChild S a list item
  | .gc => .ok (s.collect S a.collected)

/-- A call, with the answers of the surroundings. -/
def Step (S : UsbSetup P) (s : UsbTree P) (call : UsbCall × Answers P) (s' : UsbTree P) : Prop :=
  s.run S call.2 call.1 = .ok s'

/-- Whenever the list for a directory has been inserted, the directory can be read. -/
def ReadsDirectories (S : UsbSetup P) (s : UsbTree P) : UsbCall × Answers P → Prop
  | (.enterChild list item, a) => ∀ this ∈ s.shelf.find list, a.mayContinue = true →
    (∀ child ∈ (s.lists this).links[item]?, child.isValid = false) → Readable S a s this item
  | _ => True

theorem sound_init {id : ListId} (hvalid : id.isValid = true) (hcacheable : id.nocacheBit = false)
    (devices : List (ℕ × String × String)) (volumes : List (ℕ × VolumeInfo)) :
    (init S id devices volumes).Sound S ∅ := by
  obtain ⟨hsorted, hlinks⟩ := fillListFromMountaData_unlinked devices volumes
  have hlist : (init S id devices volumes).lists S.deviceList = .devices (fillListFromMountaData devices volumes) :=
    by simp [init]
  have hchildren : ∀ q, (init S id devices volumes).children q = [] := fun q => by
    by_cases e : q = S.deviceList
    · rw [children, e, hlist, UsbList.children, UsbList.links, List.filter_eq_nil_iff]
      intro i hi
      obtain ⟨item, hitem, rfl⟩ := List.mem_map.mp hi
      simp [hlinks item hitem]
    · simp [children, init, UsbList.children, UsbList.links, FlatList.links, e]
  refine ⟨⟨⟨fun p hp q hq _ => ?_, fun _ _ => hvalid, fun _ _ => hcacheable⟩, fun p hp hne => ?_,
    fun _ _ hp => absurd hp (Set.notMem_empty _), fun q i hi => ?_, fun _ hi => absurd hi List.not_mem_nil⟩,
    fun p items hp => ?_, fun idx device _ p _ hlink => ?_, by rw [hlist]; exact hsorted⟩
  · rw [List.mem_singleton.mp hp, List.mem_singleton.mp hq]
  · exact absurd (List.mem_singleton.mp hp) hne
  · rw [hchildren q] at hi
    cases hi
  · by_contra e
    simp [init, e] at hp
  · have hmem : id ∈ (init S id devices volumes).children S.deviceList :=
      List.mem_filter.mpr ⟨List.mem_of_getElem? hlink, hvalid⟩
    rw [hchildren] at hmem
    cases hmem

/-- What one call does to the links. -/
theorem Sound.step {call : UsbCall × Answers P} (h : s.Sound S X) (hstep : s.Step S call s') :
    ∃ X', s'.Sound S X' ∧ (s.ReadsDirectories S call → X' ⊆ X) := by
  obtain ⟨call, a⟩ := call
  cases call with
  | newUsbDevice id name usbPort => exact ⟨X, h.newUsbDevice hstep, fun _ => .rfl⟩
  | newVolume number label mountpoint deviceId =>
    obtain ⟨⟨X', h', hX⟩, -⟩ := h.newVolume hstep
    exact ⟨X', h', fun _ => hX⟩
  | deviceRemoved id =>
    obtain ⟨X', h', hX⟩ := h.deviceRemoved hstep
    exact ⟨X', h', fun _ => hX⟩
  | gc =>
    cases hstep
    exact ⟨X, h.collect a.collected, fun _ => .rfl⟩
  | enterChild list item =>
    change (·.2.2) <$> s.enterChild S a list item = .ok s' at hstep
    unfold UsbTree.enterChild at hstep
    cases hfind : s.shelf.find list with
    | none =>
      rw [hfind] at hstep
      cases hstep
      exact ⟨X, h, fun _ => .rfl⟩
    | some this =>
      rw [hfind] at hstep
      obtain ⟨r, hr, hs'⟩ := bind_eq_ok (x := s.enterChildTemplate S a this item) (f := fun r => .ok r.2.2) hstep
      cases hs'
      obtain ⟨X', h', hX⟩ := h.enterChildTemplate hr
      exact ⟨X', h', fun hok => hX (hok this hfind)⟩

theorem Sound.run {calls : List (UsbCall × Answers P)} (h : s.Sound S X) (hrun : Run (Step S) s calls s') :
    ∃ X, s'.Sound S X :=
  hrun.invariant (P := fun s => ∃ X, s.Sound S X)
    (fun _ _ _ ⟨_, hs⟩ hstep => (hs.step hstep).imp fun _ h => h.1) ⟨X, h⟩

/-- No list is leaked. -/
theorem Sound.run_when {calls : List (UsbCall × Answers P)} (h : s.Sound S ∅)
    (hrun : Run (When (Step S) (ReadsDirectories S)) s calls s') : s'.Sound S ∅ :=
  hrun.invariant (P := Sound S ∅) (fun s l s' hs hstep => by
    obtain ⟨X, hX, hsub⟩ := hs.step hstep.2
    rwa [Set.subset_empty_iff.mp (hsub hstep.1)] at hX) h

/-! ## Links and parents -/

/-- Every cached list but the device list is linked by exactly one item of its parent list, and the links of a
cached list lead to cached lists whose parent it is. -/
structure Linked (S : UsbSetup P) (s : UsbTree P) : Prop where
  linked_once : ∀ p ∈ s.shelf.cached, p ≠ S.deviceList →
    ∃ q, S.forest.parent p = some q ∧ (s.lists q).links.count (s.shelf.id p) = 1
  parent_of_link : ∀ q ∈ s.shelf.cached, ∀ id ∈ (s.lists q).links, id.isValid = true →
    ∃ p ∈ s.shelf.cached, s.shelf.id p = id ∧ S.forest.parent p = some q

section

omit [DecidableEq P]

theorem Sound.linked (h : s.Sound S ∅) : Linked S s where
  linked_once p hp hne := by
    obtain ⟨q, hpar, hcount⟩ := h.booked.linked p hp hne nofun
    rw [List.append_nil, children, UsbList.children, List.count_filter (h.booked.labelled.valid p hp)] at hcount
    exact ⟨q, hpar, hcount⟩
  parent_of_link q _ id hid hvalid := by
    obtain ⟨p, hp, hpar, e⟩ := h.booked.sound q id (List.mem_filter.mpr ⟨hid, hvalid⟩)
    exact ⟨p, hp, e, hpar⟩

end

/-! ## A directory that cannot be read -/

instance (S : UsbSetup P) (a : Answers P) (s : UsbTree P) (this : P) (item : ℕ) :
    Decidable (Readable S a s this item) :=
  decidable_of_iff (S.assertions = true ∨ a.inserted = none ∨
    ((s.pathToRead S this item).toOption.join.all fun path => (a.readDir path).isSome) = true) <| by
      unfold Readable
      cases s.pathToRead S this item with
      | error _ => simp [Except.toOption]
      | ok path => cases path <;> simp [Except.toOption]

instance (S : UsbSetup P) (s : UsbTree P) (call : UsbCall × Answers P) : Decidable (ReadsDirectories S s call) :=
  match call with
  | (.enterChild list item, a) => inferInstanceAs (Decidable (∀ this ∈ s.shelf.find list, a.mayContinue = true →
      (∀ child ∈ (s.lists this).links[item]?, child.isValid = false) → Readable S a s this item))
  | (.newUsbDevice .., _) | (.newVolume .., _) | (.deviceRemoved _, _) | (.gc, _) => inferInstanceAs (Decidable True)

/-- A device list, and lists of which each is below the one before; assertions have not been compiled in. -/
def exampleSetup : UsbSetup ℕ where
  forest :=
    { parent := fun n => if n = 0 then none else some (n - 1)
      rank := id
      rank_lt := fun {p q} h => by
        split at h
        · cases h
        · cases h
          exact Nat.sub_lt (Nat.pos_of_ne_zero ‹_›) Nat.one_pos }
  deviceList := 0
  root := rfl
  assertions := false

/-- The cache accepts an object under an ID, and nothing else happens. -/
def exampleAnswers (inserted : Option (ℕ × ListId)) (newId : ListId)
    (readDir : String → Option (List String × List String)) : Answers ℕ where
  mayContinue := true
  inserted := inserted
  collected := []
  unpinned := fun _ => []
  toposortForPurge := List.reverse
  newId := newId
  readDir := readDir

/-- A device with a volume, of which the list of volumes and the root directory are entered. -/
def exampleCalls (readDir : String → Option (List String × List String)) : List (UsbCall × Answers ℕ) :=
  [(.newUsbDevice 1 "stick" "1-1", exampleAnswers none ⟨2⟩ readDir),
    (.newVolume 1 "music" "/run/MounTA/1" 1, exampleAnswers none .invalid readDir),
    (.enterChild ⟨2⟩ 0, exampleAnswers (some (1, ⟨3⟩)) .invalid readDir),
    (.enterChild ⟨3⟩ 0, exampleAnswers (some (2, ⟨4⟩)) .invalid readDir)]

/-- What holds after the calls of an example that is run. -/
theorem run_any (ok : UsbTree ℕ → UsbCall × Answers ℕ → Prop) [∀ s c, Decidable (ok s c)]
    (calls : List (UsbCall × Answers ℕ)) {Q : UsbTree ℕ → Bool}
    (h : (exec (fun s c => (s.run exampleSetup c.2 c.1).toOption) ok calls
      (init exampleSetup ⟨1⟩ [] [])).any Q = true) :
    ∃ s, Run (When (Step exampleSetup) ok) (init exampleSetup ⟨1⟩ [] []) calls s ∧ Q s = true :=
  Run.of_exec_any (fun s c s' hs => by
    unfold Step
    cases hrun : s.run exampleSetup c.2 c.1 with
    | error e =>
      rw [hrun] at hs
      cases hs
    | ok s₁ =>
      rw [hrun] at hs
      cases hs
      rfl) h

/-- The directory of a volume cannot be read. Its list stays in the cache, and the item of the volume does not link
to it. -/
theorem unreadable_directory_leaks :
    ∃ s, Run (Step exampleSetup) (init exampleSetup ⟨1⟩ [] []) (exampleCalls fun _ => none) s ∧
    s.shelf.cached = [2, 1, 0] ∧ (s.lists 1).links = [.invalid] ∧ ¬ Linked exampleSetup s := by
  obtain ⟨s, hrun, hs⟩ := run_any (fun _ _ => True) (exampleCalls fun _ => none)
    (Q := fun s => s.shelf.cached = [2, 1, 0] ∧ s.shelf.id 2 = ⟨4⟩ ∧ (s.lists 1).links = [.invalid]) (by decide +kernel)
  obtain ⟨hcached, hid, hlinks⟩ := of_decide_eq_true hs
  refine ⟨s, hrun.of_when, hcached, hlinks, fun h => ?_⟩
  obtain ⟨q, hpar, hcount⟩ := h.linked_once 2 (by rw [hcached]; decide) (by decide)
  obtain rfl : 1 = q := Option.some.inj hpar
  rw [hlinks, hid] at hcount
  revert hcount
  decide

/-- The links agree with the parent pointers in all runs in which the directories that are entered can be read. -/
theorem links_agree {id : ListId} (hvalid : id.isValid = true) (hcacheable : id.nocacheBit = false)
    {devices : List (ℕ × String × String)} {volumes : List (ℕ × VolumeInfo)} {calls : List (UsbCall × Answers P)}
    (h : Run (When (Step S) (ReadsDirectories S)) (init S id devices volumes) calls s) : Linked S s :=
  ((sound_init hvalid hcacheable devices volumes).run_when h).linked

/-- Directories are entered and left, and the device is removed. -/
theorem links_agree_removed : ∃ s, s.shelf.cached = [0] ∧ (s.lists 0).links = [] ∧ Linked exampleSetup s := by
  obtain ⟨s, hrun, hs⟩ := run_any (ReadsDirectories exampleSetup)
    (exampleCalls (fun _ => some (["albums"], [])) ++
      [(.newVolume 2 "photos" "/run/MounTA/2" 1, exampleAnswers none ⟨5⟩ fun _ => none),
        (.deviceRemoved 1, exampleAnswers none ⟨6⟩ fun _ => none)])
    (Q := fun s => s.shelf.cached = [0] ∧ (s.lists 0).links = []) (by decide +kernel)
  obtain ⟨hcached, hlinks⟩ := of_decide_eq_true hs
  exact ⟨s, hcached, hlinks, links_agree (by decide) (by decide) hrun⟩

/-! ## The volumes of a device -/

/-- A cached list of volumes is what `fill_volume_list` makes of the volumes of the device, but for the links. -/
structure MirrorsVolumes (S : UsbSetup P) (s : UsbTree P) (p : P) (device : DeviceItemData)
    (volumes : FlatList VolumeItemData) : Prop where
  cached : p ∈ s.shelf.cached
  lists : s.lists p = .volumes volumes
  bare : FlatList.bare volumes = fillVolumeList device
  items : volumes.map (·.data) = device.volumes.map fun info => ⟨device.devId, info.number⟩

/-- The list of volumes of a device is the same as a new one, and its items keep their links when a volume is added
to it or to another list. -/
theorem volume_lists_mirror {id : ListId} (hvalid : id.isValid = true) (hcacheable : id.nocacheBit = false)
    {devices : List (ℕ × String × String)} {volumes : List (ℕ × VolumeInfo)} {calls : List (UsbCall × Answers P)}
    (h : Run (Step S) (init S id devices volumes) calls s) {items : FlatList DeviceItemData}
    (hitems : s.lists S.deviceList = .devices items) {item : ListItem DeviceItemData} (hitem : item ∈ items)
    (hp : p ∈ s.shelf.cached) (hlink : s.shelf.id p = item.child) :
    ∃ volumes, MirrorsVolumes S s p item.data volumes ∧
      ∀ number label mountpoint deviceId a s', Step S s (.newVolume number label mountpoint deviceId, a) s' →
        ∃ volumes', s'.lists p = .volumes volumes' ∧ volumes.Sublist volumes' ∧
          ∀ volume ∈ volumes, ∀ volume' ∈ volumes', volume'.data = volume.data → volume'.child = volume.child := by
  obtain ⟨X, hs⟩ := (sound_init hvalid hcacheable devices volumes).run h
  have hbare := (mirrors_iff hitems).mp hs.mirrors item hitem p hp hlink
  cases hlist : s.lists p with
  | devices _ => rw [hlist] at hbare; cases hbare
  | dir _ => rw [hlist] at hbare; cases hbare
  | volumes volumes =>
    rw [hlist] at hbare
    have hbare := UsbList.volumes.inj hbare
    refine ⟨volumes, ⟨hp, hlist, hbare, map_data_of_bare hbare⟩, fun number label mountpoint deviceId a s' hstep => ?_⟩
    obtain ⟨volumes', hlist', hsub, hnodup⟩ := (hs.newVolume hstep).2 p volumes hlist
    have hnodup' : (volumes'.map (·.data)).Nodup := by
      rcases hnodup with rfl | hnodup
      · exact nodup_of_bare hbare ((hs.sorted_items hitems).volumes _ (List.mem_map.mpr ⟨item, hitem, rfl⟩))
      · exact hnodup
    refine ⟨volumes', hlist', hsub, fun volume hvolume volume' hvolume' e => ?_⟩
    rw [List.inj_on_of_nodup_map hnodup' hvolume' (hsub.subset hvolume) e]

/-- A volume is added in front of one that has been entered, and the list of volumes gets a new ID. -/
theorem volume_lists_mirror_added : ∃ s : UsbTree ℕ, ∃ items item,
    s.lists 0 = .devices items ∧ item ∈ items ∧ s.shelf.id 1 = item.child ∧ item.child = ⟨5⟩ ∧
      item.data.volumes.map (·.number) = [1, 2] ∧ ∃ volumes, MirrorsVolumes exampleSetup s 1 item.data volumes := by
  obtain ⟨s, hrun, hs⟩ := run_any (fun _ _ => True)
    [(.newUsbDevice 1 "stick" "1-1", exampleAnswers none ⟨2⟩ fun _ => none),
      (.newVolume 2 "music" "/run/MounTA/2" 1, exampleAnswers none .invalid fun _ => none),
      (.enterChild ⟨2⟩ 0, exampleAnswers (some (1, ⟨3⟩)) .invalid fun _ => none),
      (.enterChild ⟨3⟩ 0, exampleAnswers (some (2, ⟨4⟩)) .invalid fun _ => some ([], [])),
      (.newVolume 1 "photos" "/run/MounTA/1" 1, exampleAnswers none ⟨5⟩ fun _ => none)]
    (Q := fun s => s.shelf.id 1 = ⟨5⟩ ∧ 1 ∈ s.shelf.cached ∧ (s.lists 0).links = [⟨5⟩] ∧
      (s.lists 0).deviceData.map (·.volumes.map (·.number)) = [[1, 2]]) (by decide +kernel)
  obtain ⟨hid, hcached, hlinks, hdata⟩ := of_decide_eq_true hs
  cases hlist : s.lists 0 with
  | volumes _ => rw [hlist] at hdata; cases hdata
  | dir _ => rw [hlist] at hdata; cases hdata
  | devices items =>
    rw [hlist] at hlinks hdata
    obtain ⟨item, rfl⟩ : ∃ item, items = [item] := List.length_eq_one_iff.mp (by
      simpa [UsbList.links, FlatList.links] using congrArg List.length hlinks)
    have hchild : item.child = ⟨5⟩ := by simpa [UsbList.links, FlatList.links] using hlinks
    obtain ⟨volumes, hmirror, -⟩ := volume_lists_mirror (S := exampleSetup) (by decide) (by decide) hrun.of_when hlist
      (List.mem_singleton_self item) hcached (hid.trans hchild.symm)
    exact ⟨s, [item], item, hlist, List.mem_singleton_self item, hid.trans hchild.symm, hchild,
      by simpa [UsbList.deviceData] using hdata, volumes, hmirror⟩

end UsbTree

end Listbrokers.Tree
