import Listbrokers.Tree.Descent
import Listbrokers.Tree.Purging

/-!
# Paths of directories and files

`construct_fspath_to_item` climbs from an item of a directory up to the list of
volumes, and appends the names on the way to the mount point of the volume. With
the prefix of a URI, it escapes the names.

A directory is read under the path that its trail spells (`pathToRead_eq`), and the
URI of a file is spelled likewise (`getUrisForItem_file`). As long as no mount point
is inside another one, no two files have the same URI (`uris_name_files`).
-/

namespace Listbrokers.Tree

open Framework Tiles

variable {P : Type} [DecidableEq P] {S : UsbSetup P} {s : UsbTree P} {p this : P} {item : ℕ} {listId : ListId}
  {escape : String → String}

namespace UsbTree

section

variable (S : UsbSetup P) (escape : String → String) (s : UsbTree P)

/-- `ListTreeManager::get_parent_list_id`. -/
def getParentListId (listId : ListId) : ListId :=
  match if listId.isValid then s.shelf.find listId else none with
  | none => .invalid
  | some p => (S.forest.parent p).elim .invalid s.shelf.id

/-- `is_volume_list_or_invalid`. -/
def isVolumeListOrInvalid (listId : ListId) : Prop :=
  (s.getParentListId S listId).isValid = false ∨ s.getParentListId S listId = s.devicesListId

instance (listId : ListId) : Decidable (s.isVolumeListOrInvalid S listId) := inferInstanceAs (Decidable (_ ∨ _))

/-- `USB::Helpers::construct_fspath_to_item` with the prefix of a URI: `curlpp::escape` is applied to names. -/
def constructUriToItem : List P → ℕ → Except Fault (Option String)
  | p :: parent :: path, item => do
    match s.lists p with
    | .dir items =>
      let entry ← deref items[item]?
      match s.getParentLink p parent with
      | none => return none
      | some idx =>
        match ← constructUriToItem (parent :: path) idx with
        | none => return none
        | some base => return some (base ++ "/" ++ escape entry.data.name)
    | .volumes items =>
      let volume ← deref items[item]?
      return some ("file://" ++ (← s.getUrl volume.data))
    | .devices _ => .error .crash
  | _, _ => .error .crash

/-- `USB::ListTree::get_uris_for_item`, without the hash. -/
def getUrisForItem (listId : ListId) (item : ℕ) : Except Fault (EnterError × List String) :=
  if listId = s.devicesListId ∨ s.isVolumeListOrInvalid S listId then return (.invalidId, [])
  else
    match s.shelf.find listId with
    | none => return (.invalidId, [])
    | some p =>
      match s.lists p with
      | .dir items =>
        match items[item]? with
        | none => return (.invalidId, [])
        | some entry => do
          if entry.data.kind = .directory then return (.ok, [])
          else
            let uri ← s.constructUriToItem escape (S.forest.path p) item
            return (.ok, [uri.getD ""])
      | _ => .error .crash

end

end UsbTree

/-! ## Paths that trails spell -/

/-- A path, from the names above the mount point, the last one first. -/
def spelledPath (encode : String → String) (mount : String) : List String → String
  | [] => mount
  | name :: names => spelledPath encode mount names ++ "/" ++ encode name

/-- The volume of a trail is mounted there. -/
def MountedAt (S : UsbSetup P) (s : UsbTree P) (volume device : Place P) (mount : String) : Prop :=
  ∃ entry info, (s.lists S.deviceList).deviceData[device.item]? = some entry ∧ entry.volumes[volume.item]? = some info ∧
    info.mountpointPath = mount

namespace Trail

variable {place volume device : Place P} {above dirs : List (Place P)}

section

omit [DecidableEq P]

/-- The volume of a trail, and its mount point. -/
theorem exists_mount (hs : s.Settled S) (h : Trail S s [volume, device]) :
    ∃ mount, MountedAt S s volume device mount := by
  obtain ⟨devices, entry, items, -, hdevices, hentry, -, ⟨item, info, -, hinfo, -⟩, -⟩ := h.of_volume hs
  refine ⟨info.mountpointPath, entry.data, info, ?_, hinfo, rfl⟩
  rw [hdevices, UsbList.deviceData, List.getElem?_map, hentry, Option.map_some]

theorem getUrl (hs : s.Settled S) (h : Trail S s [volume, device]) {mount : String}
    (hmount : MountedAt S s volume device mount) :
    ∃ items item, s.lists volume.list = .volumes items ∧ items[volume.item]? = some item ∧
      s.getUrl item.data = .ok mount := by
  obtain ⟨devices, entry, items, -, hdevices, hentry, hitems, ⟨item, info, hitem, hinfo, -, -, hurl⟩, -⟩ :=
    h.of_volume hs
  obtain ⟨entry', info', hentry', hinfo', rfl⟩ := hmount
  rw [hdevices, UsbList.deviceData, List.getElem?_map, hentry] at hentry'
  obtain rfl := Option.some.inj hentry'
  obtain rfl := Option.some.inj (hinfo.symm.trans hinfo')
  exact ⟨items, item, hitems, hitem, hurl⟩

theorem path_eq {parent : Place P} (h : Trail S s (place :: parent :: above)) :
    S.forest.path place.list = place.list :: parent.list :: above.map (·.list) := h.map_list.symm

/-- The names of a trail, behind the mount point. -/
theorem construct_eq (escape : String → String) (hs : s.Settled S) {mount : String}
    (hmount : MountedAt S s volume device mount) (h : Trail S s (dirs ++ [volume, device])) :
    s.constructFspathToItem (S.forest.path (dirs.head?.getD volume).list) (dirs.head?.getD volume).item =
        .ok (some (spelledPath id mount (dirs.map (·.name)))) ∧
      s.constructUriToItem escape (S.forest.path (dirs.head?.getD volume).list) (dirs.head?.getD volume).item =
        .ok (some (spelledPath escape ("file://" ++ mount) (dirs.map (·.name)))) := by
  induction dirs with
  | nil =>
    obtain ⟨items, item, hitems, hitem, hurl⟩ := h.getUrl hs hmount
    rw [List.head?_nil, Option.getD_none, h.path_eq]
    simp only [UsbTree.constructFspathToItem, UsbTree.constructUriToItem, hitems, hitem, deref, bind, Except.bind, hurl,
      Functor.map, Except.map, pure, Except.pure, List.map_nil, spelledPath, and_self]
  | cons place dirs ih =>
    obtain ⟨above, habove⟩ : ∃ above, dirs ++ [volume, device] = dirs.head?.getD volume :: above := by
      cases dirs <;> exact ⟨_, rfl⟩
    rw [List.cons_append, habove] at h
    obtain ⟨ih, ih'⟩ := ih (habove ▸ h.tail)
    have hlength : 2 ≤ (dirs.head?.getD volume :: above).length := by
      rw [← habove, List.length_append]
      exact Nat.le_add_left ..
    obtain ⟨items, entry, hitems, hentry, hname⟩ := h.of_entry hlength
    rw [h.tail.map_list.symm, List.map_cons] at ih ih'
    rw [List.head?_cons, Option.getD_some, h.path_eq]
    simp only [UsbTree.constructFspathToItem, UsbTree.constructUriToItem, hitems, hentry, deref, bind, Except.bind,
      h.getParentLink hs, ih, ih', pure, Except.pure, List.map_cons, spelledPath, hname, id, and_self]

end

end Trail

/-- The path of the directory that is read for an item is what the trail of the item spells. -/
theorem UsbTree.Settled.pathToRead_eq (hs : s.Settled S) (hg : Grounded S s.shelf.cached)
    (hthis : this ∈ s.shelf.cached) (hitem : item < (s.lists this).links.length)
    (hkind : (s.lists this).kind ≠ .devices) (henter : IsEnterable s this item) :
    ∃ (volume device : Place P) (dirs : List (Place P)) (mount : String), Trail S s (dirs ++ [volume, device]) ∧
      (dirs.head?.getD volume).list = this ∧ (dirs.head?.getD volume).item = item ∧ MountedAt S s volume device mount ∧
      s.pathToRead S this item = .ok (some (spelledPath id mount (dirs.map (·.name)))) := by
  obtain ⟨name, above, htrail⟩ := hs.trail (hg.closed.path hthis) hitem
  have hlevel := htrail.kind
  rcases htrail.shape with ⟨device, e⟩ | ⟨dirs, volume, device, e⟩
  · cases e
    exact absurd hlevel hkind
  rw [e] at htrail
  have hplace : dirs.head?.getD volume = ⟨this, item, name⟩ := by
    cases dirs <;> exact (List.cons.inj e).1.symm
  obtain ⟨mount, hmount⟩ := htrail.of_append.exists_mount hs
  have hconstruct := (htrail.construct_eq id hs hmount).1
  refine ⟨volume, device, dirs, mount, htrail, by rw [hplace], by rw [hplace], hmount, ?_⟩
  rw [hplace] at hconstruct
  unfold UsbTree.pathToRead
  cases hlist : s.lists this with
  | devices items => rw [hlist] at hkind; exact absurd rfl hkind
  | volumes items =>
    cases dirs with
    | nil =>
      obtain rfl : volume = _ := hplace
      obtain ⟨items', volume, hitems, hvolume, hurl⟩ := htrail.getUrl hs hmount
      obtain rfl := UsbList.volumes.inj (hlist.symm.trans hitems)
      simp only [hvolume, deref, bind, Except.bind, hurl]
      rfl
    | cons place dirs =>
      rw [hlist, show above = dirs ++ [volume, device] from (List.cons.inj e).2, List.length_append] at hlevel
      cases hlevel
  | dir items =>
    unfold IsEnterable at henter
    rw [hlist] at hitem henter
    obtain ⟨entry, hentry⟩ := getElem?_of_lt_links hitem
    simp only [hentry, deref, bind, Except.bind, if_pos (henter entry hentry)]
    exact hconstruct

/-! ## URIs of files -/

namespace UsbTree

/-- The item of the list is the first one of the trail, and the URI is what the trail spells. -/
def UriOf (S : UsbSetup P) (escape : String → String) (s : UsbTree P) (listId : ListId) (item : ℕ)
    (uri : String) : Prop :=
  ∃ place dirs volume device mount, Trail S s (place :: dirs ++ [volume, device]) ∧ s.shelf.id place.list = listId ∧
    place.item = item ∧ MountedAt S s volume device mount ∧
    uri = spelledPath escape ("file://" ++ mount) ((place :: dirs).map (·.name))

section

omit [DecidableEq P]

/-- An item that has got a URI is a file. -/
theorem of_getUrisForItem {uri : String} (h : s.getUrisForItem S escape listId item = .ok (.ok, [uri])) :
    ∃ p items entry path, s.shelf.find listId = some p ∧ s.lists p = .dir items ∧ items[item]? = some entry ∧
      s.constructUriToItem escape (S.forest.path p) item = .ok path ∧ uri = path.getD "" := by
  unfold getUrisForItem at h
  split at h
  · cases h
  split at h
  · cases h
  next p hfind =>
  split at h
  · next items hlist =>
    split at h
    · cases h
    next entry hentry =>
    split at h
    · cases h
    · obtain ⟨path, hpath, h⟩ := bind_eq_ok h
      cases h
      exact ⟨p, items, entry, path, hfind, hlist, hentry, hpath, rfl⟩
  · cases h

end

/-- The URI is what the trail spells. -/
theorem Settled.uriOf (hs : s.Settled S) (hg : Grounded S s.shelf.cached) {uri : String}
    (h : s.getUrisForItem S escape listId item = .ok (.ok, [uri])) : s.UriOf S escape listId item uri := by
  obtain ⟨p, items, entry, path, hfind, hlist, hentry, hpath, rfl⟩ := of_getUrisForItem h
  obtain ⟨hp, hid⟩ := Shelf.mem_of_find hfind
  have hitem : item < (s.lists p).links.length := by
    rw [hlist, UsbList.links, FlatList.links, List.length_map]
    exact (List.getElem?_eq_some_iff.mp hentry).1
  obtain ⟨name, above, htrail⟩ := hs.trail (hg.closed.path hp) hitem
  have hkind := htrail.kind
  rw [hlist] at hkind
  rcases htrail.shape with ⟨device, e⟩ | ⟨dirs, volume, device, e⟩
  · cases e
    cases hkind
  · cases dirs with
    | nil =>
      cases e
      cases hkind
    | cons place dirs =>
      obtain ⟨rfl, rfl⟩ := List.cons.inj e
      have htrail : Trail S s ((⟨p, item, name⟩ :: dirs) ++ [volume, device]) := htrail
      obtain ⟨mount, hmount⟩ := htrail.of_append.exists_mount hs
      have hconstruct : s.constructUriToItem escape (S.forest.path p) item = _ :=
        (htrail.construct_eq escape hs hmount).2
      obtain rfl := Except.ok.inj (hpath.symm.trans hconstruct)
      exact ⟨⟨p, item, name⟩, dirs, volume, device, mount, htrail, hid, rfl, hmount, rfl⟩

/-! ## Files that have the same URI -/

/-- No mount point is inside another one. -/
def MountsApart (S : UsbSetup P) (s : UsbTree P) : Prop :=
  ∀ device ∈ (s.lists S.deviceList).deviceData, ∀ info ∈ device.volumes,
    ∀ device' ∈ (s.lists S.deviceList).deviceData, ∀ info' ∈ device'.volumes,
      (info.mountpointPath ++ "/").toList <+: (info'.mountpointPath ++ "/").toList → device = device' ∧ info = info'

instance (S : UsbSetup P) (s : UsbTree P) : Decidable (MountsApart S s) := inferInstanceAs (Decidable (∀ _ ∈ _, _))

end UsbTree

/-- Different names are escaped differently, and there are no slashes in what is escaped. -/
structure Escapes (escape : String → String) : Prop where
  injective : escape.Injective
  noSlash : ∀ name, '/' ∉ (escape name).toList

theorem toList_spelledPath (encode : String → String) (mount : String) (names : List String) :
    (spelledPath encode mount names).toList = mount.toList ++ names.reverse.flatMap
    fun name => '/' :: (encode name).toList := by
  induction names with
  | nil => simp [spelledPath]
  | cons name names ih =>
    rw [spelledPath, String.toList_append, String.toList_append, ih, List.reverse_cons, List.flatMap_append]
    simp

/-- What is between slashes. -/
theorem splitOn_flatMap {parts : List (List Char)} (hparts : ∀ part ∈ parts, '/' ∉ part) {first : List Char}
    (hfirst : '/' ∉ first) : (first ++ parts.flatMap ('/' :: ·)).splitOn '/' = first :: parts := by
  induction parts generalizing first with
  | nil => simpa using List.splitOn_eq_singleton hfirst
  | cons part parts ih =>
    rw [List.flatMap_cons, List.cons_append, List.splitOn_append_cons_self_of_not_mem hfirst,
      ih (fun part' h => hparts part' (List.mem_cons_of_mem _ h)) (hparts part List.mem_cons_self)]

/-- Where paths are the same, one mount point is inside the other one. -/
theorem mounts_of_spelledPath_eq {encode : String → String} {mount mount' : String} {names names' : List String}
    (hnames : names ≠ []) (hnames' : names' ≠ [])
    (h : spelledPath encode mount names = spelledPath encode mount' names') :
    (mount ++ "/").toList <+: (mount' ++ "/").toList ∨ (mount' ++ "/").toList <+: (mount ++ "/").toList := by
  have hprefix : ∀ {mount : String} {names : List String}, names ≠ [] →
      (mount ++ "/").toList <+: (spelledPath encode mount names).toList := fun {mount names} hne => by
    obtain ⟨name, rest, e⟩ := List.exists_cons_of_ne_nil (List.reverse_ne_nil_iff.mpr hne)
    rw [toList_spelledPath, e, List.flatMap_cons, String.toList_append]
    exact (List.prefix_append_right_inj _).mpr (by simp)
  have h₁ : (mount ++ "/").toList <+: (spelledPath encode mount names).toList := hprefix hnames
  have h₂ : (mount' ++ "/").toList <+: (spelledPath encode mount names).toList := h ▸ hprefix hnames'
  rcases Nat.le_total (mount ++ "/").toList.length (mount' ++ "/").toList.length with hle | hle
  · exact .inl (List.prefix_of_prefix_length_le h₁ h₂ hle)
  · exact .inr (List.prefix_of_prefix_length_le h₂ h₁ hle)

theorem names_of_spelledPath_eq {encode : String → String} (hencode : Escapes encode) {mount : String}
    {names names' : List String} (h : spelledPath encode mount names = spelledPath encode mount names') :
    names = names' := by
  have hparts : ∀ names : List String, ∀ part ∈ names.map fun name => (encode name).toList, '/' ∉ part := by
    intro names part hpart
    obtain ⟨name, -, rfl⟩ := List.mem_map.mp hpart
    exact hencode.noSlash name
  have hsplit : ∀ names : List String, (names.flatMap fun name => '/' :: (encode name).toList).splitOn '/' =
      [] :: names.map fun name => (encode name).toList := fun names => by
    have := splitOn_flatMap (hparts names) (List.not_mem_nil (a := '/'))
    rwa [List.nil_append, List.flatMap_map] at this
  have h := congrArg String.toList h
  rw [toList_spelledPath, toList_spelledPath] at h
  have hmap := congrArg (List.splitOn '/') (List.append_cancel_left h)
  rw [hsplit, hsplit] at hmap
  refine List.reverse_injective (List.map_injective_iff.mpr (fun name name' e => ?_) (List.cons.inj hmap).2)
  exact hencode.injective (String.toList_injective e)

namespace Trail

variable {place place' parent parent' volume volume' device device' : Place P}
    {above above' dirs dirs' : List (Place P)}

section

omit [DecidableEq P]

/-- An item links to one list only. -/
theorem list_eq (hs : s.Settled S) (h : Trail S s (place :: parent :: above))
    (h' : Trail S s (place' :: parent' :: above')) (hlist : parent.list = parent'.list)
    (hitem : parent.item = parent'.item) : place.list = place'.list := by
  cases h with
  | child hp hpar hlink hname habove =>
    cases h' with
    | child hp' hpar' hlink' hname' habove' =>
      rw [hlist, hitem] at hlink
      exact hs.rooted.labelled.ids _ hp _ hp' (Option.some.inj (hlink.symm.trans hlink'))

/-- Where mount points are apart, there is one volume for each of them. -/
theorem volume_eq (hs : s.Settled S) (h : Trail S s [volume, device]) (h' : Trail S s [volume', device'])
    (hmounts : s.MountsApart S) {mount mount' : String} (hmount : MountedAt S s volume device mount)
    (hmount' : MountedAt S s volume' device' mount') (hinside : (mount ++ "/").toList <+: (mount' ++ "/").toList) :
    mount = mount' ∧ volume.list = volume'.list ∧ volume.item = volume'.item := by
  obtain ⟨entry, info, hentry, hinfo, rfl⟩ := hmount
  obtain ⟨entry', info', hentry', hinfo', rfl⟩ := hmount'
  obtain ⟨rfl, rfl⟩ := hmounts entry (List.mem_of_getElem? hentry) info (List.mem_of_getElem? hinfo) entry'
    (List.mem_of_getElem? hentry') info' (List.mem_of_getElem? hinfo') hinside
  have hsorted := hs.sound.sorted
  have hnumbers : (entry.volumes.map (·.number)).Nodup :=
    List.pairwise_map.mpr ((hsorted.volumes entry (List.mem_of_getElem? hentry)).imp Nat.ne_of_lt)
  refine ⟨rfl, h.list_eq hs h' (h.tail.of_device.1.trans h'.tail.of_device.1.symm) ?_,
    idx_eq_of_nodup hnumbers hinfo hinfo' rfl⟩
  exact idx_eq_of_nodup hsorted.ids hentry hentry' rfl

/-- The names below a volume lead to one item only. -/
theorem eq_of_names (hs : s.Settled S) (hdistinct : s.DistinctSiblings S) (h : Trail S s (dirs ++ [volume, device]))
    (h' : Trail S s (dirs' ++ [volume', device'])) (hlist : volume.list = volume'.list)
    (hitem : volume.item = volume'.item) (hnames : dirs.map (·.name) = dirs'.map (·.name)) :
    (dirs.head?.getD volume).list = (dirs'.head?.getD volume').list ∧
      (dirs.head?.getD volume).item = (dirs'.head?.getD volume').item := by
  induction dirs generalizing dirs' with
  | nil =>
    cases dirs' with
    | nil => exact ⟨hlist, hitem⟩
    | cons place' dirs' => cases hnames
  | cons place dirs ih =>
    cases dirs' with
    | nil => cases hnames
    | cons place' dirs' =>
      have hshape : ∀ (dirs : List (Place P)) (volume device : Place P),
          ∃ above, dirs ++ [volume, device] = dirs.head?.getD volume :: above ∧
            1 ≤ above.length := fun dirs volume device => by
        cases dirs with
        | nil => exact ⟨[device], rfl, Nat.le_refl 1⟩
        | cons place dirs => exact ⟨dirs ++ [volume, device], rfl, by simp⟩
      obtain ⟨above, habove, hlength⟩ := hshape dirs volume device
      obtain ⟨above', habove', hlength'⟩ := hshape dirs' volume' device'
      obtain ⟨hname, hnames⟩ := List.cons.inj hnames
      rw [List.cons_append, habove] at h
      rw [List.cons_append, habove'] at h'
      obtain ⟨hlist, hitem⟩ := ih (habove ▸ h.tail) (habove' ▸ h'.tail) hnames
      have hlist := h.list_eq hs h' hlist hitem
      obtain ⟨items, entry, hitems, hentry, hentryName⟩ := h.of_entry (Nat.succ_le_succ hlength)
      obtain ⟨items', entry', hitems', hentry', hentryName'⟩ := h'.of_entry (Nat.succ_le_succ hlength')
      rw [← hlist, hitems] at hitems'
      obtain rfl := UsbList.dir.inj hitems'
      have hnodup := hdistinct.directories _ h.cached
      rw [hitems] at hnodup
      exact ⟨hlist, idx_eq_of_nodup hnodup hentry hentry' (hentryName.trans (hname.trans hentryName'.symm))⟩

end

end Trail

namespace UsbTree

section

omit [DecidableEq P]

/-- No two items have the same URI. -/
theorem UriOf.inj (hs : s.Settled S) (hescape : Escapes escape) (hmounts : s.MountsApart S)
    (hdistinct : s.DistinctSiblings S) {listId' : ListId} {item' : ℕ} {uri : String}
    (h : s.UriOf S escape listId item uri) (h' : s.UriOf S escape listId' item' uri) :
    listId' = listId ∧ item' = item := by
  obtain ⟨place, dirs, volume, device, mount, htrail, rfl, rfl, hmount, rfl⟩ := h
  obtain ⟨place', dirs', volume', device', mount', htrail', rfl, rfl, hmount', huri⟩ := h'
  have hvolume : mount = mount' ∧ volume.list = volume'.list ∧ volume.item = volume'.item := by
    have hinside := mounts_of_spelledPath_eq (by simp) (by simp) huri
    simp only [String.toList_append, List.append_assoc, List.prefix_append_right_inj] at hinside
    simp only [← String.toList_append] at hinside
    rcases hinside with hinside | hinside
    · exact htrail.of_append.volume_eq hs htrail'.of_append hmounts hmount hmount' hinside
    · obtain ⟨hmounts, hlist, hitem⟩ := htrail'.of_append.volume_eq hs htrail.of_append hmounts hmount' hmount hinside
      exact ⟨hmounts.symm, hlist.symm, hitem.symm⟩
  obtain ⟨rfl, hlist, hitem⟩ := hvolume
  obtain ⟨hlist, hitem⟩ :=
    Trail.eq_of_names hs hdistinct htrail htrail' hlist hitem (names_of_spelledPath_eq hescape huri)
  exact ⟨congrArg s.shelf.id hlist.symm, hitem.symm⟩

end

/-- In every state of a run, the URI of a file is made of the mount point and the escaped names. Where the names can be
told apart, no other file has it. -/
theorem uris_name_files {rootId : ListId} (hvalid : rootId.isValid = true) (hcacheable : rootId.nocacheBit = false)
    {devices : List (ℕ × String × String)} {volumes : List (ℕ × VolumeInfo)} {calls : List (UsbCall × Answers P)}
    (hrun : Run (When (Step S) (Cooperates S)) (init S rootId devices volumes) calls s) {uri : String}
    (h : s.getUrisForItem S escape listId item = .ok (.ok, [uri])) :
    s.UriOf S escape listId item uri ∧
      (Escapes escape → s.MountsApart S → s.DistinctSiblings S → ∀ listId' item',
        s.getUrisForItem S escape listId' item' = .ok (.ok, [uri]) → listId' = listId ∧ item' = item) := by
  obtain ⟨hs, hg⟩ := run_grounded hvalid hcacheable hrun
  have huri := hs.uriOf hg h
  exact ⟨huri, fun hescape hmounts hdistinct listId' item' h' =>
    huri.inj hs hescape hmounts hdistinct (hs.uriOf hg h')⟩

end UsbTree

/-! ## A file with a space in its name -/

/-- `curlpp::escape` for names in which only spaces, percent signs and slashes need it. -/
def exampleEscapeChar (c : Char) : List Char :=
  if c = '%' then ['%', '2', '5'] else if c = '/' then ['%', '2', 'F'] else if c = ' ' then ['%', '2', '0'] else [c]

def exampleEscape (name : String) : String := .ofList (name.toList.flatMap exampleEscapeChar)

theorem exampleEscapeChar_inj {c c' : Char} {l l' : List Char}
    (h : exampleEscapeChar c ++ l = exampleEscapeChar c' ++ l') : c = c' ∧ l = l' := by
  grind [exampleEscapeChar]

theorem exampleEscape_escapes : Escapes exampleEscape where
  injective name name' h := by
    have h : name.toList.flatMap exampleEscapeChar = name'.toList.flatMap exampleEscapeChar := String.ofList_injective h
    refine String.toList_injective ?_
    generalize name.toList = l at h
    generalize name'.toList = l' at h
    have hne : ∀ c, exampleEscapeChar c ≠ [] := fun c => by
      unfold exampleEscapeChar
      split_ifs <;> simp
    induction l generalizing l' with
    | nil =>
      cases l' with
      | nil => rfl
      | cons c' l' => exact absurd (List.append_eq_nil_iff.mp h.symm).1 (hne c')
    | cons c l ih =>
      cases l' with
      | nil => exact absurd (List.append_eq_nil_iff.mp h).1 (hne c)
      | cons c' l' =>
        rw [List.flatMap_cons, List.flatMap_cons] at h
        obtain ⟨rfl, hrest⟩ := exampleEscapeChar_inj h
        rw [ih l' hrest]
  noSlash name h := by
    rw [exampleEscape, String.toList_ofList] at h
    obtain ⟨c, -, h⟩ := List.mem_flatMap.mp h
    grind [exampleEscapeChar]

namespace UsbTree

theorem uris_name_files_space : ∃ s : UsbTree ℕ, s.UriOf exampleSetup exampleEscape ⟨4⟩ 1
    "file:///run/MounTA/1/a%20song.flac" ∧
    ∀ listId' item', s.getUrisForItem exampleSetup exampleEscape listId' item' =
      .ok (.ok, ["file:///run/MounTA/1/a%20song.flac"]) → listId' = ⟨4⟩ ∧ item' = 1 := by
  obtain ⟨s, hrun, hs⟩ := run_any (Cooperates exampleSetup) (exampleCalls fun _ => some (["albums"], ["a song.flac"]))
    (Q := fun s => (s.getUrisForItem exampleSetup exampleEscape ⟨4⟩ 1).toOption =
        some (.ok, ["file:///run/MounTA/1/a%20song.flac"]) ∧ s.MountsApart exampleSetup ∧
      (((s.lists 0).deviceData.map (·.displayName)).Nodup ∧
        (∀ device ∈ (s.lists 0).deviceData, (device.volumes.map (·.displayName)).Nodup) ∧
        ∀ p ∈ s.shelf.cached, (s.lists p).names.Nodup)) (by decide +kernel)
  obtain ⟨huri, hmounts, hdevices, hvolumes, hdirectories⟩ := of_decide_eq_true hs
  obtain ⟨hof, hunique⟩ := uris_name_files (by decide) (by decide) hrun (ok_of_toOption huri)
  exact ⟨s, hof, hunique exampleEscape_escapes hmounts ⟨hdevices, hvolumes, hdirectories⟩⟩

end UsbTree

end Listbrokers.Tree
