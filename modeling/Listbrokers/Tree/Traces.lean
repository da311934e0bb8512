import Listbrokers.Tree.RoundTrips

/-!
# Round trips of traces

A trace stores the reference point as the path of its directory below the volume. If
the reference point is a device, then there is no such path, and the trace leads to
the volume as reference point.
-/

namespace Listbrokers.Tree

open Framework Tiles

variable {P : Type} [DecidableEq P] {S : PathSetup P} {F : LocationFormat} {s t : UsbTree P} {p : P} {item refItem : ℕ}
  {listId refListId : ListId}

/-! ## The reference point of a trace -/

section

omit [DecidableEq P]

/-- The lists of a trail have different IDs. -/
theorem Trail.ids {T : UsbSetup P} {places : List (Place P)} (hs : s.Settled T) (h : Trail T s places) :
    places.Pairwise fun q q' => s.shelf.id q.list ≠ s.shelf.id q'.list := by
  cases places with
  | nil => exact .nil
  | cons place above =>
    have hcached := h.path_cached
    have hnodup : ((place :: above).map (·.list)).Nodup := h.map_list ▸ T.forest.nodup_path place.list
    refine (List.pairwise_map.mp hnodup).imp_of_mem fun {q q'} hq hq' hne e => hne ?_
    have hpath := h.mem_path.2
    exact hs.rooted.labelled.ids _ (hcached _ (hpath q hq)) _ (hcached _ (hpath q' hq')) e

end

/-- The place below which the items of `refs` are. -/
def referencePlace (refs : List (Place P)) (volume : Place P) : Place P := refs.head?.getD volume

section

variable {T : UsbSetup P} {volume device : Place P} {dirs : List (Place P)} {trace : LocationTrace}

section

omit [DecidableEq P]

/-- The reference point of a trace is on the way to the item. If it is not the device, then the trace has been split
there. -/
theorem Trail.of_trace (hs : s.Settled T) (h : Trail T s (dirs ++ [volume, device]))
    (hlist : s.shelf.find listId = some (dirs.head?.getD volume).list)
    (hnames : ∀ q ∈ dirs ++ [volume, device], q.name ≠ "") (hsize : s.FitsItemIds) (hvalid : refListId.isValid = true)
    (hne : refListId ≠ listId)
    (hr : s.getLocationTrace T F listId ((dirs.head?.getD volume).item + 1) refListId (refItem + 1) = pure trace) :
    ∃ below refs, dirs = below ++ refs ∧ trace.device = device.name ∧ trace.partition = volume.name ∧
      trace.referencePoint = F.join (refs.map (·.name)).reverse ∧ trace.itemName = F.join (below.map (·.name)).reverse ∧
      (refListId = s.shelf.id device.list ∧ refs = [] ∨
        below ≠ [] ∧ refListId = s.shelf.id (referencePlace refs volume).list ∧
          refItem = (referencePlace refs volume).item) := by
  have hids := h.ids hs
  have hsucc : ∀ q ∈ dirs ++ [volume, device], q.item + 1 < 2 ^ 32 := fun q hq => by
    obtain ⟨below, above, e⟩ := List.append_of_mem hq
    have htrail := (e ▸ h).of_append
    exact Nat.lt_of_le_of_lt (UsbTree.lt_of_getItemName htrail.getItemName) (hsize _ htrail.cached)
  have hhead : dirs.head?.getD volume ∈ dirs ++ [volume, device] := by
    cases dirs <;> simp
  have hlistId := (Shelf.mem_of_find hlist).2
  obtain ⟨elements, elements₁, elements₂, helements, helements₁, helements₂, hfound, rfl⟩ :=
    h.of_getLocationTrace hs hlist hnames (Nat.lt_of_succ_lt (hsucc _ hhead)) hr
  rw [hvalid] at helements
  by_cases href : ∃ ref ∈ dirs, s.shelf.id ref.list = refListId
  · obtain ⟨ref, hmem, rfl⟩ := href
    obtain ⟨below, refs, rfl⟩ := List.append_of_mem hmem
    rw [List.append_assoc, List.cons_append, List.pairwise_append, List.pairwise_cons] at hids
    obtain ⟨-, ⟨habove, -⟩, hbelow⟩ := hids
    have hbelow : ∀ q ∈ below, s.shelf.id q.list ≠ s.shelf.id ref.list := fun q hq => hbelow q hq ref List.mem_cons_self
    have habove : ∀ q ∈ refs ++ [volume, device], s.shelf.id q.list ≠ s.shelf.id ref.list := fun q hq =>
      (habove q hq).symm
    rw [Bool.not_true, foldlM_reference (hsucc ref (List.mem_append_left _ hmem)) hbelow fun q hq =>
      habove q (List.mem_append_left _ hq)] at helements
    split at helements
    · next hitem =>
      cases helements
      rw [handleReferencePoint_of_ne (habove volume (by simp))] at helements₁
      cases helements₁
      rw [handleReferencePoint_of_ne (habove device (by simp))] at helements₂
      cases helements₂
      refine ⟨below, ref :: refs, rfl, rfl, rfl, rfl, if_neg (by simp), .inr ⟨?_, rfl, (Nat.succ.inj hitem).symm⟩⟩
      rintro rfl
      exact hne hlistId
    · cases helements
  · have hdirs : ∀ q ∈ dirs, s.shelf.id q.list ≠ refListId := fun q hq e => href ⟨q, hq, e⟩
    rw [foldlM_onDirectory hdirs] at helements
    cases helements
    have hitemName : (if dirs.length = 0 then "" else F.join (dirs.map (·.name)).reverse) =
        F.join (dirs.map (·.name)).reverse := by
      cases dirs <;> rfl
    have hvolume : s.shelf.id volume.list ≠ s.shelf.id device.list := by
      rw [List.pairwise_append] at hids
      exact List.rel_of_pairwise_cons hids.2.1 List.mem_cons_self
    by_cases href : s.shelf.id volume.list = refListId
    · subst href
      rw [handleReferencePoint_self (hsucc volume (by simp))] at helements₁
      split at helements₁
      · next hitem =>
        cases helements₁
        rw [handleReferencePoint_of_ne hvolume.symm] at helements₂
        cases helements₂
        refine ⟨dirs, [], (List.append_nil dirs).symm, rfl, rfl, rfl, hitemName,
          .inr ⟨?_, rfl, (Nat.succ.inj hitem).symm⟩⟩
        rintro rfl
        exact hne hlistId
      · cases helements₁
    · rw [handleReferencePoint_of_ne href] at helements₁
      cases helements₁
      by_cases href : s.shelf.id device.list = refListId
      · subst href
        rw [handleReferencePoint_self (hsucc device (by simp))] at helements₂
        split at helements₂
        · cases helements₂
          exact ⟨dirs, [], (List.append_nil dirs).symm, rfl, rfl, rfl, hitemName, .inl ⟨rfl, rfl⟩⟩
        · cases helements₂
      · rw [handleReferencePoint_of_ne href] at helements₂
        cases helements₂
        cases hfound

end

end

/-! ## Realizing traces -/

/-- A trace leads back to the item and to the reference point that it has been made for. -/
def TraceLeadsBack (S : PathSetup P) (F : LocationFormat) (s : UsbTree P) (trace : LocationTrace)
    (listId : ListId) (item : ℕ) (refListId : ListId) (refItem : ℕ) : Prop :=
  ∃ result t, realize S F (.trace trace) s = .ok (.enter .ok, result, t) ∧ result.listId = listId ∧
    result.itemId = item ∧ result.refListId = refListId ∧ result.refItemId = refItem ∧
    result.distance + s.getListDepth S.tree refListId = s.getListDepth S.tree listId

section

variable {volume device place : Place P} {above : List (Place P)} {trace : LocationTrace} (hs : s.Settled S.tree)
  (hdistinct : s.DistinctSiblings S.tree) (hsize : s.FitsItemIds)

include hs hdistinct hsize

/-- Realizing a trace that is about a volume. -/
theorem realizeTrace_volume (h : Trail S.tree s [volume, device]) (hnames : ∀ q ∈ [volume, device], q.name ≠ "")
    (hmay : ∀ n, s.MayEnter S.tree (S.answers n) volume.list volume.item) (hdevice : trace.device = device.name)
    (hpartition : trace.partition = volume.name) (href : trace.referencePoint = "") (hitem : trace.itemName = "") :
    ∃ w, realizeTrace S F trace (.start s) = .ok (.enter .ok, w) ∧ Arrived S.tree s volume [device] w ∧
      (w.result.refListId, w.result.refItemId) = (s.shelf.id volume.list, volume.item) ∧ w.result.distance = 0 := by
  obtain ⟨w, henter, harrived, -, hcandidate, hdistance⟩ := arrived_volume hs hdistinct hsize h hnames hmay
    (w := { Walk.start s with result := { (Walk.start s).result with traceLength := F.traceLength trace } }) rfl
  refine ⟨{ w with
    result := { w.result with
      refListId := w.parentLinkCandidate.1
      refItemId := w.parentLinkCandidate.2 } }, ?_,
    ⟨harrived.entered, harrived.link, harrived.listId, harrived.itemId⟩, hcandidate, hdistance⟩
  unfold realizeTrace
  rw [hdevice, hpartition, href, hitem]
  dsimp only [bind, Except.bind]
  rw [henter]
  dsimp only
  rw [andThen_ok, followPath_nothing]
  dsimp only
  rw [andThen_ok, followPath_nothing]

/-- Realizing the trace of a volume, a directory or a file. -/
theorem realizeTrace_trail {below refs : List (Place P)} (hF : F.JoinsBySlash) (h : Trail S.tree s (place :: above))
    (e : place :: above = below ++ refs ++ [volume, device]) (hrefs : below = [] → refs = [])
    (hproper : ∀ q ∈ place :: above, Proper q.name) (hmay : ∀ n, s.MayEnter S.tree (S.answers n) place.list place.item)
    (hdevice : trace.device = device.name) (hpartition : trace.partition = volume.name)
    (href : trace.referencePoint = F.join (refs.map (·.name)).reverse)
    (hitem : trace.itemName = F.join (below.map (·.name)).reverse) :
    ∃ w, realizeTrace S F trace (.start s) = .ok (.enter .ok, w) ∧ Arrived S.tree s place above w ∧
      (w.result.refListId, w.result.refItemId) =
        (s.shelf.id (referencePlace refs volume).list, (referencePlace refs volume).item) ∧
        w.result.distance = below.length := by
  cases below with
  | nil =>
    obtain rfl := hrefs rfl
    obtain ⟨rfl, rfl⟩ := List.cons.inj e
    exact realizeTrace_volume hs hdistinct hsize h (fun q hq => (hproper q hq).1) hmay hdevice hpartition href hitem
  | cons place' below =>
    rw [List.cons_append, List.cons_append, List.append_assoc] at e
    obtain ⟨rfl, rfl⟩ := List.cons.inj e
    obtain ⟨w, hw, harrived, hreference, hdistance⟩ :=
      realizeTrace_item hs hdistinct hsize hF h hproper hmay hdevice hpartition href hitem
    refine ⟨w, hw, harrived, hreference.trans ?_, hdistance⟩
    cases refs <;> rfl

end

/-- In every run in which all directories that are entered can be read, if the items of each list have different
names, the trace of an item that can be entered leads back to the item and to its reference point, in another list,
if and only if the reference point is not a device. -/
theorem trace_leads_back_iff {rootId : ListId} (hvalid : rootId.isValid = true) (hcacheable : rootId.nocacheBit = false)
    {devices : List (ℕ × String × String)} {volumes : List (ℕ × VolumeInfo)} {calls : List (UsbCall × Answers P)}
    (hrun : Run (When (UsbTree.Step S.tree) (UsbTree.ReadsDirectories S.tree))
      (UsbTree.init S.tree rootId devices volumes) calls s)
    (hF : F.JoinsBySlash) (hnames : s.ProperNames S.tree) (hdistinct : s.DistinctSiblings S.tree)
    (hsize : s.FitsItemIds) (hlist : s.shelf.find listId = some p)
    (hcached : ∀ q ∈ S.tree.forest.path p, q ∈ s.shelf.cached) (hitem : item < (s.lists p).links.length)
    (hmay : ∀ n, s.MayEnter S.tree (S.answers n) p item) (hreference : refListId.isValid = true)
    (hne : refListId ≠ listId) {trace : LocationTrace}
    (htrace : s.getLocationTrace S.tree F listId (item + 1) refListId (refItem + 1) = pure trace) :
    TraceLeadsBack S F s trace listId item refListId refItem ↔ refListId ≠ s.devicesListId := by
  have hs := UsbTree.run_settled hvalid hcacheable hrun
  have hid := (Shelf.mem_of_find hlist).2
  obtain ⟨name, above, htrail⟩ := hs.trail hcached hitem
  have hproper := htrail.proper hs hnames
  rcases htrail.shape with ⟨device, e⟩ | ⟨dirs, volume, device, e⟩
  · -- there is no trace of a device
    cases e
    exact absurd htrace (htrail.getLocationTrace_device hs hlist (hproper _ List.mem_cons_self).1 (htrail.item_lt hsize)
        hreference hne)
  have hhead : dirs.head?.getD volume = ⟨p, item, name⟩ := by
    cases dirs with
    | nil => cases e; rfl
    | cons place dirs => cases e; rfl
  have htrail' : Trail S.tree s (dirs ++ [volume, device]) := e ▸ htrail
  obtain ⟨below, refs, rfl, hdevice, hpartition, hreferencePoint, hitemName, hsplit⟩ := htrail'.of_trace hs
      (by rw [hhead]; exact hlist)
    (fun q hq => (hproper q (e ▸ hq)).1) hsize hreference hne (by rw [hhead]; exact htrace)
  have hrefs : below = [] → refs = [] := fun hbelow => by
    rcases hsplit with ⟨-, hrefs⟩ | ⟨hnot, -⟩
    · exact hrefs
    · exact absurd hbelow hnot
  obtain ⟨w, hw, harrived, hwReference, hdistance⟩ :=
    realizeTrace_trail hs hdistinct hsize hF htrail e hrefs hproper hmay hdevice hpartition hreferencePoint hitemName
  obtain ⟨title, hr⟩ :=
    harrived.realize (F := F) hs htrail (show realizeLocation S F (.trace trace) (.start s) = _ from hw)
  obtain ⟨rest, hrest, hlength⟩ := Trail.append_ne_nil refs volume device
  rw [List.append_assoc, hrest] at htrail'
  have hreferenceTrail : Trail S.tree s (referencePlace refs volume :: rest) := htrail'.of_append
  have hdeviceTrail : Trail S.tree s [device] := by
    have hvolumes : Trail S.tree s (refs ++ volume :: [device]) := hrest ▸ hreferenceTrail
    exact hvolumes.of_append.tail
  have hids := hreferenceTrail.ids hs
  have hmem : device ∈ rest := by
    cases refs with
    | nil =>
      cases hrest
      exact List.mem_cons_self
    | cons ref refs =>
      obtain ⟨-, rfl⟩ := List.cons.inj hrest
      simp
  have hroot : s.shelf.id device.list = s.devicesListId := by
    rw [hdeviceTrail.of_device.1]
    exact hs.rooted.id htrail.root
  obtain ⟨hrefListId, hrefItem⟩ := Prod.mk.inj hwReference
  have hneDevice : s.shelf.id (referencePlace refs volume).list ≠ s.shelf.id device.list :=
    List.rel_of_pairwise_cons hids hmem
  rcases hsplit with ⟨rfl, -⟩ | ⟨-, rfl, rfl⟩
  · -- the trace does not say that the reference point is a device
    refine iff_of_false ?_ (not_not_intro hroot)
    rintro ⟨result, t, hr', -, -, hresult, -⟩
    cases hr.symm.trans hr'
    exact hneDevice (hrefListId.symm.trans hresult)
  · refine iff_of_true ⟨_, _, hr, harrived.listId.trans hid, harrived.itemId, hrefListId, hrefItem, ?_⟩
      (hroot ▸ hneDevice)
    have hcount := congrArg List.length e
    rw [List.append_assoc, hrest, List.length_append, List.length_cons, List.length_cons] at hcount
    rw [htrail.getListDepth hs hlist,
      hreferenceTrail.getListDepth hs (hs.rooted.labelled.find_id hreferenceTrail.cached)]
    change w.result.distance + _ = _
    omega

/-- A trace from a volume to a file. -/
theorem trace_leads_back_file : ∃ trace,
    UsbTree.exampleTree.getLocationTrace UsbTree.exampleSetup exampleFormat ⟨4⟩ 2 ⟨3⟩ 1 = pure trace ∧
    TraceLeadsBack examplePaths exampleFormat UsbTree.exampleTree trace ⟨4⟩ 1 ⟨3⟩ 0 := by
  have htrace : UsbTree.exampleTree.getLocationTrace UsbTree.exampleSetup exampleFormat ⟨4⟩ (1 + 1) ⟨3⟩ (0 + 1) =
      pure ⟨"stick", "music", "", "song.flac", some 2⟩ := by
    have hr : (UsbTree.exampleTree.getLocationTrace UsbTree.exampleSetup exampleFormat ⟨4⟩ 2 ⟨3⟩ 1).run.toOption.bind
        Except.toOption = some ⟨"stick", "music", "", "song.flac", some 2⟩ := by decide +kernel
    obtain ⟨r, hr, hr'⟩ := Option.bind_eq_some_iff.mp hr
    have := ok_of_toOption hr
    rw [ok_of_toOption hr'] at this
    exact this
  exact ⟨_, htrace,
    (trace_leads_back_iff (S := examplePaths) (by decide) (by decide) UsbTree.exampleTree_run (fun _ _ => rfl)
    UsbTree.exampleTree_names UsbTree.exampleTree_distinct UsbTree.exampleTree_size (p := 2) (by decide +kernel)
    UsbTree.exampleTree_cached (by decide +kernel) (UsbTree.exampleTree_mayEnter (by decide)) (by decide)
      (by decide) htrace).mpr
    (by decide +kernel)⟩

end Listbrokers.Tree
