import Listbrokers.Tree.Names

/-!
# Round trips of locations

An item is made a location, and the location is realized. Where the items of each
list have different names, this leads back to the item.
-/

namespace Listbrokers.Tree

open Framework Tiles

variable {P R : Type} [DecidableEq P] {S : PathSetup P} {F : LocationFormat} {a : Answers P} {s t : UsbTree P}
    {p q this : P}
  {item : ℕ} {listId : ListId}

/-! ## Realizing the location of an item -/

/-- The item at the end of a trail has been reached. -/
structure Arrived (T : UsbSetup P) (s : UsbTree P) (place : Place P) (above : List (Place P))
    (w : Walk P RealizeUrlResult) : Prop where
  entered : Entered T s w.tree place.list
  link : w.parentLink.1.isValid = false ∨ ∃ q ∈ place :: above, w.parentLink = (s.shelf.id q.list, q.item)
  listId : w.result.listId = s.shelf.id place.list
  itemId : w.result.itemId = place.item

theorem followPath_nothing {autoSearch : Bool} {foundItem : ListId → ℕ → PathItemKind → R → LocationError × R}
    (range : ℕ × ℕ) (w : Walk P R) : followPath S autoSearch foundItem "".toList range w = .ok (.enter .ok, w) := by
  unfold followPath
  split
  · rw [followLoop]
    rfl
  · rfl

section

omit [DecidableEq P]

theorem andThen_ok (follow : Walk P R → Except Fault (LocationError × Walk P R)) (w : Walk P R) :
    andThen follow (.enter .ok, w) = follow w := rfl

end

/-- A path that has been put together is followed along the names that it has been made of. -/
theorem followPath_join {autoSearch : Bool} {foundItem : ListId → ℕ → PathItemKind → R → LocationError × R}
    {range : ℕ × ℕ} {w : Walk P R} (hF : F.JoinsBySlash) {places : List (Place P)}
    (hnames : ∀ place ∈ places, Proper place.name) (hvalid : w.dirListId.isValid = true) :
    followPath S autoSearch foundItem (F.join (places.map (·.name)).reverse).toList range w =
      followComponents S autoSearch foundItem (places.map (·.name.toList)).reverse (.enter .ok) range w := by
  rw [followPath_components _ _ hvalid, hF.components_join fun n hn => ?_]
  · simp [Function.comp_def]
  · rw [List.mem_reverse] at hn
    obtain ⟨place, hplace, rfl⟩ := List.mem_map.mp hn
    exact hnames place hplace

section

omit [DecidableEq P]

/-- The lists of a trail keep their names. -/
theorem Entered.getItemName {place : Place P} {above : List (Place P)} {T : UsbSetup P} (hs : s.Settled T)
    (h : Trail T s (place :: above)) (hentered : Entered T s t place.list) {q : Place P} (hq : q ∈ place :: above) :
    q.list ∈ T.forest.path place.list ∧ ∃ kind, t.getItemName kind q.list q.item = .ok q.name := by
  obtain ⟨hroot, hpath⟩ := h.mem_path
  obtain ⟨below, above', hsplit⟩ := List.append_of_mem hq
  rw [hsplit] at h
  refine ⟨hpath q hq, levelKind above'.length, ?_⟩
  rw [(hentered.kept _ hroot).getItemName hs.rooted hentered.rooted h.of_append.root (hentered.kept _ (hpath q hq)),
    h.of_append.getItemName]

/-- There is a title for the list in which the item has been found. -/
theorem Arrived.setListTitle {place : Place P} {above : List (Place P)} {w : Walk P RealizeUrlResult}
    (hs : s.Settled S.tree) (h : Trail S.tree s (place :: above)) (harrived : Arrived S.tree s place above w) :
    ∃ title, setListTitle S w = .ok { w.result with listTitle := title } := by
  have hvalid := hs.rooted.labelled.valid _ h.cached
  unfold Tree.setListTitle
  rw [if_neg (by simp [harrived.listId, hvalid])]
  rcases harrived.link with hlink | ⟨q, hq, hlink⟩
  · rw [if_neg (by simp [hlink])]
    exact ⟨_, rfl⟩
  · obtain ⟨hpath, kind, hname⟩ := harrived.entered.getItemName hs h hq
    have hkept := harrived.entered.kept q.list hpath
    have hfind := harrived.entered.rooted.labelled.find_id hkept.cached
    rw [hkept.id] at hfind
    obtain ⟨title, htitle⟩ := UsbTree.getChildListTitle_of_getItemName hname hfind S.storageIsDirectory
    rw [hlink, htitle]
    split <;> exact ⟨_, rfl⟩

/-- What is above an item that is a directory or a file. -/
theorem mem_of_candidate {volume device place : Place P} {dirs : List (Place P)} {link : ListId × ℕ}
    (h : link = (dirs.head?.map fun dir => (s.shelf.id dir.list, dir.item)).getD
      (s.shelf.id volume.list, volume.item)) :
    ∃ q ∈ place :: (dirs ++ [volume, device]), link = (s.shelf.id q.list, q.item) := by
  cases dirs with
  | nil => exact ⟨volume, by simp, h⟩
  | cons dir dirs => exact ⟨dir, by simp, h⟩

/-- Each directory is one more step away from the reference point. -/
theorem distance_along (s : UsbTree P) (place : Place P) (dirs : List (Place P)) (w : Walk P RealizeUrlResult) :
    (w.along s foundBelowReference place dirs).result.distance = w.result.distance + dirs.length := by
  induction dirs generalizing place with
  | nil => rfl
  | cons dir dirs ih => exact congrArg (· + 1) (ih dir)

end

section

variable {volume device place : Place P} {dirs above : List (Place P)} (hs : s.Settled S.tree)
  (hdistinct : s.DistinctSiblings S.tree) (hsize : s.FitsItemIds)

include hs hdistinct hsize

/-- Realizing the location of a device. -/
theorem arrived_device (h : Trail S.tree s [device]) (hname : device.name ≠ "")
    (hmay : ∀ n, s.MayEnter S.tree (S.answers n) device.list device.item) :
    ∃ w, enterVolume S device.name "" (.start s) = .ok (.enter .ok, w) ∧ Arrived S.tree s device [] w := by
  obtain ⟨hroot, items, entry, hitems, hentry, -⟩ := h.of_device
  have henterable : s.IsEnterable device.list device.item := by
    unfold UsbTree.IsEnterable
    rw [hroot, hitems]
    trivial
  obtain ⟨child, t, henter, hvalid, hrooted, hkept⟩ := (hmay 0).enterChild hs h.path_cached
    (UsbTree.lt_of_getItemName h.getItemName) henterable
  exact ⟨_, h.enterVolume_device hs hdistinct hsize hname rfl henter hvalid, ⟨hrooted, hkept⟩, .inl rfl, rfl, rfl⟩

/-- Realizing the location of a volume. -/
theorem arrived_volume (h : Trail S.tree s [volume, device]) (hnames : ∀ place ∈ [volume, device], place.name ≠ "")
    (hmay : ∀ n, s.MayEnter S.tree (S.answers n) volume.list volume.item) {w : Walk P RealizeUrlResult}
    (hw : w.tree = s) :
    ∃ w', enterVolume S device.name volume.name w = .ok (.enter .ok, w') ∧ Arrived S.tree s volume [device] w' ∧
      w'.dirListId.isValid = true ∧ w'.parentLinkCandidate = (s.shelf.id volume.list, volume.item) ∧
          w'.result.distance = w.result.distance := by
  obtain ⟨devices, entry, items, -, -, -, hitems, -⟩ := h.of_volume hs
  have henterable : s.IsEnterable volume.list volume.item := by
    unfold UsbTree.IsEnterable
    rw [hitems]
    trivial
  obtain ⟨child, t, henter, hvalid, hrooted, hkept⟩ := (hmay (w.entered + 1)).enterChild hs h.path_cached
    (UsbTree.lt_of_getItemName h.getItemName) henterable
  exact ⟨_, h.enterVolume_volume hs hdistinct hsize hnames hw (hmay _).continues henter hvalid,
    ⟨⟨hrooted, hkept⟩, .inr ⟨device, by simp, rfl⟩, rfl, rfl⟩, hvalid, rfl, rfl⟩

/-- The volume is entered on the way to a directory or a file. -/
theorem enterVolume_above (h : Trail S.tree s (place :: (dirs ++ [volume, device])))
    (hnames : ∀ place ∈ [volume, device], place.name ≠ "") (hcontinue : ∀ n, (S.answers n).mayContinue = true)
    {w : Walk P RealizeUrlResult} (hw : w.tree = s) :
    ∃ w', enterVolume S device.name volume.name w = .ok (.enter .ok, w') ∧ w'.tree = s ∧ w'.dirListId.isValid = true ∧
      (∀ bottom ∈ (place :: dirs).getLast?, w'.dirListId = s.shelf.id bottom.list) ∧
      w'.parentLinkCandidate = (s.shelf.id volume.list, volume.item) ∧ w'.result.distance = w.result.distance := by
  obtain ⟨init, bottom, hsplit⟩ : ∃ init bottom, place :: dirs = init ++ [bottom] :=
    ⟨_, _, (List.dropLast_append_getLast (List.cons_ne_nil place dirs)).symm⟩
  rw [← List.cons_append, hsplit, List.append_assoc] at h
  have hbottom : Trail S.tree s (bottom :: [volume, device]) := h.of_append
  have henter := hbottom.enterChild_linked hs (hcontinue (w.entered + 1))
  have hvalid := hs.rooted.labelled.valid _ hbottom.cached
  refine ⟨_, hbottom.tail.enterVolume_volume hs hdistinct hsize hnames hw (hcontinue _) henter hvalid, rfl,
    hvalid, ?_, rfl, rfl⟩
  rw [hsplit, List.getLast?_concat]
  rintro _ ⟨⟩
  rfl

/-- A trail is followed down to the item at its end. -/
theorem follow_item (foundItem : ListId → ℕ → PathItemKind → R → LocationError × R)
    (hfound : ∀ listId item kind r, (foundItem listId item kind r).1 = .enter .ok)
    (h : Trail S.tree s (place :: (dirs ++ above))) (habove : 2 ≤ above.length)
    (hmay : ∀ n, s.MayEnter S.tree (S.answers n) place.list place.item) {w : Walk P R} (hw : w.tree = s)
    (hstart : ∀ bottom ∈ (place :: dirs).getLast?, w.dirListId = s.shelf.id bottom.list) :
    ∃ kind w', followComponents S false foundItem (((place :: dirs).map (·.name.toList)).reverse)
      (.enter .ok) (0, 0) w =
        .ok (.enter .ok, w') ∧
      w'.result = (foundItem (s.shelf.id place.list) place.item (.entry kind)
        (w.along s foundItem place dirs).result).2 ∧
      w'.parentLink = (dirs.head?.map fun dir => (s.shelf.id dir.list, dir.item)).getD w.parentLinkCandidate ∧
      Entered S.tree s w'.tree place.list := by
  have hid := Walk.along_dirListId foundItem hstart
  obtain ⟨kind, w', hlast, hresult, hlink, hentered⟩ := h.follow_last (S := S) false
    (w := w.along s foundItem place dirs) hs hdistinct hsize (by rw [List.length_append]; omega) hmay
    ((Walk.along_tree ..).trans hw) hid (fun kind => hfound ..) (.inr rfl)
  refine ⟨kind, w', ?_, ?_, ?_, hentered⟩
  · rw [List.map_cons, List.reverse_cons,
      h.follow hs hdistinct hsize (fun n => (hmay n).continues) (fun _ _ _ => hfound ..) habove hw hstart,
      hlast]
  · rw [hresult, hid]
  · rw [hlink, Walk.along_candidate]

/-- Realizing the simple key of a directory or a file. -/
theorem realizeSimple_item (hF : F.JoinsBySlash) (h : Trail S.tree s (place :: (dirs ++ [volume, device])))
    (hproper : ∀ q ∈ place :: (dirs ++ [volume, device]), Proper q.name)
    (hmay : ∀ n, s.MayEnter S.tree (S.answers n) place.list place.item) :
    ∃ w, realizeSimple S ⟨device.name, volume.name, F.join ((place :: dirs).map (·.name)).reverse⟩ (.start s) =
        .ok (.enter .ok, w) ∧
      Arrived S.tree s place (dirs ++ [volume, device]) w := by
  obtain ⟨w₁, henter, htree, hvalid, hstart, hcandidate, -⟩ := enterVolume_above hs hdistinct hsize h
    (fun q hq => (hproper q (List.mem_cons_of_mem _ (List.mem_append_right _ hq))).1) (fun n => (hmay n).continues)
    (w := .start s) rfl
  obtain ⟨kind, w₂, hfollow, hresult, hlink, hentered⟩ := follow_item hs hdistinct hsize foundItem
    (fun _ _ _ _ => rfl) h (Nat.le_refl 2) hmay htree hstart
  refine ⟨w₂, ?_, hentered, .inr (mem_of_candidate (hcandidate ▸ hlink)), by rw [hresult]; rfl, by rw [hresult]; rfl⟩
  unfold realizeSimple
  rw [henter]
  dsimp only [bind, Except.bind]
  have hdirs : ∀ q ∈ place :: dirs, Proper q.name := fun q hq => hproper q (List.mem_append_left [volume, device] hq)
  rw [andThen_ok, followPath_join hF hdirs hvalid, hfollow]

/-- Realizing the reference key of a directory or a file. -/
theorem realizeReference_item (hF : F.JoinsBySlash) (h : Trail S.tree s (place :: (dirs ++ [volume, device])))
    (hproper : ∀ q ∈ place :: (dirs ++ [volume, device]), Proper q.name)
    (hmay : ∀ n, s.MayEnter S.tree (S.answers n) place.list place.item) (itemPosition : Option ℕ) :
    ∃ w, realizeReference S ⟨device.name, volume.name, F.join (dirs.map (·.name)).reverse, place.name, itemPosition⟩
      (.start s) =
        .ok (.enter .ok, w) ∧
      Arrived S.tree s place (dirs ++ [volume, device]) w := by
  have hcontinue := fun n => (hmay n).continues
  obtain ⟨w₁, henter, htree, hvalid, hstart, hcandidate, -⟩ := enterVolume_above hs hdistinct hsize h
    (fun q hq => (hproper q (List.mem_cons_of_mem _ (List.mem_append_right _ hq))).1) hcontinue (w := .start s) rfl
  have hfound : ∀ listId item r, (foundReference S listId item (.entry .directory) r).1 = .enter .ok := fun _ _ _ => rfl
  have hfollow := h.follow hs hdistinct hsize hcontinue hfound (Nat.le_refl 2) htree hstart []
  have hid := Walk.along_dirListId (foundReference S) hstart
  have hlink := Walk.along_candidate (foundReference S) s place dirs w₁
  have htree' := (Walk.along_tree (foundReference S) s place dirs w₁).trans htree
  generalize w₁.along s (foundReference S) place dirs = w₂ at hfollow hid hlink htree'
  obtain ⟨kind, w₃, hlast, hresult, hlink', hentered⟩ := h.follow_last true hs hdistinct hsize (by simp) hmay htree' hid
    (fun kind => (rfl : (foundItem w₂.dirListId place.item (.entry kind) w₂.result).1 = .enter .ok)) (.inl rfl)
  rw [List.append_nil] at hfollow
  refine ⟨w₃, ?_, hentered, .inr (mem_of_candidate (hlink'.trans (hcandidate ▸ hlink))), by rw [hresult]; exact hid,
      by rw [hresult]; rfl⟩
  unfold realizeReference
  rw [henter]
  dsimp only [bind, Except.bind]
  rw [andThen_ok, followPath_join hF (fun q hq => hproper q (List.mem_cons_of_mem _ (List.mem_append_left _ hq)))
    hvalid, hfollow]
  dsimp only [followComponents]
  rw [andThen_ok, followPath_components _ _ (hid ▸ hs.rooted.labelled.valid _ h.cached),
    components_singleton (hproper place List.mem_cons_self)]
  exact hlast

/-- Realizing a trace, of which the reference point is the directory at the end of `refs`, or the volume if there
are none. -/
theorem realizeTrace_item {below refs : List (Place P)} {trace : LocationTrace} (hF : F.JoinsBySlash)
    (h : Trail S.tree s (place :: (below ++ (refs ++ [volume, device]))))
    (hproper : ∀ q ∈ place :: (below ++ (refs ++ [volume, device])), Proper q.name)
    (hmay : ∀ n, s.MayEnter S.tree (S.answers n) place.list place.item) (hdevice : trace.device = device.name)
    (hpartition : trace.partition = volume.name) (href : trace.referencePoint = F.join (refs.map (·.name)).reverse)
    (hitem : trace.itemName = F.join ((place :: below).map (·.name)).reverse) :
    ∃ w, realizeTrace S F trace (.start s) = .ok (.enter .ok, w) ∧
      Arrived S.tree s place (below ++ (refs ++ [volume, device])) w ∧
      (w.result.refListId, w.result.refItemId) =
        (refs.head?.map fun ref => (s.shelf.id ref.list, ref.item)).getD (s.shelf.id volume.list, volume.item) ∧
      w.result.distance = below.length + 1 := by
  have hcontinue := fun n => (hmay n).continues
  obtain ⟨init, bottom, hsplit⟩ : ∃ init bottom, place :: below = init ++ [bottom] :=
    ⟨_, _, (List.dropLast_append_getLast (List.cons_ne_nil place below)).symm⟩
  have hbottom : Trail S.tree s (bottom :: (refs ++ [volume, device])) := by
    have h' := h
    rw [← List.cons_append, hsplit, List.append_assoc] at h'
    exact h'.of_append
  obtain ⟨w₁, henter, htree, hvalid, hstart, hcandidate, hdistance⟩ := enterVolume_above hs hdistinct hsize hbottom
    (fun q hq => (hproper q (List.mem_cons_of_mem _ (List.mem_append_right _ (List.mem_append_right _ hq)))).1)
      hcontinue
    (w := { Walk.start s with result := { (Walk.start s).result with traceLength := F.traceLength trace } }) rfl
  -- down to the reference point
  have hfound : ∀ listId item r, (foundReference S listId item (.entry .directory) r).1 = .enter .ok := fun _ _ _ => rfl
  have hfollow := hbottom.follow hs hdistinct hsize hcontinue hfound (Nat.le_refl 2) htree hstart []
  have hid := Walk.along_dirListId (foundReference S) hstart
  have hlink := Walk.along_candidate (foundReference S) s bottom refs w₁
  have htree' := (Walk.along_tree (foundReference S) s bottom refs w₁).trans htree
  have hdistance' := Walk.along_result RealizeUrlResult.distance (foundReference S) (fun _ _ _ => rfl) s bottom
    refs w₁
  generalize w₁.along s (foundReference S) bottom refs = w₂ at hfollow hid hlink htree' hdistance'
  rw [List.append_nil] at hfollow
  -- and on to the item
  generalize hw₃ : ({ w₂ with
    result := { w₂.result with
      refListId := w₂.parentLinkCandidate.1
      refItemId := w₂.parentLinkCandidate.2 } } : Walk P RealizeUrlResult) = w₃
  have hstart' : ∀ b ∈ (place :: below).getLast?, w₃.dirListId = s.shelf.id b.list := by
    rw [hsplit, List.getLast?_concat, ← hw₃]
    rintro _ ⟨⟩
    exact hid
  obtain ⟨kind, w₄, hfollow', hresult, hlink', hentered⟩ := follow_item hs hdistinct hsize foundBelowReference
    (fun _ _ _ _ => rfl) h (by simp) hmay (w := w₃) (hw₃ ▸ htree') hstart'
  have href' := Walk.along_result (fun r : RealizeUrlResult => (r.refListId, r.refItemId)) foundBelowReference
    (fun _ _ _ => rfl) s place below w₃
  have hdistance'' := distance_along s place below w₃
  refine ⟨w₄, ?_, ⟨hentered, .inr ?_, by rw [hresult]; rfl, by rw [hresult]; rfl⟩, ?_, ?_⟩
  · unfold realizeTrace
    rw [hdevice, hpartition]
    dsimp only [bind, Except.bind]
    rw [henter]
    dsimp only
    rw [andThen_ok, href, followPath_join hF
      (fun q hq => hproper q (List.mem_cons_of_mem _ (List.mem_append_right _ (List.mem_append_left _ hq))))
        hvalid, hfollow]
    dsimp only [followComponents]
    have hvalid' : w₃.dirListId.isValid = true := by
      rw [← hw₃]
      exact hid ▸ hs.rooted.labelled.valid _ hbottom.cached
    have hbelow : ∀ q ∈ place :: below, Proper q.name := fun q hq =>
      hproper q (List.mem_append_left (refs ++ [volume, device]) hq)
    rw [andThen_ok, hw₃, hitem, followPath_join hF hbelow hvalid', hfollow']
  · cases below with
    | nil => 
      rw [hlink', ← hw₃]
      exact mem_of_candidate (hcandidate ▸ hlink)
    | cons dir below => exact ⟨dir, by simp, hlink'⟩
  · rw [hresult]
    refine Eq.trans href' ?_
    rw [← hw₃, ← hcandidate, ← hlink]
  · rw [hresult]
    change _ + 1 = _
    rw [hdistance'', ← hw₃]
    change w₂.result.distance + _ + 1 = _
    rw [hdistance', hdistance]
    change 0 + _ + 1 = _
    rw [Nat.zero_add]

end

/-- An item that has been reached is returned. -/
theorem Arrived.realize {location : Location} {w : Walk P RealizeUrlResult} {place : Place P} {above : List (Place P)}
    (hs : s.Settled S.tree) (h : Trail S.tree s (place :: above))
    (hr : realizeLocation S F location (.start s) = .ok (.enter .ok, w)) (harrived : Arrived S.tree s place above w) :
    ∃ title, realize S F location s = .ok (.enter .ok, { w.result with listTitle := title }, w.tree) := by
  obtain ⟨title, htitle⟩ := harrived.setListTitle hs h
  refine ⟨title, ?_⟩
  unfold Tree.realize
  rw [hr]
  dsimp only [bind, Except.bind]
  rw [htitle]
  rfl

/-! ## Location keys -/

theorem pathNames_join (hF : F.JoinsBySlash) {names : List String} (hnames : ∀ n ∈ names, Proper n) :
    pathNames (F.join names) = names := by
  rw [pathNames, hF.components_join hnames]
  simp [Function.comp_def]

theorem pathNames_proper {name : String} (h : Proper name) : pathNames name = [name] := by
  rw [pathNames, components_singleton h]
  simp

/-- The location key of the item at the end of a trail, which is the first of `dirs`, or else the volume. -/
def trailKey (F : LocationFormat) (asReferenceKey : Bool) (dirs : List (Place P))
    (volume device : Place P) : Location :=
  if asReferenceKey then
    .reference ⟨device.name, volume.name, F.join (dirs.map (·.name)).tail.reverse, (dirs.map (·.name)).head?.getD "",
      some ((dirs.head?.getD volume).item + 1)⟩
  else .simple ⟨device.name, volume.name, F.join (dirs.map (·.name)).reverse⟩

section

omit [DecidableEq P]

/-- The names of the key are those of the trail. -/
theorem trailKey_names (hF : F.JoinsBySlash) {dirs : List (Place P)} {volume device : Place P}
    (hproper : ∀ place ∈ dirs ++ [volume, device], Proper place.name) (asReferenceKey : Bool) :
    (trailKey F asReferenceKey dirs volume device).names = (dirs ++ [volume, device]).map (·.name) := by
  have hdirs : ∀ n ∈ dirs.map (·.name), Proper n := by
    rintro _ hn
    obtain ⟨place, hplace, rfl⟩ := List.mem_map.mp hn
    exact hproper place (List.mem_append_left _ hplace)
  have hvolume : volume.name ≠ "" := (hproper volume (by simp)).1
  cases asReferenceKey with
  | false =>
    change keyNames _ _ (F.join _) "" = _
    rw [keyNames, pathNames_join hF fun n hn => hdirs n (List.mem_reverse.mp hn), pathNames_empty, if_neg hvolume]
    simp
  | true =>
    change keyNames _ _ (F.join _) _ = _
    rw [keyNames, pathNames_join hF fun n hn => hdirs n (List.mem_of_mem_tail (List.mem_reverse.mp hn)), if_neg hvolume]
    cases dirs with
    | nil => simp [pathNames_empty]
    | cons place dirs =>
      rw [List.map_cons, List.head?_cons, Option.getD_some, pathNames_proper (hdirs place.name (by simp))]
      simp

end

/-- Nothing is followed if there is nothing but a device and a volume. -/
theorem realizeLocation_nothing {deviceName volumeName : String} {w : Walk P RealizeUrlResult}
    (h : enterVolume S deviceName volumeName (.start s) = .ok (.enter .ok, w)) (asReferenceKey : Bool)
    (itemPosition : Option ℕ) :
    realizeLocation S F (if asReferenceKey then .reference ⟨deviceName, volumeName, "", "", itemPosition⟩
      else .simple ⟨deviceName, volumeName, ""⟩) (.start s) = .ok (.enter .ok, w) := by
  cases asReferenceKey with
  | false =>
    change realizeSimple S _ _ = _
    unfold realizeSimple
    rw [h]
    exact followPath_nothing ..
  | true =>
    change realizeReference S _ _ = _
    unfold realizeReference
    rw [h]
    change (andThen (followPath S false (foundReference S) "".toList (0, 0)) (.enter .ok, w) >>= _) = _
    rw [andThen_ok, followPath_nothing]
    exact followPath_nothing ..

/-- The key of an item leads back to the item, if the items of each list have different names. -/
theorem realizeLocation_trailKey (hs : s.Settled S.tree) (hdistinct : s.DistinctSiblings S.tree) (hsize : s.FitsItemIds)
    (hF : F.JoinsBySlash) {place volume device : Place P} {dirs above : List (Place P)}
    (h : Trail S.tree s (place :: above)) (e : place :: above = dirs ++ [volume, device])
    (hproper : ∀ place ∈ dirs ++ [volume, device], Proper place.name)
    (hmay : ∀ n, s.MayEnter S.tree (S.answers n) place.list place.item) (asReferenceKey : Bool) :
    ∃ w, realizeLocation S F (trailKey F asReferenceKey dirs volume device) (.start s) = .ok (.enter .ok, w) ∧
      Arrived S.tree s place above w := by
  cases dirs with
  | nil =>
    cases e
    obtain ⟨w, hw, harrived, -⟩ :=
      arrived_volume hs hdistinct hsize h (fun place hplace => (hproper place hplace).1) hmay (w := .start s) rfl
    exact ⟨w, realizeLocation_nothing hw asReferenceKey _, harrived⟩
  | cons place' dirs =>
    obtain ⟨rfl, rfl⟩ := List.cons.inj e
    cases asReferenceKey with
    | false => exact realizeSimple_item hs hdistinct hsize hF h hproper hmay
    | true => exact realizeReference_item hs hdistinct hsize hF h hproper hmay _

/-- In every run in which all directories that are entered can be read, an item of a list that is cached together
with the lists above it has got location keys. If the cache discards nothing, whatever a key leads to has the names
of the item; and if the items of each list have different names, and the item can be entered, both keys lead to the
item. -/
theorem keys_round_trip {rootId : ListId} (hvalid : rootId.isValid = true) (hcacheable : rootId.nocacheBit = false)
    {devices : List (ℕ × String × String)} {volumes : List (ℕ × VolumeInfo)} {calls : List (UsbCall × Answers P)}
    (hrun : Run (When (UsbTree.Step S.tree) (UsbTree.ReadsDirectories S.tree))
      (UsbTree.init S.tree rootId devices volumes) calls s)
    (hF : F.JoinsBySlash) (hnames : s.ProperNames S.tree) (hsize : s.FitsItemIds) (hlist : s.shelf.find listId = some p)
    (hcached : ∀ q ∈ S.tree.forest.path p, q ∈ s.shelf.cached) (hitem : item < (s.lists p).links.length)
    (asReferenceKey : Bool) :
    ∃ names key, s.HasNames S.tree listId item names ∧
      s.getLocationKey S.tree F listId (item + 1) asReferenceKey = pure key ∧
      ((∀ n, (S.answers n).collected = []) → ∀ result t, realize S F key s = .ok (.enter .ok, result, t) →
        t.HasNames S.tree result.listId result.itemId names) ∧
      (s.DistinctSiblings S.tree → (∀ n, s.MayEnter S.tree (S.answers n) p item) →
        ∃ result t, realize S F key s = .ok (.enter .ok, result, t) ∧ result.listId = listId ∧
          result.itemId = item) := by
  have hs := UsbTree.run_settled hvalid hcacheable hrun
  have hid := (Shelf.mem_of_find hlist).2
  obtain ⟨name, above, htrail⟩ := hs.trail hcached hitem
  have hproper := htrail.proper hs hnames
  have hlt : item < 2 ^ 32 := htrail.item_lt hsize
  suffices hkey : ∃ key, s.getLocationKey S.tree F listId (item + 1) asReferenceKey = pure key ∧
      key.names = ((⟨p, item, name⟩ : Place P) :: above).map (·.name) ∧
      (s.DistinctSiblings S.tree → (∀ n, s.MayEnter S.tree (S.answers n) p item) →
        ∃ w, realizeLocation S F key (.start s) = .ok (.enter .ok, w) ∧ Arrived S.tree s ⟨p, item, name⟩ above w) by
    obtain ⟨key, hkey, hkeyNames, hrealize⟩ := hkey
    refine ⟨_, key, ⟨⟨p, item, name⟩, above, htrail, hid, rfl, rfl⟩, hkey, fun hnothing result t hr => ?_,
      fun hdistinct hmay => ?_⟩
    · rw [← hkeyNames]
      exact realize_found hs.regular hsize hnothing hr
    · obtain ⟨w, hw, harrived⟩ := hrealize hdistinct hmay
      obtain ⟨title, hr⟩ := harrived.realize hs htrail hw
      exact ⟨_, _, hr, harrived.listId.trans hid, harrived.itemId⟩
  rcases htrail.shape with ⟨device, e⟩ | ⟨dirs, volume, device, e⟩
  · cases e
    have hname : name ≠ "" := (hproper _ List.mem_cons_self).1
    refine ⟨_, htrail.getLocationKey_device hs hlist hname hlt asReferenceKey, ?_, fun hdistinct hmay => ?_⟩
    · cases asReferenceKey <;> simp [Location.names, keyNames, pathNames_empty]
    · obtain ⟨w, hw, harrived⟩ := arrived_device hs hdistinct hsize htrail hname hmay
      exact ⟨w, realizeLocation_nothing hw asReferenceKey none, harrived⟩
  · have hhead : dirs.head?.getD volume = ⟨p, item, name⟩ := by
      cases dirs with
      | nil => cases e; rfl
      | cons place dirs => cases e; rfl
    have hkey := (e ▸ htrail).getLocationKey (F := F) hs (by rw [hhead]; exact hlist)
        (fun place hplace => (hproper place (e ▸ hplace)).1)
      (by rw [hhead]; exact hlt) asReferenceKey
    rw [hhead] at hkey
    refine ⟨trailKey F asReferenceKey dirs volume device, ?_, ?_, fun hdistinct hmay => ?_⟩
    · rw [hkey, trailKey, hhead]
    · rw [trailKey_names hF (e ▸ hproper), e]
    · exact realizeLocation_trailKey hs hdistinct hsize hF htrail e (e ▸ hproper) hmay asReferenceKey

/-- The reference key of a directory. -/
theorem keys_round_trip_directory : ∃ key result t,
    UsbTree.exampleTree.getLocationKey UsbTree.exampleSetup exampleFormat ⟨4⟩ 1 true = pure key ∧
    realize examplePaths exampleFormat key UsbTree.exampleTree = .ok (.enter .ok, result, t) ∧ result.listId = ⟨4⟩ ∧
    result.itemId = 0 := by
  obtain ⟨names, key, -, hkey, -, hrealize⟩ :=
    keys_round_trip (S := examplePaths) (F := exampleFormat) (by decide) (by decide)
    UsbTree.exampleTree_run (fun _ _ => rfl) UsbTree.exampleTree_names UsbTree.exampleTree_size (p := 2)
    (by decide +kernel : UsbTree.exampleTree.shelf.find ⟨4⟩ = some 2) UsbTree.exampleTree_cached
    (by decide +kernel : 0 < (UsbTree.exampleTree.lists 2).links.length) true
  obtain ⟨result, t, hr, hlist, hitem⟩ :=
    hrealize UsbTree.exampleTree_distinct (UsbTree.exampleTree_mayEnter (by decide))
  exact ⟨key, result, t, hkey, hr, hlist, hitem⟩

end Listbrokers.Tree
