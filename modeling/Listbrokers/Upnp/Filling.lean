import Mathlib.Data.Int.Notation
import Mathlib.Data.List.Forall2
import Listbrokers.Tiles.Cancellation

/-!
# Filling tiles with UPnP items

`DBusUPnPFiller::fill`, which asks the server for as many children as fit into a
tile, and what the worker makes of the number it returns. The number includes
the malformed child at which it stops (`fillChildren_count`), and nothing
happens to the tile if it is zero: all children but malformed ones get into the
tile, and nothing else does, exactly if there is at least one child and none of
them is malformed, or the call fails.
-/

namespace Listbrokers.Upnp

open Framework Tiles

/-- The `ListError` codes of the filler. -/
inductive FillError
  | notFound
  | protocol
  | empty
  | permissionDenied
  | notSupported
  | interrupted
  | busy3000
  | netIo
  deriving DecidableEq, Repr

/-- `GIOErrorEnum`; all codes that have no name there are `unknown`. -/
inductive GIOErrorEnum
  | failed
  | notFound
  | exists
  | isDirectory
  | notDirectory
  | notEmpty
  | notRegularFile
  | notSymbolicLink
  | notMountableFile
  | filenameTooLong
  | invalidFilename
  | tooManyLinks
  | noSpace
  | invalidArgument
  | permissionDenied
  | notSupported
  | notMounted
  | alreadyMounted
  | closed
  | cancelled
  | pending
  | readOnly
  | cantCreateBackup
  | wrongEtag
  | timedOut
  | wouldRecurse
  | busy
  | wouldBlock
  | hostNotFound
  | wouldMerge
  | failedHandled
  | tooManyOpenFiles
  | notInitialized
  | addressInUse
  | partialInput
  | invalidData
  | dbusError
  | hostUnreachable
  | networkUnreachable
  | connectionRefused
  | proxyFailed
  | proxyAuthFailed
  | proxyNeedAuth
  | proxyNotAllowed
  | brokenPipe
  | notConnected
  | messageTooLarge
  | noSuchDevice
  | unknown
  deriving DecidableEq, Repr

/-- `GError`, of the domain `G_IO_ERROR` or of another one. -/
inductive GError
  | io (code : GIOErrorEnum)
  | other
  deriving DecidableEq, Repr

/-- `io_error_to_list_error`, with a GLib that knows `G_IO_ERROR_NO_SUCH_DEVICE`. -/
def ioErrorToListError : GError → FillError
  | .io .notFound => .empty
  | .io .permissionDenied | .io .connectionRefused | .io .proxyAuthFailed | .io .proxyNeedAuth | .io .proxyNotAllowed =>
    .permissionDenied
  | .io .notSupported => .notSupported
  | .io .cancelled => .interrupted
  | .io .pending | .io .busy | .io .wouldBlock => .busy3000
  | .io .hostNotFound | .io .hostUnreachable | .io .networkUnreachable | .io .proxyFailed | .io .noSuchDevice => .netIo
  | .io _ | .other => .protocol

/-- `ListItemKind`, as far as UPnP items have it. -/
inductive ListItemKind
  | opaqueItem
  | directory
  | regularFile
  deriving DecidableEq, Repr

/-- `ItemData`. -/
structure ItemData where
  dbusPath : String
  displayName : String
  albumArtUrl : String
  kind : ListItemKind
  deriving DecidableEq, Repr

/-- `ItemData::reset`. -/
instance : Inhabited ItemData := ⟨"", "", "", .opaqueItem⟩

/-- The dictionary that describes a child; all values are strings. -/
abbrev ChildData := List (String × String)

/-- The local variables of `fill_list_item_from_upnp_data`; `is_container` is there if it is set. -/
structure FoundInfo where
  displayName : Option String
  path : Option String
  albumArtUrl : Option String
  isContainer : Option Bool

/-- One round of the loop in `fill_list_item_from_upnp_data`. -/
def FoundInfo.add (info : FoundInfo) (entry : String × String) : FoundInfo :=
  if entry.1 = "DisplayName" then { info with displayName := some entry.2 }
  else if entry.1 = "Path" then { info with path := some entry.2 }
  else if entry.1 = "AlbumArtURL" then { info with albumArtUrl := some entry.2 }
  else if entry.1 = "Type" then { info with isContainer := some (entry.2 = "container") }
  else info

/-- `fill_list_item_from_upnp_data`: the data for the item, which stays as it is if there is an error. -/
def fillListItemFromUpnpData (childData : ChildData) : Except FillError ItemData :=
  match childData.foldl FoundInfo.add ⟨none, none, none, none⟩ with
  | ⟨some displayName, some path, albumArtUrl, some isContainer⟩ =>
    .ok ⟨path, displayName, albumArtUrl.getD "", if isContainer then .directory else .regularFile⟩
  | _ => .error .protocol

/-- How the server answers `ListChildren`. There may also be no proxy for the call. -/
inductive Reply
  | noProxy
  | failed (error : GError)
  | children (children : List ChildData)
  deriving DecidableEq, Repr

/-- What a filler returns, and the items it has written, from the first one of the tile on. -/
structure FillReturn where
  items : List ItemData
  retval : ℤ
  error : Option FillError
  deriving DecidableEq, Repr

/-- The loop over the children; `retval` is incremented after a child that has led to an error, too. -/
def fillChildren : List ChildData → FillReturn
  | [] => ⟨[], 0, none⟩
  | child :: rest =>
    match fillListItemFromUpnpData child with
    | .ok item => ⟨item :: (fillChildren rest).items, (fillChildren rest).retval + 1, (fillChildren rest).error⟩
    | .error e => ⟨[], 1, some e⟩

/-- `DBusUPnPFiller::fill`. -/
def fill (count : ℕ) : Reply → FillReturn
  | .noProxy => ⟨[], -1, some .notFound⟩
  | .failed error => ⟨[], -1, some (ioErrorToListError error)⟩
  | .children children => fillChildren (children.take count)

/-! ## The tile -/

section

variable (tileSize : ℕ) (number : FillError → ℕ)

/-- `ListError`; the numbers of the codes do not matter. -/
def listError : Option FillError → ListError
  | none => .ok
  | some e => .other (number e)

/-- `do_fill_tile`, after the filler has written its items and has returned. -/
def notify (t : ListTile ItemData) (r : FillReturn) : List ListId × ListTile ItemData :=
  if 0 < r.retval then ([], t.doneNotification r.retval.toNat)
  else if r.retval < 0 then t.canceledNotification tileSize (listError number r.error)
  else ([], t)

/-- `do_fill_tile`. -/
def doFillTile (t : ListTile ItemData) (reply : Reply) : List ListId × ListTile ItemData :=
  notify tileSize number (t.write (fill tileSize reply).items) (fill tileSize reply)

end

/-- `size`; there is nothing in a tile that is not ready. -/
def offered (t : ListTile ItemData) : ℕ := if t.state = .ready then t.storedItemsCount else 0

/-- `get_list_item_by_raw_index`, which does not return while the tile is being filled. -/
def getListItemByRawIndex (t : ListTile ItemData) (rawIndex : ℕ) : Option (Except ListError ItemData) :=
  match t.state with
  | .filling => none
  | .ready => some (.ok (t.items rawIndex).data)
  | _ => some (.error t.error)

/-! ## What is expected -/

/-- All data that make an item are there. -/
def IsWellFormed (child : ChildData) : Prop := ∀ key ∈ ["DisplayName", "Path", "Type"], key ∈ child.map Prod.fst

instance (child : ChildData) : Decidable (IsWellFormed child) := inferInstanceAs (Decidable (∀ _ ∈ _, _))

namespace Reply

variable (count : ℕ)

/-- The children that have been asked for. -/
def requested : Reply → List ChildData
  | children cs => cs.take count
  | _ => []

/-- The children before the first malformed one. -/
def leading (reply : Reply) : List ChildData := (reply.requested count).takeWhile fun child => IsWellFormed child

/-- Some items are missing: there is no proxy, or the call or a child has failed. -/
def Fails : Reply → Prop
  | children cs => ∃ child ∈ cs.take count, ¬ IsWellFormed child
  | _ => True

/-- The call fails, or there are children, and all of them are well-formed. -/
def IsUsable : Reply → Prop
  | children cs => cs.take count ≠ [] ∧ ∀ child ∈ cs.take count, IsWellFormed child
  | _ => True

end Reply

/-- The tile is filled with the leading children of the reply, and with nothing else, and reading items which are
missing because of a failure is an error. -/
structure Handles (tileSize : ℕ) (reply : Reply) (t : ListTile ItemData) : Prop where
  processed : t.state ≠ .filling
  offered : offered t = (reply.leading tileSize).length
  items : ∀ i child, (reply.leading tileSize)[i]? = some child → fillListItemFromUpnpData child = .ok (t.items i).data
  failures : reply.Fails tileSize → ∀ i < tileSize, (reply.leading tileSize).length ≤ i →
    ∃ e, getListItemByRawIndex t i = some (.error e) ∧ e ≠ .ok

variable {tileSize : ℕ} {number : FillError → ℕ} {child : ChildData} {cs : List ChildData} {reply : Reply}
  {t : ListTile ItemData}

/-! ## The children -/

/-- The keys that have been found. -/
theorem foldl_add (entries : ChildData) (info : FoundInfo) :
    ((entries.foldl FoundInfo.add info).displayName.isSome ↔
      info.displayName.isSome ∨ "DisplayName" ∈ entries.map Prod.fst) ∧
    ((entries.foldl FoundInfo.add info).path.isSome ↔ info.path.isSome ∨ "Path" ∈ entries.map Prod.fst) ∧
    ((entries.foldl FoundInfo.add info).isContainer.isSome ↔
      info.isContainer.isSome ∨ "Type" ∈ entries.map Prod.fst) := by
  induction entries generalizing info with
  | nil => simp
  | cons entry entries ih =>
    obtain ⟨hname, hpath, hcontainer⟩ := ih (info.add entry)
    rw [List.foldl_cons, hname, hpath, hcontainer]
    simp only [List.map_cons, List.mem_cons]
    unfold FoundInfo.add
    split
    · next h => simp [h]
    · next hname =>
      split
      · next h => simp [h]
      · next hpath =>
        split
        · next h => simp [h]
        · next hart =>
          split
          · next h => simp [h]
          · next htype => simp [Ne.symm hname, Ne.symm hpath, Ne.symm htype]

/-- Exactly the well-formed children make an item. -/
theorem fillListItem_isOk_iff : (fillListItemFromUpnpData child).isOk = true ↔ IsWellFormed child := by
  obtain ⟨hname, hpath, hcontainer⟩ := foldl_add child ⟨none, none, none, none⟩
  have hall : IsWellFormed child ↔ (child.foldl FoundInfo.add ⟨none, none, none, none⟩).displayName.isSome ∧
      (child.foldl FoundInfo.add ⟨none, none, none, none⟩).path.isSome ∧
      (child.foldl FoundInfo.add ⟨none, none, none, none⟩).isContainer.isSome := by
    rw [hname, hpath, hcontainer]
    simp [IsWellFormed]
  rw [hall]
  unfold fillListItemFromUpnpData
  obtain ⟨name, path, art, container⟩ := child.foldl FoundInfo.add ⟨none, none, none, none⟩
  cases name <;> cases path <;> cases container <;> simp [Except.isOk, Except.toBool]

theorem exists_of_isWellFormed (h : IsWellFormed child) : ∃ item, fillListItemFromUpnpData child = .ok item := by
  have hok := fillListItem_isOk_iff.mpr h
  cases hitem : fillListItemFromUpnpData child with
  | ok item => exact ⟨item, rfl⟩
  | error e =>
    rw [hitem] at hok
    cases hok

theorem exists_of_not_isWellFormed (h : ¬ IsWellFormed child) : ∃ e, fillListItemFromUpnpData child = .error e := by
  cases hitem : fillListItemFromUpnpData child with
  | ok item => exact absurd (fillListItem_isOk_iff.mp (by rw [hitem]; rfl)) h
  | error e => exact ⟨e, rfl⟩

/-- The items are those of the leading well-formed children. -/
theorem fillChildren_items (cs : List ChildData) :
    List.Forall₂ (fun child item => fillListItemFromUpnpData child = .ok item)
      (cs.takeWhile fun child => IsWellFormed child) (fillChildren cs).items := by
  induction cs with
  | nil => exact .nil
  | cons child rest ih =>
    by_cases h : IsWellFormed child
    · obtain ⟨item, hitem⟩ := exists_of_isWellFormed h
      rw [fillChildren, hitem, List.takeWhile_cons, if_pos (decide_eq_true h)]
      exact .cons hitem ih
    · obtain ⟨e, he⟩ := exists_of_not_isWellFormed h
      rw [fillChildren, he, List.takeWhile_cons, if_neg (by simpa using h)]
      exact .nil

/-- The number that is returned is that of the items if all children are well-formed, and one too large otherwise. -/
theorem fillChildren_retval (cs : List ChildData) :
    (fillChildren cs).retval =
      (fillChildren cs).items.length + if ∀ child ∈ cs, IsWellFormed child then (0 : ℤ) else 1 := by
  induction cs with
  | nil => rfl
  | cons child rest ih =>
    by_cases h : IsWellFormed child
    · obtain ⟨item, hitem⟩ := exists_of_isWellFormed h
      rw [fillChildren, hitem]
      simp only [ih, List.forall_mem_cons, h, true_and, List.length_cons]
      omega
    · obtain ⟨e, he⟩ := exists_of_not_isWellFormed h
      rw [fillChildren, he, if_neg fun hall => h (List.forall_mem_cons.mp hall).1]
      rfl

/-- There is no more data than has been asked for. -/
theorem fill_length_le : (fill tileSize reply).items.length ≤ tileSize := by
  cases reply with
  | noProxy | failed => exact Nat.zero_le _
  | children cs =>
    rw [fill, ← (fillChildren_items _).length_eq]
    exact Nat.le_trans (List.takeWhile_sublist _).length_le (List.length_take_le ..)

/-! ## The tile after the filler has returned -/

section

variable {r : FillReturn}

theorem notify_pos (h : 0 < r.retval) : notify tileSize number t r = ([], t.doneNotification r.retval.toNat) := if_pos h

theorem notify_zero (h : r.retval = 0) : notify tileSize number t r = ([], t) := by
  rw [notify, if_neg (by omega), if_neg (by omega)]

theorem notify_neg (h : r.retval < 0) :
    notify tileSize number t r = t.canceledNotification tileSize (listError number r.error) := by
  rw [notify, if_neg (by omega), if_pos h]

/-- Fillers that return the number of their items, or -1, do to a tile what `ListTile.doFillTile` says. -/
theorem notify_eq_doFillTile (filler : Filler tileSize ItemData) (mayContinue : Bool)
    (hitems : r.items = (filler.fill t.base mayContinue).items)
    (hretval : r.retval = if (filler.fill t.base mayContinue).failed then -1 else (r.items.length : ℤ))
    (herror : listError number r.error = (filler.fill t.base mayContinue).error) :
    notify tileSize number (t.write r.items) r = t.doFillTile filler mayContinue := by
  unfold ListTile.doFillTile
  rw [hitems] at hretval ⊢
  split at hretval
  · next hfailed => rw [if_pos hfailed, notify_neg (by omega), herror]
  · next hfailed =>
    rw [if_neg hfailed]
    split
    · next hzero =>
      rw [notify_zero (by omega), List.length_eq_zero_iff.mp hzero]
      simp [ListTile.write]
    · rw [notify_pos (by omega), hretval]
      rfl

end

/-- A call that fails is handled. -/
theorem handles_failure {e : FillError} (hfill : fill tileSize reply = ⟨[], -1, some e⟩)
    (hleading : reply.leading tileSize = []) : Handles tileSize reply (doFillTile tileSize number t reply).2 := by
  have hstate : (doFillTile tileSize number t reply).2 =
      ((t.write []).reset tileSize (.other (number e)) .error).2 := by
    rw [doFillTile, hfill, notify_neg (Int.negSucc_lt_zero 0)]
    rfl
  rw [hstate]
  refine ⟨nofun, ?_, fun i child hchild => ?_, fun _ i _ _ => ⟨.other (number e), rfl, nofun⟩⟩
  · rw [hleading]
    rfl
  · rw [hleading] at hchild
    cases hchild

/-- A tile that is filled with children. -/
theorem doFillTile_done (hcs : cs.take tileSize ≠ []) :
    (doFillTile tileSize number t (.children cs)).2 =
      (t.write (fillChildren (cs.take tileSize)).items).doneNotification
      (fillChildren (cs.take tileSize)).retval.toNat := by
  have hpos : 0 < (fillChildren (cs.take tileSize)).retval := by
    obtain ⟨child, rest, hcons⟩ := List.exists_cons_of_ne_nil hcs
    rw [fillChildren_retval]
    split
    · next hall =>
      obtain ⟨item, hitem⟩ := exists_of_isWellFormed (hall child (hcons ▸ List.mem_cons_self))
      rw [hcons, fillChildren, hitem, List.length_cons]
      omega
    · omega
  rw [doFillTile, fill, notify_pos hpos]

/-- A reply with children is handled if and only if there is at least one, and none of them is malformed. -/
theorem handles_children_iff (hstate : t.state = .filling) (hstored : t.storedItemsCount = 0) :
    Handles tileSize (.children cs) (doFillTile tileSize number t (.children cs)).2 ↔
      (Reply.children cs).IsUsable tileSize := by
  by_cases hcs : cs.take tileSize = []
  · refine iff_of_false (fun h => h.processed ?_) fun h => h.1 hcs
    rw [doFillTile, fill, hcs, notify_zero rfl]
    exact hstate
  · have hitems := fillChildren_items (cs.take tileSize)
    have hretval := fillChildren_retval (cs.take tileSize)
    have hoffered : offered ((t.write (fillChildren (cs.take tileSize)).items).doneNotification
        (fillChildren (cs.take tileSize)).retval.toNat) = (fillChildren (cs.take tileSize)).retval.toNat := by
      change t.storedItemsCount + _ = _
      rw [hstored, Nat.zero_add]
    rw [doFillTile_done hcs]
    constructor
    · intro h
      refine ⟨hcs, not_not.mp fun hmalformed => ?_⟩
      have hlength := h.offered.trans hitems.length_eq
      rw [hoffered, hretval, if_neg hmalformed] at hlength
      omega
    · rintro ⟨-, hall⟩
      rw [if_pos hall] at hretval
      refine ⟨nofun, ?_, fun i child hchild => ?_, fun hfails => ?_⟩
      · rw [hoffered, hretval]
        exact hitems.length_eq.symm
      · obtain ⟨hi, rfl⟩ := List.getElem?_eq_some_iff.mp hchild
        have hi' : i < (fillChildren (cs.take tileSize)).items.length := hitems.length_eq ▸ hi
        refine (hitems.get hi hi').trans ?_
        simp only [ListTile.doneNotification, ListTile.write, dif_pos hi', List.get_eq_getElem]
      · obtain ⟨child, hchild, hmalformed⟩ := hfails
        exact absurd (hall child hchild) hmalformed

/-- Handling a reply in a tile that is being filled. -/
theorem handles_iff_isUsable (hstate : t.state = .filling) (hstored : t.storedItemsCount = 0) :
    Handles tileSize reply (doFillTile tileSize number t reply).2 ↔ reply.IsUsable tileSize := by
  cases reply with
  | noProxy => exact iff_of_true (handles_failure rfl rfl) trivial
  | failed error => exact iff_of_true (handles_failure rfl rfl) trivial
  | children cs => exact handles_children_iff hstate hstored

/-! ## The steps of the worker -/

section

variable {τ ω : Type} [DecidableEq τ] [DecidableEq ω] {s s' : Threads τ ω ItemData} {r : Request τ} {w : ω}

/-- Items are written from an index on. -/
def writeEvents (τ : Type) (w : ω) : ℕ → List ItemData → List (ThreadEvent τ ω ItemData)
  | _, [] => []
  | k, data :: rest => .write w k data :: writeEvents τ w (k + 1) rest

/-- What is done by a worker that has locked a tile. -/
def fillEvents (τ : Type) (number : FillError → ℕ) (w : ω) (r : FillReturn) : List (ThreadEvent τ ω ItemData) :=
  .unlockQueue w :: writeEvents τ w 0 r.items ++
    if 0 < r.retval then [.doneNotification w r.retval.toNat]
    else if r.retval < 0 then [.canceledNotification w (listError number r.error)]
    else []

/-- The items of a tile from an index on after they have been written. -/
def writtenFrom (items : ℕ → ListItem ItemData) (k : ℕ) (data : List ItemData) : ℕ → ListItem ItemData := fun i =>
  if h : k ≤ i ∧ i - k < data.length then ⟨(items i).child, data[i - k]⟩ else items i

theorem writtenFrom_cons (items : ℕ → ListItem ItemData) (k : ℕ) (d : ItemData) (rest : List ItemData) :
    writtenFrom (Function.update items k { items k with data := d }) (k + 1) rest =
      writtenFrom items k (d :: rest) := by
  funext i
  unfold writtenFrom
  rcases Nat.lt_trichotomy i k with hlt | rfl | hgt
  · rw [dif_neg (by omega), dif_neg (by omega), Function.update_of_ne (by omega)]
  · rw [dif_neg (by omega), dif_pos ⟨Nat.le_refl _, by simp⟩, Function.update_self]
    simp
  · have hsub : i - k = i - (k + 1) + 1 := by omega
    rw [Function.update_of_ne (by omega)]
    by_cases h : i - (k + 1) < rest.length
    · rw [dif_pos ⟨by omega, h⟩, dif_pos ⟨by omega, by simp only [List.length_cons]; omega⟩]
      simp only [hsub, List.getElem_cons_succ]
    · rw [dif_neg (fun h' => h h'.2), dif_neg fun h' => h (by simp only [List.length_cons] at h'; omega)]

theorem write_run (data : List ItemData) {k : ℕ} (hk : k + data.length ≤ tileSize) (hpc : s.worker w = .filling r) :
    ∃ s', Run (ThreadStep tileSize) s (writeEvents τ w k data) s' ∧ s'.worker w = .filling r ∧
      s'.tile r.tile = { s.tile r.tile with items := writtenFrom (s.tile r.tile).items k data } := by
  induction data generalizing s k with
  | nil =>
    refine ⟨s, .nil s, hpc, ?_⟩
    unfold writtenFrom
    simp
  | cons d rest ih =>
    rw [List.length_cons] at hk
    obtain ⟨s', hrun, hpc', htile⟩ := ih (by omega) hpc
      (s := s.change r.tile ([], { s.tile r.tile with
        items := Function.update (s.tile r.tile).items k { (s.tile r.tile).items k with data := d } })) (k := k + 1)
    refine ⟨s', .cons (.write hpc (by omega)) hrun, hpc', ?_⟩
    rw [htile]
    simp only [Threads.change, Function.update_self]
    rw [writtenFrom_cons]

/-- The worker's steps do to its tile what `doFillTile` does. -/
theorem doFillTile_run (hpc : s.worker w = .locked r) (reply : Reply) :
    ∃ s', Run (ThreadStep tileSize) s (fillEvents τ number w (fill tileSize reply)) s' ∧
      s'.tile r.tile = (doFillTile tileSize number (s.tile r.tile) reply).2 := by
  have hfilling : ({ s with queueLock := none }.moveWorker w (.filling r)).worker w = .filling r :=
    Function.update_self ..
  have hfits : 0 + (fill tileSize reply).items.length ≤ tileSize := by
    rw [Nat.zero_add]
    exact fill_length_le
  obtain ⟨s₁, hrun, hpc₁, htile⟩ := write_run _ hfits hfilling
  have hwritten : s₁.tile r.tile = (s.tile r.tile).write (fill tileSize reply).items := by
    rw [htile]
    unfold ListTile.write writtenFrom
    simp [Threads.moveWorker]
  have hrun := Run.cons (.unlockQueue hpc) hrun
  unfold doFillTile fillEvents notify
  rw [← hwritten]
  split
  · next hpos =>
    exact ⟨_, hrun.snoc (.doneNotification hpc₁ (by omega)), by simp [Threads.change, Threads.moveWorker]⟩
  · split
    · exact ⟨_, hrun.snoc (.canceledNotification hpc₁), by simp [Threads.change, Threads.moveWorker]⟩
    · exact ⟨s₁, by simpa using hrun, rfl⟩

/-- A tile that a worker has locked is being filled, and there is nothing in it. -/
theorem filling_of_locked {es : List (ThreadEvent τ ω ItemData)} (h : Run (ThreadStep tileSize) .init es s)
    (hlocked : s.worker w = .locked r) : (s.tile r.tile).state = .filling ∧ (s.tile r.tile).storedItemsCount = 0 := by
  obtain ⟨-, hassigned, -⟩ := run_sound h
  have hat : s.At r (.taken w) := by
    change (s.worker w).request = some r
    rw [hlocked]
    rfl
  have hstate : (s.tile r.tile).state = .filling := (hassigned.filling r _ hat).resolve_right fun hqueued => by
    cases hqueued.1
  exact ⟨hstate, run_unfilled h r.tile (by simp [hstate])⟩

/-- A worker has locked a tile for two items. -/
theorem locked_run : ∃ s : Threads Unit Unit ItemData, Run (ThreadStep 2) .init
    [.activate () 0, .enterQueue, .enqueue, .leaveQueue, .lockQueue (), .dequeue (), .lockTile ()] s ∧
    s.worker () = .locked ⟨(), 1⟩ ∧ s.tile () = { ListTile.init with state := .filling } :=
  ⟨_, .cons (.activate rfl rfl) (.cons (.enterQueue rfl rfl) (.cons (.enqueue rfl) (.cons (.leaveQueue rfl)
    (.cons (.lockQueue rfl rfl) (.cons (.dequeue rfl rfl) (.cons (.lockTile rfl rfl) (.nil _))))))), rfl, rfl⟩

/-- A child with all data. -/
def exampleChild : ChildData := [("DisplayName", "Song"), ("Path", "/server/song"), ("Type", "music")]

/-- The server has no children from there on: the tile is being filled for ever. And if it sends a malformed child,
an item is offered that has not been written. -/
theorem unusable_not_handled : ∃ (es : List (ThreadEvent Unit Unit ItemData)) (s : Threads Unit Unit ItemData),
    Run (ThreadStep 2) .init es s ∧ s.worker () = .locked ⟨(), 1⟩ ∧
    (doFillTile 2 (fun _ => 0) (s.tile ()) (.children [])).2.state = .filling ∧
    ¬ Handles 2 (.children []) (doFillTile 2 (fun _ => 0) (s.tile ()) (.children [])).2 ∧
    offered (doFillTile 2 (fun _ => 0) (s.tile ()) (.children [exampleChild, []])).2 = 2 ∧
    ((doFillTile 2 (fun _ => 0) (s.tile ()) (.children [exampleChild, []])).2.items 1).data = default ∧
    ¬ Handles 2 (.children [exampleChild, []])
      (doFillTile 2 (fun _ => 0) (s.tile ()) (.children [exampleChild, []])).2 := by
  obtain ⟨s, hrun, hlocked, htile⟩ := locked_run
  refine ⟨_, s, hrun, hlocked, ?_⟩
  rw [htile]
  have hoffered : offered (doFillTile 2 (fun _ => 0) { ListTile.init with state := .filling }
      (.children [exampleChild, []])).2 = 2 := by decide
  refine ⟨by decide, fun h => h.processed (by decide), hoffered, by decide, fun h => ?_⟩
  exact absurd (hoffered.symm.trans h.offered) (by decide)

/-- For each state in which a worker has locked a tile: the tile is filled with the leading well-formed children and
nothing else, and other items are known to be missing, if and only if the call fails, or there are children, and all
of them are well-formed. -/
theorem handles_iff {es : List (ThreadEvent τ ω ItemData)} (h : Run (ThreadStep tileSize) .init es s)
    (hlocked : s.worker w = .locked r) (reply : Reply) :
    Handles tileSize reply (doFillTile tileSize number (s.tile r.tile) reply).2 ↔ reply.IsUsable tileSize := by
  obtain ⟨hstate, hstored⟩ := filling_of_locked h hlocked
  exact handles_iff_isUsable hstate hstored

/-- There is one child, which gets into the tile. -/
theorem handles_single : ∃ t : ListTile ItemData, t.state = .filling ∧
    Handles 2 (.children [exampleChild]) (doFillTile 2 (fun _ => 0) t (.children [exampleChild])).2 := by
  obtain ⟨s, hrun, hlocked, htile⟩ := locked_run
  exact ⟨s.tile (), by rw [htile], (handles_iff hrun hlocked (.children [exampleChild])).mpr ⟨by decide, by decide⟩⟩

end

end Listbrokers.Upnp
