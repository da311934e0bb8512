import Listbrokers.Tree.Entering
import Listbrokers.Tree.Levels

/-!
# `GetListId`

The work for a D-Bus request of the list below an item, which is done some time
after the request has been accepted. It enters the item if the list of the
request is cached then, and answers with the root list otherwise: an answer is
never about an unrelated list if and only if the list is cached still.
-/

namespace Listbrokers.Tree

open Framework Tiles

variable {P : Type} [DecidableEq P] {S : UsbSetup P} {a : Answers P} {s s' : UsbTree P} {p q this : P} {X : Set P}
  {item : ℕ} {id listId : ListId}

/-- `I18n::String`. -/
structure I18nString where
  string : String
  isSubjectToTranslation : Bool
  deriving DecidableEq, Repr

/-- What a work is promised to be answered with. -/
structure GetListIdAnswer where
  error : EnterError
  listId : ListId
  title : I18nString
  deriving DecidableEq, Repr

namespace UsbTree

section

variable (S : UsbSetup P) (a : Answers P) (s : UsbTree P)

/-- `ListTreeManager::use_list`, for a list that is not to be pinned. -/
def useList (id : ListId) : Bool := id.isValid && (s.shelf.find id).isSome

/-- `DeviceList::LIST_TITLE`. -/
def listTitle : I18nString := ⟨"All USB devices", true⟩

/-- `VolumeItemData::get_name`. -/
def getVolumeName (volume : VolumeItemData) : Except Fault String := do
  let (_, devices) ← s.getListOfUsbDevices
  let (_, device) ← deref (getDeviceById devices volume.deviceId)
  let info ← deref (device.volumes.find? fun info => volume.number ≤ info.number)
  return info.displayName

/-- `get_child_list_title`, for the three kinds of lists. Whether storage devices count as directories is told by
the item kind. -/
def getChildListTitle (storageIsDirectory : Bool) (listId : ListId) (item : ℕ) : Except Fault I18nString :=
  match s.shelf.find listId with
  | none => return ⟨"", false⟩
  | some p =>
    match s.lists p with
    | .devices items => do
      let device ← deref items[item]?
      return ⟨if storageIsDirectory then device.data.displayName else "", false⟩
    | .volumes items => do
      let volume ← deref items[item]?
      if storageIsDirectory then do
        let name ← s.getVolumeName volume.data
        return ⟨name, false⟩
      else return ⟨"", false⟩
    | .dir items => do
      let entry ← deref items[item]?
      return ⟨if entry.data.kind = .directory then entry.data.name else "", false⟩

/-- What `GetListID::do_run` does after it has called `use_list`: whether the work is done, and the answer. -/
def answerListId (storageIsDirectory : Bool) (listId : ListId) (item : ℕ) (used : Bool) :
    Except Fault (Bool × GetListIdAnswer × UsbTree P) :=
  if used then do
    let (childId, error, s) ← s.enterChild S a listId item
    if childId.isValid then do
      let title ← s.getChildListTitle storageIsDirectory listId item
      return (error ≠ .interrupted, ⟨error, childId, title⟩, s)
    else return (error ≠ .interrupted, ⟨error, childId, ⟨"", false⟩⟩, s)
  else if s.devicesListId.isValid then return (true, ⟨.ok, s.devicesListId, listTitle⟩, s)
  else return (true, ⟨.ok, s.devicesListId, ⟨"", false⟩⟩, s)

/-- `GetListID::do_run`. -/
def getListId (storageIsDirectory : Bool) (listId : ListId) (item : ℕ) :
    Except Fault (Bool × GetListIdAnswer × UsbTree P) :=
  s.answerListId S a storageIsDirectory listId item (s.useList listId)

end

/-- An answer to a request about an item of a list, by a work that has started in state `s` and enters the item in
state `t`: a list that is cached below this list, or an error, and an error without list if this list is not
cached. -/
structure AnswersRelated (S : UsbSetup P) (listId : ListId) (s t : UsbTree P) (answer : GetListIdAnswer)
    (s' : UsbTree P) : Prop where
  child : answer.listId.isValid = true → answer.error = .ok → ∃ this ∈ t.shelf.find listId, ∃ p ∈ s'.shelf.cached,
    s'.shelf.id p = answer.listId ∧ S.forest.parent p = some this
  gone : s.shelf.find listId = none ∨ t.shelf.find listId = none → answer.error ≠ .ok ∧ answer.listId.isValid = false

/-! ## Entering an item -/

/-- A valid ID that is returned is that of a cached list below the entered one. -/
theorem Sound.enterChild_valid (h : s.Sound S X) {error : EnterError}
    (hr : s.enterChild S a listId item = .ok (id, error, s')) (hvalid : id.isValid = true) :
    ∃ this ∈ s.shelf.find listId, ∃ p ∈ s'.shelf.cached, s'.shelf.id p = id ∧ S.forest.parent p = some this := by
  unfold UsbTree.enterChild at hr
  cases hlist : s.shelf.find listId with
  | none =>
    rw [hlist] at hr
    cases hr
    cases hvalid
  | some this =>
    rw [hlist] at hr
    dsimp only at hr
    by_cases hcontinue : a.mayContinue = true
    · cases hlink : (s.lists this).links[item]? with
      | none =>
        unfold UsbTree.enterChildTemplate at hr
        rw [if_pos hcontinue, hlink] at hr
        cases hr
        cases hvalid
      | some child =>
        by_cases hchild : child.isValid = true ∧ child.nocacheBit = false
        · obtain ⟨p, hp, hpar, hid⟩ :=
            h.booked.sound this child (List.mem_filter.mpr ⟨List.mem_of_getElem? hlink, hchild.1⟩)
          unfold UsbTree.enterChildTemplate at hr
          rw [if_pos hcontinue, hlink] at hr
          dsimp only at hr
          rw [if_pos hchild] at hr
          cases hr
          exact ⟨this, rfl, p, hp, hid, hpar⟩
        · rw [enterChildTemplate_unlinked hcontinue hlink (h.link_invalid hlink hchild)] at hr
          obtain ⟨⟨newId, error', s₁⟩, hadd, hr⟩ := bind_eq_ok hr
          obtain ⟨s₂, hset, hr⟩ := bind_eq_ok hr
          cases hr
          rcases h.addToCache hadd with ⟨hid, -⟩ | ⟨p, hinserted, hp, -⟩ | ⟨-, hid, -⟩
          · rw [show newId.isValid = false from hid] at hvalid
            cases hvalid
          · rw [if_pos (.inl hvalid)] at hset
            unfold UsbTree.setChildList at hset
            obtain ⟨-, hset⟩ := of_assert hset
            obtain ⟨-, hset⟩ := of_assert hset
            cases hset
            exact ⟨this, rfl, p, hp, hinserted.id, hinserted.parent⟩
          · rw [show newId.isValid = false from hid] at hvalid
            cases hvalid
    · unfold UsbTree.enterChildTemplate at hr
      rw [if_neg hcontinue] at hr
      cases hr
      cases hvalid

/-- No item of a list that is not cached is entered. -/
theorem enterChild_gone (hgone : s.shelf.find listId = none) :
    s.enterChild S a listId item = .ok (.invalid, .invalidId, s) := by
  unfold UsbTree.enterChild
  rw [hgone]

/-! ## The answers -/

/-- The answer of a work that uses the list is about the entered item. -/
theorem answerListId_used {storageIsDirectory b : Bool} {answer : GetListIdAnswer}
    (hr : s.answerListId S a storageIsDirectory listId item true = .ok (b, answer, s')) :
    s.enterChild S a listId item = .ok (answer.listId, answer.error, s') := by
  unfold UsbTree.answerListId at hr
  rw [if_pos rfl] at hr
  obtain ⟨⟨childId, error, s₁⟩, henter, hr⟩ := bind_eq_ok hr
  dsimp only at hr
  split at hr
  · obtain ⟨title, -, hr⟩ := bind_eq_ok hr
    cases hr
    exact henter
  · cases hr
    exact henter

/-- The answer of a work that does not use the list is no error. -/
theorem answerListId_unused {storageIsDirectory b : Bool} {answer : GetListIdAnswer}
    (hr : s.answerListId S a storageIsDirectory listId item false = .ok (b, answer, s')) : answer.error = .ok := by
  unfold UsbTree.answerListId at hr
  rw [if_neg Bool.false_ne_true] at hr
  split at hr <;> cases hr <;> rfl

/-- The device is removed while the request for a volume of it waits: the answer is the device list, without error. -/
theorem gone_list_answered_with_root : ∃ s, Run (Step exampleSetup) (init exampleSetup ⟨1⟩ [] [])
    (enteredCalls ++ [(.deviceRemoved 1, exampleAnswers none ⟨6⟩ fun _ => none)]) s ∧ s.shelf.find ⟨3⟩ = none ∧
    s.getListId exampleSetup (exampleAnswers none .invalid fun _ => none) true ⟨3⟩ 0 =
      .ok (true, ⟨.ok, ⟨6⟩, ⟨"All USB devices", true⟩⟩, s) ∧
    ¬ AnswersRelated exampleSetup ⟨3⟩ s s ⟨.ok, ⟨6⟩, ⟨"All USB devices", true⟩⟩ s := by
  obtain ⟨s, hrun, hs⟩ := run_any (fun _ _ => True)
    (enteredCalls ++ [(.deviceRemoved 1, exampleAnswers none ⟨6⟩ fun _ => none)])
    (Q := fun s => s.shelf.find ⟨3⟩ = none ∧ s.devicesListId = ⟨6⟩) (by decide +kernel)
  obtain ⟨hgone, hid⟩ := of_decide_eq_true hs
  refine ⟨s, hrun.of_when, hgone, ?_, fun h => (h.gone (.inl hgone)).1 rfl⟩
  unfold UsbTree.getListId UsbTree.answerListId UsbTree.useList
  rw [hgone, hid]
  rfl

/-- In every run, and whatever happens to the lists before and during the work, an answer is about a child of the
list of the request, or an error, if and only if that list is cached when the work starts. -/
theorem related_iff {rootId : ListId} (hvalid : rootId.isValid = true) (hcacheable : rootId.nocacheBit = false)
    {devices : List (ℕ × String × String)} {volumes : List (ℕ × VolumeInfo)}
    {calls between : List (UsbCall × Answers P)} {t : UsbTree P} {storageIsDirectory b : Bool}
    {answer : GetListIdAnswer} (h : Run (Step S) (init S rootId devices volumes) calls s)
    (hbetween : Run (Step S) s between t)
    (hr : t.answerListId S a storageIsDirectory listId item (s.useList listId) = .ok (b, answer, s')) :
    AnswersRelated S listId s t answer s' ↔ (s.shelf.find listId).isSome = true := by
  have hused : s.useList listId = (s.shelf.find listId).isSome := by
    unfold UsbTree.useList
    cases hfind : s.shelf.find listId with
    | none => exact Bool.and_false _
    | some p =>
      obtain ⟨hp, rfl⟩ := Shelf.mem_of_find hfind
      rw [(run_rooted hvalid hcacheable h).labelled.valid p hp]
      rfl
  rw [hused] at hr
  cases hfind : s.shelf.find listId with
  | none =>
    rw [hfind] at hr
    exact iff_of_false (fun h => (h.gone (.inl hfind)).1 (answerListId_unused hr)) nofun
  | some this =>
    rw [hfind] at hr
    obtain ⟨X, hs⟩ := (sound_init hvalid hcacheable devices volumes).run (h.append hbetween)
    have henter := answerListId_used hr
    refine iff_of_true ⟨fun hvalid _ => hs.enterChild_valid henter hvalid, fun hgone => ?_⟩ rfl
    rcases hgone with hgone | hgone
    · rw [hfind] at hgone
      cases hgone
    · rw [enterChild_gone hgone] at henter
      obtain ⟨error, id, title⟩ := answer
      cases henter
      exact ⟨nofun, rfl⟩

/-- The device list is cached still, and its volume list is entered. -/
theorem related_volumes : ∃ (s s' : UsbTree ℕ) (answer : GetListIdAnswer),
    s.getListId exampleSetup (exampleAnswers none .invalid fun _ => none) true ⟨2⟩ 0 = .ok (true, answer, s') ∧
    AnswersRelated exampleSetup ⟨2⟩ s s answer s' := by
  obtain ⟨s, hrun, hs⟩ := run_any (fun _ _ => True) enteredCalls (Q := fun s => (s.shelf.find ⟨2⟩).isSome ∧
    ((s.getListId exampleSetup (exampleAnswers none .invalid fun _ => none) true ⟨2⟩ 0).toOption.any fun r =>
      r.1) = true)
    (by decide +kernel)
  obtain ⟨hfind, hany⟩ := of_decide_eq_true hs
  obtain ⟨⟨b, answer, s'⟩, hr, hb⟩ := (Option.any_eq_true _ _).mp hany
  obtain rfl : b = true := hb
  exact ⟨s, s', answer, ok_of_toOption hr,
    (related_iff (by decide) (by decide) hrun.of_when (.nil s) (ok_of_toOption hr)).mpr hfind⟩

end UsbTree

end Listbrokers.Tree
