import Listbrokers.Framework.Lts
import Listbrokers.Lru.Purge

/-!
# Runs of the cache

A `Call` is an operation with its arguments, and `Step` one that has returned.
The clock of a run does not go back. `Live` is what callers promise: an object
is not inserted twice, the ID of an object that they hold has not been given to
another object, and kill lists are closed under descendants. An operation that
fails, by one of its assertions, has no step.
-/

namespace Listbrokers.Lru

open Framework Cache

variable {P σ : Type} [DecidableEq P] (S : Setup P σ)

/-- The operations of the cache. -/
inductive Call (P : Type)
  | insert (handlers : Handlers) (created : ℕ) (mode : CacheMode) (ctx size : ℕ) (entry : P)
  | insertAgain (entry : P)
  | useEntry (entry : P)
  | use (id : ListId)
  | setObjectSize (id : ListId) (size : ℕ)
  | pin (id : ListId)
  | gc
  | purgeEntries (notify : Bool) (killList : List ListId)
  deriving DecidableEq, Repr

/-- The ID of the object has not been given to another object. -/
def NotReused (s : Cache P σ) (p : P) : Prop := s.find (s.id p) = none ∨ s.find (s.id p) = some p

instance (s : Cache P σ) (p : P) : Decidable (NotReused s p) := inferInstanceAs (Decidable (_ ∨ _))

instance (T : Forest P) (s : Cache P σ) (L : List P) (kill : List ListId) : Decidable (ChildrenFirst T s L kill) :=
  inferInstanceAs (Decidable (∀ _ ∈ _, _))

namespace Call

/-- What the call makes of the cache. -/
def run (now : ℕ) (s : Cache P σ) : Call P → Except Fault (Cache P σ)
  | insert handlers created mode ctx size entry => Prod.snd <$> s.insert S now handlers created mode ctx size entry
  | insertAgain entry => Prod.snd <$> s.insertAgain entry
  | useEntry entry => Prod.snd <$> s.useEntry S now entry
  | use listId => Prod.snd <$> s.use S now listId
  | setObjectSize listId size => Prod.snd <$> s.setObjectSize S now listId size
  | pin listId => Prod.snd <$> s.pin S now listId
  | gc => Prod.snd <$> s.gc S now
  | purgeEntries notify killList => Cache.purgeEntries S notify now killList s

/-- What the callers promise. -/
def Live (now : ℕ) (s : Cache P σ) : Call P → Prop
  | insert _ created _ _ _ entry => created ≤ now ∧ ((s.id entry).isValid = false → entry ∉ s.allObjects) ∧
      ∀ parent ∈ S.forest.parent entry, NotReused s parent
  | insertAgain entry => (s.id entry).isValid = true ∧ NotReused s entry
  | useEntry entry => NotReused s entry
  | purgeEntries _ killList => ChildrenFirst S.forest s s.allObjects killList
  | _ => True

instance (now : ℕ) (s : Cache P σ) (call : Call P) : Decidable (call.Live S now s) := by
  cases call <;> unfold Live <;> infer_instance

/-- When `use` of the parent does nothing, as the clock has not advanced, the aging list ends with the path of the
parent. -/
def Placed (now : ℕ) (s : Cache P σ) : Call P → Prop
  | insert _ created _ _ _ entry => s.Accepts S created entry → ∀ parent ∈ S.forest.parent entry,
      now ≤ s.minimumRequiredCreationTime → S.forest.path parent <:+ s.agingList
  | _ => True

instance (now : ℕ) (s : Cache P σ) (call : Call P) : Decidable (call.Placed S now s) := by
  cases call <;> unfold Placed <;> infer_instance

/-- The sizes of the objects can be counted. -/
def Countable (s : Cache P σ) : Call P → Prop
  | insert _ created _ _ size entry => s.Accepts S created entry → s.totalSize + size < sizeMax
  | setObjectSize listId size => ∀ p ∈ s.find listId, s.totalSize - s.objectSize p + size < sizeMax
  | _ => True

instance (s : Cache P σ) (call : Call P) : Decidable (call.Countable S s) := by
  cases call <;> unfold Countable <;> infer_instance

/-- When the call unpins an object of its kill list, the garbage collector leaves this object to the call. -/
def SparesPinned (now : ℕ) (s : Cache P σ) : Call P → Prop
  | purgeEntries _ killList => Lru.SparesPinned S s now s.agingList killList
  | _ => True

instance (now : ℕ) (s : Cache P σ) (L : List P) (kill : List ListId) : Decidable (Lru.SparesPinned S s now L kill) :=
  inferInstanceAs (Decidable (∀ _ ∈ _, _))

instance (now : ℕ) (s : Cache P σ) (call : Call P) : Decidable (call.SparesPinned S now s) := by
  cases call <;> unfold Call.SparesPinned <;> infer_instance

end Call

/-- The objects on the path of the pinned object. -/
def Cache.pinnedPath (s : Cache P σ) : List P :=
  if s.pinnedObjectId.isValid then (s.find s.pinnedObjectId).elim [] S.forest.path else []

/-- The objects that are on the pinned path when a call runs the garbage collector. -/
def Call.pathAtGc (s : Cache P σ) : Call P → List P
  | pin listId => (s.setPinned S listId).pinnedPath S
  | purgeEntries _ _ => []
  | _ => s.pinnedPath S

/-- A cache at a time. -/
structure System (P σ : Type) where
  now : ℕ
  cache : Cache P σ

/-- A new cache. -/
def System.start (now : ℕ) (content : σ) : System P σ := ⟨now, Cache.init now content⟩

/-- A call at a time that returns. -/
def Step (c : System P σ) (l : ℕ × Call P) (c' : System P σ) : Prop :=
  c.now ≤ l.1 ∧ l.2.Live S l.1 c.cache ∧ l.2.run S l.1 c.cache = .ok c'.cache ∧ c'.now = l.1

/-- The calls of a run, one after the other, if all of them are allowed. -/
def System.exec (ok : System P σ → ℕ × Call P → Prop) [∀ c l, Decidable (ok c l)] :
    List (ℕ × Call P) → System P σ → Option (System P σ)
  | [], c => some c
  | l :: ls, c =>
    if ok c l ∧ c.now ≤ l.1 ∧ l.2.Live S l.1 c.cache then
      match l.2.run S l.1 c.cache with
      | .ok s => exec ok ls ⟨l.1, s⟩
      | .error _ => none
    else none

variable {S} {T : Forest P} {s s' : Cache P σ} {c c' : System P σ} {calls : List (ℕ × Call P)} {L L' : List P} {p q : P}
  {sized : Prop} {now : ℕ}

theorem System.run_of_exec {ok : System P σ → ℕ × Call P → Prop} [∀ c l, Decidable (ok c l)]
    (h : System.exec S ok calls c = some c') : Run (When (Step S) ok) c calls c' := by
  induction calls generalizing c with
  | nil =>
    cases h
    exact .nil _
  | cons l ls ih =>
    rw [System.exec] at h
    split at h
    · next hlive =>
      split at h
      · next s hs => exact .cons ⟨hlive.1, hlive.2.1, hlive.2.2, hs, rfl⟩ (ih h)
      · cases h
    · cases h

/-! ## The pinned path -/

theorem Intact.mem_pinnedPath (h : Intact sized S.forest s L) : p ∈ s.pinnedPath S ↔ s.isPinned p = true := by
  rw [h.pinned.flag, Cache.pinnedPath]
  by_cases hvalid : s.pinnedObjectId.isValid = true
  · obtain ⟨x, hx, hid⟩ := h.pinned.cached hvalid
    have hfind : s.find s.pinnedObjectId = some x := hid ▸ h.registered.find_id hx
    rw [if_pos hvalid, hfind, Option.elim_some]
    constructor
    · exact fun hp => ⟨hvalid, x, hx, hid, hp⟩
    · rintro ⟨-, y, hy, hidy, hp⟩
      exact h.registered.ids y hy x hx (hidy.trans hid.symm) ▸ hp
  · simp [hvalid]

/-! ## What a call preserves -/

theorem NotReused.mem (h : NotReused s p) (hreg : Registered sized T s L) (hfind : s.find (s.id p) ≠ none) : p ∈ L :=
  hreg.mem_of_find (h.resolve_left hfind)

/-- `use` of an object that is not cached fails. -/
theorem useEntry_uncached (h : s.find (s.id p) = none) {Q : ℤ × Cache P σ → Prop} :
    Ensures (Tolerated sized) (s.useEntry S now p) Q := by
  unfold useEntry lookup
  refine .bind (Q := fun r => r = none) (.check_bind (fun _ => tolerated (by decide)) fun _ => .pure h) fun r hr => ?_
  subst hr
  exact .check_bind (fun _ => tolerated (by decide)) fun hn => absurd rfl hn

/-- Insertion below an object that is not cached fails. -/
theorem insert_uncached {created size ctx : ℕ} {entry : P} (hparent : S.forest.parent entry = some p)
    (haccepts : s.Accepts S created entry) (h : s.find (s.id p) = none) {handlers : Handlers} {mode : CacheMode}
    {Q : ListId × Cache P σ → Prop} :
    Ensures (Tolerated sized) (s.insert S now handlers created mode ctx size entry) Q := by
  unfold Cache.insert
  rw [if_pos haccepts]
  refine .bind (Q := fun _ => False) ?_ fun _ hf => hf.elim
  unfold prepareInsert
  rw [hparent]
  have huse (s' : Cache P σ) (h : s'.find (s'.id p) = none) :
      Ensures (Tolerated sized) (s'.useEntry S now p) fun _ => False :=
    useEntry_uncached h
  exact (huse { s with lastUsed := Function.update s.lastUsed entry created } h).bind fun _ hf => hf.elim

/-- Insertion, below a parent that is cached or has lost its ID. -/
theorem run_insert_ensures (h : Intact sized S.forest s L) {handlers : Handlers} {created ctx size : ℕ}
    {mode : CacheMode} {entry : P} (hlive : (Call.insert handlers created mode ctx size entry).Live S now s)
    (hplaced : (Call.insert handlers created mode ctx size entry).Placed S now s)
    (hsize : sized → (Call.insert handlers created mode ctx size entry).Countable S s) :
    Ensures (Tolerated sized) (s.insert S now handlers created mode ctx size entry) fun r =>
      r.2 = s ∨ s.Accepts S created entry ∧ ∃ s₂ L₂ L', Inserted sized S.forest now created entry s s₂ L L₂ ∧
        Reduced sized S.forest s₂ r.2 L₂ L' := by
  obtain ⟨-, hnew, hparent⟩ := hlive
  by_cases hstale : s.Accepts S created entry ∧ ∃ q ∈ S.forest.parent entry, s.find (s.id q) = none
  · obtain ⟨haccepts, q, hq, hfind⟩ := hstale
    exact insert_uncached hq haccepts hfind
  · refine insert_ensures h (fun haccepts hentry => ?_) (fun haccepts q hq => ?_) (fun haccepts q hq hnow => ?_) hsize
      handlers mode ctx
    · exact hnew haccepts.1 ((h.registered.cached entry).mpr hentry)
    · exact (hparent q hq).mem h.registered fun hfind => hstale ⟨haccepts, q, hq, hfind⟩
    · rw [← h.agingList_eq]
      exact hplaced haccepts q hq hnow

/-- Pinned objects stay when some objects are discarded. -/
theorem Reduced.keeps_path (h : Reduced sized S.forest s s' L L') (hs : Intact sized S.forest s L) :
    ∀ p ∈ s.pinnedPath S, p ∈ L' := fun p hp => by
  have hpinned := hs.mem_pinnedPath.mp hp
  exact h.keeps_pinned p (hs.mem_of_pinned hpinned) hpinned

/-- The object that the call uses, if it does nothing else to the ages. -/
def Call.used (s : Cache P σ) : Call P → Option P
  | useEntry entry => some entry
  | use listId => s.find listId
  | setObjectSize listId _ => s.find listId
  | _ => none

/-- What a call does to the ages, and to the aging list, from which it may discard objects afterwards. -/
inductive Aging (S : Setup P σ) (now : ℕ) (call : Call P) (s s' : Cache P σ) (L L' : List P) : Prop
  | same (ages : s'.lastUsed = s.lastUsed) (minimum : s'.minimumRequiredCreationTime = s.minimumRequiredCreationTime)
      (sublist : L'.Sublist L)
  | used (e : P) (he : e ∈ L) (call_used : call.used s = some e) (later : s.minimumRequiredCreationTime < now)
      (ages : s'.lastUsed = fun p => if p ∈ S.forest.path e then now else s.lastUsed p)
      (minimum : s'.minimumRequiredCreationTime = s.minimumRequiredCreationTime)
      (sublist : L'.Sublist (usedList S.forest e L))
  | inserted {handlers : Handlers} {created ctx size : ℕ} {mode : CacheMode} {entry : P}
      (is_insert : call = .insert handlers created mode ctx size entry) (accepts : s.Accepts S created entry)
      {s₂ : Cache P σ} {L₂ : List P} (inserted : Inserted False S.forest now created entry s s₂ L L₂)
      (ages : s'.lastUsed = s₂.lastUsed)
      (minimum : s'.minimumRequiredCreationTime = s₂.minimumRequiredCreationTime) (sublist : L'.Sublist L₂)

theorem Aging.of_touched {call : Call P} {e : P} (he : e ∈ L) (hcall : call.used s = some e) {L₁ : List P}
    (h : Touched S.forest now s.minimumRequiredCreationTime e s.lastUsed s'.lastUsed L L₁)
    (hmin : s'.minimumRequiredCreationTime = s.minimumRequiredCreationTime) (hsub : L'.Sublist L₁) :
    Aging S now call s s' L L' := by
  rcases h with ⟨-, hages, rfl⟩ | ⟨hlt, hages, rfl⟩
  · exact .same hages hmin hsub
  · exact .used e he hcall hlt hages hmin hsub

theorem Aging.unchanged {call : Call P} : Aging S now call s s L L := .same rfl rfl (.refl L)

/-- An intact cache stays intact, with the objects that are pinned when the garbage collector is run. -/
structure Preserved (sized : Prop) (S : Setup P σ) (now : ℕ) (call : Call P) (s s' : Cache P σ) (L L' : List P) :
    Prop where
  intact : Intact sized S.forest s' L'
  keeps_pinned : ∀ p ∈ call.pathAtGc S s, p ∈ L'
  aging : Aging S now call s s' L L'

theorem Inserted.uncounted {created : ℕ} {entry : P} (h : Inserted sized T now created entry s s' L L') :
    Inserted False T now created entry s s' L L' :=
  { h with
    intact := ⟨h.intact.aged, { h.intact.registered with size := fun hf => hf.elim }, h.intact.pinned⟩ }

theorem Call.run_ensures (h : Intact sized S.forest s L) {call : Call P} (hlive : call.Live S now s)
    (hplaced : call.Placed S now s) (hsize : sized → call.Countable S s)
    (hspares : sized → call.SparesPinned S now s) :
    Ensures (Tolerated sized) (call.run S now s) fun s' => ∃ L', Preserved sized S now call s s' L L' := by
  have hpinned : ∀ p, p ∈ s.pinnedPath S → s.isPinned p = true := fun p => h.mem_pinnedPath.mp
  have hcached : ∀ p ∈ s.pinnedPath S, p ∈ L := fun p hp => h.mem_of_pinned (hpinned p hp)
  have huse : ∀ e ∈ L, ∀ call : Call P, call.used s = some e → call.pathAtGc S s = s.pinnedPath S →
      Ensures (Tolerated sized) (s.useEntry S now e) fun r => ∃ L', Preserved sized S now call s r.2 L L' := by
    intro e he call hcall hpath
    refine (useEntry_ensures h he).mono fun r hr => ?_
    obtain ⟨L', hintact, htouched, -, -, -, -, hflags, -, hmin, -⟩ := hr
    refine ⟨L', hintact, fun p hp => hintact.mem_of_pinned ?_, .of_touched he hcall htouched hmin (.refl L')⟩
    rw [hflags]
    exact hpinned p (hpath ▸ hp)
  cases call with
  | insert handlers created mode ctx size entry =>
    refine (run_insert_ensures h hlive hplaced hsize).map fun r hr => ?_
    rcases hr with hr | ⟨haccepts, s₂, L₂, L', hins, hred⟩
    · rw [hr]
      exact ⟨L, h, hcached, .unchanged⟩
    · refine ⟨L', hred.intact, fun p hp => hred.keeps_pinned p ?_ ?_, .inserted rfl haccepts hins.uncounted
        hred.same.lastUsed hred.same.minimumRequiredCreationTime hred.sublist⟩
      · exact (hins.mem p).mpr (.inr (hcached p hp))
      · rw [hins.isPinned]
        exact hpinned p hp
  | insertAgain entry =>
    obtain ⟨hvalid, hreused⟩ := hlive
    by_cases hfind : s.find (s.id entry) = none
    · refine .map (Q := fun r => r.2 = s) ?_ fun r hr => ?_
      · unfold Cache.insertAgain
        rw [if_pos hfind]
        exact .pure rfl
      · rw [hr]
        exact ⟨L, h, hcached, .unchanged⟩
    · refine (insertAgain_ensures h (hreused.mem h.registered hfind) hvalid).map fun r hr => ?_
      obtain ⟨hintact, -, -, hages, hmin, -⟩ := hr
      exact ⟨L, hintact, hcached, .same hages hmin (.refl L)⟩
  | useEntry entry =>
    by_cases hfind : s.find (s.id entry) = none
    · exact .map (Q := fun _ => False) (useEntry_uncached hfind) fun _ hf => hf.elim
    · exact (huse entry (NotReused.mem hlive h.registered hfind) (.useEntry entry) rfl rfl).map fun r hr => hr
  | use listId =>
    refine .map (Q := fun r : ℤ × Cache P σ => ∃ L', Preserved sized S now (.use listId) s r.2 L L') ?_ fun r hr => hr
    unfold Cache.use lookup
    refine .bind (Q := fun r => r = s.find listId) (.check_bind (fun _ => tolerated (by decide)) fun _ => .pure rfl)
      fun r hr => ?_
    subst hr
    cases hfind : s.find listId with
    | none => exact .pure ⟨L, h, hcached, .unchanged⟩
    | some e => exact huse e (h.registered.mem_of_find hfind) (.use listId) hfind rfl
  | setObjectSize listId size =>
    refine (setObjectSize_ensures h hsize).map fun r hr => ?_
    rcases hr with hr | ⟨p, s₁, L₁, L', hfind, hred, htouched, hmin, hflags, -, -, hmem⟩
    · rw [hr]
      exact ⟨L, h, hcached, .unchanged⟩
    · refine ⟨L', hred.intact, fun q hq => hred.keeps_pinned q ((hmem q).mpr (hcached q hq)) ?_, ?_⟩
      · rw [hflags]
        exact hpinned q hq
      · refine .of_touched (h.registered.mem_of_find hfind) hfind ?_
          (hred.same.minimumRequiredCreationTime.trans hmin) hred.sublist
        rw [hred.same.lastUsed]
        exact htouched
  | pin listId =>
    refine (pin_ensures h listId).map fun r hr => ?_
    obtain ⟨L', hintact, hages, hsub, hkept⟩ := hr
    exact ⟨L', hintact, fun p hp => hkept p ((setPinned_intact h listId).mem_pinnedPath.mp hp),
      .same hages.lastUsed hages.minimumRequiredCreationTime hsub⟩
  | gc =>
    refine (gc_ensures h).map fun r hr => ?_
    obtain ⟨L', hred⟩ := hr
    exact ⟨L', hred.intact, hred.keeps_path h,
      .same hred.same.lastUsed hred.same.minimumRequiredCreationTime hred.sublist⟩
  | purgeEntries notify killList =>
    have hkill : ChildrenFirst S.forest s L killList := fun p hp hid q hq hpar =>
      hlive p ((h.registered.cached p).mpr hp) hid q ((h.registered.cached q).mpr hq) hpar
    refine (purgeEntries_ensures h hkill (fun hs => ?_) notify).mono fun s' hs' => ?_
    · rw [← h.agingList_eq]
      exact hspares hs
    · obtain ⟨L', hintact, hages, hsub⟩ := hs'
      exact ⟨L', hintact, by simp [pathAtGc], .same hages.lastUsed hages.minimumRequiredCreationTime hsub⟩

end Listbrokers.Lru
