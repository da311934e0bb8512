import Listbrokers.Lru.Control
import Listbrokers.Lru.Effects
import Listbrokers.Lru.Integrity

/-!
# The cache with its timer

The cache with its `CacheControl`, wired as in `main`: the first object enables
garbage collection, exceeded limits trigger it, the removal of the last object
disables it, and the main loop fires the sources that are attached.

The control attaches no source when the garbage collector finds nothing but
pinned objects. Nothing wakes it up from then on (`Asleep`), unless an object
is inserted that exceeds a limit.
-/

namespace Listbrokers.Lru

open Framework Cache

variable {P σ : Type} [DecidableEq P] (S : Setup P σ)

/-- The cache, its control, and the time. -/
structure Managed (P σ : Type) where
  now : ℕ
  control : Control
  cache : Cache P σ

/-- Whether the last object has been removed. -/
def lastObjectRemoved (s s' : Cache P σ) : Bool := s.oldestObject.isSome && s'.oldestObject.isNone

/-- `gc_and_set_timeout`, with the garbage collector of the cache. -/
def gcAndSetTimeout (now : ℕ) (k : Control) (s : Cache P σ) : Except Fault (Control × Cache P σ) :=
  if k.isEnabled then do
    let (timeout, s') ← s.gc S now
    return (k.gcAndSetTimeout ⟨timeout, lastObjectRemoved s s'⟩, s')
  else return (k.gcAndSetTimeout ⟨none, false⟩, s)

/-- `enable_garbage_collection`, with the garbage collector of the cache. -/
def enableGarbageCollection (now : ℕ) (k : Control) (s : Cache P σ) : Except Fault (Control × Cache P σ) :=
  let k := { k with isEnabled := true }
  if k.timeoutSourceId = 0 then gcAndSetTimeout S now k s else return (k, s)

/-- The callback of `insert` for the first object. -/
def notifyFirstObjectInserted (now : ℕ) (k : Control) (s : Cache P σ) : Except Fault (Control × Cache P σ) :=
  if s.count = 1 then enableGarbageCollection S now k s else return (k, s)

/-- The callback of `insert` for exceeded limits. -/
def notifyGarbageCollectionNeeded (now : ℕ) (k : Control) (s : Cache P σ) : Except Fault (Control × Cache P σ) :=
  if s.exceedsSoft S then gcAndSetTimeout S now k s else return (k, s)

/-- `Cache::insert` with the callbacks of the control. -/
def managedInsert (now created : ℕ) (mode : CacheMode) (ctx size : ℕ) (entry : P) (k : Control) (s : Cache P σ) :
    Except Fault (Control × Cache P σ) :=
  if s.Accepts S created entry then do
    let s ← prepareInsert S { s with lastUsed := Function.update s.lastUsed entry created } now created entry
    let (_, s) ← s.link S mode ctx size entry
    let (k, s) ← notifyFirstObjectInserted S now k s
    notifyGarbageCollectionNeeded S now k s
  else return (k, s)

/-- What happens to a cache with its control. Of the calls, `insert` has an event of its own. -/
inductive Event (P : Type)
  | insert (created : ℕ) (mode : CacheMode) (ctx size : ℕ) (entry : P)
  | call (call : Call P)
  | fire (id : ℕ)
  deriving DecidableEq, Repr

def Call.isInsert : Call P → Bool
  | insert .. => true
  | _ => false

/-- Whether the call notifies the control about the removal of the last object. -/
def Call.notifies : Call P → Bool
  | purgeEntries notify _ => notify
  | _ => true

def Control.notifyLastObjectRemoved (k : Control) (removed : Bool) : Control :=
  if removed then k.disableGarbageCollection else k

inductive ManagedStep : Managed P σ → ℕ × Event P → Managed P σ → Prop
  | insert {c : Managed P σ} {now created ctx size : ℕ} {mode : CacheMode} {entry : P} {k : Control} {s : Cache P σ} :
      c.now ≤ now → managedInsert S now created mode ctx size entry c.control c.cache = .ok (k, s) →
      ManagedStep c (now, .insert created mode ctx size entry) ⟨now, k, s⟩
  | call {c : Managed P σ} {now : ℕ} {call : Call P} {s : Cache P σ} :
      c.now ≤ now → call.isInsert = false → call.Live S now c.cache → call.run S now c.cache = .ok s →
      ManagedStep c (now, .call call)
        ⟨now, c.control.notifyLastObjectRemoved (call.notifies && lastObjectRemoved c.cache s), s⟩
  | fire {c : Managed P σ} {now : ℕ} {source : Source} {k : Control} {s : Cache P σ} :
      c.now ≤ now → source ∈ c.control.attached →
      gcAndSetTimeout S now (c.control.remove source.id) c.cache = .ok (k, s) →
      ManagedStep c (now, .fire source.id) ⟨now, k, s⟩

def Managed.start (now : ℕ) (content : σ) : Managed P σ := ⟨now, .init, Cache.init now content⟩

/-- Garbage collection is enabled for the objects of the cache, but nothing will start it. -/
def Asleep (c : Managed P σ) : Prop :=
  c.control.isEnabled = true ∧ c.control.attached = [] ∧ c.cache.allObjects ≠ []

/-- Nothing is left in the cache that is not pinned, if everything in the cache was pinned, or the event triggers the
garbage collector of the control. -/
def LeavesPinned (c : Managed P σ) : Event P → Prop
  | .insert created _ _ size entry => c.cache.Accepts S created entry →
      S.memoryLimits.exceedsSoft ((c.cache.totalSize + size) % sizeMax) = true ∨
        S.countLimits.exceedsSoft (c.cache.count + 1) = true
  | .call (.pin listId) => c.cache.pinnedObjectId = listId ∨
      listId.isValid = true ∧ ∃ x ∈ c.cache.find listId, ∀ p ∈ c.cache.allObjects, p ∈ S.forest.path x
  | .call (.purgeEntries _ killList) =>
      (∀ listId ∈ killList, c.cache.find listId = none) ∨ ∀ p ∈ c.cache.allObjects, c.cache.id p ∈ killList
  | _ => True

/-- Whatever happens while nothing will start the garbage collection leaves nothing for it to do. -/
def NoNeed (c : Managed P σ) (l : ℕ × Event P) : Prop := Asleep c → LeavesPinned S c l.2

instance (c : Managed P σ) : Decidable (Asleep c) := inferInstanceAs (Decidable (_ ∧ _ ∧ _))

instance (c : Managed P σ) (event : Event P) : Decidable (LeavesPinned S c event) := by
  unfold LeavesPinned
  split <;> infer_instance

instance (c : Managed P σ) (l : ℕ × Event P) : Decidable (NoNeed S c l) := inferInstanceAs (Decidable (_ → _))

/-- What an event leads to, if it can happen. -/
def Managed.next (c : Managed P σ) (l : ℕ × Event P) : Option (Managed P σ) :=
  if c.now ≤ l.1 then
    match l.2 with
    | .insert created mode ctx size entry =>
      (managedInsert S l.1 created mode ctx size entry c.control c.cache).toOption.map fun r => ⟨l.1, r.1, r.2⟩
    | .call call =>
      if call.isInsert = false ∧ call.Live S l.1 c.cache then
        (call.run S l.1 c.cache).toOption.map fun s =>
          ⟨l.1, c.control.notifyLastObjectRemoved (call.notifies && lastObjectRemoved c.cache s), s⟩
      else none
    | .fire sourceId =>
      if ∃ source ∈ c.control.attached, source.id = sourceId then
        (gcAndSetTimeout S l.1 (c.control.remove sourceId) c.cache).toOption.map fun r => ⟨l.1, r.1, r.2⟩
      else none
  else none

/-- The events of a run, if all of them are allowed. -/
def Managed.exec (ok : Managed P σ → ℕ × Event P → Prop) [∀ c l, Decidable (ok c l)] :
    List (ℕ × Event P) → Managed P σ → Option (Managed P σ)
  | [], c => some c
  | l :: ls, c => if ok c l then (c.next S l).bind (exec ok ls) else none

variable {S} {s s' : Cache P σ} {c c' : Managed P σ} {k k' : Control} {p : P} {now : ℕ}

theorem Managed.step_of_next {l : ℕ × Event P} (h : c.next S l = some c') : ManagedStep S c l c' := by
  obtain ⟨now, event⟩ := l
  unfold Managed.next at h
  split at h
  · next hnow =>
    cases event with
    | insert created mode ctx size entry =>
      obtain ⟨r, hr, rfl⟩ := Option.map_eq_some_iff.mp h
      exact .insert hnow (ok_of_toOption hr)
    | call call =>
      dsimp only at h
      split at h
      · next hlive =>
        obtain ⟨s, hs, rfl⟩ := Option.map_eq_some_iff.mp h
        exact .call hnow hlive.1 hlive.2 (ok_of_toOption hs)
      · cases h
    | fire sourceId =>
      dsimp only at h
      split at h
      · next hattached =>
        obtain ⟨source, hmem, rfl⟩ := hattached
        obtain ⟨r, hr, rfl⟩ := Option.map_eq_some_iff.mp h
        exact .fire hnow hmem (ok_of_toOption hr)
      · cases h
  · cases h

theorem Managed.run_of_exec {ok : Managed P σ → ℕ × Event P → Prop} [∀ c l, Decidable (ok c l)]
    {events : List (ℕ × Event P)} (h : Managed.exec S ok events c = some c') :
    Run (When (ManagedStep S) ok) c events c' := by
  induction events generalizing c with
  | nil =>
    cases h
    exact .nil _
  | cons l ls ih =>
    rw [Managed.exec] at h
    split at h
    · next hok =>
      obtain ⟨c₁, hnext, hexec⟩ := Option.bind_eq_some_iff.mp h
      exact .cons ⟨hok, step_of_next hnext⟩ (ih hexec)
    · cases h

/-! ## The callbacks of `insert` -/

theorem gcAndSetTimeout_gcIf (h : gcAndSetTimeout S now k s = .ok (k', s')) : s.gcIf S k.isEnabled now = .ok s' := by
  unfold gcAndSetTimeout at h
  split at h
  · next henabled =>
    obtain ⟨⟨timeout, s₁⟩, hgc, hok⟩ := bind_eq_ok h
    cases hok
    rw [gcIf, if_pos henabled, hgc]
    rfl
  · next hdisabled =>
    cases h
    rw [gcIf, if_neg hdisabled]
    rfl

theorem notifyFirstObjectInserted_gcIf (h : notifyFirstObjectInserted S now k s = .ok (k', s')) :
    s.gcIf S (s.count = 1 && k.timeoutSourceId = 0) now = .ok s' := by
  unfold notifyFirstObjectInserted enableGarbageCollection at h
  split at h
  · next hcount =>
    dsimp only at h
    split at h
    · next hid =>
      rw [hcount, hid]
      exact gcAndSetTimeout_gcIf h
    · next hid =>
      cases h
      simp only [hid, decide_false, Bool.and_false]
      rfl
  · next hcount =>
    cases h
    simp only [hcount, decide_false, Bool.false_and]
    rfl

theorem notifyGarbageCollectionNeeded_gcIf (h : notifyGarbageCollectionNeeded S now k s = .ok (k', s')) :
    s.gcIf S (s.exceedsSoft S && k.isEnabled) now = .ok s' := by
  unfold notifyGarbageCollectionNeeded at h
  split at h
  · next hsoft =>
    rw [hsoft, Bool.true_and]
    exact gcAndSetTimeout_gcIf h
  · next hsoft =>
    cases h
    rw [Bool.not_eq_true] at hsoft
    rw [hsoft]
    rfl

/-- With its control, the cache does what `insert` does with callbacks that run the garbage collector or do not. -/
theorem managedInsert_insert {created ctx size : ℕ} {mode : CacheMode} {entry : P}
    (h : managedInsert S now created mode ctx size entry k s = .ok (k', s')) :
    ∃ handlers i, s.insert S now handlers created mode ctx size entry = .ok (i, s') := by
  unfold managedInsert at h
  unfold Cache.insert
  split at h
  · next haccepts =>
    obtain ⟨s₁, hprepare, h⟩ := bind_eq_ok h
    obtain ⟨⟨i, s₂⟩, hlink, h⟩ := bind_eq_ok h
    obtain ⟨⟨k₃, s₃⟩, hfirst, hneeded⟩ := bind_eq_ok h
    refine ⟨⟨k.timeoutSourceId = 0, k₃.isEnabled⟩, i, ?_⟩
    dsimp only at hlink hfirst hneeded
    rw [if_pos haccepts, hprepare]
    change (link S s₁ mode ctx size entry >>= _) = _
    rw [hlink]
    change (s₂.gcIf S _ now >>= _) = _
    rw [notifyFirstObjectInserted_gcIf hfirst]
    change (s₃.gcIf S _ now >>= _) = _
    rw [notifyGarbageCollectionNeeded_gcIf hneeded]
    rfl
  · next haccepts =>
    cases h
    exact ⟨⟨false, false⟩, .invalid, if_neg haccepts⟩

/-! ## What the garbage collector leaves alone -/

/-- Objects have been discarded, and nothing else has happened to the flags and the IDs. -/
structure Shrinks (s s' : Cache P σ) : Prop where
  subset : ∀ p ∈ s'.allObjects, p ∈ s.allObjects
  isPinned : s'.isPinned = s.isPinned
  id : s'.id = s.id

section

omit [DecidableEq P]

theorem Shrinks.refl (s : Cache P σ) : Shrinks s s := ⟨fun _ h => h, rfl, rfl⟩

theorem Shrinks.trans {s₁ s₂ s₃ : Cache P σ} (h : Shrinks s₁ s₂) (h' : Shrinks s₂ s₃) : Shrinks s₁ s₃ :=
  ⟨fun p hp => h.subset p (h'.subset p hp), h'.isPinned.trans h.isPinned, h'.id.trans h.id⟩

end

theorem discard_shrinks (notify : Bool) (p : P) :
    Ensures AnyFault (s.discard S notify p) fun r => Shrinks s r.2 ∧ ∀ q ∈ r.2.allObjects, s.id q ≠ s.id p := by
  unfold Cache.discard
  refine .check_bind (fun _ => trivial) fun _ => .check_bind (fun _ => trivial) fun _ => ?_
  refine .check_bind (fun _ => trivial) fun _ => .check_bind (fun _ => trivial) fun _ => ?_
  refine .check_bind (fun _ => trivial) fun _ => .pure ⟨⟨fun q hq => ?_, rfl, rfl⟩, fun q hq => ?_⟩
  · exact (List.mem_filter.mp hq).1
  · simpa using (List.mem_filter.mp hq).2

theorem shrinks_discarding : Discarding S (Shrinks (P := P) (σ := σ)) where
  refl := .refl
  trans h h' := h.trans h'
  running _ _ := ⟨fun _ hp => hp, rfl, rfl⟩
  discard _ notify p := (discard_shrinks notify p).mono fun _ hr => hr.1

section

omit [DecidableEq P]

/-- The garbage collector returns the maximum only if nothing is left, or nothing but pinned objects. -/
theorem nextCall_none (candidate : Option P) :
    Ensures AnyFault (s.nextCall S now candidate) fun r => r = none → ∀ p ∈ s.allObjects, s.isPinned p = true := by
  unfold nextCall
  refine .ite (fun _ => .check_bind (fun _ => trivial) fun hempty => .pure fun _ p hp => ?_) fun _ => ?_
  · rw [hempty.2.2] at hp
    cases hp
  · cases s.skipPinned s.count candidate with
    | none => exact .check_bind (fun _ => trivial) fun hpinned => .pure fun _ => hpinned
    | some p => exact .pure (Q := fun r => r = none → _) nofun

end

theorem gc_shrinks (s : Cache P σ) :
    Ensures AnyFault (s.gc S now) fun r =>
      Shrinks s r.2 ∧ (r.1 = none → ∀ p ∈ r.2.allObjects, r.2.isPinned p = true) := by
  unfold Cache.gc
  refine .check_bind (fun _ => trivial) fun _ => ?_
  refine (shrinks_discarding.collect { s with isGarbageCollectorRunning := true }).bind fun r hr => ?_
  obtain ⟨candidate, s₁⟩ := r
  exact (nextCall_none candidate).bind fun timeout htimeout => .pure ⟨⟨hr.subset, hr.isPinned, hr.id⟩, htimeout⟩

/-! ## What the calls leave alone -/

theorem useEntry_leaves (e : P) (s : Cache P σ) :
    Ensures AnyFault (s.useEntry S now e) fun r =>
      r.2.allObjects = s.allObjects ∧ r.2.isPinned = s.isPinned ∧ r.2.totalSize = s.totalSize := by
  unfold useEntry
  refine (ensures_anyFault _).bind fun _ _ => .check_bind (fun _ => trivial) fun _ => ?_
  refine .check_bind (fun _ => trivial) fun _ => .ite (fun _ => .pure ⟨rfl, rfl, rfl⟩) fun _ => ?_
  refine (ensures_anyFault _).bind fun r _ => ?_
  obtain ⟨depth, cursors⟩ := r
  refine (ensures_anyFault _).bind fun _ _ => (ensures_anyFault _).bind fun _ _ => ?_
  exact .check_bind (fun _ => trivial) fun _ => .pure ⟨rfl, rfl, rfl⟩

theorem use_leaves (i : ListId) (s : Cache P σ) :
    Ensures AnyFault (s.use S now i) fun r => r.2.allObjects = s.allObjects ∧ r.2.isPinned = s.isPinned := by
  unfold Cache.use
  refine (ensures_anyFault _).bind fun r _ => ?_
  cases r with
  | none => exact .pure ⟨rfl, rfl⟩
  | some e => exact (useEntry_leaves e s).mono fun r hr => ⟨hr.1, hr.2.1⟩

theorem prepareInsert_leaves {created : ℕ} {entry : P} (s : Cache P σ) :
    Ensures AnyFault (s.prepareInsert S now created entry) fun s' =>
      s'.allObjects = s.allObjects ∧ s'.totalSize = s.totalSize := by
  unfold prepareInsert
  cases S.forest.parent entry with
  | none => exact .check_bind (fun _ => trivial) fun _ => .pure ⟨rfl, rfl⟩
  | some parent =>
    refine (useEntry_leaves parent s).bind fun r hr => ?_
    obtain ⟨depth, s₁⟩ := r
    obtain ⟨hall, -, htotal⟩ := hr
    refine .check_bind (fun _ => trivial) fun _ => .pure ?_
    dsimp only at hall htotal ⊢
    constructor
    · split <;> split <;> exact hall
    · split <;> split <;> exact htotal

theorem link_leaves {mode : CacheMode} {ctx size : ℕ} {entry : P} (s : Cache P σ) :
    Ensures AnyFault (s.link S mode ctx size entry) fun r =>
      r.2.allObjects = entry :: s.allObjects ∧ r.2.totalSize = (s.totalSize + size) % sizeMax :=
  (link_effect s).mono fun _ hr => ⟨hr.1.allObjects, hr.2.1⟩

theorem setObjectSize_shrinks (i : ListId) (size : ℕ) (s : Cache P σ) :
    Ensures AnyFault (s.setObjectSize S now i size) fun r =>
      (∀ p ∈ r.2.allObjects, p ∈ s.allObjects) ∧ r.2.isPinned = s.isPinned := by
  unfold Cache.setObjectSize
  refine (ensures_anyFault _).bind fun r _ => ?_
  cases r with
  | none => exact .pure ⟨fun _ hp => hp, rfl⟩
  | some p =>
    refine .check_bind (fun _ => trivial) fun _ => (useEntry_leaves p _).bind fun r hr => ?_
    obtain ⟨depth, s₁⟩ := r
    obtain ⟨hall, hpinned, -⟩ := hr
    dsimp only at hall hpinned
    refine (shrinks_discarding.gcIf _ s₁).bind fun s₂ hs₂ => .pure ⟨fun q hq => ?_, hs₂.isPinned.trans hpinned⟩
    exact hall ▸ hs₂.subset q hq

/-- `pin` changes flags, first. -/
theorem setPinned_leaves (i : ListId) (s : Cache P σ) :
    (s.setPinned S i).allObjects = s.allObjects ∧ (s.setPinned S i).id = s.id ∧
      ∀ x, i.isValid = true → s.find i = some x → ∀ p ∈ S.forest.path x, (s.setPinned S i).isPinned p = true := by
  obtain ⟨flags, hflags⟩ : ∃ flags, (if s.pinnedObjectId.isValid then
      (s.pinOrUnpinObjectsOnPathToRoot S s.pinnedObjectId false).2 else s) = { s with isPinned := flags } := by
    split
    · exact pinOrUnpin_flags _ _ s
    · exact ⟨_, rfl⟩
  unfold setPinned
  rw [hflags]
  have hfind : Cache.find { s with isPinned := flags, pinnedObjectId := i } i = s.find i := rfl
  simp only [pinOrUnpinObjectsOnPathToRoot, hfind]
  refine ⟨?_, ?_, fun x hvalid hx p hp => ?_⟩
  · repeat' split
    all_goals rfl
  · repeat' split
    all_goals rfl
  · simp [hvalid, hx, hp]

theorem pin_leaves (i : ListId) (s : Cache P σ) :
    Ensures AnyFault (s.pin S now i) fun r => (∀ p ∈ r.2.allObjects, p ∈ s.allObjects) ∧ r.2.id = s.id := by
  obtain ⟨hall, hid, -⟩ := setPinned_leaves (S := S) i s
  unfold Cache.pin
  refine .ite (fun _ => .pure ⟨fun _ hp => hp, rfl⟩) fun _ => .ite (fun _ => ?_) fun _ =>
    .pure ⟨fun p hp => hall ▸ hp, hid⟩
  refine (gc_shrinks _).bind fun r hr => ?_
  obtain ⟨_, s₁⟩ := r
  exact .pure ⟨fun p hp => hall ▸ hr.1.subset p hp, hr.1.id.trans hid⟩

/-- All objects stay pinned if they are on the path of the object that is pinned. -/
theorem pin_covers (i : ListId) (s : Cache P σ) (hs : ∀ p ∈ s.allObjects, s.isPinned p = true)
    (hcovers : s.pinnedObjectId = i ∨ i.isValid = true ∧ ∃ x ∈ s.find i, ∀ p ∈ s.allObjects, p ∈ S.forest.path x) :
    Ensures AnyFault (s.pin S now i) fun r => ∀ p ∈ r.2.allObjects, r.2.isPinned p = true := by
  unfold Cache.pin
  refine .ite (fun _ => .pure hs) fun hne => ?_
  obtain ⟨hvalid, x, hx, hpath⟩ := hcovers.resolve_left hne
  obtain ⟨hall, -, hpinned⟩ := setPinned_leaves (S := S) i s
  have hset : ∀ p ∈ (s.setPinned S i).allObjects, (s.setPinned S i).isPinned p = true := fun p hp =>
    hpinned x hvalid hx p (hpath p (hall ▸ hp))
  refine .ite (fun _ => ?_) fun _ => .pure hset
  refine (gc_shrinks _).bind fun r hr => ?_
  obtain ⟨_, s₁⟩ := r
  refine .pure fun p hp => ?_
  rw [hr.1.isPinned]
  exact hset p (hr.1.subset p hp)

/-- The objects of the kill list are gone after a purge. -/
theorem purgeEntries_removes (notify : Bool) (kill : List ListId) (s : Cache P σ) :
    Ensures AnyFault (purgeEntries S notify now kill s) fun s' =>
      s'.id = s.id ∧ ∀ p ∈ s'.allObjects, p ∈ s.allObjects ∧ s.id p ∉ kill := by
  induction kill generalizing s with
  | nil => exact .pure ⟨rfl, fun p hp => ⟨hp, by simp⟩⟩
  | cons i kill ih =>
    refine .bind (Q := fun s' => s'.id = s.id ∧ ∀ p ∈ s'.allObjects, p ∈ s.allObjects ∧ s.id p ≠ i) ?_ fun s₁ hs₁ => ?_
    · unfold purgeEntry lookup
      refine .bind (Q := fun r => r = s.find i) (.check_bind (fun _ => trivial) fun _ => .pure rfl) fun r hr => ?_
      subst hr
      cases hfind : s.find i with
      | none => exact .pure ⟨rfl, fun p hp => ⟨hp, find_eq_none.mp hfind p hp⟩⟩
      | some p =>
        have hid := (mem_of_find hfind).2
        refine .bind (Q := fun s' => s'.id = s.id ∧ ∀ p ∈ s'.allObjects, p ∈ s.allObjects) ?_ fun s₁ hs₁ => ?_
        · unfold unpinIfPinned
          refine .ite (fun _ => (pin_leaves _ s).bind fun r hr => .pure ⟨hr.2, hr.1⟩) fun _ =>
            .pure ⟨rfl, fun _ hp => hp⟩
        · refine (discard_shrinks notify p).bind fun r hr => ?_
          obtain ⟨_, s₂⟩ := r
          refine .pure ⟨hr.1.id.trans hs₁.1, fun q hq => ⟨hs₁.2 q (hr.1.subset q hq), ?_⟩⟩
          rw [← hid, ← hs₁.1]
          exact hr.2 q hq
    · refine (ih s₁).mono fun s' hs' => ⟨hs'.1.trans hs₁.1, fun p hp => ?_⟩
      obtain ⟨hp₁, hkill⟩ := hs'.2 p hp
      obtain ⟨hp', hi⟩ := hs₁.2 p hp₁
      rw [hs₁.1] at hkill
      exact ⟨hp', by simp [hi, hkill]⟩

/-- A purge of nothing that is cached. -/
theorem purgeEntries_uncached (notify : Bool) (kill : List ListId) (s : Cache P σ)
    (h : ∀ i ∈ kill, s.find i = none) : Ensures AnyFault (purgeEntries S notify now kill s) fun s' => s' = s := by
  induction kill with
  | nil => exact .pure rfl
  | cons i kill ih =>
    refine .bind (Q := fun s' => s' = s) ?_ fun s₁ hs₁ => ?_
    · unfold purgeEntry lookup
      refine .bind (Q := fun r => r = s.find i) (.check_bind (fun _ => trivial) fun _ => .pure rfl) fun r hr => ?_
      subst hr
      rw [h i List.mem_cons_self]
      exact .pure rfl
    · subst hs₁
      exact ih fun i hi => h i (List.mem_cons_of_mem _ hi)

/-! ## Wake-ups -/

/-- A source is attached if there is something to do for garbage collection. -/
structure Awake (k : Control) (s : Cache P σ) : Prop where
  source : k.isEnabled = true → (∃ p ∈ s.allObjects, s.isPinned p = false) → k.attached ≠ []
  stored : k.timeoutSourceId ≠ 0 → ∃ source ∈ k.attached, source.id = k.timeoutSourceId

/-- Whatever was the case before, the garbage collection of the control attaches a source if there is a need. -/
theorem gcAndSetTimeout_awake (k : Control) (s : Cache P σ) :
    Ensures AnyFault (gcAndSetTimeout S now k s) fun r => Awake r.1 r.2 := by
  have hstored : ∀ r : GcResult, (k.gcAndSetTimeout r).timeoutSourceId ≠ 0 →
      ∃ source ∈ (k.gcAndSetTimeout r).attached, source.id = (k.gcAndSetTimeout r).timeoutSourceId := fun r hne => by
    rcases gcAndSetTimeout_cases k r with ⟨-, hid, -, -⟩ | ⟨source, -, hattached, hid, -⟩
    · exact absurd hid hne
    · exact ⟨source, hattached ▸ List.mem_cons_self, hid.symm⟩
  unfold gcAndSetTimeout
  refine .ite (fun henabled => ?_) fun hdisabled => .pure ⟨fun h => ?_, hstored _⟩
  · refine (gc_shrinks s).bind fun r hr => ?_
    obtain ⟨timeout, s'⟩ := r
    refine .pure ⟨fun _ hunpinned => ?_, hstored _⟩
    rcases gcAndSetTimeout_cases k ⟨timeout, lastObjectRemoved s s'⟩ with
      ⟨-, -, -, hnone⟩ | ⟨source, -, hattached, -, -⟩
    · obtain ⟨p, hp, hflag⟩ := hunpinned
      have := hr.2 (hnone henabled) p hp
      rw [hflag] at this
      cases this
    · rw [hattached]
      simp
  · rw [gcAndSetTimeout_isEnabled] at h
    simp [hdisabled] at h

/-- Enabling garbage collection attaches a source if there is a need, and none is attached. -/
theorem enableGarbageCollection_awake (h : Awake k s) (s₁ : Cache P σ) :
    Ensures AnyFault (enableGarbageCollection S now k s₁) fun r => Awake r.1 r.2 := by
  unfold enableGarbageCollection
  refine .ite (fun _ => gcAndSetTimeout_awake _ _) fun hid => .pure ⟨fun _ _ hnone => ?_, h.stored⟩
  obtain ⟨source, hmem, -⟩ := h.stored hid
  rw [show k.attached = [] from hnone] at hmem
  cases hmem

/-- An insertion that is accepted attaches a source, unless it finds one or nothing to do. -/
theorem managedInsert_awake {created ctx size : ℕ} {mode : CacheMode} {entry : P} (h : Awake k s)
    (hok : k.isEnabled = true → k.attached = [] → s.allObjects ≠ [] → s.Accepts S created entry →
      S.memoryLimits.exceedsSoft ((s.totalSize + size) % sizeMax) = true ∨
        S.countLimits.exceedsSoft (s.count + 1) = true) :
    Ensures AnyFault (managedInsert S now created mode ctx size entry k s) fun r => Awake r.1 r.2 := by
  unfold managedInsert
  refine .ite (fun haccepts => ?_) fun _ => .pure h
  refine (prepareInsert_leaves _).bind fun s₁ hs₁ => (link_leaves s₁).bind fun r hr => ?_
  obtain ⟨i, s₂⟩ := r
  obtain ⟨hall, htotal⟩ := hr
  dsimp only at hall htotal ⊢
  rw [hs₁.1] at hall
  rw [hs₁.2] at htotal
  have hneeded : ∀ (k : Control) (s : Cache P σ), Awake k s →
      Ensures AnyFault (notifyGarbageCollectionNeeded S now k s) fun r => Awake r.1 r.2 := fun k s hk => by
    unfold notifyGarbageCollectionNeeded
    exact .ite (fun _ => gcAndSetTimeout_awake k s) fun _ => .pure hk
  by_cases hcount : s₂.count = 1
  · unfold notifyFirstObjectInserted
    rw [if_pos hcount]
    refine (enableGarbageCollection_awake h s₂).bind fun r hr => ?_
    obtain ⟨k₃, s₃⟩ := r
    exact hneeded k₃ s₃ hr
  · unfold notifyFirstObjectInserted
    rw [if_neg hcount]
    refine .bind (Q := fun r => r = (k, s₂)) (.pure rfl) fun r hr => ?_
    subst hr
    dsimp only
    unfold notifyGarbageCollectionNeeded
    refine .ite (fun _ => gcAndSetTimeout_awake k s₂) fun hsoft => .pure ⟨fun henabled _ hnone => hsoft ?_, h.stored⟩
    have hlength : s₂.count = s.count + 1 := by rw [Cache.count, hall]; rfl
    have hne : s.allObjects ≠ [] := fun e => by
      rw [Cache.count, hall] at hcount
      exact hcount (by rw [e]; rfl)
    rw [Cache.exceedsSoft, Bool.or_eq_true, htotal, hlength]
    exact hok henabled hnone hne haccepts

/-- A call leaves no object that is not pinned, if everything was pinned. -/
theorem call_leaves_pinned {call : Call P} (hinsert : call.isInsert = false) (hlive : call.Live S now s)
    (hs : ∀ p ∈ s.allObjects, s.isPinned p = true)
    (hok : s.allObjects ≠ [] → LeavesPinned S ⟨now, k, s⟩ (.call call)) :
    Ensures AnyFault (call.run S now s) fun s' => ∀ p ∈ s'.allObjects, s'.isPinned p = true := by
  have hsame : ∀ s' : Cache P σ, s'.allObjects = s.allObjects ∧ s'.isPinned = s.isPinned →
      ∀ p ∈ s'.allObjects, s'.isPinned p = true := fun s' h p hp => by
    rw [h.2]
    exact hs p (h.1 ▸ hp)
  have hempty : ∀ s' : Cache P σ, s.allObjects = [] → (∀ p ∈ s'.allObjects, p ∈ s.allObjects) →
      ∀ p ∈ s'.allObjects, s'.isPinned p = true := fun s' he h p hp => by
    have := h p hp
    rw [he] at this
    cases this
  cases call with
  | insert => cases hinsert
  | insertAgain entry =>
    obtain ⟨-, hreused⟩ := hlive
    unfold Call.run Cache.insertAgain
    dsimp only
    by_cases hfind : s.find (s.id entry) = none
    · rw [if_pos hfind]
      exact .map (Q := fun r => r.2 = s) (.pure rfl) fun r hr => hr ▸ hs
    · rw [if_neg hfind]
      have hentry := (mem_of_find (hreused.resolve_left hfind)).1
      refine .map (Q := fun r : ListId × Cache P σ => ∀ p ∈ r.2.allObjects, r.2.isPinned p = true) ?_ fun r hr => hr
      unfold nextListId
      refine .bind (Q := fun r => r.2.allObjects = s.allObjects.filter (s.id · ≠ s.id entry) ∧
        r.2.isPinned = s.isPinned) (.check_bind (fun _ => trivial) fun _ => .pure ⟨rfl, rfl⟩) fun r hr => ?_
      obtain ⟨i, s₁⟩ := r
      obtain ⟨hall, hpinned⟩ := hr
      dsimp only at hall hpinned
      refine .check_bind (fun _ => trivial) fun _ => .pure fun p hp => ?_
      dsimp only at hp ⊢
      rw [hall] at hp
      rw [hpinned]
      rcases List.mem_cons.mp hp with rfl | hp
      · exact hs p hentry
      · exact hs p (List.mem_filter.mp hp).1
  | useEntry entry => exact (useEntry_leaves entry s).map fun r hr => hsame r.2 ⟨hr.1, hr.2.1⟩
  | use listId => exact (use_leaves listId s).map fun r hr => hsame r.2 hr
  | setObjectSize listId size =>
    refine (setObjectSize_shrinks listId size s).map fun r hr p hp => ?_
    rw [hr.2]
    exact hs p (hr.1 p hp)
  | pin listId =>
    by_cases he : s.allObjects = []
    · exact (pin_leaves listId s).map fun r hr => hempty r.2 he hr.1
    · exact (pin_covers listId s hs (hok he)).map fun r hr => hr
  | gc =>
    refine (gc_shrinks s).map fun r hr p hp => ?_
    rw [hr.1.isPinned]
    exact hs p (hr.1.subset p hp)
  | purgeEntries notify killList =>
    by_cases he : s.allObjects = []
    · exact (purgeEntries_removes notify killList s).mono fun s' hs' => hempty s' he fun p hp => (hs'.2 p hp).1
    · rcases hok he with hnone | hall
      · exact (purgeEntries_uncached notify killList s hnone).mono fun s' hs' => hs' ▸ hs
      · exact (purgeEntries_removes notify killList s).mono fun s' hs' p hp =>
          absurd (hall p (hs'.2 p hp).1) (hs'.2 p hp).2

/-- Each event keeps the cache awake. -/
theorem awake_step {l : ℕ × Event P} (h : Awake c.control c.cache) (hstep : ManagedStep S c l c') (hok : NoNeed S c l) :
    Awake c'.control c'.cache := by
  cases hstep with
  | insert hnow hrun =>
    exact (managedInsert_awake h fun henabled hnone hne haccepts => hok ⟨henabled, hnone, hne⟩ haccepts).ok hrun
  | call hnow hinsert hlive hrun =>
    rename_i now call s'
    have hattached : ∀ b, (c.control.notifyLastObjectRemoved b).attached = c.control.attached := fun b => by
      cases b <;> rfl
    have hid : ∀ b, (c.control.notifyLastObjectRemoved b).timeoutSourceId = c.control.timeoutSourceId := fun b => by
      cases b <;> rfl
    have henabled : ∀ b, (c.control.notifyLastObjectRemoved b).isEnabled = true →
        c.control.isEnabled = true := fun b => by
      cases b
      · exact id
      · exact fun h => by cases h
    refine ⟨fun hen hunpinned hnone => ?_, fun hne => ?_⟩
    · replace hen := henabled _ hen
      replace hnone : c.control.attached = [] := (hattached _).symm.trans hnone
      have hs : ∀ p ∈ c.cache.allObjects, c.cache.isPinned p = true := fun p hp => by
        by_contra hflag
        exact h.source hen ⟨p, hp, by simpa using hflag⟩ hnone
      obtain ⟨p, hp, hflag⟩ := hunpinned
      have := (call_leaves_pinned hinsert hlive hs (k := c.control) fun hne => hok ⟨hen, hnone, hne⟩).ok hrun p hp
      rw [hflag] at this
      cases this
    · rw [hid] at hne ⊢
      obtain ⟨source, hmem, hsource⟩ := h.stored hne
      exact ⟨source, (hattached _).symm ▸ hmem, hsource⟩
  | fire hnow hmem hrun => exact (gcAndSetTimeout_awake _ _).ok hrun

/-- What holds after the events of an example. -/
theorem managed_any (ok : Managed ℕ Unit → ℕ × Event ℕ → Prop) [∀ c l, Decidable (ok c l)] (events : List (ℕ × Event ℕ))
    {Q : Managed ℕ Unit → Bool} (h : (Managed.exec exampleSetup ok events (.start 0 ())).any Q = true) :
    ∃ c, Run (When (ManagedStep exampleSetup) ok) (.start 0 ()) events c ∧ Q c = true := by
  obtain ⟨c, hc, hQ⟩ := (Option.any_eq_true _ _).mp h
  exact ⟨c, Managed.run_of_exec hc, hQ⟩

/-- The root is inserted and pinned, its source is fired after 15 minutes, and another object is inserted afterwards. -/
def sleepyEvents : List (ℕ × Event ℕ) :=
  [(0, .insert 0 .cached 0 10 0), (0, .call (.pin ⟨1⟩)), (900 * 10 ^ 9, .fire 1),
    (960 * 10 ^ 9, .insert (960 * 10 ^ 9) .cached 0 10 1)]

/-- The object that is inserted after the garbage collector has found nothing but pinned objects stays in the cache. -/
theorem wakeup_lost : ∃ c, Run (ManagedStep exampleSetup) (.start 0 ()) sleepyEvents c ∧
    c.control.isEnabled = true ∧ c.cache.allObjects = [1, 0] ∧ c.cache.isPinned 1 = false ∧
      c.control.attached = [] := by
  obtain ⟨c, hrun, hc⟩ := managed_any (fun _ _ => True) sleepyEvents
    (Q := fun c => c.control.isEnabled = true ∧ c.cache.allObjects = [1, 0] ∧ c.cache.isPinned 1 = false ∧
      c.control.attached = []) (by decide +kernel)
  exact ⟨c, hrun.of_when, of_decide_eq_true hc⟩

/-- No wake-up is lost if nothing happens to a sleeping cache that leaves objects to collect. -/
theorem no_lost_wakeup {content : σ} {events : List (ℕ × Event P)}
    (h : Run (When (ManagedStep S) (NoNeed S)) (.start now content) events c) (henabled : c.control.isEnabled = true)
    (hunpinned : ∃ p ∈ c.cache.allObjects, c.cache.isPinned p = false) : c.control.attached ≠ [] := by
  have hawake : Awake c.control c.cache := by
    refine h.invariant (P := fun c => Awake c.control c.cache) (fun c l c' hc hstep => awake_step hc hstep.2 hstep.1)
      ⟨nofun, fun h => absurd rfl h⟩
  exact hawake.source henabled hunpinned

/-- The object is inserted before the source is fired. -/
theorem no_lost_wakeup_inserted : ∃ c : Managed ℕ Unit, c.cache.allObjects = [1, 0] ∧ c.control.attached ≠ [] := by
  obtain ⟨c, hrun, hc⟩ := managed_any (NoNeed exampleSetup)
    [(0, .insert 0 .cached 0 10 0), (0, .call (.pin ⟨1⟩)), (60 * 10 ^ 9, .insert (60 * 10 ^ 9) .cached 0 10 1),
      (900 * 10 ^ 9, .fire 1)]
    (Q := fun c => c.control.isEnabled = true ∧ c.cache.allObjects = [1, 0] ∧ c.cache.isPinned 1 = false)
    (by decide +kernel)
  obtain ⟨henabled, hall, hflag⟩ := of_decide_eq_true hc
  exact ⟨c, hall, no_lost_wakeup hrun henabled ⟨1, by rw [hall]; decide, hflag⟩⟩

end Listbrokers.Lru
