import Listbrokers.Framework.Lts
import Mathlib.Data.List.Basic
import Mathlib.Algebra.Order.Ring.Int

/-!
# The timer of the garbage collector

`LRU::CacheControl` of `cachecontrol.cc`, and the timeout sources that it has
attached to the main loop. The main loop fires a source once, and removes it.

What the garbage collector does, if it is run, is given as a `GcResult`.
-/

namespace Listbrokers.Lru

open Framework

/-- A timeout source of the main loop. -/
structure Source where
  id : ℕ
  timeoutMs : ℕ
  deriving DecidableEq, Repr

/-- `LRU::CacheControl` and its sources. The main loop numbers sources from 1. -/
structure Control where
  isEnabled : Bool
  timeoutSourceId : ℕ
  attached : List Source
  nextSourceId : ℕ
  deriving DecidableEq, Repr

/-- What a run of the garbage collector returns, in seconds, with `none` for the maximum, and whether it has
notified the control about the removal of the last object. -/
structure GcResult where
  timeout : Option ℕ
  lastObjectRemoved : Bool
  deriving DecidableEq, Repr

namespace Control

def init : Control := ⟨false, 0, [], 1⟩

/-- `G_MAXUINT` -/
def gMaxUint : ℕ := 2 ^ 32 - 1

def minimumTimeoutMs : ℕ := 500

variable (k : Control)

def disableGarbageCollection : Control := { k with isEnabled := false }

def setTimeout (timeout : Option ℕ) : Control :=
  match timeout with
  | none => k
  | some seconds =>
    let timeoutMs := seconds * 1000
    let sourceTimeoutMs := if timeoutMs ≤ gMaxUint then max timeoutMs minimumTimeoutMs else gMaxUint
    { k with
      timeoutSourceId := k.nextSourceId
      attached := ⟨k.nextSourceId, sourceTimeoutMs⟩ :: k.attached
      nextSourceId := k.nextSourceId + 1 }

/-- The garbage collector is run if garbage collection is enabled. -/
def gcAndSetTimeout (r : GcResult) : Control :=
  let k := { k with timeoutSourceId := 0 }
  if k.isEnabled then
    let k := if r.lastObjectRemoved then k.disableGarbageCollection else k
    k.setTimeout r.timeout
  else k

def triggerGc (r : GcResult) : Control := k.gcAndSetTimeout r

def enableGarbageCollection (r : GcResult) : Control :=
  let k := { k with isEnabled := true }
  if k.timeoutSourceId = 0 then k.gcAndSetTimeout r else k

/-- The main loop has removed the source that it fires. -/
def remove (id : ℕ) : Control := { k with attached := k.attached.filter (·.id ≠ id) }

/-- The main loop fires a source. -/
def fire (id : ℕ) (r : GcResult) : Control := (k.remove id).triggerGc r

end Control

/-- The entry points of the control. -/
inductive ControlCall
  | enable (r : GcResult)
  | disable
  | trigger (r : GcResult)
  | fire (id : ℕ) (r : GcResult)
  deriving DecidableEq, Repr

/-- A call of the control. Only attached sources are fired. -/
inductive ControlStep : Control → ControlCall → Control → Prop
  | enable (k : Control) (r : GcResult) : ControlStep k (.enable r) (k.enableGarbageCollection r)
  | disable (k : Control) : ControlStep k .disable k.disableGarbageCollection
  | trigger (k : Control) (r : GcResult) : ControlStep k (.trigger r) (k.triggerGc r)
  | fire (k : Control) (id : ℕ) (r : GcResult) : (∃ source ∈ k.attached, source.id = id) →
      ControlStep k (.fire id r) (k.fire id r)

variable {k k' : Control} {l : ControlCall} {r : GcResult} {calls : List ControlCall}

/-- The stored ID is the one of the attached source, if there is one. -/
inductive AtMostOne (k : Control) : Prop
  | none (attached : k.attached = []) (id : k.timeoutSourceId = 0)
  | one (source : Source) (attached : k.attached = [source]) (id : k.timeoutSourceId = source.id) (ne : source.id ≠ 0)

/-- The control attaches a new source if the garbage collector wants to be run again. -/
theorem gcAndSetTimeout_cases (k : Control) (r : GcResult) :
    ((k.gcAndSetTimeout r).attached = k.attached ∧ (k.gcAndSetTimeout r).timeoutSourceId = 0 ∧
      (k.gcAndSetTimeout r).nextSourceId = k.nextSourceId ∧ (k.isEnabled = true → r.timeout = none)) ∨
    ∃ source, source.id = k.nextSourceId ∧ (k.gcAndSetTimeout r).attached = source :: k.attached ∧
      (k.gcAndSetTimeout r).timeoutSourceId = source.id ∧ (k.gcAndSetTimeout r).nextSourceId = k.nextSourceId + 1 := by
  unfold Control.gcAndSetTimeout
  cases k.isEnabled with
  | false => exact .inl ⟨rfl, rfl, rfl, by simp⟩
  | true =>
    cases r.timeout with
    | none => cases r.lastObjectRemoved <;> exact .inl ⟨rfl, rfl, rfl, fun _ => rfl⟩
    | some seconds => cases r.lastObjectRemoved <;> exact .inr ⟨_, rfl, rfl, rfl, rfl⟩

theorem gcAndSetTimeout_isEnabled (k : Control) (r : GcResult) :
    (k.gcAndSetTimeout r).isEnabled = (k.isEnabled && !r.lastObjectRemoved) := by
  obtain ⟨isEnabled, _, _, _⟩ := k
  obtain ⟨timeout, lastObjectRemoved⟩ := r
  cases isEnabled with
  | false => rfl
  | true =>
    cases timeout with
    | none => cases lastObjectRemoved <;> rfl
    | some seconds => cases lastObjectRemoved <;> rfl

/-- The main loop does not use zero as an ID. -/
theorem nextSourceId_pos (h : ControlStep k l k') (hpos : 0 < k.nextSourceId) : 0 < k'.nextSourceId := by
  have hgc : ∀ (k : Control) (r : GcResult), 0 < k.nextSourceId → 0 < (k.gcAndSetTimeout r).nextSourceId := by
    intro k r hk
    rcases gcAndSetTimeout_cases k r with ⟨-, -, hnext, -⟩ | ⟨source, -, -, -, hnext⟩
    · rw [hnext]
      exact hk
    · rw [hnext]
      exact Nat.succ_pos _
  cases h with
  | enable r =>
    unfold Control.enableGarbageCollection
    dsimp only
    split
    · exact hgc _ _ hpos
    · exact hpos
  | disable => exact hpos
  | trigger r => exact hgc _ _ hpos
  | fire id r _ => exact hgc _ _ hpos

/-- Without a source, the control attaches at most one. -/
theorem AtMostOne.gcAndSetTimeout (hnone : k.attached = []) (hpos : 0 < k.nextSourceId) (r : GcResult) :
    AtMostOne (k.gcAndSetTimeout r) := by
  rcases gcAndSetTimeout_cases k r with ⟨hattached, hid, -, -⟩ | ⟨source, hsource, hattached, hid, -⟩
  · exact .none (hattached.trans hnone) hid
  · exact .one source (by rw [hattached, hnone]) hid (by omega)

/-- The step is not a call of `trigger_gc` while a source is attached. -/
def NotWhileAttached (k : Control) (l : ControlCall) : Prop := ∀ r, l = .trigger r → k.attached = []

/-- One step keeps the number of sources below two, if and only if it is not a call of `trigger_gc` while a source is
attached. -/
theorem atMostOne_step (h : ControlStep k l k') (hk : AtMostOne k) (hpos : 0 < k.nextSourceId) :
    AtMostOne k' ↔ NotWhileAttached k l := by
  cases h with
  | enable r =>
    refine iff_of_true ?_ fun _ h => by cases h
    unfold Control.enableGarbageCollection
    dsimp only
    split
    · next hid =>
      cases hk with
      | none hnone _ => exact .gcAndSetTimeout (k := { k with isEnabled := true }) hnone hpos r
      | one source _ hid' hne => exact absurd (hid'.symm.trans hid) hne
    · cases hk with
      | none hnone hid => exact .none hnone hid
      | one source hone hid hne => exact .one source hone hid hne
  | disable =>
    refine iff_of_true ?_ fun _ h => by cases h
    cases hk with
    | none hnone hid => exact .none hnone hid
    | one source hone hid hne => exact .one source hone hid hne
  | trigger r =>
    constructor
    · rintro hk' _ -
      cases hk with
      | none hnone _ => exact hnone
      | one source hone _ _ =>
        -- the source stays attached, and its ID is lost
        rcases gcAndSetTimeout_cases k r with ⟨hattached, hid, -, -⟩ | ⟨source', -, hattached, -, -⟩
        · cases hk' with
          | none hnone _ => exact absurd (hattached.symm.trans hnone) (by simp [hone])
          | one _ _ hid' hne => exact absurd (hid'.symm.trans hid) hne
        · cases hk' with
          | none hnone _ => exact absurd (hattached.symm.trans hnone) (by simp)
          | one source'' hone' _ _ => exact absurd (hattached.symm.trans hone') (by simp [hone])
    · exact fun hnone => .gcAndSetTimeout (hnone r rfl) hpos r
  | fire id r hattached =>
    refine iff_of_true ?_ fun _ h => by cases h
    refine .gcAndSetTimeout (k := k.remove id) ?_ hpos r
    obtain ⟨source, hmem, hid⟩ := hattached
    cases hk with
    | none hnone _ =>
      rw [hnone] at hmem
      cases hmem
    | one source' hone _ _ =>
      rw [hone, List.mem_singleton] at hmem
      simp [Control.remove, hone, ← hmem, hid]

/-- Inserting an object that exceeds a limit triggers the garbage collector while the source is attached that was set up
when the first object was inserted. -/
theorem two_sources : ∃ k, Run ControlStep .init
    [.enable ⟨some 900, false⟩, .trigger ⟨some 890, false⟩]
    k ∧ k.attached = [⟨2, 890000⟩, ⟨1, 900000⟩] ∧ ¬ AtMostOne k := by
  refine ⟨_, .cons (.enable _ _) (.cons (.trigger _ _) (.nil _)), rfl, fun h => ?_⟩
  cases h with
  | none hnone _ => cases hnone
  | one source hone _ _ => cases hone

/-- At most one source is attached, and the control knows it, if garbage collection is not triggered while a source is
attached. -/
theorem at_most_one_source (h : Run (When ControlStep NotWhileAttached) .init calls k) : AtMostOne k := by
  refine (h.invariant (P := fun k => AtMostOne k ∧ 0 < k.nextSourceId) (fun k l k' hk hstep => ?_)
    ⟨.none rfl rfl, Nat.one_pos⟩).1
  exact ⟨(atMostOne_step hstep.2 hk.1 hk.2).mpr hstep.1, nextSourceId_pos hstep.2 hk.2⟩

/-- The source is fired and attached again, then fired when no object is left, and the next object is inserted. -/
theorem at_most_one_source_fired : AtMostOne ⟨true, 3, [⟨3, 900000⟩], 4⟩ := by
  have hrun : Run (When ControlStep NotWhileAttached) .init
      [.enable ⟨some 900, false⟩, .fire 1 ⟨some 1, false⟩, .fire 2 ⟨none, true⟩, .trigger ⟨none, false⟩,
        .enable ⟨some 900, false⟩] ⟨true, 3, [⟨3, 900000⟩], 4⟩ := by
    refine .cons ⟨nofun, .enable _ _⟩ (.cons ⟨nofun, .fire _ _ _ ?_⟩ (.cons ⟨nofun, .fire _ _ _ ?_⟩
      (.cons ⟨fun _ _ => rfl, .trigger _ _⟩ (.cons ⟨nofun, .enable _ _⟩ (.nil _)))))
    · exact ⟨⟨1, 900000⟩, by decide, rfl⟩
    · exact ⟨⟨2, 1000⟩, by decide, rfl⟩
  exact at_most_one_source hrun

end Listbrokers.Lru
