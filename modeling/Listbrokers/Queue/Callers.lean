import Mathlib.Data.Fintype.Basic
import Listbrokers.Framework.Lts
import Listbrokers.Queue.WorkQueue

/-!
# The synchronous work queue

A queue without a worker thread: who adds a work waits until the work is the one
in progress, processes it, and returns. A caller is known by the work it adds.

A caller is woken up when the queue is cleared, and when another one is done. It
goes on waiting unless its work is in progress or the queue is shut down. So a
caller whose work has been removed by others, while the queue still accepts
works, waits forever (`Stranded`). Works are removed by `clear`, and by
`queue_work` when the queue is full.
-/

namespace Listbrokers.Queue

open Framework Async

variable {W : Type} [DecidableEq W]

/-- In the loop that waits for the condition. -/
def ProcessPc.Waits (pc : ProcessPc W) : Prop := pc.work? = none ∧ pc ≠ .left

instance (pc : ProcessPc W) : Decidable pc.Waits := inferInstanceAs (Decidable (_ ∧ _))

/-- A synchronous queue with the callers of `add_work`; `accepted` is a log of the works. -/
structure SyncQueue (W : Type) where
  queue : WorkQueue W
  caller : W → ProcessPc W
  accepted : List W

def SyncQueue.init (maximumQueueLength : ℕ) : SyncQueue W := ⟨.init maximumQueueLength, fun _ => .left, []⟩

namespace SyncQueue

variable (s : SyncQueue W)

/-- No one has the lock of the queue. -/
def Unlocked : Prop := ∀ v, s.caller v ≠ .checking

instance [Fintype W] : Decidable s.Unlocked := inferInstanceAs (Decidable (∀ _, _))

/-- The callers, after one of them has got to `pc`, and has notified the others or not. -/
def proceed (notifyAll : Bool) (w : W) (pc : ProcessPc W) : W → ProcessPc W :=
  Function.update (if notifyAll then fun v => (s.caller v).notify else s.caller) w pc

/-- The caller waits for a work that the queue does not know any more. -/
def Stranded (w : W) : Prop :=
  (s.caller w).Waits ∧ s.queue.workInProgress ≠ some w ∧ w ∉ s.queue.queue ∧ s.queue.isAcceptingWork = true

end SyncQueue

inductive SyncLabel (W : Type)
  | addWork (work : W)
  | clear
  | shutdown
  | wake (work : W)
  | lock (work : W)
  | check (work : W)
  | start (work : W)
  | finish (work : W) (success : Bool)
  | next (work : W)
  deriving DecidableEq, Repr

/-- The steps of callers. A caller may wake up for no reason. -/
inductive SyncStep (s : SyncQueue W) : SyncLabel W → SyncQueue W → Prop
  | addWork (work : W) : s.Unlocked → s.queue.isAcceptingWork = true → s.queue.state work = .runnable →
      work ∉ s.accepted → SyncStep s (.addWork work) { s with
        queue := (s.queue.queueWork work).2
        caller := s.proceed false work .checking
        accepted := s.accepted ++ [work] }
  | clear : s.Unlocked → SyncStep s .clear { s with
      queue := s.queue.cancelAllWork
      caller := fun v => (s.caller v).notify }
  | shutdown : s.Unlocked → s.queue.isAcceptingWork = true → SyncStep s .shutdown { s with
      queue := { s.queue.cancelAllWork with isAcceptingWork := false }
      caller := fun v => (s.caller v).notify }
  | wake {w : W} : s.caller w = .asleep → SyncStep s (.wake w) { s with caller := s.proceed false w .woken }
  | lock {w : W} : s.Unlocked → s.caller w = .woken →
    SyncStep s (.lock w) { s with caller := s.proceed false w .checking }
  | check {w : W} : s.caller w = .checking → SyncStep s (.check w) { s with
      queue := (processWorkItem (some w) .left s.queue).1
      caller := s.proceed (processWorkItem (some w) .left s.queue).2.2 w (processWorkItem (some w) .left s.queue).2.1 }
  | start {w work : W} : s.caller w = .picked work → SyncStep s (.start w) { s with
      queue := (startRun s.queue work).1
      caller := s.proceed false w (startRun s.queue work).2 }
  | finish {w work : W} (success : Bool) : s.caller w = .running work → SyncStep s (.finish w success) { s with
      queue := s.queue.setState work (endState success (s.queue.state work))
      caller := s.proceed false w (.returning work) }
  | next {w work : W} : s.Unlocked → s.caller w = .returning work → SyncStep s (.next w) { s with
      queue := s.queue.nextWork work
      caller := s.proceed true w .left }

/-- `clear` finds no caller waiting, and `queue_work` makes room only if the caller of the work in progress
processes it. -/
def Careful (s : SyncQueue W) : SyncLabel W → Prop
  | .clear => s.queue.isAcceptingWork = true → ∀ w, ¬ (s.caller w).Waits
  | .addWork _ => ∀ w, s.queue.workInProgress = some w → ¬ s.queue.queue.length < s.queue.maximumQueueLength →
      ¬ (s.caller w).Waits
  | _ => True

/-- A step that a caller takes on its own. -/
def SyncLabel.OfCaller : SyncLabel W → Prop
  | .addWork _ | .clear | .shutdown | .wake _ => False
  | _ => True

/-! ## Where callers are -/

section Pc

variable {pc : ProcessPc W} {w : W}

section

omit [DecidableEq W]

@[simp] theorem ProcessPc.notify_eq_left : pc.notify = .left ↔ pc = .left := by cases pc <;> simp [notify]

@[simp] theorem ProcessPc.notify_ne_asleep : pc.notify ≠ .asleep := by cases pc <;> simp [notify]

@[simp] theorem ProcessPc.waits_notify : pc.notify.Waits ↔ pc.Waits := by simp [Waits]

theorem ProcessPc.Waits.ne_left (h : pc.Waits) : pc ≠ .left := h.2

end

theorem SyncQueue.proceed_self (s : SyncQueue W) (notifyAll : Bool) (w : W) (pc : ProcessPc W) :
    s.proceed notifyAll w pc w = pc :=
  Function.update_self _ _ _

theorem SyncQueue.proceed_of_ne (s : SyncQueue W) (notifyAll : Bool) {v w : W} (hv : v ≠ w) (pc : ProcessPc W) :
    s.proceed notifyAll w pc v = if notifyAll then (s.caller v).notify else s.caller v := by
  rw [proceed, Function.update_of_ne hv]
  split <;> rfl

theorem SyncQueue.proceed_proceed (s : SyncQueue W) (notifyAll : Bool) (w : W) (pc pc' : ProcessPc W) :
    ({ s with caller := s.proceed false w pc } : SyncQueue W).proceed notifyAll w pc' = s.proceed notifyAll w pc' := by
  funext v
  by_cases e : v = w
  · rw [e, proceed_self, proceed_self]
  · rw [proceed_of_ne _ _ e, proceed_of_ne _ _ e]
    dsimp only
    rw [proceed_of_ne _ _ e]
    rfl

/-- What holds of all callers holds after one has gone on, if it holds of this one. -/
theorem SyncQueue.forall_proceed {s : SyncQueue W} {w : W} {pc : ProcessPc W} {P : W → ProcessPc W → Prop}
    (hself : P w pc) (hother : ∀ v, v ≠ w → P v (s.caller v)) (v : W) : P v (s.proceed false w pc v) := by
  by_cases e : v = w
  · rw [e, s.proceed_self]
    exact hself
  · rw [s.proceed_of_ne false e]
    exact hother v e

end Pc

/-! ## The invariant -/

/-- Every work that the queue knows is attended to by its caller, and who waits does so for a work that the queue
knows. -/
structure Attended (s : SyncQueue W) : Prop where
  nodup : s.queue.pending.Nodup
  known : ∀ w ∈ s.queue.pending, w ∈ s.accepted
  inside : ∀ w, s.caller w ≠ .left → w ∈ s.accepted
  own : ∀ w v, (s.caller w).work? = some v → v = w
  empty : s.queue.workInProgress = none → s.queue.queue = []
  queued : ∀ w ∈ s.queue.queue, (s.caller w).Waits
  progress : ∀ w, s.queue.workInProgress = some w → s.caller w ≠ .left
  waits : s.queue.isAcceptingWork = true → ∀ w, (s.caller w).Waits → w ∈ s.queue.pending
  asleep : ∀ w, s.caller w = .asleep → s.queue.isAcceptingWork = true
  active : ∀ w, s.queue.workInProgress = some w → s.caller w = .asleep → ∃ v, (s.caller v).work? = some v

variable {s s' : SyncQueue W} {l : SyncLabel W} {labels : List (SyncLabel W)} {w v work : W} {pc : ProcessPc W}
  {q : WorkQueue W} {maximum : ℕ}

section

omit [DecidableEq W]

theorem Attended.init (maximum : ℕ) : Attended (.init maximum : SyncQueue W) where
  nodup := .nil
  known _ hw := nomatch hw
  inside _ hw := absurd rfl hw
  own _ _ hv := nomatch hv
  empty _ := rfl
  queued _ hw := nomatch hw
  progress _ hw := nomatch hw
  waits _ _ hw := absurd rfl hw.ne_left
  asleep _ hw := nomatch hw
  active _ hw := nomatch hw

end

namespace Attended

variable (h : Attended s)

include h

section

omit [DecidableEq W]

/-- Who is inside and does not wait, processes its work. -/
theorem work?_eq (hw : s.caller w ≠ .left) (hwaits : ¬ (s.caller w).Waits) : (s.caller w).work? = some w := by
  cases hv : (s.caller w).work? with
  | none => exact absurd ⟨hv, hw⟩ hwaits
  | some v => rw [h.own w v hv]

theorem not_mem_queue (hw : s.queue.workInProgress = some w) : w ∉ s.queue.queue := by
  have hnodup := h.nodup
  rw [WorkQueue.pending, hw] at hnodup
  exact (List.nodup_cons.mp hnodup).1

theorem ne_left_of_pending (hw : w ∈ s.queue.pending) : s.caller w ≠ .left := by
  rcases WorkQueue.mem_pending.mp hw with hw | hw
  · exact h.progress w hw
  · exact (h.queued w hw).ne_left

theorem not_stranded (w : W) : ¬ s.Stranded w := by
  rintro ⟨hwaits, hwip, hqueue, haccepting⟩
  rcases WorkQueue.mem_pending.mp (h.waits haccepting w hwaits) with hw | hw
  · exact hwip hw
  · exact hqueue hw

end

/-- A caller that stays inside goes on. -/
theorem move (hold : s.caller w ≠ .left) (hnew : pc ≠ .left) (hown : ∀ v, pc.work? = some v → v = w)
    (hwaits : pc.Waits → (s.caller w).Waits) (hqueued : w ∈ s.queue.queue → pc.Waits)
    (hasleep : pc = .asleep → s.queue.isAcceptingWork = true ∧ s.queue.workInProgress ≠ some w)
    (hactive : (s.caller w).work? = some w → pc.work? = some w) :
    Attended { s with caller := s.proceed false w pc } where
  nodup := h.nodup
  known := h.known
  inside := s.forall_proceed (P := fun v pc => pc ≠ .left → v ∈ s.accepted) (fun _ => h.inside w hold)
    fun v _ => h.inside v
  own := s.forall_proceed (P := fun w pc => ∀ v, pc.work? = some v → v = w) hown fun v _ => h.own v
  empty := h.empty
  queued := s.forall_proceed (P := fun v pc => v ∈ s.queue.queue → pc.Waits) hqueued fun v _ => h.queued v
  progress := s.forall_proceed (P := fun v pc => s.queue.workInProgress = some v → pc ≠ .left) (fun _ => hnew)
    fun v _ => h.progress v
  waits ha := s.forall_proceed (P := fun v pc => pc.Waits → v ∈ s.queue.pending) (fun hw => h.waits ha w (hwaits hw))
    fun v _ => h.waits ha v
  asleep := s.forall_proceed (P := fun _ pc => pc = .asleep → s.queue.isAcceptingWork = true) (fun hw => (hasleep hw).1)
    fun v _ => h.asleep v
  active := by
    have hkeep : (∃ v, (s.caller v).work? = some v) → ∃ v, (s.proceed false w pc v).work? = some v := by
      rintro ⟨v, hv⟩
      refine ⟨v, ?_⟩
      by_cases e : v = w
      · subst e
        rw [s.proceed_self]
        exact hactive hv
      · rw [s.proceed_of_ne false e]
        exact hv
    exact s.forall_proceed (P := fun v pc' => s.queue.workInProgress = some v → pc' = .asleep →
      ∃ v, (s.proceed false w pc v).work? = some v) (fun hv hpc => absurd hv (hasleep hpc).2)
      fun v _ hv hpc => hkeep (h.active v hv hpc)

theorem setState (w : W) (state : WorkState) : Attended { s with queue := s.queue.setState w state } :=
  ⟨h.nodup, h.known, h.inside, h.own, h.empty, h.queued, h.progress, h.waits, h.asleep, h.active⟩

/-- A caller goes on processing its work. -/
theorem process (hw : (s.caller w).work? = some w) (hpc : pc.work? = some w) :
    Attended { s with caller := s.proceed false w pc } := by
  have hwaits : ∀ pc : ProcessPc W, pc.work? = some w → ¬ pc.Waits := fun pc hpc h => nomatch h.1.symm.trans hpc
  have hleft : ∀ pc : ProcessPc W, pc.work? = some w → pc ≠ .left := by
    rintro pc hpc rfl
    cases hpc
  refine h.move (hleft _ hw) (hleft pc hpc) (fun v hv => ?_) (fun hpc' => absurd hpc' (hwaits pc hpc))
    (fun hqueue => absurd (h.queued w hqueue) (hwaits _ hw)) (fun hasleep => ?_) fun _ => hpc
  · exact Option.some.inj (hv.symm.trans hpc)
  · rw [hasleep] at hpc
    cases hpc

section

omit [DecidableEq W]

/-- All who wait are notified, and the queue forgets some works: those of callers that do not wait. -/
theorem notifyAll (hpending : q.pending.Sublist s.queue.pending) (hqueue : q.queue.Sublist s.queue.queue)
    (hwaits : q.isAcceptingWork = true → ∀ w, (s.caller w).Waits → w ∈ q.pending)
    (hempty : q.workInProgress = none → q.queue = []) :
    Attended { s with
      queue := q
      caller := fun v => (s.caller v).notify } where
  nodup := h.nodup.sublist hpending
  known w hw := h.known w (hpending.subset hw)
  inside w hw := h.inside w (by simpa using hw)
  own w v hv := h.own w v (by simpa using hv)
  empty := hempty
  queued w hw := by simpa using h.queued w (hqueue.subset hw)
  progress w hw := by simpa using h.ne_left_of_pending (hpending.subset (WorkQueue.mem_pending.mpr (.inl hw)))
  waits ha w hw := hwaits ha w (by simpa using hw)
  asleep w hw := absurd hw (by simp)
  active w _ hw := absurd hw (by simp)

end

/-- A caller whose work the queue does not know any more leaves. -/
theorem leave (hw : w ∉ s.queue.pending) (hasleep : ∀ v, v ≠ w → s.caller v ≠ .asleep) :
    Attended { s with caller := s.proceed false w .left } where
  nodup := h.nodup
  known := h.known
  inside := s.forall_proceed (P := fun v pc => pc ≠ .left → v ∈ s.accepted) (fun hv => absurd rfl hv)
    fun v _ => h.inside v
  own := s.forall_proceed (P := fun w pc => ∀ v, pc.work? = some v → v = w) nofun fun v _ => h.own v
  empty := h.empty
  queued := s.forall_proceed (P := fun v pc => v ∈ s.queue.queue → pc.Waits)
    (fun hv => absurd (WorkQueue.mem_pending.mpr (.inr hv)) hw) fun v _ => h.queued v
  progress := s.forall_proceed (P := fun v pc => s.queue.workInProgress = some v → pc ≠ .left)
    (fun hv => absurd (WorkQueue.mem_pending.mpr (.inl hv)) hw) fun v _ => h.progress v
  waits ha := s.forall_proceed (P := fun v pc => pc.Waits → v ∈ s.queue.pending) (fun hv => absurd rfl hv.ne_left)
    fun v _ => h.waits ha v
  asleep := s.forall_proceed (P := fun _ pc => pc = .asleep → s.queue.isAcceptingWork = true) nofun
    fun v _ => h.asleep v
  active := s.forall_proceed (P := fun v pc => s.queue.workInProgress = some v → pc = .asleep →
      ∃ v, (s.proceed false w .left v).work? = some v) nofun fun v hv _ hpc => absurd hpc (hasleep v hv)

/-- A work has been added, and others may have made room for it. -/
theorem add (hnodup : q.pending.Nodup) (hpending : ∀ v ∈ q.pending, v ∈ s.queue.pending ∨ v = work)
    (hqueue : ∀ v ∈ q.queue, v ∈ s.queue.queue ∨ v = work) (hwork : work ∈ q.pending)
    (hempty : q.workInProgress = none → q.queue = []) (haccepting : q.isAcceptingWork = true)
    (haccepting' : s.queue.isAcceptingWork = true)
    (hwaits : ∀ v ∈ s.queue.pending, (s.caller v).Waits → v ∈ q.pending)
    (hactive : ∀ v, v ≠ work → q.workInProgress = some v → s.caller v = .asleep →
      ∃ u, u ≠ work ∧ (s.caller u).work? = some u) :
    Attended { s with
      queue := q
      caller := s.proceed false work .checking
      accepted := s.accepted ++ [work] } where
  nodup := hnodup
  known v hv := by
    rcases hpending v hv with hv | rfl
    · exact List.mem_append_left _ (h.known v hv)
    · exact List.mem_append_right _ List.mem_cons_self
  inside := s.forall_proceed (P := fun v pc => pc ≠ .left → v ∈ s.accepted ++ [work])
    (fun _ => List.mem_append_right _ List.mem_cons_self) fun v _ hv => List.mem_append_left _ (h.inside v hv)
  own := s.forall_proceed (P := fun w pc => ∀ v, pc.work? = some v → v = w) nofun fun v _ => h.own v
  empty := hempty
  queued := s.forall_proceed (P := fun v pc => v ∈ q.queue → pc.Waits) (fun _ => ⟨rfl, nofun⟩)
    fun v hne hv => h.queued v ((hqueue v hv).resolve_right hne)
  progress := s.forall_proceed (P := fun v pc => q.workInProgress = some v → pc ≠ .left) nofun
    fun v hne hv => h.ne_left_of_pending ((hpending v (WorkQueue.mem_pending.mpr (.inl hv))).resolve_right hne)
  waits _ := s.forall_proceed (P := fun v pc => pc.Waits → v ∈ q.pending) (fun _ => hwork)
    fun v _ hv => hwaits v (h.waits haccepting' v hv) hv
  asleep := s.forall_proceed (P := fun _ pc => pc = .asleep → q.isAcceptingWork = true) nofun
    fun _ _ _ => haccepting
  active := s.forall_proceed (P := fun v pc => q.workInProgress = some v → pc = .asleep →
      ∃ u, (s.proceed false work .checking u).work? = some u) nofun fun v hne hv hpc => by
    obtain ⟨u, hu, hu'⟩ := hactive v hne hv hpc
    exact ⟨u, by rw [s.proceed_of_ne false hu]; exact hu'⟩

theorem addWork (hcareful : Careful s (.addWork work)) (haccepting : s.queue.isAcceptingWork = true)
    (hnew : work ∉ s.accepted) :
    Attended { s with
      queue := (s.queue.queueWork work).2
      caller := s.proceed false work .checking
      accepted := s.accepted ++ [work] } := by
  have hwork : work ∉ s.queue.pending := fun hw => hnew (h.known work hw)
  have hother : ∀ v, (s.caller v).work? = some v → v ≠ work := by
    rintro v hv rfl
    refine hnew (h.inside v fun hleft => ?_)
    rw [hleft] at hv
    cases hv
  have hadd : ∀ l : List W, l.Nodup → work ∉ l → (l ++ [work]).Nodup := fun l hl hw => by
    refine List.nodup_append.mpr ⟨hl, List.pairwise_singleton _ _, fun a ha b hb => ?_⟩
    rw [List.mem_singleton.mp hb]
    exact fun e => hw (e ▸ ha)
  rcases s.queue.queueWork_cases work h.empty with
    ⟨hnone, heq⟩ | ⟨hsome, -, heq⟩ | ⟨w, hwip, hfull, hroom⟩
  · rw [heq]
    have hnil := h.empty hnone
    have hpending : s.queue.pending = [] := by rw [WorkQueue.pending, hnone, hnil]; rfl
    refine h.add ?_ ?_ ?_ ?_ (fun hnone => by cases hnone) haccepting haccepting ?_ fun v hne hv => ?_
    · simp [WorkQueue.pending, hnil]
    · simp [WorkQueue.pending, hnil]
    · simp [hnil]
    · simp [WorkQueue.pending]
    · simp [hpending]
    · exact absurd (Option.some.inj hv).symm hne
  · rw [heq]
    have hpending : ({ s.queue with queue := s.queue.queue ++ [work] } : WorkQueue W).pending =
        s.queue.pending ++ [work] := by
      simp [WorkQueue.pending]
    refine h.add ?_ ?_ ?_ ?_ (fun hnone => absurd hnone hsome) haccepting haccepting ?_ fun v _ hv hasleep => ?_
    · rw [hpending]
      exact hadd _ h.nodup hwork
    · simp [hpending]
    · simp
    · simp [hpending]
    · intro v hv _
      rw [hpending]
      exact List.mem_append_left _ hv
    · obtain ⟨u, hu⟩ := h.active v hv hasleep
      exact ⟨u, hother u hu, hu⟩
  · -- the caller of the work in progress does not wait
    have hwaits : ¬ (s.caller w).Waits := hcareful w hwip hfull
    have hactive : (s.caller w).work? = some w := h.work?_eq (h.progress w hwip) hwaits
    have hqueue : ∀ v ∈ s.queue.queue, v ∈ s.queue.pending := fun v hv => WorkQueue.mem_pending.mpr (.inr hv)
    have hnodup : (s.queue.queue ++ [work]).Nodup :=
      hadd _ (h.nodup.sublist (List.sublist_append_right _ _)) fun hw => hwork (hqueue work hw)
    have hroom' : ∃ q : WorkQueue W, (s.queue.queueWork work).2 = q ∧ q.pending = s.queue.queue ++ [work] ∧
        q.isAcceptingWork = true ∧ q.workInProgress ≠ none := by
      rcases hroom with ⟨hnil, heq⟩ | ⟨front, rest, hcons, heq⟩
      · exact ⟨_, congrArg Prod.snd heq, by simp [WorkQueue.pending, WorkQueue.cancel, hnil], haccepting,
          Option.some_ne_none _⟩
      · exact ⟨_, congrArg Prod.snd heq, by simp [WorkQueue.pending, hcons], haccepting, Option.some_ne_none _⟩
    obtain ⟨q, rfl, hpending, hq, hsome⟩ := hroom'
    have hmem : ∀ v, v ∈ (s.queue.queueWork work).2.pending ↔ v ∈ s.queue.queue ∨ v = work := fun v => by
      rw [hpending, List.mem_append, List.mem_singleton]
    refine h.add (hpending ▸ hnodup) (fun v hv => ?_) (fun v hv => ?_) ?_ (fun hnone => absurd hnone hsome)
      hq haccepting (fun v hv hv' => ?_) fun v _ _ _ => ⟨w, hother w hactive, hactive⟩
    · exact ((hmem v).mp hv).imp_left (hqueue v)
    · exact (hmem v).mp (WorkQueue.mem_pending.mpr (.inr hv))
    · exact (hmem work).mpr (.inr rfl)
    · refine (hmem v).mpr (.inl ?_)
      rcases WorkQueue.mem_pending.mp hv with hv | hv
      · cases hwip.symm.trans hv
        exact absurd hv' hwaits
      · exact hv

/-- The caller of a work has processed it. -/
theorem next (hw : (s.caller w).work? = some w) :
    Attended { s with
      queue := s.queue.nextWork w
      caller := s.proceed true w .left } := by
  have hne : ∀ v, (s.caller v).Waits → v ≠ w := by
    rintro v hv rfl
    rw [hv.1] at hw
    cases hw
  have hqueue : w ∉ s.queue.queue := fun hmem => hne w (h.queued w hmem) rfl
  by_cases hwip : s.queue.workInProgress = some w
  · rw [WorkQueue.nextWork_of_eq hwip]
    have hpending : ({ s.queue with
        workInProgress := s.queue.queue.head?
        queue := s.queue.queue.tail } : WorkQueue W).pending = s.queue.queue := by
      rw [WorkQueue.pending]
      cases s.queue.queue <;> rfl
    refine (h.notifyAll ?_ (List.tail_sublist _) (fun ha v hv => ?_) fun hnone => ?_).leave ?_ (by simp)
    · rw [hpending]
      exact List.sublist_append_right _ _
    · rw [hpending]
      rcases WorkQueue.mem_pending.mp (h.waits ha v hv) with hv' | hv'
      · cases hwip.symm.trans hv'
        exact absurd rfl (hne w hv)
      · exact hv'
    · have hnil : s.queue.queue = [] := List.head?_eq_none_iff.mp hnone
      dsimp only
      rw [hnil]
      rfl
    · dsimp only
      rw [hpending]
      exact hqueue
  · rw [WorkQueue.nextWork_of_ne hwip]
    refine (h.notifyAll (.refl _) (.refl _) h.waits h.empty).leave (fun hmem => ?_) (by simp)
    exact (WorkQueue.mem_pending.mp hmem).elim hwip hqueue

/-- The caller of a work checks the condition for which it waits. -/
theorem check (hw : s.caller w = .checking) :
    Attended { s with
      queue := (processWorkItem (some w) .left s.queue).1
      caller := s.proceed (processWorkItem (some w) .left s.queue).2.2 w
        (processWorkItem (some w) .left s.queue).2.1 } := by
  have hleft : s.caller w ≠ .left := by rw [hw]; nofun
  have hwaits : (s.caller w).Waits := by rw [hw]; exact ⟨rfl, nofun⟩
  have hnone : (s.caller w).work? ≠ some w := by rw [hw]; nofun
  unfold processWorkItem
  split
  · next haccepting =>
    -- the caller has to wait until its work is in progress
    have hwait (hwip : s.queue.workInProgress ≠ some w) :
        Attended { s with caller := s.proceed false w .asleep } :=
      h.move hleft nofun nofun (fun _ => hwaits) (fun _ => ⟨rfl, nofun⟩) (fun _ => ⟨haccepting, hwip⟩)
        fun hw => absurd hw hnone
    split
    · next hwip => exact hwait (by rw [hwip]; nofun)
    · next v hwip =>
      by_cases e : w = v
      · subst e
        rw [if_pos (.inr rfl)]
        have hqueue : w ∉ s.queue.queue := h.not_mem_queue hwip
        split
        · exact h.move hleft nofun (fun v hv => (Option.some.inj hv).symm) (fun hpc => nomatch hpc.1)
            (fun hmem => absurd hmem hqueue) nofun fun _ => rfl
        · have hmove : Attended { s with caller := s.proceed false w (.returning w) } :=
            h.move hleft nofun (fun v hv => (Option.some.inj hv).symm) (fun hpc => nomatch hpc.1)
              (fun hmem => absurd hmem hqueue) nofun fun _ => rfl
          have hnext := hmove.next (w := w) (by dsimp only; rw [s.proceed_self]; rfl)
          rw [s.proceed_proceed] at hnext
          exact hnext
      · rw [if_neg (by simp [e])]
        exact hwait (by rw [hwip]; exact fun e' => e (Option.some.inj e').symm)
  · next haccepting =>
    exact (h.notifyAll (q := s.queue.cancelAllWork) (List.nil_sublist _) (List.nil_sublist _)
      (fun ha => absurd ha haccepting) fun _ => rfl).leave nofun (by simp)

/-- One step of callers. -/
theorem step (hcareful : Careful s l) (hs : SyncStep s l s') : Attended s' := by
  cases hs with
  | addWork work _ haccepting _ hnew => exact h.addWork hcareful haccepting hnew
  | clear =>
    exact h.notifyAll (List.nil_sublist _) (List.nil_sublist _) (fun ha w hw => absurd hw (hcareful ha w)) fun _ => rfl
  | shutdown => exact h.notifyAll (List.nil_sublist _) (List.nil_sublist _) nofun fun _ => rfl
  | @wake w hw =>
    have hwaits : (s.caller w).Waits := by rw [hw]; exact ⟨rfl, nofun⟩
    exact h.move hwaits.ne_left nofun nofun (fun _ => hwaits) (fun _ => ⟨rfl, nofun⟩) nofun
      fun hv => absurd (hwaits.1.symm.trans hv) nofun
  | @lock w _ hw =>
    have hwaits : (s.caller w).Waits := by rw [hw]; exact ⟨rfl, nofun⟩
    exact h.move hwaits.ne_left nofun nofun (fun _ => hwaits) (fun _ => ⟨rfl, nofun⟩) nofun
      fun hv => absurd (hwaits.1.symm.trans hv) nofun
  | check hw => exact h.check hw
  | @start w work hw =>
    obtain rfl : work = w := h.own w work (by rw [hw]; rfl)
    unfold startRun
    split
    · exact (h.process (by rw [hw]; rfl) rfl).setState work .running
    · exact h.process (by rw [hw]; rfl) rfl
  | @finish w work success hw =>
    obtain rfl : work = w := h.own w work (by rw [hw]; rfl)
    exact (h.process (by rw [hw]; rfl) rfl).setState work _
  | @next w work _ hw =>
    obtain rfl : work = w := h.own w work (by rw [hw]; rfl)
    exact h.next (by rw [hw]; rfl)

/-- A careless step leaves a caller behind. -/
theorem exists_stranded (hs : SyncStep s l s') (hcareless : ¬ Careful s l) : ∃ w, s'.Stranded w := by
  cases hs with
  | clear =>
    simp only [Careful, not_forall, not_not] at hcareless
    obtain ⟨haccepting, w, hw⟩ := hcareless
    exact ⟨w, by simpa using hw, nofun, nofun, haccepting⟩
  | addWork work _ haccepting _ hnew =>
    simp only [Careful, not_forall, not_not] at hcareless
    obtain ⟨w, hwip, hfull, hw⟩ := hcareless
    have hne : w ≠ work := fun e => hnew (e ▸ h.known w (WorkQueue.mem_pending.mpr (.inl hwip)))
    have hwaits : (s.proceed false work .checking w).Waits := by
      rw [s.proceed_of_ne false hne]
      exact hw
    have hqueue : w ∉ s.queue.queue := h.not_mem_queue hwip
    refine ⟨w, hwaits, ?_⟩
    rcases s.queue.queueWork_cases work h.empty with
      ⟨hnone, -⟩ | ⟨-, hlength, -⟩ | ⟨_, -, -, ⟨hnil, heq⟩ | ⟨front, rest, hcons, heq⟩⟩
    · cases hnone.symm.trans hwip
    · exact absurd hlength hfull
    · dsimp only
      rw [heq]
      exact ⟨fun e => hne (Option.some.inj e).symm, hqueue, haccepting⟩
    · dsimp only
      rw [heq]
      rw [hcons] at hqueue
      refine ⟨fun e => hqueue (Option.some.inj e ▸ List.mem_cons_self), fun hmem => ?_, haccepting⟩
      rcases List.mem_append.mp hmem with hmem | hmem
      · exact hqueue (List.mem_cons_of_mem _ hmem)
      · exact hne (List.mem_singleton.mp hmem)
  | _ => exact absurd trivial hcareless

/-- As long as there are callers inside, one of them can go on. -/
theorem exists_step (hinside : s.caller w ≠ .left) : ∃ l s', l.OfCaller ∧ SyncStep s l s' := by
  by_cases hlock : s.Unlocked
  · -- a caller that does not sleep can go on
    have hawake : ∀ v, s.caller v ≠ .left → s.caller v ≠ .asleep →
        ∃ l s', l.OfCaller ∧ SyncStep s l s' := fun v hv hv' => by
      cases hpc : s.caller v with
      | checking => exact absurd hpc (hlock v)
      | asleep => exact absurd hpc hv'
      | woken => exact ⟨.lock v, _, trivial, .lock hlock hpc⟩
      | picked work => exact ⟨.start v, _, trivial, .start hpc⟩
      | running work => exact ⟨.finish v true, _, trivial, .finish true hpc⟩
      | returning work => exact ⟨.next v, _, trivial, .next hlock hpc⟩
      | left => exact absurd hpc hv
    by_cases hw : s.caller w = .asleep
    · -- one that sleeps waits for a work in progress, whose caller is inside
      have hpending : w ∈ s.queue.pending := h.waits (h.asleep w hw) w (by rw [hw]; exact ⟨rfl, nofun⟩)
      have hsome : s.queue.workInProgress ≠ none := fun hnone => by
        rw [WorkQueue.pending, hnone, h.empty hnone] at hpending
        cases hpending
      obtain ⟨v, hv⟩ := Option.ne_none_iff_exists'.mp hsome
      by_cases hv' : s.caller v = .asleep
      · obtain ⟨u, hu⟩ := h.active v hv hv'
        refine hawake u (fun e => ?_) fun e => ?_
        · rw [e] at hu
          cases hu
        · rw [e] at hu
          cases hu
      · exact hawake v (h.progress v hv) hv'
    · exact hawake w hinside hw
  · obtain ⟨v, hv⟩ := not_forall_not.mp hlock
    exact ⟨.check v, _, trivial, .check hv⟩

end Attended

end Listbrokers.Queue
