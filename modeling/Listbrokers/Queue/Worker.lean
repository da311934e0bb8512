import Listbrokers.Framework.Lts
import Listbrokers.Queue.WorkQueue

/-!
# The asynchronous work queue

A queue with a worker thread. Callers add works, or clear the queue, or shut it
down; works may also be canceled by others. `accepted` and `started` are logs of
the works that the queue has accepted, and of those that the worker has started.
-/

namespace Listbrokers.Queue

open Framework Async

variable {W : Type} [DecidableEq W]

/-- An asynchronous queue with its worker thread. -/
structure AsyncQueue (W : Type) where
  queue : WorkQueue W
  worker : ProcessPc W
  accepted : List W
  started : List W

def AsyncQueue.init (maximumQueueLength : ℕ) : AsyncQueue W := ⟨.init maximumQueueLength, .woken, [], []⟩

inductive AsyncLabel (W : Type)
  | addWork (work : W)
  | clear
  | shutdown
  | cancel (work : W)
  | wake
  | lock
  | check
  | start
  | finish (success : Bool)
  | next
  deriving DecidableEq, Repr

/-- The steps of callers and of the worker. A step that needs the lock of the queue is taken when the worker does not
have it. The worker may wake up for no reason. -/
inductive AsyncStep (s : AsyncQueue W) : AsyncLabel W → AsyncQueue W → Prop
  | addWork (work : W) : s.worker ≠ .checking → s.queue.isAcceptingWork = true → s.queue.state work = .runnable →
      work ∉ s.accepted → AsyncStep s (.addWork work) { s with
        queue := (s.queue.queueWork work).2
        worker := if (s.queue.queueWork work).1 then s.worker.notify else s.worker
        accepted := s.accepted ++ [work] }
  | clear : s.worker ≠ .checking → AsyncStep s .clear { s with
      queue := s.queue.cancelAllWork
      worker := s.worker.notify }
  | shutdown : s.worker ≠ .checking → s.queue.isAcceptingWork = true → AsyncStep s .shutdown { s with
      queue := { s.queue.cancelAllWork with isAcceptingWork := false }
      worker := s.worker.notify }
  | cancel (work : W) : AsyncStep s (.cancel work) { s with queue := s.queue.cancel work }
  | wake : s.worker = .asleep → AsyncStep s .wake { s with worker := .woken }
  | lock : s.worker = .woken → AsyncStep s .lock { s with worker := .checking }
  | check : s.worker = .checking → AsyncStep s .check { s with
      queue := (processWorkItem none .checking s.queue).1
      worker := (processWorkItem none .checking s.queue).2.1 }
  | start {work : W} : s.worker = .picked work → AsyncStep s .start { s with
      queue := (startRun s.queue work).1
      worker := (startRun s.queue work).2
      started := if s.queue.state work = .runnable then s.started ++ [work] else s.started }
  | finish {work : W} (success : Bool) : s.worker = .running work → AsyncStep s (.finish success) { s with
      queue := s.queue.setState work (endState success (s.queue.state work))
      worker := .returning work }
  | next {work : W} : s.worker = .returning work → AsyncStep s .next { s with
      queue := s.queue.nextWork work
      worker := .checking }

/-- The works that the worker deals with are those that the queue has accepted, in their order: first those which are
settled, then the pending ones. -/
structure Conserved (s : AsyncQueue W) : Prop where
  nodup : s.accepted.Nodup
  past : ∃ past, s.accepted = past ++ s.queue.pending ∧ (∀ w ∈ past, Settled (s.queue.state w)) ∧
    s.started.Sublist (past ++ s.queue.workInProgress.toList)
  ran : ∀ w ∈ s.started, s.queue.state w ≠ .runnable
  running : ∀ w ∈ s.accepted, s.queue.state w = .running → s.worker = .running w
  picked : ∀ w, s.worker = .picked w → s.queue.state w = .runnable → s.queue.workInProgress = some w
  returning : ∀ w, s.worker = .returning w → s.queue.state w ≠ .runnable
  empty : s.queue.workInProgress = none → s.queue.queue = []
  length : s.queue.queue.length ≤ s.queue.maximumQueueLength
  asleep : s.worker = .asleep → s.queue.workInProgress = none ∧ s.queue.isAcceptingWork = true

variable {s s' : AsyncQueue W} {l : AsyncLabel W} {labels : List (AsyncLabel W)} {w v work : W} {maximum : ℕ}

section

omit [DecidableEq W]

theorem Conserved.init (maximum : ℕ) : Conserved (.init maximum : AsyncQueue W) where
  nodup := .nil
  past := ⟨[], rfl, by simp, .refl _⟩
  ran _ h := by cases h
  running _ h := by cases h
  picked _ h := by cases h
  returning _ h := by cases h
  empty _ := rfl
  length := Nat.zero_le _
  asleep h := by cases h

end

namespace Conserved

variable (h : Conserved s)

include h

section

omit [DecidableEq W]

theorem mem_accepted_of_pending (hw : w ∈ s.queue.pending) : w ∈ s.accepted := by
  obtain ⟨past, hall, -, -⟩ := h.past
  exact hall ▸ List.mem_append_right past hw

/-- Some works have been canceled. -/
theorem canceled {f : W → WorkState} (hf : ∀ w, f w = s.queue.state w ∨ f w = cancelState (s.queue.state w)) :
    Conserved { s with queue := { s.queue with state := f } } := by
  have hsettled : ∀ w, Settled (s.queue.state w) → Settled (f w) := fun w hw => by
    rcases hf w with e | e
    · exact e ▸ hw
    · exact e ▸ settled_cancelState _
  have hrunnable : ∀ w, f w = .runnable → s.queue.state w = .runnable := fun w hw => by
    rcases hf w with e | e
    · exact e ▸ hw
    · exact absurd (e ▸ hw) (cancelState_ne_runnable _)
  have hrunning : ∀ w, f w = .running → s.queue.state w = .running := fun w hw => by
    rcases hf w with e | e
    · exact e ▸ hw
    · exact absurd (e ▸ hw) (settled_cancelState _).ne_running
  obtain ⟨past, hall, hpast, hstarted⟩ := h.past
  exact {
    nodup := h.nodup
    past := ⟨past, hall, fun w hw => hsettled w (hpast w hw), hstarted⟩
    ran := fun w hw hf => h.ran w hw (hrunnable w hf)
    running := fun w hw hf => h.running w hw (hrunning w hf)
    picked := fun w hw hf => h.picked w hw (hrunnable w hf)
    returning := fun w hw hf => h.returning w hw (hrunnable w hf)
    empty := h.empty
    length := h.length
    asleep := h.asleep }

/-- The first pending works are not pending any more, as they are settled. -/
theorem drop {K M : List W} (hpending : s.queue.pending = K ++ M) (hK : ∀ w ∈ K, Settled (s.queue.state w)) :
    Conserved { s with queue := { s.queue with
      workInProgress := M.head?
      queue := M.tail } } := by
  obtain ⟨past, hall, hpast, hstarted⟩ := h.past
  have hM : M.head?.toList ++ M.tail = M := by cases M <;> rfl
  -- the work in progress is among the first ones, unless there are none
  have hwip : K = [] ∧ s.queue.workInProgress = M.head? ∧ s.queue.queue = M.tail ∨
      ∃ w K', K = w :: K' ∧ s.queue.workInProgress = some w ∧ s.queue.queue = K' ++ M := by
    rw [WorkQueue.pending] at hpending
    cases hw : s.queue.workInProgress with
    | none =>
      rw [hw, h.empty hw] at hpending
      obtain ⟨rfl, rfl⟩ := List.append_eq_nil_iff.mp hpending.symm
      exact .inl ⟨rfl, rfl, h.empty hw⟩
    | some w =>
      rw [hw] at hpending
      cases K with
      | nil =>
        exact .inl ⟨rfl, by rw [← List.nil_append M, ← hpending]; rfl, by rw [← List.nil_append M, ← hpending]; rfl⟩
      | cons v K' =>
        obtain ⟨rfl, hqueue⟩ := List.cons.inj hpending
        exact .inr ⟨w, K', rfl, rfl, hqueue⟩
  refine ⟨h.nodup, ⟨past ++ K, ?_, fun w hw => ?_, ?_⟩, h.ran, h.running, fun w hw hf => ?_, h.returning,
    fun hnone => ?_, ?_, fun hasleep => ?_⟩
  · rw [hall, hpending, WorkQueue.pending, hM, List.append_assoc]
  · exact (List.mem_append.mp hw).elim (hpast w) (hK w)
  · refine hstarted.trans ?_
    rcases hwip with ⟨rfl, hw, -⟩ | ⟨w, K', rfl, hw, -⟩
    · rw [hw, List.append_nil]
    · rw [hw, List.append_assoc]
      exact List.Sublist.append_left (.cons_cons w (List.nil_sublist _)) past
  · have hw' := h.picked w hw hf
    rcases hwip with ⟨rfl, hwip, -⟩ | ⟨v, K', rfl, hwip, -⟩
    · exact hwip ▸ hw'
    · rw [hwip] at hw'
      cases hw'
      exact absurd hf (hK w List.mem_cons_self).ne_runnable
  · have hnil : M = [] := by simpa using hnone
    rw [hnil]
    rfl
  · refine Nat.le_trans ?_ h.length
    rcases hwip with ⟨-, -, hqueue⟩ | ⟨w, K', -, -, hqueue⟩
    · exact Nat.le_of_eq (congrArg List.length hqueue.symm)
    · dsimp only
      rw [hqueue, List.length_append, List.length_tail]
      omega
  · obtain ⟨hnone, haccepting⟩ := h.asleep hasleep
    rw [WorkQueue.pending, hnone, h.empty hnone] at hpending
    rw [(List.append_eq_nil_iff.mp hpending.symm).2]
    exact ⟨rfl, haccepting⟩

/-- The worker does something else than to run a work. -/
theorem idle {pc : ProcessPc W} (hworker : ∀ w, s.worker ≠ .running w)
    (hpc : pc = .checking ∨ pc = .woken ∨ pc = .left ∨
      pc = .asleep ∧ s.queue.workInProgress = none ∧ s.queue.isAcceptingWork = true) :
    Conserved { s with worker := pc } where
  nodup := h.nodup
  past := h.past
  ran := h.ran
  running w hw hf := absurd (h.running w hw hf) (hworker w)
  picked w hw := by rcases hpc with rfl | rfl | rfl | ⟨rfl, -⟩ <;> cases hw
  returning w hw := by rcases hpc with rfl | rfl | rfl | ⟨rfl, -⟩ <;> cases hw
  empty := h.empty
  length := h.length
  asleep hw := by
    rcases hpc with rfl | rfl | rfl | ⟨-, hasleep⟩
    · cases hw
    · cases hw
    · cases hw
    · exact hasleep

end

theorem notify : Conserved { s with worker := s.worker.notify } := by
  by_cases hw : s.worker = .asleep
  · rw [hw]
    exact h.idle (by simp [hw]) (.inr (.inl rfl))
  · rw [ProcessPc.notify_of_ne hw]
    exact h

section

omit [DecidableEq W]

/-- A work has been added at the end. -/
theorem add {q : WorkQueue W} (hpending : q.pending = s.queue.pending ++ [work])
    (hwip : q.workInProgress = if s.queue.workInProgress = none then some work else s.queue.workInProgress)
    (hstate : q.state = s.queue.state) (hlength : q.queue.length ≤ q.maximumQueueLength)
    (hempty : q.workInProgress = none → q.queue = []) (hnew : work ∉ s.accepted)
    (hrunnable : s.queue.state work = .runnable) (hworker : s.queue.workInProgress = none → s.worker ≠ .asleep) :
    Conserved { s with
      queue := q
      accepted := s.accepted ++ [work] } := by
  obtain ⟨past, hall, hpast, hstarted⟩ := h.past
  refine ⟨?_, ⟨past, ?_, fun w hw => hstate ▸ hpast w hw, hstarted.trans ?_⟩, fun w hw => hstate ▸ h.ran w hw,
    fun w hw hf => ?_, fun w hw hf => ?_, fun w hw => hstate ▸ h.returning w hw, hempty, hlength, fun hasleep => ?_⟩
  · refine List.nodup_append.mpr ⟨h.nodup, List.pairwise_singleton _ _, fun a ha b hb => ?_⟩
    rw [List.mem_singleton.mp hb]
    exact fun e => hnew (e ▸ ha)
  · rw [hpending, hall, List.append_assoc]
  · rw [hwip]
    split
    · next hnone =>
      rw [hnone]
      exact List.Sublist.append_left (List.nil_sublist _) past
    · exact .refl _
  · rw [hstate] at hf
    rcases List.mem_append.mp hw with hw | hw
    · exact h.running w hw hf
    · rw [List.mem_singleton.mp hw, hrunnable] at hf
      cases hf
  · rw [hstate] at hf
    have := h.picked w hw hf
    rw [hwip, this]
    rfl
  · obtain ⟨hnone, -⟩ := h.asleep hasleep
    exact absurd hasleep (hworker hnone)

/-- The worker takes the work in progress. -/
theorem pick (hworker : ∀ w, s.worker ≠ .running w) (hwip : s.queue.workInProgress = some w) :
    Conserved { s with worker := .picked w } where
  nodup := h.nodup
  past := h.past
  ran := h.ran
  running v hv hf := absurd (h.running v hv hf) (hworker v)
  picked v hv _ := by
    cases hv
    exact hwip
  returning v hv := nomatch hv
  empty := h.empty
  length := h.length
  asleep hv := nomatch hv

/-- The worker is back from `Work::run`, which did nothing. -/
theorem back (hworker : ∀ v, s.worker ≠ .running v) (hstate : s.queue.state w ≠ .runnable) :
    Conserved { s with worker := .returning w } where
  nodup := h.nodup
  past := h.past
  ran := h.ran
  running v hv hf := absurd (h.running v hv hf) (hworker v)
  picked v hv := nomatch hv
  returning v hv := by
    cases hv
    exact hstate
  empty := h.empty
  length := h.length
  asleep hv := nomatch hv

/-- The queue does not accept works any more. -/
theorem shut (hworker : s.worker ≠ .asleep) :
    Conserved { s with queue := { s.queue with isAcceptingWork := false } } where
  nodup := h.nodup
  past := h.past
  ran := h.ran
  running := h.running
  picked := h.picked
  returning := h.returning
  empty := h.empty
  length := h.length
  asleep hw := absurd hw hworker

end

theorem cancelAllWork : Conserved { s with queue := s.queue.cancelAllWork } := by
  have hcanceled := h.canceled (f := s.queue.cancelAllWork.state) fun w => by
    by_cases hw : w ∈ s.queue.pending
    · exact .inr (if_pos hw)
    · exact .inl (if_neg hw)
  refine hcanceled.drop (K := s.queue.pending) (M := []) (List.append_nil _).symm fun w hw => ?_
  have hstate : s.queue.cancelAllWork.state w = cancelState (s.queue.state w) := if_pos hw
  exact hstate ▸ settled_cancelState _

theorem cancel (w : W) : Conserved { s with queue := s.queue.cancel w } := by
  refine h.canceled (f := Function.update s.queue.state w (cancelState (s.queue.state w))) fun v => ?_
  by_cases hv : v = w
  · exact .inr (hv ▸ s.queue.cancel_self w)
  · exact .inl (WorkQueue.cancel_of_ne hv)

/-- The next work is in progress, if the worker has dealt with the previous one. -/
theorem nextWork (hworker : ∀ v, s.worker ≠ .running v) (hstate : s.queue.state w ≠ .runnable) :
    Conserved { s with queue := s.queue.nextWork w } := by
  unfold WorkQueue.nextWork
  split
  · next hwip =>
    have haccepted : w ∈ s.accepted := h.mem_accepted_of_pending (by simp [WorkQueue.pending, hwip])
    have hsettled : Settled (s.queue.state w) :=
      settled_of_ne hstate fun hrunning => hworker w (h.running w haccepted hrunning)
    have hdrop := h.drop (K := [w]) (M := s.queue.queue) (by rw [WorkQueue.pending, hwip]; rfl)
      fun v hv => List.mem_singleton.mp hv ▸ hsettled
    split
    · next hqueue => simpa [hqueue] using hdrop
    · next front rest hqueue => simpa [hqueue] using hdrop
  · exact h

/-- The worker enters `do_run`. -/
theorem run (hworker : s.worker = .picked w) (hrunnable : s.queue.state w = .runnable) :
    Conserved { s with
      queue := s.queue.setState w .running
      worker := .running w
      started := s.started ++ [w] } := by
  have hwip := h.picked w hworker hrunnable
  have hnew : w ∉ s.started := fun hw => h.ran w hw hrunnable
  obtain ⟨past, hall, hpast, hstarted⟩ := h.past
  have hother : ∀ v, v ≠ w → (s.queue.setState w .running).state v = s.queue.state v := fun v hv =>
    WorkQueue.setState_of_ne hv
  have hself : (s.queue.setState w .running).state w = .running := s.queue.setState_self w .running
  rw [hwip] at hstarted
  -- what has been started before is past
  have hbefore : s.started.Sublist past := by
    obtain ⟨before, last, heq, hbefore, hlast⟩ := List.sublist_append_iff.mp hstarted
    have hnil : last = [] := by
      refine List.eq_nil_iff_forall_not_mem.mpr fun v hv => hnew ?_
      rw [heq, ← List.mem_singleton.mp (hlast.subset hv)]
      exact List.mem_append_right before hv
    rwa [heq, hnil, List.append_nil]
  refine ⟨h.nodup, ⟨past, hall, fun v hv => ?_, ?_⟩, fun v hv => ?_, fun v hv hf => ?_, nofun, nofun, h.empty, h.length,
    nofun⟩
  · have hv' := hpast v hv
    rw [hother v fun e => hv'.ne_runnable (e ▸ hrunnable)]
    exact hv'
  · have hwip' : (s.queue.setState w .running).workInProgress = some w := hwip
    rw [hwip']
    exact hbefore.append_right [w]
  · rcases List.mem_append.mp hv with hv | hv
    · rw [hother v fun e => hnew (e ▸ hv)]
      exact h.ran v hv
    · rw [List.mem_singleton.mp hv, hself]
      nofun
  · by_cases e : v = w
    · rw [e]
    · rw [hother v e] at hf
      cases hworker.symm.trans (h.running v hv hf)

/-- The worker leaves `do_run`. -/
theorem finish (hworker : s.worker = .running w) (success : Bool) :
    Conserved { s with
      queue := s.queue.setState w (endState success (s.queue.state w))
      worker := .returning w } := by
  have hother : ∀ v, v ≠ w → (s.queue.setState w (endState success (s.queue.state w))).state v = s.queue.state v :=
    fun v hv => WorkQueue.setState_of_ne hv
  have hself : Settled ((s.queue.setState w (endState success (s.queue.state w))).state w) := by
    rw [WorkQueue.setState_self]
    exact settled_endState success _
  obtain ⟨past, hall, hpast, hstarted⟩ := h.past
  refine ⟨h.nodup, ⟨past, hall, fun v hv => ?_, hstarted⟩, fun v hv => ?_, fun v hv hf => ?_, nofun,
    fun v hv => ?_, h.empty, h.length, nofun⟩
  · by_cases e : v = w
    · exact e ▸ hself
    · rw [hother v e]
      exact hpast v hv
  · by_cases e : v = w
    · exact e ▸ hself.ne_runnable
    · rw [hother v e]
      exact h.ran v hv
  · by_cases e : v = w
    · exact absurd (e ▸ hf) hself.ne_running
    · rw [hother v e] at hf
      cases hworker.symm.trans (h.running v hv hf)
      exact absurd rfl e
  · cases hv
    exact hself.ne_runnable

theorem queueWork (hnew : work ∉ s.accepted) (hrunnable : s.queue.state work = .runnable) :
    Conserved { s with
      queue := (s.queue.queueWork work).2
      worker := if (s.queue.queueWork work).1 then s.worker.notify else s.worker
      accepted := s.accepted ++ [work] } := by
  rcases s.queue.queueWork_cases work h.empty with
    ⟨hnone, heq⟩ | ⟨hsome, hlength, heq⟩ | ⟨w, hwip, hfull, ⟨hqueue, heq⟩ | ⟨front, rest, hqueue, heq⟩⟩
  · rw [heq]
    refine h.notify.add ?_ ?_ rfl h.length (fun hnone => by cases hnone) hnew hrunnable fun _ => ?_
    · simp [WorkQueue.pending, hnone, h.empty hnone]
    · simp [hnone]
    · cases s.worker <;> simp [ProcessPc.notify]
  · rw [heq]
    refine h.add ?_ ?_ rfl ?_ (fun hnone => absurd hnone hsome) hnew hrunnable fun hnone => absurd hnone hsome
    · simp [WorkQueue.pending]
    · simp [hsome]
    · simp only [List.length_append, List.length_singleton]
      omega
  all_goals
    -- the work in progress is canceled, to make room
    have haccepted : w ∈ s.accepted := h.mem_accepted_of_pending (by simp [WorkQueue.pending, hwip])
    have hne : work ≠ w := fun e => hnew (e ▸ haccepted)
    have hsettled : Settled ((s.queue.cancel w).state w) := by
      rw [WorkQueue.cancel_self]
      exact settled_cancelState _
    have hwip' : (s.queue.cancel w).workInProgress = some w := hwip
    have hdrop := (h.cancel w).drop (K := [w]) (M := (s.queue.cancel w).queue) (by rw [WorkQueue.pending, hwip']; rfl)
      fun v hv => List.mem_singleton.mp hv ▸ hsettled
    have hrunnable' : (s.queue.cancel w).state work = .runnable := (WorkQueue.cancel_of_ne hne).trans hrunnable
  · rw [heq]
    have hqueue' : (s.queue.cancel w).queue = [] := hqueue
    refine hdrop.notify.add ?_ ?_ rfl ?_ (fun hnone => by cases hnone) hnew hrunnable' fun _ => ?_
    · simp [WorkQueue.pending, hqueue']
    · simp [hqueue']
    · exact h.length
    · cases s.worker <;> simp [ProcessPc.notify]
  · rw [heq]
    have hqueue' : (s.queue.cancel w).queue = front :: rest := hqueue
    refine hdrop.add ?_ ?_ rfl ?_ (fun hnone => by cases hnone) hnew hrunnable' fun hnone => ?_
    · simp [WorkQueue.pending, hqueue']
    · simp [hqueue']
    · have hlength : s.queue.queue.length ≤ (s.queue.cancel w).maximumQueueLength := h.length
      rw [hqueue] at hlength
      simpa using hlength
    · simp [hqueue'] at hnone

/-- One step of callers or of the worker. -/
theorem step (hs : AsyncStep s l s') : Conserved s' := by
  cases hs with
  | addWork work _ _ hrunnable hnew => exact h.queueWork hnew hrunnable
  | clear => exact h.cancelAllWork.notify
  | shutdown =>
    refine h.cancelAllWork.notify.shut ?_
    cases s.worker <;> simp [ProcessPc.notify]
  | cancel work => exact h.cancel work
  | wake hworker => exact h.idle (by simp [hworker]) (.inr (.inl rfl))
  | lock hworker => exact h.idle (by simp [hworker]) (.inl rfl)
  | check hworker =>
    have hidle : ∀ w, s.worker ≠ .running w := by simp [hworker]
    unfold processWorkItem
    split
    · next haccepting =>
      split
      · next hnone => exact h.idle hidle (.inr (.inr (.inr ⟨rfl, hnone, haccepting⟩)))
      · next w hwip =>
        rw [if_pos (.inl rfl)]
        split
        · exact h.pick hidle hwip
        · next hstate => exact (h.nextWork hidle hstate).idle hidle (.inl rfl)
    · exact h.cancelAllWork.idle hidle (.inr (.inr (.inl rfl)))
  | @start work hworker =>
    unfold startRun
    split
    · next hrunnable => exact h.run hworker hrunnable
    · next hstate => exact h.back (by simp [hworker]) hstate
  | finish success hworker => exact h.finish hworker success
  | next hworker =>
    have hidle : ∀ w, s.worker ≠ .running w := by simp [hworker]
    exact (h.nextWork hidle (h.returning _ hworker)).idle hidle (.inl rfl)

end Conserved

theorem AsyncStep.maximumQueueLength (hs : AsyncStep s l s') :
    s'.queue.maximumQueueLength = s.queue.maximumQueueLength := by
  cases hs with
  | addWork work => exact WorkQueue.maximumQueueLength_queueWork s.queue work
  | check => exact maximumQueueLength_processWorkItem none _ s.queue
  | start => exact maximumQueueLength_startRun s.queue _
  | next => exact WorkQueue.maximumQueueLength_nextWork s.queue _
  | _ => rfl

/-- In every interleaving, works are started at most once, in the order in which they were accepted, and none is
lost; the queue is never too long; and a worker that waits has nothing to do. -/
theorem works_conserved (h : Run AsyncStep (.init maximum) labels s) :
    s.started.Nodup ∧ s.started.Sublist s.accepted ∧
      (∀ w ∈ s.accepted, w ∈ s.queue.queue ∨ s.queue.workInProgress = some w ∨ s.worker = .running w ∨
        Settled (s.queue.state w)) ∧
      s.queue.queue.length ≤ maximum ∧ (s.queue.workInProgress = none → s.queue.queue = []) ∧
      (s.worker = .asleep → s.queue.pending = [] ∧ s.queue.isAcceptingWork = true) := by
  have hmaximum : s.queue.maximumQueueLength = maximum :=
    h.invariant (P := fun s => s.queue.maximumQueueLength = maximum)
      (fun _ _ _ hm hs => hs.maximumQueueLength.trans hm) rfl
  have hs : Conserved s := h.invariant (fun _ _ _ hc hs => hc.step hs) (.init maximum)
  obtain ⟨past, hall, hpast, hstarted⟩ := hs.past
  have hsublist : s.started.Sublist s.accepted := by
    rw [hall, WorkQueue.pending, ← List.append_assoc]
    exact hstarted.trans (List.sublist_append_left _ _)
  refine ⟨hs.nodup.sublist hsublist, hsublist, fun w hw => ?_, hmaximum ▸ hs.length, hs.empty, fun hasleep => ?_⟩
  · rw [hall, WorkQueue.pending] at hw
    rcases List.mem_append.mp hw with hw | hw
    · exact .inr (.inr (.inr (hpast w hw)))
    · rcases List.mem_append.mp hw with hw | hw
      · exact .inr (.inl (Option.mem_toList.mp hw))
      · exact .inl hw
  · obtain ⟨hnone, haccepting⟩ := hs.asleep hasleep
    rw [WorkQueue.pending, hnone, hs.empty hnone]
    exact ⟨rfl, haccepting⟩

/-- The first of three works is running when the queue is full: it makes room for the third one. -/
theorem exists_run_full : ∃ s : AsyncQueue (Fin 3),
    Run AsyncStep (.init 1) [.lock, .check, .addWork 0, .lock, .check, .start, .addWork 1, .addWork 2,
      .finish true, .next] s ∧
      s.accepted = [0, 1, 2] ∧ s.started = [0] ∧ s.queue.pending = [1, 2] :=
  ⟨_, .cons (.lock rfl) <| .cons (.check rfl) <| .cons (.addWork 0 nofun rfl rfl nofun) <| .cons (.lock rfl) <|
    .cons (.check rfl) <| .cons (.start rfl) <| .cons (.addWork 1 nofun rfl rfl (by decide)) <|
    .cons (.addWork 2 nofun rfl rfl (by decide)) <| .cons (.finish true rfl) <| .cons (.next rfl) <| .nil _,
    rfl, rfl, rfl⟩

theorem works_conserved_full : ∃ s : AsyncQueue (Fin 3), s.accepted = [0, 1, 2] ∧ s.started = [0] ∧
    (∀ w ∈ s.accepted, w ∈ s.queue.queue ∨ s.queue.workInProgress = some w ∨ s.worker = .running w ∨
      Settled (s.queue.state w)) := by
  obtain ⟨s, hrun, haccepted, hstarted, -⟩ := exists_run_full
  exact ⟨s, haccepted, hstarted, (works_conserved hrun).2.2.1⟩

end Listbrokers.Queue
