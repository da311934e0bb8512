import Listbrokers.Async.Work
import Mathlib.Data.List.Basic

/-!
# Work queues

`DBusAsync::WorkQueue` of `dbus_async_workqueue.cc`. What is done with the lock
of the queue held is a function of the queue, and so is `Work::cancel`. The
condition variable is part of the state of those who wait (`ProcessPc`).
-/

namespace Listbrokers.Queue

open Async

/-- The state of a work after `Work::cancel`. -/
def cancelState : WorkState → WorkState
  | .canceling => .canceling
  | .runnable => .canceled
  | .running => .canceling
  | .done => .done
  | .canceled => .canceled

/-- The state of a work after `do_run` has returned. -/
def endState (success : Bool) : WorkState → WorkState
  | .running => if success then .done else .canceled
  | .canceling => .canceled
  | .runnable => .canceled
  | .done => .done
  | .canceled => .canceled

/-- The work is in a final state, or is about to be. -/
def Settled (state : WorkState) : Prop := state = .done ∨ state = .canceling ∨ state = .canceled

/-- `DBusAsync::WorkQueue`, with the states of the works. -/
structure WorkQueue (W : Type) where
  maximumQueueLength : ℕ
  workInProgress : Option W
  queue : List W
  isAcceptingWork : Bool
  state : W → WorkState

namespace WorkQueue

variable {W : Type} [DecidableEq W] (q : WorkQueue W)

def init (maximumQueueLength : ℕ) : WorkQueue W := ⟨maximumQueueLength, none, [], true, fun _ => .runnable⟩

/-- The works that are still to be processed, in their order. -/
def pending : List W := q.workInProgress.toList ++ q.queue

/-- `Work::cancel`. -/
def cancel (w : W) : WorkQueue W := { q with state := Function.update q.state w (cancelState (q.state w)) }

/-- `cancel_all_work`, without the notification. -/
def cancelAllWork : WorkQueue W := { q with
  state := fun w => if w ∈ q.pending then cancelState (q.state w) else q.state w
  queue := []
  workInProgress := none }

/-- The part of `queue_work` for when no work is in progress; true if the work is processed right now. -/
def putWork (work : W) : Bool × WorkQueue W :=
  match q.queue with
  | [] => (true, { q with workInProgress := some work })
  | front :: rest => (false, { q with
      workInProgress := some front
      queue := rest ++ [work] })

def queueWork (work : W) : Bool × WorkQueue W :=
  match q.workInProgress with
  | none => q.putWork work
  | some w =>
    if q.queue.length < q.maximumQueueLength then (false, { q with queue := q.queue ++ [work] })
    else { q.cancel w with workInProgress := none }.putWork work

/-- The end of `process_work_item`: the next work is in progress. -/
def nextWork (work : W) : WorkQueue W :=
  if q.workInProgress = some work then
    match q.queue with
    | [] => { q with workInProgress := none }
    | front :: rest => { q with
        workInProgress := some front
        queue := rest }
  else q

def setState (w : W) (state : WorkState) : WorkQueue W := { q with state := Function.update q.state w state }

end WorkQueue

/-- A thread in `process_work_item`. -/
inductive ProcessPc (W : Type)
  /-- Has the lock of the queue, about to check the condition for which it waits. -/
  | checking
  | asleep
  /-- About to take the lock of the queue. -/
  | woken
  /-- Has released the lock, about to call `Work::run`. -/
  | picked (work : W)
  /-- In `do_run`. -/
  | running (work : W)
  /-- About to take the lock of the queue, after `Work::run`. -/
  | returning (work : W)
  | left
  deriving DecidableEq, Repr

/-- `notify_all` for one of those who wait. -/
def ProcessPc.notify {W : Type} : ProcessPc W → ProcessPc W
  | asleep => woken
  | pc => pc

/-- The work that is being processed. -/
def ProcessPc.work? {W : Type} : ProcessPc W → Option W
  | picked w => some w
  | running w => some w
  | returning w => some w
  | _ => none

section Process

variable {W : Type} [DecidableEq W]

/-- The part of `process_work_item` from the check of the condition on: for its own work, or for any. The last component
tells if the others are notified. -/
def processWorkItem (own : Option W) (again : ProcessPc W) (q : WorkQueue W) : WorkQueue W × ProcessPc W × Bool :=
  if q.isAcceptingWork then
    match q.workInProgress with
    | none => (q, .asleep, false)
    | some w =>
      if own = none ∨ own = some w then
        if q.state w = .runnable then (q, .picked w, false) else (q.nextWork w, again, true)
      else (q, .asleep, false)
  else (q.cancelAllWork, .left, true)

/-- `Work::run` up to `do_run`. -/
def startRun (q : WorkQueue W) (w : W) : WorkQueue W × ProcessPc W :=
  if q.state w = .runnable then (q.setState w .running, .running w) else (q, .returning w)

end Process

/-! ## Facts -/

variable {W : Type} [DecidableEq W] {q : WorkQueue W} {w v : W} {state : WorkState}

theorem settled_cancelState (state : WorkState) : Settled (cancelState state) := by
  cases state <;> simp [cancelState, Settled]

theorem settled_endState (success : Bool) (state : WorkState) : Settled (endState success state) := by
  cases state <;> cases success <;> simp [endState, Settled]

theorem settled_of_ne (h : state ≠ .runnable) (h' : state ≠ .running) : Settled state := by
  cases state <;> simp_all [Settled]

theorem Settled.ne_runnable (h : Settled state) : state ≠ .runnable := by
  rintro rfl
  simp [Settled] at h

theorem Settled.ne_running (h : Settled state) : state ≠ .running := by
  rintro rfl
  simp [Settled] at h

theorem cancelState_ne_runnable (state : WorkState) : cancelState state ≠ .runnable :=
  (settled_cancelState state).ne_runnable

section

omit [DecidableEq W]

@[simp] theorem ProcessPc.work?_notify (pc : ProcessPc W) : pc.notify.work? = pc.work? := by cases pc <;> rfl

@[simp] theorem ProcessPc.notify_eq_running {pc : ProcessPc W} : pc.notify = .running w ↔ pc = .running w := by
  cases pc <;> simp [notify]

theorem ProcessPc.notify_of_ne {pc : ProcessPc W} (h : pc ≠ .asleep) : pc.notify = pc := by
  cases pc with
  | asleep => exact absurd rfl h
  | _ => rfl

end

namespace WorkQueue

section

omit [DecidableEq W]

theorem mem_pending : w ∈ q.pending ↔ q.workInProgress = some w ∨ w ∈ q.queue := by
  rw [pending, List.mem_append, Option.mem_toList]

end

@[simp] theorem pending_cancelAllWork : q.cancelAllWork.pending = [] := rfl

theorem setState_self (q : WorkQueue W) (w : W) (state : WorkState) : (q.setState w state).state w = state :=
  Function.update_self _ _ _

theorem setState_of_ne (hv : v ≠ w) : (q.setState w state).state v = q.state v := Function.update_of_ne hv _ _

theorem cancel_self (q : WorkQueue W) (w : W) : (q.cancel w).state w = cancelState (q.state w) :=
  Function.update_self _ _ _

theorem cancel_of_ne (hv : v ≠ w) : (q.cancel w).state v = q.state v := Function.update_of_ne hv _ _

/-- What `queue_work` does: the work goes to the end, and if the queue is full, the work in progress makes room. -/
theorem queueWork_cases (q : WorkQueue W) (work : W) (hempty : q.workInProgress = none → q.queue = []) :
    (q.workInProgress = none ∧ q.queueWork work = (true, { q with workInProgress := some work })) ∨
    (q.workInProgress ≠ none ∧ q.queue.length < q.maximumQueueLength ∧
      q.queueWork work = (false, { q with queue := q.queue ++ [work] })) ∨
    ∃ w, q.workInProgress = some w ∧ ¬ q.queue.length < q.maximumQueueLength ∧
      ((q.queue = [] ∧ q.queueWork work = (true, { q.cancel w with workInProgress := some work })) ∨
        ∃ front rest, q.queue = front :: rest ∧ q.queueWork work = (false, { q.cancel w with
          workInProgress := some front
          queue := rest ++ [work] })) := by
  unfold queueWork
  cases hw : q.workInProgress with
  | none =>
    left
    simp [putWork, hempty hw]
  | some w =>
    right
    by_cases hlen : q.queue.length < q.maximumQueueLength
    · simp [hlen]
    · right
      refine ⟨w, rfl, hlen, ?_⟩
      cases hq : q.queue with
      | nil => simp [hq, putWork, cancel] at hlen ⊢; simp [hlen]
      | cons front rest => simp [hq, putWork, cancel] at hlen ⊢; omega

theorem nextWork_of_eq (h : q.workInProgress = some w) : q.nextWork w = { q with
    workInProgress := q.queue.head?
    queue := q.queue.tail } := by
  rw [nextWork, if_pos h]
  split
  · next hqueue => rw [hqueue]; rfl
  · next front rest hqueue => rw [hqueue]; rfl

theorem nextWork_of_ne (h : q.workInProgress ≠ some w) : q.nextWork w = q := if_neg h

theorem state_nextWork (q : WorkQueue W) (w : W) : (q.nextWork w).state = q.state := by
  by_cases hwip : q.workInProgress = some w
  · rw [nextWork_of_eq hwip]
  · rw [nextWork_of_ne hwip]

/-- The next works are those that have been waiting. -/
theorem pending_nextWork_sublist (q : WorkQueue W) (w : W) : (q.nextWork w).pending.Sublist q.pending := by
  by_cases hwip : q.workInProgress = some w
  · have hpending : (q.nextWork w).pending = q.queue := by
      rw [nextWork_of_eq hwip, pending]
      cases q.queue <;> rfl
    rw [hpending]
    exact List.sublist_append_right _ _
  · rw [nextWork_of_ne hwip]

theorem mem_pending_queueWork (q : WorkQueue W) (work : W) (hw : w ∈ (q.queueWork work).2.pending) :
    w ∈ q.pending ∨ w = work := by
  revert hw
  simp only [queueWork, putWork, cancel, mem_pending]
  repeat' split
  all_goals simp_all
  all_goals grind

theorem maximumQueueLength_queueWork (q : WorkQueue W) (work : W) :
    (q.queueWork work).2.maximumQueueLength = q.maximumQueueLength := by
  simp only [queueWork, putWork, cancel]
  repeat' split
  all_goals rfl

theorem maximumQueueLength_nextWork (q : WorkQueue W) (work : W) :
    (q.nextWork work).maximumQueueLength = q.maximumQueueLength := by
  simp only [nextWork]
  repeat' split
  all_goals rfl

end WorkQueue

theorem maximumQueueLength_processWorkItem (own : Option W) (again : ProcessPc W) (q : WorkQueue W) :
    (processWorkItem own again q).1.maximumQueueLength = q.maximumQueueLength := by
  simp only [processWorkItem, WorkQueue.cancelAllWork]
  repeat' split
  all_goals first | rfl | exact WorkQueue.maximumQueueLength_nextWork q _

theorem mem_pending_processWorkItem (own : Option W) (again : ProcessPc W) (q : WorkQueue W)
    (hw : w ∈ (processWorkItem own again q).1.pending) : w ∈ q.pending := by
  revert hw
  unfold processWorkItem
  repeat' split
  · exact id
  · exact id
  · exact fun hw => (q.pending_nextWork_sublist _).subset hw
  · exact id
  · nofun

/-- Who has checked the condition processes the work in progress. -/
theorem work?_processWorkItem (own : Option W) (again : ProcessPc W) (q : WorkQueue W) (hagain : again.work? = none)
    (hw : (processWorkItem own again q).2.1.work? = some w) : q.workInProgress = some w := by
  revert hw
  unfold processWorkItem
  repeat' split
  · nofun
  · next hwip _ _ => exact fun hw => hwip.trans hw
  · exact fun hw => nomatch hagain.symm.trans hw
  · nofun
  · nofun

theorem work?_startRun (q : WorkQueue W) (w : W) : (startRun q w).2.work? = some w := by
  unfold startRun
  split <;> rfl

theorem pending_startRun (q : WorkQueue W) (w : W) : (startRun q w).1.pending = q.pending := by
  unfold startRun
  split <;> rfl

theorem maximumQueueLength_startRun (q : WorkQueue W) (w : W) :
    (startRun q w).1.maximumQueueLength = q.maximumQueueLength := by
  unfold startRun
  split <;> rfl

end Listbrokers.Queue
