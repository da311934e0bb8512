import Listbrokers.Queue.Worker

/-!
# Navigation works on the queues of a list tree

The works of `de.tahifi.Lists.Navigation`, on the four queues of a list tree. A
work that is canceled while it is running asks the list tree not to block
(`push_cancel_blocking_operation`), and takes this back when it is destroyed.
This is the case when neither a queue, nor a worker, nor the cookie jar, nor a
D-Bus handler refers to it any more.
-/

namespace Listbrokers.Queue

open Framework Async

variable {W : Type} [DecidableEq W]

/-- The queues of `ListTreeIface`. -/
inductive NavQueue
  | getRange
  | getListId
  | getUris
  | realizeLocation
  deriving DecidableEq, Repr

/-- The works that are canceled in a step of callers or of the worker. -/
def AsyncQueue.canceledBy (s : AsyncQueue W) : AsyncLabel W → List W
  | .addWork _ =>
    if s.queue.queue.length < s.queue.maximumQueueLength then [] else s.queue.workInProgress.toList
  | .clear | .shutdown => s.queue.queue ++ s.queue.workInProgress.toList
  | .cancel w => [w]
  | .check => if s.queue.isAcceptingWork then [] else s.queue.queue ++ s.queue.workInProgress.toList
  | _ => []

/-- A list tree with its queues, and the works on them. -/
structure NavLists (W : Type) where
  queue : NavQueue → AsyncQueue W
  /-- The works in the cookie jar. -/
  workByCookie : W → Bool
  /-- How many D-Bus handlers refer to the work. -/
  handlers : W → ℕ
  cancellationRequested : W → Bool
  cancelBlockingOperationCounter : ℕ
  /-- The works whose operation has failed with `ListError::INTERRUPTED`. -/
  interrupted : W → Bool
  destroyed : W → Bool

namespace NavLists

def init (maximumQueueLength : NavQueue → ℕ) : NavLists W where
  queue i := .init (maximumQueueLength i)
  workByCookie _ := false
  handlers _ := 0
  cancellationRequested _ := false
  cancelBlockingOperationCounter := 0
  interrupted _ := false
  destroyed _ := false

variable (s : NavLists W)

def isBlockingOperationAllowed : Bool := s.cancelBlockingOperationCounter == 0

/-- `NavListsWork::do_cancel`. -/
def doCancel (w : W) : NavLists W :=
  if s.cancellationRequested w then s
  else { s with
    cancellationRequested := Function.update s.cancellationRequested w true
    cancelBlockingOperationCounter := s.cancelBlockingOperationCounter + 1 }

/-- `Work::cancel` for a work on a queue, except for its state. -/
def cancel (i : NavQueue) (s : NavLists W) (w : W) : NavLists W :=
  if (s.queue i).queue.state w = .running then s.doCancel w else s

/-- The destructor of `NavListsWork`. -/
def destroy (w : W) : NavLists W := { s with
  destroyed := Function.update s.destroyed w true
  cancelBlockingOperationCounter :=
    if s.cancellationRequested w then s.cancelBlockingOperationCounter - 1 else s.cancelBlockingOperationCounter }

/-- The beginning of `enter_child_template`, called by a work. -/
def enterChild (w : W) : NavLists W :=
  if s.isBlockingOperationAllowed then s else { s with interrupted := Function.update s.interrupted w true }

def Referenced (w : W) : Prop :=
  s.workByCookie w = true ∨ 0 < s.handlers w ∨
    ∃ i, w ∈ (s.queue i).queue.pending ∨ (s.queue i).worker.work? = some w

/-- A queue has got to `q`. The work that has been added is in the cookie jar, and its handler refers to it; a work
that has been canceled leaves the jar. -/
def proceed (i : NavQueue) (l : AsyncLabel W) (q : AsyncQueue W) : NavLists W :=
  { ((s.queue i).canceledBy l).foldl (cancel i) s with
    queue := Function.update s.queue i q
    workByCookie := fun w =>
      (s.workByCookie w || l = .addWork w) && !(decide (w ∈ q.accepted) && q.queue.state w = .canceled)
    handlers := fun w => if l = .addWork w then s.handlers w + 1 else s.handlers w }

/-- Works are added once, and canceled from elsewhere by a handler that refers to them. A work that has been interrupted
returns false from `do_run`. -/
def Permits (i : NavQueue) : AsyncLabel W → Prop
  | .addWork w => ∀ j, w ∉ (s.queue j).accepted
  | .cancel w => w ∈ (s.queue i).accepted ∧ 0 < s.handlers w
  | .finish success => ∀ w, (s.queue i).worker = .running w → s.interrupted w = true → success = false
  | _ => True

end NavLists

inductive NavLabel (W : Type)
  | queue (i : NavQueue) (l : AsyncLabel W)
  /-- A handler gets a work by its cookie. -/
  | find (work : W)
  /-- A handler drops its reference, and may have eaten the cookie. -/
  | drop (work : W) (eaten : Bool)
  | destroy (work : W)
  | enterChild (i : NavQueue)
  deriving DecidableEq, Repr

inductive NavStep (s : NavLists W) : NavLabel W → NavLists W → Prop
  | queue (i : NavQueue) {l : AsyncLabel W} {q : AsyncQueue W} : AsyncStep (s.queue i) l q → s.Permits i l →
      NavStep s (.queue i l) (s.proceed i l q)
  | find (w : W) : s.workByCookie w = true → NavStep s (.find w) { s with
      handlers := Function.update s.handlers w (s.handlers w + 1) }
  | drop (w : W) (eaten : Bool) : 0 < s.handlers w → NavStep s (.drop w eaten) { s with
      handlers := Function.update s.handlers w (s.handlers w - 1)
      workByCookie := if eaten then Function.update s.workByCookie w false else s.workByCookie }
  | destroy (i : NavQueue) (w : W) : w ∈ (s.queue i).accepted → s.destroyed w = false → ¬ s.Referenced w →
      NavStep s (.destroy w) (s.destroy w)
  | enterChild {i : NavQueue} {w : W} : (s.queue i).worker = .running w → NavStep s (.enterChild i) (s.enterChild w)

/-- A running work is canceled only while no other one is running, unless the other one is canceled, too. And no
work starts to run as long as there is one that has been canceled while it was running. -/
def Undisturbed (s : NavLists W) : NavLabel W → Prop
  | .queue i l =>
    ((∃ v ∈ (s.queue i).canceledBy l, (s.queue i).queue.state v = .running ∧ s.cancellationRequested v = false) →
      ∀ j w, (s.queue j).worker = .running w → s.cancellationRequested w = false → w ∈ (s.queue i).canceledBy l) ∧
    (l = .start → ∀ w, (s.queue i).worker = .picked w → (s.queue i).queue.state w = .runnable →
      ∀ v, s.cancellationRequested v = true → s.destroyed v = true)
  | _ => True

/-! ## What a step of a queue does -/

section Step

variable {s s' : AsyncQueue W} {l : AsyncLabel W} {w : W}

theorem mem_accepted_step (hs : AsyncStep s l s') : w ∈ s'.accepted ↔ w ∈ s.accepted ∨ l = .addWork w := by
  cases hs with
  | addWork work => simp [eq_comm]
  | _ => simp

/-- A step changes the states of works by canceling them, or by running them. -/
theorem state_step (hs : AsyncStep s l s') (hempty : s.queue.workInProgress = none → s.queue.queue = []) (w : W) :
    w ∈ s.canceledBy l ∧ s'.queue.state w = cancelState (s.queue.state w) ∨
    w ∉ s.canceledBy l ∧ s'.queue.state w = s.queue.state w ∨
    l = .start ∧ s.worker = .picked w ∧ s.queue.state w = .runnable ∧ s'.queue.state w = .running ∨
    ∃ success, l = .finish success ∧ s.worker = .running w ∧ s'.queue.state w = endState success (s.queue.state w) := by
  have hall : w ∈ s.queue.queue ++ s.queue.workInProgress.toList ∧
        s.queue.cancelAllWork.state w = cancelState (s.queue.state w) ∨
      w ∉ s.queue.queue ++ s.queue.workInProgress.toList ∧ s.queue.cancelAllWork.state w = s.queue.state w := by
    have hmem : w ∈ s.queue.queue ++ s.queue.workInProgress.toList ↔ w ∈ s.queue.pending := by
      rw [WorkQueue.mem_pending, List.mem_append, Option.mem_toList, or_comm]
    rw [hmem]
    by_cases hw : w ∈ s.queue.pending
    · exact .inl ⟨hw, if_pos hw⟩
    · exact .inr ⟨hw, if_neg hw⟩
  have hnext : ∀ work, (s.queue.nextWork work).state w = s.queue.state w := fun work => by rw [WorkQueue.state_nextWork]
  cases hs with
  | addWork work =>
    rcases s.queue.queueWork_cases work hempty with
      ⟨hnone, heq⟩ | ⟨-, hlength, heq⟩ | ⟨v, hwip, hfull, hroom⟩
    · rw [heq]
      exact .inr (.inl ⟨by simp [AsyncQueue.canceledBy, hnone], rfl⟩)
    · rw [heq]
      exact .inr (.inl ⟨by simp [AsyncQueue.canceledBy, hlength], rfl⟩)
    · have hstate : (s.queue.queueWork work).2.state = (s.queue.cancel v).state := by
        rcases hroom with ⟨-, heq⟩ | ⟨_, _, -, heq⟩
        · rw [heq]
        · rw [heq]
      rw [hstate, AsyncQueue.canceledBy, if_neg hfull, hwip]
      by_cases hw : w = v
      · subst hw
        exact .inl ⟨List.mem_cons_self, s.queue.cancel_self w⟩
      · exact .inr (.inl ⟨by simpa using hw, WorkQueue.cancel_of_ne hw⟩)
  | clear => exact hall.imp_right .inl
  | shutdown => exact hall.imp_right .inl
  | cancel work =>
    by_cases hw : w = work
    · subst hw
      exact .inl ⟨List.mem_cons_self, s.queue.cancel_self w⟩
    · exact .inr (.inl ⟨by simpa [AsyncQueue.canceledBy] using hw, WorkQueue.cancel_of_ne hw⟩)
  | wake => exact .inr (.inl ⟨nofun, rfl⟩)
  | lock => exact .inr (.inl ⟨nofun, rfl⟩)
  | check =>
    unfold processWorkItem
    by_cases haccepting : s.queue.isAcceptingWork = true
    · rw [AsyncQueue.canceledBy, if_pos haccepting, if_pos haccepting]
      refine .inr (.inl ⟨nofun, ?_⟩)
      split
      · rfl
      · rw [if_pos (.inl rfl)]
        split
        · rfl
        · exact hnext _
    · rw [AsyncQueue.canceledBy, if_neg haccepting, if_neg haccepting]
      exact hall.imp_right .inl
  | @start work hworker =>
    unfold startRun
    by_cases hrunnable : s.queue.state work = .runnable
    · rw [if_pos hrunnable]
      by_cases hw : w = work
      · subst hw
        exact .inr (.inr (.inl ⟨rfl, hworker, hrunnable, s.queue.setState_self w _⟩))
      · exact .inr (.inl ⟨nofun, WorkQueue.setState_of_ne hw⟩)
    · rw [if_neg hrunnable]
      exact .inr (.inl ⟨nofun, rfl⟩)
  | @finish work success hworker =>
    by_cases hw : w = work
    · subst hw
      exact .inr (.inr (.inr ⟨success, rfl, hworker, s.queue.setState_self w _⟩))
    · exact .inr (.inl ⟨nofun, WorkQueue.setState_of_ne hw⟩)
  | next => exact .inr (.inl ⟨nofun, hnext _⟩)

/-- What the worker runs, it has run before, or it has just started. -/
theorem running_step (hs : AsyncStep s l s') (hw : s'.worker = .running w) :
    s.worker = .running w ∧ l ≠ .start ∧ (∀ success, l ≠ .finish success) ∨
      l = .start ∧ s.worker = .picked w ∧ s.queue.state w = .runnable ∧ s'.queue.state w = .running := by
  cases hs with
  | addWork work =>
    refine .inl ⟨?_, nofun, nofun⟩
    split at hw
    · exact ProcessPc.notify_eq_running.mp hw
    · exact hw
  | clear => exact .inl ⟨ProcessPc.notify_eq_running.mp hw, nofun, nofun⟩
  | shutdown => exact .inl ⟨ProcessPc.notify_eq_running.mp hw, nofun, nofun⟩
  | cancel => exact .inl ⟨hw, nofun, nofun⟩
  | wake => cases hw
  | lock => cases hw
  | check =>
    exfalso
    revert hw
    unfold processWorkItem
    repeat' split
    all_goals nofun
  | @start work hworker =>
    right
    revert hw
    unfold startRun
    split
    · next hrunnable =>
      intro hw
      cases hw
      exact ⟨rfl, hworker, hrunnable, s.queue.setState_self w .running⟩
    · nofun
  | finish => cases hw
  | next => cases hw

/-- A work that is running goes on until it is finished. -/
theorem running_of_step (hs : AsyncStep s l s') (hw : s.worker = .running w)
    (hfinish : ∀ success, l ≠ .finish success) : s'.worker = .running w := by
  cases hs with
  | addWork work =>
    dsimp only
    rw [hw]
    exact ite_self _
  | clear => exact ProcessPc.notify_eq_running.mpr hw
  | shutdown => exact ProcessPc.notify_eq_running.mpr hw
  | cancel => exact hw
  | wake hworker => cases hworker.symm.trans hw
  | lock hworker => cases hworker.symm.trans hw
  | check hworker => cases hworker.symm.trans hw
  | start hworker => cases hworker.symm.trans hw
  | finish success => exact absurd rfl (hfinish success)
  | next hworker => cases hworker.symm.trans hw

/-- A step does not make the queue or its worker refer to other works than the one that is added. -/
theorem pending_step (hs : AsyncStep s l s') (hw : w ∈ s'.queue.pending ∨ s'.worker.work? = some w) :
    (w ∈ s.queue.pending ∨ s.worker.work? = some w) ∨ l = .addWork w := by
  cases hs with
  | addWork work =>
    rcases hw with hw | hw
    · rcases s.queue.mem_pending_queueWork work hw with hw | rfl
      · exact .inl (.inl hw)
      · exact .inr rfl
    · refine .inl (.inr ?_)
      split at hw
      · exact (ProcessPc.work?_notify _).symm.trans hw
      · exact hw
  | clear => exact .inl (hw.imp nofun (by simp))
  | shutdown => exact .inl (hw.imp nofun (by simp))
  | cancel => exact .inl hw
  | wake => exact .inl (hw.imp_right nofun)
  | lock => exact .inl (hw.imp_right nofun)
  | check =>
    left
    rcases hw with hw | hw
    · exact .inl (mem_pending_processWorkItem none .checking s.queue hw)
    · exact .inl (WorkQueue.mem_pending.mpr (.inl (work?_processWorkItem none .checking s.queue rfl hw)))
  | @start work hworker =>
    rw [pending_startRun, work?_startRun] at hw
    exact .inl (hw.imp_right fun hw => by rw [hworker]; exact hw)
  | @finish work success hworker => exact .inl (hw.imp_right fun hw => by rw [hworker]; exact hw)
  | @next work hworker =>
    exact .inl (hw.imp (fun hw => (s.queue.pending_nextWork_sublist work).subset hw) nofun)

end Step

end Listbrokers.Queue
