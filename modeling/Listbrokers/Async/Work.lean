import Listbrokers.Async.ReplyPath

/-!
# A work with a cookie, and the notification of its end

The state `St` of one work that was given a cookie: the work itself
(`DBusAsync::Work`), its promise and error, its entry in the cookie jar, and
where each of the parties that deal with it stands. Those are the D-Bus handler
which created the work, the thread which runs it, whoever notifies its end, and
a client which fetches the result later.

`St.finish` is the end of `set_work_state` in a final state; the notification
that it calls with the work lock held is `St.workDone`, up to the wait in
`ReplyPathTracker::synchronize`, and `St.announce`, what it does with the path
it took.
-/

namespace Listbrokers.Async

/-- `Work::State`. -/
inductive WorkState
  | runnable
  | running
  | done
  | canceling
  | canceled
  deriving DecidableEq, Repr

/-- `done` and `canceled`. -/
def WorkState.isFinal : WorkState → Bool
  | .done | .canceled => true
  | .runnable | .running | .canceling => false

/-- `CookieJar::DataAvailableNotificationMode`. -/
inductive DataAvailableNotificationMode
  | never
  | afterTimeout
  | always
  deriving DecidableEq, Repr

/-- `CookieJar::EatMode`. -/
inductive EatMode
  | willWorkForCookies
  | mySlaveDoesTheActualWork
  deriving DecidableEq, Repr

/-- `WorkQueue::Mode`. -/
inductive QueueMode
  | synchronous
  | async
  deriving DecidableEq, Repr

/-- The thread of the handler which created the work, or another one. -/
inductive Thread
  | handler
  | other
  deriving DecidableEq, Repr

/-- Whether some thread is inside `Work::do_run`. -/
inductive Runner
  | idle
  /-- Has not put its result yet. -/
  | working (by_ : Thread)
  /-- Has put its result, about to return. -/
  | returning (by_ : Thread)
  deriving DecidableEq, Repr

/-- Whether some thread is inside `CookieJar::work_done_notification`. -/
inductive Notifier (ε : Type)
  | idle
  /-- About to take the jar lock, with the work lock held. -/
  | atJar (by_ : Thread) (hasCompleted : Bool)
  /-- In `ReplyPathTracker::synchronize`, with the work lock released. -/
  | waiting (by_ : Thread) (success : Bool) (error : ε)
  deriving DecidableEq, Repr

/-- A call of `CookieJar::try_eat` in progress. -/
inductive EaterPc (ρ : Type)
  /-- About to find the cookie in the jar. -/
  | lookup
  /-- Has the work, about to call `set_waiting_for_result`. -/
  | found
  /-- In `future_.wait_for`. -/
  | waitFuture
  /-- The wait timed out, and the eater may do the work itself. -/
  | allowSync
  /-- In `Work::run`, called by the eater itself. -/
  | inRun
  /-- In `future_.get()`, without timeout. -/
  | getFuture
  /-- `TimeoutError` was thrown, `try_eat_quickly` comes next. -/
  | timedOut
  /-- In `take_result_from_fast_path`, with the jar lock held. -/
  | takeResult
  /-- Has the result, about to erase the cookie. -/
  | erase (result : ρ)
  deriving DecidableEq, Repr

/-- The D-Bus handler which creates the work. -/
inductive HandlerPc (ρ : Type)
  | pickCookie
  | addWork
  /-- In `process_work_item`, waiting for the turn of its work. -/
  | queued
  /-- In `process_work_item`, inside `Work::run` or `Work::cancel`. -/
  | processing
  | eating (mode : EatMode) (pc : EaterPc ρ)
  | returned
  deriving DecidableEq, Repr

/-- How a handler answers its D-Bus call. -/
inductive Reply (ρ : Type)
  | result (r : ρ)
  | cookie
  /-- `work_accepted(false, true)`: the work was done synchronously. -/
  | syncDone
  /-- `g_dbus_method_invocation_return_error`. -/
  | error
  deriving DecidableEq, Repr

/-- D-Bus signals emitted for a cookie. -/
inductive Signal (ε : Type)
  | dataAvailable
  | dataError (error : ε)
  deriving DecidableEq, Repr

/-- What does not change while a work is dealt with: how its end is notified, the kind of its queue,
and the `ListError` codes that the notification distinguishes. -/
structure Cfg (ε : Type) where
  mode : DataAvailableNotificationMode
  queue : QueueMode
  /-- `ListError::failed`. -/
  failed : ε → Bool
  ok : ε
  interrupted : ε

/-- The state of one work and of the parties that deal with it. -/
structure St (ρ ε : Type) where
  workState : WorkState
  replyPath : ReplyPath
  /-- The value that `promise_` was given. -/
  promise : Option ρ
  errorOnDone : ε
  /-- The cookie is in `work_by_cookie_`. -/
  inJar : Bool
  /-- The queue has accepted the work. -/
  accepted : Bool
  runner : Runner
  notifier : Notifier ε
  handler : HandlerPc ρ
  /-- A fetch of the result by cookie, while one is in progress. -/
  fetch : Option (EaterPc ρ)
  /-- The answers that the handler has sent, oldest first. -/
  replies : List (Reply ρ)
  signals : List (Signal ε)
  /-- The results that left `try_eat`, oldest first. -/
  handedOut : List ρ
  deriving DecidableEq

variable {ρ ε : Type}

namespace St

/-- A new work, known to nobody but the handler which is going to add it. -/
def init (cfg : Cfg ε) : St ρ ε where
  workState := .runnable
  replyPath := .none
  promise := none
  errorOnDone := cfg.ok
  inJar := false
  accepted := false
  runner := .idle
  notifier := .idle
  handler := .pickCookie
  fetch := none
  replies := []
  signals := []
  handedOut := []

/-- Nobody holds the work lock. -/
def workLockFree (s : St ρ ε) : Bool :=
  match s.notifier with
  | .atJar .. => false
  | .idle | .waiting .. => true

/-- Nobody holds the jar lock. -/
def jarLockFree (s : St ρ ε) : Bool :=
  match s.handler, s.fetch with
  | .eating _ .takeResult, _ => false
  | _, some .takeResult => false
  | _, _ => true

/-- The handler's thread is not inside `Work::run` or `Work::cancel`. -/
def handlerIsBack (s : St ρ ε) : Bool :=
  match s.runner, s.notifier with
  | .working .handler, _ | .returning .handler, _ => false
  | _, .atJar .handler _ | _, .waiting .handler .. => false
  | _, _ => true

/-- `CookiedWorkBase::success`. -/
def success (cfg : Cfg ε) (s : St ρ ε) : Bool :=
  s.workState = .done && !cfg.failed s.errorOnDone

/-- `set_work_state` with a final state: the done notification starts, work lock held. -/
def finish (s : St ρ ε) (by_ : Thread) (hasCompleted : Bool) : St ρ ε :=
  { s with
    workState := if hasCompleted then .done else .canceled
    runner := .idle
    notifier := .atJar by_ hasCompleted }

/-- `Work::cancel`, called by a thread which holds the work lock. -/
def cancel (s : St ρ ε) (by_ : Thread) : St ρ ε :=
  match s.workState with
  | .canceling => s
  | .runnable => s.finish by_ false
  | .running => { s with workState := .canceling }
  | .done | .canceled => s

/-- `Work::run` up to `do_run`, called with the work lock held. -/
def startRun (s : St ρ ε) (by_ : Thread) : St ρ ε :=
  { s with workState := .running, runner := .working by_ }

/-- `Work::run` when `do_run` has returned `success`. -/
def endRun (s : St ρ ε) (by_ : Thread) (success : Bool) : St ρ ε :=
  s.finish by_ (success && s.workState = .running)

/-- The end of `work_done_notification`: the signal for the cookie. -/
def emit (cfg : Cfg ε) (s : St ρ ε) (success : Bool) (error : ε) : St ρ ε :=
  if success then
    match cfg.mode with
    | .never => s
    | .afterTimeout | .always =>
      { s with
        signals := s.signals ++ [.dataAvailable]
        replyPath := s.replyPath.slowPathReadyNotifiedClient }
  else { s with signals := s.signals ++ [.dataError error] }

/-- `work_done_notification` once `try_take_fast_path` has returned. -/
def announce (cfg : Cfg ε) (s : St ρ ε) (success : Bool) (error : ε) (took : TakePathResult) : St ρ ε :=
  match took with
  | .taken => if success && cfg.mode = .always then s.emit cfg success error else s
  | .alreadyOnSlowPathCookieAnnounced => s.emit cfg success error
  | .alreadyOnSlowPathCookieNotAnnouncedYet | .alreadyOnSlowPathReadyAnnounced
  | .alreadyOnSlowPathFetching | .alreadyOnFastPath | .invalid => s

/-- `work_done_notification` from the call of `try_take_fast_path` on. -/
def takeFastPath (cfg : Cfg ε) (s : St ρ ε) (by_ : Thread) (success : Bool) (error : ε) : St ρ ε :=
  match s.replyPath.tryTakeFastPath with
  | none => { s with notifier := .waiting by_ success error }
  | some (took, path) =>
    { s with replyPath := path, notifier := .idle }.announce cfg success error took

/-- `work_done_notification`, called with the work lock held. -/
def workDone (cfg : Cfg ε) (s : St ρ ε) (by_ : Thread) (hasCompleted : Bool) : St ρ ε :=
  if s.inJar then
    { s with inJar := hasCompleted }.takeFastPath cfg by_ (s.success cfg)
      (if hasCompleted then s.errorOnDone else cfg.interrupted)
  else { s with notifier := .idle }

/-- The path decides what comes of a notification: it waits, it leaves the result to the eater (and
announces it nevertheless where that was asked for), it announces, or it does nothing. -/
theorem takeFastPath_eq (cfg : Cfg ε) (s : St ρ ε) (by_ : Thread) (success : Bool) (error : ε) :
    s.takeFastPath cfg by_ success error =
      match s.replyPath with
      | .scheduled => { s with notifier := .waiting by_ success error }
      | .waiting =>
        if success && cfg.mode = .always then
          { s with
            replyPath := .fastPath
            notifier := .idle
            signals := s.signals ++ [.dataAvailable] }
        else { s with replyPath := .fastPath, notifier := .idle }
      | .slowPathCookieSent => { s with notifier := .idle }.emit cfg success error
      | _ => { s with notifier := .idle } := by
  unfold takeFastPath
  cases h : s.replyPath with
  | waiting =>
    simp only [ReplyPath.tryTakeFastPath, announce]
    split
    · rename_i hs
      simp only [Bool.and_eq_true, decide_eq_true_eq] at hs
      simp only [emit, hs, ReplyPath.slowPathReadyNotifiedClient, if_true]
    · rfl
  | _ => simp only [ReplyPath.tryTakeFastPath, announce, ← h]

/-- A notification neither answers a call nor touches the jar once it has taken the fast path. -/
theorem takeFastPath_frame (cfg : Cfg ε) (s : St ρ ε) (by_ : Thread) (success : Bool) (error : ε) :
    (s.takeFastPath cfg by_ success error).replies = s.replies ∧
      (s.takeFastPath cfg by_ success error).handler = s.handler ∧
      (s.takeFastPath cfg by_ success error).inJar = s.inJar := by
  rw [takeFastPath_eq]
  split
  · exact ⟨rfl, rfl, rfl⟩
  · split <;> exact ⟨rfl, rfl, rfl⟩
  · unfold emit
    split
    · split <;> exact ⟨rfl, rfl, rfl⟩
    · exact ⟨rfl, rfl, rfl⟩
  · exact ⟨rfl, rfl, rfl⟩

end St

end Listbrokers.Async
