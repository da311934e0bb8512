import Listbrokers.Async.Work

/-!
# The steps of the parties that deal with a work

`Step cfg s l s'`: in state `s`, one of the parties does `l`. A critical section
of the source is one step, and a step that needs a lock is taken only when the
lock is free; the wait in `ReplyPathTracker::synchronize` releases the work lock
and is left by a step of its own (`resume`). The parties are

* the handler which creates the work: `pick_cookie_for_work`, `add_work`, and
  then `try_eat` (`try_fast_path`), or nothing more where the work is
  registered with mode `always` (`realize_location`);
* the worker of an asynchronous queue; a synchronous queue works in the
  handler's thread;
* whoever cancels the work, at any time;
* a client which fetches by cookie (`finish_slow_path`), after a signal for it.

`Eat` is `CookieJar::try_eat`, for the handler and for the fetch.
-/

namespace Listbrokers.Async

variable {ρ ε : Type}

/-- What an eater does next. -/
inductive EatLabel
  | find
  | setWaiting
  | ready
  | timeout
  | lockWork
  | runReturned
  | decide
  deriving DecidableEq, Repr

/-- What a step of `try_eat` leads to: another step, a result, or an exception. -/
inductive EatOut (ρ : Type)
  | at (pc : EaterPc ρ)
  | result (r : ρ)
  | timeoutError
  | badCookieError

/-- `try_eat_quickly`, with `on_timeout` set or null; true if the result comes on the fast path. -/
def St.tryEatQuickly (s : St ρ ε) (onTimeout : Bool) : Bool × St ρ ε :=
  match s.replyPath.tryTakeSlowPath with
  | (.alreadyOnFastPath, path) => (true, { s with replyPath := path })
  | (_, path) =>
    (false, { s with
      replies := if onTimeout then s.replies ++ [.cookie] else s.replies
      replyPath := path.slowPathCookieSentToClient })

theorem St.tryEatQuickly_fast {s s' : St ρ ε} {onTimeout : Bool}
    (h : s.tryEatQuickly onTimeout = (true, s')) : s.replyPath = .fastPath ∧ s' = s := by
  unfold St.tryEatQuickly at h
  split at h
  · rename_i path hp
    obtain ⟨hf, rfl⟩ := ReplyPath.tryTakeSlowPath_fast hp
    cases h
    exact ⟨hf, rfl⟩
  · simp at h

theorem St.tryEatQuickly_slow {s s' : St ρ ε} {onTimeout : Bool}
    (h : s.tryEatQuickly onTimeout = (false, s')) :
    s.replyPath ≠ .fastPath ∧ s' = { s with
      replies := if onTimeout then s.replies ++ [.cookie] else s.replies
      replyPath := s.replyPath.afterTimeout } := by
  unfold St.tryEatQuickly at h
  split at h
  · simp at h
  · rename_i took path hnot hp
    obtain ⟨hf, hq⟩ := ReplyPath.tryTakeSlowPath_slow hp hnot
    cases h
    exact ⟨hf, by rw [hq]⟩

/-- One step of `try_eat`. -/
inductive Eat (s : St ρ ε) (mode : EatMode) (onTimeout : Bool) :
    EaterPc ρ → EatLabel → St ρ ε → EatOut ρ → Prop
  | find : s.jarLockFree → s.inJar → Eat s mode onTimeout .lookup .find s (.at .found)
  | unknownCookie : s.jarLockFree → ¬ s.inJar → Eat s mode onTimeout .lookup .find s .badCookieError
  | setWaiting : s.workLockFree → Eat s mode onTimeout .found .setWaiting
      { s with replyPath := s.replyPath.setWaitingForResult } (.at .waitFuture)
  | ready {r : ρ} : s.promise = some r → Eat s mode onTimeout .waitFuture .ready s (.at (.erase r))
  | timeout : s.promise = none → Eat s mode onTimeout .waitFuture .timeout s
      (.at (match mode with
        | .willWorkForCookies => .allowSync
        | .mySlaveDoesTheActualWork => .timedOut))
  | runHere : s.workLockFree → s.workState = .runnable →
      Eat s mode onTimeout .allowSync .lockWork (s.startRun .handler) (.at .inRun)
  | runElsewhere : s.workLockFree → s.workState ≠ .runnable →
      Eat s mode onTimeout .allowSync .lockWork s (.at .getFuture)
  | runReturned : s.handlerIsBack → Eat s mode onTimeout .inRun .runReturned s (.at .getFuture)
  | getReady {r : ρ} : s.promise = some r → Eat s mode onTimeout .getFuture .ready s (.at (.erase r))
  | decideFast {s' : St ρ ε} : s.workLockFree → s.jarLockFree → s.tryEatQuickly onTimeout = (true, s') →
      Eat s mode onTimeout .timedOut .decide s' (.at .takeResult)
  | decideSlow {s' : St ρ ε} : s.workLockFree → s.jarLockFree → s.tryEatQuickly onTimeout = (false, s') →
      Eat s mode onTimeout .timedOut .decide s' .timeoutError
  | takeReady {r : ρ} : s.promise = some r →
      Eat s mode onTimeout .takeResult .ready { s with inJar := false } (.result r)
  | erase {r : ρ} : s.jarLockFree →
      Eat s mode onTimeout (.erase r) .ready { s with inJar := false } (.result r)

namespace St

/-- The handler of `try_fast_path` after a step of `try_eat`. -/
def handlerAfter (s : St ρ ε) (mode : EatMode) : EatOut ρ → St ρ ε
  | .at pc => { s with handler := .eating mode pc }
  | .result r => { s with handler := .returned, replies := s.replies ++ [.result r], handedOut := s.handedOut ++ [r] }
  | .timeoutError => { s with handler := .returned }
  | .badCookieError => { s with handler := .returned, replies := s.replies ++ [.error] }

/-- The handler of `finish_slow_path` after a step of `try_eat`. -/
def fetchAfter (s : St ρ ε) : EatOut ρ → St ρ ε
  | .at pc => { s with fetch := some pc }
  | .result r => { s with fetch := none, handedOut := s.handedOut ++ [r] }
  | .timeoutError | .badCookieError => { s with fetch := none }

/-- The handler once `add_work` has returned false, after a synchronous run if `done`. -/
def addedSync (cfg : Cfg ε) (s : St ρ ε) (done : Bool) : St ρ ε :=
  match cfg.mode with
  | .always => { s with handler := .returned, replies := if done then s.replies ++ [.syncDone] else s.replies }
  | .never | .afterTimeout => { s with handler := .eating .willWorkForCookies .lookup }

/-- The handler once `add_work` has put the work into its queue. -/
def addedAsync (cfg : Cfg ε) (s : St ρ ε) : St ρ ε :=
  match cfg.mode with
  | .always => { s with handler := .returned, replies := s.replies ++ [.cookie] }
  | .never | .afterTimeout => { s with handler := .eating .mySlaveDoesTheActualWork .lookup }

/-- `add_work` of a queue that accepts the work: the reply path is scheduled, the work queued. -/
def enqueue (s : St ρ ε) : St ρ ε :=
  { s with accepted := true, replyPath := s.replyPath.setScheduledForExecution }

end St

/-- The steps of all parties. -/
inductive Label (ρ ε : Type)
  | pickCookie
  | addWork
  | addWorkRefused
  | syncTurn
  | syncClosed
  | syncReturn
  | handlerEats (l : EatLabel)
  | workerRuns
  | putResult (r : ρ) (error : ε)
  | runReturns (success : Bool)
  | cancel
  | notifyJar
  | resume
  | fetch
  | fetchEats (l : EatLabel)
  deriving DecidableEq, Repr

/-- One step of one of the parties. -/
inductive Step (cfg : Cfg ε) (s : St ρ ε) : Label ρ ε → St ρ ε → Prop
  | pickCookie : s.handler = .pickCookie → s.jarLockFree →
      Step cfg s .pickCookie { s with inJar := true, handler := .addWork }
  /-- The queue has been shut down. -/
  | addWorkRefused : s.handler = .addWork → Step cfg s .addWorkRefused (s.addedSync cfg false)
  | addWorkAsync : s.handler = .addWork → cfg.queue = .async → s.workLockFree → s.workState = .runnable →
      Step cfg s .addWork (s.enqueue.addedAsync cfg)
  | addWorkSync : s.handler = .addWork → cfg.queue = .synchronous → s.workLockFree → s.workState = .runnable →
      Step cfg s .addWork { s.enqueue with handler := .queued }
  /-- `process_work_item`: it is this work's turn. -/
  | syncRun : s.handler = .queued → s.workLockFree → s.workState = .runnable →
      Step cfg s .syncTurn { s.startRun .handler with handler := .processing }
  | syncSkip : s.handler = .queued → s.workState ≠ .runnable → Step cfg s .syncTurn (s.addedSync cfg true)
  /-- `process_work_item`: the queue was shut down meanwhile, and cancels its works. -/
  | syncClosed : s.handler = .queued → s.workLockFree →
      Step cfg s .syncClosed { s.cancel .handler with handler := .processing }
  | syncReturn : s.handler = .processing → s.handlerIsBack → Step cfg s .syncReturn (s.addedSync cfg true)
  | handlerEats {mode : EatMode} {pc : EaterPc ρ} {l : EatLabel} {s' : St ρ ε} {out : EatOut ρ} :
      s.handler = .eating mode pc → Eat s mode true pc l s' out →
      Step cfg s (.handlerEats l) (s'.handlerAfter mode out)
  | workerRuns : s.accepted → cfg.queue = .async → s.workLockFree → s.workState = .runnable →
      Step cfg s .workerRuns (s.startRun .other)
  /-- `do_run` gives its result to `promise_` and calls `put_error`. -/
  | putResult {by_ : Thread} (r : ρ) (error : ε) : s.runner = .working by_ →
      Step cfg s (.putResult r error)
        { s with promise := some r, errorOnDone := error, runner := .returning by_ }
  | runReturns {by_ : Thread} (success : Bool) : s.runner = .returning by_ → s.workLockFree →
      Step cfg s (.runReturns success) (s.endRun by_ success)
  | cancel : s.handler ≠ .pickCookie → s.workLockFree → Step cfg s .cancel (s.cancel .other)
  | notifyJar {by_ : Thread} {hasCompleted : Bool} : s.notifier = .atJar by_ hasCompleted → s.jarLockFree →
      Step cfg s .notifyJar (s.workDone cfg by_ hasCompleted)
  | resume {by_ : Thread} {success : Bool} {error : ε} : s.notifier = .waiting by_ success error →
      s.replyPath = .waiting → Step cfg s .resume (s.takeFastPath cfg by_ success error)
  | fetch : s.signals ≠ [] → s.fetch = none → Step cfg s .fetch { s with fetch := some .lookup }
  | fetchEats {pc : EaterPc ρ} {l : EatLabel} {s' : St ρ ε} {out : EatOut ρ} :
      s.fetch = some pc → Eat s .mySlaveDoesTheActualWork false pc l s' out →
      Step cfg s (.fetchEats l) (s'.fetchAfter out)

/-- `try_fast_path` with an asynchronous queue; error 0 is `OK`, 1 is `INTERRUPTED`. -/
def fastPathCfg : Cfg ℕ where
  mode := .afterTimeout
  queue := .async
  failed e := e ≠ 0
  ok := 0
  interrupted := 1

/-- `realize_location`, with the same error codes. -/
def realizeLocationCfg : Cfg ℕ := { fastPathCfg with mode := .always }

end Listbrokers.Async
