import Listbrokers.Framework.Lts
import Listbrokers.Async.Handler

/-!
# Where the parties stand

`Inv` collects what holds in every state that the parties reach, whatever the
mode of the work and the kind of its queue: how the state of the work, the thread
inside `do_run` and the notification go together, when the work has a result,
when its cookie is in the jar, and when a client may know of it. `run_inv` shows
it for runs; `eat_inv`, `workDone_inv` and `resume_inv` are its steps through
`try_eat` and `work_done_notification`.
-/

namespace Listbrokers.Async

open Framework

variable {ρ ε : Type} {cfg : Cfg ε} {s s' : St ρ ε} {l : Label ρ ε}

/-- What holds in every reachable state. -/
structure Inv (cfg : Cfg ε) (s : St ρ ε) : Prop where
  runs_of_runner : s.runner ≠ .idle → s.workState = .running ∨ s.workState = .canceling
  runner_of_runs : s.runner = .idle → s.workState ≠ .running ∧ s.workState ≠ .canceling
  ended_of_notifier : s.notifier ≠ .idle → s.workState.isFinal
  completed_of_atJar : ∀ t b, s.notifier = .atJar t b → (b = true ↔ s.workState = .done)
  result_of_returning : ∀ t, s.runner = .returning t → s.promise ≠ none
  result_of_done : s.workState = .done → s.promise ≠ none
  new_before_pick : s.handler = .pickCookie → s.workState = .runnable ∧ s.replyPath = .none
  none_before_add : s.handler = .addWork → s.replyPath = .none
  none_of_refused : s.accepted = false → s.replyPath = .none
  refused_of_none : s.replyPath = .none → s.accepted = false
  idle_of_queued : s.handler = .queued → s.runner = .idle ∧ cfg.queue = .synchronous
  no_eater_of_always : cfg.mode = .always → ∀ mode pc, s.handler ≠ .eating mode pc
  slave_of_timedOut : ∀ mode, s.handler = .eating mode .timedOut → mode = .mySlaveDoesTheActualWork
  fast_of_take : ∀ mode, s.handler = .eating mode .takeResult →
    mode = .mySlaveDoesTheActualWork ∧ s.replyPath = .fastPath
  cookie_until_notified : s.handler ≠ .pickCookie → s.handler ≠ .returned →
    (s.workState.isFinal = false ∨ ∃ t b, s.notifier = .atJar t b) → s.inJar
  no_signal_early : s.signals ≠ [] → s.replyPath ≠ .none ∧ s.replyPath ≠ .scheduled ∧ s.replyPath ≠ .waiting
  ended_of_signal : s.signals ≠ [] → s.workState.isFinal ∧ s.notifier = .idle
  signal_of_fetch : s.fetch ≠ none → s.signals ≠ []

namespace Inv

theorem canceled_of_atJar {t : Thread} (h : Inv cfg s) (hn : s.notifier = .atJar t false) :
    s.workState = .canceled := by
  have hend := h.ended_of_notifier (by simp [hn])
  have hnot : s.workState ≠ .done := mt (h.completed_of_atJar t false hn).mpr (by simp)
  cases hw : s.workState <;> simp_all [WorkState.isFinal]

/-- The end of a work is announced at the end of its notification. -/
theorem silent_of_notifier (h : Inv cfg s) (hn : s.notifier ≠ .idle) : s.signals = [] := by
  by_contra hsig
  exact hn (h.ended_of_signal hsig).2

theorem idle_of_runnable (h : Inv cfg s) (hr : s.workState = .runnable) : s.notifier = .idle := by
  by_contra hn
  simpa [hr, WorkState.isFinal] using h.ended_of_notifier hn

end Inv

theorem init_inv (cfg : Cfg ε) : Inv cfg (St.init cfg : St ρ ε) := by
  constructor <;> simp [St.init, WorkState.isFinal]

theorem eat_inv {mode : EatMode} {pc : EaterPc ρ} {l : EatLabel} {out : EatOut ρ} (h : Inv cfg s)
    (hp : s.handler = .eating mode pc) (he : Eat s mode true pc l s' out) :
    Inv cfg (s'.handlerAfter mode out) := by
  obtain ⟨h1, h2, h3, h4, h5, h6, h7, h8, h9, h10, h11, h12, h13, h14, h15, h16, h17, h18⟩ := h
  cases he with
  | timeout =>
    cases mode <;> simp only [St.handlerAfter] <;> constructor <;> first | assumption | grind -linarith
  | runHere =>
    simp only [St.handlerAfter, St.startRun]
    constructor <;> first | assumption | grind -linarith [WorkState.isFinal]
  | decideFast hw hj hd =>
    obtain ⟨hfast, rfl⟩ := St.tryEatQuickly_fast hd
    simp only [St.handlerAfter]
    constructor <;> first | assumption | grind -linarith
  | decideSlow hw hj hd =>
    obtain ⟨hslow, rfl⟩ := St.tryEatQuickly_slow hd
    simp only [St.handlerAfter]
    constructor <;> first | assumption | grind -linarith
  | _ =>
    simp only [St.handlerAfter]
    constructor <;> first | assumption | grind -linarith

theorem fetch_inv {pc : EaterPc ρ} {l : EatLabel} {out : EatOut ρ} (h : Inv cfg s)
    (hf : s.fetch = some pc) (he : Eat s .mySlaveDoesTheActualWork false pc l s' out) :
    Inv cfg (s'.fetchAfter out) := by
  obtain ⟨h1, h2, h3, h4, h5, h6, h7, h8, h9, h10, h11, h12, h13, h14, h15, h16, h17, h18⟩ := h
  have hsig := h18 (by simp [hf])
  have hpath := h16 hsig
  have hend := h17 hsig
  cases he with
  | runHere =>
    simp only [St.fetchAfter, St.startRun]
    constructor <;> first | assumption | grind -linarith [WorkState.isFinal]
  | decideFast hw hj hd =>
    obtain ⟨hfast, rfl⟩ := St.tryEatQuickly_fast hd
    simp only [St.fetchAfter]
    constructor <;> first | assumption | grind -linarith
  | decideSlow hw hj hd =>
    obtain ⟨hslow, rfl⟩ := St.tryEatQuickly_slow hd
    simp only [St.fetchAfter]
    constructor <;> first | assumption | grind -linarith
  | _ =>
    simp only [St.fetchAfter]
    constructor <;> first | assumption | grind -linarith

/-- The notification of an ended work keeps the invariant, whether or not it erases the cookie. -/
theorem takeFastPath_inv {t : Thread} {b : Bool} {e : ε} (h : Inv cfg s) (hn : s.notifier ≠ .idle) (inJar : Bool) :
    Inv cfg ({ s with inJar := inJar }.takeFastPath cfg t b e) := by
  have hend := h.ended_of_notifier hn
  have hsig := h.silent_of_notifier hn
  obtain ⟨h1, h2, h3, h4, h5, h6, h7, h8, h9, h10, h11, h12, h13, h14, h15, h16, h17, h18⟩ := h
  rw [St.takeFastPath_eq]
  split
  · constructor <;> first | assumption | grind -linarith
  · split <;> constructor <;> first | assumption | grind -linarith
  · unfold St.emit
    split
    · split <;> constructor <;> first | assumption | grind -linarith
    · constructor <;> first | assumption | grind -linarith
  · constructor <;> first | assumption | grind -linarith

theorem step_inv (h : Inv cfg s) (hs : Step cfg s l s') : Inv cfg s' := by
  cases hs with
  | handlerEats hp he => exact eat_inv h hp he
  | fetchEats hf he => exact fetch_inv h hf he
  | notifyJar hn hj =>
    unfold St.workDone
    split
    · exact takeFastPath_inv h (by simp [hn]) _
    · obtain ⟨h1, h2, h3, h4, h5, h6, h7, h8, h9, h10, h11, h12, h13, h14, h15, h16, h17, h18⟩ := h
      constructor <;> first | assumption | grind -linarith
  | resume hn hp => exact takeFastPath_inv h (by simp [hn]) s.inJar
  | pickCookie | putResult | fetch | addWorkAsync | addWorkSync =>
    obtain ⟨h1, h2, h3, h4, h5, h6, h7, h8, h9, h10, h11, h12, h13, h14, h15, h16, h17, h18⟩ := h
    constructor <;> first | assumption | grind -linarith [St.addedAsync, St.enqueue]
  | addWorkRefused | syncSkip | syncReturn =>
    obtain ⟨h1, h2, h3, h4, h5, h6, h7, h8, h9, h10, h11, h12, h13, h14, h15, h16, h17, h18⟩ := h
    unfold St.addedSync
    split <;> constructor <;> first | assumption | grind -linarith
  | syncRun | workerRuns =>
    obtain ⟨h1, h2, h3, h4, h5, h6, h7, h8, h9, h10, h11, h12, h13, h14, h15, h16, h17, h18⟩ := h
    simp only [St.startRun]
    constructor <;> first | assumption | grind -linarith [WorkState.isFinal]
  | runReturns =>
    obtain ⟨h1, h2, h3, h4, h5, h6, h7, h8, h9, h10, h11, h12, h13, h14, h15, h16, h17, h18⟩ := h
    simp only [St.endRun, St.finish]
    constructor <;> first | assumption | grind -linarith [WorkState.isFinal]
  | syncClosed | cancel =>
    obtain ⟨h1, h2, h3, h4, h5, h6, h7, h8, h9, h10, h11, h12, h13, h14, h15, h16, h17, h18⟩ := h
    simp only [St.cancel, St.finish]
    split <;> constructor <;> first | assumption | grind -linarith [WorkState.isFinal, St.workLockFree]

theorem run_inv {ls : List (Label ρ ε)} (h : Run (Step cfg) (St.init cfg) ls s) : Inv cfg s :=
  h.invariant (P := Inv cfg) (fun _ _ _ hi hs => step_inv hi hs) (init_inv cfg)

end Listbrokers.Async
