import Listbrokers.Async.Invariant

/-!
# Taking a result from the fast path

An eater that finds the reply path at `fastPath` when its wait times out enters
`take_result_from_fast_path`, and stays there, with the jar lock held, until
the promise has a value. Only `do_run` gives it one.

The notification of a work that was canceled before it ran takes the fast path
as well, if an eater waits for the work at that moment. The eater then never
gets out (`blocked_when_canceled`). Where no such notification meets a waiting
eater, no eater gets stuck (`never_blocked`): `FastInv` keeps the eaters of a
work without result away from the fast path.
-/

namespace Listbrokers.Async

open Framework

variable {ρ ε : Type} {cfg : Cfg ε} {s s' : St ρ ε} {l : Label ρ ε}

/-- Waits for a work that some other thread does: past its lookup of the cookie, and neither with a result
nor on the slow path. -/
def HandlerPc.waitsForSlave : HandlerPc ρ → Bool
  | .eating .mySlaveDoesTheActualWork .found | .eating .mySlaveDoesTheActualWork .waitFuture
  | .eating .mySlaveDoesTheActualWork .timedOut | .eating .mySlaveDoesTheActualWork .takeResult => true
  | _ => false

/-- Some eater is in `take_result_from_fast_path`. -/
def St.takesResult (s : St ρ ε) : Prop :=
  (∃ mode, s.handler = .eating mode .takeResult) ∨ s.fetch = some .takeResult

/-- An eater waits, with the jar lock held, for a result that cannot come. -/
def St.isBlockedForEver (s : St ρ ε) : Prop :=
  s.takesResult ∧ s.workState.isFinal ∧ s.promise = none

/-- The done notification of a work without result meets no handler that waits for the work. -/
def NotCanceledWhileWaiting (s : St ρ ε) (l : Label ρ ε) : Prop :=
  l = .notifyJar → s.promise = none → ¬ s.handler.waitsForSlave

/-- What keeps the eaters of a work without result off the fast path. -/
structure FastInv (s : St ρ ε) : Prop where
  no_cookie_of_signal : s.promise = none → s.signals ≠ [] → ¬ s.inJar
  no_eater_of_fast : s.promise = none → s.replyPath = .fastPath → ¬ s.inJar ∧ ¬ s.handler.waitsForSlave
  no_eater_of_waiting : s.promise = none → (∃ t b e, s.notifier = .waiting t b e) →
    ¬ s.inJar ∧ ¬ s.handler.waitsForSlave
  result_of_fetch : ∀ pc, s.fetch = some pc → pc ≠ .lookup → s.promise ≠ none

theorem init_fastInv (cfg : Cfg ε) : FastInv (St.init cfg : St ρ ε) := by
  constructor <;> simp [St.init]

/-- No eater is stuck where the invariants hold. -/
theorem FastInv.not_blocked (h : FastInv s) (hi : Inv cfg s) : ¬ s.isBlockedForEver := by
  rintro ⟨⟨mode, hm⟩ | hf, -, hp⟩
  · obtain ⟨rfl, hfast⟩ := hi.fast_of_take mode hm
    exact (h.no_eater_of_fast hp hfast).2 (by rw [hm]; rfl)
  · exact h.result_of_fetch _ hf (by simp) hp

/-- An eater which waits for a work without result keeps waiting, or leaves for the slow path. -/
theorem eat_fastInv {mode : EatMode} {pc : EaterPc ρ} {l : EatLabel} {out : EatOut ρ} (h : FastInv s)
    (hp : s.handler = .eating mode pc) (he : Eat s mode true pc l s' out) :
    FastInv (s'.handlerAfter mode out) := by
  obtain ⟨h1, h2, h3, h4⟩ := h
  cases he with
  | timeout =>
    cases mode <;> simp only [St.handlerAfter] <;> constructor <;>
      first | assumption | grind -linarith [HandlerPc.waitsForSlave]
  | decideFast hw hj hd =>
    obtain ⟨hfast, rfl⟩ := St.tryEatQuickly_fast hd
    simp only [St.handlerAfter]
    constructor <;> first | assumption | grind -linarith [HandlerPc.waitsForSlave]
  | decideSlow hw hj hd =>
    obtain ⟨hslow, rfl⟩ := St.tryEatQuickly_slow hd
    simp only [St.handlerAfter]
    constructor <;> first | assumption | grind -linarith [HandlerPc.waitsForSlave]
  | _ =>
    simp only [St.handlerAfter]
    constructor <;> first | assumption | grind -linarith [HandlerPc.waitsForSlave, St.startRun]

/-- A fetch finds a cookie only where there is a result. -/
theorem fetch_fastInv {pc : EaterPc ρ} {l : EatLabel} {out : EatOut ρ} (hi : Inv cfg s) (h : FastInv s)
    (hf : s.fetch = some pc) (he : Eat s .mySlaveDoesTheActualWork false pc l s' out) :
    FastInv (s'.fetchAfter out) := by
  have hsig := hi.signal_of_fetch (by simp [hf])
  obtain ⟨h1, h2, h3, h4⟩ := h
  cases he with
  | decideFast hw hj hd =>
    obtain ⟨hfast, rfl⟩ := St.tryEatQuickly_fast hd
    simp only [St.fetchAfter]
    constructor <;> first | assumption | grind -linarith
  | decideSlow hw hj hd =>
    obtain ⟨hslow, rfl⟩ := St.tryEatQuickly_slow hd
    simp only [St.fetchAfter]
    constructor <;> first | assumption | grind -linarith
  | _ =>
    simp only [St.fetchAfter]
    constructor <;> first | assumption | grind -linarith [St.startRun]

/-- The notification takes the fast path for a work without result only if nobody waits for the work. -/
theorem takeFastPath_fastInv {t : Thread} {b inJar : Bool} {e : ε} (h : FastInv s) (hsig : s.signals = [])
    (hok : s.promise = none → inJar = false ∧ ¬ s.handler.waitsForSlave) :
    FastInv ({ s with inJar := inJar }.takeFastPath cfg t b e) := by
  obtain ⟨h1, h2, h3, h4⟩ := h
  rw [St.takeFastPath_eq]
  split
  · constructor <;> first | assumption | grind -linarith
  · split <;> constructor <;> first | assumption | grind -linarith
  · unfold St.emit
    split
    · split <;> constructor <;> first | assumption | grind -linarith
    · constructor <;> first | assumption | grind -linarith
  · constructor <;> first | assumption | grind -linarith

theorem step_fastInv (hi : Inv cfg s) (h : FastInv s) (hok : NotCanceledWhileWaiting s l) (hs : Step cfg s l s') :
    FastInv s' := by
  cases hs with
  | handlerEats hp he => exact eat_fastInv h hp he
  | fetchEats hf he => exact fetch_fastInv hi h hf he
  | @notifyJar t b hn hj =>
    unfold St.workDone
    split
    · refine takeFastPath_fastInv h (hi.silent_of_notifier (by simp [hn])) fun hp => ⟨?_, hok rfl hp⟩
      have hnot := mt hi.result_of_done (not_not.mpr hp)
      exact Bool.eq_false_iff.mpr (mt (hi.completed_of_atJar t b hn).mp hnot)
    · obtain ⟨h1, h2, h3, h4⟩ := h
      constructor <;> first | assumption | grind -linarith
  | @resume t b e hn hp =>
    refine takeFastPath_fastInv h (hi.silent_of_notifier (by simp [hn])) fun hp => ?_
    obtain ⟨hj, hw⟩ := h.no_eater_of_waiting hp ⟨t, b, e, hn⟩
    exact ⟨Bool.eq_false_iff.mpr hj, hw⟩
  | pickCookie | addWorkAsync | addWorkSync =>
    have hidle := hi.idle_of_runnable
    have hnew := hi.new_before_pick
    have hearly := hi.no_signal_early
    obtain ⟨h1, h2, h3, h4⟩ := h
    constructor <;> grind -linarith [HandlerPc.waitsForSlave, St.addedAsync, St.enqueue]
  | addWorkRefused | syncSkip | syncReturn =>
    obtain ⟨h1, h2, h3, h4⟩ := h
    unfold St.addedSync
    split <;> constructor <;> first | assumption | grind -linarith [HandlerPc.waitsForSlave]
  | syncRun | workerRuns | runReturns | putResult | fetch =>
    obtain ⟨h1, h2, h3, h4⟩ := h
    constructor <;> grind -linarith [HandlerPc.waitsForSlave, St.startRun, St.endRun, St.finish]
  | syncClosed | cancel =>
    obtain ⟨h1, h2, h3, h4⟩ := h
    simp only [St.cancel, St.finish]
    split <;> constructor <;> first | assumption | grind -linarith [HandlerPc.waitsForSlave]

/-! ## Results that cannot come -/

/-- No eater gives a result to a work that has ended without one. -/
theorem eat_ended {mode : EatMode} {o : Bool} {pc : EaterPc ρ} {l : EatLabel} {out : EatOut ρ}
    (hp : s.promise = none) (hr : s.runner = .idle) (hf : s.workState.isFinal) (he : Eat s mode o pc l s' out) :
    s'.promise = none ∧ s'.runner = .idle ∧ s'.workState.isFinal := by
  cases he with
  | runHere _ hrun => simp [hrun, WorkState.isFinal] at hf
  | decideFast _ _ hd =>
    obtain ⟨-, rfl⟩ := St.tryEatQuickly_fast hd
    exact ⟨hp, hr, hf⟩
  | decideSlow _ _ hd =>
    obtain ⟨-, rfl⟩ := St.tryEatQuickly_slow hd
    exact ⟨hp, hr, hf⟩
  | _ => exact ⟨hp, hr, hf⟩

/-- A work that has ended without a result gets none. -/
theorem no_result_after_end (hp : s.promise = none) (hr : s.runner = .idle) (hf : s.workState.isFinal) :
    ¬ Can (Step cfg) (fun s => s.promise ≠ none) s := by
  refine not_can (Q := fun s => s.promise = none ∧ s.runner = .idle ∧ s.workState.isFinal) ?_
    (fun s h hne => hne h.1) ⟨hp, hr, hf⟩
  rintro s l s' ⟨hp, hr, hf⟩ hs
  cases hs with
  | @handlerEats mode _ _ _ out _ he =>
    obtain ⟨hp', hr', hf'⟩ := eat_ended hp hr hf he
    cases out <;> exact ⟨hp', hr', hf'⟩
  | @fetchEats _ _ _ out _ he =>
    obtain ⟨hp', hr', hf'⟩ := eat_ended hp hr hf he
    cases out <;> exact ⟨hp', hr', hf'⟩
  | notifyJar | resume => grind -linarith [St.workDone, St.takeFastPath_eq, St.emit]
  | pickCookie | putResult | fetch | addWorkAsync | addWorkSync | syncRun | workerRuns | runReturns =>
    grind -linarith [St.addedAsync, St.enqueue, WorkState.isFinal]
  | addWorkRefused | syncSkip | syncReturn => grind -linarith [St.addedSync]
  | syncClosed | cancel => grind -linarith [St.cancel, WorkState.isFinal]

/-! ## Eaters that do get their result -/

/-- In every run in which no done notification of a canceled work meets a handler that waits for the work, no
eater gets stuck in `take_result_from_fast_path`. -/
theorem never_blocked {ls : List (Label ρ ε)} (h : Run (When (Step cfg) NotCanceledWhileWaiting) (St.init cfg) ls s) :
    ¬ s.isBlockedForEver := by
  obtain ⟨hi, hf⟩ := h.invariant (P := fun s => Inv cfg s ∧ FastInv s)
    (fun _ _ _ h hs => ⟨step_inv h.1 hs.2, step_fastInv h.1 h.2 hs.1 hs.2⟩) ⟨init_inv cfg, init_fastInv cfg⟩
  exact hf.not_blocked hi

theorem never_blocked_fast : ∃ s : St ℕ ℕ, s.replyPath = .fastPath ∧
    Run (When (Step fastPathCfg) NotCanceledWhileWaiting) (St.init fastPathCfg)
      [.pickCookie, .addWork, .handlerEats .find, .handlerEats .setWaiting, .workerRuns, .putResult 7 0,
        .runReturns true, .notifyJar] s ∧ ¬ s.isBlockedForEver := by
  have hrun : ∃ s : St ℕ ℕ, s.replyPath = .fastPath ∧
      Run (When (Step fastPathCfg) NotCanceledWhileWaiting) (St.init fastPathCfg)
        [.pickCookie, .addWork, .handlerEats .find, .handlerEats .setWaiting, .workerRuns, .putResult 7 0,
          .runReturns true, .notifyJar] s := by
    refine ⟨_, ?_, .cons ⟨nofun, .pickCookie rfl rfl⟩ <| .cons ⟨nofun, .addWorkAsync rfl rfl rfl rfl⟩ <|
      .cons ⟨nofun, .handlerEats rfl (.find rfl rfl)⟩ <| .cons ⟨nofun, .handlerEats rfl (.setWaiting rfl)⟩ <|
      .cons ⟨nofun, .workerRuns rfl rfl rfl rfl⟩ <| .cons ⟨nofun, .putResult 7 0 rfl⟩ <|
      .cons ⟨nofun, .runReturns true rfl rfl⟩ <| .cons ⟨nofun, .notifyJar rfl rfl⟩ (.nil _)⟩
    rfl
  obtain ⟨s, hs, hr⟩ := hrun
  exact ⟨s, hs, hr, never_blocked hr⟩

theorem blocked_when_canceled : ∃ s : St ℕ ℕ, Run (Step fastPathCfg) (St.init fastPathCfg)
      [.pickCookie, .addWork, .handlerEats .find, .handlerEats .setWaiting, .cancel, .notifyJar,
        .handlerEats .timeout, .handlerEats .decide] s ∧
    s.isBlockedForEver ∧ ¬ Can (Step fastPathCfg) (fun s => s.promise ≠ none) s := by
  refine ⟨_, .cons (.pickCookie rfl rfl) <| .cons (.addWorkAsync rfl rfl rfl rfl) <|
    .cons (.handlerEats rfl (.find rfl rfl)) <| .cons (.handlerEats rfl (.setWaiting rfl)) <|
    .cons (.cancel (by decide) rfl) <| .cons (.notifyJar rfl rfl) <|
    .cons (.handlerEats rfl (.timeout rfl)) <| .cons (.handlerEats rfl (.decideFast rfl rfl rfl)) (.nil _), ?_, ?_⟩
  · exact ⟨.inl ⟨_, rfl⟩, rfl, rfl⟩
  · exact no_result_after_end rfl rfl rfl

end Listbrokers.Async
