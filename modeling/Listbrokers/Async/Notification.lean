import Listbrokers.Async.Invariant

/-!
# Waiting for the party that waits for the result

`work_done_notification` takes the fast path as soon as somebody waits for the
result: while the reply path is only scheduled it waits in `synchronize` for
`set_waiting_for_result`. That call must come from an eater, and the reply path
must still be `waiting` when the notification looks at it.

No eater comes for a work registered with mode `always`, none can come while
the handler itself runs the work inside `add_work`, and an eater that comes
late finds its cookie erased if the work was canceled (`stuck_stays`). Where a
work ends in none of these ways (`EndIsAwaited`), the wait can end
(`notification_ends`); a work of mode `always` that has been accepted always
ends in one of them, and is never announced (`step_unawaited`).
-/

namespace Listbrokers.Async

open Framework

variable {ρ ε : Type} {cfg : Cfg ε} {s s' : St ρ ε} {l : Label ρ ε}

/-- `work_done_notification` waits inside `ReplyPathTracker::try_take_fast_path`. -/
def St.notificationWaits (s : St ρ ε) : Prop := ∃ t b e, s.notifier = .waiting t b e

/-- The handler is about to call `set_waiting_for_result`. -/
def HandlerPc.hasFound (pc : HandlerPc ρ) : Prop := ∃ mode, pc = .eating mode .found

/-- The handler is about to look its cookie up. -/
def HandlerPc.looksUp (pc : HandlerPc ρ) : Prop := ∃ mode, pc = .eating mode .lookup

/-- The step takes the work to `DONE` or `CANCELED`. -/
def EndsWork (s : St ρ ε) (l : Label ρ ε) : Prop :=
  (∃ success, l = .runReturns success) ∨ ((l = .cancel ∨ l = .syncClosed) ∧ s.workState = .runnable)

/-- A work that ends is awaited, as far as the step `l` is concerned. -/
structure EndIsAwaited (cfg : Cfg ε) (s : St ρ ε) (l : Label ρ ε) : Prop where
  /-- A queued work which nobody waits for yet is one whose handler is still going to wait for it. -/
  ends : s.replyPath = .scheduled → EndsWork s l →
    cfg.mode ≠ .always ∧ s.handler ≠ .processing ∧ l ≠ .syncClosed
  /-- The notification erases the cookie of a canceled work only after the handler has found it. -/
  erases : l = .notifyJar → s.replyPath = .scheduled → s.workState = .canceled → s.handler.hasFound
  /-- The handler does not decide for the slow path before the waiting notification has woken up. -/
  decides : l = .handlerEats .decide → ¬ s.notificationWaits

/-- Where the parties stand as long as every end of the work is awaited. -/
structure AwaitInv (cfg : Cfg ε) (s : St ρ ε) : Prop where
  path_of_waits : s.notificationWaits → s.replyPath = .scheduled ∨ s.replyPath = .waiting
  handler_of_scheduled : s.replyPath = .scheduled → s.handler = .queued ∨ s.handler = .processing ∨
    cfg.mode = .always ∨ s.handler.looksUp ∨ s.handler.hasFound
  notifies_of_scheduled : s.replyPath = .scheduled → s.workState.isFinal → s.notifier ≠ .idle
  awaited_at_jar : ∀ t b, s.notifier = .atJar t b → s.replyPath = .scheduled →
    cfg.mode ≠ .always ∧ (b = true → s.handler.looksUp ∨ s.handler.hasFound)
  awaited_of_waits : s.notificationWaits → s.replyPath = .scheduled →
    (s.handler.looksUp ∧ s.inJar) ∨ s.handler.hasFound
  open_of_always : cfg.mode = .always → s.accepted → s.replyPath = .scheduled ∧ s.workState.isFinal = false

theorem init_awaitInv (cfg : Cfg ε) : AwaitInv cfg (St.init cfg : St ρ ε) := by
  constructor <;> simp [St.init, St.notificationWaits, WorkState.isFinal]

/-! ## The wait can end -/

/-- Once somebody waits for the result, the notification takes the fast path. -/
theorem can_resume (hw : s.notificationWaits) (hp : s.replyPath = .waiting) :
    Can (Step cfg) (fun s => ¬ s.notificationWaits) s := by
  obtain ⟨t, b, e, hn⟩ := hw
  refine .after (.resume hn hp) (.now ?_)
  simp only [St.takeFastPath_eq, hp]
  split <;> simp [St.notificationWaits]

/-- A handler that has found its cookie goes on to wait for the result. -/
theorem can_wait {m : EatMode} (hw : s.notificationWaits) (hp : s.replyPath = .scheduled)
    (hh : s.handler = .eating m .found) : Can (Step cfg) (fun s => ¬ s.notificationWaits) s := by
  obtain ⟨t, b, e, hn⟩ := hw
  have hfree : s.workLockFree := by simp [St.workLockFree, hn]
  refine .after (.handlerEats hh (.setWaiting hfree)) (can_resume ⟨t, b, e, hn⟩ ?_)
  simp [St.handlerAfter, hp, ReplyPath.setWaitingForResult]

/-- The wait ends in at most three steps: the handler finds its cookie, waits for the result, and the
notification wakes up. -/
theorem AwaitInv.can_end (hi : Inv cfg s) (h : AwaitInv cfg s) (hw : s.notificationWaits) :
    Can (Step cfg) (fun s => ¬ s.notificationWaits) s := by
  rcases h.path_of_waits hw with hp | hp
  · rcases h.awaited_of_waits hw hp with ⟨⟨mode, hh⟩, hj⟩ | ⟨mode, hh⟩
    · have hf : s.fetch = none := by
        by_contra hf
        exact (hi.no_signal_early (hi.signal_of_fetch hf)).2.1 hp
      have hfree : s.jarLockFree := by simp [St.jarLockFree, hh, hf]
      exact .after (.handlerEats hh (.find hfree hj)) (can_wait (m := mode) hw hp rfl)
    · exact can_wait hw hp hh
  · exact can_resume hw hp

/-! ## Every end is awaited -/

theorem eat_awaitInv {mode : EatMode} {pc : EaterPc ρ} {l : EatLabel} {out : EatOut ρ} (hi : Inv cfg s)
    (h : AwaitInv cfg s) (hok : EndIsAwaited cfg s (.handlerEats l)) (hp : s.handler = .eating mode pc)
    (he : Eat s mode true pc l s' out) : AwaitInv cfg (s'.handlerAfter mode out) := by
  have hcookie := hi.cookie_until_notified (by simp [hp]) (by simp [hp])
  have hmode : cfg.mode ≠ .always := fun hm => hi.no_eater_of_always hm mode pc hp
  obtain ⟨h1, h2, h3, h4, h5, h6⟩ := h
  cases he with
  | timeout =>
    cases mode <;> simp only [St.handlerAfter] <;> constructor <;>
      first | assumption | grind -linarith [St.notificationWaits, HandlerPc.looksUp, HandlerPc.hasFound]
  | decideFast hw hj hd =>
    obtain ⟨hfast, rfl⟩ := St.tryEatQuickly_fast hd
    simp only [St.handlerAfter]
    constructor <;> first | assumption | grind -linarith [St.notificationWaits, HandlerPc.looksUp, HandlerPc.hasFound]
  | decideSlow hw hj hd =>
    obtain ⟨hslow, rfl⟩ := St.tryEatQuickly_slow hd
    have hawake := hok.decides rfl
    simp only [St.handlerAfter]
    constructor <;> first | assumption | grind -linarith [St.notificationWaits, HandlerPc.looksUp, HandlerPc.hasFound]
  | unknownCookie hj hno =>
    -- a notification which erased the cookie waits for the handler
    have hnot : s.replyPath ≠ .scheduled := fun hsch => by
      have hend : s.workState.isFinal := by grind -linarith
      cases hn : s.notifier with
      | idle => exact h3 hsch hend hn
      | atJar t b => exact hno (hcookie (.inr ⟨t, b, hn⟩))
      | waiting t b e =>
        rcases h5 ⟨t, b, e, hn⟩ hsch with ⟨-, hin⟩ | ⟨mode', hfound⟩
        · exact hno hin
        · rw [hp] at hfound; cases hfound
    simp only [St.handlerAfter]
    constructor <;> first | assumption | grind -linarith [St.notificationWaits, HandlerPc.looksUp, HandlerPc.hasFound]
  | _ =>
    simp only [St.handlerAfter, St.startRun]
    constructor <;>
      first | assumption | grind -linarith
        [St.notificationWaits, HandlerPc.looksUp, HandlerPc.hasFound, WorkState.isFinal]

theorem fetch_awaitInv {pc : EaterPc ρ} {l : EatLabel} {out : EatOut ρ} (hi : Inv cfg s) (h : AwaitInv cfg s)
    (hf : s.fetch = some pc) (he : Eat s .mySlaveDoesTheActualWork false pc l s' out) :
    AwaitInv cfg (s'.fetchAfter out) := by
  have hsig := hi.signal_of_fetch (by simp [hf])
  have hpath := hi.no_signal_early hsig
  have hend := hi.ended_of_signal hsig
  obtain ⟨h1, h2, h3, h4, h5, h6⟩ := h
  cases he with
  | decideFast hw hj hd =>
    obtain ⟨hfast, rfl⟩ := St.tryEatQuickly_fast hd
    exact ⟨h1, h2, h3, h4, h5, h6⟩
  | decideSlow hw hj hd =>
    obtain ⟨hslow, rfl⟩ := St.tryEatQuickly_slow hd
    simp only [St.fetchAfter]
    constructor <;> first | assumption | grind -linarith [St.notificationWaits]
  | _ =>
    simp only [St.fetchAfter, St.startRun]
    constructor <;> first | assumption | grind -linarith [St.notificationWaits, WorkState.isFinal]

/-- A notification that has to wait waits for a handler which comes. -/
theorem workDone_awaitInv {t : Thread} {b : Bool} (hi : Inv cfg s) (h : AwaitInv cfg s)
    (hok : EndIsAwaited cfg s .notifyJar) (hn : s.notifier = .atJar t b) : AwaitInv cfg (s.workDone cfg t b) := by
  have hcomes : s.replyPath = .scheduled → s.handler.looksUp ∧ b = true ∨ s.handler.hasFound := fun hsch => by
    cases b with
    | true => exact (h.awaited_at_jar t true hn hsch).2 rfl |>.imp_left (⟨·, rfl⟩)
    | false => exact .inr (hok.erases rfl hsch (hi.canceled_of_atJar hn))
  have hjar : s.replyPath = .scheduled → s.inJar := fun hsch => by
    refine hi.cookie_until_notified ?_ ?_ (.inr ⟨t, b, hn⟩) <;>
      rcases hcomes hsch with ⟨⟨m, hm⟩, -⟩ | ⟨m, hm⟩ <;> simp [hm]
  have hopen : cfg.mode = .always → s.accepted = false := fun hm => by
    by_contra ha
    have hend := (h.open_of_always hm (by simpa using ha)).2
    simp [hi.ended_of_notifier (by simp [hn])] at hend
  obtain ⟨h1, h2, h3, h4, h5, h6⟩ := h
  unfold St.workDone
  split
  · rw [St.takeFastPath_eq]
    split
    · constructor <;> first | assumption | grind -linarith [St.notificationWaits]
    · split <;> constructor <;> first | assumption | grind -linarith [St.notificationWaits]
    · unfold St.emit
      split
      · split <;> constructor <;> first | assumption | grind -linarith [St.notificationWaits]
      · constructor <;> first | assumption | grind -linarith [St.notificationWaits]
    · constructor <;> first | assumption | grind -linarith [St.notificationWaits]
  · constructor <;> first | assumption | grind -linarith [St.notificationWaits]

/-- A work which ends on the scheduled path has a handler that comes. -/
theorem finish_awaitInv {t : Thread} {b : Bool} (h : AwaitInv cfg s)
    (hok : EndIsAwaited cfg s l) (hl : EndsWork s l) (hq : s.handler = .queued → b = false) :
    AwaitInv cfg (s.finish t b) := by
  have hends := fun hsch => hok.ends hsch hl
  obtain ⟨h1, h2, h3, h4, h5, h6⟩ := h
  simp only [St.finish]
  constructor <;> first | assumption | grind -linarith [St.notificationWaits]

theorem step_awaitInv (hi : Inv cfg s) (h : AwaitInv cfg s) (hok : EndIsAwaited cfg s l) (hs : Step cfg s l s') :
    AwaitInv cfg s' := by
  have hidle := hi.idle_of_runnable
  cases hs with
  | handlerEats hp he => exact eat_awaitInv hi h hok hp he
  | fetchEats hf he => exact fetch_awaitInv hi h hf he
  | notifyJar hn hj => exact workDone_awaitInv hi h hok hn
  | resume hn hp =>
    have hnot : cfg.mode = .always → s.accepted = false := fun hm => by
      by_contra ha
      have := (h.open_of_always hm (by simpa using ha)).1
      simp [hp] at this
    obtain ⟨h1, h2, h3, h4, h5, h6⟩ := h
    simp only [St.takeFastPath_eq, hp]
    split <;> constructor <;> first | assumption | grind -linarith [St.notificationWaits]
  | pickCookie | putResult | fetch | addWorkAsync | addWorkSync =>
    have hnew := hi.new_before_pick
    have hnone := hi.none_before_add
    obtain ⟨h1, h2, h3, h4, h5, h6⟩ := h
    constructor <;>
      grind -linarith [St.notificationWaits, HandlerPc.looksUp, HandlerPc.hasFound, St.addedAsync, St.enqueue,
        WorkState.isFinal]
  | addWorkRefused | syncSkip | syncReturn =>
    have hnone := hi.none_before_add
    obtain ⟨h1, h2, h3, h4, h5, h6⟩ := h
    unfold St.addedSync
    split <;> constructor <;>
      first | assumption | grind -linarith [St.notificationWaits, HandlerPc.looksUp, HandlerPc.hasFound]
  | syncRun | workerRuns =>
    obtain ⟨h1, h2, h3, h4, h5, h6⟩ := h
    simp only [St.startRun]
    constructor <;>
      first | assumption | grind -linarith
        [St.notificationWaits, HandlerPc.looksUp, HandlerPc.hasFound, WorkState.isFinal]
  | @runReturns t b hr hw =>
    refine finish_awaitInv h hok (.inl ⟨b, rfl⟩) fun hq => ?_
    simp [(hi.idle_of_queued hq).1] at hr
  | syncClosed hp hw =>
    have hnot : s.workState = .runnable → s.replyPath ≠ .scheduled := fun hr hsch =>
      (hok.ends hsch (.inr ⟨.inr rfl, hr⟩)).2.2 rfl
    obtain ⟨h1, h2, h3, h4, h5, h6⟩ := h
    simp only [St.cancel, St.finish]
    split <;> constructor <;>
      first
      | assumption
      | grind -linarith [St.notificationWaits, HandlerPc.looksUp, HandlerPc.hasFound, WorkState.isFinal]
  | cancel hp hw =>
    unfold St.cancel
    split
    · exact h
    · exact finish_awaitInv h hok (.inr ⟨.inl rfl, ‹_›⟩) fun _ => rfl
    · obtain ⟨h1, h2, h3, h4, h5, h6⟩ := h
      constructor <;> first | assumption | grind -linarith [St.notificationWaits, WorkState.isFinal]
    · exact h
    · exact h

/-! ## Works that nobody waits for -/

/-- Nobody has waited for the result, and nothing has been announced. -/
structure Unawaited (s : St ρ ε) : Prop where
  path : s.replyPath = .none ∨ s.replyPath = .scheduled
  silent : s.signals = []
  no_fetch : s.fetch = none

/-- No step of any party waits for the result of a work of mode `always`, or announces it. -/
theorem step_unawaited (hm : cfg.mode = .always) (hi : Inv cfg s) (h : Unawaited s) (hs : Step cfg s l s') :
    Unawaited s' := by
  obtain ⟨hpath, hsilent, hfetch⟩ := h
  cases hs with
  | handlerEats hp he => exact absurd hp (hi.no_eater_of_always hm _ _)
  | fetchEats hf he => simp [hfetch] at hf
  | resume hn hp => simp [hp] at hpath
  | fetch hsig => exact absurd hsilent hsig
  | notifyJar hn hj =>
    unfold St.workDone
    split
    · rw [St.takeFastPath_eq]
      split <;> first | exact ⟨hpath, hsilent, hfetch⟩ | simp_all
    · exact ⟨hpath, hsilent, hfetch⟩
  | addWorkAsync | addWorkSync =>
    constructor <;> grind -linarith [St.addedAsync, St.enqueue]
  | addWorkRefused | syncSkip | syncReturn =>
    unfold St.addedSync
    split <;> exact ⟨hpath, hsilent, hfetch⟩
  | syncClosed | cancel =>
    simp only [St.cancel, St.finish]
    split <;> exact ⟨hpath, hsilent, hfetch⟩
  | pickCookie | putResult | syncRun | workerRuns | runReturns => exact ⟨hpath, hsilent, hfetch⟩

/-! ## Reporting the end of a work -/

/-- In every run in which every end of the work is awaited, the notification never waits for ever. With mode `always`
no work that a queue has accepted ends in such a run, and none is announced in any run: the signal comes after the
wait, and nobody ends it. -/
theorem notification_ends {ls : List (Label ρ ε)} (h : Run (When (Step cfg) (EndIsAwaited cfg)) (St.init cfg) ls s) :
    (s.notificationWaits → Can (Step cfg) (fun s => ¬ s.notificationWaits) s) ∧
      (cfg.mode = .always → (s.accepted → ¬ s.workState.isFinal) ∧ ¬ Can (Step cfg) (fun s => s.signals ≠ []) s) := by
  obtain ⟨⟨hi, ha⟩, hunawaited⟩ :=
    h.invariant (P := fun s => (Inv cfg s ∧ AwaitInv cfg s) ∧ (cfg.mode = .always → Unawaited s))
      (fun _ _ _ h hs => ⟨⟨step_inv h.1.1 hs.2, step_awaitInv h.1.1 h.1.2 hs.1 hs.2⟩,
        fun hm => step_unawaited hm h.1.1 (h.2 hm) hs.2⟩)
      ⟨⟨init_inv cfg, init_awaitInv cfg⟩, fun _ => ⟨.inl rfl, rfl, rfl⟩⟩
  refine ⟨ha.can_end hi, fun hm => ⟨fun hacc => by simp [(ha.open_of_always hm hacc).2], ?_⟩⟩
  exact not_can (Q := fun s => Inv cfg s ∧ Unawaited s)
    (fun _ _ _ h hs => ⟨step_inv h.1 hs, step_unawaited hm h.1 h.2 hs⟩) (fun _ h hsig => hsig h.2.silent)
    ⟨hi, hunawaited hm⟩

theorem notification_ends_found : ∃ s : St ℕ ℕ, s.notificationWaits ∧
    Can (Step fastPathCfg) (fun s => ¬ s.notificationWaits) s := by
  have hrun : ∃ s : St ℕ ℕ, s.notificationWaits ∧
      Run (When (Step fastPathCfg) (EndIsAwaited fastPathCfg)) (St.init fastPathCfg)
        [.pickCookie, .addWork, .handlerEats .find, .workerRuns, .putResult 7 0, .runReturns true, .notifyJar] s := by
    refine ⟨_, ?_, .cons ⟨?_, .pickCookie rfl rfl⟩ <| .cons ⟨?_, .addWorkAsync rfl rfl rfl rfl⟩ <|
      .cons ⟨?_, .handlerEats rfl (.find rfl rfl)⟩ <| .cons ⟨?_, .workerRuns rfl rfl rfl rfl⟩ <|
      .cons ⟨?_, .putResult 7 0 rfl⟩ <| .cons ⟨?_, .runReturns true rfl rfl⟩ <|
      .cons ⟨?_, .notifyJar rfl rfl⟩ (.nil _)⟩
    · exact ⟨_, _, _, rfl⟩
    all_goals exact ⟨fun _ _ => ⟨nofun, nofun, nofun⟩, nofun, nofun⟩
  obtain ⟨s, hs, hr⟩ := hrun
  exact ⟨s, hs, (notification_ends hr).1 hs⟩

/-- The notification waits, and nobody will ever call `set_waiting_for_result`. -/
structure Stuck (s : St ρ ε) : Prop where
  waits : s.notificationWaits
  path : s.replyPath = .scheduled
  ended : s.workState.isFinal ∧ s.runner = .idle
  returned : s.handler = .returned
  unannounced : s.signals = [] ∧ s.fetch = none

/-- No step of any party leads out of a stuck notification. -/
theorem step_stuck (h : Stuck s) (hs : Step cfg s l s') : Stuck s' := by
  obtain ⟨⟨t, b, e, hn⟩, h2, ⟨h3, h4⟩, h5, h6, h7⟩ := h
  cases hs with
  | cancel hp hw => grind -linarith [Stuck, St.cancel, St.notificationWaits, WorkState.isFinal]
  | _ => simp_all [WorkState.isFinal]

theorem stuck_stays (h : Stuck s) : ¬ Can (Step cfg) (fun s => ¬ s.notificationWaits) s :=
  not_can (Q := Stuck) (fun _ _ _ => step_stuck) (fun _ h hno => hno h.waits) h

/-- A work of `realize_location` that is done is never announced. -/
theorem realize_location_stuck : ∃ s : St ℕ ℕ, Run (Step realizeLocationCfg) (St.init realizeLocationCfg)
      [.pickCookie, .addWork, .workerRuns, .putResult 7 0, .runReturns true, .notifyJar] s ∧
    s.notificationWaits ∧ ¬ Can (Step realizeLocationCfg) (fun s => ¬ s.notificationWaits) s := by
  refine ⟨_, .cons (.pickCookie rfl rfl) <| .cons (.addWorkAsync rfl rfl rfl rfl) <|
    .cons (.workerRuns rfl rfl rfl rfl) <| .cons (.putResult 7 0 rfl) <|
    .cons (.runReturns true rfl rfl) <| .cons (.notifyJar rfl rfl) (.nil _), ⟨_, _, _, rfl⟩, ?_⟩
  exact stuck_stays ⟨⟨_, _, _, rfl⟩, rfl, ⟨rfl, rfl⟩, rfl, rfl, rfl⟩

end Listbrokers.Async
