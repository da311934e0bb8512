import Listbrokers.Async.Answer
import Listbrokers.Async.FastPath

/-!
# Calls that are answered

Two cancellations keep the handler of a method with a fast path from answering
its call with the result or with the cookie. A notification of a canceled work
that comes before the handler has looked its cookie up erases the cookie, and
the handler answers with an error (`error_when_canceled`). And a work that is
canceled before it has started gets no result: a handler that waits for it
never returns (`blocked_when_canceled`).

`answered_once` is about runs without these (`CanceledInTime`): the call is
answered once, and as long as it is not answered, the handler can go on to its
answer. `TimelyInv` says what the handler still has where it stands, `remaining`
how many steps are left at most.
-/

namespace Listbrokers.Async

open Framework

variable {ρ ε : Type} {cfg : Cfg ε} {s s' : St ρ ε} {l : Label ρ ε}

/-- Does not need the result of a work that has not started: may still decide for the slow path after the
notification has been told to wait, or has answered. -/
def HandlerPc.outlivesCancel : HandlerPc ρ → Bool
  | .eating .mySlaveDoesTheActualWork .lookup | .eating .mySlaveDoesTheActualWork .found | .returned => true
  | _ => false

theorem HandlerPc.cases_of_outlivesCancel {pc : HandlerPc ρ} (h : pc.outlivesCancel) :
    pc = .eating .mySlaveDoesTheActualWork .lookup ∨ pc = .eating .mySlaveDoesTheActualWork .found ∨
      pc = .returned := by
  unfold HandlerPc.outlivesCancel at h
  split at h <;> simp_all

/-- No cancellation keeps the handler from its answer, as far as the step `l` is concerned. -/
structure CanceledInTime (s : St ρ ε) (l : Label ρ ε) : Prop where
  /-- The notification of a canceled work erases the cookie after the handler's lookup. -/
  erases : ErasedAfterLookup s l
  /-- The notification of a work without result does not take the fast path while the handler waits. -/
  takes : l = .notifyJar ∨ l = .resume → s.promise = none → s.replyPath = .waiting → ¬ s.handler.waitsForSlave
  /-- A work that has not started is not canceled while the handler is going to add it, to do it, or waits for it. -/
  cancels : l = .cancel → s.workState = .runnable → s.handler.outlivesCancel

/-- What the handler has got where it stands. -/
structure TimelyInv (s : St ρ ε) : Prop where
  not_sync : s.handler ≠ .queued ∧ s.handler ≠ .processing
  no_fetch : s.handler ≠ .returned → s.fetch = none
  runnable_before_add : s.handler = .addWork → s.workState = .runnable
  scheduled_of_early : ∀ pc, s.handler = .eating .mySlaveDoesTheActualWork pc → pc = .lookup ∨ pc = .found →
    s.replyPath = .scheduled
  result_of_fast : s.handler.waitsForSlave → s.replyPath = .fastPath → s.promise ≠ none
  result_of_atJar : ∀ pc t b, s.handler = .eating .mySlaveDoesTheActualWork pc → pc = .waitFuture ∨ pc = .timedOut →
    s.notifier = .atJar t b → s.promise ≠ none
  refused_of_worker : ∀ pc, s.handler = .eating .willWorkForCookies pc → s.accepted = false
  awake_of_refused : s.accepted = false → ∀ t b e, s.notifier ≠ .waiting t b e
  own_runner : s.accepted = false → s.runner ≠ .working .other
  runnable_of_worker : ∀ pc, s.handler = .eating .willWorkForCookies pc →
    pc = .lookup ∨ pc = .found ∨ pc = .waitFuture ∨ pc = .allowSync → s.workState = .runnable
  worker_of_sync : ∀ mode pc, s.handler = .eating mode pc → pc = .allowSync ∨ pc = .inRun ∨ pc = .getFuture →
    mode = .willWorkForCookies
  result_of_run : ∀ mode, s.handler = .eating mode .inRun → s.promise ≠ none ∨ s.runner = .working .handler
  result_of_get : ∀ mode, s.handler = .eating mode .getFuture → s.promise ≠ none

theorem init_timelyInv (cfg : Cfg ε) : TimelyInv (St.init cfg : St ρ ε) := by
  constructor <;> simp [St.init]

theorem eat_timelyInv {mode : EatMode} {pc : EaterPc ρ} {l : EatLabel} {out : EatOut ρ} (hi : Inv cfg s)
    (h : TimelyInv s) (hp : s.handler = .eating mode pc) (he : Eat s mode true pc l s' out) :
    TimelyInv (s'.handlerAfter mode out) := by
  have hruns := hi.runs_of_runner
  obtain ⟨h1, h2, h3, h4, h5, h6, h7, h8, h9, h10, h11, h12, h13⟩ := h
  cases he with
  | timeout =>
    cases mode <;> simp only [St.handlerAfter] <;> constructor <;>
      first | assumption | grind -linarith [HandlerPc.waitsForSlave]
  | decideFast hw hj hd =>
    obtain ⟨hfast, rfl⟩ := St.tryEatQuickly_fast hd
    simp only [St.handlerAfter]
    constructor <;> first | assumption | grind -linarith [HandlerPc.waitsForSlave]
  | decideSlow hw hj hd =>
    obtain ⟨hslow, rfl⟩ := St.tryEatQuickly_slow hd
    simp only [St.handlerAfter]
    constructor <;> first | assumption | grind -linarith [HandlerPc.waitsForSlave]
  | _ =>
    simp only [St.handlerAfter]
    constructor <;> first | assumption | grind -linarith
      [HandlerPc.waitsForSlave, St.startRun, St.workLockFree, St.handlerIsBack]

/-- A fetch finds a handler that has answered. -/
theorem fetch_timelyInv {pc : EaterPc ρ} {l : EatLabel} {out : EatOut ρ} (hi : Inv cfg s) (h : TimelyInv s)
    (hf : s.fetch = some pc) (he : Eat s .mySlaveDoesTheActualWork false pc l s' out) :
    TimelyInv (s'.fetchAfter out) := by
  have hend := hi.ended_of_signal (hi.signal_of_fetch (by simp [hf]))
  have hreturned : s.handler = .returned := by
    by_contra hr
    simp [h.no_fetch hr] at hf
  obtain ⟨h1, h2, h3, h4, h5, h6, h7, h8, h9, h10, h11, h12, h13⟩ := h
  cases he with
  | runHere hw hr => simp [hr, WorkState.isFinal] at hend
  | decideFast hw hj hd =>
    obtain ⟨hfast, rfl⟩ := St.tryEatQuickly_fast hd
    simp only [St.fetchAfter]
    constructor <;> first | assumption | grind -linarith [HandlerPc.waitsForSlave]
  | decideSlow hw hj hd =>
    obtain ⟨hslow, rfl⟩ := St.tryEatQuickly_slow hd
    simp only [St.fetchAfter]
    constructor <;> first | assumption | grind -linarith [HandlerPc.waitsForSlave]
  | _ =>
    simp only [St.fetchAfter]
    constructor <;> first | assumption | grind -linarith [HandlerPc.waitsForSlave]

/-- The notification takes the fast path with a result, or away from the handler. -/
theorem takeFastPath_timelyInv {t : Thread} {b inJar : Bool} {e : ε} (hi : Inv cfg s) (h : TimelyInv s)
    (hok : s.promise = none → s.replyPath = .waiting → ¬ s.handler.waitsForSlave) :
    TimelyInv ({ s with inJar := inJar }.takeFastPath cfg t b e) := by
  have hnone := hi.none_of_refused
  obtain ⟨h1, h2, h3, h4, h5, h6, h7, h8, h9, h10, h11, h12, h13⟩ := h
  rw [St.takeFastPath_eq]
  split
  · constructor <;> first | assumption | grind -linarith
  · split <;> constructor <;> first | assumption | grind -linarith
  · unfold St.emit
    split
    · split <;> constructor <;> first | assumption | grind -linarith [HandlerPc.waitsForSlave]
    · constructor <;> first | assumption | grind -linarith [HandlerPc.waitsForSlave]
  · constructor <;> first | assumption | grind -linarith

theorem step_timelyInv (hq : cfg.queue = .async) (hi : Inv cfg s) (ha : AnswerInv s) (h : TimelyInv s)
    (hok : CanceledInTime s l) (hs : Step cfg s l s') : TimelyInv s' := by
  have hidle := hi.idle_of_runnable
  have hruns := hi.runs_of_runner
  cases hs with
  | handlerEats hp he => exact eat_timelyInv hi h hp he
  | fetchEats hf he => exact fetch_timelyInv hi h hf he
  | notifyJar hn hj =>
    unfold St.workDone
    split
    · exact takeFastPath_timelyInv hi h (hok.takes (.inl rfl))
    · obtain ⟨h1, h2, h3, h4, h5, h6, h7, h8, h9, h10, h11, h12, h13⟩ := h
      constructor <;> first | assumption | grind -linarith
  | resume hn hp => exact takeFastPath_timelyInv hi h (hok.takes (.inr rfl))
  | addWorkSync _ hsync => simp [hq] at hsync
  | syncRun hp | syncSkip hp | syncClosed hp => exact absurd hp h.not_sync.1
  | syncReturn hp => exact absurd hp h.not_sync.2
  | pickCookie | fetch | putResult | addWorkAsync =>
    have hnew := hi.new_before_pick
    have hnone := hi.none_before_add
    have hsig := ha.open_of_busy
    have hannounced := ha.announced_of_signal
    obtain ⟨h1, h2, h3, h4, h5, h6, h7, h8, h9, h10, h11, h12, h13⟩ := h
    constructor <;> first | assumption | grind -linarith [HandlerPc.waitsForSlave, St.addedAsync, St.enqueue]
  | addWorkRefused =>
    have hnone := hi.none_before_add
    have hrefused := hi.refused_of_none
    obtain ⟨h1, h2, h3, h4, h5, h6, h7, h8, h9, h10, h11, h12, h13⟩ := h
    unfold St.addedSync
    split <;> constructor <;> first | assumption | grind -linarith [HandlerPc.waitsForSlave]
  | workerRuns =>
    have hnone := hi.none_before_add
    have hrefused := hi.refused_of_none
    obtain ⟨h1, h2, h3, h4, h5, h6, h7, h8, h9, h10, h11, h12, h13⟩ := h
    simp only [St.startRun]
    constructor <;> first | assumption | grind -linarith
  | runReturns =>
    have hresult := hi.result_of_returning
    obtain ⟨h1, h2, h3, h4, h5, h6, h7, h8, h9, h10, h11, h12, h13⟩ := h
    simp only [St.endRun, St.finish]
    constructor <;> first | assumption | grind -linarith
  | cancel =>
    have hcancels := fun hr => HandlerPc.cases_of_outlivesCancel (hok.cancels rfl hr)
    obtain ⟨h1, h2, h3, h4, h5, h6, h7, h8, h9, h10, h11, h12, h13⟩ := h
    simp only [St.cancel, St.finish]
    split <;> constructor <;> first | assumption | grind -linarith

/-! ## The handler goes on -/

/-- How far a handler is from its answer. -/
def HandlerPc.remaining : HandlerPc ρ → ℕ
  | .pickCookie => 9
  | .addWork => 8
  | .eating _ .lookup => 7
  | .eating _ .found => 6
  | .eating _ .waitFuture => 5
  | .eating _ .allowSync | .eating _ .timedOut => 4
  | .eating _ .inRun => 3
  | .eating _ .getFuture | .eating _ .takeResult => 2
  | .eating _ (.erase _) => 1
  | .queued | .processing | .returned => 0

def Runner.remaining : Runner → ℕ
  | .working _ => 3
  | .returning _ => 2
  | .idle => 0

def Notifier.remaining : Notifier ε → ℕ
  | .atJar .. => 1
  | .idle | .waiting .. => 0

/-- At most as many steps lead to the answer: those of the handler, with the run and the notification that it may
have to wait for. -/
def St.remaining (s : St ρ ε) : ℕ := 4 * s.handler.remaining + s.runner.remaining + s.notifier.remaining

attribute [local simp] HandlerPc.remaining St.handlerAfter

/-- A step brings the handler nearer to its answer. -/
def Progresses (cfg : Cfg ε) (s : St ρ ε) : Prop :=
  ∃ l s', When (Step cfg) CanceledInTime s l s' ∧ s'.remaining < s.remaining

/-- Only cancellations and notifications can come too early. -/
theorem canceledInTime_of_ne (h₁ : l ≠ .notifyJar) (h₂ : l ≠ .resume) (h₃ : l ≠ .cancel) : CanceledInTime s l :=
  ⟨fun h => absurd h h₁, fun h => absurd h (not_or.mpr ⟨h₁, h₂⟩), fun h => absurd h h₃⟩

theorem progresses_of_eat {mode : EatMode} {pc : EaterPc ρ} {l : EatLabel} {out : EatOut ρ}
    (hp : s.handler = .eating mode pc) (he : Eat s mode true pc l s' out)
    (hlt : (s'.handlerAfter mode out).remaining < s.remaining) : Progresses cfg s :=
  ⟨.handlerEats l, _, ⟨canceledInTime_of_ne nofun nofun nofun, .handlerEats hp he⟩, hlt⟩

theorem jarLockFree_of_fetch (hf : s.fetch = none) (hp : ∀ mode, s.handler ≠ .eating mode .takeResult) :
    s.jarLockFree := by
  unfold St.jarLockFree
  split <;> simp_all

theorem workLockFree_of_notifier (hn : ∀ t b, s.notifier ≠ .atJar t b) : s.workLockFree := by
  unfold St.workLockFree
  split <;> simp_all

/-- A notification that takes the jar leaves the handler where it is. -/
theorem workDone_remaining {t : Thread} {b : Bool} (hn : s.notifier = .atJar t b) :
    (s.workDone cfg t b).remaining < s.remaining := by
  have hfree : ∀ t' b', (s.workDone cfg t b).notifier ≠ .atJar t' b' := by
    grind -linarith [St.workDone, St.takeFastPath_eq, St.emit]
  have hframe : (s.workDone cfg t b).handler = s.handler ∧ (s.workDone cfg t b).runner = s.runner := by
    grind -linarith [St.workDone, St.takeFastPath_eq, St.emit]
  unfold St.remaining
  rw [hframe.1, hframe.2, hn]
  cases h : (s.workDone cfg t b).notifier with
  | atJar t' b' => exact absurd h (hfree t' b')
  | idle | waiting => exact Nat.lt_succ_self _

/-- The notification takes the jar, where the handler has looked its cookie up and needs no other result. -/
theorem progresses_of_atJar {t : Thread} {b : Bool} (hn : s.notifier = .atJar t b) (hlook : s.handler.hasLookedUp)
    (hresult : s.promise = none → s.replyPath ≠ .waiting) (hj : s.jarLockFree) : Progresses cfg s := by
  refine ⟨.notifyJar, _, ⟨⟨fun _ _ => hlook, fun _ hp hpath => absurd hpath (hresult hp), nofun⟩, .notifyJar hn hj⟩, ?_⟩
  exact workDone_remaining hn

theorem jarLockFree_of_eating {mode : EatMode} {pc : EaterPc ρ} (h : TimelyInv s) (hp : s.handler = .eating mode pc)
    (hpc : pc ≠ .takeResult) : s.jarLockFree :=
  jarLockFree_of_fetch (h.no_fetch (by simp [hp])) fun mode' e => by
    rw [hp] at e
    cases e
    exact hpc rfl

/-- A handler that waits for the work of another thread gets its result, or leaves with the cookie. -/
theorem slave_progresses {pc : EaterPc ρ} (hi : Inv cfg s) (hc : CookieInv s) (h : TimelyInv s)
    (hp : s.handler = .eating .mySlaveDoesTheActualWork pc) : Progresses cfg s := by
  have hjar := jarLockFree_of_eating h hp
  cases pc with
  | lookup =>
    have hin := hc.cookie_for_lookup (by simp [hp]) (by simp [hp, HandlerPc.hasLookedUp])
    exact progresses_of_eat hp (.find (hjar (by simp)) hin) (by simp [St.remaining, hp])
  | found =>
    have hpath := h.scheduled_of_early _ hp (.inr rfl)
    by_cases hn : ∃ t b, s.notifier = .atJar t b
    · obtain ⟨t, b, hn⟩ := hn
      exact progresses_of_atJar hn (by simp [hp, HandlerPc.hasLookedUp]) (fun _ => by simp [hpath]) (hjar (by simp))
    · have hfree := workLockFree_of_notifier (not_exists.mp <| not_exists.mp hn ·)
      exact progresses_of_eat hp (.setWaiting hfree) (by simp [St.remaining, hp])
  | waitFuture =>
    cases hr : s.promise with
    | none =>
      exact progresses_of_eat hp (.timeout hr) (by simp [St.remaining, hp])
    | some r =>
      exact progresses_of_eat hp (.ready hr) (by simp [St.remaining, hp])
  | timedOut =>
    by_cases hn : ∃ t b, s.notifier = .atJar t b
    · obtain ⟨t, b, hn⟩ := hn
      have hresult := h.result_of_atJar _ t b hp (.inr rfl) hn
      exact progresses_of_atJar hn (by simp [hp, HandlerPc.hasLookedUp]) (absurd · hresult) (hjar (by simp))
    · have hfree := workLockFree_of_notifier (not_exists.mp <| not_exists.mp hn ·)
      cases hd : s.tryEatQuickly true with
      | mk fast s' =>
        cases fast with
        | true =>
          obtain ⟨-, rfl⟩ := St.tryEatQuickly_fast hd
          exact progresses_of_eat hp (.decideFast hfree (hjar (by simp)) hd)
            (by simp [St.remaining, hp])
        | false =>
          obtain ⟨-, rfl⟩ := St.tryEatQuickly_slow hd
          exact progresses_of_eat hp (.decideSlow hfree (hjar (by simp)) hd)
            (by simp [St.remaining, hp])
  | takeResult =>
    obtain ⟨r, hr⟩ := Option.ne_none_iff_exists'.mp
      (h.result_of_fast (by simp [hp, HandlerPc.waitsForSlave]) (hi.fast_of_take _ hp).2)
    exact progresses_of_eat hp (.takeReady hr) (by simp [St.remaining, hp])
  | erase r =>
    exact progresses_of_eat hp (.erase (hjar (by simp))) (by simp [St.remaining, hp])
  | allowSync | inRun | getFuture => simpa using h.worker_of_sync _ _ hp

/-- A handler that does the work itself comes back from it with the result. -/
theorem inRun_progresses [Nonempty ρ] (hi : Inv cfg s) (h : TimelyInv s)
    (hp : s.handler = .eating .willWorkForCookies .inRun) : Progresses cfg s := by
  have hjar := jarLockFree_of_eating h hp (by simp)
  have hother : ∀ l : Label ρ ε, l ≠ .notifyJar → l ≠ .resume → l ≠ .cancel → ∀ s', Step cfg s l s' →
      s'.remaining < s.remaining → Progresses cfg s :=
    fun l h₁ h₂ h₃ s' hs hlt => ⟨l, s', ⟨canceledInTime_of_ne h₁ h₂ h₃, hs⟩, hlt⟩
  cases hr : s.runner with
  | working t =>
    obtain ⟨r⟩ := ‹Nonempty ρ›
    refine hother (.putResult r cfg.ok) (by simp) (by simp) (by simp) _ (.putResult r cfg.ok hr) ?_
    simp [St.remaining, Runner.remaining, hr]
  | returning t =>
    have hidle : s.notifier = .idle := by
      by_contra hn
      rcases hi.runs_of_runner (by simp [hr]) with hw | hw <;>
        simpa [hw, WorkState.isFinal] using hi.ended_of_notifier hn
    have hfree : s.workLockFree := by simp [St.workLockFree, hidle]
    refine hother (.runReturns true) (by simp) (by simp) (by simp) _ (.runReturns true hr hfree) ?_
    simp [St.remaining, Runner.remaining, Notifier.remaining, St.endRun, St.finish, hr, hidle]
  | idle =>
    have hresult := (h.result_of_run _ hp).resolve_right (by simp [hr])
    cases hn : s.notifier with
    | atJar t b => exact progresses_of_atJar hn (by simp [hp, HandlerPc.hasLookedUp]) (absurd · hresult) hjar
    | waiting t b e => exact absurd hn (h.awake_of_refused (h.refused_of_worker _ hp) t b e)
    | idle =>
      exact progresses_of_eat hp (.runReturned (by simp [St.handlerIsBack, hr, hn]))
        (by simp [St.remaining, hp])

/-- A handler whose queue has refused the work does the work itself. -/
theorem worker_progresses [Nonempty ρ] {pc : EaterPc ρ} (hi : Inv cfg s) (hc : CookieInv s) (h : TimelyInv s)
    (hp : s.handler = .eating .willWorkForCookies pc) : Progresses cfg s := by
  have hjar := jarLockFree_of_eating h hp
  have hfree : s.workState = .runnable → s.workLockFree := fun hr => by simp [St.workLockFree, hi.idle_of_runnable hr]
  cases pc with
  | lookup =>
    have hin := hc.cookie_for_lookup (by simp [hp]) (by simp [hp, HandlerPc.hasLookedUp])
    exact progresses_of_eat hp (.find (hjar (by simp)) hin) (by simp [St.remaining, hp])
  | found =>
    have hr := h.runnable_of_worker _ hp (.inr (.inl rfl))
    exact progresses_of_eat hp (.setWaiting (hfree hr)) (by simp [St.remaining, hp])
  | waitFuture =>
    cases hr : s.promise with
    | none => exact progresses_of_eat hp (.timeout hr) (by simp [St.remaining, hp])
    | some r => exact progresses_of_eat hp (.ready hr) (by simp [St.remaining, hp])
  | allowSync =>
    have hr := h.runnable_of_worker _ hp (.inr (.inr (.inr rfl)))
    have hidle : s.runner = .idle := by
      by_contra hn
      rcases hi.runs_of_runner hn with hw | hw <;> simp [hr] at hw
    refine progresses_of_eat hp (.runHere (hfree hr) hr) ?_
    simp [St.remaining, St.startRun, Runner.remaining, hp, hidle]
  | inRun => exact inRun_progresses hi h hp
  | getFuture =>
    obtain ⟨r, hr⟩ := Option.ne_none_iff_exists'.mp (h.result_of_get _ hp)
    exact progresses_of_eat hp (.getReady hr) (by simp [St.remaining, hp])
  | erase r => exact progresses_of_eat hp (.erase (hjar (by simp))) (by simp [St.remaining, hp])
  | timedOut => simpa using hi.slave_of_timedOut _ hp
  | takeResult => simpa using (hi.fast_of_take _ hp).1

/-- A handler that has not answered yet can go on. -/
theorem progresses [Nonempty ρ] (hm : cfg.mode = .afterTimeout) (hq : cfg.queue = .async) (hi : Inv cfg s)
    (hc : CookieInv s) (h : TimelyInv s) (hr : s.handler ≠ .returned) : Progresses cfg s := by
  cases hp : s.handler with
  | pickCookie =>
    have hfree : s.jarLockFree := jarLockFree_of_fetch (h.no_fetch hr) (by simp [hp])
    refine ⟨.pickCookie, _, ⟨canceledInTime_of_ne (by simp) (by simp) (by simp), .pickCookie hp hfree⟩, ?_⟩
    simp [St.remaining, hp]
  | addWork =>
    have hrun := h.runnable_before_add hp
    have hfree : s.workLockFree := by simp [St.workLockFree, hi.idle_of_runnable hrun]
    refine ⟨.addWork, _, ⟨canceledInTime_of_ne (by simp) (by simp) (by simp), .addWorkAsync hp hq hfree hrun⟩, ?_⟩
    simp [St.remaining, St.addedAsync, St.enqueue, hm, hp]
  | queued => exact absurd hp h.not_sync.1
  | processing => exact absurd hp h.not_sync.2
  | eating mode pc =>
    cases mode with
    | willWorkForCookies => exact worker_progresses hi hc h hp
    | mySlaveDoesTheActualWork => exact slave_progresses hi hc h hp
  | returned => exact absurd hp hr

/-! ## The answer -/

/-- In every run in which no cancellation comes at a time when it keeps the handler from its answer, a call of a
method with a fast path and an asynchronous queue is answered once, with the result or with the cookie; a signal
follows the cookie; the result is handed out at most once; and a handler that has not answered yet can do so. -/
theorem answered_once [Nonempty ρ] {ls : List (Label ρ ε)} (hm : cfg.mode = .afterTimeout) (hq : cfg.queue = .async)
    (h : Run (When (Step cfg) CanceledInTime) (St.init cfg) ls s) :
    AnsweredOnce s ∧ Can (When (Step cfg) CanceledInTime) (fun s => s.handler = .returned) s := by
  have hstep : ∀ (s : St ρ ε) l s', (Inv cfg s ∧ AnswerInv s ∧ CookieInv s ∧ TimelyInv s) →
      When (Step cfg) CanceledInTime s l s' → Inv cfg s' ∧ AnswerInv s' ∧ CookieInv s' ∧ TimelyInv s' := by
    rintro s l s' ⟨hi, ha, hc, ht⟩ ⟨hok, hs⟩
    exact ⟨step_inv hi hs, step_answerInv hm hi ha hs, step_cookieInv hi ha hc hok.erases hs,
      step_timelyInv hq hi ha ht hok hs⟩
  have hs := h.invariant hstep ⟨init_inv cfg, init_answerInv cfg, init_cookieInv cfg, init_timelyInv cfg⟩
  refine ⟨run_answeredOnce hm (h.when_mono fun _ _ hok => hok.erases), ?_⟩
  exact Can.of_decreasing hstep (fun s ⟨hi, _, hc, ht⟩ hr => progresses hm hq hi hc ht hr) hs

/-- A call that is answered with the cookie, and one whose work is canceled while it is run. -/
theorem answered_once_by_cookie :
    (∃ s : St ℕ ℕ, s.replies = [.cookie] ∧ s.signals = [.dataAvailable] ∧ s.handedOut = [7] ∧ AnsweredOnce s) ∧
      ∃ s : St ℕ ℕ, s.workState = .canceling ∧ s.handler = .eating .mySlaveDoesTheActualWork .waitFuture ∧
        Can (When (Step fastPathCfg) CanceledInTime) (fun s => s.handler = .returned) s := by
  have hrun : ∃ s : St ℕ ℕ, (s.replies = [.cookie] ∧ s.signals = [.dataAvailable] ∧ s.handedOut = [7]) ∧
      Run (When (Step fastPathCfg) CanceledInTime) (St.init fastPathCfg)
        [.pickCookie, .addWork, .handlerEats .find, .handlerEats .setWaiting, .workerRuns, .handlerEats .timeout,
          .handlerEats .decide, .putResult 7 0, .runReturns true, .notifyJar, .fetch, .fetchEats .find,
          .fetchEats .setWaiting, .fetchEats .ready, .fetchEats .ready] s := by
    refine ⟨_, ⟨?_, ?_, ?_⟩, .cons ⟨?_, .pickCookie rfl rfl⟩ <| .cons ⟨?_, .addWorkAsync rfl rfl rfl rfl⟩ <|
      .cons ⟨?_, .handlerEats rfl (.find rfl rfl)⟩ <| .cons ⟨?_, .handlerEats rfl (.setWaiting rfl)⟩ <|
      .cons ⟨?_, .workerRuns rfl rfl rfl rfl⟩ <| .cons ⟨?_, .handlerEats rfl (.timeout rfl)⟩ <|
      .cons ⟨?_, .handlerEats rfl (.decideSlow rfl rfl rfl)⟩ <| .cons ⟨?_, .putResult 7 0 rfl⟩ <|
      .cons ⟨?_, .runReturns true rfl rfl⟩ <| .cons ⟨?_, .notifyJar rfl rfl⟩ <|
      .cons ⟨?_, .fetch (by decide) rfl⟩ <| .cons ⟨?_, .fetchEats rfl (.find rfl rfl)⟩ <|
      .cons ⟨?_, .fetchEats rfl (.setWaiting rfl)⟩ <| .cons ⟨?_, .fetchEats rfl (.ready rfl)⟩ <|
      .cons ⟨?_, .fetchEats rfl (.erase rfl)⟩ (.nil _)⟩
    · rfl
    · rfl
    · rfl
    all_goals exact ⟨nofun, nofun, nofun⟩
  have hcanceled : ∃ s : St ℕ ℕ, (s.workState = .canceling ∧
      s.handler = .eating .mySlaveDoesTheActualWork .waitFuture) ∧
      Run (When (Step fastPathCfg) CanceledInTime) (St.init fastPathCfg)
        [.pickCookie, .addWork, .handlerEats .find, .handlerEats .setWaiting, .workerRuns, .cancel] s := by
    refine ⟨_, ⟨?_, ?_⟩, .cons ⟨?_, .pickCookie rfl rfl⟩ <| .cons ⟨?_, .addWorkAsync rfl rfl rfl rfl⟩ <|
      .cons ⟨?_, .handlerEats rfl (.find rfl rfl)⟩ <| .cons ⟨?_, .handlerEats rfl (.setWaiting rfl)⟩ <|
      .cons ⟨?_, .workerRuns rfl rfl rfl rfl⟩ <| .cons ⟨?_, .cancel (by decide) rfl⟩ (.nil _)⟩
    · rfl
    · rfl
    all_goals exact ⟨nofun, nofun, nofun⟩
  obtain ⟨s, ⟨h₁, h₂, h₃⟩, hr⟩ := hrun
  obtain ⟨s', ⟨hw, hh⟩, hr'⟩ := hcanceled
  exact ⟨⟨s, h₁, h₂, h₃, (answered_once rfl rfl hr).1⟩, s', hw, hh, (answered_once rfl rfl hr').2⟩

/-- A handler whose work is canceled before it has looked its cookie up answers with neither the result nor the
cookie. -/
theorem error_when_canceled : ∃ s : St ℕ ℕ, Run (Step fastPathCfg) (St.init fastPathCfg)
      [.pickCookie, .addWork, .cancel, .notifyJar, .handlerEats .find] s ∧
    s.handler = .returned ∧ ¬ (.cookie ∈ s.replies ∨ ∃ r, .result r ∈ s.replies) := by
  refine ⟨_, .cons (.pickCookie rfl rfl) <| .cons (.addWorkAsync rfl rfl rfl rfl) <|
    .cons (.cancel (by decide) rfl) <| .cons (.notifyJar rfl rfl) <|
    .cons (.handlerEats rfl (.unknownCookie rfl (by decide))) (.nil _), rfl, ?_⟩
  rintro (h | ⟨r, h⟩) <;> cases h <;> contradiction

end Listbrokers.Async
