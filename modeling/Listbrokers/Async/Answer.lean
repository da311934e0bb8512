import Listbrokers.Async.Invariant

/-!
# How a call with a fast path is answered

A D-Bus method with a fast path (`try_fast_path`) answers its call with the
result of the work or with a cookie, and announces the result by a signal only
to a client that holds the cookie. The handler has a third answer, an error,
for the cookie that it finds erased because its work was canceled before it
looked the cookie up. `AnswerInv` holds for every interleaving of the parties;
`run_answeredOnce` says what the client gets to see where no cookie is erased
early. That the handler does answer is shown in `Listbrokers.Async.InTime`.
-/

namespace Listbrokers.Async

open Framework

variable {ρ ε : Type} {cfg : Cfg ε} {s s' : St ρ ε} {l : Label ρ ε}

/-- What a D-Bus client gets to see of a call. -/
structure AnsweredOnce (s : St ρ ε) : Prop where
  answer : s.handler = .returned → (∃ r, s.replies = [.result r]) ∨ s.replies = [.cookie]
  no_answer_before : s.handler ≠ .returned → s.replies = []
  signal_after_cookie : s.signals ≠ [] → s.replies = [.cookie] ∧ s.signals.length = 1
  handedOut_once : s.handedOut.length ≤ 1
  handedOut_result : ∀ r ∈ s.handedOut, s.promise = some r

/-- The reply path after the handler has announced its cookie. -/
def ReplyPath.isAnnounced (p : ReplyPath) : Prop :=
  p = .slowPathCookieSent ∨ p = .slowPathReadyNotified ∨ p = .slowPathFetching

/-- Who has answered, and who may still hand out the result. -/
structure AnswerInv (s : St ρ ε) : Prop where
  path_of_slave : ∀ pc, s.handler = .eating .mySlaveDoesTheActualWork pc → s.replyPath ≠ .none
  never_entered : s.replyPath ≠ .slowPathEntered
  open_of_busy : s.handler ≠ .returned → s.replies = [] ∧ s.handedOut = [] ∧ ¬ s.replyPath.isAnnounced
  cookie_of_announced : s.replyPath.isAnnounced → s.replies = [.cookie]
  announced_of_signal : s.signals ≠ [] → s.replyPath.isAnnounced ∧ s.signals.length = 1
  canceled_of_unknown : s.handler ≠ .pickCookie → s.handler ≠ .returned → ¬ s.inJar → s.workState = .canceled
  answer : s.handler = .returned → (∃ r, s.replies = [.result r] ∧ s.handedOut = [r]) ∨ s.replies = [.cookie] ∨
    (s.replies = [.error] ∧ s.workState = .canceled ∧ s.handedOut = [])
  handedOut_once : s.handedOut.length ≤ 1
  erased_of_handedOut : s.handedOut ≠ [] → s.inJar = false ∧ ∀ pc, s.fetch = some pc → pc = .lookup
  handedOut_result : ∀ r ∈ s.handedOut, s.promise = some r
  erase_result : ∀ mode r, s.handler = .eating mode (.erase r) → s.promise = some r
  fetch_result : ∀ r, s.fetch = some (.erase r) → s.promise = some r
  no_result_yet : s.workState = .runnable ∨ (∃ t, s.runner = .working t) → s.promise = none

theorem init_answerInv (cfg : Cfg ε) : AnswerInv (St.init cfg : St ρ ε) := by
  constructor <;> simp [St.init, ReplyPath.isAnnounced]

/-- The handler answers when it leaves `try_eat`, and not before. -/
theorem eat_answerInv {mode : EatMode} {pc : EaterPc ρ} {l : EatLabel} {out : EatOut ρ} (hi : Inv cfg s)
    (h : AnswerInv s) (hp : s.handler = .eating mode pc) (he : Eat s mode true pc l s' out) :
    AnswerInv (s'.handlerAfter mode out) := by
  have hfetch := hi.signal_of_fetch
  have hslave := hi.slave_of_timedOut
  obtain ⟨h1, h2, h3, h4, h5, h6, h7, h8, h9, h10, h11, h12, h13⟩ := h
  cases he with
  | timeout =>
    cases mode <;> simp only [St.handlerAfter] <;> constructor <;> first | assumption | grind -linarith
  | decideFast hw hj hd =>
    obtain ⟨hfast, rfl⟩ := St.tryEatQuickly_fast hd
    simp only [St.handlerAfter]
    constructor <;> first | assumption | grind -linarith
  | decideSlow hw hj hd =>
    obtain ⟨hslow, rfl⟩ := St.tryEatQuickly_slow hd
    simp only [St.handlerAfter]
    constructor <;> first | assumption | grind -linarith [ReplyPath.isAnnounced]
  | setWaiting =>
    simp only [St.handlerAfter]
    constructor <;> first | assumption | grind -linarith [ReplyPath.isAnnounced]
  | _ =>
    simp only [St.handlerAfter, St.startRun]
    constructor <;> first | assumption | grind -linarith

/-- A fetch follows a signal, and the result it hands out is the first. -/
theorem fetch_answerInv {pc : EaterPc ρ} {l : EatLabel} {out : EatOut ρ} (hi : Inv cfg s) (h : AnswerInv s)
    (hf : s.fetch = some pc) (he : Eat s .mySlaveDoesTheActualWork false pc l s' out) :
    AnswerInv (s'.fetchAfter out) := by
  have hsig := hi.signal_of_fetch (by simp [hf])
  have hend := hi.ended_of_signal hsig
  have hpath := (h.announced_of_signal hsig).1
  have hcookie := h.cookie_of_announced hpath
  have hreturned : s.handler = .returned := by
    by_contra hr
    exact (h.open_of_busy hr).2.2 hpath
  have hfirst : pc ≠ .lookup → s.handedOut = [] := fun hpc => by
    by_contra hout
    exact hpc ((h.erased_of_handedOut hout).2 pc hf)
  obtain ⟨h1, h2, h3, h4, h5, h6, h7, h8, h9, h10, h11, h12, h13⟩ := h
  cases he with
  | decideFast hw hj hd =>
    obtain ⟨hfast, rfl⟩ := St.tryEatQuickly_fast hd
    simp only [St.fetchAfter]
    constructor <;> first | assumption | grind -linarith
  | decideSlow hw hj hd =>
    obtain ⟨hslow, rfl⟩ := St.tryEatQuickly_slow hd
    simp only [St.fetchAfter]
    constructor <;> first | assumption | grind -linarith [ReplyPath.isAnnounced]
  | setWaiting =>
    simp only [St.fetchAfter]
    constructor <;> first | assumption | grind -linarith [ReplyPath.isAnnounced]
  | runHere hw hr => simp [hr, WorkState.isFinal] at hend
  | _ =>
    simp only [St.fetchAfter]
    constructor <;> first | assumption | grind -linarith

/-- Only a client that holds the cookie gets a signal. -/
theorem takeFastPath_answerInv {t : Thread} {b inJar : Bool} {e : ε} (hm : cfg.mode = .afterTimeout)
    (h : AnswerInv s) (hsig : s.signals = []) (hj : inJar = true → s.inJar = true)
    (hc : inJar = false → s.inJar = true → s.workState = .canceled) :
    AnswerInv ({ s with inJar := inJar }.takeFastPath cfg t b e) := by
  obtain ⟨h1, h2, h3, h4, h5, h6, h7, h8, h9, h10, h11, h12, h13⟩ := h
  rw [St.takeFastPath_eq]
  split
  · constructor <;> first | assumption | grind -linarith
  · split <;> constructor <;> first | assumption | grind -linarith [ReplyPath.isAnnounced]
  · unfold St.emit
    split
    · split <;> constructor <;> first | assumption | grind -linarith [ReplyPath.isAnnounced]
    · constructor <;> first | assumption | grind -linarith [ReplyPath.isAnnounced]
  · constructor <;> first | assumption | grind -linarith

theorem step_answerInv (hm : cfg.mode = .afterTimeout) (hi : Inv cfg s) (h : AnswerInv s) (hs : Step cfg s l s') :
    AnswerInv s' := by
  cases hs with
  | handlerEats hp he => exact eat_answerInv hi h hp he
  | fetchEats hf he => exact fetch_answerInv hi h hf he
  | @notifyJar t b hn hj =>
    unfold St.workDone
    split
    · exact takeFastPath_answerInv hm h (hi.silent_of_notifier (by simp [hn])) (fun _ => ‹_›) fun hb _ =>
        hi.canceled_of_atJar (hb ▸ hn)
    · obtain ⟨h1, h2, h3, h4, h5, h6, h7, h8, h9, h10, h11, h12, h13⟩ := h
      constructor <;> assumption
  | @resume t b e hn hp =>
    exact takeFastPath_answerInv hm h (hi.silent_of_notifier (by simp [hn])) id fun hf ht => by simp [hf] at ht
  | pickCookie | putResult | fetch | addWorkAsync | addWorkSync =>
    have hnone := hi.none_before_add
    have hnew := hi.new_before_pick
    have hruns := hi.runs_of_runner
    obtain ⟨h1, h2, h3, h4, h5, h6, h7, h8, h9, h10, h11, h12, h13⟩ := h
    constructor <;> first | assumption | grind -linarith [St.addedAsync, St.enqueue, ReplyPath.isAnnounced]
  | addWorkRefused | syncSkip | syncReturn =>
    obtain ⟨h1, h2, h3, h4, h5, h6, h7, h8, h9, h10, h11, h12, h13⟩ := h
    unfold St.addedSync
    split <;> constructor <;> first | assumption | grind -linarith
  | syncRun | workerRuns =>
    obtain ⟨h1, h2, h3, h4, h5, h6, h7, h8, h9, h10, h11, h12, h13⟩ := h
    simp only [St.startRun]
    constructor <;> first | assumption | grind -linarith
  | runReturns =>
    have hruns := hi.runs_of_runner
    have hcookie := hi.cookie_until_notified
    obtain ⟨h1, h2, h3, h4, h5, h6, h7, h8, h9, h10, h11, h12, h13⟩ := h
    simp only [St.endRun, St.finish]
    constructor <;> first | assumption | grind -linarith [WorkState.isFinal]
  | syncClosed | cancel =>
    have hruns := hi.runs_of_runner
    have hcookie := hi.cookie_until_notified
    obtain ⟨h1, h2, h3, h4, h5, h6, h7, h8, h9, h10, h11, h12, h13⟩ := h
    simp only [St.cancel, St.finish]
    split <;> constructor <;> first | assumption | grind -linarith [WorkState.isFinal]

/-! ## Cookies that are looked up in time -/

/-- The handler has looked its cookie up. -/
def HandlerPc.hasLookedUp : HandlerPc ρ → Bool
  | .eating _ .lookup => false
  | .eating _ _ | .returned => true
  | _ => false

/-- The notification of a canceled work, which erases the cookie, comes after the handler's lookup. -/
def ErasedAfterLookup (s : St ρ ε) (l : Label ρ ε) : Prop :=
  l = .notifyJar → s.workState = .canceled → s.handler.hasLookedUp

/-- The handler's cookie is in the jar when it looks for it. -/
structure CookieInv (s : St ρ ε) : Prop where
  cookie_for_lookup : s.handler ≠ .pickCookie → s.handler.hasLookedUp = false → s.inJar
  no_error : .error ∉ s.replies

theorem init_cookieInv (cfg : Cfg ε) : CookieInv (St.init cfg : St ρ ε) := by
  constructor <;> simp [St.init]

theorem eat_cookieInv {mode : EatMode} {pc : EaterPc ρ} {l : EatLabel} {out : EatOut ρ} (h : CookieInv s)
    (hp : s.handler = .eating mode pc) (he : Eat s mode true pc l s' out) : CookieInv (s'.handlerAfter mode out) := by
  obtain ⟨h1, h2⟩ := h
  cases he with
  | unknownCookie hj hno => exact absurd (h1 (by simp [hp]) (by rw [hp]; rfl)) hno
  | timeout =>
    cases mode <;> simp only [St.handlerAfter] <;> constructor <;>
      first | assumption | simp [HandlerPc.hasLookedUp]
  | decideFast hw hj hd =>
    obtain ⟨-, rfl⟩ := St.tryEatQuickly_fast hd
    simp only [St.handlerAfter]
    constructor <;> first | assumption | simp [HandlerPc.hasLookedUp]
  | decideSlow hw hj hd =>
    obtain ⟨-, rfl⟩ := St.tryEatQuickly_slow hd
    simp only [St.handlerAfter]
    constructor <;> simp [HandlerPc.hasLookedUp, h2]
  | _ =>
    simp only [St.handlerAfter]
    constructor <;> simp [HandlerPc.hasLookedUp, St.startRun, h2]

theorem fetch_cookieInv {pc : EaterPc ρ} {l : EatLabel} {out : EatOut ρ} (h : CookieInv s)
    (hr : s.handler = .returned) (he : Eat s .mySlaveDoesTheActualWork false pc l s' out) :
    CookieInv (s'.fetchAfter out) := by
  obtain ⟨h1, h2⟩ := h
  cases he with
  | decideFast hw hj hd =>
    obtain ⟨-, rfl⟩ := St.tryEatQuickly_fast hd
    exact ⟨h1, h2⟩
  | decideSlow hw hj hd =>
    obtain ⟨-, rfl⟩ := St.tryEatQuickly_slow hd
    exact ⟨h1, h2⟩
  | takeReady | erase => exact ⟨fun _ => by simp [St.fetchAfter, hr, HandlerPc.hasLookedUp], h2⟩
  | _ => exact ⟨h1, h2⟩

theorem step_cookieInv (hi : Inv cfg s) (ha : AnswerInv s) (h : CookieInv s) (hok : ErasedAfterLookup s l)
    (hs : Step cfg s l s') : CookieInv s' := by
  cases hs with
  | handlerEats hp he => exact eat_cookieInv h hp he
  | fetchEats hf he =>
    refine fetch_cookieInv h ?_ he
    by_contra hr
    exact (ha.open_of_busy hr).2.2 (ha.announced_of_signal (hi.signal_of_fetch (by simp [hf]))).1
  | @notifyJar t b hn hj =>
    unfold St.workDone
    split
    · obtain ⟨hr, hh, hjar⟩ := St.takeFastPath_frame cfg { s with inJar := b } t (s.success cfg)
        (if b then s.errorOnDone else cfg.interrupted)
      refine ⟨fun hpick hlook => ?_, by rw [hr]; exact h.no_error⟩
      rw [hh] at hlook
      cases b with
      | true => rw [hjar]
      | false =>
        simp [hok rfl (hi.canceled_of_atJar hn)] at hlook
    · exact ⟨h.cookie_for_lookup, h.no_error⟩
  | @resume t b e hn hp =>
    obtain ⟨hr, hh, hj⟩ := St.takeFastPath_frame cfg s t b e
    exact ⟨by rw [hh, hj]; exact h.cookie_for_lookup, by rw [hr]; exact h.no_error⟩
  | pickCookie | addWorkAsync | addWorkSync | addWorkRefused | syncRun | syncSkip | syncReturn =>
    obtain ⟨h1, h2⟩ := h
    constructor <;> grind -linarith [HandlerPc.hasLookedUp, St.addedAsync, St.addedSync, St.enqueue, St.startRun]
  | workerRuns | putResult | runReturns | fetch => exact ⟨h.cookie_for_lookup, h.no_error⟩
  | syncClosed | cancel =>
    obtain ⟨h1, h2⟩ := h
    simp only [St.cancel, St.finish]
    split <;> constructor <;> grind -linarith [HandlerPc.hasLookedUp]

/-- In every run in which a canceled work keeps its cookie until the handler has looked for it, for both kinds of
queue, the handler answers with the result or with the cookie when it returns. -/
theorem run_answeredOnce {ls : List (Label ρ ε)} (hm : cfg.mode = .afterTimeout)
    (h : Run (When (Step cfg) ErasedAfterLookup) (St.init cfg) ls s) : AnsweredOnce s := by
  obtain ⟨hi, ha, hc⟩ := h.invariant (P := fun s => Inv cfg s ∧ AnswerInv s ∧ CookieInv s)
    (fun _ _ _ h hs => ⟨step_inv h.1 hs.2, step_answerInv hm h.1 h.2.1 hs.2,
      step_cookieInv h.1 h.2.1 h.2.2 hs.1 hs.2⟩) ⟨init_inv cfg, init_answerInv cfg, init_cookieInv cfg⟩
  refine ⟨fun hr => ?_, fun hr => (ha.open_of_busy hr).1, fun hs => ?_, ha.handedOut_once, ha.handedOut_result⟩
  · rcases ha.answer hr with ⟨r, hr, -⟩ | hcookie | ⟨herr, -⟩
    · exact .inl ⟨r, hr⟩
    · exact .inr hcookie
    · exact absurd (by simp [herr]) hc.no_error
  · exact ⟨ha.cookie_of_announced (ha.announced_of_signal hs).1, (ha.announced_of_signal hs).2⟩

end Listbrokers.Async
