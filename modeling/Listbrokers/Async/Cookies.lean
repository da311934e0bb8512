import Listbrokers.Async.Work
import Listbrokers.Framework.Wrapping
import Listbrokers.Framework.Lts
import Mathlib.Data.List.AList
import Mathlib.Order.Interval.Finset.Nat

/-!
# Cookies

`DBusAsync::CookieJar` with all its works. What is done while the jar is locked is
a function of the jar. The calls that go on with the jar unlocked are part of the
state (`JarState`), with what they have found in the jar.

The counter for cookies wraps around, and comes back to the cookies of works that
have been left in the jar. `bake_cookie` tries each cookie once in one round
(`bakeCookie_eq`), so that it returns whenever there is a cookie that is not in
the jar, and `emplace` never meets an entry that it would keep.
-/

namespace Listbrokers.Async

open Framework

variable {W : Type}

/-- `DBusAsync::CookieJar`. -/
structure CookieJar (W : Type) where
  nextFreeCookie : ℕ
  workByCookie : AList fun _ : ℕ => W

/-- `DBusAsync::BadCookieError`, by its messages. -/
inductive BadCookieError
  | badValue
  | unknown
  | wrongType
  deriving DecidableEq, Repr

namespace CookieJar

def init : CookieJar W := ⟨1, ∅⟩

/-- `bake_cookie`, where up to `n` rounds of its loop are enough: the cookie, and the next one to be tried. -/
def bakeCookie (jar : CookieJar W) : ℕ → ℕ → Option (ℕ × ℕ)
  | 0, _ => none
  | n + 1, nextFreeCookie =>
    let cookie := nextFreeCookie
    let nextFreeCookie := (nextFreeCookie + 1) % 2 ^ 32
    if cookie = 0 then jar.bakeCookie n nextFreeCookie
    else if (jar.workByCookie.lookup cookie).isSome then jar.bakeCookie n nextFreeCookie
    else some (cookie, nextFreeCookie)

/-- `std::unordered_map::emplace` keeps an entry that is already there. -/
def emplace (cookie : ℕ) (work : W) (works : AList fun _ : ℕ => W) : AList fun _ : ℕ => W :=
  if (works.lookup cookie).isSome then works else works.insert cookie work

/-- The cookie of `pick_cookie_for_work`, and the jar after it. -/
def pickCookieForWork (jar : CookieJar W) (work : W) : Option (ℕ × CookieJar W) :=
  (jar.bakeCookie (2 ^ 32) jar.nextFreeCookie).map fun r => (r.1, ⟨r.2, emplace r.1 work jar.workByCookie⟩)

/-- The first part of `try_eat`. -/
def findWork (jar : CookieJar W) (cookie : ℕ) (isWorkType : W → Bool) : Except BadCookieError W :=
  if cookie = 0 then .error .badValue
  else match jar.workByCookie.lookup cookie with
    | none => .error .unknown
    | some work => if isWorkType work then .ok work else .error .wrongType

def erase (jar : CookieJar W) (cookie : ℕ) : CookieJar W := { jar with workByCookie := jar.workByCookie.erase cookie }

/-- `work_done_notification`, as far as the jar is concerned. -/
def workDone (jar : CookieJar W) (cookie : ℕ) (hasCompleted : Bool) : CookieJar W :=
  if (jar.workByCookie.lookup cookie).isSome && !hasCompleted then jar.erase cookie else jar

/-! ## New cookies -/

/-- The largest cookie. -/
def maxCookie : ℕ := 2 ^ 32 - 1

/-- The cookie may be handed out. -/
def isFree (jar : CookieJar W) (cookie : ℕ) : Bool := decide (cookie ≠ 0) && (jar.workByCookie.lookup cookie).isNone

variable {jar : CookieJar W} {cookie : ℕ} {work : W}

theorem wrap_eq_next {x : ℕ} (h : x ≤ maxCookie) : (x + 1) % 2 ^ 32 = Wrapping.next 0 maxCookie x := by
  unfold maxCookie at h
  unfold Wrapping.next maxCookie
  split
  · rw [Nat.mod_eq_of_lt (by omega)]
  · rw [show x + 1 = 2 ^ 32 by omega, Nat.mod_self]

/-- The loop tries the cookies in a cycle. -/
theorem bakeCookie_from (jar : CookieJar W) (start n k : ℕ) :
    jar.bakeCookie n (Wrapping.nth 0 maxCookie start k) =
      (((List.range' k n).map (Wrapping.nth 0 maxCookie start)).find? jar.isFree).map
        fun cookie => (cookie, Wrapping.next 0 maxCookie cookie) := by
  induction n generalizing k with
  | zero => rfl
  | succ n ih =>
    have hnth := (Wrapping.nth_mem (Nat.zero_le maxCookie) start k).2
    have hrest := ih (k + 1)
    rw [← Wrapping.next_nth (Nat.zero_le maxCookie)] at hrest
    rw [bakeCookie, List.range'_succ, List.map_cons, wrap_eq_next hnth]
    generalize Wrapping.nth 0 maxCookie start k = cookie at hrest ⊢
    by_cases hzero : cookie = 0
    · rw [if_pos hzero, List.find?_cons_of_neg (by simp [isFree, hzero]), hrest]
    rw [if_neg hzero]
    by_cases hjar : (jar.workByCookie.lookup cookie).isSome = true
    · rw [if_pos hjar, List.find?_cons_of_neg (by simp [isFree, Option.isSome_iff_ne_none.mp hjar]), hrest]
    · rw [if_neg hjar, List.find?_cons_of_pos (by simpa [isFree, hzero] using hjar), Option.map_some]

/-- One round goes through all cookies. -/
theorem bakeCookie_eq (h : jar.nextFreeCookie ≤ maxCookie) :
    jar.bakeCookie (2 ^ 32) jar.nextFreeCookie = ((Wrapping.round 0 maxCookie jar.nextFreeCookie).find? jar.isFree).map
      fun cookie => (cookie, Wrapping.next 0 maxCookie cookie) := by
  have hfrom := jar.bakeCookie_from jar.nextFreeCookie (2 ^ 32) 0
  rw [Wrapping.nth_zero ⟨Nat.zero_le _, h⟩, ← List.range_eq_range'] at hfrom
  exact hfrom

/-- What is new after `pick_cookie_for_work`. -/
structure Picked (jar jar' : CookieJar W) (work : W) (cookie : ℕ) : Prop where
  positive : 0 < cookie
  le : cookie ≤ maxCookie
  new : cookie ∉ jar.workByCookie
  works : jar'.workByCookie = jar.workByCookie.insert cookie work
  next : jar'.nextFreeCookie ≤ maxCookie

theorem pickCookieForWork_picks (h : jar.nextFreeCookie ≤ maxCookie) {jar' : CookieJar W}
    (hpick : jar.pickCookieForWork work = some (cookie, jar')) : Picked jar jar' work cookie := by
  rw [pickCookieForWork, bakeCookie_eq h, Option.map_map, Option.map_eq_some_iff] at hpick
  obtain ⟨cookie, hfind, hpick⟩ := hpick
  cases hpick
  have hmem := (Wrapping.mem_round ⟨Nat.zero_le _, h⟩).mp (List.mem_of_find?_eq_some hfind)
  have hfree := List.find?_some hfind
  rw [isFree, Bool.and_eq_true, decide_eq_true_iff, Option.isNone_iff_eq_none] at hfree
  refine ⟨Nat.pos_of_ne_zero hfree.1, hmem.2, AList.lookup_eq_none.mp hfree.2, ?_,
    (Wrapping.next_mem (Nat.zero_le _) hmem).2⟩
  dsimp only [Function.comp_apply]
  rw [emplace, hfree.2]
  rfl

/-- The jar is not full. -/
theorem exists_isFree (h : jar.workByCookie.entries.length < maxCookie) :
    ∃ cookie ≤ maxCookie, jar.isFree cookie = true := by
  have hkeys : jar.workByCookie.keys.toFinset.card ≤ jar.workByCookie.entries.length :=
    (List.toFinset_card_le _).trans (List.length_map _).le
  have hcard : jar.workByCookie.keys.toFinset.card < (Finset.Icc 1 maxCookie).card := by
    rw [Nat.card_Icc]
    omega
  obtain ⟨cookie, hmem, hnew⟩ := Finset.exists_mem_notMem_of_card_lt_card hcard
  rw [Finset.mem_Icc] at hmem
  rw [List.mem_toFinset, ← AList.mem_keys, ← AList.lookup_eq_none] at hnew
  refine ⟨cookie, hmem.2, ?_⟩
  rw [isFree, hnew, decide_eq_true (by omega)]
  rfl

theorem pickCookieForWork_returns (h : jar.nextFreeCookie ≤ maxCookie) (work : W)
    (hsize : jar.workByCookie.entries.length < maxCookie) : ∃ r, jar.pickCookieForWork work = some r := by
  obtain ⟨cookie, hle, hfree⟩ := exists_isFree hsize
  have hsome := List.find?_isSome.mpr
    ⟨cookie, (Wrapping.mem_round ⟨Nat.zero_le jar.nextFreeCookie, h⟩).mpr ⟨Nat.zero_le _, hle⟩, hfree⟩
  obtain ⟨cookie', hfind⟩ := Option.isSome_iff_exists.mp hsome
  rw [pickCookieForWork, bakeCookie_eq h, hfind, Option.map_some, Option.map_some]
  exact ⟨_, rfl⟩

end CookieJar

/-- The cookie jar and its works, and the calls for which the jar is not locked. -/
structure JarState (W : Type) where
  jar : CookieJar W
  workState : W → WorkState
  /-- The cookie in the done notification function of a work. -/
  doneCookie : W → Option ℕ
  /-- The calls of `try_eat` which have found their work. -/
  eating : List (ℕ × W)
  /-- The calls of `cookie_not_wanted` which have found their work. -/
  unwanted : List W
  /-- The calls of `work_done_notification` which are about to lock the jar, with `has_completed`. -/
  ending : List (ℕ × Bool)

inductive JarLabel (W : Type)
  /-- `pick_cookie_for_work` hands out the cookie. -/
  | pickCookieForWork (work : W) (cookie : ℕ)
  | tryEat (cookie : ℕ) (isWorkType : W → Bool)
  /-- `try_eat` has the result, and erases the cookie. -/
  | eaten (cookie : ℕ) (work : W)
  /-- `try_eat` leaves with an exception. -/
  | notEaten (cookie : ℕ) (work : W)
  | cookieNotWanted (cookie : ℕ)
  /-- `cookie_not_wanted` cancels its work. -/
  | cancelUnwanted (work : W)
  /-- Some other part of the program cancels the work. -/
  | cancel (work : W)
  | run (work : W)
  /-- `do_run` returns. -/
  | returns (work : W) (success : Bool)
  | workDone (cookie : ℕ) (hasCompleted : Bool)

/-- The cookie that is erased from the jar. -/
def JarLabel.erases : JarLabel W → Option ℕ
  | .eaten cookie _ => some cookie
  | .workDone cookie hasCompleted => if hasCompleted then none else some cookie
  | _ => none

namespace JarState

variable [DecidableEq W] {s s' : JarState W} {labels : List (JarLabel W)} {l : JarLabel W} {cookie : ℕ} {work : W}

/-- No cookie has been picked yet. -/
def init : JarState W := ⟨.init, fun _ => .runnable, fun _ => none, [], [], []⟩

/-- `Work::set_work_state`. The work calls its notification function in a final state. -/
def setWorkState (s : JarState W) (work : W) (state : WorkState) : JarState W := { s with
  workState := Function.update s.workState work state
  ending :=
    if s.workState work ≠ state ∧ state.isFinal then
      ((s.doneCookie work).map fun cookie => (cookie, decide (state = .done))).toList ++ s.ending
    else s.ending }

/-- `Work::cancel`. -/
def cancelWork (s : JarState W) (work : W) : JarState W :=
  match s.workState work with
  | .runnable => s.setWorkState work .canceled
  | .running => s.setWorkState work .canceling
  | .canceling | .done | .canceled => s

/-- The end of `Work::run`. -/
def runReturns (s : JarState W) (work : W) (success : Bool) : Option (JarState W) :=
  match s.workState work with
  | .running => some (s.setWorkState work (if success then .done else .canceled))
  | .canceling => some (s.setWorkState work .canceled)
  | .runnable | .done | .canceled => none

/-- The state after a step, if the step is possible. -/
def next (s : JarState W) : JarLabel W → Option (JarState W)
  | .pickCookieForWork work cookie => do
    let (baked, jar) ← s.jar.pickCookieForWork work
    if baked = cookie then
      some { s with
        jar := jar
        doneCookie := Function.update s.doneCookie work (some cookie) }
    else none
  | .tryEat cookie isWorkType =>
    match s.jar.findWork cookie isWorkType with
    | .error _ => some s
    | .ok work => some { s with eating := (cookie, work) :: s.eating }
  | .eaten cookie work =>
    if (cookie, work) ∈ s.eating then
      some { s with
        jar := s.jar.erase cookie
        eating := s.eating.erase (cookie, work) }
    else none
  | .notEaten cookie work =>
    if (cookie, work) ∈ s.eating then some { s with eating := s.eating.erase (cookie, work) } else none
  | .cookieNotWanted cookie => some { s with unwanted := (s.jar.workByCookie.lookup cookie).toList ++ s.unwanted }
  | .cancelUnwanted work =>
    if work ∈ s.unwanted then some { s.cancelWork work with unwanted := s.unwanted.erase work } else none
  | .cancel work => some (s.cancelWork work)
  | .run work => if s.workState work = .runnable then some (s.setWorkState work .running) else none
  | .returns work success => s.runReturns work success
  | .workDone cookie hasCompleted =>
    if (cookie, hasCompleted) ∈ s.ending then
      some { s with
        jar := s.jar.workDone cookie hasCompleted
        ending := s.ending.erase (cookie, hasCompleted) }
    else none

def Step (s : JarState W) (l : JarLabel W) (s' : JarState W) : Prop := s.next l = some s'

/-! ## Runs -/

/-- What a step may do to the jar. -/
inductive JarChange (jar : CookieJar W) : JarLabel W → CookieJar W → Prop
  | picks {work : W} {cookie : ℕ} {jar' : CookieJar W} :
      jar.pickCookieForWork work = some (cookie, jar') → JarChange jar (.pickCookieForWork work cookie) jar'
  | keeps {l : JarLabel W} : JarChange jar l jar
  | erases {l : JarLabel W} {cookie : ℕ} : l.erases = some cookie → JarChange jar l (jar.erase cookie)

@[simp] theorem setWorkState_jar (s : JarState W) (work : W) (state : WorkState) :
    (s.setWorkState work state).jar = s.jar := rfl

@[simp] theorem cancelWork_jar (s : JarState W) (work : W) : (s.cancelWork work).jar = s.jar := by
  unfold cancelWork
  split <;> rfl

theorem runReturns_jar {success : Bool} (h : s.runReturns work success = some s') : s'.jar = s.jar := by
  unfold runReturns at h
  split at h <;> cases h <;> rfl

theorem step_pick (h : Step s (.pickCookieForWork work cookie) s') :
    s.jar.pickCookieForWork work = some (cookie, s'.jar) := by
  obtain ⟨⟨baked, jar⟩, hpick, h⟩ := Option.bind_eq_some_iff.mp h
  dsimp only at h
  split at h
  · next hbaked =>
    cases h
    exact hbaked ▸ hpick
  · cases h

theorem step_jar (h : Step s l s') : JarChange s.jar l s'.jar := by
  unfold Step at h
  cases l with
  | pickCookieForWork work cookie => exact .picks (step_pick h)
  | tryEat cookie isWorkType =>
    simp only [next] at h
    split at h <;> cases h <;> exact .keeps
  | eaten cookie work =>
    simp only [next] at h
    split at h <;> cases h
    exact .erases rfl
  | notEaten cookie work =>
    simp only [next] at h
    split at h <;> cases h
    exact .keeps
  | cookieNotWanted cookie =>
    cases h
    exact .keeps
  | cancelUnwanted work =>
    simp only [next] at h
    split at h <;> cases h
    exact s.cancelWork_jar work ▸ .keeps
  | cancel work =>
    cases h
    exact s.cancelWork_jar work ▸ .keeps
  | run work =>
    simp only [next] at h
    split at h <;> cases h
    exact .keeps
  | returns work success => exact runReturns_jar h ▸ .keeps
  | workDone cookie hasCompleted =>
    simp only [next] at h
    split at h <;> cases h
    dsimp only
    unfold CookieJar.workDone
    split
    · next herase =>
      have hcanceled : hasCompleted = false := by simpa using (Bool.and_eq_true_iff.mp herase).2
      exact .erases (by rw [JarLabel.erases, hcanceled, if_neg Bool.false_ne_true])
    · exact .keeps

/-- The counter has 32 bits. -/
theorem run_nextFreeCookie (hrun : Run Step init labels s) : s.jar.nextFreeCookie ≤ CookieJar.maxCookie := by
  have hone : 1 ≤ CookieJar.maxCookie := by decide
  refine hrun.invariant (P := fun s : JarState W => s.jar.nextFreeCookie ≤ CookieJar.maxCookie) ?_ hone
  intro s₁ l s₂ h₁ hstep
  have hjar := step_jar hstep
  generalize s₂.jar = jar at hjar ⊢
  cases hjar with
  | picks hpick => exact (CookieJar.pickCookieForWork_picks h₁ hpick).next
  | keeps => exact h₁
  | erases _ => exact h₁

/-- A step that does not erase the cookie keeps its work. -/
theorem step_lookup (hnext : s.jar.nextFreeCookie ≤ CookieJar.maxCookie) (hstep : Step s l s')
    (hl : l.erases ≠ some cookie) (h : s.jar.workByCookie.lookup cookie = some work) :
    s'.jar.nextFreeCookie ≤ CookieJar.maxCookie ∧ s'.jar.workByCookie.lookup cookie = some work := by
  have hjar := step_jar hstep
  generalize s'.jar = jar at hjar ⊢
  cases hjar with
  | picks hpick =>
    have hpicked := CookieJar.pickCookieForWork_picks hnext hpick
    refine ⟨hpicked.next, ?_⟩
    -- the new cookie is another one
    rw [hpicked.works, AList.lookup_insert_ne, h]
    rintro rfl
    rw [AList.lookup_eq_none.mpr hpicked.new] at h
    cases h
  | keeps => exact ⟨hnext, h⟩
  | erases herases =>
    refine ⟨hnext, (AList.lookup_erase_ne ?_).trans h⟩
    rintro rfl
    exact hl herases

/-- Whenever a cookie is handed out, it is not 0 and not in the jar, and it stands for its work until it is erased. -/
theorem cookies_unique (hrun : Run Step init labels s) :
    (∀ work cookie s', Step s (.pickCookieForWork work cookie) s' →
      (0 < cookie ∧ cookie < 2 ^ 32 ∧ cookie ∉ s.jar.workByCookie) ∧
        ∀ labels' s'', Run Step s' labels' s'' → (∀ l ∈ labels', l.erases ≠ some cookie) →
          s''.jar.workByCookie.lookup cookie = some work) ∧
      (s.jar.workByCookie.entries.length < 2 ^ 32 - 1 →
        ∀ work, ∃ cookie s', Step s (.pickCookieForWork work cookie) s') := by
  have hnext := run_nextFreeCookie hrun
  refine ⟨fun work cookie s' hstep => ?_, fun hsize work => ?_⟩
  · have hpicked := CookieJar.pickCookieForWork_picks hnext (step_pick hstep)
    have hlt : cookie < 2 ^ 32 := Nat.lt_of_le_pred (by decide) hpicked.le
    refine ⟨⟨hpicked.positive, hlt, hpicked.new⟩, fun labels' s'' hrun' hlabels => ?_⟩
    have hfirst : s'.jar.workByCookie.lookup cookie = some work := by rw [hpicked.works, AList.lookup_insert]
    refine ((hrun'.when_of_forall hlabels).invariant (P := fun s : JarState W =>
      s.jar.nextFreeCookie ≤ CookieJar.maxCookie ∧ s.jar.workByCookie.lookup cookie = some work) ?_
        ⟨hpicked.next, hfirst⟩).2
    rintro s₁ l s₂ ⟨h₁, hlookup⟩ ⟨hl, hs⟩
    exact step_lookup h₁ hs hl hlookup
  · obtain ⟨⟨cookie, jar⟩, hpick⟩ := CookieJar.pickCookieForWork_returns hnext work hsize
    refine ⟨cookie, { s with
      jar := jar
      doneCookie := Function.update s.doneCookie work (some cookie) }, ?_⟩
    rw [Step, next, hpick]
    exact if_pos rfl

theorem run_of_exec {s₀ : JarState W} {Q : JarState W → Bool}
    (h : (exec JarState.next (fun _ _ => True) labels s₀).any Q = true) : ∃ s, Run Step s₀ labels s ∧ Q s = true := by
  obtain ⟨s, hrun, hQ⟩ := Run.of_exec_any (fun _ _ _ hs => hs) h
  exact ⟨s, hrun.of_when, hQ⟩

/-- Two works are given cookies, and the first one is canceled. -/
theorem cookies_unique_two : ∃ s : JarState ℕ, s.jar.workByCookie.lookup 2 = some 8 ∧
    (∀ work cookie s', Step s (.pickCookieForWork work cookie) s' →
      (0 < cookie ∧ cookie < 2 ^ 32 ∧ cookie ∉ s.jar.workByCookie) ∧
        ∀ labels' s'', Run Step s' labels' s'' → (∀ l ∈ labels', l.erases ≠ some cookie) →
          s''.jar.workByCookie.lookup cookie = some work) ∧
      (s.jar.workByCookie.entries.length < 2 ^ 32 - 1 →
        ∀ work, ∃ cookie s', Step s (.pickCookieForWork work cookie) s') := by
  have hexec : (exec JarState.next (fun _ _ => True)
      [.pickCookieForWork 7 1, .pickCookieForWork 8 2, .cookieNotWanted 1, .cancelUnwanted 7, .workDone 1 false]
      (init : JarState ℕ)).any (fun s => s.jar.workByCookie.lookup 2 = some 8) = true := by decide +kernel
  obtain ⟨s, hrun, hwork⟩ := run_of_exec hexec
  exact ⟨s, of_decide_eq_true hwork, cookies_unique hrun⟩

end JarState

end Listbrokers.Async
