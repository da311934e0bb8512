import Mathlib.Data.Nat.Notation
import Mathlib.Tactic.Common

/-!
# The reply path of an asynchronous work

`ReplyPathTracker` of `dbus_async_work.hh` decides which of two parties answers
a D-Bus client: the handler that waits for the work, or the notification sent
when the work is done. Its member functions are functions on `ReplyPath`; what
they do in a state they were not made for (`MSG_BUG` in the source) is to leave
the path as it is.

`tryTakeFastPath` is `none` where the source waits in `synchronize` for the
path to become `waiting`.
-/

namespace Listbrokers.Async

/-- `ReplyPathTracker::ReplyPath`. -/
inductive ReplyPath
  | none
  | scheduled
  | waiting
  | fastPath
  | slowPathEntered
  | slowPathCookieSent
  | slowPathReadyNotified
  | slowPathFetching
  deriving DecidableEq, Repr

/-- `ReplyPathTracker::TakePathResult`. -/
inductive TakePathResult
  | taken
  | alreadyOnFastPath
  | alreadyOnSlowPathCookieNotAnnouncedYet
  | alreadyOnSlowPathCookieAnnounced
  | alreadyOnSlowPathReadyAnnounced
  | alreadyOnSlowPathFetching
  | invalid
  deriving DecidableEq, Repr

namespace ReplyPath

/-- `try_take_fast_path`, with the new path; `none` while it has to wait in `synchronize`. -/
def tryTakeFastPath : ReplyPath → Option (TakePathResult × ReplyPath)
  | .none => some (.invalid, .none)
  | .scheduled => Option.none
  | .waiting => some (.taken, .fastPath)
  | .fastPath => some (.alreadyOnFastPath, .fastPath)
  | .slowPathEntered => some (.alreadyOnSlowPathCookieNotAnnouncedYet, .slowPathEntered)
  | .slowPathCookieSent => some (.alreadyOnSlowPathCookieAnnounced, .slowPathCookieSent)
  | .slowPathReadyNotified => some (.alreadyOnSlowPathReadyAnnounced, .slowPathReadyNotified)
  | .slowPathFetching => some (.alreadyOnSlowPathFetching, .slowPathFetching)

/-- `try_take_slow_path`. -/
def tryTakeSlowPath : ReplyPath → TakePathResult × ReplyPath
  | .none => (.invalid, .none)
  | .scheduled => (.taken, .slowPathEntered)
  | .waiting => (.taken, .slowPathEntered)
  | .fastPath => (.alreadyOnFastPath, .fastPath)
  | .slowPathEntered => (.alreadyOnSlowPathCookieNotAnnouncedYet, .slowPathEntered)
  | .slowPathCookieSent => (.alreadyOnSlowPathCookieAnnounced, .slowPathCookieSent)
  | .slowPathReadyNotified => (.alreadyOnSlowPathReadyAnnounced, .slowPathReadyNotified)
  | .slowPathFetching => (.alreadyOnSlowPathFetching, .slowPathFetching)

/-- `slow_path_cookie_sent_to_client`. -/
def slowPathCookieSentToClient : ReplyPath → ReplyPath
  | .slowPathEntered => .slowPathCookieSent
  | p => p

/-- `slow_path_ready_notified_client`. -/
def slowPathReadyNotifiedClient : ReplyPath → ReplyPath
  | .slowPathCookieSent => .slowPathReadyNotified
  | p => p

/-- `set_scheduled_for_execution`. -/
def setScheduledForExecution : ReplyPath → ReplyPath
  | .none => .scheduled
  | p => p

/-- `set_waiting_for_result`. -/
def setWaitingForResult : ReplyPath → ReplyPath
  | .scheduled => .waiting
  | .slowPathReadyNotified => .slowPathFetching
  | p => p

/-! ## Where the paths lead -/

variable {p q : ReplyPath} {took : TakePathResult}

/-- Waiting for a result leaves the scheduled path for the wait, and the announced one for the fetch. -/
@[grind .] theorem setWaitingForResult_cases (p : ReplyPath) :
    (p = .scheduled ∧ p.setWaitingForResult = .waiting) ∨
      (p = .slowPathReadyNotified ∧ p.setWaitingForResult = .slowPathFetching) ∨
      (p ≠ .scheduled ∧ p ≠ .slowPathReadyNotified ∧ p.setWaitingForResult = p) := by
  cases p <;> decide

@[grind .] theorem setScheduledForExecution_cases (p : ReplyPath) :
    (p = .none ∧ p.setScheduledForExecution = .scheduled) ∨ (p ≠ .none ∧ p.setScheduledForExecution = p) := by
  cases p <;> decide

@[grind .] theorem slowPathReadyNotifiedClient_cases (p : ReplyPath) :
    (p = .slowPathCookieSent ∧ p.slowPathReadyNotifiedClient = .slowPathReadyNotified) ∨
      (p ≠ .slowPathCookieSent ∧ p.slowPathReadyNotifiedClient = p) := by
  cases p <;> decide

/-- The path once an eater has given up waiting and announced the cookie. -/
def afterTimeout : ReplyPath → ReplyPath
  | .scheduled | .waiting | .slowPathEntered => .slowPathCookieSent
  | p => p

/-- Nothing is undecided after a timeout. -/
@[grind .] theorem afterTimeout_cases (p : ReplyPath) :
    ((p = .scheduled ∨ p = .waiting ∨ p = .slowPathEntered) ∧ p.afterTimeout = .slowPathCookieSent) ∨
      (p ≠ .scheduled ∧ p ≠ .waiting ∧ p ≠ .slowPathEntered ∧ p.afterTimeout = p) := by
  cases p <;> decide

theorem tryTakeSlowPath_fast (h : p.tryTakeSlowPath = (.alreadyOnFastPath, q)) : p = .fastPath ∧ q = p := by
  cases p <;> simp_all [tryTakeSlowPath]

theorem tryTakeSlowPath_slow (h : p.tryTakeSlowPath = (took, q)) (ht : took ≠ .alreadyOnFastPath) :
    p ≠ .fastPath ∧ q.slowPathCookieSentToClient = p.afterTimeout := by
  cases p <;> injection h with h₁ h₂ <;> subst h₁ h₂ <;> simp_all [afterTimeout, slowPathCookieSentToClient]

end ReplyPath

end Listbrokers.Async
