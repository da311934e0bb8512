import Listbrokers.Framework.Lts
import Listbrokers.Upnp.ServersLostAndFound

/-!
# Discovery of UPnP servers

`UPnP::ServerList` as servers are found and lost. A proxy is created
asynchronously for each server that has been found; the creation may fail to
start, and GLib reports each one that has been started once, in order per path,
no matter if it has been cancelled. Of a server only the object path of its
proxy is kept here.

In a run, `ServersLostAndFound` keeps track of the creations (`Tracked`) exactly
as long as all of them start: a creation that does not start leaves its entry
behind.
-/

namespace Listbrokers.Upnp

open Framework

/-- What comes of the creation of a proxy. -/
inductive Outcome
  | failed
  | connected (isLocal usable : Bool)
  deriving DecidableEq, Repr

inductive Event
  /-- A server has been found, and the creation of its proxy has been started or not. -/
  | found (path : String) (started : Bool)
  /-- A server has been lost. -/
  | lost (path : String)
  /-- The oldest creation for a path ends. -/
  | completed (path : String) (outcome : Outcome)
  deriving DecidableEq, Repr

/-- The creation of a proxy has been started if there is one. -/
def Event.starts : Event → Bool
  | found _ started => started
  | lost _ => true
  | completed _ _ => true

/-- `RemoveFromListResult`. -/
inductive RemoveFromListResult
  | notFound
  | removed
  | notAddedYet
  deriving DecidableEq, Repr

/-- The server list, the creations whose end has not been reported yet, and what `server_processed` has reported. -/
structure Discovery where
  serversLostAndFound : ServersLostAndFound
  servers : List String
  inFlight : String → List ℕ
  reports : List Report

namespace Discovery

def init : Discovery := ⟨⟨0, fun _ => none⟩, [], fun _ => [], []⟩

variable (s : Discovery) (path : String)

/-- `ServerList::add_to_list`. -/
def addToList (started : Bool) : Discovery :=
  let (data, lostAndFound) := s.serversLostAndFound.serverFound path
  { s with
    serversLostAndFound := lostAndFound
    inFlight := if started then Function.update s.inFlight path (s.inFlight path ++ [data.number]) else s.inFlight }

/-- `ServerList::remove_from_list`. -/
def removeFromList : RemoveFromListResult × Discovery :=
  let (cancelled, lostAndFound) := s.serversLostAndFound.serverLost path
  if path ∈ s.servers then
    (.removed, { s with serversLostAndFound := lostAndFound, servers := s.servers.erase path })
  else (if cancelled then .notAddedYet else .notFound, { s with serversLostAndFound := lostAndFound })

/-- `ServerList::media_device_proxy_connected`, for the creation that has been announced as the given one. -/
def mediaDeviceProxyConnected (number : ℕ) (outcome : Outcome) : Discovery :=
  let servers :=
    match outcome with
    | .failed => s.servers
    | .connected isLocal usable =>
      if path ∈ s.servers then s.servers
      else if isLocal then s.servers
      else if usable = false then s.servers
      else s.servers ++ [path]
  let (report, lostAndFound) := s.serversLostAndFound.serverProcessed path number
  { s with serversLostAndFound := lostAndFound, servers := servers, reports := s.reports ++ report.toList }

/-- What an event leads to, if it can happen. -/
def next : Event → Option Discovery
  | .found path started => some (s.addToList path started)
  | .lost path => some (s.removeFromList path).2
  | .completed path outcome =>
    match s.inFlight path with
    | [] => none
    | number :: rest =>
      some ({ s with inFlight := Function.update s.inFlight path rest }.mediaDeviceProxyConnected path number outcome)

def Step (s : Discovery) (e : Event) (s' : Discovery) : Prop := s.next e = some s'

/-- The bookkeeping agrees with the creations that are in flight. -/
structure Tracked : Prop where
  queue : ∀ path, (s.serversLostAndFound.queueOf path).map (·.number) = s.inFlight path
  cancelled : ∀ path, ∀ data ∈ (s.serversLostAndFound.queueOf path).dropLast, data.cancelled = true
  entry : ∀ path, s.inFlight path = [] → s.serversLostAndFound.serverAddedQueues path = none
  reports : s.reports = []

variable {s} {s' : Discovery} {path} {events : List Event}

theorem tracked_init : init.Tracked := ⟨fun _ => rfl, fun _ _ h => absurd h List.not_mem_nil, fun _ _ => rfl, rfl⟩

open ServersLostAndFound

theorem queueOf_update (t : ServersLostAndFound) (queue : Option (List AddToListData)) (number : ℕ) (other : String) :
    queueOf ⟨number, Function.update t.serverAddedQueues path queue⟩ other =
      if other = path then queue.getD [] else t.queueOf other := by
  unfold queueOf
  by_cases e : other = path
  · subst e
    simp
  · simp [e]

theorem Tracked.addToList (h : s.Tracked) : (s.addToList path true).Tracked := by
  have hqueue : (s.serversLostAndFound.serverAddedQueues path).getD [] = s.serversLostAndFound.queueOf path := rfl
  refine ⟨fun other => ?_, fun other => ?_, fun other hother => ?_, h.reports⟩
  · simp only [Discovery.addToList, serverFound, queueOf_update, if_true, hqueue]
    by_cases e : other = path
    · subst e
      simp [map_number_cancelBack, h.queue]
    · simp [e, h.queue]
  · simp only [Discovery.addToList, serverFound, queueOf_update, hqueue]
    by_cases e : other = path
    · subst e
      simpa using cancelled_cancelBack (h.cancelled other)
    · simpa [e] using h.cancelled other
  · simp only [Discovery.addToList, serverFound, if_true] at hother ⊢
    by_cases e : other = path
    · subst e
      simp at hother
    · rw [Function.update_of_ne e] at hother ⊢
      exact h.entry other hother

theorem Tracked.serverLost (h : s.Tracked) (servers : List String) :
    ({ s with serversLostAndFound := (s.serversLostAndFound.serverLost path).2, servers := servers } :
      Discovery).Tracked := by
  unfold ServersLostAndFound.serverLost
  split
  · exact ⟨h.queue, h.cancelled, h.entry, h.reports⟩
  · next queue hqueue =>
    split
    · exact ⟨h.queue, h.cancelled, h.entry, h.reports⟩
    · next data hlast =>
      have hqueueOf : s.serversLostAndFound.queueOf path = queue := by rw [queueOf, hqueue, Option.getD_some]
      refine ⟨fun other => ?_, fun other => ?_, fun other hother => ?_, h.reports⟩
      · simp only [queueOf_update]
        by_cases e : other = path
        · subst e
          simp [map_number_cancelBack, ← hqueueOf, h.queue]
        · simp [e, h.queue]
      · simp only [queueOf_update]
        by_cases e : other = path
        · subst e
          simp only [if_true, Option.getD_some]
          exact fun d hd => cancelled_cancelBack (hqueueOf ▸ h.cancelled other) d (List.dropLast_subset _ hd)
        · simpa [e] using h.cancelled other
      · have hne : other ≠ path := fun e => by
          subst e
          have := h.entry other hother
          rw [hqueue] at this
          cases this
        simp only [Function.update_of_ne hne]
        exact h.entry other hother

/-- The end of the oldest creation for a path. -/
theorem Tracked.mediaDeviceProxyConnected {number : ℕ} {rest : List ℕ} {outcome : Outcome} (h : s.Tracked)
    (hflight : s.inFlight path = number :: rest) :
    ({ s with inFlight := Function.update s.inFlight path rest }.mediaDeviceProxyConnected path number
      outcome).Tracked := by
  obtain ⟨front, queue, hqueue, rfl, hrest⟩ : ∃ front queue, s.serversLostAndFound.queueOf path = front :: queue ∧
      front.number = number ∧ queue.map (·.number) = rest := by
    have := (h.queue path).trans hflight
    exact List.map_eq_cons_iff.mp this
  have hentry : s.serversLostAndFound.serverAddedQueues path = some (front :: queue) := by
    unfold queueOf at hqueue
    cases hq : s.serversLostAndFound.serverAddedQueues path with
    | none =>
      rw [hq] at hqueue
      cases hqueue
    | some q =>
      rw [hq, Option.getD_some] at hqueue
      rw [hqueue]
  have hprocessed : s.serversLostAndFound.serverProcessed path front.number =
      (none, s.serversLostAndFound.setQueue path queue) := by
    rw [serverProcessed, hentry]
    exact if_pos rfl
  have hgetD : (if queue = [] then none else some queue).getD [] = queue := by
    split
    · next e => rw [e]; rfl
    · rfl
  refine ⟨fun other => ?_, fun other => ?_, fun other hother => ?_, ?_⟩
  · simp only [Discovery.mediaDeviceProxyConnected, hprocessed, setQueue, queueOf_update, hgetD]
    by_cases e : other = path
    · subst e
      simp [hrest]
    · simp [e, h.queue]
  · simp only [Discovery.mediaDeviceProxyConnected, hprocessed, setQueue, queueOf_update, hgetD]
    by_cases e : other = path
    · subst e
      intro data hdata
      rw [if_pos rfl] at hdata
      refine h.cancelled other data ?_
      rw [hqueue, List.dropLast_cons_of_ne_nil fun e => by rw [e] at hdata; cases hdata]
      exact List.mem_cons_of_mem _ hdata
    · simpa [e] using h.cancelled other
  · simp only [Discovery.mediaDeviceProxyConnected, hprocessed, setQueue] at hother ⊢
    by_cases e : other = path
    · subst e
      rw [Function.update_self] at hother ⊢
      rw [← hrest, List.map_eq_nil_iff] at hother
      exact if_pos hother
    · rw [Function.update_of_ne e] at hother ⊢
      exact h.entry other hother
  · simp [Discovery.mediaDeviceProxyConnected, hprocessed, h.reports]

theorem Tracked.step {e : Event} (h : s.Tracked) (he : e.starts = true) (hstep : Step s e s') : s'.Tracked := by
  cases e with
  | found path started =>
    cases hstep
    obtain rfl : started = true := he
    exact h.addToList
  | lost path =>
    cases hstep
    unfold removeFromList
    dsimp only
    split
    · exact h.serverLost _
    · exact h.serverLost _
  | completed path outcome =>
    change (match s.inFlight path with
      | [] => none
      | number :: rest => some _) = some s' at hstep
    split at hstep
    · cases hstep
    · next number rest hflight =>
      cases hstep
      exact h.mediaDeviceProxyConnected hflight

/-- A creation that does not start leaves an entry behind. -/
theorem not_tracked_addToList (h : s.Tracked) : ¬ (s.addToList path false).Tracked := fun h' => by
  have hqueue := h'.queue path
  have hqueueOf : (s.serversLostAndFound.serverAddedQueues path).getD [] = s.serversLostAndFound.queueOf path := rfl
  simp only [Discovery.addToList, serverFound, queueOf_update, if_true, Option.getD_some, hqueueOf, List.map_append,
    map_number_cancelBack, h.queue] at hqueue
  simpa using congrArg List.length hqueue

/-- After a creation that has not started, the next one for the server is not the first in the queue. -/
theorem failed_start_leaves_entry : ∃ s, Run Step init
    [.found "/server/1" false, .found "/server/1" true, .completed "/server/1" (.connected false true)] s ∧
      s.reports = [.notFirst] ∧ s.inFlight "/server/1" = [] ∧
      s.serversLostAndFound.queueOf "/server/1" = [⟨0, true⟩] ∧ ¬ s.Tracked := by
  refine ⟨_, .cons rfl (.cons rfl (.cons rfl (.nil _))), by decide, by decide, by decide, fun h => ?_⟩
  exact absurd h.reports (by decide)

/-- The creations are tracked in all states of a run if and only if all of them start. -/
theorem tracked_iff (h : Run Step init events s) :
    (∀ prior s', prior <+: events → Run Step init prior s' → s'.Tracked) ↔ ∀ e ∈ events, e.starts = true := by
  constructor
  · intro htracked e he
    by_contra hstart
    obtain ⟨before, after, rfl⟩ := List.append_of_mem he
    obtain ⟨s₁, hbefore, hafter⟩ := h.of_append
    cases hafter with
    | @cons _ s₂ _ _ _ hstep _ =>
      have h₁ := htracked before s₁ (List.prefix_append _ _) hbefore
      have h₂ := htracked (before ++ [e]) s₂ ⟨after, by simp⟩ (hbefore.snoc hstep)
      cases e with
      | found path started =>
        cases hstep
        obtain rfl : started = false := by simpa [Event.starts] using hstart
        exact not_tracked_addToList h₁ h₂
      | lost _ => exact hstart rfl
      | completed _ _ => exact hstart rfl
  · rintro hstarts prior s' ⟨after, rfl⟩ hprior
    exact (hprior.when_of_forall fun e he => hstarts e (List.mem_append_left _ he)).invariant
      (P := Tracked) (fun _ _ _ hs hstep => hs.step hstep.1 hstep.2) tracked_init

/-- A server is found twice, lost, and found once more before the first creation ends. -/
def exampleEvents : List Event :=
  [.found "/server/1" true, .found "/server/1" true, .lost "/server/1", .found "/server/1" true,
    .completed "/server/1" .failed, .completed "/server/1" .failed, .completed "/server/1" (.connected false true)]

theorem tracked_example : ∃ s : Discovery, s.servers = ["/server/1"] ∧
    ∀ prior s', prior <+: exampleEvents → Run Step init prior s' → s'.Tracked := by
  obtain ⟨s, hrun, hs⟩ := Run.of_exec_any (fun _ _ _ h => h : ∀ s e s', next s e = some s' → Step s e s')
    (show (exec next (fun _ _ => True) exampleEvents init).any (fun s => s.servers = ["/server/1"]) = true by decide)
  exact ⟨s, of_decide_eq_true hs, (tracked_iff hrun.of_when).mpr (by decide)⟩

end Discovery

end Listbrokers.Upnp
