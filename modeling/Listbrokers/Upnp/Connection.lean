import Listbrokers.Upnp.Discovery

/-!
# The connection to dLeyna

`DBusUPnPData` follows dLeyna as it vanishes and is reached again.
`UPnP::PeriodicRescan` is enabled as long as there is a proxy for its manager, and
`UPnP::ListTree` learns about servers from the signals of the proxy.

A D-Bus call keeps its proxy alive until it is done. A rescan that is still running
when dLeyna vanishes is done some time later, and signals may be received through its
proxy in the meantime.

* There is one timer while there is a proxy, and none otherwise (`connection_sound`).
* `PeriodicRescan` knows whether a rescan is running exactly as long as no rescan is
  running when dLeyna is reached again (`rescans_bookkept_iff`).
* The creations for the servers are tracked exactly as long as no server is found
  while there is no proxy (`creations_tracked_iff`).
-/

namespace Listbrokers.Upnp

open Framework

/-- `UPnP::PeriodicRescan`. -/
structure PeriodicRescan where
  isInhibited : Bool
  timeoutId : ℕ
  deriving DecidableEq, Repr

/-- What `PeriodicRescan` complains about. -/
inductive Complaint
  | alreadyEnabled
  | alreadyDisabled
  | noConnection
  deriving DecidableEq, Repr

/-- `DBusUPnPData`, the periodic rescan, and the servers. A proxy is known by how many have been created before it. -/
structure Connection where
  isConnecting : Bool
  dleynaserverManagerIface : Option ℕ
  nextProxy : ℕ
  periodicRescan : PeriodicRescan
  /-- The timeout sources that are attached to the main loop. -/
  sources : List ℕ
  /-- The proxies of the rescans that are running. -/
  rescans : List ℕ
  complaints : List Complaint
  discovery : Discovery

inductive ConnectionEvent
  /-- D-Bus reports that nobody owns the name of dLeyna. -/
  | vanished
  /-- The creation of the proxy ends. If it has been created, the new timeout source gets this ID. -/
  | created (sourceId : Option ℕ)
  /-- A timeout source fires. -/
  | timeout (sourceId : ℕ)
  | rescanDone (idx : ℕ)
  /-- The signal `FoundServer` is received through a proxy. -/
  | foundServer (proxy : ℕ) (path : String)
  /-- The signal `LostServer` is received through a proxy. -/
  | lostServer (proxy : ℕ) (path : String)
  /-- The oldest creation of a proxy for a server ends. -/
  | completed (path : String) (outcome : Outcome)
  deriving DecidableEq, Repr

namespace Connection

def init : Connection := ⟨false, none, 0, ⟨false, 0⟩, [], [], [], .init⟩

variable (s : Connection)

def complain (complaint : Complaint) : Connection := { s with complaints := s.complaints ++ [complaint] }

/-- `PeriodicRescan::enable`. -/
def enable (sourceId : ℕ) : Connection :=
  if 0 < s.periodicRescan.timeoutId then s.complain .alreadyEnabled
  else
    { s with
      periodicRescan := ⟨false, sourceId⟩
      sources := s.sources ++ [sourceId] }

/-- `PeriodicRescan::disable`. -/
def disable : Connection :=
  if s.periodicRescan.timeoutId = 0 then s.complain .alreadyDisabled
  else
    { s with
      periodicRescan := { s.periodicRescan with timeoutId := 0 }
      sources := s.sources.erase s.periodicRescan.timeoutId }

/-- `PeriodicRescan::rescan_now`, called by a source, which is removed if there is no connection. -/
def rescanNow (sourceId : ℕ) : Connection :=
  if s.periodicRescan.isInhibited then s
  else
    match s.dleynaserverManagerIface with
    | none => { s.complain .noConnection with sources := s.sources.erase sourceId }
    | some proxy =>
      { s with
        periodicRescan := { s.periodicRescan with isInhibited := true }
        rescans := s.rescans ++ [proxy] }

/-- `PeriodicRescan::rescan_done`. -/
def rescanDone (idx : ℕ) : Connection :=
  { s with
    periodicRescan := { s.periodicRescan with isInhibited := false }
    rescans := s.rescans.eraseIdx idx }

/-- `UPnP::ListTree::clear`. -/
def clear : Connection :=
  { s with
    discovery := s.discovery.servers.foldl (fun discovery path => (discovery.removeFromList path).2) s.discovery }

/-- `vanished`. -/
def vanished : Connection :=
  if s.isConnecting then s
  else
    let s :=
      match s.dleynaserverManagerIface with
      | none => s
      | some _ => { s.disable with dleynaserverManagerIface := none }.clear
    { s with isConnecting := true }

/-- `created_dleyna_proxy`. -/
def createdDleynaProxy : Option ℕ → Connection
  | some sourceId =>
    { s with
      isConnecting := false
      dleynaserverManagerIface := some s.nextProxy
      nextProxy := s.nextProxy + 1 }.enable sourceId
  | none =>
    { s with
      isConnecting := false
      dleynaserverManagerIface := none }.vanished

/-- The proxies through which signals may be received. -/
def proxies : List ℕ := s.dleynaserverManagerIface.toList ++ s.rescans

/-- What an event leads to, if it can happen. -/
def next : ConnectionEvent → Option Connection
  | .vanished => some s.vanished
  | .created sourceId =>
    if s.isConnecting = true ∧ ∀ id ∈ sourceId, 0 < id ∧
      id ∉ s.sources then some (s.createdDleynaProxy sourceId) else none
  | .timeout sourceId => if sourceId ∈ s.sources then some (s.rescanNow sourceId) else none
  | .rescanDone idx => if idx < s.rescans.length then some (s.rescanDone idx) else none
  | .foundServer proxy path =>
    if proxy ∈ s.proxies then
      some { s with discovery := s.discovery.addToList path s.dleynaserverManagerIface.isSome }
    else none
  | .lostServer proxy path =>
    if proxy ∈ s.proxies then some { s with discovery := (s.discovery.removeFromList path).2 } else none
  | .completed path outcome => (s.discovery.next (.completed path outcome)).map fun discovery =>
    { s with discovery := discovery }

def Step (s : Connection) (e : ConnectionEvent) (s' : Connection) : Prop := s.next e = some s'

/-! ## What an event does -/

/-- The timer goes with the proxy, and there has been nothing to complain about. -/
structure Sound : Prop where
  connecting : s.isConnecting = true → s.dleynaserverManagerIface = none
  timer : match s.dleynaserverManagerIface with
    | none => s.periodicRescan.timeoutId = 0 ∧ s.sources = []
    | some _ => 0 < s.periodicRescan.timeoutId ∧ s.sources = [s.periodicRescan.timeoutId]
  complaints : s.complaints = []

/-- What the events do to a sound connection. -/
inductive Effect : ConnectionEvent → Connection → Prop
  /-- Nothing happens while the proxy is created, or a rescan is running. -/
  | ignored {e : ConnectionEvent} (hcreated : ∀ sourceId, e ≠ .created (some sourceId))
      (hfound : ∀ proxy path, e ≠ .foundServer proxy path) : Effect e s
  | connects (hiface : s.dleynaserverManagerIface = none) : Effect .vanished { s with isConnecting := true }
  | disconnects {proxy : ℕ} (hiface : s.dleynaserverManagerIface = some proxy) :
      Effect .vanished
        { s.clear with
          isConnecting := true
          dleynaserverManagerIface := none
          periodicRescan := ⟨s.periodicRescan.isInhibited, 0⟩
          sources := [] }
  | connected {sourceId : ℕ} (hiface : s.dleynaserverManagerIface = none) (hid : 0 < sourceId) :
      Effect (.created (some sourceId))
        { s with
          isConnecting := false
          dleynaserverManagerIface := some s.nextProxy
          nextProxy := s.nextProxy + 1
          periodicRescan := ⟨false, sourceId⟩
          sources := [sourceId] }
  | rescans {sourceId proxy : ℕ} (hinhibited : s.periodicRescan.isInhibited = false)
      (hiface : s.dleynaserverManagerIface = some proxy) :
      Effect (.timeout sourceId)
        { s with
          periodicRescan := ⟨true, s.periodicRescan.timeoutId⟩
          rescans := s.rescans ++ [proxy] }
  | rescanDone {idx : ℕ} (hidx : idx < s.rescans.length) : Effect (.rescanDone idx) (s.rescanDone idx)
  | foundServer {proxy : ℕ} {path : String} (hproxy : proxy ∈ s.proxies) :
      Effect (.foundServer proxy path)
        { s with discovery := s.discovery.addToList path s.dleynaserverManagerIface.isSome }
  | lostServer {proxy : ℕ} {path : String} (hproxy : proxy ∈ s.proxies) :
      Effect (.lostServer proxy path) { s with discovery := (s.discovery.removeFromList path).2 }
  | completed {path : String} {outcome : Outcome} {discovery : Discovery}
      (hcompleted : Discovery.Step s.discovery (.completed path outcome) discovery) :
      Effect (.completed path outcome) { s with discovery := discovery }

variable {s} {s' : Connection} {e : ConnectionEvent} {events : List ConnectionEvent}

theorem Sound.timer_none (h : s.Sound) (hiface : s.dleynaserverManagerIface = none) :
    s.periodicRescan.timeoutId = 0 ∧ s.sources = [] := by
  have := h.timer
  rwa [hiface] at this

theorem Sound.timer_some (h : s.Sound) {proxy : ℕ} (hiface : s.dleynaserverManagerIface = some proxy) :
    0 < s.periodicRescan.timeoutId ∧ s.sources = [s.periodicRescan.timeoutId] := by
  have := h.timer
  rwa [hiface] at this

/-- The proxy and the timer go away together with the servers. -/
theorem Sound.vanished_disconnects (h : s.Sound) {proxy : ℕ} (hiface : s.dleynaserverManagerIface = some proxy) :
    s.vanished =
      { s.clear with
        isConnecting := true
        dleynaserverManagerIface := none
        periodicRescan := ⟨s.periodicRescan.isInhibited, 0⟩
        sources := [] } := by
  obtain ⟨hid, hsources⟩ := h.timer_some hiface
  have hconnecting : s.isConnecting ≠ true := fun hconnecting => by
    rw [h.connecting hconnecting] at hiface
    cases hiface
  rw [Connection.vanished, if_neg hconnecting, hiface]
  dsimp only
  rw [disable, if_neg (Nat.ne_of_gt hid), hsources, List.erase_cons_head]
  rfl

theorem Sound.vanished (h : s.Sound) : s.Effect .vanished s.vanished := by
  cases hiface : s.dleynaserverManagerIface with
  | some proxy =>
    rw [h.vanished_disconnects hiface]
    exact .disconnects hiface
  | none =>
    unfold Connection.vanished
    split
    · exact .ignored nofun nofun
    · rw [hiface]
      exact .connects hiface

theorem Sound.effect (h : s.Sound) (hstep : Step s e s') : s.Effect e s' := by
  cases e with
  | vanished =>
    cases hstep
    exact h.vanished
  | created sourceId =>
    obtain ⟨⟨hconnecting, hid⟩, e⟩ := Option.ite_none_right_eq_some.mp hstep
    cases e
    have hiface := h.connecting hconnecting
    obtain ⟨htimeout, hsources⟩ := h.timer_none hiface
    cases sourceId with
    | none =>
      have e : s.createdDleynaProxy none = s := by
        obtain ⟨_, _, _, _, _, _, _, _⟩ := s
        dsimp only at hconnecting hiface
        subst hconnecting hiface
        rfl
      rw [e]
      exact .ignored nofun nofun
    | some sourceId =>
      change s.Effect _ (enable _ sourceId)
      rw [enable, if_neg (by rw [htimeout]; exact Nat.lt_irrefl 0)]
      dsimp only
      rw [hsources]
      exact .connected hiface (hid sourceId rfl).1
  | timeout sourceId =>
    obtain ⟨hsource, e⟩ := Option.ite_none_right_eq_some.mp hstep
    cases e
    unfold rescanNow
    split
    · exact .ignored nofun nofun
    · next hinhibited =>
      split
      · next hiface =>
        rw [(h.timer_none hiface).2] at hsource
        cases hsource
      · next proxy hiface => exact .rescans (by simpa using hinhibited) hiface
  | rescanDone idx =>
    obtain ⟨hidx, e⟩ := Option.ite_none_right_eq_some.mp hstep
    cases e
    exact .rescanDone hidx
  | foundServer proxy path =>
    obtain ⟨hproxy, e⟩ := Option.ite_none_right_eq_some.mp hstep
    cases e
    exact .foundServer hproxy
  | lostServer proxy path =>
    obtain ⟨hproxy, e⟩ := Option.ite_none_right_eq_some.mp hstep
    cases e
    exact .lostServer hproxy
  | completed path outcome =>
    obtain ⟨discovery, hcompleted, rfl⟩ := Option.map_eq_some_iff.mp hstep
    exact .completed hcompleted

theorem sound_init : init.Sound := ⟨nofun, ⟨rfl, rfl⟩, rfl⟩

theorem Sound.step (h : s.Sound) (hstep : Step s e s') : s'.Sound := by
  cases h.effect hstep with
  | ignored => exact h
  | connects hiface => exact ⟨fun _ => hiface, h.timer, h.complaints⟩
  | disconnects => exact ⟨fun _ => rfl, ⟨rfl, rfl⟩, h.complaints⟩
  | connected _ hid => exact ⟨nofun, ⟨hid, rfl⟩, h.complaints⟩
  | rescans | rescanDone | foundServer | lostServer | completed => exact ⟨h.connecting, h.timer, h.complaints⟩

theorem step_det (s : Connection) (e : ConnectionEvent) (s₁ s₂ : Connection) (h₁ : Step s e s₁)
    (h₂ : Step s e s₂) : s₁ = s₂ :=
  Option.some.inj (h₁.symm.trans h₂)

/-! ## Servers -/

theorem removeFromList_servers (discovery : Discovery) (path : String) :
    (discovery.removeFromList path).2.servers = discovery.servers.erase path := by
  unfold Discovery.removeFromList
  dsimp only
  split
  · rfl
  · next hpath => exact (List.erase_of_not_mem hpath).symm

theorem clear_servers (s : Connection) : s.clear.discovery.servers = [] := by
  have hall : ∀ (paths : List String) (discovery : Discovery), discovery.servers = paths →
      (paths.foldl (fun discovery path => (discovery.removeFromList path).2) discovery).servers = [] := by
    intro paths
    induction paths with
    | nil => exact fun _ h => h
    | cons path paths ih =>
      refine fun discovery h => ih _ ?_
      rw [removeFromList_servers, h, List.erase_cons_head]
  exact hall _ _ rfl

theorem clear_tracked (h : s.discovery.Tracked) : s.clear.discovery.Tracked := by
  have htracked : ∀ (paths : List String) (discovery : Discovery), discovery.Tracked →
      (paths.foldl (fun discovery path => (discovery.removeFromList path).2) discovery).Tracked := by
    intro paths
    induction paths with
    | nil => exact fun _ h => h
    | cons path paths ih => exact fun discovery h => ih _ (h.step (e := .lost path) rfl rfl)
  exact htracked _ _ h

/-! ## Runs -/

/-- In every run, exactly one timeout source is attached while there is a proxy, and none otherwise;
`PeriodicRescan` is never enabled or disabled twice, and never without connection when a rescan is due. As dLeyna
vanishes, the timer goes away together with the proxy, and all servers are removed. -/
theorem connection_sound (h : Run Step init events s) :
    s.complaints = [] ∧
      s.sources = (if s.dleynaserverManagerIface.isSome then [s.periodicRescan.timeoutId] else []) ∧
      (s.dleynaserverManagerIface.isSome = true →
        s.vanished.dleynaserverManagerIface = none ∧ s.vanished.sources = [] ∧ s.vanished.discovery.servers = []) := by
  have hs : s.Sound := h.invariant (fun _ _ _ hs hstep => hs.step hstep) sound_init
  refine ⟨hs.complaints, ?_, fun hiface => ?_⟩
  · cases hiface : s.dleynaserverManagerIface with
    | none => exact (hs.timer_none hiface).2
    | some proxy => exact (hs.timer_some hiface).2
  · obtain ⟨proxy, hproxy⟩ := Option.isSome_iff_exists.mp hiface
    rw [hs.vanished_disconnects hproxy]
    exact ⟨rfl, rfl, clear_servers s⟩

/-- dLeyna is reached, vanishes while a rescan is running, and is reached again after a failed attempt. -/
def exampleEvents : List ConnectionEvent :=
  [.vanished, .created (some 5), .foundServer 0 "/server/1", .timeout 5, .completed "/server/1" (.connected false true),
    .vanished, .vanished, .rescanDone 0, .created none, .created (some 7), .foundServer 1 "/server/2", .timeout 7]

theorem connection_sound_example : ∃ s, Run Step init exampleEvents s ∧ s.complaints = [] ∧ s.sources = [7] ∧
    s.vanished.discovery.servers = [] := by
  obtain ⟨s, hrun, hs⟩ := Run.of_exec_any (fun _ _ _ h => h : ∀ s e s', next s e = some s' → Step s e s')
    (show (exec next (fun _ _ => True) exampleEvents init).any (fun s => s.dleynaserverManagerIface = some 1 ∧
      s.periodicRescan.timeoutId = 7) = true by decide)
  obtain ⟨hiface, hid⟩ := of_decide_eq_true hs
  obtain ⟨hcomplaints, hsources, hvanished⟩ := connection_sound hrun.of_when
  rw [hiface, hid] at hsources
  exact ⟨s, hrun.of_when, hcomplaints, hsources, (hvanished (by rw [hiface]; rfl)).2.2⟩

/-- No rescan is running when dLeyna is reached. -/
def EndsRescans (s : Connection) : ConnectionEvent → Prop
  | .created (some _) => s.rescans = []
  | _ => True

/-- No server is found while there is no proxy. -/
def FindsWhileConnected (s : Connection) : ConnectionEvent → Prop
  | .foundServer _ _ => s.dleynaserverManagerIface.isSome = true
  | _ => True

instance (s : Connection) (e : ConnectionEvent) : Decidable (EndsRescans s e) := by
  unfold EndsRescans
  split <;> infer_instance

instance (s : Connection) (e : ConnectionEvent) : Decidable (FindsWhileConnected s e) := by
  unfold FindsWhileConnected
  split <;> infer_instance

/-- It is known whether a rescan is running. -/
def Bookkept (s : Connection) : Prop := s.periodicRescan.isInhibited = true ↔ s.rescans ≠ []

theorem Sound.bookkept_iff (h : s.Sound) (hbookkept : s.Bookkept) (hrescans : s.rescans.length ≤ 1)
    (hstep : Step s e s') : (s'.Bookkept ↔ s.EndsRescans e) ∧ (s'.Bookkept → s'.rescans.length ≤ 1) := by
  cases h.effect hstep with
  | ignored hcreated =>
    have hok : s.EndsRescans e := by
      unfold EndsRescans
      split
      · exact absurd rfl (hcreated _)
      · trivial
    exact ⟨iff_of_true hbookkept hok, fun _ => hrescans⟩
  | connects | disconnects | foundServer | lostServer | completed =>
    exact ⟨iff_of_true hbookkept trivial, fun _ => hrescans⟩
  | connected =>
    refine ⟨⟨fun hnone => by_contra fun hne => absurd (hnone.mpr hne) nofun, fun hnone => ?_⟩, fun _ => hrescans⟩
    simp [Bookkept, show s.rescans = [] from hnone]
  | rescans hinhibited =>
    have hnone : s.rescans = [] := by
      by_contra hne
      rw [hbookkept.mpr hne] at hinhibited
      cases hinhibited
    exact ⟨iff_of_true (by simp [Bookkept]) trivial, fun _ => by simp [hnone]⟩
  | @rescanDone idx hidx =>
    have hnone : s.rescans.eraseIdx idx = [] :=
      List.length_eq_zero_iff.mp (by rw [List.length_eraseIdx_of_lt hidx]; omega)
    exact ⟨iff_of_true (by simp [Bookkept, Connection.rescanDone, hnone]) trivial,
      fun _ => by simp [Connection.rescanDone, hnone]⟩

/-- `PeriodicRescan` knows in all states of a run whether a rescan is running if and only if no rescan is ever
running when dLeyna is reached; and there is at most one of them then. -/
theorem rescans_bookkept_iff (h : Run Step init events s) :
    (Throughout Step (fun _ _ s' => s'.Bookkept) init events ↔ Run (When Step EndsRescans) init events s) ∧
      (Run (When Step EndsRescans) init events s → s.rescans.length ≤ 1) := by
  have hstep : ∀ s e s', (s.Sound ∧ s.Bookkept ∧ s.rescans.length ≤ 1) → s.EndsRescans e → Step s e s' →
      s'.Sound ∧ s'.Bookkept ∧ s'.rescans.length ≤ 1 := fun s e s' hs hok hstep =>
    have hiff := hs.1.bookkept_iff hs.2.1 hs.2.2 hstep
    ⟨hs.1.step hstep, hiff.1.mpr hok, hiff.2 (hiff.1.mpr hok)⟩
  have hinit : init.Sound ∧ init.Bookkept ∧ init.rescans.length ≤ 1 := ⟨sound_init, by simp [Bookkept, init], by decide⟩
  refine ⟨Run.throughout_iff step_det (fun s e s' hs hstep => (hs.1.bookkept_iff hs.2.1 hs.2.2 hstep).1) hstep h hinit,
    fun hrun => ?_⟩
  exact (hrun.invariant (fun s e s' hs hs' => hstep s e s' hs hs'.1 hs'.2) hinit).2.2

theorem rescans_bookkept_example : ∃ s : Connection, s.rescans.length ≤ 1 ∧ s.rescans = [1] ∧
    Throughout Step (fun _ _ s' => s'.Bookkept) init exampleEvents := by
  obtain ⟨s, hrun, hs⟩ := Run.of_exec_any (fun _ _ _ h => h : ∀ s e s', next s e = some s' → Step s e s')
    (show (exec next EndsRescans exampleEvents init).any (fun s => s.rescans = [1]) = true by decide)
  obtain ⟨hiff, hlength⟩ := rescans_bookkept_iff hrun.of_when
  exact ⟨s, hlength hrun, of_decide_eq_true hs, hiff.mpr hrun⟩

/-- The creations for the servers are tracked in all states of a run if and only if no server is ever found while
there is no proxy. -/
theorem creations_tracked_iff (h : Run Step init events s) :
    Throughout Step (fun _ _ s' => s'.discovery.Tracked) init events ↔
      Run (When Step FindsWhileConnected) init events s := by
  have hiff : ∀ s e s', (s.Sound ∧ s.discovery.Tracked) → Step s e s' →
      (s'.discovery.Tracked ↔ s.FindsWhileConnected e) := fun s e s' hs hstep => by
    cases hs.1.effect hstep with
    | ignored _ hfound =>
      refine iff_of_true hs.2 ?_
      unfold FindsWhileConnected
      split
      · exact absurd rfl (hfound _ _)
      · trivial
    | disconnects => exact iff_of_true (clear_tracked hs.2) trivial
    | connects | connected | rescans | rescanDone => exact iff_of_true hs.2 trivial
    | lostServer => exact iff_of_true (hs.2.step (e := .lost _) rfl rfl) trivial
    | completed hcompleted => exact iff_of_true (hs.2.step rfl hcompleted) trivial
    | foundServer =>
      unfold FindsWhileConnected
      dsimp only
      cases s.dleynaserverManagerIface with
      | none => exact iff_of_false (Discovery.not_tracked_addToList hs.2) nofun
      | some _ => exact iff_of_true hs.2.addToList rfl
  exact Run.throughout_iff step_det hiff
    (fun s e s' hs hok hstep => ⟨hs.1.step hstep, (hiff s e s' hs hstep).mpr hok⟩) h
      ⟨sound_init, Discovery.tracked_init⟩

theorem creations_tracked_example : ∃ s : Connection, s.discovery.inFlight "/server/2" = [1] ∧
    Throughout Step (fun _ _ s' => s'.discovery.Tracked) init exampleEvents := by
  obtain ⟨s, hrun, hs⟩ := Run.of_exec_any (fun _ _ _ h => h : ∀ s e s', next s e = some s' → Step s e s')
    (show (exec next FindsWhileConnected exampleEvents init).any
      (fun s => s.discovery.inFlight "/server/2" = [1]) = true by decide)
  exact ⟨s, of_decide_eq_true hs, (creations_tracked_iff hrun.of_when).mpr hrun⟩

end Connection

end Listbrokers.Upnp
