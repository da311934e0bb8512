import Listbrokers.Upnp.Discovery

/-!
# Presence of UPnP servers

Which servers are in the server list. The creation of a proxy is cancelled when its
server is lost, or found again, and GLib does not report success for a creation that
has been cancelled (`HonoursCancel`). Thus, the servers in the list are those that
are present: each one has been found, a usable proxy that is not on the same host has
been created for it, and it has not been lost since (`Present`).

This does not depend on whether all creations start. An entry that is left behind in
a queue is cancelled as any other one, and the entries that belong to creations in
flight stay in the queue.
-/

namespace Listbrokers.Upnp

open Framework

/-- The creation of a proxy has been started for a server that has been found, and it has not been lost since. -/
def Announced (path : String) (events : List Event) : Prop :=
  ∃ before after, events = before ++ .found path true :: after ∧ .lost path ∉ after

/-- A server has been found, its proxy is usable and not on the same host, and it has not been lost since. -/
def Present (path : String) (events : List Event) : Prop :=
  ∃ before after, events = before ++ .found path true :: after ∧ .lost path ∉ after ∧
    .completed path (.connected false true) ∈ after

section

variable {path : String} {events : List Event} {e : Event}

theorem announced_found (path : String) (events : List Event) : Announced path (events ++ [.found path true]) :=
  ⟨events, [], rfl, List.not_mem_nil⟩

theorem Announced.snoc (h : Announced path events) (he : e ≠ .lost path) : Announced path (events ++ [e]) := by
  obtain ⟨before, after, rfl, hlost⟩ := h
  refine ⟨before, after ++ [e], by simp, fun hmem => ?_⟩
  rcases List.mem_append.mp hmem with hmem | hmem
  · exact hlost hmem
  · exact he (List.mem_singleton.mp hmem).symm

theorem Present.snoc (h : Present path events) (he : e ≠ .lost path) : Present path (events ++ [e]) := by
  obtain ⟨before, after, rfl, hlost, hcompleted⟩ := h
  refine ⟨before, after ++ [e], by simp, fun hmem => ?_, List.mem_append_left _ hcompleted⟩
  rcases List.mem_append.mp hmem with hmem | hmem
  · exact hlost hmem
  · exact he (List.mem_singleton.mp hmem).symm

theorem Announced.completed (h : Announced path events) :
    Present path (events ++ [.completed path (.connected false true)]) := by
  obtain ⟨before, after, rfl, hlost⟩ := h
  refine ⟨before, after ++ [_], by simp, fun hmem => ?_, List.mem_append_right _ (List.mem_singleton_self _)⟩
  rcases List.mem_append.mp hmem with hmem | hmem
  · exact hlost hmem
  · cases List.mem_singleton.mp hmem

end

/-! ## Queues -/

/-- All creations but the newest one have been cancelled. -/
def Superseded (queue : List AddToListData) : Prop := queue.Pairwise fun data _ => data.cancelled = true

theorem Superseded.cancelled_cancelBack {queue : List AddToListData} (h : Superseded queue) :
    ∀ data ∈ cancelBack queue, data.cancelled = true := by
  refine Upnp.cancelled_cancelBack fun data hdata => ?_
  rcases List.eq_nil_or_concat queue with rfl | ⟨front, back, rfl⟩
  · cases hdata
  · rw [List.concat_eq_append, List.dropLast_concat] at hdata
    rw [List.concat_eq_append] at h
    exact (List.pairwise_append.mp h).2.2 data hdata back (List.mem_singleton_self back)

theorem Superseded.of_cancelled {queue : List AddToListData} (h : ∀ data ∈ queue, data.cancelled = true) :
    Superseded queue :=
  List.Pairwise.imp_of_mem (fun hdata _ _ => h _ hdata) (List.pairwise_of_forall fun _ _ => trivial)

/-- A new creation supersedes the ones before. -/
theorem Superseded.found {queue : List AddToListData} (h : Superseded queue) (data : AddToListData) :
    Superseded (cancelBack queue ++ [data]) :=
  List.pairwise_append.mpr ⟨Superseded.of_cancelled h.cancelled_cancelBack, List.pairwise_singleton _ _,
    fun _ hother _ _ => h.cancelled_cancelBack _ hother⟩

namespace ServersLostAndFound

variable (t : ServersLostAndFound) (path other : String) (number : ℕ)

theorem queueOf_serverFound : ((t.serverFound path).2).queueOf other =
    if other = path then cancelBack (t.queueOf path) ++ [⟨t.nextNumber, false⟩] else t.queueOf other :=
  Discovery.queueOf_update ..

theorem queueOf_serverLost : ((t.serverLost path).2).queueOf other =
    if other = path then cancelBack (t.queueOf path) else t.queueOf other := by
  have hsame : cancelBack (t.queueOf path) = t.queueOf path →
      t.queueOf other = if other = path then cancelBack (t.queueOf path) else t.queueOf other := fun e => by
    split
    · next hother => rw [e, hother]
    · rfl
  unfold serverLost
  split
  · next hqueue => exact hsame (by rw [queueOf, hqueue]; rfl)
  · next queue hqueue =>
    have hqueueOf : t.queueOf path = queue := by rw [queueOf, hqueue, Option.getD_some]
    split
    · next hlast => exact hsame (by rw [hqueueOf, List.getLast?_eq_none_iff.mp hlast]; rfl)
    · rw [Discovery.queueOf_update, Option.getD_some, hqueueOf]

theorem queueOf_setQueue (queue : List AddToListData) : (t.setQueue path queue).queueOf other =
    if other = path then queue else t.queueOf other := by
  rw [setQueue, Discovery.queueOf_update]
  split
  · split
    · next hqueue => exact hqueue.symm
    · rfl
  · rfl

/-- The first entry with the serial number is removed, if there is one. -/
theorem queueOf_serverProcessed : ((t.serverProcessed path number).2).queueOf other =
    if other = path then (t.queueOf path).eraseP fun data =>
      serial data.number = serial number else t.queueOf other := by
  have hsame : (t.queueOf path).eraseP (fun data => serial data.number = serial number) = t.queueOf path →
      t.queueOf other =
        if other = path then (t.queueOf path).eraseP fun data => serial data.number = serial number
        else t.queueOf other := fun e => by
    split
    · next hother => rw [e, hother]
    · rfl
  unfold serverProcessed
  split
  · next hqueue => exact hsame (by rw [queueOf, hqueue]; rfl)
  · next hqueue => rw [queueOf_setQueue, show t.queueOf path = [] by rw [queueOf, hqueue]; rfl]; rfl
  · next front queue hqueue =>
    have hqueueOf : t.queueOf path = front :: queue := by rw [queueOf, hqueue, Option.getD_some]
    rw [hqueueOf] at hsame ⊢
    split
    · next hfront => rw [queueOf_setQueue, List.eraseP_cons_of_pos (by simpa using hfront)]
    · next hfront =>
      rw [List.eraseP_cons_of_neg (by simpa using hfront), List.eraseP_eq_eraseIdx] at hsame ⊢
      split
      · next idx hidx => rw [queueOf_setQueue, hidx]
      · next hidx => exact hsame (by rw [hidx])

end ServersLostAndFound

/-! ## Servers -/

namespace Discovery

/-- A creation that has been cancelled does not end successfully. -/
def HonoursCancel (s : Discovery) : Event → Prop
  | .completed path (.connected _ _) => ∀ number ∈ (s.inFlight path).head?,
      ∀ data ∈ s.serversLostAndFound.queueOf path, data.number = number → data.cancelled = false
  | _ => True

instance (s : Discovery) (e : Event) : Decidable (HonoursCancel s e) := by
  unfold HonoursCancel
  split <;> infer_instance

/-- The creations in flight are known, and those that have not been cancelled are for servers that have not been
lost. -/
structure Faithful (events : List Event) (s : Discovery) : Prop where
  superseded : ∀ path, Superseded (s.serversLostAndFound.queueOf path)
  known : ∀ path, (s.inFlight path).Sublist ((s.serversLostAndFound.queueOf path).map (·.number))
  old : ∀ path, ∀ data ∈ s.serversLostAndFound.queueOf path, data.number < s.serversLostAndFound.nextNumber
  announced : ∀ path, ∀ data ∈ s.serversLostAndFound.queueOf path, data.cancelled = false →
    data.number ∈ s.inFlight path → Announced path events
  nodup : s.servers.Nodup
  present : ∀ path ∈ s.servers, Present path events

variable {s s' : Discovery} {path : String} {events : List Event}

open ServersLostAndFound

theorem faithful_init : init.Faithful [] where
  superseded _ := List.Pairwise.nil
  known _ := .slnil
  old _ _ h := absurd h List.not_mem_nil
  announced _ _ h := absurd h List.not_mem_nil
  nodup := List.nodup_nil
  present _ h := absurd h List.not_mem_nil

theorem addToList_queueOf (started : Bool) (other : String) :
    (s.addToList path started).serversLostAndFound.queueOf other =
    if other = path then cancelBack (s.serversLostAndFound.queueOf path) ++ [⟨s.serversLostAndFound.nextNumber, false⟩]
    else s.serversLostAndFound.queueOf other :=
  queueOf_serverFound ..

theorem addToList_inFlight (started : Bool) (other : String) : (s.addToList path started).inFlight other =
    if started = true ∧ other = path then s.inFlight path ++
      [s.serversLostAndFound.nextNumber] else s.inFlight other := by
  unfold addToList
  dsimp only
  cases started with
  | false => simp
  | true =>
    by_cases e : other = path
    · subst e
      simp [serverFound]
    · simp [e, serverFound]

theorem Faithful.addToList (h : s.Faithful events) (started : Bool) :
    (s.addToList path started).Faithful (events ++ [.found path started]) where
  superseded other := by
    rw [addToList_queueOf]
    split
    · exact (h.superseded path).found _
    · exact h.superseded other
  known other := by
    rw [addToList_queueOf, addToList_inFlight]
    by_cases e : other = path
    · subst e
      rw [if_pos rfl, List.map_append, map_number_cancelBack]
      split
      · exact (h.known other).append (.refl _)
      · exact (h.known other).trans (List.sublist_append_left _ _)
    · rw [if_neg e, if_neg fun hother => e hother.2]
      exact h.known other
  old other data hdata := by
    change data.number < s.serversLostAndFound.nextNumber + 1
    rw [addToList_queueOf] at hdata
    split at hdata
    · rcases List.mem_append.mp hdata with hdata | hdata
      · have hmem : data.number ∈ (s.serversLostAndFound.queueOf path).map (·.number) := by
          rw [← map_number_cancelBack]
          exact List.mem_map_of_mem hdata
        obtain ⟨old, hold, e⟩ := List.mem_map.mp hmem
        exact Nat.lt_succ_of_lt (e ▸ h.old path old hold)
      · rw [List.mem_singleton.mp hdata]
        exact Nat.lt_succ_self _
    · exact Nat.lt_succ_of_lt (h.old other data hdata)
  announced other data hdata hcancelled hflight := by
    rw [addToList_queueOf] at hdata
    rw [addToList_inFlight] at hflight
    by_cases e : other = path
    · subst e
      rw [if_pos rfl] at hdata
      rcases List.mem_append.mp hdata with hdata | hdata
      · rw [(h.superseded other).cancelled_cancelBack data hdata] at hcancelled
        cases hcancelled
      · obtain rfl := List.mem_singleton.mp hdata
        cases started with
        | true => exact announced_found other events
        | false =>
          -- the number is new, and no creation with it is in flight
          rw [if_neg nofun] at hflight
          obtain ⟨old, hold, e⟩ := List.mem_map.mp ((h.known other).subset hflight)
          exact absurd (h.old other old hold) (by rw [e]; exact Nat.lt_irrefl _)
    · rw [if_neg e] at hdata
      rw [if_neg fun hother => e hother.2] at hflight
      exact (h.announced other data hdata hcancelled hflight).snoc nofun
  nodup := h.nodup
  present other hother := (h.present other hother).snoc nofun

theorem Faithful.removeFromList (h : s.Faithful events) :
    (s.removeFromList path).2.Faithful (events ++ [.lost path]) := by
  have hqueueOf : ∀ other, (s.removeFromList path).2.serversLostAndFound.queueOf other =
      if other = path then cancelBack (s.serversLostAndFound.queueOf path)
      else s.serversLostAndFound.queueOf other := fun other => by
    unfold Discovery.removeFromList
    dsimp only
    split <;> exact queueOf_serverLost ..
  have hinFlight : (s.removeFromList path).2.inFlight = s.inFlight := by
    unfold Discovery.removeFromList
    dsimp only
    split <;> rfl
  have hnext : (s.removeFromList path).2.serversLostAndFound.nextNumber = s.serversLostAndFound.nextNumber := by
    have hlost : ∀ t : ServersLostAndFound, (t.serverLost path).2.nextNumber = t.nextNumber := fun t => by
      unfold serverLost
      split
      · rfl
      · split <;> rfl
    unfold Discovery.removeFromList
    dsimp only
    split <;> exact hlost _
  have hservers : (s.removeFromList path).2.servers = s.servers.erase path := by
    unfold Discovery.removeFromList
    dsimp only
    split
    · rfl
    · next hpath => exact (List.erase_of_not_mem hpath).symm
  have hmap : ∀ other, ((s.removeFromList path).2.serversLostAndFound.queueOf other).map (·.number) =
      (s.serversLostAndFound.queueOf other).map (·.number) := fun other => by
    rw [hqueueOf]
    split
    · next e => rw [e, map_number_cancelBack]
    · rfl
  refine ⟨fun other => ?_, fun other => ?_, fun other data hdata => ?_,
    fun other data hdata hcancelled hflight => ?_, ?_, fun other hother => ?_⟩
  · rw [hqueueOf]
    split
    · exact Superseded.of_cancelled (h.superseded path).cancelled_cancelBack
    · exact h.superseded other
  · rw [hmap, hinFlight]
    exact h.known other
  · rw [hnext]
    have hmem := List.mem_map_of_mem (f := (·.number)) hdata
    rw [hmap] at hmem
    obtain ⟨old, hold, e⟩ := List.mem_map.mp hmem
    exact e ▸ h.old other old hold
  · rw [hqueueOf] at hdata
    rw [hinFlight] at hflight
    split at hdata
    · rw [(h.superseded path).cancelled_cancelBack data hdata] at hcancelled
      cases hcancelled
    · next hne => exact (h.announced other data hdata hcancelled hflight).snoc fun e => hne (Event.lost.inj e).symm
  · rw [hservers]
    exact h.nodup.erase path
  · rw [hservers] at hother
    refine (h.present other (List.mem_of_mem_erase hother)).snoc fun e => ?_
    obtain rfl := Event.lost.inj e
    exact h.nodup.not_mem_erase hother

theorem Faithful.mediaDeviceProxyConnected {number : ℕ} {rest : List ℕ} {outcome : Outcome} (h : s.Faithful events)
    (hhonours : HonoursCancel s (.completed path outcome)) (hflight : s.inFlight path = number :: rest) :
    ({ s with inFlight := Function.update s.inFlight path rest }.mediaDeviceProxyConnected path number outcome).Faithful
      (events ++ [Event.completed path outcome]) := by
  have hknown := hflight ▸ h.known path
  have hqueueOf := fun other => queueOf_serverProcessed s.serversLostAndFound path other number
  have hsubset : ∀ other, ((s.serversLostAndFound.serverProcessed path number).2.queueOf other).Sublist
      (s.serversLostAndFound.queueOf other) := fun other => by
    rw [hqueueOf]
    split
    · next e => exact e ▸ List.eraseP_sublist
    · exact .refl _
  have hrest : ∀ other, List.Sublist (Function.update s.inFlight path rest other) (s.inFlight other) := fun other => by
    by_cases e : other = path
    · subst e
      rw [Function.update_self, hflight]
      exact List.sublist_cons_self ..
    · rw [Function.update_of_ne e]
  have hnext : (s.serversLostAndFound.serverProcessed path number).2.nextNumber = s.serversLostAndFound.nextNumber := by
    unfold serverProcessed
    split
    · rfl
    · rfl
    · split
      · rfl
      · split <;> rfl
  have hnew : outcome = .connected false true → Present path (events ++ [Event.completed path outcome]) := by
    rintro rfl
    obtain ⟨data, hdata, e⟩ := List.mem_map.mp (hknown.subset List.mem_cons_self)
    refine (h.announced path data hdata (hhonours number (by rw [hflight]; rfl) data hdata e) ?_).completed
    rw [hflight, e]
    exact List.mem_cons_self
  have hpresent : ∀ other ∈ s.servers, Present other (events ++ [Event.completed path outcome]) :=
    fun other hother => (h.present other hother).snoc nofun
  have hservers : ∀ t : Discovery, t.servers = s.servers →
      (t.mediaDeviceProxyConnected path number outcome).servers = s.servers ∨
        path ∉ s.servers ∧ outcome = .connected false true ∧
          (t.mediaDeviceProxyConnected path number outcome).servers = s.servers ++ [path] := fun t ht => by
    unfold Discovery.mediaDeviceProxyConnected
    dsimp only
    rw [ht]
    cases outcome with
    | failed => exact .inl rfl
    | connected isLocal usable =>
      dsimp only
      split
      · exact .inl rfl
      · next hpath =>
        cases isLocal with
        | true => exact .inl rfl
        | false =>
          cases usable with
          | false => exact .inl rfl
          | true => exact .inr ⟨hpath, rfl, rfl⟩
  refine ⟨fun other => (h.superseded other).sublist (hsubset other), fun other => ?_, fun other data hdata => ?_,
    fun other data hdata hcancelled hmem => ?_, ?_, fun other hother => ?_⟩
  · change List.Sublist (Function.update s.inFlight path rest other)
      (((s.serversLostAndFound.serverProcessed path number).2.queueOf other).map (·.number))
    rw [hqueueOf]
    by_cases e : other = path
    · subst e
      rw [if_pos rfl, Function.update_self]
      have := hknown.eraseP (p := fun n => serial n = serial number)
      rwa [List.eraseP_cons_of_pos (by simp), List.eraseP_map] at this
    · rw [if_neg e, Function.update_of_ne e]
      exact h.known other
  · exact Nat.lt_of_lt_of_eq (h.old other data ((hsubset other).subset hdata)) hnext.symm
  · exact (h.announced other data ((hsubset other).subset hdata) hcancelled ((hrest other).subset hmem)).snoc nofun
  · rcases hservers { s with inFlight := Function.update s.inFlight path rest } rfl with e | ⟨hpath, -, e⟩
    · rw [e]
      exact h.nodup
    · rw [e, List.nodup_append]
      exact ⟨h.nodup, List.pairwise_singleton _ _, fun _ hother _ hpath' e =>
        hpath (List.mem_singleton.mp hpath' ▸ e ▸ hother)⟩
  · rcases hservers { s with inFlight := Function.update s.inFlight path rest } rfl with e | ⟨-, houtcome, e⟩
    · rw [e] at hother
      exact hpresent other hother
    · rw [e] at hother
      rcases List.mem_append.mp hother with hother | hother
      · exact hpresent other hother
      · rw [List.mem_singleton.mp hother]
        exact hnew houtcome

theorem Faithful.step {e : Event} (h : s.Faithful events) (hstep : When Step HonoursCancel s e s') :
    s'.Faithful (events ++ [e]) := by
  obtain ⟨hhonours, hstep⟩ := hstep
  cases e with
  | found path started =>
    cases hstep
    exact h.addToList started
  | lost path =>
    cases hstep
    exact h.removeFromList
  | completed path outcome =>
    unfold Step Discovery.next at hstep
    dsimp only at hstep
    split at hstep
    · cases hstep
    · next number rest hflight =>
      cases hstep
      exact h.mediaDeviceProxyConnected hhonours hflight

/-- A server that is in the list stays there until it is lost. -/
theorem mem_servers_step {e : Event} (hstep : Step s e s') (he : e ≠ .lost path) (hpath : path ∈ s.servers) :
    path ∈ s'.servers := by
  cases e with
  | found other started =>
    cases hstep
    exact hpath
  | lost other =>
    cases hstep
    unfold Discovery.removeFromList
    dsimp only
    split
    · exact (List.mem_erase_of_ne fun e => he (congrArg Event.lost e.symm)).mpr hpath
    · exact hpath
  | completed other outcome =>
    unfold Step Discovery.next at hstep
    dsimp only at hstep
    split at hstep
    · cases hstep
    · cases hstep
      unfold Discovery.mediaDeviceProxyConnected
      dsimp only
      cases outcome with
      | failed => exact hpath
      | connected isLocal usable =>
        dsimp only
        split
        · exact hpath
        · split
          · exact hpath
          · split
            · exact hpath
            · exact List.mem_append_left _ hpath

theorem mem_servers_run (h : Run Step s events s') (hlost : .lost path ∉ events) (hpath : path ∈ s.servers) :
    path ∈ s'.servers := by
  have hkept : ∀ e ∈ events, e ≠ .lost path := fun e he hlost' => hlost (hlost' ▸ he)
  exact (h.when_of_forall hkept).invariant (P := (path ∈ ·.servers))
    (fun _ _ _ hs hstep => mem_servers_step hstep.2 hstep.1 hs) hpath

/-- A usable server is in the list after the creation of its proxy. -/
theorem mem_servers_completed (h : Step s (.completed path (.connected false true)) s') : path ∈ s'.servers := by
  unfold Step Discovery.next at h
  dsimp only at h
  split at h
  · cases h
  · cases h
    unfold Discovery.mediaDeviceProxyConnected
    dsimp only
    split
    · assumption
    · exact List.mem_append_right _ (List.mem_singleton_self path)

/-- In every run in which creations that have been cancelled do not succeed, the servers in the list are those that are
present, and each of them is there once. -/
theorem servers_present (h : Run (When Step HonoursCancel) init events s) :
    s.servers.Nodup ∧ ∀ path, path ∈ s.servers ↔ Present path events := by
  have hfaithful : s.Faithful ([] ++ events) := h.history (fun _ _ _ _ hs hstep => hs.step hstep) faithful_init
  refine ⟨hfaithful.nodup, fun path => ⟨hfaithful.present path, ?_⟩⟩
  rintro ⟨before, after, rfl, hlost, hcompleted⟩
  obtain ⟨mid, last, rfl⟩ := List.append_of_mem hcompleted
  rw [← List.cons_append, ← List.append_assoc] at h
  obtain ⟨s₁, -, h₁⟩ := h.of_when.of_append
  cases h₁ with
  | cons hstep hlast =>
    exact mem_servers_run hlast (fun hmem => hlost (List.mem_append_right _ (List.mem_cons_of_mem _ hmem)))
      (mem_servers_completed hstep)

/-- A server is lost while its proxy is created, and found again; another one is found twice, and lost. -/
def presenceEvents : List Event :=
  [.found "/server/1" true, .found "/server/2" true, .lost "/server/1", .completed "/server/2" (.connected false true),
    .found "/server/1" true, .completed "/server/1" .failed, .found "/server/2" true,
    .completed "/server/1" (.connected false true), .completed "/server/2" (.connected false true), .lost "/server/2"]

theorem servers_present_example : ∃ s : Discovery, s.servers = ["/server/1"] ∧ s.servers.Nodup ∧
    ∀ path, path ∈ s.servers ↔ Present path presenceEvents := by
  obtain ⟨s, hrun, hs⟩ := Run.of_exec_any (fun _ _ _ h => h : ∀ s e s', next s e = some s' → Step s e s')
    (show (exec next HonoursCancel presenceEvents init).any (fun s => s.servers = ["/server/1"]) = true by decide)
  exact ⟨s, of_decide_eq_true hs, servers_present hrun⟩

end Discovery

end Listbrokers.Upnp
