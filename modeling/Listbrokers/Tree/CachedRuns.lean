import Listbrokers.Tree.Refinement

/-!
# Runs of the list tree on the cache

Each run of the list tree on the cache is one of `UsbTree`, call by call, with
answers that the cache gives, as long as lists are only made when time has
passed since the last insertion, an ID is left, and the directory can be read
(`Served`). These answers are the ones that the theorems on `UsbTree` ask for
(`Cooperates`), unless the cache has discarded the device list.
-/

namespace Listbrokers.Tree

open Framework Tiles
open Lru (Cache Intact)

variable {P : Type} [DecidableEq P] {S : CachedSetup P} {e : Circumstances P} {t t₀ t' : CachedTree P}
  {call : CachedCall × Circumstances P} {calls : List (CachedCall × Circumstances P)} {p q : P}

/-- What a call is for `UsbTree`: those that use lists may run the garbage collector. -/
def CachedCall.usbCall : CachedCall → UsbCall
  | .usb call => call
  | .useList .. | .discardListHint _ => .gc

namespace CachedTree

/-- If a list is to be made, then it may be, and if it is one for a directory, then the directory can be read. -/
def Served (S : CachedSetup P) (t : CachedTree P) : CachedCall × Circumstances P → Prop
  | (.usb (.enterChild list item), e) => ∀ this ∈ t.usbTree.shelf.find list, e.mayContinue = true →
    (∀ child ∈ (t.cache.content this).links[item]?, child.isValid = false) → t.MayMake e this ∧
      (S.assertions = true ∨
        ∀ path, t.usbTree.pathToRead S.toUsbSetup this item = .ok (some path) → (e.readDir path).isSome = true)
  | _ => True

/-- A step of `UsbTree`, with answers that the cache gives. -/
structure Matches (S : CachedSetup P) (t : CachedTree P) (call : UsbCall × Answers P) (t' : CachedTree P) : Prop where
  intact : t'.IsIntact S
  reads : t.usbTree.ReadsDirectories S.toUsbSetup call
  orderly : S.deviceList ∈ t'.cache.allObjects → t.usbTree.Orderly S.toUsbSetup call
  step : t.usbTree.Step S.toUsbSetup call t'.usbTree

/-- Lists have been discarded, and nothing else has been done. -/
theorem collected_matches (hlabelled : t.usbTree.shelf.Labelled) {cache : Cache P (P → UsbList)}
    (h : ∃ L, Collected S t.devicesListId t.cache cache L) (e : Circumstances P) :
    ∃ a, Matches S t (.gc, a) { t with cache := cache } := by
  obtain ⟨L, hintact, victims, htree⟩ := h
  have h' : IsIntact S { t with cache := cache } := ⟨L, hintact⟩
  exact ⟨e.making none victims, h', trivial, fun hroot => h'.discards hlabelled htree hroot,
    congrArg Except.ok htree.symm⟩

theorem step_refines (hs : t.usbTree.Settled S.toUsbSetup) (h : t.IsIntact S) (hserved : t.Served S call)
    (hstep : t.Step S call t') : ∃ a, Matches S t (call.1.usbCall, a) t' := by
  obtain ⟨call, e⟩ := call
  have hlabelled := hs.rooted.labelled
  have hdone : ∃ a, Matches S t (.gc, a) t := ⟨e.answers, h, trivial,
    fun _ => ⟨List.not_mem_nil, fun _ _ _ _ hp => absurd hp List.not_mem_nil⟩, rfl⟩
  have hstep : t.run S e call = .ok t' := hstep
  cases call with
  | useList id pinIt =>
    obtain ⟨L, hL⟩ := h
    obtain ⟨⟨used, cache⟩, huse, hr⟩ := of_ofCache hstep
    cases hr
    exact collected_matches hlabelled ((useList_collects t.devicesListId hL id pinIt).ok huse) e
  | discardListHint id =>
    obtain ⟨L, hL⟩ := h
    change (if id ≠ t.devicesListId then _ else _) = _ at hstep
    split at hstep
    · obtain ⟨cache, hrepin, hr⟩ := of_ofCache hstep
      cases hr
      exact collected_matches hlabelled ((repin_collects t.devicesListId hL id t.devicesListId).ok hrepin) e
    · cases hstep
      exact hdone
  | usb call =>
    cases call with
    | newUsbDevice id name usbPort =>
      obtain ⟨h', newId, hmodel⟩ := newUsbDevice_refines h hlabelled hstep
      exact ⟨{ e.answers with newId := newId }, h', trivial, fun _ => trivial, hmodel _ rfl⟩
    | newVolume number label mountpoint deviceId =>
      obtain ⟨h', newId, hmodel⟩ := newVolume_refines h hlabelled hstep
      exact ⟨{ e.answers with newId := newId }, h', trivial, fun _ => trivial, hmodel _ rfl⟩
    | deviceRemoved id =>
      obtain ⟨unpinned, sorted, newId, hremoved, hmodel⟩ := deviceRemoved_refines hs h hstep
      exact ⟨e.purging unpinned sorted newId, hremoved.intact, trivial, hremoved.orderly, hmodel⟩
    | gc =>
      obtain ⟨L, hL⟩ := h
      obtain ⟨⟨wait, cache⟩, hgc, hr⟩ := of_ofCache hstep
      cases hr
      exact collected_matches hlabelled ((gc_collected t.devicesListId hL).ok hgc) e
    | enterChild list item =>
      obtain ⟨r, hr, hs'⟩ := bind_eq_ok (x := t.enterChild S e list item) (f := fun r => .ok r.2.2) hstep
      cases hs'
      obtain ⟨inserted, collected, hmade, hmodel⟩ := enterChild_refines hs.sound h
        (fun this hthis hcontinue hlink => (hserved this hthis hcontinue hlink).1) hr
      refine ⟨e.making inserted collected, hmade.intact, fun this hthis hcontinue hlink => ?_, hmade.orderly, ?_⟩
      · exact (hserved this hthis hcontinue hlink).2.imp_right .inr
      · change (·.2.2) <$> t.usbTree.enterChild S.toUsbSetup (e.making inserted collected) list item = _
        rw [hmodel]
        rfl

/-! ## Initialization -/

end CachedTree

section

omit [DecidableEq P]

theorem Shelf.Labelled.congr_id {s : Shelf P} {ids : P → ListId} (h : s.Labelled)
    (hids : ∀ p ∈ s.cached, ids p = s.id p) : (Shelf.mk s.cached ids).Labelled where
  ids p hp q hq e := h.ids p hp q hq (by rwa [← hids p hp, ← hids q hq])
  valid p hp := by
    change (ids p).isValid = true
    rw [hids p hp]
    exact h.valid p hp
  cacheable p hp := by
    change (ids p).nocacheBit = false
    rw [hids p hp]
    exact h.cacheable p hp

end

namespace UsbTree

variable {s : UsbTree P} {ids : P → ListId}

section

omit [DecidableEq P]

/-- The IDs of lists that are not cached do not matter. -/
theorem Settled.congr_id {T : UsbSetup P} (h : s.Settled T) (hids : ∀ p ∈ s.shelf.cached, ids p = s.shelf.id p) :
    UsbTree.Settled T { s with shelf := ⟨s.shelf.cached, ids⟩ } where
  sound := by
    obtain ⟨⟨hlabelled, hlinked, -, hsound, hkilled⟩, hdevices, hmirrors, hsorted⟩ := h.sound
    refine ⟨⟨hlabelled.congr_id hids, fun p hp hne hx => ?_, fun p _ hx => absurd hx (Set.notMem_empty p),
      fun q id hid => ?_, fun id hid => ?_⟩, hdevices, fun idx device hdevice p hp hlink => ?_, hsorted⟩
    · obtain ⟨q, hpar, hcount⟩ := hlinked p hp hne hx
      refine ⟨q, hpar, ?_⟩
      change List.count (ids p) _ = 1
      rw [hids p hp]
      exact hcount
    · obtain ⟨p, hp, hpar, e⟩ := hsound q id hid
      exact ⟨p, hp, hpar, (hids p hp).trans e⟩
    · cases hid
    · exact hmirrors idx device hdevice p hp (by rw [← hids p hp]; exact hlink)
  levelled := h.levelled
  directories := h.directories
  rooted := ⟨h.rooted.labelled.congr_id hids, h.rooted.kind, fun hroot => (hids _ hroot).trans (h.rooted.id hroot)⟩

end

/-- The tree with the device list alone. -/
theorem settled_start {T : UsbSetup P} {id : ListId} (hvalid : id.isValid = true) (hcacheable : id.nocacheBit = false)
    (hid : ids T.deviceList = id) (devices : List (ℕ × String × String)) (volumes : List (ℕ × VolumeInfo)) :
    UsbTree.Settled T { init T id devices volumes with shelf := ⟨[T.deviceList], ids⟩ } :=
  Settled.congr_id (run_settled hvalid hcacheable (.nil _)) fun p hp => by
    rw [List.mem_singleton.mp hp, hid]
    rfl

theorem Settled.reinsertDeviceList {T : UsbSetup P} {a : Answers P} {s' : UsbTree P} (h : s.Settled T)
    (hroot : T.deviceList ∈ s.shelf.cached) (hr : s.reinsertDeviceList T a = .ok s') : s'.Settled T where
  sound := h.sound.reinsertDeviceList (fun p hp => by
    rw [← h.rooted.id hroot, h.rooted.labelled.find_id hroot] at hp
    exact (Option.some.inj hp).symm) hr
  levelled := (reinsertDeviceList_tame hr).levelled h.levelled
  directories := (reinsertDeviceList_tame hr).directories h.directories
  rooted := (reinsertDeviceList_tame hr).rooted h.rooted

/-- The device list does not come back. -/
theorem Settled.root_of_step {T : UsbSetup P} {call : UsbCall × Answers P} {s' : UsbTree P} (h : s.Settled T)
    (hstep : s.Step T call s') (hroot : T.deviceList ∈ s'.shelf.cached) : T.deviceList ∈ s.shelf.cached := by
  rcases step_tame hstep with htame | ⟨list, item, r, -, hr, rfl⟩
  · exact htame.cached _ hroot
  · rcases h.sound.of_enterChild hr with e | ⟨this, r', -, hadd, e⟩
    · rwa [← e]
    · rw [e] at hroot
      refine addToCache_keeps (Q := fun t => T.deviceList ∈ t.shelf.cached → T.deviceList ∈ s.shelf.cached)
        (fun t hQ hmem => hQ ((collect_shrunk _ t).cached _ hmem)) (fun p id _ hpar _ _ hmem => ?_)
          (fun _ _ _ _ _ _ hQ => hQ)
        hadd (fun hmem => hmem) hroot
      refine List.mem_of_ne_of_mem (fun e => ?_) hmem
      rw [← e, T.root] at hpar
      cases hpar

end UsbTree

namespace CachedTree

/-- The tree when the device list has been put into the cache. -/
def startTree (S : CachedSetup P) (i id : ListId) (lists : P → UsbList) : UsbTree P :=
  ⟨⟨[S.deviceList], Function.update (fun _ => .invalid) S.deviceList id⟩, lists, i⟩

/-- The only list is found, so it has not been discarded. -/
theorem collect_startTree {i id : ListId} {lists : P → UsbList} {victims : List P} {list : P}
    (hvalid : id.isValid = true) (hcacheable : id.nocacheBit = false)
    (hlist : list ∈ ((startTree S i id lists).collect S.toUsbSetup victims).shelf.cached) :
    list = S.deviceList ∧ (startTree S i id lists).collect S.toUsbSetup victims = startTree S i id lists := by
  have hnone : (Shelf.mk ([] : List P) fun _ => .invalid).Labelled := ⟨by simp, by simp, by simp⟩
  have hlabelled : (startTree S i id lists).shelf.Labelled :=
    hnone.insert ⟨hvalid, hcacheable, fun _ hp => absurd hp List.not_mem_nil⟩
  obtain ⟨hlist, hvictim⟩ := (UsbTree.mem_collect_iff hlabelled).mp hlist
  obtain rfl : list = S.deviceList := List.mem_singleton.mp hlist
  refine ⟨rfl, ?_⟩
  rw [← List.append_nil victims]
  refine collect_skip (fun p hp hmem => hvictim ?_) []
  rwa [← List.mem_singleton.mp (show p ∈ [S.deviceList] from hmem)]

/-- The device list is put into the cache, and pinned. -/
theorem listTree_init_answers (handlers : Lru.Handlers) (now : ℕ) (lists : P → UsbList) (i : ListId) :
    Ensures (Lru.Tolerated False) (Lru.ListTree.init S.manager handlers now lists S.deviceList) fun tree =>
      (∃ L, Intact False S.forest tree.cache L) ∧ tree.rootListId.isValid = true ∧ tree.rootListId.nocacheBit = false ∧
        ∃ victims, treeOf i tree.cache = (startTree S i tree.rootListId lists).collect S.toUsbSetup victims := by
  have hroot : ∀ q, S.forest.parent S.deviceList ≠ some q := fun q hq => by rw [S.root] at hq; cases hq
  have haccepts : (Cache.init now lists).Accepts S.manager.toSetup now S.deviceList :=
    ⟨rfl, Nat.le_refl now, fun q hq => absurd hq (hroot q)⟩
  unfold Lru.ListTree.init
  refine (insert_answers i (Lru.init_intact False S.forest now lists) haccepts List.not_mem_nil
    (fun q hq => absurd hq (hroot q)) fun q hq => absurd hq (hroot q)).bind fun r hr => ?_
  obtain ⟨id, s₁⟩ := r
  obtain ⟨hinserted, -⟩ := hr
  obtain ⟨L₁, h₁⟩ := hinserted.intact
  refine (pin_collects i h₁ id).bind fun r hr => ?_
  obtain ⟨pinned, s₂⟩ := r
  obtain ⟨L₂, h₂⟩ := hr
  refine .check_bind (fun _ hf => hf.elim) fun hvalid => .pure ⟨⟨L₂, h₂.intact⟩, hvalid, hinserted.cacheable, ?_⟩
  obtain ⟨victims, htree⟩ := hinserted.tree
  obtain ⟨victims', htree'⟩ := h₂.collects
  refine ⟨victims ++ victims', htree'.trans ?_⟩
  rw [htree, UsbTree.collect, UsbTree.collect, UsbTree.collect, List.foldl_append]
  rfl

/-- The tree is settled when it has been initialized, and its cache is intact. -/
theorem init_settled {devices : List (ℕ × String × String)} {volumes : List (ℕ × VolumeInfo)}
    (h : init S e devices volumes = .ok t₀) : t₀.usbTree.Settled S.toUsbSetup ∧ t₀.IsIntact S := by
  unfold CachedTree.init at h
  obtain ⟨tree, hinit, h⟩ := of_ofCache h
  obtain ⟨-, h⟩ := UsbTree.of_assert h
  obtain ⟨list, hfind, h⟩ := UsbTree.of_deref h
  obtain ⟨⟨L, hL⟩, hvalid, hcacheable, victims, htree⟩ := (listTree_init_answers _ _ _ tree.rootListId).ok hinit
  generalize hitems : UsbTree.fillListFromMountaData devices volumes = items at h
  generalize hlists : Function.update (fun _ => UsbList.dir []) S.deviceList (.devices []) = lists at htree
  have hlist : list ∈ (treeOf tree.rootListId tree.cache).shelf.cached := (Shelf.mem_of_find hfind).1
  rw [htree] at hlist
  obtain ⟨rfl, hkept⟩ := collect_startTree hvalid hcacheable hlist
  rw [hkept] at htree
  have hfilled :
      (CachedTree.setList ⟨tree.cache, tree.rootListId⟩ S.deviceList (.devices items)).usbTree.Settled
        S.toUsbSetup := by
    change ((treeOf tree.rootListId tree.cache).setList S.deviceList (.devices items)).Settled S.toUsbSetup
    rw [htree, ← hitems, ← hlists]
    have hid : Function.update (fun _ => ListId.invalid) S.deviceList tree.rootListId S.deviceList = tree.rootListId :=
      Function.update_self ..
    have hdone := UsbTree.settled_start (T := S.toUsbSetup) hvalid hcacheable hid devices volumes
    simpa only [startTree, UsbTree.setList, UsbTree.init, Function.update_idem] using hdone
  have hintact : (CachedTree.setList ⟨tree.cache, tree.rootListId⟩ S.deviceList (.devices items)).IsIntact S :=
    IsIntact.setList ⟨L, hL⟩ S.deviceList _
  have hroot : S.deviceList ∈ tree.cache.allObjects := (Shelf.mem_of_find hfind).1
  change (if devices = [] then _ else _) = _ at h
  split at h
  · cases h
    exact ⟨hfilled, hintact⟩
  · obtain ⟨h', newId, hmodel⟩ := reinsertDeviceList_refines hintact hfilled.rooted.labelled h
    exact ⟨hfilled.reinsertDeviceList hroot (hmodel { e.answers with newId := newId } rfl), h'⟩

/-! ## Runs -/

/-- A run of `UsbTree` with the same calls, in which the surroundings cooperate. -/
def Modelled (S : CachedSetup P) (t₀ : CachedTree P) (calls : List (CachedCall × Circumstances P))
    (t : CachedTree P) : Prop :=
  ∃ modelCalls : List (UsbCall × Answers P), modelCalls.map (·.1) = calls.map (·.1.usbCall) ∧
    Run (When (UsbTree.Step S.toUsbSetup) (UsbTree.Cooperates S.toUsbSetup)) t₀.usbTree modelCalls t.usbTree

theorem Modelled.snoc (h : Modelled S t₀ calls t) {a : Answers P} (hmatches : Matches S t (call.1.usbCall, a) t')
    (hroot : S.deviceList ∈ t'.cache.allObjects) : Modelled S t₀ (calls ++ [call]) t' := by
  obtain ⟨modelCalls, hcalls, hrun⟩ := h
  refine ⟨modelCalls ++ [(call.1.usbCall, a)], ?_, hrun.snoc ⟨⟨hmatches.reads, hmatches.orderly hroot⟩, hmatches.step⟩⟩
  rw [List.map_append, List.map_append, hcalls]
  rfl

/-- What holds in every state of a run. -/
structure Coherent (S : CachedSetup P) (t₀ : CachedTree P) (calls : List (CachedCall × Circumstances P))
    (t : CachedTree P) : Prop where
  settled : t.usbTree.Settled S.toUsbSetup
  intact : t.IsIntact S
  modelled : S.deviceList ∈ t.cache.allObjects → Modelled S t₀ calls t

theorem Coherent.step (h : Coherent S t₀ calls t) (hserved : t.Served S call) (hstep : t.Step S call t') :
    Coherent S t₀ (calls ++ [call]) t' := by
  obtain ⟨a, hmatches⟩ := step_refines h.settled h.intact hserved hstep
  refine ⟨h.settled.step hmatches.reads hmatches.step, hmatches.intact, fun hroot => ?_⟩
  exact (h.modelled (h.settled.root_of_step hmatches.step hroot)).snoc hmatches hroot

theorem run_coherent {devices : List (ℕ × String × String)} {volumes : List (ℕ × VolumeInfo)}
    (hinit : init S e devices volumes = .ok t₀) (h : Run (When (Step S) (Served S)) t₀ calls t) :
    Coherent S t₀ calls t := by
  obtain ⟨hsettled, hintact⟩ := init_settled hinit
  have hstart : Coherent S t₀ [] t₀ := ⟨hsettled, hintact, fun _ => ⟨[], rfl, .nil _⟩⟩
  exact h.history (fun _ _ _ _ hI hstep => hI.step hstep.1 hstep.2) hstart

/-- The list tree on the cache refines `UsbTree`: as long as the device list is cached, a run is one of `UsbTree`
with the same calls and with answers of a cache that cooperates; so the links agree with the parents, which are
cached. -/
theorem run_refines {devices : List (ℕ × String × String)} {volumes : List (ℕ × VolumeInfo)}
    (hinit : init S e devices volumes = .ok t₀) (h : Run (When (Step S) (Served S)) t₀ calls t)
    (hroot : S.deviceList ∈ t.cache.allObjects) :
    Modelled S t₀ calls t ∧ UsbTree.Linked S.toUsbSetup t.usbTree ∧ Grounded S.toUsbSetup t.cache.allObjects := by
  have hcoherent := run_coherent hinit h
  exact ⟨hcoherent.modelled hroot, hcoherent.settled.sound.linked, hroot, hcoherent.intact.parents⟩

/-- The tree of `forkedSetup` on a cache. -/
def cachedSetup : CachedSetup ℕ where
  toUsbSetup := UsbTree.forkedSetup
  memoryLimits := Lru.exampleLimits
  countLimits := Lru.exampleLimits
  maximumAgeThreshold := 15
  partition := Lru.stablePartition ListId

/-- What a call meets in the given second. A list that is made is `entry`. -/
def meets (second entry : ℕ) : Circumstances ℕ where
  now := second * 10 ^ 9
  handlers := ⟨true, true⟩
  mayContinue := true
  entry := entry
  created := second * 10 ^ 9
  size := 10
  readDir _ := some (["albums"], [])

/-- The lists of volumes and the root directories of two devices are entered, a client uses one of them and leaves
it again, and the first device is removed. -/
def cachedCalls : List (CachedCall × Circumstances ℕ) :=
  [(.usb (.newUsbDevice 2 "disk" "1-2"), meets 1 0),
    (.usb (.newVolume 2 "photos" "/run/MounTA/2" 2), meets 2 0),
    (.usb (.enterChild ⟨3⟩ 0), meets 3 1),
    (.usb (.enterChild ⟨3⟩ 1), meets 4 2),
    (.useList ⟨5⟩ true, meets 5 0),
    (.usb (.enterChild ⟨4⟩ 0), meets 6 3),
    (.usb (.enterChild ⟨5⟩ 0), meets 7 5),
    (.discardListHint ⟨5⟩, meets 8 0),
    (.usb (.deviceRemoved 1), meets 9 0)]

/-- Time has passed, and the thousandth ID is left. -/
def ThousandthIdLeft (t : CachedTree ℕ) (call : CachedCall × Circumstances ℕ) : Prop :=
  t.cache.minimumRequiredCreationTime < call.2.now ∧
    t.cache.find (Lru.CacheIdGenerator.makeListId 1000 .cached 0) = none ∧
    ∀ p ∈ t.cache.allObjects, Lru.CacheIdGenerator.getContext (t.cache.id p) = 0

instance (t : CachedTree ℕ) (call : CachedCall × Circumstances ℕ) : Decidable (ThousandthIdLeft t call) :=
  inferInstanceAs (Decidable (_ ∧ _ ∧ _))

theorem ThousandthIdLeft.served {t : CachedTree ℕ} {call : CachedCall × Circumstances ℕ} (h : ThousandthIdLeft t call) :
    t.Served cachedSetup call := by
  obtain ⟨hlater, hfree, hcontext⟩ := h
  obtain ⟨call, e⟩ := call
  cases call with
  | useList id pinIt => trivial
  | discardListHint id => trivial
  | usb call =>
    cases call with
    | enterChild list item =>
      intro this hthis _ _
      refine ⟨⟨hlater, 1000, ⟨by decide, by decide⟩, ?_⟩, .inl rfl⟩
      rw [hcontext this (Shelf.mem_of_find hthis).1]
      exact hfree
    | newUsbDevice id name usbPort => trivial
    | newVolume number label mountpoint deviceId => trivial
    | deviceRemoved id => trivial
    | gc => trivial

/-- What holds after the calls of an example that is run. -/
theorem run_any (calls : List (CachedCall × Circumstances ℕ)) {Q : CachedTree ℕ → Bool}
    (h : ((init cachedSetup (meets 0 0) [(1, "stick", "1-1")] [(1, ⟨1, "music", "/run/MounTA/1"⟩)]).toOption.any
      fun t₀ =>
      (exec (fun t call => (t.run cachedSetup call.2 call.1).toOption) ThousandthIdLeft calls t₀).any Q) = true) :
    ∃ t₀ t, init cachedSetup (meets 0 0) [(1, "stick", "1-1")] [(1, ⟨1, "music", "/run/MounTA/1"⟩)] = .ok t₀ ∧
      Run (When (Step cachedSetup) (Served cachedSetup)) t₀ calls t ∧ Q t = true := by
  obtain ⟨t₀, hinit, h⟩ := (Option.any_eq_true _ _).mp h
  have hstep : ∀ (t : CachedTree ℕ) (call : CachedCall × Circumstances ℕ) (t' : CachedTree ℕ),
      (t.run cachedSetup call.2 call.1).toOption = some t' → Step cachedSetup t call t' := fun _ _ _ h =>
        ok_of_toOption h
  obtain ⟨t, hrun, hQ⟩ := Run.of_exec_any hstep h
  exact ⟨t₀, t, ok_of_toOption hinit, hrun.when_mono fun _ _ h => h.served, hQ⟩

theorem run_refines_removed : ∃ t₀ t : CachedTree ℕ,
    t.cache.allObjects = [0, 5, 2] ∧ Modelled cachedSetup t₀ cachedCalls t ∧
    UsbTree.Linked UsbTree.forkedSetup t.usbTree ∧ Grounded UsbTree.forkedSetup t.cache.allObjects := by
  obtain ⟨t₀, t, hinit, hrun, ht⟩ :=
    run_any cachedCalls (Q := fun t => t.cache.allObjects = [0, 5, 2]) (by decide +kernel)
  have hcached := of_decide_eq_true ht
  exact ⟨t₀, t, hcached, run_refines hinit hrun (by rw [hcached]; decide)⟩

end CachedTree

end Listbrokers.Tree
