import Listbrokers.Queue.Navigation

/-!
# Whom a cancellation disturbs

The permission to block is one counter for all works of a list tree, so that a
work that is canceled while it is running takes the permission from all others,
until it is destroyed. The works do not disturb each other exactly if none is
canceled while others run, and none is started before those that have been
canceled are gone (`Undisturbed`).
-/

namespace Listbrokers.Queue

open Framework Async

variable {W : Type} [DecidableEq W]

namespace NavLists

variable (s : NavLists W)

/-- The counter counts the works that have been canceled while they were running, and still exist. -/
def Counted : Prop :=
  ∃ works : List W, works.Nodup ∧ (∀ w, w ∈ works ↔ s.cancellationRequested w = true ∧ s.destroyed w = false) ∧
    s.cancelBlockingOperationCounter = works.length

/-- A running work that is not allowed to block has been canceled. -/
def Calm : Prop :=
  ∀ i w, (s.queue i).worker = .running w → s.isBlockingOperationAllowed = false → s.cancellationRequested w = true

/-- What holds in every run. -/
structure Sound : Prop where
  conserved : ∀ i, Conserved (s.queue i)
  apart : ∀ i j w, w ∈ (s.queue i).accepted → w ∈ (s.queue j).accepted → i = j
  running : ∀ i w, (s.queue i).worker = .running w → w ∈ (s.queue i).accepted ∧
    ((s.queue i).queue.state w = .running ∨ s.cancellationRequested w = true)
  requested : ∀ w, s.cancellationRequested w = true →
    ∃ i, w ∈ (s.queue i).accepted ∧ Settled ((s.queue i).queue.state w)
  counted : s.Counted
  alive : ∀ i w, w ∈ (s.queue i).queue.pending ∨ (s.queue i).worker.work? = some w → s.destroyed w = false
  existed : ∀ w, s.destroyed w = true → ∃ i, w ∈ (s.queue i).accepted

end NavLists

open NavLists

variable {s s' : NavLists W} {i : NavQueue} {l : AsyncLabel W} {label : NavLabel W}
    {labels : List (NavLabel W)} {w v : W}
  {works : List W} {maximum : NavQueue → ℕ}

section

omit [DecidableEq W]

theorem NavLists.Counted.allowed_eq_false (h : s.Counted) :
    s.isBlockingOperationAllowed = false ↔ ∃ v, s.cancellationRequested v = true ∧ s.destroyed v = false := by
  obtain ⟨works, -, hmem, hcounter⟩ := h
  rw [isBlockingOperationAllowed, hcounter]
  cases works with
  | nil =>
    simp only [List.length_nil, beq_self_eq_true, Bool.true_eq_false, false_iff]
    rintro ⟨v, hv⟩
    exact absurd ((hmem v).mpr hv) List.not_mem_nil
  | cons v works =>
    simp only [List.length_cons, beq_eq_false_iff_ne, ne_eq, Nat.add_one_ne_zero, not_false_eq_true, true_iff]
    exact ⟨v, (hmem v).mp List.mem_cons_self⟩

end

/-! ## Canceling works -/

/-- What `cancel` does to the list tree. -/
structure Requests (s t : NavLists W) (requested : W → Prop) : Prop where
  queue : t.queue = s.queue
  workByCookie : t.workByCookie = s.workByCookie
  interrupted : t.interrupted = s.interrupted
  destroyed : t.destroyed = s.destroyed
  cancellationRequested : ∀ w, t.cancellationRequested w = true ↔ s.cancellationRequested w = true ∨ requested w
  counted : t.Counted

theorem requests_doCancel (h : s.Counted) (hw : s.destroyed w = false) : Requests s (s.doCancel w) (· = w) := by
  unfold doCancel
  split
  · next hrequested =>
    refine ⟨rfl, rfl, rfl, rfl, fun v => ⟨.inl, ?_⟩, h⟩
    rintro (hv | rfl)
    · exact hv
    · exact hrequested
  · next hrequested =>
    have hflag : ∀ v, Function.update s.cancellationRequested w true v = true ↔
        s.cancellationRequested v = true ∨ v = w :=
      fun v => by
        by_cases e : v = w
        · subst e
          simp
        · simp [e]
    obtain ⟨works, hnodup, hmem, hcounter⟩ := h
    refine ⟨rfl, rfl, rfl, rfl, hflag, w :: works, List.nodup_cons.mpr ⟨?_, hnodup⟩, fun v => ?_, by simp [hcounter]⟩
    · exact fun hw' => hrequested ((hmem w).mp hw').1
    · dsimp only
      rw [hflag, List.mem_cons, hmem]
      constructor
      · rintro (rfl | ⟨hv, hv'⟩)
        · exact ⟨.inr rfl, hw⟩
        · exact ⟨.inl hv, hv'⟩
      · rintro ⟨hv | rfl, hv'⟩
        · exact .inr ⟨hv, hv'⟩
        · exact .inl rfl

/-- All works of a list that are running are asked to stop. -/
theorem requests_foldl (h : s.Counted)
    (halive : ∀ w ∈ works, (s.queue i).queue.state w = .running → s.destroyed w = false) :
    Requests s (works.foldl (cancel i) s) fun w => w ∈ works ∧ (s.queue i).queue.state w = .running := by
  induction works generalizing s with
  | nil => exact ⟨rfl, rfl, rfl, rfl, fun w => by simp, h⟩
  | cons w works ih =>
    rw [List.foldl_cons]
    by_cases hw : (s.queue i).queue.state w = .running
    · have hcancel := requests_doCancel h (halive w List.mem_cons_self hw)
      have hq : cancel i s w = s.doCancel w := if_pos hw
      have hrest := ih (s := cancel i s w) (hq ▸ hcancel.counted) fun v hv hv' => by
        rw [hq, hcancel.queue] at hv'
        rw [hq, hcancel.destroyed]
        exact halive v (List.mem_cons_of_mem w hv) hv'
      rw [hq] at hrest ⊢
      refine ⟨hrest.queue.trans hcancel.queue, hrest.workByCookie.trans hcancel.workByCookie,
        hrest.interrupted.trans hcancel.interrupted, hrest.destroyed.trans hcancel.destroyed, fun v => ?_,
          hrest.counted⟩
      rw [hrest.cancellationRequested, hcancel.cancellationRequested, hcancel.queue, List.mem_cons]
      constructor
      · rintro ((hv | rfl) | ⟨hv, hv'⟩)
        · exact .inl hv
        · exact .inr ⟨.inl rfl, hw⟩
        · exact .inr ⟨.inr hv, hv'⟩
      · rintro (hv | ⟨rfl | hv, hv'⟩)
        · exact .inl (.inl hv)
        · exact .inl (.inr rfl)
        · exact .inr ⟨hv, hv'⟩
    · have hq : cancel i s w = s := if_neg hw
      rw [hq]
      have hrest := ih h fun v hv => halive v (List.mem_cons_of_mem w hv)
      refine ⟨hrest.queue, hrest.workByCookie, hrest.interrupted, hrest.destroyed, fun v => ?_, hrest.counted⟩
      rw [hrest.cancellationRequested, List.mem_cons]
      refine or_congr_right ⟨fun ⟨hv, hv'⟩ => ⟨.inr hv, hv'⟩, ?_⟩
      rintro ⟨rfl | hv, hv'⟩
      · exact absurd hv' hw
      · exact ⟨hv, hv'⟩

/-! ## Steps -/

section

omit [DecidableEq W]

theorem NavLists.Sound.init (maximum : NavQueue → ℕ) : (NavLists.init maximum : NavLists W).Sound where
  conserved i := .init (maximum i)
  apart _ _ _ hw := nomatch hw
  running _ _ hw := nomatch hw
  requested _ hw := nomatch hw
  counted := ⟨[], .nil, by simp [NavLists.init], rfl⟩
  alive _ _ _ := rfl
  existed _ hw := nomatch hw

end

namespace NavLists.Sound

variable (h : s.Sound)

include h

section

omit [DecidableEq W]

theorem mem_accepted_of_canceledBy (hpermits : s.Permits i l) (hw : w ∈ (s.queue i).canceledBy l) :
    w ∈ (s.queue i).accepted := by
  have hall : w ∈ (s.queue i).queue.queue ++ (s.queue i).queue.workInProgress.toList →
      w ∈ (s.queue i).accepted := fun hw =>
    (h.conserved i).mem_accepted_of_pending
      (WorkQueue.mem_pending.mpr ((List.mem_append.mp hw).symm.imp_left (by simp)))
  cases l with
  | addWork work =>
    rw [AsyncQueue.canceledBy] at hw
    split at hw
    · cases hw
    · exact hall (List.mem_append_right _ hw)
  | clear => exact hall hw
  | shutdown => exact hall hw
  | cancel work => exact List.mem_singleton.mp hw ▸ hpermits.1
  | check =>
    rw [AsyncQueue.canceledBy] at hw
    split at hw
    · cases hw
    · exact hall hw
  | _ => cases hw

/-- A running work exists. -/
theorem exists_of_running (hw : w ∈ (s.queue i).accepted) (hrunning : (s.queue i).queue.state w = .running) :
    s.destroyed w = false := by
  have hworker := (h.conserved i).running w hw hrunning
  exact h.alive i w (.inr (by rw [hworker]; rfl))

end

theorem requests (hpermits : s.Permits i l) : Requests s (((s.queue i).canceledBy l).foldl (cancel i) s)
    fun w => w ∈ (s.queue i).canceledBy l ∧ (s.queue i).queue.state w = .running :=
  requests_foldl h.counted fun _ hw hrunning => h.exists_of_running (h.mem_accepted_of_canceledBy hpermits hw) hrunning

/-- What has been asked to stop after a step of a queue. -/
theorem requested_proceed {q : AsyncQueue W} (hpermits : s.Permits i l) :
    (s.proceed i l q).cancellationRequested w = true ↔ s.cancellationRequested w = true ∨
      w ∈ (s.queue i).canceledBy l ∧ (s.queue i).queue.state w = .running :=
  (h.requests hpermits).cancellationRequested w

theorem proceed {q : AsyncQueue W} (hs : AsyncStep (s.queue i) l q) (hpermits : s.Permits i l) :
    (s.proceed i l q).Sound := by
  have hrequests := h.requests hpermits
  have hself : (s.proceed i l q).queue i = q := Function.update_self _ _ _
  have hother : ∀ j, j ≠ i → (s.proceed i l q).queue j = s.queue j := fun j hj => Function.update_of_ne hj _ _
  have hdestroyed : (s.proceed i l q).destroyed = s.destroyed := hrequests.destroyed
  have haccepted : ∀ j w, w ∈ ((s.proceed i l q).queue j).accepted →
      w ∈ (s.queue j).accepted ∨ j = i ∧ l = .addWork w :=
    fun j w hw => by
      by_cases e : j = i
      · subst e
        rw [hself, mem_accepted_step hs] at hw
        exact hw.imp_right fun hw => ⟨rfl, hw⟩
      · exact .inl (hother j e ▸ hw)
  have hnew : ∀ j w, l = .addWork w → w ∉ (s.queue j).accepted := by
    rintro j w rfl
    exact hpermits j
  have hstate := state_step hs (h.conserved i).empty
  refine ⟨fun j => ?_, fun j k w hj hk => ?_, fun j w hw => ?_, fun w hw => ?_, ?_, fun j w hw => ?_, fun w hw => ?_⟩
  · by_cases e : j = i
    · subst e
      rw [hself]
      exact (h.conserved j).step hs
    · rw [hother j e]
      exact h.conserved j
  · rcases haccepted j w hj with hj' | ⟨rfl, hadd⟩
    · rcases haccepted k w hk with hk' | ⟨rfl, hadd⟩
      · exact h.apart j k w hj' hk'
      · exact absurd hj' (hnew j w hadd)
    · rcases haccepted k w hk with hk' | ⟨rfl, -⟩
      · exact absurd hk' (hnew k w hadd)
      · rfl
  · rw [h.requested_proceed hpermits]
    by_cases e : j = i
    · subst e
      rw [hself] at hw ⊢
      rw [mem_accepted_step hs]
      rcases running_step hs hw with ⟨hworker, hstart, hfinish⟩ | ⟨-, hpicked, hrunnable, hrunning⟩
      · obtain ⟨hmem, hrunning⟩ := h.running j w hworker
        refine ⟨.inl hmem, ?_⟩
        rcases hrunning with hrunning | hrequested
        · rcases hstate w with ⟨hcanceled, -⟩ | ⟨-, hsame⟩ | ⟨hl, -⟩ | ⟨success, hl, -⟩
          · exact .inr (.inr ⟨hcanceled, hrunning⟩)
          · exact .inl (hsame.trans hrunning)
          · exact absurd hl hstart
          · exact absurd hl (hfinish success)
        · exact .inr (.inl hrequested)
      · have hwip := (h.conserved j).picked w hpicked hrunnable
        exact ⟨.inl ((h.conserved j).mem_accepted_of_pending (WorkQueue.mem_pending.mpr (.inl hwip))), .inl hrunning⟩
    · rw [hother j e] at hw ⊢
      obtain ⟨hmem, hrunning⟩ := h.running j w hw
      exact ⟨hmem, hrunning.imp_right .inl⟩
  · -- a state that is final, or is about to be, stays so
    have hsettled : ∀ w, Settled ((s.queue i).queue.state w) → Settled (q.queue.state w) := fun w hw => by
      rcases hstate w with ⟨-, e⟩ | ⟨-, e⟩ | ⟨-, -, hrunnable, -⟩ | ⟨success, -, -, e⟩
      · exact e ▸ settled_cancelState _
      · exact e ▸ hw
      · exact absurd hrunnable hw.ne_runnable
      · exact e ▸ settled_endState success _
    rcases (h.requested_proceed hpermits).mp hw with hw | ⟨hcanceled, hrunning⟩
    · obtain ⟨j, hmem, hfinal⟩ := h.requested w hw
      refine ⟨j, ?_⟩
      by_cases e : j = i
      · subst e
        rw [hself, mem_accepted_step hs]
        exact ⟨.inl hmem, hsettled w hfinal⟩
      · rw [hother j e]
        exact ⟨hmem, hfinal⟩
    · refine ⟨i, ?_⟩
      rw [hself, mem_accepted_step hs]
      refine ⟨.inl (h.mem_accepted_of_canceledBy hpermits hcanceled), ?_⟩
      rcases hstate w with ⟨-, e⟩ | ⟨hnot, -⟩ | ⟨-, -, hrunnable, -⟩ | ⟨success, -, -, e⟩
      · exact e ▸ settled_cancelState _
      · exact absurd hcanceled hnot
      · cases hrunnable.symm.trans hrunning
      · exact e ▸ settled_endState success _
  · exact hrequests.counted
  · rw [hdestroyed]
    by_cases e : j = i
    · subst e
      rw [hself] at hw
      rcases pending_step hs hw with hw | hadd
      · exact h.alive j w hw
      · refine Bool.eq_false_iff.mpr fun hw => ?_
        obtain ⟨k, hk⟩ := h.existed w hw
        exact hnew k w hadd hk
    · rw [hother j e] at hw
      exact h.alive j w hw
  · rw [hdestroyed] at hw
    obtain ⟨j, hj⟩ := h.existed w hw
    refine ⟨j, ?_⟩
    by_cases e : j = i
    · subst e
      rw [hself, mem_accepted_step hs]
      exact .inl hj
    · rw [hother j e]
      exact hj

theorem destroy (hw : w ∈ (s.queue i).accepted) (hexists : s.destroyed w = false) (hreferenced : ¬ s.Referenced w) :
    (s.destroy w).Sound := by
  have hdestroyed : ∀ v, (s.destroy w).destroyed v = true ↔ s.destroyed v = true ∨ v = w := fun v => by
    by_cases e : v = w
    · subst e
      simp [NavLists.destroy]
    · simp [NavLists.destroy, e]
  have hdestroyed' : ∀ v, (s.destroy w).destroyed v = false ↔ s.destroyed v = false ∧ v ≠ w := fun v => by
    rw [← Bool.not_eq_true, hdestroyed, not_or, Bool.not_eq_true]
  refine ⟨h.conserved, h.apart, h.running, h.requested, ?_, fun j v hv => ?_, fun v hv => ?_⟩
  · obtain ⟨works, hnodup, hmem, hcounter⟩ := h.counted
    by_cases hrequested : s.cancellationRequested w = true
    · refine ⟨works.erase w, hnodup.erase w, fun v => ?_, ?_⟩
      · rw [hnodup.mem_erase_iff, hmem, hdestroyed']
        exact ⟨fun ⟨e, hv, hv'⟩ => ⟨hv, hv', e⟩, fun ⟨hv, hv', e⟩ => ⟨e, hv, hv'⟩⟩
      · rw [List.length_erase_of_mem ((hmem w).mpr ⟨hrequested, hexists⟩), ← hcounter]
        exact if_pos hrequested
    · refine ⟨works, hnodup, fun v => ?_, (if_neg hrequested).trans hcounter⟩
      rw [hmem, hdestroyed']
      refine and_congr_right fun hv => (and_iff_left ?_).symm
      rintro rfl
      exact hrequested hv
  · refine Bool.eq_false_iff.mpr fun hv' => ?_
    rcases (hdestroyed v).mp hv' with hv' | rfl
    · exact absurd hv' (by simp [h.alive j v hv])
    · exact hreferenced (.inr (.inr ⟨j, hv⟩))
  · rcases (hdestroyed v).mp hv with hv | rfl
    · exact h.existed v hv
    · exact ⟨i, hw⟩

theorem step (hs : NavStep s label s') : s'.Sound := by
  cases hs with
  | queue i hs hpermits => exact h.proceed hs hpermits
  | find w => exact ⟨h.conserved, h.apart, h.running, h.requested, h.counted, h.alive, h.existed⟩
  | drop w eaten => exact ⟨h.conserved, h.apart, h.running, h.requested, h.counted, h.alive, h.existed⟩
  | destroy i w hw hexists hreferenced => exact h.destroy hw hexists hreferenced
  | enterChild hw =>
    unfold enterChild
    split
    · exact h
    · exact ⟨h.conserved, h.apart, h.running, h.requested, h.counted, h.alive, h.existed⟩

end NavLists.Sound

/-! ## Isolation -/

/-- After a step of a queue, works are still calm exactly if the step does not disturb one. -/
theorem calm_proceed_iff {q : AsyncQueue W} (h : s.Sound) (hcalm : s.Calm) (hs : AsyncStep (s.queue i) l q)
    (hpermits : s.Permits i l) : (s.proceed i l q).Calm ↔ Undisturbed s (.queue i l) := by
  have hrequests := h.requests hpermits
  have hself : (s.proceed i l q).queue i = q := Function.update_self _ _ _
  have hother : ∀ j, j ≠ i → (s.proceed i l q).queue j = s.queue j := fun j hj => Function.update_of_ne hj _ _
  have hallowed : (s.proceed i l q).isBlockingOperationAllowed = false ↔
      ∃ v, (s.cancellationRequested v = true ∨ v ∈ (s.queue i).canceledBy l ∧ (s.queue i).queue.state v = .running) ∧
        s.destroyed v = false := by
    refine (h.proceed hs hpermits).counted.allowed_eq_false.trans (exists_congr fun v => ?_)
    rw [h.requested_proceed hpermits, show (s.proceed i l q).destroyed = s.destroyed from hrequests.destroyed]
  constructor
  · intro hcalm'
    refine ⟨?_, ?_⟩
    · rintro ⟨v, hv, hrunning, -⟩ j w hw hrequested
      -- the work keeps running, without the permission to block
      have hkeeps : ((s.proceed i l q).queue j).worker = .running w := by
        by_cases e : j = i
        · subst e
          rw [hself]
          refine running_of_step hs hw ?_
          rintro success rfl
          cases hv
        · rw [hother j e]
          exact hw
      have hexists := h.exists_of_running (h.mem_accepted_of_canceledBy hpermits hv) hrunning
      have hw' := hcalm' j w hkeeps (hallowed.mpr ⟨v, .inr ⟨hv, hrunning⟩, hexists⟩)
      rcases (h.requested_proceed hpermits).mp hw' with hw' | ⟨hw', -⟩
      · cases hrequested.symm.trans hw'
      · exact hw'
    · rintro rfl w hpicked hrunnable v hv
      by_contra hexists
      have hworker : ((s.proceed i .start q).queue i).worker = .running w := by
        rw [hself]
        cases hs with
        | start hworker =>
          cases hworker.symm.trans hpicked
          dsimp only
          rw [startRun, if_pos hrunnable]
      have hw := hcalm' i w hworker (hallowed.mpr ⟨v, .inl hv, Bool.eq_false_iff.mpr hexists⟩)
      rcases (h.requested_proceed hpermits).mp hw with hw | ⟨hw, -⟩
      · obtain ⟨j, hmem, hsettled⟩ := h.requested w hw
        have hwip := (h.conserved i).picked w hpicked hrunnable
        cases h.apart j i w hmem ((h.conserved i).mem_accepted_of_pending (WorkQueue.mem_pending.mpr (.inl hwip)))
        exact hsettled.ne_runnable hrunnable
      · cases hw
  · rintro ⟨hcancels, hstarts⟩ j w hw hblocked
    obtain ⟨v, hv, hexists⟩ := hallowed.mp hblocked
    -- the work has been running, or it has just been started
    have hbefore : (s.queue j).worker = .running w ∨ l = .start ∧ (s.queue i).worker = .picked w ∧
        (s.queue i).queue.state w = .runnable := by
      by_cases e : j = i
      · subst e
        rw [hself] at hw
        exact (running_step hs hw).imp (fun h => h.1) fun ⟨hl, hpicked, hrunnable, _⟩ => ⟨hl, hpicked, hrunnable⟩
      · rw [hother j e] at hw
        exact .inl hw
    rcases hbefore with hbefore | ⟨rfl, hpicked, hrunnable⟩
    · refine (h.requested_proceed hpermits).mpr ?_
      by_cases hrequested : s.cancellationRequested w = true
      · exact .inl hrequested
      · right
        have hnone : s.cancellationRequested v = false := Bool.eq_false_iff.mpr fun hv =>
          hrequested (hcalm j w hbefore (h.counted.allowed_eq_false.mpr ⟨v, hv, hexists⟩))
        obtain ⟨hcanceled, hrunning⟩ := hv.resolve_left (by simp [hnone])
        have hw' := hcancels ⟨v, hcanceled, hrunning, hnone⟩ j w hbefore (Bool.eq_false_iff.mpr hrequested)
        obtain ⟨hmem, hrunning'⟩ := h.running j w hbefore
        cases h.apart i j w (h.mem_accepted_of_canceledBy hpermits hw') hmem
        exact ⟨hw', hrunning'.resolve_right hrequested⟩
    · rcases hv with hv | ⟨hv, -⟩
      · cases hexists.symm.trans (hstarts rfl w hpicked hrunnable v hv)
      · cases hv

/-- Works stay calm exactly if a step does not disturb one. -/
theorem calm_step_iff (h : s.Sound) (hcalm : s.Calm) (hs : NavStep s label s') : s'.Calm ↔ Undisturbed s label := by
  cases hs with
  | queue i hs hpermits => exact calm_proceed_iff h hcalm hs hpermits
  | find w => exact iff_of_true hcalm trivial
  | drop w eaten => exact iff_of_true hcalm trivial
  | @destroy i w hw hexists hreferenced =>
    refine iff_of_true (fun j v hv hblocked => hcalm j v hv ?_) trivial
    -- works that have been canceled and still exist have existed before
    obtain ⟨u, hu, hexists'⟩ := (h.destroy hw hexists hreferenced).counted.allowed_eq_false.mp hblocked
    refine h.counted.allowed_eq_false.mpr ⟨u, hu, ?_⟩
    by_cases e : u = w
    · exact e ▸ hexists
    · simpa [NavLists.destroy, e] using hexists'
  | enterChild hw =>
    refine iff_of_true ?_ trivial
    unfold enterChild
    split
    · exact hcalm
    · exact hcalm

/-- Only works that have been canceled fail because of an interruption. -/
theorem interrupted_step (h : s.Sound) (hcalm : s.Calm) (hs : NavStep s label s')
    (hinterrupted : ∀ w, s.interrupted w = true → s.cancellationRequested w = true) (w : W)
    (hw : s'.interrupted w = true) : s'.cancellationRequested w = true := by
  cases hs with
  | queue i hs hpermits =>
    rw [show (s.proceed i _ _).interrupted = s.interrupted from (h.requests hpermits).interrupted] at hw
    exact (h.requested_proceed hpermits).mpr (.inl (hinterrupted w hw))
  | find => exact hinterrupted w hw
  | drop => exact hinterrupted w hw
  | destroy => exact hinterrupted w hw
  | @enterChild i v hv =>
    unfold enterChild at hw ⊢
    by_cases hallowed : s.isBlockingOperationAllowed = true
    · rw [if_pos hallowed] at hw ⊢
      exact hinterrupted w hw
    · rw [if_neg hallowed] at hw ⊢
      by_cases e : w = v
      · exact e ▸ hcalm i v hv (Bool.eq_false_iff.mpr hallowed)
      · exact hinterrupted w (by simpa [e] using hw)

/-- A work is interrupted as another one has been canceled, be it that this one is still running on another queue,
or that only its handler refers to it. -/
theorem other_work_interrupted :
    (∃ s : NavLists (Fin 2), Run NavStep (.init fun _ => 0)
      [.queue .getRange (.addWork 0), .queue .getRange .lock, .queue .getRange .check, .queue .getRange .start,
        .queue .getListId (.addWork 1), .queue .getListId .lock, .queue .getListId .check, .queue .getListId .start,
        .queue .getRange (.cancel 0), .enterChild .getListId] s ∧
      s.interrupted 1 = true ∧ s.cancellationRequested 1 = false) ∧
    ∃ s : NavLists (Fin 2), Run NavStep (.init fun _ => 0)
      [.queue .getRange (.addWork 0), .queue .getRange .lock, .queue .getRange .check, .queue .getRange .start,
        .queue .getRange (.cancel 0), .queue .getRange (.finish true), .queue .getRange .next,
        .queue .getListId (.addWork 1), .queue .getListId .lock, .queue .getListId .check, .queue .getListId .start,
        .enterChild .getListId] s ∧
      s.interrupted 1 = true ∧ s.cancellationRequested 1 = false := by
  constructor
  · exact ⟨_, .cons (.queue .getRange (.addWork 0 nofun rfl rfl nofun) nofun) <|
      .cons (.queue .getRange (.lock rfl) trivial) <| .cons (.queue .getRange (.check rfl) trivial) <|
      .cons (.queue .getRange (.start rfl) trivial) <|
      .cons (.queue .getListId (.addWork 1 nofun rfl rfl nofun) (by rintro (_ | _) <;> decide)) <|
      .cons (.queue .getListId (.lock rfl) trivial) <| .cons (.queue .getListId (.check rfl) trivial) <|
      .cons (.queue .getListId (.start rfl) trivial) <| .cons (.queue .getRange (.cancel 0) ⟨by decide, by decide⟩) <|
      .cons (.enterChild (i := .getListId) rfl) <| .nil _, rfl, rfl⟩
  · exact ⟨_, .cons (.queue .getRange (.addWork 0 nofun rfl rfl nofun) nofun) <|
      .cons (.queue .getRange (.lock rfl) trivial) <| .cons (.queue .getRange (.check rfl) trivial) <|
      .cons (.queue .getRange (.start rfl) trivial) <| .cons (.queue .getRange (.cancel 0) ⟨by decide, by decide⟩) <|
      .cons (.queue .getRange (.finish true rfl) nofun) <| .cons (.queue .getRange (.next rfl) trivial) <|
      .cons (.queue .getListId (.addWork 1 nofun rfl rfl nofun) (by rintro (_ | _) <;> decide)) <|
      .cons (.queue .getListId (.lock rfl) trivial) <| .cons (.queue .getListId (.check rfl) trivial) <|
      .cons (.queue .getListId (.start rfl) trivial) <| .cons (.enterChild (i := .getListId) rfl) <| .nil _, rfl, rfl⟩

/-- As long as no step disturbs a work, a running work that is not allowed to block has been canceled itself, and so
has a work that was interrupted. The first step that is not like this takes the permission from another work. -/
theorem cancellation_isolated (h : Run (When NavStep Undisturbed) (.init maximum) labels s) :
    s.Calm ∧ (∀ w, s.interrupted w = true → s.cancellationRequested w = true) ∧
      ∀ label s', NavStep s label s' → (s'.Calm ↔ Undisturbed s label) := by
  have hall : s.Sound ∧ s.Calm ∧ ∀ w, s.interrupted w = true → s.cancellationRequested w = true :=
    h.invariant (P := fun s => s.Sound ∧ s.Calm ∧ ∀ w, s.interrupted w = true → s.cancellationRequested w = true)
      (fun s l s' ⟨hsound, hcalm, hinterrupted⟩ ⟨hundisturbed, hs⟩ => ⟨hsound.step hs,
        (calm_step_iff hsound hcalm hs).mpr hundisturbed, interrupted_step hsound hcalm hs hinterrupted⟩)
      ⟨.init maximum, nofun, nofun⟩
  exact ⟨hall.2.1, hall.2.2, fun label s' hs => calm_step_iff hall.1 hall.2.1 hs⟩

/-- A work is started when the one that was canceled before has been destroyed. -/
theorem cancellation_isolated_destroyed : ∃ s : NavLists (Fin 2), s.cancellationRequested 0 = true ∧
    (s.queue .getListId).worker = .running 1 ∧ s.Calm := by
  have hrun : ∃ s : NavLists (Fin 2), Run (When NavStep Undisturbed) (.init fun _ => 0)
      [.queue .getRange (.addWork 0), .queue .getRange .lock, .queue .getRange .check, .queue .getRange .start,
        .queue .getListId (.addWork 1), .queue .getRange (.cancel 0), .queue .getRange (.finish true),
        .queue .getRange .next, .drop 0 false, .destroy 0, .queue .getListId .lock, .queue .getListId .check,
        .queue .getListId .start, .enterChild .getListId] s ∧
      s.cancellationRequested 0 = true ∧ (s.queue .getListId).worker = .running 1 :=
    ⟨_, .cons ⟨⟨nofun, nofun⟩, .queue .getRange (.addWork 0 nofun rfl rfl nofun) nofun⟩ <|
      .cons ⟨⟨nofun, nofun⟩, .queue .getRange (.lock rfl) trivial⟩ <|
      .cons ⟨⟨nofun, nofun⟩, .queue .getRange (.check rfl) trivial⟩ <|
      .cons ⟨⟨nofun, fun _ _ _ _ => nofun⟩, .queue .getRange (.start rfl) trivial⟩ <|
      .cons ⟨⟨nofun, nofun⟩, .queue .getListId (.addWork 1 nofun rfl rfl nofun) (by rintro (_ | _) <;> decide)⟩ <|
      .cons ⟨⟨fun _ j w hw _ => by cases j <;> cases hw; exact List.mem_cons_self, nofun⟩,
        .queue .getRange (.cancel 0) ⟨by decide, by decide⟩⟩ <|
      .cons ⟨⟨nofun, nofun⟩, .queue .getRange (.finish true rfl) nofun⟩ <|
      .cons ⟨⟨nofun, nofun⟩, .queue .getRange (.next rfl) trivial⟩ <| .cons ⟨trivial, .drop 0 false (by decide)⟩ <|
      .cons ⟨trivial, .destroy .getRange 0 (by decide) rfl (by
        rintro (hjar | hhandlers | ⟨i, hi⟩)
        · cases hjar
        · exact absurd hhandlers (by decide)
        · revert hi
          cases i <;> decide)⟩ <|
      .cons ⟨⟨nofun, nofun⟩, .queue .getListId (.lock rfl) trivial⟩ <|
      .cons ⟨⟨nofun, nofun⟩, .queue .getListId (.check rfl) trivial⟩ <|
      .cons ⟨⟨nofun, fun _ _ _ _ => by decide⟩, .queue .getListId (.start rfl) trivial⟩ <|
      .cons ⟨trivial, .enterChild (i := .getListId) rfl⟩ <| .nil _, rfl, rfl⟩
  obtain ⟨s, hrun, hrequested, hrunning⟩ := hrun
  exact ⟨s, hrequested, hrunning, (cancellation_isolated hrun).1⟩

end Listbrokers.Queue
