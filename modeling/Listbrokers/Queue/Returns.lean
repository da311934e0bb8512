import Mathlib.Algebra.Order.BigOperators.Group.List
import Mathlib.Algebra.BigOperators.Ring.List
import Mathlib.Data.Fintype.Basic
import Mathlib.Tactic.Linarith
import Listbrokers.Queue.Callers

/-!
# Calls of `add_work` return

A caller that goes on gets closer to the end of its call, unless it goes to
sleep. Those that sleep are woken up by one that leaves, so that the number of
callers inside comes first in what is left to do (`SyncQueue.effort`).
-/

namespace Listbrokers.Queue

open Framework Async

variable {W : Type} [DecidableEq W]

/-- The number of steps that a caller is away from sleeping, or from leaving. -/
def ProcessPc.rank : ProcessPc W → ℕ
  | woken => 5
  | checking => 4
  | picked _ => 3
  | running _ => 2
  | returning _ => 1
  | asleep | left => 0

/-- A caller that is inside counts. -/
def ProcessPc.count : ProcessPc W → ℕ
  | left => 0
  | _ => 1

namespace SyncQueue

variable (s : SyncQueue W)

def numberInside : ℕ := (s.accepted.map fun w => (s.caller w).count).sum

def sumRanks : ℕ := (s.accepted.map fun w => (s.caller w).rank).sum

def effort : ℕ := 5 * (s.numberInside * s.numberInside) + s.sumRanks

end SyncQueue

variable {s s' : SyncQueue W} {l : SyncLabel W} {labels : List (SyncLabel W)} {w v work : W} {pc : ProcessPc W}
  {q : WorkQueue W} {maximum : ℕ}

section

omit [DecidableEq W]

@[simp] theorem ProcessPc.count_notify : pc.notify.count = pc.count := by cases pc <;> rfl

theorem ProcessPc.count_of_ne (h : pc ≠ .left) : pc.count = 1 := by
  cases pc with
  | left => exact absurd rfl h
  | _ => rfl

theorem ProcessPc.rank_le : pc.rank ≤ 5 * pc.count := by cases pc <;> simp [rank, count]

end

/-- A caller that stays inside has less to do. -/
theorem effort_process (hw : w ∈ s.accepted) (hold : s.caller w ≠ .left) (hnew : pc ≠ .left)
    (hrank : pc.rank < (s.caller w).rank) :
    ({ s with caller := s.proceed false w pc } : SyncQueue W).effort < s.effort := by
  have hcount : ({ s with caller := s.proceed false w pc } : SyncQueue W).numberInside = s.numberInside := by
    refine congrArg List.sum (List.map_congr_left fun v _ => ?_)
    refine s.forall_proceed (P := fun v pc => pc.count = (s.caller v).count) ?_ (fun v _ => rfl) v
    rw [ProcessPc.count_of_ne hold, ProcessPc.count_of_ne hnew]
  have hsum : ({ s with caller := s.proceed false w pc } : SyncQueue W).sumRanks < s.sumRanks := by
    refine List.sum_lt_sum _ _ (fun v _ => ?_) ⟨w, hw, ?_⟩
    · exact s.forall_proceed (P := fun v pc => pc.rank ≤ (s.caller v).rank) hrank.le (fun v _ => .refl) v
    · dsimp only
      rw [s.proceed_self]
      exact hrank
  rw [SyncQueue.effort, hcount]
  exact Nat.add_lt_add_left hsum _

/-- A caller that leaves may wake up all others. -/
theorem effort_leave (hw : w ∈ s.accepted) (hold : s.caller w ≠ .left) :
    ({ s with caller := s.proceed true w .left } : SyncQueue W).effort < s.effort := by
  have hcount : ({ s with caller := s.proceed true w .left } : SyncQueue W).numberInside < s.numberInside := by
    refine List.sum_lt_sum _ _ (fun v _ => ?_) ⟨w, hw, ?_⟩
    · dsimp only
      by_cases e : v = w
      · rw [e, s.proceed_self]
        exact Nat.zero_le _
      · rw [s.proceed_of_ne true e]
        exact ProcessPc.count_notify.le
    · dsimp only
      rw [s.proceed_self, ProcessPc.count_of_ne hold]
      exact Nat.zero_lt_one
  have hsum (s : SyncQueue W) : s.sumRanks ≤ 5 * s.numberInside := by
    rw [SyncQueue.numberInside, ← List.sum_map_mul_left]
    exact List.sum_le_sum fun v _ => ProcessPc.rank_le
  have hsum' := hsum { s with caller := s.proceed true w .left }
  simp only [SyncQueue.effort]
  nlinarith

/-- A caller that checks the condition goes to sleep, or takes its work, or leaves and notifies the others. -/
theorem processWorkItem_cases (w : W) (q : WorkQueue W) :
    ((processWorkItem (some w) .left q).2.1 = .left ∧ (processWorkItem (some w) .left q).2.2 = true) ∨
    (((processWorkItem (some w) .left q).2.1 = .asleep ∨ ∃ v, (processWorkItem (some w) .left q).2.1 = .picked v) ∧
      (processWorkItem (some w) .left q).2.2 = false) := by
  unfold processWorkItem
  repeat' split
  all_goals simp

/-- What callers do on their own comes to an end. -/
theorem effort_step (h : Attended s) (hl : l.OfCaller) (hs : SyncStep s l s') : s'.effort < s.effort := by
  cases hs with
  | addWork | clear | shutdown | wake => exact hl.elim
  | @lock w _ hw =>
    have hleft : s.caller w ≠ .left := by rw [hw]; nofun
    exact effort_process (h.inside w hleft) hleft nofun (by simp [hw, ProcessPc.rank])
  | @check w hw =>
    have hleft : s.caller w ≠ .left := by rw [hw]; nofun
    rcases processWorkItem_cases w s.queue with ⟨hpc, hnotify⟩ | ⟨hpc | ⟨v, hpc⟩, hnotify⟩
    · rw [hpc, hnotify]
      exact effort_leave (h.inside w hleft) hleft
    · rw [hpc, hnotify]
      exact effort_process (h.inside w hleft) hleft nofun (by simp [hw, ProcessPc.rank])
    · rw [hpc, hnotify]
      exact effort_process (h.inside w hleft) hleft nofun (by simp [hw, ProcessPc.rank])
  | @start w work hw =>
    have hleft : s.caller w ≠ .left := by rw [hw]; nofun
    unfold startRun
    split
    · exact effort_process (h.inside w hleft) hleft nofun (by simp [hw, ProcessPc.rank])
    · exact effort_process (h.inside w hleft) hleft nofun (by simp [hw, ProcessPc.rank])
  | @finish w work success hw =>
    have hleft : s.caller w ≠ .left := by rw [hw]; nofun
    exact effort_process (h.inside w hleft) hleft nofun (by simp [hw, ProcessPc.rank])
  | @next w work _ hw =>
    have hleft : s.caller w ≠ .left := by rw [hw]; nofun
    exact effort_leave (h.inside w hleft) hleft

section

omit [DecidableEq W]

theorem Careful.of_caller (hl : l.OfCaller) : Careful s l := by
  cases l with
  | addWork | clear => exact hl.elim
  | _ => trivial

end

/-- Without further calls, those that are inside take so many steps only, and none of them is left behind. -/
theorem Attended.return {ls : List (SyncLabel W)} (h : Attended s)
    (hr : Run (When SyncStep fun _ l => l.OfCaller) s ls s') :
    Attended s' ∧ ls.length + s'.effort ≤ s.effort := by
  induction hr with
  | nil => exact ⟨h, by simp⟩
  | cons hs _ ih =>
    have heffort := effort_step h hs.1 hs.2
    obtain ⟨h', hlength⟩ := ih (h.step (.of_caller hs.1) hs.2)
    refine ⟨h', ?_⟩
    rw [List.length_cons]
    omega

/-! ## Callers that are stranded, and callers that return -/

/-- A caller waits for a work that has been cleared; and one for a work that had to make room for another one before the
caller could take it. -/
theorem caller_stranded :
    (∃ s : SyncQueue (Fin 2), Run SyncStep (.init 1) [.addWork 0, .check 0, .addWork 1, .check 1, .clear] s ∧
      s.Stranded 1) ∧
    ∃ s : SyncQueue (Fin 4), Run SyncStep (.init 1)
      [.addWork 0, .check 0, .addWork 1, .check 1, .start 0, .finish 0 true,
      .next 0, .addWork 2, .check 2, .addWork 3] s ∧ s.Stranded 1 := by
  constructor
  · refine ⟨_, .cons (.addWork 0 nofun rfl rfl nofun) <| .cons (.check rfl) <|
      .cons (.addWork 1 (by decide) rfl rfl (by decide)) <| .cons (.check rfl) <|
        .cons (.clear (by decide)) <| .nil _, ?_⟩
    exact ⟨by decide, by decide, by decide, rfl⟩
  · refine ⟨_, .cons (.addWork 0 nofun rfl rfl nofun) <| .cons (.check rfl) <|
      .cons (.addWork 1 (by decide) rfl rfl (by decide)) <| .cons (.check rfl) <| .cons (.start rfl) <|
      .cons (.finish true rfl) <| .cons (.next (by decide) rfl) <| .cons (.addWork 2 (by decide) rfl rfl (by decide)) <|
      .cons (.check rfl) <| .cons (.addWork 3 (by decide) rfl rfl (by decide)) <| .nil _, ?_⟩
    exact ⟨by decide, by decide, by decide, rfl⟩

/-- As long as works are removed only when their callers do not wait for them, no caller is stranded, and all
return. The first step that is not like this leaves a caller behind. -/
theorem no_caller_stranded (h : Run (When SyncStep Careful) (.init maximum) labels s) :
    (∀ w, ¬ s.Stranded w) ∧
      (∀ l s', SyncStep s l s' → ((∃ w, s'.Stranded w) ↔ ¬ Careful s l)) ∧
      ∃ bound, ∀ ls s', Run (When SyncStep fun _ l => l.OfCaller) s ls s' → ls.length ≤ bound ∧
        ((∀ w, s'.caller w = .left) ∨ ∃ l s'', l.OfCaller ∧ SyncStep s' l s'') := by
  have hs : Attended s := h.invariant (fun _ _ _ ha hs => ha.step hs.1 hs.2) (.init maximum)
  refine ⟨hs.not_stranded, fun l s' hstep => ⟨?_, hs.exists_stranded hstep⟩, s.effort, fun ls s' hr => ?_⟩
  · rintro ⟨w, hw⟩ hcareful
    exact (hs.step hcareful hstep).not_stranded w hw
  · obtain ⟨hs', hlength⟩ := hs.return hr
    refine ⟨by omega, ?_⟩
    by_cases hall : ∀ w, s'.caller w = .left
    · exact .inl hall
    · obtain ⟨w, hw⟩ := not_forall.mp hall
      exact .inr (hs'.exists_step hw)

/-- A work that is being processed makes room for the third one. -/
theorem no_caller_stranded_full : ∃ s : SyncQueue (Fin 3), s.queue.pending = [1, 2] ∧ s.caller 0 = .running 0 ∧
    s.caller 1 = .asleep ∧ ∀ w, ¬ s.Stranded w := by
  have hrun : ∃ s : SyncQueue (Fin 3), Run (When SyncStep Careful) (.init 1)
      [.addWork 0, .check 0, .addWork 1, .check 1, .start 0, .addWork 2, .check 2] s ∧
      s.queue.pending = [1, 2] ∧ s.caller 0 = .running 0 ∧ s.caller 1 = .asleep :=
    ⟨_, .cons ⟨nofun, .addWork 0 nofun rfl rfl nofun⟩ <| .cons ⟨trivial, .check rfl⟩ <|
      .cons ⟨fun _ _ hfull => absurd (by decide) hfull, .addWork 1 (by decide) rfl rfl (by decide)⟩ <|
      .cons ⟨trivial, .check rfl⟩ <| .cons ⟨trivial, .start rfl⟩ <|
      .cons ⟨fun w hw _ => by cases hw; decide, .addWork 2 (by decide) rfl rfl (by decide)⟩ <|
      .cons ⟨trivial, .check rfl⟩ <| .nil _, rfl, rfl, rfl⟩
  obtain ⟨s, hrun, hpending, hrunning, hasleep⟩ := hrun
  exact ⟨s, hpending, hrunning, hasleep, (no_caller_stranded hrun).1⟩

end Listbrokers.Queue
