/-
SlotStates/Proofs/Queue/Attendance.lean

Callers wait for rounds that run.

After every event the callers that still wait do so for rounds under way
(`Attended`).  A caller that waits for a stopped round is asked for at once,
which cancels the round; and a request joins a stopped round only to be asked
for in the same step.  So whoever is present when an event is over is told
exactly if the round that is waited for has its result by then
(`step_resolved`, `step_waiters`), and nobody hangs.
-/
import Mathlib.Data.List.Induction
import SlotStates.Proofs.Queue.Flight

namespace SlotStates

variable {κ τ ν ε : Type} [DecidableEq κ]

/-- The result that a ticket stands for, once it is there. -/
def Queue.outcome? (q : Queue κ τ ν ε) : Ticket ν → Option (Result ε ν)
  | .ready v => some (.ok v)
  | .round r => q.result? r

omit [DecidableEq κ] in
theorem Queue.Grows.outcome? {q q' : Queue κ τ ν ε} (h : Grows q q') {t : Ticket ν}
    {result : Result ε ν} (ht : q.outcome? t = some result) : q'.outcome? t = some result := by
  cases t with
  | ready v => exact ht
  | round r => exact h.result? ht

namespace Service

variable [KeyText κ] [Task τ κ ν]

/-- Every caller waits for a round that runs. -/
def Attended (s : Service κ τ ν ε) : Prop :=
  ∀ w ∈ s.waiters, ∃ r a, w.ticket = .round r ∧ s.queue.Has r a ∧ a.status = .running

/-- The callers that are there when an event has taken place, before anybody
is told. -/
def present (s : Service κ τ ν ε) : Event κ τ ν ε → List (Waiter ν)
  | .perform caller task => s.waiters ++ [⟨caller, ticket (s.queue.request task).1⟩]
  | .drop caller => s.waiters.filter fun w => w.caller ≠ caller
  | _ => s.waiters

/-! ### What is waited for -/

omit [KeyText κ] in
/-- A request that is not answered from the cache waits for a round of its
key that has no result. -/
theorem unfinished_request {q : Queue κ τ ν ε} (h : q.Registered) {task : τ} {r : Nat}
    (hr : ticket (q.request task).1 = .round r) :
    (q.request task).2.Unfinished (Task.key task) r := by
  have ht := q.admitted_request task
  generalize (q.request task).1 = admission, (q.request task).2 = q' at ht hr
  cases ht with
  | hit => cases hr
  | joined missed inFlight =>
    cases hr
    exact h.lookup_iff.mp inFlight
  | launched =>
    cases hr
    exact Queue.unfinished_launch_iff.mpr (.inr ⟨rfl, rfl⟩)

/-- Whoever is present when an event is over holds a value or waits for a
round that is not stopped. -/
theorem has_of_mem_present {s : Service κ τ ν ε} (hs : s.Attended) (hq : s.queue.Registered)
    {e : Event κ τ ν ε} {w : Waiter ν} (hw : w ∈ s.present e) {r : Nat}
    (hr : w.ticket = .round r) :
    ∃ a, (s.step e).2.queue.Has r a ∧ a.status ≠ .killed := by
  have old : w ∈ s.waiters → ∃ a, (s.step e).2.queue.Has r a ∧ a.status ≠ .killed := by
    intro hw
    obtain ⟨i, a, hi, ha, hrun⟩ := hs w hw
    obtain rfl : r = i := Ticket.round.inj (hr.symm.trans hi)
    refine ⟨_, has_step ha e, ?_⟩
    split
    · exact Round.status_observed_ne_killed _
    · next hn =>
      -- only a shutdown stops a round that runs, and then everybody is asked for
      intro hk
      cases e with
      | shutdown => exact hn (List.any_eq_true.mpr ⟨w, hw, Waiter.waitsFor_iff.mpr hr⟩)
      | finish i e =>
        simp only [Round.after, hrun] at hk
        split at hk
        · cases hk
        · rw [hrun] at hk
          cases hk
      | _ => cases hrun.symm.trans hk
  cases e with
  | perform caller task =>
    rcases List.mem_append.mp hw with hw | hw
    · exact old hw
    · obtain rfl := List.mem_singleton.mp hw
      obtain ⟨a, ha, -, -⟩ := unfinished_request hq hr
      refine ⟨a.observed, ?_, Round.status_observed_ne_killed a⟩
      have hasked : (s.asked (.perform caller task)).any (·.waitsFor r) = true :=
        List.any_eq_true.mpr ⟨_, List.mem_append_right _ hw, Waiter.waitsFor_iff.mpr hr⟩
      show (s.step (.perform caller task)).2.queue.rounds[r]? = _
      rw [step_queue, rounds_pollAll, hasked]
      show ((s.queue.request task).2.rounds[r]?).map _ = _
      rw [show (s.queue.request task).2.rounds[r]? = some a from ha]
      rfl
  | drop caller => exact old (List.mem_of_mem_filter hw)
  | _ => exact old hw

/-- After an event, asking answers what is there and cancels nothing. -/
theorem redeem_eq_outcome? {s : Service κ τ ν ε} (hs : s.Attended) (hq : s.queue.Registered)
    {e : Event κ τ ν ε} {w : Waiter ν} (hw : w ∈ s.present e) :
    (redeem (s.step e).2.queue w.ticket).1 = (s.step e).2.queue.outcome? w.ticket := by
  rcases hr : w.ticket with v | r
  · rfl
  · obtain ⟨a, ha, hk⟩ := has_of_mem_present hs hq hw hr
    show ((s.step e).2.queue.poll r).1 = (s.step e).2.queue.result? r
    rw [Queue.poll_fst, ha.result?, show (s.step e).2.queue.rounds[r]? = some a from ha]
    exact a.verdict_eq_result? hk

/-! ### Who is told, and who goes on waiting -/

/-- An event is followed by asking on behalf of all who are present, or nobody
is asked for and no round that runs is touched. -/
theorem step_cases (s : Service κ τ ν ε) (e : Event κ τ ν ε) :
    ((s.step e).1.resolved = (pollAll (s.queue.apply e) (s.present e)).resolved ∧
      (s.step e).2.queue = (pollAll (s.queue.apply e) (s.present e)).queue ∧
      (s.step e).2.waiters = (pollAll (s.queue.apply e) (s.present e)).waiting) ∨
    ((s.step e).1.resolved = [] ∧ (s.step e).2.waiters = s.present e ∧ s.asked e = [] ∧
      (∀ w ∈ s.present e, w ∈ s.waiters) ∧
      ∀ r (a : Round κ τ ν ε), s.queue.Has r a → a.status = .running → a.after r e = a) := by
  cases e with
  | perform caller task => exact .inl ⟨rfl, rfl, rfl⟩
  | finish r e =>
    rcases h : s.queue.running? r with - | b
    · refine .inr ⟨by simp [step, h], by simp [step, h, present], by simp [asked, h],
        fun w hw => hw, fun i a ha hrun => ?_⟩
      have hi : r ≠ i := by
        rintro rfl
        rw [Queue.running?_eq_some_iff.mpr ⟨ha, hrun⟩] at h
        cases h
      simp [Round.after, hrun, hi]
    · exact .inl (by simp [step, h, settled, present, Queue.apply])
  | shutdown => exact .inl ⟨rfl, rfl, rfl⟩
  | drop caller =>
    exact .inr ⟨rfl, rfl, rfl, fun w hw => List.mem_of_mem_filter hw, fun _ _ _ _ => rfl⟩
  | _ => exact .inr ⟨rfl, rfl, rfl, fun w hw => hw, fun _ _ _ _ => rfl⟩

/-- Where nobody is asked for, nobody's result is there. -/
theorem outcome?_eq_none {s : Service κ τ ν ε} (hs : s.Attended) {e : Event κ τ ν ε}
    (hasked : s.asked e = [])
    (hafter : ∀ r (a : Round κ τ ν ε), s.queue.Has r a → a.status = .running → a.after r e = a)
    {w : Waiter ν} (hw : w ∈ s.waiters) : (s.step e).2.queue.outcome? w.ticket = none := by
  obtain ⟨r, a, hr, ha, hrun⟩ := hs w hw
  have h := has_step ha e
  rw [hasked, hafter r a ha hrun] at h
  rw [hr]
  exact h.result?.trans (Round.result?_of_running hrun)

/-- The callers who are told by an event are those who are present and whose
result is there when it is over. -/
theorem step_resolved {s : Service κ τ ν ε} (hs : s.Attended) (hq : s.queue.Registered)
    (e : Event κ τ ν ε) :
    (s.step e).1.resolved = (s.present e).filterMap fun w =>
      ((s.step e).2.queue.outcome? w.ticket).map (w.caller, ·) := by
  rcases s.step_cases e with ⟨hr, hs', -⟩ | ⟨hr, -, hasked, hold, hafter⟩
  · -- asking once more after everybody was asked for answers the same
    rw [hr, pollAll_resolved]
    refine List.filterMap_congr fun w hw => ?_
    rw [← redeem_eq_outcome? hs hq hw, hs', redeem_pollAll]
  · rw [hr]
    refine (List.filterMap_eq_nil_iff.mpr fun w hw => ?_).symm
    rw [outcome?_eq_none hs hasked hafter (hold w hw)]
    rfl

/-- The callers who go on waiting are those who are present and whose result
is not there. -/
theorem step_waiters {s : Service κ τ ν ε} (hs : s.Attended) (hq : s.queue.Registered)
    (e : Event κ τ ν ε) :
    (s.step e).2.waiters = (s.present e).filter fun w =>
      ((s.step e).2.queue.outcome? w.ticket).isNone := by
  rcases s.step_cases e with ⟨-, hs', hw⟩ | ⟨-, hw, hasked, hold, hafter⟩
  · rw [hw, pollAll_waiting]
    refine List.filter_congr fun w hw => ?_
    rw [← redeem_eq_outcome? hs hq hw, hs', redeem_pollAll]
  · rw [hw]
    refine (List.filter_eq_self.mpr fun w hw => ?_).symm
    rw [outcome?_eq_none hs hasked hafter (hold w hw)]
    rfl

/-! ### Nobody hangs -/

omit [DecidableEq κ] [KeyText κ] [Task τ κ ν] in
theorem attended_fresh (limits : Limits) (metrics : Option TaskMetrics) :
    (fresh limits metrics : Service κ τ ν ε).Attended := by
  intro w hw
  cases hw

/-- Who goes on waiting waits for a round that is neither over nor stopped. -/
theorem Attended.step {s : Service κ τ ν ε} (hs : s.Attended) (hq : s.queue.Registered)
    (e : Event κ τ ν ε) : (s.step e).2.Attended := by
  intro w hw
  rw [step_waiters hs hq] at hw
  obtain ⟨hw, hn⟩ := List.mem_filter.mp hw
  have hn : (s.step e).2.queue.outcome? w.ticket = none := Option.isNone_iff_eq_none.mp hn
  rcases hr : w.ticket with v | r
  · rw [hr] at hn
    cases hn
  · obtain ⟨a, ha, hk⟩ := has_of_mem_present hs hq hw hr
    refine ⟨r, a, rfl, ha, ?_⟩
    rw [hr] at hn
    have hn : a.result? = none := ha.result?.symm.trans hn
    obtain ⟨k, t, status⟩ := a
    cases status with
    | running => rfl
    | killed => exact absurd rfl hk
    | settled result => cases hn

theorem attended_run (limits : Limits) (metrics : Option TaskMetrics)
    (es : List (Event κ τ ν ε)) : ((fresh limits metrics).run es).2.Attended := by
  induction es using List.reverseRecOn with
  | nil => exact attended_fresh limits metrics
  | append_singleton es e ih =>
    rw [run_append_snd]
    exact ih.step (registered_run limits metrics es) e

end Service

end SlotStates
