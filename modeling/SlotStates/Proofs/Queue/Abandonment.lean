/-
SlotStates/Proofs/Queue/Abandonment.lean

Nobody sees that a caller has walked away.

A run in which callers walk away is compared with the run of the same events
without those by which they do (`withoutDrops`).  As long as there is no
shutdown no round is stopped, so that asking for results finds those that are
there and changes nothing (`pollAll_of_unstopped`); what an event does to the
queue is then its own affair, whoever waits (`step_queue_of_unstopped`).

So the two runs go through the same queues.  What differs is who waits: after
the same events, those who wait in the first run do so in the second, in the
same order, and of a caller that has not walked away the same calls are pending
in both (`Abandoned`).

The main result is `abandoning_is_invisible`.
-/
import SlotStates.Proofs.Queue.Calls
import SlotStates.Scenario.Script

namespace SlotStates

variable {κ τ ν ε : Type}

/-- Whether a caller walks away by an event. -/
def Event.isDrop : Event κ τ ν ε → Bool
  | .drop _ => true
  | _ => false

/-- Events without those by which callers walk away. -/
def withoutDrops (es : List (Event κ τ ν ε)) : List (Event κ τ ν ε) :=
  es.filter fun e => !e.isDrop

theorem withoutDrops_append (es fs : List (Event κ τ ν ε)) :
    withoutDrops (es ++ fs) = withoutDrops es ++ withoutDrops fs :=
  List.filter_append ..

theorem withoutDrops_cons {e : Event κ τ ν ε} (he : e.isDrop = false) (es : List (Event κ τ ν ε)) :
    withoutDrops (e :: es) = e :: withoutDrops es :=
  List.filter_cons_of_pos (by rw [he]; rfl)

theorem drop_not_mem_withoutDrops (caller : String) (es : List (Event κ τ ν ε)) :
    .drop caller ∉ withoutDrops es := by
  intro h
  cases (List.mem_filter.mp h).2

/-! ### Without shutdowns -/

namespace Queue

/-- No round of a queue is stopped. -/
def Unstopped (q : Queue κ τ ν ε) : Prop := ∀ r a, q.Has r a → a.status ≠ .killed

theorem unstopped_fresh (limits : Limits) (metrics : Option TaskMetrics) :
    (fresh limits metrics : Queue κ τ ν ε).Unstopped := by
  intro r a ha
  cases ha

theorem Unstopped.killed? {q : Queue κ τ ν ε} (h : q.Unstopped) (r : Nat) : q.killed? r = none := by
  rcases hr : q.killed? r with - | a
  · rfl
  · obtain ⟨ha, hs⟩ := killed?_eq_some_iff.mp hr
    exact absurd hs (h r a ha)

/-- Only a shutdown stops rounds. -/
theorem Unstopped.apply [DecidableEq κ] [KeyText κ] [Task τ κ ν] {q : Queue κ τ ν ε} (h : q.Unstopped)
    {e : Event κ τ ν ε} (he : e ≠ .shutdown) : (q.apply e).Unstopped := by
  cases e with
  | perform caller task =>
    have ht := q.admitted_request task
    show (q.request task).2.Unstopped
    generalize (q.request task).1 = admission, (q.request task).2 = q' at ht
    cases ht with
    | hit => exact h
    | joined => exact h
    | launched =>
      intro r a ha
      rcases (has_append_iff rfl).mp ha with ha | ⟨-, rfl⟩
      · exact h r a ha
      · exact fun hs => by cases hs
  | finish r ending =>
    refine finish_induction (P := Unstopped) h (fun result hb _ i a ha => ?_) r ending
    rcases (has_settle_iff hb).mp ha with ⟨-, rfl⟩ | ⟨-, ha⟩
    · exact fun hs => by cases hs
    · exact h i a ha
  | shutdown => exact absurd rfl he
  | _ => exact h

end Queue

namespace Service

variable [DecidableEq κ] [KeyText κ]

/-- Where no round is stopped, asking on behalf of callers changes nothing. -/
theorem pollAll_of_unstopped {q : Queue κ τ ν ε} (h : q.Unstopped) (ws : List (Waiter ν)) :
    (pollAll q ws).queue = q ∧ (pollAll q ws).notes = [] :=
  pollAll_of_not_killed fun _ _ r _ => h.killed? r

variable [Task τ κ ν]

/-- Where no round is stopped, an event does its own to the queue and no
more. -/
theorem step_queue_of_unstopped {s : Service κ τ ν ε} {e : Event κ τ ν ε}
    (h : (s.queue.apply e).Unstopped) : (s.step e).2.queue = s.queue.apply e := by
  rw [step_queue, (pollAll_of_unstopped h _).1]

/-- What an event answers and notes does not depend on who waits, unless it is
about a caller. -/
theorem report_congr {q : Queue κ τ ν ε} {e : Event κ τ ν ε} (h : (q.apply e).Unstopped)
    (he : e.isDrop = false) (ws ws' : List (Waiter ν)) :
    ((⟨q, ws⟩ : Service κ τ ν ε).step e).1.answer
        = ((⟨q, ws'⟩ : Service κ τ ν ε).step e).1.answer ∧
      ((⟨q, ws⟩ : Service κ τ ν ε).step e).1.notes
        = ((⟨q, ws'⟩ : Service κ τ ν ε).step e).1.notes := by
  have silent : ∀ ws, (pollAll (q.apply e) ws).notes = [] := fun ws => (pollAll_of_unstopped h ws).2
  cases e with
  | perform caller task =>
    exact ⟨rfl, congrArg (_ ++ ·) ((silent _).trans (silent _).symm)⟩
  | finish r ending =>
    have silent : ∀ ws, (pollAll (q.finish r ending) ws).notes = [] := silent
    rcases hr : q.running? r with - | a <;> simp [step, hr, settled, silent]
  | shutdown => exact ⟨rfl, congrArg ([] ++ ·) ((silent _).trans (silent _).symm)⟩
  | drop caller => cases he
  | _ => exact ⟨rfl, rfl⟩

/-! ### Two runs -/

/-- After some events without a shutdown, a service from which callers have
walked away, and one from which nobody has. -/
structure Abandoned (es : List (Event κ τ ν ε)) (s s' : Service κ τ ν ε) : Prop where
  queue : s.queue = s'.queue
  unstopped : s.queue.Unstopped
  waiters : s.waiters.Sublist s'.waiters
  stayed : ∀ caller, .drop caller ∉ es →
    s.waiters.filter (·.caller = caller) = s'.waiters.filter (·.caller = caller)

omit [KeyText κ] in
/-- Who is present differs as who waits does. -/
theorem Abandoned.present {es : List (Event κ τ ν ε)} {s s' : Service κ τ ν ε}
    (h : Abandoned es s s') {e : Event κ τ ν ε} (he : e.isDrop = false) :
    (s.present e).Sublist (s'.present e) ∧ ∀ caller, .drop caller ∉ es →
      (s.present e).filter (·.caller = caller) = (s'.present e).filter (·.caller = caller) := by
  cases e with
  | perform caller task =>
    -- the newcomer gets the same ticket, since the queues are the same
    simp only [Service.present, h.queue]
    refine ⟨h.waiters.append_right _, fun c hc => ?_⟩
    rw [List.filter_append, List.filter_append, h.stayed c hc]
  | drop caller => cases he
  | _ => exact ⟨h.waiters, h.stayed⟩

theorem Abandoned.drop {es : List (Event κ τ ν ε)} {s s' : Service κ τ ν ε}
    (h : Abandoned es s s') (caller : String) :
    Abandoned (es ++ [.drop caller]) (s.step (.drop caller)).2 s' where
  queue := h.queue
  unstopped := h.unstopped
  waiters := List.filter_sublist.trans h.waiters
  stayed c hc := by
    rw [List.mem_append, List.mem_singleton, not_or] at hc
    rw [← h.stayed c hc.1]
    show (s.waiters.filter _).filter _ = _
    rw [List.filter_filter]
    refine List.filter_congr fun w _ => ?_
    by_cases hw : w.caller = c
    · have hne : c ≠ caller := fun hcc => hc.2 (congrArg Event.drop hcc)
      simp [hw, hne]
    · simp [hw]

/-- An event that is not about a caller finds the same queue in both runs, and
tells the callers that wait in both the same. -/
theorem Abandoned.step {es : List (Event κ τ ν ε)} {s s' : Service κ τ ν ε}
    (h : Abandoned es s s') (hs : s.Attended) (hs' : s'.Attended) (hq : s.queue.Registered)
    {e : Event κ τ ν ε} (he : e ≠ .shutdown) (hd : e.isDrop = false) :
    Abandoned (es ++ [e]) (s.step e).2 (s'.step e).2 ∧
      (s.step e).1.resolved.Sublist (s'.step e).1.resolved ∧
      ∀ caller, .drop caller ∉ es → (s.step e).1.resolved.filter (·.1 = caller)
        = (s'.step e).1.resolved.filter (·.1 = caller) := by
  have hu : (s.queue.apply e).Unstopped := h.unstopped.apply he
  have hqueue : (s.step e).2.queue = (s'.step e).2.queue := by
    rw [step_queue_of_unstopped hu, step_queue_of_unstopped (h.queue ▸ hu), h.queue]
  have hq' : s'.queue.Registered := h.queue ▸ hq
  obtain ⟨hsub, hstayed⟩ := h.present hd
  refine ⟨⟨hqueue, ?_, ?_, fun c hc => ?_⟩, ?_, fun c hc => ?_⟩
  · rwa [step_queue_of_unstopped hu]
  · rw [step_waiters hs hq, step_waiters hs' hq', hqueue]
    exact hsub.filter _
  · have hc : .drop c ∉ es := fun hm => hc (List.mem_append_left _ hm)
    rw [step_waiters hs hq, step_waiters hs' hq', hqueue, List.filter_comm, hstayed c hc,
      List.filter_comm]
  · rw [step_resolved hs hq, step_resolved hs' hq', hqueue]
    exact hsub.filterMap _
  · -- what is told to one caller is told on behalf of what that caller waits for
    have htold : ∀ ws : List (Waiter ν),
        (ws.filterMap fun w => ((s'.step e).2.queue.outcome? w.ticket).map (w.caller, ·)).filter
            (·.1 = c)
          = (ws.filter (·.caller = c)).filterMap fun w =>
              ((s'.step e).2.queue.outcome? w.ticket).map (w.caller, ·) := by
      intro ws
      rw [List.filter_filterMap, List.filterMap_filter]
      refine List.filterMap_congr fun w _ => ?_
      rcases (s'.step e).2.queue.outcome? w.ticket with - | result <;>
        by_cases hw : w.caller = c <;> simp [hw, Option.filter]
    rw [step_resolved hs hq, step_resolved hs' hq', hqueue, htold, htold, hstayed c hc]

theorem abandoned_run (limits : Limits) (metrics : Option TaskMetrics)
    {es : List (Event κ τ ν ε)} (h : .shutdown ∉ es) :
    Abandoned es ((fresh limits metrics).run es).2
      ((fresh limits metrics).run (withoutDrops es)).2 := by
  induction es using List.reverseRecOn with
  | nil => exact ⟨rfl, Queue.unstopped_fresh limits metrics, .refl _, fun _ _ => rfl⟩
  | append_singleton es e ih =>
    rw [List.mem_append, List.mem_singleton, not_or] at h
    have ih := ih h.1
    rw [run_concat_snd, withoutDrops_append]
    cases hd : e.isDrop with
    | true =>
      cases e with
      | drop caller => exact (List.append_nil (withoutDrops es)).symm ▸ ih.drop caller
      | _ => cases hd
    | false =>
      rw [withoutDrops_cons hd, show withoutDrops ([] : List (Event κ τ ν ε)) = [] from rfl,
        run_concat_snd]
      exact (ih.step (attended_run limits metrics es)
        (attended_run limits metrics (withoutDrops es)) (registered_run limits metrics es)
        (Ne.symm h.2) hd).1

end Service

/-! ### Who has not walked away -/

namespace Ledger

variable [DecidableEq κ] [KeyText κ] [Task τ κ ν]

/-- A call from which its caller has not walked away is pending as long as
nothing is there for it, and is told what is there. -/
theorem fate_of_staying (limits : Limits) (metrics : Option TaskMetrics)
    (past : List (Event κ τ ν ε)) {later : List (Event κ τ ν ε)} {caller : String} (task : τ)
    (hd : .drop caller ∉ later) :
    let c := (after limits metrics past).call caller task
    let l := after limits metrics (past ++ .perform caller task :: later)
    (c ∈ l.calls ↔ l.service.queue.outcome? c.waiter.ticket = none) ∧
    ∀ result, (c, result) ∈ l.told ↔ l.service.queue.outcome? c.waiter.ticket = some result := by
  intro c l
  obtain ⟨hcalls, htold⟩ := call_fate limits metrics past later (c := c) rfl
  exact ⟨hcalls.trans (and_iff_right hd), fun result =>
    ⟨(faithful_after limits metrics _).outcome (c, result), htold hd result⟩⟩

/-- What becomes of a call from which its caller has not walked away does not
depend on whether others have. -/
theorem fate_of_abandoned (limits : Limits) (metrics : Option TaskMetrics)
    {past later : List (Event κ τ ν ε)} {caller : String} {task : τ}
    (hs : .shutdown ∉ past ++ .perform caller task :: later) (hd : .drop caller ∉ later) :
    let c := (after limits metrics past).call caller task
    let c' := (after limits metrics (withoutDrops past)).call caller task
    let l := after limits metrics (past ++ .perform caller task :: later)
    let l' := after limits metrics (withoutDrops (past ++ .perform caller task :: later))
    (c ∈ l.calls ↔ c' ∈ l'.calls) ∧ ∀ result, (c, result) ∈ l.told ↔ (c', result) ∈ l'.told := by
  intro c c' l l'
  have hl' : l' = after limits metrics
      (withoutDrops past ++ .perform caller task :: withoutDrops later) := by
    rw [← withoutDrops_cons rfl, ← withoutDrops_append]
  have hqueue : l.service.queue = l'.service.queue := by
    rw [service_after, service_after]
    exact (Service.abandoned_run limits metrics hs).queue
  have hpast : .shutdown ∉ past := fun hm => hs (List.mem_append_left _ hm)
  have hticket : c.waiter = c'.waiter := by
    show (⟨caller, Service.ticket _⟩ : Waiter ν) = ⟨caller, Service.ticket _⟩
    rw [service_after, service_after, (Service.abandoned_run limits metrics hpast).queue]
  obtain ⟨hcalls, htold⟩ := fate_of_staying limits metrics past task hd
  obtain ⟨hcalls', htold'⟩ := fate_of_staying limits metrics (withoutDrops past) task
    (drop_not_mem_withoutDrops caller later)
  rw [← hl'] at hcalls' htold'
  have houtcome : l.service.queue.outcome? c.waiter.ticket
      = l'.service.queue.outcome? c'.waiter.ticket := by
    rw [hqueue, hticket]
  exact ⟨hcalls.trans (houtcome ▸ hcalls'.symm), fun result =>
    (htold result).trans (houtcome ▸ (htold' result).symm)⟩

end Ledger

namespace Service

variable [DecidableEq κ] [KeyText κ] [Task τ κ ν]

/-- **Walking away is invisible**: take a run without shutdowns, and the same
events without those by which callers walk away.

Both runs lead to the same queue: the same values in the same order, the same
registry and the same rounds with what has become of them, and the same
metrics.  So do all their steps, and the remaining events answer and note the
same.  They tell the callers that are still there what they would tell them
otherwise: nobody else and in the same order, and whoever has not walked away
before is told exactly the same.

And a call from which its own caller does not walk away is pending in one run
as long as in the other, and is told the same in the same step. -/
theorem abandoning_is_invisible (limits : Limits) (metrics : Option TaskMetrics)
    (es : List (Event κ τ ν ε)) (h : .shutdown ∉ es) :
    let start : Service κ τ ν ε := fresh limits metrics
    (start.run es).2.queue = (start.run (withoutDrops es)).2.queue ∧
    (∀ past e later, es = past ++ e :: later → e.isDrop = false →
      let s := (start.run past).2
      let s' := (start.run (withoutDrops past)).2
      (s.step e).2.queue = (s'.step e).2.queue ∧
      (s.step e).1.answer = (s'.step e).1.answer ∧
      (s.step e).1.notes = (s'.step e).1.notes ∧
      (s.step e).1.resolved.Sublist (s'.step e).1.resolved ∧
      ∀ caller, .drop caller ∉ past →
        (s.step e).1.resolved.filter (·.1 = caller)
          = (s'.step e).1.resolved.filter (·.1 = caller)) ∧
    (∀ past caller task mid later, es = past ++ .perform caller task :: (mid ++ later) →
      .drop caller ∉ mid →
      let c := (Ledger.after limits metrics past).call caller task
      let c' := (Ledger.after limits metrics (withoutDrops past)).call caller task
      let l := Ledger.after limits metrics (past ++ .perform caller task :: mid)
      let l' := Ledger.after limits metrics (withoutDrops (past ++ .perform caller task :: mid))
      (c ∈ l.calls ↔ c' ∈ l'.calls) ∧
      ∀ result, (c, result) ∈ l.told ↔ (c', result) ∈ l'.told) := by
  intro start
  refine ⟨(abandoned_run limits metrics h).queue, ?_, ?_⟩
  · rintro past e later rfl hd s s'
    rw [List.mem_append, List.mem_cons, not_or, not_or] at h
    have hrel : Abandoned past s s' := abandoned_run limits metrics h.1
    have he : e ≠ .shutdown := Ne.symm h.2.1
    obtain ⟨hafter, hsub, hstayed⟩ := hrel.step (attended_run limits metrics past)
      (attended_run limits metrics (withoutDrops past)) (registered_run limits metrics past) he hd
    have hs' : s' = ⟨s.queue, s'.waiters⟩ := by rw [hrel.queue]
    obtain ⟨hanswer, hnotes⟩ := report_congr (hrel.unstopped.apply he) hd s.waiters s'.waiters
    rw [← hs'] at hanswer hnotes
    exact ⟨hafter.queue, hanswer, hnotes, hsub, hstayed⟩
  · rintro past caller task mid later rfl hd
    refine Ledger.fate_of_abandoned limits metrics (fun hm => h ?_) hd
    rw [← List.cons_append, ← List.append_assoc]
    exact List.mem_append_left _ hm

/-- Events of which the first caller walks away from a round, another joins
it, and the round ends. -/
def abandonedRound : List (Event UInt64 Script.Job Script.Value Script.Error) :=
  let job : Script.Job := ⟨5, .succeed, true, none, none⟩
  [.perform "a" job, .drop "a", .perform "b" job, .finish 0 (.returned ⟨⟨5, 0⟩, none⟩)]

/-- A caller that joins a round after its first one has left is told what it
would be told otherwise. -/
theorem abandoning_is_invisible_to_joiner :
    .shutdown ∉ abandonedRound ∧
      ((⟨2, 5, ⟨"b", .round 0⟩⟩ : Call UInt64 Script.Value), .ok ⟨⟨5, 0⟩, none⟩)
        ∈ (Ledger.after .standard none abandonedRound).told := by
  have h : .shutdown ∉ abandonedRound := by simp [abandonedRound]
  refine ⟨h, ?_⟩
  have hcall := (abandoning_is_invisible .standard none abandonedRound h).2.2
    [.perform "a" ⟨5, .succeed, true, none, none⟩, .drop "a"] "b"
    ⟨5, .succeed, true, none, none⟩ [.finish 0 (.returned ⟨⟨5, 0⟩, none⟩)] [] rfl (by simp)
  refine (hcall.2 (.ok ⟨⟨5, 0⟩, none⟩)).mpr ?_
  -- without the first caller's leaving, both are told when the round ends
  exact List.mem_cons_of_mem _ (List.mem_singleton_self _)

end Service

end SlotStates
