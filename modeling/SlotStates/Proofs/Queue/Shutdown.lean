/-
SlotStates/Proofs/Queue/Shutdown.lean

What a shutdown does, and what becomes of it later.

In the step of a shutdown every pending call is told that its computation was
cancelled, each for its own key, and a failure is counted for every unfinished
round that somebody waited for.  The cache is not touched.  What stays in the
registry are the orphans, which cancel one later request each.

After an orphan was absorbed its key is free again.  Cancellations come from
shutdowns only: a round that runs ends by itself as long as there is none
(`endedByItself_run`).  So a later request for the key is cancelled only by a
shutdown that is still to come, or because it absorbs in its turn an orphan
that another shutdown has left (`cancelled_cases`).

The main result is `shutdown_cancels_what_it_stops`.
-/
import SlotStates.Proofs.Queue.Accounts
import SlotStates.Proofs.Queue.Calls
import SlotStates.Proofs.Queue.Orphans
import SlotStates.Proofs.Queue.Touches
import SlotStates.Scenario.Script

namespace SlotStates

variable {κ τ ν ε : Type} [DecidableEq κ] [KeyText κ]

/-! ### Who is told -/

/-- A shutdown does nothing to the cache. -/
theorem Service.cache_step_shutdown [Task τ κ ν] (s : Service κ τ ν ε) :
    (s.step .shutdown).2.queue.cache = s.queue.cache := by
  rw [step_queue, cache_pollAll]
  rfl

namespace Ledger

variable [Task τ κ ν]

/-- By a shutdown every pending call gets a cancellation for its own key. -/
theorem Faithful.outcome?_shutdown {l : Ledger κ τ ν ε} (h : l.Faithful) {c : Call κ ν}
    (hc : c ∈ l.calls) :
    (l.service.step .shutdown).2.queue.outcome? c.waiter.ticket = some (cancellation c.key) := by
  obtain ⟨r, a, hr, ha, hk, hrun, -⟩ := h.pending hc
  have hw : c.waiter ∈ l.service.waiters := h.waiters ▸ List.mem_map_of_mem hc
  rw [hr, ← hk]
  exact Service.result?_step hw hr ha hrun .shutdown

theorem Faithful.resolved_shutdown {l : Ledger κ τ ν ε} (h : l.Faithful) :
    (l.service.step .shutdown).1.resolved
      = l.calls.map fun c => (c.waiter.caller, cancellation c.key) := by
  rw [← h.resolved, List.map_filterMap, ← List.filterMap_eq_map]
  refine List.filterMap_congr fun c hc => ?_
  rw [h.outcome?_shutdown hc]
  rfl

/-- Nobody goes on waiting. -/
theorem Faithful.waiters_shutdown {l : Ledger κ τ ν ε} (h : l.Faithful) :
    (l.service.step .shutdown).2.waiters = [] := by
  rw [Service.step_waiters h.attended h.registered]
  refine List.filter_eq_nil_iff.mpr fun w hw => ?_
  obtain ⟨c, hc, rfl⟩ := List.mem_map.mp (h.waiters.symm ▸ hw : w ∈ l.calls.map (·.waiter))
  rw [h.outcome?_shutdown hc]
  simp

end Ledger

/-! ### How many failures are counted -/

/-- If one test holds where one of two others does, which exclude each other,
it counts as many as both. -/
theorem countP_eq_add {α : Type} {p p₁ p₂ : α → Bool} {l : List α}
    (h : ∀ a ∈ l, (p a).toNat = (p₁ a).toNat + (p₂ a).toNat) :
    l.countP p = l.countP p₁ + l.countP p₂ := by
  induction l with
  | nil => rfl
  | cons a l ih =>
    have hl := ih fun b hb => h b (List.mem_cons_of_mem a hb)
    have ha := h a List.mem_cons_self
    have one : ∀ b : Bool, (if b = true then 1 else 0) = b.toNat := fun b => by cases b <;> rfl
    simp only [List.countP_cons, hl, one, ha]
    omega

namespace Queue

omit [DecidableEq κ] [KeyText κ] in
/-- The rounds can be counted by their numbers. -/
theorem count_eq_countP_range (q : Queue κ τ ν ε) (p : Option (Result ε ν) → Bool) :
    q.count p = (List.range q.rounds.length).countP fun r => p (q.result? r) := by
  have h : q.rounds.map Round.result? = (List.range q.rounds.length).map q.result? := by
    refine List.ext_getElem (by simp) fun r hr _ => ?_
    rw [List.length_map] at hr
    simp [Queue.result?, hr]
  have hl := congrArg (List.countP p) h
  rwa [List.countP_map, List.countP_map] at hl

/-- The failures that were counted since are the rounds that have failed
since. -/
def CountsSince (q q' : Queue κ τ ν ε) : Prop :=
  q'.metrics.map (·.failures + q.count Result.isFailure)
    = q.metrics.map (·.failures + q'.count Result.isFailure)

omit [KeyText κ] in
/-- Settling a round with an error counts one failure. -/
theorem CountsSince.settle {q q' : Queue κ τ ν ε} (h : q.CountsSince q') {r : Nat}
    {a : Round κ τ ν ε} (ha : q'.Has r a) (hn : a.result? = none) (x : Failure ε) :
    q.CountsSince (q'.settle r a (.error x)) := by
  have hc : (q'.settle r a (.error x)).count Result.isFailure = q'.count Result.isFailure + 1 :=
    count_settle ha hn (.error x) Result.isFailure
  have hm : (q'.settle r a (.error x)).metrics.map (·.failures)
      = q'.metrics.map (·.failures + 1) := by
    show ((q'.metrics.map (·.recordFailure)).map _).map _ = _
    rcases q'.metrics with - | m <;> rfl
  unfold CountsSince at h ⊢
  rw [hc]
  revert h hm
  rcases q.metrics with - | m <;> rcases q'.metrics with - | m' <;>
    rcases (q'.settle r a (.error x)).metrics with - | m'' <;> simp
  omega

omit [DecidableEq κ] [KeyText κ] in
theorem CountsSince.refl (q : Queue κ τ ν ε) : q.CountsSince q := rfl

omit [DecidableEq κ] [KeyText κ] in
theorem countsSince_shutdown (q : Queue κ τ ν ε) : q.CountsSince q.shutdown := by
  show q.metrics.map _ = q.metrics.map (·.failures + q.shutdown.count _)
  rw [count_shutdown]

omit [DecidableEq κ] [KeyText κ] in
theorem CountsSince.failures {q q' : Queue κ τ ν ε} (h : q.CountsSince q') {n : Nat}
    (hn : q'.count Result.isFailure = q.count Result.isFailure + n) :
    q'.metrics.map (·.failures) = q.metrics.map (·.failures + n) := by
  unfold CountsSince at h
  rw [hn] at h
  revert h
  rcases q.metrics with - | m <;> rcases q'.metrics with - | m' <;> simp
  omega

end Queue

/-- Asking on behalf of callers counts the rounds that are cancelled by it. -/
theorem Service.countsSince_pollAll {q q' : Queue κ τ ν ε} (h : q.CountsSince q')
    (ws : List (Waiter ν)) : q.CountsSince (pollAll q' ws).queue :=
  pollAll_induction (P := q.CountsSince) (fun r h =>
    Queue.poll_induction (P := q.CountsSince) h
      (fun ha hs => h.settle ha (Round.result?_of_killed hs) _) r) h ws

namespace Service

variable [Task τ κ ν]

/-- How many unfinished rounds somebody waits for. -/
def awaited (s : Service κ τ ν ε) : Nat :=
  (List.range s.queue.rounds.length).countP fun r =>
    (s.queue.result? r).isNone && s.waiters.any (·.waitsFor r)

/-- The rounds that fail by a shutdown are those unfinished ones that somebody
waits for. -/
theorem isFailure_step_shutdown {s : Service κ τ ν ε} {r : Nat} (hr : r < s.queue.rounds.length) :
    (Result.isFailure ((s.step .shutdown).2.queue.result? r)).toNat
      = (Result.isFailure (s.queue.result? r)).toNat
        + ((s.queue.result? r).isNone && s.waiters.any (·.waitsFor r)).toNat := by
  obtain ⟨a, ha⟩ : ∃ a, s.queue.Has r a := ⟨_, List.getElem?_eq_getElem hr⟩
  rw [(has_step ha .shutdown).result?, ha.result?]
  show (Result.isFailure (if s.waiters.any (·.waitsFor r) = true then _ else _ :
    Round κ τ ν ε).result?).toNat = _
  obtain ⟨k, t, status⟩ := a
  cases s.waiters.any (·.waitsFor r) <;> cases status <;> rfl

theorem failures_step_shutdown (s : Service κ τ ν ε) :
    (s.step .shutdown).2.queue.metrics.map (·.failures)
      = s.queue.metrics.map (·.failures + s.awaited) := by
  have hsince : s.queue.CountsSince (s.step .shutdown).2.queue := by
    rw [step_queue]
    exact countsSince_pollAll s.queue.countsSince_shutdown _
  have hcount : (s.step .shutdown).2.queue.count Result.isFailure
      = s.queue.count Result.isFailure + s.awaited := by
    have hl : (s.step .shutdown).2.queue.rounds.length = s.queue.rounds.length :=
      s.length_rounds_step .shutdown
    rw [Queue.count_eq_countP_range, Queue.count_eq_countP_range, hl]
    exact countP_eq_add fun r hr => isFailure_step_shutdown (List.mem_range.mp hr)
  exact hsince.failures hcount

/-! ### Where cancellations come from -/

end Service

/-- A round runs, or has ended by itself. -/
def Round.EndedByItself (a : Round κ τ ν ε) : Prop :=
  a.status = .running ∨
    ∃ ending : Ending ε ν, a.status = .settled (ending.result (KeyText.text a.key))

omit [DecidableEq κ] in
theorem Round.EndedByItself.result?_ne {a : Round κ τ ν ε} (h : a.EndedByItself) (text : String) :
    a.result? ≠ some (.error (.queue (.cancelled text))) := by
  intro hr
  rcases h with hs | ⟨ending, hs⟩
  · cases (Round.result?_of_running hs).symm.trans hr
  · have hres : a.result? = some (ending.result (KeyText.text a.key)) := by simp [result?, hs]
    cases ending <;> cases hres.symm.trans hr

namespace Service

variable [Task τ κ ν]

/-- Only a shutdown can keep a round from ending by itself. -/
theorem endedByItself_step {s : Service κ τ ν ε} {r : Nat} {a : Round κ τ ν ε}
    (ha : s.queue.Has r a) (h : a.EndedByItself) {e : Event κ τ ν ε} (he : e ≠ .shutdown) :
    ∃ b, (s.step e).2.queue.Has r b ∧ b.EndedByItself := by
  have hafter : (a.after r e).EndedByItself := by
    cases e with
    | shutdown => exact absurd rfl he
    | finish i ending =>
      rcases h with hs | ⟨ending', hs⟩
      · simp only [Round.after, hs]
        split
        · exact .inr ⟨ending, rfl⟩
        · exact .inl hs
      · simp only [Round.after, hs]
        exact .inr ⟨ending', hs⟩
    | _ => exact h
  -- asking finds nothing that was stopped
  have hobserved : (a.after r e).observed = a.after r e := by
    rcases hafter with hs | ⟨ending, hs⟩ <;> simp [Round.observed, hs]
  have hb := has_step ha e
  rw [hobserved, ite_self] at hb
  exact ⟨_, hb, hafter⟩

theorem endedByItself_run {s : Service κ τ ν ε} {r : Nat} {a : Round κ τ ν ε}
    (ha : s.queue.Has r a) (h : a.EndedByItself) {es : List (Event κ τ ν ε)}
    (hes : .shutdown ∉ es) : ∃ b, (s.run es).2.queue.Has r b ∧ b.EndedByItself := by
  induction es generalizing s a with
  | nil => exact ⟨a, ha, h⟩
  | cons e es ih =>
    rw [List.mem_cons, not_or] at hes
    obtain ⟨b, hb, hb'⟩ := endedByItself_step ha h (Ne.symm hes.1)
    exact ih hb hb' hes.2

/-- The round that a request waits for runs when the request is admitted,
unless it is an orphan that the request has joined. -/
theorem running_or_orphaned {s : Service κ τ ν ε} (hq : s.queue.Registered) (caller : String)
    {task : τ} {r : Nat} (hr : ticket (s.queue.request task).1 = .round r) :
    (∃ b, (s.step (.perform caller task)).2.queue.Has r b ∧ b.status = .running) ∨
      (s.queue.request task).1 = .joined r ∧ s.queue.Orphaned (Task.key task) r := by
  have hadm := s.queue.admitted_request task
  rcases hreq : (s.queue.request task).1 with v | i | ⟨i, w⟩
  · rw [hreq] at hr
    cases hr
  · rw [hreq] at hadm hr
    obtain rfl : i = r := Ticket.round.inj hr
    generalize (s.queue.request task).2 = q' at hadm
    cases hadm with
    | joined missed inFlight =>
      obtain ⟨b, hb, hk, hn⟩ := hq.lookup_iff.mp inFlight
      rcases hs : b.status with - | - | result
      · have hrun : b.observed = b := by simp [Round.observed, hs]
        have hb' := has_step hb (.perform caller task)
        rw [show b.after i (.perform caller task) = b from rfl, hrun, ite_self] at hb'
        exact .inl ⟨b, hb', hs⟩
      · exact .inr ⟨rfl, b, hb, hk, hs⟩
      · rw [Round.result?, hs] at hn
        cases hn
  · have hl : (s.step (.perform caller task)).1.answer.launches = true := by
      show (Answer.admitted (s.queue.request task).1).launches = true
      rw [hreq]
      rfl
    obtain ⟨b, hb, -, hs⟩ := has_of_launches hl
    rw [hreq] at hadm hr
    obtain rfl : i = r := Ticket.round.inj hr
    generalize (s.queue.request task).2 = q' at hadm
    cases hadm with
    | launched => exact .inl ⟨b, hb, hs⟩

end Service

namespace Ledger

variable [Task τ κ ν]

/-- A request that is cancelled was issued before another shutdown, or has
joined an orphan. -/
theorem cancelled_cases (limits : Limits) (metrics : Option TaskMetrics)
    (past later : List (Event κ τ ν ε)) (caller : String) (task : τ) (text : String)
    (h : ((after limits metrics past).call caller task, .error (.queue (.cancelled text)))
      ∈ (after limits metrics (past ++ .perform caller task :: later)).told) :
    .shutdown ∈ later ∨ ∃ r,
      (((Service.fresh limits metrics).run past).2.queue.request task).1 = .joined r ∧
      ((Service.fresh limits metrics).run past).2.queue.Orphaned (Task.key task) r := by
  by_contra hn
  rw [not_or] at hn
  obtain ⟨hlater, horphan⟩ := hn
  rcases hf : (after limits metrics past).service.queue.cache.find? (Task.key task) with - | v
  · obtain ⟨r, a, -, hr, ha, -, -, htold, -⟩ :=
      told_of_missed limits metrics past later caller hf
    have hr : Service.ticket ((after limits metrics past).service.queue.request task).1 = _ := hr
    rw [service_after] at ha hr
    -- the round runs when the request is admitted, and then it ends by itself
    rcases Service.running_or_orphaned (Service.registered_run limits metrics past) caller hr
      with ⟨b, hb, hs⟩ | hjoined
    · obtain ⟨c, hc, hc'⟩ := Service.endedByItself_run hb (.inl hs) hlater
      rw [Service.run_append_snd] at ha
      obtain rfl := ha.unique hc
      exact hc'.result?_ne text (htold _ h)
    · exact horphan ⟨r, hjoined⟩
  · -- a hit is told its value
    have hv := (told_of_cached limits metrics past later caller hf).2 _ |>.mp h
    cases hv

end Ledger

namespace Service

variable [Task τ κ ν]

/-- **A shutdown cancels what it stops, and its orphans cancel one request
each**: whatever has happened, by a shutdown each pending call is told that it
was cancelled, for its own key, and nobody goes on waiting; a failure is
counted for every unfinished round that somebody waited for; and the cache is
left alone.  In flight are then exactly the orphans: the rounds that this
shutdown or one before it has abandoned and that nobody has observed since.

The next request for the key of an orphan that is not answered from the cache
absorbs it.  After that a request for this key is cancelled only if it was
issued before another shutdown, or if it absorbs in its turn another orphan,
which a shutdown after the first absorption has left. -/
theorem shutdown_cancels_what_it_stops (limits : Limits) (metrics : Option TaskMetrics)
    (es : List (Event κ τ ν ε)) :
    let start : Service κ τ ν ε := fresh limits metrics
    let s := (start.run es).2
    let s' := (s.step .shutdown).2
    let calls := (Ledger.after limits metrics es).calls
    (calls.map (·.waiter) = s.waiters ∧
      (s.step .shutdown).1.resolved
        = calls.map (fun c => (c.waiter.caller, cancellation c.key)) ∧
      s'.waiters = []) ∧
    s'.queue.metrics.map (·.failures) = s.queue.metrics.map (·.failures + s.awaited) ∧
    s'.queue.cache = s.queue.cache ∧
    (∀ k r, (k, r) ∈ s'.queue.inFlight
      ↔ ∃ n, start.Since (·.Abandons · k r) (·.Observes · r) (es ++ [.shutdown]) n) ∧
    (∀ k r, (k, r) ∈ s'.queue.inFlight → ∀ mid,
      let past := es ++ .shutdown :: mid
      (∀ m, es.length < m → ¬ start.Occurs (·.Misses · k) past m) →
      ∀ caller task, Task.key task = k → (start.run past).2.queue.cache.find? k = none →
        (start.run past).2.Absorbs caller task r ∧
        ∀ mid' caller' task' later text, Task.key task' = k →
          let past' := past ++ .perform caller task :: mid'
          ((Ledger.after limits metrics past').call caller' task',
              .error (.queue (.cancelled text)))
            ∈ (Ledger.after limits metrics (past' ++ .perform caller' task' :: later)).told →
          .shutdown ∈ later ∨ ∃ i n, past.length < n ∧
            ((start.run past').2.queue.request task').1 = .joined i ∧
            start.Since (·.Abandons · k i) (·.Observes · i) past' n) := by
  intro start s s' calls
  have h : (Ledger.after limits metrics es).Faithful := Ledger.faithful_after limits metrics es
  have hs : (Ledger.after limits metrics es).service = s := Ledger.service_after limits metrics es
  have horphans : ∀ k r, (k, r) ∈ s'.queue.inFlight ↔ s'.queue.Orphaned k r := by
    intro k r
    have hreg := registered_run limits metrics (es ++ [.shutdown])
    rw [run_concat_snd] at hreg
    exact hreg.mem_iff.trans unfinished_step_shutdown_iff
  refine ⟨⟨hs ▸ h.waiters, hs ▸ h.resolved_shutdown, ?_⟩, s.failures_step_shutdown,
    s.cache_step_shutdown, fun k r => ?_, ?_⟩
  · show (s.step .shutdown).2.waiters = []
    rw [← hs]
    exact h.waiters_shutdown
  · rw [horphans, ← orphaned_iff, run_concat_snd]
  · rintro _ r hk mid past hmiss caller task rfl hf
    have horphan : (start.run past).2.queue.Orphaned (Task.key task) r := by
      have hstop := (horphans _ r).mp hk
      rw [show past = es ++ [.shutdown] ++ mid from List.append_cons ..] at hmiss ⊢
      refine orphaned_of_not_misses limits metrics (run_concat_snd start es .shutdown ▸ hstop) mid
        fun m hm => hmiss m ?_
      rwa [List.length_append] at hm
    refine ⟨absorbs_of_orphaned (attended_run limits metrics past)
      (registered_run limits metrics past) caller horphan hf, ?_⟩
    intro mid' caller' task' later text hkey past' hc
    refine (Ledger.cancelled_cases limits metrics past' later caller' task' text hc).imp_right ?_
    rintro ⟨i, hi, horphan'⟩
    rw [hkey] at horphan'
    obtain ⟨n, hn⟩ := (orphaned_iff limits metrics past').mp horphan'
    exact ⟨i, n, abandoned_later limits metrics horphan hf hn, hi, hn⟩

/-- A scripted task that waits at a gate. -/
def gatedJob : Script.Job := ⟨5, .succeed, true, none, none⟩

/-- Events after which the first of two orphans of one key was absorbed, and
the second is there. -/
def twoOrphans : List (Event UInt64 Script.Job Script.Value Script.Error) :=
  [.perform "a" gatedJob, .drop "a", .shutdown, .perform "b" gatedJob,
    .perform "c" gatedJob, .drop "c", .shutdown]

/-- A request can be cancelled though no shutdown follows it: it absorbs the
second of two orphans of its key, after the first was absorbed. -/
theorem second_orphan_cancels :
    ¬ ∀ (limits : Limits) (metrics : Option TaskMetrics)
      (es mid mid' later : List (Event UInt64 Script.Job Script.Value Script.Error))
      (k : UInt64) (r : Nat) (caller caller' : String) (task task' : Script.Job) (text : String),
      let start : Service UInt64 Script.Job Script.Value Script.Error := fresh limits metrics
      let past := es ++ .shutdown :: mid
      let past' := past ++ .perform caller task :: mid'
      (k, r) ∈ (start.run (es ++ [.shutdown])).2.queue.inFlight →
      (∀ m, es.length < m → ¬ start.Occurs (·.Misses · k) past m) →
      Task.key task = k → (start.run past).2.queue.cache.find? k = none → Task.key task' = k →
      ((Ledger.after limits metrics past').call caller' task', .error (.queue (.cancelled text)))
        ∈ (Ledger.after limits metrics (past' ++ .perform caller' task' :: later)).told →
      .shutdown ∈ later := by
  intro h
  have told : (Ledger.after .standard none (twoOrphans ++ [.perform "d" gatedJob])).told
      = [(⟨3, 5, ⟨"b", .round 0⟩⟩, cancellation (5 : UInt64)),
        (⟨7, 5, ⟨"d", .round 1⟩⟩, cancellation (5 : UInt64))] := rfl
  have mem : ((Ledger.after .standard none twoOrphans).call "d" gatedJob,
      cancellation (5 : UInt64))
      ∈ (Ledger.after .standard none (twoOrphans ++ [.perform "d" gatedJob])).told := by
    rw [told]
    exact List.mem_cons_of_mem _ (List.mem_singleton_self _)
  refine List.not_mem_nil (h .standard none [.perform "a" gatedJob, .drop "a"] []
    [.perform "c" gatedJob, .drop "c", .shutdown] [] 5 0 "b" "d" gatedJob gatedJob
    (KeyText.text (5 : UInt64)) (List.mem_singleton_self _) (fun m hm ho => ?_) rfl rfl rfl mem)
  -- nothing comes between the first shutdown and the request that absorbs its orphan
  have hlt := ho.lt
  simp at hlt hm
  omega

end Service

end SlotStates
