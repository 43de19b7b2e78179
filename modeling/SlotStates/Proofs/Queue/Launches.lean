/-
SlotStates/Proofs/Queue/Launches.lean

A round is what it was launched as.

The request that launches a round settles what will be computed: its own task,
rebased onto the value that is cached under the nearest ancestor at that time,
if there is one (`Walk.prepare`).  The round keeps this task whatever becomes
of the ancestor, and its result is the one that the first event gives it which
can end it (`status_run`), whatever else happens before.  Every round of a run
was launched in this way (`exists_launch`).

What a computation ends with is not the queue's affair.  If a relation says
how tasks can end and all rounds of a run end accordingly (`Performs`), then
what a round ends with is what the task that was launched can end with
(`ends_of_result`).

The main result is `rounds_are_fixed_at_launch`.
-/
import SlotStates.Proofs.Queue.Calls
import SlotStates.Proofs.Queue.Touches
import SlotStates.Scenario.Script

namespace SlotStates

variable {κ τ ν ε : Type}

/-- Events that leave the round of a number alone: none ends it, and none
takes its executor away. -/
structure Spares (r : Nat) (es : List (Event κ τ ν ε)) : Prop where
  shutdown : .shutdown ∉ es
  finish : ∀ ending, .finish r ending ∉ es

/-- Whether an event only looks into the cache or changes what is cached. -/
def Event.maintains : Event κ τ ν ε → Bool
  | .get _ => true
  | .store _ _ => true
  | .remove _ => true
  | .prune _ => true
  | .clear => true
  | _ => false

variable [DecidableEq κ] [KeyText κ] [Task τ κ ν]

/-! ### What becomes of a round -/

namespace Service

/-- Every round of a run was launched by one of its requests, for the key and
with the task that it has. -/
theorem exists_launch (limits : Limits) (metrics : Option TaskMetrics) {es : List (Event κ τ ν ε)}
    {r : Nat} {a : Round κ τ ν ε} (ha : ((fresh limits metrics).run es).2.queue.Has r a) :
    ∃ past caller task later w, es = past ++ .perform caller task :: later ∧
      (((fresh limits metrics).run past).2.queue.request task).1 = .launched r w ∧
      a.key = Task.key task ∧ a.task = w.prepare task := by
  induction es using List.reverseRecOn generalizing a with
  | nil => cases ha
  | append_singleton es e ih =>
    rw [run_concat_snd] at ha
    rcases exists_has_or_launched ha with ⟨b, hb⟩ | ⟨caller, task, w, rfl, hw⟩
    · obtain ⟨past, caller, task, later, w, rfl, hw, hkey, htask⟩ := ih hb
      obtain ⟨c, hc, hbc⟩ := (grows_step _ e).becomes hb
      obtain rfl := hc.unique ha
      exact ⟨past, caller, task, later ++ [e], w, List.append_assoc .., hw, hbc.key.trans hkey,
        hbc.task.trans htask⟩
    · obtain rfl := ha.unique (has_launched caller hw)
      exact ⟨es, caller, task, [], w, rfl, hw, rfl, rfl⟩

end Service

omit [DecidableEq κ] [Task τ κ ν] in
theorem Spares.resultFor_eq_none {r : Nat} {es : List (Event κ τ ν ε)} (h : Spares r es) {k : κ}
    {e : Event κ τ ν ε} (he : e ∈ es) : e.resultFor r k = none := by
  cases e with
  | shutdown => exact absurd he h.shutdown
  | finish i ending =>
    have hi : i ≠ r := by
      rintro rfl
      exact h.finish ending he
    simp [Event.resultFor, hi]
  | _ => rfl

namespace Service

/-- What an event leaves of a round that runs. -/
theorem status_step {s : Service κ τ ν ε} {r : Nat} {a : Round κ τ ν ε} (ha : s.queue.Has r a)
    (hrun : a.status = .running) (e : Event κ τ ν ε) :
    ∃ b, (s.step e).2.queue.Has r b ∧ b.key = a.key ∧ b.task = a.task ∧
      match e.resultFor r a.key with
      | none => b.status = .running
      | some result =>
        b.status = .settled result ∨ b.status = .killed ∧ result = cancellation a.key := by
  obtain ⟨k, t, status⟩ := a
  obtain rfl : status = .running := hrun
  refine ⟨_, has_step ha e, ?_⟩
  cases e with
  | finish i ending =>
    by_cases hi : i = r
    · subst hi
      split <;> simp [Round.after, Round.observed, Event.resultFor]
    · split <;> simp [Round.after, Round.observed, Event.resultFor, hi]
  | shutdown => split <;> simp [Round.after, Round.stopped, Round.observed, Event.resultFor]
  | _ => split <;> simp [Round.after, Round.observed, Event.resultFor]

/-- A round that was stopped is cancelled, or nobody has noticed yet. -/
theorem status_step_of_killed {s : Service κ τ ν ε} {r : Nat} {a : Round κ τ ν ε}
    (ha : s.queue.Has r a) (hs : a.status = .killed) (e : Event κ τ ν ε) :
    ∃ b, (s.step e).2.queue.Has r b ∧ b.key = a.key ∧ b.task = a.task ∧
      (b.status = .settled (cancellation a.key) ∨ b.status = .killed) := by
  obtain ⟨k, t, status⟩ := a
  obtain rfl : status = .killed := hs
  refine ⟨_, has_step ha e, ?_⟩
  -- no event touches it, so that asking for it is all that can happen
  have hafter : (⟨k, t, .killed⟩ : Round κ τ ν ε).after r e = ⟨k, t, .killed⟩ := by
    cases e <;> rfl
  rw [hafter]
  split <;> simp [Round.observed]

/-- A round runs until an event can end it, and the first such event gives it
its result; if this is a shutdown, then when it is noticed. -/
theorem status_run {s : Service κ τ ν ε} {r : Nat} {a : Round κ τ ν ε} (ha : s.queue.Has r a)
    (hrun : a.status = .running) (es : List (Event κ τ ν ε)) :
    ∃ b, (s.run es).2.queue.Has r b ∧ b.key = a.key ∧ b.task = a.task ∧
      match es.findSome? (·.resultFor r a.key) with
      | none => b.status = .running
      | some result =>
        b.status = .settled result ∨ b.status = .killed ∧ result = cancellation a.key := by
  -- the induction is on what happened last
  induction es using List.reverseRecOn with
  | nil => exact ⟨a, ha, rfl, rfl, hrun⟩
  | append_singleton es e ih =>
    obtain ⟨b, hb, hkey, htask, hstatus⟩ := ih
    rw [run_concat_snd, List.findSome?_append]
    rcases hfirst : es.findSome? (·.resultFor r a.key) with - | result
    · rw [hfirst] at hstatus
      obtain ⟨c, hc, hkey', htask', hstatus'⟩ := status_step hb hstatus e
      rw [hkey] at hkey' hstatus'
      refine ⟨c, hc, hkey', htask'.trans htask, ?_⟩
      rw [hfirst, Option.none_or, List.findSome?_singleton]
      exact hstatus'
    · rw [hfirst] at hstatus
      rw [hfirst, Option.some_or]
      rcases hstatus with hs | ⟨hs, rfl⟩
      · -- a result that is there stays
        obtain ⟨c, hc, hbc⟩ := (grows_step _ e).becomes hb
        refine ⟨c, hc, hbc.key.trans hkey, hbc.task.trans htask, .inl ?_⟩
        have hold : b.result? = some result := by simp [Round.result?, hs]
        have hres := hbc.result hold
        obtain ⟨k, t, status⟩ := c
        cases status with
        | settled result' => exact congrArg Status.settled (Option.some.inj hres)
        | _ => cases hres
      · obtain ⟨c, hc, hkey', htask', hstatus'⟩ := status_step_of_killed hb hs e
        rw [hkey] at hkey' hstatus'
        exact ⟨c, hc, hkey', htask'.trans htask, hstatus'.imp_right fun h => ⟨h, rfl⟩⟩

/-- A round that runs after an event ran before, and the event could not end
it. -/
theorem running_of_step {s : Service κ τ ν ε} {r : Nat} {a b : Round κ τ ν ε}
    (ha : s.queue.Has r a) {e : Event κ τ ν ε} (hb : (s.step e).2.queue.Has r b)
    (hrun : b.status = .running) : a.status = .running ∧ e.resultFor r a.key = none := by
  rcases hs : a.status with - | - | result
  · obtain ⟨c, hc, -, -, hstatus⟩ := status_step ha hs e
    obtain rfl := hb.unique hc
    refine ⟨rfl, ?_⟩
    rcases he : e.resultFor r a.key with - | result
    · rfl
    · rw [he] at hstatus
      rcases hstatus with h | ⟨h, -⟩ <;> cases hrun.symm.trans h
  · obtain ⟨c, hc, -, -, hstatus⟩ := status_step_of_killed ha hs e
    obtain rfl := hb.unique hc
    rcases hstatus with h | h <;> cases hrun.symm.trans h
  · obtain ⟨c, hc, hac⟩ := (s.grows_step e).becomes ha
    obtain rfl := hb.unique hc
    have hold : a.result? = some result := by simp [Round.result?, hs]
    cases (Round.result?_of_running hrun).symm.trans (hac.result hold)

/-- A round that runs after a run ran before, and no event could end it. -/
theorem running_of_run {s : Service κ τ ν ε} {r : Nat} {a b : Round κ τ ν ε}
    (ha : s.queue.Has r a) {es : List (Event κ τ ν ε)} (hb : (s.run es).2.queue.Has r b)
    (hrun : b.status = .running) :
    a.status = .running ∧ ∀ e ∈ es, e.resultFor r a.key = none := by
  induction es generalizing s a with
  | nil =>
    obtain rfl := Queue.Has.unique ha hb
    exact ⟨hrun, fun e he => by cases he⟩
  | cons e es ih =>
    obtain ⟨c, hc, hac⟩ := (s.grows_step e).becomes ha
    obtain ⟨hcrun, hlater⟩ := ih hc hb
    obtain ⟨harun, he⟩ := running_of_step ha hc hcrun
    rw [hac.key] at hlater
    exact ⟨harun, List.forall_mem_cons.mpr ⟨he, hlater⟩⟩

/-- A launched round keeps its key and its task, and its result is the one that
the first event gives it which can end it. -/
theorem launched_run (start : Service κ τ ν ε) {past : List (Event κ τ ν ε)} (caller : String)
    {task : τ} {r : Nat} {w : Walk κ ν}
    (h : ((start.run past).2.queue.request task).1 = .launched r w)
    (later : List (Event κ τ ν ε)) :
    ∃ a, (start.run (past ++ .perform caller task :: later)).2.queue.Has r a ∧
      a.key = Task.key task ∧ a.task = w.prepare task ∧
      (later.findSome? (·.resultFor r (Task.key task)) = none → a.status = .running) ∧
      ∀ result, a.result? = some result →
        later.findSome? (·.resultFor r (Task.key task)) = some result := by
  obtain ⟨a, ha, hkey, htask, hstatus⟩ := status_run (has_launched caller h) rfl later
  rw [run_append_snd]
  refine ⟨a, ha, hkey, htask, fun hnone => ?_, fun result hres => ?_⟩
  · rwa [hnone] at hstatus
  · rcases hfirst : later.findSome? (·.resultFor r (Task.key task)) with - | result'
    · rw [hfirst] at hstatus
      cases hres.symm.trans (Round.result?_of_running hstatus)
    · rw [hfirst] at hstatus
      rcases hstatus with hs | ⟨hs, -⟩
      · rw [Round.result?, hs] at hres
        exact hfirst.trans hres
      · cases hres.symm.trans (Round.result?_of_killed hs)

end Service

/-! ### The tasks of all rounds -/

/-- The tasks of all rounds in the order of their launch. -/
def Queue.tasks (q : Queue κ τ ν ε) : List τ := q.rounds.map (·.task)

omit [DecidableEq κ] [KeyText κ] [Task τ κ ν] in
theorem Queue.Has.getElem?_tasks {q : Queue κ τ ν ε} {r : Nat} {a : Round κ τ ν ε}
    (h : q.Has r a) : q.tasks[r]? = some a.task := by
  rw [tasks, List.getElem?_map, show q.rounds[r]? = some a from h]
  rfl

omit [KeyText κ] in
theorem Queue.eq_length_tasks {q : Queue κ τ ν ε} {task : τ} {r : Nat} {w : Walk κ ν}
    (h : (q.request task).1 = .launched r w) : r = q.tasks.length := by
  rw [(Queue.launched_request h).1, tasks, List.length_map]

namespace Service

omit [Task τ κ ν] in
theorem tasks_pollAll (q : Queue κ τ ν ε) (ws : List (Waiter ν)) :
    (pollAll q ws).queue.tasks = q.tasks := by
  refine List.ext_getElem? fun r => ?_
  rw [Queue.tasks, Queue.tasks, List.getElem?_map, List.getElem?_map, rounds_pollAll,
    Option.map_map]
  refine congrArg (q.rounds[r]?.map ·) (funext fun a => ?_)
  show Round.task (if ws.any (·.waitsFor r) then a.observed else a) = a.task
  split
  · exact a.becomes_observed.task
  · rfl

/-- What launches no round leaves all tasks as they are. -/
theorem tasks_step_of_not_launches {s : Service κ τ ν ε} {e : Event κ τ ν ε}
    (h : (s.step e).1.answer.launches = false) : (s.step e).2.queue.tasks = s.queue.tasks := by
  have hl : (s.step e).2.queue.tasks.length = s.queue.tasks.length := by
    rw [Queue.tasks, Queue.tasks, List.length_map, List.length_map, length_rounds_step, h]
    rfl
  refine List.ext_getElem? fun r => ?_
  rcases ha : s.queue.rounds[r]? with - | a
  · have hr : s.queue.tasks[r]? = none := by rw [Queue.tasks, List.getElem?_map, ha]; rfl
    rw [hr, List.getElem?_eq_none (hl ▸ List.getElem?_eq_none_iff.mp hr)]
  · have ha : s.queue.Has r a := ha
    obtain ⟨b, hb, hab⟩ := (s.grows_step e).becomes ha
    rw [ha.getElem?_tasks, hb.getElem?_tasks, hab.task]

/-- A request that launches a round adds its task, as the search for a base has
prepared it. -/
theorem tasks_step_of_launched {s : Service κ τ ν ε} (caller : String) {task : τ} {r : Nat}
    {w : Walk κ ν} (h : (s.queue.request task).1 = .launched r w) :
    (s.step (.perform caller task)).2.queue.tasks = s.queue.tasks ++ [w.prepare task] := by
  obtain ⟨-, -, hrounds⟩ := Queue.launched_request h
  rw [step_queue, tasks_pollAll]
  show (s.queue.request task).2.rounds.map _ = _
  rw [hrounds, List.map_append]
  rfl

end Service

/-! ### How computations end -/

/-- If the computation of a round ends, it ends as its task can end. -/
def Queue.Performs (ends : τ → Ending ε ν → Prop) (q : Queue κ τ ν ε) : Event κ τ ν ε → Prop
  | .finish r ending => ∀ a, q.Has r a → a.status = .running → ends a.task ending
  | _ => True

namespace Service

/-- All computations of a run end as their tasks can end. -/
def Performs (ends : τ → Ending ε ν → Prop) (s : Service κ τ ν ε) : List (Event κ τ ν ε) → Prop
  | [] => True
  | e :: es => s.queue.Performs ends e ∧ (s.step e).2.Performs ends es

variable {ends : τ → Ending ε ν → Prop}

theorem performs_append {s : Service κ τ ν ε} {es fs : List (Event κ τ ν ε)} :
    s.Performs ends (es ++ fs) ↔ s.Performs ends es ∧ (s.run es).2.Performs ends fs := by
  induction es generalizing s with
  | nil => exact ⟨fun h => ⟨trivial, h⟩, And.right⟩
  | cons e es ih => exact (and_congr_right fun _ => ih).trans and_assoc.symm

/-- A round ends as the task can end that was launched, or is cancelled after a
shutdown. -/
theorem ends_of_result {start : Service κ τ ν ε} {past later : List (Event κ τ ν ε)}
    {caller : String} {task : τ} {r : Nat} {w : Walk κ ν}
    (h : ((start.run past).2.queue.request task).1 = .launched r w)
    (hp : start.Performs ends (past ++ .perform caller task :: later)) {result : Result ε ν}
    (hfirst : later.findSome? (·.resultFor r (Task.key task)) = some result) :
    (∃ ending, ends (w.prepare task) ending ∧
        result = ending.result (KeyText.text (Task.key task))) ∨
      .shutdown ∈ later ∧ result = cancellation (Task.key task) := by
  obtain ⟨mid, e, rest, rfl, he, hmid⟩ := List.findSome?_eq_some_iff.mp hfirst
  cases e with
  | finish i ending =>
    -- until then the round runs, with the task that was launched
    obtain ⟨a, ha, -, htask, hrun, -⟩ := launched_run start caller h mid
    have hp : (start.run (past ++ .perform caller task :: mid)).2.queue.Performs ends
        (.finish i ending) := by
      rw [← List.cons_append, ← List.append_assoc] at hp
      exact (performs_append.mp hp).2.1
    simp only [Event.resultFor] at he
    split at he
    · next hi =>
      subst hi
      obtain rfl := Option.some.inj he
      exact .inl ⟨ending, htask ▸ hp a ha (hrun (List.findSome?_eq_none_iff.mpr hmid)), rfl⟩
    · cases he
  | shutdown => exact .inr ⟨by simp, (Option.some.inj he).symm⟩
  | _ => cases he

/-! ### Who is told -/

/-- In the step that ends a round, exactly those are told who wait for it, and
all of them the same. -/
theorem resolved_step_finish {s : Service κ τ ν ε} (hs : s.Attended) (hq : s.queue.Registered)
    {r : Nat} {a : Round κ τ ν ε} (ha : s.queue.Has r a) (ending : Ending ε ν) :
    (s.step (.finish r ending)).1.resolved
      = (s.waiters.filter (·.waitsFor r)).map
          fun w => (w.caller, ending.result (KeyText.text a.key)) := by
  rw [step_resolved hs hq, ← List.filterMap_eq_map, List.filterMap_filter]
  refine List.filterMap_congr fun w hw => ?_
  obtain ⟨i, b, hi, hb, hrun⟩ := hs w hw
  have hout : (s.step (.finish r ending)).2.queue.outcome? w.ticket
      = (Event.finish r ending : Event κ τ ν ε).resultFor i b.key := by
    rw [hi]
    exact result?_step hw hi hb hrun _
  rw [hout]
  by_cases hri : r = i
  · subst hri
    obtain rfl := ha.unique hb
    simp [Waiter.waitsFor, hi, Event.resultFor]
  · simp [Waiter.waitsFor, hi, Event.resultFor, hri, Ne.symm hri]

/-- Who launches a round waits for it until it ends, unless it walks away. -/
theorem launcher_waits (limits : Limits) (metrics : Option TaskMetrics)
    {past later : List (Event κ τ ν ε)} {caller : String} {task : τ} {r : Nat} {w : Walk κ ν}
    (h : (((fresh limits metrics).run past).2.queue.request task).1 = .launched r w)
    (hspares : Spares r later) (hdrop : .drop caller ∉ later) :
    ⟨caller, .round r⟩
      ∈ ((fresh limits metrics).run (past ++ .perform caller task :: later)).2.waiters := by
  obtain ⟨a, ha, -, -, hrun, -⟩ := launched_run (fresh limits metrics) caller h later
  have hrun := hrun (List.findSome?_eq_none_iff.mpr fun e he => hspares.resultFor_eq_none he)
  have hw : ((Ledger.after limits metrics past).call caller task).waiter = ⟨caller, .round r⟩ := by
    show (⟨caller, ticket _⟩ : Waiter ν) = _
    rw [Ledger.service_after, h]
    rfl
  have hcalls := (Ledger.call_fate limits metrics past later
    (rfl : (Ledger.after limits metrics past).call caller task = _)).1
  rw [hw, Ledger.service_after] at hcalls
  have hc := hcalls.mpr ⟨hdrop, ha.result?.trans (Round.result?_of_running hrun)⟩
  have hf := Ledger.faithful_after limits metrics (past ++ .perform caller task :: later)
  rw [← Ledger.service_after, ← hf.waiters, ← hw]
  exact List.mem_map_of_mem hc

/-! ### What the maintenance of the cache leaves alone -/

theorem step_of_maintains (s : Service κ τ ν ε) {e : Event κ τ ν ε} (he : e.maintains = true) :
    (s.step e).1.resolved = [] ∧ (s.step e).2.waiters = s.waiters ∧
      (s.step e).2.queue.inFlight = s.queue.inFlight ∧
      (s.step e).2.queue.rounds = s.queue.rounds ∧
      (s.step e).2.queue.metrics.map (·.failures) = s.queue.metrics.map (·.failures) ∧
      ∀ o, (s.step e).2.queue.metrics.map (·.requestCount o)
        = s.queue.metrics.map (·.requestCount o) := by
  have sizes : ∀ (m : Option TaskMetrics) (n i : Nat),
      (m.map (·.setSizes n i)).map (·.failures) = m.map (·.failures) ∧
        ∀ o, (m.map (·.setSizes n i)).map (·.requestCount o) = m.map (·.requestCount o) := by
    intro m n i
    rcases m with - | m
    · exact ⟨rfl, fun _ => rfl⟩
    · exact ⟨rfl, fun _ => rfl⟩
  cases e with
  | get k => exact ⟨rfl, rfl, rfl, rfl, rfl, fun _ => rfl⟩
  | store k v => exact ⟨rfl, rfl, rfl, rfl, sizes _ _ _⟩
  | remove k => exact ⟨rfl, rfl, rfl, rfl, sizes _ _ _⟩
  | prune p => exact ⟨rfl, rfl, rfl, rfl, sizes _ _ _⟩
  | clear => exact ⟨rfl, rfl, rfl, rfl, sizes _ _ _⟩
  | _ => cases he

/-! ### Rounds are fixed -/

/-- **A round is fixed at its launch**: say that after `past` a request
launches the round `r`.  If its search found a base, this is the value that was
cached under the nearest ancestor then, and the task is rebased onto it; if it
found none, no ancestor that it came to was cached, and the task is that of the
request.

Whatever happens later, the round keeps its key and this task, and the result
it comes to is the one that the first event gives it which can end it.  So if
computations end as their tasks can end, a value that the round comes to is one
that this task can return.

Up to such an event the round runs, and when it ends, whatever has happened in
between, it has the result of its ending, and exactly those are told who wait
for it, the caller that launched it among them unless it has walked away; all
of them are told this result.

Looking into the cache and changing what is cached changes no registry entry,
no round, no caller, and none of the counts of requests and failures. -/
theorem rounds_are_fixed_at_launch (limits : Limits) (metrics : Option TaskMetrics)
    (ends : τ → Ending ε ν → Prop) :
    let start : Service κ τ ν ε := fresh limits metrics
    (∀ past caller task r w,
      ((start.run past).2.step (.perform caller task)).1.answer = .admitted (.launched r w) →
      let q := (start.run past).2.queue
      let k := Task.key task
      (∀ a v, w.base = some (a, v) →
        w.prepare task = Task.rebase task v ∧ q.cache.find? a = some v ∧
        ∃ n < limits.maxSteps, Task.ancestor? task n = some a ∧
          ∀ m < n, ∃ b, Task.ancestor? task m = some b ∧ q.cache.find? b = none) ∧
      (w.base = none →
        w.prepare task = task ∧
        ∀ n < limits.maxSteps, (∀ m < n, Task.ancestor? task m ≠ none) →
          ∀ b, Task.ancestor? task n = some b → q.cache.find? b = none) ∧
      (∀ later, let es := past ++ .perform caller task :: later
        ∃ a, (start.run es).2.queue.Has r a ∧ a.key = k ∧ a.task = w.prepare task ∧
          (∀ result, a.result? = some result →
            later.findSome? (·.resultFor r k) = some result) ∧
          (start.Performs ends es →
            (∀ v, a.result? = some (.ok v) → ends (w.prepare task) (.returned v)) ∧
            ∀ result, a.result? = some result →
              (∃ ending, ends (w.prepare task) ending ∧
                result = ending.result (KeyText.text k)) ∨
              .shutdown ∈ later ∧ result = cancellation k)) ∧
      (∀ later later' ending, Spares r later → Spares r later' →
        let s := (start.run (past ++ .perform caller task :: later)).2
        let s' := (start.run (past ++ .perform caller task :: later')).2
        let result := ending.result (KeyText.text k)
        ((s.step (.finish r ending)).2.queue.result? r = some result ∧
          (s'.step (.finish r ending)).2.queue.result? r = some result) ∧
        ((s.step (.finish r ending)).1.resolved
            = (s.waiters.filter (·.waitsFor r)).map (fun x => (x.caller, result)) ∧
          (s'.step (.finish r ending)).1.resolved
            = (s'.waiters.filter (·.waitsFor r)).map fun x => (x.caller, result)) ∧
        (.drop caller ∉ later → ⟨caller, .round r⟩ ∈ s.waiters) ∧
        (.drop caller ∉ later' → ⟨caller, .round r⟩ ∈ s'.waiters))) ∧
    (∀ (s : Service κ τ ν ε) e, e.maintains = true →
      (s.step e).1.resolved = [] ∧ (s.step e).2.waiters = s.waiters ∧
      (s.step e).2.queue.inFlight = s.queue.inFlight ∧
      (s.step e).2.queue.rounds = s.queue.rounds ∧
      (s.step e).2.queue.metrics.map (·.failures) = s.queue.metrics.map (·.failures) ∧
      ∀ o, (s.step e).2.queue.metrics.map (·.requestCount o)
        = s.queue.metrics.map (·.requestCount o)) := by
  intro start
  refine ⟨fun past caller task r w hlaunched => ?_, fun s e => s.step_of_maintains⟩
  intro q k
  have h : (q.request task).1 = .launched r w := Answer.admitted.inj hlaunched
  have hwalk : q.cache.walk (Task.ancestor? task) limits.maxSteps = w := by
    obtain ⟨-, hwalk, -⟩ := Queue.launched_request h
    rwa [show q.limits = limits from limits_run start past] at hwalk
  -- one run up to the end of the round: what it leaves of it, and who is told
  have ended : ∀ later ending, Spares r later →
      let s := (start.run (past ++ .perform caller task :: later)).2
      (s.step (.finish r ending)).2.queue.result? r = some (ending.result (KeyText.text k)) ∧
        (s.step (.finish r ending)).1.resolved
          = (s.waiters.filter (·.waitsFor r)).map
              fun x => (x.caller, ending.result (KeyText.text k)) := by
    intro later ending hspares s
    obtain ⟨a, ha, hkey, -, hrun, -⟩ := launched_run start caller h later
    have hrun := hrun (List.findSome?_eq_none_iff.mpr fun e he => hspares.resultFor_eq_none he)
    have hkey : a.key = k := hkey
    rw [← hkey]
    exact ⟨result?_step_finish ha hrun ending, resolved_step_finish (attended_run limits metrics _)
      (registered_run limits metrics _) ha ending⟩
  refine ⟨fun a v hbase => ?_, fun hbase => ?_, fun later => ?_, ?_⟩
  · obtain ⟨n, hn, ha, hv, hbefore⟩ := Cache.walk_base ((congrArg Walk.base hwalk).trans hbase)
    exact ⟨by rw [Walk.prepare, hbase], hv, n, hn, ha, hbefore⟩
  · exact ⟨by rw [Walk.prepare, hbase],
      Cache.walk_base_eq_none ((congrArg Walk.base hwalk).trans hbase)⟩
  · intro es
    obtain ⟨a, ha, hkey, htask, -, hfirst⟩ := launched_run start caller h later
    refine ⟨a, ha, hkey, htask, hfirst, fun hp => ⟨fun v hv => ?_, fun result hres => ?_⟩⟩
    · rcases ends_of_result h hp (hfirst _ hv) with ⟨ending, hends, hv⟩ | ⟨-, hc⟩
      · cases ending <;> cases hv
        exact hends
      · cases hc
    · exact ends_of_result h hp (hfirst _ hres)
  · intro later later' ending hl hl' s s' result
    obtain ⟨hres, htold⟩ := ended later ending hl
    obtain ⟨hres', htold'⟩ := ended later' ending hl'
    exact ⟨⟨hres, hres'⟩, ⟨htold, htold'⟩, launcher_waits limits metrics h hl,
      launcher_waits limits metrics h hl'⟩

/-- A request launches a round that is rebased onto the value under three.  While
it is parked this value is overwritten, or else everything is pruned, another
caller joins, and the key of the round is stored.  Either way all callers are
told what the task makes of the value that it was rebased onto. -/
theorem rebased_as_launched :
    let start : Service UInt64 Script.Job Script.Value Script.Error := fresh .standard none
    let base : Script.Value := ⟨⟨3, 0⟩, none⟩
    let job : Script.Job := ⟨5, .succeed, true, none, none⟩
    let past := [.store 3 base]
    let overwritten := past ++ .perform "a" job :: [.store 3 ⟨⟨3, 7⟩, none⟩]
    let pruned := past ++ .perform "a" job ::
      [.prune fun _ => true, .perform "b" job, .store 5 ⟨⟨5, 7⟩, none⟩]
    let made : Script.Value := ⟨⟨5, 1⟩, some base.origin⟩
    ((start.run past).2.step (.perform "a" job)).1.answer
        = .admitted (.launched 0 ⟨2, some (3, base)⟩) ∧
      (start.run overwritten).2.queue.cache.find? 3 = some ⟨⟨3, 7⟩, none⟩ ∧
      (start.run pruned).2.queue.cache.find? 3 = none ∧
      (start.run pruned).2.queue.cache.find? 5 = some ⟨⟨5, 7⟩, none⟩ ∧
      (Task.rebase job base).ending 1 = .returned made ∧
      ((start.run overwritten).2.step (.finish 0 (.returned made))).1.resolved
        = [("a", .ok made)] ∧
      ((start.run pruned).2.step (.finish 0 (.returned made))).1.resolved
        = [("a", .ok made), ("b", .ok made)] := by
  intro start base job past overwritten pruned made
  have h : ((start.run past).2.step (.perform "a" job)).1.answer
      = .admitted (.launched 0 ⟨2, some (3, base)⟩) := rfl
  obtain ⟨-, -, -, hended⟩ := (rounds_are_fixed_at_launch .standard none
    fun (job : Script.Job) ending => ending = job.ending 1).1 past "a" job 0 _ h
  -- neither continuation can end the round
  obtain ⟨-, ⟨htold, htold'⟩, -⟩ := hended [.store 3 ⟨⟨3, 7⟩, none⟩]
    [.prune fun _ => true, .perform "b" job, .store 5 ⟨⟨5, 7⟩, none⟩] (.returned made)
    ⟨by simp, by simp⟩ ⟨by simp, by simp⟩
  have waiting : (start.run pruned).2.waiters.filter (·.waitsFor 0)
      = [⟨"a", .round 0⟩, ⟨"b", .round 0⟩] := by decide +kernel
  refine ⟨h, rfl, by decide +kernel, by decide +kernel, rfl, htold, ?_⟩
  rw [htold', waiting]
  rfl

end Service

end SlotStates
