/-
SlotStates/Proofs/Queue/Calls.lean

Every call is told once, and what its own round has become.

A service knows its callers by their names, and a caller may have made several
calls.  A ledger goes with a run and tells the calls apart: it numbers each by
the event that made it and notes its key and what it is told.  The notes decide
nothing.  The ledger of a run without them is the service after the run, and
what it notes as told is, in the same order, what the reports say
(`Faithful`, `told_after`).

Since a result that is there stays, and since whoever is present is told as
soon as it is there, what has become of a call can be read off its round at
the end of the run (`call_fate`).  The main result is
`calls_follow_their_rounds`.
-/
import SlotStates.Proofs.Queue.Attendance

namespace SlotStates

/-- A call: the number of the event that made it, its key, and its caller with
what it waits for. -/
structure Call (κ ν : Type) where
  number : Nat
  key : κ
  waiter : Waiter ν

/-- A service with notes about all calls: those that are pending, in the order
of the requests, and those that were told, with their results. -/
structure Ledger (κ τ ν ε : Type) where
  service : Service κ τ ν ε
  events : Nat
  calls : List (Call κ ν)
  told : List (Call κ ν × Result ε ν)

variable {κ τ ν ε : Type} [DecidableEq κ] [KeyText κ]

/-- The result that an event gives a running round of a number and a key. -/
def Event.resultFor (r : Nat) (k : κ) : Event κ τ ν ε → Option (Result ε ν)
  | .finish i e => if i = r then some (e.result (KeyText.text k)) else none
  | .shutdown => some (cancellation k)
  | _ => none

/-- A call waits for a round of its own key, if it waits for a round. -/
def Call.Belongs (c : Call κ ν) (q : Queue κ τ ν ε) : Prop :=
  ∀ r, c.waiter.ticket = .round r → ∃ a, q.Has r a ∧ a.key = c.key

omit [DecidableEq κ] [KeyText κ] in
theorem Call.Belongs.grows {c : Call κ ν} {q q' : Queue κ τ ν ε} (h : c.Belongs q)
    (hq : q.Grows q') : c.Belongs q' := by
  intro r hr
  obtain ⟨a, ha, hk⟩ := h r hr
  obtain ⟨b, hb, hab⟩ := hq.becomes ha
  exact ⟨b, hb, hab.key.trans hk⟩

namespace Ledger

variable [Task τ κ ν]

/-- The call that a request makes. -/
def call (l : Ledger κ τ ν ε) (caller : String) (task : τ) : Call κ ν :=
  ⟨l.events, Task.key task, ⟨caller, Service.ticket (l.service.queue.request task).1⟩⟩

/-- The calls that are there when an event has taken place, before anybody is
told. -/
def present (l : Ledger κ τ ν ε) : Event κ τ ν ε → List (Call κ ν)
  | .perform caller task => l.calls ++ [l.call caller task]
  | .drop caller => l.calls.filter fun c => c.waiter.caller ≠ caller
  | _ => l.calls

/-- One event: the service takes it, and those whose result is there then are
told. -/
def step (l : Ledger κ τ ν ε) (e : Event κ τ ν ε) : Ledger κ τ ν ε :=
  let s := (l.service.step e).2
  { service := s
    events := l.events + 1
    calls := (l.present e).filter fun c => (s.queue.outcome? c.waiter.ticket).isNone
    told := l.told ++ (l.present e).filterMap fun c =>
      (s.queue.outcome? c.waiter.ticket).map (c, ·) }

/-- The ledger of a run from a fresh service. -/
def after (limits : Limits) (metrics : Option TaskMetrics) (es : List (Event κ τ ν ε)) :
    Ledger κ τ ν ε :=
  es.foldl step ⟨.fresh limits metrics, 0, [], []⟩

/-- All calls that are told or pending. -/
def known (l : Ledger κ τ ν ε) : List (Call κ ν) := l.told.map (·.1) ++ l.calls

/-! ### The notes are right -/

/-- What a ledger notes agrees with its service, and each call is noted once. -/
structure Faithful (l : Ledger κ τ ν ε) : Prop where
  registered : l.service.queue.Registered
  attended : l.service.Attended
  waiters : l.calls.map (·.waiter) = l.service.waiters
  number_lt : ∀ c ∈ l.known, c.number < l.events
  distinct : (l.known.map (·.number)).Nodup
  belongs : ∀ c ∈ l.known, c.Belongs l.service.queue
  outcome : ∀ t ∈ l.told, l.service.queue.outcome? t.1.waiter.ticket = some t.2

omit [KeyText κ] in
theorem Faithful.present_waiters {l : Ledger κ τ ν ε} (h : l.Faithful) (e : Event κ τ ν ε) :
    (l.present e).map (·.waiter) = l.service.present e := by
  cases e with
  | perform caller task => simp [present, Service.present, h.waiters, call]
  | drop caller => simp [present, Service.present, ← h.waiters, List.filter_map, Function.comp_def]
  | _ => exact h.waiters

/-- The ledger notes as told whom the report says. -/
theorem Faithful.resolved {l : Ledger κ τ ν ε} (h : l.Faithful) (e : Event κ τ ν ε) :
    ((l.present e).filterMap fun c =>
        ((l.service.step e).2.queue.outcome? c.waiter.ticket).map (c, ·)).map
        (fun t => (t.1.waiter.caller, t.2))
      = (l.service.step e).1.resolved := by
  rw [Service.step_resolved h.attended h.registered, ← h.present_waiters, List.filterMap_map,
    List.map_filterMap]
  refine List.filterMap_congr fun c hc => ?_
  rw [Option.map_map]
  rfl

/-- Being told changes nothing about which calls are known. -/
theorem known_step (l : Ledger κ τ ν ε) (e : Event κ τ ν ε) :
    (l.step e).known.Perm (l.told.map (·.1) ++ l.present e) := by
  -- whoever is present has a result, and is told, or has none
  have hsplit : ∀ (f : Call κ ν → Option (Result ε ν)) (cs : List (Call κ ν)),
      ((cs.filterMap fun c => (f c).map (c, ·)).map (·.1) ++ cs.filter fun c => (f c).isNone).Perm
        cs := by
    intro f cs
    induction cs with
    | nil => exact .nil
    | cons c cs ih =>
      rcases hf : f c with - | result
      · simpa [hf] using List.perm_middle.trans (ih.cons c)
      · simpa [hf] using ih
  show ((l.told ++ _).map (·.1) ++ _).Perm _
  rw [List.map_append, List.append_assoc]
  exact (hsplit _ (l.present e)).append_left _

/-- Who is present is known from before, or has just called. -/
theorem mem_known_step {l : Ledger κ τ ν ε} {e : Event κ τ ν ε} {c : Call κ ν}
    (hc : c ∈ (l.step e).known) :
    c ∈ l.known ∨ ∃ caller task, e = .perform caller task ∧ c = l.call caller task := by
  rcases List.mem_append.mp ((l.known_step e).mem_iff.mp hc) with hc | hc
  · exact .inl (List.mem_append_left _ hc)
  · cases e with
    | perform caller task =>
      rcases List.mem_append.mp hc with hc | hc
      · exact .inl (List.mem_append_right _ hc)
      · exact .inr ⟨caller, task, rfl, List.mem_singleton.mp hc⟩
    | drop caller => exact .inl (List.mem_append_right _ (List.mem_of_mem_filter hc))
    | _ => exact .inl (List.mem_append_right _ hc)

/-- A new call waits for a round of its key. -/
theorem Faithful.belongs_call {l : Ledger κ τ ν ε} (h : l.Faithful) (caller : String) (task : τ) :
    (l.call caller task).Belongs (l.step (.perform caller task)).service.queue := by
  intro r hr
  obtain ⟨a, ha, hk, -⟩ := Service.unfinished_request h.registered hr
  show ∃ a, (l.service.step (.perform caller task)).2.queue.Has r a ∧ a.key = _
  rw [Service.step_queue]
  obtain ⟨b, hb, hab⟩ := (Service.grows_pollAll (l.service.queue.request task).2 _).becomes ha
  exact ⟨b, hb, hab.key.trans hk⟩

omit [KeyText κ] in
/-- Who holds a value when an event has taken place has just found it. -/
theorem Faithful.find?_of_ready {l : Ledger κ τ ν ε} (h : l.Faithful) {e : Event κ τ ν ε}
    {c : Call κ ν} (hc : c ∈ l.present e) {v : ν} (hv : c.waiter.ticket = .ready v) :
    l.service.queue.cache.find? c.key = some v := by
  -- whoever waited before waits for a round
  have old : c ∉ l.calls := by
    intro hc
    obtain ⟨r, a, hr, -⟩ := h.attended c.waiter (h.waiters ▸ List.mem_map_of_mem hc)
    cases hv.symm.trans hr
  cases e with
  | perform caller task =>
    obtain rfl : c = l.call caller task :=
      List.mem_singleton.mp ((List.mem_append.mp hc).resolve_left old)
    have ht := l.service.queue.admitted_request task
    have hv : Service.ticket (l.service.queue.request task).1 = .ready v := hv
    generalize (l.service.queue.request task).1 = admission,
      (l.service.queue.request task).2 = q' at ht hv
    cases ht with
    | hit found =>
      obtain rfl := Ticket.ready.inj hv
      exact found
    | _ => cases hv
  | drop caller => exact absurd (List.mem_of_mem_filter hc) old
  | _ => exact absurd hc old

omit [DecidableEq κ] [KeyText κ] [Task τ κ ν] in
theorem faithful_start (limits : Limits) (metrics : Option TaskMetrics) :
    (⟨.fresh limits metrics, 0, [], []⟩ : Ledger κ τ ν ε).Faithful where
  registered := Queue.registered_fresh limits metrics
  attended := Service.attended_fresh limits metrics
  waiters := rfl
  number_lt _ hc := by cases hc
  distinct := List.nodup_nil
  belongs _ hc := by cases hc
  outcome _ ht := by cases ht

theorem Faithful.step {l : Ledger κ τ ν ε} (h : l.Faithful) (e : Event κ τ ν ε) :
    (l.step e).Faithful where
  registered := Service.step_queue_induction (fun r h => h.poll r) (h.registered.apply e)
  attended := h.attended.step h.registered e
  waiters := by
    show ((l.present e).filter _).map (·.waiter) = (l.service.step e).2.waiters
    rw [Service.step_waiters h.attended h.registered, ← h.present_waiters, List.filter_map]
    rfl
  number_lt c hc := by
    show c.number < l.events + 1
    rcases mem_known_step hc with hc | ⟨caller, task, -, rfl⟩
    · exact Nat.lt_succ_of_lt (h.number_lt c hc)
    · exact Nat.lt_succ_self l.events
  distinct := by
    rw [((l.known_step e).map _).nodup_iff]
    cases e with
    | perform caller task =>
      -- the number of the new call is that of this event
      show ((l.told.map (·.1) ++ (l.calls ++ [l.call caller task])).map (·.number)).Nodup
      rw [← List.append_assoc, List.map_append]
      refine List.Nodup.append h.distinct (List.nodup_singleton _) ?_
      intro n hn hn'
      obtain ⟨c, hc, rfl⟩ := List.mem_map.mp hn
      have he : c.number = l.events := List.mem_singleton.mp hn'
      exact Nat.lt_irrefl _ (he ▸ h.number_lt c hc)
    | drop caller =>
      have hs : (l.told.map (·.1) ++ l.present (.drop caller)).Sublist l.known :=
        List.filter_sublist.append_left _
      exact (hs.map _).nodup h.distinct
    | _ => exact h.distinct
  belongs c hc := by
    rcases mem_known_step hc with hc | ⟨caller, task, rfl, rfl⟩
    · exact (h.belongs c hc).grows (l.service.grows_step e)
    · exact h.belongs_call caller task
  outcome t ht := by
    rcases List.mem_append.mp ht with ht | ht
    · exact (l.service.grows_step e).outcome? (h.outcome t ht)
    · obtain ⟨c, -, hc⟩ := List.mem_filterMap.mp ht
      obtain ⟨result, hr, rfl⟩ := Option.map_eq_some_iff.mp hc
      exact hr

theorem after_concat (limits : Limits) (metrics : Option TaskMetrics)
    (es : List (Event κ τ ν ε)) (e : Event κ τ ν ε) :
    after limits metrics (es ++ [e]) = (after limits metrics es).step e :=
  List.foldl_concat ..

theorem faithful_after (limits : Limits) (metrics : Option TaskMetrics)
    (es : List (Event κ τ ν ε)) : (after limits metrics es).Faithful := by
  induction es using List.reverseRecOn with
  | nil => exact faithful_start limits metrics
  | append_singleton es e ih =>
    rw [after_concat]
    exact ih.step e

/-- Without its notes, the ledger of a run is the service after the run. -/
theorem service_after (limits : Limits) (metrics : Option TaskMetrics)
    (es : List (Event κ τ ν ε)) :
    (after limits metrics es).service = ((Service.fresh limits metrics).run es).2 := by
  induction es using List.reverseRecOn with
  | nil => rfl
  | append_singleton es e ih =>
    rw [after_concat, Service.run_append_snd, ← ih]
    rfl

theorem events_after (limits : Limits) (metrics : Option TaskMetrics)
    (es : List (Event κ τ ν ε)) : (after limits metrics es).events = es.length := by
  induction es using List.reverseRecOn with
  | nil => rfl
  | append_singleton es e ih =>
    rw [after_concat, List.length_append, ← ih]
    rfl

/-- What the ledger of a run notes as told is what the reports say. -/
theorem told_after (limits : Limits) (metrics : Option TaskMetrics)
    (es : List (Event κ τ ν ε)) :
    (after limits metrics es).told.map (fun t => (t.1.waiter.caller, t.2))
      = ((Service.fresh limits metrics).run es).1.flatMap (·.resolved) := by
  induction es using List.reverseRecOn with
  | nil => rfl
  | append_singleton es e ih =>
    have h := faithful_after limits metrics es
    rw [after_concat, Service.run_append_fst, List.flatMap_append, ← ih, ← service_after]
    show ((after limits metrics es).told ++ _).map _ = _
    rw [List.map_append, h.resolved e]
    simp [Service.run]

/-- Every call that is noted was made by a request of the run. -/
theorem known_after {limits : Limits} {metrics : Option TaskMetrics}
    {es : List (Event κ τ ν ε)} {c : Call κ ν} (hc : c ∈ (after limits metrics es).known) :
    ∃ past caller task later, es = past ++ .perform caller task :: later ∧
      c = (after limits metrics past).call caller task := by
  induction es using List.reverseRecOn with
  | nil => cases hc
  | append_singleton es e ih =>
    rw [after_concat] at hc
    rcases mem_known_step hc with hc | ⟨caller, task, rfl, rfl⟩
    · obtain ⟨past, caller, task, later, rfl, rfl⟩ := ih hc
      exact ⟨past, caller, task, later ++ [e], List.append_assoc .., rfl⟩
    · exact ⟨es, caller, task, [], rfl, rfl⟩

/-- What a call was told it was told. -/
theorem told_subset_after (limits : Limits) (metrics : Option TaskMetrics)
    (es fs : List (Event κ τ ν ε)) :
    (after limits metrics es).told ⊆ (after limits metrics (es ++ fs)).told := by
  induction fs using List.reverseRecOn with
  | nil => simp
  | append_singleton fs e ih =>
    rw [← List.append_assoc, after_concat]
    exact List.Subset.trans ih (List.subset_append_left _ _)

/-! ### What becomes of a call -/

/-- Who is present when an event is over is pending, or is told. -/
theorem mem_calls_step_iff {l : Ledger κ τ ν ε} {e : Event κ τ ν ε} {c : Call κ ν} :
    c ∈ (l.step e).calls
      ↔ c ∈ l.present e ∧ (l.step e).service.queue.outcome? c.waiter.ticket = none := by
  show c ∈ (l.present e).filter _ ↔ _
  rw [List.mem_filter, Option.isNone_iff_eq_none]
  rfl

theorem mem_told_step_iff {l : Ledger κ τ ν ε} {e : Event κ τ ν ε} {c : Call κ ν}
    {result : Result ε ν} :
    (c, result) ∈ (l.step e).told ↔ (c, result) ∈ l.told ∨
      c ∈ l.present e ∧ (l.step e).service.queue.outcome? c.waiter.ticket = some result := by
  show (c, result) ∈ l.told ++ (l.present e).filterMap _ ↔ _
  rw [List.mem_append, List.mem_filterMap]
  refine or_congr_right ⟨?_, fun ⟨hc, hr⟩ => ⟨c, hc, Option.map_eq_some_iff.mpr ⟨_, hr, rfl⟩⟩⟩
  rintro ⟨c', hc, h⟩
  obtain ⟨result, hr, he⟩ := Option.map_eq_some_iff.mp h
  cases he
  exact ⟨hc, hr⟩

omit [KeyText κ] in
/-- A call that is known is present unless it is told or walks away. -/
theorem mem_present_iff {l : Ledger κ τ ν ε} {e : Event κ τ ν ε} {c : Call κ ν}
    (hc : c.number < l.events) :
    c ∈ l.present e ↔ c ∈ l.calls ∧ e ≠ .drop c.waiter.caller := by
  cases e with
  | perform caller task =>
    have hn : c ≠ l.call caller task := by
      rintro rfl
      exact Nat.lt_irrefl _ hc
    simp [present, hn]
  | drop caller => simp [present, @eq_comm _ caller]
  | _ => simp [present]

/-- What has become of a call made after `past`: it is pending as long as it
has not walked away and nothing is there for it, and what is there it is told,
unless it has walked away. -/
theorem call_fate (limits : Limits) (metrics : Option TaskMetrics)
    (past later : List (Event κ τ ν ε)) {caller : String} {task : τ} {c : Call κ ν}
    (hc : c = (after limits metrics past).call caller task) :
    let l := after limits metrics (past ++ .perform caller task :: later)
    (c ∈ l.calls ↔ .drop caller ∉ later ∧ l.service.queue.outcome? c.waiter.ticket = none) ∧
    (.drop caller ∉ later → ∀ result,
      l.service.queue.outcome? c.waiter.ticket = some result → (c, result) ∈ l.told) := by
  have hcaller : c.waiter.caller = caller := by rw [hc]; rfl
  have hnumber : c.number = past.length := by rw [hc, ← events_after]; rfl
  -- the induction is on what happened last
  induction later using List.reverseRecOn with
  | nil =>
    intro l
    have hl : l = (after limits metrics past).step (.perform caller task) := after_concat ..
    have hp : c ∈ (after limits metrics past).present (.perform caller task) :=
      List.mem_append_right _ (List.mem_singleton.mpr hc)
    rw [hl, mem_calls_step_iff]
    refine ⟨by simp [hp], fun _ result hr => ?_⟩
    exact mem_told_step_iff.mpr (.inr ⟨hp, hr⟩)
  | append_singleton later e ih =>
    intro l
    obtain ⟨before, hbefore⟩ :
      ∃ l', after limits metrics (past ++ .perform caller task :: later) = l' := ⟨_, rfl⟩
    have hl : l = before.step e := by
      rw [← hbefore, ← after_concat, List.append_assoc]
      rfl
    have hlt : c.number < before.events := by
      rw [hnumber, ← hbefore, events_after]
      simp
    have hgrows : before.service.queue.Grows (before.step e).service.queue :=
      before.service.grows_step e
    rw [hbefore] at ih
    obtain ⟨hcalls, htold⟩ := ih
    -- a call that is pending is present, unless this is where it walks away
    have hpresent : c ∈ before.present e
        ↔ .drop caller ∉ later ++ [e] ∧ before.service.queue.outcome? c.waiter.ticket = none := by
      rw [mem_present_iff hlt, hcalls, hcaller]
      simp only [List.mem_append, List.mem_singleton, not_or, ne_comm]
      exact and_right_comm
    rw [hl]
    -- what is there stays, so that either it was there before or it is news
    rcases h : before.service.queue.outcome? c.waiter.ticket with - | result'
    · rw [mem_calls_step_iff, hpresent, h]
      refine ⟨by simp, fun hn result hr => ?_⟩
      exact mem_told_step_iff.mpr (.inr ⟨hpresent.mpr ⟨hn, h⟩, hr⟩)
    · rw [mem_calls_step_iff, hpresent, h, hgrows.outcome? h]
      refine ⟨by simp, fun hn result hr => ?_⟩
      obtain rfl := Option.some.inj hr
      exact mem_told_step_iff.mpr (.inl (htold (fun hm => hn (List.mem_append_left _ hm)) _ h))

/-- A call belongs to a round of its own key, whatever happens later, if it
waits for a round. -/
theorem belongs_after (limits : Limits) (metrics : Option TaskMetrics)
    (past later : List (Event κ τ ν ε)) (caller : String) (task : τ) :
    ((after limits metrics past).call caller task).Belongs
      (after limits metrics (past ++ .perform caller task :: later)).service.queue := by
  have h := (faithful_after limits metrics past).belongs_call caller task
  rw [← after_concat, service_after] at h
  rw [List.append_cons, service_after, Service.run_append_snd]
  exact h.grows (Service.grows_run _ later)

/-- A call that finds its value in the cache is told it in its own step. -/
theorem told_of_cached (limits : Limits) (metrics : Option TaskMetrics)
    (past later : List (Event κ τ ν ε)) (caller : String) {task : τ} {v : ν}
    (hv : (after limits metrics past).service.queue.cache.find? (Task.key task) = some v) :
    let c := (after limits metrics past).call caller task
    let l := after limits metrics (past ++ .perform caller task :: later)
    c ∉ l.calls ∧ ∀ result, (c, result) ∈ l.told ↔ result = .ok v := by
  intro c l
  have h : l.Faithful := faithful_after limits metrics _
  have hready : c.waiter.ticket = .ready v := congrArg Service.ticket (Queue.request_of_cached hv)
  have hcalls := (call_fate limits metrics past later (c := c) rfl).1
  rw [hready] at hcalls
  refine ⟨fun hc => ?_, fun result => ⟨fun hr => ?_, ?_⟩⟩
  · cases (hcalls.mp hc).2
  · have ho := h.outcome _ hr
    rw [hready] at ho
    exact (Option.some.inj ho).symm
  · -- it is told in its own step, and what follows cannot take that back
    rintro rfl
    have hnow := (call_fate limits metrics past [] (c := c) rfl).2 List.not_mem_nil (.ok v)
      (by rw [hready]; rfl)
    have hsub := told_subset_after limits metrics (past ++ [.perform caller task]) later
    rw [← List.append_cons] at hsub
    exact hsub hnow

/-- Any other call belongs to one round of its own key, is pending as long as
this round has no result, and is told its result and nothing else. -/
theorem told_of_missed (limits : Limits) (metrics : Option TaskMetrics)
    (past later : List (Event κ τ ν ε)) (caller : String) {task : τ}
    (hn : (after limits metrics past).service.queue.cache.find? (Task.key task) = none) :
    let q := (after limits metrics past).service.queue
    let c := (after limits metrics past).call caller task
    let l := after limits metrics (past ++ .perform caller task :: later)
    ∃ r a, ((q.request task).1 = .joined r ∨ ∃ w, (q.request task).1 = .launched r w) ∧
      c.waiter.ticket = .round r ∧ l.service.queue.Has r a ∧ a.key = Task.key task ∧
      (c ∈ l.calls ↔ .drop caller ∉ later ∧ a.result? = none) ∧
      (∀ result, (c, result) ∈ l.told → a.result? = some result) ∧
      (.drop caller ∉ later → ∀ result, a.result? = some result → (c, result) ∈ l.told) := by
  intro q c l
  have h : l.Faithful := faithful_after limits metrics _
  obtain ⟨r, hadmission⟩ := Queue.request_of_missed hn
  have hr : c.waiter.ticket = .round r := by
    show Service.ticket (q.request task).1 = _
    rcases hadmission with hj | ⟨w, hl⟩
    · rw [hj]
      rfl
    · rw [hl]
      rfl
  obtain ⟨a, ha, hk⟩ := belongs_after limits metrics past later caller task r hr
  have ho : l.service.queue.outcome? c.waiter.ticket = a.result? := by
    rw [hr]
    exact ha.result?
  obtain ⟨hcalls, htold⟩ := call_fate limits metrics past later (c := c) rfl
  rw [ho] at hcalls htold
  exact ⟨r, a, hadmission, hr, ha, hk, hcalls, fun result hc => ho.symm.trans (h.outcome _ hc),
    htold⟩

end Ledger

/-! ### How a round that is waited for can end -/

namespace Service

variable [Task τ κ ν]

/-- A running round that somebody waits for gets the result that an event
gives it, and otherwise has none. -/
theorem result?_step {s : Service κ τ ν ε} {w : Waiter ν} (hw : w ∈ s.waiters) {r : Nat}
    (hr : w.ticket = .round r) {a : Round κ τ ν ε} (ha : s.queue.Has r a)
    (hrun : a.status = .running) (e : Event κ τ ν ε) :
    (s.step e).2.queue.result? r = e.resultFor r a.key := by
  rw [(has_step ha e).result?]
  obtain ⟨k, t, status⟩ := a
  obtain rfl : status = .running := hrun
  cases e with
  | finish i e =>
    by_cases hi : i = r <;>
      split <;> simp [Round.after, Round.observed, Round.result?, Event.resultFor, hi]
  | shutdown =>
    have hasked : (s.asked .shutdown).any (·.waitsFor r) = true :=
      List.any_eq_true.mpr ⟨w, hw, Waiter.waitsFor_iff.mpr hr⟩
    rw [if_pos hasked]
    rfl
  | _ => split <;> rfl

end Service

namespace Ledger

variable [Task τ κ ν]

omit [KeyText κ] [Task τ κ ν] in
/-- A pending call waits for a round of its key that runs and is in flight
under this key. -/
theorem Faithful.pending {l : Ledger κ τ ν ε} (h : l.Faithful) {p : Call κ ν} (hp : p ∈ l.calls) :
    ∃ r a, p.waiter.ticket = .round r ∧ l.service.queue.Has r a ∧ a.key = p.key ∧
      a.status = .running ∧ l.service.queue.inFlight.lookup p.key = some r := by
  have hw : p.waiter ∈ l.service.waiters := h.waiters ▸ List.mem_map_of_mem hp
  obtain ⟨r, a, hr, ha, hrun⟩ := h.attended _ hw
  obtain ⟨b, hb, hk⟩ := h.belongs p (List.mem_append_right _ hp) r hr
  obtain rfl := ha.unique hb
  refine ⟨r, a, hr, ha, hk, hrun, ?_⟩
  rw [h.registered.lookup_iff, ha.unfinished_iff]
  exact ⟨hk, Round.result?_of_running hrun⟩

/-- In the step that ends its round a pending call is told the result, and in
any other it goes on waiting, unless it walks away. -/
theorem Faithful.pending_step {l : Ledger κ τ ν ε} (h : l.Faithful) {p : Call κ ν}
    (hp : p ∈ l.calls) {r : Nat} (hr : p.waiter.ticket = .round r) {e : Event κ τ ν ε}
    (he : e ≠ .drop p.waiter.caller) :
    match e.resultFor r p.key with
    | some result => (p, result) ∈ (l.step e).told
    | none => p ∈ (l.step e).calls := by
  have hw : p.waiter ∈ l.service.waiters := h.waiters ▸ List.mem_map_of_mem hp
  have hpresent : p ∈ l.present e :=
    (mem_present_iff (h.number_lt p (List.mem_append_right _ hp))).mpr ⟨hp, he⟩
  obtain ⟨i, a, hi, ha, hk, hrun, -⟩ := h.pending hp
  obtain rfl := Ticket.round.inj (hr.symm.trans hi)
  have hresult : (l.step e).service.queue.outcome? p.waiter.ticket = e.resultFor r p.key := by
    rw [hr, ← hk]
    exact Service.result?_step hw hr ha hrun e
  split
  · next result hs => exact mem_told_step_iff.mpr (.inr ⟨hpresent, hresult.trans hs⟩)
  · next hs => exact mem_calls_step_iff.mpr ⟨hpresent, hresult.trans hs⟩

/-- **No call is lost or mistaken for another**: `c` is the call made after
`past`, and `l` the ledger of the whole run.

The ledger is the run with notes, and no call is noted twice, nor one that was
not made.  A hit has its value at once.  Any other call belongs to one round of
its own key, is pending as long as this round has no result, and is told its
result and nothing else, unless it walks away.  Whoever was told anything was
told what its ticket stands for; and whoever is pending waits for a round that
runs, is in flight under the key of the call, and tells it the result in the
step that ends it. -/
theorem calls_follow_their_rounds (limits : Limits) (metrics : Option TaskMetrics)
    (past later : List (Event κ τ ν ε)) (caller : String) (task : τ) :
    let q := ((Service.fresh limits metrics).run past).2.queue
    let c := (after limits metrics past).call caller task
    let es := past ++ .perform caller task :: later
    let s := ((Service.fresh limits metrics).run es).2
    let l := after limits metrics es
    (l.service = s ∧ l.calls.map (·.waiter) = s.waiters ∧
      l.told.map (fun t => (t.1.waiter.caller, t.2))
        = ((Service.fresh limits metrics).run es).1.flatMap (·.resolved)) ∧
    ((l.known.map (·.number)).Nodup ∧
      ∀ p ∈ l.known, ∃ past caller task later, es = past ++ .perform caller task :: later ∧
        p = (after limits metrics past).call caller task) ∧
    (∀ v, q.cache.find? (Task.key task) = some v →
      c ∉ l.calls ∧ ∀ result, (c, result) ∈ l.told ↔ result = .ok v) ∧
    (q.cache.find? (Task.key task) = none →
      ∃ r a, ((q.request task).1 = .joined r ∨ ∃ w, (q.request task).1 = .launched r w) ∧
        c.waiter.ticket = .round r ∧ s.queue.Has r a ∧ a.key = Task.key task ∧
        (c ∈ l.calls ↔ .drop caller ∉ later ∧ a.result? = none) ∧
        (∀ result, (c, result) ∈ l.told → a.result? = some result) ∧
        (.drop caller ∉ later → ∀ result, a.result? = some result → (c, result) ∈ l.told)) ∧
    (∀ t ∈ l.told,
      match t.1.waiter.ticket with
      | .ready v => t.2 = .ok v
      | .round r => ∃ a, s.queue.Has r a ∧ a.key = t.1.key ∧ a.result? = some t.2) ∧
    (∀ p ∈ l.calls, ∃ r a, p.waiter.ticket = .round r ∧ s.queue.Has r a ∧ a.key = p.key ∧
      a.status = .running ∧ s.queue.inFlight.lookup p.key = some r ∧
      ∀ e, e ≠ .drop p.waiter.caller →
        match e.resultFor r p.key with
        | some result => (p, result) ∈ (l.step e).told
        | none => p ∈ (l.step e).calls) := by
  intro q c es s l
  have h : l.Faithful := faithful_after limits metrics es
  have hs : l.service = s := service_after limits metrics es
  have hq : (after limits metrics past).service.queue = q :=
    congrArg _ (service_after limits metrics past)
  refine ⟨⟨hs, h.waiters.trans (by rw [hs]), told_after limits metrics es⟩,
    ⟨h.distinct, fun p => known_after⟩, ?_, ?_, ?_, ?_⟩
  · intro v hv
    exact told_of_cached limits metrics past later caller (hq ▸ hv)
  · intro hn
    rw [← hq, ← hs]
    exact told_of_missed limits metrics past later caller (hq ▸ hn)
  · intro t ht
    have ho := h.outcome t ht
    split
    · next v hv =>
      rw [hv] at ho
      exact (Option.some.inj ho).symm
    · next r hr =>
      obtain ⟨a, ha, hk⟩ := h.belongs t.1 (List.mem_append_left _ (List.mem_map_of_mem ht)) r hr
      rw [hr] at ho
      exact ⟨a, hs ▸ ha, hk, ha.result?.symm.trans ho⟩
  · intro p hp
    obtain ⟨r, a, hr, ha, hk, hrun, hl⟩ := h.pending hp
    rw [hs] at ha hl
    exact ⟨r, a, hr, ha, hk, hrun, hl, fun e he => h.pending_step hp hr he⟩

end Ledger

end SlotStates
