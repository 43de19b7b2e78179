/-
SlotStates/Proofs/Queue/Orphans.lean

Rounds that nobody waited for when they were stopped.

A shutdown stops all rounds that run.  Those that somebody waits for are
noticed at once and cancelled.  The others are orphans: they keep their entries
in the registry until somebody asks for their result.  A round is an orphan
exactly if some shutdown abandoned it and nobody has asked for its result since
(`orphaned_iff`).

No caller waits for an orphan, so that only a request can ask for its result,
and only one that misses the cache (`misses_of_observes`).  Such a request
joins the orphan, is told that it was cancelled, and takes its entry out of the
registry, all in one step (`absorbs_of_orphaned`).
-/
import SlotStates.Proofs.Queue.Attendance
import SlotStates.Proofs.Queue.History

namespace SlotStates

variable {κ τ ν ε : Type} [DecidableEq κ] [KeyText κ]

namespace Queue

/-- The round of a number was launched for a key and stopped, and nobody has
noticed. -/
def Orphaned (q : Queue κ τ ν ε) (k : κ) (r : Nat) : Prop :=
  ∃ a, q.Has r a ∧ a.key = k ∧ a.status = .killed

omit [DecidableEq κ] [KeyText κ] in
theorem Orphaned.unfinished {q : Queue κ τ ν ε} {k : κ} {r : Nat} (h : q.Orphaned k r) :
    q.Unfinished k r := by
  obtain ⟨a, ha, hk, hs⟩ := h
  exact ⟨a, ha, hk, Round.result?_of_killed hs⟩

end Queue

namespace Service

variable [Task τ κ ν]

/-- Somebody asks for the result of a round. -/
def Observes (s : Service κ τ ν ε) (e : Event κ τ ν ε) (r : Nat) : Prop :=
  ∃ w ∈ s.asked e, w.ticket = .round r

/-- A shutdown finds the round of a number and a key unfinished, and nobody
waits for it. -/
structure Abandons (s : Service κ τ ν ε) (e : Event κ τ ν ε) (k : κ) (r : Nat) : Prop where
  shutdown : e = .shutdown
  unfinished : s.queue.Unfinished k r
  unattended : ∀ w ∈ s.waiters, w.ticket ≠ .round r

/-- A key is requested that is not cached. -/
def Misses (s : Service κ τ ν ε) (e : Event κ τ ν ε) (k : κ) : Prop :=
  ∃ caller task, e = .perform caller task ∧ Task.key task = k ∧ s.queue.cache.find? k = none

omit [KeyText κ] in
theorem observes_iff {s : Service κ τ ν ε} {e : Event κ τ ν ε} {r : Nat} :
    s.Observes e r ↔ (s.asked e).any (·.waitsFor r) = true := by
  simp only [Observes, List.any_eq_true, Waiter.waitsFor_iff]

/-! ### Which rounds are orphans -/

omit [DecidableEq κ] [Task τ κ ν] in
theorem status_after_eq_killed_iff (a : Round κ τ ν ε) (r : Nat) (e : Event κ τ ν ε) :
    (a.after r e).status = .killed ↔ a.status = .killed ∨ a.status = .running ∧ e = .shutdown := by
  obtain ⟨k, t, status⟩ := a
  cases e with
  | finish i e =>
    cases status with
    | running =>
      simp only [Round.after]
      split <;> simp
    | _ => simp [Round.after]
  | shutdown => cases status <;> simp [Round.after, Round.stopped]
  | _ => simp [Round.after]

/-- A round that an event leaves stopped is none that it launched. -/
theorem exists_has_of_killed {s : Service κ τ ν ε} {e : Event κ τ ν ε} {r : Nat}
    {b : Round κ τ ν ε} (hb : (s.step e).2.queue.Has r b) (hs : b.status = .killed) :
    ∃ a, s.queue.Has r a := by
  rcases exists_has_or_launched hb with ha | ⟨caller, task, w, rfl, hw⟩
  · exact ha
  · obtain rfl := hb.unique (has_launched caller hw)
    cases hs

/-- A step leaves those orphans that nobody asks for, and a shutdown makes
orphans of all unfinished rounds that nobody asks for. -/
theorem orphaned_step_iff {s : Service κ τ ν ε} {e : Event κ τ ν ε} {k : κ} {r : Nat} :
    (s.step e).2.queue.Orphaned k r
      ↔ (s.queue.Orphaned k r ∨ e = .shutdown ∧ s.queue.Unfinished k r) ∧ ¬ s.Observes e r := by
  constructor
  · rintro ⟨b, hb, rfl, hs⟩
    obtain ⟨a, ha⟩ := exists_has_of_killed hb hs
    obtain rfl := hb.unique (has_step ha e)
    rw [observes_iff]
    split at hs
    · exact absurd hs (Round.status_observed_ne_killed _)
    · next hobs =>
      rw [if_neg hobs, (a.becomes_after r e).key]
      refine ⟨?_, hobs⟩
      rcases (status_after_eq_killed_iff a r e).mp hs with hs | ⟨hs, he⟩
      · exact .inl ⟨a, ha, rfl, hs⟩
      · exact .inr ⟨he, a, ha, rfl, Round.result?_of_running hs⟩
  · rintro ⟨h, hobs⟩
    rw [observes_iff] at hobs
    have left : ∀ {a : Round κ τ ν ε}, s.queue.Has r a → a.key = k →
        (a.after r e).status = .killed → (s.step e).2.queue.Orphaned k r := by
      intro a ha hk hs
      refine ⟨a.after r e, ?_, (a.becomes_after r e).key.trans hk, hs⟩
      have hb := has_step ha e
      rwa [if_neg hobs] at hb
    rcases h with ⟨a, ha, hk, hs⟩ | ⟨rfl, a, ha, hk, hn⟩
    · exact left ha hk ((status_after_eq_killed_iff a r e).mpr (.inl hs))
    · refine left ha hk ?_
      obtain ⟨k', t, status⟩ := a
      cases status with
      | settled result => cases hn
      | _ => rfl

omit [KeyText κ] in
/-- A shutdown abandons the unfinished rounds that nobody asks for. -/
theorem abandons_iff {s : Service κ τ ν ε} {e : Event κ τ ν ε} {k : κ} {r : Nat} :
    s.Abandons e k r ↔ (e = .shutdown ∧ s.queue.Unfinished k r) ∧ ¬ s.Observes e r := by
  constructor
  · rintro ⟨rfl, hu, hn⟩
    exact ⟨⟨rfl, hu⟩, fun ⟨w, hw, ht⟩ => hn w hw ht⟩
  · rintro ⟨⟨rfl, hu⟩, hn⟩
    exact ⟨rfl, hu, fun w hw ht => hn ⟨w, hw, ht⟩⟩

/-- The orphans are the rounds that were abandoned and not observed since. -/
theorem orphaned_iff (limits : Limits) (metrics : Option TaskMetrics)
    (es : List (Event κ τ ν ε)) {k : κ} {r : Nat} :
    ((fresh limits metrics).run es).2.queue.Orphaned k r
      ↔ ∃ n, (fresh limits metrics).Since (·.Abandons · k r) (·.Observes · r) es n := by
  constructor
  · refine exists_since (S := (·.queue.Orphaned k r)) ?_ fun es e h => ?_
    · rintro ⟨a, ha, -⟩
      cases ha
    · obtain ⟨h | h, hobs⟩ := orphaned_step_iff.mp h
      · exact .inr ⟨h, hobs⟩
      · exact .inl (abandons_iff.mpr ⟨h, hobs⟩)
  · rintro ⟨n, h⟩
    refine h.holds (S := (·.queue.Orphaned k r)) (fun s e habandons => ?_) fun s e h hobs => ?_
    · obtain ⟨h, hobs⟩ := abandons_iff.mp habandons
      exact orphaned_step_iff.mpr ⟨.inr h, hobs⟩
    · exact orphaned_step_iff.mpr ⟨.inl h, hobs⟩

/-- After a shutdown whatever is unfinished is an orphan. -/
theorem unfinished_step_shutdown_iff {s : Service κ τ ν ε} {k : κ} {r : Nat} :
    (s.step .shutdown).2.queue.Unfinished k r ↔ (s.step .shutdown).2.queue.Orphaned k r := by
  refine ⟨?_, Queue.Orphaned.unfinished⟩
  rintro ⟨b, hb, hk, hn⟩
  refine ⟨b, hb, hk, ?_⟩
  have hr : r < s.queue.rounds.length := by
    have hlt := hb.lt
    rwa [length_rounds_step] at hlt
  obtain ⟨a, ha⟩ : ∃ a, s.queue.Has r a := ⟨_, List.getElem?_eq_getElem hr⟩
  obtain rfl := hb.unique (has_step ha .shutdown)
  -- what was stopped has a result as soon as somebody asks for it
  obtain ⟨k', t, status⟩ := a
  split at hn <;> cases status <;> cases hn
  · next hobs => rw [if_neg hobs]; rfl
  · next hobs => rw [if_neg hobs]; rfl

/-! ### Who asks for an orphan -/

omit [KeyText κ] in
/-- Results are asked for on behalf of who waits, or has just made a
request. -/
theorem mem_asked {s : Service κ τ ν ε} {e : Event κ τ ν ε} {w : Waiter ν} (hw : w ∈ s.asked e) :
    w ∈ s.waiters ∨ ∃ caller task, e = .perform caller task ∧
      w = ⟨caller, ticket (s.queue.request task).1⟩ := by
  cases e with
  | perform caller task =>
    rcases List.mem_append.mp hw with hw | hw
    · exact .inl hw
    · exact .inr ⟨caller, task, rfl, List.mem_singleton.mp hw⟩
  | finish r ending =>
    simp only [asked] at hw
    split at hw
    · exact .inl hw
    · cases hw
  | shutdown => exact .inl hw
  | _ => cases hw

omit [KeyText κ] in
/-- Only a request that misses the cache asks for the result of an orphan. -/
theorem misses_of_observes {s : Service κ τ ν ε} (hs : s.Attended) (hq : s.queue.Registered)
    {e : Event κ τ ν ε} {k : κ} {r : Nat} (horphan : s.queue.Orphaned k r)
    (hobs : s.Observes e r) : s.Misses e k := by
  obtain ⟨a, ha, hk, hkilled⟩ := horphan
  obtain ⟨w, hw, ht⟩ := hobs
  rcases mem_asked hw with hw | ⟨caller, task, rfl, rfl⟩
  · -- whoever waits, waits for a round that runs
    obtain ⟨i, b, hi, hb, hrun⟩ := hs w hw
    obtain rfl := Ticket.round.inj (ht.symm.trans hi)
    obtain rfl := ha.unique hb
    cases hkilled.symm.trans hrun
  · have hadm := s.queue.admitted_request task
    have ht : ticket (s.queue.request task).1 = .round r := ht
    generalize (s.queue.request task).1 = admission, (s.queue.request task).2 = q' at hadm ht
    cases hadm with
    | hit => cases ht
    | joined missed inFlight =>
      cases ht
      obtain ⟨b, hb, hbk, -⟩ := hq.lookup_iff.mp inFlight
      obtain rfl := ha.unique hb
      obtain rfl : Task.key task = k := hbk.symm.trans hk
      exact ⟨caller, task, rfl, rfl, missed⟩
    | launched =>
      cases ht
      exact absurd ha.lt (Nat.lt_irrefl _)

/-- Until its key is requested and not found, an orphan stays one. -/
theorem orphaned_of_not_misses (limits : Limits) (metrics : Option TaskMetrics)
    {es : List (Event κ τ ν ε)} {k : κ} {r : Nat}
    (h : ((fresh limits metrics).run es).2.queue.Orphaned k r) (mid : List (Event κ τ ν ε))
    (hn : ∀ m, es.length ≤ m → ¬ (fresh limits metrics).Occurs (·.Misses · k) (es ++ mid) m) :
    ((fresh limits metrics).run (es ++ mid)).2.queue.Orphaned k r := by
  induction mid using List.reverseRecOn with
  | nil => rwa [List.append_nil]
  | append_singleton mid e ih =>
    rw [← List.append_assoc] at hn ⊢
    have horphan := ih fun m hm ho => hn m hm (occurs_concat_iff.mpr (.inl ho))
    rw [run_concat_snd, orphaned_step_iff]
    refine ⟨.inl horphan, fun hobs => ?_⟩
    have hmiss := misses_of_observes (attended_run limits metrics _)
      (registered_run limits metrics _) horphan hobs
    refine hn (es ++ mid).length ?_ (occurs_concat_iff.mpr (.inr ⟨rfl, hmiss⟩))
    rw [List.length_append]
    exact Nat.le_add_right _ _

/-! ### How an orphan is absorbed -/

/-- A request joins a round, is told that it was cancelled, and takes its entry
out of the registry, all in its own step: it counts as a duplicate, and the
round as failed. -/
structure Absorbs (s : Service κ τ ν ε) (caller : String) (task : τ) (r : Nat) : Prop where
  answer : (s.step (.perform caller task)).1.answer = .admitted (.joined r)
  resolved : (s.step (.perform caller task)).1.resolved = [(caller, cancellation (Task.key task))]
  requests : ∀ o, (s.step (.perform caller task)).2.queue.metrics.map (·.requestCount o)
    = s.queue.metrics.map fun m => m.requestCount o + if o = .duplicate then 1 else 0
  failures : (s.step (.perform caller task)).2.queue.metrics.map (·.failures)
    = s.queue.metrics.map (·.failures + 1)
  inFlight : (s.step (.perform caller task)).2.queue.inFlight
    = s.queue.inFlight.filter fun e => e.1 ≠ Task.key task

omit [Task τ κ ν] in
/-- Asking for a round that runs answers nothing and changes nothing. -/
theorem redeem_of_running {q : Queue κ τ ν ε} {r : Nat} {a : Round κ τ ν ε} (ha : q.Has r a)
    (hrun : a.status = .running) : redeem q (.round r) = (none, q) := by
  have hn : q.killed? r = none := by
    refine Option.eq_none_iff_forall_ne_some.mpr fun b hb => ?_
    obtain ⟨hb, hkilled⟩ := Queue.killed?_eq_some_iff.mp hb
    obtain rfl := ha.unique hb
    cases hkilled.symm.trans hrun
  refine Prod.ext ?_ (Queue.poll_of_not_killed hn)
  show (q.poll r).1 = none
  rw [Queue.poll_fst, show q.rounds[r]? = some a from ha]
  simp [Round.verdict, hrun]

omit [Task τ κ ν] in
/-- If all others wait for rounds that run, only the last caller has something
to ask for. -/
theorem pollAll_concat {q : Queue κ τ ν ε} {ws : List (Waiter ν)}
    (h : ∀ w ∈ ws, ∃ r a, w.ticket = .round r ∧ q.Has r a ∧ a.status = .running) (w : Waiter ν) :
    (pollAll q (ws ++ [w])).queue = (redeem q w.ticket).2 ∧
      (pollAll q (ws ++ [w])).resolved = ((redeem q w.ticket).1.map (w.caller, ·)).toList := by
  induction ws with
  | nil =>
    rw [List.nil_append, pollAll_cons_queue, pollAll_cons_resolved]
    exact ⟨rfl, List.append_nil _⟩
  | cons w' ws ih =>
    obtain ⟨r, a, hr, ha, hrun⟩ := h w' List.mem_cons_self
    rw [List.cons_append, pollAll_cons_queue, pollAll_cons_resolved, hr, redeem_of_running ha hrun]
    exact ih fun w hw => h w (List.mem_cons_of_mem _ hw)

omit [KeyText κ] in
/-- A request for the key of an orphan joins it, unless the key is cached. -/
theorem request_of_orphaned {q : Queue κ τ ν ε} (hq : q.Registered) {task : τ} {r : Nat}
    (h : q.Orphaned (Task.key task) r) (hn : q.cache.find? (Task.key task) = none) :
    q.request task = (.joined r, q.record .duplicate) := by
  simp only [Queue.request, hn, hq.lookup_iff.mpr h.unfinished]

theorem absorbs_of_orphaned {s : Service κ τ ν ε} (hs : s.Attended) (hq : s.queue.Registered)
    (caller : String) {task : τ} {r : Nat} (h : s.queue.Orphaned (Task.key task) r)
    (hn : s.queue.cache.find? (Task.key task) = none) : s.Absorbs caller task r := by
  have hreq := request_of_orphaned hq h hn
  obtain ⟨a, ha, hk, hkilled⟩ := h
  have hpoll : (s.queue.record .duplicate).poll r
      = (some (cancellation a.key), (s.queue.record .duplicate).settle r a (cancellation a.key)) :=
    Queue.poll_of_killed (Queue.killed?_eq_some_iff.mpr ⟨ha, hkilled⟩)
  obtain ⟨hqueue, hresolved⟩ := pollAll_concat (q := s.queue.record .duplicate) hs ⟨caller, .round r⟩
  have hstep : s.step (.perform caller task)
      = settled (s.queue.record .duplicate) (s.waiters ++ [⟨caller, .round r⟩])
          (.admitted (.joined r)) [] := by
    simp only [step, hreq]
    rfl
  have hleft : (s.step (.perform caller task)).2.queue
      = (s.queue.record .duplicate).settle r a (cancellation a.key) := by
    rw [hstep]
    exact hqueue.trans (congrArg Prod.snd hpoll)
  refine ⟨by rw [hstep]; rfl, ?_, fun o => ?_, ?_, ?_⟩
  · rw [hstep, ← hk]
    refine hresolved.trans ?_
    show (((s.queue.record .duplicate).poll r).1.map _).toList = _
    rw [hpoll]
    rfl
  · rw [hleft]
    show (((s.queue.metrics.map (·.recordRequest .duplicate)).map (·.recordFailure)).map _).map _ = _
    rcases s.queue.metrics with - | m
    · rfl
    · refine congrArg some ((m.requestCount_recordRequest .duplicate o).trans ?_)
      split <;> rfl
  · rw [hleft]
    show (((s.queue.metrics.map (·.recordRequest .duplicate)).map (·.recordFailure)).map _).map _ = _
    rcases s.queue.metrics with - | m <;> rfl
  · rw [hleft, Queue.inFlight_settle, hk]
    rfl

/-- When an orphan has been absorbed there is none for its key, until one is
abandoned later. -/
theorem abandoned_later (limits : Limits) (metrics : Option TaskMetrics)
    {past mid : List (Event κ τ ν ε)} {caller : String} {task : τ} {r i n : Nat}
    (h : ((fresh limits metrics).run past).2.queue.Orphaned (Task.key task) r)
    (hf : ((fresh limits metrics).run past).2.queue.cache.find? (Task.key task) = none)
    (hn : (fresh limits metrics).Since (·.Abandons · (Task.key task) i) (·.Observes · i)
      (past ++ .perform caller task :: mid) n) : past.length < n := by
  have hreg := registered_run limits metrics past
  have hget : (past ++ .perform caller task :: mid)[past.length]? = some (.perform caller task) := by
    simp
  rcases Nat.lt_trichotomy n past.length with hlt | rfl | hgt
  · -- it would be the one that is absorbed
    have horphan := (orphaned_iff limits metrics past).mpr ⟨n, hn.of_append hlt⟩
    obtain rfl := hreg.unique h.unfinished horphan.unfinished
    refine absurd ⟨_, hget, ?_⟩ (hn.not_since past.length hlt)
    rw [List.take_left]
    refine ⟨_, List.mem_append_right _ (List.mem_singleton_self _), ?_⟩
    show ticket (((fresh limits metrics).run past).2.queue.request task).1 = _
    rw [request_of_orphaned hreg h hf]
    rfl
  · obtain ⟨e, he, habandons⟩ := hn.occurs
    obtain rfl := Option.some.inj (hget.symm.trans he)
    cases habandons.shutdown
  · exact hgt

end Service

end SlotStates
