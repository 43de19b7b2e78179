/-
SlotStates/Proofs/Queue/Failures.lean

Failures leave nothing but a count.

A round fails when its computation reports an error or panics, or when
somebody asks for its result after it was stopped.  So there are three kinds of
events by which rounds fail (`Fatal`).  Whichever it is, the rounds that fail
by an event (`Service.failing`) are the only ones that end, they leave the
registry, their callers are told, and each is counted once.  The cache is not
touched (`cache_step_of_fatal` and the lemmas after it).

That a failure leaves no trace in the cache is also true in the long run.
Every change of the cache is made by one event, on behalf of a caller or of a
round (`Service.changes`), and the cache is what the changes of a run have made
of it (`cache_run`).  A round changes the cache when it is launched, by using
its base, and when it ends with a value; so one that fails has only used its
base (`changesOf_of_failed`).

And a round that has failed is never joined again: a later request for its key
is answered from the cache, or waits for a later round (`later_ticket`).

The main result is `failures_leave_only_a_count`.
-/
import SlotStates.Proofs.Queue.Launches
import SlotStates.Proofs.Queue.Nearest
import SlotStates.Proofs.Queue.Shutdown

namespace SlotStates

variable {κ τ ν ε : Type} [DecidableEq κ] [KeyText κ]

/-! ### Events by which rounds fail -/

namespace Service

section Failing

variable [Task τ κ ν]

/-- The failure of a round by an event, if it has no result before and an error
afterwards. -/
def failure? (s : Service κ τ ν ε) (e : Event κ τ ν ε) (r : Nat) : Option (Failure ε) :=
  match s.queue.result? r, (s.step e).2.queue.result? r with
  | none, some (.error x) => some x
  | _, _ => none

/-- The failure for which a ticket stands after an event. -/
def failureOf (s : Service κ τ ν ε) (e : Event κ τ ν ε) : Ticket ν → Option (Failure ε)
  | .ready _ => none
  | .round r => s.failure? e r

/-- The rounds that fail by an event. -/
def failing (s : Service κ τ ν ε) (e : Event κ τ ν ε) : List Nat :=
  (List.range s.queue.rounds.length).filter fun r => (s.failure? e r).isSome

theorem failure?_eq_some_iff {s : Service κ τ ν ε} {e : Event κ τ ν ε} {r : Nat} {x : Failure ε} :
    s.failure? e r = some x
      ↔ s.queue.result? r = none ∧ (s.step e).2.queue.result? r = some (.error x) := by
  rw [failure?]
  rcases s.queue.result? r with - | result
  · rcases (s.step e).2.queue.result? r with - | (y | v) <;> simp
  · simp

/-- The ways in which a round can fail by an event. -/
inductive Fatal (s : Service κ τ ν ε) : Event κ τ ν ε → Nat → Failure ε → Prop
  /-- It ends with an error or a panic. -/
  | ended {r : Nat} {a : Round κ τ ν ε} {ending : Ending ε ν} {x : Failure ε}
      (has : s.queue.Has r a) (running : a.status = .running)
      (fails : ending.result (KeyText.text a.key) = .error x) : Fatal s (.finish r ending) r x
  /-- It was stopped, and a request joins it. -/
  | absorbed {caller : String} {task : τ} {r : Nat}
      (joined : (s.queue.request task).1 = .joined r)
      (orphaned : s.queue.Orphaned (Task.key task) r) :
      Fatal s (.perform caller task) r (.queue (.cancelled (KeyText.text (Task.key task))))
  /-- It is stopped while somebody waits for it. -/
  | stopped {r : Nat} {a : Round κ τ ν ε} (has : s.queue.Has r a) (running : a.status = .running)
      (awaited : ∃ w ∈ s.waiters, w.ticket = .round r) :
      Fatal s .shutdown r (.queue (.cancelled (KeyText.text a.key)))

/-- A request that joins an orphan cancels it. -/
theorem result?_step_absorb {s : Service κ τ ν ε} (caller : String) {task : τ} {r : Nat}
    (hj : (s.queue.request task).1 = .joined r) (ho : s.queue.Orphaned (Task.key task) r) :
    (s.step (.perform caller task)).2.queue.result? r = some (cancellation (Task.key task)) := by
  obtain ⟨a, ha, hk, hs⟩ := ho
  have hasked : ∃ w ∈ s.asked (.perform caller task), w.ticket = .round r := by
    refine ⟨⟨caller, ticket (s.queue.request task).1⟩,
      List.mem_append_right _ (List.mem_singleton_self _), ?_⟩
    show ticket (s.queue.request task).1 = _
    rw [hj]
    rfl
  rw [← hk]
  exact (result?_step_of_none ha (Round.result?_of_killed hs) _).mpr (.inr ⟨.inl hs, hasked, rfl⟩)

theorem Fatal.failure? {s : Service κ τ ν ε} {e : Event κ τ ν ε} {r : Nat} {x : Failure ε}
    (h : s.Fatal e r x) : s.failure? e r = some x := by
  rw [failure?_eq_some_iff]
  cases h with
  | ended has running fails =>
    exact ⟨has.result?.trans (Round.result?_of_running running),
      (result?_step_finish has running _).trans (congrArg some fails)⟩
  | @absorbed caller _ _ joined orphaned =>
    have hr := result?_step_absorb caller joined orphaned
    obtain ⟨a, ha, -, hs⟩ := orphaned
    exact ⟨ha.result?.trans (Round.result?_of_killed hs), hr⟩
  | stopped has running awaited =>
    obtain ⟨w, hw, ht⟩ := awaited
    exact ⟨has.result?.trans (Round.result?_of_running running),
      result?_step hw ht has running .shutdown⟩

omit [KeyText κ] in
/-- A request waits for a round that was there before only by joining it, and
joins only what has no result. -/
theorem joined_of_ticket {q : Queue κ τ ν ε} (hq : q.Registered) {task : τ} {r : Nat}
    {a : Round κ τ ν ε} (ha : q.Has r a) (ht : ticket (q.request task).1 = .round r) :
    (q.request task).1 = .joined r ∧ a.key = Task.key task ∧ a.result? = none := by
  have hadm := q.admitted_request task
  generalize (q.request task).1 = admission, (q.request task).2 = q' at hadm ht
  cases hadm with
  | hit => cases ht
  | joined missed inFlight =>
    cases ht
    exact ⟨rfl, ha.unfinished_iff.mp (hq.lookup_iff.mp inFlight)⟩
  | launched =>
    cases ht
    exact absurd ha.lt (Nat.lt_irrefl _)

/-- There are no other ways to fail. -/
theorem fatal_iff {s : Service κ τ ν ε} (hs : s.Attended) (hq : s.queue.Registered)
    {e : Event κ τ ν ε} {r : Nat} {x : Failure ε} : s.failure? e r = some x ↔ s.Fatal e r x := by
  refine ⟨fun h => ?_, Fatal.failure?⟩
  obtain ⟨hn, hx⟩ := failure?_eq_some_iff.mp h
  obtain ⟨a, ha⟩ := exists_has_of_result hx
  have hn : a.result? = none := ha.result?.symm.trans hn
  have hends := (result?_step_of_none ha hn e).mp hx
  -- what is known of the result says which failure it is
  have fatal : ∀ {y}, s.Fatal e r y → s.Fatal e r x := fun {y} hy => by
    have hy' := hy.failure?.symm.trans h
    exact Option.some.inj hy' ▸ hy
  rcases hends with ⟨hrun, ending, rfl, hres⟩ | ⟨hstop, ⟨w, hw, ht⟩, -⟩
  · exact .ended ha hrun hres
  · rcases mem_asked hw with hw | ⟨caller, task, rfl, rfl⟩
    · -- who has waited waits for a round that runs
      obtain ⟨i, b, hi, hb, hrun⟩ := hs w hw
      obtain rfl := Ticket.round.inj (ht.symm.trans hi)
      obtain rfl := ha.unique hb
      rcases hstop with hk | ⟨-, rfl⟩
      · cases hk.symm.trans hrun
      · exact fatal (.stopped ha hrun ⟨w, hw, ht⟩)
    · obtain ⟨hj, hk, -⟩ := joined_of_ticket hq ha ht
      rcases hstop with hs | ⟨-, hs⟩
      · exact fatal (.absorbed hj ⟨a, ha, hk, hs⟩)
      · cases hs

/-! ### What such an event does -/

/-- To the queue such an event does one of three things: it gives a round its
error, it counts a request, or it stops rounds. -/
theorem Fatal.apply {s : Service κ τ ν ε} {e : Event κ τ ν ε} {r : Nat} {x : Failure ε}
    (h : s.Fatal e r x) :
    (∃ a, s.queue.Has r a ∧ a.result? = none ∧ s.queue.apply e = s.queue.settle r a (.error x)) ∨
      s.queue.apply e = s.queue.record .duplicate ∨ s.queue.apply e = s.queue.shutdown := by
  cases h with
  | @ended r a ending x has running fails =>
    refine .inl ⟨a, has, Round.result?_of_running running, ?_⟩
    show s.queue.finish r ending = _
    rw [Queue.finish_of_running (Queue.running?_eq_some_iff.mpr ⟨has, running⟩), fails]
  | @absorbed caller task r joined orphaned =>
    have ht := s.queue.admitted_request task
    rw [joined] at ht
    refine .inr (.inl ?_)
    show (s.queue.request task).2 = _
    generalize (s.queue.request task).2 = q' at ht
    cases ht
    rfl
  | stopped => exact .inr (.inr rfl)

/-- A failure does nothing to the cache. -/
theorem Fatal.cache {s : Service κ τ ν ε} {e : Event κ τ ν ε} {r : Nat} {x : Failure ε}
    (h : s.Fatal e r x) : (s.step e).2.queue.cache = s.queue.cache := by
  rw [step_queue, cache_pollAll]
  obtain ⟨a, -, -, he⟩ | he | he := h.apply <;> rw [he] <;> rfl

theorem Fatal.length_rounds {s : Service κ τ ν ε} {e : Event κ τ ν ε} {r : Nat} {x : Failure ε}
    (h : s.Fatal e r x) : (s.step e).2.queue.rounds.length = s.queue.rounds.length := by
  have hl : (s.step e).1.answer.launches = false := by
    cases h with
    | ended => exact launches_answer_step s rfl
    | @absorbed caller task r joined orphaned =>
      show (Answer.admitted (s.queue.request task).1).launches = false
      rw [joined]
      rfl
    | stopped => rfl
  rw [length_rounds_step, hl]
  rfl

/-- In such an event rounds end by failing only. -/
theorem Fatal.result? {s : Service κ τ ν ε} {e : Event κ τ ν ε} {r : Nat} {x : Failure ε}
    (h : s.Fatal e r x) {i : Nat} {b : Round κ τ ν ε} (hb : s.queue.Has i b)
    (hn : b.result? = none) :
    (s.step e).2.queue.result? i = (s.failure? e i).map .error := by
  have hbefore : s.queue.result? i = none := hb.result?.trans hn
  rcases hres : (s.step e).2.queue.result? i with - | result
  · simp [Service.failure?, hbefore, hres]
  · obtain ⟨y, rfl⟩ : ∃ y, result = .error y := by
      rcases (result?_step_of_none hb hn e).mp hres with ⟨-, ending, rfl, rfl⟩ | ⟨-, -, rfl⟩
      · cases h with
        | ended has running fails =>
          obtain rfl := has.unique hb
          exact ⟨x, fails⟩
      · exact ⟨_, rfl⟩
    simp [Service.failure?, hbefore, hres]

/-- Where one round fails, and not by a shutdown, no other does. -/
theorem Fatal.unique {s : Service κ τ ν ε} {e : Event κ τ ν ε} {r i : Nat} {x y : Failure ε}
    (h : s.Fatal e r x) (h' : s.Fatal e i y) (he : e ≠ .shutdown) : r = i := by
  cases h with
  | ended => cases h' with | ended => rfl
  | absorbed joined =>
    cases h' with
    | absorbed joined' => exact Admission.joined.inj (joined.symm.trans joined')
  | stopped => exact absurd rfl he

end Failing

end Service

/-! ### The registry -/

namespace Queue

omit [KeyText κ] in
theorem result?_settle {q : Queue κ τ ν ε} {r : Nat} {a : Round κ τ ν ε} (ha : q.Has r a)
    (result : Result ε ν) (i : Nat) :
    (q.settle r a result).result? i = if r = i then some result else q.result? i := by
  rw [result?, rounds_settle]
  by_cases hi : r = i
  · subst hi
    rw [List.getElem?_set_self ha.lt, if_pos rfl]
    rfl
  · rw [List.getElem?_set_ne hi, if_neg hi]
    rfl

/-- The registry of a queue is that of an earlier one without the entries of
rounds that have a result now. -/
structure Clears (q q' : Queue κ τ ν ε) : Prop where
  registered : q'.Registered
  inFlight : q'.inFlight = q.inFlight.filter fun p => (q'.result? p.2).isNone

omit [DecidableEq κ] [KeyText κ] in
theorem Registered.clears {q q' : Queue κ τ ν ε} (h : q.Registered) (h' : q'.Registered)
    (hi : q'.inFlight = q.inFlight) (hr : ∀ r, q'.result? r = q.result? r) : q.Clears q' := by
  refine ⟨h', hi.trans (List.filter_eq_self.mpr fun ⟨k, r⟩ hm => ?_).symm⟩
  obtain ⟨a, ha, -, hn⟩ := h.mem_iff.mp hm
  rw [hr, ha.result?, hn]
  rfl

omit [KeyText κ] in
theorem Clears.settle {q q' : Queue κ τ ν ε} (h : q.Clears q') {r : Nat} {a : Round κ τ ν ε}
    (ha : q'.Has r a) (hn : a.result? = none) (result : Result ε ν) :
    q.Clears (q'.settle r a result) := by
  refine ⟨h.registered.settle ha hn result, ?_⟩
  rw [h.registered.inFlight_settle ha hn, h.inFlight, List.filter_filter]
  refine List.filter_congr fun p _ => ?_
  rw [result?_settle ha]
  by_cases hp : r = p.2
  · simp [hp]
  · simp [hp, Ne.symm hp]

omit [DecidableEq κ] [KeyText κ] in
theorem result?_shutdown (q : Queue κ τ ν ε) (r : Nat) : q.shutdown.result? r = q.result? r := by
  rw [result?, result?, rounds_shutdown, List.getElem?_map]
  rcases q.rounds[r]? with - | a
  · rfl
  · exact a.result?_stopped

end Queue

namespace Service

variable [Task τ κ ν]

/-- By a failure the entries of the rounds that fail leave the registry, and no
others. -/
theorem Fatal.clears {s : Service κ τ ν ε} (hq : s.queue.Registered) {e : Event κ τ ν ε} {r : Nat}
    {x : Failure ε} (h : s.Fatal e r x) : s.queue.Clears (s.step e).2.queue := by
  refine step_queue_induction (P := s.queue.Clears) (fun r h =>
    Queue.poll_induction (P := s.queue.Clears) h
      (fun ha hs => h.settle ha (Round.result?_of_killed hs) _) r) ?_
  obtain ⟨a, ha, hn, he⟩ | he | he := h.apply
  · rw [he]
    exact (hq.clears hq rfl fun _ => rfl).settle ha hn _
  · rw [he]
    exact hq.clears (hq.congr rfl rfl) rfl fun _ => rfl
  · rw [he]
    exact hq.clears hq.shutdown rfl s.queue.result?_shutdown

theorem mem_failing_iff {s : Service κ τ ν ε} {e : Event κ τ ν ε} {r : Nat} :
    r ∈ s.failing e ↔ ∃ x, s.failure? e r = some x := by
  rw [failing, List.mem_filter, List.mem_range, Option.isSome_iff_exists]
  refine ⟨And.right, fun ⟨x, hx⟩ => ⟨?_, x, hx⟩⟩
  obtain ⟨a, ha⟩ := exists_has_of_result (failure?_eq_some_iff.mp hx).2
  exact ha.lt

theorem Fatal.inFlight {s : Service κ τ ν ε} (hq : s.queue.Registered) {e : Event κ τ ν ε}
    {r : Nat} {x : Failure ε} (h : s.Fatal e r x) :
    (s.step e).2.queue.inFlight = s.queue.inFlight.filter fun p => p.2 ∉ s.failing e := by
  rw [(h.clears hq).inFlight]
  refine List.filter_congr fun ⟨k, i⟩ hm => ?_
  obtain ⟨b, hb, -, hn⟩ := hq.mem_iff.mp hm
  rw [h.result? hb hn, Bool.eq_iff_iff, decide_eq_true_iff, mem_failing_iff]
  rcases s.failure? e i with - | y <;> simp

/-! ### The count -/

/-- The rounds that have failed after an event have failed before, or fail by
it. -/
theorem isFailure_step (s : Service κ τ ν ε) (e : Event κ τ ν ε) (r : Nat) :
    (Result.isFailure ((s.step e).2.queue.result? r)).toNat
      = (Result.isFailure (s.queue.result? r)).toNat + (s.failure? e r).isSome.toNat := by
  rcases h : s.queue.result? r with - | result
  · rcases h' : (s.step e).2.queue.result? r with - | (x | v) <;> simp [failure?, h, h', Result.isFailure]
  · rw [(s.grows_step e).result? h]
    simp [failure?, h]

/-- A failure is counted for each round that fails, however many wait for
it. -/
theorem Fatal.failures {s : Service κ τ ν ε} {e : Event κ τ ν ε} {r : Nat} {x : Failure ε}
    (h : s.Fatal e r x) :
    (s.step e).2.queue.metrics.map (·.failures)
      = s.queue.metrics.map (·.failures + (s.failing e).length) := by
  have hsince : s.queue.CountsSince (s.step e).2.queue := by
    rw [step_queue]
    refine countsSince_pollAll ?_ _
    obtain ⟨a, ha, hn, he⟩ | he | he := h.apply
    · rw [he]
      exact (Queue.CountsSince.refl _).settle ha hn x
    · rw [he]
      show (s.queue.metrics.map (·.recordRequest .duplicate)).map _ = s.queue.metrics.map _
      rw [Option.map_map]
      rfl
    · rw [he]
      exact s.queue.countsSince_shutdown
  have hcount : (s.step e).2.queue.count Result.isFailure
      = s.queue.count Result.isFailure + (s.failing e).length := by
    rw [Queue.count_eq_countP_range, Queue.count_eq_countP_range, h.length_rounds, failing,
      ← List.countP_eq_length_filter]
    exact countP_eq_add fun r _ => s.isFailure_step e r
  exact hsince.failures hcount

/-- Unless by a shutdown, rounds fail one at a time. -/
theorem Fatal.failing_eq {s : Service κ τ ν ε} (hs : s.Attended) (hq : s.queue.Registered)
    {e : Event κ τ ν ε} {r : Nat} {x : Failure ε} (h : s.Fatal e r x) (he : e ≠ .shutdown) :
    s.failing e = [r] := by
  have hd : (s.failing e).Nodup := List.nodup_range.filter _
  refine List.perm_singleton.mp ((List.perm_ext_iff_of_nodup hd (List.nodup_singleton r)).mpr
    fun i => ?_)
  rw [mem_failing_iff, List.mem_singleton]
  constructor
  · rintro ⟨y, hy⟩
    exact (h.unique ((fatal_iff hs hq).mp hy) he).symm
  · rintro rfl
    exact ⟨x, h.failure?⟩

/-! ### Who is told -/

/-- Everybody who is there waits for a round that has no result. -/
theorem Fatal.waits {s : Service κ τ ν ε} (hs : s.Attended) {e : Event κ τ ν ε} {r : Nat}
    {x : Failure ε} (h : s.Fatal e r x) {w : Waiter ν} (hw : w ∈ s.present e) :
    ∃ i b, w.ticket = .round i ∧ s.queue.Has i b ∧ b.result? = none := by
  have old : w ∈ s.waiters → ∃ i b, w.ticket = .round i ∧ s.queue.Has i b ∧ b.result? = none := by
    intro hw
    obtain ⟨i, b, hi, hb, hrun⟩ := hs w hw
    exact ⟨i, b, hi, hb, Round.result?_of_running hrun⟩
  cases h with
  | @absorbed caller task r joined orphaned =>
    rcases List.mem_append.mp hw with hw | hw
    · exact old hw
    · obtain rfl := List.mem_singleton.mp hw
      obtain ⟨a, ha, -, hkilled⟩ := orphaned
      exact ⟨r, a, by rw [joined]; rfl, ha, Round.result?_of_killed hkilled⟩
  | _ => exact old hw

theorem Fatal.outcome? {s : Service κ τ ν ε} (hs : s.Attended) {e : Event κ τ ν ε} {r : Nat}
    {x : Failure ε} (h : s.Fatal e r x) {w : Waiter ν} (hw : w ∈ s.present e) :
    (s.step e).2.queue.outcome? w.ticket = (s.failureOf e w.ticket).map .error := by
  obtain ⟨i, b, hi, hb, hn⟩ := h.waits hs hw
  rw [hi]
  exact h.result? hb hn

/-- Those are told who wait for a round that fails, and they are told its
failure. -/
theorem Fatal.resolved {s : Service κ τ ν ε} (hs : s.Attended) (hq : s.queue.Registered)
    {e : Event κ τ ν ε} {r : Nat} {x : Failure ε} (h : s.Fatal e r x) :
    (s.step e).1.resolved = (s.present e).filterMap fun w =>
      (s.failureOf e w.ticket).map fun y => (w.caller, .error y) := by
  rw [step_resolved hs hq]
  refine List.filterMap_congr fun w hw => ?_
  rw [h.outcome? hs hw, Option.map_map]
  rfl

/-- All others go on waiting. -/
theorem Fatal.waiters {s : Service κ τ ν ε} (hs : s.Attended) (hq : s.queue.Registered)
    {e : Event κ τ ν ε} {r : Nat} {x : Failure ε} (h : s.Fatal e r x) :
    (s.step e).2.waiters = (s.present e).filter fun w => (s.failureOf e w.ticket).isNone := by
  rw [step_waiters hs hq]
  refine List.filter_congr fun w hw => ?_
  rw [h.outcome? hs hw, Option.isNone_map]

end Service

/-! ### The changes of the cache -/

/-- A change of a cache. -/
inductive Cache.Change (κ ν : Type)
  /-- A value is written. -/
  | write (key : κ) (value : ν)
  /-- A key becomes the most recently used one. -/
  | use (key : κ)
  /-- The keys that satisfy a test are taken out. -/
  | take (p : κ → Bool)

/-- The cache after a change. -/
def Cache.change (c : Cache κ ν) (capacity : Nat) : Change κ ν → Cache κ ν
  | .write k v => c.put capacity k v
  | .use k => c.promote k
  | .take p => c.without p

namespace Service

variable [Task τ κ ν]

/-- The changes that an event makes to the cache.  A change that is made for a
round goes with its number: at its launch the round uses its base, and when it
ends with a value it writes it. -/
def changes (s : Service κ τ ν ε) : Event κ τ ν ε → List (Option Nat × Cache.Change κ ν)
  | .perform _ task =>
    match (s.queue.request task).1 with
    | .hit _ => [(none, .use (Task.key task))]
    | .joined _ => []
    | .launched r w => (w.base.map fun b => (some r, .use b.1)).toList
  | .finish r ending =>
    match s.queue.running? r, ending with
    | some a, .returned v => [(some r, .write a.key v)]
    | _, _ => []
  | .get k => [(none, .use k)]
  | .store k v => [(none, .write k v)]
  | .remove k => [(none, .take (· = k))]
  | .prune p => [(none, .take p)]
  | .clear => [(none, .take fun _ => true)]
  | .drop _ => []
  | .shutdown => []

/-- The changes that events make to the cache one after the other. -/
def changesOf (s : Service κ τ ν ε) : List (Event κ τ ν ε) → List (Option Nat × Cache.Change κ ν)
  | [] => []
  | e :: es => s.changes e ++ (s.step e).2.changesOf es

/-- The cache is changed in these ways and in no other. -/
theorem cache_step_eq (s : Service κ τ ν ε) (e : Event κ τ ν ε) :
    (s.step e).2.queue.cache
      = (s.changes e).foldl (fun c x => c.change s.queue.limits.cacheSize.val x.2)
          s.queue.cache := by
  rw [step_queue, cache_pollAll]
  cases e with
  | perform caller task =>
    have ht := s.queue.admitted_request task
    rw [changes]
    show (s.queue.request task).2.cache = _
    generalize (s.queue.request task).1 = admission, (s.queue.request task).2 = q' at ht
    cases ht with
    | hit => rfl
    | joined => rfl
    | @launched w c o t' _ _ _ prepared =>
      obtain ⟨probed, base⟩ := w
      have hb : Walk.base ⟨probed, base⟩ = base := rfl
      rw [hb] at prepared
      cases prepared <;> rfl
  | finish r ending =>
    show (s.queue.finish r ending).cache = _
    rcases hr : s.queue.running? r with - | a
    · rw [Queue.finish_of_not_running hr]
      simp [changes, hr]
    · rw [Queue.finish_of_running hr, Queue.cache_settle]
      cases ending <;> simp [changes, hr, Queue.keep, Ending.result, Cache.change]
  | remove k => exact s.queue.cache.erase_eq_without k
  | prune p => exact s.queue.cache.eraseAll_filter p
  | clear => exact s.queue.cache.without_everything.symm
  | _ => rfl

theorem cache_run (s : Service κ τ ν ε) (es : List (Event κ τ ν ε)) :
    (s.run es).2.queue.cache
      = (s.changesOf es).foldl (fun c x => c.change s.queue.limits.cacheSize.val x.2)
          s.queue.cache := by
  induction es generalizing s with
  | nil => rfl
  | cons e es ih =>
    show ((s.step e).2.run es).2.queue.cache = (s.changes e ++ _).foldl _ _
    rw [ih, limits_step, cache_step_eq, List.foldl_append]

theorem changesOf_append (s : Service κ τ ν ε) (es fs : List (Event κ τ ν ε)) :
    s.changesOf (es ++ fs) = s.changesOf es ++ (s.run es).2.changesOf fs := by
  induction es generalizing s with
  | nil => rfl
  | cons e es ih =>
    show s.changes e ++ (s.step e).2.changesOf (es ++ fs) = s.changes e ++ _ ++ _
    rw [ih, List.append_assoc]
    rfl

omit [KeyText κ] in
/-- Changes are made for a round when it is launched, and when it ends with a
value. -/
theorem round_of_mem_changes {s : Service κ τ ν ε} {e : Event κ τ ν ε} {r : Nat}
    {y : Cache.Change κ ν} (h : (some r, y) ∈ s.changes e) :
    (∃ caller task w, e = .perform caller task ∧ (s.queue.request task).1 = .launched r w) ∨
      ∃ a v, e = .finish r (.returned v) ∧ s.queue.Has r a ∧ a.status = .running := by
  cases e with
  | perform caller task =>
    simp only [changes] at h
    split at h
    · simp at h
    · cases h
    · next i w hw =>
      obtain ⟨b, -, hb⟩ := Option.map_eq_some_iff.mp (Option.mem_toList.mp h)
      obtain rfl : i = r := Option.some.inj (congrArg Prod.fst hb)
      exact .inl ⟨caller, task, w, rfl, hw⟩
  | finish i ending =>
    simp only [changes] at h
    split at h
    · next a v ha =>
      obtain rfl : r = i := Option.some.inj (congrArg Prod.fst (List.mem_singleton.mp h))
      obtain ⟨ha, hs⟩ := Queue.running?_eq_some_iff.mp ha
      exact .inr ⟨a, v, rfl, ha, hs⟩
    · cases h
  | _ => simp [changes] at h

/-- Changes are made only for rounds that are there when the event is over. -/
theorem lt_of_mem_changes {s : Service κ τ ν ε} {e : Event κ τ ν ε} {r : Nat}
    {y : Cache.Change κ ν} (h : (some r, y) ∈ s.changes e) :
    r < (s.step e).2.queue.rounds.length := by
  rcases round_of_mem_changes h with ⟨caller, task, w, rfl, hw⟩ | ⟨a, v, rfl, ha, -⟩
  · exact (has_launched caller hw).lt
  · exact (has_step ha _).lt

theorem lt_of_mem_changesOf {s : Service κ τ ν ε} {es : List (Event κ τ ν ε)} {r : Nat}
    {y : Cache.Change κ ν} (h : (some r, y) ∈ s.changesOf es) :
    r < (s.run es).2.queue.rounds.length := by
  induction es generalizing s with
  | nil => cases h
  | cons e es ih =>
    rcases List.mem_append.mp h with h | h
    · refine Nat.lt_of_lt_of_le (lt_of_mem_changes h) ?_
      have hl := length_rounds_run (s.step e).2 es
      exact hl ▸ Nat.le_add_right _ _
    · exact ih h

/-- For a round that is there and will not end with a value no change is
made any more. -/
theorem not_mem_changesOf {s : Service κ τ ν ε} {es : List (Event κ τ ν ε)} {r : Nat}
    (hr : r < s.queue.rounds.length) (hv : ∀ v, (s.run es).2.queue.result? r ≠ some (.ok v))
    (y : Cache.Change κ ν) : (some r, y) ∉ s.changesOf es := by
  induction es generalizing s with
  | nil => exact List.not_mem_nil
  | cons e es ih =>
    intro h
    rcases List.mem_append.mp h with h | h
    · rcases round_of_mem_changes h with ⟨caller, task, w, rfl, hw⟩ | ⟨a, v, rfl, ha, hs⟩
      · -- a round that is launched was not there before
        obtain ⟨rfl, -⟩ := Queue.launched_request hw
        exact Nat.lt_irrefl _ hr
      · exact hv v ((grows_run _ es).result? (result?_step_finish ha hs (.returned v)))
    · have hl := s.length_rounds_step e
      exact ih (Nat.lt_of_lt_of_le hr (hl ▸ Nat.le_add_right _ _)) hv h

/-- All that a round which fails has ever done to the cache is to use its base
when it was launched. -/
theorem changesOf_of_failed {start : Service κ τ ν ε} {past later : List (Event κ τ ν ε)}
    {caller : String} {task : τ} {r : Nat} {w : Walk κ ν} {x : Failure ε}
    (hw : ((start.run past).2.queue.request task).1 = .launched r w)
    (hx : (start.run (past ++ .perform caller task :: later)).2.queue.result? r
      = some (.error x)) :
    (start.changesOf (past ++ .perform caller task :: later)).filter (·.1 = some r)
      = (w.base.map fun b => (some r, .use b.1)).toList := by
  have hlaunched := has_launched caller hw
  obtain ⟨hlen, -⟩ := Queue.launched_request hw
  have hpast : (start.changesOf past).filter (·.1 = some r) = [] := by
    refine List.filter_eq_nil_iff.mpr fun ⟨i, y⟩ hm hi => ?_
    obtain rfl : i = some r := of_decide_eq_true hi
    exact absurd (lt_of_mem_changesOf hm) (hlen ▸ Nat.lt_irrefl _)
  have hlater : (((start.run past).2.step (.perform caller task)).2.changesOf later).filter
      (·.1 = some r) = [] := by
    refine List.filter_eq_nil_iff.mpr fun ⟨i, y⟩ hm hi => ?_
    obtain rfl : i = some r := of_decide_eq_true hi
    refine not_mem_changesOf hlaunched.lt (fun v hv => ?_) y hm
    rw [run_append_snd] at hx
    cases hx.symm.trans hv
  have hnow : (start.run past).2.changes (.perform caller task)
      = (w.base.map fun b => (some r, .use b.1)).toList := by
    rw [changes, hw]
  rw [changesOf_append, List.filter_append, hpast, List.nil_append]
  show ((start.run past).2.changes (.perform caller task) ++ _).filter _ = _
  rw [List.filter_append, hlater, List.append_nil, hnow]
  rcases w.base with - | b <;> simp

end Service

/-! ### Requests that come later -/

namespace Ledger

variable [Task τ κ ν]

/-- A request for the key of a round that has ended finds the value, or waits
for a later round and is told what that comes to. -/
theorem answer_after_end (limits : Limits) (metrics : Option TaskMetrics)
    (past : List (Event κ τ ν ε)) {r : Nat} {a : Round κ τ ν ε}
    (ha : ((Service.fresh limits metrics).run past).2.queue.Has r a) (hres : a.result? ≠ none)
    (caller : String) {task : τ} (hk : Task.key task = a.key) :
    let s := ((Service.fresh limits metrics).run past).2
    let answer := (s.step (.perform caller task)).1.answer
    let c := (after limits metrics past).call caller task
    let told later := (after limits metrics (past ++ .perform caller task :: later)).told
    (∃ v, s.queue.cache.find? a.key = some v ∧ answer = .admitted (.hit v) ∧
      ∀ later x, (c, x) ∈ told later → x = .ok v) ∨
    ∃ i, r < i ∧ (answer = .admitted (.joined i) ∨ ∃ w, answer = .admitted (.launched i w)) ∧
      ∀ later x, (c, x) ∈ told later →
        ((Service.fresh limits metrics).run (past ++ .perform caller task :: later)).2.queue.result? i
          = some x := by
  intro s answer c told
  have hs : (after limits metrics past).service = s := service_after limits metrics past
  rcases hf : s.queue.cache.find? (Task.key task) with - | v
  · right
    have hq : s.queue.Registered := Service.registered_run limits metrics past
    -- whatever it joins has no result yet, and so was launched after this round
    have hlt : ∀ {i}, Service.ticket (s.queue.request task).1 = .round i → r < i := by
      intro i hi
      rcases Nat.lt_or_ge i s.queue.rounds.length with hold | hnew
      · have hb : s.queue.Has i _ := List.getElem?_eq_getElem hold
        obtain ⟨-, hkey, hn⟩ := Service.joined_of_ticket hq hb hi
        rcases Nat.lt_trichotomy i r with hir | rfl | hri
        · exact absurd hn (hq.in_turn hb ha (hkey.trans hk) hir)
        · exact absurd hn (hb.unique ha ▸ hres)
        · exact hri
      · exact Nat.lt_of_lt_of_le ha.lt hnew
    obtain ⟨i, hadmission⟩ := Queue.request_of_missed hf
    have hi : Service.ticket (s.queue.request task).1 = .round i := by
      rcases hadmission with h | ⟨w, h⟩ <;> rw [h] <;> rfl
    refine ⟨i, hlt hi, ?_, fun later x hx => ?_⟩
    · rcases hadmission with h | ⟨w, h⟩
      · exact .inl (congrArg Answer.admitted h)
      · exact .inr ⟨w, congrArg Answer.admitted h⟩
    · have ho := (faithful_after limits metrics _).outcome _ hx
      rw [service_after] at ho
      have hc : c.waiter.ticket = .round i := by
        show Service.ticket ((after limits metrics past).service.queue.request task).1 = _
        rw [hs, hi]
      rwa [hc] at ho
  · left
    refine ⟨v, hk ▸ hf, congrArg Answer.admitted (Queue.request_of_cached hf), fun later x hx => ?_⟩
    exact ((told_of_cached limits metrics past later caller (hs ▸ hf)).2 x).mp hx

end Ledger

namespace Service

variable [Task τ κ ν]

/-- **Failures leave nothing but a count**: say that after some events another
one makes a round fail, because it ends with an error or a panic, because it
was stopped and a request joins it, or because it is stopped while somebody
waits for it.

Then the event leaves the cache as it was.  The entries of the rounds that fail
by it leave the registry and no others, so that the key of the round is no
longer in flight; one failure is counted for each; exactly those are told who
wait for one of them, and all others go on waiting.  And unless it is a
shutdown, no other round fails by it.

Whatever happens later, all that was ever done to the cache for this round is
that its base, if it had one, became the most recently used key when it was
launched.  And a request for its key that comes later finds a value in the
cache and is told this, or waits for a later round, which it joins or launches,
and is told what that comes to. -/
theorem failures_leave_only_a_count (limits : Limits) (metrics : Option TaskMetrics)
    (es : List (Event κ τ ν ε)) (e : Event κ τ ν ε) (r : Nat) (x : Failure ε)
    (h : ((fresh limits metrics).run es).2.failure? e r = some x) :
    let start : Service κ τ ν ε := fresh limits metrics
    let s := (start.run es).2
    let s' := (s.step e).2
    s.Fatal e r x ∧
    s'.queue.cache = s.queue.cache ∧
    (s'.queue.inFlight = s.queue.inFlight.filter (fun p => p.2 ∉ s.failing e) ∧
      s'.queue.metrics.map (·.failures) = s.queue.metrics.map (·.failures + (s.failing e).length) ∧
      ((s.step e).1.resolved = (s.present e).filterMap fun w =>
        (s.failureOf e w.ticket).map fun y => (w.caller, .error y)) ∧
      s'.waiters = (s.present e).filter (fun w => (s.failureOf e w.ticket).isNone) ∧
      (e ≠ .shutdown → s.failing e = [r])) ∧
    ∃ a past caller task w mid, s.queue.Has r a ∧
      (a.key, r) ∈ s.queue.inFlight ∧ (∀ i, (a.key, i) ∉ s'.queue.inFlight) ∧
      es = past ++ .perform caller task :: mid ∧ Task.key task = a.key ∧
      ((start.run past).2.queue.request task).1 = .launched r w ∧
      ∀ later, let all := es ++ e :: later
        ((start.run all).2.queue.cache
            = (start.changesOf all).foldl (fun c y => c.change limits.cacheSize.val y.2) .empty ∧
          (start.changesOf all).filter (·.1 = some r)
            = (w.base.map fun b => (some r, .use b.1)).toList ∧
          (start.run past).2.changes (.perform caller task)
            = (w.base.map fun b => (some r, .use b.1)).toList) ∧
        ∀ caller' task', Task.key task' = a.key →
          let answer := ((start.run all).2.step (.perform caller' task')).1.answer
          let c := (Ledger.after limits metrics all).call caller' task'
          let told rest := (Ledger.after limits metrics (all ++ .perform caller' task' :: rest)).told
          (∃ v, (start.run all).2.queue.cache.find? a.key = some v ∧
            answer = .admitted (.hit v) ∧ ∀ rest y, (c, y) ∈ told rest → y = .ok v) ∨
          ∃ i, r < i ∧
            (answer = .admitted (.joined i) ∨ ∃ w, answer = .admitted (.launched i w)) ∧
            ∀ rest y, (c, y) ∈ told rest →
              (start.run (all ++ .perform caller' task' :: rest)).2.queue.result? i = some y := by
  intro start s s'
  have hs : s.Attended := attended_run limits metrics es
  have hq : s.queue.Registered := registered_run limits metrics es
  have hfatal : s.Fatal e r x := (fatal_iff hs hq).mp h
  obtain ⟨hbefore, hx⟩ := failure?_eq_some_iff.mp h
  obtain ⟨a, ha⟩ := exists_has_of_result hx
  have hn : a.result? = none := ha.result?.symm.trans hbefore
  refine ⟨hfatal, hfatal.cache, ⟨hfatal.inFlight hq, hfatal.failures, hfatal.resolved hs hq,
    hfatal.waiters hs hq, hfatal.failing_eq hs hq⟩, ?_⟩
  obtain ⟨past, caller, task, mid, w, hes, hw, hkey, -⟩ := exists_launch limits metrics ha
  -- what the round has become when the event is over it stays
  have hlast : ∀ later, (start.run (es ++ e :: later)).2.queue.result? r = some (.error x) := by
    intro later
    rw [run_append_snd]
    exact (grows_run s' later).result? hx
  refine ⟨a, past, caller, task, w, mid, ha, hq.mem_iff.mpr ⟨a, ha, rfl, hn⟩, fun i hi => ?_, hes,
    hkey.symm, hw, fun later => ⟨⟨cache_run _ _, ?_, ?_⟩, fun caller' task' hk => ?_⟩⟩
  · -- it would be the entry of this round, which has a result now
    rw [(hfatal.clears hq).inFlight] at hi
    obtain ⟨hi, hnone⟩ := List.mem_filter.mp hi
    obtain rfl : i = r := hq.unique (hq.mem_iff.mp hi) ⟨a, ha, rfl, hn⟩
    rw [hx] at hnone
    cases hnone
  · have hall : es ++ e :: later = past ++ .perform caller task :: (mid ++ e :: later) := by
      rw [hes, List.append_assoc, List.cons_append]
    rw [hall]
    exact changesOf_of_failed hw (hall ▸ hlast later)
  · rw [changes, hw]
  · obtain ⟨b, hb, hab⟩ := (grows_run s (e :: later)).becomes ha
    have hb : (start.run (es ++ e :: later)).2.queue.Has r b := by
      rw [run_append_snd]
      exact hb
    have hres : b.result? ≠ none := by
      rw [← hb.result?, hlast]
      simp
    have hanswer := Ledger.answer_after_end limits metrics (es ++ e :: later) hb hres caller'
      (hk.trans hab.key.symm)
    rwa [hab.key] at hanswer

/-- Events after which two callers wait for a round that was rebased. -/
def twoWaiting : List (Event UInt64 Script.Job Script.Value Script.Error) :=
  [.store 3 ⟨⟨3, 0⟩, none⟩, .store 1 ⟨⟨1, 0⟩, none⟩,
    .perform "a" ⟨5, .fail, true, none, none⟩, .perform "b" ⟨5, .fail, true, none, none⟩]

/-- When their round fails both are told, one failure is counted, and nothing is
left in flight; the base is in front since the launch. -/
theorem both_are_told_of_one_failure :
    let s := ((fresh .standard (some (.fresh "slots"))).run twoWaiting).2
    let e : Event UInt64 Script.Job Script.Value Script.Error := .finish 0 (.failed ⟨5⟩)
    s.failure? e 0 = some (.task ⟨5⟩) ∧
      (s.step e).1.resolved = [("a", .error (.task ⟨5⟩)), ("b", .error (.task ⟨5⟩))] ∧
      (s.step e).2.queue.metrics.map (·.failures) = some 1 ∧
      (s.step e).2.queue.inFlight = [] ∧ (s.step e).2.queue.cache.keys = [3, 1] := by
  intro s e
  have h : s.failure? e 0 = some (.task ⟨5⟩) := rfl
  obtain ⟨-, hcache, ⟨hinFlight, hfailures, hresolved, -, hone⟩, -⟩ :=
    failures_leave_only_a_count .standard (some (.fresh "slots")) twoWaiting e 0 _ h
  rw [hone (by simp [e])] at hinFlight hfailures
  exact ⟨h, hresolved, hfailures, hinFlight, congrArg Cache.keys hcache⟩

end Service

end SlotStates
