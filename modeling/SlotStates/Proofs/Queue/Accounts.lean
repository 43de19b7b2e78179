/-
SlotStates/Proofs/Queue/Accounts.lean

The counts of a queue add up.

Rounds are counted by what they have for a result (`Queue.count`).  A launch
adds one that has none, and settling a round moves it from those that have
none to those that have the result it is given (`count_settle`).  The registry
has one entry for each round without a result, so it has as many entries as
there are such rounds (`Balanced`).  And a round has the result with which an
event of the run has ended it (`result?_run_iff`).

The metrics say the same.  Each request is counted once, under the way in
which it was admitted, and a failure is counted when a round is settled with
an error, however many wait for it (`Booked`).  Both sizes are reported by
every operation that changes one of them; that an operation which only
promotes a key need not report them takes that no key is cached twice.

The main result is `accounts_balance`.
-/
import Mathlib.Data.List.Induction
import SlotStates.Proofs.Queue.Flight
import SlotStates.Proofs.Queue.History

namespace SlotStates

variable {κ τ ν ε : Type}

/-- A computation ended with a value. -/
def Result.isValue : Option (Result ε ν) → Bool
  | some (.ok _) => true
  | _ => false

/-- A computation ended with an error. -/
def Result.isFailure : Option (Result ε ν) → Bool
  | some (.error _) => true
  | _ => false

/-- The way in which a request was admitted, if the event was one. -/
def Answer.outcome? : Answer κ ν → Option Outcome
  | .admitted (.hit _) => some .cached
  | .admitted (.joined _) => some .duplicate
  | .admitted (.launched _ ⟨_, some _⟩) => some .rebased
  | .admitted (.launched _ ⟨_, none⟩) => some .fresh
  | _ => none

/-- Whether an event is a request. -/
def Event.isRequest : Event κ τ ν ε → Bool
  | .perform _ _ => true
  | _ => false

/-- Counts of requests with one more, if there is one. -/
def tally (n : Outcome → Nat) (request : Option Outcome) (o : Outcome) : Nat :=
  n o + if request = some o then 1 else 0

/-- How many reports tell of a request that was admitted in a way. -/
def requestCount (reports : List (Report κ ν ε)) (o : Outcome) : Nat :=
  reports.countP fun report => report.answer.outcome? = some o

theorem requestCount_cons (report : Report κ ν ε) (reports : List (Report κ ν ε)) (o : Outcome) :
    requestCount (report :: reports) o = tally (requestCount reports) report.answer.outcome? o := by
  rw [requestCount, List.countP_cons, tally]
  simp [requestCount]

namespace Queue

/-- How many rounds have a result, or none, that satisfies a test. -/
def count (q : Queue κ τ ν ε) (p : Option (Result ε ν) → Bool) : Nat :=
  q.rounds.countP fun a => p a.result?

theorem count_congr {q q' : Queue κ τ ν ε} (h : q'.rounds = q.rounds)
    (p : Option (Result ε ν) → Bool) : q'.count p = q.count p := by
  rw [count, count, h]

/-- A round has a value, has failed, or has no result. -/
theorem length_rounds_eq (q : Queue κ τ ν ε) :
    q.rounds.length
      = q.count Result.isValue + q.count Result.isFailure + q.count Option.isNone := by
  unfold count
  induction q.rounds with
  | nil => rfl
  | cons a as ih =>
    rw [List.length_cons, List.countP_cons, List.countP_cons, List.countP_cons, ih]
    rcases a.result? with - | (e | v) <;> simp [Result.isValue, Result.isFailure] <;> omega

theorem count_launch (q : Queue κ τ ν ε) (k : κ) (t : τ) (p : Option (Result ε ν) → Bool) :
    (q.launch k t).count p = q.count p + if p none then 1 else 0 := by
  rw [count, rounds_launch, List.countP_append, List.countP_singleton]
  rfl

theorem count_shutdown (q : Queue κ τ ν ε) (p : Option (Result ε ν) → Bool) :
    q.shutdown.count p = q.count p := by
  rw [count, rounds_shutdown, List.countP_map]
  simp only [Function.comp_def, Round.result?_stopped]
  rfl

variable [DecidableEq κ]

/-- A round that is settled moves from those without a result to those with
the one it is given. -/
theorem count_settle {q : Queue κ τ ν ε} {r : Nat} {a : Round κ τ ν ε} (ha : q.Has r a)
    (hn : a.result? = none) (result : Result ε ν) (p : Option (Result ε ν) → Bool) :
    (q.settle r a result).count p + (if p none then 1 else 0)
      = q.count p + if p (some result) then 1 else 0 := by
  obtain ⟨hr, he⟩ := List.getElem?_eq_some_iff.mp ha
  have hpos : p none = true → 0 < q.count p := by
    intro hp
    refine List.countP_pos_iff.mpr ⟨a, List.mem_of_getElem? ha, ?_⟩
    rw [hn]
    exact hp
  have hset : (q.settle r a result).count p
      = q.count p - (if p none then 1 else 0) + if p (some result) then 1 else 0 := by
    rw [count, rounds_settle, List.countP_set hr, he, hn]
    rfl
  rw [hset]
  by_cases hp : p none = true
  · have := hpos hp
    simp only [hp, if_true]
    omega
  · simp [hp]

/-! ### Registry and rounds -/

/-- The registry is right, no key is cached twice, and there are as many
entries in the registry as rounds without a result. -/
structure Balanced (q : Queue κ τ ν ε) : Prop where
  registered : q.Registered
  distinct : q.cache.Distinct
  length_inFlight : q.inFlight.length = q.count Option.isNone

omit [DecidableEq κ] in
theorem balanced_fresh (limits : Limits) (metrics : Option TaskMetrics) :
    (fresh limits metrics : Queue κ τ ν ε).Balanced :=
  ⟨registered_fresh limits metrics, Cache.distinct_empty, rfl⟩

omit [DecidableEq κ] in
/-- Whatever leaves registry and rounds alone keeps the balance, if it does
not list a key twice. -/
theorem Balanced.congr {q q' : Queue κ τ ν ε} (h : q.Balanced) (hi : q'.inFlight = q.inFlight)
    (hr : q'.rounds = q.rounds) (hc : q'.cache.Distinct) : q'.Balanced :=
  ⟨h.registered.congr hi hr, hc, by rw [hi, count_congr hr, h.length_inFlight]⟩

theorem distinct_prepared [Task τ κ ν] {c c' : Cache κ ν} (h : c.Distinct) {t t' : τ}
    {base : Option (κ × ν)} {o : Outcome} (hp : Prepared c t base c' o t') : c'.Distinct := by
  cases hp with
  | rebased => exact h.promote _
  | fresh => exact h

theorem Balanced.request [Task τ κ ν] {q : Queue κ τ ν ε} (h : q.Balanced) (t : τ) :
    (q.request t).2.Balanced := by
  have hr := h.registered.request t
  have ht := q.admitted_request t
  generalize (q.request t).1 = admission, (q.request t).2 = q' at ht hr
  cases ht with
  | hit => exact h.congr rfl rfl (h.distinct.promote _)
  | joined => exact h.congr rfl rfl h.distinct
  | launched missed idle searched prepared =>
    refine ⟨hr, distinct_prepared h.distinct prepared, ?_⟩
    rw [count_launch, inFlight_launch, List.length_cons, inFlight_record, h.length_inFlight]
    rfl

theorem distinct_keep {q : Queue κ τ ν ε} (h : q.cache.Distinct) (k : κ) (result : Result ε ν) :
    (q.keep k result).cache.Distinct := by
  cases result with
  | ok v => exact h.put _ k v
  | error e => exact h

/-- The entry that leaves the registry is one. -/
theorem Balanced.settle {q : Queue κ τ ν ε} (h : q.Balanced) {r : Nat} {a : Round κ τ ν ε}
    (ha : q.Has r a) (hn : a.result? = none) (result : Result ε ν) :
    (q.settle r a result).Balanced := by
  refine ⟨h.registered.settle ha hn result, distinct_keep h.distinct a.key result, ?_⟩
  -- the key is in flight, and being there once it is taken out once
  have hm : a.key ∈ q.inFlight.map (·.1) :=
    List.mem_map.mpr ⟨(a.key, r), h.registered.mem_iff.mpr ⟨a, ha, rfl, hn⟩, rfl⟩
  have hl := length_filter_ne h.registered.distinct hm
  have hc := count_settle ha hn result Option.isNone
  rw [inFlight_settle]
  rw [h.length_inFlight] at hl
  simp at hc
  omega

omit [DecidableEq κ] in
theorem Balanced.shutdown {q : Queue κ τ ν ε} (h : q.Balanced) : q.shutdown.Balanced :=
  ⟨h.registered.shutdown, h.distinct, h.length_inFlight.trans (count_shutdown q _).symm⟩

variable [KeyText κ]

theorem Balanced.poll {q : Queue κ τ ν ε} (h : q.Balanced) (r : Nat) : (q.poll r).2.Balanced :=
  poll_induction h (fun ha hk => h.settle ha (Round.result?_of_killed hk) _) r

theorem Balanced.apply [Task τ κ ν] {q : Queue κ τ ν ε} (h : q.Balanced) (e : Event κ τ ν ε) :
    (q.apply e).Balanced := by
  cases e with
  | perform caller task => exact h.request task
  | finish r e => exact finish_induction h (fun result ha hn => h.settle ha hn result) r e
  | drop caller => exact h
  | shutdown => exact h.shutdown
  | get k => exact h.congr rfl rfl (h.distinct.promote k)
  | store k v => exact h.congr rfl rfl (h.distinct.put _ k v)
  | remove k => exact h.congr rfl rfl (h.distinct.erase k)
  | prune p => exact h.congr rfl rfl (h.distinct.eraseAll _)
  | clear => exact h.congr rfl rfl Cache.distinct_empty

/-! ### What the metrics say -/

/-- The metrics count the requests and the rounds that failed. -/
structure Counted (q : Queue κ τ ν ε) (n : Outcome → Nat) (m : TaskMetrics) : Prop where
  metrics : q.metrics = some m
  requests : ∀ o, m.requestCount o = n o
  failures : m.failures = q.count Result.isFailure

/-- The metrics also tell how many values are cached and how many keys are in
flight. -/
structure Booked (q : Queue κ τ ν ε) (n : Outcome → Nat) (m : TaskMetrics) : Prop
    extends q.Counted n m where
  cacheSize : m.cacheSize = min q.cache.size greatestSize
  inFlight : m.inFlight = min q.inFlight.length greatestSize

omit [DecidableEq κ] [KeyText κ] in
theorem booked_fresh (limits : Limits) (stem : String) :
    (fresh limits (some (.fresh stem)) : Queue κ τ ν ε).Booked (fun _ => 0) (.fresh stem) where
  metrics := rfl
  requests o := by cases o <;> rfl
  failures := rfl
  cacheSize := rfl
  inFlight := rfl

omit [DecidableEq κ] [KeyText κ] in
theorem Counted.congr {q q' : Queue κ τ ν ε} {n : Outcome → Nat} {m : TaskMetrics}
    (h : q.Counted n m) (hm : q'.metrics = q.metrics)
    (hc : q'.count Result.isFailure = q.count Result.isFailure) : q'.Counted n m :=
  ⟨hm.trans h.metrics, h.requests, h.failures.trans hc.symm⟩

omit [DecidableEq κ] [KeyText κ] in
/-- Reporting the sizes makes them right. -/
theorem Counted.updateSizes {q : Queue κ τ ν ε} {n : Outcome → Nat} {m : TaskMetrics}
    (h : q.Counted n m) : ∃ m', q.updateSizes.Booked n m' := by
  refine ⟨m.setSizes q.cache.size q.inFlight.length, ⟨?_, h.requests, h.failures⟩, rfl, rfl⟩
  show q.metrics.map _ = _
  rw [h.metrics]
  rfl

omit [DecidableEq κ] [KeyText κ] in
theorem Counted.launch {q : Queue κ τ ν ε} {n : Outcome → Nat} {m : TaskMetrics}
    (h : q.Counted n m) (k : κ) (t : τ) : ∃ m', (q.launch k t).Booked n m' :=
  Counted.updateSizes
    (h.congr rfl (count_launch q k t Result.isFailure : (q.launch k t).count _ = _))

omit [DecidableEq κ] [KeyText κ] in
theorem Counted.record {q : Queue κ τ ν ε} {n : Outcome → Nat} {m : TaskMetrics}
    (h : q.Counted n m) (o : Outcome) :
    (q.record o).Counted (tally n (some o)) (m.recordRequest o) where
  metrics := by
    show q.metrics.map _ = _
    rw [h.metrics]
    rfl
  requests p := by
    rw [TaskMetrics.requestCount_recordRequest, h.requests, tally]
    by_cases hp : p = o
    · simp [hp]
    · simp [hp, Ne.symm hp]
  failures := h.failures

omit [KeyText κ] in
/-- A request is counted under the way in which it was admitted. -/
theorem Booked.request [Task τ κ ν] {q : Queue κ τ ν ε} {n : Outcome → Nat} {m : TaskMetrics}
    (h : q.Booked n m) (hd : q.cache.Distinct) (t : τ) :
    ∃ m', (q.request t).2.Booked (tally n (Answer.admitted (q.request t).1).outcome?) m' := by
  have ht := q.admitted_request t
  generalize (q.request t).1 = admission, (q.request t).2 = q' at ht
  cases ht with
  | hit found =>
    have hr := h.toCounted.record .cached
    refine ⟨_, ⟨hr.metrics, hr.requests, hr.failures⟩, ?_, h.inFlight⟩
    show m.cacheSize = min (q.cache.promote _).size greatestSize
    rw [Cache.size_promote hd]
    exact h.cacheSize
  | joined => exact ⟨_, h.toCounted.record .duplicate, h.cacheSize, h.inFlight⟩
  | @launched w c o t' _ _ _ prepared =>
    have ho : (Answer.admitted (.launched q.rounds.length w) : Answer κ ν).outcome? = some o := by
      obtain ⟨steps, base⟩ := w
      cases prepared <;> rfl
    rw [ho]
    have hc : ({ q.record o with cache := c } : Queue κ τ ν ε).Counted (tally n (some o)) _ :=
      (h.toCounted.record o).congr rfl rfl
    exact hc.launch _ t'

omit [KeyText κ] in
/-- A failure is counted when a round is settled with an error. -/
theorem Booked.settle {q : Queue κ τ ν ε} {n : Outcome → Nat} {m : TaskMetrics} (h : q.Booked n m)
    {r : Nat} {a : Round κ τ ν ε} (ha : q.Has r a) (hn : a.result? = none) (result : Result ε ν) :
    ∃ m', (q.settle r a result).Booked n m' := by
  have hc := count_settle ha hn result Result.isFailure
  -- the counts are right before the sizes are reported
  have hk : ∃ m', (q.keep a.key result).metrics = some m' ∧ (∀ o, m'.requestCount o = n o) ∧
      m'.failures = (q.settle r a result).count Result.isFailure := by
    cases result with
    | ok v => exact ⟨m, h.metrics, h.requests, h.failures.trans hc.symm⟩
    | error e =>
      refine ⟨m.recordFailure, ?_, h.requests, (congrArg (· + 1) h.failures).trans hc.symm⟩
      show q.metrics.map _ = _
      rw [h.metrics]
      rfl
  obtain ⟨m', hm, hr, hf⟩ := hk
  let q' := q.settle r a result
  refine ⟨m'.setSizes q'.cache.size q'.inFlight.length, ⟨?_, hr, hf⟩, rfl, rfl⟩
  show (q.keep a.key result).metrics.map _ = _
  rw [hm]
  rfl

theorem Booked.poll {q : Queue κ τ ν ε} {n : Outcome → Nat} (h : ∃ m, q.Booked n m) (r : Nat) :
    ∃ m, (q.poll r).2.Booked n m := by
  obtain ⟨m, hm⟩ := h
  exact poll_induction (P := fun q => ∃ m, q.Booked n m) ⟨m, hm⟩
    (fun ha hk => hm.settle ha (Round.result?_of_killed hk) _) r

/-- An event is counted if it is a request, and changes no other count of
requests. -/
theorem Booked.apply [Task τ κ ν] {q : Queue κ τ ν ε} {n : Outcome → Nat} {m : TaskMetrics}
    (h : q.Booked n m) (hd : q.cache.Distinct) {e : Event κ τ ν ε} (he : e.isRequest = false) :
    ∃ m', (q.apply e).Booked n m' := by
  -- whatever is written into the cache, the sizes are reported
  have written : ∀ c, ∃ m', ({ q with cache := c } : Queue κ τ ν ε).updateSizes.Booked n m' :=
    fun c => Counted.updateSizes (h.toCounted.congr rfl rfl)
  cases e with
  | perform caller task => cases he
  | finish r e =>
    exact finish_induction (P := fun q => ∃ m, q.Booked n m) ⟨m, h⟩
      (fun result ha hn => h.settle ha hn result) r e
  | drop caller => exact ⟨m, h⟩
  | shutdown =>
    exact ⟨m, h.toCounted.congr rfl (count_shutdown q _), h.cacheSize, h.inFlight⟩
  | get k =>
    -- no size is reported, and none has changed
    refine ⟨m, h.toCounted.congr rfl rfl, ?_, h.inFlight⟩
    show m.cacheSize = min (q.cache.promote k).size greatestSize
    rw [Cache.size_promote hd]
    exact h.cacheSize
  | store k v => exact written _
  | remove k => exact written _
  | prune p => exact written _
  | clear => exact written _

end Queue

namespace Service

variable [DecidableEq κ] [KeyText κ] [Task τ κ ν]

theorem balanced_run (limits : Limits) (metrics : Option TaskMetrics)
    (es : List (Event κ τ ν ε)) : ((fresh limits metrics).run es).2.queue.Balanced :=
  run_queue (fun e h => h.apply e) (fun r h => h.poll r) (Queue.balanced_fresh limits metrics) es

/-- Events that are not requests are not counted. -/
theorem outcome?_answer_step (s : Service κ τ ν ε) {e : Event κ τ ν ε} (he : e.isRequest = false) :
    (s.step e).1.answer.outcome? = none := by
  cases e with
  | perform caller task => cases he
  | finish r e =>
    rcases h : s.queue.running? r with - | a <;> simp [step, h, settled, Answer.outcome?]
  | _ => rfl

/-- Only requests launch rounds. -/
theorem launches_answer_step (s : Service κ τ ν ε) {e : Event κ τ ν ε} (he : e.isRequest = false) :
    (s.step e).1.answer.launches = false := by
  have h := s.outcome?_answer_step he
  generalize (s.step e).1.answer = answer at h ⊢
  rcases answer with - | (v | r | ⟨r, n, - | base⟩) | v | any
  case admitted.launched.none => cases h
  case admitted.launched.some => cases h
  all_goals rfl

/-- A step counts what its report says, whoever is asked for afterwards. -/
theorem booked_step {s : Service κ τ ν ε} (hd : s.queue.cache.Distinct) {n : Outcome → Nat}
    {m : TaskMetrics} (h : s.queue.Booked n m) (e : Event κ τ ν ε) :
    ∃ m', (s.step e).2.queue.Booked (tally n (s.step e).1.answer.outcome?) m' := by
  refine step_queue_induction (P := fun q => ∃ m, q.Booked _ m)
    (fun r hq => Queue.Booked.poll hq r) ?_
  cases he : e.isRequest with
  | true =>
    cases e with
    | perform caller task => exact h.request hd task
    | _ => cases he
  | false =>
    rw [outcome?_answer_step s he]
    exact h.apply hd he

theorem booked_run (limits : Limits) (stem : String) (es : List (Event κ τ ν ε)) :
    let run := (fresh limits (some (.fresh stem))).run es
    ∃ m, run.2.queue.Booked (requestCount run.1) m := by
  induction es using List.reverseRecOn with
  | nil => exact ⟨_, Queue.booked_fresh limits stem⟩
  | append_singleton es e ih =>
    obtain ⟨m, hm⟩ := ih
    obtain ⟨m', hm'⟩ := booked_step (balanced_run limits _ es).distinct hm e
    refine ⟨m', ?_⟩
    rw [run_concat]
    convert hm' using 1
    funext o
    rw [requestCount, List.countP_append, List.countP_singleton, tally]
    simp [requestCount]

/-! ### What the reports say -/

omit [DecidableEq κ] [KeyText κ] [Task τ κ ν] in
/-- A request launches a round if it finds its value neither cached nor under
way, with a base or without. -/
theorem countP_launches (reports : List (Report κ ν ε)) :
    reports.countP (fun report => report.answer.launches)
      = requestCount reports .fresh + requestCount reports .rebased := by
  induction reports with
  | nil => rfl
  | cons report reports ih =>
    rw [List.countP_cons, requestCount_cons, requestCount_cons, ih, tally, tally]
    rcases report.answer with - | (v | r | ⟨r, n, - | base⟩) | v | b <;>
      simp [Answer.launches, Answer.outcome?] <;> omega

/-- Every request is counted, and nothing else is. -/
theorem countP_isRequest (s : Service κ τ ν ε) (es : List (Event κ τ ν ε)) :
    es.countP Event.isRequest
      = requestCount (s.run es).1 .cached + requestCount (s.run es).1 .duplicate
        + requestCount (s.run es).1 .rebased + requestCount (s.run es).1 .fresh := by
  induction es generalizing s with
  | nil => rfl
  | cons e es ih =>
    have hr : (s.run (e :: es)).1 = (s.step e).1 :: ((s.step e).2.run es).1 := rfl
    rw [List.countP_cons, ih (s.step e).2, hr]
    simp only [requestCount_cons, tally]
    cases he : e.isRequest with
    | false => simp [s.outcome?_answer_step he]
    | true =>
      cases e with
      | perform caller task =>
        have ha : (s.step (.perform caller task)).1.answer
          = .admitted (s.queue.request task).1 := rfl
        rw [ha]
        rcases (s.queue.request task).1 with v | r | ⟨r, n, - | base⟩ <;>
          simp [Answer.outcome?] <;> omega
      | _ => cases he

theorem requestCount_run_cons (s : Service κ τ ν ε) (e : Event κ τ ν ε) (es : List (Event κ τ ν ε))
    (o : Outcome) : requestCount (s.run (e :: es)).1 o
      = tally (requestCount ((s.step e).2.run es).1) (s.step e).1.answer.outcome? o :=
  requestCount_cons ..

theorem length_rounds_run (s : Service κ τ ν ε) (es : List (Event κ τ ν ε)) :
    (s.run es).2.queue.rounds.length
      = s.queue.rounds.length + (s.run es).1.countP fun report => report.answer.launches := by
  induction es generalizing s with
  | nil => rfl
  | cons e es ih =>
    show ((s.step e).2.run es).2.queue.rounds.length
      = _ + ((s.step e).1 :: ((s.step e).2.run es).1).countP _
    rw [ih, length_rounds_step, List.countP_cons]
    omega

/-! ### Which rounds have ended -/

/-- The event of a number in a run ends a round with a result. -/
def EndedBy (start : Service κ τ ν ε) (es : List (Event κ τ ν ε)) (r : Nat) (result : Result ε ν) :
    Nat → Prop :=
  start.Occurs (fun s e => ∃ a, s.queue.Has r a ∧ s.EndsWith e r a result) es

theorem endedBy_concat_iff {start : Service κ τ ν ε} {es : List (Event κ τ ν ε)}
    {e : Event κ τ ν ε} {r n : Nat} {result : Result ε ν} :
    start.EndedBy (es ++ [e]) r result n ↔ start.EndedBy es r result n ∨
      n = es.length ∧ ∃ a, (start.run es).2.queue.Has r a ∧ (start.run es).2.EndsWith e r a result :=
  occurs_concat_iff

/-- A round has a result after a run exactly if an event of the run has ended it
with this. -/
theorem result?_run_iff (limits : Limits) (metrics : Option TaskMetrics)
    (es : List (Event κ τ ν ε)) (r : Nat) (result : Result ε ν) :
    ((fresh limits metrics).run es).2.queue.result? r = some result
      ↔ ∃ n, (fresh limits metrics).EndedBy es r result n := by
  induction es using List.reverseRecOn with
  | nil =>
    refine iff_of_false (fun h => by cases h) ?_
    rintro ⟨n, hn⟩
    cases hn.lt
  | append_singleton es e ih =>
    rw [run_concat_snd, result?_step_iff, ih]
    simp only [endedBy_concat_iff, exists_or, exists_eq_left]

/-- No round ends twice. -/
theorem EndedBy.unique {limits : Limits} {metrics : Option TaskMetrics}
    {es : List (Event κ τ ν ε)} {r m n : Nat} {result result' : Result ε ν}
    (h : (fresh limits metrics).EndedBy es r result m)
    (h' : (fresh limits metrics).EndedBy es r result' n) : m = n := by
  induction es using List.reverseRecOn with
  | nil => cases h.lt
  | append_singleton es e ih =>
    -- a round that the last event ends had no result before
    have first : ∀ {y z i},
        (∃ a, ((fresh limits metrics).run es).2.queue.Has r a ∧
          ((fresh limits metrics).run es).2.EndsWith e r a y) →
        ¬ (fresh limits metrics).EndedBy es r z i := by
      rintro y z i ⟨a, ha, hends⟩ hi
      have hres := (result?_run_iff limits metrics es r z).mpr ⟨i, hi⟩
      rw [ha.result?, hends.result?_eq_none] at hres
      cases hres
    rcases endedBy_concat_iff.mp h with hold | ⟨hm, hnew⟩
    · rcases endedBy_concat_iff.mp h' with hold' | ⟨-, hnew'⟩
      · exact ih hold hold'
      · exact absurd hold (first hnew')
    · rcases endedBy_concat_iff.mp h' with hold' | ⟨hn, -⟩
      · exact absurd hold' (first hnew)
      · exact hm.trans hn.symm

/-- **The counts add up**: after any run of a queue with metrics of its own,
the requests of each kind are those that the reports tell of, and together
they are all requests that were made.  Those that launched a round are as many
as there are rounds, each of which has a value, was counted as a failure, or
is in flight; a failure is counted for each round that has failed; and both
sizes are the sizes of cache and registry.

A round has a result exactly if an event of the run has ended it with this,
because its computation ended so, or because it was stopped and somebody found
it cancelled; and no round ends twice. -/
theorem accounts_balance (limits : Limits) (stem : String) (es : List (Event κ τ ν ε)) :
    let start : Service κ τ ν ε := fresh limits (some (.fresh stem))
    let run := start.run es
    let q := run.2.queue
    ∃ m, q.metrics = some m ∧
      (∀ o, m.requestCount o = requestCount run.1 o) ∧
      m.requestCount .cached + m.requestCount .duplicate + m.requestCount .rebased
        + m.requestCount .fresh = es.countP Event.isRequest ∧
      m.requestCount .fresh + m.requestCount .rebased
        = run.1.countP (fun report => report.answer.launches) ∧
      m.requestCount .fresh + m.requestCount .rebased = q.rounds.length ∧
      q.rounds.length = q.count Result.isValue + m.failures + q.inFlight.length ∧
      m.failures = q.count Result.isFailure ∧
      ((∀ r result, q.result? r = some result ↔ ∃ n, start.EndedBy es r result n) ∧
        ∀ r y z i n, start.EndedBy es r y i → start.EndedBy es r z n → i = n) ∧
      m.cacheSize = min q.cache.size greatestSize ∧
      m.inFlight = min q.inFlight.length greatestSize := by
  intro start run q
  obtain ⟨m, hm⟩ := booked_run limits stem es
  have hq : q.Balanced := balanced_run limits _ es
  have hlaunches : m.requestCount .fresh + m.requestCount .rebased
      = run.1.countP fun report => report.answer.launches := by
    rw [countP_launches, hm.requests, hm.requests]
  have hrounds : q.rounds.length = run.1.countP fun report => report.answer.launches :=
    (length_rounds_run _ es).trans (Nat.zero_add _)
  refine ⟨m, hm.metrics, hm.requests, ?_, hlaunches, hlaunches.trans hrounds.symm, ?_, hm.failures,
    ⟨result?_run_iff limits _ es, fun r y z i n => EndedBy.unique⟩, hm.cacheSize, hm.inFlight⟩
  · rw [hm.requests, hm.requests, hm.requests, hm.requests]
    exact (countP_isRequest _ es).symm
  · rw [hm.failures, hq.length_inFlight]
    exact q.length_rounds_eq

end Service

end SlotStates
