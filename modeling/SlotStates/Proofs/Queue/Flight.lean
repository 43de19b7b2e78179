/-
SlotStates/Proofs/Queue/Flight.lean

At most one computation for a key.

The registry of what is in flight and the rounds are separate, and a round
that ends takes its entry out by its key, not by its number.  `Registered` is
the invariant that makes this right: the registry lists exactly the rounds
without a result, each under its key, and no key twice.  A launch keeps it
because the key of the task is not in flight, and settling a round keeps it
because no other entry has the round's key.

The main result is `single_flight`: the registry says at every point of a run
which computations are under way, there is at most one for a key, and an entry
is taken out when its own round ends (`Service.Ends`) and not before.  What a
round has for a result is what an event has ended it with (`result?_step_iff`).
-/
import SlotStates.Proofs.Queue.Contents
import SlotStates.Proofs.Queue.Events

namespace SlotStates

variable {κ τ ν ε : Type}

namespace Queue

/-- The round of a number was launched for a key and has no result: its
computation is under way, or was stopped and nobody has noticed. -/
def Unfinished (q : Queue κ τ ν ε) (k : κ) (r : Nat) : Prop :=
  ∃ a, q.Has r a ∧ a.key = k ∧ a.result? = none

theorem Has.unfinished_iff {q : Queue κ τ ν ε} {r : Nat} {a : Round κ τ ν ε} (h : q.Has r a)
    {k : κ} : q.Unfinished k r ↔ a.key = k ∧ a.result? = none := by
  constructor
  · rintro ⟨b, hb, hk, hn⟩
    obtain rfl := h.unique hb
    exact ⟨hk, hn⟩
  · rintro ⟨hk, hn⟩
    exact ⟨a, h, hk, hn⟩

/-- The registry lists exactly the rounds without a result, each under its
key, and of the rounds of one key only the latest may be without a result. -/
structure Registered (q : Queue κ τ ν ε) : Prop where
  mem_iff : ∀ {k r}, (k, r) ∈ q.inFlight ↔ q.Unfinished k r
  distinct : (q.inFlight.map (·.1)).Nodup
  in_turn : ∀ {r i a b}, q.Has r a → q.Has i b → a.key = b.key → r < i → a.result? ≠ none

theorem Registered.congr {q q' : Queue κ τ ν ε} (h : q.Registered)
    (hi : q'.inFlight = q.inFlight) (hr : q'.rounds = q.rounds) : q'.Registered := by
  obtain ⟨limits, cache, inFlight, rounds, metrics⟩ := q
  obtain ⟨limits', cache', inFlight', rounds', metrics'⟩ := q'
  obtain rfl : inFlight' = inFlight := hi
  obtain rfl : rounds' = rounds := hr
  exact ⟨h.mem_iff, h.distinct, h.in_turn⟩

theorem registered_fresh (limits : Limits) (metrics : Option TaskMetrics) :
    (fresh limits metrics : Queue κ τ ν ε).Registered where
  mem_iff := by
    intro k r
    constructor
    · intro h
      cases h
    · rintro ⟨a, ha, -⟩
      cases ha
  distinct := List.nodup_nil
  in_turn ha := by cases ha

variable [DecidableEq κ]

theorem Registered.lookup_iff {q : Queue κ τ ν ε} (h : q.Registered) {k : κ} {r : Nat} :
    q.inFlight.lookup k = some r ↔ q.Unfinished k r :=
  (lookup_eq_some_iff_mem h.distinct).trans h.mem_iff

theorem Registered.lookup_eq_none_iff {q : Queue κ τ ν ε} (h : q.Registered) {k : κ} :
    q.inFlight.lookup k = none ↔ ∀ r, ¬ q.Unfinished k r := by
  simp only [Option.eq_none_iff_forall_ne_some, ne_eq, h.lookup_iff]

/-- There is at most one round without a result for a key. -/
theorem Registered.unique {q : Queue κ τ ν ε} (h : q.Registered) {k : κ} {r i : Nat}
    (hr : q.Unfinished k r) (hi : q.Unfinished k i) : r = i :=
  Option.some.inj ((h.lookup_iff.mpr hr).symm.trans (h.lookup_iff.mpr hi))

/-! ### What keeps the registry right -/

omit [DecidableEq κ] in
theorem unfinished_launch_iff {q : Queue κ τ ν ε} {k k' : κ} {t : τ} {r : Nat} :
    (q.launch k t).Unfinished k' r ↔ q.Unfinished k' r ∨ k = k' ∧ r = q.rounds.length := by
  constructor
  · rintro ⟨a, ha, hk, hn⟩
    rcases (has_append_iff (rounds_launch q k t)).mp ha with ha | ⟨hr, rfl⟩
    · exact .inl ⟨a, ha, hk, hn⟩
    · exact .inr ⟨hk, hr⟩
  · rintro (⟨a, ha, hk, hn⟩ | ⟨hk, hr⟩)
    · exact ⟨a, (has_append_iff (rounds_launch q k t)).mpr (.inl ha), hk, hn⟩
    · exact ⟨⟨k, t, .running⟩, (has_append_iff (rounds_launch q k t)).mpr (.inr ⟨hr, rfl⟩), hk, rfl⟩

/-- A launch keeps the registry right if its key is not in flight. -/
theorem Registered.launch {q : Queue κ τ ν ε} (h : q.Registered) {k : κ} (t : τ)
    (idle : q.inFlight.lookup k = none) : (q.launch k t).Registered where
  mem_iff := by
    intro k' r
    rw [inFlight_launch, List.mem_cons, unfinished_launch_iff, h.mem_iff, Prod.mk.injEq,
      or_comm, @eq_comm κ k' k]
  distinct := by
    refine List.nodup_cons.mpr ⟨?_, h.distinct⟩
    intro hm
    obtain ⟨⟨k', r⟩, he, hk⟩ := List.mem_map.mp hm
    obtain rfl : k' = k := hk
    exact h.lookup_eq_none_iff.mp idle r (h.mem_iff.mp he)
  in_turn := by
    intro r i a b ha hb hk hlt hn
    rcases (has_append_iff (rounds_launch q k t)).mp hb with hb | ⟨rfl, rfl⟩
    · -- the later one is old, and then so is the earlier one
      rcases (has_append_iff (rounds_launch q k t)).mp ha with ha | ⟨rfl, -⟩
      · exact h.in_turn ha hb hk hlt hn
      · exact absurd hb.lt (Nat.lt_asymm hlt)
    · -- the later one is new: no round of its key is without a result
      rcases (has_append_iff (rounds_launch q k t)).mp ha with ha | ⟨rfl, -⟩
      · exact h.lookup_eq_none_iff.mp idle r ⟨a, ha, hk, hn⟩
      · exact Nat.lt_irrefl _ hlt

theorem unfinished_settle_iff {q : Queue κ τ ν ε} {r : Nat} {a : Round κ τ ν ε} (ha : q.Has r a)
    {result : Result ε ν} {k : κ} {i : Nat} :
    (q.settle r a result).Unfinished k i ↔ q.Unfinished k i ∧ r ≠ i := by
  constructor
  · rintro ⟨b, hb, hk, hn⟩
    rcases (has_settle_iff ha).mp hb with ⟨-, rfl⟩ | ⟨hi, hb⟩
    · cases hn
    · exact ⟨⟨b, hb, hk, hn⟩, hi⟩
  · rintro ⟨⟨b, hb, hk, hn⟩, hi⟩
    exact ⟨b, (has_settle_iff ha).mpr (.inr ⟨hi, hb⟩), hk, hn⟩

/-- Settling a round keeps the registry right: the entry that goes with its
key is its own. -/
theorem Registered.settle {q : Queue κ τ ν ε} (h : q.Registered) {r : Nat} {a : Round κ τ ν ε}
    (ha : q.Has r a) (hn : a.result? = none) (result : Result ε ν) :
    (q.settle r a result).Registered where
  mem_iff := by
    intro k i
    rw [unfinished_settle_iff ha, inFlight_settle, List.mem_filter, h.mem_iff]
    refine and_congr_right fun hi => ?_
    -- an entry has the key of this round exactly if it is its own
    have hr : q.Unfinished a.key r := ha.unfinished_iff.mpr ⟨rfl, hn⟩
    constructor
    · intro hk hri
      obtain ⟨b, hb, hbk, -⟩ := hri ▸ hi
      obtain rfl := ha.unique hb
      simp [hbk] at hk
    · intro hri
      have hk : k ≠ a.key := fun hk => hri (h.unique hr (hk ▸ hi))
      simpa using hk
  distinct := by
    rw [inFlight_settle, map_fst_filter_ne]
    exact List.Nodup.filter _ h.distinct
  in_turn := by
    intro i j b c hb hc hk hlt hbn
    rcases (has_settle_iff ha).mp hb with ⟨-, rfl⟩ | ⟨-, hb⟩
    · cases hbn
    · rcases (has_settle_iff ha).mp hc with ⟨rfl, rfl⟩ | ⟨-, hc⟩
      · exact h.in_turn hb ha hk hlt hbn
      · exact h.in_turn hb hc hk hlt hbn

/-- So it is the round's own entry that settling takes out, and no other. -/
theorem Registered.inFlight_settle {q : Queue κ τ ν ε} (h : q.Registered) {r : Nat}
    {a : Round κ τ ν ε} (ha : q.Has r a) (hn : a.result? = none) (result : Result ε ν) :
    (q.settle r a result).inFlight = q.inFlight.filter fun e => e.2 ≠ r := by
  rw [Queue.inFlight_settle]
  refine List.filter_congr fun ⟨k, i⟩ hm => ?_
  have hi : q.Unfinished k i := h.mem_iff.mp hm
  have hk : k = a.key ↔ i = r := by
    constructor
    · rintro rfl
      exact h.unique hi (ha.unfinished_iff.mpr ⟨rfl, hn⟩)
    · rintro rfl
      exact (ha.unfinished_iff.mp hi).1.symm
  simp [hk]

omit [DecidableEq κ] in
theorem has_shutdown_iff {q : Queue κ τ ν ε} {r : Nat} {b : Round κ τ ν ε} :
    q.shutdown.Has r b ↔ ∃ a, q.Has r a ∧ a.stopped = b := by
  show q.shutdown.rounds[r]? = some b ↔ _
  rw [rounds_shutdown, List.getElem?_map, Option.map_eq_some_iff]
  rfl

omit [DecidableEq κ] in
theorem unfinished_shutdown_iff {q : Queue κ τ ν ε} {k : κ} {r : Nat} :
    q.shutdown.Unfinished k r ↔ q.Unfinished k r := by
  constructor
  · rintro ⟨b, hb, hk, hn⟩
    obtain ⟨a, ha, rfl⟩ := has_shutdown_iff.mp hb
    rw [a.becomes_stopped.key] at hk
    rw [a.result?_stopped] at hn
    exact ⟨a, ha, hk, hn⟩
  · rintro ⟨a, ha, hk, hn⟩
    exact ⟨a.stopped, has_shutdown_iff.mpr ⟨a, ha, rfl⟩, a.becomes_stopped.key.trans hk,
      a.result?_stopped.trans hn⟩

omit [DecidableEq κ] in
theorem Registered.shutdown {q : Queue κ τ ν ε} (h : q.Registered) : q.shutdown.Registered where
  mem_iff := by
    intro k r
    rw [unfinished_shutdown_iff]
    exact h.mem_iff
  distinct := h.distinct
  in_turn := by
    intro r i b c hb hc hk hlt
    obtain ⟨a, ha, rfl⟩ := has_shutdown_iff.mp hb
    obtain ⟨a', ha', rfl⟩ := has_shutdown_iff.mp hc
    rw [a.becomes_stopped.key, a'.becomes_stopped.key] at hk
    rw [a.result?_stopped]
    exact h.in_turn ha ha' hk hlt

theorem Registered.request [Task τ κ ν] {q : Queue κ τ ν ε} (h : q.Registered) (t : τ) :
    (q.request t).2.Registered := by
  have ht := q.admitted_request t
  generalize (q.request t).1 = admission, (q.request t).2 = q' at ht
  cases ht with
  | hit => exact h.congr rfl rfl
  | joined => exact h.congr rfl rfl
  | @launched w c o t' _ idle =>
    have hc : ({ q.record o with cache := c } : Queue κ τ ν ε).Registered := h.congr rfl rfl
    exact hc.launch t' idle

variable [KeyText κ]

theorem Registered.poll {q : Queue κ τ ν ε} (h : q.Registered) (r : Nat) :
    (q.poll r).2.Registered :=
  poll_induction h (fun ha hk => h.settle ha (Round.result?_of_killed hk) _) r

theorem Registered.apply [Task τ κ ν] {q : Queue κ τ ν ε} (h : q.Registered)
    (e : Event κ τ ν ε) : (q.apply e).Registered := by
  cases e with
  | perform caller task => exact h.request task
  | finish r e => exact finish_induction h (fun result ha hn => h.settle ha hn result) r e
  | shutdown => exact h.shutdown
  | _ => exact h.congr rfl rfl

end Queue

/-- The task that is launched after a search for a base: rebased, if one was
found. -/
def Walk.prepare [Task τ κ ν] (w : Walk κ ν) (t : τ) : τ :=
  match w.base with
  | some (_, v) => Task.rebase t v
  | none => t

/-- Whether an event launched a round. -/
def Answer.launches : Answer κ ν → Bool
  | .admitted (.launched _ _) => true
  | _ => false

/-- A request that launches a round launches its task as the search for a base
has prepared it. -/
theorem Queue.launched_request [DecidableEq κ] [Task τ κ ν] {q : Queue κ τ ν ε} {task : τ}
    {r : Nat} {w : Walk κ ν} (h : (q.request task).1 = .launched r w) :
    r = q.rounds.length ∧ q.cache.walk (Task.ancestor? task) q.limits.maxSteps = w ∧
      (q.request task).2.rounds = q.rounds ++ [⟨Task.key task, w.prepare task, .running⟩] := by
  have ht := q.admitted_request task
  rw [h] at ht
  generalize (q.request task).2 = q' at ht
  cases ht with
  | @launched w c o t' missed idle searched prepared =>
    have hprepare : t' = w.prepare task := by
      obtain ⟨probed, base⟩ := w
      have hb : Walk.base ⟨probed, base⟩ = base := rfl
      rw [hb] at prepared
      cases prepared <;> rfl
    exact ⟨rfl, searched, hprepare ▸ rfl⟩

namespace Service

variable [DecidableEq κ] [KeyText κ] [Task τ κ ν]

theorem registered_run (limits : Limits) (metrics : Option TaskMetrics)
    (es : List (Event κ τ ν ε)) : ((fresh limits metrics).run es).2.queue.Registered :=
  run_queue (fun e h => h.apply e) (fun r h => h.poll r) (Queue.registered_fresh limits metrics) es

/-! ### Launches -/

/-- A request launches a round exactly if its key is neither cached nor in
flight. -/
theorem launches_iff {s : Service κ τ ν ε} (caller : String) (task : τ) :
    (s.step (.perform caller task)).1.answer.launches = true
      ↔ s.queue.cache.find? (Task.key task) = none
        ∧ s.queue.inFlight.lookup (Task.key task) = none := by
  have h := s.queue.admitted_request task
  show (Answer.admitted (s.queue.request task).1).launches = true ↔ _
  generalize (s.queue.request task).1 = admission, (s.queue.request task).2 = q' at h
  cases h with
  | hit found => simp [Answer.launches, found]
  | joined missed inFlight => simp [Answer.launches, inFlight]
  | launched missed idle => simp [Answer.launches, missed, idle]

omit [DecidableEq κ] [KeyText κ] [Task τ κ ν] in
theorem exists_of_launches {admission : Admission κ ν}
    (h : (Answer.admitted admission).launches = true) : ∃ r w, admission = .launched r w := by
  cases admission with
  | launched r w => exact ⟨r, w, rfl⟩
  | _ => cases h

/-- The round that a request launches runs, for its key and with its task as
the search for a base has prepared it. -/
theorem has_launched {s : Service κ τ ν ε} (caller : String) {task : τ} {r : Nat} {w : Walk κ ν}
    (h : (s.queue.request task).1 = .launched r w) :
    (s.step (.perform caller task)).2.queue.Has r
      ⟨Task.key task, w.prepare task, .running⟩ := by
  obtain ⟨rfl, -, hrounds⟩ := Queue.launched_request h
  show (s.step (.perform caller task)).2.queue.rounds[s.queue.rounds.length]? = _
  rw [step_queue, rounds_pollAll]
  show ((s.queue.request task).2.rounds[_]?).map _ = _
  rw [hrounds, List.getElem?_concat_length]
  -- asking leaves a round that runs as it is
  show some (if _ then (⟨Task.key task, w.prepare task, .running⟩ : Round κ τ ν ε) else _) = _
  rw [ite_self]

theorem has_of_launches {s : Service κ τ ν ε} {caller : String} {task : τ}
    (hl : (s.step (.perform caller task)).1.answer.launches = true) :
    ∃ a, (s.step (.perform caller task)).2.queue.Has s.queue.rounds.length a ∧
      a.key = Task.key task ∧ a.status = .running := by
  obtain ⟨r, w, h⟩ := exists_of_launches hl
  obtain ⟨rfl, -⟩ := Queue.launched_request h
  exact ⟨_, has_launched caller h, rfl, rfl⟩

/-- Rounds are launched one at a time, and only by requests that say so. -/
theorem length_rounds_step (s : Service κ τ ν ε) (e : Event κ τ ν ε) :
    (s.step e).2.queue.rounds.length
      = s.queue.rounds.length + (if (s.step e).1.answer.launches then 1 else 0) := by
  rw [step_queue, length_rounds_pollAll]
  cases e with
  | perform caller task =>
    have h := s.queue.admitted_request task
    show (s.queue.request task).2.rounds.length
      = _ + (if (Answer.admitted (s.queue.request task).1).launches then 1 else 0)
    generalize (s.queue.request task).1 = admission, (s.queue.request task).2 = q' at h
    cases h with
    | launched => simp [Answer.launches]
    | _ => rfl
  | finish r e =>
    have hl : (s.queue.finish r e).rounds.length = s.queue.rounds.length :=
      Queue.finish_induction (P := fun q => q.rounds.length = s.queue.rounds.length) rfl
        (fun result ha hn => by simp) r e
    show (s.queue.finish r e).rounds.length = _ + _
    rw [hl]
    rcases h : s.queue.running? r with - | a <;> simp [step, h, settled, Answer.launches]
  | shutdown =>
    show s.queue.shutdown.rounds.length = _
    rw [Queue.rounds_shutdown, List.length_map]
    rfl
  | _ => rfl

/-- A round was there before an event, or is launched by it. -/
theorem exists_has_or_launched {s : Service κ τ ν ε} {e : Event κ τ ν ε} {r : Nat}
    {b : Round κ τ ν ε} (hb : (s.step e).2.queue.Has r b) :
    (∃ a, s.queue.Has r a) ∨
      ∃ caller task w, e = .perform caller task ∧ (s.queue.request task).1 = .launched r w := by
  rcases Nat.lt_or_ge r s.queue.rounds.length with hr | hr
  · exact .inl ⟨_, List.getElem?_eq_getElem hr⟩
  · have hlt := hb.lt
    rw [length_rounds_step] at hlt
    have hl : (s.step e).1.answer.launches = true := by
      by_contra hn
      rw [if_neg hn] at hlt
      omega
    rw [if_pos hl] at hlt
    cases e with
    | perform caller task =>
      obtain ⟨i, w, h⟩ := exists_of_launches hl
      obtain ⟨rfl, -⟩ := Queue.launched_request h
      obtain rfl : r = s.queue.rounds.length := by omega
      exact .inr ⟨caller, task, w, rfl, h⟩
    | finish i ending =>
      rcases h : s.queue.running? i with - | a <;> simp [step, h, settled, Answer.launches] at hl
    | _ => cases hl

/-! ### Ends -/

/-- Whether an event gives a round that has no result its result: it runs and
ends, or it was stopped, now or before, and somebody asks for its result. -/
def Ends (s : Service κ τ ν ε) (e : Event κ τ ν ε) (r : Nat) (a : Round κ τ ν ε) : Prop :=
  (a.status = .running ∧ ∃ ending, e = .finish r ending) ∨
    ((a.status = .killed ∨ e = .shutdown) ∧ ∃ w ∈ s.asked e, w.ticket = .round r)

/-- An event ends a round, which then has a result: that of its computation if
this ends by itself, and otherwise a cancellation. -/
def EndsWith (s : Service κ τ ν ε) (e : Event κ τ ν ε) (r : Nat) (a : Round κ τ ν ε)
    (result : Result ε ν) : Prop :=
  (a.status = .running ∧
      ∃ ending, e = .finish r ending ∧ ending.result (KeyText.text a.key) = result) ∨
    ((a.status = .killed ∨ a.status = .running ∧ e = .shutdown) ∧
      (∃ w ∈ s.asked e, w.ticket = .round r) ∧ cancellation a.key = result)

theorem EndsWith.result?_eq_none {s : Service κ τ ν ε} {e : Event κ τ ν ε} {r : Nat}
    {a : Round κ τ ν ε} {result : Result ε ν} (h : s.EndsWith e r a result) :
    a.result? = none := by
  rcases h with ⟨hrun, -⟩ | ⟨hkilled | ⟨hrun, -⟩, -⟩
  · exact Round.result?_of_running hrun
  · exact Round.result?_of_killed hkilled
  · exact Round.result?_of_running hrun

/-- An event that ends a round ends it with some result. -/
theorem ends_iff {s : Service κ τ ν ε} {e : Event κ τ ν ε} {r : Nat} {a : Round κ τ ν ε}
    (hn : a.result? = none) : s.Ends e r a ↔ ∃ result, s.EndsWith e r a result := by
  constructor
  · rintro (⟨hrun, ending, he⟩ | ⟨hstop, hw⟩)
    · exact ⟨_, .inl ⟨hrun, ending, he, rfl⟩⟩
    · refine ⟨_, .inr ⟨?_, hw, rfl⟩⟩
      obtain ⟨k, t, status⟩ := a
      cases status with
      | settled result => cases hn
      | killed => exact .inl rfl
      | running => exact .inr ⟨rfl, hstop.resolve_left (by simp)⟩
  · rintro ⟨result, ⟨hrun, ending, he, -⟩ | ⟨hstop, hw, -⟩⟩
    · exact .inl ⟨hrun, ending, he⟩
    · exact .inr ⟨hstop.imp_right And.right, hw⟩

/-- A round that had no result has one after an event exactly if the event has
ended it, and with this. -/
theorem result?_step_of_none {s : Service κ τ ν ε} {r : Nat} {a : Round κ τ ν ε}
    (ha : s.queue.Has r a) (hn : a.result? = none) (e : Event κ τ ν ε) {result : Result ε ν} :
    (s.step e).2.queue.result? r = some result ↔ s.EndsWith e r a result := by
  have hw : (∃ w ∈ s.asked e, w.ticket = .round r) ↔ (s.asked e).any (·.waitsFor r) = true := by
    simp only [List.any_eq_true, Waiter.waitsFor_iff]
  rw [(has_step ha e).result?, EndsWith, hw]
  obtain ⟨k, t, status⟩ := a
  cases status with
  | settled result => cases hn
  | killed =>
    -- no event touches a stopped round: it gets its result from being asked for
    have hk : (⟨k, t, .killed⟩ : Round κ τ ν ε).after r e = ⟨k, t, .killed⟩ := by
      cases e <;> rfl
    rw [hk]
    split <;> simp_all [Round.observed, Round.result?]
  | running =>
    -- its own ending gives it one, a shutdown only if somebody asks for it
    cases e with
    | finish i e =>
      by_cases hi : i = r
      · subst hi
        split <;> simp [Round.after, Round.observed, Round.result?]
      · split <;> simp [Round.after, Round.observed, Round.result?, hi]
    | shutdown =>
      split <;> simp_all [Round.after, Round.stopped, Round.observed, Round.result?]
    | _ => split <;> simp [Round.after, Round.observed, Round.result?]

/-- A round that ends has the result of its ending. -/
theorem result?_step_finish {s : Service κ τ ν ε} {r : Nat} {a : Round κ τ ν ε}
    (ha : s.queue.Has r a) (hrun : a.status = .running) (ending : Ending ε ν) :
    (s.step (.finish r ending)).2.queue.result? r
      = some (ending.result (KeyText.text a.key)) :=
  (result?_step_of_none ha (Round.result?_of_running hrun) _).mpr (.inl ⟨hrun, ending, rfl, rfl⟩)

theorem result?_step_ne_none_iff {s : Service κ τ ν ε} {r : Nat} {a : Round κ τ ν ε}
    (ha : s.queue.Has r a) (hn : a.result? = none) (e : Event κ τ ν ε) :
    (s.step e).2.queue.result? r ≠ none ↔ s.Ends e r a := by
  simp only [Option.ne_none_iff_exists', result?_step_of_none ha hn, ends_iff hn]

/-- A round that has a result after an event was there before. -/
theorem exists_has_of_result {s : Service κ τ ν ε} {e : Event κ τ ν ε} {r : Nat}
    {result : Result ε ν} (h : (s.step e).2.queue.result? r = some result) :
    ∃ a, s.queue.Has r a := by
  obtain ⟨b, hb, hres⟩ := Option.bind_eq_some_iff.mp h
  rcases exists_has_or_launched hb with ha | ⟨caller, task, w, rfl, hw⟩
  · exact ha
  · obtain rfl := Queue.Has.unique hb (has_launched caller hw)
    cases hres

/-- After an event a round has the result that it had, or the one with which the
event has ended it. -/
theorem result?_step_iff {s : Service κ τ ν ε} {e : Event κ τ ν ε} {r : Nat}
    {result : Result ε ν} :
    (s.step e).2.queue.result? r = some result ↔
      s.queue.result? r = some result ∨ ∃ a, s.queue.Has r a ∧ s.EndsWith e r a result := by
  constructor
  · intro h
    obtain ⟨a, ha⟩ := exists_has_of_result h
    rcases hn : a.result? with - | old
    · exact .inr ⟨a, ha, (result?_step_of_none ha hn e).mp h⟩
    · -- a result that is there stays
      have hold := ha.result?.trans hn
      obtain rfl := Option.some.inj (((s.grows_step e).result? hold).symm.trans h)
      exact .inl hold
  · rintro (h | ⟨a, ha, h⟩)
    · exact (s.grows_step e).result? h
    · exact (result?_step_of_none ha h.result?_eq_none e).mpr h

/-! ### Single flight -/

/-- **Single flight**: at every point of a run the registry lists exactly the
rounds that were launched and have no result, and there is at most one for a
key.  A request launches a round, which then runs, exactly if its key is
neither cached nor under way, so that of the rounds of one key each has its
result before the next is launched; and the entry of a round leaves the
registry in the step that ends this round, not in any that ends another. -/
theorem single_flight (limits : Limits) (metrics : Option TaskMetrics)
    (es : List (Event κ τ ν ε)) :
    let s := ((fresh limits metrics).run es).2
    (∀ k r, (k, r) ∈ s.queue.inFlight ↔ s.queue.Unfinished k r) ∧
    (∀ k r i, s.queue.Unfinished k r → s.queue.Unfinished k i → r = i) ∧
    (s.queue.inFlight.map (·.1)).Nodup ∧
    (∀ caller task, (s.step (.perform caller task)).1.answer.launches = true
      ↔ s.queue.cache.find? (Task.key task) = none
        ∧ ∀ r, ¬ s.queue.Unfinished (Task.key task) r) ∧
    (∀ caller task, (s.step (.perform caller task)).1.answer.launches = true →
      ∃ a, (s.step (.perform caller task)).2.queue.Has s.queue.rounds.length a ∧
        a.key = Task.key task ∧ a.status = .running) ∧
    (∀ e, (s.step e).2.queue.rounds.length
      = s.queue.rounds.length + (if (s.step e).1.answer.launches then 1 else 0)) ∧
    (∀ r i a b, s.queue.Has r a → s.queue.Has i b → a.key = b.key → r < i →
      a.result? ≠ none) ∧
    (∀ e k r a, s.queue.Has r a → (k, r) ∈ s.queue.inFlight →
      ((k, r) ∉ (s.step e).2.queue.inFlight ↔ s.Ends e r a)) := by
  intro s
  have h : s.queue.Registered := registered_run limits metrics es
  refine ⟨fun k r => h.mem_iff, fun k r i => h.unique, h.distinct, ?_,
    fun caller task => has_of_launches, s.length_rounds_step, fun r i a b => h.in_turn, ?_⟩
  · intro caller task
    rw [launches_iff, h.lookup_eq_none_iff]
  · intro e k r a ha hm
    obtain ⟨rfl, hn⟩ := ha.unfinished_iff.mp (h.mem_iff.mp hm)
    have h' : (s.step e).2.queue.Registered :=
      step_queue_induction (fun r h => h.poll r) (h.apply e)
    -- the entry is gone exactly if the round has a result now
    obtain ⟨b, hb, hab⟩ := (s.grows_step e).becomes ha
    rw [h'.mem_iff, hb.unfinished_iff, ← result?_step_ne_none_iff ha hn e, hb.result?]
    simp [hab.key]

end Service

end SlotStates
