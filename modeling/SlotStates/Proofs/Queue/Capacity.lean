/-
SlotStates/Proofs/Queue/Capacity.lean

How many values a cache holds matters only when there are more.

Values are written under the keys for which rounds are launched and under those
under which values are stored.  So all keys that are ever cached in a run are
among those that its events request or store (`Event.subject?`); the invariant
that says so is soundness with respect to a set of keys (`Queue.Among`).  Where
these are not more than fit, no write drops anything, and a write comes to the
same whatever the capacity is (`Cache.put_of_fits`).

Two services that differ in their limits only (`Service.under`), and look back
as far as each other, then go through the same steps.  Each event has to be
looked at once for this (`step_under`): capacity is read in two places, where a
value is stored and where a round ends with one.

Main result: `capacity_matters_only_when_exceeded`.
-/
import SlotStates.Proofs.Queue.Completion
import SlotStates.Proofs.Queue.Values

namespace SlotStates

variable {κ τ ν ε : Type} [DecidableEq κ]

/-! ### Writes that drop nothing -/

/-- Where there is room for a key, a write drops nothing. -/
theorem Cache.put_of_fits {c : Cache κ ν} (h : c.Distinct) {capacity : Nat} {k : κ}
    (hfits : (insert k c.keys.toFinset).card ≤ capacity) (v : ν) :
    c.put capacity k v = ⟨(k, v) :: (c.erase k).entries⟩ := by
  have hl : ((k, v) :: (c.erase k).entries).length = (k :: c.keys.filter (· ≠ k)).length := by
    rw [← keys_erase, List.length_cons, List.length_cons, keys, List.length_map]
  rw [put, List.take_of_length_le]
  rwa [hl, length_front h]

/-! ### Other limits -/

namespace Queue

/-- The queue under other limits. -/
def under (q : Queue κ τ ν ε) (limits : Limits) : Queue κ τ ν ε := { q with limits }

/-- A request reads only how far a task looks back. -/
theorem request_under [Task τ κ ν] (q : Queue κ τ ν ε) {limits : Limits}
    (h : limits.walk = q.limits.walk) (t : τ) :
    (q.under limits).request t = ((q.request t).1, (q.request t).2.under limits) := by
  have hsteps : limits.maxSteps = q.limits.maxSteps := by rw [Limits.maxSteps, Limits.maxSteps, h]
  unfold request
  simp only [under, hsteps]
  rcases q.cache.find? (Task.key t) with - | v
  · rcases q.inFlight.lookup (Task.key t) with - | r
    · rcases q.cache.walk (Task.ancestor? t) q.limits.maxSteps with ⟨n, - | ⟨a, v⟩⟩ <;> rfl
    · rfl
  · rfl

/-- Settling a round reads how many values are cached only if it has one. -/
theorem settle_under (q : Queue κ τ ν ε) {limits : Limits} (r : Nat) (a : Round κ τ ν ε)
    {result : Result ε ν}
    (h : ∀ v, result = .ok v → q.cache.put limits.cacheSize.val a.key v
      = q.cache.put q.limits.cacheSize.val a.key v) :
    (q.under limits).settle r a result = (q.settle r a result).under limits := by
  cases result with
  | error e => rfl
  | ok v => simp only [settle, complete, keep, under, h v rfl, updateSizes]

/-- A cancellation writes nothing. -/
theorem poll_under [KeyText κ] (q : Queue κ τ ν ε) (limits : Limits) (r : Nat) :
    (q.under limits).poll r = ((q.poll r).1, (q.poll r).2.under limits) := by
  have hkilled : (q.under limits).killed? r = q.killed? r := rfl
  rcases hr : q.killed? r with - | a
  · have hsnd : ((q.under limits).poll r).2 = (q.poll r).2.under limits := by
      rw [poll_of_not_killed hr, poll_of_not_killed (hkilled.trans hr)]
    exact Prod.ext (by rw [poll_fst, poll_fst]; rfl) hsnd
  · rw [poll_of_killed hr, poll_of_killed (hkilled.trans hr)]
    exact Prod.ext rfl (settle_under q r a fun v h => by cases h)

end Queue

namespace Service

variable [KeyText κ]

/-- The service under other limits. -/
def under (s : Service κ τ ν ε) (limits : Limits) : Service κ τ ν ε :=
  { s with queue := s.queue.under limits }

theorem pollAll_under (q : Queue κ τ ν ε) (limits : Limits) (ws : List (Waiter ν)) :
    pollAll (q.under limits) ws
      = { pollAll q ws with queue := (pollAll q ws).queue.under limits } := by
  induction ws generalizing q with
  | nil => rfl
  | cons w ws ih =>
    have hnotes : redeemNotes (q.under limits) w.ticket = redeemNotes q w.ticket := rfl
    have hredeem : redeem (q.under limits) w.ticket
        = ((redeem q w.ticket).1, (redeem q w.ticket).2.under limits) := by
      rcases w.ticket with v | r
      · rfl
      · exact q.poll_under limits r
    rw [pollAll, pollAll, hnotes, hredeem]
    rcases redeem q w.ticket with ⟨- | result, q'⟩ <;> simp only [ih]

theorem settled_under (q : Queue κ τ ν ε) (limits : Limits) (ws : List (Waiter ν))
    (answer : Answer κ ν) (notes : List (Note κ)) :
    settled (q.under limits) ws answer notes
      = ((settled q ws answer notes).1, (settled q ws answer notes).2.under limits) := by
  simp only [settled, pollAll_under]
  rfl

variable [Task τ κ ν]

/-- Under other limits an event leads to the same, if tasks look back as far
and what it writes leaves the same cache. -/
theorem step_under (s : Service κ τ ν ε) {limits : Limits}
    (hwalk : limits.walk = s.queue.limits.walk) {e : Event κ τ ν ε}
    (hput : ∀ k v, s.Writes e k v → s.queue.cache.put limits.cacheSize.val k v
      = s.queue.cache.put s.queue.limits.cacheSize.val k v) :
    (s.under limits).step e = ((s.step e).1, (s.step e).2.under limits) := by
  cases e with
  | perform caller task =>
    simp only [step, under, s.queue.request_under hwalk, settled_under]
  | finish r ending =>
    have hrunning : (s.under limits).queue.running? r = s.queue.running? r := rfl
    simp only [step, hrunning]
    rcases hr : s.queue.running? r with - | a
    · rfl
    · obtain ⟨ha, hs⟩ := Queue.running?_eq_some_iff.mp hr
      have hfinish : (s.under limits).queue.finish r ending
          = (s.queue.finish r ending).under limits := by
        rw [Queue.finish_of_running hr, Queue.finish_of_running (hrunning.trans hr)]
        refine s.queue.settle_under r a fun v hv => hput a.key v ?_
        cases ending with
        | returned w =>
          obtain rfl := Except.ok.inj hv
          exact .computed ha hs
        | failed error => cases hv
        | panicked => cases hv
      simp only [hfinish]
      exact settled_under ..
  | shutdown => exact settled_under s.queue.shutdown limits s.waiters .silent []
  | store k v =>
    simp only [step, under, Queue.store, Queue.under, hput k v .stored, Queue.updateSizes]
  | _ => rfl

end Service

/-! ### The keys of a run -/

/-- The key that an event requests, or under which it stores a value. -/
def Event.subject? [Task τ κ ν] : Event κ τ ν ε → Option κ
  | .perform _ task => some (Task.key task)
  | .store k _ => some k
  | _ => none

/-- The keys that some events request or under which they store values. -/
def subjects [Task τ κ ν] (es : List (Event κ τ ν ε)) : Finset κ :=
  (es.filterMap Event.subject?).toFinset

theorem subjects_concat_subset_iff [Task τ κ ν] {es : List (Event κ τ ν ε)} {e : Event κ τ ν ε}
    {ks : Finset κ} :
    subjects (es ++ [e]) ⊆ ks ↔ subjects es ⊆ ks ∧ ∀ k, e.subject? = some k → k ∈ ks := by
  have hlast : (∀ k ∈ [e].filterMap Event.subject?, k ∈ ks)
      ↔ ∀ k, e.subject? = some k → k ∈ ks := by
    simp
  rw [← hlast]
  simp only [subjects, List.filterMap_append, List.toFinset_append, Finset.union_subset_iff]
  refine and_congr_right fun _ => ?_
  simp only [Finset.subset_iff, List.mem_toFinset]

/-- All keys that are cached, and those of all rounds, are among some. -/
abbrev Queue.Among [KeyText κ] (ks : Finset κ) (q : Queue κ τ ν ε) : Prop :=
  q.Sound (fun k _ => k ∈ ks) (fun k _ => k ∈ ks)

namespace Service

variable [KeyText κ] [Task τ κ ν]

/-- An event brings in the key that it requests or stores, and otherwise keys of
rounds that were launched before. -/
theorem accepts_of_among {ks : Finset κ} {q : Queue κ τ ν ε} (h : q.Among ks)
    {e : Event κ τ ν ε} (he : ∀ k, e.subject? = some k → k ∈ ks) :
    q.Accepts (fun k _ => k ∈ ks) (fun k _ => k ∈ ks) e := by
  cases e with
  | perform caller task => exact ⟨he _ rfl, fun _ _ _ _ _ => he _ rfl⟩
  | finish r ending => exact fun a ha _ => h.tasks ha
  | shutdown => exact fun r a ha _ => h.tasks ha
  | store k v => exact he k rfl
  | _ => trivial

theorem among_run (limits : Limits) (metrics : Option TaskMetrics) {ks : Finset κ}
    {es : List (Event κ τ ν ε)} (h : subjects es ⊆ ks) :
    ((fresh limits metrics).run es).2.queue.Among ks := by
  induction es using List.reverseRecOn with
  | nil => exact Queue.sound_fresh limits metrics
  | append_singleton es e ih =>
    obtain ⟨hes, he⟩ := subjects_concat_subset_iff.mp h
    rw [run_concat_snd]
    exact sound_step (ih hes) (accepts_of_among (ih hes) he)

omit [Task τ κ ν] in
/-- Where a set of keys fits, a write under one of them drops nothing. -/
theorem put_of_among {ks : Finset κ} {q : Queue κ τ ν ε} (h : q.Among ks) (hd : q.cache.Distinct)
    {k : κ} (hk : k ∈ ks) {capacity : Nat} (hfits : ks.card ≤ capacity) (v : ν) :
    q.cache.put capacity k v = ⟨(k, v) :: (q.cache.erase k).entries⟩ := by
  refine Cache.put_of_fits hd (Nat.le_trans (Finset.card_le_card ?_) hfits) v
  refine Finset.insert_subset hk fun a ha => ?_
  obtain ⟨w, hw⟩ := Cache.mem_keys_iff.mp (List.mem_toFinset.mp ha)
  exact h.cached hw

/-- What an event writes has the key that the event stores, or that of a round. -/
theorem mem_of_writes {ks : Finset κ} {s : Service κ τ ν ε} (h : s.queue.Among ks)
    {e : Event κ τ ν ε} (he : ∀ k, e.subject? = some k → k ∈ ks) {k : κ} {v : ν}
    (hw : s.Writes e k v) : k ∈ ks := by
  cases hw with
  | stored => exact he k rfl
  | computed has => exact h.tasks has

/-! ### Two runs -/

/-- Where all keys of a run fit under one limit and under the other, the run
leads to the same. -/
theorem run_under {limits limits' : Limits} (hwalk : limits'.walk = limits.walk)
    (metrics : Option TaskMetrics) {ks : Finset κ} (hfits : ks.card ≤ limits.cacheSize.val)
    (hfits' : ks.card ≤ limits'.cacheSize.val) {es : List (Event κ τ ν ε)}
    (hes : subjects es ⊆ ks) :
    (fresh limits' metrics : Service κ τ ν ε).run es
      = (((fresh limits metrics).run es).1, ((fresh limits metrics).run es).2.under limits') := by
  induction es using List.reverseRecOn with
  | nil => rfl
  | append_singleton es e ih =>
    obtain ⟨hpast, he⟩ := subjects_concat_subset_iff.mp hes
    have hamong := among_run limits metrics hpast
    have hdistinct := (tidy_run limits metrics es).distinct
    have hlimits : ((fresh limits metrics).run es).2.queue.limits = limits := limits_run _ es
    have hreach : limits'.walk = ((fresh limits metrics).run es).2.queue.limits.walk :=
      hwalk.trans (congrArg Limits.walk hlimits.symm)
    have hstep := step_under ((fresh limits metrics).run es).2 hreach (e := e) fun k v hw => by
      have hk := mem_of_writes hamong he hw
      rw [put_of_among hamong hdistinct hk hfits', hlimits, put_of_among hamong hdistinct hk hfits]
    rw [run_concat, run_concat, ih hpast, hstep]

/-- **Capacity matters only when it is exceeded**: take two services whose tasks
look back equally far, and events that request and store no more distinct keys
than fit into either cache.  Event by event the two answer, note and tell their
callers the same; and after each event they differ in their limits only: the
same values are cached and in the same order, the same keys are in flight, the
rounds, the metrics and those who wait are the same. -/
theorem capacity_matters_only_when_exceeded {limits limits' : Limits}
    (hwalk : limits'.walk = limits.walk) (metrics : Option TaskMetrics)
    {es : List (Event κ τ ν ε)} (h : (subjects es).card ≤ limits.cacheSize.val)
    (h' : (subjects es).card ≤ limits'.cacheSize.val) :
    let start : Service κ τ ν ε := fresh limits metrics
    let start' : Service κ τ ν ε := fresh limits' metrics
    (start'.run es).1 = (start.run es).1 ∧
      ∀ n, (start'.run (es.take n)).2 = (start.run (es.take n)).2.under limits' := by
  intro start start'
  have hrun := run_under hwalk metrics h h' (Finset.Subset.refl (subjects es))
  refine ⟨hrun ▸ rfl, fun n => ?_⟩
  have htake : subjects (es.take n) ⊆ subjects es := fun k hk => by
    rw [subjects, List.mem_toFinset] at hk ⊢
    exact ((List.take_sublist n es).filterMap _).subset hk
  have hpast := run_under hwalk metrics h h' htake
  exact hpast ▸ rfl

/-- A queue of scripted tasks with room for a number of values. -/
def withRoom (n : Limit) : Service UInt64 Script.Job Script.Value Script.Error :=
  fresh { Limits.standard with cacheSize := n } (some (.fresh "queue"))

/-- Events by which three values are written.  Three is computed from one, and
when the cache for three is full one is written again. -/
def threeKeys : List (Event UInt64 Script.Job Script.Value Script.Error) :=
  [.store 1 ⟨⟨1, 0⟩, none⟩, .perform "a" ⟨3, .succeed, true, none, none⟩,
    .finish 0 (.returned ⟨⟨3, 1⟩, some ⟨1, 0⟩⟩), .store 5 ⟨⟨5, 0⟩, none⟩, .get 3,
    .store 1 ⟨⟨1, 2⟩, none⟩, .perform "b" ⟨5, .succeed, true, none, none⟩]

/-- Three values are handled in a cache for three as in one for more. -/
theorem three_values_fit_three :
    let three : Limit := ⟨3, by decide, by decide⟩
    let many : Limit := ⟨1000, by decide, by decide⟩
    ((subjects threeKeys).card ≤ three.val ∧ (subjects threeKeys).card ≤ many.val) ∧
      ((withRoom three).run threeKeys).1 = ((withRoom many).run threeKeys).1 ∧
      ((withRoom three).run (threeKeys.take 6)).2.queue.cache.keys = [1, 3, 5] := by
  intro three many
  have h : (subjects threeKeys).card = 3 := by decide
  have h3 : (subjects threeKeys).card ≤ three.val := h.le
  have hmany : (subjects threeKeys).card ≤ many.val := h.trans_le (by decide)
  have hwalk : ({ Limits.standard with cacheSize := three } : Limits).walk
      = ({ Limits.standard with cacheSize := many } : Limits).walk := rfl
  obtain ⟨hreports, hstates⟩ :=
    capacity_matters_only_when_exceeded hwalk (some (.fresh "queue")) hmany h3
  refine ⟨⟨h3, hmany⟩, hreports, ?_⟩
  -- so it is enough to look at the larger cache
  have hkeys : ((withRoom many).run (threeKeys.take 6)).2.queue.cache.keys = [1, 3, 5] := by decide
  exact (congrArg (·.queue.cache.keys) (hstates 6)).trans hkeys

end Service

end SlotStates
