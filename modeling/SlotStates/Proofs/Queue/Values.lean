/-
SlotStates/Proofs/Queue/Values.lean

What holds of everything a queue hands out.

Say which results may be kept for a key (`Kept`) and which tasks may be
launched for it (`Fit`).  If every event brings in only such results and tasks
(`Queue.Accepts`), then all there ever is in the cache, in the rounds and in
the hands of callers is of this kind: a value that is written may be kept, a
value that is found in the cache was written, a task is rebased onto a value
that was found, and a caller is told the value it found or the result of a
round of its own key (`sound_run`, `told_kept`).

Results come in by the endings of rounds only, and by shutdowns, after which
rounds are cancelled when they are asked for; so a shutdown must be able to
bring a cancellation.
-/
import SlotStates.Proofs.Queue.Calls

namespace SlotStates

variable {κ τ ν ε : Type} [DecidableEq κ] [KeyText κ]
variable {Kept : κ → Result ε ν → Prop} {Fit : κ → τ → Prop}

namespace Queue

/-- All values and results may be kept, also the cancellations that are still
to come, and all tasks are fit for their keys. -/
structure Sound (Kept : κ → Result ε ν → Prop) (Fit : κ → τ → Prop) (q : Queue κ τ ν ε) :
    Prop where
  cached : ∀ {k v}, q.cache.find? k = some v → Kept k (.ok v)
  settled : ∀ {r a result}, q.Has r a → a.result? = some result → Kept a.key result
  killed : ∀ {r a}, q.Has r a → a.status = .killed → Kept a.key (cancellation a.key)
  tasks : ∀ {r a}, q.Has r a → Fit a.key a.task

/-- An event brings in only what may be kept, and only tasks that are fit, also
after they are rebased onto a value that may be kept. -/
def Accepts [Task τ κ ν] (Kept : κ → Result ε ν → Prop) (Fit : κ → τ → Prop)
    (q : Queue κ τ ν ε) : Event κ τ ν ε → Prop
  | .perform _ task =>
    Fit (Task.key task) task ∧
      ∀ i k v, Task.ancestor? task i = some k → Kept k (.ok v) →
        Fit (Task.key task) (Task.rebase task v)
  | .finish r e =>
    ∀ a, q.Has r a → a.status = .running → Kept a.key (e.result (KeyText.text a.key))
  | .shutdown => ∀ r a, q.Has r a → a.status = .running → Kept a.key (cancellation a.key)
  | .store k v => Kept k (.ok v)
  | _ => True

theorem sound_fresh (limits : Limits) (metrics : Option TaskMetrics) :
    (fresh limits metrics : Queue κ τ ν ε).Sound Kept Fit where
  cached h := by cases h
  settled h := by cases h
  killed h := by cases h
  tasks h := by cases h

/-- Whatever leaves the rounds alone and writes nothing into the cache. -/
theorem Sound.congr {q q' : Queue κ τ ν ε} (h : q.Sound Kept Fit) (hr : q'.rounds = q.rounds)
    (hc : ∀ {k v}, q'.cache.find? k = some v → Kept k (.ok v)) : q'.Sound Kept Fit := by
  obtain ⟨limits, cache, inFlight, rounds, metrics⟩ := q
  obtain ⟨limits', cache', inFlight', rounds', metrics'⟩ := q'
  obtain rfl : rounds' = rounds := hr
  exact ⟨hc, h.settled, h.killed, h.tasks⟩

theorem Sound.request [Task τ κ ν] {q : Queue κ τ ν ε} (h : q.Sound Kept Fit) {caller : String}
    {task : τ} (ha : q.Accepts Kept Fit (.perform caller task)) :
    (q.request task).2.Sound Kept Fit := by
  obtain ⟨hfit, hrebase⟩ := ha
  have ht := q.admitted_request task
  generalize (q.request task).1 = admission, (q.request task).2 = q' at ht
  cases ht with
  | hit =>
    exact h.congr rfl fun hv => h.cached ((Cache.find?_promote _ _ _).symm.trans hv)
  | joined => exact h.congr rfl h.cached
  | @launched w c o t' _ _ searched prepared =>
    generalize hb : w.base = base at prepared
    have hc : ∀ k, c.find? k = q.cache.find? k := by
      cases prepared with
      | rebased => exact Cache.find?_promote _ _
      | fresh => exact fun k => rfl
    have ht' : Fit (Task.key task) t' := by
      cases prepared with
      | fresh => exact hfit
      | rebased =>
        obtain ⟨i, -, hi, hv, -⟩ := Cache.walk_base ((congrArg Walk.base searched).trans hb)
        exact hrebase i _ _ hi (h.cached hv)
    -- the round that is new has no result and was not stopped
    refine ⟨fun hv => h.cached ((hc _).symm.trans hv), ?_, ?_, ?_⟩
    · intro r a result hr hs
      rcases (has_append_iff rfl).mp hr with hr | ⟨-, rfl⟩
      · exact h.settled hr hs
      · cases hs
    · intro r a hr hs
      rcases (has_append_iff rfl).mp hr with hr | ⟨-, rfl⟩
      · exact h.killed hr hs
      · cases hs
    · intro r a hr
      rcases (has_append_iff rfl).mp hr with hr | ⟨-, rfl⟩
      · exact h.tasks hr
      · exact ht'

/-- A round can be settled with a result that may be kept. -/
theorem Sound.settle {q : Queue κ τ ν ε} (h : q.Sound Kept Fit) {r : Nat} {a : Round κ τ ν ε}
    (ha : q.Has r a) {result : Result ε ν} (hk : Kept a.key result) :
    (q.settle r a result).Sound Kept Fit where
  cached {k v} hv := by
    rw [cache_settle] at hv
    cases result with
    | error e => exact h.cached hv
    | ok w =>
      rcases Cache.find?_put_eq_some hv with ⟨rfl, rfl⟩ | hv
      · exact hk
      · exact h.cached hv
  settled hb hs := by
    rcases (has_settle_iff ha).mp hb with ⟨-, rfl⟩ | ⟨-, hb⟩
    · obtain rfl := Option.some.inj hs
      exact hk
    · exact h.settled hb hs
  killed hb hs := by
    rcases (has_settle_iff ha).mp hb with ⟨-, rfl⟩ | ⟨-, hb⟩
    · cases hs
    · exact h.killed hb hs
  tasks hb := by
    rcases (has_settle_iff ha).mp hb with ⟨-, rfl⟩ | ⟨-, hb⟩
    · exact (h.tasks ha : Fit a.key a.task)
    · exact h.tasks hb

theorem Sound.shutdown {q : Queue κ τ ν ε} (h : q.Sound Kept Fit)
    (hc : ∀ r a, q.Has r a → a.status = .running → Kept a.key (cancellation a.key)) :
    q.shutdown.Sound Kept Fit where
  cached hv := h.cached hv
  settled hb hs := by
    obtain ⟨a, ha, rfl⟩ := has_shutdown_iff.mp hb
    rw [a.result?_stopped] at hs
    rw [a.becomes_stopped.key]
    exact h.settled ha hs
  killed hb hs := by
    obtain ⟨a, ha, rfl⟩ := has_shutdown_iff.mp hb
    rw [a.becomes_stopped.key]
    -- it ran until now, or was stopped before
    rcases hr : a.status with - | - | result
    · exact hc _ a ha hr
    · exact h.killed ha hr
    · rw [Round.stopped, hr] at hs
      cases hr.symm.trans hs
  tasks hb := by
    obtain ⟨a, ha, rfl⟩ := has_shutdown_iff.mp hb
    rw [a.becomes_stopped.key, a.becomes_stopped.task]
    exact h.tasks ha

theorem Sound.poll {q : Queue κ τ ν ε} (h : q.Sound Kept Fit) (r : Nat) :
    (q.poll r).2.Sound Kept Fit :=
  poll_induction h (fun ha hk => h.settle ha (h.killed ha hk)) r

theorem Sound.apply [Task τ κ ν] {q : Queue κ τ ν ε} (h : q.Sound Kept Fit) {e : Event κ τ ν ε}
    (he : q.Accepts Kept Fit e) : (q.apply e).Sound Kept Fit := by
  cases e with
  | perform caller task => exact h.request he
  | finish r e =>
    rcases hr : q.running? r with - | a
    · show (q.finish r e).Sound Kept Fit
      rwa [finish_of_not_running hr]
    · obtain ⟨ha, hs⟩ := running?_eq_some_iff.mp hr
      show (q.finish r e).Sound Kept Fit
      rw [finish_of_running hr]
      exact h.settle ha (he a ha hs)
  | drop caller => exact h
  | shutdown => exact h.shutdown he
  | get k => exact h.congr rfl fun hv => h.cached ((Cache.find?_promote _ _ _).symm.trans hv)
  | store k v =>
    refine h.congr rfl fun {k' v'} hv => ?_
    rcases Cache.find?_put_eq_some hv with ⟨rfl, rfl⟩ | hv
    · exact he
    · exact h.cached hv
  | remove k =>
    refine h.congr rfl fun {k' v'} hv => ?_
    have hv : (q.cache.erase k).find? k' = some v' := hv
    rw [Cache.find?_erase] at hv
    split at hv
    · cases hv
    · exact h.cached hv
  | prune p =>
    refine h.congr rfl fun {k' v'} hv => ?_
    have hv : (q.cache.eraseAll (q.cache.keys.filter p)).find? k' = some v' := hv
    rw [Cache.find?_eraseAll] at hv
    split at hv
    · cases hv
    · exact h.cached hv
  | clear => exact h.congr rfl fun hv => by cases hv

end Queue

/-! ### Runs -/

variable [Task τ κ ν]

namespace Service

/-- Each event of a run is acceptable when it happens. -/
def Accepts (Kept : κ → Result ε ν → Prop) (Fit : κ → τ → Prop) (s : Service κ τ ν ε) :
    List (Event κ τ ν ε) → Prop
  | [] => True
  | e :: es => s.queue.Accepts Kept Fit e ∧ (s.step e).2.Accepts Kept Fit es

theorem accepts_append {s : Service κ τ ν ε} {es fs : List (Event κ τ ν ε)} :
    s.Accepts Kept Fit (es ++ fs) ↔ s.Accepts Kept Fit es ∧ (s.run es).2.Accepts Kept Fit fs := by
  induction es generalizing s with
  | nil => exact ⟨fun h => ⟨trivial, h⟩, And.right⟩
  | cons e es ih => exact (and_congr_right fun _ => ih).trans and_assoc.symm

theorem sound_step {s : Service κ τ ν ε} (h : s.queue.Sound Kept Fit) {e : Event κ τ ν ε}
    (he : s.queue.Accepts Kept Fit e) : (s.step e).2.queue.Sound Kept Fit :=
  step_queue_induction (fun r h => h.poll r) (h.apply he)

theorem sound_run {s : Service κ τ ν ε} (h : s.queue.Sound Kept Fit) {es : List (Event κ τ ν ε)}
    (hes : s.Accepts Kept Fit es) : (s.run es).2.queue.Sound Kept Fit := by
  induction es generalizing s with
  | nil => exact h
  | cons e es ih => exact ih (sound_step h hes.1) hes.2

end Service

namespace Ledger

/-- Callers are told only what may be kept for the key they asked for. -/
theorem told_kept (limits : Limits) (metrics : Option TaskMetrics) {es : List (Event κ τ ν ε)}
    (hes : (Service.fresh limits metrics).Accepts Kept Fit es) :
    ∀ t ∈ (after limits metrics es).told, Kept t.1.key t.2 := by
  induction es using List.reverseRecOn with
  | nil =>
    intro t ht
    cases ht
  | append_singleton es e ih =>
    rintro ⟨c, result⟩ ht
    obtain ⟨hes, he, -⟩ := Service.accepts_append.mp hes
    have h := faithful_after limits metrics es
    have hsound := Service.sound_run (Queue.sound_fresh limits metrics) hes
    rw [← service_after] at he hsound
    rw [after_concat] at ht
    -- told before, or now: a value that was found, or the result of a round
    rcases mem_told_step_iff.mp ht with ht | ⟨hc, ho⟩
    · exact ih hes _ ht
    · rcases hticket : c.waiter.ticket with v | r
      · rw [hticket] at ho
        obtain rfl := Option.some.inj ho
        exact hsound.cached (h.find?_of_ready hc hticket)
      · have hk : c ∈ ((after limits metrics es).step e).known :=
          List.mem_append_left _ (List.mem_map_of_mem ht)
        obtain ⟨a, ha, hkey⟩ := (h.step e).belongs c hk r hticket
        rw [hticket] at ho
        rw [← hkey]
        exact (Service.sound_step hsound he).settled ha (ha.result?.symm.trans ho)

end Ledger

end SlotStates
