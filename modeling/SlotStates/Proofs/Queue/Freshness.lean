/-
SlotStates/Proofs/Queue/Freshness.lean

The cache holds what was written last.

A value comes into the cache by two ways that know nothing of each other: it is
stored, or a round ends with it that may have been launched long before.  What
is cached under a key is nevertheless always the value that was written under
it last, and the key was not taken out since (`LastWritten`).  Conversely a key
under which something was written can be found missing for two reasons only:
it was named as one to be taken out, or it was evicted (`Evicts`).

Both follow from what one event does.  A value that is found after an event
was written by it, or was there before and the event did not touch upon it
(`writes_or_kept`); and a key that gets lost is named or evicted.

The main result is `cached_values_are_fresh`.
-/
import SlotStates.Proofs.Queue.Touches

namespace SlotStates

variable {κ τ ν ε : Type} [DecidableEq κ] [KeyText κ] [Task τ κ ν]

namespace Service

/-- A value was written under a key by the event of a number, and since then
nothing was written under this key, and it was not named as one to be taken
out. -/
def LastWritten (start : Service κ τ ν ε) (es : List (Event κ τ ν ε)) (k : κ) (v : ν) (n : Nat) :
    Prop :=
  start.Since (fun s e => s.Writes e k v) (fun s e => (∃ w, s.Writes e k w) ∨ e.names k = true) es n

/-! ### What is written, and what is there -/

/-- What is written is there. -/
theorem find?_step_of_writes {s : Service κ τ ν ε} {e : Event κ τ ν ε} {k : κ} {v : ν}
    (h : s.Writes e k v) : (s.step e).2.queue.cache.find? k = some v := by
  have hc := s.step_cache e
  generalize (s.step e).2.queue.cache = c at hc
  cases hc with
  | written writes =>
    obtain ⟨rfl, rfl⟩ := h.unique writes
    exact Cache.find?_put_self _ s.queue.limits.cacheSize.pos k v
  | used _ silent => exact absurd h (silent k v)
  | kept untouched => exact absurd (.written h) (untouched k)

/-- What is found after an event was written by it, or was there before and is
neither overwritten nor taken out. -/
theorem writes_or_kept {s : Service κ τ ν ε} {e : Event κ τ ν ε} {k : κ} {v : ν}
    (h : (s.step e).2.queue.cache.find? k = some v) :
    s.Writes e k v ∨
      s.queue.cache.find? k = some v ∧ ¬ ((∃ w, s.Writes e k w) ∨ e.names k = true) := by
  by_cases hw : ∃ w, s.Writes e k w
  · obtain ⟨w, hw⟩ := hw
    obtain rfl := Option.some.inj ((find?_step_of_writes hw).symm.trans h)
    exact .inl hw
  · have hc := s.step_cache e
    generalize (s.step e).2.queue.cache = c at hc h
    cases hc with
    | written writes =>
      rcases Cache.find?_put_eq_some h with ⟨rfl, rfl⟩ | h
      · exact .inl writes
      · exact .inr ⟨h, by simp [hw, (Touches.written writes).names_eq_false k]⟩
    | used touches =>
      rw [Cache.find?_promote] at h
      exact .inr ⟨h, by simp [hw, touches.names_eq_false k]⟩
    | kept =>
      rw [Cache.find?_without] at h
      by_cases hn : e.names k = true
      · rw [if_pos hn] at h
        cases h
      · rw [if_neg hn] at h
        exact .inr ⟨h, by simp [hw, hn]⟩

/-- What is cached was written last. -/
theorem lastWritten_of_cached (limits : Limits) (metrics : Option TaskMetrics)
    (es : List (Event κ τ ν ε)) {k : κ} {v : ν}
    (h : ((fresh limits metrics).run es).2.queue.cache.find? k = some v) :
    ∃ n, (fresh limits metrics).LastWritten es k v n :=
  exists_since (S := fun s => s.queue.cache.find? k = some v) (fun h => by cases h)
    (fun _ _ => writes_or_kept) h

/-! ### What was written, and is not there -/

/-- A cached key is dropped because a value is written under a key that is not
cached, and no place is free. -/
structure Evicts (s : Service κ τ ν ε) (e : Event κ τ ν ε) (k : κ) : Prop where
  cached : k ∈ s.queue.cache.keys
  written : ∃ a v, s.Writes e a v ∧ a ∉ s.queue.cache.keys
  full : s.queue.cache.size = s.queue.limits.cacheSize.val
  gone : k ∉ (s.step e).2.queue.cache.keys

/-- A key that is lost is named, or evicted. -/
theorem evicts_of_lost {s : Service κ τ ν ε} (h : s.queue.Tidy) {e : Event κ τ ν ε} {k : κ}
    (hk : k ∈ s.queue.cache.keys) (hk' : k ∉ (s.step e).2.queue.cache.keys)
    (hn : ¬ e.names k = true) : s.Evicts e k := by
  obtain ⟨a, v, -, hw, ha, hfull, -⟩ := evicted h hk hk' (Bool.eq_false_iff.mpr hn)
  exact ⟨hk, ⟨a, v, hw, ha⟩, (List.length_map ..).symm.trans hfull, hk'⟩

/-- A key under which something was written, and which was not named since, is
there unless it was evicted and nothing was written under it since. -/
theorem evicted_of_missing (limits : Limits) (metrics : Option TaskMetrics)
    (es : List (Event κ τ ν ε)) {k : κ} {n : Nat}
    (h : (fresh limits metrics).Since (fun s e => ∃ v, s.Writes e k v)
      (fun _ e => e.names k = true) es n)
    (hk : k ∉ ((fresh limits metrics).run es).2.queue.cache.keys) :
    ∃ m, n < m ∧
      (fresh limits metrics).Since (·.Evicts · k) (fun s e => ∃ v, s.Writes e k v) es m := by
  induction es using List.reverseRecOn with
  | nil => cases h.lt
  | append_singleton es e ih =>
    rw [run_concat_snd] at hk
    -- whatever is written by the last event is there
    have silent : ¬ ∃ v, ((fresh limits metrics).run es).2.Writes e k v := by
      rintro ⟨v, hv⟩
      exact hk (Cache.mem_keys_iff.mpr ⟨v, find?_step_of_writes hv⟩)
    rcases since_concat_iff.mp h with ⟨h, hname⟩ | ⟨-, hwritten⟩
    · by_cases hold : k ∈ ((fresh limits metrics).run es).2.queue.cache.keys
      · -- it is the last event by which it gets lost
        have hev := evicts_of_lost (tidy_run limits metrics es) hold hk hname
        exact ⟨es.length, h.lt, since_concat_iff.mpr (.inr ⟨rfl, hev⟩)⟩
      · obtain ⟨m, hm, hev⟩ := ih h hold
        exact ⟨m, hm, since_concat_iff.mpr (.inl ⟨hev, silent⟩)⟩
    · exact absurd hwritten silent

/-! ### What is handed out -/

/-- A value that a request finds is cached, and the caller is told it. -/
theorem cached_of_hit {s : Service κ τ ν ε} {caller : String} {task : τ} {v : ν}
    (h : (s.step (.perform caller task)).1.answer = .admitted (.hit v)) :
    s.queue.cache.find? (Task.key task) = some v ∧
      (caller, .ok v) ∈ (s.step (.perform caller task)).1.resolved := by
  have hr : (s.queue.request task).1 = .hit v := Answer.admitted.inj h
  constructor
  · have ht := s.queue.admitted_request task
    rw [hr] at ht
    generalize (s.queue.request task).2 = q' at ht
    cases ht with
    | hit found => exact found
  · have hres : (s.step (.perform caller task)).1.resolved
        = (pollAll (s.queue.request task).2
            (s.waiters ++ [⟨caller, ticket (s.queue.request task).1⟩])).resolved := rfl
    rw [hres, pollAll_resolved, hr, List.filterMap_append]
    exact List.mem_append_right _ (List.mem_singleton_self _)

/-- A request is answered by the cache exactly if its key is cached. -/
theorem hit_iff {s : Service κ τ ν ε} {caller : String} {task : τ} {v : ν} :
    (s.step (.perform caller task)).1.answer = .admitted (.hit v)
      ↔ s.queue.cache.find? (Task.key task) = some v :=
  ⟨fun h => (cached_of_hit h).1, fun h => congrArg Answer.admitted (Queue.request_of_cached h)⟩

/-- A base that a request finds is a cached ancestor, and the round that is
launched starts from its value. -/
theorem cached_of_rebased {s : Service κ τ ν ε} {caller : String} {task : τ} {r probed : Nat}
    {k : κ} {v : ν}
    (h : (s.step (.perform caller task)).1.answer = .admitted (.launched r ⟨probed, some (k, v)⟩)) :
    s.queue.cache.find? k = some v ∧ (∃ i, Task.ancestor? task i = some k) ∧
      ∃ a, (s.step (.perform caller task)).2.queue.Has r a ∧ a.key = Task.key task ∧
        a.task = Task.rebase task v := by
  have hr : (s.queue.request task).1 = .launched r ⟨probed, some (k, v)⟩ := Answer.admitted.inj h
  have ht := s.queue.admitted_request task
  rw [hr] at ht
  generalize hq : (s.queue.request task).2 = q' at ht
  cases ht with
  | launched missed idle searched prepared =>
    have hb : Walk.base ⟨probed, some (k, v)⟩ = some (k, v) := rfl
    obtain ⟨i, -, hi, found, -⟩ := Cache.walk_base ((congrArg Walk.base searched).trans hb)
    refine ⟨found, ⟨i, hi⟩, ?_⟩
    rw [hb] at prepared
    cases prepared with
    | rebased =>
      -- asking on behalf of callers changes neither key nor task
      have ha : (s.queue.request task).2.Has s.queue.rounds.length
          ⟨Task.key task, Task.rebase task v, .running⟩ := by
        rw [hq]
        exact (Queue.has_append_iff rfl).mpr (.inr ⟨rfl, rfl⟩)
      rw [step_queue]
      obtain ⟨a, ha', hab⟩ := (grows_pollAll (s.queue.request task).2 _).becomes ha
      exact ⟨a, ha', hab.key, hab.task⟩

/-- **The cache is fresh and loses nothing silently**: after every run no key
is cached twice, and no more are cached than the limit allows.  A value that is
cached under a key is the one that was last written under it, by storing it or
by a round for this key that ended with it, and no event since has named the
key as one to be taken out.  A key that was written and not named since is
missing only because it was evicted later, when a value was written under a key
that was not cached and no place was free, and nothing was written under it
again.

A request is answered by the cache exactly if its key is cached, and a look into
the cache and a removal answer what is cached.  Hence whatever a request finds,
a look into the cache, a removal or the search for a base is the value that was
last written under its key. -/
theorem cached_values_are_fresh (limits : Limits) (metrics : Option TaskMetrics)
    (es : List (Event κ τ ν ε)) :
    let start : Service κ τ ν ε := fresh limits metrics
    let s := (start.run es).2
    (s.queue.cache.keys.Nodup ∧ s.queue.cache.size ≤ limits.cacheSize.val) ∧
    (∀ k v, s.queue.cache.find? k = some v → ∃ n, start.LastWritten es k v n) ∧
    (∀ k n, start.Since (fun s e => ∃ v, s.Writes e k v) (fun _ e => e.names k = true) es n →
      s.queue.cache.find? k = none →
      ∃ m, n < m ∧ start.Since (·.Evicts · k) (fun s e => ∃ v, s.Writes e k v) es m) ∧
    ((∀ caller task v, (s.step (.perform caller task)).1.answer = .admitted (.hit v)
        ↔ s.queue.cache.find? (Task.key task) = some v) ∧
      (∀ k, (s.step (.get k)).1.answer = .value (s.queue.cache.find? k)) ∧
      ∀ k, (s.step (.remove k)).1.answer = .value (s.queue.cache.find? k)) ∧
    (∀ caller task v, (s.step (.perform caller task)).1.answer = .admitted (.hit v) →
      (∃ n, start.LastWritten es (Task.key task) v n) ∧
        (caller, .ok v) ∈ (s.step (.perform caller task)).1.resolved) ∧
    (∀ k v, (s.step (.get k)).1.answer = .value (some v) → ∃ n, start.LastWritten es k v n) ∧
    (∀ k v, (s.step (.remove k)).1.answer = .value (some v) → ∃ n, start.LastWritten es k v n) ∧
    (∀ caller task r probed k v,
      (s.step (.perform caller task)).1.answer = .admitted (.launched r ⟨probed, some (k, v)⟩) →
      (∃ n, start.LastWritten es k v n) ∧ (∃ i, Task.ancestor? task i = some k) ∧
        ∃ a, (s.step (.perform caller task)).2.queue.Has r a ∧ a.key = Task.key task ∧
          a.task = Task.rebase task v) := by
  intro start s
  have tidy : s.queue.Tidy := tidy_run limits metrics es
  have fresh : ∀ {k v}, s.queue.cache.find? k = some v → ∃ n, start.LastWritten es k v n :=
    lastWritten_of_cached limits metrics es
  refine ⟨⟨tidy.distinct, ?_⟩, fun k v => fresh, ?_,
    ⟨fun caller task v => hit_iff, fun k => rfl, fun k => rfl⟩, ?_, ?_, ?_, ?_⟩
  · have hl := tidy.length_keys_le
    rwa [limits_run, Cache.keys, List.length_map] at hl
  · intro k n h hk
    exact evicted_of_missing limits metrics es h (Cache.not_mem_keys_iff.mpr hk)
  · intro caller task v h
    obtain ⟨found, told⟩ := cached_of_hit h
    exact ⟨fresh found, told⟩
  · intro k v h
    exact fresh (Answer.value.inj h)
  · intro k v h
    exact fresh (Answer.value.inj h)
  · intro caller task r probed k v h
    obtain ⟨found, ancestor, launched⟩ := cached_of_rebased h
    exact ⟨fresh found, ancestor, launched⟩

end Service

end SlotStates
