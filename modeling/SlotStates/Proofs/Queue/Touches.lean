/-
SlotStates/Proofs/Queue/Touches.lean

What an event does to the cache.

A value comes into the cache when it is stored there or when a round ends with
it (`Writes`).  A key is touched when it is written, found by a request or by
looking, or chosen as the base of a round (`Touches`), and events name keys
that are to be taken out (`Event.names`).

Whatever else an event does, to the cache it does one of three things: it
writes a value, it promotes a key that it touches, or it takes out the keys
that it names (`step_cache`).  Asking on behalf of callers does nothing to the
cache, since all it may bring is a cancellation.

As lists of keys there are two cases only, and this is how the order is known:
a touched key goes to the front and all others stay as they are, save for one
that no longer fits (`keys_step_of_touches`); and an event that touches nothing
leaves the others as they are (`keys_step_of_not_touches`).  A key that is lost
without being named was the last one of a full cache, and what took its place
was written under a key that was not there (`evicted`).
-/
import SlotStates.Proofs.Queue.Accounts
import SlotStates.Proofs.Queue.History

namespace SlotStates

variable {κ τ ν ε : Type} [DecidableEq κ]

/-- Whether an event names a key as one to be taken out of the cache. -/
def Event.names : Event κ τ ν ε → κ → Bool
  | .remove a, k => k = a
  | .prune p, k => p k
  | .clear, _ => true
  | _, _ => false

namespace Service

/-- An event writes a value into the cache: the value is stored there, or a
round that is under way ends with it. -/
inductive Writes (s : Service κ τ ν ε) : Event κ τ ν ε → κ → ν → Prop
  | stored {k : κ} {v : ν} : Writes s (.store k v) k v
  | computed {r : Nat} {a : Round κ τ ν ε} {v : ν} (has : s.queue.Has r a)
      (running : a.status = .running) : Writes s (.finish r (.returned v)) a.key v

variable [Task τ κ ν]

/-- An event touches a key: it writes a value under it, finds its value, or
takes its value as a base. -/
inductive Touches (s : Service κ τ ν ε) : Event κ τ ν ε → κ → Prop
  | written {e : Event κ τ ν ε} {k : κ} {v : ν} (writes : s.Writes e k v) : Touches s e k
  | hit {caller : String} {task : τ} {v : ν}
      (found : s.queue.cache.find? (Task.key task) = some v) :
      Touches s (.perform caller task) (Task.key task)
  | got {k : κ} {v : ν} (found : s.queue.cache.find? k = some v) : Touches s (.get k) k
  | base {caller : String} {task : τ} {r probed : Nat} {k : κ} {v : ν}
      (rebased : (s.queue.request task).1 = .launched r ⟨probed, some (k, v)⟩) :
      Touches s (.perform caller task) k

/-! ### Writing, touching and naming -/

omit [DecidableEq κ] [Task τ κ ν] in
/-- An event writes at most one value. -/
theorem Writes.unique {s : Service κ τ ν ε} {e : Event κ τ ν ε} {k k' : κ} {v v' : ν}
    (h : s.Writes e k v) (h' : s.Writes e k' v') : k = k' ∧ v = v' := by
  cases h with
  | stored =>
    cases h'
    exact ⟨rfl, rfl⟩
  | computed has =>
    cases h' with
    | computed has' => exact ⟨congrArg Round.key (has.unique has'), rfl⟩

/-- A base is cached, and the key of the request is not. -/
theorem base_cached {q : Queue κ τ ν ε} {task : τ} {r probed : Nat} {k : κ} {v : ν}
    (h : (q.request task).1 = .launched r ⟨probed, some (k, v)⟩) :
    q.cache.find? k = some v ∧ q.cache.find? (Task.key task) = none := by
  have ht := q.admitted_request task
  rw [h] at ht
  generalize (q.request task).2 = q' at ht
  cases ht with
  | launched missed idle searched prepared =>
    obtain ⟨-, -, -, found, -⟩ := Cache.walk_base (congrArg Walk.base searched)
    exact ⟨found, missed⟩

/-- An event touches at most one key. -/
theorem Touches.unique {s : Service κ τ ν ε} {e : Event κ τ ν ε} {a b : κ}
    (ha : s.Touches e a) (hb : s.Touches e b) : a = b := by
  cases ha with
  | written writes =>
    cases hb with
    | written writes' => exact (writes.unique writes').1
    | _ => cases writes
  | hit found =>
    cases hb with
    | written writes => cases writes
    | hit => rfl
    | base rebased => cases (base_cached rebased).2.symm.trans found
  | got found =>
    cases hb with
    | written writes => cases writes
    | got => rfl
  | base rebased =>
    cases hb with
    | written writes => cases writes
    | hit found => cases (base_cached rebased).2.symm.trans found
    | base rebased' =>
      cases rebased.symm.trans rebased'
      rfl

/-- A key that is touched is cached, or is written. -/
theorem Touches.cached_or_written {s : Service κ τ ν ε} {e : Event κ τ ν ε} {k : κ}
    (h : s.Touches e k) : (∃ v, s.queue.cache.find? k = some v) ∨ ∃ v, s.Writes e k v := by
  cases h with
  | written writes => exact .inr ⟨_, writes⟩
  | hit found => exact .inl ⟨_, found⟩
  | got found => exact .inl ⟨_, found⟩
  | base rebased => exact .inl ⟨_, (base_cached rebased).1⟩

/-- An event that touches a key names none. -/
theorem Touches.names_eq_false {s : Service κ τ ν ε} {e : Event κ τ ν ε} {k : κ}
    (h : s.Touches e k) (a : κ) : e.names a = false := by
  cases h with
  | written writes => cases writes <;> rfl
  | _ => rfl

/-! ### What a step does to the cache -/

/-- The ways in which an event can change a cache. -/
inductive CacheStep (s : Service κ τ ν ε) (e : Event κ τ ν ε) : Cache κ ν → Prop
  | written {k : κ} {v : ν} (writes : s.Writes e k v) :
      CacheStep s e (s.queue.cache.put s.queue.limits.cacheSize.val k v)
  | used {k : κ} {v : ν} (touches : s.Touches e k) (silent : ∀ a w, ¬ s.Writes e a w)
      (found : s.queue.cache.find? k = some v) : CacheStep s e (s.queue.cache.promote k)
  | kept (untouched : ∀ k, ¬ s.Touches e k) : CacheStep s e (s.queue.cache.without e.names)

/-- What a request does to the cache. -/
theorem request_cache (s : Service κ τ ν ε) (caller : String) (task : τ) :
    s.CacheStep (.perform caller task) (s.queue.request task).2.cache := by
  have silent : ∀ a w, ¬ s.Writes (.perform caller task) a w := fun a w h => by cases h
  -- without a hit and without a base nothing is touched
  have kept : s.queue.cache.find? (Task.key task) = none →
      (∀ r probed a, (s.queue.request task).1 ≠ .launched r ⟨probed, some a⟩) →
      s.CacheStep (.perform caller task) s.queue.cache := by
    intro missed baseless
    refine (Cache.without_nothing s.queue.cache).subst (.kept ?_)
    rintro k (⟨⟨⟩⟩ | found | - | rebased)
    · cases missed.symm.trans found
    · exact baseless _ _ _ rebased
  have ht := s.queue.admitted_request task
  rcases hr : s.queue.request task with ⟨admission, q'⟩
  rw [hr] at ht kept
  cases ht with
  | hit found => exact .used (.hit found) silent found
  | joined missed => exact kept missed (fun _ _ _ h => by cases h)
  | @launched w c o t' missed _ _ prepared =>
    obtain ⟨probed, base⟩ := w
    have hb : Walk.base ⟨probed, base⟩ = base := rfl
    rw [hb] at prepared
    cases prepared with
    | fresh => exact kept missed (fun _ _ _ h => by cases h)
    | rebased =>
      have hbase := congrArg Prod.fst hr
      exact .used (.base hbase) silent (base_cached hbase).1

variable [KeyText κ]

omit [Task τ κ ν] in
/-- Asking for results brings nothing into the cache and takes nothing out. -/
theorem cache_pollAll (q : Queue κ τ ν ε) (ws : List (Waiter ν)) :
    (pollAll q ws).queue.cache = q.cache :=
  pollAll_induction (P := fun q' => q'.cache = q.cache)
    (fun r h => Queue.poll_induction (P := fun q' => q'.cache = q.cache) h (fun _ _ => h) r) rfl ws

/-- Whatever else an event does, to the cache it does one of these things. -/
theorem step_cache (s : Service κ τ ν ε) (e : Event κ τ ν ε) :
    s.CacheStep e (s.step e).2.queue.cache := by
  rw [step_queue, cache_pollAll]
  have kept : (∀ k, ¬ s.Touches e k) → (s.queue.apply e).cache = s.queue.cache.without e.names →
      s.CacheStep e (s.queue.apply e).cache := by
    intro hn hc
    rw [hc]
    exact .kept hn
  have same : s.queue.cache = s.queue.cache.without (fun _ => false) :=
    (Cache.without_nothing s.queue.cache).symm
  cases e with
  | perform caller task => exact s.request_cache caller task
  | finish r e =>
    rcases hr : s.queue.running? r with - | a
    · refine kept ?_ ?_
      · rintro k ⟨- | ⟨has, running⟩⟩
        cases hr.symm.trans (Queue.running?_eq_some_iff.mpr ⟨has, running⟩)
      · show (s.queue.finish r e).cache = _
        rw [Queue.finish_of_not_running hr]
        exact same
    · obtain ⟨ha, hs⟩ := Queue.running?_eq_some_iff.mp hr
      have hc : (s.queue.apply (.finish r e)).cache
          = (s.queue.keep a.key (e.result (KeyText.text a.key))).cache := by
        show (s.queue.finish r e).cache = _
        rw [Queue.finish_of_running hr, Queue.cache_settle]
      -- only a value is written
      cases e with
      | returned v =>
        rw [hc]
        exact .written (.computed ha hs)
      | failed e => exact kept (by rintro k ⟨⟨⟩⟩) (hc.trans same)
      | panicked => exact kept (by rintro k ⟨⟨⟩⟩) (hc.trans same)
  | get k =>
    rcases hf : s.queue.cache.find? k with - | v
    · refine kept ?_ ?_
      · rintro a (⟨⟨⟩⟩ | - | found)
        cases hf.symm.trans found
      · show s.queue.cache.promote k = _
        rw [Cache.promote, hf]
        exact same
    · exact .used (.got hf) (fun a w h => by cases h) hf
  | store k v => exact .written .stored
  | remove k => exact kept (by rintro a ⟨⟨⟩⟩) (Cache.erase_eq_without s.queue.cache k)
  | prune p => exact kept (by rintro a ⟨⟨⟩⟩) (Cache.eraseAll_filter s.queue.cache p)
  | clear => exact kept (by rintro a ⟨⟨⟩⟩) (Cache.without_everything s.queue.cache).symm
  | drop caller => exact kept (by rintro a ⟨⟨⟩⟩) same
  | shutdown => exact kept (by rintro a ⟨⟨⟩⟩) same

end Service

/-! ### Limits and sizes -/

namespace Queue

theorem limits_settle (q : Queue κ τ ν ε) (r : Nat) (a : Round κ τ ν ε) (result : Result ε ν) :
    (q.settle r a result).limits = q.limits := by
  cases result <;> rfl

/-- No key is cached twice, and no more values are cached than the limits
allow. -/
structure Tidy (q : Queue κ τ ν ε) : Prop where
  distinct : q.cache.Distinct
  length_keys_le : q.cache.keys.length ≤ q.limits.cacheSize.val

variable [KeyText κ] [Task τ κ ν]

theorem limits_apply (q : Queue κ τ ν ε) (e : Event κ τ ν ε) : (q.apply e).limits = q.limits := by
  cases e with
  | perform caller task =>
    have ht := q.admitted_request task
    show (q.request task).2.limits = _
    generalize (q.request task).1 = admission, (q.request task).2 = q' at ht
    cases ht <;> rfl
  | finish r e =>
    exact finish_induction (P := fun q' => q'.limits = q.limits) rfl
      (fun result _ _ => limits_settle q _ _ result) r e
  | _ => rfl

end Queue

namespace Service

variable [KeyText κ] [Task τ κ ν]

theorem limits_step (s : Service κ τ ν ε) (e : Event κ τ ν ε) :
    (s.step e).2.queue.limits = s.queue.limits :=
  step_queue_induction (P := fun q => q.limits = s.queue.limits)
    (fun r h => Queue.poll_induction (P := fun q => q.limits = s.queue.limits) h
      (fun _ _ => (Queue.limits_settle ..).trans h) r)
    (s.queue.limits_apply e)

theorem limits_run (s : Service κ τ ν ε) (es : List (Event κ τ ν ε)) :
    (s.run es).2.queue.limits = s.queue.limits := by
  induction es generalizing s with
  | nil => rfl
  | cons e es ih => exact (ih (s.step e).2).trans (s.limits_step e)

/-! ### The keys after a step -/

/-- The key that is touched goes to the front, and the last ones are dropped if
they are too many. -/
theorem keys_step_of_touches {s : Service κ τ ν ε} (h : s.queue.Tidy) {e : Event κ τ ν ε} {k : κ}
    (hk : s.Touches e k) :
    (s.step e).2.queue.cache.keys
      = (k :: s.queue.cache.keys.filter (· ≠ k)).take s.queue.limits.cacheSize.val := by
  have hc := s.step_cache e
  generalize (s.step e).2.queue.cache = c at hc
  cases hc with
  | written writes =>
    obtain rfl := hk.unique (.written writes)
    exact Cache.keys_put ..
  | used touches _ found =>
    obtain rfl := hk.unique touches
    -- promoting changes no size, so that all of them fit
    have hl : (s.queue.cache.promote k).keys.length = s.queue.cache.keys.length := by
      rw [Cache.keys, Cache.keys, List.length_map, List.length_map]
      exact Cache.size_promote h.distinct k
    rw [← Cache.keys_promote found, List.take_of_length_le (hl ▸ h.length_keys_le)]
  | kept untouched => exact absurd hk (untouched k)

/-- Where no key is touched, those stay that are not named. -/
theorem keys_step_of_not_touches {s : Service κ τ ν ε} {e : Event κ τ ν ε}
    (hn : ∀ k, ¬ s.Touches e k) :
    (s.step e).2.queue.cache.keys = s.queue.cache.keys.filter fun k => !e.names k := by
  have hc := s.step_cache e
  generalize (s.step e).2.queue.cache = c at hc
  cases hc with
  | written writes => exact absurd (.written writes) (hn _)
  | used touches => exact absurd touches (hn _)
  | kept => exact Cache.keys_without ..

theorem tidy_run (limits : Limits) (metrics : Option TaskMetrics) (es : List (Event κ τ ν ε)) :
    ((fresh limits metrics).run es).2.queue.Tidy := by
  induction es using List.reverseRecOn with
  | nil => exact ⟨List.nodup_nil, Nat.zero_le _⟩
  | append_singleton es e ih =>
    refine ⟨(balanced_run limits metrics (es ++ [e])).distinct, ?_⟩
    rw [run_concat_snd]
    generalize ((fresh limits metrics).run es).2 = s at ih
    rw [limits_step]
    by_cases hk : ∃ k, s.Touches e k
    · obtain ⟨k, hk⟩ := hk
      rw [keys_step_of_touches ih hk]
      exact List.length_take_le ..
    · rw [keys_step_of_not_touches (not_exists.mp hk)]
      exact Nat.le_trans (List.length_filter_le ..) ih.length_keys_le

/-! ### Evictions -/

omit [Task τ κ ν] [KeyText κ] in
/-- If putting a key in front pushes out another one, the key was not there,
all places were taken, and the one that is pushed out was the last. -/
theorem pushed_out {ks : List κ} {n : Nat} (hpos : 0 < n) (hl : ks.length ≤ n) {k a : κ}
    (ha : a ∈ ks) (ha' : a ∉ (k :: ks.filter (· ≠ k)).take n) :
    k ∉ ks ∧ ks.length = n ∧
      ∃ rest, ks = rest ++ [a] ∧ (k :: ks.filter (· ≠ k)).take n = k :: rest := by
  obtain ⟨m, rfl⟩ : ∃ m, n = m + 1 := ⟨n - 1, by omega⟩
  rw [List.take_succ_cons] at ha' ⊢
  rw [List.mem_cons, not_or] at ha'
  obtain ⟨hne, ha'⟩ := ha'
  have hk : k ∉ ks := by
    -- one key would be taken out for the one that is put in front
    intro hk
    have hlt : (ks.filter (· ≠ k)).length < ks.length :=
      List.length_filter_lt_length_iff_exists.mpr ⟨k, hk, by simp⟩
    rw [List.take_of_length_le (by omega)] at ha'
    exact ha' (List.mem_filter.mpr ⟨ha, by simpa using hne⟩)
  have hf : ks.filter (· ≠ k) = ks := by
    refine List.filter_eq_self.mpr fun b hb => ?_
    have hbk : b ≠ k := fun h => hk (h ▸ hb)
    simpa using hbk
  rw [hf] at ha' ⊢
  have hlen : ks.length = m + 1 := by
    refine Nat.le_antisymm hl (Nat.lt_of_not_le fun hle => ha' ?_)
    rwa [List.take_of_length_le hle]
  obtain ⟨b, hb⟩ : ∃ b, ks.drop m = [b] :=
    List.length_eq_one_iff.mp (by rw [List.length_drop]; omega)
  have hsplit : ks = ks.take m ++ [b] := by rw [← hb, List.take_append_drop]
  have hab : a = b := by
    rw [hsplit] at ha
    exact List.mem_singleton.mp ((List.mem_append.mp ha).resolve_left ha')
  exact ⟨hk, hlen, ks.take m, hab ▸ hsplit, rfl⟩

/-- A key that is lost without being named was the last one of a full cache,
and made way for a value that is written under a key that was not there. -/
theorem evicted {s : Service κ τ ν ε} (h : s.queue.Tidy) {e : Event κ τ ν ε} {a : κ}
    (ha : a ∈ s.queue.cache.keys) (ha' : a ∉ (s.step e).2.queue.cache.keys)
    (hn : e.names a = false) :
    ∃ k v rest, s.Writes e k v ∧ k ∉ s.queue.cache.keys ∧
      s.queue.cache.keys.length = s.queue.limits.cacheSize.val ∧
      s.queue.cache.keys = rest ++ [a] ∧ (s.step e).2.queue.cache.keys = k :: rest := by
  by_cases hk : ∃ k, s.Touches e k
  · obtain ⟨k, hk⟩ := hk
    rw [keys_step_of_touches h hk] at ha' ⊢
    obtain ⟨hnew, hfull, rest, hrest, hkeys⟩ :=
      pushed_out s.queue.limits.cacheSize.pos h.length_keys_le ha ha'
    -- what is touched and not there is written
    rcases hk.cached_or_written with ⟨v, hv⟩ | ⟨v, hv⟩
    · exact absurd (Cache.mem_keys_iff.mpr ⟨v, hv⟩) hnew
    · exact ⟨k, v, rest, hv, hnew, hfull, hrest, hkeys⟩
  · rw [keys_step_of_not_touches (not_exists.mp hk)] at ha'
    exact absurd (List.mem_filter.mpr ⟨ha, by rw [hn]; rfl⟩) ha'

end Service

end SlotStates
