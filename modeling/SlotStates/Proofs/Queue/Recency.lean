/-
SlotStates/Proofs/Queue/Recency.lean

The least recently used value goes first.

The list of the cached keys is in the order of their last touches, the latest
first (`keys_pairwise`).  A touch brings its key to the front, and an event
without one (`Idle`) only takes out the keys that it names.

So the key that is evicted is the one with the oldest last touch
(`older_of_evicted`).  All others that are cached then have been touched since,
and so has the new one; together they fill the cache.  Hence a key that is not
named stays until as many other keys as there are places have been touched
after its own last touch (`kept_until_full`).

The main result is `least_recently_used_goes_first`.
-/
import SlotStates.Proofs.Queue.Touches

namespace SlotStates

variable {κ τ ν ε : Type} [DecidableEq κ] [KeyText κ] [Task τ κ ν]

namespace Service

/-! ### Events that touch nothing -/

/-- The events that touch no key: requests that join a round or launch one
without a base, looks that find nothing, rounds that do not end or not with a
value, and what only takes keys out or leaves the cache alone. -/
inductive Idle (s : Service κ τ ν ε) : Event κ τ ν ε → Prop
  | joined {caller : String} {task : τ} {r : Nat} (joins : (s.queue.request task).1 = .joined r) :
      Idle s (.perform caller task)
  | baseless {caller : String} {task : τ} {r probed : Nat}
      (launches : (s.queue.request task).1 = .launched r ⟨probed, none⟩) :
      Idle s (.perform caller task)
  | missed {k : κ} (missing : s.queue.cache.find? k = none) : Idle s (.get k)
  | ended {r : Nat} {ending : Ending ε ν} (idle : s.queue.running? r = none) :
      Idle s (.finish r ending)
  | failed {r : Nat} {error : ε} : Idle s (.finish r (.failed error))
  | panicked {r : Nat} : Idle s (.finish r .panicked)
  | drop {caller : String} : Idle s (.drop caller)
  | shutdown : Idle s .shutdown
  | remove {k : κ} : Idle s (.remove k)
  | prune {p : κ → Bool} : Idle s (.prune p)
  | clear : Idle s .clear

omit [KeyText κ] in
theorem Idle.untouched {s : Service κ τ ν ε} {e : Event κ τ ν ε} (h : s.Idle e) (k : κ) :
    ¬ s.Touches e k := by
  intro ht
  cases h with
  | joined joins =>
    cases ht with
    | written writes => cases writes
    | hit found => cases (Queue.request_of_cached found).symm.trans joins
    | base rebased => cases rebased.symm.trans joins
  | baseless launches =>
    cases ht with
    | written writes => cases writes
    | hit found => cases (Queue.request_of_cached found).symm.trans launches
    | base rebased => cases rebased.symm.trans launches
  | missed missing =>
    cases ht with
    | written writes => cases writes
    | got found => cases missing.symm.trans found
  | ended idle =>
    obtain ⟨⟨⟩ | ⟨has, running⟩⟩ := ht
    cases idle.symm.trans (Queue.running?_eq_some_iff.mpr ⟨has, running⟩)
  | _ =>
    cases ht with
    | written writes => cases writes

omit [KeyText κ] in
/-- All other events touch a key. -/
theorem exists_touches {s : Service κ τ ν ε} {e : Event κ τ ν ε} (h : ¬ s.Idle e) :
    ∃ k, s.Touches e k := by
  cases e with
  | perform caller task =>
    rcases hr : (s.queue.request task).1 with v | r | ⟨r, probed, - | ⟨k, v⟩⟩
    · have ht := s.queue.admitted_request task
      rw [hr] at ht
      generalize (s.queue.request task).2 = q' at ht
      cases ht with
      | hit found => exact ⟨_, .hit found⟩
    · exact absurd (.joined hr) h
    · exact absurd (.baseless hr) h
    · exact ⟨k, .base hr⟩
  | finish r ending =>
    rcases hr : s.queue.running? r with - | a
    · exact absurd (.ended hr) h
    · obtain ⟨has, running⟩ := Queue.running?_eq_some_iff.mp hr
      cases ending with
      | returned v => exact ⟨a.key, .written (.computed has running)⟩
      | failed error => exact absurd .failed h
      | panicked => exact absurd .panicked h
  | get k =>
    rcases hf : s.queue.cache.find? k with - | v
    · exact absurd (.missed hf) h
    · exact ⟨k, .got hf⟩
  | store k v => exact ⟨k, .written .stored⟩
  | drop caller => exact absurd .drop h
  | shutdown => exact absurd .shutdown h
  | remove k => exact absurd .remove h
  | prune p => exact absurd .prune h
  | clear => exact absurd .clear h

/-! ### The order of the cached keys -/

/-- The last event that touched a key is the one of a number. -/
def LastTouched (start : Service κ τ ν ε) (es : List (Event κ τ ν ε)) (k : κ) (n : Nat) : Prop :=
  start.Since (·.Touches · k) (·.Touches · k) es n

variable {start : Service κ τ ν ε} {es : List (Event κ τ ν ε)} {e : Event κ τ ν ε}

/-- A key that an event does not touch was last touched when it was before. -/
theorem LastTouched.concat {k : κ} {n : Nat} (h : start.LastTouched es k n)
    (hn : ¬ (start.run es).2.Touches e k) : start.LastTouched (es ++ [e]) k n :=
  since_concat_iff.mpr (.inl ⟨h, hn⟩)

theorem lastTouched_concat_self {k : κ} (h : (start.run es).2.Touches e k) :
    start.LastTouched (es ++ [e]) k es.length :=
  since_concat_iff.mpr (.inr ⟨rfl, h⟩)

/-- Of two keys the first was touched last. -/
def Fresher (start : Service κ τ ν ε) (es : List (Event κ τ ν ε)) (a b : κ) : Prop :=
  ∃ m n, start.LastTouched es a m ∧ start.LastTouched es b n ∧ n < m

theorem Fresher.lt {a b : κ} (h : start.Fresher es a b) {m n : Nat}
    (ha : start.LastTouched es a m) (hb : start.LastTouched es b n) : n < m := by
  obtain ⟨m', n', ha', hb', hlt⟩ := h
  rwa [ha.unique ha', hb.unique hb']

theorem Fresher.concat {a b : κ} (h : start.Fresher es a b)
    (ha : ¬ (start.run es).2.Touches e a) (hb : ¬ (start.run es).2.Touches e b) :
    start.Fresher (es ++ [e]) a b := by
  obtain ⟨m, n, hm, hn, hlt⟩ := h
  exact ⟨m, n, hm.concat ha, hn.concat hb, hlt⟩

/-- The keys that a step leaves are those before it that are not touched, in
their order, and before them the one that is. -/
theorem keys_step_sublist {s : Service κ τ ν ε} (h : s.queue.Tidy) (e : Event κ τ ν ε) :
    (∃ k, s.Touches e k ∧
      (s.step e).2.queue.cache.keys.Sublist (k :: s.queue.cache.keys.filter (· ≠ k))) ∨
    (∀ k, ¬ s.Touches e k) ∧ (s.step e).2.queue.cache.keys.Sublist s.queue.cache.keys := by
  by_cases hk : ∃ k, s.Touches e k
  · obtain ⟨k, hk⟩ := hk
    rw [keys_step_of_touches h hk]
    exact .inl ⟨k, hk, List.take_sublist _ _⟩
  · rw [keys_step_of_not_touches (not_exists.mp hk)]
    exact .inr ⟨not_exists.mp hk, List.filter_sublist⟩

/-- A key that is cached after an event was touched by it, or was cached
before. -/
theorem touches_or_kept {s : Service κ τ ν ε} (h : s.queue.Tidy) {e : Event κ τ ν ε} {k : κ}
    (hk : k ∈ (s.step e).2.queue.cache.keys) :
    s.Touches e k ∨ k ∈ s.queue.cache.keys ∧ ¬ s.Touches e k := by
  by_cases ht : s.Touches e k
  · exact .inl ht
  · refine .inr ⟨?_, ht⟩
    rcases keys_step_sublist h e with ⟨a, ha, hs⟩ | ⟨-, hs⟩
    · rcases List.mem_cons.mp (hs.mem hk) with rfl | hk
      · exact absurd ha ht
      · exact List.mem_of_mem_filter hk
    · exact hs.mem hk

/-- Every cached key was touched at some time. -/
theorem lastTouched_of_cached (limits : Limits) (metrics : Option TaskMetrics)
    (es : List (Event κ τ ν ε)) {k : κ}
    (hk : k ∈ ((fresh limits metrics).run es).2.queue.cache.keys) :
    ∃ n, (fresh limits metrics).LastTouched es k n :=
  exists_since (S := fun s => k ∈ s.queue.cache.keys) (fun h => by cases h)
    (fun es _ => touches_or_kept (tidy_run limits metrics es)) hk

/-- The cached keys are listed in the order of their last touches, the latest
first. -/
theorem keys_pairwise (limits : Limits) (metrics : Option TaskMetrics)
    (es : List (Event κ τ ν ε)) :
    ((fresh limits metrics).run es).2.queue.cache.keys.Pairwise
      ((fresh limits metrics).Fresher es) := by
  induction es using List.reverseRecOn with
  | nil => exact .nil
  | append_singleton es e ih =>
    rw [run_concat_snd]
    rcases keys_step_sublist (tidy_run limits metrics es) e with ⟨k, hk, hs⟩ | ⟨hn, hs⟩
    · -- no other key is touched, and all others were touched before
      have other : ∀ b ∈ ((fresh limits metrics).run es).2.queue.cache.keys.filter (· ≠ k),
          ¬ ((fresh limits metrics).run es).2.Touches e b := fun b hb hb' =>
        of_decide_eq_true (List.mem_filter.mp hb).2 (hb'.unique hk)
      refine List.Pairwise.sublist hs (List.pairwise_cons.mpr ⟨fun b hb => ?_, ?_⟩)
      · obtain ⟨n, hl⟩ := lastTouched_of_cached limits metrics es (List.mem_of_mem_filter hb)
        exact ⟨_, n, lastTouched_concat_self hk, hl.concat (other b hb), hl.lt⟩
      · exact (ih.sublist List.filter_sublist).imp_of_mem fun {a b} ha hb h =>
          h.concat (other a ha) (other b hb)
    · exact (ih.sublist hs).imp fun {a b} h => h.concat (hn a) (hn b)

/-! ### Evictions -/

/-- All other cached keys were touched after the one that is evicted. -/
theorem older_of_evicted (limits : Limits) (metrics : Option TaskMetrics)
    (es : List (Event κ τ ν ε)) {rest : List κ} {a : κ}
    (h : ((fresh limits metrics).run es).2.queue.cache.keys = rest ++ [a]) :
    ∀ b ∈ rest, (fresh limits metrics).Fresher es b a := by
  have hp := keys_pairwise limits metrics es
  rw [h] at hp
  exact fun b hb => (List.pairwise_append.mp hp).2.2 b hb a (List.mem_singleton_self a)

/-- A key that is neither touched again nor named stays until as many other
keys as there are places have been touched. -/
theorem kept_until_full (limits : Limits) (metrics : Option TaskMetrics)
    (es : List (Event κ τ ν ε)) {k : κ} {n : Nat}
    (h : (fresh limits metrics).Since (·.Touches · k)
      (fun s e => s.Touches e k ∨ e.names k = true) es n) :
    k ∈ ((fresh limits metrics).run es).2.queue.cache.keys ∨
      ∃ ks : List κ, ks.Nodup ∧ k ∉ ks ∧ ks.length = limits.cacheSize.val ∧
        ∀ b ∈ ks, ∃ m, n < m ∧ (fresh limits metrics).Occurs (·.Touches · b) es m := by
  induction es using List.reverseRecOn with
  | nil => cases h.lt
  | append_singleton es e ih =>
    have tidy := tidy_run limits metrics es
    have tidy' := tidy_run limits metrics (es ++ [e])
    rw [run_concat_snd] at tidy' ⊢
    rcases since_concat_iff.mp h with ⟨h, hn⟩ | ⟨rfl, hk⟩
    · rcases ih h with hk | ⟨ks, hd, hnot, hlen, htouched⟩
      · by_cases hk' : k ∈ (((fresh limits metrics).run es).2.step e).2.queue.cache.keys
        · exact .inl hk'
        · -- it is evicted now, and the keys that stay or come in fill the cache
          have hname : e.names k = false := Bool.eq_false_iff.mpr fun hname => hn (.inr hname)
          obtain ⟨a, v, rest, hw, -, hfull, hrest, hkeys⟩ := evicted tidy hk hk' hname
          refine .inr ⟨_, tidy'.distinct, hk', ?_, fun b hb => ?_⟩
          · rw [limits_run, hrest, List.length_append] at hfull
            rw [hkeys]
            exact hfull
          · rw [hkeys] at hb
            rcases List.mem_cons.mp hb with rfl | hb
            · exact ⟨es.length, h.lt, occurs_concat_iff.mpr (.inr ⟨rfl, .written hw⟩)⟩
            · have hl : (fresh limits metrics).LastTouched es k n := h.mono fun _ _ => .inl
              obtain ⟨m, n', hm, hn', hlt⟩ := older_of_evicted limits metrics es hrest b hb
              obtain rfl := hl.unique hn'
              exact ⟨m, hlt, occurs_concat_iff.mpr (.inl hm.occurs)⟩
      · refine .inr ⟨ks, hd, hnot, hlen, fun b hb => ?_⟩
        obtain ⟨m, hm, ho⟩ := htouched b hb
        exact ⟨m, hm, occurs_concat_iff.mpr (.inl ho)⟩
    · -- it has just been put in front
      left
      rw [keys_step_of_touches tidy hk]
      obtain ⟨c, hc⟩ := Nat.exists_eq_add_one.mpr
        ((fresh limits metrics).run es).2.queue.limits.cacheSize.pos
      rw [hc, List.take_succ_cons]
      exact List.mem_cons_self

/-- **The least recently used value goes first**: after every run the list of
the cached keys is strictly ordered by their last touches, the latest first.
Only touching a key changes the order, which puts this key in front; all other
events leave those that they do not name as they are.

A key that an event takes out without naming it is the one whose last touch is
the oldest; it makes way for a value under a key that was not cached, and no
place was free.  And a key that was touched and is not named after its last
touch is cached, unless as many other keys as there are places have been
touched after it. -/
theorem least_recently_used_goes_first (limits : Limits) (metrics : Option TaskMetrics)
    (es : List (Event κ τ ν ε)) :
    let start : Service κ τ ν ε := fresh limits metrics
    let s := (start.run es).2
    let keys := s.queue.cache.keys
    ((∀ k ∈ keys, ∃ n, start.LastTouched es k n) ∧
      keys.Pairwise fun a b => ∃ m n,
        start.LastTouched es a m ∧ start.LastTouched es b n ∧ n < m) ∧
    (∀ e, s.Idle e →
      (s.step e).2.queue.cache.keys = keys.filter fun k => !e.names k) ∧
    (∀ e, ¬ s.Idle e → ∃ k, s.Touches e k ∧
      (s.step e).2.queue.cache.keys = (k :: keys.filter (· ≠ k)).take limits.cacheSize.val) ∧
    (∀ e, ∀ a ∈ keys, a ∉ (s.step e).2.queue.cache.keys → e.names a = false →
      keys.length = limits.cacheSize.val ∧
        (∃ k v, k ∉ keys ∧ s.Writes e k v ∧
          ∀ b ∈ keys, b ≠ a → b ∈ (s.step e).2.queue.cache.keys) ∧
        ∀ b ∈ keys, b ≠ a → ∀ m n,
          start.LastTouched es b m → start.LastTouched es a n → n < m) ∧
    (∀ k n, start.Since (·.Touches · k) (fun s e => s.Touches e k ∨ e.names k = true) es n →
      k ∈ keys ∨ ∃ ks : List κ, ks.Nodup ∧ k ∉ ks ∧ ks.length = limits.cacheSize.val ∧
        ∀ b ∈ ks, ∃ m, n < m ∧ start.Occurs (·.Touches · b) es m) := by
  intro start s keys
  have tidy : s.queue.Tidy := tidy_run limits metrics es
  have hlimits : s.queue.limits = limits := limits_run _ es
  refine ⟨⟨fun k hk => lastTouched_of_cached limits metrics es hk,
    keys_pairwise limits metrics es⟩, ?_, ?_, ?_, ?_⟩
  · intro e he
    exact keys_step_of_not_touches he.untouched
  · intro e he
    obtain ⟨k, hk⟩ := exists_touches he
    refine ⟨k, hk, ?_⟩
    rw [keys_step_of_touches tidy hk, hlimits]
  · intro e a ha ha' hn
    obtain ⟨k, v, rest, hw, hnew, hfull, hrest, hkeys⟩ := evicted tidy ha ha' hn
    have other : ∀ b ∈ keys, b ≠ a → b ∈ rest := by
      intro b hb hba
      rw [show keys = rest ++ [a] from hrest] at hb
      exact (List.mem_append.mp hb).resolve_right fun h => hba (List.mem_singleton.mp h)
    refine ⟨hlimits ▸ hfull, ⟨k, v, hnew, hw, fun b hb hba => ?_⟩, fun b hb hba m n hm hn' => ?_⟩
    · rw [hkeys]
      exact List.mem_cons_of_mem k (other b hb hba)
    · exact (older_of_evicted limits metrics es hrest b (other b hb hba)).lt hm hn'
  · intro k n h
    exact kept_until_full limits metrics es h

end Service

end SlotStates
