/-
SlotStates/Proofs/State/Pruning.lean

Pruning is filtering.

A queue that is pruned first lists the cached keys that are to go and then
takes them out of the cache one by one.  What that leaves is the cache without
the entries that satisfy the test, and the sizes as they are then
(`Queue.prune_snd`); of the sizes only the last report counts
(`updateSizes_updateSizes`).  So one pruning after another comes to the pruning
of all that satisfy either test,

    ((q.prune p).2.prune p').2 = (q.prune fun k => p k || p' k).2,

whichever is made first.  Clearing the cache and removing a key are prunings as
well, of everything and of one key.

For a state service this says that pruning before two slots is pruning before
the later one; and a state of an earlier slot that is found afterwards was
written since.

The main result is `pruning_is_filtering`.
-/
import SlotStates.Proofs.Queue.Freshness
import SlotStates.Proofs.State.Sent

namespace SlotStates

/-! ### Filters -/

namespace Cache

variable {κ ν : Type}

/-- Taking out what satisfies one test and then what satisfies another takes out
what satisfies either. -/
theorem without_without (c : Cache κ ν) (p q : κ → Bool) :
    (c.without p).without q = c.without fun k => p k || q k := by
  refine congrArg Cache.mk ?_
  rw [without, List.filter_filter]
  refine List.filter_congr fun e _ => ?_
  rw [Bool.not_or, Bool.and_comm]

/-- What is left does not satisfy the test. -/
theorem eq_false_of_find?_without [DecidableEq κ] {c : Cache κ ν} {p : κ → Bool} {k : κ} {v : ν}
    (h : (c.without p).find? k = some v) : p k = false := by
  rw [find?_without] at h
  by_cases hp : p k = true
  · rw [if_pos hp] at h
    cases h
  · exact Bool.eq_false_iff.mpr hp

end Cache

/-! ### Queues -/

namespace Queue

variable {κ τ ν ε : Type}

/-- Of two reports of sizes, before and after a change of the cache, the later
one counts. -/
theorem updateSizes_updateSizes (q : Queue κ τ ν ε) (c : Cache κ ν) :
    updateSizes { q.updateSizes with cache := c } = updateSizes { q with cache := c } := by
  simp only [updateSizes, Option.map_map]
  rfl

variable [DecidableEq κ]

/-- Pruning takes out the entries that satisfy the test, and reports the
sizes. -/
theorem prune_snd (q : Queue κ τ ν ε) (p : κ → Bool) :
    (q.prune p).2 = updateSizes { q with cache := q.cache.without p } := by
  rw [← Cache.eraseAll_filter]
  rfl

theorem prune_prune (q : Queue κ τ ν ε) (p p' : κ → Bool) :
    ((q.prune p).2.prune p').2 = (q.prune fun k => p k || p' k).2 := by
  rw [prune_snd, prune_snd, prune_snd, cache_updateSizes, Cache.without_without]
  exact updateSizes_updateSizes { q with cache := q.cache.without p } _

theorem clear_eq_prune (q : Queue κ τ ν ε) : q.clear = (q.prune fun _ => true).2 := by
  rw [prune_snd, Cache.without_everything]
  rfl

theorem remove_snd_eq_prune (q : Queue κ τ ν ε) (k : κ) :
    (q.remove k).2 = (q.prune fun a => a = k).2 := by
  rw [prune_snd, ← Cache.erase_eq_without]
  rfl

end Queue

namespace Service

variable {κ τ ν ε : Type} [DecidableEq κ] [KeyText κ] [Task τ κ ν]

/-- Nobody is told of a pruning, and all it changes is the queue. -/
theorem step_prune (s : Service κ τ ν ε) (p : κ → Bool) :
    s.step (.prune p)
      = (⟨.silent, [], [.pruned (s.queue.prune p).1]⟩, { s with queue := (s.queue.prune p).2 }) :=
  rfl

theorem step_prune_prune (s : Service κ τ ν ε) (p p' : κ → Bool) :
    ((s.step (.prune p)).2.step (.prune p')).2 = (s.step (.prune fun k => p k || p' k)).2 := by
  simp only [step_prune, Queue.prune_prune]

end Service

/-! ### State services -/

/-- A slot is before the later of two if it is before one of them. -/
theorem Slot.decide_lt_max (s a b : Slot) :
    decide (s < max a b) = (decide (s < a) || decide (s < b)) := by
  have hmax : max a b = if a ≤ b then b else a := rfl
  rw [hmax, ← Bool.decide_or, decide_eq_decide]
  simp only [UInt64.lt_iff_toNat_lt, UInt64.le_iff_toNat_le]
  split <;> omega

namespace StateService

variable {σ : Type} [HasSlot σ]

theorem step_pruneBefore (s : StateService σ) (slot : Slot) :
    (s.step (.pruneBefore slot)).2 =
      { s with service := (s.service.step (.prune fun k => decide (k.slot < slot))).2 } := rfl

theorem pruneBefore_pruneBefore (s : StateService σ) (a b : Slot) :
    ((s.step (.pruneBefore a)).2.step (.pruneBefore b)).2
      = (s.step (.pruneBefore (max a b))).2 := by
  simp only [step_pruneBefore, Service.step_prune_prune, Slot.decide_lt_max]

/-- After pruning before a slot no state of an earlier slot is cached. -/
theorem le_of_find?_pruneBefore {s : StateService σ} {slot : Slot} {k : StateKey} {state : σ}
    (h : (s.step (.pruneBefore slot)).2.service.queue.cache.find? k = some state) :
    slot ≤ k.slot := by
  have hcache : (s.step (.pruneBefore slot)).2.service.queue.cache
      = s.service.queue.cache.without fun k => decide (k.slot < slot) := by
    show (s.service.queue.prune _).2.cache = _
    rw [Queue.prune_snd, Queue.cache_updateSizes]
  rw [hcache] at h
  have hslot := Cache.eq_false_of_find?_without h
  exact UInt64.not_lt.mp (of_decide_eq_false hslot)

/-- What is cached at the end of a run and was not at its start was written in
between, and not taken out since. -/
theorem lastWritten_of_missing {s : StateService σ} {k : StateKey} {state : σ}
    (h₀ : s.service.queue.cache.find? k ≠ some state) {es : List (StateEvent σ)}
    (h : (s.run es).2.service.queue.cache.find? k = some state) :
    ∃ n, s.service.LastWritten (s.sentAll es) k state n := by
  rw [(s.follows_run es).1] at h
  exact Service.exists_since (S := fun s => s.queue.cache.find? k = some state) h₀
    (fun _ _ => Service.writes_or_kept) h

end StateService

/-- **Pruning is filtering**: pruning a queue takes out the entries whose keys
satisfy the test, keeps the others with their values and in their order, reports
the sizes, and leaves rounds, registry and callers as they are; nobody is told
anything.  Two prunings, in either order, leave what one pruning with both tests
leaves, so that pruning again changes nothing; clearing leaves what pruning
everything leaves, and removing a key what pruning this key leaves.

Hence pruning a state service before one slot and then before another leaves
what pruning before the later one leaves.  No state of an earlier slot is cached
then, and one that is found after any further events was written by them. -/
theorem pruning_is_filtering {κ τ ν ε σ : Type} [DecidableEq κ] [KeyText κ] [Task τ κ ν]
    [HasSlot σ] :
    (∀ (s : Service κ τ ν ε) (p p' : κ → Bool),
      let kept : Cache κ ν := ⟨s.queue.cache.entries.filter fun e => !p e.1⟩
      ((s.step (.prune p)).1.resolved = [] ∧
        (s.step (.prune p)).2.queue
          = { s.queue with
              cache := kept
              metrics := s.queue.metrics.map (·.setSizes kept.size s.queue.inFlight.length) } ∧
        (s.step (.prune p)).2.waiters = s.waiters ∧
        ∀ k, kept.find? k = if p k then none else s.queue.cache.find? k) ∧
      ((s.step (.prune p)).2.step (.prune p')).2 = (s.step (.prune fun k => p k || p' k)).2 ∧
      ((s.step (.prune p')).2.step (.prune p)).2 = (s.step (.prune fun k => p k || p' k)).2 ∧
      ((s.step (.prune p)).2.step (.prune p)).2 = (s.step (.prune p)).2 ∧
      (s.step .clear).2 = (s.step (.prune fun _ => true)).2 ∧
      ∀ k, (s.step (.remove k)).2 = (s.step (.prune fun a => a = k)).2) ∧
    ∀ (s : StateService σ) (a b : Slot),
      let pruned := ((s.step (.pruneBefore a)).2.step (.pruneBefore b)).2
      pruned = (s.step (.pruneBefore (max a b))).2 ∧
      (∀ k state, pruned.service.queue.cache.find? k = some state → max a b ≤ k.slot) ∧
      ∀ es k state, (pruned.run es).2.service.queue.cache.find? k = some state →
        k.slot < max a b → ∃ n, pruned.service.LastWritten (pruned.sentAll es) k state n := by
  refine ⟨fun s p p' => ⟨⟨rfl, ?_, rfl, s.queue.cache.find?_without p⟩, s.step_prune_prune p p',
    ?_, ?_, ?_, fun k => ?_⟩, fun s a b => ?_⟩
  · exact s.queue.prune_snd p
  · rw [s.step_prune_prune]
    simp only [Bool.or_comm]
  · rw [s.step_prune_prune]
    simp only [Bool.or_self]
  · exact congrArg (Service.mk · s.waiters) s.queue.clear_eq_prune
  · exact congrArg (Service.mk · s.waiters) (s.queue.remove_snd_eq_prune k)
  · intro pruned
    have hmax : pruned = (s.step (.pruneBefore (max a b))).2 := s.pruneBefore_pruneBefore a b
    have kept : ∀ k state, pruned.service.queue.cache.find? k = some state → max a b ≤ k.slot := by
      intro k state h
      rw [hmax] at h
      exact StateService.le_of_find?_pruneBefore h
    refine ⟨hmax, kept, fun es k state h hlt => ?_⟩
    exact StateService.lastWritten_of_missing
      (fun h₀ => UInt64.not_lt.mpr (kept k state h₀) hlt) h

end SlotStates
