/-
SlotStates/Proofs/Queue/Completion.lean

The order in which computations end does not matter.

Say that all rounds that run end one after another, each in its own way, and
that nothing happens in between.  What this comes to is written down without
an order: each round gets the result of its ending (`rounds_finishAll`), the
entries of these rounds leave the registry (`inFlight_finishAll`), a failure is
counted for each that fails (`metrics_finishAll`), and the values of the others
are written into the cache, one after the other (`cache_finishAll`).

The cache is the only place where one ending can be felt by another, since a
write into a full cache drops a value.  How many values there are in the end is
known nevertheless (`size_putAll`): as long as there is room every new key adds
one, and a cache that is full stays full.  Where all keys fit no value is
dropped, so that the last write of a key decides, and there is only one for
each (`find?_putAll`).  Only the order of the keys depends on the order of the
endings.

The main result is `completion_order_is_immaterial`.
-/
import Mathlib.Data.Finset.Card
import SlotStates.Proofs.Queue.Accounts
import SlotStates.Proofs.Queue.Calls
import SlotStates.Proofs.Queue.Touches
import SlotStates.Scenario.Script

namespace SlotStates

variable {κ τ ν ε : Type} [DecidableEq κ]

/-! ### Writing one value after the other -/

/-- Where keys are distinct, the order of the entries does not matter for what
is found. -/
theorem lookup_eq_of_perm {α : Type} {es es' : List (κ × α)} (h : es.Perm es')
    (hd : (es.map (·.1)).Nodup) (k : κ) : es.lookup k = es'.lookup k := by
  have hd' : (es'.map (·.1)).Nodup := (h.map _).nodup_iff.mp hd
  refine Option.ext fun a => ?_
  rw [lookup_eq_some_iff_mem hd, lookup_eq_some_iff_mem hd', h.mem_iff]

namespace Cache

/-- The cache with some values written one after the other. -/
def putAll (c : Cache κ ν) (capacity : Nat) (es : List (κ × ν)) : Cache κ ν :=
  es.foldl (fun c e => c.put capacity e.1 e.2) c

/-- How many keys are cached or among others. -/
def span (c : Cache κ ν) (ks : List κ) : Nat := (c.keys.toFinset ∪ ks.toFinset).card

theorem toFinset_front (c : Cache κ ν) (k : κ) :
    (k :: c.keys.filter (· ≠ k)).toFinset = insert k c.keys.toFinset := by
  ext a
  by_cases ha : a = k <;> simp [ha]

theorem length_front {c : Cache κ ν} (h : c.Distinct) (k : κ) :
    (k :: c.keys.filter (· ≠ k)).length = (insert k c.keys.toFinset).card := by
  have hn : (k :: c.keys.filter (· ≠ k)).Nodup :=
    List.nodup_cons.mpr ⟨by simp, List.Nodup.filter _ h⟩
  rw [← toFinset_front, List.toFinset_card_of_nodup hn]

theorem size_eq_card {c : Cache κ ν} (h : c.Distinct) : c.size = c.keys.toFinset.card := by
  rw [List.toFinset_card_of_nodup h, keys, List.length_map, size]

theorem size_le_span {c : Cache κ ν} (h : c.Distinct) (ks : List κ) : c.size ≤ c.span ks := by
  rw [size_eq_card h]
  exact Finset.card_le_card Finset.subset_union_left

/-- A write adds a key, unless it is there already or there is no room. -/
theorem size_put {c : Cache κ ν} (h : c.Distinct) (capacity : Nat) (k : κ) (v : ν) :
    (c.put capacity k v).size = min capacity (insert k c.keys.toFinset).card := by
  have hs : (c.put capacity k v).size = (c.put capacity k v).keys.length := by
    rw [keys, List.length_map, size]
  rw [hs, keys_put, List.length_take, length_front h]

/-- Where there is room a write drops nothing. -/
theorem keys_put_of_fits {c : Cache κ ν} (h : c.Distinct) {capacity : Nat} {k : κ}
    (hfits : (insert k c.keys.toFinset).card ≤ capacity) (v : ν) :
    (c.put capacity k v).keys.toFinset = insert k c.keys.toFinset := by
  rw [keys_put, List.take_of_length_le (by rwa [length_front h]), toFinset_front]

theorem span_cons (c : Cache κ ν) (k : κ) (ks : List κ) :
    c.span (k :: ks) = (insert k c.keys.toFinset ∪ ks.toFinset).card := by
  rw [span, List.toFinset_cons, Finset.union_insert, Finset.insert_union]

theorem span_eq_of_perm (c : Cache κ ν) {ks ks' : List κ} (h : ks.Perm ks') :
    c.span ks = c.span ks' := by
  rw [span, span, List.toFinset_eq_of_perm _ _ h]

theorem card_insert_le_span (c : Cache κ ν) (k : κ) (ks : List κ) :
    (insert k c.keys.toFinset).card ≤ c.span (k :: ks) := by
  rw [span_cons]
  exact Finset.card_le_card Finset.subset_union_left

/-- After some writes there are as many values as there were keys, before and
among those written, or as many as fit. -/
theorem size_putAll {c : Cache κ ν} (h : c.Distinct) {capacity : Nat} (hle : c.size ≤ capacity)
    (es : List (κ × ν)) :
    (c.putAll capacity es).size = min capacity (c.span (es.map (·.1))) := by
  induction es generalizing c with
  | nil =>
    show c.size = min capacity (c.keys.toFinset ∪ ∅).card
    rw [Finset.union_empty, ← size_eq_card h, Nat.min_eq_right hle]
  | cons e es ih =>
    show ((c.put capacity e.1 e.2).putAll capacity es).size
      = min capacity (c.span (e.1 :: es.map (·.1)))
    rw [ih (h.put capacity e.1 e.2) (size_put_le ..)]
    rcases Nat.lt_or_ge capacity (insert e.1 c.keys.toFinset).card with hfull | hfits
    · -- the cache is full now, and stays so
      have hsize : (c.put capacity e.1 e.2).size = capacity := by
        rw [size_put h, Nat.min_eq_left (Nat.le_of_lt hfull)]
      have hspan := size_le_span (h.put capacity e.1 e.2) (es.map (·.1))
      have hspan' := c.card_insert_le_span e.1 (es.map (·.1))
      omega
    · rw [span_cons, span, keys_put_of_fits h hfits]

/-- Where all keys fit, what is found after some writes was written by one of
them, or was there before. -/
theorem find?_putAll {c : Cache κ ν} (h : c.Distinct) {capacity : Nat} {es : List (κ × ν)}
    (hd : (es.map (·.1)).Nodup) (hfits : c.span (es.map (·.1)) ≤ capacity) (k : κ) :
    (c.putAll capacity es).find? k = (es.lookup k).or (c.find? k) := by
  induction es generalizing c with
  | nil => rfl
  | cons e es ih =>
    obtain ⟨a, v⟩ := e
    rw [List.map_cons, List.nodup_cons] at hd
    have hfits : c.span (a :: es.map (·.1)) ≤ capacity := hfits
    have hle := Nat.le_trans (c.card_insert_le_span a (es.map (·.1))) hfits
    have hroom : (c.erase a).size < capacity := by
      have hl : (c.erase a).size + 1 = (a :: c.keys.filter (· ≠ a)).length := by
        rw [← keys_erase, List.length_cons, keys, List.length_map, size]
      rw [length_front h] at hl
      omega
    have hfits' : (c.put capacity a v).span (es.map (·.1)) ≤ capacity := by
      rwa [span, keys_put_of_fits h hle, ← span_cons]
    show ((c.put capacity a v).putAll capacity es).find? k = _
    rw [ih (h.put capacity a v) hd.2 hfits', find?_put_of_fits c hroom]
    by_cases hk : k = a
    · -- this key is not written again
      subst hk
      have hnone : es.lookup k = none := List.lookup_eq_none_iff.mpr fun e he =>
        bne_iff_ne.mpr fun hk => hd.1 (List.mem_map.mpr ⟨e, he, hk.symm⟩)
      simp [hnone]
    · have hb : (k == a) = false := beq_eq_false_iff_ne.mpr hk
      rw [if_neg hk, List.lookup_cons, hb]

end Cache

/-! ### Ending one round after the other -/

/-- Whether an ending is a failure. -/
def Ending.fails : Ending ε ν → Bool
  | .returned _ => false
  | _ => true

/-- What an ending leaves of a round: its result, unless the round has ended
before. -/
def Round.ended [KeyText κ] (a : Round κ τ ν ε) (e : Ending ε ν) : Round κ τ ν ε :=
  match a.status with
  | .running => { a with status := .settled (e.result (KeyText.text a.key)) }
  | _ => a

omit [DecidableEq κ] in
theorem Round.ended_ended [KeyText κ] (a : Round κ τ ν ε) (e : Ending ε ν) :
    (a.ended e).ended e = a.ended e := by
  obtain ⟨k, t, status⟩ := a
  cases status <;> rfl

omit [DecidableEq κ] in
theorem Round.ended_of_not_running [KeyText κ] (a : Round κ τ ν ε) (h : a.status ≠ .running)
    (e : Ending ε ν) : a.ended e = a := by
  obtain ⟨k, t, status⟩ := a
  cases status with
  | running => exact absurd rfl h
  | _ => rfl

namespace Queue

variable [KeyText κ]

/-- The numbers of the rounds that run. -/
def underWay (q : Queue κ τ ν ε) : List Nat :=
  (List.range q.rounds.length).filter fun r => (q.running? r).isSome

/-- Ends rounds one after the other, each in the way that is laid down for
it. -/
def finishAll (q : Queue κ τ ν ε) (ending : Nat → Ending ε ν) (rs : List Nat) : Queue κ τ ν ε :=
  rs.foldl (fun q r => q.finish r (ending r)) q

/-- The value that a round writes when it ends, with its key. -/
def write? (q : Queue κ τ ν ε) (ending : Nat → Ending ε ν) (r : Nat) : Option (κ × ν) :=
  match q.running? r, ending r with
  | some a, .returned v => some (a.key, v)
  | _, _ => none

/-- The values that rounds write when they end one after the other. -/
def writes (q : Queue κ τ ν ε) (ending : Nat → Ending ε ν) (rs : List Nat) : List (κ × ν) :=
  rs.filterMap (q.write? ending)

omit [DecidableEq κ] [KeyText κ] in
theorem mem_underWay_iff {q : Queue κ τ ν ε} {r : Nat} :
    r ∈ q.underWay ↔ ∃ a, q.Has r a ∧ a.status = .running := by
  rw [underWay, List.mem_filter, List.mem_range, Option.isSome_iff_exists]
  simp only [running?_eq_some_iff]
  exact ⟨And.right, fun ⟨a, ha, hs⟩ => ⟨ha.lt, a, ha, hs⟩⟩

omit [DecidableEq κ] [KeyText κ] in
theorem nodup_underWay (q : Queue κ τ ν ε) : q.underWay.Nodup :=
  List.nodup_range.filter _

theorem rounds_finish (q : Queue κ τ ν ε) (r : Nat) (e : Ending ε ν) :
    (q.finish r e).rounds = q.rounds.modify r (·.ended e) := by
  refine List.ext_getElem? fun i => ?_
  rw [List.getElem?_modify]
  rcases hr : q.running? r with - | a
  · -- nothing is settled, and a round that does not run cannot be ended
    rw [finish_of_not_running hr]
    by_cases hi : r = i
    · subst hi
      rcases ha : q.rounds[r]? with - | ⟨k, t, status⟩
      · rfl
      · cases status <;> simp [Round.ended, running?, ha] at hr ⊢
    · simp [hi]
  · obtain ⟨ha, hs⟩ := running?_eq_some_iff.mp hr
    have hl := ha.lt
    rw [finish_of_running hr, rounds_settle, List.getElem?_set]
    by_cases hi : r = i
    · subst hi
      rw [show q.rounds[r]? = some a from ha]
      simp [hl, Round.ended, hs]
    · simp [hi]

/-- All these rounds get the results of their endings. -/
theorem rounds_finishAll (q : Queue κ τ ν ε) (ending : Nat → Ending ε ν) (rs : List Nat) (i : Nat) :
    (q.finishAll ending rs).rounds[i]?
      = q.rounds[i]?.map fun a => if i ∈ rs then a.ended (ending i) else a := by
  induction rs generalizing q with
  | nil => simp [finishAll]
  | cons r rs ih =>
    show ((q.finish r (ending r)).finishAll ending rs).rounds[i]? = _
    rw [ih, rounds_finish, List.getElem?_modify]
    rcases q.rounds[i]? with - | a
    · rfl
    · by_cases hi : r = i
      · subst hi
        by_cases hr : r ∈ rs <;> simp [hr, Round.ended_ended]
      · simp [hi, Ne.symm hi]

/-- Distinct rounds that run. -/
structure CanFinish (q : Queue κ τ ν ε) (rs : List Nat) : Prop where
  nodup : rs.Nodup
  running : ∀ r ∈ rs, ∃ a, q.running? r = some a

theorem running?_finish_of_ne (q : Queue κ τ ν ε) {r i : Nat} (hi : r ≠ i) (e : Ending ε ν) :
    (q.finish r e).running? i = q.running? i := by
  have h : (q.finish r e).rounds[i]? = q.rounds[i]? := by
    rw [rounds_finish, List.getElem?_modify]
    simp [hi]
  rw [running?, running?, h]

theorem CanFinish.finish {q : Queue κ τ ν ε} {r : Nat} {rs : List Nat}
    (h : q.CanFinish (r :: rs)) (e : Ending ε ν) : (q.finish r e).CanFinish rs := by
  obtain ⟨hr, hrs⟩ := List.nodup_cons.mp h.nodup
  refine ⟨hrs, fun i hi => ?_⟩
  rw [running?_finish_of_ne q (ne_of_mem_of_not_mem hi hr).symm]
  exact h.running i (List.mem_cons_of_mem r hi)

omit [DecidableEq κ] [KeyText κ] in
theorem canFinish_of_perm {q : Queue κ τ ν ε} {rs : List Nat} (h : rs.Perm q.underWay) :
    q.CanFinish rs := by
  refine ⟨h.nodup_iff.mpr q.nodup_underWay, fun r hr => ?_⟩
  obtain ⟨a, ha, hs⟩ := mem_underWay_iff.mp (h.mem_iff.mp hr)
  exact ⟨a, running?_eq_some_iff.mpr ⟨ha, hs⟩⟩

/-- The entries of these rounds leave the registry. -/
theorem inFlight_finishAll {q : Queue κ τ ν ε} (hq : q.Registered) (ending : Nat → Ending ε ν)
    {rs : List Nat} (h : q.CanFinish rs) :
    (q.finishAll ending rs).inFlight = q.inFlight.filter fun e => e.2 ∉ rs := by
  induction rs generalizing q with
  | nil => simp [finishAll]
  | cons r rs ih =>
    obtain ⟨a, ha⟩ := h.running r List.mem_cons_self
    obtain ⟨hr, hs⟩ := running?_eq_some_iff.mp ha
    have hn := Round.result?_of_running hs
    have hq' : (q.finish r (ending r)).Registered := by
      rw [finish_of_running ha]
      exact hq.settle hr hn _
    show ((q.finish r (ending r)).finishAll ending rs).inFlight = _
    rw [ih hq' (h.finish _), finish_of_running ha, hq.inFlight_settle hr hn, List.filter_filter]
    refine List.filter_congr fun e _ => ?_
    simp [Bool.and_comm]

/-- A failure is counted for each of these rounds that fails. -/
theorem failures_finishAll (q : Queue κ τ ν ε) (ending : Nat → Ending ε ν) {rs : List Nat}
    (h : q.CanFinish rs) :
    (q.finishAll ending rs).metrics.map (·.failures)
      = q.metrics.map (·.failures + rs.countP fun r => (ending r).fails) := by
  induction rs generalizing q with
  | nil => rfl
  | cons r rs ih =>
    obtain ⟨a, ha⟩ := h.running r List.mem_cons_self
    have hone : (q.finish r (ending r)).metrics.map (·.failures)
        = q.metrics.map (·.failures + if (ending r).fails then 1 else 0) := by
      rw [finish_of_running ha]
      rcases ending r with v | x | - <;> rcases hm : q.metrics with - | m <;>
        simp [settle, complete, keep, updateSizes, Ending.result, Ending.fails, hm,
          TaskMetrics.setSizes, TaskMetrics.recordFailure]
    show ((q.finish r (ending r)).finishAll ending rs).metrics.map _ = _
    rw [ih _ (h.finish _), List.countP_cons]
    revert hone
    rcases q.metrics with - | m <;> rcases (q.finish r (ending r)).metrics with - | m' <;> simp
    omega

/-- The values of these rounds are written one after the other. -/
theorem cache_finishAll (q : Queue κ τ ν ε) (ending : Nat → Ending ε ν) {rs : List Nat}
    (h : q.CanFinish rs) :
    (q.finishAll ending rs).cache
      = q.cache.putAll q.limits.cacheSize.val (q.writes ending rs) := by
  induction rs generalizing q with
  | nil => rfl
  | cons r rs ih =>
    obtain ⟨a, ha⟩ := h.running r List.mem_cons_self
    have hlimits : (q.finish r (ending r)).limits = q.limits := by
      rw [finish_of_running ha, limits_settle]
    -- the rounds that are still to end do not feel this one
    have hwrites : (q.finish r (ending r)).writes ending rs = q.writes ending rs := by
      refine List.filterMap_congr fun i hi => ?_
      have hne : r ≠ i := (ne_of_mem_of_not_mem hi (List.nodup_cons.mp h.nodup).1).symm
      rw [write?, write?, running?_finish_of_ne q hne]
    show ((q.finish r (ending r)).finishAll ending rs).cache = _
    rw [ih _ (h.finish _), hlimits, hwrites, finish_of_running ha, cache_settle, writes, writes,
      List.filterMap_cons, write?, ha]
    rcases ending r with v | x | - <;> rfl

omit [DecidableEq κ] [KeyText κ] in
/-- The key of such a value is in flight. -/
theorem unfinished_of_write? {q : Queue κ τ ν ε} {ending : Nat → Ending ε ν} {r : Nat} {k : κ}
    {v : ν} (h : q.write? ending r = some (k, v)) : q.Unfinished k r := by
  rw [write?] at h
  split at h
  · next a _ ha _ =>
    obtain ⟨hr, hs⟩ := running?_eq_some_iff.mp ha
    cases h
    exact ⟨a, hr, rfl, Round.result?_of_running hs⟩
  · cases h

omit [KeyText κ] in
/-- No two of these values have the same key. -/
theorem nodup_writes {q : Queue κ τ ν ε} (hq : q.Registered) (ending : Nat → Ending ε ν)
    {rs : List Nat} (h : rs.Nodup) : ((q.writes ending rs).map (·.1)).Nodup := by
  rw [writes, List.map_filterMap]
  refine h.filterMap fun r i k hr hi => ?_
  obtain ⟨⟨_, v⟩, hr', rfl⟩ := Option.map_eq_some_iff.mp hr
  obtain ⟨⟨k, w⟩, hi', rfl⟩ := Option.map_eq_some_iff.mp hi
  exact hq.unique (unfinished_of_write? hr') (unfinished_of_write? hi')

/-- When all rounds that run have ended none does. -/
theorem underWay_finishAll {q : Queue κ τ ν ε} (ending : Nat → Ending ε ν) {rs : List Nat}
    (h : rs.Perm q.underWay) : (q.finishAll ending rs).underWay = [] := by
  refine List.eq_nil_iff_forall_not_mem.mpr fun r hr => ?_
  obtain ⟨b, hb, hs⟩ := mem_underWay_iff.mp hr
  obtain ⟨a, ha, rfl⟩ := Option.map_eq_some_iff.mp ((rounds_finishAll ..).symm.trans hb)
  split at hs
  · obtain ⟨k, t, status⟩ := a
    cases status <;> cases hs
  · next hn => exact hn (h.mem_iff.mpr (mem_underWay_iff.mpr ⟨a, ha, hs⟩))

end Queue

/-- The events by which rounds end one after the other. -/
def endings (ending : Nat → Ending ε ν) (rs : List Nat) : List (Event κ τ ν ε) :=
  rs.map fun r => .finish r (ending r)

variable [KeyText κ] [Task τ κ ν]

namespace Service

/-- The ending of a round does its own to the queue and no more, since nobody
waits for a round that was stopped. -/
theorem Attended.step_finish {s : Service κ τ ν ε} (hs : s.Attended) (r : Nat) (e : Ending ε ν) :
    (s.step (.finish r e)).2.queue = s.queue.finish r e := by
  rw [step_queue]
  refine (pollAll_of_not_killed fun w hw i hi => ?_).1
  have hw : w ∈ s.waiters := by
    rw [asked] at hw
    split at hw
    · exact hw
    · cases hw
  obtain ⟨j, a, hj, ha, hrun⟩ := hs w hw
  obtain rfl : i = j := Ticket.round.inj (hi.symm.trans hj)
  refine Option.eq_none_iff_forall_ne_some.mpr fun b hb => ?_
  obtain ⟨hb, hk⟩ := Queue.killed?_eq_some_iff.mp hb
  have hb : (s.queue.finish r e).rounds[i]? = some b := hb
  rw [Queue.rounds_finish, List.getElem?_modify, show s.queue.rounds[i]? = some a from ha] at hb
  obtain rfl := Option.some.inj hb
  split at hk
  · simp [Round.ended, hrun] at hk
  · cases hrun.symm.trans hk

theorem run_endings {s : Service κ τ ν ε} (hs : s.Attended) (hq : s.queue.Registered)
    (ending : Nat → Ending ε ν) (rs : List Nat) :
    (s.run (endings ending rs)).2.Attended ∧
      (s.run (endings ending rs)).2.queue = s.queue.finishAll ending rs := by
  induction rs generalizing s with
  | nil => exact ⟨hs, rfl⟩
  | cons r rs ih =>
    have hq' : (s.step (.finish r (ending r))).2.queue.Registered :=
      step_queue_induction (fun r h => h.poll r) (hq.apply _)
    obtain ⟨hs', hqueue⟩ := ih (hs.step hq (.finish r (ending r))) hq'
    refine ⟨hs', ?_⟩
    rw [hs.step_finish] at hqueue
    exact hqueue

/-- What is left when all rounds that run have ended, whatever the order. -/
structure Finished (s : Service κ τ ν ε) (ending : Nat → Ending ε ν) (s' : Service κ τ ν ε) :
    Prop where
  /-- Nobody waits. -/
  waiters : s'.waiters = []
  /-- Every round that ran has the result of its ending. -/
  rounds : s'.queue.rounds = s.queue.rounds.mapIdx fun r a => a.ended (ending r)
  /-- The rounds that ran are no longer in flight. -/
  inFlight : s'.queue.inFlight = s.queue.inFlight.filter fun e => e.2 ∉ s.queue.underWay
  /-- Every one that failed was counted. -/
  failures : s'.queue.metrics.map (·.failures)
    = s.queue.metrics.map (·.failures + s.queue.underWay.countP fun r => (ending r).fails)
  /-- There are as many values as there were keys, cached before or written, or
  as many as fit. -/
  size : s'.queue.cache.size = min s.queue.limits.cacheSize.val
    (s.queue.cache.span ((s.queue.writes ending s.queue.underWay).map (·.1)))
  /-- If all fit, every key has the value that was written, or the one it had. -/
  find? : s.queue.cache.span ((s.queue.writes ending s.queue.underWay).map (·.1))
      ≤ s.queue.limits.cacheSize.val →
    ∀ k, s'.queue.cache.find? k
      = ((s.queue.writes ending s.queue.underWay).lookup k).or (s.queue.cache.find? k)

theorem finished_run {s : Service κ τ ν ε} (hs : s.Attended) (hq : s.queue.Registered)
    (ht : s.queue.Tidy) (ending : Nat → Ending ε ν) {rs : List Nat}
    (h : rs.Perm s.queue.underWay) : s.Finished ending (s.run (endings ending rs)).2 := by
  obtain ⟨hs', hqueue⟩ := run_endings hs hq ending rs
  have hrs := Queue.canFinish_of_perm h
  have hwrites : (s.queue.writes ending rs).Perm (s.queue.writes ending s.queue.underWay) :=
    h.filterMap _
  have hspan := s.queue.cache.span_eq_of_perm (hwrites.map (·.1))
  have hdistinct := Queue.nodup_writes hq ending hrs.nodup
  have hsize : s.queue.cache.size ≤ s.queue.limits.cacheSize.val := by
    have hl := ht.length_keys_le
    rwa [Cache.keys, List.length_map] at hl
  refine ⟨?_, ?_, ?_, ?_, ?_, fun hfits k => ?_⟩
  · -- whoever waits does so for a round that runs
    refine List.eq_nil_iff_forall_not_mem.mpr fun w hw => ?_
    obtain ⟨r, a, -, ha, hrun⟩ := hs' w hw
    have hr := Queue.mem_underWay_iff.mpr ⟨a, ha, hrun⟩
    rw [hqueue, Queue.underWay_finishAll ending h] at hr
    cases hr
  · refine List.ext_getElem? fun i => ?_
    rw [hqueue, Queue.rounds_finishAll, List.getElem?_mapIdx]
    rcases ha : s.queue.rounds[i]? with - | a
    · rfl
    · refine congrArg some (ite_eq_left_iff.mpr fun hi => ?_)
      have hn : a.status ≠ .running := fun hrun =>
        hi (h.mem_iff.mpr (Queue.mem_underWay_iff.mpr ⟨a, ha, hrun⟩))
      exact (a.ended_of_not_running hn _).symm
  · rw [hqueue, Queue.inFlight_finishAll hq ending hrs]
    exact List.filter_congr fun e _ => decide_eq_decide.mpr (not_congr h.mem_iff)
  · rw [hqueue, Queue.failures_finishAll _ ending hrs, h.countP_eq]
  · rw [hqueue, Queue.cache_finishAll _ ending hrs, Cache.size_putAll ht.distinct hsize, hspan]
  · rw [hqueue, Queue.cache_finishAll _ ending hrs,
      Cache.find?_putAll ht.distinct hdistinct (hspan ▸ hfits), lookup_eq_of_perm hwrites hdistinct]

end Service

/-! ### Who is told -/

namespace Ledger

/-- Endings of rounds make no calls and drop none. -/
theorem known_endings (l : Ledger κ τ ν ε) (ending : Nat → Ending ε ν) (rs : List Nat) :
    ((endings ending rs).foldl step l).known.Perm l.known := by
  induction rs generalizing l with
  | nil => exact .refl _
  | cons r rs ih => exact (ih (l.step (.finish r (ending r)))).trans (l.known_step _)

/-- A ledger after all rounds that ran when it was as another one have
ended. -/
structure Completes (l : Ledger κ τ ν ε) (ending : Nat → Ending ε ν) (l' : Ledger κ τ ν ε) :
    Prop where
  faithful : l'.Faithful
  calls : l'.calls = []
  known : l'.known.Perm l.known
  finished : l.service.Finished ending l'.service

theorem completes_after (limits : Limits) (metrics : Option TaskMetrics)
    (es : List (Event κ τ ν ε)) (ending : Nat → Ending ε ν) {rs : List Nat}
    (h : rs.Perm ((Service.fresh limits metrics).run es).2.queue.underWay) :
    (after limits metrics es).Completes ending (after limits metrics (es ++ endings ending rs)) := by
  have hf : (after limits metrics es).service.Finished ending
      (after limits metrics (es ++ endings ending rs)).service := by
    rw [service_after, service_after, Service.run_append_snd]
    exact Service.finished_run (Service.attended_run limits metrics es)
      (Service.registered_run limits metrics es) (Service.tidy_run limits metrics es) ending h
  have h' := faithful_after limits metrics (es ++ endings ending rs)
  refine ⟨h', List.map_eq_nil_iff.mp (h'.waiters.trans hf.waiters), ?_, hf⟩
  rw [after, after, List.foldl_append]
  exact known_endings _ ending rs

omit [Task τ κ ν] in
/-- The calls that were pending are told the result of their own rounds. -/
theorem Completes.told {l l' : Ledger κ τ ν ε} {ending : Nat → Ending ε ν}
    (h : l.Completes ending l') (hl : l.Faithful) {c : Call κ ν} (hc : c ∈ l.calls) {r : Nat}
    (hr : c.waiter.ticket = .round r) (x : Result ε ν) :
    (c, x) ∈ l'.told ↔ x = (ending r).result (KeyText.text c.key) := by
  obtain ⟨i, a, hi, ha, hk, hrun, -⟩ := hl.pending hc
  obtain rfl : r = i := Ticket.round.inj (hr.symm.trans hi)
  have hb : l'.service.queue.Has r (a.ended (ending r)) := by
    show l'.service.queue.rounds[r]? = _
    rw [h.finished.rounds, List.getElem?_mapIdx, show l.service.queue.rounds[r]? = some a from ha]
    rfl
  have hresult : (a.ended (ending r)).result? = some ((ending r).result (KeyText.text c.key)) := by
    rw [Round.ended, hrun, ← hk]
    rfl
  have htold : ∀ x, (c, x) ∈ l'.told → x = (ending r).result (KeyText.text c.key) := by
    intro x hx
    have ho := h.faithful.outcome (c, x) hx
    rw [hr] at ho
    exact Option.some.inj (ho.symm.trans (hb.result?.trans hresult))
  refine ⟨htold x, ?_⟩
  rintro rfl
  -- the call is still known, and nothing is pending
  have hknown : c ∈ l'.told.map (·.1) := by
    have hm := h.known.mem_iff.mpr (List.mem_append_right _ hc)
    rwa [Ledger.known, h.calls, List.append_nil] at hm
  obtain ⟨⟨_, y⟩, hy, rfl⟩ := List.mem_map.mp hknown
  rwa [← htold y hy]

omit [Task τ κ ν] [KeyText κ] [DecidableEq κ] in
theorem outcome?_congr {q q' : Queue κ τ ν ε} (h : q.rounds = q'.rounds) (t : Ticket ν) :
    q.outcome? t = q'.outcome? t := by
  cases t with
  | ready v => rfl
  | round r =>
    show q.result? r = q'.result? r
    rw [Queue.result?, Queue.result?, h]

omit [Task τ κ ν] in
/-- Where nobody is pending, all calls that are known were told what their
tickets stand for. -/
theorem Completes.told_eq {l l' : Ledger κ τ ν ε} {ending : Nat → Ending ε ν}
    (h : l.Completes ending l') :
    l'.told.map (fun t => (t.1, some t.2))
      = l'.known.map fun c => (c, l'.service.queue.outcome? c.waiter.ticket) := by
  rw [Ledger.known, h.calls, List.append_nil, List.map_map]
  refine List.map_congr_left fun t ht => ?_
  show (t.1, some t.2) = (t.1, _)
  rw [h.faithful.outcome t ht]

omit [Task τ κ ν] in
/-- The same calls are told the same in whatever order the rounds end. -/
theorem Completes.told_perm {l l₁ l₂ : Ledger κ τ ν ε} {ending : Nat → Ending ε ν}
    (h₁ : l.Completes ending l₁) (h₂ : l.Completes ending l₂) : l₁.told.Perm l₂.told := by
  have hinj : Function.Injective fun t : Call κ ν × Result ε ν => (t.1, some t.2) := by
    rintro ⟨c, x⟩ ⟨d, y⟩ he
    cases he
    rfl
  have hrounds := h₁.finished.rounds.trans h₂.finished.rounds.symm
  refine (List.map_perm_map_iff hinj).mp ?_
  rw [h₁.told_eq, h₂.told_eq]
  simp only [outcome?_congr hrounds]
  exact (h₁.known.trans h₂.known.symm).map _

end Ledger

namespace Service

/-- **The order in which computations end does not matter**: say that after
some events all rounds that run end one after another, each in a way that is
laid down for it, and that nothing happens in between.  Take any two orders in
which they may do so.

Either way every call that is pending is told the result of its own round and
nothing else, and nobody goes on waiting.  The same calls have been told the
same, all rounds are the same, the same keys are in flight, as many failures
were counted, and as many values are cached.  And if the keys that were cached
before or are written now are not more than fit, every key has the same value;
only the order in which the keys were used may differ.

What it is that comes out the same is said by `Finished`. -/
theorem completion_order_is_immaterial (limits : Limits) (metrics : Option TaskMetrics)
    (es : List (Event κ τ ν ε)) (ending : Nat → Ending ε ν) {rs rs' : List Nat}
    (h : rs.Perm ((fresh limits metrics).run es).2.queue.underWay)
    (h' : rs'.Perm ((fresh limits metrics).run es).2.queue.underWay) :
    let s := ((fresh limits metrics).run es).2
    let one := s.run (endings ending rs)
    let other := s.run (endings ending rs')
    let told := (Ledger.after limits metrics (es ++ endings ending rs)).told
    let told' := (Ledger.after limits metrics (es ++ endings ending rs')).told
    (s.Finished ending one.2 ∧ s.Finished ending other.2) ∧
    (∀ c ∈ (Ledger.after limits metrics es).calls,
      ∃ r ∈ s.queue.underWay, c.waiter.ticket = .round r ∧
        ∀ x, ((c, x) ∈ told ↔ x = (ending r).result (KeyText.text c.key)) ∧
          ((c, x) ∈ told' ↔ x = (ending r).result (KeyText.text c.key))) ∧
    told.Perm told' ∧
    (one.1.flatMap (·.resolved)).Perm (other.1.flatMap (·.resolved)) ∧
    one.2.queue.rounds = other.2.queue.rounds ∧
    one.2.queue.inFlight = other.2.queue.inFlight ∧
    one.2.queue.metrics.map (·.failures) = other.2.queue.metrics.map (·.failures) ∧
    one.2.queue.cache.size = other.2.queue.cache.size ∧
    (s.queue.cache.span ((s.queue.writes ending s.queue.underWay).map (·.1))
        ≤ limits.cacheSize.val →
      ∀ k, one.2.queue.cache.find? k = other.2.queue.cache.find? k) := by
  intro s one other told told'
  have hl : (Ledger.after limits metrics es).service = s := Ledger.service_after limits metrics es
  have hfaithful := Ledger.faithful_after limits metrics es
  have hone := Ledger.completes_after limits metrics es ending h
  have hother := Ledger.completes_after limits metrics es ending h'
  have htold : told.Perm told' := hone.told_perm hother
  -- what is told before these endings is told in both orders
  have hresolved : (one.1.flatMap (·.resolved)).Perm (other.1.flatMap (·.resolved)) := by
    have hp := htold.map fun t => (t.1.waiter.caller, t.2)
    rw [Ledger.told_after, Ledger.told_after, run_append_fst, run_append_fst, List.flatMap_append,
      List.flatMap_append] at hp
    exact (List.perm_append_left_iff _).mp hp
  have hf := hone.finished
  have hf' := hother.finished
  rw [Ledger.service_after, Ledger.service_after, run_append_snd] at hf hf'
  refine ⟨⟨hf, hf'⟩, fun c hc => ?_, htold, hresolved, hf.rounds.trans hf'.rounds.symm,
    hf.inFlight.trans hf'.inFlight.symm, hf.failures.trans hf'.failures.symm,
    hf.size.trans hf'.size.symm, fun hfits k => ?_⟩
  · obtain ⟨r, a, hr, ha, -, hrun, -⟩ := hfaithful.pending hc
    rw [hl] at ha
    exact ⟨r, Queue.mem_underWay_iff.mpr ⟨a, ha, hrun⟩, hr, fun x =>
      ⟨hone.told hfaithful hc hr x, hother.told hfaithful hc hr x⟩⟩
  · have hlimits : s.queue.limits = limits := limits_run _ es
    rw [← hlimits] at hfits
    exact (hf.find? hfits k).trans (hf'.find? hfits k).symm

/-- Events after which two rounds run. -/
def twoUnderWay : List (Event UInt64 Script.Job Script.Value Script.Error) :=
  [.perform "a" ⟨5, .succeed, true, none, none⟩, .perform "b" ⟨7, .succeed, true, none, none⟩]

/-- A value for each of two rounds. -/
def twoValues (r : Nat) : Ending Script.Error Script.Value :=
  .returned ⟨⟨if r = 0 then 5 else 7, r⟩, none⟩

/-- Which of two rounds ends first makes no difference to what is found, though
it does to what was used last. -/
theorem two_rounds_complete_in_any_order :
    let s := ((fresh .standard none).run twoUnderWay).2
    let one := (s.run (endings twoValues [0, 1])).2.queue.cache
    let other := (s.run (endings twoValues [1, 0])).2.queue.cache
    ([0, 1].Perm s.queue.underWay ∧ [1, 0].Perm s.queue.underWay) ∧
      (∀ k, one.find? k = other.find? k) ∧ one.keys = [7, 5] ∧ other.keys = [5, 7] := by
  intro s one other
  have h : [0, 1].Perm s.queue.underWay := .refl _
  have h' : [1, 0].Perm s.queue.underWay := .swap 0 1 []
  obtain ⟨-, -, -, -, -, -, -, -, hfind⟩ :=
    completion_order_is_immaterial .standard none twoUnderWay twoValues h h'
  exact ⟨⟨h, h'⟩, hfind (by decide), rfl, rfl⟩

end Service

end SlotStates
