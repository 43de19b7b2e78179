/-
SlotStates/Proofs/Metrics/Reports.lean

What is recorded is what is reported.

A monitor answers the steps that are about metrics and registries that exist
(`answered`).  The metrics at a place are what the answered steps about this
place make of fresh ones, whatever is done to other metrics in between and
wherever they are registered (`explains_run`).  So what they count are numbers
of steps, and what they export can be read off the steps (`samples_foldl`).

A registry holds the collectors that were added to it when their metrics were
registered (`collectors_run`): each of them had a name that was free then, and
so had those before it.  Unless two names have one digest, only a registration
that succeeds adds any (`accepted_of_added`).

The main result is `metrics_report_what_was_recorded`.
-/
import Mathlib.Data.List.Induction
import SlotStates.Metrics.Monitor
import SlotStates.Proofs.Metrics.Registration

namespace SlotStates

namespace Monitor

/-! ### Runs -/

theorem run_append (m : Monitor) (ss ts : List Step) :
    m.run (ss ++ ts) =
      ((m.run ss).1 ++ ((m.run ss).2.run ts).1, ((m.run ss).2.run ts).2) := by
  induction ss generalizing m with
  | nil => rfl
  | cons s ss ih =>
    simp only [List.cons_append, run]
    split <;> simp [ih]

theorem length_run (m : Monitor) (ss : List Step) : (m.run ss).1.length = ss.length := by
  induction ss generalizing m with
  | nil => rfl
  | cons s ss ih =>
    simp only [run]
    split <;> simp [ih]

/-- The steps of a run that have an answer. -/
def answered (m : Monitor) (steps : List Step) : List Step :=
  ((steps.zip (m.run steps).1).filter fun p => p.2.isSome).map Prod.fst

theorem answered_append (m : Monitor) (ss ts : List Step) :
    m.answered (ss ++ ts) = m.answered ss ++ (m.run ss).2.answered ts := by
  simp only [answered, run_append, List.zip_append (length_run m ss).symm, List.filter_append,
    List.map_append]

/-- One more step is not answered and changes nothing, or is answered. -/
theorem run_concat_cases (m : Monitor) (ss : List Step) (s : Step) :
    ((m.run ss).2.step s = none ∧ (m.run (ss ++ [s])).2 = (m.run ss).2 ∧
      m.answered (ss ++ [s]) = m.answered ss) ∨
    ∃ a, (m.run ss).2.step s = some (a, (m.run (ss ++ [s])).2) ∧
      m.answered (ss ++ [s]) = m.answered ss ++ [s] := by
  rw [run_append, answered_append]
  rcases hs : (m.run ss).2.step s with - | ⟨a, m'⟩
  · exact .inl ⟨rfl, by simp [run, hs], by simp [answered, run, hs]⟩
  · exact .inr ⟨a, by simp [run, hs], by simp [answered, run, hs]⟩

/-! ### What a step does to metrics -/

/-- What a step makes of the metrics at a place. -/
def Step.on (i : Nat) (t : TaskMetrics) : Step → TaskMetrics
  | .recordRequest j o => if j = i then t.recordRequest o else t
  | .recordFailure j => if j = i then t.recordFailure else t
  | .setSizes j c f => if j = i then t.setSizes c f else t
  | .requests j o => if j = i then (t.readRequests o).2 else t
  | .failures _ | .create _ | .register _ _ | .gather _ => t

/-- The stem of the metrics that a step creates. -/
def Step.created : Step → Option String
  | .create stem => (TaskMetrics.named stem).toOption.map (·.stem)
  | _ => none

theorem named_eq_ok {stem : String} {t : TaskMetrics} (h : TaskMetrics.named stem = .ok t) :
    t = .fresh stem := by
  simp only [TaskMetrics.named] at h
  split at h
  · cases h
  · exact (Except.ok.inj h).symm

theorem of_update {m m' : Monitor} {j : Nat} {f : TaskMetrics → Answer × TaskMetrics} {a : Answer}
    (h : m.update j f = some (a, m')) :
    j < m.metrics.length ∧ m'.registries = m.registries ∧
      m'.metrics = m.metrics.mapIdx fun i t => if j = i then (f t).2 else t := by
  obtain ⟨t, ht, hm⟩ := Option.map_eq_some_iff.mp h
  obtain ⟨-, rfl⟩ := Prod.mk.inj hm
  have hj : j < m.metrics.length := (List.getElem?_eq_some_iff.mp ht).1
  refine ⟨hj, rfl, List.ext_getElem? fun i => ?_⟩
  rw [List.getElem?_mapIdx, List.getElem?_set]
  by_cases hij : j = i
  · subst hij
    rw [ht]
    simp [hj]
  · simp [hij]

/-- What an answered step does: it updates the metrics at one place, or adds
new ones if any, or registers metrics that are there. -/
inductive Does (m : Monitor) (s : Step) (a : Answer) (m' : Monitor) : Prop
  | update (j : Nat) (f : TaskMetrics → Answer × TaskMetrics)
      (hupdate : m.update j f = some (a, m'))
      (hon : ∀ i t, s.on i t = if j = i then (f t).2 else t)
      (hcreated : s.created = none) (hregister : ∀ i j, s ≠ .register i j)
  | create (hmetrics : m'.metrics = m.metrics ++ s.created.toList.map .fresh)
      (hregistries : m'.registries = m.registries)
      (hon : ∀ i t, s.on i t = t) (hregister : ∀ i j, s ≠ .register i j)
  | register (i j : Nat) (t : TaskMetrics) (r : Registry) (hs : s = .register i j)
      (ht : m.metrics[i]? = some t) (hr : m.registries[j]? = some r)
      (hm : m' = { m with registries := m.registries.set j (r.register (t.collectors i)).2 })
      (ha : a = .done ↔ (r.register (t.collectors i)).1 = .ok ())

theorem does_of_step {m m' : Monitor} {s : Step} {a : Answer} (h : m.step s = some (a, m')) :
    Does m s a m' := by
  cases s with
  | create stem =>
    simp only [step] at h
    split at h
    · next t ht =>
      cases h
      have hstem := named_eq_ok ht
      refine .create ?_ rfl (fun _ _ => rfl) (by simp)
      simp [Step.created, ht, hstem, Except.toOption, TaskMetrics.fresh]
    · next e he =>
      cases h
      exact .create (by simp [Step.created, he, Except.toOption]) rfl (fun _ _ => rfl) (by simp)
  | register i j =>
    simp only [step] at h
    split at h
    · next t r ht hr =>
      cases h
      refine .register i j t r rfl ht hr rfl ?_
      rcases (r.register (t.collectors i)).1 with e | u <;> simp
    · cases h
  | gather j =>
    obtain ⟨r, -, hm⟩ := Option.map_eq_some_iff.mp h
    obtain ⟨-, rfl⟩ := Prod.mk.inj hm
    exact .create (by simp [Step.created]) rfl (fun _ _ => rfl) (by simp)
  | recordRequest j o =>
    rw [step] at h
    exact .update j _ h (fun _ _ => rfl) rfl (by simp)
  | recordFailure j =>
    rw [step] at h
    exact .update j _ h (fun _ _ => rfl) rfl (by simp)
  | setSizes j c f =>
    rw [step] at h
    exact .update j _ h (fun _ _ => rfl) rfl (by simp)
  | requests j o =>
    rw [step] at h
    exact .update j _ h (fun _ _ => rfl) rfl (by simp)
  | failures j =>
    rw [step] at h
    exact .update j _ h (fun _ _ => (ite_self _).symm) rfl (by simp)

/-- A step changes the metrics that are there, and may add some. -/
theorem metrics_of_step {m m' : Monitor} {s : Step} {a : Answer} (h : m.step s = some (a, m')) :
    m'.metrics = (m.metrics.mapIdx fun i t => s.on i t) ++ s.created.toList.map .fresh := by
  have hself : m.metrics = m.metrics.mapIdx fun _ t => t :=
    List.ext_getElem? fun i => by simp
  cases does_of_step h with
  | update j f hupdate hon hcreated => simp [(of_update hupdate).2.2, hon, hcreated]
  | create hmetrics _ hon =>
    simp only [hon]
    rw [hmetrics, ← hself]
  | register i j t r hs _ _ hm =>
    subst hs hm
    simpa [Step.on, Step.created] using hself

/-- Answered steps are about metrics that are there. -/
theorem on_of_length_le {m m' : Monitor} {s : Step} {a : Answer} (h : m.step s = some (a, m'))
    {i : Nat} (hi : m.metrics.length ≤ i) (t : TaskMetrics) : s.on i t = t := by
  cases does_of_step h with
  | update j f hupdate hon =>
    have hj := (of_update hupdate).1
    rw [hon, if_neg (by omega)]
  | create _ _ hon => exact hon i t
  | register _ _ _ _ hs => rw [hs, Step.on]

/-! ### Metrics and the steps about them -/

/-- Steps explain metrics: these are what the steps make of fresh ones, and no
step is about metrics that are not there. -/
structure Explains (as : List Step) (m : Monitor) : Prop where
  metrics : m.metrics = (as.filterMap Step.created).mapIdx fun i stem =>
    as.foldl (Step.on i) (.fresh stem)
  beyond : ∀ i, m.metrics.length ≤ i → ∀ s ∈ as, ∀ t, s.on i t = t

theorem foldl_on_of_forall {as : List Step} {i : Nat} (h : ∀ s ∈ as, ∀ t, s.on i t = t)
    (t : TaskMetrics) : as.foldl (Step.on i) t = t := by
  induction as with
  | nil => rfl
  | cons s as ih =>
    rw [List.foldl_cons, h s List.mem_cons_self]
    exact ih fun s hs => h s (List.mem_cons_of_mem _ hs)

theorem Explains.step {as : List Step} {m m' : Monitor} {s : Step} {a : Answer}
    (h : Explains as m) (hs : m.step s = some (a, m')) : Explains (as ++ [s]) m' := by
  have hbeyond : ∀ i, m.metrics.length ≤ i → ∀ s' ∈ as ++ [s], ∀ t, s'.on i t = t := by
    intro i hi s' hs' t
    rcases List.mem_append.mp hs' with hs' | hs'
    · exact h.beyond i hi s' hs' t
    · rw [List.mem_singleton.mp hs']
      exact on_of_length_le hs hi t
  constructor
  · have hlen : m.metrics.length = (as.filterMap Step.created).length := by
      rw [h.metrics, List.length_mapIdx]
    have hcreated : [s].filterMap Step.created = s.created.toList := by
      cases hc : s.created <;> simp [hc]
    rw [metrics_of_step hs, List.filterMap_append, hcreated, List.mapIdx_append]
    congr 1
    · rw [h.metrics, List.mapIdx_mapIdx]
      simp [Function.comp_def]
    · -- what was created now is still fresh
      rcases s.created with - | stem
      · rfl
      · have hfold := foldl_on_of_forall (hbeyond _ hlen.le) (.fresh stem)
        simpa using hfold.symm
  · intro i hi
    refine hbeyond i (le_trans ?_ hi)
    rw [metrics_of_step hs]
    simp

theorem explains_run (n : Nat) (steps : List Step) :
    Explains ((start n).answered steps) ((start n).run steps).2 := by
  induction steps using List.reverseRecOn with
  | nil => exact ⟨rfl, fun i _ s hs => by cases hs⟩
  | append_singleton ss s ih =>
    rcases run_concat_cases (start n) ss s with ⟨-, hrun, hans⟩ | ⟨a, hs, hans⟩
    · rw [hrun, hans]
      exact ih
    · rw [hans]
      exact ih.step hs

/-! ### What metrics count -/

section Counts

variable {i : Nat} {stem : String} {as : List Step}

theorem on_stem (t : TaskMetrics) (s : Step) : (s.on i t).stem = t.stem := by
  cases s <;> simp only [Step.on] <;> split <;> rfl

theorem on_requests (t : TaskMetrics) (s : Step) (o : Outcome) :
    (s.on i t).requests.get o =
      if s = .recordRequest i o then some (t.requestCount o + 1)
      else if s = .requests i o then some (t.requestCount o)
      else t.requests.get o := by
  cases s with
  | recordRequest j p =>
    simp only [Step.on]
    split <;> simp_all [TaskMetrics.recordRequest, RequestCounts.get_set, eq_comm]
  | requests j p =>
    simp only [Step.on]
    split <;> simp_all [TaskMetrics.readRequests, RequestCounts.get_set, eq_comm]
  | recordFailure j =>
    simp only [Step.on]
    split <;> simp [TaskMetrics.recordFailure]
  | setSizes j c f =>
    simp only [Step.on]
    split <;> simp [TaskMetrics.setSizes]
  | failures _ => simp [Step.on]
  | create _ => simp [Step.on]
  | register _ _ => simp [Step.on]
  | gather _ => simp [Step.on]

theorem on_failures (t : TaskMetrics) (s : Step) :
    (s.on i t).failures = t.failures + if s = .recordFailure i then 1 else 0 := by
  cases s <;> simp only [Step.on] <;> split <;>
    simp_all [TaskMetrics.recordRequest, TaskMetrics.recordFailure, TaskMetrics.setSizes,
      TaskMetrics.readRequests]

/-- The sizes that a step sets for the metrics at a place. -/
def Step.sizes (i : Nat) : Step → Option (Nat × Nat)
  | .setSizes j c f => if j = i then some (c, f) else none
  | _ => none

/-- The sizes that were set last. -/
def lastSizes (i : Nat) (as : List Step) : Nat × Nat :=
  (as.filterMap (Step.sizes i)).getLast?.getD (0, 0)

theorem on_sizes (t : TaskMetrics) (s : Step) :
    ((s.on i t).cacheSize, (s.on i t).inFlight) =
      ((s.sizes i).map fun p => (min p.1 greatestSize, min p.2 greatestSize)).getD
        (t.cacheSize, t.inFlight) := by
  cases s <;> simp only [Step.on, Step.sizes] <;> try split
  all_goals rfl

theorem stem_foldl : (as.foldl (Step.on i) (.fresh stem)).stem = stem := by
  induction as using List.reverseRecOn with
  | nil => rfl
  | append_singleton as s ih => rw [List.foldl_concat, on_stem, ih]

/-- A count that does not exist is zero. -/
theorem requestCount_of_get {t : TaskMetrics} {o : Outcome}
    (h : t.requests.get o = if .recordRequest i o ∈ as ∨ .requests i o ∈ as
      then some (as.count (.recordRequest i o)) else none) :
    t.requestCount o = as.count (.recordRequest i o) := by
  rw [TaskMetrics.requestCount, h]
  split
  · rfl
  · next hne => exact (List.count_eq_zero.mpr fun hmem => hne (.inl hmem)).symm

/-- A request count exists if it was ever written or read, and is the number of
times it was written. -/
theorem requests_foldl (o : Outcome) :
    (as.foldl (Step.on i) (.fresh stem)).requests.get o =
      if .recordRequest i o ∈ as ∨ .requests i o ∈ as
      then some (as.count (.recordRequest i o)) else none := by
  induction as using List.reverseRecOn with
  | nil => cases o <;> rfl
  | append_singleton as s ih =>
    rw [List.foldl_concat, on_requests, requestCount_of_get ih, ih]
    by_cases hrecord : s = .recordRequest i o
    · simp [hrecord]
    · by_cases hread : s = .requests i o
      · simp [hread]
      · simp [hrecord, hread, Ne.symm hrecord, Ne.symm hread]

theorem failures_foldl :
    (as.foldl (Step.on i) (.fresh stem)).failures = as.count (.recordFailure i) := by
  induction as using List.reverseRecOn with
  | nil => rfl
  | append_singleton as s ih =>
    rw [List.foldl_concat, on_failures, ih, List.count_append, List.count_singleton]
    simp

theorem sizes_foldl :
    ((as.foldl (Step.on i) (.fresh stem)).cacheSize,
      (as.foldl (Step.on i) (.fresh stem)).inFlight) =
      (min (lastSizes i as).1 greatestSize, min (lastSizes i as).2 greatestSize) := by
  induction as using List.reverseRecOn with
  | nil => rfl
  | append_singleton as s ih =>
    rw [List.foldl_concat, on_sizes, ih, lastSizes, lastSizes, List.filterMap_append]
    cases hs : s.sizes i <;> simp [hs]

/-! ### What metrics export -/

/-- The outcomes in the order of their labels. -/
def byLabel : List Outcome := [.cached, .duplicate, .fresh, .rebased]

theorem byLabel_sorted : byLabel.Pairwise fun o p => o.label < p.label := by decide

/-- What the metrics at a place export, by the steps. -/
def reported (as : List Step) (i : Nat) : Series → List Sample
  | .requests => byLabel.filterMap fun o =>
    if .recordRequest i o ∈ as ∨ .requests i o ∈ as
    then some ⟨[("outcome", o.label)], Binary.nearest (as.count (.recordRequest i o))⟩ else none
  | .failures => [.plain (as.count (.recordFailure i))]
  | .cacheSize => [.plain (min (lastSizes i as).1 greatestSize)]
  | .inFlight => [.plain (min (lastSizes i as).2 greatestSize)]

theorem mergeSort_outcomes :
    (Outcome.all.mergeSort fun a b => decide (a.label ≤ b.label)) = byLabel := by
  have hperm : (Outcome.all.mergeSort fun a b => decide (a.label ≤ b.label)).Perm byLabel :=
    (List.mergeSort_perm _ _).trans (by decide)
  refine hperm.eq_of_pairwise (fun a b _ _ => ?_) (pairwise_mergeSort_by Outcome.label _)
    (byLabel_sorted.imp le_of_lt)
  cases a <;> cases b <;> decide

theorem samples_foldl (s : Series) :
    (as.foldl (Step.on i) (.fresh stem)).samples s = reported as i s := by
  cases s with
  | requests =>
    simp only [TaskMetrics.samples, RequestCounts.samples, mergeSort_outcomes, reported]
    refine List.filterMap_congr fun o _ => ?_
    rw [requests_foldl]
    split <;> rfl
  | failures => rw [TaskMetrics.samples, failures_foldl, reported]
  | cacheSize => rw [TaskMetrics.samples, (Prod.mk.inj sizes_foldl).1, reported]
  | inFlight => rw [TaskMetrics.samples, (Prod.mk.inj sizes_foldl).2, reported]

end Counts

/-! ### What registries hold -/

/-- A registration in a run added a collector to a registry: its name and those
before it were free when metrics were registered that it belongs to. -/
def Added (m : Monitor) (steps : List Step) (j : Nat) (c : Collector) : Prop :=
  ∃ before after i t r, steps = before ++ .register i j :: after ∧
    (m.run before).2.metrics[i]? = some t ∧ (m.run before).2.registries[j]? = some r ∧
    r.Admits (t.collectors i) c

/-- A registration in a run succeeded. -/
def Accepted (m : Monitor) (steps : List Step) (i j : Nat) : Prop :=
  ∃ before after m', steps = before ++ .register i j :: after ∧
    (m.run before).2.step (.register i j) = some (.done, m')

theorem added_concat_iff {m : Monitor} {ss : List Step} {s : Step} {j : Nat} {c : Collector} :
    m.Added (ss ++ [s]) j c ↔ m.Added ss j c ∨
      ∃ i t r, s = .register i j ∧ (m.run ss).2.metrics[i]? = some t ∧
        (m.run ss).2.registries[j]? = some r ∧ r.Admits (t.collectors i) c := by
  constructor
  · rintro ⟨before, after, i, t, r, hss, ht, hr, hc⟩
    rcases List.eq_nil_or_concat after with rfl | ⟨after, s', rfl⟩
    · obtain ⟨rfl, hs⟩ := List.append_inj' hss rfl
      exact .inr ⟨i, t, r, List.singleton_inj.mp hs, ht, hr, hc⟩
    · rw [List.concat_eq_append, ← List.cons_append, ← List.append_assoc] at hss
      obtain ⟨rfl, -⟩ := List.append_inj' hss rfl
      exact .inl ⟨before, after, i, t, r, rfl, ht, hr, hc⟩
  · rintro (⟨before, after, i, t, r, rfl, ht, hr, hc⟩ | ⟨i, t, r, rfl, ht, hr, hc⟩)
    · exact ⟨before, after ++ [s], i, t, r, by simp, ht, hr, hc⟩
    · exact ⟨ss, [], i, t, r, rfl, ht, hr, hc⟩

theorem added_register_iff {m : Monitor} {ss : List Step} {i j : Nat} {t : TaskMetrics}
    {r : Registry} (ht : (m.run ss).2.metrics[i]? = some t)
    (hr : (m.run ss).2.registries[j]? = some r) (c : Collector) :
    m.Added (ss ++ [.register i j]) j c ↔ m.Added ss j c ∨ r.Admits (t.collectors i) c := by
  rw [added_concat_iff]
  refine or_congr_right ⟨?_, fun hc => ⟨i, t, r, rfl, ht, hr, hc⟩⟩
  rintro ⟨i', t', r', he, ht', hr', hc⟩
  obtain rfl := (Step.register.inj he).1
  obtain rfl := Option.some.inj (ht.symm.trans ht')
  obtain rfl := Option.some.inj (hr.symm.trans hr')
  exact hc

/-- Only registrations at a registry add to it. -/
theorem added_concat_of_ne {m : Monitor} {ss : List Step} {s : Step} {j : Nat}
    (h : ∀ i t r, (m.run ss).2.metrics[i]? = some t → (m.run ss).2.registries[j]? = some r →
      s ≠ .register i j) (c : Collector) :
    m.Added (ss ++ [s]) j c ↔ m.Added ss j c := by
  rw [added_concat_iff]
  exact or_iff_left fun ⟨i, t, r, hs, ht, hr, _⟩ => h i t r ht hr hs

/-- What a step does to a registry: it registers metrics there, or leaves it as
it is. -/
theorem registry_of_step {m m' : Monitor} {s : Step} {a : Answer} (h : m.step s = some (a, m'))
    (j : Nat) :
    (∃ i t r, s = .register i j ∧ m.metrics[i]? = some t ∧ m.registries[j]? = some r ∧
      m'.registries[j]? = some (r.register (t.collectors i)).2) ∨
    (∀ i, s ≠ .register i j) ∧ m'.registries[j]? = m.registries[j]? := by
  cases does_of_step h with
  | update k f hupdate _ _ hregister =>
    exact .inr ⟨fun i => hregister i j, by rw [(of_update hupdate).2.1]⟩
  | create _ hregistries _ hregister => exact .inr ⟨fun i => hregister i j, by rw [hregistries]⟩
  | register i k t r hs ht hr hm =>
    subst hs hm
    by_cases hkj : k = j
    · subst hkj
      refine .inl ⟨i, t, r, rfl, ht, hr, ?_⟩
      rw [List.getElem?_set_self (List.getElem?_eq_some_iff.mp hr).1]
    · refine .inr ⟨fun i' he => hkj (Step.register.inj he).2, ?_⟩
      rw [List.getElem?_set_ne hkj]

theorem step_register {m : Monitor} {i j : Nat} {t : TaskMetrics} {r : Registry}
    (ht : m.metrics[i]? = some t) (hr : m.registries[j]? = some r) :
    ∃ a, m.step (.register i j) = some
        (a, { m with registries := m.registries.set j (r.register (t.collectors i)).2 }) ∧
      (a = .done ↔ (r.register (t.collectors i)).1 = .ok ()) := by
  rcases hresult : (r.register (t.collectors i)).1 with e | ⟨⟩
  · exact ⟨.refused e, by simp [step, ht, hr, hresult], by simp⟩
  · exact ⟨.done, by simp [step, ht, hr, hresult], by simp⟩

/-- A registry holds what was added to it, under names with different
digests. -/
theorem collectors_run {n : Nat} {steps : List Step} {j : Nat} {r : Registry}
    (hr : ((start n).run steps).2.registries[j]? = some r) :
    (r.collectors.map fun c => Text.digest c.name).Nodup ∧
    ∀ c, c ∈ r.collectors ↔ (start n).Added steps j c := by
  induction steps using List.reverseRecOn generalizing r with
  | nil =>
    have hempty : r = .empty :=
      (List.mem_replicate.mp (List.mem_of_getElem? hr : r ∈ List.replicate n .empty)).2
    subst hempty
    refine ⟨List.nodup_nil, fun c => ⟨fun hc => absurd hc List.not_mem_nil, ?_⟩⟩
    rintro ⟨before, after, i, t, r, hss, -⟩
    exact absurd hss.symm (by simp)
  | append_singleton ss s ih =>
    rcases run_concat_cases (start n) ss s with ⟨hs, hrun, -⟩ | ⟨a, hs, -⟩
    · -- a registration that is not answered is about nothing that is there
      rw [hrun] at hr
      refine ⟨(ih hr).1, fun c => ((ih hr).2 c).trans (added_concat_of_ne ?_ c).symm⟩
      rintro i t r ht hr rfl
      obtain ⟨a, hstep, -⟩ := step_register ht hr
      rw [hs] at hstep
      cases hstep
    · rcases registry_of_step hs j with ⟨i, t, r', rfl, ht, hr', hm'⟩ | ⟨hne, hm'⟩
      · obtain rfl := Option.some.inj (hr.symm.trans hm')
        refine ⟨Registry.nodup_register (ih hr').1 _, fun c => ?_⟩
        rw [Registry.mem_register_iff, (ih hr').2, added_register_iff ht hr']
      · rw [hm'] at hr
        refine ⟨(ih hr).1, fun c => ((ih hr).2 c).trans (added_concat_of_ne ?_ c).symm⟩
        exact fun i _ _ _ _ => hne i

/-! ### What registries report -/

theorem length_registries_run (n : Nat) (steps : List Step) :
    ((start n).run steps).2.registries.length = n := by
  induction steps using List.reverseRecOn with
  | nil => exact List.length_replicate
  | append_singleton ss s ih =>
    rcases run_concat_cases (start n) ss s with ⟨-, hrun, -⟩ | ⟨a, hs, -⟩
    · rw [hrun, ih]
    · cases does_of_step hs with
      | update _ _ hupdate => rw [(of_update hupdate).2.1, ih]
      | create _ hregistries => rw [hregistries, ih]
      | register _ _ _ _ _ _ _ hm => rw [hm, List.length_set, ih]

/-- The stems of the metrics that a run created. -/
def stems (n : Nat) (steps : List Step) : List String :=
  ((start n).answered steps).filterMap Step.created

theorem getElem?_metrics_run (n : Nat) (steps : List Step) (i : Nat) :
    ((start n).run steps).2.metrics[i]? = (stems n steps)[i]?.map fun stem =>
      ((start n).answered steps).foldl (Step.on i) (.fresh stem) := by
  rw [(explains_run n steps).metrics, List.getElem?_mapIdx, stems]

/-- Metrics keep their stem. -/
theorem stems_append {n i : Nat} {before : List Step} {t : TaskMetrics}
    (ht : ((start n).run before).2.metrics[i]? = some t) (after : List Step) :
    (stems n (before ++ after))[i]? = some t.stem := by
  rw [getElem?_metrics_run] at ht
  obtain ⟨stem, hstem, rfl⟩ := Option.map_eq_some_iff.mp ht
  rw [stem_foldl, stems, answered_append, List.filterMap_append]
  exact List.getElem?_append_left (List.getElem?_eq_some_iff.mp hstem).1 |>.trans hstem

/-- What was added are series of metrics that were created, and then the
requests of these metrics were added, too. -/
theorem eq_of_added {n j : Nat} {steps : List Step} {c : Collector}
    (h : (start n).Added steps j c) :
    ∃ i stem s, (stems n steps)[i]? = some stem ∧ c = ⟨Series.name s stem, i, s⟩ ∧
      (start n).Added steps j ⟨Series.requests.name stem, i, .requests⟩ := by
  obtain ⟨before, after, i, t, r, rfl, ht, hr, hc⟩ := h
  obtain ⟨s, rfl⟩ := Registry.mem_collectors_iff.mp hc.mem
  refine ⟨i, t.stem, s, stems_append ht _, rfl, before, after, i, t, r, rfl, ht, hr, ?_⟩
  rw [Registry.collectors_eq_cons] at hc ⊢
  exact Registry.admits_cons_iff.mpr ⟨(Registry.admits_cons_iff.mp hc).1, .inl rfl⟩

theorem mem_gather_run {n j : Nat} {steps : List Step} {r : Registry}
    (hr : ((start n).run steps).2.registries[j]? = some r) (f : Family) :
    f ∈ r.gather ((start n).run steps).2.metrics ↔ ∃ i stem s,
      (stems n steps)[i]? = some stem ∧ (start n).Added steps j ⟨s.name stem, i, s⟩ ∧
      reported ((start n).answered steps) i s ≠ [] ∧
      f = ⟨s.name stem, s.help, s.kind, reported ((start n).answered steps) i s⟩ := by
  simp only [Registry.mem_gather_iff, Registry.family?_eq_some_iff, (collectors_run hr).2,
    getElem?_metrics_run]
  constructor
  · rintro ⟨c, hc, t, ht, hsamples, rfl⟩
    obtain ⟨i, stem, s, hstem, rfl, -⟩ := eq_of_added hc
    obtain rfl : _ = t := Option.some.inj ((congrArg (Option.map _) hstem).symm.trans ht)
    rw [samples_foldl] at hsamples
    exact ⟨i, stem, s, hstem, hc, hsamples, by rw [samples_foldl]⟩
  · rintro ⟨i, stem, s, hstem, hc, hsamples, rfl⟩
    refine ⟨⟨s.name stem, i, s⟩, hc, _, congrArg (Option.map _) hstem, ?_, ?_⟩ <;>
      rw [samples_foldl]
    exact hsamples

/-! ### Success -/

/-- Different names under some stems have different digests. -/
def ToldApart (stems : List String) : Prop :=
  ∀ p ∈ stems, ∀ q ∈ stems, ∀ s s' : Series,
    Text.digest (s.name p) = Text.digest (s'.name q) → p = q ∧ s = s'

/-- A registration that succeeded added every series. -/
theorem added_of_accepted {n i j : Nat} {steps : List Step} {stem : String}
    (h : (start n).Accepted steps i j) (hstem : (stems n steps)[i]? = some stem) (s : Series) :
    (start n).Added steps j ⟨s.name stem, i, s⟩ := by
  obtain ⟨before, after, m', rfl, hstep⟩ := h
  cases does_of_step hstep with
  | update _ _ _ _ _ hregister => exact absurd rfl (hregister i j)
  | create _ _ _ hregister => exact absurd rfl (hregister i j)
  | register i' j' t r hs ht hr _ ha =>
    obtain ⟨rfl, rfl⟩ := Step.register.inj hs
    obtain rfl := Option.some.inj (hstem.symm.trans (stems_append ht _))
    refine ⟨before, after, i, t, r, rfl, ht, hr, ?_⟩
    exact Registry.admits_of_fits (Registry.fits_iff.mpr (ha.mp rfl))
      (Registry.mem_collectors_iff.mpr ⟨s, rfl⟩)

/-- Names that are told apart are taken all four at once: where one series is
added, the registration succeeded. -/
theorem accepted_of_added {n j : Nat} {steps : List Step} {c : Collector}
    (hapart : ToldApart (stems n steps)) (h : (start n).Added steps j c) :
    (start n).Accepted steps c.owner j := by
  obtain ⟨before, after, i, t, r, rfl, ht, hr, hc⟩ := h
  have hstem := List.mem_of_getElem? (stems_append ht (.register i j :: after))
  have howner : c.owner = i := by
    obtain ⟨s, rfl⟩ := Registry.mem_collectors_iff.mp hc.mem
    rfl
  have hfree : r.has (Series.requests.name t.stem) = false := by
    rw [Registry.collectors_eq_cons] at hc
    exact (Registry.admits_cons_iff.mp hc).1
  have hfits : r.Fits (t.collectors i) := by
    constructor
    · intro d hd
      obtain ⟨s, rfl⟩ := Registry.mem_collectors_iff.mp hd
      rw [Registry.has_eq_false_iff]
      intro e he hdigest
      -- whoever holds the name holds the requests under this stem
      obtain ⟨k, stem, s', hk, rfl, hrequests⟩ := eq_of_added (((collectors_run hr).2 e).mp he)
      have hmem : stem ∈ stems n (before ++ .register i j :: after) := by
        rw [stems, answered_append, List.filterMap_append]
        exact List.mem_append_left _ (List.mem_of_getElem? hk)
      obtain ⟨rfl, -⟩ := hapart stem hmem _ hstem s' s hdigest
      exact Registry.has_eq_false_iff.mp hfree _ (((collectors_run hr).2 _).mpr hrequests) rfl
    · rw [TaskMetrics.collectors, List.map_map]
      refine List.Nodup.map_on (fun s _ s' _ he => ?_) (by decide)
      exact (hapart _ hstem _ hstem s s' he).2
  rw [howner]
  obtain ⟨a, hstep, ha⟩ := step_register ht hr
  rw [ha.mpr (Registry.fits_iff.mp hfits)] at hstep
  exact ⟨before, after, _, rfl, hstep⟩

/-- **Metrics report what was recorded**: after any steps on any number of
registries, the requests of some outcome and the failures that metrics count
are as many as were recorded on them, and what a registry gathers, in the order
of the names, are the families of the series that were added to it, each with
what its metrics export (`reported`), and left out if this is nothing.

A registration that succeeds adds all series of the metrics.  One that is
refused adds none, unless two different names have one digest. -/
theorem metrics_report_what_was_recorded (n : Nat) (steps : List Step) :
    let m := ((start n).run steps).2
    let as := (start n).answered steps
    m.metrics.length = (stems n steps).length ∧
    (∀ i, i < m.metrics.length →
      (∀ o, (m.step (.requests i o)).map Prod.fst = some (.count (as.count (.recordRequest i o)))) ∧
      (m.step (.failures i)).map Prod.fst = some (.count (as.count (.recordFailure i)))) ∧
    (∀ j, j < n → ∃ fs, m.step (.gather j) = some (.families fs, m) ∧
      (fs.Pairwise fun f g => f.name < g.name) ∧
      ∀ f, f ∈ fs ↔ ∃ i stem s, (stems n steps)[i]? = some stem ∧
        (start n).Added steps j ⟨s.name stem, i, s⟩ ∧ reported as i s ≠ [] ∧
        f = ⟨s.name stem, s.help, s.kind, reported as i s⟩) ∧
    ∀ i j stem, (stems n steps)[i]? = some stem →
      ((start n).Accepted steps i j → ∀ s, (start n).Added steps j ⟨s.name stem, i, s⟩) ∧
      (ToldApart (stems n steps) →
        ∀ s, (start n).Added steps j ⟨s.name stem, i, s⟩ → (start n).Accepted steps i j) := by
  intro m as
  have hmetrics : m.metrics.length = (stems n steps).length := by
    rw [show m.metrics = _ from (explains_run n steps).metrics, List.length_mapIdx, stems]
  refine ⟨hmetrics, fun i hi => ?_, fun j hj => ?_, fun i j stem hstem => ⟨?_, ?_⟩⟩
  · have ht : m.metrics[i]? = some (as.foldl (Step.on i) (.fresh (stems n steps)[i])) := by
      rw [getElem?_metrics_run, List.getElem?_eq_getElem (hmetrics ▸ hi), Option.map_some]
    constructor
    · intro o
      simp [step, update, ht, TaskMetrics.readRequests, requestCount_of_get (requests_foldl o)]
    · simp [step, update, ht, failures_foldl]
  · have hlen : j < m.registries.length := by rwa [length_registries_run]
    have hr : m.registries[j]? = some m.registries[j] := List.getElem?_eq_getElem hlen
    refine ⟨m.registries[j].gather m.metrics, ?_, ?_, mem_gather_run hr⟩
    · rw [step, hr, Option.map_some]
    · exact Registry.pairwise_gather (collectors_run hr).1 _
  · exact fun h s => added_of_accepted h hstem s
  · exact fun hapart s h => accepted_of_added hapart h

/-- Steps that register two queues of which one is in the way of the other. -/
def twoQueues : List Step :=
  [.create Registry.firstQueue.stem, .create Registry.secondQueue.stem, .register 0 0,
    .register 1 0]

theorem run_twoQueues :
    (start 2).run twoQueues
      = ([some .done, some .done, some .done, some (.refused .taken)],
        ⟨[Registry.firstQueue, Registry.secondQueue],
          [⟨Registry.firstQueue.collectors 0 ++ (Registry.secondQueue.collectors 1).take 3⟩,
            .empty]⟩) := by
  decide +kernel

/-- Where two names have one digest, families are gathered of metrics whose
only registration was refused. -/
theorem refused_metrics_are_gathered :
    let p := (start 2).run twoQueues
    p.1 = [some .done, some .done, some .done, some (.refused .taken)] ∧
    ∃ fs, p.2.step (.gather 0) = some (.families fs, p.2) ∧
      ∃ f ∈ fs, f.name = Series.cacheSize.name Registry.secondQueue.stem ∧
        ∀ s : Series, f.name ≠ s.name Registry.firstQueue.stem := by
  intro p
  let c : Collector := ⟨Series.cacheSize.name Registry.secondQueue.stem, 1, .cacheSize⟩
  rw [show p = _ from run_twoQueues]
  refine ⟨rfl, _, rfl, ⟨c.name, c.series.help, c.series.kind, [⟨[], 0⟩]⟩, ?_, rfl, ?_⟩
  · rw [Registry.mem_gather_iff]
    exact ⟨c, by decide, by decide⟩
  · intro s
    cases s <;> decide

end Monitor

end SlotStates
