/-
SlotStates/Proofs/Metrics/Registration.lean

Registration goes as far as names are free.

Collectors are registered one after the other, and what was registered stays
when a later one is refused.  So the series of a queue are all registered if
they fit (`Registry.Fits`), and otherwise those that precede the first one that
does not (`register_cases`).  A registry tells names by their digests, so that
even two queues with names of their own can be in each other's way.

A collector that is registered was there before, or it was added since it and
those before it fit (`mem_register_iff`).  What a registry gathers are the
families of its collectors (`mem_gather_iff`) in the order of their names
(`pairwise_gather`), and after a registration also those of the collectors that
were added (`gather_append`).

The main result is `registration_ends_at_the_first_clash`.
-/
import Mathlib.Data.List.Nodup
import Mathlib.Data.String.Basic
import SlotStates.Metrics.Registry

namespace SlotStates

/-- What is sorted by names is in the order of the names. -/
theorem pairwise_mergeSort_by {α : Type} (name : α → String) (as : List α) :
    (as.mergeSort fun a b => decide (name a ≤ name b)).Pairwise fun a b => name a ≤ name b := by
  have hsorted : (as.mergeSort fun a b => decide (name a ≤ name b)).Pairwise
      fun a b => decide (name a ≤ name b) = true := by
    refine List.pairwise_mergeSort (fun a b c hab hbc => ?_) (fun a b => ?_) as
    · exact decide_eq_true (le_trans (of_decide_eq_true hab) (of_decide_eq_true hbc))
    · simpa using le_total (name a) (name b)
  exact hsorted.imp of_decide_eq_true

namespace Registry

/-! ### What fits -/

/-- Collectors can all be registered: no name of theirs has the digest of one
that is registered, or of another of theirs. -/
structure Fits (r : Registry) (cs : List Collector) : Prop where
  free : ∀ c ∈ cs, r.has c.name = false
  distinct : (cs.map fun c => Text.digest c.name).Nodup

theorem has_eq_true_iff {r : Registry} {name : String} :
    r.has name = true ↔ ∃ c ∈ r.collectors, Text.digest c.name = Text.digest name := by
  simp [has]

theorem has_eq_false_iff {r : Registry} {name : String} :
    r.has name = false ↔ ∀ c ∈ r.collectors, Text.digest c.name ≠ Text.digest name := by
  simp [has]

theorem fits_nil (r : Registry) : r.Fits [] := ⟨by simp, List.nodup_nil⟩

/-- Collectors fit if the first one does, and the others fit after it. -/
theorem fits_cons_iff {r : Registry} {c : Collector} {cs : List Collector} :
    r.Fits (c :: cs) ↔ r.has c.name = false ∧ (⟨r.collectors ++ [c]⟩ : Registry).Fits cs := by
  have after : ∀ d : Collector, (⟨r.collectors ++ [c]⟩ : Registry).has d.name = false ↔
      r.has d.name = false ∧ Text.digest c.name ≠ Text.digest d.name := fun d => by
    simp [has]
  constructor
  · rintro ⟨free, distinct⟩
    obtain ⟨hc, hcs⟩ := List.nodup_cons.mp distinct
    refine ⟨free c List.mem_cons_self, fun d hd => (after d).mpr ?_, hcs⟩
    exact ⟨free d (List.mem_cons_of_mem c hd), fun he => hc (List.mem_map.mpr ⟨d, hd, he.symm⟩)⟩
  · rintro ⟨hc, free, distinct⟩
    refine ⟨fun d hd => ?_, List.nodup_cons.mpr ⟨fun hm => ?_, distinct⟩⟩
    · rcases List.mem_cons.mp hd with rfl | hd
      · exact hc
      · exact ((after d).mp (free d hd)).1
    · obtain ⟨d, hd, he⟩ := List.mem_map.mp hm
      exact ((after d).mp (free d hd)).2 he.symm

/-- Collectors that fit leave a registry in which names have different
digests. -/
theorem Fits.nodup_append {r : Registry} {cs : List Collector} (h : r.Fits cs)
    (hr : (r.collectors.map fun c => Text.digest c.name).Nodup) :
    ((r.collectors ++ cs).map fun c => Text.digest c.name).Nodup := by
  rw [List.map_append]
  refine hr.append h.distinct fun d hd hd' => ?_
  obtain ⟨c, hc, rfl⟩ := List.mem_map.mp hd
  obtain ⟨c', hc', he⟩ := List.mem_map.mp hd'
  exact has_eq_false_iff.mp (h.free c' hc') c hc he.symm

theorem Fits.of_append {r : Registry} {cs ds : List Collector} (h : r.Fits (cs ++ ds)) :
    r.Fits cs where
  free c hc := h.free c (List.mem_append_left ds hc)
  distinct := by
    have hd := h.distinct
    rw [List.map_append] at hd
    exact hd.of_append_left

/-- What fits does not go on to a collector whose name is taken. -/
theorem Fits.has_eq_false {r : Registry} {cs : List Collector} {c : Collector}
    (h : r.Fits (cs ++ [c])) : (⟨r.collectors ++ cs⟩ : Registry).has c.name = false := by
  rw [has_eq_false_iff]
  intro d hd
  rcases List.mem_append.mp hd with hd | hd
  · exact has_eq_false_iff.mp (h.free c (by simp)) d hd
  · have hdistinct := h.distinct
    rw [List.map_append] at hdistinct
    exact fun he => List.disjoint_of_nodup_append hdistinct
      (List.mem_map.mpr ⟨d, hd, he⟩) (List.mem_singleton_self _)

/-! ### What is registered -/

/-- Either all collectors fit and are registered, or the name of one of them is
taken by then, and those before it are registered. -/
theorem register_cases (r : Registry) (cs : List Collector) :
    (r.Fits cs ∧ r.register cs = (.ok (), ⟨r.collectors ++ cs⟩)) ∨
    ∃ added c rest, cs = added ++ c :: rest ∧ r.Fits added ∧
      (⟨r.collectors ++ added⟩ : Registry).has c.name = true ∧
      r.register cs = (.error .taken, ⟨r.collectors ++ added⟩) := by
  induction cs generalizing r with
  | nil => exact .inl ⟨r.fits_nil, by rw [List.append_nil]; rfl⟩
  | cons c cs ih =>
    rcases hc : r.has c.name with - | -
    · have hadd : r.add c = .ok ⟨r.collectors ++ [c]⟩ := by simp [add, hc]
      have hassoc : ∀ ds, (⟨r.collectors ++ [c]⟩ : Registry).collectors ++ ds
          = r.collectors ++ c :: ds := fun ds => by simp
      simp only [register, hadd]
      rcases ih ⟨r.collectors ++ [c]⟩ with ⟨hfits, hreg⟩ | ⟨added, d, rest, rfl, hfits, hd, hreg⟩
      · exact .inl ⟨fits_cons_iff.mpr ⟨hc, hfits⟩, by rw [hreg, hassoc]⟩
      · rw [hassoc] at hd hreg
        exact .inr ⟨c :: added, d, rest, rfl, fits_cons_iff.mpr ⟨hc, hfits⟩, hd, hreg⟩
    · have hadd : r.add c = .error .taken := by simp [add, hc]
      refine .inr ⟨[], c, cs, rfl, r.fits_nil, ?_, ?_⟩ <;> rw [List.append_nil]
      · exact hc
      · rw [register, hadd]

theorem register_of_fits {r : Registry} {cs : List Collector} (h : r.Fits cs) :
    r.register cs = (.ok (), ⟨r.collectors ++ cs⟩) := by
  rcases r.register_cases cs with ⟨-, hreg⟩ | ⟨added, c, rest, rfl, -, hc, -⟩
  · exact hreg
  · -- the collector that is refused would fit
    rw [← List.singleton_append, ← List.append_assoc] at h
    cases hc.symm.trans h.of_append.has_eq_false

theorem fits_iff {r : Registry} {cs : List Collector} : r.Fits cs ↔ (r.register cs).1 = .ok () := by
  constructor
  · intro h
    rw [register_of_fits h]
  · intro h
    rcases r.register_cases cs with ⟨hfits, -⟩ | ⟨added, c, rest, -, -, -, hreg⟩
    · exact hfits
    · rw [hreg] at h
      cases h

/-- If the first name is taken, nothing is registered. -/
theorem register_of_has {r : Registry} {c : Collector} (h : r.has c.name = true)
    (cs : List Collector) : r.register (c :: cs) = (.error .taken, r) := by
  have hadd : r.add c = .error .taken := by simp [add, h]
  rw [register, hadd]

/-- A collector is among those that are added: it and those before it fit. -/
def Admits (r : Registry) (cs : List Collector) (c : Collector) : Prop :=
  ∃ added rest, cs = added ++ c :: rest ∧ r.Fits (added ++ [c])

theorem admits_cons_iff {r : Registry} {c d : Collector} {cs : List Collector} :
    r.Admits (c :: cs) d ↔
      r.has c.name = false ∧ (d = c ∨ (⟨r.collectors ++ [c]⟩ : Registry).Admits cs d) := by
  constructor
  · rintro ⟨added, rest, hcs, hfits⟩
    rcases added with - | ⟨e, added⟩
    · obtain ⟨rfl, -⟩ := List.cons.inj hcs
      exact ⟨(fits_cons_iff.mp hfits).1, .inl rfl⟩
    · obtain ⟨rfl, rfl⟩ := List.cons.inj hcs
      obtain ⟨hc, hfits⟩ := fits_cons_iff.mp hfits
      exact ⟨hc, .inr ⟨added, rest, rfl, hfits⟩⟩
  · rintro ⟨hc, rfl | ⟨added, rest, rfl, hfits⟩⟩
    · exact ⟨[], cs, rfl, fits_cons_iff.mpr ⟨hc, fits_nil _⟩⟩
    · exact ⟨c :: added, rest, rfl, fits_cons_iff.mpr ⟨hc, hfits⟩⟩

theorem mem_register_iff {r : Registry} {c : Collector} {cs : List Collector} :
    c ∈ (r.register cs).2.collectors ↔ c ∈ r.collectors ∨ r.Admits cs c := by
  induction cs generalizing r with
  | nil => simp [register, Admits]
  | cons d cs ih =>
    rw [admits_cons_iff]
    rcases hd : r.has d.name with - | -
    · simp only [register, add, hd, Bool.false_eq_true, if_false, ih, true_and]
      simp [or_assoc]
    · simp [register, add, hd]

theorem admits_of_fits {r : Registry} {cs : List Collector} {c : Collector} (h : r.Fits cs)
    (hc : c ∈ cs) : r.Admits cs c := by
  obtain ⟨added, rest, rfl⟩ := List.append_of_mem hc
  refine ⟨added, rest, rfl, ?_⟩
  rw [← List.singleton_append, ← List.append_assoc] at h
  exact h.of_append

theorem Admits.mem {r : Registry} {cs : List Collector} {c : Collector} (h : r.Admits cs c) :
    c ∈ cs := by
  obtain ⟨added, rest, rfl, -⟩ := h
  simp

/-- Names in a registry go on having different digests. -/
theorem nodup_register {r : Registry} (hr : (r.collectors.map fun c => Text.digest c.name).Nodup)
    (cs : List Collector) :
    ((r.register cs).2.collectors.map fun c => Text.digest c.name).Nodup := by
  rcases r.register_cases cs with ⟨hfits, hreg⟩ | ⟨added, c, rest, -, hfits, -, hreg⟩
  · rw [hreg]
    exact hfits.nodup_append hr
  · rw [hreg]
    exact hfits.nodup_append hr

/-! ### What is gathered -/

theorem mem_gather_iff {r : Registry} {ms : List TaskMetrics} {f : Family} :
    f ∈ r.gather ms ↔ ∃ c ∈ r.collectors, c.family? ms = some f := by
  rw [gather, List.mem_mergeSort, List.mem_filterMap]

/-- A family is exported if the metrics exist and have samples. -/
theorem family?_eq_some_iff {c : Collector} {ms : List TaskMetrics} {f : Family} :
    c.family? ms = some f ↔ ∃ t, ms[c.owner]? = some t ∧ t.samples c.series ≠ [] ∧
      f = ⟨c.name, c.series.help, c.series.kind, t.samples c.series⟩ := by
  rcases ht : ms[c.owner]? with - | t
  · simp [Collector.family?, ht]
  · rcases hs : t.samples c.series with - | ⟨sample, samples⟩
    · simp [Collector.family?, ht, hs]
    · simpa [Collector.family?, ht, hs] using eq_comm

theorem name_of_family? {c : Collector} {ms : List TaskMetrics} {f : Family}
    (h : c.family? ms = some f) : f.name = c.name := by
  obtain ⟨t, -, -, rfl⟩ := family?_eq_some_iff.mp h
  rfl

/-- Families are gathered in the order of their names. -/
theorem pairwise_gather {r : Registry} (hr : (r.collectors.map fun c => Text.digest c.name).Nodup)
    (ms : List TaskMetrics) : (r.gather ms).Pairwise fun f g => f.name < g.name := by
  have hne : (r.gather ms).Pairwise fun f g => f.name ≠ g.name := by
    refine ((List.mergeSort_perm _ _).pairwise_iff fun h => h.symm).mpr ?_
    refine List.pairwise_filterMap.mpr ((List.pairwise_map.mp hr).imp ?_)
    rintro c d hcd f hf g hg heq
    rw [name_of_family? hf, name_of_family? hg] at heq
    exact hcd (congrArg Text.digest heq)
  have hle : (r.gather ms).Pairwise fun f g => f.name ≤ g.name := pairwise_mergeSort_by _ _
  exact (hle.and hne).imp fun ⟨hle, hne⟩ => lt_of_le_of_ne hle hne

/-- Besides what was gathered before, the families of added collectors are
gathered. -/
theorem gather_append (r : Registry) (cs : List Collector) (ms : List TaskMetrics) :
    ((⟨r.collectors ++ cs⟩ : Registry).gather ms).Perm
      (r.gather ms ++ cs.filterMap (Collector.family? ms)) := by
  rw [gather, List.filterMap_append]
  refine (List.mergeSort_perm _ _).trans ?_
  exact (List.mergeSort_perm _ _).symm.append_right _

/-- What is registered and gathered, and how that went, by the first collector
that does not fit. -/
theorem register_splits (r : Registry) (cs : List Collector) :
    ∃ added rest, cs = added ++ rest ∧ r.Fits added ∧
      (r.register cs).2.collectors = r.collectors ++ added ∧
      (rest = [] ∧ (r.register cs).1 = .ok () ∨
        ∃ c later, rest = c :: later ∧ (r.register cs).2.has c.name = true ∧
          (r.register cs).1 = .error .taken) ∧
      ∀ ms, ((r.register cs).2.gather ms).Perm
        (r.gather ms ++ added.filterMap (Collector.family? ms)) := by
  rcases r.register_cases cs with ⟨hfits, hreg⟩ | ⟨added, c, rest, hcs, hfits, hc, hreg⟩
  · rw [hreg]
    exact ⟨cs, [], (List.append_nil cs).symm, hfits, rfl, .inl ⟨rfl, rfl⟩, r.gather_append cs⟩
  · rw [hreg]
    exact ⟨added, c :: rest, hcs, hfits, rfl, .inr ⟨c, rest, rfl, hc, rfl⟩, r.gather_append added⟩

/-- After a registration its first name is taken. -/
theorem register_again {r : Registry} {c d : Collector} {cs ds : List Collector}
    (h : (r.register (c :: cs)).1 = .ok ()) (hname : d.name = c.name) :
    (r.register (c :: cs)).2.register (d :: ds) = (.error .taken, (r.register (c :: cs)).2) := by
  refine register_of_has ?_ ds
  rw [has_eq_true_iff, register_of_fits (fits_iff.mpr h), hname]
  exact ⟨c, List.mem_append_right _ List.mem_cons_self, rfl⟩

/-- The requests are the first series of a queue. -/
theorem collectors_eq_cons (t : TaskMetrics) (owner : Nat) :
    t.collectors owner = ⟨Series.requests.name t.stem, owner, .requests⟩ ::
      [Series.failures, .cacheSize, .inFlight].map fun s => ⟨s.name t.stem, owner, s⟩ := by
  simp only [TaskMetrics.collectors, Series.all, List.map]

theorem mem_collectors_iff {t : TaskMetrics} {owner : Nat} {c : Collector} :
    c ∈ t.collectors owner ↔ ∃ s : Series, c = ⟨s.name t.stem, owner, s⟩ := by
  rw [TaskMetrics.collectors, List.mem_map]
  refine ⟨fun ⟨s, _, h⟩ => ⟨s, h.symm⟩, fun ⟨s, h⟩ => ⟨s, ?_, h.symm⟩⟩
  cases s <;> decide

/-- **Registration ends at the first clash**: the four series of a queue are
registered, whatever else a registry holds, exactly if they fit.  Otherwise the
registration is refused, and those of the four are registered that precede the
first one whose name is taken by then; everything that was registered stays,
and what is gathered is what was gathered before and the families of the series
that were added.

So nothing changes if the first name is taken already, as when a queue is
registered a second time. -/
theorem registration_ends_at_the_first_clash (r : Registry) (t : TaskMetrics) (owner : Nat) :
    let cs := t.collectors owner
    let p := r.register cs
    (p.1 = .ok () ↔ r.Fits cs) ∧
    (∃ added rest, cs = added ++ rest ∧ r.Fits added ∧ p.2.collectors = r.collectors ++ added ∧
      (rest = [] ∧ p.1 = .ok () ∨
        ∃ c later, rest = c :: later ∧ p.2.has c.name = true ∧ p.1 = .error .taken) ∧
      ∀ ms, (p.2.gather ms).Perm (r.gather ms ++ added.filterMap (Collector.family? ms))) ∧
    (r.has (Series.requests.name t.stem) = true → p = (.error .taken, r)) ∧
    (p.1 = .ok () → ∀ other, p.2.register (t.collectors other) = (.error .taken, p.2)) := by
  refine ⟨fits_iff.symm, r.register_splits (t.collectors owner), ?_, ?_⟩
  · rw [collectors_eq_cons]
    refine fun h => register_of_has ?_ _
    exact h
  · intro h other
    rw [collectors_eq_cons] at h ⊢
    rw [collectors_eq_cons t other]
    exact register_again h rfl

/-- A name of another component in the middle leaves the requests behind. -/
example :
    let other : Collector := ⟨"node_task_failures_total", 1, .failures⟩
    (⟨[other]⟩ : Registry).register ((TaskMetrics.fresh "node").collectors 0)
      = (.error .taken, ⟨[other, ⟨"node_task_requests_total", 0, .requests⟩]⟩) := by
  decide

/-! ### Two queues in each other's way -/

/-- The metrics of two queues whose names have one digest at two places: the
fourth name of the second queue has that of the third name of the first. -/
def firstQueue : TaskMetrics := .fresh "o3i1ilropqnzd"

@[inherit_doc firstQueue]
def secondQueue : TaskMetrics := .fresh "hrkuamrhynb0s"

/-- Registering one queue after the other fails with the last series of the
second one, which leaves the three before it. -/
theorem register_second_queue :
    (Registry.empty.register (firstQueue.collectors 0)).2.register (secondQueue.collectors 1)
      = (.error .taken, ⟨firstQueue.collectors 0 ++ (secondQueue.collectors 1).take 3⟩) := by
  decide +kernel

/-- A refused registration can leave series behind, and their families are
gathered then. -/
theorem refused_registration_leaves_series :
    let ms := [firstQueue, secondQueue]
    let r := (Registry.empty.register (firstQueue.collectors 0)).2
    let p := r.register (secondQueue.collectors 1)
    TaskMetrics.named firstQueue.stem = .ok firstQueue ∧
    TaskMetrics.named secondQueue.stem = .ok secondQueue ∧
    p.1 = .error .taken ∧ p.2.collectors ≠ r.collectors ∧
    ∃ f ∈ p.2.gather ms, f.name = "hrkuamrhynb0s_cache_size" ∧ f ∉ r.gather ms := by
  intro ms r p
  have hr : r = ⟨firstQueue.collectors 0⟩ := by decide +kernel
  have hp : p = (.error .taken, ⟨firstQueue.collectors 0 ++ (secondQueue.collectors 1).take 3⟩) :=
    register_second_queue
  let c : Collector := ⟨"hrkuamrhynb0s_cache_size", 1, .cacheSize⟩
  let f : Family := ⟨c.name, c.series.help, c.series.kind, [⟨[], 0⟩]⟩
  refine ⟨by decide, by decide, by rw [hp], by rw [hp, hr]; decide, f, ?_, rfl, ?_⟩
  · rw [hp, mem_gather_iff]
    exact ⟨c, by decide, by decide⟩
  · have hnames : ∀ d ∈ firstQueue.collectors 0, c.name ≠ d.name := by decide
    rw [hr, mem_gather_iff]
    rintro ⟨d, hd, hf⟩
    exact hnames d hd (name_of_family? hf)

end Registry

end SlotStates
