/-
SlotStates/Proofs/State/Questions.lean

What collaborators are asked, and by whom.

A round asks at most two questions.  The first is for a base, and it is asked
only by a round that was launched without one; the second is for a later state,
and it is asked only by a round that has a base before its slot.  Which of them
a round asks is a function of its task and of what the provider has replied to
it (`StateTask.questions`, `StateService.heard?`).

That a round asks these questions and no others is an invariant of runs
(`Scripted`): a round asks when it is launched and when the provider replies to
it, the latter once, since a question is answered once; everything else asks
nothing.  Conversely a round that was given no base waits for the provider as
long as it runs and has heard nothing (`Waits`), so that it hears the first
reply there is (`hears_iff`).  A request that launches a round without a base makes it ask the
provider at once, and nothing else does (`asked_step_of_fresh`,
`lookups_step_of_not_fresh`), so the provider is asked as often as requests are
counted as new.

The main result is `rounds_ask_what_they_need`.
-/
import SlotStates.Proofs.Queue.Accounts
import SlotStates.Proofs.Queue.Launches
import SlotStates.Proofs.State.Checkpoints

namespace SlotStates

variable {σ : Type}

/-- Whether a question is for a base. -/
def Demand.isLookup : Demand σ → Bool
  | .lookup _ => true
  | .transition _ => false

/-- The question that a course comes to, if it comes to one. -/
def Course.questions : Course σ → List (Demand σ)
  | .ask t => [.transition t]
  | .done _ => []

theorem Course.isLookup_of_mem_questions {course : Course σ} {d : Demand σ}
    (h : d ∈ course.questions) : d.isLookup = false := by
  cases course with
  | ask t => rw [List.mem_singleton.mp h]; rfl
  | done e => cases h

/-- Of questions with the rounds that ask them, those of one round. -/
def questionsOf (r : Nat) (asked : List (Nat × Demand σ)) : List (Demand σ) :=
  (asked.filter (·.1 = r)).map (·.2)

theorem questionsOf_append (r : Nat) (asked asked' : List (Nat × Demand σ)) :
    questionsOf r (asked ++ asked') = questionsOf r asked ++ questionsOf r asked' := by
  rw [questionsOf, List.filter_append, List.map_append]
  rfl

theorem questionsOf_map_self (r : Nat) (ds : List (Demand σ)) :
    questionsOf r (ds.map (r, ·)) = ds := by
  simp [questionsOf, List.filter_map, Function.comp_def]

theorem questionsOf_eq_nil {r : Nat} {asked : List (Nat × Demand σ)} (h : ∀ o ∈ asked, o.1 ≠ r) :
    questionsOf r asked = [] := by
  rw [questionsOf, List.filter_eq_nil_iff.mpr fun o ho => by simpa using h o ho]
  rfl

theorem mem_questionsOf_iff {r : Nat} {asked : List (Nat × Demand σ)} {d : Demand σ} :
    d ∈ questionsOf r asked ↔ (r, d) ∈ asked := by
  simp [questionsOf]

/-! ### What a task asks -/

namespace StateTask

variable [HasSlot σ] {p : Preset} {t : StateTask σ}

/-- The base that a task has: the one it was given, or what the provider has
replied. -/
def found (t : StateTask σ) (reply : Option (Reply (Option σ))) : Option σ :=
  match t.base, reply with
  | some base, _ => some base
  | none, some (.ok base) => base
  | none, _ => none

/-- The later state that a task asks for. -/
def next? (p : Preset) (t : StateTask σ) (reply : Option (Reply (Option σ))) :
    Option (Transition σ) :=
  match t.found reply with
  | some base => if HasSlot.slot base < t.key.slot then some (t.transition p base) else none
  | none => none

/-- All that a task asks, if the provider has replied to it or has not yet. -/
def questions (p : Preset) (t : StateTask σ) (reply : Option (Reply (Option σ))) :
    List (Demand σ) :=
  (if t.base.isNone then [.lookup t.key.root] else []) ++ ((t.next? p reply).map .transition).toList

theorem questions_advance (base : σ) :
    (t.advance p base).questions
      = if HasSlot.slot base < t.key.slot then [.transition (t.transition p base)] else [] := by
  unfold advance
  -- at the slot, past it, or before it
  split
  · next h => rw [if_neg (h ▸ UInt64.lt_irrefl _)]; rfl
  · next hne =>
    split
    · next h => rw [if_neg (UInt64.lt_asymm h)]; rfl
    · next h => rw [if_pos (UInt64.lt_of_le_of_ne (UInt64.not_lt.mp h) hne)]; rfl

theorem questions_of_base_eq_none (h : t.base = none) : t.questions p none = [.lookup t.key.root] := by
  simp [questions, next?, found, h]

theorem questions_of_base_eq_some {base : σ} (h : t.base = some base)
    (reply : Option (Reply (Option σ))) : t.questions p reply = (t.advance p base).questions := by
  rw [questions_advance]
  by_cases hlt : HasSlot.slot base < t.key.slot <;> simp [questions, next?, found, h, hlt]

/-- The reply of the provider adds what the task asks then. -/
theorem questions_some (h : t.base = none) (reply : Reply (Option σ)) :
    t.questions p (some reply) = t.questions p none ++ (t.afterLookup p reply).questions := by
  rw [questions_of_base_eq_none h]
  rcases reply with (- | base) | causes | -
  case ok.some =>
    rw [afterLookup, questions_advance]
    by_cases hlt : HasSlot.slot base < t.key.slot <;> simp [questions, next?, found, h, hlt]
  all_goals simp [questions, next?, found, h, afterLookup, Course.questions]

/-- When a task asks for no later state: it has a base at or past its slot, or
the provider has not given it one. -/
theorem next?_eq_none_iff {reply : Option (Reply (Option σ))} :
    t.next? p reply = none ↔
      (∃ base, t.base = some base ∧ t.key.slot ≤ HasSlot.slot base) ∨
      t.base = none ∧ (reply = none ∨ reply = some .panicked ∨
        (∃ causes, reply = some (.failed causes)) ∨ reply = some (.ok none) ∨
        ∃ base, reply = some (.ok (some base)) ∧ t.key.slot ≤ HasSlot.slot base) := by
  rcases hb : t.base with - | base
  · rcases reply with - | (- | base) | causes | - <;> simp [next?, found, hb]
  · simp [next?, found, hb]

theorem next?_eq_some {reply : Option (Reply (Option σ))} {tr : Transition σ}
    (h : t.next? p reply = some tr) :
    ∃ base, (t.base = some base ∨ t.base = none ∧ reply = some (.ok (some base))) ∧
      HasSlot.slot base < t.key.slot ∧ tr = t.transition p base := by
  have hfound : ∃ base, t.found reply = some base ∧ HasSlot.slot base < t.key.slot ∧
      tr = t.transition p base := by
    rcases hf : t.found reply with - | base
    · simp [next?, hf] at h
    · simp only [next?, hf] at h
      split at h
      · next hlt => exact ⟨base, rfl, hlt, (Option.some.inj h).symm⟩
      · cases h
  obtain ⟨base, hf, hlt, htr⟩ := hfound
  refine ⟨base, ?_, hlt, htr⟩
  rcases hb : t.base with - | base'
  · rcases reply with - | (- | base') | causes | - <;> simp_all [found]
  · simp_all [found]

omit [HasSlot σ] in
/-- What a task asks for leads from a base to its slot: up to it if the slot
starts no epoch, and otherwise to the checkpoint of the epoch that it starts. -/
theorem transition_spec (base : σ) :
    match t.transition p base with
    | .replay b target => b = base ∧ target = t.key.slot ∧
        ∀ n : Nat, n * p.slotsPerEpoch.toNat ≠ target.toNat
    | .regenerate c b => b = base ∧ c.root = t.key.root ∧
        c.epoch.toNat * p.slotsPerEpoch.toNat = t.key.slot.toNat := by
  by_cases h : p.isEpochStart t.key.slot = true
  · rw [transition, if_pos h]
    exact ⟨rfl, rfl, (Preset.toNat_of_isEpochStart h).symm⟩
  · rw [transition, if_neg h]
    refine ⟨rfl, rfl, fun n hn => h ((p.isEpochStart_iff _).mpr ?_)⟩
    rw [← hn, Nat.mul_mod_left]

theorem base_eq_none_of_lookup_mem {root : Root} {reply : Option (Reply (Option σ))}
    (h : .lookup root ∈ t.questions p reply) : t.base = none := by
  rcases hb : t.base with - | base
  · rfl
  · rw [questions_of_base_eq_some hb, questions_advance] at h
    split at h <;> simp at h

theorem next?_eq_some_of_transition_mem {tr : Transition σ} {reply : Option (Reply (Option σ))}
    (h : .transition tr ∈ t.questions p reply) : t.next? p reply = some tr := by
  rcases List.mem_append.mp h with h | h
  · split at h <;> simp at h
  · rcases hn : t.next? p reply with - | tr' <;> rw [hn] at h
    · cases h
    · cases List.mem_singleton.mp h
      rfl

end StateTask

namespace StateService

variable [HasSlot σ]

/-! ### What a round hears -/

/-- The reply of the provider that a round gets by an event. -/
def hears (s : StateService σ) (r : Nat) : StateEvent σ → Option (Reply (Option σ))
  | .foundBase i reply =>
    if i = r ∧ (s.service.queue.running? r).isSome ∧ s.awaits r (·.isLookup) then some reply
    else none
  | _ => none

/-- The reply of the provider that a round gets in a run. -/
def heard? (s : StateService σ) (r : Nat) : List (StateEvent σ) → Option (Reply (Option σ))
  | [] => none
  | e :: es => (s.hears r e).or ((s.step e).2.heard? r es)

theorem step_of_hears {s : StateService σ} {r : Nat} {e : StateEvent σ}
    {reply : Reply (Option σ)} (h : s.hears r e = some reply) :
    e = .foundBase r reply ∧ ∃ a root, s.service.queue.running? r = some a ∧
      (r, .lookup root) ∈ s.questions ∧
      s.step e = s.follow r a.task (a.task.afterLookup s.preset reply) := by
  cases e with
  | foundBase i reply' =>
    simp only [hears] at h
    split at h
    · next hc =>
      obtain ⟨rfl, hrun, hawaits⟩ := hc
      obtain rfl := Option.some.inj h
      obtain ⟨a, ha⟩ := Option.isSome_iff_exists.mp hrun
      obtain ⟨d, hm, hd⟩ := awaits_iff.mp hawaits
      cases d with
      | transition t => cases hd
      | lookup root =>
        refine ⟨rfl, a, root, ha, hm, ?_⟩
        show s.foundBase i reply' = _
        simp only [foundBase, ha]
        exact if_pos (awaits_iff.mpr ⟨_, hm, rfl⟩)
    · cases h
  | _ => cases h

theorem step_of_not_hears {s : StateService σ} {r : Nat} {reply : Reply (Option σ)}
    (h : s.hears r (.foundBase r reply) = none) :
    s.step (.foundBase r reply) = (.nothing, s) := by
  show s.foundBase r reply = _
  rcases hr : s.service.queue.running? r with - | a
  · simp only [foundBase, hr]
  · simp only [foundBase, hr]
    refine if_neg fun hawaits => ?_
    obtain ⟨d, hm, hd⟩ := awaits_iff.mp hawaits
    have hlookup : s.awaits r (·.isLookup) = true := by
      refine awaits_iff.mpr ⟨d, hm, ?_⟩
      cases d with
      | lookup root => rfl
      | transition t => cases hd
    rw [hears, if_pos ⟨rfl, by rw [hr]; rfl, hlookup⟩] at h
    cases h

/-! ### Asking -/

/-- A round asks questions, and then waits for the replies to these alone; all
tasks stay as they are. -/
structure Asks (s : StateService σ) (r : Nat) (ds : List (Demand σ))
    (p : StateReport σ × StateService σ) : Prop where
  preset : p.2.preset = s.preset
  tasks : p.2.service.queue.tasks = s.service.queue.tasks
  asked : p.1.asked = ds.map (r, ·)
  questions : p.2.questions = s.questions.filter (·.1 ≠ r) ++ ds.map (r, ·)

omit [HasSlot σ] in
theorem asks_ask (s : StateService σ) (r : Nat) (d : Demand σ) (notes : List StateNote) :
    s.Asks r [d] (s.ask r d notes) := ⟨rfl, rfl, rfl, rfl⟩

omit [HasSlot σ] in
/-- An event that is no request changes no task. -/
theorem tasks_send (s : StateService σ) {e : QueueEvent σ} (he : e.isRequest = false) :
    (s.send e).2.service.queue.tasks = s.service.queue.tasks :=
  Service.tasks_step_of_not_launches (s.service.launches_answer_step he)

theorem asks_follow (s : StateService σ) (r : Nat) (t : StateTask σ) (course : Course σ) :
    s.Asks r course.questions (s.follow r t course) := by
  cases course with
  | ask tr => exact s.asks_ask r _ _
  | done e => exact ⟨rfl, tasks_send _ rfl, rfl, (List.append_nil _).symm⟩

/-- A round that runs asks in its first turn what it asks before the provider
has replied. -/
theorem asks_begin {s : StateService σ} {r : Nat} {a : Round StateKey (StateTask σ) σ StateError}
    (ha : s.service.queue.running? r = some a) :
    s.Asks r (a.task.questions s.preset none) (s.begin r) := by
  rcases hb : a.task.base with - | base
  · have ht : a.task.start s.preset = .lookup a.task.key.root := by rw [StateTask.start, hb]
    rw [StateTask.questions_of_base_eq_none hb]
    simp only [begin, ha, ht]
    exact s.asks_ask r _ _
  · have ht : a.task.start s.preset = .go (a.task.advance s.preset base) := by
      rw [StateTask.start, hb]
    rw [StateTask.questions_of_base_eq_some hb]
    simp only [begin, ha, ht]
    exact s.asks_follow r _ _

/-! ### Who asks what -/

/-- All that was asked was asked by rounds, each of which has asked what its
task asks, given what it has heard from the provider; and what is waited for was
asked, and is waited for until it is heard. -/
structure Scripted (s : StateService σ) (asked : List (Nat × Demand σ))
    (heard : Nat → Option (Reply (Option σ))) : Prop where
  known : ∀ o ∈ asked, s.service.queue.tasks[o.1]? ≠ none
  unheard : ∀ r, s.service.queue.tasks[r]? = none → heard r = none
  asks : ∀ r t, s.service.queue.tasks[r]? = some t →
    questionsOf r asked = t.questions s.preset (heard r)
  pending : ∀ o ∈ s.questions, o ∈ asked ∧ (o.2.isLookup = true → heard o.1 = none)

theorem scripted_fresh (p : Preset) (limits : Limits) (metrics : Option TaskMetrics) :
    (fresh p limits metrics : StateService σ).Scripted [] fun _ => none where
  known o ho := by cases ho
  unheard _ _ := rfl
  asks r t ht := by cases ht
  pending o ho := by cases ho

/-- Nothing is asked, nothing is heard, and no round is launched. -/
theorem Scripted.congr {s s' : StateService σ} {asked : List (Nat × Demand σ)}
    {heard : Nat → Option (Reply (Option σ))} (h : s.Scripted asked heard)
    (hp : s'.preset = s.preset) (ht : s'.service.queue.tasks = s.service.queue.tasks)
    (hq : s'.questions ⊆ s.questions) : s'.Scripted asked heard where
  known o ho := by rw [ht]; exact h.known o ho
  unheard r hr := h.unheard r (ht ▸ hr)
  asks r t hr := by rw [hp]; exact h.asks r t (ht ▸ hr)
  pending o ho := h.pending o (hq ho)

/-- One round asks what it is to ask next.  It may be a new one, and it may have
heard from the provider. -/
theorem Scripted.extend {s s' : StateService σ} {asked : List (Nat × Demand σ)}
    {heard heard' : Nat → Option (Reply (Option σ))} (h : s.Scripted asked heard)
    {r : Nat} {t : StateTask σ} {ds : List (Demand σ)} {p : StateReport σ × StateService σ}
    (hasks : s'.Asks r ds p) (hp : s'.preset = s.preset) (hq : s'.questions = s.questions)
    (hothers : ∀ i ≠ r, s'.service.queue.tasks[i]? = s.service.queue.tasks[i]? ∧
      heard' i = heard i)
    (ht : s'.service.queue.tasks[r]? = some t)
    (hnext : t.questions s.preset (heard' r) = questionsOf r asked ++ ds)
    (hlookup : ∀ d ∈ ds, d.isLookup = true → heard' r = none) :
    p.2.Scripted (asked ++ p.1.asked) heard' where
  known o ho := by
    rw [hasks.tasks]
    by_cases hr : o.1 = r
    · rw [hr, ht]
      exact Option.some_ne_none t
    · rw [(hothers _ hr).1]
      rw [hasks.asked] at ho
      rcases List.mem_append.mp ho with ho | ho
      · exact h.known o ho
      · obtain ⟨d, -, rfl⟩ := List.mem_map.mp ho
        exact absurd rfl hr
  unheard i hi := by
    rw [hasks.tasks] at hi
    have hr : i ≠ r := by
      rintro rfl
      cases ht.symm.trans hi
    rw [(hothers i hr).2]
    exact h.unheard i ((hothers i hr).1 ▸ hi)
  asks i u hi := by
    rw [hasks.tasks] at hi
    rw [hasks.preset, hp, hasks.asked, questionsOf_append]
    by_cases hr : i = r
    · subst hr
      obtain rfl := Option.some.inj (ht.symm.trans hi)
      rw [questionsOf_map_self, hnext]
    · have hnone : questionsOf i (ds.map (r, ·)) = [] := by
        refine questionsOf_eq_nil fun o ho => ?_
        obtain ⟨d, -, rfl⟩ := List.mem_map.mp ho
        exact Ne.symm hr
      rw [hnone, List.append_nil, (hothers i hr).2]
      exact h.asks i u ((hothers i hr).1 ▸ hi)
  pending o ho := by
    rw [hasks.questions, hq] at ho
    rw [hasks.asked]
    rcases List.mem_append.mp ho with ho | ho
    · obtain ⟨ho, hr⟩ := List.mem_filter.mp ho
      obtain ⟨hm, hn⟩ := h.pending o ho
      rw [(hothers _ (of_decide_eq_true hr)).2]
      exact ⟨List.mem_append_left _ hm, hn⟩
    · obtain ⟨d, hd, rfl⟩ := List.mem_map.mp ho
      exact ⟨List.mem_append_right _ ho, hlookup d hd⟩

/-- The new round of a request asks what it asks before the provider has
replied. -/
theorem asks_request {s : StateService σ} (caller : String) {k : StateKey} {r : Nat}
    {w : Walk StateKey σ} (h : (s.service.queue.request (.ofKey k)).1 = .launched r w) :
    (s.send (.perform caller (.ofKey k))).2.Asks r
      ((w.prepare (StateTask.ofKey k)).questions s.preset none) (s.request caller k) := by
  let s' := (s.send (.perform caller (.ofKey k))).2
  rcases s.request_cases caller k with ⟨hl, -, -⟩ | ⟨i, v, ha, -, hr⟩
  · have hl : (Answer.admitted (s.service.queue.request (StateTask.ofKey k)).1).launches = false := hl
    rw [h] at hl
    cases hl
  · cases h.symm.trans (Answer.admitted.inj ha)
    have hrun : s'.service.queue.running? r = some ⟨k, w.prepare (.ofKey k), .running⟩ :=
      Queue.running?_eq_some_iff.mpr ⟨Service.has_launched caller h, rfl⟩
    obtain ⟨hp, ht, hasked, hq⟩ := asks_begin hrun
    rw [hr]
    exact ⟨hp, ht, hasked, hq⟩

/-- What is asked when a request is admitted is what the new round asks, if
there is one. -/
theorem asked_request (s : StateService σ) (caller : String) (k : StateKey) :
    (s.request caller k).1.asked = match (s.service.queue.request (.ofKey k)).1 with
      | .launched r w => ((w.prepare (StateTask.ofKey k)).questions s.preset none).map (r, ·)
      | _ => [] := by
  rcases s.request_cases caller k with ⟨hl, -, hr⟩ | ⟨r, w, ha, -, -⟩
  · have hl : (Answer.admitted (s.service.queue.request (StateTask.ofKey k)).1).launches = false := hl
    rw [hr]
    generalize (s.service.queue.request (StateTask.ofKey k)).1 = admission at hl
    cases admission with
    | launched r w => cases hl
    | _ => rfl
  · have h : (s.service.queue.request (.ofKey k)).1 = .launched r w := Answer.admitted.inj ha
    rw [(asks_request caller h).asked, h]

theorem tasks_request (s : StateService σ) (caller : String) (k : StateKey) :
    (s.request caller k).2.service.queue.tasks = s.service.queue.tasks ∨
      ∃ w, (s.service.queue.request (.ofKey k)).1 = .launched s.service.queue.tasks.length w ∧
        (s.request caller k).2.service.queue.tasks
          = s.service.queue.tasks ++ [w.prepare (.ofKey k)] := by
  rcases s.request_cases caller k with ⟨hl, -, hr⟩ | ⟨r, w, ha, -, -⟩
  · have hl : (s.service.step (.perform caller (.ofKey k))).1.answer.launches = false := hl
    rw [hr]
    exact .inl (Service.tasks_step_of_not_launches hl)
  · have h : (s.service.queue.request (.ofKey k)).1 = .launched r w := Answer.admitted.inj ha
    obtain rfl := Queue.eq_length_tasks h
    exact .inr ⟨w, h, (asks_request caller h).tasks.trans (Service.tasks_step_of_launched caller h)⟩

/-- A step changes no task, and adds one at most: that of the round which a
request launches. -/
theorem tasks_step (s : StateService σ) (e : StateEvent σ) :
    (s.step e).2.service.queue.tasks = s.service.queue.tasks ∨
      ∃ caller k w, e.Requests s.preset caller k ∧
        (s.service.queue.request (.ofKey k)).1 = .launched s.service.queue.tasks.length w ∧
        (s.step e).2.service.queue.tasks = s.service.queue.tasks ++ [w.prepare (.ofKey k)] := by
  cases e with
  | request caller k =>
    rcases s.tasks_request caller k with h | ⟨w, h⟩
    · exact .inl h
    · exact .inr ⟨caller, k, w, ⟨rfl, rfl⟩, h⟩
  | requestCheckpoint caller c =>
    rcases s.tasks_request caller (c.key s.preset) with h | ⟨w, h⟩
    · exact .inl h
    · exact .inr ⟨caller, c.key s.preset, w, ⟨rfl, rfl⟩, h⟩
  | foundBase r reply =>
    rcases s.foundBase_cases r reply with ⟨-, he⟩ | ⟨a, root, -, -, -, he⟩ <;> rw [he]
    · exact .inl rfl
    · exact .inl (s.asks_follow r _ _).tasks
  | advanced r reply =>
    rcases s.advanced_cases r reply with ⟨-, he⟩ | ⟨a, t, -, -, -, he⟩ <;> rw [he]
    · exact .inl rfl
    · exact .inl (s.asks_follow r _ _).tasks
  | pruneBefore slot => exact .inl (s.tasks_send (e := .prune fun k => decide (k.slot < slot)) rfl)
  | shutdown => exact .inl (tasks_send _ rfl)
  | _ => exact .inl (s.tasks_send rfl)

theorem Scripted.request {s : StateService σ} {asked : List (Nat × Demand σ)}
    {heard : Nat → Option (Reply (Option σ))} (h : s.Scripted asked heard) (caller : String)
    (k : StateKey) :
    (s.request caller k).2.Scripted (asked ++ (s.request caller k).1.asked) heard := by
  let s' := (s.send (.perform caller (.ofKey k))).2
  rcases s.request_cases caller k with ⟨hl, -, hr⟩ | ⟨r, w, ha, -, -⟩
  · have hl : (s.service.step (.perform caller (.ofKey k))).1.answer.launches = false := hl
    have hs' : s'.Scripted asked heard :=
      h.congr rfl (Service.tasks_step_of_not_launches hl) (List.Subset.refl _)
    rw [hr]
    exact (List.append_nil asked).symm ▸ hs'
  · have hlaunched : (s.service.queue.request (.ofKey k)).1 = .launched r w := Answer.admitted.inj ha
    have htasks : s'.service.queue.tasks = s.service.queue.tasks ++ [w.prepare (.ofKey k)] :=
      Service.tasks_step_of_launched caller hlaunched
    obtain rfl := Queue.eq_length_tasks hlaunched
    have hnew : s.service.queue.tasks[s.service.queue.tasks.length]? = none :=
      List.getElem?_eq_none (Nat.le_refl _)
    have ht : s'.service.queue.tasks[s.service.queue.tasks.length]? = some (w.prepare (.ofKey k)) := by
      rw [htasks, List.getElem?_concat_length]
    refine h.extend (asks_request caller hlaunched) rfl rfl (fun i hi => ⟨?_, rfl⟩) ht ?_
      fun _ _ _ => h.unheard _ hnew
    · rw [htasks]
      rcases Nat.lt_or_gt_of_ne hi with hlt | hgt
      · exact List.getElem?_append_left hlt
      · rw [List.getElem?_eq_none (Nat.le_of_lt hgt), List.getElem?_eq_none (by simp; omega)]
    · -- it is new, so that it has heard nothing and asked nothing
      rw [h.unheard _ hnew, questionsOf_eq_nil fun o ho ho' => h.known o ho (ho' ▸ hnew),
        List.nil_append]

/-- A round that waits for the provider was given no base and has heard
nothing. -/
theorem Scripted.of_lookup {s : StateService σ} {asked : List (Nat × Demand σ)}
    {heard : Nat → Option (Reply (Option σ))} (h : s.Scripted asked heard) {r : Nat}
    {a : Round StateKey (StateTask σ) σ StateError} (ha : s.service.queue.Has r a) {root : Root}
    (hm : (r, .lookup root) ∈ s.questions) : a.task.base = none ∧ heard r = none := by
  obtain ⟨hasked, hwaits⟩ := h.pending _ hm
  rw [← mem_questionsOf_iff, h.asks r a.task ha.getElem?_tasks] at hasked
  exact ⟨StateTask.base_eq_none_of_lookup_mem hasked, hwaits rfl⟩

/-- A round that waits for a later state waits for the one that its task asks
for. -/
theorem Scripted.of_transition {s : StateService σ} {asked : List (Nat × Demand σ)}
    {heard : Nat → Option (Reply (Option σ))} (h : s.Scripted asked heard) {r : Nat}
    {a : Round StateKey (StateTask σ) σ StateError} (ha : s.service.queue.Has r a)
    {tr : Transition σ} (hm : (r, .transition tr) ∈ s.questions) :
    a.task.next? s.preset (heard r) = some tr := by
  obtain ⟨hasked, -⟩ := h.pending _ hm
  rw [← mem_questionsOf_iff, h.asks r a.task ha.getElem?_tasks] at hasked
  exact StateTask.next?_eq_some_of_transition_mem hasked

theorem Scripted.step {s : StateService σ} {asked : List (Nat × Demand σ)}
    {heard : Nat → Option (Reply (Option σ))} (h : s.Scripted asked heard) (e : StateEvent σ) :
    (s.step e).2.Scripted (asked ++ (s.step e).1.asked) fun r => (heard r).or (s.hears r e) := by
  -- whoever hears nothing knows what was known
  have deaf : ∀ {s' : StateService σ} {asked'}, (∀ r, s.hears r e = none) →
      s'.Scripted asked' heard → s'.Scripted asked' fun r => (heard r).or (s.hears r e) := by
    intro s' asked' hn hs'
    have hheard : (fun r => (heard r).or (s.hears r e)) = heard :=
      funext fun r => by rw [hn r, Option.or_none]
    rwa [hheard]
  have silent : ∀ {s' : StateService σ}, s'.preset = s.preset →
      s'.service.queue.tasks = s.service.queue.tasks → s'.questions ⊆ s.questions →
      s'.Scripted (asked ++ []) heard := by
    intro s' hp ht hq
    rw [List.append_nil]
    exact h.congr hp ht hq
  have sent : ∀ {f : QueueEvent σ}, f.isRequest = false →
      (s.send f).2.Scripted (asked ++ []) heard :=
    fun hf => silent rfl (s.tasks_send hf) (List.Subset.refl _)
  cases e with
  | request caller k => exact deaf (fun _ => rfl) (h.request caller k)
  | requestCheckpoint caller c => exact deaf (fun _ => rfl) (h.request caller (c.key s.preset))
  | foundBase r reply =>
    rcases hn : s.hears r (.foundBase r reply) with - | reply'
    · rw [step_of_not_hears hn]
      refine deaf (fun i => ?_) (silent rfl rfl (List.Subset.refl _))
      by_cases hi : r = i
      · exact hi ▸ hn
      · simp [hears, hi]
    · obtain ⟨he, a, root, hrun, hm, hstep⟩ := step_of_hears hn
      cases he
      have ha : s.service.queue.Has r a := (Queue.running?_eq_some_iff.mp hrun).1
      have ht : s.service.queue.tasks[r]? = some a.task := ha.getElem?_tasks
      obtain ⟨hbase, hnone⟩ := h.of_lookup ha hm
      rw [hstep]
      refine h.extend (s.asks_follow r _ _) rfl rfl (fun i hi => ⟨rfl, ?_⟩) ht ?_ fun d hd hl => ?_
      · simp [hears, Ne.symm hi]
      · rw [h.asks r a.task ht, hnone, hn]
        exact StateTask.questions_some hbase reply
      · cases (Course.isLookup_of_mem_questions hd).symm.trans hl
  | advanced r reply =>
    rcases s.advanced_cases r reply with ⟨-, he⟩ | ⟨a, t, ha, -, -, he⟩
    · rw [he]
      exact deaf (fun _ => rfl) (silent rfl rfl (List.Subset.refl _))
    · rw [he]
      exact deaf (fun _ => rfl)
        (silent rfl (tasks_send _ rfl) (List.filter_subset_self _))
  | pruneBefore slot => exact deaf (fun _ => rfl) (sent (f := .prune fun k => decide (k.slot < slot)) rfl)
  | shutdown => exact deaf (fun _ => rfl) (silent rfl (tasks_send _ rfl) (List.nil_subset _))
  | _ => exact deaf (fun _ => rfl) (sent rfl)

theorem Scripted.run {s : StateService σ} {asked : List (Nat × Demand σ)}
    {heard : Nat → Option (Reply (Option σ))} (h : s.Scripted asked heard)
    (es : List (StateEvent σ)) :
    (s.run es).2.Scripted (asked ++ (s.run es).1.flatMap (·.asked))
      fun r => (heard r).or (s.heard? r es) := by
  induction es generalizing s asked heard with
  | nil =>
    have hheard : (fun r => (heard r).or (s.heard? r [])) = heard :=
      funext fun r => Option.or_none
    rw [hheard]
    exact (List.append_nil asked).symm ▸ h
  | cons e es ih =>
    have hs := ih (h.step e)
    simp only [List.append_assoc, Option.or_assoc] at hs
    exact hs

/-! ### Who waits for the provider -/

/-- Every round that runs, was given no base and has not heard from the provider
waits for it. -/
def Waits (s : StateService σ) (heard : Nat → Option (Reply (Option σ))) : Prop :=
  ∀ r a, s.service.queue.Has r a → a.status = .running → a.task.base = none → heard r = none →
    (r, .lookup a.task.key.root) ∈ s.questions

/-- A round without a base that hears nothing goes on waiting, unless all rounds
are stopped. -/
theorem Scripted.mem_questions_step {s : StateService σ} {asked : List (Nat × Demand σ)}
    {heard : Nat → Option (Reply (Option σ))} (h : s.Scripted asked heard) {r : Nat}
    {a : Round StateKey (StateTask σ) σ StateError} (ha : s.service.queue.Has r a)
    (hbase : a.task.base = none) (hheard : heard r = none) {e : StateEvent σ}
    (hhears : s.hears r e = none) (hstop : e ≠ .shutdown) {d : Demand σ}
    (hd : (r, d) ∈ s.questions) : (r, d) ∈ (s.step e).2.questions := by
  -- another round that asks leaves the questions of this one
  have kept : ∀ {s' : StateService σ} {i ds p}, s'.Asks i ds p → s'.questions = s.questions →
      i ≠ r → (r, d) ∈ p.2.questions := by
    intro s' i ds p hasks hq hi
    rw [hasks.questions, hq]
    exact List.mem_append_left _ (List.mem_filter.mpr ⟨hd, decide_eq_true (Ne.symm hi)⟩)
  have request : ∀ caller k, (r, d) ∈ (s.request caller k).2.questions := by
    intro caller k
    rcases s.request_cases caller k with ⟨-, -, hr⟩ | ⟨i, w, hw, -, -⟩
    · rw [hr]
      exact hd
    · have hw : (s.service.queue.request (.ofKey k)).1 = .launched i w := Answer.admitted.inj hw
      refine kept (asks_request caller hw) rfl ?_
      rw [(Queue.launched_request hw).1]
      exact Nat.ne_of_gt ha.lt
  cases e with
  | request caller k => exact request caller k
  | requestCheckpoint caller c => exact request caller (c.key s.preset)
  | foundBase i reply =>
    by_cases hi : i = r
    · subst hi
      rw [step_of_not_hears hhears]
      exact hd
    · rcases s.foundBase_cases i reply with ⟨-, he⟩ | ⟨b, root, -, -, -, he⟩ <;> rw [he]
      · exact hd
      · exact kept (s.asks_follow i _ _) rfl hi
  | advanced i reply =>
    rcases s.advanced_cases i reply with ⟨-, he⟩ | ⟨b, t, -, hm, -, he⟩ <;> rw [he]
    · exact hd
    · refine kept (s.asks_follow i _ _) rfl ?_
      -- a round that waits for a later state has a base
      rintro rfl
      have hnext := h.of_transition ha hm
      simp [StateTask.next?, StateTask.found, hbase, hheard] at hnext
  | shutdown => exact absurd rfl hstop
  | _ => exact hd

theorem Waits.step {s : StateService σ} {asked : List (Nat × Demand σ)}
    {heard : Nat → Option (Reply (Option σ))} (h : s.Waits heard) (hs : s.Scripted asked heard)
    (e : StateEvent σ) : (s.step e).2.Waits fun r => (heard r).or (s.hears r e) := by
  intro r b hb hrun hbase hheard
  obtain ⟨hheard, hhears⟩ := Option.or_eq_none_iff.mp hheard
  rcases ha : s.service.queue.rounds[r]? with - | a
  · -- it is the round of a request, and asks the provider in its first turn
    have hnew : s.service.queue.tasks[r]? = none := by
      rw [Queue.tasks, List.getElem?_map, ha]
      rfl
    have htask := hb.getElem?_tasks
    rcases s.tasks_step e with ht | ⟨caller, k, w, he, hw, ht⟩ <;> rw [ht] at htask
    · cases hnew.symm.trans htask
    · obtain rfl : r = s.service.queue.tasks.length := by
        have hge := List.getElem?_eq_none_iff.mp hnew
        have hlt := (List.getElem?_eq_some_iff.mp htask).1
        rw [List.length_append, List.length_singleton] at hlt
        omega
      rw [List.getElem?_concat_length] at htask
      rw [(step_of_requests he).1, (asks_request caller hw).questions, Option.some.inj htask,
        StateTask.questions_of_base_eq_none hbase]
      exact List.mem_append_right _ (List.mem_singleton_self _)
  · have ha : s.service.queue.Has r a := ha
    rw [(s.follows_step e).service] at hb
    obtain ⟨harun, hsent⟩ := Service.running_of_run ha hb hrun
    obtain ⟨c, hc, hac⟩ := (Service.grows_run s.service (s.sent e)).becomes ha
    obtain rfl := hb.unique hc
    have hstop : e ≠ .shutdown := by
      rintro rfl
      cases hsent .shutdown (List.mem_singleton_self _)
    rw [hac.task] at hbase ⊢
    exact hs.mem_questions_step ha hbase hheard hhears hstop (h r a ha harun hbase hheard)

/-- In every run each round asks what its task asks, given what it has heard. -/
theorem scripted_run (p : Preset) (limits : Limits) (metrics : Option TaskMetrics)
    (es : List (StateEvent σ)) :
    let start : StateService σ := fresh p limits metrics
    (start.run es).2.Scripted ((start.run es).1.flatMap (·.asked)) fun r => start.heard? r es :=
  (scripted_fresh p limits metrics).run es

theorem Waits.run {s : StateService σ} {asked : List (Nat × Demand σ)}
    {heard : Nat → Option (Reply (Option σ))} (h : s.Waits heard) (hs : s.Scripted asked heard)
    (es : List (StateEvent σ)) : (s.run es).2.Waits fun r => (heard r).or (s.heard? r es) := by
  induction es generalizing s asked heard with
  | nil =>
    have hheard : (fun r => (heard r).or (s.heard? r [])) = heard :=
      funext fun r => Option.or_none
    rw [hheard]
    exact h
  | cons e es ih =>
    have h := ih (h.step hs e) (hs.step e)
    simp only [Option.or_assoc] at h
    exact h

/-- In every run a round hears a reply exactly if it runs, was given no base, and
has heard nothing before. -/
theorem hears_iff (p : Preset) (limits : Limits) (metrics : Option TaskMetrics)
    {es : List (StateEvent σ)} {r : Nat} {a : Round StateKey (StateTask σ) σ StateError}
    (ha : ((fresh p limits metrics).run es).2.service.queue.Has r a) {e : StateEvent σ}
    {reply : Reply (Option σ)} :
    ((fresh p limits metrics).run es).2.hears r e = some reply ↔
      e = .foundBase r reply ∧ a.status = .running ∧ a.task.base = none ∧
        (fresh p limits metrics : StateService σ).heard? r es = none := by
  constructor
  · intro h
    obtain ⟨he, b, root, hb, hm, -⟩ := step_of_hears h
    obtain ⟨hb, hrun⟩ := Queue.running?_eq_some_iff.mp hb
    obtain rfl := ha.unique hb
    exact ⟨he, hrun, (scripted_run p limits metrics es).of_lookup ha hm⟩
  · rintro ⟨rfl, hrun, hbase, hheard⟩
    have hwaits : (fresh p limits metrics : StateService σ).Waits fun _ => none :=
      fun r a ha => by cases ha
    have hm := hwaits.run (scripted_fresh p limits metrics) es r a ha hrun hbase hheard
    refine if_pos ⟨rfl, ?_, awaits_iff.mpr ⟨_, hm, rfl⟩⟩
    rw [Queue.running?_eq_some_iff.mpr ⟨ha, hrun⟩]
    rfl

/-! ### When the provider is asked -/

/-- Only requests are counted. -/
theorem requests_of_outcome? {s : StateService σ} {e : StateEvent σ}
    (h : (s.step e).1.answer.outcome? ≠ none) : ∃ caller k, e.Requests s.preset caller k := by
  have sent : ∀ (s' : StateService σ) (f : QueueEvent σ), f.isRequest = false →
      (s'.send f).1.answer.outcome? = none := fun s' f hf => s'.service.outcome?_answer_step hf
  have follow : ∀ r t course, (s.follow r t course).1.answer.outcome? = none := by
    intro r t course
    cases course with
    | ask tr => rfl
    | done ending => exact sent _ (.finish r ending) rfl
  cases e with
  | request caller k => exact ⟨caller, k, rfl, rfl⟩
  | requestCheckpoint caller c => exact ⟨caller, c.key s.preset, rfl, rfl⟩
  | foundBase r reply =>
    rcases s.foundBase_cases r reply with ⟨-, he⟩ | ⟨a, root, -, -, -, he⟩ <;> rw [he] at h
    · exact (h rfl).elim
    · exact (h (follow r _ _)).elim
  | advanced r reply =>
    rcases s.advanced_cases r reply with ⟨-, he⟩ | ⟨a, t, -, -, -, he⟩ <;> rw [he] at h
    · exact (h rfl).elim
    · exact (h (follow r _ _)).elim
  | pruneBefore slot => exact (h (sent s (.prune fun k => decide (k.slot < slot)) rfl)).elim
  | shutdown => exact (h (sent { s with questions := [] } .shutdown rfl)).elim
  | _ => exact (h (sent s _ rfl)).elim

omit [HasSlot σ] in
/-- Where nothing is requested, nothing is counted as a request. -/
theorem requestCount_run_eq_zero {s : Service StateKey (StateTask σ) σ StateError}
    {fs : List (QueueEvent σ)} (h : ∀ caller task, .perform caller task ∉ fs) (o : Outcome) :
    requestCount (s.run fs).1 o = 0 := by
  induction fs generalizing s with
  | nil => rfl
  | cons f fs ih =>
    have hf : f.isRequest = false := by
      cases f with
      | perform caller task => exact absurd List.mem_cons_self (h caller task)
      | _ => rfl
    rw [Service.requestCount_run_cons, tally, s.outcome?_answer_step hf,
      ih fun caller task hm => h caller task (List.mem_cons_of_mem f hm)]
    rfl

/-- What an event sends is counted as the event is. -/
theorem requestCount_sent (s : StateService σ) (e : StateEvent σ) (o : Outcome) :
    requestCount (s.service.run (s.sent e)).1 o
      = if (s.step e).1.answer.outcome? = some o then 1 else 0 := by
  by_cases he : ∃ caller k, e.Requests s.preset caller k
  · obtain ⟨caller, k, he⟩ := he
    obtain ⟨hstep, hsent⟩ := step_of_requests he
    obtain ⟨rest, hrest, hnone⟩ := s.sentByRequest_eq_cons caller k
    have ha : (s.service.step (.perform caller (.ofKey k))).1.answer
      = .admitted (s.service.queue.request (.ofKey k)).1 := rfl
    rw [hsent, hstep, hrest, answer_request, Service.requestCount_run_cons, tally,
      requestCount_run_eq_zero hnone, Nat.zero_add, ha]
  · have hnone : (s.step e).1.answer.outcome? = none := by
      by_contra hn
      exact he (requests_of_outcome? hn)
    rw [hnone, requestCount_run_eq_zero fun caller task hm =>
      he ⟨caller, task.key, requests_of_mem_sent hm⟩]
    rfl

/-- The requests of each kind that the queue counts are those that the reports
tell of. -/
theorem requestCount_sentAll (s : StateService σ) (es : List (StateEvent σ)) (o : Outcome) :
    requestCount (s.service.run (s.sentAll es)).1 o
      = (s.run es).1.countP fun report => report.answer.outcome? = some o := by
  induction es generalizing s with
  | nil => rfl
  | cons e es ih =>
    have hrun : (s.run (e :: es)).1 = (s.step e).1 :: ((s.step e).2.run es).1 := rfl
    have hsum : requestCount (s.service.run (s.sentAll (e :: es))).1 o
        = requestCount (s.service.run (s.sent e)).1 o
          + requestCount ((s.step e).2.service.run ((s.step e).2.sentAll es)).1 o := by
      rw [(s.follows_step e).service, sentAll, Service.run_append_fst, requestCount,
        List.countP_append]
      rfl
    rw [hsum, requestCount_sent, ih, hrun, List.countP_cons, Nat.add_comm]
    simp

/-- A request that is counted as new makes its round look for a state of the
block. -/
theorem asked_step_of_fresh {s : StateService σ} {e : StateEvent σ}
    (h : (s.step e).1.answer.outcome? = some .fresh) :
    ∃ caller k r w, e.Requests s.preset caller k ∧
      (s.step e).1.answer = .admitted (.launched r w) ∧ (s.step e).1.asked = [(r, .lookup k.root)] := by
  obtain ⟨caller, k, he⟩ := requests_of_outcome? (h ▸ Option.some_ne_none _)
  have hasked := s.asked_request caller k
  rw [(step_of_requests he).1, answer_request] at h ⊢
  generalize (s.service.queue.request (StateTask.ofKey k)).1 = admission at h hasked ⊢
  rcases admission with v | r | ⟨r, n, - | base⟩
  case launched.none =>
    exact ⟨caller, k, r, _, he, rfl, hasked⟩
  all_goals cases h

/-- Nothing else makes anybody look for a state of a block. -/
theorem isLookup_of_not_fresh {s : StateService σ} {e : StateEvent σ}
    (h : (s.step e).1.answer.outcome? ≠ some .fresh) :
    ∀ o ∈ (s.step e).1.asked, o.2.isLookup = false := by
  -- from a base on nobody looks for one
  have onward : ∀ (r : Nat) (course : Course σ), ∀ o ∈ course.questions.map (r, ·),
      o.2.isLookup = false := by
    intro r course o ho
    obtain ⟨d, hd, rfl⟩ := List.mem_map.mp ho
    exact Course.isLookup_of_mem_questions hd
  have request : ∀ caller k, (s.request caller k).1.answer.outcome? ≠ some .fresh →
      ∀ o ∈ (s.request caller k).1.asked, o.2.isLookup = false := by
    intro caller k h
    rw [answer_request] at h
    rw [asked_request]
    generalize (s.service.queue.request (StateTask.ofKey k)).1 = admission at h
    rcases admission with v | r | ⟨r, n, - | ⟨a, base⟩⟩
    · exact fun o ho => by cases ho
    · exact fun o ho => by cases ho
    · exact absurd rfl h
    · have hb : (Walk.prepare ⟨n, some (a, base)⟩ (StateTask.ofKey k)).base = some base := rfl
      simp only [StateTask.questions_of_base_eq_some hb]
      exact onward r _
  cases e with
  | request caller k => exact request caller k h
  | requestCheckpoint caller c => exact request caller (c.key s.preset) h
  | foundBase r reply =>
    rcases s.foundBase_cases r reply with ⟨-, he⟩ | ⟨a, root, -, -, -, he⟩ <;> rw [he]
    · exact fun o ho => by cases ho
    · exact (s.asks_follow r _ _).asked ▸ onward r _
  | advanced r reply =>
    rcases s.advanced_cases r reply with ⟨-, he⟩ | ⟨a, t, -, -, -, he⟩ <;> rw [he]
    · exact fun o ho => by cases ho
    · exact (s.asks_follow r _ _).asked ▸ onward r _
  | _ => exact fun o ho => by cases ho

theorem countP_isLookup_step (s : StateService σ) (e : StateEvent σ) :
    (s.step e).1.asked.countP (·.2.isLookup)
      = if (s.step e).1.answer.outcome? = some .fresh then 1 else 0 := by
  split
  · next h =>
    obtain ⟨caller, k, r, w, -, -, hasked⟩ := asked_step_of_fresh h
    rw [hasked]
    rfl
  · next h =>
    exact List.countP_eq_zero.mpr fun o ho => by simp [isLookup_of_not_fresh h o ho]

theorem countP_isLookup_run (s : StateService σ) (es : List (StateEvent σ)) :
    ((s.run es).1.flatMap (·.asked)).countP (·.2.isLookup)
      = (s.run es).1.countP fun report => report.answer.outcome? = some .fresh := by
  induction es generalizing s with
  | nil => rfl
  | cons e es ih =>
    have hrun : (s.run (e :: es)).1 = (s.step e).1 :: ((s.step e).2.run es).1 := rfl
    rw [hrun, List.flatMap_cons, List.countP_append, List.countP_cons, ih, countP_isLookup_step,
      Nat.add_comm]
    simp

/-! ### Who answers a request -/

/-- The round that a request launches is, whatever happens later, a round of its
key, with the base that its search has found. -/
theorem has_of_launched {start : StateService σ} {past : List (StateEvent σ)} {e : StateEvent σ}
    {r : Nat} {w : Walk StateKey σ}
    (h : ((start.run past).2.step e).1.answer = .admitted (.launched r w))
    (later : List (StateEvent σ)) :
    ∃ a caller, (start.run (past ++ e :: later)).2.service.queue.Has r a ∧
      e.Requests start.preset caller a.key ∧ a.task = w.prepare (.ofKey a.key) := by
  have hcounted : ((start.run past).2.step e).1.answer.outcome? ≠ none := by
    rw [h]
    rcases w with ⟨n, - | base⟩ <;> exact Option.some_ne_none _
  obtain ⟨caller, k, he⟩ := requests_of_outcome? hcounted
  rw [(step_of_requests he).1, answer_request, (start.follows_run past).1] at h
  rw [preset_run] at he
  obtain ⟨rest, hsent⟩ := sentAll_of_requests he later
  obtain ⟨a, ha, hkey, htask, -⟩ :=
    Service.launched_run start.service caller (Answer.admitted.inj h) rest
  obtain rfl : a.key = k := hkey
  rw [(start.follows_run _).1, hsent]
  exact ⟨a, caller, ha, he, htask⟩

/-- Every round of a run was launched by one of its requests, with the base that
its search has found. -/
theorem exists_launch (p : Preset) (limits : Limits) (metrics : Option TaskMetrics)
    {es : List (StateEvent σ)} {r : Nat} {a : Round StateKey (StateTask σ) σ StateError}
    (ha : ((fresh p limits metrics).run es).2.service.queue.Has r a) :
    ∃ past e later w, es = past ++ e :: later ∧
      (((fresh p limits metrics).run past).2.step e).1.answer = .admitted (.launched r w) ∧
      a.task = w.prepare (.ofKey a.key) := by
  let start : StateService σ := fresh p limits metrics
  rw [(follows_run _ _).1] at ha
  obtain ⟨fs, caller, task, gs, w, hsent, hw, hkey, htask⟩ := Service.exists_launch limits metrics ha
  obtain ⟨past, e, later, rfl, rfl, he, hof⟩ := exists_of_sentAll_eq (s := start) hsent
  rw [← preset_run start past] at he
  refine ⟨past, e, later, w, rfl, ?_, ?_⟩
  · show ((start.run past).2.step e).1.answer = _
    rw [(step_of_requests he).1, answer_request, (start.follows_run past).1, ← hof]
    exact congrArg Answer.admitted hw
  · have hkey : a.key = task.key := hkey
    rw [htask, hkey, ← hof]

/-! ### The discipline of a run -/

/-- **Rounds ask what they need**: in any run, whatever collaborators reply and
in whichever order, the provider is asked as often as requests are counted as
new, in the step of such a request, on behalf of the round that it launches and
for the block that it names; no other event makes anybody ask the provider.

Whatever is asked is asked by a round.  A round that was launched with a base
never asks for one, and any other asks once, for its own block.  After that it
asks for at most one later state, from the base that it was given or that the
provider has replied: a base before its slot.  If its slot starts no epoch it
asks to replay slots up to it, and otherwise for the checkpoint at it.  It asks
for none exactly if its base is at or past its slot, or if it is to hear from
the provider and has heard nothing yet, or that the lookup panicked or failed,
or that there is no state.  What it hears is the first reply that the provider
gives it while it runs: the next event is heard exactly if it is such a reply,
the round has no base, and it has heard nothing yet.

The run may stop at any point, so that all this holds at any time. -/
theorem rounds_ask_what_they_need (p : Preset) (limits : Limits) (metrics : Option TaskMetrics)
    (es : List (StateEvent σ)) :
    let start : StateService σ := fresh p limits metrics
    let reports := (start.run es).1
    let q := (start.run es).2.service.queue
    let asked := reports.flatMap (·.asked)
    (asked.countP (·.2.isLookup)
        = reports.countP (fun report => report.answer.outcome? = some .fresh) ∧
      ∀ stem, metrics = some (.fresh stem) →
        q.metrics.map (·.requestCount .fresh) = some (asked.countP (·.2.isLookup))) ∧
    (∀ past e later, es = past ++ e :: later →
      let report := ((start.run past).2.step e).1
      (report.answer.outcome? = some .fresh →
        ∃ caller k r w, e.Requests p caller k ∧ report.answer = .admitted (.launched r w) ∧
          report.asked = [(r, .lookup k.root)]) ∧
      (report.answer.outcome? ≠ some .fresh → ∀ o ∈ report.asked, o.2.isLookup = false) ∧
      (∀ r w, report.answer = .admitted (.launched r w) →
        ∃ a caller, q.Has r a ∧ e.Requests p caller a.key ∧ a.task.base = w.base.map (·.2))) ∧
    (∀ o ∈ asked, ∃ a, q.Has o.1 a) ∧
    (∀ r a, q.Has r a →
      let reply := start.heard? r es
      (∀ e next, (start.run es).2.hears r e = some next ↔
        e = .foundBase r next ∧ a.status = .running ∧ a.task.base = none ∧ reply = none) ∧
      ∃ next : Option (Transition σ),
        questionsOf r asked
          = (if a.task.base.isNone then [.lookup a.key.root] else [])
            ++ (next.map .transition).toList ∧
        (next = none ↔
          (∃ base, a.task.base = some base ∧ a.key.slot ≤ HasSlot.slot base) ∨
          a.task.base = none ∧ (reply = none ∨ reply = some .panicked ∨
            (∃ causes, reply = some (.failed causes)) ∨ reply = some (.ok none) ∨
            ∃ base, reply = some (.ok (some base)) ∧ a.key.slot ≤ HasSlot.slot base)) ∧
        ∀ t, next = some t →
          ∃ base, (a.task.base = some base ∨
              a.task.base = none ∧ reply = some (.ok (some base))) ∧
            HasSlot.slot base < a.key.slot ∧
            match t with
            | .replay b target => b = base ∧ target = a.key.slot ∧
                ∀ n : Nat, n * p.slotsPerEpoch.toNat ≠ target.toNat
            | .regenerate c b => b = base ∧ c.root = a.key.root ∧
                c.epoch.toNat * p.slotsPerEpoch.toNat = a.key.slot.toNat) := by
  intro start reports q asked
  have hscript : (start.run es).2.Scripted asked fun r => start.heard? r es :=
    scripted_run p limits metrics es
  have hpreset : (start.run es).2.preset = p := preset_run start es
  refine ⟨⟨countP_isLookup_run start es, ?_⟩, ?_, fun o ho => ?_, fun r a ha => ?_⟩
  · rintro stem rfl
    obtain ⟨m, hm⟩ := Service.booked_run limits stem (start.sentAll es)
    have hq : q.metrics = some m := by
      show (start.run es).2.service.queue.metrics = _
      rw [(start.follows_run es).1]
      exact hm.metrics
    rw [hq, countP_isLookup_run, ← requestCount_sentAll]
    exact congrArg some (hm.requests .fresh)
  · rintro past e later rfl report
    have hpast : (start.run past).2.preset = p := preset_run start past
    refine ⟨fun h => ?_, isLookup_of_not_fresh, fun r w h => ?_⟩
    · rw [← hpast]
      exact asked_step_of_fresh h
    · obtain ⟨a, caller, ha, he, htask⟩ := has_of_launched h later
      refine ⟨a, caller, ha, he, ?_⟩
      rw [htask]
      rcases w with ⟨n, - | ⟨k, base⟩⟩ <;> rfl
  · rcases ha : q.rounds[o.1]? with - | a
    · have hn : q.tasks[o.1]? = none := by rw [Queue.tasks, List.getElem?_map, ha]; rfl
      exact absurd hn (hscript.known o ho)
    · exact ⟨a, ha⟩
  · intro reply
    have hkey : a.task.key = a.key := task_key_run p limits metrics es ha
    have hasks := hscript.asks r a.task ha.getElem?_tasks
    rw [hpreset] at hasks
    refine ⟨fun e next => hears_iff p limits metrics ha, a.task.next? p reply, ?_, ?_,
      fun t ht => ?_⟩
    · rw [← hkey]
      exact hasks
    · rw [← hkey]
      exact StateTask.next?_eq_none_iff
    · obtain ⟨base, hbase, hlt, rfl⟩ := StateTask.next?_eq_some ht
      rw [← hkey]
      exact ⟨base, hbase, hlt, StateTask.transition_spec base⟩

end StateService

end SlotStates
