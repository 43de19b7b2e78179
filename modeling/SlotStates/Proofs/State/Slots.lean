/-
SlotStates/Proofs/State/Slots.lean

Cached states stand at their slots.

Suppose that transitions lead where they are asked to, when they succeed, and
that states are stored under their own slots (`StateService.Punctual`).  The
provider may reply whatever it likes.  Then a state that comes into the cache
stands at the slot of its key: a task returns its base only if this stands at
the slot, and otherwise it asks for a transition to the slot.  A round is
rebased onto a state of an earlier key, which is therefore before its slot
(`Below`), so it asks for a transition at once and ends with what comes of it
(`Advances`).

Hence errors about the base to start from (`StateError.concernsBase`) are for
rounds that were counted as new.  The main result is
`cached_states_stand_at_their_slots`.
-/
import SlotStates.Proofs.State.Questions

namespace SlotStates

variable {σ : Type} [HasSlot σ]

/-- Whether an error is about the state to start from. -/
def StateError.concernsBase : StateError → Bool
  | .transitionFailed _ _ _ => false
  | _ => true

/-- A state stands where a transition was to lead. -/
def Transition.LeadsTo (p : Preset) (t : Transition σ) (state : σ) : Prop :=
  match t with
  | .replay _ target => HasSlot.slot state = target
  | .regenerate c _ => (HasSlot.slot state).toNat = c.epoch.toNat * p.slotsPerEpoch.toNat

/-- A result for a key stands at the slot of the key, if it is a state. -/
def AtSlot (k : StateKey) (result : Result StateError σ) : Prop :=
  ∀ state, result = .ok state → HasSlot.slot state = k.slot

/-- A task is for its key, and was given only a base before its slot. -/
def Below (k : StateKey) (t : StateTask σ) : Prop :=
  t.key = k ∧ ∀ base, t.base = some base → HasSlot.slot base < k.slot

/-- A rebased task ends with what comes of its transition. -/
def Advances (t : StateTask σ) (ending : Ending StateError σ) : Prop :=
  t.base ≠ none → (∃ state, ending = .returned state) ∨
    ∃ causes, ending = .failed (.transitionFailed t.key.root t.key.slot causes)

theorem atSlot_error {k : StateKey} {e : Failure StateError} :
    AtSlot k (.error e : Result StateError σ) :=
  fun _ h => by cases h

theorem atSlot_ok {k : StateKey} {state : σ} :
    AtSlot k (.ok state : Result StateError σ) ↔ HasSlot.slot state = k.slot :=
  ⟨fun h => h state rfl, fun h _ he => Except.ok.inj he ▸ h⟩

/-! ### One task -/

namespace StateTask

variable {p : Preset} {t : StateTask σ}

/-- What a task asks for leads to its slot. -/
theorem slot_of_leadsTo {base state : σ} (h : (t.transition p base).LeadsTo p state) :
    HasSlot.slot state = t.key.slot := by
  have hspec := transition_spec (p := p) (t := t) base
  rcases htr : t.transition p base with ⟨b, target⟩ | ⟨c, b⟩ <;> rw [htr] at h hspec
  · exact h.trans hspec.2.1
  · exact UInt64.toNat_inj.mp (h.trans hspec.2.2)

/-- Whatever the provider has replied, a task that ends then ends at its slot,
if it ends with a state. -/
theorem atSlot_of_afterLookup {reply : Reply (Option σ)} {ending : Ending StateError σ}
    (h : t.afterLookup p reply = .done ending) (text : String) :
    AtSlot t.key (ending.result text) := by
  rcases reply with (- | base) | causes | -
  case ok.some =>
    simp only [afterLookup, advance] at h
    split at h
    · next hs =>
      obtain rfl := Course.done.inj h
      exact atSlot_ok.mpr hs
    · split at h
      · obtain rfl := Course.done.inj h
        exact atSlot_error
      · cases h
  all_goals
    obtain rfl := Course.done.inj h
    exact atSlot_error

omit [HasSlot σ] in
theorem advances_afterTransition (reply : Reply σ) : Advances t (t.afterTransition reply) := by
  intro _
  cases reply with
  | ok state => exact .inl ⟨state, rfl⟩
  | failed causes => exact .inr ⟨causes, rfl⟩
  | panicked => exact .inr ⟨panicCauses, rfl⟩

end StateTask

/-! ### Punctual collaborators -/

namespace StateService

/-- A transition that succeeds leads where it was asked to, and a state is
stored under its own slot. -/
def Punctual (s : StateService σ) : StateEvent σ → Prop
  | .advanced r reply => ∀ t, (r, .transition t) ∈ s.questions →
      ∀ state, reply = .ok state → t.LeadsTo s.preset state
  | .store k state => HasSlot.slot state = k.slot
  | _ => True

/-- Every event of a run is punctual when it happens. -/
def PunctualRun (s : StateService σ) : List (StateEvent σ) → Prop
  | [] => True
  | e :: es => s.Punctual e ∧ (s.step e).2.PunctualRun es

/-- A task can be launched for any key, and onto any earlier state. -/
theorem accepts_perform (q : Queue StateKey (StateTask σ) σ StateError) (caller : String)
    (k : StateKey) : q.Accepts AtSlot Below (.perform caller (.ofKey k)) := by
  refine ⟨⟨rfl, fun base hb => by cases hb⟩, fun i a v ha hv => ⟨rfl, fun base hb => ?_⟩⟩
  obtain rfl := Option.some.inj hb
  rw [atSlot_ok.mp hv]
  exact (Ancestors.get?_eq_some ha).2

/-- What an event sends brings only states at their slots, and ends rebased
rounds with what comes of their transitions. -/
theorem punctual_step {s : StateService σ} {asked : List (Nat × Demand σ)}
    {heard : Nat → Option (Reply (Option σ))} (hscript : s.Scripted asked heard)
    (h : s.service.queue.Sound AtSlot Below) {e : StateEvent σ} (he : s.Punctual e) :
    s.service.Accepts AtSlot Below (s.sent e) ∧ s.service.Performs Advances (s.sent e) := by
  have request : ∀ caller k, s.service.Accepts AtSlot Below (s.sentByRequest caller k) ∧
      s.service.Performs Advances (s.sentByRequest caller k) := by
    intro caller k
    have hp := accepts_perform s.service.queue caller k
    have hsent : s.sentByRequest caller k = [.perform caller (.ofKey k)] := by
      rcases s.request_cases caller k with ⟨-, hs, -⟩ | ⟨r, w, -, hs, -⟩
      · exact hs
      · -- the new round does not end at once
        have hsound := Service.sound_step h hp
        have hnil : (s.send (.perform caller (.ofKey k))).2.sentByBegin r = [] := by
          refine sentByBegin_eq_nil fun a base ha hb => ?_
          obtain ⟨hkey, hbelow⟩ := hsound.tasks ha
          rw [hkey]
          exact hbelow base hb
        rw [hs, hnil]
        rfl
    rw [hsent]
    exact ⟨⟨hp, trivial⟩, trivial, trivial⟩
  have ended : ∀ {r a ending}, s.service.queue.running? r = some a →
      AtSlot a.task.key (ending.result (KeyText.text a.key)) → Advances a.task ending →
      s.service.Accepts AtSlot Below [.finish r ending] ∧
        s.service.Performs Advances [.finish r ending] := by
    intro r a ending hr hslot hadvances
    obtain ⟨ha, -⟩ := Queue.running?_eq_some_iff.mp hr
    rw [(h.tasks ha).1] at hslot
    refine ⟨⟨fun b hb _ => ?_, trivial⟩, fun b hb _ => ?_, trivial⟩
    · obtain rfl := ha.unique hb
      exact hslot
    · obtain rfl := ha.unique hb
      exact hadvances
  cases e with
  | request caller k => exact request caller k
  | requestCheckpoint caller c => exact request caller (c.key s.preset)
  | foundBase r reply =>
    rcases s.foundBase_cases r reply with ⟨hs, -⟩ | ⟨a, root, hr, hm, hs, -⟩ <;> rw [hs]
    · exact ⟨trivial, trivial⟩
    · -- a round that looks for a base was not rebased
      obtain ⟨hbase, -⟩ := hscript.of_lookup (Queue.running?_eq_some_iff.mp hr).1 hm
      rcases hcourse : a.task.afterLookup s.preset reply with tr | ending
      · exact ⟨trivial, trivial⟩
      · exact ended hr (StateTask.atSlot_of_afterLookup hcourse _) fun hn => absurd hbase hn
  | advanced r reply =>
    rcases s.advanced_cases r reply with ⟨hs, -⟩ | ⟨a, t, hr, hm, hs, -⟩ <;> rw [hs]
    · exact ⟨trivial, trivial⟩
    · have hnext := hscript.of_transition (Queue.running?_eq_some_iff.mp hr).1 hm
      obtain ⟨base, -, -, rfl⟩ := StateTask.next?_eq_some hnext
      refine ended hr ?_ (StateTask.advances_afterTransition reply)
      cases reply with
      | ok state => exact atSlot_ok.mpr (StateTask.slot_of_leadsTo (he _ hm state rfl))
      | failed causes => exact atSlot_error
      | panicked => exact atSlot_error
  | insert root state => exact ⟨⟨atSlot_ok.mpr rfl, trivial⟩, trivial, trivial⟩
  | store k state => exact ⟨⟨atSlot_ok.mpr he, trivial⟩, trivial, trivial⟩
  | shutdown => exact ⟨⟨fun _ _ _ _ => atSlot_error, trivial⟩, trivial, trivial⟩
  | _ => exact ⟨⟨trivial, trivial⟩, trivial, trivial⟩

theorem punctual_run {s : StateService σ} {asked : List (Nat × Demand σ)}
    {heard : Nat → Option (Reply (Option σ))} (hscript : s.Scripted asked heard)
    (h : s.service.queue.Sound AtSlot Below) {es : List (StateEvent σ)} (hes : s.PunctualRun es) :
    s.service.Accepts AtSlot Below (s.sentAll es) ∧
      s.service.Performs Advances (s.sentAll es) := by
  induction es generalizing s asked heard with
  | nil => exact ⟨trivial, trivial⟩
  | cons e es ih =>
    obtain ⟨ha, hp⟩ := punctual_step hscript h hes.1
    have hservice := (s.follows_step e).service
    have hsound : (s.step e).2.service.queue.Sound AtSlot Below :=
      hservice ▸ Service.sound_run h ha
    obtain ⟨ha', hp'⟩ := ih (hscript.step e) hsound hes.2
    rw [hservice] at ha' hp'
    exact ⟨Service.accepts_append.mpr ⟨ha, ha'⟩, Service.performs_append.mpr ⟨hp, hp'⟩⟩

/-! ### Rounds and their bases -/

/-- How a round of a punctual run has ended, if it was rebased. -/
theorem result_of_rebased (p : Preset) (limits : Limits) (metrics : Option TaskMetrics)
    {es : List (StateEvent σ)} (hes : (fresh p limits metrics).PunctualRun es) {r : Nat}
    {a : Round StateKey (StateTask σ) σ StateError}
    (ha : ((fresh p limits metrics).run es).2.service.queue.Has r a) (hb : a.task.base ≠ none)
    {result : Result StateError σ} (hr : a.result? = some result) :
    (∃ state, result = .ok state) ∨
      (∃ causes, result = .error (.task (.transitionFailed a.key.root a.key.slot causes))) ∨
      result = cancellation a.key := by
  let start : StateService σ := fresh p limits metrics
  obtain ⟨-, hperforms⟩ := punctual_run (scripted_fresh p limits metrics)
    (Queue.sound_fresh limits metrics) hes
  have hkey : a.task.key = a.key := task_key_run p limits metrics es ha
  rw [(start.follows_run es).1] at ha
  obtain ⟨fs, caller, task, gs, w, hsent, hw, hk, htask⟩ := Service.exists_launch limits metrics ha
  rw [hsent] at ha hperforms
  obtain ⟨b, hb', -, -, -, hfirst⟩ := Service.launched_run start.service caller hw gs
  obtain rfl := ha.unique hb'
  rcases Service.ends_of_result hw hperforms (hfirst result hr) with ⟨ending, hends, rfl⟩ | ⟨-, rfl⟩
  · rw [← htask] at hends
    rcases hends hb with ⟨state, rfl⟩ | ⟨causes, rfl⟩
    · exact .inl ⟨state, rfl⟩
    · exact .inr (.inl ⟨causes, by rw [← hkey]; rfl⟩)
  · rw [← hk]
    exact .inr (.inr rfl)

/-- **Cached states stand at their slots**: suppose that transitions lead where
they are asked to, when they succeed, and that states are stored under their
own slots.  Then after any run, whatever the provider has replied, every cached
state stands at the slot of its key, and so does every state that a round has
come to.

Every round has the base that the request which launched it has found, if it
found one, and such a base is before the round's slot.  A round with such a base
ends with a state, or because its transition failed, or because it was
cancelled.  Where a round ends with an error about the state to start from, the
request that launched it was counted as new. -/
theorem cached_states_stand_at_their_slots (p : Preset) (limits : Limits)
    (metrics : Option TaskMetrics) (es : List (StateEvent σ))
    (punctual : (fresh p limits metrics).PunctualRun es) :
    let start : StateService σ := fresh p limits metrics
    let q := (start.run es).2.service.queue
    (∀ k state, q.cache.find? k = some state → HasSlot.slot state = k.slot) ∧
    ∀ r a, q.Has r a →
      (∀ state, a.result? = some (.ok state) → HasSlot.slot state = a.key.slot) ∧
      (∀ base, a.task.base = some base →
        HasSlot.slot base < a.key.slot ∧
        ∀ result, a.result? = some result →
          (∃ state, result = .ok state) ∨
          (∃ causes, result = .error (.task (.transitionFailed a.key.root a.key.slot causes))) ∨
          result = cancellation a.key) ∧
      ∃ past e later w, es = past ++ e :: later ∧
        ((start.run past).2.step e).1.answer = .admitted (.launched r w) ∧
        a.task.base = w.base.map (·.2) ∧
        ∀ error, a.result? = some (.error (.task error)) → error.concernsBase = true →
          ((start.run past).2.step e).1.answer.outcome? = some .fresh := by
  intro start q
  obtain ⟨haccepts, -⟩ := punctual_run (scripted_fresh p limits metrics)
    (Queue.sound_fresh limits metrics) punctual
  have hsound : q.Sound AtSlot Below := by
    show (start.run es).2.service.queue.Sound AtSlot Below
    rw [(start.follows_run es).1]
    exact Service.sound_run (Queue.sound_fresh limits metrics) haccepts
  refine ⟨fun k state hk => atSlot_ok.mp (hsound.cached hk), fun r a ha => ?_⟩
  obtain ⟨past, e, later, w, hes, hw, htask⟩ := exists_launch p limits metrics ha
  have hbase : a.task.base = w.base.map (·.2) := by
    rw [htask]
    rcases w with ⟨n, - | ⟨k, base⟩⟩ <;> rfl
  refine ⟨fun state hr => atSlot_ok.mp (hsound.settled ha hr), fun base hb => ?_,
    past, e, later, w, hes, hw, hbase, fun error hr herror => ?_⟩
  · exact ⟨(hsound.tasks ha).2 base hb, fun _ hr =>
      result_of_rebased p limits metrics punctual ha (hb ▸ Option.some_ne_none base) hr⟩
  · rw [hw]
    rcases w with ⟨n, - | ⟨k, base⟩⟩
    · rfl
    · -- a rebased round ends with no such error
      have hb : a.task.base ≠ none := hbase ▸ Option.some_ne_none base
      rcases result_of_rebased p limits metrics punctual ha hb hr with
        ⟨state, h⟩ | ⟨causes, h⟩ | h
      · cases h
      · cases h
        cases herror
      · cases h

/-- Events of which two rounds are rebased, one onto an inserted state and one
onto the first one's, whose transition fails; and a third finds a state that is
past its slot. -/
def rebasedRequests : List (StateEvent Mock.MockState) :=
  [.insert .zero ⟨7, "a"⟩, .request "x" ⟨9, .zero⟩, .advanced 0 (.ok ⟨9, "b"⟩),
    .request "y" ⟨16, .zero⟩, .advanced 1 (.failed ["no"]),
    .request "z" ⟨3, .zero⟩, .foundBase 2 (.ok (some ⟨5, "c"⟩))]

theorem punctual_advanced {s : StateService σ} {r : Nat} {reply : Reply σ} (p : Preset)
    (t : Transition σ) (hq : s.questions = [(r, .transition t)]) (hp : s.preset = p)
    (h : ∀ state, reply = .ok state → t.LeadsTo p state) : s.Punctual (.advanced r reply) := by
  intro t' hm
  rw [hq] at hm
  cases List.mem_singleton.mp hm
  rwa [hp]

theorem rebasedRequests_stand_at_their_slots :
    (fresh .minimal .standard none).PunctualRun rebasedRequests ∧
    ((fresh .minimal .standard none).run rebasedRequests).1.filterMap (·.answer.outcome?)
      = [.rebased, .rebased, .fresh] ∧
    ((fresh .minimal .standard none).run rebasedRequests).1.flatMap (·.resolved)
      = [("x", .ok ⟨9, "b"⟩), ("y", .error (.task (.transitionFailed .zero 16 ["no"]))),
        ("z", .error (.task (.pastTarget .zero 5 3)))] ∧
    ∀ k state, ((fresh .minimal .standard none).run
      rebasedRequests).2.service.queue.cache.find? k = some state → HasSlot.slot state = k.slot := by
  have punctual : (fresh .minimal .standard none).PunctualRun rebasedRequests := by
    refine ⟨trivial, trivial, ?_, trivial, ?_, trivial, trivial, trivial⟩
    · refine punctual_advanced .minimal (.replay ⟨7, "a"⟩ 9) (by decide +kernel)
        (by decide +kernel) fun state h => ?_
      obtain rfl := Reply.ok.inj h
      exact (rfl : (9 : UInt64) = 9)
    · exact punctual_advanced .minimal (.regenerate ⟨2, .zero⟩ ⟨9, "b"⟩) (by decide +kernel)
        (by decide +kernel) fun state h => by cases h
  obtain ⟨cached, -⟩ :=
    cached_states_stand_at_their_slots .minimal .standard none rebasedRequests punctual
  exact ⟨punctual, by decide +kernel, by decide +kernel, cached⟩

end StateService

end SlotStates
