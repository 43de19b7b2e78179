/-
SlotStates/Proofs/State/Transparency.lean

What is cached is what would have been computed.

Fix a family of states, one for each block and slot (`Canon`), and suppose that
the collaborators are honest: whatever state the provider has for a block is of
the family, a transition from a state of the family leads to the later one, and
only states of the family are inserted.  Replies may be late, may fail and may
never come, callers may walk away and executors may be taken away, and the
cache may lose anything at any time.

The invariant (`Canon.Grounded`) ties together the cache, the results, the
bases that tasks were given and the questions that are under way: a base is a
state of the family before the slot of its round, and so is the base of each
transition that is asked for.  Hence the reply to it is the state of the round's
key, and so is everything that is ever cached or handed out
(`cache_is_transparent`).
-/
import SlotStates.Proofs.Chain.Epochs
import SlotStates.Proofs.Queue.Values
import SlotStates.Proofs.State.Sent

namespace SlotStates

/-- A state for each block and slot. -/
structure Canon (σ : Type) [HasSlot σ] where
  state : Root → Slot → σ
  slot_state : ∀ root slot, HasSlot.slot (state root slot) = slot

namespace Canon

variable {σ : Type} [HasSlot σ] (canon : Canon σ)

/-- The state that a key names. -/
def of (k : StateKey) : σ := canon.state k.root k.slot

/-! ### Honest collaborators -/

/-- The provider has nothing for a block, or a state of the block. -/
def Provides (root : Root) : Reply (Option σ) → Prop
  | .ok (some base) => ∃ slot, base = canon.state root slot
  | _ => True

/-- A transition fails, or leads from a state of a block to the later one. -/
def Advances (p : Preset) (t : Transition σ) : Reply σ → Prop
  | .ok s =>
    match t with
    | .replay base target =>
      ∀ root slot, base = canon.state root slot → slot < target → s = canon.state root target
    | .regenerate c base =>
      ∀ slot target, base = canon.state c.root slot →
        target.toNat = c.epoch.toNat * p.slotsPerEpoch.toNat → slot < target →
        s = canon.state c.root target
  | _ => True

/-- Replies are honest with respect to the question that they answer, and what
is written is of the family. -/
def Honest (s : StateService σ) : StateEvent σ → Prop
  | .foundBase r reply => ∀ root, (r, .lookup root) ∈ s.questions → canon.Provides root reply
  | .advanced r reply =>
    ∀ t, (r, .transition t) ∈ s.questions → canon.Advances s.preset t reply
  | .insert root state => state = canon.state root (HasSlot.slot state)
  | .store k state => state = canon.of k
  | _ => True

/-- Every event of a run is honest when it happens. -/
def HonestRun (s : StateService σ) : List (StateEvent σ) → Prop
  | [] => True
  | e :: es => canon.Honest s e ∧ HonestRun (s.step e).2 es

/-! ### What is kept, launched and asked -/

/-- A result for a key is the state that the key names, or an error. -/
def Kept (k : StateKey) (result : Result StateError σ) : Prop :=
  ∀ s, result = .ok s → s = canon.of k

/-- A state that the state of a key can be computed from. -/
def Base (k : StateKey) (base : σ) : Prop := ∃ slot < k.slot, base = canon.state k.root slot

/-- A task is for its key, and was given only a base for it. -/
def Fit (k : StateKey) (t : StateTask σ) : Prop :=
  t.key = k ∧ ∀ base, t.base = some base → canon.Base k base

/-- A question that may arise in the computation for a key. -/
def Arises (p : Preset) (k : StateKey) : Demand σ → Prop
  | .lookup root => root = k.root
  | .transition t => ∃ base, canon.Base k base ∧ t = (StateTask.ofKey k).transition p base

/-- A course of a round for a key. -/
def Sensible (p : Preset) (k : StateKey) : Course σ → Prop
  | .ask t => canon.Arises p k (.transition t)
  | .done e => canon.Kept k (e.result (KeyText.text k))

variable {canon}

theorem kept_error {k : StateKey} {e : Failure StateError} : canon.Kept k (.error e) :=
  fun _ h => by cases h

theorem kept_ok {k : StateKey} {s : σ} : canon.Kept k (.ok s) ↔ s = canon.of k :=
  ⟨fun h => h s rfl, fun h _ he => (Except.ok.inj he).symm.trans h⟩

/-! ### One computation -/

/-- From a state of its block, a task goes on sensibly. -/
theorem sensible_advance {p : Preset} {t : StateTask σ} {slot : Slot} :
    canon.Sensible p t.key (t.advance p (canon.state t.key.root slot)) := by
  unfold StateTask.advance
  rw [canon.slot_state]
  -- at the slot, past it, or before it
  split
  · next h => exact kept_ok.mpr (congrArg (canon.state t.key.root) h)
  · split
    · exact kept_error
    · next hne hlt =>
      have hlt : slot < t.key.slot := UInt64.lt_of_le_of_ne (UInt64.not_lt.mp hlt) hne
      exact ⟨_, ⟨slot, hlt, rfl⟩, rfl⟩

/-- After an honest reply of the provider, a task goes on sensibly. -/
theorem sensible_afterLookup {p : Preset} {t : StateTask σ} {reply : Reply (Option σ)}
    (h : canon.Provides t.key.root reply) : canon.Sensible p t.key (t.afterLookup p reply) := by
  rcases reply with (- | base) | causes | -
  case ok.some =>
    obtain ⟨slot, rfl⟩ := h
    exact sensible_advance
  all_goals exact kept_error

/-- An honest reply to a transition is the state of the key. -/
theorem kept_afterTransition {p : Preset} {t : StateTask σ} {tr : Transition σ}
    (hq : canon.Arises p t.key (.transition tr)) {reply : Reply σ}
    (h : canon.Advances p tr reply) :
    canon.Kept t.key ((t.afterTransition reply).result (KeyText.text t.key)) := by
  rcases reply with s | causes | -
  case ok =>
    obtain ⟨base, ⟨slot, hlt, rfl⟩, rfl⟩ := hq
    refine kept_ok.mpr ?_
    unfold StateTask.transition at h
    split at h
    · next he =>
      -- the checkpoint of the epoch that the slot starts is at the slot itself
      exact h slot t.key.slot rfl (Preset.toNat_of_isEpochStart he) hlt
    · exact h t.key.root slot rfl hlt
  all_goals exact kept_error

/-! ### All computations -/

variable (canon)

/-- Everything is of the family: what is cached, what rounds have for results,
the bases that tasks were given, and the bases of the questions under way. -/
structure Grounded (s : StateService σ) : Prop where
  sound : s.service.queue.Sound canon.Kept canon.Fit
  questions : ∀ {r d}, (r, d) ∈ s.questions →
    ∃ a, s.service.queue.Has r a ∧ canon.Arises s.preset a.key d

/-- A list of events that can be sent, and what is grounded afterwards. -/
structure Sends (s : StateService σ) (fs : List (QueueEvent σ)) (s' : StateService σ) :
    Prop where
  accepts : s.service.Accepts canon.Kept canon.Fit fs
  grounded : canon.Grounded s'

variable {canon}

theorem grounded_fresh (p : Preset) (limits : Limits) (metrics : Option TaskMetrics) :
    canon.Grounded (.fresh p limits metrics) where
  sound := Queue.sound_fresh limits metrics
  questions h := by cases h

theorem Grounded.sends_nothing {s : StateService σ} (h : canon.Grounded s) :
    canon.Sends s [] s := ⟨trivial, h⟩

/-- An event that is acceptable leaves the questions well-founded that are not
given up with it. -/
theorem Grounded.sends {s s' : StateService σ} (h : canon.Grounded s) {e : QueueEvent σ}
    (he : s.service.queue.Accepts canon.Kept canon.Fit e)
    (hs : s'.service = (s.service.step e).2) (hp : s'.preset = s.preset)
    (hq : s'.questions ⊆ s.questions) : canon.Sends s [e] s' where
  accepts := ⟨he, trivial⟩
  grounded := by
    refine ⟨hs ▸ Service.sound_step h.sound he, fun {r d} hd => ?_⟩
    obtain ⟨a, ha, hr⟩ := h.questions (hq hd)
    obtain ⟨b, hb, hab⟩ := (s.service.grows_step e).becomes ha
    rw [hs, hp]
    exact ⟨b, hb, hab.key ▸ hr⟩

theorem Grounded.sends_ask {s : StateService σ} (h : canon.Grounded s) {r : Nat}
    {a : Round StateKey (StateTask σ) σ StateError} (ha : s.service.queue.Has r a)
    {d : Demand σ} (hd : canon.Arises s.preset a.key d) (notes : List StateNote) :
    canon.Sends s [] (s.ask r d notes).2 where
  accepts := trivial
  grounded := by
    refine ⟨h.sound, fun {i d'} hm => ?_⟩
    rcases List.mem_append.mp hm with hm | hm
    · exact h.questions (List.mem_of_mem_filter hm)
    · obtain ⟨rfl, rfl⟩ := Prod.mk.inj (List.mem_singleton.mp hm)
      exact ⟨a, ha, hd⟩

/-- A round that runs can take a sensible course. -/
theorem Grounded.sends_follow {s : StateService σ} (h : canon.Grounded s) {r : Nat}
    {a : Round StateKey (StateTask σ) σ StateError} (hr : s.service.queue.running? r = some a)
    {course : Course σ} (hc : canon.Sensible s.preset a.key course) :
    canon.Sends s (StateService.sentByCourse r course) (s.follow r a.task course).2 := by
  obtain ⟨ha, -⟩ := Queue.running?_eq_some_iff.mp hr
  cases course with
  | ask t => exact h.sends_ask (d := .transition t) ha hc _
  | done e =>
    refine h.sends (fun b hb _ => ?_) rfl rfl (List.filter_subset_self _)
    obtain rfl := ha.unique hb
    exact hc

theorem Grounded.sends_begin {s : StateService σ} (h : canon.Grounded s) (r : Nat) :
    canon.Sends s (s.sentByBegin r) (s.begin r).2 := by
  rcases s.begin_cases r with ⟨hs, hb⟩ | ⟨a, hr, hcase⟩
  · rw [hs, hb]
    exact h.sends_nothing
  -- the task looks for a base, or it was given one of the family
  obtain ⟨ha, -⟩ := Queue.running?_eq_some_iff.mp hr
  obtain ⟨hkey, hbase⟩ := h.sound.tasks ha
  rcases hcase with ⟨-, hs, hb⟩ | ⟨base, hbs, hs, hb⟩
  · rw [hs, hb]
    exact h.sends_ask (d := .lookup _) ha (congrArg StateKey.root hkey) _
  · rw [hs, hb]
    obtain ⟨slot, -, rfl⟩ := hbase base hbs
    refine h.sends_follow hr ?_
    rw [← hkey]
    exact sensible_advance

theorem Sends.append {s s' s'' : StateService σ} {fs gs : List (QueueEvent σ)}
    (h : canon.Sends s fs s') (hs : s'.service = (s.service.run fs).2)
    (h' : canon.Sends s' gs s'') :
    canon.Sends s (fs ++ gs) s'' :=
  ⟨Service.accepts_append.mpr ⟨h.accepts, hs ▸ h'.accepts⟩, h'.grounded⟩

/-- A task can be launched for any key, and onto any ancestor's state. -/
theorem accepts_perform (q : Queue StateKey (StateTask σ) σ StateError) (caller : String)
    (k : StateKey) : q.Accepts canon.Kept canon.Fit (.perform caller (.ofKey k)) := by
  refine ⟨⟨rfl, fun base hb => by cases hb⟩, fun i a v ha hv => ⟨rfl, fun base hb => ?_⟩⟩
  obtain rfl := Option.some.inj hb
  obtain ⟨hroot, hlt⟩ := Ancestors.get?_eq_some ha
  refine ⟨a.slot, hlt, (kept_ok.mp hv).trans ?_⟩
  rw [of, hroot]
  rfl

theorem Grounded.sends_request {s : StateService σ} (h : canon.Grounded s) (caller : String)
    (k : StateKey) : canon.Sends s (s.sentByRequest caller k) (s.request caller k).2 := by
  have hp : canon.Sends s [.perform caller (.ofKey k)] (s.send (.perform caller (.ofKey k))).2 :=
    h.sends (accepts_perform _ caller k) rfl rfl (List.Subset.refl _)
  rcases s.request_cases caller k with ⟨-, hs, hr⟩ | ⟨r, -, -, hs, hr⟩
  · rw [hs, hr]
    exact hp
  · rw [hs, hr]
    exact hp.append rfl (hp.grounded.sends_begin r)

/-- An honest event keeps everything grounded. -/
theorem Grounded.sends_step {s : StateService σ} (h : canon.Grounded s) {e : StateEvent σ}
    (he : canon.Honest s e) : canon.Sends s (s.sent e) (s.step e).2 := by
  have any : ∀ f, s.service.queue.Accepts canon.Kept canon.Fit f →
      canon.Sends s [f] (s.send f).2 := fun f hf => h.sends hf rfl rfl (List.Subset.refl _)
  cases e with
  | request caller k => exact h.sends_request caller k
  | requestCheckpoint caller c => exact h.sends_request caller (c.key s.preset)
  | foundBase r reply =>
    rcases s.foundBase_cases r reply with ⟨hs, hb⟩ | ⟨a, root, hr, hm, hs, hb⟩
    · rw [hs, hb]
      exact h.sends_nothing
    · rw [hs, hb]
      obtain ⟨ha, -⟩ := Queue.running?_eq_some_iff.mp hr
      obtain ⟨b, hb, hroot⟩ := h.questions hm
      obtain rfl := ha.unique hb
      obtain ⟨hkey, -⟩ := h.sound.tasks ha
      refine h.sends_follow hr ?_
      rw [← hkey]
      refine sensible_afterLookup ?_
      rw [hkey, ← show root = a.key.root from hroot]
      exact he root hm
  | advanced r reply =>
    rcases s.advanced_cases r reply with ⟨hs, hb⟩ | ⟨a, t, hr, hm, hs, hb⟩
    · rw [hs, hb]
      exact h.sends_nothing
    · rw [hs, hb]
      obtain ⟨ha, -⟩ := Queue.running?_eq_some_iff.mp hr
      obtain ⟨b, hb, hq⟩ := h.questions hm
      obtain rfl := ha.unique hb
      obtain ⟨hkey, -⟩ := h.sound.tasks ha
      refine h.sends_follow hr ?_
      rw [← hkey] at hq ⊢
      exact kept_afterTransition hq (he t hm)
  | insert root state => exact any _ (kept_ok.mpr he)
  | store k state => exact any _ (kept_ok.mpr he)
  | shutdown => exact h.sends (fun r a _ _ => kept_error) rfl rfl (List.nil_subset _)
  | pruneBefore slot => exact any (.prune _) trivial
  | get k => exact any _ trivial
  | remove k => exact any _ trivial
  | clear => exact any _ trivial
  | drop caller => exact any _ trivial

theorem Grounded.run {s : StateService σ} (h : canon.Grounded s) {es : List (StateEvent σ)}
    (hes : canon.HonestRun s es) : canon.Sends s (s.sentAll es) (s.run es).2 := by
  induction es generalizing s with
  | nil => exact h.sends_nothing
  | cons e es ih =>
    have hs := h.sends_step hes.1
    exact hs.append (s.follows_step e).service (ih hs.grounded hes.2)

end Canon

/-! ### Obliging collaborators -/

variable {σ : Type} [HasSlot σ] {canon : Canon σ}

namespace StateService

/-- Whoever is asked replies: the provider with a state at or before the slot
of the round that asks, and a transition without failure. -/
def Obliging (s : StateService σ) : StateEvent σ → Prop
  | .foundBase r reply =>
    ∀ root a, (r, .lookup root) ∈ s.questions → s.service.queue.Has r a →
      ∃ base, reply = .ok (some base) ∧ HasSlot.slot base ≤ a.key.slot
  | .advanced r reply =>
    ∀ t, (r, .transition t) ∈ s.questions → ∃ state, reply = .ok state
  | _ => True

/-- The collaborators are obliging all along a run. -/
def ObligingRun (s : StateService σ) : List (StateEvent σ) → Prop
  | [] => True
  | e :: es => s.Obliging e ∧ ObligingRun (s.step e).2 es

end StateService

/-- A result that is a value, or a cancellation, where these can happen. -/
def Unfailing (stopped : Prop) (k : StateKey) (result : Result StateError σ) : Prop :=
  (∃ s, result = .ok s) ∨ stopped ∧ result = cancellation k

/-- Tasks of any kind. -/
def AnyTask (_ : StateKey) (_ : StateTask σ) : Prop := True

namespace Canon

/-- A round does not end in its first turn: it was given no base, or one before
its slot. -/
theorem Grounded.sentByBegin_eq_nil {s : StateService σ} (h : canon.Grounded s) (r : Nat) :
    s.sentByBegin r = [] := by
  refine StateService.sentByBegin_eq_nil fun a base ha hb => ?_
  obtain ⟨hkey, hbase⟩ := h.sound.tasks ha
  obtain ⟨slot, hlt, rfl⟩ := hbase base hb
  rwa [canon.slot_state, hkey]

/-- Where collaborators are obliging, rounds end with values unless they are
stopped. -/
theorem Grounded.unfailing_step {s : StateService σ} (h : canon.Grounded s) {e : StateEvent σ}
    (he : s.Obliging e) {stopped : Prop} (hs : e = .shutdown → stopped) :
    s.service.Accepts (Unfailing stopped) AnyTask (s.sent e) := by
  have request : ∀ caller k,
      s.service.Accepts (Unfailing stopped) AnyTask (s.sentByRequest caller k) := by
    intro caller k
    have hp : s.service.Accepts (Unfailing stopped) AnyTask [.perform caller (.ofKey k)] :=
      ⟨⟨trivial, fun _ _ _ _ _ => trivial⟩, trivial⟩
    have hg : canon.Sends s [.perform caller (.ofKey k)]
        (s.send (.perform caller (.ofKey k))).2 :=
      h.sends (accepts_perform _ caller k) rfl rfl (List.Subset.refl _)
    rcases s.request_cases caller k with ⟨-, hs, -⟩ | ⟨r, -, -, hs, -⟩
    · rw [hs]
      exact hp
    · rw [hs, hg.grounded.sentByBegin_eq_nil r]
      exact hp
  have returned : ∀ r state,
      s.service.Accepts (Unfailing stopped) AnyTask [.finish r (.returned state)] :=
    fun r state => ⟨fun _ _ _ => .inl ⟨state, rfl⟩, trivial⟩
  cases e with
  | request caller k => exact request caller k
  | requestCheckpoint caller c => exact request caller (c.key s.preset)
  | foundBase r reply =>
    rcases s.foundBase_cases r reply with ⟨hs, -⟩ | ⟨a, root, hr, hm, hs, -⟩
    · rw [hs]
      trivial
    · obtain ⟨ha, -⟩ := Queue.running?_eq_some_iff.mp hr
      obtain ⟨base, rfl, hle⟩ := he root a hm ha
      obtain ⟨hkey, -⟩ := h.sound.tasks ha
      rw [← hkey] at hle
      rw [hs, StateTask.afterLookup, StateTask.advance, if_neg (UInt64.not_lt.mpr hle)]
      -- it has its value, or asks for a transition
      split
      · exact returned r base
      · trivial
  | advanced r reply =>
    rcases s.advanced_cases r reply with ⟨hs, -⟩ | ⟨a, t, -, hm, hs, -⟩
    · rw [hs]
      trivial
    · obtain ⟨state, rfl⟩ := he t hm
      rw [hs]
      exact returned r state
  | insert root state => exact ⟨.inl ⟨state, rfl⟩, trivial⟩
  | store k state => exact ⟨.inl ⟨state, rfl⟩, trivial⟩
  | shutdown => exact ⟨fun r a _ _ => .inr ⟨hs rfl, rfl⟩, trivial⟩
  | _ => exact ⟨trivial, trivial⟩

theorem Grounded.unfailing_run {s : StateService σ} (h : canon.Grounded s)
    {es : List (StateEvent σ)} (hes : canon.HonestRun s es) (ho : s.ObligingRun es)
    {stopped : Prop} (hs : .shutdown ∈ es → stopped) :
    s.service.Accepts (Unfailing stopped) AnyTask (s.sentAll es) := by
  induction es generalizing s with
  | nil => trivial
  | cons e es ih =>
    have hstep := h.unfailing_step ho.1 (fun he => hs (he ▸ List.mem_cons_self))
    refine Service.accepts_append.mpr ⟨hstep, ?_⟩
    rw [← (s.follows_step e).service]
    exact ih (h.sends_step hes.1).grounded hes.2 ho.2 fun hm => hs (List.mem_cons_of_mem e hm)

/-! ### A run in which keys stand for states -/

theorem honest_foundBase {s : StateService σ} {r : Nat} {reply : Reply (Option σ)} (root : Root)
    (hq : s.questions = [(r, .lookup root)]) (h : canon.Provides root reply) :
    canon.Honest s (.foundBase r reply) := by
  intro root' hm
  rw [hq] at hm
  cases List.mem_singleton.mp hm
  exact h

theorem honest_advanced {s : StateService σ} {r : Nat} {reply : Reply σ} (p : Preset)
    (t : Transition σ) (hq : s.questions = [(r, .transition t)]) (hp : s.preset = p)
    (h : canon.Advances p t reply) : canon.Honest s (.advanced r reply) := by
  intro t' hm
  rw [hq] at hm
  cases List.mem_singleton.mp hm
  rwa [hp]

instance : HasSlot StateKey := ⟨StateKey.slot⟩

/-- The family in which each state is its own key. -/
def keys : Canon StateKey where
  state root slot := ⟨slot, root⟩
  slot_state _ _ := rfl

/-- One state is computed from what the provider has, and the next one, at the
start of an epoch, from the first. -/
def twoRequests : List (StateEvent StateKey) :=
  [.request "a" ⟨9, .zero⟩, .foundBase 0 (.ok (some ⟨7, .zero⟩)), .advanced 0 (.ok ⟨9, .zero⟩),
    .request "b" ⟨16, .zero⟩, .advanced 1 (.ok ⟨16, .zero⟩)]

/-! ### Transparency -/

/-- **The cache is transparent**: after a run with honest collaborators, every
value that is cached is the state that its key names, every caller that was
told a state was told the state of the key it asked for, and so is every state
that is looked up or taken out.  Where the collaborators are obliging too,
every caller that was told anything was told this state, except for those whose
computation was cancelled by a shutdown. -/
theorem cache_is_transparent (canon : Canon σ) (p : Preset) (limits : Limits)
    (metrics : Option TaskMetrics) (es : List (StateEvent σ))
    (honest : canon.HonestRun (.fresh p limits metrics) es) :
    let start := StateService.fresh p limits metrics
    let s := (start.run es).2
    let l := Ledger.after limits metrics (start.sentAll es)
    (l.service = s.service ∧ l.told.map (fun t => (t.1.waiter.caller, t.2))
      = (start.run es).1.flatMap (·.resolved)) ∧
    (∀ c ∈ l.known, ∃ e ∈ es, e.Requests p c.waiter.caller c.key) ∧
    (∀ k v, s.service.queue.cache.find? k = some v → v = canon.of k) ∧
    (∀ t ∈ l.told, ∀ v, t.2 = .ok v → v = canon.of t.1.key) ∧
    (∀ k v, (s.step (.get k)).1.answer = .value (some v) → v = canon.of k) ∧
    (∀ k v, (s.step (.remove k)).1.answer = .value (some v) → v = canon.of k) ∧
    (start.ObligingRun es → ∀ t ∈ l.told, t.2 = .ok (canon.of t.1.key) ∨
      .shutdown ∈ es ∧ t.2 = cancellation t.1.key) := by
  intro start s l
  have hstart : canon.Grounded start := grounded_fresh p limits metrics
  have h : canon.Sends start (start.sentAll es) s := hstart.run honest
  obtain ⟨hs, hr⟩ := start.follows_run es
  have hcached : ∀ k v, s.service.queue.cache.find? k = some v → v = canon.of k :=
    fun k v hv => kept_ok.mp (h.grounded.sound.cached hv)
  have htold : ∀ t ∈ l.told, canon.Kept t.1.key t.2 := Ledger.told_kept limits metrics h.accepts
  refine ⟨⟨(Ledger.service_after limits metrics _).trans hs.symm,
    (Ledger.told_after limits metrics _).trans hr.symm⟩, fun c hc => ?_, hcached, htold,
    fun k v hv => hcached k v (Answer.value.inj hv),
    fun k v hv => hcached k v (Answer.value.inj hv),
    fun ho t ht => ?_⟩
  · obtain ⟨past, caller, task, later, hes, rfl⟩ := Ledger.known_after hc
    have hm : .perform caller task ∈ start.sentAll es :=
      hes ▸ List.mem_append_right past List.mem_cons_self
    exact StateService.requests_of_mem_sentAll hm
  · have hu := Ledger.told_kept limits metrics
      (hstart.unfailing_run honest ho (@id (.shutdown ∈ es))) t ht
    rcases hu with ⟨v, hv⟩ | hc
    · exact .inl (hv.trans (congrArg _ (htold t ht v hv)))
    · exact .inr hc

theorem twoRequests_transparent :
    keys.HonestRun (.fresh .minimal .standard none) twoRequests ∧
    (StateService.fresh .minimal .standard none).ObligingRun twoRequests ∧
    ((StateService.fresh .minimal .standard none).run twoRequests).1.flatMap (·.resolved)
      = [("a", .ok ⟨9, .zero⟩), ("b", .ok ⟨16, .zero⟩)] ∧
    ∀ k v, ((StateService.fresh .minimal .standard none).run
      twoRequests).2.service.queue.cache.find? k = some v → v = k := by
  have replayed : keys.Advances .minimal (.replay ⟨7, .zero⟩ 9) (.ok ⟨9, .zero⟩) := by
    rintro root slot hb -
    cases hb
    rfl
  have regenerated :
      keys.Advances .minimal (.regenerate ⟨2, .zero⟩ ⟨9, .zero⟩) (.ok ⟨16, .zero⟩) := by
    rintro slot target - ht -
    have h : (2 : UInt64).toNat * Preset.minimal.slotsPerEpoch.toNat = (16 : UInt64).toNat := rfl
    rw [UInt64.toNat_inj.mp (ht.trans h)]
    rfl
  have honest : keys.HonestRun (.fresh .minimal .standard none) twoRequests :=
    ⟨trivial, honest_foundBase .zero (by decide +kernel) ⟨7, rfl⟩,
      honest_advanced .minimal (.replay ⟨7, .zero⟩ 9) (by decide +kernel) (by decide +kernel)
        replayed,
      trivial,
      honest_advanced .minimal (.regenerate ⟨2, .zero⟩ ⟨9, .zero⟩) (by decide +kernel)
        (by decide +kernel) regenerated,
      trivial⟩
  have obliging : (StateService.fresh .minimal .standard none).ObligingRun twoRequests := by
    refine ⟨trivial, ?_, fun _ _ => ⟨_, rfl⟩, trivial, fun _ _ => ⟨_, rfl⟩, trivial⟩
    intro root a _ ha
    obtain rfl : ⟨⟨9, .zero⟩, .ofKey ⟨9, .zero⟩, .running⟩ = a := Option.some.inj ha
    exact ⟨_, rfl, by decide⟩
  obtain ⟨-, -, cached, -⟩ := cache_is_transparent keys .minimal .standard none twoRequests honest
  exact ⟨honest, obliging, by decide +kernel, cached⟩

end Canon

end SlotStates
