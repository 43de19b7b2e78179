/-
SlotStates/Proofs/State/Sent.lean

A state service is its queue, with some of the events decided by the tasks.

An event of a state service sends events to the queue (`StateService.sent`).
A request sends itself, and the ending of the round it launches if this round
ends in its first turn; a reply sends the ending of the round that waited for
it, unless the round goes on to ask another question; and the others send one
event each.  The questions decide what is sent, but the queue and its callers
see only the events:

    (s.run es).2.service = (s.service.run (s.sentAll es)).2,

and what callers are told is what the reports of these events say
(`follows_run`).  So what holds of every run of a queue holds of the queue of
a state service.
-/
import SlotStates.Proofs.Queue.Flight
import SlotStates.State.Service

namespace SlotStates

/-- What can happen to the queue of a state service. -/
abbrev QueueEvent (σ : Type) := Event StateKey (StateTask σ) σ StateError

namespace StateService

variable {σ : Type}

/-- What comes of a state service that sends events to its queue. -/
structure Follows (s : StateService σ) (fs : List (QueueEvent σ))
    (p : StateReport σ × StateService σ) : Prop where
  preset : p.2.preset = s.preset
  service : p.2.service = (s.service.run fs).2
  resolved : p.1.resolved = (s.service.run fs).1.flatMap (·.resolved)

theorem follows_nothing (s : StateService σ) : s.Follows [] (.nothing, s) := ⟨rfl, rfl, rfl⟩

theorem Follows.append {s : StateService σ} {fs gs : List (QueueEvent σ)}
    {p p' : StateReport σ × StateService σ} (h : s.Follows fs p) (h' : p.2.Follows gs p') :
    s.Follows (fs ++ gs) (p.1.followedBy p'.1, p'.2) where
  preset := h'.preset.trans h.preset
  service := by
    rw [h'.service, h.service, Service.run_append_snd]
  resolved := by
    show p.1.resolved ++ p'.1.resolved = _
    rw [h.resolved, h'.resolved, h.service, Service.run_append_fst, List.flatMap_append]

/-- What a service that has something else in its books sends. -/
theorem Follows.congr {s s' : StateService σ} {fs : List (QueueEvent σ)}
    {p : StateReport σ × StateService σ} (h : s'.Follows fs p) (hp : s'.preset = s.preset)
    (hs : s'.service = s.service) : s.Follows fs p :=
  ⟨h.preset.trans hp, by rw [h.service, hs], by rw [h.resolved, hs]⟩

theorem follows_send (s : StateService σ) (e : QueueEvent σ) :
    s.Follows [e] (s.send e) where
  preset := rfl
  service := rfl
  resolved := (List.append_nil _).symm

theorem follows_ask (s : StateService σ) (r : Nat) (d : Demand σ) (notes : List StateNote) :
    s.Follows [] (s.ask r d notes) := ⟨rfl, rfl, rfl⟩

theorem follows_finish (s : StateService σ) (r : Nat) (e : Ending StateError σ) :
    s.Follows [.finish r e] (s.finish r e) :=
  (follows_send { s with questions := _ } _).congr rfl rfl

/-! ### What is sent -/

/-- The event that the course of a round sends, if the round ends. -/
def sentByCourse (r : Nat) : Course σ → List (QueueEvent σ)
  | .done e => [.finish r e]
  | .ask _ => []

variable [HasSlot σ]

theorem follows_follow (s : StateService σ) (r : Nat) (t : StateTask σ) (course : Course σ) :
    s.Follows (sentByCourse r course) (s.follow r t course) := by
  cases course with
  | done e => exact s.follows_finish r e
  | ask tr => exact s.follows_ask r _ _

/-- The event that the first turn of a round sends, if the round ends with
it. -/
def sentByBegin (s : StateService σ) (r : Nat) : List (QueueEvent σ) :=
  match s.service.queue.running? r with
  | none => []
  | some round =>
    match round.task.start s.preset with
    | .lookup _ => []
    | .go course => sentByCourse r course

/-- The first turn of a round that runs is to look for a base, or to go on from
the one it was given. -/
theorem begin_cases (s : StateService σ) (r : Nat) :
    (s.sentByBegin r = [] ∧ s.begin r = (.nothing, s)) ∨
    ∃ a, s.service.queue.running? r = some a ∧
      ((a.task.base = none ∧ s.sentByBegin r = [] ∧
          s.begin r = s.ask r (.lookup a.task.key.root) []) ∨
        ∃ base, a.task.base = some base ∧
          s.sentByBegin r = sentByCourse r (a.task.advance s.preset base) ∧
          s.begin r = s.follow r a.task (a.task.advance s.preset base)) := by
  rcases hr : s.service.queue.running? r with - | a
  · exact .inl (by simp only [sentByBegin, begin, hr, and_self])
  · refine .inr ⟨a, rfl, ?_⟩
    rcases hb : a.task.base with - | base
    · have ht : a.task.start s.preset = .lookup a.task.key.root := by rw [StateTask.start, hb]
      exact .inl ⟨rfl, by simp only [sentByBegin, hr, ht], by simp only [begin, hr, ht]⟩
    · have ht : a.task.start s.preset = .go (a.task.advance s.preset base) := by
        rw [StateTask.start, hb]
      exact .inr ⟨base, rfl, by simp only [sentByBegin, hr, ht], by simp only [begin, hr, ht]⟩

/-- A round does not end in its first turn if it was given no base, or one before
its slot. -/
theorem sentByBegin_eq_nil {s : StateService σ} {r : Nat}
    (h : ∀ a base, s.service.queue.Has r a → a.task.base = some base →
      HasSlot.slot base < a.task.key.slot) : s.sentByBegin r = [] := by
  rcases s.begin_cases r with ⟨hs, -⟩ | ⟨a, hr, ⟨-, hs, -⟩ | ⟨base, hb, hs, -⟩⟩
  · exact hs
  · exact hs
  · have hlt := h a base (Queue.running?_eq_some_iff.mp hr).1 hb
    -- from a base before the slot the task asks for a transition
    rw [hs, StateTask.advance, if_neg (UInt64.ne_of_lt hlt), if_neg (UInt64.lt_asymm hlt)]
    rfl

theorem follows_begin (s : StateService σ) (r : Nat) :
    s.Follows (s.sentByBegin r) (s.begin r) := by
  rcases s.begin_cases r with ⟨hs, hb⟩ | ⟨a, -, ⟨-, hs, hb⟩ | ⟨base, -, hs, hb⟩⟩
  · rw [hs, hb]
    exact s.follows_nothing
  · rw [hs, hb]
    exact s.follows_ask r _ _
  · rw [hs, hb]
    exact s.follows_follow r _ _

/-- The events that a request sends: itself, and what the round sends that it
launches. -/
def sentByRequest (s : StateService σ) (caller : String) (k : StateKey) :
    List (QueueEvent σ) :=
  let (report, s) := s.send (.perform caller (.ofKey k))
  .perform caller (.ofKey k) ::
    match report.answer with
    | .admitted (.launched r _) => s.sentByBegin r
    | _ => []

/-- A request is admitted, and that is all, or it launches a round, which takes
its first turn. -/
theorem request_cases (s : StateService σ) (caller : String) (k : StateKey) :
    let p := s.send (.perform caller (.ofKey k))
    (p.1.answer.launches = false ∧
      s.sentByRequest caller k = [.perform caller (.ofKey k)] ∧ s.request caller k = p) ∨
    ∃ r w, p.1.answer = .admitted (.launched r w) ∧
      s.sentByRequest caller k = [.perform caller (.ofKey k)] ++ p.2.sentByBegin r ∧
      s.request caller k = (p.1.followedBy (p.2.begin r).1, (p.2.begin r).2) := by
  unfold sentByRequest request
  generalize s.send (.perform caller (.ofKey k)) = p
  obtain ⟨⟨answer, resolved, notes, asked⟩, s'⟩ := p
  rcases answer with - | (v | r | ⟨r, w⟩) | v | any
  case admitted.launched => exact .inr ⟨r, w, rfl, rfl, rfl⟩
  all_goals exact .inl ⟨rfl, rfl, rfl⟩

theorem follows_request (s : StateService σ) (caller : String) (k : StateKey) :
    s.Follows (s.sentByRequest caller k) (s.request caller k) := by
  have h := s.follows_send (.perform caller (.ofKey k))
  rcases s.request_cases caller k with ⟨-, hs, hr⟩ | ⟨r, -, -, hs, hr⟩
  · rw [hs, hr]
    exact h
  · rw [hs, hr]
    exact h.append (follows_begin _ r)

/-- The events that an event sends to the queue. -/
def sent (s : StateService σ) : StateEvent σ → List (QueueEvent σ)
  | .request caller k => s.sentByRequest caller k
  | .requestCheckpoint caller c => s.sentByRequest caller (c.key s.preset)
  | .foundBase r reply =>
    match s.service.queue.running? r with
    | some round =>
      if s.awaits r (fun d => d matches .lookup _) then
        sentByCourse r (round.task.afterLookup s.preset reply)
      else []
    | none => []
  | .advanced r reply =>
    match s.service.queue.running? r with
    | some round =>
      if s.awaits r (fun d => d matches .transition _) then
        [.finish r (round.task.afterTransition reply)]
      else []
    | none => []
  | .insert root state => [.store ⟨HasSlot.slot state, root⟩ state]
  | .store k state => [.store k state]
  | .get k => [.get k]
  | .remove k => [.remove k]
  | .pruneBefore slot => [.prune fun k => decide (k.slot < slot)]
  | .clear => [.clear]
  | .drop caller => [.drop caller]
  | .shutdown => [.shutdown]

/-- The events that a run sends to the queue. -/
def sentAll (s : StateService σ) : List (StateEvent σ) → List (QueueEvent σ)
  | [] => []
  | e :: es => s.sent e ++ (s.step e).2.sentAll es

omit [HasSlot σ] in
theorem awaits_iff {s : StateService σ} {r : Nat} {p : Demand σ → Bool} :
    s.awaits r p = true ↔ ∃ d, (r, d) ∈ s.questions ∧ p d = true := by
  simp only [awaits, List.any_eq_true, Bool.and_eq_true, beq_iff_eq]
  constructor
  · rintro ⟨⟨i, d⟩, hm, rfl, hd⟩
    exact ⟨d, hm, hd⟩
  · rintro ⟨d, hm, hd⟩
    exact ⟨(r, d), hm, rfl, hd⟩

/-- A reply of the provider takes a round further that runs and waits for it;
otherwise nothing happens. -/
theorem foundBase_cases (s : StateService σ) (r : Nat) (reply : Reply (Option σ)) :
    (s.sent (.foundBase r reply) = [] ∧ s.step (.foundBase r reply) = (.nothing, s)) ∨
    ∃ a root, s.service.queue.running? r = some a ∧ (r, .lookup root) ∈ s.questions ∧
      s.sent (.foundBase r reply) = sentByCourse r (a.task.afterLookup s.preset reply) ∧
      s.step (.foundBase r reply) = s.follow r a.task (a.task.afterLookup s.preset reply) := by
  show (_ ∧ s.foundBase r reply = _) ∨ ∃ a root, _ ∧ _ ∧ _ ∧ s.foundBase r reply = _
  rcases hr : s.service.queue.running? r with - | a
  · exact .inl (by simp only [sent, foundBase, hr, and_self])
  · by_cases ha : s.awaits r (fun d => d matches .lookup _) = true
    · obtain ⟨d, hm, hd⟩ := awaits_iff.mp ha
      cases d with
      | transition t => cases hd
      | lookup root =>
        refine .inr ⟨a, root, rfl, hm, ?_, ?_⟩
        · simp only [sent, hr]
          exact if_pos ha
        · simp only [foundBase, hr]
          exact if_pos ha
    · refine .inl ⟨?_, ?_⟩
      · simp only [sent, hr]
        exact if_neg ha
      · simp only [foundBase, hr]
        exact if_neg ha

/-- The reply to a transition ends a round that runs and waits for it;
otherwise nothing happens. -/
theorem advanced_cases (s : StateService σ) (r : Nat) (reply : Reply σ) :
    (s.sent (.advanced r reply) = [] ∧ s.step (.advanced r reply) = (.nothing, s)) ∨
    ∃ a t, s.service.queue.running? r = some a ∧ (r, .transition t) ∈ s.questions ∧
      s.sent (.advanced r reply) = sentByCourse r (.done (a.task.afterTransition reply)) ∧
      s.step (.advanced r reply)
        = s.follow r a.task (.done (a.task.afterTransition reply)) := by
  show (_ ∧ s.advanced r reply = _) ∨ ∃ a t, _ ∧ _ ∧ _ ∧ s.advanced r reply = _
  rcases hr : s.service.queue.running? r with - | a
  · exact .inl (by simp only [sent, advanced, hr, and_self])
  · by_cases ha : s.awaits r (fun d => d matches .transition _) = true
    · obtain ⟨d, hm, hd⟩ := awaits_iff.mp ha
      cases d with
      | lookup root => cases hd
      | transition t =>
        refine .inr ⟨a, t, rfl, hm, ?_, ?_⟩
        · simp only [sent, hr]
          exact if_pos ha
        · simp only [advanced, hr]
          exact if_pos ha
    · refine .inl ⟨?_, ?_⟩
      · simp only [sent, hr]
        exact if_neg ha
      · simp only [advanced, hr]
        exact if_neg ha

/-! ### The queue sees only what is sent -/

theorem follows_step (s : StateService σ) (e : StateEvent σ) :
    s.Follows (s.sent e) (s.step e) := by
  cases e with
  | request caller k => exact s.follows_request caller k
  | requestCheckpoint caller c => exact s.follows_request caller (c.key s.preset)
  | foundBase r reply =>
    rcases s.foundBase_cases r reply with ⟨hs, he⟩ | ⟨a, root, -, -, hs, he⟩
    · rw [hs, he]
      exact s.follows_nothing
    · rw [hs, he]
      exact s.follows_follow r _ _
  | advanced r reply =>
    rcases s.advanced_cases r reply with ⟨hs, he⟩ | ⟨a, t, -, -, hs, he⟩
    · rw [hs, he]
      exact s.follows_nothing
    · rw [hs, he]
      exact s.follows_follow r _ _
  | pruneBefore slot => exact ⟨rfl, rfl, (List.append_nil _).symm⟩
  | shutdown => exact (follows_send { s with questions := [] } .shutdown).congr rfl rfl
  | _ => exact s.follows_send _

/-- The queue of a state service and its callers after a run, and what the
callers were told, are what the events that were sent make of them. -/
theorem follows_run (s : StateService σ) (es : List (StateEvent σ)) :
    (s.run es).2.service = (s.service.run (s.sentAll es)).2 ∧
      (s.run es).1.flatMap (·.resolved)
        = (s.service.run (s.sentAll es)).1.flatMap (·.resolved) := by
  induction es generalizing s with
  | nil => exact ⟨rfl, rfl⟩
  | cons e es ih =>
    have h := s.follows_step e
    obtain ⟨hs, hr⟩ := ih (s.step e).2
    rw [h.service] at hs hr
    constructor
    · show ((s.step e).2.run es).2.service = _
      rw [hs, sentAll, Service.run_append_snd]
    · show (s.step e).1.resolved ++ ((s.step e).2.run es).1.flatMap _ = _
      rw [h.resolved, hr, sentAll, Service.run_append_fst, List.flatMap_append]

theorem preset_run (s : StateService σ) (es : List (StateEvent σ)) :
    (s.run es).2.preset = s.preset := by
  induction es generalizing s with
  | nil => rfl
  | cons e es ih => exact (ih (s.step e).2).trans (s.follows_step e).preset

theorem sentAll_append (s : StateService σ) (es fs : List (StateEvent σ)) :
    s.sentAll (es ++ fs) = s.sentAll es ++ (s.run es).2.sentAll fs := by
  induction es generalizing s with
  | nil => rfl
  | cons e es ih =>
    show s.sent e ++ (s.step e).2.sentAll (es ++ fs) = _
    rw [ih, ← List.append_assoc]
    rfl

/-! ### Where requests come from -/

end StateService

/-- A caller requests the state of a key, by itself or as that of a
checkpoint. -/
def StateEvent.Requests {σ : Type} (p : Preset) (caller : String) (k : StateKey) :
    StateEvent σ → Prop
  | .request c k' => c = caller ∧ k' = k
  | .requestCheckpoint c checkpoint => c = caller ∧ checkpoint.key p = k
  | _ => False

namespace StateService

variable {σ : Type}

theorem perform_not_mem_sentByCourse {r : Nat} {course : Course σ} {caller : String}
    {task : StateTask σ} : .perform caller task ∉ sentByCourse r course := by
  cases course <;> simp [sentByCourse]

variable [HasSlot σ]

theorem perform_not_mem_sentByBegin {s : StateService σ} {r : Nat} {caller : String}
    {task : StateTask σ} : .perform caller task ∉ s.sentByBegin r := by
  rcases s.begin_cases r with ⟨hs, -⟩ | ⟨a, -, ⟨-, hs, -⟩ | ⟨base, -, hs, -⟩⟩ <;> rw [hs]
  · exact List.not_mem_nil
  · exact List.not_mem_nil
  · exact perform_not_mem_sentByCourse

/-- A request sends itself first, and no other request. -/
theorem sentByRequest_eq_cons (s : StateService σ) (caller : String) (k : StateKey) :
    ∃ rest, s.sentByRequest caller k = .perform caller (.ofKey k) :: rest ∧
      ∀ c task, .perform c task ∉ rest := by
  rcases s.request_cases caller k with ⟨-, hs, -⟩ | ⟨r, -, -, hs, -⟩
  · exact ⟨[], hs, fun _ _ => List.not_mem_nil⟩
  · exact ⟨_, hs, fun _ _ => perform_not_mem_sentByBegin⟩

theorem requests_of_mem_sentByRequest {s : StateService σ} {c caller : String} {k : StateKey}
    {task : StateTask σ} (h : .perform caller task ∈ s.sentByRequest c k) :
    c = caller ∧ k = task.key := by
  obtain ⟨rest, hs, hrest⟩ := s.sentByRequest_eq_cons c k
  rw [hs] at h
  rcases List.mem_cons.mp h with h | h
  · obtain ⟨rfl, rfl⟩ := Event.perform.inj h
    exact ⟨rfl, rfl⟩
  · exact absurd h (hrest caller task)

theorem answer_request (s : StateService σ) (caller : String) (k : StateKey) :
    (s.request caller k).1.answer = .admitted (s.service.queue.request (.ofKey k)).1 := by
  rcases s.request_cases caller k with ⟨-, -, hr⟩ | ⟨r, -, -, -, hr⟩ <;> rw [hr] <;> rfl

theorem step_of_requests {s : StateService σ} {e : StateEvent σ} {caller : String} {k : StateKey}
    (h : e.Requests s.preset caller k) :
    s.step e = s.request caller k ∧ s.sent e = s.sentByRequest caller k := by
  cases e with
  | request c k' =>
    obtain ⟨rfl, rfl⟩ := h
    exact ⟨rfl, rfl⟩
  | requestCheckpoint c checkpoint =>
    obtain ⟨rfl, rfl⟩ := h
    exact ⟨rfl, rfl⟩
  | _ => cases h

/-- A request within a run is sent after what was sent before it. -/
theorem sentAll_of_requests {s : StateService σ} {past : List (StateEvent σ)} {e : StateEvent σ}
    {caller : String} {k : StateKey} (h : e.Requests s.preset caller k)
    (later : List (StateEvent σ)) :
    ∃ rest, s.sentAll (past ++ e :: later)
      = s.sentAll past ++ .perform caller (.ofKey k) :: rest := by
  rw [← preset_run s past] at h
  obtain ⟨rest, hrest, -⟩ := (s.run past).2.sentByRequest_eq_cons caller k
  refine ⟨rest ++ ((s.run past).2.step e).2.sentAll later, ?_⟩
  rw [sentAll_append, sentAll, (step_of_requests h).2, hrest, List.cons_append]

/-- The queue gets a request only when a caller makes it. -/
theorem requests_of_mem_sent {s : StateService σ} {e : StateEvent σ} {caller : String}
    {task : StateTask σ} (h : .perform caller task ∈ s.sent e) :
    e.Requests s.preset caller task.key := by
  cases e with
  | request c k => exact requests_of_mem_sentByRequest h
  | requestCheckpoint c checkpoint => exact requests_of_mem_sentByRequest h
  | foundBase r reply =>
    rcases s.foundBase_cases r reply with ⟨hs, -⟩ | ⟨a, root, -, -, hs, -⟩ <;> rw [hs] at h
    · cases h
    · exact absurd h perform_not_mem_sentByCourse
  | advanced r reply =>
    rcases s.advanced_cases r reply with ⟨hs, -⟩ | ⟨a, t, -, -, hs, -⟩ <;> rw [hs] at h
    · cases h
    · exact absurd h perform_not_mem_sentByCourse
  | _ => cases List.mem_singleton.mp h

theorem requests_of_mem_sentAll {s : StateService σ} {es : List (StateEvent σ)} {caller : String}
    {task : StateTask σ} (h : .perform caller task ∈ s.sentAll es) :
    ∃ e ∈ es, e.Requests s.preset caller task.key := by
  induction es generalizing s with
  | nil => cases h
  | cons e es ih =>
    rcases List.mem_append.mp h with h | h
    · exact ⟨e, List.mem_cons_self, requests_of_mem_sent h⟩
    · obtain ⟨e', he, hr⟩ := ih h
      rw [(s.follows_step e).preset] at hr
      exact ⟨e', List.mem_cons_of_mem e he, hr⟩

/-- If an event sends a request to the queue, it is this request, and the event
sends it first. -/
theorem requests_of_sent_eq {s : StateService σ} {e : StateEvent σ} {fs gs : List (QueueEvent σ)}
    {caller : String} {task : StateTask σ} (h : s.sent e = fs ++ .perform caller task :: gs) :
    fs = [] ∧ e.Requests s.preset caller task.key ∧ task = .ofKey task.key := by
  have he : e.Requests s.preset caller task.key := requests_of_mem_sent (by rw [h]; simp)
  obtain ⟨rest, hrest, hnone⟩ := s.sentByRequest_eq_cons caller task.key
  rw [(step_of_requests he).2, hrest] at h
  rcases fs with - | ⟨f, fs⟩
  · exact ⟨rfl, he, (Event.perform.inj (List.cons.inj h).1).2.symm⟩
  · -- another request would come later, and there is none
    refine absurd ?_ (hnone caller task)
    rw [(List.cons.inj h).2]
    simp

/-- Whatever request the queue gets, a caller has made it at that point of the
run. -/
theorem exists_of_sentAll_eq {s : StateService σ} {es : List (StateEvent σ)}
    {fs gs : List (QueueEvent σ)} {caller : String} {task : StateTask σ}
    (h : s.sentAll es = fs ++ .perform caller task :: gs) :
    ∃ past e later, es = past ++ e :: later ∧ fs = s.sentAll past ∧
      e.Requests s.preset caller task.key ∧ task = .ofKey task.key := by
  induction es generalizing s fs with
  | nil => exact absurd h.symm (by simp [sentAll])
  | cons e es ih =>
    have after : ∀ hs, fs = s.sent e ++ hs →
        (s.step e).2.sentAll es = hs ++ .perform caller task :: gs →
        ∃ past e' later, e :: es = past ++ e' :: later ∧ fs = s.sentAll past ∧
          e'.Requests s.preset caller task.key ∧ task = .ofKey task.key := by
      rintro hs rfl hlater
      obtain ⟨past, e', later, rfl, rfl, he, htask⟩ := ih hlater
      rw [(s.follows_step e).preset] at he
      exact ⟨e :: past, e', later, rfl, rfl, he, htask⟩
    -- it was sent after this event, or by it
    rcases List.append_eq_append_iff.mp h with ⟨hs, hfs, hlater⟩ | ⟨hs, hsent, hlater⟩
    · exact after hs hfs hlater
    · rcases hs with - | ⟨f, hs⟩
      · exact after [] (by rw [hsent, List.append_nil, List.append_nil]) hlater.symm
      · obtain ⟨rfl, -⟩ := List.cons.inj hlater
        obtain ⟨rfl, he, htask⟩ := requests_of_sent_eq hsent
        exact ⟨[], e, es, rfl, rfl, he, htask⟩

end StateService

end SlotStates
