/-
SlotStates/Proofs/State/Checkpoints.lean

Requests for checkpoints are answered as such.

The state of a checkpoint is requested through the first slot of its epoch.  A
task decides from the slot of its key what to ask for, and it knows nothing of
the checkpoint; but if the epoch has a first slot, the task finds that this
slot starts an epoch, and that the epoch is the checkpoint's own, so it asks
for the state of this very checkpoint (`transition_of_checkpoint`).  An epoch
without a first slot gets the last slot there is, which is replayed up to like
any slot within an epoch.

Whatever later state is asked for is asked for by the task of a round
(`asked_run`), and the round that answers a request has the key of the request.

The main result is `checkpoints_are_regenerated`.
-/
import SlotStates.Proofs.Chain.Epochs
import SlotStates.Proofs.Queue.Values
import SlotStates.Proofs.State.Sent
import SlotStates.Scenario.Mock

namespace SlotStates

variable {σ : Type}

/-- The round that a request waits for. -/
def Answer.round? {κ ν : Type} : Answer κ ν → Option Nat
  | .admitted (.joined r) => some r
  | .admitted (.launched r _) => some r
  | _ => none

theorem Service.ticket_of_round? {κ ν : Type} {admission : Admission κ ν} {r : Nat}
    (h : (Answer.admitted admission).round? = some r) : ticket admission = .round r := by
  cases admission with
  | hit v => cases h
  | joined i => exact congrArg Ticket.round (Option.some.inj h)
  | launched i w => exact congrArg Ticket.round (Option.some.inj h)

/-! ### What the task of a checkpoint asks for -/

section Tasks

variable [HasSlot σ] {p : Preset} {t : StateTask σ}

/-- The transition that is asked for where the state of a checkpoint is
wanted. -/
def Checkpoint.transition (p : Preset) (c : Checkpoint) (base : σ) : Transition σ :=
  if c.epoch.toNat ≤ p.lastEpoch then .regenerate c base else .replay base (c.key p).slot

omit [HasSlot σ] in
/-- A task for the key of a checkpoint finds its way back to the checkpoint, if
its epoch has a first slot. -/
theorem transition_of_checkpoint {c : Checkpoint} (h : t.key = c.key p) (base : σ) :
    t.transition p base = c.transition p base := by
  have hiff : p.isEpochStart (c.key p).slot = true ↔ c.epoch.toNat ≤ p.lastEpoch :=
    p.isEpochStart_startOf_iff c.epoch
  rw [StateTask.transition, Checkpoint.transition, h]
  by_cases hc : c.epoch.toNat ≤ p.lastEpoch
  · rw [if_pos (hiff.mpr hc), if_pos hc]
    show Transition.regenerate ⟨p.epochAt (p.startOf c.epoch), c.root⟩ base = _
    rw [Preset.epochAt_startOf hc]
  · rw [if_neg (mt hiff.mp hc), if_neg hc]

theorem advance_eq_ask {base : σ} {tr : Transition σ} (h : t.advance p base = .ask tr) :
    tr = t.transition p base := by
  unfold StateTask.advance at h
  split at h
  · cases h
  · split at h
    · cases h
    · exact (Course.ask.inj h).symm

theorem afterLookup_eq_ask {reply : Reply (Option σ)} {tr : Transition σ}
    (h : t.afterLookup p reply = .ask tr) : ∃ base, tr = t.transition p base := by
  rcases reply with (- | base) | causes | -
  · cases h
  · exact ⟨base, advance_eq_ask h⟩
  · cases h
  · cases h

end Tasks

namespace StateService

/-! ### Who asks for a later state -/

variable [HasSlot σ]

/-- A transition is one that the task of a round asks for. -/
def AskedBy (p : Preset) (q : Queue StateKey (StateTask σ) σ StateError) (r : Nat)
    (tr : Transition σ) : Prop :=
  ∃ a base, q.Has r a ∧ tr = a.task.transition p base

omit [HasSlot σ] in
theorem AskedBy.grows {p : Preset} {q q' : Queue StateKey (StateTask σ) σ StateError} {r : Nat}
    {tr : Transition σ} (h : AskedBy p q r tr) (hq : q.Grows q') : AskedBy p q' r tr := by
  obtain ⟨a, base, ha, htr⟩ := h
  obtain ⟨b, hb, hab⟩ := hq.becomes ha
  exact ⟨b, base, hb, by rw [hab.task, htr]⟩

/-- Where a round goes on from a base, it asks for the transition its course
says. -/
theorem asked_follow {s : StateService σ} {r i : Nat} {a : Round StateKey (StateTask σ) σ StateError}
    {course : Course σ} {tr : Transition σ} (ha : s.service.queue.running? r = some a)
    (hcourse : course = .ask tr → ∃ base, tr = a.task.transition s.preset base)
    (h : (i, .transition tr) ∈ (s.follow r a.task course).1.asked) :
    AskedBy s.preset (s.follow r a.task course).2.service.queue i tr := by
  cases course with
  | done e => cases h
  | ask tr' =>
    cases List.mem_singleton.mp h
    obtain ⟨base, hbase⟩ := hcourse rfl
    exact ⟨a, base, (Queue.running?_eq_some_iff.mp ha).1, hbase⟩

theorem asked_begin {s : StateService σ} {r i : Nat} {tr : Transition σ}
    (h : (i, .transition tr) ∈ (s.begin r).1.asked) :
    AskedBy s.preset (s.begin r).2.service.queue i tr := by
  rcases s.begin_cases r with ⟨-, hb⟩ | ⟨a, ha, ⟨-, -, hb⟩ | ⟨base, -, -, hb⟩⟩ <;> rw [hb] at h ⊢
  · cases h
  · cases List.mem_singleton.mp h
  · exact asked_follow ha (fun hc => ⟨base, advance_eq_ask hc⟩) h

theorem asked_step {s : StateService σ} {e : StateEvent σ} {i : Nat} {tr : Transition σ}
    (h : (i, .transition tr) ∈ (s.step e).1.asked) :
    AskedBy s.preset (s.step e).2.service.queue i tr := by
  have request : ∀ caller k, (i, .transition tr) ∈ (s.request caller k).1.asked →
      AskedBy s.preset (s.request caller k).2.service.queue i tr := by
    intro caller k h
    rcases s.request_cases caller k with ⟨-, -, hr⟩ | ⟨r, -, -, -, hr⟩ <;> rw [hr] at h ⊢
    · cases h
    · exact asked_begin h
  cases e with
  | request caller k => exact request caller k h
  | requestCheckpoint caller c => exact request caller (c.key s.preset) h
  | foundBase r reply =>
    rcases s.foundBase_cases r reply with ⟨-, he⟩ | ⟨a, root, ha, -, -, he⟩ <;> rw [he] at h ⊢
    · cases h
    · exact asked_follow ha afterLookup_eq_ask h
  | advanced r reply =>
    rcases s.advanced_cases r reply with ⟨-, he⟩ | ⟨a, t, ha, -, -, he⟩ <;> rw [he] at h ⊢
    · cases h
    · exact asked_follow ha (fun hc => by cases hc) h
  | _ => cases h

theorem grows_run (s : StateService σ) (es : List (StateEvent σ)) :
    s.service.queue.Grows (s.run es).2.service.queue := by
  rw [(s.follows_run es).1]
  exact Service.grows_run _ _

/-- Every later state that is asked for in a run is asked for by the task of a
round. -/
theorem asked_run {s : StateService σ} {es : List (StateEvent σ)} {report : StateReport σ}
    (hr : report ∈ (s.run es).1) {i : Nat} {tr : Transition σ}
    (h : (i, .transition tr) ∈ report.asked) :
    AskedBy s.preset (s.run es).2.service.queue i tr := by
  induction es generalizing s with
  | nil => cases hr
  | cons e es ih =>
    rcases List.mem_cons.mp hr with rfl | hr
    · exact (asked_step h).grows ((s.step e).2.grows_run es)
    · rw [← (s.follows_step e).preset]
      exact ih hr

/-! ### Which round answers a request -/

/-- Rebasing a task leaves its key alone, so that the task of a round is always
for the key of the round. -/
theorem task_key_run (p : Preset) (limits : Limits) (metrics : Option TaskMetrics)
    (es : List (StateEvent σ)) {r : Nat} {a : Round StateKey (StateTask σ) σ StateError}
    (ha : ((fresh p limits metrics).run es).2.service.queue.Has r a) : a.task.key = a.key := by
  have accepts : ∀ (fs : List (QueueEvent σ)) (s : Service StateKey (StateTask σ) σ StateError),
      s.Accepts (fun _ _ => True) (fun k t => t.key = k) fs := by
    intro fs
    induction fs with
    | nil => exact fun _ => trivial
    | cons e fs ih =>
      refine fun s => ⟨?_, ih _⟩
      cases e with
      | perform caller task => exact ⟨rfl, fun _ _ _ _ _ => rfl⟩
      | finish r e => exact fun _ _ _ => trivial
      | shutdown => exact fun _ _ _ _ => trivial
      | _ => trivial
  rw [(follows_run _ es).1] at ha
  exact (Service.sound_run (Queue.sound_fresh limits metrics) (accepts _ _)).tasks ha

/-- The round that answers a request for a checkpoint is, whatever happens
later, a round of the checkpoint's key. -/
theorem has_of_round? (p : Preset) (limits : Limits) (metrics : Option TaskMetrics)
    (past later : List (StateEvent σ)) (caller : String) (c : Checkpoint) {r : Nat}
    (hr : (((fresh p limits metrics).run past).2.step
      (.requestCheckpoint caller c)).1.answer.round? = some r) :
    ∃ a, ((fresh p limits metrics).run
        (past ++ .requestCheckpoint caller c :: later)).2.service.queue.Has r a ∧
      a.key = c.key p := by
  let start : StateService σ := fresh p limits metrics
  have hpreset : (start.run past).2.preset = p := preset_run start past
  have hservice : (start.run past).2.service
      = (Ledger.after limits metrics (start.sentAll past)).service :=
    (start.follows_run past).1.trans (Ledger.service_after limits metrics _).symm
  have hticket : Service.ticket ((start.run past).2.service.queue.request
      (.ofKey (c.key p))).1 = .round r := by
    have hr : ((start.run past).2.request caller (c.key (start.run past).2.preset)).1.answer.round?
      = some r := hr
    rw [answer_request, hpreset] at hr
    exact Service.ticket_of_round? hr
  -- what the queue gets is this request, and what follows from it and after it
  have hrequests : (.requestCheckpoint caller c : StateEvent σ).Requests start.preset caller
      (c.key p) := ⟨rfl, rfl⟩
  obtain ⟨rest, hsent⟩ := sentAll_of_requests hrequests later
  rw [hservice] at hticket
  have hbelongs := Ledger.belongs_after limits metrics (start.sentAll past) rest caller
    (.ofKey (c.key p)) r hticket
  rw [← hsent, Ledger.service_after] at hbelongs
  rw [(follows_run _ _).1]
  exact hbelongs

/-! ### Checkpoints -/

/-- **Requests for checkpoints are answered as such**: the state of a
checkpoint is requested under the first slot of its epoch, if that is a slot,
and otherwise under the last slot there is, which starts no epoch.

A request for a checkpoint finds the state of its key in the cache, or waits
for a round of this key; and in the whole run such a round asks for no later
state but that of the checkpoint itself or, where the epoch has no first slot,
for one that is replayed up to the last slot.

Different checkpoints have different keys, and are never answered by the same
round, unless neither of their epochs has a first slot and they have the same
root. -/
theorem checkpoints_are_regenerated (p : Preset) (limits : Limits) (metrics : Option TaskMetrics)
    (past later : List (StateEvent σ)) (caller : String) (c : Checkpoint) :
    let start : StateService σ := fresh p limits metrics
    let es := past ++ .requestCheckpoint caller c :: later
    let s := (start.run past).2
    let answer := (s.step (.requestCheckpoint caller c)).1.answer
    ((c.key p).root = c.root ∧
      (c.epoch.toNat ≤ p.lastEpoch →
        (c.key p).slot.toNat = c.epoch.toNat * p.slotsPerEpoch.toNat ∧
        p.isEpochStart (c.key p).slot = true ∧ p.epochAt (c.key p).slot = c.epoch) ∧
      (p.lastEpoch < c.epoch.toNat →
        (c.key p).slot.toNat = Word.greatest ∧ p.isEpochStart (c.key p).slot = false)) ∧
    (answer.round? = none →
      ∃ v, answer = .admitted (.hit v) ∧ s.service.queue.cache.find? (c.key p) = some v) ∧
    (∀ r, answer.round? = some r →
      (∃ a, (start.run es).2.service.queue.Has r a ∧ a.key = c.key p) ∧
      ∀ report ∈ (start.run es).1, ∀ t, (r, .transition t) ∈ report.asked →
        (c.epoch.toNat ≤ p.lastEpoch → ∃ base, t = .regenerate c base) ∧
        (p.lastEpoch < c.epoch.toNat → ∃ base, t = .replay base (c.key p).slot)) ∧
    (∀ c' : Checkpoint, c ≠ c' →
      c.epoch.toNat ≤ p.lastEpoch ∨ c'.epoch.toNat ≤ p.lastEpoch ∨ c.root ≠ c'.root →
      c.key p ≠ c'.key p ∧
      ∀ past' later' caller', es = past' ++ .requestCheckpoint caller' c' :: later' →
        ∀ r, answer.round? = some r →
          ((start.run past').2.step (.requestCheckpoint caller' c')).1.answer.round? ≠ some r) := by
  intro start es s answer
  have hpreset : s.preset = p := preset_run start past
  have hround : ∀ r, answer.round? = some r →
      ∃ a, (start.run es).2.service.queue.Has r a ∧ a.key = c.key p :=
    fun r => has_of_round? p limits metrics past later caller c
  refine ⟨⟨rfl, fun h => ?_, fun h => ?_⟩, ?_, fun r hr => ⟨hround r hr, ?_⟩, ?_⟩
  · exact ⟨Preset.startOf_toNat_of_le h, (p.isEpochStart_startOf_iff c.epoch).mpr h,
      Preset.epochAt_startOf h⟩
  · refine ⟨Preset.startOf_toNat_of_lt h, Bool.eq_false_iff.mpr fun hs => ?_⟩
    exact Nat.not_le_of_lt h ((p.isEpochStart_startOf_iff c.epoch).mp hs)
  · intro hn
    have hanswer : answer = .admitted (s.service.queue.request (.ofKey (c.key p))).1 := by
      rw [← hpreset]
      exact s.answer_request caller (c.key s.preset)
    have hadm := s.service.queue.admitted_request (.ofKey (c.key p))
    rw [hanswer] at hn ⊢
    generalize (s.service.queue.request (.ofKey (c.key p))).1 = admission,
      (s.service.queue.request (.ofKey (c.key p))).2 = q' at hadm hn ⊢
    cases hadm with
    | hit found => exact ⟨_, rfl, found⟩
    | joined => cases hn
    | launched => cases hn
  · intro report hreport t ht
    obtain ⟨a, ha, hk⟩ := hround r hr
    obtain ⟨b, base, hb, htr⟩ := asked_run hreport ht
    obtain rfl := ha.unique hb
    have hkey : a.task.key = c.key p := (task_key_run p limits metrics es ha).trans hk
    have ht : t = c.transition p base := htr.trans (transition_of_checkpoint hkey base)
    exact ⟨fun h => ⟨base, ht.trans (if_pos h)⟩,
      fun h => ⟨base, ht.trans (if_neg (Nat.not_le_of_lt h))⟩⟩
  · intro c' hne hor
    have hkeys : c.key p ≠ c'.key p := by
      intro hk
      rcases Checkpoint.key_eq_iff.mp hk with rfl | ⟨h, h', hroot⟩
      · exact hne rfl
      · exact hor.elim (Nat.not_le_of_lt h) fun hor =>
          hor.elim (Nat.not_le_of_lt h') fun hor => hor hroot
    refine ⟨hkeys, fun past' later' caller' hes r hr hr' => ?_⟩
    -- the round of both requests would have both keys
    obtain ⟨a, ha, hk⟩ := hround r hr
    obtain ⟨b, hb, hk'⟩ := has_of_round? p limits metrics past' later' caller' c' hr'
    rw [show es = _ from hes] at ha
    obtain rfl := ha.unique hb
    exact hkeys (hk.symm.trans hk')

/-- Two checkpoints whose epochs have no first slot are answered by one round,
which replays slots. -/
theorem far_checkpoints_share_a_replay :
    let c : Checkpoint := ⟨0xffffffffffffffff, .zero⟩
    let c' : Checkpoint := ⟨0x2000000000000000, .zero⟩
    let base : Mock.MockState := ⟨0, "g"⟩
    let reports := ((fresh .minimal .standard none).run
      [.requestCheckpoint "a" c, .requestCheckpoint "b" c', .foundBase 0 (.ok (some base))]).1
    c ≠ c' ∧ c.key .minimal = c'.key .minimal ∧
    reports.map (·.answer) = [.admitted (.launched 0 ⟨0, none⟩), .admitted (.joined 0), .silent] ∧
    reports.flatMap (·.asked)
      = [(0, .lookup .zero), (0, .transition (.replay base 0xffffffffffffffff))] := by
  decide +kernel

end StateService

end SlotStates
