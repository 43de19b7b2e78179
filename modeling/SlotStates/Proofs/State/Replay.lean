/-
SlotStates/Proofs/State/Replay.lean

Asking for the states of checkpoints saves work and changes nothing.

Where its slot starts an epoch, a state task asks for the state of the epoch's
checkpoint instead of replaying empty slots.  A plain task (`replayOnly`) does
not know of checkpoints and always replays.  It is told here what the
collaborators owe each other for the two to come to the same (`Agree`): what is
regenerated for a checkpoint is what a replay up to the first slot of its epoch
gives, be it a state, a failure or a panic.  Of epochs that have no first slot
nothing is asked, and nothing has to be: the slot of a task that regenerates is
the first one of an epoch, and exactly so (`Preset.toNat_of_isEpochStart`).

Main result: `StateTask.regenerating_is_replaying`.  Whatever base a task has
or is given by the provider, it ends as the plain task does and asks the same,
save for the replay that it may have regenerated instead.
-/
import SlotStates.Proofs.Chain.Epochs
import SlotStates.Scenario.Mock

namespace SlotStates

variable {σ : Type}

/-- The state of a checkpoint is regenerated as replaying up to the first slot
of its epoch would compute it, with the same result if that fails. -/
def Backend.Agree (p : Preset) (b : Backend σ) : Prop :=
  ∀ (c : Checkpoint) (base : σ) (first : Slot),
    first.toNat = c.epoch.toNat * p.slotsPerEpoch.toNat → b.regenerate c base = b.replay base first

/-- The question that a plain task asks instead: to replay up to a slot. -/
def Demand.replayed (slot : Slot) : Demand σ → Demand σ
  | .transition (.regenerate _ base) => .transition (.replay base slot)
  | d => d

namespace StateTask

variable [HasSlot σ]

/-! ### The plain task -/

/-- How a plain task for a key ends from a base on, and what it asks for: a base
before the slot is replayed up to it. -/
def replayFrom (b : Backend σ) (k : StateKey) (base : σ) :
    Ending StateError σ × List (Demand σ) :=
  if HasSlot.slot base < k.slot then
    let ending := match b.replay base k.slot with
      | .ok s => .returned s
      | .failed causes => .failed (.transitionFailed k.root k.slot causes)
      | .panicked => .failed (.transitionFailed k.root k.slot panicCauses)
    (ending, [.transition (.replay base k.slot)])
  else if HasSlot.slot base = k.slot then (.returned base, [])
  else (.failed (.pastTarget k.root (HasSlot.slot base) k.slot), [])

/-- How a plain task ends, and what it asks for. -/
def replayOnly (b : Backend σ) (t : StateTask σ) : Ending StateError σ × List (Demand σ) :=
  match t.base with
  | some base => replayFrom b t.key base
  | none =>
    let (ending, asked) := match b.lookup t.key.root with
      | .ok (some base) => replayFrom b t.key base
      | .ok none => (.failed (.missing t.key.root), [])
      | .failed causes => (.failed (.loadFailed t.key.root causes), [])
      | .panicked => (.panicked, [])
    (ending, .lookup t.key.root :: asked)

/-! ### From a base on -/

omit [HasSlot σ] in
/-- Either way to the slot of a task leads to the same reply. -/
theorem reply_transition {p : Preset} {b : Backend σ} (h : b.Agree p) (t : StateTask σ) (base : σ) :
    b.transition (t.transition p base) = b.replay base t.key.slot := by
  unfold transition
  split
  · next hs => exact h _ base t.key.slot (Preset.toNat_of_isEpochStart hs)
  · rfl

omit [HasSlot σ] in
theorem replayed_transition (p : Preset) (t : StateTask σ) (base : σ) :
    Demand.replayed t.key.slot (.transition (t.transition p base))
      = .transition (.replay base t.key.slot) := by
  unfold transition
  split <;> rfl

/-- From each base on, a task does what the plain one does. -/
theorem follow_advance {p : Preset} {b : Backend σ} (h : b.Agree p) (t : StateTask σ) (base : σ) :
    (t.follow b (t.advance p base)).map id (List.map (Demand.replayed t.key.slot))
      = replayFrom b t.key base := by
  rw [replayFrom, advance]
  by_cases heq : HasSlot.slot base = t.key.slot
  · rw [if_pos heq, if_neg (heq ▸ UInt64.lt_irrefl _), if_pos heq]
    rfl
  · rw [if_neg heq, if_neg heq]
    by_cases hgt : t.key.slot < HasSlot.slot base
    · rw [if_pos hgt, if_neg (UInt64.lt_asymm hgt)]
      rfl
    · -- only before the slot somebody is asked
      have hlt : HasSlot.slot base < t.key.slot :=
        UInt64.lt_of_le_of_ne (UInt64.not_lt.mp hgt) heq
      rw [if_neg hgt, if_pos hlt, follow, reply_transition h, Prod.map, List.map_singleton,
        replayed_transition]
      rcases b.replay base t.key.slot with s | causes | - <;> rfl

/-! ### Whole tasks -/

/-- **Regenerating is replaying**: suppose that what is regenerated for a
checkpoint is what a replay up to the first slot of its epoch would give.  Then
every task, for whichever slot and block, rebased onto whichever state or with
whichever reply of the provider, ends as the plain task does that always
replays: with the same value, or with the same error.  And it asks the same
questions, with the replay of the plain task in place of a regeneration. -/
theorem regenerating_is_replaying (p : Preset) (b : Backend σ) (h : b.Agree p)
    (t : StateTask σ) :
    (t.perform p b).1 = (t.replayOnly b).1 ∧
      (t.perform p b).2.map (Demand.replayed t.key.slot) = (t.replayOnly b).2 := by
  obtain ⟨k, - | base⟩ := t
  · rcases hl : b.lookup k.root with (- | base) | causes | -
    case ok.some =>
      have hf := follow_advance h ⟨k, none⟩ base
      simp only [perform, start, replayOnly, hl, afterLookup, ← hf]
      exact ⟨rfl, rfl⟩
    -- without a base nothing more is asked
    all_goals
      simp only [perform, start, replayOnly, hl, afterLookup, follow]
      exact ⟨trivial, rfl⟩
  · have hf := follow_advance h ⟨k, some base⟩ base
    simp only [perform, start, replayOnly, ← hf]
    exact ⟨rfl, rfl⟩

end StateTask

namespace Mock

/-- Collaborators of which one does all the work: states of checkpoints are
replayed as any other, and no replay crosses slot seventy. -/
def replaying (p : Preset) : Backend MockState :=
  let settings := { Settings.honest with rejectSlot := some 70, rejectCauses := ["slot 70"] }
  let replay := fun base target => settings.advance base target (">" ++ Word.decimal target)
  { lookup := fun root => settings.provide [(Root.zero, ⟨3, "s"⟩)] root
    replay := replay
    regenerate := fun c base => replay base (p.startOf c.epoch) }

/-- A task for the first slot of an epoch regenerates, and ends as one that
replays: with the state there, or with the failure of the replay. -/
theorem regenerated_as_replayed :
    (replaying .mainnet).Agree .mainnet ∧
      let perform := fun slot =>
        (StateTask.ofKey ⟨slot, Root.zero⟩ : StateTask MockState).perform .mainnet
          (replaying .mainnet)
      (perform 64).1 = .returned ⟨64, "s>64"⟩ ∧
      (perform 96).1 = .failed (.transitionFailed Root.zero 96 ["slot 70"]) ∧
      (perform 96).2 = [.lookup Root.zero, .transition (.regenerate ⟨3, Root.zero⟩ ⟨3, "s"⟩)] := by
  have h : (replaying .mainnet).Agree .mainnet := by
    intro c base first hfirst
    obtain rfl : Preset.mainnet.startOf c.epoch = first := by
      show Word.saturate (c.epoch.toNat * Preset.mainnet.slotsPerEpoch.toNat) = first
      rw [← hfirst, Word.saturate_of_word]
    rfl
  refine ⟨h, ?_, ?_, rfl⟩
  · exact (StateTask.regenerating_is_replaying .mainnet _ h (.ofKey ⟨64, Root.zero⟩)).1
  · exact (StateTask.regenerating_is_replaying .mainnet _ h (.ofKey ⟨96, Root.zero⟩)).1

end Mock

end SlotStates
