/-
SlotStates/State/Task.lean

Computing the state of a block at a slot.

A state task starts from a base: a state of the block at or before the slot.
A rebased task was given one; any other asks a provider for the state of the
block.  A base at the slot is the answer.  From a base before the slot the
task asks for a transition: where the slot starts an epoch, the state of that
epoch's checkpoint, and elsewhere the base with empty slots processed up to
the slot.

The task does not call anybody.  It is a resumable computation: `start`,
`afterLookup` and `afterTransition` say what it does next, which is to ask a
question (`Demand`) or to end.  Given collaborators that reply at once,
`StateTask.perform` runs it to its end.
-/
import SlotStates.Chain.Ancestors
import SlotStates.Chain.Checkpoint
import SlotStates.Queue.Task
import SlotStates.Queue.Failure
import SlotStates.State.Error

namespace SlotStates

/-- States that stand at a slot. -/
class HasSlot (σ : Type) where
  slot : σ → Slot

/-- A task for the state that a key names, with the base it was given. -/
structure StateTask (σ : Type) where
  key : StateKey
  base : Option σ
  deriving DecidableEq

/-- A question for a later state. -/
inductive Transition (σ : Type)
  /-- A base with empty slots processed up to a target. -/
  | replay (base : σ) (target : Slot)
  /-- The state of a checkpoint, computed from a base. -/
  | regenerate (checkpoint : Checkpoint) (base : σ)
  deriving DecidableEq

/-- A question that a state task asks. -/
inductive Demand (σ : Type)
  /-- The state of a block, from the provider. -/
  | lookup (root : Root)
  /-- A later state. -/
  | transition (t : Transition σ)
  deriving DecidableEq

/-- What a collaborator replies. -/
inductive Reply (α : Type)
  | ok (a : α)
  | failed (causes : List String)
  | panicked
  deriving DecidableEq

/-- What is to be done with a base: to ask for a later state, or nothing
more. -/
inductive Course (σ : Type)
  | ask (t : Transition σ)
  | done (ending : Ending StateError σ)
  deriving DecidableEq

/-- What is to be done first: to look for a base, or to go on from one. -/
inductive Start (σ : Type)
  | lookup (root : Root)
  | go (course : Course σ)
  deriving DecidableEq

instance : KeyText StateKey := ⟨StateKey.debug⟩

instance {σ : Type} : Task (StateTask σ) StateKey σ where
  key := StateTask.key
  ancestor? t i := (Ancestors.below t.key).get? i
  rebase t s := { t with base := some s }

/-- How the cause of a panic is reported. -/
def panicCauses : List String := ["<panic>"]

namespace StateTask

variable {σ : Type} [HasSlot σ]

/-- The task for a key, without a base. -/
def ofKey (k : StateKey) : StateTask σ := ⟨k, none⟩

/-- The transition from a base before the slot. -/
def transition (p : Preset) (t : StateTask σ) (base : σ) : Transition σ :=
  if p.isEpochStart t.key.slot then
    .regenerate ⟨p.epochAt t.key.slot, t.key.root⟩ base
  else .replay base t.key.slot

/-- What a task does with a base. -/
def advance (p : Preset) (t : StateTask σ) (base : σ) : Course σ :=
  if HasSlot.slot base = t.key.slot then .done (.returned base)
  else if t.key.slot < HasSlot.slot base then
    .done (.failed (.pastTarget t.key.root (HasSlot.slot base) t.key.slot))
  else .ask (t.transition p base)

/-- What a task does first. -/
def start (p : Preset) (t : StateTask σ) : Start σ :=
  match t.base with
  | some base => .go (t.advance p base)
  | none => .lookup t.key.root

/-- What a task does with the reply of the provider. -/
def afterLookup (p : Preset) (t : StateTask σ) : Reply (Option σ) → Course σ
  | .ok (some base) => t.advance p base
  | .ok none => .done (.failed (.missing t.key.root))
  | .failed causes => .done (.failed (.loadFailed t.key.root causes))
  | .panicked => .done .panicked

/-- How a task ends with the reply to a transition. -/
def afterTransition (t : StateTask σ) : Reply σ → Ending StateError σ
  | .ok s => .returned s
  | .failed causes => .failed (.transitionFailed t.key.root t.key.slot causes)
  | .panicked => .failed (.transitionFailed t.key.root t.key.slot panicCauses)

end StateTask

/-! ### Running a task at once -/

/-- Collaborators that reply at once. -/
structure Backend (σ : Type) where
  lookup : Root → Reply (Option σ)
  replay : σ → Slot → Reply σ
  regenerate : Checkpoint → σ → Reply σ

/-- The reply to a transition. -/
def Backend.transition {σ : Type} (b : Backend σ) : Transition σ → Reply σ
  | .replay base target => b.replay base target
  | .regenerate c base => b.regenerate c base

namespace StateTask

variable {σ : Type} [HasSlot σ]

/-- A task from a base on: how it ends and what it asks for. -/
def follow (b : Backend σ) (t : StateTask σ) : Course σ → Ending StateError σ × List (Demand σ)
  | .done e => (e, [])
  | .ask tr => (t.afterTransition (b.transition tr), [.transition tr])

/-- A task from its beginning: how it ends and what it asks for. -/
def perform (p : Preset) (b : Backend σ) (t : StateTask σ) :
    Ending StateError σ × List (Demand σ) :=
  match t.start p with
  | .go course => t.follow b course
  | .lookup root =>
    let (e, asked) := t.follow b (t.afterLookup p (b.lookup root))
    (e, .lookup root :: asked)

end StateTask

end SlotStates
