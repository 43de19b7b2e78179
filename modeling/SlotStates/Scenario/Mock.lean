/-
SlotStates/Scenario/Mock.lean

Collaborators that behave as told.

A mock state has a slot and a tag that tells how it came about: each
transition appends to the tag what it did.  `Settings` say what goes wrong:
whether the provider or the transitions panic or fail, which slot cannot be
crossed, and by how much transitions miss their target.
-/
import SlotStates.State.Task

namespace SlotStates.Mock

/-- A state that is known by its history. -/
structure MockState where
  slot : Slot
  tag : String
  deriving DecidableEq, Repr

instance : HasSlot MockState := ⟨MockState.slot⟩

/-- How collaborators behave. -/
structure Settings where
  providerGated : Bool
  providerPanic : Bool
  /-- The causes with which the provider fails, if it does. -/
  providerFailure : Option (List String)
  transitionGated : Bool
  transitionPanic : Bool
  /-- The slot that no transition crosses or reaches, if there is one. -/
  rejectSlot : Option Slot
  /-- The causes with which a transition to or across it fails. -/
  rejectCauses : List String
  /-- By how much transitions miss their target. -/
  offset : Int
  deriving DecidableEq, Repr

/-- Collaborators that do what they are asked. -/
def Settings.honest : Settings where
  providerGated := false
  providerPanic := false
  providerFailure := none
  transitionGated := false
  transitionPanic := false
  rejectSlot := none
  rejectCauses := []
  offset := 0

/-- What the provider knows: states of blocks, the latest first. -/
abbrev Known := List (Root × MockState)

/-- The reply of the provider. -/
def Settings.provide (s : Settings) (known : Known) (root : Root) : Reply (Option MockState) :=
  if s.providerPanic then .panicked
  else
    match s.providerFailure with
    | some causes => .failed causes
    | none => .ok (known.lookup root)

/-- Whether a transition from a slot to a target is rejected. -/
def Settings.rejects (s : Settings) (low target : Slot) : Bool :=
  match s.rejectSlot with
  | none => false
  | some slot => decide (low < slot) && decide (slot ≤ target)

/-- The reply to a transition to a target, which appends `mark` to the tag. -/
def Settings.advance (s : Settings) (base : MockState) (target : Slot) (mark : String) :
    Reply MockState :=
  if s.transitionPanic then .panicked
  else if s.rejects base.slot target then .failed s.rejectCauses
  else .ok ⟨Word.saturateInt (target.toNat + s.offset), base.tag ++ mark⟩

/-- The collaborators that settings describe. -/
def Settings.backend (s : Settings) (p : Preset) (known : Known) : Backend MockState where
  lookup root := s.provide known root
  replay base target := s.advance base target (">" ++ Word.decimal target)
  regenerate c base := s.advance base (p.startOf c.epoch) ("#" ++ Word.decimal c.epoch)

/-! ### Tasks without a queue -/

/-- One attempt at a task. -/
structure Attempt where
  task : StateTask MockState
  ending : Ending StateError MockState
  asked : List (Demand MockState)

/-- A task for a key, and the same task rebased onto each of some states, all
attempted. -/
def attempts (s : Settings) (p : Preset) (known : Known) (k : StateKey)
    (bases : List MockState) : List Attempt :=
  let first : StateTask MockState := .ofKey k
  (first :: bases.map (Task.rebase first)).map fun t =>
    let (ending, asked) := t.perform p (s.backend p known)
    ⟨t, ending, asked⟩

end SlotStates.Mock
