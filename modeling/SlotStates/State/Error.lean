/-
SlotStates/State/Error.lean

Why a state could not be computed.

The causes of a failure elsewhere are listed from the outermost to the
innermost, and a message joins them in that order.
-/
import SlotStates.Chain.StateKey

namespace SlotStates

/-- Why a state could not be computed. -/
inductive StateError
  /-- There is no state of the block to start from. -/
  | missing (root : Root)
  /-- The state to start from is past the slot asked for. -/
  | pastTarget (root : Root) (stateSlot slot : Slot)
  /-- Processing slots failed. -/
  | transitionFailed (root : Root) (slot : Slot) (causes : List String)
  /-- Loading the state to start from failed. -/
  | loadFailed (root : Root) (causes : List String)
  deriving DecidableEq

/-- The message of an error. -/
def StateError.message : StateError → String
  | .missing root => "no state available for block " ++ root.hex
  | .pastTarget root stateSlot slot =>
    "state for block " ++ root.hex ++ " is already at slot " ++ Word.decimal stateSlot
      ++ ", which is past the requested slot " ++ Word.decimal slot
  | .transitionFailed root slot causes =>
    "failed to advance state for block " ++ root.hex ++ " to slot " ++ Word.decimal slot
      ++ ": " ++ String.intercalate ": " causes
  | .loadFailed root causes =>
    "failed to load state for block " ++ root.hex ++ ": " ++ String.intercalate ": " causes

end SlotStates
