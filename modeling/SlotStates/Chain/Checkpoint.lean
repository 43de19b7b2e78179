/-
SlotStates/Chain/Checkpoint.lean

Checkpoints: an epoch together with the root of the block its first slot
builds on.  They are ordered by epoch, then by root.
-/
import SlotStates.Chain.StateKey

namespace SlotStates

/-- An epoch boundary. -/
structure Checkpoint where
  epoch : Epoch
  root : Root
  deriving DecidableEq, Inhabited

namespace Checkpoint

/-- Checkpoints are ordered by epoch, and within one epoch by root. -/
instance : Ord Checkpoint :=
  ⟨fun a b => (compare a.epoch b.epoch).then (compare a.root b.root)⟩

/-- The checkpoint of no particular block: epoch zero, zero root. -/
def blank : Checkpoint := ⟨0, Root.zero⟩

/-- The fields of a checkpoint on one line. -/
def debug (c : Checkpoint) : String :=
  "Checkpoint \x7b epoch: " ++ Word.decimal c.epoch ++ ", root: " ++ c.root.hex ++ " \x7d"

/-- The key of the state that a checkpoint asks for: the first slot of its
epoch. -/
def key (p : Preset) (c : Checkpoint) : StateKey := ⟨p.startOf c.epoch, c.root⟩

end Checkpoint

end SlotStates
