/-
SlotStates/Chain/StateKey.lean

What names a state: the root of a block and a slot at or after that block.

The state named by `⟨s, r⟩` is the one reached from block `r` by processing
empty slots up to `s`.  Keys are ordered by slot, then by root.  They have
three texts: one for messages (`display`) and two that show the fields, on one
line (`debug`) or on a line each (`pretty`).
-/
import SlotStates.Chain.Epoch
import SlotStates.Chain.Root

namespace SlotStates

/-- The slot a state stands at and the root of the block it builds on. -/
structure StateKey where
  slot : Slot
  root : Root
  deriving DecidableEq, Inhabited

namespace StateKey

/-- Keys are ordered by slot, and at one slot by root. -/
instance : Ord StateKey :=
  ⟨fun a b => (compare a.slot b.slot).then (compare a.root b.root)⟩

/-- The key of no particular state: slot zero, zero root. -/
def blank : StateKey := ⟨0, Root.zero⟩

/-- The text of a key in messages. -/
def display (k : StateKey) : String :=
  k.root.hex ++ " at slot " ++ Word.decimal k.slot

/-- The fields of a key on one line. -/
def debug (k : StateKey) : String :=
  "SlotAndBlockRoot \x7b slot: " ++ Word.decimal k.slot
    ++ ", block_root: " ++ k.root.hex ++ " \x7d"

/-- The fields of a key, a line each. -/
def pretty (k : StateKey) : String :=
  "SlotAndBlockRoot \x7b\n    slot: " ++ Word.decimal k.slot
    ++ ",\n    block_root: " ++ k.root.hex ++ ",\n\x7d"

end StateKey

end SlotStates
