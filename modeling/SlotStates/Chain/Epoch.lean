/-
SlotStates/Chain/Epoch.lean

Slots, epochs and the arithmetic between them.

Time is cut into slots and slots are grouped into epochs of a length that the
preset fixes.  Dividing a slot by that length gives its epoch and its place
within the epoch; multiplying an epoch by it gives the epoch's first slot.
Only the product can leave the range of words, and there it stops at the
greatest one.

The arithmetic takes any length that is not zero (`EpochLength`), and a preset
says which.  Each operation is described by one equation on natural numbers
(`epochAt_toNat`, `slotsSinceStart_toNat`, `startOf_toNat`); proofs go on
from these.
-/
import SlotStates.Number.Word

namespace SlotStates

/-- The number of a slot, counted from genesis. -/
abbrev Slot := UInt64

/-- The number of an epoch, counted from genesis. -/
abbrev Epoch := UInt64

/-- How many slots an epoch has: one at least. -/
structure EpochLength where
  slots : UInt64
  pos : 0 < slots.toNat

namespace EpochLength

/-- The epoch that a slot belongs to. -/
def epochAt (N : EpochLength) (s : Slot) : Epoch := s / N.slots

/-- How many slots of its epoch precede a slot. -/
def slotsSinceStart (N : EpochLength) (s : Slot) : UInt64 := s % N.slots

/-- Whether a slot is the first of its epoch. -/
def isEpochStart (N : EpochLength) (s : Slot) : Bool := N.slotsSinceStart s == 0

/-- The first slot of an epoch, or the last slot there is if the epoch would
start after it. -/
def startOf (N : EpochLength) (e : Epoch) : Slot := Word.saturate (e.toNat * N.slots.toNat)

/-! ### On natural numbers -/

theorem epochAt_toNat (N : EpochLength) (s : Slot) :
    (N.epochAt s).toNat = s.toNat / N.slots.toNat :=
  UInt64.toNat_div s N.slots

theorem slotsSinceStart_toNat (N : EpochLength) (s : Slot) :
    (N.slotsSinceStart s).toNat = s.toNat % N.slots.toNat :=
  UInt64.toNat_mod s N.slots

theorem startOf_toNat (N : EpochLength) (e : Epoch) :
    (N.startOf e).toNat = min (e.toNat * N.slots.toNat) Word.greatest :=
  Word.saturate_toNat _

theorem isEpochStart_iff (N : EpochLength) (s : Slot) :
    N.isEpochStart s = true ↔ s.toNat % N.slots.toNat = 0 := by
  rw [isEpochStart, beq_iff_eq, ← slotsSinceStart_toNat, ← UInt64.toNat_inj]
  rfl

end EpochLength

/-- The constants that the arithmetic of slots and epochs depends on. -/
inductive Preset
  | minimal
  | mainnet
  deriving DecidableEq, Repr

namespace Preset

/-- How many slots an epoch has. -/
def slotsPerEpoch : Preset → UInt64
  | .minimal => 8
  | .mainnet => 32

theorem slotsPerEpoch_pos (p : Preset) : 0 < p.slotsPerEpoch.toNat := by
  cases p <;> decide

/-- The length of the epochs of a preset. -/
def epochLength (p : Preset) : EpochLength := ⟨p.slotsPerEpoch, p.slotsPerEpoch_pos⟩

/-- The epoch that a slot belongs to. -/
def epochAt (p : Preset) (s : Slot) : Epoch := p.epochLength.epochAt s

/-- How many slots of its epoch precede a slot. -/
def slotsSinceStart (p : Preset) (s : Slot) : UInt64 := p.epochLength.slotsSinceStart s

/-- Whether a slot is the first of its epoch. -/
def isEpochStart (p : Preset) (s : Slot) : Bool := p.epochLength.isEpochStart s

/-- The first slot of an epoch, or the last slot there is if the epoch would
start after it. -/
def startOf (p : Preset) (e : Epoch) : Slot := p.epochLength.startOf e

theorem isEpochStart_iff (p : Preset) (s : Slot) :
    p.isEpochStart s = true ↔ s.toNat % p.slotsPerEpoch.toNat = 0 :=
  p.epochLength.isEpochStart_iff s

end Preset

end SlotStates
