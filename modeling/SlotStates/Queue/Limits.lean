/-
SlotStates/Queue/Limits.lean

How large the cache of a queue may grow, and how far a task looks back for a
cached value to start from.

Both limits are positive words.  Looking back may also be unlimited.
-/
import SlotStates.Number.Word

namespace SlotStates

/-- A positive word. -/
structure Limit where
  val : Nat
  pos : 0 < val
  le_greatest : val ≤ Word.greatest
  deriving DecidableEq

/-- The limit of a number, if it is one. -/
def Limit.ofNat? (n : Nat) : Option Limit :=
  if h : 0 < n ∧ n ≤ Word.greatest then some ⟨n, h.1, h.2⟩ else none

/-- The limits of a queue. -/
structure Limits where
  /-- How many values the cache holds. -/
  cacheSize : Limit
  /-- How many steps back a task looks; without a limit it looks at all. -/
  walk : Option Limit
  deriving DecidableEq

namespace Limits

/-- The limits where nothing else is said. -/
def standard : Limits where
  cacheSize := ⟨64, by decide, by decide⟩
  walk := some ⟨640, by decide, by decide⟩

/-- How many steps back a task looks at most.  Without a limit that is the
greatest word, and no key has more steps below it. -/
def maxSteps (l : Limits) : Nat :=
  match l.walk with
  | none => Word.greatest
  | some w => w.val

end Limits

end SlotStates
