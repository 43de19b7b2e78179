/-
SlotStates/Scenario/Script.lean

Tasks whose course is laid down beforehand.

A scripted task computes a value for a number.  Its script says whether it
will succeed, fail or panic, whether it waits at a gate first, and which keys
are its ancestors; without the latter, all smaller numbers are.  Values carry
the number of the computation that made them and the key and number of the
value they were made from, so that an answer shows where it came from.
-/
import SlotStates.Queue.Task
import SlotStates.Queue.Failure
import SlotStates.Number.Word

namespace SlotStates.Script

instance : KeyText UInt64 := ⟨Word.decimal⟩

/-- How a task will end. -/
inductive Behavior
  | succeed
  | fail
  | panic
  deriving DecidableEq, Repr

/-- The origin of a value: a key and the number of a computation. -/
structure Origin where
  key : UInt64
  tag : Nat
  deriving DecidableEq, Repr

/-- A value, and the origin of the value it was made from. -/
structure Value where
  origin : Origin
  base : Option Origin
  deriving DecidableEq, Repr

/-- The error of a task that was to fail. -/
structure Error where
  key : UInt64
  deriving DecidableEq, Repr

/-- The message of an error. -/
def Error.message (e : Error) : String := "computation for " ++ Word.decimal e.key ++ " failed"

/-- A task and its script. -/
structure Job where
  key : UInt64
  behavior : Behavior
  gated : Bool
  ancestors : Option (List UInt64)
  base : Option Value
  deriving DecidableEq, Repr

instance : Task Job UInt64 Value where
  key := Job.key
  ancestor? job i :=
    match job.ancestors with
    | some ks => ks[i]?
    | none => Word.below? job.key i
  rebase job v := { job with base := some v }

/-- How a task ends as the computation of a number. -/
def Job.ending (job : Job) (number : Nat) : Ending Error Value :=
  match job.behavior with
  | .succeed => .returned ⟨⟨job.key, number⟩, job.base.map (·.origin)⟩
  | .fail => .failed ⟨job.key⟩
  | .panic => .panicked

end SlotStates.Script
