/-
SlotStates/Queue/Failure.lean

Why a request came back without a value.

A computation may report an error of its own, or the queue reports on its
behalf that it panicked or was cancelled.  The queue's reports name the key by
its text.
-/
import SlotStates.Text.Quoted

namespace SlotStates

/-- What a queue reports about a computation that could not report itself. -/
inductive QueueError
  | panicked (key : String)
  | cancelled (key : String)
  deriving DecidableEq, Repr

namespace QueueError

/-- The message of a report. -/
def message : QueueError → String
  | .panicked key => "computation for " ++ key ++ " panicked"
  | .cancelled key => "computation for " ++ key ++ " was cancelled before completing"

/-- The fields of a report on one line. -/
def debug : QueueError → String
  | .panicked key => "ComputationPanicked \x7b key: " ++ Text.quoted key ++ " \x7d"
  | .cancelled key => "ComputationCancelled \x7b key: " ++ Text.quoted key ++ " \x7d"

end QueueError

/-- Why a request came back without a value. -/
inductive Failure (ε : Type)
  | task (error : ε)
  | queue (error : QueueError)
  deriving DecidableEq, Repr

/-- What a request comes back with. -/
abbrev Result (ε ν : Type) := Except (Failure ε) ν

/-- How a computation ended by itself. -/
inductive Ending (ε ν : Type)
  | returned (value : ν)
  | failed (error : ε)
  | panicked
  deriving DecidableEq, Repr

/-- What an ending means for the requests that wait for it. -/
def Ending.result {ε ν : Type} (key : String) : Ending ε ν → Result ε ν
  | .returned v => .ok v
  | .failed e => .error (.task e)
  | .panicked => .error (.queue (.panicked key))

end SlotStates
