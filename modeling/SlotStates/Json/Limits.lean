/-
SlotStates/Json/Limits.lean

The limits of a queue as JSON text.

Each field that is absent has its standard value.  A walk written as `null`
is unlimited, which is not the same as absent.
-/
import SlotStates.Json.Record
import SlotStates.Queue.Limits

namespace SlotStates

/-- What a limit is expected to be. -/
def Limit.expected : String := "a nonzero usize"

/-- The limit that a token stands for. -/
def Limit.ofToken (t : Json.Token) : Except Json.DataFault Limit :=
  match t with
  | .number (.unsigned n) =>
    match Limit.ofNat? n.toNat with
    | some l => .ok l
    | none => .error (.wrongValue t expected)
  | .number (.negative _) => .error (.wrongValue t expected)
  | t => .error (.wrongType t expected)

/-- The walk that a token stands for. -/
def Limits.walkOfToken : Json.Token → Except Json.DataFault (Option Limit)
  | .null => .ok none
  | t => (Limit.ofToken t).map some

/-- How limits are written. -/
def Limits.layout : Json.Layout Limits Limits where
  title := "struct QueueConfig"
  fields :=
    [ { name := "max_cache_size"
        accept := fun t l => (Limit.ofToken t).map fun n => { l with cacheSize := n } },
      { name := "max_ancestor_walk"
        accept := fun t l => (walkOfToken t).map fun w => { l with walk := w } } ]
  blank := standard
  short := fun _ => none
  finish := .ok

/-- The limits that a text holds. -/
def Limits.read (text : String) : Except Json.Fault Limits := layout.read text

end SlotStates
