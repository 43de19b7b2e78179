/-
SlotStates/Json/Checkpoint.lean

Checkpoints as JSON text.

A checkpoint is written as an object with its epoch as a number and its root
as a string.  Reading also takes other orders, blanks, roots without `0x`, and
arrays; both fields have to be there.
-/
import SlotStates.Json.Record
import SlotStates.Chain.Checkpoint

namespace SlotStates

/-- The word that a token stands for. -/
def Word.ofToken (t : Json.Token) : Except Json.DataFault UInt64 :=
  match t with
  | .number (.unsigned n) => .ok n
  | .number (.negative _) => .error (.wrongValue t "u64")
  | t => .error (.wrongType t "u64")

/-- The root that a token stands for. -/
def Root.ofToken (t : Json.Token) : Except Json.DataFault Root :=
  match t with
  | .text s => (Root.ofText s.toList).mapError .root
  | t => .error (.wrongType t Json.rootExpected)

namespace Checkpoint

/-- A checkpoint of which not all may be known yet. -/
structure Draft where
  epoch : Option Epoch
  root : Option Root
  deriving DecidableEq

/-- The checkpoint of a draft; the first field that is missing if there is
one. -/
def Draft.finish : Draft → Except Json.DataFault Checkpoint
  | ⟨none, _⟩ => .error (.missingField "epoch")
  | ⟨some _, none⟩ => .error (.missingField "root")
  | ⟨some e, some r⟩ => .ok ⟨e, r⟩

/-- How checkpoints are written. -/
def layout : Json.Layout Draft Checkpoint where
  title := "struct Checkpoint"
  fields :=
    [ { name := "epoch"
        accept := fun t d => (Word.ofToken t).map fun e => { d with epoch := some e } },
      { name := "root"
        accept := fun t d => (Root.ofToken t).map fun r => { d with root := some r } } ]
  blank := ⟨none, none⟩
  short := fun n => some (.shortArray n "struct Checkpoint with 2 elements")
  finish := Draft.finish

/-- The checkpoint that a text holds. -/
def read (text : String) : Except Json.Fault Checkpoint := layout.read text

/-- A checkpoint as JSON text without blanks. -/
def json (c : Checkpoint) : String :=
  "\x7b\"epoch\":" ++ Word.decimal c.epoch ++ ",\"root\":\"" ++ c.root.hex ++ "\"\x7d"

end Checkpoint

end SlotStates
