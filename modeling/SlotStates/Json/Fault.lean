/-
SlotStates/Json/Fault.lean

Tokens of JSON text and what can be wrong with a text.

A text is read from left to right and the first problem met is the fault.  It
ends inside a value (`unfinished`), it is not JSON at some point
(`malformed`), or it is JSON so far but not what was asked for (`data`), in
which case the fault says what was found and what was expected.
-/
import SlotStates.Chain.RootText
import SlotStates.Number.Word
import SlotStates.Text.Quoted

namespace SlotStates.Json

/-- A number as far as its kind matters: a word, the negative of a word, or
anything else. -/
inductive Number
  | unsigned (n : UInt64)
  | negative (n : UInt64)
  | floating
  deriving DecidableEq, Repr

/-- What a value starts with: the whole of it, or the bracket that opens it. -/
inductive Token
  | null
  | bool (b : Bool)
  | number (n : Number)
  | text (s : String)
  | openArray
  | openObject
  deriving DecidableEq, Repr

/-- The name of a token in messages. -/
def Token.describe : Token → String
  | .null => "null"
  | .bool true => "boolean `true`"
  | .bool false => "boolean `false`"
  | .number (.unsigned n) => "integer `" ++ Word.decimal n ++ "`"
  | .number (.negative n) => "integer `-" ++ Word.decimal n ++ "`"
  | .number .floating => "floating point"
  | .text s => "string " ++ Text.quoted s
  | .openArray => "sequence"
  | .openObject => "map"

/-- What can be wrong with the data of a text that is JSON so far. -/
inductive DataFault
  /-- A member of an object has a name that is not among the known ones. -/
  | unknownField (name : String) (known : List String)
  /-- A name occurs a second time. -/
  | duplicateField (name : String)
  /-- An object ended without a member it needs. -/
  | missingField (name : String)
  /-- An array that stands for a record ended after too few elements. -/
  | shortArray (elements : Nat) (expected : String)
  /-- A value is of the wrong kind. -/
  | wrongType (found : Token) (expected : String)
  /-- A value is of the right kind but out of range. -/
  | wrongValue (found : Token) (expected : String)
  /-- A text is not the root of a block. -/
  | root (fault : RootFault)
  deriving DecidableEq, Repr

/-- What the text of a root is expected to be. -/
def rootExpected : String :=
  "a (both 0x-prefixed or not) hex string or byte array containing 32 bytes"

/-- The message of a data fault. -/
def DataFault.message : DataFault → String
  | .unknownField name known =>
    "unknown field `" ++ name ++ "`, expected "
      ++ String.intercalate " or " (known.map fun n => "`" ++ n ++ "`")
  | .duplicateField name => "duplicate field `" ++ name ++ "`"
  | .missingField name => "missing field `" ++ name ++ "`"
  | .shortArray n expected =>
    "invalid length " ++ Nat.repr n ++ ", expected " ++ expected
  | .wrongType found expected =>
    "invalid type: " ++ found.describe ++ ", expected " ++ expected
  | .wrongValue found expected =>
    "invalid value: " ++ found.describe ++ ", expected " ++ expected
  | .root (.length n) =>
    "invalid length " ++ Nat.repr n ++ ", expected " ++ rootExpected
  | .root (.digit c i) =>
    "invalid hex character: " ++ String.singleton c ++ ", at " ++ Nat.repr i

/-- The first problem met in a text. -/
inductive Fault
  | unfinished
  | malformed
  | data (fault : DataFault)
  deriving DecidableEq, Repr

end SlotStates.Json
