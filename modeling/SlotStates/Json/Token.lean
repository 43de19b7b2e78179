/-
SlotStates/Json/Token.lean

Reading the token that a value starts with.

The first character decides the kind.  Keywords, numbers and strings are read
to their end; of arrays and objects only the opening bracket is read.
-/
import SlotStates.Json.Number
import SlotStates.Json.Text

namespace SlotStates.Json

/-- What follows the letters of a keyword, if the text starts with them. -/
def readLetters : List Char → List Char → Except Fault (List Char)
  | [], cs => .ok cs
  | _ :: _, [] => .error .unfinished
  | l :: ls, c :: cs => if l = c then readLetters ls cs else .error .malformed

/-- The token that a text without leading blanks starts with. -/
def readToken : List Char → Except Fault (Token × List Char)
  | [] => .error .unfinished
  | '[' :: cs => .ok (.openArray, cs)
  | '\x7b' :: cs => .ok (.openObject, cs)
  | '"' :: cs => (readText cs).map fun (s, rest) => (.text (String.ofList s), rest)
  | '-' :: cs => (readNumber true cs).map fun (n, rest) => (.number n, rest)
  | 'n' :: cs => (readLetters ['u', 'l', 'l'] cs).map fun rest => (.null, rest)
  | 't' :: cs => (readLetters ['r', 'u', 'e'] cs).map fun rest => (.bool true, rest)
  | 'f' :: cs => (readLetters ['a', 'l', 's', 'e'] cs).map fun rest => (.bool false, rest)
  | c :: cs =>
    if c.isDigit then (readNumber false (c :: cs)).map fun (n, rest) => (.number n, rest)
    else .error .malformed

end SlotStates.Json
