/-
SlotStates/Text/Quoted.lean

Texts between double quotes, for messages that show a text exactly.

A quote, a backslash, and the controls that have a short name are written as a
backslash and a letter; other hidden characters by their number in
hexadecimal.  Everything else stands for itself.
-/
import SlotStates.Text.Hidden

namespace SlotStates.Text

/-- How a character is written between quotes. -/
def quotedChar (c : Char) : String :=
  match c with
  | '\x00' => "\\0"
  | '\t' => "\\t"
  | '\n' => "\\n"
  | '\r' => "\\r"
  | '"' => "\\\""
  | '\\' => "\\\\"
  | c =>
    if isHidden c then
      "\\u\x7b" ++ String.ofList (Nat.toDigits 16 c.toNat) ++ "\x7d"
    else String.singleton c

/-- A text between quotes. -/
def quoted (s : String) : String :=
  "\"" ++ String.join (s.toList.map quotedChar) ++ "\""

end SlotStates.Text
