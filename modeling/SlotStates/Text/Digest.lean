/-
SlotStates/Text/Digest.lean

Numbers that stand for texts.

The digest of a text is its FNV-1a digest of 64 bits.  Beginning with a fixed
number, each byte of the text in UTF-8 is mixed in by an exclusive or and a
multiplication, and after the last one a byte that no text has.  Equal texts
have equal digests, but there are fewer digests than texts, and two texts with
one digest can be found.
-/

namespace SlotStates.Text

/-- A digest with one more byte mixed in. -/
def mixByte (digest : UInt64) (byte : UInt8) : UInt64 :=
  (digest ^^^ byte.toUInt64) * 0x100000001b3

/-- The bytes of a text in UTF-8. -/
def bytes (text : String) : List UInt8 := text.toList.flatMap String.utf8EncodeChar

/-- The digest of a text. -/
def digest (text : String) : UInt64 :=
  (bytes text ++ [0xff]).foldl mixByte 0xcbf29ce484222325

end SlotStates.Text
