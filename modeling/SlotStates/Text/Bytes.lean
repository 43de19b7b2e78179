/-
SlotStates/Text/Bytes.lean

Texts seen as bytes in UTF-8, and the characters that count as blank.

Lengths and positions in messages are counted in bytes, while the text itself
stays a list of characters; on ASCII text the two counts agree
(`byteLength_of_ascii`).
-/

namespace SlotStates.Text

/-- How many bytes a text takes in UTF-8. -/
def byteLength : List Char → Nat
  | [] => 0
  | c :: cs => c.utf8Size + byteLength cs

/-- The first byte of a character in UTF-8, as the character of that number. -/
def firstByte (c : Char) : Char :=
  match String.utf8EncodeChar c with
  | b :: _ => Char.ofNat b.toNat
  | [] => c

/-- The characters that may stand between tokens: space, tab, line feed and
carriage return. -/
def isBlank (c : Char) : Bool := c == ' ' || c == '\t' || c == '\n' || c == '\r'

/-- A text without the blanks it starts with. -/
def skipBlanks (cs : List Char) : List Char := cs.dropWhile isBlank

/-- A text of ASCII characters has as many bytes as characters. -/
theorem byteLength_of_ascii {cs : List Char} (h : ∀ c ∈ cs, c.val ≤ 0x7f) :
    byteLength cs = cs.length := by
  induction cs with
  | nil => rfl
  | cons c cs ih =>
    have hc : c.utf8Size = 1 := Char.utf8Size_eq_one_iff.mpr (h c (by simp))
    have ht := ih fun d hd => h d (by simp [hd])
    rw [byteLength, hc, ht, List.length_cons, Nat.add_comm]

/-- Nothing is left to skip after skipping. -/
theorem skipBlanks_of_not_blank {c : Char} {cs : List Char} (h : isBlank c = false) :
    skipBlanks (c :: cs) = c :: cs := by
  simp [skipBlanks, h]

end SlotStates.Text
