/-
SlotStates/Json/Number.lean

Reading numbers.

A number is a sign, a whole part without leading zeros, and optionally a
fraction and an exponent, each with at least one digit.  Without fraction and
exponent it is a word or the negative of one if it fits; every other number is
floating, and so is minus zero.

Floating numbers beyond the range of doubles are refused.  What decides is
the value found in three steps: the leading digits that fit a word are the
significand, the digits after them and the point only shift the exponent, and
significand, power of ten and product are each rounded to a double.
-/
import SlotStates.Json.Fault
import SlotStates.Number.Binary

namespace SlotStates.Json

/-! ### The parts of a number -/

/-- The digits of a number as they stand in the text. -/
structure Numeral where
  negative : Bool
  whole : List Char
  fraction : List Char
  exponent : Option Int

/-- One digit or more, and what follows them. -/
def someDigits (cs : List Char) : Except Fault (List Char × List Char) :=
  match cs with
  | [] => .error .unfinished
  | c :: _ =>
    if c.isDigit then .ok (cs.takeWhile Char.isDigit, cs.dropWhile Char.isDigit)
    else .error .malformed

/-- The whole part of a number: a zero that no digit follows, or digits. -/
def wholePart : List Char → Except Fault (List Char × List Char)
  | ['0'] => .ok (['0'], [])
  | '0' :: c :: cs => if c.isDigit then .error .malformed else .ok (['0'], c :: cs)
  | cs => someDigits cs

/-- The fraction of a number, without digits if there is no point. -/
def fractionPart : List Char → Except Fault (List Char × List Char)
  | '.' :: cs => someDigits cs
  | cs => .ok ([], cs)

/-- The number that digits stand for. -/
def digitsValue (ds : List Char) : Nat := ds.foldl (fun n d => 10 * n + (d.toNat - 48)) 0

/-- The digits of an exponent after its sign. -/
def exponentDigits (sign : Int) (cs : List Char) : Except Fault (Option Int × List Char) :=
  (someDigits cs).map fun (ds, rest) => (some (sign * digitsValue ds), rest)

/-- The exponent after its letter. -/
def signedExponent : List Char → Except Fault (Option Int × List Char)
  | '+' :: cs => exponentDigits 1 cs
  | '-' :: cs => exponentDigits (-1) cs
  | cs => exponentDigits 1 cs

/-- The exponent of a number, if it has one. -/
def exponentPart : List Char → Except Fault (Option Int × List Char)
  | 'e' :: cs => signedExponent cs
  | 'E' :: cs => signedExponent cs
  | cs => .ok (none, cs)

/-- The numeral that a text starts with, its sign having been read. -/
def readNumeral (negative : Bool) (cs : List Char) : Except Fault (Numeral × List Char) := do
  let (whole, cs) ← wholePart cs
  let (fraction, cs) ← fractionPart cs
  let (exponent, cs) ← exponentPart cs
  return (⟨negative, whole, fraction, exponent⟩, cs)

/-! ### Its kind and range -/

/-- Appends digits to a significand while the result is a word; the number of
digits left over comes second. -/
def appendDigits (n : Nat) : List Char → Nat × Nat
  | [] => (n, 0)
  | d :: ds =>
    if 10 * n + (d.toNat - 48) ≤ Word.greatest then appendDigits (10 * n + (d.toNat - 48)) ds
    else (n, ds.length + 1)

/-- The significand of a numeral and the power of ten it is multiplied by. -/
def Numeral.scientific (x : Numeral) : Nat × Int :=
  let (n, skipped) := appendDigits 0 x.whole
  let (m, dropped) := appendDigits n x.fraction
  (m, x.exponent.getD 0 + skipped - (x.fraction.length - dropped : Nat))

/-- Whether `m * 10 ^ e`, computed on doubles, is one. -/
def fitsDouble (m : Nat) (e : Int) : Bool :=
  if m = 0 ∨ e < 0 then true
  else if 308 < e then false
  else
    let power := Binary.nearest (Nat.pow 10 e.toNat)
    decide (Binary.nearest (Binary.nearest m * power) < Binary.limit)

/-- Whether a numeral has neither fraction nor exponent. -/
def Numeral.isWhole (x : Numeral) : Bool := x.fraction.isEmpty && x.exponent.isNone

/-- The number a numeral stands for, unless it is out of range. -/
def Numeral.number? (x : Numeral) : Option Number :=
  let n := digitsValue x.whole
  if x.isWhole ∧ ¬ x.negative ∧ n ≤ Word.greatest then
    some (.unsigned (UInt64.ofNat n))
  else if x.isWhole ∧ x.negative ∧ 0 < n ∧ n ≤ Word.greatestNegative then
    some (.negative (UInt64.ofNat n))
  else if fitsDouble x.scientific.1 x.scientific.2 then some .floating
  else none

/-- The number that a text starts with, its sign having been read. -/
def readNumber (negative : Bool) (cs : List Char) : Except Fault (Number × List Char) := do
  let (x, rest) ← readNumeral negative cs
  match x.number? with
  | some n => return (n, rest)
  | none => .error .malformed

end SlotStates.Json
