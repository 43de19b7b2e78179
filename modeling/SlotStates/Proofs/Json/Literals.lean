/-
SlotStates/Proofs/Json/Literals.lean

Numbers and strings as they are written in JSON.

A `Figure` has the digits of a number and the case of its letters, and a list
of `Glyph`s has for each character of a string whether it stands for itself or
is escaped.  Their texts are those of JSON's grammar, whether or not they can
be read: a number may be out of range, and a surrogate may stand alone.

Main results: `Figure.readToken_append` and `Glyph.readText_append`, both are
read to their ends, and `Figure.number_eq_unsigned`, which says what numbers
are words.
-/
import SlotStates.Proofs.Json.Reading

namespace SlotStates.Json

/-! ### Numbers -/

/-- One digit or more. -/
structure Digits where
  first : Char
  others : List Char
  digit : ∀ c ∈ first :: others, c.isDigit = true

/-- The text of some digits. -/
def Digits.chars (ds : Digits) : List Char := ds.first :: ds.others

theorem Digits.someDigits_append (ds : Digits) {rest : List Char} (h : StopsDigits rest) :
    someDigits (ds.chars ++ rest) = .ok (ds.chars, rest) :=
  Json.someDigits_append ds.digit h

/-- The sign of an exponent. -/
inductive Sign
  | absent
  | plus
  | minus
  deriving DecidableEq

/-- An exponent: a letter in either case, a sign and digits. -/
structure Exponent where
  capital : Bool
  sign : Sign
  digits : Digits

namespace Exponent

/-- The text of an exponent behind its letter. -/
def tail (x : Exponent) : List Char :=
  match x.sign with
  | .absent => x.digits.chars
  | .plus => '+' :: x.digits.chars
  | .minus => '-' :: x.digits.chars

/-- The text of an exponent. -/
def chars (x : Exponent) : List Char := (if x.capital then 'E' else 'e') :: x.tail

/-- The value of an exponent. -/
def value (x : Exponent) : Int :=
  (if x.sign = .minus then -1 else 1) * digitsValue x.digits.chars

/-- A digit is not a sign. -/
theorem signedExponent_of_digit {d : Char} (h : d.isDigit = true) (cs : List Char) :
    signedExponent (d :: cs) = exponentDigits 1 (d :: cs) := by
  unfold signedExponent
  split
  · next he =>
    obtain ⟨rfl, -⟩ := List.cons.inj he
    cases h
  · next he =>
    obtain ⟨rfl, -⟩ := List.cons.inj he
    cases h
  · rfl

theorem signedExponent_append (x : Exponent) {rest : List Char} (h : StopsDigits rest) :
    signedExponent (x.tail ++ rest) = .ok (some x.value, rest) := by
  rcases x with ⟨capital, sign, ds⟩
  have hdigits := ds.someDigits_append h
  cases sign with
  | absent =>
    show signedExponent (ds.first :: (ds.others ++ rest)) = _
    rw [signedExponent_of_digit (ds.digit _ List.mem_cons_self), exponentDigits,
      ← List.cons_append, ← Digits.chars, hdigits]
    rfl
  | plus =>
    show exponentDigits 1 (ds.chars ++ rest) = _
    rw [exponentDigits, hdigits]
    rfl
  | minus =>
    show exponentDigits (-1) (ds.chars ++ rest) = _
    rw [exponentDigits, hdigits]
    rfl

theorem exponentPart_append (x : Exponent) {rest : List Char} (h : StopsDigits rest) :
    exponentPart (x.chars ++ rest) = .ok (some x.value, rest) := by
  rw [← x.signedExponent_append h, chars]
  cases x.capital <;> rfl

end Exponent

/-- The numerals that are words are those of their values without sign, fraction
and exponent. -/
theorem Numeral.number?_eq_unsigned (x : Numeral) {w : UInt64} :
    x.number? = some (.unsigned w)
      ↔ (x.isWhole ∧ ¬ x.negative) ∧ digitsValue x.whole = w.toNat := by
  have hw := Word.toNat_le_greatest w
  rw [Numeral.number?]
  by_cases h : x.isWhole ∧ ¬ x.negative ∧ digitsValue x.whole ≤ Word.greatest
  · have hlt : digitsValue x.whole < UInt64.size := Nat.lt_succ_of_le h.2.2
    simp only [if_pos h, Option.some.injEq, Number.unsigned.injEq, ← UInt64.toNat_inj,
      UInt64.toNat_ofNat_of_lt' hlt]
    exact (and_iff_right ⟨h.1, h.2.1⟩).symm
  · rw [if_neg h]
    refine iff_of_false (fun he => ?_) fun hword => ?_
    · split at he
      · cases he
      · split at he <;> cases he
    · have hle : digitsValue x.whole ≤ Word.greatest := hword.2 ▸ hw
      exact h ⟨hword.1.1, hword.1.2, hle⟩

/-- A number: a sign, a whole part, and maybe a fraction and an exponent. -/
structure Figure where
  negative : Bool
  whole : List Char
  isWhole : Whole whole
  fraction : Option Digits
  exponent : Option Exponent

namespace Figure

/-- The text of an exponent that may be absent. -/
def exponentChars (x : Figure) : List Char := x.exponent.elim [] Exponent.chars

/-- The text of a fraction that may be absent. -/
def fractionChars (x : Figure) : List Char := x.fraction.elim [] fun ds => '.' :: ds.chars

/-- The text of a number behind its sign. -/
def tail (x : Figure) : List Char := x.whole ++ (x.fractionChars ++ x.exponentChars)

/-- The text of a number. -/
def chars (x : Figure) : List Char := if x.negative then '-' :: x.tail else x.tail

/-- The parts of a number. -/
def numeral (x : Figure) : Numeral where
  negative := x.negative
  whole := x.whole
  fraction := x.fraction.elim [] Digits.chars
  exponent := x.exponent.map Exponent.value

/-- A number that has neither sign nor fraction nor exponent, by its value. -/
def natural? (x : Figure) : Option Nat :=
  if x.negative = false ∧ x.fraction.isNone ∧ x.exponent.isNone then some (digitsValue x.whole)
  else none

variable (x : Figure) {rest : List Char}

theorem exponentPart_append (h : Stops rest) :
    exponentPart (x.exponentChars ++ rest) = .ok (x.exponent.map Exponent.value, rest) := by
  rcases hx : x.exponent with - | e
  · rw [exponentChars, hx]
    exact exponentPart_of_stops h
  · rw [exponentChars, hx]
    exact e.exponentPart_append h.digits

/-- What follows the digits before an exponent is neither a digit nor a
point. -/
theorem head_exponentChars (h : Stops rest) {c : Char} {tail : List Char}
    (he : x.exponentChars ++ rest = c :: tail) : c.isDigit = false ∧ c ≠ '.' := by
  rcases hx : x.exponent with - | e
  · rw [exponentChars, hx] at he
    exact ⟨(h c tail he).1, (h c tail he).2.1⟩
  · rw [exponentChars, hx] at he
    obtain ⟨rfl, -⟩ := List.cons.inj he
    cases e.capital <;> decide

theorem fractionPart_append (h : Stops rest) :
    fractionPart (x.fractionChars ++ (x.exponentChars ++ rest))
      = .ok (x.fraction.elim [] Digits.chars, x.exponentChars ++ rest) := by
  rcases hx : x.fraction with - | ds
  · simp only [fractionChars, hx, Option.elim_none, List.nil_append]
    unfold fractionPart
    split
    · next he => exact absurd rfl (x.head_exponentChars h he).2
    · rfl
  · rw [fractionChars, hx]
    exact ds.someDigits_append fun c tail he => (x.head_exponentChars h he).1

/-- What follows the whole part is not a digit. -/
theorem stopsDigits_fractionChars (h : Stops rest) :
    StopsDigits (x.fractionChars ++ (x.exponentChars ++ rest)) := by
  intro c tail he
  rcases hx : x.fraction with - | ds
  · rw [fractionChars, hx] at he
    exact (x.head_exponentChars h he).1
  · rw [fractionChars, hx] at he
    obtain ⟨rfl, -⟩ := List.cons.inj he
    decide

/-- A number is read up to its end. -/
theorem readNumeral_append (h : Stops rest) :
    readNumeral x.negative (x.tail ++ rest) = .ok (x.numeral, rest) := by
  simp only [readNumeral, tail, List.append_assoc,
    wholePart_append x.isWhole (x.stopsDigits_fractionChars h), x.fractionPart_append h,
    x.exponentPart_append h, bind, Except.bind, pure, Except.pure]
  rfl

/-- The number that is written, unless it is out of range. -/
def number : Except Fault Number :=
  match x.numeral.number? with
  | some n => .ok n
  | none => .error .malformed

theorem readNumber_append (h : Stops rest) :
    readNumber x.negative (x.tail ++ rest) = x.number.map (·, rest) := by
  simp only [readNumber, x.readNumeral_append h, bind, Except.bind, number]
  cases x.numeral.number? <;> rfl

/-- The text of a number starts with a sign or a digit. -/
theorem readToken_append (h : Stops rest) :
    readToken (x.chars ++ rest) = (x.number.map Token.number).map (·, rest) := by
  have hread := x.readNumber_append h
  rw [chars]
  cases hn : x.negative with
  | true =>
    rw [hn] at hread
    show (readNumber true (x.tail ++ rest)).map _ = _
    rw [hread]
    cases x.number <;> rfl
  | false =>
    obtain ⟨d, ds, hd, hdigit⟩ := x.isWhole.exists_cons
    have htail : x.tail ++ rest = d :: (ds ++ (x.fractionChars ++ x.exponentChars) ++ rest) := by
      rw [tail, hd, List.cons_append, List.cons_append]
    rw [hn] at hread
    rw [if_neg Bool.false_ne_true]
    rw [htail] at hread ⊢
    rw [readToken_of_digit hdigit, hread]
    cases x.number <;> rfl

/-- What is read as a word is a number that has neither sign nor fraction nor
exponent, and this word is its value. -/
theorem number_eq_unsigned {w : UInt64} :
    x.number = .ok (.unsigned w) ↔ x.natural? = some w.toNat := by
  have hnumber : x.number = .ok (.unsigned w) ↔ x.numeral.number? = some (.unsigned w) := by
    rw [number]
    cases x.numeral.number? <;> simp
  rw [hnumber, Numeral.number?_eq_unsigned]
  rcases x with ⟨negative, whole, _, fraction, exponent⟩
  cases negative <;> cases fraction <;> cases exponent <;>
    simp [numeral, natural?, Numeral.isWhole, Digits.chars]

end Figure

/-! ### Strings -/

/-- A hexadecimal digit. -/
structure Nibble where
  char : Char
  value : Nat
  reads : Hex.value? char = some value

/-- The digits of a code unit. -/
structure Quad where
  a : Nibble
  b : Nibble
  c : Nibble
  d : Nibble

namespace Quad

/-- The text of a code unit. -/
def chars (q : Quad) : List Char := [q.a.char, q.b.char, q.c.char, q.d.char]

/-- The code unit. -/
def unit (q : Quad) : Nat := ((q.a.value * 16 + q.b.value) * 16 + q.c.value) * 16 + q.d.value

/-- Whether a code unit is the first of two. -/
def leading (q : Quad) : Prop := 0xd800 ≤ q.unit ∧ q.unit ≤ 0xdbff

/-- Whether a code unit is the second of two. -/
def trailing (q : Quad) : Prop := 0xdc00 ≤ q.unit ∧ q.unit ≤ 0xdfff

instance (q : Quad) : Decidable q.leading := inferInstanceAs (Decidable (_ ∧ _))

instance (q : Quad) : Decidable q.trailing := inferInstanceAs (Decidable (_ ∧ _))

/-- The character of two code units. -/
def pair (high low : Quad) : Char :=
  Char.ofNat (0x10000 + (high.unit - 0xd800) * 0x400 + (low.unit - 0xdc00))

theorem codeUnit_append (q : Quad) (rest : List Char) :
    codeUnit (q.chars ++ rest) = .ok (q.unit, rest) := by
  have hvalues : q.chars.map Hex.value?
      = [q.a.value, q.b.value, q.c.value, q.d.value].map some := by
    simp [chars, q.a.reads, q.b.reads, q.c.reads, q.d.reads]
  have hbytes : Text.byteLength [q.a.char, q.b.char, q.c.char, q.d.char] = 4 :=
    Root.byteLength_of_values hvalues
  simp [codeUnit, chars, unit, hbytes, q.a.reads, q.b.reads, q.c.reads, q.d.reads]

end Quad

/-- A character of a string as it is written: itself, an escape by a letter, or
the escape of a code unit. -/
inductive Glyph
  | plain (c : Char) (h : Plain c)
  | short (letter c : Char) (h : shortEscape? letter = some c)
  | unit (q : Quad)

namespace Glyph

/-- The text of a character. -/
def chars : Glyph → List Char
  | plain c _ => [c]
  | short letter _ _ => ['\\', letter]
  | unit q => '\\' :: 'u' :: q.chars

/-- The characters of a string, unless a surrogate stands alone in it. -/
def decode : List Glyph → Except Fault (List Char)
  | [] => .ok []
  | .plain c _ :: gs => (decode gs).map (c :: ·)
  | .short _ c _ :: gs => (decode gs).map (c :: ·)
  | .unit q :: gs =>
    if q.trailing then .error .malformed
    else if q.leading then
      match gs with
      | .unit low :: gs =>
        if low.trailing then (decode gs).map (q.pair low :: ·) else .error .malformed
      | _ => .error .malformed
    else (decode gs).map (Char.ofNat q.unit :: ·)

/-- Plain characters that stand for themselves. -/
def ofPlain (cs : List Char) (h : ∀ c ∈ cs, Plain c) : List Glyph := cs.pmap plain h

theorem decode_ofPlain (cs : List Char) (h : ∀ c ∈ cs, Plain c) :
    decode (ofPlain cs h) = .ok cs := by
  induction cs with
  | nil => rfl
  | cons c cs ih =>
    have ht : decode (ofPlain cs fun d hd => h d (List.mem_cons_of_mem c hd)) = .ok cs := ih _
    show (decode (ofPlain cs _)).map (c :: ·) = _
    rw [ht]
    rfl

/-- A letter behind a backslash stands for its character. -/
theorem readEscape_short {letter c : Char} (h : shortEscape? letter = some c) (rest : List Char) :
    readEscape (letter :: rest) = .ok (c, rest) := by
  have hne : letter ≠ 'u' := by
    rintro rfl
    cases h
  rw [readEscape, if_neg hne, h]

/-- An escape in a string is read, and then the rest of the string. -/
theorem readText_escape {c : Char} {cs tail : List Char} (h : readEscape cs = .ok (c, tail)) :
    readText ('\\' :: cs) = (readText tail).map fun (ds, after) => (c :: ds, after) := by
  rw [readText]
  simp only [Char.reduceEq, ↓reduceIte]
  split <;> simp_all

theorem readText_escape_error {e : Fault} {cs : List Char} (h : readEscape cs = .error e) :
    readText ('\\' :: cs) = .error e := by
  rw [readText]
  simp only [Char.reduceEq, ↓reduceIte]
  split <;> simp_all

/-- A code unit stands for its character, if it is not a surrogate. -/
theorem readEscape_unit (q : Quad) (rest : List Char) :
    readEscape ('u' :: (q.chars ++ rest))
      = if q.trailing then .error .malformed
        else if q.leading then surrogatePair q.unit rest
        else .ok (Char.ofNat q.unit, rest) := by
  rw [readEscape, if_pos rfl, unicodeEscape, q.codeUnit_append]
  rfl

/-- A leading surrogate and a trailing one give a character. -/
theorem surrogatePair_unit (high low : Quad) (rest : List Char) :
    surrogatePair high.unit ('\\' :: 'u' :: (low.chars ++ rest))
      = if low.trailing then .ok (high.pair low, rest) else .error .malformed := by
  rw [surrogatePair, low.codeUnit_append]
  rfl

/-- A leading surrogate that no code unit follows stands alone. -/
theorem surrogatePair_of_ne (n : Nat) {gs : List Glyph}
    (h : ∀ low gs', gs = .unit low :: gs' → False) (rest : List Char) :
    surrogatePair n (gs.flatMap chars ++ '"' :: rest) = .error .malformed := by
  rcases gs with - | ⟨⟨c, hc⟩ | ⟨letter, c, hc⟩ | low, gs⟩
  · rfl
  · show surrogatePair n (c :: (gs.flatMap chars ++ '"' :: rest)) = _
    unfold surrogatePair
    split
    · next he => cases he
    · next he => exact absurd (List.cons.inj he).1 hc.2.1
    · next he => exact absurd (List.cons.inj he).1 hc.2.1
    · rfl
  · show surrogatePair n ('\\' :: letter :: (gs.flatMap chars ++ '"' :: rest)) = _
    have hne : letter ≠ 'u' := by
      rintro rfl
      cases hc
    unfold surrogatePair
    split
    · next he => cases he
    · next he => cases he
    · next he => exact absurd (List.cons.inj (List.cons.inj he).2).1 hne
    · rfl
  · exact absurd rfl fun he => h low gs he

/-- A string is read up to its closing quote. -/
theorem readText_append (gs : List Glyph) (rest : List Char) :
    readText (gs.flatMap chars ++ '"' :: rest) = (decode gs).map (·, rest) := by
  fun_induction decode gs with
  | case1 =>
    rw [List.flatMap_nil, List.nil_append, readText]
    rfl
  | case2 c h gs ih =>
    obtain ⟨hquote, hslash, hcontrol⟩ := h
    show readText (c :: (gs.flatMap chars ++ '"' :: rest)) = _
    rw [readText, if_neg hquote, if_neg hslash, if_neg (Nat.not_lt.mpr hcontrol), ih]
    cases decode gs <;> rfl
  | case3 letter c h gs ih =>
    show readText ('\\' :: letter :: (gs.flatMap chars ++ '"' :: rest)) = _
    rw [readText_escape (readEscape_short h _), ih]
    cases decode gs <;> rfl
  | case4 q gs htrailing =>
    have hunit := readEscape_unit q (gs.flatMap chars ++ '"' :: rest)
    rw [if_pos htrailing] at hunit
    exact readText_escape_error hunit
  | case5 q htrailing hleading low gs hlow ih =>
    have hunit := readEscape_unit q
      ('\\' :: 'u' :: (low.chars ++ (gs.flatMap chars ++ '"' :: rest)))
    rw [if_neg htrailing, if_pos hleading, surrogatePair_unit, if_pos hlow] at hunit
    refine (readText_escape hunit).trans ?_
    rw [ih]
    cases decode gs <;> rfl
  | case6 q htrailing hleading low gs hlow =>
    have hunit := readEscape_unit q
      ('\\' :: 'u' :: (low.chars ++ (gs.flatMap chars ++ '"' :: rest)))
    rw [if_neg htrailing, if_pos hleading, surrogatePair_unit, if_neg hlow] at hunit
    exact readText_escape_error hunit
  | case7 q gs htrailing hleading hne =>
    have hunit := readEscape_unit q (gs.flatMap chars ++ '"' :: rest)
    rw [if_neg htrailing, if_pos hleading, surrogatePair_of_ne _ hne] at hunit
    exact readText_escape_error hunit
  | case8 q gs htrailing hleading ih =>
    have hunit := readEscape_unit q (gs.flatMap chars ++ '"' :: rest)
    rw [if_neg htrailing, if_neg hleading] at hunit
    refine (readText_escape hunit).trans ?_
    rw [ih]
    cases decode gs <;> rfl

end Glyph

end SlotStates.Json
