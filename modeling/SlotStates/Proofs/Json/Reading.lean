/-
SlotStates/Proofs/Json/Reading.lean

What is read from a text that is put together from parts.

Blanks are passed over wherever they may stand (`Blanks.skip`).  A number and a
string are read up to their ends, whatever follows them, if it cannot go on
with a number (`Stops`); `Reads` says this of the text of a value.

An `Item` is a value with the blanks around it, and a `Member` is an item with
a name.  What comes of an object depends on the names and values of its members
alone: reading their text is the same as taking one field after the other
(`Layout.takeMembers`).  So it is with the elements of an array
(`Layout.takeElements`).

Main results: `Layout.read_object` and `Layout.read_array`, what comes of a
whole text that holds a record in one form or the other.
-/
import Mathlib.Data.List.TakeWhile
import SlotStates.Json.Record

namespace SlotStates.Json

/-! ### Blanks -/

/-- Characters that may stand between tokens. -/
structure Blanks where
  chars : List Char
  blank : ∀ c ∈ chars, Text.isBlank c = true

/-- No blanks. -/
def Blanks.nil : Blanks := ⟨[], by simp⟩

/-- A text that starts with a character which is not a blank. -/
def Solid (cs : List Char) : Prop := ∃ c tail, cs = c :: tail ∧ Text.isBlank c = false

theorem Solid.append {cs : List Char} (h : Solid cs) (ds : List Char) : Solid (cs ++ ds) := by
  obtain ⟨c, tail, rfl, hc⟩ := h
  exact ⟨c, tail ++ ds, rfl, hc⟩

/-- Blanks are passed over. -/
theorem Blanks.skip_append (g : Blanks) (cs : List Char) :
    Text.skipBlanks (g.chars ++ cs) = Text.skipBlanks cs :=
  List.dropWhile_append_of_pos g.blank

theorem Blanks.skip (g : Blanks) {cs : List Char} (h : Solid cs) :
    Text.skipBlanks (g.chars ++ cs) = cs := by
  obtain ⟨c, tail, rfl, hc⟩ := h
  rw [g.skip_append]
  exact Text.skipBlanks_of_not_blank hc

theorem Blanks.skip_all (g : Blanks) : Text.skipBlanks g.chars = [] :=
  List.dropWhile_eq_nil_iff.mpr g.blank

/-! ### Numbers -/

/-- What follows cannot go on with a number. -/
def Stops (cs : List Char) : Prop :=
  ∀ c tail, cs = c :: tail → c.isDigit = false ∧ c ≠ '.' ∧ c ≠ 'e' ∧ c ≠ 'E'

theorem Blanks.stops (g : Blanks) {cs : List Char} (h : Stops cs) : Stops (g.chars ++ cs) := by
  rintro c tail he
  rcases hg : g.chars with - | ⟨b, bs⟩
  · rw [hg] at he
    exact h c tail he
  · rw [hg] at he
    obtain rfl : b = c := (List.cons.inj he).1
    have hb := g.blank b (hg ▸ List.mem_cons_self)
    simp only [Text.isBlank, Bool.or_eq_true, beq_iff_eq] at hb
    rcases hb with ((rfl | rfl) | rfl) | rfl <;> decide

/-- A number does not start with a zero, unless it is one. -/
theorem head_toDigits_ne_zero {n : Nat} (hn : 0 < n) :
    ∃ d ds, Nat.toDigits 10 n = d :: ds ∧ d ≠ '0' := by
  induction n using Nat.strongRecOn with
  | ind n ih =>
    rcases Nat.lt_or_ge n 10 with hlt | hge
    · refine ⟨n.digitChar, [], Nat.toDigits_of_lt_base hlt, ?_⟩
      have key : ∀ n ∈ List.range 10, 0 < n → n.digitChar ≠ '0' := by decide
      exact key n (List.mem_range.mpr hlt) hn
    · obtain ⟨d, ds, hd, hne⟩ := ih (n / 10) (by omega) (by omega)
      refine ⟨d, ds ++ [(n % 10).digitChar], ?_, hne⟩
      rw [Nat.toDigits_of_base_le (by decide) hge, hd]
      rfl

/-- What follows cannot go on with digits. -/
def StopsDigits (cs : List Char) : Prop := ∀ c tail, cs = c :: tail → c.isDigit = false

theorem Stops.digits {cs : List Char} (h : Stops cs) : StopsDigits cs :=
  fun c tail he => (h c tail he).1

/-- Digits are read up to where they end. -/
theorem someDigits_append {d : Char} {ds rest : List Char}
    (hd : ∀ c ∈ d :: ds, c.isDigit = true) (h : StopsDigits rest) :
    someDigits (d :: ds ++ rest) = .ok (d :: ds, rest) := by
  have hrest : rest.takeWhile Char.isDigit = [] ∧ rest.dropWhile Char.isDigit = rest := by
    rcases rest with - | ⟨c, tail⟩
    · exact ⟨rfl, rfl⟩
    · simp [h c tail rfl]
  have htake : (d :: ds ++ rest).takeWhile Char.isDigit = d :: ds := by
    rw [List.takeWhile_append_of_pos hd, hrest.1, List.append_nil]
  have hdrop : (d :: ds ++ rest).dropWhile Char.isDigit = rest := by
    rw [List.dropWhile_append_of_pos hd, hrest.2]
  show (if d.isDigit then Except.ok (_, _) else _) = _
  rw [if_pos (hd d List.mem_cons_self)]
  exact congrArg Except.ok (Prod.ext htake hdrop)

/-- Digits that may stand before a point: a zero alone, or some that do not
start with one. -/
inductive Whole : List Char → Prop
  | zero : Whole ['0']
  | digits {d : Char} {ds : List Char} (head : d ≠ '0')
      (digit : ∀ c ∈ d :: ds, c.isDigit = true) : Whole (d :: ds)

theorem Whole.exists_cons {ds : List Char} (h : Whole ds) :
    ∃ d tail, ds = d :: tail ∧ d.isDigit = true := by
  cases h with
  | zero => exact ⟨'0', [], rfl, by decide⟩
  | digits head digit => exact ⟨_, _, rfl, digit _ List.mem_cons_self⟩

theorem whole_toDigits (n : Nat) : Whole (Nat.toDigits 10 n) := by
  rcases Nat.eq_zero_or_pos n with rfl | hn
  · rw [Nat.toDigits_zero]
    exact .zero
  · obtain ⟨d, ds, hd, hne⟩ := head_toDigits_ne_zero hn
    rw [hd]
    exact .digits hne fun c hc => Nat.isDigit_of_mem_toDigits (by decide) (by decide) (hd ▸ hc)

theorem wholePart_append {ds rest : List Char} (hds : Whole ds) (h : StopsDigits rest) :
    wholePart (ds ++ rest) = .ok (ds, rest) := by
  cases hds with
  | zero =>
    rcases rest with - | ⟨c, tail⟩
    · rfl
    · show (if c.isDigit then _ else _) = _
      rw [h c tail rfl]
      rfl
  | digits head digit =>
    rw [← someDigits_append digit h]
    unfold wholePart
    split
    · next he => exact absurd (List.cons.inj he).1 head
    · next he => exact absurd (List.cons.inj he).1 head
    · rfl

/-- Where a number cannot go on, it has neither a fraction nor an exponent. -/
theorem fractionPart_of_stops {rest : List Char} (h : Stops rest) :
    fractionPart rest = .ok ([], rest) := by
  unfold fractionPart
  split
  · next cs => exact absurd rfl (h '.' cs rfl).2.1
  · rfl

theorem exponentPart_of_stops {rest : List Char} (h : Stops rest) :
    exponentPart rest = .ok (none, rest) := by
  unfold exponentPart
  split
  · next cs => exact absurd rfl (h 'e' cs rfl).2.2.1
  · next cs => exact absurd rfl (h 'E' cs rfl).2.2.2
  · rfl

/-- The digits of a word are read as this word. -/
theorem readNumber_decimal (w : UInt64) {rest : List Char} (h : Stops rest) :
    readNumber false ((Word.decimal w).toList ++ rest) = .ok (.unsigned w, rest) := by
  have hvalue : digitsValue (Nat.toDigits 10 w.toNat) = w.toNat := Nat.ofDigitChars_ten_toDigits
  have hnumber : Numeral.number? ⟨false, Nat.toDigits 10 w.toNat, [], none⟩
      = some (.unsigned w) := by
    simp only [Numeral.number?, Numeral.isWhole, hvalue]
    simp [Word.toNat_le_greatest]
  have hnumeral : readNumeral false (Nat.toDigits 10 w.toNat ++ rest)
      = .ok (⟨false, Nat.toDigits 10 w.toNat, [], none⟩, rest) := by
    simp only [readNumeral, wholePart_append (whole_toDigits _) h.digits, fractionPart_of_stops h,
      exponentPart_of_stops h, bind, Except.bind, pure, Except.pure]
  rw [Word.decimal, Nat.toList_repr]
  simp only [readNumber, hnumeral, hnumber, bind, Except.bind, pure, Except.pure]

/-! ### Strings -/

/-- A character that stands for itself in a string. -/
def Plain (c : Char) : Prop := c ≠ '"' ∧ c ≠ '\\' ∧ 0x20 ≤ c.toNat

instance : DecidablePred Plain := fun c =>
  inferInstanceAs (Decidable (c ≠ '"' ∧ c ≠ '\\' ∧ 0x20 ≤ c.toNat))

/-- A string is read up to its closing quote. -/
theorem readText_plain {cs : List Char} (h : ∀ c ∈ cs, Plain c) (rest : List Char) :
    readText (cs ++ '"' :: rest) = .ok (cs, rest) := by
  induction cs with
  | nil =>
    rw [List.nil_append, readText]
    rfl
  | cons c cs ih =>
    obtain ⟨hquote, hslash, hcontrol⟩ := h c List.mem_cons_self
    rw [List.cons_append, readText, if_neg hquote, if_neg hslash, if_neg (Nat.not_lt.mpr hcontrol),
      ih fun d hd => h d (List.mem_cons_of_mem c hd)]
    rfl

/-- A text that needs no escapes, as a JSON string. -/
def quote (s : String) : String := "\"" ++ s ++ "\""

theorem quote_toList (s : String) : (quote s).toList = '"' :: (s.toList ++ ['"']) := by
  simp [quote, String.toList_append]

/-! ### Values -/

/-- A text stands for a value that is one token, whatever follows it. -/
structure Reads (v : List Char) (t : Token) : Prop where
  solid : Solid v
  token : ∀ rest, Stops rest → readToken (v ++ rest) = .ok (t, rest)

/-- A digit starts a number and nothing else. -/
theorem readToken_of_digit {d : Char} (h : d.isDigit = true) (cs : List Char) :
    readToken (d :: cs) = (readNumber false (d :: cs)).map fun (n, rest) => (.number n, rest) := by
  have hne : d ≠ '[' ∧ d ≠ '\x7b' ∧ d ≠ '"' ∧ d ≠ '-' ∧ d ≠ 'n' ∧ d ≠ 't' ∧ d ≠ 'f' := by
    refine ⟨?_, ?_, ?_, ?_, ?_, ?_, ?_⟩ <;> (rintro rfl; cases h)
  simp [readToken, hne, h]

theorem isBlank_of_digit {d : Char} (h : d.isDigit = true) : Text.isBlank d = false := by
  have hne : d ≠ ' ' ∧ d ≠ '\t' ∧ d ≠ '\n' ∧ d ≠ '\r' := by
    refine ⟨?_, ?_, ?_, ?_⟩ <;> (rintro rfl; cases h)
  simp [Text.isBlank, hne]

/-- The text of a word stands for this word. -/
theorem reads_word (w : UInt64) : Reads (Word.decimal w).toList (.number (.unsigned w)) := by
  obtain ⟨d, ds, hd, hdigit⟩ := (whole_toDigits w.toNat).exists_cons
  rw [← Nat.toList_repr, ← Word.decimal] at hd
  refine ⟨⟨d, ds, hd, isBlank_of_digit hdigit⟩, fun rest h => ?_⟩
  have hn := readNumber_decimal w h
  rw [hd, List.cons_append] at hn ⊢
  rw [readToken_of_digit hdigit, hn]
  rfl

/-- Plain characters between quotes stand for a string. -/
theorem reads_text {s : String} (h : ∀ c ∈ s.toList, Plain c) :
    Reads (quote s).toList (.text s) where
  solid := ⟨'"', s.toList ++ ['"'], quote_toList s, by decide⟩
  token rest _ := by
    have htext : (quote s).toList ++ rest = '"' :: (s.toList ++ '"' :: rest) := by
      simp [quote_toList]
    rw [htext]
    show (readText (s.toList ++ '"' :: rest)).map _ = _
    rw [readText_plain h]
    exact congrArg (fun s => Except.ok (Token.text s, rest)) String.ofList_toList

/-- No value starts with the bracket that closes an array. -/
theorem Reads.head_ne_closing {v : List Char} {t : Token} (h : Reads v t) :
    ∃ c tail, v = c :: tail ∧ Text.isBlank c = false ∧ c ≠ ']' := by
  obtain ⟨c, tail, rfl, hc⟩ := h.solid
  refine ⟨c, tail, rfl, hc, ?_⟩
  rintro rfl
  have ht := h.token [] fun c tail he => nomatch he
  cases ht

/-! ### Lists with commas -/

/-- Pieces of text parted by commas, and a comma in front unless they are the
first ones. -/
def parted (first : Bool) : List (List Char) → List Char
  | [] => []
  | cs :: css => (if first then [] else [',']) ++ (cs ++ parted false css)

theorem stops_cons {c : Char} (h : c.isDigit = false ∧ c ≠ '.' ∧ c ≠ 'e' ∧ c ≠ 'E')
    (cs : List Char) : Stops (c :: cs) := by
  rintro d tail he
  obtain rfl : c = d := (List.cons.inj he).1
  exact h

/-- A number ends where the next piece begins, or where the list ends. -/
theorem stops_parted (css : List (List Char)) {rest : List Char} (h : Stops rest) :
    Stops (parted false css ++ rest) := by
  rcases css with - | ⟨cs, css⟩
  · exact h
  · exact stops_cons (by decide) _

/-- The next entry of a list comes after a comma, unless it is the first. -/
theorem nextEntry_item {closing c : Char} (first : Bool) (g : Blanks) (cs : List Char)
    (hc : c ≠ closing) (hcomma : ',' ≠ closing) (hb : Text.isBlank c = false) :
    nextEntry closing first ((if first then [] else [',']) ++ (g.chars ++ c :: cs))
      = .ok (.item (c :: cs)) := by
  have hskip : Text.skipBlanks (g.chars ++ c :: cs) = c :: cs := g.skip ⟨c, cs, rfl, hb⟩
  cases first with
  | true => simp [nextEntry, hskip, hc]
  | false =>
    have hskip' : Text.skipBlanks (',' :: (g.chars ++ c :: cs)) = ',' :: (g.chars ++ c :: cs) :=
      Text.skipBlanks_of_not_blank (by decide)
    simp [nextEntry, hskip, hskip', hc, hcomma]

/-- A list ends at its closing bracket. -/
theorem nextEntry_close (closing : Char) (first : Bool) (g : Blanks) (rest : List Char)
    (hb : Text.isBlank closing = false) :
    nextEntry closing first (g.chars ++ closing :: rest) = .ok (.close rest) := by
  have hskip : Text.skipBlanks (g.chars ++ closing :: rest) = closing :: rest :=
    g.skip ⟨closing, rest, rfl, hb⟩
  simp [nextEntry, hskip]

/-! ### Members and elements -/

/-- A value that is one token, with the blanks around it: an element of an
array. -/
structure Item where
  value : List Char
  token : Token
  reads : Reads value token
  before : Blanks
  after : Blanks

/-- A member of an object: a name that needs no escapes, the blanks around it,
and its value. -/
structure Member where
  name : String
  plain : ∀ c ∈ name.toList, Plain c
  before : Blanks
  after : Blanks
  item : Item

namespace Item

/-- The text of an item. -/
def chars (i : Item) : List Char := i.before.chars ++ (i.value ++ i.after.chars)

/-- The token of an item is read, and the blanks behind it are left. -/
theorem readToken_value (i : Item) {rest : List Char} (h : Stops rest) :
    readToken (i.value ++ (i.after.chars ++ rest)) = .ok (i.token, i.after.chars ++ rest) :=
  i.reads.token _ (i.after.stops h)

end Item

namespace Member

/-- The text of a member. -/
def chars (m : Member) : List Char :=
  m.before.chars ++ ((quote m.name).toList ++ (m.after.chars ++ ':' :: m.item.chars))

/-- What a member says. -/
def entry (m : Member) : String × Token := (m.name, m.item.token)

end Member

/-- A text stands for the name of a member, or for a fault, whatever follows
it. -/
structure Names (cs : List Char) (name : Except Fault String) : Prop where
  quoted : ∃ tail, cs = '"' :: tail
  name : ∀ rest, readName (cs ++ rest) = name.map (·, rest)

theorem names_quote {name : String} (h : ∀ c ∈ name.toList, Plain c) :
    Names (quote name).toList (.ok name) where
  quoted := ⟨_, quote_toList name⟩
  name rest := by
    have htext : (quote name).toList ++ rest = '"' :: (name.toList ++ '"' :: rest) := by
      simp [quote_toList]
    rw [htext]
    show (readText (name.toList ++ '"' :: rest)).map _ = _
    rw [readText_plain h]
    exact congrArg (fun s => Except.ok (s, rest)) String.ofList_toList

theorem afterColon_blanks (g g' : Blanks) {cs : List Char} (h : Solid cs) :
    afterColon (g.chars ++ ':' :: (g'.chars ++ cs)) = .ok cs := by
  have hskip : Text.skipBlanks (g.chars ++ ':' :: (g'.chars ++ cs)) = ':' :: (g'.chars ++ cs) :=
    g.skip ⟨':', _, rfl, by decide⟩
  simp [afterColon, hskip, g'.skip h]

/-- A value is read and handed to its field. -/
def Field.read {ρ : Type} (f : Field ρ) (r : ρ) (cs : List Char) : Except Fault (ρ × List Char) :=
  (readToken cs).bind fun (t, rest) => (ofData (f.accept t r)).map (·, rest)

theorem Field.read_eq {ρ : Type} (f : Field ρ) (r : ρ) {cs rest : List Char} {t : Token}
    (h : readToken cs = .ok (t, rest)) : f.read r cs = (ofData (f.accept t r)).map (·, rest) := by
  rw [Field.read, h]
  rfl

namespace Layout

variable {ρ α : Type}

/-! ### Objects -/

/-- A member goes to the field of its name, which then has been read. -/
def takeMember (l : Layout ρ α) (unread : List (Field ρ)) (r : ρ) (name : String) (t : Token) :
    Except DataFault (List (Field ρ) × ρ) :=
  match unread.find? (·.name = name) with
  | none => .error (l.nameFault name)
  | some f => (f.accept t r).map (unread.eraseP (·.name = name), ·)

/-- The record after some members whose names and tokens are given, when some
fields have not been read yet. -/
def takeMembers (l : Layout ρ α) (unread : List (Field ρ)) (r : ρ) :
    List (String × Token) → Except DataFault ρ
  | [] => .ok r
  | (name, t) :: entries =>
    (l.takeMember unread r name t).bind fun (unread, r) => l.takeMembers unread r entries

theorem takeMember_of_none {l : Layout ρ α} {unread : List (Field ρ)} {name : String}
    (h : unread.find? (·.name = name) = none) (r : ρ) (t : Token) :
    l.takeMember unread r name t = .error (l.nameFault name) := by
  rw [takeMember, h]

theorem takeMember_of_some {l : Layout ρ α} {unread : List (Field ρ)} {name : String}
    {f : Field ρ} (h : unread.find? (·.name = name) = some f) (r : ρ) (t : Token) :
    l.takeMember unread r name t = (f.accept t r).map (unread.eraseP (·.name = name), ·) := by
  rw [takeMember, h]

/-- Blanks in front of the members of an object do not matter. -/
theorem readMembers_blanks (l : Layout ρ α) (unread : List (Field ρ)) (first : Bool) (r : ρ)
    (g : Blanks) (cs : List Char) :
    l.readMembers unread first r (g.chars ++ cs) = l.readMembers unread first r cs := by
  rw [readMembers, nextEntry, g.skip_append, ← nextEntry, ← readMembers]

/-- Of the next member of an object the name decides whether its value is looked
at. -/
theorem readMembers_member (l : Layout ρ α) (unread : List (Field ρ)) (first : Bool) (r : ρ)
    {q : List Char} {name : Except Fault String} (hq : Names q name) (before after gap : Blanks)
    {cs : List Char} (hcs : Solid cs) :
    l.readMembers unread first r ((if first then [] else [','])
        ++ (before.chars ++ (q ++ (after.chars ++ ':' :: (gap.chars ++ cs)))))
      = name.bind fun name =>
          match unread.find? (·.name = name) with
          | none => .error (.data (l.nameFault name))
          | some f => (f.read r cs).bind fun (r, rest) =>
              l.readMembers (unread.eraseP (·.name = name)) false r rest := by
  obtain ⟨tail, rfl⟩ := hq.quoted
  have hname := hq.name (after.chars ++ ':' :: (gap.chars ++ cs))
  rw [List.cons_append] at hname ⊢
  rw [readMembers, nextEntry_item first _ _ (by decide) (by decide) (by decide)]
  rcases name with e | name
  · simp only [hname]
    rfl
  · simp only [hname, Except.map, Except.bind, afterColon_blanks _ _ hcs]
    split
    · next hf => simp only [hf]
    · next f hf =>
      simp only [hf]
      rcases ht : readToken cs with e | ⟨t, rest⟩
      · rw [Field.read, ht]
        rfl
      · rw [f.read_eq r ht]
        rcases ha : f.accept t r with e | r' <;> simp only [ha] <;> rfl

/-- The next member of an object is taken, and the reading goes on behind it. -/
theorem readMembers_cons (l : Layout ρ α) (unread : List (Field ρ)) (first : Bool) (r : ρ)
    (m : Member) {rest : List Char} (h : Stops rest) :
    l.readMembers unread first r ((if first then [] else [',']) ++ (m.chars ++ rest))
      = (ofData (l.takeMember unread r m.name m.item.token)).bind fun (unread, r) =>
          l.readMembers unread false r rest := by
  have hchars : m.chars ++ rest = m.before.chars ++ ((quote m.name).toList ++ (m.after.chars
      ++ ':' :: (m.item.before.chars ++ (m.item.value ++ (m.item.after.chars ++ rest))))) := by
    simp [Member.chars, Item.chars]
  rw [hchars, readMembers_member l _ _ _ (names_quote m.plain) _ _ _ (m.item.reads.solid.append _),
    Except.bind]
  split
  · next hf =>
    rw [takeMember_of_none hf]
    rfl
  · next f hf =>
    rw [takeMember_of_some hf, f.read_eq r (m.item.readToken_value h)]
    rcases f.accept m.item.token r with e | r'
    · rfl
    · exact readMembers_blanks l _ _ r' _ _

/-- What comes of the members of an object is what comes of their names and
values, and the reading ends behind the brace. -/
theorem readMembers_chars (l : Layout ρ α) (unread : List (Field ρ)) (first : Bool) (r : ρ)
    (ms : List Member) (g : Blanks) (rest : List Char) :
    l.readMembers unread first r
        (parted first (ms.map Member.chars) ++ (g.chars ++ '\x7d' :: rest))
      = (ofData (l.takeMembers unread r (ms.map Member.entry))).map (·, rest) := by
  induction ms generalizing unread first r with
  | nil =>
    rw [readMembers, List.map_nil, parted, List.nil_append,
      nextEntry_close '\x7d' first g rest (by decide)]
    rfl
  | cons m ms ih =>
    have hstops : Stops (parted false (ms.map Member.chars) ++ (g.chars ++ '\x7d' :: rest)) :=
      stops_parted _ (g.stops (stops_cons (by decide) rest))
    rw [List.map_cons, parted, List.append_assoc, List.append_assoc,
      readMembers_cons l _ _ _ m hstops]
    rw [List.map_cons, Member.entry, takeMembers]
    rcases l.takeMember unread r m.name m.item.token with e | ⟨unread', r'⟩
    · rfl
    · exact ih unread' false r'

/-! ### Arrays -/

/-- The record after some elements whose tokens are given, one for each
field. -/
def takeElements (r : ρ) : List (Field ρ) → List Token → Except DataFault ρ
  | f :: fs, t :: ts => (f.accept t r).bind fun r => takeElements r fs ts
  | _, _ => .ok r

/-- Blanks in front of the elements of an array do not matter. -/
theorem readElements_blanks (l : Layout ρ α) (n : Nat) (r : ρ) (g : Blanks) (cs : List Char)
    (fs : List (Field ρ)) :
    l.readElements n r (g.chars ++ cs) fs = l.readElements n r cs fs := by
  cases fs with
  | nil => rw [readElements, readArrayEnd, g.skip_append, ← readArrayEnd, ← readElements]
  | cons f fs => rw [readElements, nextEntry, g.skip_append, ← nextEntry, ← readElements]

/-- The next element of an array starts behind the comma and the blanks. -/
theorem readElements_element (l : Layout ρ α) (n : Nat) (r : ρ) (f : Field ρ) (fs : List (Field ρ))
    (before : Blanks) {c : Char} (hb : Text.isBlank c = false) (hc : c ≠ ']') (cs : List Char) :
    l.readElements n r ((if n == 0 then [] else [',']) ++ (before.chars ++ c :: cs)) (f :: fs)
      = (f.read r (c :: cs)).bind fun (r, rest) => l.readElements (n + 1) r rest fs := by
  simp only [readElements, nextEntry_item (n == 0) _ _ hc (by decide) hb]
  rcases ht : readToken (c :: cs) with e | ⟨t, rest⟩
  · rw [Field.read, ht]
    rfl
  · rw [f.read_eq r ht]
    simp only
    rcases f.accept t r with e | r' <;> rfl

/-- The next element of an array goes to the next field. -/
theorem readElements_cons (l : Layout ρ α) (n : Nat) (r : ρ) (i : Item) (f : Field ρ)
    (fs : List (Field ρ)) {rest : List Char} (h : Stops rest) :
    l.readElements n r ((if n == 0 then [] else [',']) ++ (i.chars ++ rest)) (f :: fs)
      = (ofData (f.accept i.token r)).bind fun r => l.readElements (n + 1) r rest fs := by
  obtain ⟨c, tail, hv, hb, hne⟩ := i.reads.head_ne_closing
  have hchars : i.chars ++ rest = i.before.chars ++ c :: (tail ++ (i.after.chars ++ rest)) := by
    simp [Item.chars, hv]
  have htoken : readToken (c :: (tail ++ (i.after.chars ++ rest)))
      = .ok (i.token, i.after.chars ++ rest) := by
    rw [← List.cons_append, ← hv]
    exact i.readToken_value h
  rw [hchars, readElements_element l n r f fs _ hb hne, f.read_eq r htoken]
  rcases f.accept i.token r with e | r'
  · rfl
  · exact readElements_blanks l _ r' _ _ _

/-- What comes of the elements of an array, one for each field, is what comes
of their values, and the reading ends behind the bracket. -/
theorem readElements_chars (l : Layout ρ α) (n : Nat) (r : ρ) (fs : List (Field ρ))
    (is : List Item) (h : is.length = fs.length) (g : Blanks) (rest : List Char) :
    l.readElements n r (parted (n == 0) (is.map Item.chars) ++ (g.chars ++ ']' :: rest)) fs
      = (ofData (takeElements r fs (is.map Item.token))).map (·, rest) := by
  induction is generalizing n r fs with
  | nil =>
    obtain rfl : fs = [] := List.eq_nil_of_length_eq_zero h.symm
    have hskip : Text.skipBlanks (g.chars ++ ']' :: rest) = ']' :: rest :=
      g.skip ⟨']', rest, rfl, by decide⟩
    rw [List.map_nil, parted, List.nil_append, readElements, readArrayEnd, hskip]
    rfl
  | cons i is ih =>
    rcases fs with - | ⟨f, fs⟩
    · cases h
    · have hstops : Stops (parted false (is.map Item.chars) ++ (g.chars ++ ']' :: rest)) :=
        stops_parted _ (g.stops (stops_cons (by decide) rest))
      rw [List.map_cons, parted, List.append_assoc, List.append_assoc,
        readElements_cons l n r i f fs hstops]
      rw [List.map_cons, takeElements]
      rcases f.accept i.token r with e | r'
      · rfl
      · exact ih (n + 1) r' fs (Nat.succ.inj h)

/-! ### Whole texts -/

/-- A fault of the data is a fault of the text, whenever it is found. -/
theorem ofData_bind {β : Type} (x : Except DataFault α) (f : α → Except DataFault β) :
    ofData (x.bind f) = (ofData x).bind fun a => ofData (f a) := by
  cases x <;> rfl

/-- A record that has been read is finished, and what follows it is left. -/
theorem finish_read (l : Layout ρ α) (x : Except Fault ρ) (rest : List Char) :
    (do
      let (r, rest) ← x.map (·, rest)
      let a ← ofData (l.finish r)
      return (a, rest)) = (x.bind fun r => ofData (l.finish r)).map (·, rest) := by
  rcases x with e | r
  · rfl
  · simp only [ofData, Except.mapError, Except.map, Except.bind, bind]
    rcases l.finish r with e | a <;> rfl

/-- Blanks may follow the record. -/
theorem read_of_record (l : Layout ρ α) (after : Blanks) {cs : List Char}
    {x : Except Fault α} (h : l.readRecord cs = x.map (·, after.chars)) :
    l.read (String.ofList cs) = x := by
  rw [read, String.toList_ofList, h]
  rcases x with e | a
  · rfl
  · simp [Except.map, bind, Except.bind, after.skip_all, pure, Except.pure]

/-- What comes of a text that holds an object and blanks around it. -/
theorem read_object (l : Layout ρ α) (before inside after : Blanks) (ms : List Member) :
    l.read (String.ofList (before.chars ++ '\x7b' :: (parted true (ms.map Member.chars)
        ++ (inside.chars ++ '\x7d' :: after.chars))))
      = ofData ((l.takeMembers l.fields l.blank (ms.map Member.entry)).bind l.finish) := by
  refine l.read_of_record after ?_
  rw [readRecord, before.skip ⟨'\x7b', _, rfl, by decide⟩, ofData_bind]
  simp only [readToken, l.readMembers_chars]
  exact l.finish_read _ _

/-- What comes of a text that holds an array, with an element for each field,
and blanks around it. -/
theorem read_array (l : Layout ρ α) (before inside after : Blanks) (is : List Item)
    (h : is.length = l.fields.length) :
    l.read (String.ofList (before.chars ++ '[' :: (parted true (is.map Item.chars)
        ++ (inside.chars ++ ']' :: after.chars))))
      = ofData ((takeElements l.blank l.fields (is.map Item.token)).bind l.finish) := by
  refine l.read_of_record after ?_
  have helements := l.readElements_chars 0 l.blank l.fields is h inside after.chars
  rw [beq_self_eq_true] at helements
  rw [readRecord, before.skip ⟨'[', _, rfl, by decide⟩, ofData_bind]
  simp only [readToken, helements]
  exact l.finish_read _ _

end Layout

end SlotStates.Json
