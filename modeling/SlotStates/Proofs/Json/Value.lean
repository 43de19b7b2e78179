/-
SlotStates/Proofs/Json/Value.lean

Values as they are written in JSON, and records read from them.

A `Value` has everything that its text depends on, the blanks between tokens
included, so the texts `Value.chars` are the values of JSON's grammar.  What is
read of a value before its kind matters is its token, or the fault that it has
(`Value.head`).  Of an array or an object that is the opening bracket, and a
layout whose fields take neither (`Layout.Flat`) looks no further.

So what comes of a text depends on the names and heads in it alone.  Reading an
object is taking its members one after the other (`Layout.takeAll`), and
reading an array is taking its values (`Layout.takeValues`).

Main results: `Layout.read_document_object` and `Layout.read_document_array`,
what comes of a whole text, and `Layout.takeAll_of_order`, an array is the
object that has the first names in their order.
-/
import SlotStates.Proofs.Json.Literals

namespace SlotStates.Json

/-! ### Values -/

/-- Something written with blanks around it. -/
structure Placed (α : Type) where
  before : Blanks
  it : α
  after : Blanks

/-- A member of an object: a name and the blanks around it, and what it is the
name of. -/
structure Named (α : Type) where
  before : Blanks
  label : List Glyph
  after : Blanks
  value : Placed α

/-- The text of a name. -/
def labelChars (label : List Glyph) : List Char := '"' :: (label.flatMap Glyph.chars ++ ['"'])

/-- A value of JSON as it is written, with the blanks between its tokens. -/
inductive Value
  | null
  | bool (b : Bool)
  | number (x : Figure)
  | text (gs : List Glyph)
  | array (items : List (Placed Value)) (inside : Blanks)
  | object (members : List (Named Value)) (inside : Blanks)

mutual

/-- The text of a value. -/
def Value.chars : Value → List Char
  | .null => ['n', 'u', 'l', 'l']
  | .bool true => ['t', 'r', 'u', 'e']
  | .bool false => ['f', 'a', 'l', 's', 'e']
  | .number x => x.chars
  | .text gs => labelChars gs
  | .array items inside => '[' :: (itemsChars true items ++ (inside.chars ++ [']']))
  | .object members inside => '\x7b' :: (membersChars true members ++ (inside.chars ++ ['\x7d']))

/-- The text of the values of an array, with a comma in front unless they are
the first ones. -/
def itemsChars (first : Bool) : List (Placed Value) → List Char
  | [] => []
  | ⟨before, v, after⟩ :: items =>
    (if first then [] else [',']) ++ (before.chars ++ (v.chars ++ (after.chars
      ++ itemsChars false items)))

/-- The text of the members of an object, with a comma in front unless they are
the first ones. -/
def membersChars (first : Bool) : List (Named Value) → List Char
  | [] => []
  | ⟨before, label, after, ⟨before', v, after'⟩⟩ :: members =>
    (if first then [] else [',']) ++ (before.chars ++ (labelChars label ++ (after.chars
      ++ ':' :: (before'.chars ++ (v.chars ++ (after'.chars ++ membersChars false members))))))

end

namespace Value

/-- The token that a value starts with, or the fault in it. -/
def head : Value → Except Fault Token
  | .null => .ok .null
  | .bool b => .ok (.bool b)
  | .number x => x.number.map .number
  | .text gs => (Glyph.decode gs).map fun s => .text (String.ofList s)
  | .array _ _ => .ok .openArray
  | .object _ _ => .ok .openObject

/-- The value of a number that has neither sign nor fraction nor exponent. -/
def natural? : Value → Option Nat
  | .number x => x.natural?
  | _ => none

/-- The characters of a string, unless a surrogate stands alone in it. -/
def text? : Value → Option (List Char)
  | .text gs => (Glyph.decode gs).toOption
  | _ => none

theorem head_eq_unsigned {v : Value} {w : UInt64} :
    v.head = .ok (.number (.unsigned w)) ↔ v.natural? = some w.toNat := by
  cases v with
  | number x =>
    rw [natural?, ← x.number_eq_unsigned, head]
    cases x.number <;> simp [Except.map]
  | text gs => cases hs : Glyph.decode gs <;> simp [head, natural?, hs, Except.map]
  | _ => simp [head, natural?]

theorem head_eq_text {v : Value} {s : String} :
    v.head = .ok (.text s) ↔ v.text? = some s.toList := by
  cases v with
  | number x => cases hn : x.number <;> simp [head, text?, hn, Except.map]
  | text gs =>
    rw [head, text?]
    cases Glyph.decode gs with
    | error e => simp [Except.map, Except.toOption]
    | ok cs =>
      simp only [Except.map, Except.toOption, Except.ok.injEq, Token.text.injEq, Option.some.injEq]
      rw [← String.toList_inj, String.toList_ofList]
  | _ => simp [head, text?]

theorem head_eq_null {v : Value} : v.head = .ok .null ↔ v = .null := by
  cases v with
  | number x => cases hn : x.number <;> simp [head, hn, Except.map]
  | text gs => cases hs : Glyph.decode gs <;> simp [head, hs, Except.map]
  | _ => simp [head]

/-- Whether a value is one token. -/
def Scalar : Value → Prop
  | .array _ _ => False
  | .object _ _ => False
  | _ => True

/-- A value that is one token is read to its end. -/
theorem readToken_of_scalar {v : Value} (hv : v.Scalar) {rest : List Char} (h : Stops rest) :
    readToken (v.chars ++ rest) = v.head.map (·, rest) := by
  cases v with
  | null => simp [chars, head, readToken, readLetters, Except.map]
  | bool b => cases b <;> simp [chars, head, readToken, readLetters, Except.map]
  | number x =>
    rw [chars, head]
    exact x.readToken_append h
  | text gs =>
    have hchars : (text gs).chars ++ rest = '"' :: (gs.flatMap Glyph.chars ++ '"' :: rest) := by
      simp [chars, labelChars]
    rw [hchars, head]
    show (readText _).map _ = _
    rw [Glyph.readText_append]
    cases Glyph.decode gs <;> rfl
  | array items inside => exact hv.elim
  | object members inside => exact hv.elim

/-- No value starts with a blank, or with the bracket that closes an array. -/
theorem exists_chars (v : Value) :
    ∃ c tail, v.chars = c :: tail ∧ Text.isBlank c = false ∧ c ≠ ']' := by
  cases v with
  | null => exact ⟨'n', _, by rw [chars], by decide, by decide⟩
  | bool b =>
    cases b with
    | false => exact ⟨'f', _, by rw [chars], by decide, by decide⟩
    | true => exact ⟨'t', _, by rw [chars], by decide, by decide⟩
  | number x =>
    rw [chars, Figure.chars]
    cases x.negative with
    | true => exact ⟨'-', _, rfl, by decide, by decide⟩
    | false =>
      obtain ⟨d, ds, hd, hdigit⟩ := x.isWhole.exists_cons
      refine ⟨d, ds ++ (x.fractionChars ++ x.exponentChars), ?_, isBlank_of_digit hdigit, ?_⟩
      · rw [if_neg Bool.false_ne_true, Figure.tail, hd, List.cons_append]
      · rintro rfl
        cases hdigit
  | text gs => exact ⟨'"', _, by rw [chars, labelChars], by decide, by decide⟩
  | array items inside => exact ⟨'[', _, by rw [chars], by decide, by decide⟩
  | object members inside => exact ⟨'\x7b', _, by rw [chars], by decide, by decide⟩

theorem solid (v : Value) : Solid v.chars := by
  obtain ⟨c, tail, hv, hc, -⟩ := v.exists_chars
  exact ⟨c, tail, hv, hc⟩

/-- What is read of a value by a function on tokens. -/
def readAs {σ : Type} (p : Token → Except DataFault σ) (v : Value) : Except Fault σ :=
  v.head.bind fun t => ofData (p t)

section

variable {σ : Type} {p : Token → Except DataFault σ} {v : Value}

theorem readAs_eq_ok {s : σ} : v.readAs p = .ok s ↔ ∃ t, v.head = .ok t ∧ p t = .ok s := by
  rw [readAs]
  rcases v.head with e | t
  · simp [Except.bind]
  · cases hp : p t <;> simp [Except.bind, ofData, Except.mapError, hp]

theorem readAs_map {τ : Type} (g : σ → τ) :
    v.readAs (fun t => (p t).map g) = (v.readAs p).map g := by
  rw [readAs, readAs]
  rcases v.head with e | t
  · rfl
  · simp only [Except.bind]
    cases p t <;> rfl

theorem readAs_eq_error {e : Fault} : v.readAs p = .error e
    ↔ v.head = .error e ∨ ∃ t fault, v.head = .ok t ∧ p t = .error fault ∧ .data fault = e := by
  rw [readAs]
  rcases v.head with e | t
  · simp [Except.bind]
  · cases hp : p t <;> simp [Except.bind, ofData, Except.mapError, hp]

end

end Value

/-- The name of a member, or the fault in its text. -/
def Named.name {α : Type} (m : Named α) : Except Fault String :=
  (Glyph.decode m.label).map String.ofList

/-- A member without blanks whose name needs no escapes. -/
def Named.plain {α : Type} (name : String) (h : ∀ c ∈ name.toList, Plain c) (value : Placed α) :
    Named α := ⟨.nil, Glyph.ofPlain name.toList h, .nil, value⟩

theorem Named.name_plain {α : Type} (name : String) (h : ∀ c ∈ name.toList, Plain c)
    (value : Placed α) : (Named.plain name h value).name = .ok name := by
  rw [Named.name, Named.plain, Glyph.decode_ofPlain]
  exact congrArg Except.ok String.ofList_toList

theorem names_label (label : List Glyph) :
    Names (labelChars label) ((Glyph.decode label).map String.ofList) where
  quoted := ⟨_, rfl⟩
  name rest := by
    have hchars : labelChars label ++ rest = '"' :: (label.flatMap Glyph.chars ++ '"' :: rest) := by
      simp [labelChars]
    rw [hchars]
    show (readText _).map _ = _
    rw [Glyph.readText_append]
    cases Glyph.decode label <;> rfl

/-! ### Fields -/

variable {ρ α : Type}

/-- A field that takes neither arrays nor objects. -/
def Field.Flat (f : Field ρ) : Prop :=
  ∀ r, (∃ e, f.accept .openArray r = .error e) ∧ ∃ e, f.accept .openObject r = .error e

/-- What becomes of a record when a field takes a value. -/
def Field.take (f : Field ρ) (r : ρ) (v : Value) : Except Fault ρ := v.readAs (f.accept · r)

/-- What a field does with the text of a value is what it does with the
value. -/
theorem Field.read_value {f : Field ρ} (hf : f.Flat) (r : ρ) (v : Value) {rest : List Char}
    (h : Stops rest) : f.read r (v.chars ++ rest) = (f.take r v).map (·, rest) := by
  have hscalar (hv : v.Scalar) : f.read r (v.chars ++ rest) = (f.take r v).map (·, rest) := by
    rw [Field.read, Value.readToken_of_scalar hv h, take, Value.readAs]
    cases v.head <;> rfl
  cases v with
  | array items inside =>
    obtain ⟨e, he⟩ := (hf r).1
    simp [Value.chars, Field.read, readToken, take, Value.readAs, Value.head, he, Except.bind,
      ofData, Except.mapError, Except.map]
  | object members inside =>
    obtain ⟨e, he⟩ := (hf r).2
    simp [Value.chars, Field.read, readToken, take, Value.readAs, Value.head, he, Except.bind,
      ofData, Except.mapError, Except.map]
  | _ => exact hscalar trivial

namespace Layout

/-- No field takes arrays or objects. -/
def Flat (l : Layout ρ α) : Prop := ∀ f ∈ l.fields, f.Flat

/-! ### Objects -/

/-- The record after some members, when some fields have not been read yet. -/
def takeAll (l : Layout ρ α) (unread : List (Field ρ)) (r : ρ) :
    List (Named Value) → Except Fault ρ
  | [] => .ok r
  | m :: ms =>
    m.name.bind fun name =>
      match unread.find? (·.name = name) with
      | none => .error (.data (l.nameFault name))
      | some f => (f.take r m.value.it).bind fun r =>
          l.takeAll (unread.eraseP (·.name = name)) r ms

section

variable (l : Layout ρ α) {unread : List (Field ρ)} {r : ρ} {m : Named Value}
  {ms : List (Named Value)}

/-- A fault in a name ends the reading. -/
theorem takeAll_fault {e : Fault} (hname : m.name = .error e) :
    l.takeAll unread r (m :: ms) = .error e := by
  rw [takeAll, hname]
  rfl

/-- A name that no field has which is not yet read ends the reading. -/
theorem takeAll_refused {name : String} (hname : m.name = .ok name)
    (hf : unread.find? (·.name = name) = none) :
    l.takeAll unread r (m :: ms) = .error (.data (l.nameFault name)) := by
  rw [takeAll, hname]
  simp only [Except.bind, hf]

/-- The field of the name takes the value. -/
theorem takeAll_taken {name : String} {f : Field ρ} (hname : m.name = .ok name)
    (hf : unread.find? (·.name = name) = some f) :
    l.takeAll unread r (m :: ms) = (f.take r m.value.it).bind fun r =>
      l.takeAll (unread.eraseP (·.name = name)) r ms := by
  rw [takeAll, hname]
  simp only [Except.bind, hf]

end

theorem stops_membersChars (ms : List (Named Value)) {rest : List Char} (h : Stops rest) :
    Stops (membersChars false ms ++ rest) := by
  rcases ms with - | ⟨m, ms⟩
  · exact h
  · rw [membersChars]
    exact stops_cons (by decide) _

/-- Reading the members of an object is taking them one after the other. -/
theorem readMembers_written (l : Layout ρ α) (unread : List (Field ρ))
    (hflat : ∀ f ∈ unread, f.Flat) (first : Bool) (r : ρ) (ms : List (Named Value)) (g : Blanks)
    (rest : List Char) :
    l.readMembers unread first r (membersChars first ms ++ (g.chars ++ '\x7d' :: rest))
      = (l.takeAll unread r ms).map (·, rest) := by
  induction ms generalizing unread first r with
  | nil =>
    rw [readMembers, membersChars, List.nil_append,
      nextEntry_close '\x7d' first g rest (by decide)]
    rfl
  | cons m ms ih =>
    have hstops : Stops (m.value.after.chars
        ++ (membersChars false ms ++ (g.chars ++ '\x7d' :: rest))) :=
      m.value.after.stops (stops_membersChars ms (g.stops (stops_cons (by decide) rest)))
    have hchars : membersChars first (m :: ms) ++ (g.chars ++ '\x7d' :: rest)
        = (if first then [] else [',']) ++ (m.before.chars ++ (labelChars m.label ++ (m.after.chars
          ++ ':' :: (m.value.before.chars ++ (m.value.it.chars ++ (m.value.after.chars
            ++ (membersChars false ms ++ (g.chars ++ '\x7d' :: rest)))))))) := by
      simp [membersChars]
    rw [hchars, l.readMembers_member _ _ _ (names_label m.label) _ _ _ (m.value.it.solid.append _)]
    show m.name.bind _ = _
    rcases hname : m.name with e | name
    · rw [l.takeAll_fault hname]
      rfl
    · simp only [Except.bind]
      split
      · next hf =>
        rw [l.takeAll_refused hname hf]
        rfl
      · next f hf =>
        rw [l.takeAll_taken hname hf]
        simp only [Field.read_value (hflat f (List.mem_of_find?_eq_some hf)) r m.value.it hstops]
        rcases f.take r m.value.it with e | r'
        · rfl
        · refine (l.readMembers_blanks _ _ _ _ _).trans ?_
          exact ih _ (fun f hf => hflat f (List.mem_of_mem_eraseP hf)) false r'

/-! ### Arrays -/

/-- The record after some values, one for each field as far as they go. -/
def takeValues (r : ρ) : List (Field ρ) → List (Placed Value) → Except Fault ρ
  | f :: fs, v :: vs => (f.take r v.it).bind fun r => takeValues r fs vs
  | _, _ => .ok r

theorem stops_itemsChars (vs : List (Placed Value)) {rest : List Char} (h : Stops rest) :
    Stops (itemsChars false vs ++ rest) := by
  rcases vs with - | ⟨v, vs⟩
  · exact h
  · rw [itemsChars]
    exact stops_cons (by decide) _

/-- Reading the elements of an array is taking their values, where an array may
end early. -/
theorem readElements_written (l : Layout ρ α) (hshort : ∀ n, l.short n = none)
    (fs : List (Field ρ)) (hflat : ∀ f ∈ fs, f.Flat) (n : Nat) (r : ρ) (vs : List (Placed Value))
    (hlength : vs.length ≤ fs.length) (g : Blanks) (rest : List Char) :
    l.readElements n r (itemsChars (n == 0) vs ++ (g.chars ++ ']' :: rest)) fs
      = (takeValues r fs vs).map (·, rest) := by
  induction vs generalizing fs n r with
  | nil =>
    rw [itemsChars, List.nil_append]
    cases fs with
    | nil =>
      have hskip : Text.skipBlanks (g.chars ++ ']' :: rest) = ']' :: rest :=
        g.skip ⟨']', rest, rfl, by decide⟩
      rw [readElements, readArrayEnd, hskip]
      rfl
    | cons f fs =>
      simp only [readElements, nextEntry_close ']' (n == 0) g rest (by decide), hshort]
      rfl
  | cons v vs ih =>
    rcases fs with - | ⟨f, fs⟩
    · cases hlength
    · obtain ⟨c, tail, hv, hb, hne⟩ := v.it.exists_chars
      have hstops : Stops (v.after.chars ++ (itemsChars false vs ++ (g.chars ++ ']' :: rest))) :=
        v.after.stops (stops_itemsChars vs (g.stops (stops_cons (by decide) rest)))
      have hread := Field.read_value (hflat f List.mem_cons_self) r v.it hstops
      rw [hv, List.cons_append] at hread
      have hchars : itemsChars (n == 0) (v :: vs) ++ (g.chars ++ ']' :: rest)
          = (if n == 0 then [] else [',']) ++ (v.before.chars ++ c :: (tail ++ (v.after.chars
            ++ (itemsChars false vs ++ (g.chars ++ ']' :: rest))))) := by
        simp [itemsChars, hv]
      rw [hchars, l.readElements_element n r f fs _ hb hne, hread, takeValues]
      rcases f.take r v.it with e | r'
      · rfl
      · refine (l.readElements_blanks _ _ _ _ _).trans ?_
        exact ih fs (fun f hf => hflat f (List.mem_cons_of_mem _ hf)) (n + 1) r'
          (Nat.le_of_succ_le_succ hlength)

/-- An array is the object whose members have the names of the first fields in
their order. -/
theorem takeAll_of_order (l : Layout ρ α) (fs : List (Field ρ)) (r : ρ) {ms : List (Named Value)}
    {vs : List (Placed Value)} (hlength : vs.length ≤ fs.length)
    (hnames : ms.map Named.name = (fs.take vs.length).map (.ok ·.name))
    (hvalues : ms.map (·.value.it) = vs.map (·.it)) :
    l.takeAll fs r ms = takeValues r fs vs := by
  induction vs generalizing fs r ms with
  | nil =>
    obtain rfl : ms = [] := List.map_eq_nil_iff.mp hvalues
    cases fs <;> rfl
  | cons v vs ih =>
    rcases fs with - | ⟨f, fs⟩
    · cases hlength
    · rcases ms with - | ⟨m, ms⟩
      · cases hvalues
      · have hvalue : m.value.it = v.it := (List.cons.inj hvalues).1
        have hname : m.name = .ok f.name := (List.cons.inj hnames).1
        have hfind : (f :: fs).find? (·.name = f.name) = some f := by simp
        have herase : (f :: fs).eraseP (·.name = f.name) = fs := by simp
        rw [l.takeAll_taken hname hfind, herase, takeValues, hvalue]
        rcases f.take r v.it with e | r'
        · rfl
        · exact ih fs r' (Nat.le_of_succ_le_succ hlength) (List.cons.inj hnames).2
            (List.cons.inj hvalues).2

/-! ### Whole texts -/

end Layout

/-- A text that holds a value and blanks around it. -/
def document (before : Blanks) (v : Value) (after : Blanks) : String :=
  String.ofList (before.chars ++ (v.chars ++ after.chars))

namespace Layout

/-- What comes of a text that holds an object. -/
theorem read_document_object (l : Layout ρ α) (hflat : l.Flat) (before after inside : Blanks)
    (ms : List (Named Value)) :
    l.read (document before (.object ms inside) after)
      = (l.takeAll l.fields l.blank ms).bind fun r => ofData (l.finish r) := by
  have hchars : (Value.object ms inside).chars ++ after.chars
      = '\x7b' :: (membersChars true ms ++ (inside.chars ++ '\x7d' :: after.chars)) := by
    simp [Value.chars]
  refine l.read_of_record after ?_
  rw [readRecord, hchars, before.skip ⟨'\x7b', _, rfl, by decide⟩]
  simp only [readToken, l.readMembers_written l.fields hflat]
  exact l.finish_read _ _

/-- What comes of a text that holds an array, where it may end early. -/
theorem read_document_array (l : Layout ρ α) (hflat : l.Flat) (hshort : ∀ n, l.short n = none)
    (before after inside : Blanks) {vs : List (Placed Value)}
    (hlength : vs.length ≤ l.fields.length) :
    l.read (document before (.array vs inside) after)
      = (takeValues l.blank l.fields vs).bind fun r => ofData (l.finish r) := by
  have hchars : (Value.array vs inside).chars ++ after.chars
      = '[' :: (itemsChars true vs ++ (inside.chars ++ ']' :: after.chars)) := by
    simp [Value.chars]
  have helements := l.readElements_written hshort l.fields hflat 0 l.blank vs hlength inside
    after.chars
  rw [beq_self_eq_true] at helements
  refine l.read_of_record after ?_
  rw [readRecord, hchars, before.skip ⟨'[', _, rfl, by decide⟩]
  simp only [readToken, helements]
  exact l.finish_read _ _

end Layout

end SlotStates.Json
