/-
SlotStates/Json/Record.lean

Reading records.

A record has named fields in a fixed order.  It is written as an object whose
members come in any order, or as an array of the fields' values in theirs.
A `Layout` says which fields there are and what becomes of their tokens;
`Layout.read` reads a whole text that holds one record and nothing else.

An object is read member by member.  A name that is unknown, or was there
before, ends the reading at once; otherwise the member's value does, if its
field does not accept it.  Only when the closing brace is reached is it asked
whether all is there.  The fields not yet read shrink with each member, so
the reading ends.
-/
import SlotStates.Json.Token

namespace SlotStates.Json

/-- A field of a record under construction: its name, and how a token changes
the record. -/
structure Field (ρ : Type) where
  name : String
  accept : Token → ρ → Except DataFault ρ

/-- How records of type `α` are written. -/
structure Layout (ρ α : Type) where
  /-- What a record is called in messages. -/
  title : String
  /-- The fields in the order of an array. -/
  fields : List (Field ρ)
  /-- The record before any field is read. -/
  blank : ρ
  /-- What an array that ends after `n` fields amounts to. -/
  short : Nat → Option DataFault
  /-- The finished record. -/
  finish : ρ → Except DataFault α

variable {ρ α : Type}

/-- A result on data, as a result on text. -/
def ofData (x : Except DataFault α) : Except Fault α := x.mapError .data

/-- What follows a colon and the blanks around it. -/
def afterColon (cs : List Char) : Except Fault (List Char) :=
  match Text.skipBlanks cs with
  | [] => .error .unfinished
  | c :: rest => if c = ':' then .ok (Text.skipBlanks rest) else .error .malformed

/-- The text from the next item of a list on, or from behind the bracket that
closes it.  Items are parted by commas; no comma precedes the first. -/
inductive Entry
  | item (rest : List Char)
  | close (rest : List Char)

/-- The next entry of a list that `closing` ends. -/
def nextEntry (closing : Char) (first : Bool) (cs : List Char) : Except Fault Entry :=
  match Text.skipBlanks cs with
  | [] => .error .unfinished
  | c :: rest =>
    if c = closing then .ok (.close rest)
    else if first then .ok (.item (c :: rest))
    else if c = ',' then
      match Text.skipBlanks rest with
      | [] => .error .unfinished
      | d :: tail => if d = closing then .error .malformed else .ok (.item (d :: tail))
    else .error .malformed

/-- The name of a member, and what follows it. -/
def readName (cs : List Char) : Except Fault (String × List Char) :=
  match cs with
  | '"' :: rest => (readText rest).map fun (s, tail) => (String.ofList s, tail)
  | _ => .error .malformed

/-- Taking out the first member that satisfies a test shortens a list. -/
theorem length_eraseP_lt {α : Type} {p : α → Bool} {as : List α} {a : α}
    (h : as.find? p = some a) : (as.eraseP p).length < as.length := by
  have hm := List.mem_of_find?_eq_some h
  rw [List.length_eraseP_of_mem hm (List.find?_some h)]
  have := List.length_pos_of_mem hm
  omega

namespace Layout

/-- The names of the fields. -/
def names (l : Layout ρ α) : List String := l.fields.map (·.name)

/-- The fault of a name that belongs to none of the fields not yet read. -/
def nameFault (l : Layout ρ α) (name : String) : DataFault :=
  if name ∈ l.names then .duplicateField name else .unknownField name l.names

/-- The members of an object up to its closing brace. -/
def readMembers (l : Layout ρ α) (unread : List (Field ρ)) (first : Bool) (r : ρ)
    (cs : List Char) : Except Fault (ρ × List Char) :=
  match nextEntry '\x7d' first cs with
  | .error e => .error e
  | .ok (.close rest) => .ok (r, rest)
  | .ok (.item rest) =>
    match readName rest with
    | .error e => .error e
    | .ok (name, rest) =>
      match h : unread.find? (·.name = name) with
      | none => .error (.data (l.nameFault name))
      | some f =>
        match afterColon rest with
        | .error e => .error e
        | .ok rest =>
          match readToken rest with
          | .error e => .error e
          | .ok (t, rest) =>
            match f.accept t r with
            | .error e => .error (.data e)
            | .ok r =>
              have := length_eraseP_lt h
              readMembers l (unread.eraseP (·.name = name)) false r rest
termination_by unread.length

/-- The closing bracket of an array that is complete. -/
def readArrayEnd (cs : List Char) : Except Fault (List Char) :=
  match Text.skipBlanks cs with
  | [] => .error .unfinished
  | c :: rest => if c = ']' then .ok rest else .error .malformed

/-- The elements of an array, `n` of them having been read, up to its closing
bracket. -/
def readElements (l : Layout ρ α) (n : Nat) (r : ρ) (cs : List Char) :
    List (Field ρ) → Except Fault (ρ × List Char)
  | [] => (readArrayEnd cs).map fun rest => (r, rest)
  | f :: fs =>
    match nextEntry ']' (n == 0) cs with
    | .error e => .error e
    | .ok (.close rest) =>
      match l.short n with
      | some fault => .error (.data fault)
      | none => .ok (r, rest)
    | .ok (.item rest) =>
      match readToken rest with
      | .error e => .error e
      | .ok (t, rest) =>
        match f.accept t r with
        | .error e => .error (.data e)
        | .ok r => readElements l (n + 1) r rest fs

/-- The record that a text starts with. -/
def readRecord (l : Layout ρ α) (cs : List Char) : Except Fault (α × List Char) :=
  match readToken (Text.skipBlanks cs) with
  | .error e => .error e
  | .ok (.openObject, rest) => do
    let (r, rest) ← l.readMembers l.fields true l.blank rest
    let a ← ofData (l.finish r)
    return (a, rest)
  | .ok (.openArray, rest) => do
    let (r, rest) ← l.readElements 0 l.blank rest l.fields
    let a ← ofData (l.finish r)
    return (a, rest)
  | .ok (t, _) => .error (.data (.wrongType t l.title))

/-- The record that a text holds. -/
def read (l : Layout ρ α) (text : String) : Except Fault α := do
  let (a, rest) ← l.readRecord text.toList
  if Text.skipBlanks rest = [] then return a else .error .malformed

end Layout

end SlotStates.Json
