/-
SlotStates/Scenario/Cursors.lean

Playing moves on cursors over the ancestors of a key.

A play starts with one cursor and may copy any of them; each move names the
cursor it is made on.  Moves that pass keys change that cursor only, moves
that count or look change none.
-/
import SlotStates.Chain.Ancestors

namespace SlotStates.Cursors

/-- What can be done with a cursor. -/
inductive Move
  | next
  | take (n : Nat)
  | nth (n : Nat)
  | sizeHint
  | count
  | last
  | find (slot : Slot)
  | debug

/-- What a move tells. -/
inductive Answer
  | key (k : Option StateKey)
  | keys (ks : List StateKey)
  | bounds (lower upper : Nat)
  | number (n : Nat)
  | text (s : String)

/-- A move on one cursor: the answer and the cursor afterwards. -/
def onCursor (a : Ancestors) : Move → Answer × Ancestors
  | .next =>
    match a.next? with
    | none => (.key none, a)
    | some (k, rest) => (.key (some k), rest)
  | .take n => let (ks, rest) := a.take n; (.keys ks, rest)
  | .nth n => let (k, rest) := a.nth n; (.key k, rest)
  | .find s => let (k, rest) := a.find s; (.key k, rest)
  | .sizeHint => (.bounds a.size a.size, a)
  | .count => (.number a.size, a)
  | .last => (.key a.last?, a)
  | .debug => (.text a.debug, a)

/-- A move on cursor `i` of a list; nothing if there is no such cursor. -/
def step (cursors : List Ancestors) (i : Nat) (move : Move) :
    Option (Answer × List Ancestors) :=
  cursors[i]?.map fun a =>
    let (answer, b) := onCursor a move
    (answer, cursors.set i b)

/-- Adds a copy of cursor `i` at the end of a list and tells its place there;
nothing if there is no such cursor. -/
def copy (cursors : List Ancestors) (i : Nat) : Option (Nat × List Ancestors) :=
  cursors[i]?.map fun a => (cursors.length, cursors ++ [a])

end SlotStates.Cursors
