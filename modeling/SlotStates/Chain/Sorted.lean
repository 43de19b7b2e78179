/-
SlotStates/Chain/Sorted.lean

Comparing and sorting by an order.

`sortDistinct` lists the different members of a list in ascending order.  It
inserts them one by one into a list that is already in strictly ascending
order, and leaves out what compares equal to a member.
-/

namespace SlotStates

variable {α : Type} [Ord α]

/-- The smaller of two values, the first if they are equal. -/
def lesser (a b : α) : α := if compare a b = .gt then b else a

/-- The greater of two values, the second if they are equal. -/
def greater (a b : α) : α := if compare a b = .gt then a else b

/-- Puts a value in its place in an ascending list, unless it is there. -/
def insertDistinct (a : α) : List α → List α
  | [] => [a]
  | b :: bs =>
    match compare a b with
    | .lt => a :: b :: bs
    | .eq => b :: bs
    | .gt => b :: insertDistinct a bs

/-- The different members of a list, ascending. -/
def sortDistinct (as : List α) : List α := as.foldr insertDistinct []

end SlotStates
