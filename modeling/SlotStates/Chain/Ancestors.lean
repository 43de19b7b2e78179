/-
SlotStates/Chain/Ancestors.lean

The keys below a key: the same block at each earlier slot, nearest first.

An `Ancestors` value is a cursor over those keys.  It is lazy: all it holds is
the root and the number of keys still to come, which is also the bound that
all slots to come are below.  The single step is `next?`; the others move by
arithmetic to where repeated single steps would arrive, so a jump costs no
more than a step.  `get?` looks ahead without moving, and describes a cursor
completely: `next?` returns `get? 0` and leaves the rest (`get?_next`).
-/
import SlotStates.Chain.StateKey

namespace SlotStates

/-- A cursor over the keys of one block at the slots below a bound, the
highest slot first. -/
structure Ancestors where
  root : Root
  bound : Slot
  deriving DecidableEq, Inhabited

namespace Ancestors

/-- The keys below `k`, none of them passed yet. -/
def below (k : StateKey) : Ancestors := ⟨k.root, k.slot⟩

/-- How many keys are still to come. -/
def size (a : Ancestors) : Nat := a.bound.toNat

/-- The cursor with `n` keys still to come. -/
def withSize (a : Ancestors) (n : Nat) : Ancestors := { a with bound := UInt64.ofNat n }

/-- The key that `i` others precede, if there are that many. -/
def get? (a : Ancestors) (i : Nat) : Option StateKey :=
  (Word.below? a.bound i).map fun s => ⟨s, a.root⟩

/-- Passes one key. -/
def next? (a : Ancestors) : Option (StateKey × Ancestors) :=
  if a.bound = 0 then none
  else some (⟨a.bound - 1, a.root⟩, { a with bound := a.bound - 1 })

/-- Passes up to `n` keys and lists them. -/
def take (a : Ancestors) : Nat → List StateKey × Ancestors
  | 0 => ([], a)
  | n + 1 =>
    match a.next? with
    | none => ([], a)
    | some (k, rest) =>
      let (ks, last) := rest.take n
      (k :: ks, last)

/-- Passes `n` keys and then one more, which is the answer. -/
def nth (a : Ancestors) (n : Nat) : Option StateKey × Ancestors :=
  (a.get? n, a.withSize (a.size - 1 - n))

/-- Passes keys up to and including the one at slot `s`; all of them if it is
not ahead. -/
def find (a : Ancestors) (s : Slot) : Option StateKey × Ancestors :=
  if s < a.bound then (some ⟨s, a.root⟩, { a with bound := s })
  else (none, { a with bound := 0 })

/-- The last key to come: the one at genesis. -/
def last? (a : Ancestors) : Option StateKey :=
  if a.bound = 0 then none else some ⟨0, a.root⟩

/-- The fields of a cursor on one line. -/
def debug (a : Ancestors) : String :=
  "BackwardSteps \x7b block_root: " ++ a.root.hex ++ ", slots: 0.."
    ++ Word.decimal a.bound ++ " \x7d"

/-! ### Looking ahead and stepping -/

theorem size_le (a : Ancestors) : a.size ≤ Word.greatest := Word.toNat_le_greatest a.bound

theorem size_withSize {a : Ancestors} {n : Nat} (h : n ≤ a.size) :
    (a.withSize n).size = n := by
  exact UInt64.toNat_ofNat_of_lt' (Nat.lt_of_le_of_lt h a.bound.toNat_lt)

theorem next?_eq_none_iff (a : Ancestors) : a.next? = none ↔ a.size = 0 := by
  rw [next?, size, ← UInt64.toNat_zero, UInt64.toNat_inj]
  split <;> simp_all

/-- A step returns the key at the slot right below the bound, and lowers the
bound to it. -/
theorem next?_eq_some {a b : Ancestors} {k : StateKey} (h : a.next? = some (k, b)) :
    a.bound ≠ 0 ∧ k = ⟨a.bound - 1, a.root⟩ ∧ b = ⟨a.root, a.bound - 1⟩ := by
  rw [next?] at h
  split at h
  · cases h
  · next hb =>
    simp only [Option.some.injEq, Prod.mk.injEq] at h
    exact ⟨hb, h.1.symm, h.2.symm⟩

/-- A step leaves one key fewer to come. -/
theorem size_next {a b : Ancestors} {k : StateKey} (h : a.next? = some (k, b)) :
    a.size = b.size + 1 := by
  rcases next?_eq_some h with ⟨hb, -, rfl⟩
  exact (Word.toNat_sub_one hb).symm

/-- What a cursor looks at are keys of its root below its bound. -/
theorem get?_eq_some {a : Ancestors} {i : Nat} {k : StateKey} (h : a.get? i = some k) :
    k.root = a.root ∧ k.slot < a.bound := by
  obtain ⟨slot, hs, rfl⟩ := Option.map_eq_some_iff.mp h
  exact ⟨rfl, Word.below?_lt hs⟩

/-- The step from a cursor returns the key it looks at first. -/
theorem get?_zero (a : Ancestors) : a.get? 0 = a.next?.map (·.1) := by
  by_cases hb : a.bound = 0
  · simp [get?, next?, hb, Word.below?_zero]
  · simp [get?, next?, hb, Word.below?_first hb]

/-- What a cursor looks at beyond its first key is what it looks at after a
step. -/
theorem get?_next {a b : Ancestors} {k : StateKey} (h : a.next? = some (k, b)) (i : Nat) :
    a.get? (i + 1) = b.get? i := by
  rcases next?_eq_some h with ⟨hb, -, rfl⟩
  simp only [get?, Word.below?_succ hb]

end Ancestors

end SlotStates
