/-
SlotStates/Queue/Cache.lean

A cache that knows which values were used last.

Entries are listed with the most recently used first.  Writing a value and
finding one by `promote` bring it to the front; looking with `find?` moves
nothing.  A write into a full cache drops the last entry.  Removing entries
leaves the order of the others as it was.

`find?` is the view through which the contents are described: the lemmas
below say what each operation does to it.
-/

namespace SlotStates

/-- Values under keys, the most recently used first. -/
structure Cache (κ ν : Type) where
  entries : List (κ × ν)
  deriving DecidableEq

namespace Cache

variable {κ ν : Type} [DecidableEq κ]

/-- A cache without values. -/
def empty : Cache κ ν := ⟨[]⟩

/-- The keys, the most recently used first. -/
def keys (c : Cache κ ν) : List κ := c.entries.map (·.1)

/-- How many values there are. -/
def size (c : Cache κ ν) : Nat := c.entries.length

/-- The value under a key. -/
def find? (c : Cache κ ν) (k : κ) : Option ν := c.entries.lookup k

/-- The cache without a key. -/
def erase (c : Cache κ ν) (k : κ) : Cache κ ν := ⟨c.entries.filter fun e => e.1 ≠ k⟩

/-- Makes a key the most recently used one, if it is there. -/
def promote (c : Cache κ ν) (k : κ) : Cache κ ν :=
  match c.find? k with
  | none => c
  | some v => ⟨(k, v) :: (c.erase k).entries⟩

/-- Writes a value and makes its key the most recently used one.  The entries
that no longer fit are dropped. -/
def put (c : Cache κ ν) (capacity : Nat) (k : κ) (v : ν) : Cache κ ν :=
  ⟨((k, v) :: (c.erase k).entries).take capacity⟩

/-- The cache without some keys. -/
def eraseAll (c : Cache κ ν) (ks : List κ) : Cache κ ν := ks.foldl erase c

/-! ### The operations and `find?` -/

@[simp] theorem find?_empty (k : κ) : (empty : Cache κ ν).find? k = none := rfl

theorem find?_cons (a : κ) (v : ν) (es : List (κ × ν)) (k : κ) :
    (⟨(a, v) :: es⟩ : Cache κ ν).find? k
      = if k = a then some v else (⟨es⟩ : Cache κ ν).find? k := by
  by_cases h : k = a
  · simp [find?, h]
  · have hb : (k == a) = false := beq_eq_false_iff_ne.mpr h
    simp [find?, List.lookup_cons, hb, h]

theorem find?_erase (c : Cache κ ν) (a k : κ) :
    (c.erase a).find? k = if k = a then none else c.find? k := by
  rcases c with ⟨es⟩
  induction es with
  | nil => simp [erase, find?]
  | cons e es ih =>
    rcases e with ⟨b, w⟩
    simp only [erase] at ih
    by_cases hb : b = a
    · subst hb
      simp only [erase, ne_eq, not_true_eq_false, decide_false, Bool.false_eq_true,
        not_false_eq_true, List.filter_cons_of_neg, ih, find?_cons]
      by_cases hk : k = b <;> simp [hk]
    · simp only [erase, ne_eq, hb, not_false_eq_true, decide_true, List.filter_cons_of_pos,
        find?_cons, ih]
      by_cases hk : k = a
      · subst hk; simp [Ne.symm hb]
      · simp [hk]

/-- Promoting a key changes no value. -/
theorem find?_promote (c : Cache κ ν) (a k : κ) : (c.promote a).find? k = c.find? k := by
  rcases h : c.find? a with - | v
  · simp [promote, h]
  · simp only [promote, h, find?_cons]
    by_cases hk : k = a
    · subst hk; simp [h]
    · rw [if_neg hk]
      exact (find?_erase c a k).trans (if_neg hk)

/-- Writing a value puts it under its key, whatever the capacity is as long as
there is one. -/
theorem find?_put_self (c : Cache κ ν) {capacity : Nat} (h : 0 < capacity) (k : κ) (v : ν) :
    (c.put capacity k v).find? k = some v := by
  rcases capacity with - | n
  · omega
  · simp [put, List.take_succ_cons, find?_cons]

/-- Where the entries fit, writing changes the value of one key only. -/
theorem find?_put_of_fits (c : Cache κ ν) {capacity : Nat} {k : κ}
    (h : (c.erase k).size < capacity) (v : ν) (a : κ) :
    (c.put capacity k v).find? a = if a = k then some v else c.find? a := by
  have hl : ((k, v) :: (c.erase k).entries).length ≤ capacity := by
    rw [List.length_cons]
    exact h
  rw [put, List.take_of_length_le hl, find?_cons]
  by_cases ha : a = k
  · simp [ha]
  · rw [if_neg ha, if_neg ha]
    exact (find?_erase c k a).trans (if_neg ha)

theorem size_put_le (c : Cache κ ν) (capacity : Nat) (k : κ) (v : ν) :
    (c.put capacity k v).size ≤ capacity := by
  simp only [put, size, List.length_take]
  omega

end Cache

end SlotStates
