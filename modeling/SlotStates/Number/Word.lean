/-
SlotStates/Number/Word.lean

Saturation at the ends of the range of 64-bit words.

Slots, epochs and sizes are words.  No operation on them wraps: one whose
exact result may leave the range is computed on `Nat` or `Int` and brought
back by `saturate`, which sends every number to the nearest word
(`saturate_toNat`, `saturateInt_toNat`).
-/

namespace SlotStates.Word

/-- The greatest word. -/
def greatest : Nat := 0xffffffffffffffff

/-- The greatest number whose negative is a signed word. -/
def greatestNegative : Nat := 0x8000000000000000

/-- The word nearest to `n`. -/
def saturate (n : Nat) : UInt64 := UInt64.ofNat (min n greatest)

/-- The word nearest to `i`: zero for negative numbers. -/
def saturateInt (i : Int) : UInt64 := saturate i.toNat

/-- The word below `w` that `i` greater ones precede, if there are that many. -/
def below? (w : UInt64) (i : Nat) : Option UInt64 :=
  if i < w.toNat then some (UInt64.ofNat (w.toNat - 1 - i)) else none

/-- The decimal digits of a word. -/
def decimal (w : UInt64) : String := Nat.repr w.toNat

theorem toNat_le_greatest (w : UInt64) : w.toNat ≤ greatest :=
  Nat.le_of_lt_succ w.toNat_lt

theorem saturate_toNat (n : Nat) : (saturate n).toNat = min n greatest := by
  have h : min n greatest < UInt64.size := by
    simp only [greatest, UInt64.size]; omega
  simp [saturate, UInt64.toNat_ofNat_of_lt' h]

theorem saturateInt_toNat (i : Int) : (saturateInt i).toNat = min i.toNat greatest :=
  saturate_toNat i.toNat

/-- Words are their own nearest words. -/
theorem saturate_of_word (w : UInt64) : saturate w.toNat = w := by
  apply UInt64.toNat_inj.mp
  rw [saturate_toNat, Nat.min_eq_left (toNat_le_greatest w)]

/-! ### Words below a word -/

theorem below?_eq_none_iff (w : UInt64) (i : Nat) : below? w i = none ↔ w.toNat ≤ i := by
  simp [below?]

theorem below?_zero (i : Nat) : below? 0 i = none := by simp [below?]

/-- The word that `i` others precede below `w` is as far below it. -/
theorem below?_eq_some_iff {w s : UInt64} {i : Nat} :
    below? w i = some s ↔ i + 1 + s.toNat = w.toNat := by
  have hw := w.toNat_lt
  simp only [below?, Option.ite_none_right_eq_some, Option.some.injEq, ← UInt64.toNat_inj,
    UInt64.toNat_ofNat']
  omega

/-- Words below a word are below it. -/
theorem below?_lt {w s : UInt64} {i : Nat} (h : below? w i = some s) : s < w := by
  simp only [below?, Option.ite_none_right_eq_some, Option.some.injEq] at h
  obtain ⟨hi, rfl⟩ := h
  have hw := w.toNat_lt
  rw [UInt64.lt_iff_toNat_lt, UInt64.toNat_ofNat_of_lt' (by simp only [UInt64.size]; omega)]
  omega

/-- A word that is not zero has a word right below it. -/
theorem toNat_sub_one {w : UInt64} (h : w ≠ 0) : (w - 1).toNat + 1 = w.toNat := by
  have h0 : w.toNat ≠ 0 := fun e => h (UInt64.toNat_inj.mp e)
  have h1 : (1 : UInt64).toNat = 1 := rfl
  have hle : (1 : UInt64) ≤ w := by
    rw [UInt64.le_iff_toNat_le, h1]
    omega
  rw [UInt64.toNat_sub_of_le _ _ hle, h1]
  omega

/-- The first word below `w` is the one right below it. -/
theorem below?_first {w : UInt64} (h : w ≠ 0) : below? w 0 = some (w - 1) := by
  have hs := toNat_sub_one h
  rw [below?, if_pos (by omega)]
  congr 1
  rw [← hs, Nat.add_sub_cancel, Nat.sub_zero]
  exact UInt64.ofNat_toNat

/-- The words below `w` after the first are those below the first. -/
theorem below?_succ {w : UInt64} (h : w ≠ 0) (i : Nat) :
    below? w (i + 1) = below? (w - 1) i := by
  have hs := toNat_sub_one h
  simp only [below?]
  rw [← hs]
  simp only [Nat.add_lt_add_iff_right, Nat.add_sub_cancel]
  congr 3
  omega

end SlotStates.Word
