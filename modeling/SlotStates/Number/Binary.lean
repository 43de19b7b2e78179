/-
SlotStates/Number/Binary.lean

Whole numbers as seen through the double format.

A double keeps fifty-three binary digits.  `nearest` is the whole number that
a whole number becomes on its way through a double: itself, if it has no more
digits than that (`nearest_of_log2_le`), and otherwise the nearest multiple of
the unit in the last place, with ties going to the even multiple
(`dvd_roundTo`, `roundTo_near`, `roundTo_tie`).  Doubles end below `limit`; a
result that rounds to `limit` or more is out of range.
-/

namespace SlotStates.Binary

/-- The unit in the last place of a double near `n`. -/
def unit (n : Nat) : Nat := 1 <<< (n.log2 - 52)

/-- The multiple of `u` nearest to `n`; of two at the same distance, the even
one. -/
def roundTo (u n : Nat) : Nat :=
  let q := n / u
  let r := n % u
  let up := u < 2 * r || (u == 2 * r && q % 2 == 1)
  (if up then q + 1 else q) * u

/-- The double nearest to `n`. -/
def nearest (n : Nat) : Nat := roundTo (unit n) n

/-- The least power of two that is too great for a double. -/
def limit : Nat := 1 <<< 1024

/-! ### What rounding does -/

/-- Rounding gives a multiple of the unit. -/
theorem dvd_roundTo (u n : Nat) : u ∣ roundTo u n := ⟨_, Nat.mul_comm _ u⟩

/-- Rounding moves a number by half a unit at most. -/
theorem roundTo_near {u : Nat} (h : 0 < u) (n : Nat) :
    2 * n ≤ 2 * roundTo u n + u ∧ 2 * roundTo u n ≤ 2 * n + u := by
  have hn : n / u * u + n % u = n := by rw [Nat.mul_comm]; exact Nat.div_add_mod n u
  have hr : n % u < u := Nat.mod_lt n h
  simp only [roundTo, Bool.or_eq_true, Bool.and_eq_true, decide_eq_true_eq, beq_iff_eq]
  split
  · rw [Nat.add_mul]; omega
  · omega

/-- Half way between two multiples of the unit the even one is taken. -/
theorem roundTo_tie {u n : Nat} (h : u = 2 * (n % u)) :
    roundTo u n = (n / u + n / u % 2) * u := by
  have hu : ¬ u < 2 * (n % u) := by omega
  simp only [roundTo, Bool.or_eq_true, Bool.and_eq_true, decide_eq_true_eq, beq_iff_eq]
  split
  · next hq => rw [(hq.resolve_left hu).2]
  · next hq =>
    have h0 : n / u % 2 = 0 := by omega
    rw [h0, Nat.add_zero]

/-- Numbers of at most fifty-three binary digits are doubles. -/
theorem nearest_of_log2_le {n : Nat} (h : n.log2 ≤ 52) : nearest n = n := by
  have hl : n.log2 - 52 = 0 := by omega
  simp [nearest, unit, hl, roundTo, Nat.mod_one]

end SlotStates.Binary
