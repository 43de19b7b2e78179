/-
SlotStates/Text/Hex.lean

Hexadecimal text of bytes.

Writing gives two lower-case digits a byte, the high half first.  Reading
takes digits of either case; `pack` puts digit values together two by two.
Reading what was written gives the bytes back (`values_encode`,
`pack_nibbles`).
-/

namespace SlotStates.Hex

/-- The digit for a value below sixteen. -/
def digit (n : Nat) : Char :=
  if n < 10 then Char.ofNat (48 + n) else Char.ofNat (87 + n)

/-- The value of a digit, in either case. -/
def value? (c : Char) : Option Nat :=
  if '0' ≤ c ∧ c ≤ '9' then some (c.toNat - 48)
  else if 'a' ≤ c ∧ c ≤ 'f' then some (c.toNat - 87)
  else if 'A' ≤ c ∧ c ≤ 'F' then some (c.toNat - 55)
  else none

/-- The two halves of each byte, the high one first. -/
def nibbles : List UInt8 → List Nat
  | [] => []
  | b :: bs => b.toNat / 16 :: b.toNat % 16 :: nibbles bs

/-- Bytes written in hexadecimal. -/
def encode (bs : List UInt8) : List Char := (nibbles bs).map digit

/-- Bytes from digit values, two digits a byte; a last single digit is
dropped. -/
def pack : List Nat → List UInt8
  | hi :: lo :: rest => UInt8.ofNat (16 * hi + lo) :: pack rest
  | _ => []

/-! ### Reading what was written -/

theorem value?_digit {n : Nat} (h : n < 16) : value? (digit n) = some n := by
  have key : ∀ n ∈ List.range 16, value? (digit n) = some n := by decide
  exact key n (List.mem_range.mpr h)

/-- A digit keeps its value as a capital. -/
theorem value?_toUpper {n : Nat} (h : n < 16) : value? (digit n).toUpper = some n := by
  have key : ∀ n ∈ List.range 16, value? (digit n).toUpper = some n := by decide
  exact key n (List.mem_range.mpr h)

/-- Digits are letters or figures, and so plain ASCII. -/
theorem range_of_value? {c : Char} {n : Nat} (h : value? c = some n) :
    0x30 ≤ c.toNat ∧ c.toNat ≤ 0x39 ∨ 0x61 ≤ c.toNat ∧ c.toNat ≤ 0x66
      ∨ 0x41 ≤ c.toNat ∧ c.toNat ≤ 0x46 := by
  rw [value?] at h
  split at h
  · next hc => exact .inl hc
  · split at h
    · next hc => exact .inr (.inl hc)
    · split at h
      · next hc => exact .inr (.inr hc)
      · cases h

/-- Where digits with given values stand, each character is a digit. -/
theorem exists_value?_of_mem {cs : List Char} {vs : List Nat}
    (h : cs.map value? = vs.map some) {c : Char} (hc : c ∈ cs) : ∃ v, value? c = some v := by
  have hm : value? c ∈ vs.map some := h ▸ List.mem_map_of_mem hc
  obtain ⟨v, -, hv⟩ := List.mem_map.mp hm
  exact ⟨v, hv.symm⟩

theorem nibbles_lt {bs : List UInt8} : ∀ n ∈ nibbles bs, n < 16 := by
  induction bs with
  | nil => simp [nibbles]
  | cons b bs ih =>
    intro n hn
    have := b.toNat_lt
    simp only [nibbles, List.mem_cons] at hn
    rcases hn with rfl | rfl | hn
    · omega
    · omega
    · exact ih n hn

theorem values_encode (bs : List UInt8) :
    (encode bs).map value? = (nibbles bs).map some := by
  rw [encode, List.map_map]
  apply List.map_congr_left
  intro n hn
  exact value?_digit (nibbles_lt n hn)

theorem pack_nibbles (bs : List UInt8) : pack (nibbles bs) = bs := by
  induction bs with
  | nil => rfl
  | cons b bs ih =>
    simp only [nibbles, pack, ih, Nat.div_add_mod, UInt8.ofNat_toNat]

theorem length_nibbles (bs : List UInt8) : (nibbles bs).length = 2 * bs.length := by
  induction bs with
  | nil => rfl
  | cons b bs ih => simp only [nibbles, List.length_cons, ih]; omega

end SlotStates.Hex
