/-
SlotStates/Chain/RootText.lean

Reading the root of a block from text.

One leading `0x` is left out.  What remains must take sixty-four bytes.  Its
digits, of either case, are collected from the left, two a byte; blanks
between them are passed over, which leaves fewer digits than bytes to fill,
and the missing ones are zero.  Any other character is a fault, and is
reported by its first byte and the place of that byte in the text.

Any sixty-four digits with the values of a root's own stand for this root
(`ofDigits_of_values`, `ofText_of_values`), and so the text that a root is
written as reads back (`ofText_hex`).
-/
import SlotStates.Chain.Root
import SlotStates.Text.Bytes

namespace SlotStates

/-- Why a text is not a root. -/
inductive RootFault
  | length (bytes : Nat)
  | digit (found : Char) (index : Nat)
  deriving DecidableEq, Repr

namespace Root

/-- The values of the digits of a text whose first byte stands at `index`. -/
def digitValues (index : Nat) : List Char → Except RootFault (List Nat)
  | [] => .ok []
  | c :: cs =>
    match Hex.value? c with
    | some v => (digitValues (index + 1) cs).map (v :: ·)
    | none =>
      if Text.isBlank c then digitValues (index + 1) cs
      else .error (.digit (Text.firstByte c) index)

/-- The root that digits starting at `index` stand for. -/
def ofDigits (index : Nat) (cs : List Char) : Except RootFault Root :=
  if Text.byteLength cs = 64 then
    (digitValues index cs).map fun vs => padded (Hex.pack vs)
  else .error (.length (Text.byteLength cs))

/-- The root that a text stands for. -/
def ofText : List Char → Except RootFault Root
  | '0' :: 'x' :: cs => ofDigits 2 cs
  | cs => ofDigits 0 cs

/-! ### Reading a written root -/

/-- Digits in either case are read as their values. -/
theorem digitValues_of_values (index : Nat) {cs : List Char} {vs : List Nat}
    (h : cs.map Hex.value? = vs.map some) : digitValues index cs = .ok vs := by
  induction cs generalizing index vs with
  | nil =>
    obtain rfl : vs = [] := List.map_eq_nil_iff.mp h.symm
    rfl
  | cons c cs ih =>
    obtain ⟨v, vs, rfl, hc, hcs⟩ := List.map_eq_cons_iff.mp h.symm
    have ht := ih (index + 1) hcs.symm
    simp only [digitValues, ← hc, ht, Except.map]

/-- Digits take a byte each. -/
theorem byteLength_of_values {cs : List Char} {vs : List Nat}
    (h : cs.map Hex.value? = vs.map some) : Text.byteLength cs = vs.length := by
  have hl : cs.length = vs.length := by simpa using congrArg List.length h
  rw [← hl]
  refine Text.byteLength_of_ascii fun c hc => ?_
  obtain ⟨v, hv⟩ := Hex.exists_value?_of_mem h hc
  have := Hex.range_of_value? hv
  show c.toNat ≤ 0x7f
  omega

/-- Sixty-four digits with the values of a root's own stand for this root. -/
theorem ofDigits_of_values (index : Nat) {r : Root} {cs : List Char}
    (h : cs.map Hex.value? = (Hex.nibbles r.bytes).map some) : ofDigits index cs = .ok r := by
  have hl : Text.byteLength cs = 64 := by
    rw [byteLength_of_values h, Hex.length_nibbles, r.length_bytes]
  simp only [ofDigits, hl, if_true, digitValues_of_values index h, Except.map, Hex.pack_nibbles,
    padded_bytes]

/-- The digits of a root stand for it without `0x`, too. -/
theorem ofText_of_values {r : Root} {cs : List Char}
    (h : cs.map Hex.value? = (Hex.nibbles r.bytes).map some) : ofText cs = .ok r := by
  unfold ofText
  split
  · next cs =>
    -- an `x` is no digit
    obtain ⟨v, hv⟩ := Hex.exists_value?_of_mem h (List.mem_cons_of_mem '0' List.mem_cons_self)
    exact absurd hv (by simp [Hex.value?])
  · exact ofDigits_of_values 0 h

/-- Reading the text of a root gives the root. -/
theorem ofText_hex (r : Root) : ofText r.hex.toList = .ok r := by
  rw [hex_toList]
  exact ofDigits_of_values 2 (Hex.values_encode r.bytes)

end Root

end SlotStates
