/-
SlotStates/Chain/Root.lean

Block roots.

A root is thirty-two bytes that name a block.  Roots are ordered as
big-endian byte strings and written as `0x` and sixty-four digits, so the
text of a root determines the root (`Root.hex_injective`).
-/
import SlotStates.Text.Hex

namespace SlotStates

/-- The root of a block. -/
structure Root where
  bytes : List UInt8
  length_bytes : bytes.length = 32
  deriving DecidableEq

namespace Root

/-- The root whose bytes are all `b`. -/
def repeating (b : UInt8) : Root where
  bytes := List.replicate 32 b
  length_bytes := List.length_replicate

/-- The root whose bytes are all zero. -/
def zero : Root := repeating 0

instance : Inhabited Root := ⟨zero⟩

/-- The root that starts with the given bytes, as far as they fit, and goes
on with zeros. -/
def padded (bs : List UInt8) : Root where
  bytes := (bs ++ List.replicate 32 0).take 32
  length_bytes := by simp

/-- Roots are ordered by their first byte, then by their second, and so on. -/
instance : Ord Root := ⟨fun a b => compare a.bytes b.bytes⟩

/-- The text of a root. -/
def hex (r : Root) : String := "0x" ++ String.ofList (Hex.encode r.bytes)

/-- A full list of bytes is not changed by padding. -/
theorem padded_bytes (r : Root) : padded r.bytes = r := by
  rcases r with ⟨bs, h⟩
  simp only [padded, mk.injEq]
  rw [List.take_append_of_le_length (by omega), List.take_of_length_le (by omega)]

theorem hex_toList (r : Root) : r.hex.toList = '0' :: 'x' :: Hex.encode r.bytes := by
  simp [hex, String.toList_append]

/-- Different roots have different texts. -/
theorem hex_injective {a b : Root} (h : a.hex = b.hex) : a = b := by
  have h' := congrArg String.toList h
  rw [hex_toList, hex_toList] at h'
  simp only [List.cons.injEq, true_and] at h'
  have hv := congrArg (List.map Hex.value?) h'
  rw [Hex.values_encode, Hex.values_encode] at hv
  have hn : Hex.nibbles a.bytes = Hex.nibbles b.bytes :=
    (List.map_inj_right fun _ _ e => Option.some.inj e).mp hv
  have hb := congrArg Hex.pack hn
  rw [Hex.pack_nibbles, Hex.pack_nibbles] at hb
  rcases a with ⟨as, ha⟩
  rcases b with ⟨bs, hb'⟩
  simp only [mk.injEq]
  exact hb

end Root

end SlotStates
