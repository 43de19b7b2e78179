/-
SlotStates/Proofs/Chain/KeyTexts.lean

A key can be told from each of its texts.

The digits of a slot may be few or many, so a text that shows a slot cannot be
cut by counting characters from that side.  But the text of a root always takes
sixty-six, and the words around both are the same for all keys.  So it is cut
from the other side, and what is left are the digits of the slot.
-/
import SlotStates.Chain.StateKey

namespace SlotStates

/-! ### Texts put together -/

namespace Text

theorem framed_inj (before after : String) {s t : String} :
    before ++ s ++ after = before ++ t ++ after ↔ s = t := by
  rw [String.append_left_inj, String.append_right_inj]

/-- Two texts are put together in one way only, if the length of the first is
known. -/
theorem append_inj_of_left {s s' t t' : String} (h : s.length = s'.length) :
    s ++ t = s' ++ t' ↔ s = s' ∧ t = t' := by
  refine ⟨fun he => ?_, fun ⟨hs, ht⟩ => by rw [hs, ht]⟩
  rw [← String.toList_inj, String.toList_append, String.toList_append] at he
  have hl : s.toList.length = s'.toList.length := by
    rw [String.length_toList, String.length_toList, h]
  obtain ⟨hs, ht⟩ := List.append_inj he hl
  exact ⟨String.toList_inj.mp hs, String.toList_inj.mp ht⟩

/-- Two texts are put together in one way only, if the length of the second is
known. -/
theorem append_inj_of_right {s s' t t' : String} (h : t.length = t'.length) :
    s ++ t = s' ++ t' ↔ s = s' ∧ t = t' := by
  refine ⟨fun he => ?_, fun ⟨hs, ht⟩ => by rw [hs, ht]⟩
  have hl := congrArg String.length he
  rw [String.length_append, String.length_append] at hl
  exact (append_inj_of_left (by omega)).mp he

end Text

theorem Word.decimal_inj {v w : UInt64} : decimal v = decimal w ↔ v = w := by
  refine ⟨fun h => ?_, congrArg decimal⟩
  have hdigits : Nat.toDigits 10 v.toNat = Nat.toDigits 10 w.toNat := by
    rw [← Nat.toList_repr, ← Nat.toList_repr]
    exact congrArg String.toList h
  -- the digits of a number have its value
  have hvalue := congrArg (Nat.ofDigitChars 10 · 0) hdigits
  simp only [Nat.ofDigitChars_ten_toDigits] at hvalue
  exact UInt64.toNat_inj.mp hvalue

/-- All texts of roots are of one length. -/
theorem Root.length_hex (r : Root) : r.hex.length = 66 := by
  rw [← String.length_toList, hex_toList]
  simp [Hex.encode, Hex.length_nibbles, r.length_bytes]

theorem Root.hex_inj {a b : Root} : a.hex = b.hex ↔ a = b :=
  ⟨hex_injective, congrArg hex⟩

/-! ### The texts of a key -/

namespace StateKey

theorem display_inj {a b : StateKey} : a.display = b.display ↔ a = b := by
  obtain ⟨slot, root⟩ := a
  obtain ⟨slot', root'⟩ := b
  have hl : (root.hex ++ " at slot ").length = (root'.hex ++ " at slot ").length := by
    rw [String.length_append, String.length_append, Root.length_hex, Root.length_hex]
  rw [display, display, Text.append_inj_of_left hl, String.append_left_inj, Root.hex_inj,
    Word.decimal_inj, mk.injEq, and_comm]

/-- Keys can be told from a text that shows the slot and then the root, whatever
words stand around them. -/
theorem fields_inj (before between after : String) {a b : StateKey} :
    before ++ Word.decimal a.slot ++ between ++ a.root.hex ++ after
        = before ++ Word.decimal b.slot ++ between ++ b.root.hex ++ after
      ↔ a = b := by
  obtain ⟨slot, root⟩ := a
  obtain ⟨slot', root'⟩ := b
  have hl : root.hex.length = root'.hex.length := by rw [Root.length_hex, Root.length_hex]
  rw [String.append_left_inj, Text.append_inj_of_right hl, String.append_left_inj,
    String.append_right_inj, Root.hex_inj, Word.decimal_inj, mk.injEq]

theorem debug_inj {a b : StateKey} : a.debug = b.debug ↔ a = b := fields_inj _ _ _

theorem pretty_inj {a b : StateKey} : a.pretty = b.pretty ↔ a = b := fields_inj _ _ _

end StateKey

end SlotStates
