/-
SlotStates/Proofs/Chain/Epochs.lean

Epochs and their first slots.

The slots of an epoch are counted from its number times the length of an epoch.
For all epochs up to `lastEpoch` this is a word, and going from an epoch to its
first slot and back leads to the epoch (`epochAt_startOf`).  Later epochs have
no first slot: the arithmetic stops at the last slot there is.

Seen from a slot nothing is lost: its epoch always has a first slot, and this
one and the place within the epoch add up to the slot (`startOf_epochAt_toNat`).
All this holds for epochs of any length.

Whether an epoch has a first slot can be seen from the slot that was computed
for it if the last slot there is starts no epoch, that is, if the length does
not divide its number.  Then a computed slot is the first of an epoch exactly
if the epoch has one (`isEpochStart_startOf_iff`), and two epochs get the same
slot only if neither has one (`startOf_eq_iff`).  The number of the last slot is
odd, so that this is so for every even length (`greatest_mod_ne_zero_of_even`),
and those of the presets are even.

The main result, `epochs_invert_up_to_saturation`, says how far the two
directions are inverse to each other.
-/
import Mathlib.Data.Set.Function
import SlotStates.Chain.Checkpoint

namespace SlotStates

namespace EpochLength

/-- The number of the last epoch that has a first slot. -/
def lastEpoch (N : EpochLength) : Nat := Word.greatest / N.slots.toNat

theorem le_lastEpoch_iff (N : EpochLength) (n : Nat) :
    n ≤ N.lastEpoch ↔ n * N.slots.toNat ≤ Word.greatest :=
  Nat.le_div_iff_mul_le N.pos

theorem startOf_toNat_of_le {N : EpochLength} {e : Epoch} (h : e.toNat ≤ N.lastEpoch) :
    (N.startOf e).toNat = e.toNat * N.slots.toNat := by
  rw [startOf_toNat, Nat.min_eq_left ((N.le_lastEpoch_iff _).mp h)]

theorem startOf_toNat_of_lt {N : EpochLength} {e : Epoch} (h : N.lastEpoch < e.toNat) :
    (N.startOf e).toNat = Word.greatest := by
  have hlt : Word.greatest < e.toNat * N.slots.toNat :=
    Nat.lt_of_not_le fun hle => Nat.not_le_of_lt h ((N.le_lastEpoch_iff _).mpr hle)
  rw [startOf_toNat, Nat.min_eq_right (Nat.le_of_lt hlt)]

/-- The slot that starts an epoch is counted from the number of its epoch times
the length of one. -/
theorem toNat_of_isEpochStart {N : EpochLength} {s : Slot} (h : N.isEpochStart s = true) :
    s.toNat = (N.epochAt s).toNat * N.slots.toNat := by
  rw [epochAt_toNat, Nat.div_mul_cancel (Nat.dvd_of_mod_eq_zero ((isEpochStart_iff N s).mp h))]

/-! ### From a slot to its epoch and back -/

/-- The epoch of a slot has a first slot. -/
theorem epochAt_le_lastEpoch (N : EpochLength) (s : Slot) : (N.epochAt s).toNat ≤ N.lastEpoch := by
  rw [epochAt_toNat]
  exact Nat.div_le_div_right (Word.toNat_le_greatest s)

theorem slotsSinceStart_lt (N : EpochLength) (s : Slot) :
    (N.slotsSinceStart s).toNat < N.slots.toNat := by
  rw [slotsSinceStart_toNat]
  exact Nat.mod_lt _ N.pos

/-- A slot comes after the first slot of its epoch by its place within the
epoch. -/
theorem startOf_epochAt_toNat (N : EpochLength) (s : Slot) :
    (N.startOf (N.epochAt s)).toNat + (N.slotsSinceStart s).toNat = s.toNat := by
  rw [startOf_toNat_of_le (N.epochAt_le_lastEpoch s), epochAt_toNat, slotsSinceStart_toNat]
  exact Nat.div_add_mod' s.toNat N.slots.toNat

theorem startOf_epochAt_add (N : EpochLength) (s : Slot) :
    N.startOf (N.epochAt s) + N.slotsSinceStart s = s := by
  apply UInt64.toNat_inj.mp
  -- the exact sum is a slot, so that adding words does not wrap
  rw [UInt64.toNat_add, startOf_epochAt_toNat, Nat.mod_eq_of_lt s.toNat_lt]

theorem isEpochStart_iff_eq_startOf (N : EpochLength) (s : Slot) :
    N.isEpochStart s = true ↔ s = N.startOf (N.epochAt s) := by
  have hs := N.startOf_epochAt_toNat s
  rw [isEpochStart_iff, ← slotsSinceStart_toNat, ← UInt64.toNat_inj]
  omega

theorem isEpochStart_startOf_of_le {N : EpochLength} {e : Epoch} (h : e.toNat ≤ N.lastEpoch) :
    N.isEpochStart (N.startOf e) = true := by
  rw [isEpochStart_iff, startOf_toNat_of_le h]
  exact Nat.mul_mod_left _ _

theorem isEpochStart_iff_exists (N : EpochLength) (s : Slot) :
    N.isEpochStart s = true ↔ ∃ e : Epoch, e.toNat ≤ N.lastEpoch ∧ s = N.startOf e := by
  constructor
  · intro h
    exact ⟨N.epochAt s, N.epochAt_le_lastEpoch s, (N.isEpochStart_iff_eq_startOf s).mp h⟩
  · rintro ⟨e, he, rfl⟩
    exact isEpochStart_startOf_of_le he

/-! ### From an epoch to its first slot and back -/

/-- The first slot of an epoch belongs to it. -/
theorem epochAt_startOf {N : EpochLength} {e : Epoch} (h : e.toNat ≤ N.lastEpoch) :
    N.epochAt (N.startOf e) = e := by
  apply UInt64.toNat_inj.mp
  rw [epochAt_toNat, startOf_toNat_of_le h, Nat.mul_div_cancel _ N.pos]

theorem epochAt_startOf_iff (N : EpochLength) (e : Epoch) :
    N.epochAt (N.startOf e) = e ↔ e.toNat ≤ N.lastEpoch := by
  refine ⟨fun h => ?_, epochAt_startOf⟩
  rw [← h]
  exact N.epochAt_le_lastEpoch _

/-- The slots from the first one of an epoch on are those of this epoch and of
later ones. -/
theorem startOf_le_iff {N : EpochLength} {e : Epoch} (h : e.toNat ≤ N.lastEpoch) (s : Slot) :
    N.startOf e ≤ s ↔ e ≤ N.epochAt s := by
  rw [UInt64.le_iff_toNat_le, UInt64.le_iff_toNat_le, startOf_toNat_of_le h, epochAt_toNat,
    Nat.le_div_iff_mul_le N.pos]

/-- Later epochs never get earlier slots, whether they have a first one or not. -/
theorem startOf_mono (N : EpochLength) {e e' : Epoch} (h : e ≤ e') :
    N.startOf e ≤ N.startOf e' := by
  have h := Nat.mul_le_mul_right N.slots.toNat (UInt64.le_iff_toNat_le.mp h)
  rw [UInt64.le_iff_toNat_le, startOf_toNat, startOf_toNat]
  omega

/-! ### Where the last slot starts no epoch -/

/-- The last slot there is starts no epoch if the length of epochs is even. -/
theorem greatest_mod_ne_zero_of_even {N : EpochLength} (h : 2 ∣ N.slots.toNat) :
    Word.greatest % N.slots.toNat ≠ 0 := by
  intro hmod
  have htwo : 2 ∣ Word.greatest := Nat.dvd_trans h (Nat.dvd_of_mod_eq_zero hmod)
  exact absurd htwo (by decide)

section

variable {N : EpochLength} (hN : Word.greatest % N.slots.toNat ≠ 0)

include hN

theorem isEpochStart_startOf_iff (e : Epoch) :
    N.isEpochStart (N.startOf e) = true ↔ e.toNat ≤ N.lastEpoch := by
  rcases Nat.lt_or_ge N.lastEpoch e.toNat with h | h
  · rw [isEpochStart_iff, startOf_toNat_of_lt h]
    exact iff_of_false hN (Nat.not_le_of_lt h)
  · exact iff_of_true (isEpochStart_startOf_of_le h) h

/-- Two epochs get the same slot only if they are the same, or none has a first
slot. -/
theorem startOf_eq_iff {e e' : Epoch} :
    N.startOf e = N.startOf e' ↔ e = e' ∨ N.lastEpoch < e.toNat ∧ N.lastEpoch < e'.toNat := by
  constructor
  · intro h
    -- whether it has a first slot can be seen from the slot an epoch gets
    have hiff : e.toNat ≤ N.lastEpoch ↔ e'.toNat ≤ N.lastEpoch := by
      rw [← isEpochStart_startOf_iff hN, ← isEpochStart_startOf_iff hN, h]
    rcases Nat.lt_or_ge N.lastEpoch e.toNat with he | he
    · exact .inr ⟨he, Nat.lt_of_not_le fun he' => Nat.not_le_of_lt he (hiff.mpr he')⟩
    · rw [← epochAt_startOf he, h, epochAt_startOf (hiff.mp he)]
      exact .inl rfl
  · rintro (rfl | ⟨he, he'⟩)
    · rfl
    · apply UInt64.toNat_inj.mp
      rw [startOf_toNat_of_lt he, startOf_toNat_of_lt he']

/-- More than one epoch has no first slot. -/
theorem lastEpoch_add_two_le : N.lastEpoch + 2 ≤ Word.greatest := by
  -- epochs of one slot all have a first one, and the last slot would be one of these
  have hone : N.slots.toNat ≠ 1 := fun h => hN (by rw [h, Nat.mod_one])
  have htwo : 2 ≤ N.slots.toNat := by
    have := N.pos
    omega
  have hhalf : N.lastEpoch ≤ Word.greatest / 2 := Nat.div_le_div_left htwo (by decide)
  have hgreatest : Word.greatest / 2 + 2 ≤ Word.greatest := by decide
  omega

/-- Epochs can be told apart by the slots they get as long as at most one of
them has no first slot. -/
theorem injOn_startOf_iff (n : Nat) :
    Set.InjOn N.startOf {e | e.toNat ≤ n} ↔ n ≤ N.lastEpoch + 1 := by
  constructor
  · intro h
    by_contra hn
    have hle := lastEpoch_add_two_le hN
    have word : ∀ m ≤ Word.greatest, ∃ e : Epoch, e.toNat = m := fun m hm =>
      ⟨Word.saturate m, by rw [Word.saturate_toNat, Nat.min_eq_left hm]⟩
    -- the first two epochs without a first slot get the same
    obtain ⟨e, he⟩ := word (N.lastEpoch + 1) (by omega)
    obtain ⟨e', he'⟩ := word (N.lastEpoch + 2) hle
    have hs : N.startOf e = N.startOf e' := (startOf_eq_iff hN).mpr (.inr ⟨by omega, by omega⟩)
    obtain rfl := h (show e.toNat ≤ n by omega) (show e'.toNat ≤ n by omega) hs
    omega
  · intro hn e he e' he' hs
    have he : e.toNat ≤ n := he
    have he' : e'.toNat ≤ n := he'
    rcases (startOf_eq_iff hN).mp hs with h | ⟨h, h'⟩
    · exact h
    · -- there is one number above `lastEpoch` only
      apply UInt64.toNat_inj.mp
      omega

end

end EpochLength

namespace Preset

/-- The number of the last epoch that has a first slot. -/
def lastEpoch (p : Preset) : Nat := p.epochLength.lastEpoch

/-- The last slot there is does not start an epoch. -/
theorem greatest_mod_ne_zero (p : Preset) : Word.greatest % p.epochLength.slots.toNat ≠ 0 :=
  EpochLength.greatest_mod_ne_zero_of_even (by cases p <;> decide)

theorem startOf_toNat_of_le {p : Preset} {e : Epoch} (h : e.toNat ≤ p.lastEpoch) :
    (p.startOf e).toNat = e.toNat * p.slotsPerEpoch.toNat :=
  EpochLength.startOf_toNat_of_le h

theorem startOf_toNat_of_lt {p : Preset} {e : Epoch} (h : p.lastEpoch < e.toNat) :
    (p.startOf e).toNat = Word.greatest :=
  EpochLength.startOf_toNat_of_lt h

theorem toNat_of_isEpochStart {p : Preset} {s : Slot} (h : p.isEpochStart s = true) :
    s.toNat = (p.epochAt s).toNat * p.slotsPerEpoch.toNat :=
  EpochLength.toNat_of_isEpochStart h

theorem epochAt_startOf {p : Preset} {e : Epoch} (h : e.toNat ≤ p.lastEpoch) :
    p.epochAt (p.startOf e) = e :=
  EpochLength.epochAt_startOf h

theorem isEpochStart_startOf_iff (p : Preset) (e : Epoch) :
    p.isEpochStart (p.startOf e) = true ↔ e.toNat ≤ p.lastEpoch :=
  EpochLength.isEpochStart_startOf_iff p.greatest_mod_ne_zero e

theorem startOf_eq_iff {p : Preset} {e e' : Epoch} :
    p.startOf e = p.startOf e' ↔ e = e' ∨ p.lastEpoch < e.toNat ∧ p.lastEpoch < e'.toNat :=
  EpochLength.startOf_eq_iff p.greatest_mod_ne_zero

/-- **Epochs and their first slots are inverse to each other up to
saturation**: let `N` be the length of an epoch and `M` the number of the last
epoch that has a first slot.

The epoch of a slot `s` has a first slot, which is computed exactly; the place
of `s` within the epoch is below `N`, and the two add up to `s`, on numbers and
so on words.  A slot starts an epoch exactly if it is the first of its own one,
and exactly if it is the first slot of some epoch up to `M`.  Going from an
epoch to its slot and back leads to the epoch for those up to `M` only, and for
them an epoch starts by `s` exactly if it is not after the epoch of `s`.  Later
epochs never get earlier slots.  The epochs up to `n` get different slots
exactly if `n` is at most `M + 1`, since all after `M` get the last slot there
is, which starts no epoch. -/
theorem epochs_invert_up_to_saturation (p : Preset) :
    let N := p.slotsPerEpoch.toNat
    let M := Word.greatest / N
    (∀ s, (p.epochAt s).toNat ≤ M ∧
      (p.startOf (p.epochAt s)).toNat = (p.epochAt s).toNat * N ∧
      (p.slotsSinceStart s).toNat < N ∧
      (p.startOf (p.epochAt s)).toNat + (p.slotsSinceStart s).toNat = s.toNat ∧
      p.startOf (p.epochAt s) + p.slotsSinceStart s = s) ∧
    (∀ s, (p.isEpochStart s = true ↔ s = p.startOf (p.epochAt s)) ∧
      (p.isEpochStart s = true ↔ ∃ e : Epoch, e.toNat ≤ M ∧ s = p.startOf e)) ∧
    (∀ e, p.epochAt (p.startOf e) = e ↔ e.toNat ≤ M) ∧
    (∀ e s, e.toNat ≤ M → (p.startOf e ≤ s ↔ e ≤ p.epochAt s)) ∧
    (∀ e e', e ≤ e' → p.startOf e ≤ p.startOf e') ∧
    (∀ n, Set.InjOn p.startOf {e | e.toNat ≤ n} ↔ n ≤ M + 1) ∧
    (∀ e, M < e.toNat →
      (p.startOf e).toNat = Word.greatest ∧ p.isEpochStart (p.startOf e) = false) := by
  intro N M
  let L := p.epochLength
  have hL : Word.greatest % L.slots.toNat ≠ 0 := p.greatest_mod_ne_zero
  refine ⟨fun s => ⟨L.epochAt_le_lastEpoch s,
      EpochLength.startOf_toNat_of_le (L.epochAt_le_lastEpoch s), L.slotsSinceStart_lt s,
      L.startOf_epochAt_toNat s, L.startOf_epochAt_add s⟩,
    fun s => ⟨L.isEpochStart_iff_eq_startOf s, L.isEpochStart_iff_exists s⟩,
    L.epochAt_startOf_iff, fun e s he => EpochLength.startOf_le_iff he s,
    fun e e' => L.startOf_mono, EpochLength.injOn_startOf_iff hL,
    fun e he => ⟨EpochLength.startOf_toNat_of_lt he, ?_⟩⟩
  rw [Bool.eq_false_iff, Ne, isEpochStart_startOf_iff]
  exact Nat.not_le_of_lt he

end Preset

/-- Two checkpoints ask for the same state only if they are the same, or have
the same root and epochs without a first slot. -/
theorem Checkpoint.key_eq_iff {p : Preset} {c c' : Checkpoint} :
    c.key p = c'.key p
      ↔ c = c' ∨ p.lastEpoch < c.epoch.toNat ∧ p.lastEpoch < c'.epoch.toNat ∧ c.root = c'.root := by
  obtain ⟨e, root⟩ := c
  obtain ⟨e', root'⟩ := c'
  simp only [key, StateKey.mk.injEq, Preset.startOf_eq_iff, Checkpoint.mk.injEq]
  rw [or_and_right, and_assoc]

end SlotStates
