/-
SlotStates/Queue/Task.lean

Tasks and the values they can start from.

A task computes the value of its key.  It names other keys whose values would
save it work, its ancestors, the nearest first, and can be rebased onto such a
value.  Before a task is launched its ancestors are looked up one by one, up to
a limit; the first one that is cached becomes its base.
-/
import SlotStates.Queue.Cache

namespace SlotStates

/-- Keys with a text that tells them apart in messages. -/
class KeyText (κ : Type) where
  text : κ → String

/-- Tasks of type `τ` that compute values of type `ν` for keys of type `κ`. -/
class Task (τ : Type) (κ ν : outParam Type) where
  /-- The key whose value is computed. -/
  key : τ → κ
  /-- The ancestor that a number of others precede, if there are that many. -/
  ancestor? : τ → Nat → Option κ
  /-- The same task, starting from a value of an ancestor. -/
  rebase : τ → ν → τ

/-- What a search for a base came to. -/
structure Walk (κ ν : Type) where
  /-- How many ancestors were looked up. -/
  probed : Nat
  /-- The ancestor that was cached, and its value. -/
  base : Option (κ × ν)
  deriving DecidableEq

namespace Cache

variable {κ ν : Type} [DecidableEq κ]

/-- Looks up ancestors from the one that `i` others precede on, at most
`limit` of them. -/
def walkFrom (c : Cache κ ν) (ancestor? : Nat → Option κ) (i : Nat) : Nat → Walk κ ν
  | 0 => ⟨i, none⟩
  | limit + 1 =>
    match ancestor? i with
    | none => ⟨i, none⟩
    | some a =>
      match c.find? a with
      | some v => ⟨i + 1, some (a, v)⟩
      | none => c.walkFrom ancestor? (i + 1) limit

/-- Looks for the nearest cached one among the first `limit` ancestors.  In an
empty cache there is nothing to look for. -/
def walk (c : Cache κ ν) (ancestor? : Nat → Option κ) (limit : Nat) : Walk κ ν :=
  if c.entries.isEmpty then ⟨0, none⟩ else c.walkFrom ancestor? 0 limit

/-- A walk ends at a cached ancestor, and all ancestors before it are not
cached. -/
theorem walkFrom_base {c : Cache κ ν} {ancestor? : Nat → Option κ} {limit i : Nat}
    {a : κ} {v : ν} (h : (c.walkFrom ancestor? i limit).base = some (a, v)) :
    ∃ n < limit, ancestor? (i + n) = some a ∧ c.find? a = some v ∧
      ∀ m < n, ∃ b, ancestor? (i + m) = some b ∧ c.find? b = none := by
  induction limit generalizing i with
  | zero => simp [walkFrom] at h
  | succ limit ih =>
    rw [walkFrom] at h
    split at h
    · simp at h
    · next b hb =>
      split at h
      · next w hw =>
        simp only [Option.some.injEq, Prod.mk.injEq] at h
        rcases h with ⟨rfl, rfl⟩
        exact ⟨0, by omega, hb, hw, fun m hm => absurd hm (by omega)⟩
      · next hn =>
        rcases ih h with ⟨n, hlt, ha, hv, hbefore⟩
        refine ⟨n + 1, by omega, ?_, hv, ?_⟩
        · rw [← ha]; congr 1; omega
        · intro m hm
          rcases m with - | m
          · exact ⟨b, hb, hn⟩
          · rcases hbefore m (by omega) with ⟨b', hb', hn'⟩
            refine ⟨b', ?_, hn'⟩
            rw [← hb']; congr 1; omega

/-- The base that is found is an ancestor with its cached value, and all nearer
ancestors are not cached. -/
theorem walk_base {c : Cache κ ν} {ancestor? : Nat → Option κ} {limit : Nat} {a : κ} {v : ν}
    (h : (c.walk ancestor? limit).base = some (a, v)) :
    ∃ n < limit, ancestor? n = some a ∧ c.find? a = some v ∧
      ∀ m < n, ∃ b, ancestor? m = some b ∧ c.find? b = none := by
  rw [walk] at h
  split at h
  · cases h
  · simpa only [Nat.zero_add] using walkFrom_base h

/-- A walk that finds nothing has looked up every ancestor that it comes to
within its limit. -/
theorem walkFrom_base_eq_none {c : Cache κ ν} {ancestor? : Nat → Option κ} {limit i : Nat}
    (h : (c.walkFrom ancestor? i limit).base = none) :
    ∀ n < limit, (∀ m < n, ancestor? (i + m) ≠ none) →
      ∀ b, ancestor? (i + n) = some b → c.find? b = none := by
  induction limit generalizing i with
  | zero => intro n hn; omega
  | succ limit ih =>
    intro n hn hbefore b hb
    rw [walkFrom] at h
    split at h
    · next hi =>
      -- the ancestors end here, so that there is no later one
      rcases n with - | n
      · cases hb.symm.trans hi
      · exact absurd hi (hbefore 0 (Nat.succ_pos n))
    · next a ha =>
      split at h
      · cases h
      · next hm =>
        rcases n with - | n
        · rw [Nat.add_zero, ha] at hb
          cases hb
          exact hm
        · have hshift : ∀ m, i + (m + 1) = i + 1 + m := fun m => by omega
          refine ih h n (by omega) (fun m hm => ?_) b (hshift n ▸ hb)
          exact hshift m ▸ hbefore (m + 1) (by omega)

/-- Where no base is found, no ancestor is cached that the walk comes to. -/
theorem walk_base_eq_none {c : Cache κ ν} {ancestor? : Nat → Option κ} {limit : Nat}
    (h : (c.walk ancestor? limit).base = none) :
    ∀ n < limit, (∀ m < n, ancestor? m ≠ none) → ∀ b, ancestor? n = some b → c.find? b = none := by
  obtain ⟨es⟩ := c
  rw [walk] at h
  split at h
  · next he =>
    obtain rfl : es = [] := List.isEmpty_iff.mp he
    exact fun _ _ _ _ _ => rfl
  · simpa only [Nat.zero_add] using walkFrom_base_eq_none h

end Cache

end SlotStates
