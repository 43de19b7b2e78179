/-
SlotStates/Proofs/Queue/Contents.lean

What stays true of a cache whatever is done with it.

Two views are kept.  `find?` says which value is under which key: promoting
changes nothing there, and after a write a value is either the one written or
one that was there before, whatever the write drops.  `keys` says that no key
is listed twice (`Distinct`), which every operation keeps.  Only because of it
promoting a key leaves the size as it was (`size_promote`): the entry that is
put in front is the only one that is taken out.
-/
import Mathlib.Data.List.Nodup
import SlotStates.Queue.Cache

namespace SlotStates

variable {κ ν : Type} [DecidableEq κ]

/-! ### Entries under distinct keys -/

section Entries

variable {α : Type}

theorem map_fst_filter_ne (es : List (κ × α)) (k : κ) :
    (es.filter fun e => e.1 ≠ k).map (·.1) = (es.map (·.1)).filter (· ≠ k) := by
  rw [List.filter_map]
  rfl

/-- Where keys are distinct, taking out a key that is there takes out one
entry. -/
theorem length_filter_ne {es : List (κ × α)} (h : (es.map (·.1)).Nodup) {k : κ}
    (hk : k ∈ es.map (·.1)) :
    (es.filter fun e => e.1 ≠ k).length + 1 = es.length := by
  have he : (es.map (·.1)).filter (· ≠ k) = (es.map (·.1)).erase k := by
    rw [h.erase_eq_filter]
    congr 1
    funext a
    simp [bne, beq_eq_decide]
  have hl : (es.filter fun e => e.1 ≠ k).length = ((es.map (·.1)).erase k).length := by
    rw [← he, ← map_fst_filter_ne, List.length_map]
  have hp : 0 < (es.map (·.1)).length := List.length_pos_of_mem hk
  rw [hl, List.length_erase_of_mem hk, Nat.sub_add_cancel hp, List.length_map]

/-- Where keys are distinct, an entry is found by its key. -/
theorem lookup_eq_some_iff_mem {es : List (κ × α)} (h : (es.map (·.1)).Nodup) {k : κ} {a : α} :
    es.lookup k = some a ↔ (k, a) ∈ es := by
  induction es with
  | nil => simp
  | cons e es ih =>
    obtain ⟨b, c⟩ := e
    simp only [List.map_cons, List.nodup_cons] at h
    by_cases hb : k = b
    · subst hb
      have hn : (k, a) ∉ es := fun hm => h.1 (List.mem_map.mpr ⟨_, hm, rfl⟩)
      simp [hn, eq_comm]
    · have hf : (k == b) = false := beq_eq_false_iff_ne.mpr hb
      simp [List.lookup_cons, hf, ih h.2, hb]

end Entries

namespace Cache

/-! ### What is found after an operation -/

theorem find?_eraseAll (c : Cache κ ν) (ks : List κ) (k : κ) :
    (c.eraseAll ks).find? k = if k ∈ ks then none else c.find? k := by
  induction ks generalizing c with
  | nil => simp [eraseAll]
  | cons a ks ih =>
    show ((c.erase a).eraseAll ks).find? k = _
    rw [ih, find?_erase]
    by_cases hk : k ∈ ks
    · simp [hk]
    · by_cases ha : k = a <;> simp [hk, ha]

/-- After a write a value is the one that was written, or was there before. -/
theorem find?_put_eq_some {c : Cache κ ν} {capacity : Nat} {k a : κ} {v w : ν}
    (h : (c.put capacity k v).find? a = some w) : (a = k ∧ w = v) ∨ c.find? a = some w := by
  have hp : ((k, v) :: (c.erase k).entries).take capacity <+: (k, v) :: (c.erase k).entries :=
    List.take_prefix _ _
  have hf : (⟨(k, v) :: (c.erase k).entries⟩ : Cache κ ν).find? a = some w :=
    hp.lookup_eq_some h
  rw [find?_cons] at hf
  by_cases ha : a = k
  · rw [if_pos ha] at hf
    exact .inl ⟨ha, (Option.some.inj hf).symm⟩
  · rw [if_neg ha] at hf
    exact .inr (((find?_erase c k a).trans (if_neg ha)).symm.trans hf)

/-! ### Taking out all keys that satisfy a test -/

/-- The cache without the keys that satisfy a test. -/
def without (c : Cache κ ν) (p : κ → Bool) : Cache κ ν := ⟨c.entries.filter fun e => !p e.1⟩

omit [DecidableEq κ] in
theorem keys_without (c : Cache κ ν) (p : κ → Bool) :
    (c.without p).keys = c.keys.filter fun k => !p k := by
  rw [keys, keys, without, List.filter_map]
  rfl

theorem entries_eraseAll (c : Cache κ ν) (ks : List κ) :
    (c.eraseAll ks).entries = c.entries.filter fun e => e.1 ∉ ks := by
  induction ks generalizing c with
  | nil =>
    refine (List.filter_eq_self.mpr fun e _ => ?_).symm
    simp
  | cons k ks ih =>
    show ((c.erase k).eraseAll ks).entries = _
    rw [ih, erase, List.filter_filter]
    refine List.filter_congr fun e _ => ?_
    simp [Bool.and_comm]

theorem mem_keys_iff {c : Cache κ ν} {k : κ} : k ∈ c.keys ↔ ∃ v, c.find? k = some v := by
  obtain ⟨es⟩ := c
  induction es with
  | nil => simp [keys, find?]
  | cons e es ih =>
    obtain ⟨a, w⟩ := e
    rw [find?_cons]
    by_cases hk : k = a
    · simp [keys, hk]
    · rw [if_neg hk, ← ih]
      simp [keys, hk]

theorem not_mem_keys_iff {c : Cache κ ν} {k : κ} : k ∉ c.keys ↔ c.find? k = none := by
  rw [mem_keys_iff, not_exists, Option.eq_none_iff_forall_ne_some]

/-- Erasing the keys that are there and satisfy a test erases all that do. -/
theorem eraseAll_filter (c : Cache κ ν) (p : κ → Bool) :
    c.eraseAll (c.keys.filter p) = c.without p := by
  have h : (c.eraseAll (c.keys.filter p)).entries = (c.without p).entries := by
    rw [entries_eraseAll]
    refine List.filter_congr fun e he => ?_
    have hk : e.1 ∈ c.keys := List.mem_map_of_mem he
    simp [hk]
  exact congrArg Cache.mk h

theorem find?_without (c : Cache κ ν) (p : κ → Bool) (k : κ) :
    (c.without p).find? k = if p k then none else c.find? k := by
  rw [← eraseAll_filter, find?_eraseAll]
  by_cases hp : p k = true
  · by_cases hk : k ∈ c.keys
    · rw [if_pos (List.mem_filter.mpr ⟨hk, hp⟩), if_pos hp]
    · rw [if_neg fun h => hk (List.mem_filter.mp h).1, if_pos hp]
      exact not_mem_keys_iff.mp hk
  · rw [if_neg fun h => hp (List.mem_filter.mp h).2, if_neg hp]

theorem erase_eq_without (c : Cache κ ν) (k : κ) : c.erase k = c.without (· = k) := by
  refine congrArg Cache.mk (List.filter_congr fun e _ => ?_)
  simp

omit [DecidableEq κ] in
@[simp] theorem without_nothing (c : Cache κ ν) : c.without (fun _ => false) = c :=
  congrArg Cache.mk (List.filter_eq_self.mpr fun _ _ => rfl)

omit [DecidableEq κ] in
@[simp] theorem without_everything (c : Cache κ ν) : c.without (fun _ => true) = empty :=
  congrArg Cache.mk (List.filter_eq_nil_iff.mpr fun _ _ => by simp)

/-! ### Distinct keys -/

/-- No key is listed twice. -/
def Distinct (c : Cache κ ν) : Prop := c.keys.Nodup

omit [DecidableEq κ] in
theorem distinct_empty : (empty : Cache κ ν).Distinct := List.nodup_nil

theorem keys_erase (c : Cache κ ν) (k : κ) : (c.erase k).keys = c.keys.filter (· ≠ k) :=
  map_fst_filter_ne c.entries k

/-- A key that is promoted goes to the front, and the others keep their
order. -/
theorem keys_promote {c : Cache κ ν} {k : κ} {v : ν} (h : c.find? k = some v) :
    (c.promote k).keys = k :: c.keys.filter (· ≠ k) := by
  rw [← keys_erase, promote, h]
  rfl

/-- So does a key that is written, and the last ones are dropped if they are
too many. -/
theorem keys_put (c : Cache κ ν) (capacity : Nat) (k : κ) (v : ν) :
    (c.put capacity k v).keys = (k :: c.keys.filter (· ≠ k)).take capacity := by
  rw [← keys_erase, put, keys, List.map_take]
  rfl

theorem Distinct.erase {c : Cache κ ν} (h : c.Distinct) (k : κ) : (c.erase k).Distinct := by
  show (c.erase k).keys.Nodup
  rw [keys_erase]
  exact List.Nodup.filter _ h

/-- A key that was taken out can be put in front. -/
theorem Distinct.cons_erase {c : Cache κ ν} (h : c.Distinct) (k : κ) (v : ν) :
    (⟨(k, v) :: (c.erase k).entries⟩ : Cache κ ν).Distinct := by
  refine List.nodup_cons.mpr ⟨?_, h.erase k⟩
  show k ∉ (c.erase k).keys
  rw [keys_erase]
  simp

theorem Distinct.promote {c : Cache κ ν} (h : c.Distinct) (k : κ) : (c.promote k).Distinct := by
  rcases hf : c.find? k with - | v
  · simpa [Cache.promote, hf] using h
  · simpa [Cache.promote, hf] using h.cons_erase k v

theorem Distinct.put {c : Cache κ ν} (h : c.Distinct) (capacity : Nat) (k : κ) (v : ν) :
    (c.put capacity k v).Distinct := by
  have hs : (c.put capacity k v).keys.Sublist (k :: (c.erase k).keys) :=
    List.Sublist.map Prod.fst (List.take_sublist capacity ((k, v) :: (c.erase k).entries))
  exact hs.nodup (h.cons_erase k v)

theorem Distinct.eraseAll {c : Cache κ ν} (h : c.Distinct) (ks : List κ) :
    (c.eraseAll ks).Distinct := by
  induction ks generalizing c with
  | nil => exact h
  | cons k ks ih => exact ih (h.erase k)

/-- Promoting a key changes no size. -/
theorem size_promote {c : Cache κ ν} (h : c.Distinct) (k : κ) : (c.promote k).size = c.size := by
  rcases hf : c.find? k with - | v
  · simp [promote, hf]
  · have hm : k ∈ c.entries.map (·.1) :=
      List.mem_map.mpr ⟨(k, v), (lookup_eq_some_iff_mem h).mp hf, rfl⟩
    simpa [promote, hf, size, erase] using length_filter_ne h hm

end Cache

end SlotStates
