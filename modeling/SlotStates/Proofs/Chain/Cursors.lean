/-
SlotStates/Proofs/Chain/Cursors.lean

Cursors pass each key once.

What a cursor has still to come is a list: the keys of its root at the slots
below its bound, the highest first (`Ancestors.ahead`).  A single step takes the
first of them away (`ahead_onward`), and at the end of the list the cursor
stays where it is.  Moves that pass several keys go by arithmetic to where
single steps would arrive,

    a.take n = (a.ahead.take n, onward^[n] a),

and so do `nth` and `find`; those that look or count tell what the list is like.

In a play of many cursors each has a trail: the keys that it has passed, and its
originals before it was copied (`Cursors.Trail`).  A trail and what is still to
come make up all keys below the first one (`Cursors.Trail.complete_trails`).

The main result is `every_key_is_passed_once`.
-/
import Mathlib.Data.List.Induction
import Mathlib.Logic.Function.Iterate
import SlotStates.Scenario.Cursors

namespace SlotStates

/-- The keys below a key, the nearest first. -/
def StateKey.descent (k : StateKey) : List StateKey :=
  (List.range k.slot.toNat).reverse.map fun n => ⟨UInt64.ofNat n, k.root⟩

namespace StateKey

theorem root_of_mem_descent {k k' : StateKey} (h : k' ∈ k.descent) : k'.root = k.root := by
  obtain ⟨n, -, rfl⟩ := List.mem_map.mp h
  rfl

/-- No key below a key comes twice. -/
theorem descent_pairwise (k : StateKey) : k.descent.Pairwise fun a b => b.slot < a.slot := by
  rw [descent, List.pairwise_map, List.pairwise_reverse]
  refine List.pairwise_lt_range.imp_of_mem fun {m n} hm hn hlt => ?_
  -- the slots are words, since they are below one
  have hk := k.slot.toNat_lt
  have hm := List.mem_range.mp hm
  have hn := List.mem_range.mp hn
  have hword : m < UInt64.size ∧ n < UInt64.size := by
    simp only [UInt64.size]
    omega
  rw [UInt64.lt_iff_toNat_lt, UInt64.toNat_ofNat_of_lt' hword.1, UInt64.toNat_ofNat_of_lt' hword.2]
  exact hlt

end StateKey

namespace Ancestors

/-- The keys still to come, in the order in which they come. -/
def ahead (a : Ancestors) : List StateKey := StateKey.descent ⟨a.bound, a.root⟩

/-- The cursor after a single step. -/
def onward (a : Ancestors) : Ancestors := (Cursors.onCursor a .next).2

theorem length_ahead (a : Ancestors) : a.ahead.length = a.size := by
  simp [ahead, StateKey.descent, size]

/-- A cursor is known by its root and the number of keys to come. -/
theorem eq_of_size_eq {a b : Ancestors} (hroot : a.root = b.root) (hsize : a.size = b.size) :
    a = b := by
  obtain ⟨root, bound⟩ := a
  obtain ⟨root', bound'⟩ := b
  obtain rfl : root = root' := hroot
  obtain rfl : bound = bound' := UInt64.toNat_inj.mp hsize
  rfl

/-! ### Single steps -/

theorem ahead_of_next {a b : Ancestors} {k : StateKey} (h : a.next? = some (k, b)) :
    a.ahead = k :: b.ahead := by
  have hsize : a.bound.toNat = b.bound.toNat + 1 := size_next h
  obtain ⟨-, rfl, rfl⟩ := next?_eq_some h
  have hword : UInt64.ofNat (a.bound - 1).toNat = a.bound - 1 := UInt64.ofNat_toNat
  simp only [ahead, StateKey.descent, hsize, List.range_succ, List.reverse_append,
    List.reverse_singleton, List.singleton_append, List.map_cons, hword]

/-- Either no key is to come, or a step returns the first one and leaves the
others. -/
theorem next?_cases (a : Ancestors) :
    (a.next? = none ∧ a.ahead = [] ∧ a.onward = a) ∨
      ∃ k b, a.next? = some (k, b) ∧ a.ahead = k :: b.ahead ∧ a.onward = b := by
  rcases h : a.next? with - | ⟨k, b⟩
  · have hlength : a.ahead.length = 0 := a.length_ahead.trans (a.next?_eq_none_iff.mp h)
    exact .inl ⟨rfl, List.length_eq_zero_iff.mp hlength, by simp only [onward, Cursors.onCursor, h]⟩
  · exact .inr ⟨k, b, rfl, ahead_of_next h, by simp only [onward, Cursors.onCursor, h]⟩

theorem onCursor_next (a : Ancestors) :
    Cursors.onCursor a .next = (.key a.ahead.head?, a.onward) := by
  rcases a.next?_cases with ⟨h, ha, ho⟩ | ⟨k, b, h, ha, ho⟩ <;>
    simp only [Cursors.onCursor, h, ha, ho, List.head?_nil, List.head?_cons]

theorem ahead_onward (a : Ancestors) : a.onward.ahead = a.ahead.tail := by
  rcases a.next?_cases with ⟨-, ha, ho⟩ | ⟨k, b, -, ha, ho⟩
  · rw [ho, ha, List.tail_nil]
  · rw [ho, ha, List.tail_cons]

theorem root_onward (a : Ancestors) : a.onward.root = a.root := by
  rcases a.next?_cases with ⟨-, -, ho⟩ | ⟨k, b, h, -, ho⟩
  · rw [ho]
  · obtain ⟨-, -, rfl⟩ := next?_eq_some h
    rw [ho]

/-! ### Many single steps -/

theorem ahead_iterate (a : Ancestors) (n : Nat) : (onward^[n] a).ahead = a.ahead.drop n := by
  induction n generalizing a with
  | zero => rfl
  | succ n ih => rw [Function.iterate_succ_apply, ih, ahead_onward, List.drop_tail]

theorem root_iterate (a : Ancestors) (n : Nat) : (onward^[n] a).root = a.root := by
  induction n generalizing a with
  | zero => rfl
  | succ n ih => rw [Function.iterate_succ_apply, ih, root_onward]

theorem size_iterate (a : Ancestors) (n : Nat) : (onward^[n] a).size = a.size - n := by
  rw [← length_ahead, ahead_iterate, List.length_drop, length_ahead]

/-- A cursor that has nothing to come stays. -/
theorem iterate_of_ahead_eq_nil {a : Ancestors} (h : a.ahead = []) (n : Nat) :
    onward^[n] a = a := by
  refine eq_of_size_eq (a.root_iterate n) ?_
  rw [size_iterate, ← length_ahead, h, List.length_nil, Nat.zero_sub]

/-! ### Moves as single steps -/

theorem take_eq (a : Ancestors) (n : Nat) : a.take n = (a.ahead.take n, onward^[n] a) := by
  induction n generalizing a with
  | zero => rfl
  | succ n ih =>
    rw [take, Function.iterate_succ_apply]
    rcases a.next?_cases with ⟨h, ha, ho⟩ | ⟨k, b, h, ha, ho⟩
    · simp only [h, ha, ho, List.take_nil, iterate_of_ahead_eq_nil ha]
    · simp only [h, ha, ho, ih, List.take_succ_cons]

theorem getElem?_ahead (a : Ancestors) (i : Nat) : a.ahead[i]? = a.get? i := by
  induction i generalizing a with
  | zero =>
    rw [get?_zero]
    rcases a.next?_cases with ⟨h, ha, -⟩ | ⟨k, b, h, ha, -⟩ <;> rw [h, ha] <;> rfl
  | succ i ih =>
    rcases a.next?_cases with ⟨h, ha, -⟩ | ⟨k, b, h, ha, -⟩
    · have hbound : a.bound.toNat ≤ i + 1 := by
        rw [show a.bound.toNat = 0 from a.next?_eq_none_iff.mp h]
        exact Nat.zero_le _
      rw [ha, get?, (Word.below?_eq_none_iff _ _).mpr hbound]
      rfl
    · rw [ha, get?_next h, List.getElem?_cons_succ, ih]

/-- Passing some keys and then one more is a single step after as many. -/
theorem nth_eq (a : Ancestors) (n : Nat) :
    a.nth n = ((onward^[n] a).ahead.head?, (onward^[n] a).onward) := by
  refine Prod.ext ?_ ?_
  · show a.get? n = _
    rw [ahead_iterate, List.head?_drop, getElem?_ahead]
  · show a.withSize (a.size - 1 - n) = _
    rw [← Function.iterate_succ_apply' onward]
    refine eq_of_size_eq (a.root_iterate _).symm ?_
    rw [size_withSize (by omega), size_iterate]
    omega

/-- Searching a slot passes keys one by one up to the key at this slot, or all of
them. -/
theorem find_eq (a : Ancestors) (s : Slot) :
    a.find s = (a.ahead.find? (·.slot = s), onward^[a.ahead.findIdx (·.slot = s) + 1] a) := by
  induction hn : a.size generalizing a with
  | zero =>
    obtain ⟨root, bound⟩ := a
    obtain rfl : bound = 0 := UInt64.toNat_inj.mp hn
    have ha : (⟨root, 0⟩ : Ancestors).ahead = [] := rfl
    rw [ha, iterate_of_ahead_eq_nil ha, find, if_neg (UInt64.not_lt.mpr (UInt64.zero_le))]
    rfl
  | succ n ih =>
    rcases a.next?_cases with ⟨h, -, -⟩ | ⟨k, b, h, ha, ho⟩
    · rw [a.next?_eq_none_iff.mp h] at hn
      cases hn
    · have hb := ih b (by have := size_next h; omega)
      obtain ⟨h0, rfl, rfl⟩ := next?_eq_some h
      have hpred := Word.toNat_sub_one h0
      rw [Function.iterate_succ_apply, ho, ha, List.find?_cons, List.findIdx_cons]
      by_cases hs : a.bound - 1 = s
      · have hlt : s < a.bound := by
          rw [← hs, UInt64.lt_iff_toNat_lt]
          omega
        simp only [find, if_pos hlt, hs, decide_true]
        rfl
      · -- the first key is passed, and the search goes on after it
        have hlt : s < a.bound ↔ s < a.bound - 1 := by
          have hne : (a.bound - 1).toNat ≠ s.toNat := fun he => hs (UInt64.toNat_inj.mp he)
          simp only [UInt64.lt_iff_toNat_lt]
          omega
        simp only [hs, decide_false, cond_false]
        rw [← hb]
        simp only [find, hlt]

theorem ahead_eq_nil_iff (a : Ancestors) : a.ahead = [] ↔ a.bound = 0 := by
  rw [← List.length_eq_zero_iff, length_ahead, size, ← UInt64.toNat_zero, UInt64.toNat_inj]

/-- Looking for the last key finds the last one to come. -/
theorem last?_eq_getLast? (a : Ancestors) : a.last? = a.ahead.getLast? := by
  rw [last?, ahead, StateKey.descent, List.getLast?_map, List.getLast?_reverse, List.head?_range]
  have hzero : a.bound = 0 ↔ a.bound.toNat = 0 := UInt64.toNat_inj.symm
  by_cases h : a.bound = 0
  · rw [if_pos h, if_pos (hzero.mp h), Option.map_none]
  · rw [if_neg h, if_neg (mt hzero.mpr h), Option.map_some]
    rfl

/-- The last key to come is the one at genesis. -/
theorem last?_eq (a : Ancestors) :
    a.last? = if a.ahead = [] then none else some ⟨0, a.root⟩ := by
  simp only [last?, ahead_eq_nil_iff]

end Ancestors

namespace Cursors

open Ancestors

/-- How many single steps a move stands for. -/
def Move.singles (a : Ancestors) : Move → Nat
  | .next => 1
  | .take n => n
  | .nth n => n + 1
  | .find s => a.ahead.findIdx (·.slot = s) + 1
  | _ => 0

/-- Every move leads where the single steps lead that it stands for. -/
theorem onCursor_snd (a : Ancestors) (m : Move) : (onCursor a m).2 = onward^[m.singles a] a := by
  cases m with
  | next => rfl
  | take n => exact congrArg Prod.snd (a.take_eq n)
  | nth n =>
    rw [Move.singles, Function.iterate_succ_apply']
    show (a.nth n).2 = _
    rw [nth_eq]
  | find s => exact congrArg Prod.snd (a.find_eq s)
  | _ => rfl

/-! ### Playing -/

/-- What can be done in a play. -/
inductive Act
  | move (cursor : Nat) (m : Move)
  | copy (cursor : Nat)

/-- What an act leaves; an act on a cursor that does not exist changes
nothing. -/
def act (cursors : List Ancestors) : Act → List Ancestors
  | .move i m => ((step cursors i m).map (·.2)).getD cursors
  | .copy i => ((copy cursors i).map (·.2)).getD cursors

/-- A cursor, and the keys that it and its originals before it was copied have
passed by single steps and by moves that stand for several. -/
structure Trail where
  cursor : Ancestors
  passed : List StateKey

namespace Trail

/-- A move, with the keys that its single steps return. -/
def move (t : Trail) (m : Move) : Trail :=
  ⟨(onCursor t.cursor m).2, t.passed ++ (t.cursor.take (m.singles t.cursor)).1⟩

/-- What an act leaves of some trails. -/
def act (ts : List Trail) : Act → List Trail
  | .move i m => (ts[i]?.map fun t => ts.set i (t.move m)).getD ts
  | .copy i => (ts[i]?.map fun t => ts ++ [t]).getD ts

/-- The trails of a play that starts with one cursor. -/
def trails (k : StateKey) (acts : List Act) : List Trail := acts.foldl act [⟨.below k, []⟩]

/-- Keeping trails changes no cursor. -/
theorem cursor_act (ts : List Trail) (x : Act) :
    (act ts x).map (·.cursor) = Cursors.act (ts.map (·.cursor)) x := by
  cases x with
  | move i m =>
    simp only [act, Cursors.act, step, List.getElem?_map]
    rcases ts[i]? with - | t
    · rfl
    · exact List.map_set
  | copy i =>
    simp only [act, Cursors.act, Cursors.copy, List.getElem?_map]
    rcases ts[i]? with - | t
    · rfl
    · exact List.map_append

theorem cursor_trails (k : StateKey) (acts : List Act) :
    (trails k acts).map (·.cursor) = acts.foldl Cursors.act [.below k] := by
  induction acts using List.reverseRecOn with
  | nil => rfl
  | append_singleton acts x ih =>
    rw [trails, List.foldl_append, List.foldl_append, ← ih]
    exact cursor_act _ x

/-- A trail and what is to come make up the keys below a key. -/
def Complete (k : StateKey) (t : Trail) : Prop := t.passed ++ t.cursor.ahead = k.descent

theorem Complete.move {k : StateKey} {t : Trail} (h : t.Complete k) (m : Move) :
    (t.move m).Complete k := by
  rw [Complete, Trail.move, onCursor_snd, ahead_iterate, take_eq, List.append_assoc,
    List.take_append_drop]
  exact h

theorem Complete.act {k : StateKey} {ts : List Trail} (h : ∀ t ∈ ts, t.Complete k) (x : Act) :
    ∀ t ∈ act ts x, t.Complete k := by
  intro t ht
  cases x with
  | move i m =>
    rw [Trail.act] at ht
    rcases hi : ts[i]? with - | t' <;> rw [hi] at ht
    · exact h t ht
    · rcases List.mem_or_eq_of_mem_set ht with ht | rfl
      · exact h t ht
      · exact (h t' (List.mem_of_getElem? hi)).move m
  | copy i =>
    rw [Trail.act] at ht
    rcases hi : ts[i]? with - | t' <;> rw [hi] at ht
    · exact h t ht
    · rcases List.mem_append.mp ht with ht | ht
      · exact h t ht
      · obtain rfl := List.mem_singleton.mp ht
        exact h t (List.mem_of_getElem? hi)

theorem complete_trails (k : StateKey) (acts : List Act) :
    ∀ t ∈ trails k acts, t.Complete k := by
  induction acts using List.reverseRecOn with
  | nil =>
    intro t ht
    obtain rfl := List.mem_singleton.mp ht
    rfl
  | append_singleton acts x ih =>
    rw [trails, List.foldl_append]
    exact Complete.act ih x

end Trail

/-- A cursor changes only by acts on it. -/
theorem getElem?_act_move {cursors : List Ancestors} {i j : Nat} (h : i ≠ j) (m : Move) :
    (act cursors (.move i m))[j]? = cursors[j]? := by
  rw [act, step]
  rcases cursors[i]? with - | a
  · rfl
  · exact List.getElem?_set_ne h

/-- **Every key is passed once**: after any acts on a cursor below a key and on
its copies, what a cursor and its originals have passed and what it has still to
come make up the keys below the key, from the one at the slot before it down to
the one at genesis, without repetition.  A single step returns the first key to
come and leaves the others; the other moves come to single steps.  Taking `n`
keys and passing `n` before one is answered are as many, a search ends with the
key at the slot or with the last key there is, and looking for the size, the
count or the last key tells of what is to come and changes nothing: the last key
is the last of those to come, and this is the one at genesis.  A cursor
that has nothing to come stays so.  Acts on one cursor leave the others, and a
copy stands where its original stands. -/
theorem every_key_is_passed_once (k : StateKey) (acts : List Act) :
    let ts := Trail.trails k acts
    let cursors := acts.foldl act [.below k]
    ts.map (·.cursor) = cursors ∧
    k.descent.Pairwise (fun a b => b.slot < a.slot) ∧
    ∀ i t, ts[i]? = some t →
      let a := t.cursor
      t.passed ++ a.ahead = k.descent ∧
      (onCursor a .next = (.key a.ahead.head?, a.onward) ∧ a.onward.ahead = a.ahead.tail) ∧
      (a.ahead = [] → ∀ m, (onCursor a m).2 = a) ∧
      (∀ n, onCursor a (.take n) = (.keys (a.ahead.take n), onward^[n] a)) ∧
      (∀ n, onCursor a (.nth n) = onCursor (onward^[n] a) .next) ∧
      (∀ s, onCursor a (.find s)
        = (.key (a.ahead.find? (·.slot = s)), onward^[a.ahead.findIdx (·.slot = s) + 1] a)) ∧
      onCursor a .sizeHint = (.bounds a.ahead.length a.ahead.length, a) ∧
      onCursor a .count = (.number a.ahead.length, a) ∧
      (onCursor a .last = (.key a.ahead.getLast?, a) ∧
        onCursor a .last = (.key (if a.ahead = [] then none else some ⟨0, k.root⟩), a)) ∧
      (∀ m j, i ≠ j → (act cursors (.move i m))[j]? = cursors[j]?) ∧
      act cursors (.copy i) = cursors ++ [a] := by
  intro ts cursors
  have hcursors : ts.map (·.cursor) = cursors := Trail.cursor_trails k acts
  refine ⟨hcursors, k.descent_pairwise, ?_⟩
  intro i t ht a
  have hcomplete : t.passed ++ a.ahead = k.descent :=
    Trail.complete_trails k acts t (List.mem_of_getElem? ht)
  have hcursor : cursors[i]? = some a := by
    rw [← hcursors, List.getElem?_map, ht]
    rfl
  refine ⟨hcomplete, ⟨a.onCursor_next, a.ahead_onward⟩, fun hnil m => ?_, fun n => ?_, fun n => ?_,
    fun s => ?_, ?_, ?_, ⟨?_, ?_⟩, fun m j hij => getElem?_act_move hij m, ?_⟩
  · rw [onCursor_snd, iterate_of_ahead_eq_nil hnil]
  · simp only [onCursor, a.take_eq]
  · rw [onCursor_next]
    simp only [onCursor, a.nth_eq]
  · simp only [onCursor, a.find_eq]
  · rw [length_ahead]
    rfl
  · rw [length_ahead]
    rfl
  · simp only [onCursor, a.last?_eq_getLast?]
  · simp only [onCursor, a.last?_eq]
    rcases hahead : a.ahead with - | ⟨k', rest⟩
    · rfl
    · -- what is still to come has the root of the cursor and that of the key
      have hroot : k'.root = a.root := StateKey.root_of_mem_descent (hahead ▸ List.mem_cons_self)
      have hroot' : k'.root = k.root :=
        StateKey.root_of_mem_descent (by rw [← hcomplete, hahead]; simp)
      rw [← hroot, hroot']
  · rw [act, Cursors.copy, hcursor]
    rfl

end Cursors

end SlotStates
