/-
SlotStates/Proofs/Queue/History.lean

What has happened in a run, and when.

The events of a run are told by their numbers, and each happens to the service
that the events before it have left.  `Occurs` says that something is the case
with the event of a number and the service it happens to, and `Since` that it
is and that something else has not been the case with any event after it.  So
what is found at the end of a run can be explained by what happened last.

A run that is longer by one event has the history of the shorter one, and that
event (`occurs_concat_iff`, `since_concat_iff`).  Proofs about a history are
inductions on the run with these two.
-/
import Mathlib.Data.List.Induction
import SlotStates.Proofs.Queue.Events

namespace SlotStates

variable {κ τ ν ε : Type} [DecidableEq κ] [KeyText κ] [Task τ κ ν]
variable {P Q : Service κ τ ν ε → Event κ τ ν ε → Prop}

namespace Service

/-- Something is the case with the event of a number in a run, and with the
service to which it happens. -/
def Occurs (P : Service κ τ ν ε → Event κ τ ν ε → Prop) (start : Service κ τ ν ε)
    (es : List (Event κ τ ν ε)) (n : Nat) : Prop :=
  ∃ e, es[n]? = some e ∧ P (start.run (es.take n)).2 e

/-- Something is the case with the event of a number, and something else has
not been the case with any event since. -/
structure Since (P Q : Service κ τ ν ε → Event κ τ ν ε → Prop) (start : Service κ τ ν ε)
    (es : List (Event κ τ ν ε)) (n : Nat) : Prop where
  occurs : start.Occurs P es n
  not_since : ∀ m, n < m → ¬ start.Occurs Q es m

variable {start : Service κ τ ν ε} {es : List (Event κ τ ν ε)} {n : Nat}

theorem Occurs.lt (h : start.Occurs P es n) : n < es.length := by
  obtain ⟨e, he, -⟩ := h
  exact (List.getElem?_eq_some_iff.mp he).1

/-- What occurs in a run has occurred before the last event, or occurs with
it. -/
theorem occurs_concat_iff {e : Event κ τ ν ε} :
    start.Occurs P (es ++ [e]) n
      ↔ start.Occurs P es n ∨ n = es.length ∧ P (start.run es).2 e := by
  constructor
  · rintro ⟨f, hf, hp⟩
    rcases Nat.lt_or_ge n es.length with hn | hn
    · rw [List.getElem?_append_left hn] at hf
      rw [List.take_append_of_le_length (Nat.le_of_lt hn)] at hp
      exact .inl ⟨f, hf, hp⟩
    · -- there is only one event that is not one of the shorter run
      have hlt := (List.getElem?_eq_some_iff.mp hf).1
      rw [List.length_append, List.length_singleton] at hlt
      obtain rfl : n = es.length := by omega
      rw [List.getElem?_concat_length] at hf
      obtain rfl := Option.some.inj hf
      rw [List.take_left] at hp
      exact .inr ⟨rfl, hp⟩
  · rintro (⟨f, hf, hp⟩ | ⟨rfl, hp⟩)
    · have hn := (List.getElem?_eq_some_iff.mp hf).1
      refine ⟨f, (List.getElem?_append_left hn).trans hf, ?_⟩
      rwa [List.take_append_of_le_length (Nat.le_of_lt hn)]
    · refine ⟨e, List.getElem?_concat_length, ?_⟩
      rwa [List.take_left]

/-- What has been the case since in a run was so before the last event, unless
this ends it, or begins with it. -/
theorem since_concat_iff {e : Event κ τ ν ε} :
    start.Since P Q (es ++ [e]) n
      ↔ (start.Since P Q es n ∧ ¬ Q (start.run es).2 e) ∨
        n = es.length ∧ P (start.run es).2 e := by
  constructor
  · rintro ⟨ho, hn⟩
    rcases occurs_concat_iff.mp ho with ho | ho
    · refine .inl ⟨⟨ho, fun m hm hq => hn m hm (occurs_concat_iff.mpr (.inl hq))⟩, fun hq => ?_⟩
      exact hn es.length ho.lt (occurs_concat_iff.mpr (.inr ⟨rfl, hq⟩))
    · exact .inr ho
  · rintro (⟨⟨ho, hn⟩, hq⟩ | ⟨rfl, hp⟩)
    · refine ⟨occurs_concat_iff.mpr (.inl ho), fun m hm hm' => ?_⟩
      rcases occurs_concat_iff.mp hm' with hm' | ⟨-, hm'⟩
      · exact hn m hm hm'
      · exact hq hm'
    · refine ⟨occurs_concat_iff.mpr (.inr ⟨rfl, hp⟩), fun m hm hm' => ?_⟩
      -- nothing comes after the last event
      have hlt := hm'.lt
      rw [List.length_append, List.length_singleton] at hlt
      omega

/-- What happened in a part of a run happened in the run. -/
theorem occurs_append_iff (hn : n < es.length) (fs : List (Event κ τ ν ε)) :
    start.Occurs P (es ++ fs) n ↔ start.Occurs P es n := by
  rw [Occurs, Occurs, List.getElem?_append_left hn, List.take_append_of_le_length (Nat.le_of_lt hn)]

theorem Since.of_append {fs : List (Event κ τ ν ε)} (h : start.Since P Q (es ++ fs) n)
    (hn : n < es.length) : start.Since P Q es n where
  occurs := (occurs_append_iff hn fs).mp h.occurs
  not_since m hm ho := h.not_since m hm ((occurs_append_iff ho.lt fs).mpr ho)

/-- What has not been the case since has not been so in a special way. -/
theorem Since.mono {R : Service κ τ ν ε → Event κ τ ν ε → Prop} (h : start.Since P Q es n)
    (hR : ∀ s e, R s e → Q s e) : start.Since P R es n :=
  ⟨h.occurs, fun m hm ⟨e, he, hr⟩ => h.not_since m hm ⟨e, he, hR _ _ hr⟩⟩

theorem Since.lt (h : start.Since P Q es n) : n < es.length := h.occurs.lt

/-- What holds only where it has just come about, or held before and is not
undone, came about at some time and has not been undone since. -/
theorem exists_since {S : Service κ τ ν ε → Prop} (h₀ : ¬ S start)
    (hstep : ∀ (es : List (Event κ τ ν ε)) (e : Event κ τ ν ε), S ((start.run es).2.step e).2 →
      P (start.run es).2 e ∨ S (start.run es).2 ∧ ¬ Q (start.run es).2 e)
    (h : S (start.run es).2) : ∃ n, start.Since P Q es n := by
  induction es using List.reverseRecOn with
  | nil => exact absurd h h₀
  | append_singleton es e ih =>
    rw [run_concat_snd] at h
    rcases hstep es e h with hp | ⟨h, hq⟩
    · exact ⟨es.length, since_concat_iff.mpr (.inr ⟨rfl, hp⟩)⟩
    · obtain ⟨n, hn⟩ := ih h
      exact ⟨n, since_concat_iff.mpr (.inl ⟨hn, hq⟩)⟩

/-- What comes about and stays unless it is undone holds as long as it has not
been undone. -/
theorem Since.holds {S : Service κ τ ν ε → Prop} (h : start.Since P Q es n)
    (hP : ∀ s e, P s e → S (s.step e).2) (hQ : ∀ s e, S s → ¬ Q s e → S (s.step e).2) :
    S (start.run es).2 := by
  induction es using List.reverseRecOn with
  | nil =>
    obtain ⟨e, he, -⟩ := h.occurs
    cases he
  | append_singleton es e ih =>
    rw [run_concat_snd]
    rcases since_concat_iff.mp h with ⟨h, hq⟩ | ⟨-, hp⟩
    · exact hQ _ e (ih h) hq
    · exact hP _ e hp

/-- Something happened last only once. -/
theorem Since.unique {m : Nat} (h : start.Since P P es m) (h' : start.Since P P es n) :
    m = n := by
  rcases Nat.lt_trichotomy m n with hlt | heq | hgt
  · exact absurd h'.occurs (h.not_since n hlt)
  · exact heq
  · exact absurd h.occurs (h'.not_since m hgt)

end Service

end SlotStates
