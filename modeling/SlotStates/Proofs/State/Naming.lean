/-
SlotStates/Proofs/State/Naming.lean

An error that a queue reports names one key.

A queue reports the errors of computations that panicked or were cancelled, and
names the key by its text.  The message of such an error determines the error
(`QueueError.message_inj`), and so the text of the key.  In a run, whatever
comes in for a round is an ending of its computation or a cancellation, both
under the key of the round; so what a caller is told names the key that the
caller asked for (`Service.names_of_resolved`).

All this is so for keys of any kind.  The keys of states can be told from their
texts, so that no error names two of them (`StateKey.errors_name_one_key`).
-/
import SlotStates.Proofs.Chain.KeyTexts
import SlotStates.Proofs.Queue.Values
import SlotStates.State.Task

namespace SlotStates

variable {κ τ ν ε : Type}

/-! ### One error -/

namespace QueueError

/-- Whether an error names a key. -/
def Names [KeyText κ] (x : QueueError) (k : κ) : Prop :=
  match x with
  | .panicked text | .cancelled text => text = KeyText.text k

/-- An error that names a key names no other, if keys can be told from their
texts. -/
theorem Names.names_iff [KeyText κ] {x : QueueError} {k : κ} (h : x.Names k)
    (inj : ∀ {a b : κ}, KeyText.text a = KeyText.text b → a = b) {k' : κ} :
    x.Names k' ↔ k' = k := by
  refine ⟨fun h' => ?_, fun e => e ▸ h⟩
  cases x with
  | panicked text | cancelled text => exact inj (h'.symm.trans h)

theorem panicked_message_inj {s t : String} :
    (panicked s).message = (panicked t).message ↔ s = t :=
  Text.framed_inj _ _

theorem cancelled_message_inj {s t : String} :
    (cancelled s).message = (cancelled t).message ↔ s = t :=
  Text.framed_inj _ _

theorem panicked_message_ne (s t : String) :
    (panicked s).message ≠ (cancelled t).message := by
  intro h
  have h : "computation for " ++ s ++ " panicked"
      = "computation for " ++ t ++ " was cancelled before completing" := h
  -- the last words end with different letters
  have hlast := congrArg (·.toList.getLast?) h
  simp [List.getLast?_cons] at hlast

theorem message_inj {x y : QueueError} : x.message = y.message ↔ x = y := by
  rcases x with s | s <;> rcases y with t | t
  · rw [panicked_message_inj, panicked.injEq]
  · exact iff_of_false (panicked_message_ne s t) nofun
  · exact iff_of_false (panicked_message_ne t s).symm nofun
  · rw [cancelled_message_inj, cancelled.injEq]

end QueueError

/-! ### The errors of a run -/

variable [KeyText κ]

/-- A result for a key names this key, if it is an error of the queue. -/
def NamesKey (k : κ) (result : Result ε ν) : Prop :=
  ∀ x, result = .error (.queue x) → x.Names k

theorem namesKey_ending (k : κ) (e : Ending ε ν) : NamesKey k (e.result (KeyText.text k)) := by
  intro x h
  cases e <;> cases h
  rfl

theorem namesKey_cancellation (k : κ) : NamesKey k (cancellation k : Result ε ν) := by
  intro x h
  cases h
  rfl

variable [DecidableEq κ] [Task τ κ ν]

namespace Service

/-- Only errors that name their keys come in. -/
theorem accepts_namesKey (s : Service κ τ ν ε) (es : List (Event κ τ ν ε)) :
    s.Accepts NamesKey (fun _ _ => True) es := by
  induction es generalizing s with
  | nil => trivial
  | cons e es ih =>
    refine ⟨?_, ih _⟩
    cases e with
    | perform caller task => exact ⟨trivial, fun _ _ _ _ _ => trivial⟩
    | finish r e => exact fun a _ _ => namesKey_ending a.key e
    | shutdown => exact fun r a _ _ => namesKey_cancellation a.key
    | store k v => exact fun x h => by cases h
    | _ => trivial

/-- An error of the queue that a caller is told names a key that this caller
asked for. -/
theorem names_of_resolved {limits : Limits} {metrics : Option TaskMetrics}
    {es : List (Event κ τ ν ε)} {report : Report κ ν ε}
    (hreport : report ∈ ((fresh limits metrics).run es).1) {caller : String} {x : QueueError}
    (h : (caller, .error (.queue x)) ∈ report.resolved) :
    ∃ task, .perform caller task ∈ es ∧ x.Names (Task.key task) := by
  have htold := List.mem_flatMap_of_mem hreport h
  rw [← Ledger.told_after] at htold
  obtain ⟨⟨c, result⟩, ht, he⟩ := List.mem_map.mp htold
  obtain ⟨rfl, rfl⟩ := Prod.mk.inj he
  have hnames := Ledger.told_kept limits metrics (accepts_namesKey _ es) _ ht x rfl
  -- whoever is told has made a request
  obtain ⟨past, caller, task, later, rfl, rfl⟩ :=
    Ledger.known_after (List.mem_append_left _ (List.mem_map_of_mem ht))
  exact ⟨task, List.mem_append_right _ List.mem_cons_self, hnames⟩

end Service

/-! ### Keys of states -/

namespace StateKey

variable [Task τ StateKey ν]

/-- **An error of a queue of states names exactly one key.**

Two keys have the same text only if they are the same, for each of the three
texts of a key.  Hence the errors that report a panic for two keys are equal
exactly if the keys are, and so are their messages; and the same holds of the
errors that report a cancellation.

Say that in a run of a queue a caller is told such an error.  Then the caller
asked for a key that this error names, and no error with the same message names
any other key. -/
theorem errors_name_one_key (limits : Limits) (metrics : Option TaskMetrics)
    (es : List (Event StateKey τ ν ε)) :
    (∀ a b : StateKey,
      (a.display = b.display ↔ a = b) ∧
      (a.debug = b.debug ↔ a = b) ∧
      (a.pretty = b.pretty ↔ a = b)) ∧
    (∀ a b : StateKey,
      (QueueError.panicked (KeyText.text a) = .panicked (KeyText.text b) ↔ a = b) ∧
      (QueueError.cancelled (KeyText.text a) = .cancelled (KeyText.text b) ↔ a = b) ∧
      ((QueueError.panicked (KeyText.text a)).message
        = (QueueError.panicked (KeyText.text b)).message ↔ a = b) ∧
      ((QueueError.cancelled (KeyText.text a)).message
        = (QueueError.cancelled (KeyText.text b)).message ↔ a = b)) ∧
    (∀ report ∈ ((Service.fresh limits metrics).run es).1, ∀ caller x,
      (caller, .error (.queue x)) ∈ report.resolved →
      ∃ task, .perform caller task ∈ es ∧
        ∀ y : QueueError, y.message = x.message →
          ∀ k : StateKey, y.Names k ↔ k = Task.key task) := by
  have text_inj : ∀ {a b : StateKey}, KeyText.text a = KeyText.text b ↔ a = b := debug_inj
  refine ⟨fun a b => ⟨display_inj, debug_inj, pretty_inj⟩, fun a b => ⟨?_, ?_, ?_, ?_⟩, ?_⟩
  · rw [QueueError.panicked.injEq, text_inj]
  · rw [QueueError.cancelled.injEq, text_inj]
  · rw [QueueError.panicked_message_inj, text_inj]
  · rw [QueueError.cancelled_message_inj, text_inj]
  · intro report hreport caller x hx
    obtain ⟨task, htask, hnames⟩ := Service.names_of_resolved hreport hx
    refine ⟨task, htask, fun y hy k => ?_⟩
    obtain rfl := QueueError.message_inj.mp hy
    exact hnames.names_iff text_inj.mp

/-- One computation panics and another one is cancelled, and each error names
its own key. -/
theorem panic_and_cancellation_name_their_keys :
    let k : StateKey := ⟨5, .zero⟩
    let k' : StateKey := ⟨51, .zero⟩
    let es : List (Event StateKey (StateTask Slot) Slot StateError) :=
      [.perform "a" ⟨k, none⟩, .perform "b" ⟨k', none⟩, .finish 0 .panicked, .shutdown]
    ((Service.fresh .standard none).run es).1.map (·.resolved)
        = [[], [], [("a", .error (.queue (.panicked k.debug)))],
          [("b", .error (.queue (.cancelled k'.debug)))]] ∧
      (∀ j, (QueueError.panicked k.debug).Names j ↔ j = k) ∧
      ∀ j, (QueueError.cancelled k'.debug).Names j ↔ j = k' := by
  intro k k' es
  have hresolved : ((Service.fresh .standard none).run es).1.map (·.resolved)
      = [[], [], [("a", .error (.queue (.panicked k.debug)))],
        [("b", .error (.queue (.cancelled k'.debug)))]] := by
    decide +kernel
  obtain ⟨-, -, names⟩ := errors_name_one_key .standard none es
  refine ⟨hresolved, ?_⟩
  generalize ((Service.fresh .standard none).run es).1 = reports at hresolved names
  have named : ∀ caller x, [(caller, .error (.queue x))] ∈ reports.map (·.resolved) →
      ∃ task, .perform caller task ∈ es ∧ ∀ j, x.Names j ↔ j = Task.key task := by
    intro caller x h
    obtain ⟨report, hreport, hr⟩ := List.mem_map.mp h
    obtain ⟨task, htask, h⟩ := names report hreport caller x (hr ▸ List.mem_singleton_self _)
    exact ⟨task, htask, h x rfl⟩
  rw [hresolved] at named
  constructor
  · obtain ⟨task, htask, h⟩ := named "a" (.panicked k.debug) (by simp)
    obtain rfl : task = ⟨k, none⟩ := by simpa [es] using htask
    exact h
  · obtain ⟨task, htask, h⟩ := named "b" (.cancelled k'.debug) (by simp)
    obtain rfl : task = ⟨k', none⟩ := by simpa [es] using htask
    exact h

end StateKey

end SlotStates
