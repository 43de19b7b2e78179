/-
SlotStates/Proofs/Queue/Rounds.lean

What becomes of the rounds of a queue.

A round is launched running.  It gets its result when it ends by itself, or
when somebody asks for it after its executor was taken away.  Whichever it is,
the queue does one thing: it settles a round that had no result.  So all that
can happen to a queue is the admission of a request (`Admitted`, with one case
for each way), the settling of such a round (`finish_induction`,
`poll_induction`), a shutdown, and a change of the cache.

What happens to one round is described by functions on rounds: a shutdown
leaves it `stopped`, and asking for its result answers its `verdict` and
leaves it `observed` (`rounds_shutdown`, `poll_fst`, `rounds_poll`).
-/
import SlotStates.Queue.Service

namespace SlotStates

variable {κ τ ν ε : Type}

/-! ### One round -/

/-- The result of a round whose executor was taken away. -/
def cancellation [KeyText κ] (k : κ) : Result ε ν :=
  .error (.queue (.cancelled (KeyText.text k)))

namespace Round

/-- The result of a round, once it has one. -/
def result? (a : Round κ τ ν ε) : Option (Result ε ν) :=
  match a.status with
  | .settled result => some result
  | _ => none

/-- What asking for the result of a round answers. -/
def verdict [KeyText κ] (a : Round κ τ ν ε) : Option (Result ε ν) :=
  match a.status with
  | .running => none
  | .killed => some (cancellation a.key)
  | .settled result => some result

/-- What asking for the result of a round leaves of it. -/
def observed [KeyText κ] (a : Round κ τ ν ε) : Round κ τ ν ε :=
  match a.status with
  | .killed => { a with status := .settled (cancellation a.key) }
  | _ => a

/-- What taking away its executor leaves of a round. -/
def stopped (a : Round κ τ ν ε) : Round κ τ ν ε :=
  match a.status with
  | .running => { a with status := .killed }
  | _ => a

theorem result?_of_running {a : Round κ τ ν ε} (h : a.status = .running) : a.result? = none := by
  simp [result?, h]

theorem result?_of_killed {a : Round κ τ ν ε} (h : a.status = .killed) : a.result? = none := by
  simp [result?, h]

theorem verdict_observed [KeyText κ] (a : Round κ τ ν ε) : a.observed.verdict = a.verdict := by
  obtain ⟨k, t, status⟩ := a
  cases status <;> rfl

theorem observed_observed [KeyText κ] (a : Round κ τ ν ε) : a.observed.observed = a.observed := by
  obtain ⟨k, t, status⟩ := a
  cases status <;> rfl

theorem status_observed_ne_killed [KeyText κ] (a : Round κ τ ν ε) :
    a.observed.status ≠ .killed := by
  obtain ⟨k, t, status⟩ := a
  cases status <;> exact fun h => by cases h

/-- Of a round that was not stopped asking learns what is there. -/
theorem verdict_eq_result? [KeyText κ] (a : Round κ τ ν ε) (h : a.status ≠ .killed) :
    a.verdict = a.result? := by
  obtain ⟨k, t, status⟩ := a
  cases status with
  | killed => exact absurd rfl h
  | _ => rfl

theorem result?_stopped (a : Round κ τ ν ε) : a.stopped.result? = a.result? := by
  obtain ⟨k, t, status⟩ := a
  cases status <;> rfl

/-- What a round may turn into: its key and task stay, and its result stays
once it has one. -/
structure Becomes (a b : Round κ τ ν ε) : Prop where
  key : b.key = a.key
  task : b.task = a.task
  result : ∀ {result}, a.result? = some result → b.result? = some result

theorem Becomes.refl (a : Round κ τ ν ε) : Becomes a a := ⟨rfl, rfl, id⟩

theorem Becomes.trans {a b c : Round κ τ ν ε} (h : Becomes a b) (h' : Becomes b c) :
    Becomes a c :=
  ⟨h'.key.trans h.key, h'.task.trans h.task, fun hr => h'.result (h.result hr)⟩

theorem becomes_observed [KeyText κ] (a : Round κ τ ν ε) : a.Becomes a.observed := by
  obtain ⟨k, t, status⟩ := a
  cases status with
  | killed => exact ⟨rfl, rfl, fun h => by cases h⟩
  | _ => exact .refl _

theorem becomes_stopped (a : Round κ τ ν ε) : a.Becomes a.stopped := by
  obtain ⟨k, t, status⟩ := a
  cases status with
  | running => exact ⟨rfl, rfl, fun h => by cases h⟩
  | _ => exact .refl _

end Round

namespace Queue

/-- The result of the round of a number, once it has one. -/
def result? (q : Queue κ τ ν ε) (r : Nat) : Option (Result ε ν) :=
  q.rounds[r]?.bind Round.result?

/-- A round of a queue and its number. -/
def Has (q : Queue κ τ ν ε) (r : Nat) (a : Round κ τ ν ε) : Prop := q.rounds[r]? = some a

theorem Has.lt {q : Queue κ τ ν ε} {r : Nat} {a : Round κ τ ν ε} (h : q.Has r a) :
    r < q.rounds.length :=
  (List.getElem?_eq_some_iff.mp h).1

theorem Has.unique {q : Queue κ τ ν ε} {r : Nat} {a b : Round κ τ ν ε} (h : q.Has r a)
    (h' : q.Has r b) : a = b :=
  Option.some.inj (h.symm.trans h')

theorem Has.result? {q : Queue κ τ ν ε} {r : Nat} {a : Round κ τ ν ε} (h : q.Has r a) :
    q.result? r = a.result? := by
  rw [Queue.result?, h]
  rfl

/-- The rounds after a launch. -/
theorem has_append_iff {q q' : Queue κ τ ν ε} {a : Round κ τ ν ε}
    (h : q'.rounds = q.rounds ++ [a]) {r : Nat} {b : Round κ τ ν ε} :
    q'.Has r b ↔ q.Has r b ∨ r = q.rounds.length ∧ b = a := by
  show q'.rounds[r]? = some b ↔ q.rounds[r]? = some b ∨ _
  rw [h]
  -- a number of before, the new one, or one that is still to come
  rcases Nat.lt_trichotomy r q.rounds.length with hr | rfl | hr
  · rw [List.getElem?_append_left hr]
    exact ⟨.inl, fun h => h.elim id fun h => absurd h.1 (Nat.ne_of_lt hr)⟩
  · simp [eq_comm]
  · have hn : q.rounds[r]? = none := List.getElem?_eq_none (Nat.le_of_lt hr)
    have hn' : (q.rounds ++ [a])[r]? = none := List.getElem?_eq_none (by simp; omega)
    simp [hn, hn', Nat.ne_of_gt hr]

theorem running?_eq_some_iff {q : Queue κ τ ν ε} {r : Nat} {a : Round κ τ ν ε} :
    q.running? r = some a ↔ q.Has r a ∧ a.status = .running := by
  unfold running? Has
  rcases q.rounds[r]? with - | ⟨k, t, status⟩
  · simp
  · cases status <;> simp <;> rintro rfl <;> simp

theorem killed?_eq_some_iff {q : Queue κ τ ν ε} {r : Nat} {a : Round κ τ ν ε} :
    q.killed? r = some a ↔ q.Has r a ∧ a.status = .killed := by
  unfold killed? Has
  rcases q.rounds[r]? with - | ⟨k, t, status⟩
  · simp
  · cases status <;> simp <;> rintro rfl <;> simp

/-! ### What an operation leaves alone -/

@[simp] theorem rounds_record (q : Queue κ τ ν ε) (o : Outcome) :
    (q.record o).rounds = q.rounds := rfl

@[simp] theorem inFlight_record (q : Queue κ τ ν ε) (o : Outcome) :
    (q.record o).inFlight = q.inFlight := rfl

@[simp] theorem cache_record (q : Queue κ τ ν ε) (o : Outcome) :
    (q.record o).cache = q.cache := rfl

@[simp] theorem rounds_updateSizes (q : Queue κ τ ν ε) : q.updateSizes.rounds = q.rounds := rfl

@[simp] theorem inFlight_updateSizes (q : Queue κ τ ν ε) :
    q.updateSizes.inFlight = q.inFlight := rfl

@[simp] theorem cache_updateSizes (q : Queue κ τ ν ε) : q.updateSizes.cache = q.cache := rfl

theorem rounds_shutdown (q : Queue κ τ ν ε) :
    q.shutdown.rounds = q.rounds.map Round.stopped := rfl

@[simp] theorem inFlight_shutdown (q : Queue κ τ ν ε) : q.shutdown.inFlight = q.inFlight := rfl

@[simp] theorem cache_shutdown (q : Queue κ τ ν ε) : q.shutdown.cache = q.cache := rfl

@[simp] theorem rounds_launch (q : Queue κ τ ν ε) (k : κ) (t : τ) :
    (q.launch k t).rounds = q.rounds ++ [⟨k, t, .running⟩] := rfl

@[simp] theorem inFlight_launch (q : Queue κ τ ν ε) (k : κ) (t : τ) :
    (q.launch k t).inFlight = (k, q.rounds.length) :: q.inFlight := rfl

@[simp] theorem cache_launch (q : Queue κ τ ν ε) (k : κ) (t : τ) :
    (q.launch k t).cache = q.cache := rfl

variable [DecidableEq κ]

@[simp] theorem rounds_keep (q : Queue κ τ ν ε) (k : κ) (result : Result ε ν) :
    (q.keep k result).rounds = q.rounds := by
  cases result <;> rfl

@[simp] theorem inFlight_keep (q : Queue κ τ ν ε) (k : κ) (result : Result ε ν) :
    (q.keep k result).inFlight = q.inFlight := by
  cases result <;> rfl

@[simp] theorem rounds_settle (q : Queue κ τ ν ε) (r : Nat) (a : Round κ τ ν ε)
    (result : Result ε ν) :
    (q.settle r a result).rounds = q.rounds.set r { a with status := .settled result } := by
  simp [settle, complete]

@[simp] theorem inFlight_settle (q : Queue κ τ ν ε) (r : Nat) (a : Round κ τ ν ε)
    (result : Result ε ν) :
    (q.settle r a result).inFlight = q.inFlight.filter fun e => e.1 ≠ a.key := rfl

@[simp] theorem cache_settle (q : Queue κ τ ν ε) (r : Nat) (a : Round κ τ ν ε)
    (result : Result ε ν) :
    (q.settle r a result).cache = (q.keep a.key result).cache := rfl

/-- The rounds after one was settled. -/
theorem has_settle_iff {q : Queue κ τ ν ε} {r : Nat} {a : Round κ τ ν ε} (ha : q.Has r a)
    {result : Result ε ν} {i : Nat} {b : Round κ τ ν ε} :
    (q.settle r a result).Has i b
      ↔ (r = i ∧ b = { a with status := .settled result }) ∨ (r ≠ i ∧ q.Has i b) := by
  show (q.settle r a result).rounds[i]? = some b ↔ _
  rw [rounds_settle]
  by_cases hi : r = i
  · subst hi
    rw [List.getElem?_set_self ha.lt]
    simp [eq_comm]
  · rw [List.getElem?_set_ne hi]
    simp [hi, Has]

/-! ### Admitting a request -/

/-- What a search for a base makes of the cache, of the count of the request
and of its task. -/
inductive Prepared [Task τ κ ν] (c : Cache κ ν) (t : τ) :
    Option (κ × ν) → Cache κ ν → Outcome → τ → Prop
  | rebased {a : κ} {v : ν} :
      Prepared c t (some (a, v)) (c.promote a) .rebased (Task.rebase t v)
  | fresh : Prepared c t none c .fresh t

/-- The ways in which a request can be admitted, and what each leaves. -/
inductive Admitted [Task τ κ ν] (q : Queue κ τ ν ε) (t : τ) :
    Admission κ ν → Queue κ τ ν ε → Prop
  | hit {v : ν} (found : q.cache.find? (Task.key t) = some v) :
      Admitted q t (.hit v) { q.record .cached with cache := q.cache.promote (Task.key t) }
  | joined {r : Nat} (missed : q.cache.find? (Task.key t) = none)
      (inFlight : q.inFlight.lookup (Task.key t) = some r) :
      Admitted q t (.joined r) (q.record .duplicate)
  | launched {w : Walk κ ν} {c : Cache κ ν} {o : Outcome} {t' : τ}
      (missed : q.cache.find? (Task.key t) = none)
      (idle : q.inFlight.lookup (Task.key t) = none)
      (searched : q.cache.walk (Task.ancestor? t) q.limits.maxSteps = w)
      (prepared : Prepared q.cache t w.base c o t') :
      Admitted q t (.launched q.rounds.length w)
        ({ q.record o with cache := c }.launch (Task.key t) t')

theorem admitted_request [Task τ κ ν] (q : Queue κ τ ν ε) (t : τ) :
    Admitted q t (q.request t).1 (q.request t).2 := by
  -- in the order in which a request asks: the cache, the registry, the ancestors
  rcases hf : q.cache.find? (Task.key t) with - | v
  · rcases hl : q.inFlight.lookup (Task.key t) with - | r
    · rcases hw : q.cache.walk (Task.ancestor? t) q.limits.maxSteps with ⟨n, - | ⟨a, v⟩⟩
      · simp only [request, hf, hl, hw]
        exact .launched hf hl hw .fresh
      · simp only [request, hf, hl, hw]
        exact .launched hf hl hw .rebased
    · simp only [request, hf, hl]
      exact .joined hf hl
  · simp only [request, hf]
    exact .hit hf

theorem request_of_cached [Task τ κ ν] {q : Queue κ τ ν ε} {t : τ} {v : ν}
    (h : q.cache.find? (Task.key t) = some v) : (q.request t).1 = .hit v := by
  simp only [request, h]

theorem request_of_missed [Task τ κ ν] {q : Queue κ τ ν ε} {t : τ}
    (h : q.cache.find? (Task.key t) = none) :
    ∃ r, (q.request t).1 = .joined r ∨ ∃ w, (q.request t).1 = .launched r w := by
  have ht := q.admitted_request t
  generalize (q.request t).1 = admission, (q.request t).2 = q' at ht
  cases ht with
  | hit found => cases h.symm.trans found
  | joined => exact ⟨_, .inl rfl⟩
  | launched => exact ⟨_, .inr ⟨_, rfl⟩⟩

/-! ### Ending a round -/

variable [KeyText κ]

theorem finish_of_running {q : Queue κ τ ν ε} {r : Nat} {a : Round κ τ ν ε}
    (h : q.running? r = some a) (e : Ending ε ν) :
    q.finish r e = q.settle r a (e.result (KeyText.text a.key)) := by
  simp [finish, h]

theorem finish_of_not_running {q : Queue κ τ ν ε} {r : Nat} (h : q.running? r = none)
    (e : Ending ε ν) : q.finish r e = q := by
  simp [finish, h]

/-- What ending a round leaves is the queue as it was or with a round settled
that had no result. -/
theorem finish_induction {P : Queue κ τ ν ε → Prop} {q : Queue κ τ ν ε} (h : P q)
    (settle : ∀ {r a} result, q.Has r a → a.result? = none → P (q.settle r a result))
    (r : Nat) (e : Ending ε ν) : P (q.finish r e) := by
  rcases hr : q.running? r with - | a
  · rwa [finish_of_not_running hr]
  · obtain ⟨ha, hs⟩ := running?_eq_some_iff.mp hr
    rw [finish_of_running hr]
    exact settle _ ha (Round.result?_of_running hs)

theorem poll_of_killed {q : Queue κ τ ν ε} {r : Nat} {a : Round κ τ ν ε}
    (h : q.killed? r = some a) :
    q.poll r = (some (cancellation a.key), q.settle r a (cancellation a.key)) := by
  simp [poll, h, cancellation]

theorem poll_of_not_killed {q : Queue κ τ ν ε} {r : Nat} (h : q.killed? r = none) :
    (q.poll r).2 = q := by
  simp only [poll, h]
  split <;> rfl

/-- What polling leaves is the queue as it was or with a stopped round
cancelled. -/
theorem poll_induction {P : Queue κ τ ν ε → Prop} {q : Queue κ τ ν ε} (h : P q)
    (cancel : ∀ {r a}, q.Has r a → a.status = .killed → P (q.settle r a (cancellation a.key)))
    (r : Nat) : P (q.poll r).2 := by
  rcases hr : q.killed? r with - | a
  · rwa [poll_of_not_killed hr]
  · obtain ⟨ha, hs⟩ := killed?_eq_some_iff.mp hr
    rw [poll_of_killed hr]
    exact cancel ha hs

theorem poll_fst (q : Queue κ τ ν ε) (r : Nat) :
    (q.poll r).1 = q.rounds[r]?.bind Round.verdict := by
  unfold poll killed?
  rcases q.rounds[r]? with - | ⟨k, t, status⟩
  · rfl
  · cases status <;> rfl

theorem rounds_poll (q : Queue κ τ ν ε) (r : Nat) :
    (q.poll r).2.rounds = q.rounds.modify r Round.observed := by
  apply List.ext_getElem?
  intro i
  rw [List.getElem?_modify]
  rcases hr : q.killed? r with - | a
  · -- nothing is settled, and observing a round that was not stopped leaves it alone
    rw [poll_of_not_killed hr]
    by_cases hi : r = i
    · subst hi
      rcases ha : q.rounds[r]? with - | ⟨k, t, status⟩
      · simp
      · cases status <;> simp [Round.observed, killed?, ha] at hr ⊢
    · simp [hi]
  · -- the round that is settled is the one that is observed
    obtain ⟨ha, hs⟩ := killed?_eq_some_iff.mp hr
    have hl := ha.lt
    rw [poll_of_killed hr, rounds_settle, List.getElem?_set]
    by_cases hi : r = i
    · subst hi
      rw [show q.rounds[r]? = some a from ha]
      simp [hl, Round.observed, hs]
    · simp [hi]

end Queue

end SlotStates
