/-
SlotStates/Proofs/Queue/Events.lean

What an event does to a service.

An event changes the queue (`Queue.apply`), and some events are followed by
asking on behalf of callers (`Service.asked`).  Asking one after the other
comes to the same as asking all at once: what one caller is told does not
depend on who asked before (`redeem_redeem`), so that the callers who are told
and those who go on waiting are found by looking at the queue as it was before
anybody asked (`pollAll_resolved`, `pollAll_waiting`).

What an event makes of a round is one equation (`has_step`): the event's own
effect on it (`Round.after`), and then, if somebody asks for it, what asking
leaves.  Hence rounds are never forgotten, their keys and tasks stay, and so
does a result (`grows_run`).

A property of queues that events and polling keep holds after every run
(`run_queue`).
-/
import SlotStates.Proofs.Queue.Rounds

namespace SlotStates

variable {κ τ ν ε : Type} [DecidableEq κ] [KeyText κ]

/-- Whether a caller waits for the round of a number. -/
def Waiter.waitsFor (w : Waiter ν) (r : Nat) : Bool :=
  match w.ticket with
  | .ready _ => false
  | .round i => i == r

omit [KeyText κ] [DecidableEq κ] in
theorem Waiter.waitsFor_iff {w : Waiter ν} {r : Nat} :
    w.waitsFor r = true ↔ w.ticket = .round r := by
  obtain ⟨caller, v | i⟩ := w <;> simp [waitsFor]

/-! ### Asking on behalf of callers -/

namespace Service

theorem redeem_snd_induction {P : Queue κ τ ν ε → Prop} {q : Queue κ τ ν ε} (h : P q)
    (poll : ∀ r, P (q.poll r).2) (t : Ticket ν) : P (redeem q t).2 := by
  cases t with
  | ready v => exact h
  | round r => exact poll r

/-- Who asks first changes nothing for who asks next. -/
theorem redeem_redeem (q : Queue κ τ ν ε) (t u : Ticket ν) :
    (redeem (redeem q t).2 u).1 = (redeem q u).1 := by
  rcases t with v | r
  · rfl
  rcases u with w | i
  · rfl
  -- a round that was cancelled by the first one answers the second the same
  show ((q.poll r).2.poll i).1 = (q.poll i).1
  rw [Queue.poll_fst, Queue.poll_fst, Queue.rounds_poll, List.getElem?_modify]
  by_cases hi : r = i
  · subst hi
    rcases q.rounds[r]? with - | a
    · rfl
    · simp [Round.verdict_observed]
  · simp [hi]

theorem pollAll_cons_queue (q : Queue κ τ ν ε) (w : Waiter ν) (ws : List (Waiter ν)) :
    (pollAll q (w :: ws)).queue = (pollAll (redeem q w.ticket).2 ws).queue := by
  rw [pollAll]
  rcases redeem q w.ticket with ⟨- | result, q'⟩ <;> rfl

theorem pollAll_cons_resolved (q : Queue κ τ ν ε) (w : Waiter ν) (ws : List (Waiter ν)) :
    (pollAll q (w :: ws)).resolved
      = ((redeem q w.ticket).1.map (w.caller, ·)).toList
        ++ (pollAll (redeem q w.ticket).2 ws).resolved := by
  rw [pollAll]
  rcases redeem q w.ticket with ⟨- | result, q'⟩ <;> rfl

theorem pollAll_cons_waiting (q : Queue κ τ ν ε) (w : Waiter ν) (ws : List (Waiter ν)) :
    (pollAll q (w :: ws)).waiting
      = [w].filter (fun w => (redeem q w.ticket).1.isNone)
        ++ (pollAll (redeem q w.ticket).2 ws).waiting := by
  rw [pollAll]
  rcases h : redeem q w.ticket with ⟨- | result, q'⟩ <;> simp [h]

/-- A property that polling keeps holds after asking on behalf of callers. -/
theorem pollAll_induction {P : Queue κ τ ν ε → Prop}
    (poll : ∀ {q} r, P q → P (q.poll r).2) {q : Queue κ τ ν ε} (h : P q)
    (ws : List (Waiter ν)) : P (pollAll q ws).queue := by
  induction ws generalizing q with
  | nil => exact h
  | cons w ws ih =>
    rw [pollAll_cons_queue]
    exact ih (redeem_snd_induction h (fun r => poll r h) w.ticket)

/-- Asking on behalf of callers changes nothing for who asks next. -/
theorem redeem_pollAll (q : Queue κ τ ν ε) (ws : List (Waiter ν)) (t : Ticket ν) :
    (redeem (pollAll q ws).queue t).1 = (redeem q t).1 := by
  induction ws generalizing q with
  | nil => rfl
  | cons w ws ih => rw [pollAll_cons_queue, ih, redeem_redeem]

/-- The callers who are told are those whose result is there. -/
theorem pollAll_resolved (q : Queue κ τ ν ε) (ws : List (Waiter ν)) :
    (pollAll q ws).resolved
      = ws.filterMap fun w => (redeem q w.ticket).1.map (w.caller, ·) := by
  induction ws generalizing q with
  | nil => rfl
  | cons w ws ih =>
    rw [pollAll_cons_resolved, ih, List.filterMap_cons]
    simp only [redeem_redeem]
    rcases (redeem q w.ticket).1 with - | result <;> rfl

/-- The callers who go on waiting are those whose result is not there. -/
theorem pollAll_waiting (q : Queue κ τ ν ε) (ws : List (Waiter ν)) :
    (pollAll q ws).waiting = ws.filter fun w => (redeem q w.ticket).1.isNone := by
  induction ws generalizing q with
  | nil => rfl
  | cons w ws ih =>
    rw [pollAll_cons_waiting, ih]
    simp only [redeem_redeem]
    rw [← List.filter_append]
    rfl

/-- Where nobody waits for a stopped round, asking on behalf of callers changes
nothing and notes nothing. -/
theorem pollAll_of_not_killed {q : Queue κ τ ν ε} {ws : List (Waiter ν)}
    (h : ∀ w ∈ ws, ∀ r, w.ticket = .round r → q.killed? r = none) :
    (pollAll q ws).queue = q ∧ (pollAll q ws).notes = [] := by
  induction ws with
  | nil => exact ⟨rfl, rfl⟩
  | cons w ws ih =>
    have ih := ih fun w hw => h w (List.mem_cons_of_mem _ hw)
    have redeemed : (redeem q w.ticket).2 = q ∧ redeemNotes q w.ticket = [] := by
      rcases hr : w.ticket with v | r
      · exact ⟨rfl, rfl⟩
      · have hk := h w List.mem_cons_self r hr
        exact ⟨Queue.poll_of_not_killed hk, by rw [redeemNotes, hk]; rfl⟩
    rw [pollAll, redeemed.2]
    rcases hr : redeem q w.ticket with ⟨- | result, q'⟩
    · obtain rfl : q' = q := by rw [← redeemed.1, hr]
      exact ih
    · obtain rfl : q' = q := by rw [← redeemed.1, hr]
      exact ih

/-- Asking on behalf of callers observes the rounds that they wait for. -/
theorem rounds_pollAll (q : Queue κ τ ν ε) (ws : List (Waiter ν)) (r : Nat) :
    (pollAll q ws).queue.rounds[r]?
      = q.rounds[r]?.map fun a => if ws.any (·.waitsFor r) then a.observed else a := by
  induction ws generalizing q with
  | nil => simp [pollAll]
  | cons w ws ih =>
    rw [pollAll_cons_queue, ih, List.any_cons]
    obtain ⟨caller, v | i⟩ := w
    · rfl
    · show ((q.poll i).2.rounds[r]?).map _ = _
      rw [Queue.rounds_poll, List.getElem?_modify]
      rcases q.rounds[r]? with - | a
      · simp
      · -- who asks for a round that was asked for finds it observed already
        by_cases hi : i = r <;>
          simp [Waiter.waitsFor, hi, Round.observed_observed]

theorem length_rounds_pollAll (q : Queue κ τ ν ε) (ws : List (Waiter ν)) :
    (pollAll q ws).queue.rounds.length = q.rounds.length :=
  pollAll_induction (P := fun q' => q'.rounds.length = q.rounds.length)
    (fun r h => by rw [Queue.rounds_poll, List.length_modify, h]) rfl ws

end Service

/-! ### One event -/

/-- What an event makes of the round of a number, before anybody asks for its
result. -/
def Round.after (a : Round κ τ ν ε) (r : Nat) : Event κ τ ν ε → Round κ τ ν ε
  | .finish i e =>
    match a.status with
    | .running =>
      if i = r then { a with status := .settled (e.result (KeyText.text a.key)) } else a
    | _ => a
  | .shutdown => a.stopped
  | _ => a

omit [DecidableEq κ] in
theorem Round.becomes_after (a : Round κ τ ν ε) (r : Nat) (e : Event κ τ ν ε) :
    a.Becomes (a.after r e) := by
  cases e with
  | finish i e =>
    obtain ⟨k, t, status⟩ := a
    cases status with
    | running =>
      simp only [after]
      split
      · exact ⟨rfl, rfl, fun h => by cases h⟩
      · exact .refl _
    | _ => exact .refl _
  | shutdown => exact a.becomes_stopped
  | _ => exact .refl a

namespace Queue

variable [Task τ κ ν]

/-- What an event does to the queue, before anybody asks for results. -/
def apply (q : Queue κ τ ν ε) : Event κ τ ν ε → Queue κ τ ν ε
  | .perform _ task => (q.request task).2
  | .finish r e => q.finish r e
  | .drop _ => q
  | .shutdown => q.shutdown
  | .get k => (q.get k).2
  | .store k v => q.store k v
  | .remove k => (q.remove k).2
  | .prune p => (q.prune p).2
  | .clear => q.clear

theorem has_apply {q : Queue κ τ ν ε} {r : Nat} {a : Round κ τ ν ε} (ha : q.Has r a)
    (e : Event κ τ ν ε) : (q.apply e).Has r (a.after r e) := by
  cases e with
  | perform caller task =>
    have h := q.admitted_request task
    show (q.request task).2.Has r a
    generalize (q.request task).1 = admission, (q.request task).2 = q' at h
    cases h with
    | launched =>
      -- a new round is the last, so that the others keep their numbers
      exact (has_append_iff rfl).mpr (.inl ha)
    | _ => exact ha
  | finish i e =>
    show (q.finish i e).Has r _
    rcases hi : q.running? i with - | b
    · -- no round ends, and `r` is not the number of one that runs
      rw [finish_of_not_running hi]
      have hn : ¬ (a.status = .running ∧ i = r) := by
        rintro ⟨hs, rfl⟩
        rw [running?_eq_some_iff.mpr ⟨ha, hs⟩] at hi
        cases hi
      have he : a.after r (.finish i e) = a := by
        obtain ⟨k, t, status⟩ := a
        cases status <;> simp_all [Round.after]
      rwa [he]
    · obtain ⟨hb, hs⟩ := running?_eq_some_iff.mp hi
      rw [finish_of_running hi, has_settle_iff hb]
      by_cases hr : i = r
      · subst hr
        obtain rfl := hb.unique ha
        exact .inl ⟨rfl, by simp [Round.after, hs]⟩
      · refine .inr ⟨hr, ?_⟩
        have he : a.after r (.finish i e) = a := by
          simp only [Round.after, if_neg hr]
          split <;> rfl
        rwa [he]
  | shutdown =>
    show q.shutdown.rounds[r]? = _
    rw [rounds_shutdown, List.getElem?_map, show q.rounds[r]? = some a from ha]
    rfl
  | _ => exact ha

end Queue

namespace Service

variable [Task τ κ ν]

/-- The callers on whose behalf results are asked for after an event. -/
def asked (s : Service κ τ ν ε) : Event κ τ ν ε → List (Waiter ν)
  | .perform caller task => s.waiters ++ [⟨caller, ticket (s.queue.request task).1⟩]
  | .finish r _ => if (s.queue.running? r).isSome then s.waiters else []
  | .shutdown => s.waiters
  | _ => []

theorem step_queue (s : Service κ τ ν ε) (e : Event κ τ ν ε) :
    (s.step e).2.queue = (pollAll (s.queue.apply e) (s.asked e)).queue := by
  cases e with
  | finish r e =>
    rcases h : s.queue.running? r with - | a
    · simp [step, asked, Queue.apply, h, pollAll, Queue.finish_of_not_running h]
    · simp [step, asked, Queue.apply, h, settled]
  | _ => rfl

/-- What a step makes of a round: what the event makes of it, observed if
somebody asks for it. -/
theorem has_step {s : Service κ τ ν ε} {r : Nat} {a : Round κ τ ν ε} (ha : s.queue.Has r a)
    (e : Event κ τ ν ε) :
    (s.step e).2.queue.Has r
      (if (s.asked e).any (·.waitsFor r) then (a.after r e).observed else a.after r e) := by
  show (s.step e).2.queue.rounds[r]? = _
  rw [step_queue, rounds_pollAll, show (s.queue.apply e).rounds[r]? = _ from Queue.has_apply ha e]
  rfl

/-- A property that events and polling keep is kept by a step. -/
theorem step_queue_induction {P : Queue κ τ ν ε → Prop}
    (poll : ∀ {q} r, P q → P (q.poll r).2) {s : Service κ τ ν ε} {e : Event κ τ ν ε}
    (apply : P (s.queue.apply e)) : P (s.step e).2.queue := by
  rw [step_queue]
  exact pollAll_induction poll apply _

/-- A property that events and polling keep holds after every run. -/
theorem run_queue {P : Queue κ τ ν ε → Prop} (apply : ∀ {q} e, P q → P (q.apply e))
    (poll : ∀ {q} r, P q → P (q.poll r).2) {s : Service κ τ ν ε} (h : P s.queue)
    (es : List (Event κ τ ν ε)) : P (s.run es).2.queue := by
  induction es generalizing s with
  | nil => exact h
  | cons e es ih => exact ih (step_queue_induction poll (apply e h))

theorem run_append_snd (s : Service κ τ ν ε) (es fs : List (Event κ τ ν ε)) :
    (s.run (es ++ fs)).2 = ((s.run es).2.run fs).2 := by
  induction es generalizing s with
  | nil => rfl
  | cons e es ih => exact ih (s.step e).2

theorem run_append_fst (s : Service κ τ ν ε) (es fs : List (Event κ τ ν ε)) :
    (s.run (es ++ fs)).1 = (s.run es).1 ++ ((s.run es).2.run fs).1 := by
  induction es generalizing s with
  | nil => rfl
  | cons e es ih => exact congrArg _ (ih (s.step e).2)

theorem run_concat (s : Service κ τ ν ε) (es : List (Event κ τ ν ε)) (e : Event κ τ ν ε) :
    s.run (es ++ [e])
      = ((s.run es).1 ++ [((s.run es).2.step e).1], ((s.run es).2.step e).2) :=
  Prod.ext (s.run_append_fst es [e]) (s.run_append_snd es [e])

theorem run_concat_snd (s : Service κ τ ν ε) (es : List (Event κ τ ν ε)) (e : Event κ τ ν ε) :
    (s.run (es ++ [e])).2 = ((s.run es).2.step e).2 :=
  s.run_append_snd es [e]

end Service

/-! ### Rounds are not forgotten -/

namespace Queue

/-- A later queue has all rounds of an earlier one, with what they turned
into. -/
structure Grows (q q' : Queue κ τ ν ε) : Prop where
  becomes : ∀ {r a}, q.Has r a → ∃ b, q'.Has r b ∧ a.Becomes b

omit [DecidableEq κ] [KeyText κ] in
theorem Grows.refl (q : Queue κ τ ν ε) : Grows q q := ⟨fun h => ⟨_, h, .refl _⟩⟩

omit [DecidableEq κ] [KeyText κ] in
theorem Grows.trans {q q' q'' : Queue κ τ ν ε} (h : Grows q q') (h' : Grows q' q'') :
    Grows q q'' where
  becomes ha := by
    obtain ⟨b, hb, hab⟩ := h.becomes ha
    obtain ⟨c, hc, hbc⟩ := h'.becomes hb
    exact ⟨c, hc, hab.trans hbc⟩

omit [DecidableEq κ] [KeyText κ] in
/-- A result that is there stays. -/
theorem Grows.result? {q q' : Queue κ τ ν ε} (h : Grows q q') {r : Nat} {result : Result ε ν}
    (hr : q.result? r = some result) : q'.result? r = some result := by
  obtain ⟨a, ha, har⟩ := Option.bind_eq_some_iff.mp hr
  obtain ⟨b, hb, hab⟩ := h.becomes ha
  rw [hb.result?]
  exact hab.result har

end Queue

namespace Service

variable [Task τ κ ν]

omit [Task τ κ ν] in
theorem grows_pollAll (q : Queue κ τ ν ε) (ws : List (Waiter ν)) :
    q.Grows (pollAll q ws).queue where
  becomes {r a} ha := by
    refine ⟨if ws.any (·.waitsFor r) then a.observed else a, ?_, ?_⟩
    · show (pollAll q ws).queue.rounds[r]? = _
      rw [rounds_pollAll, show q.rounds[r]? = some a from ha]
      rfl
    · split
      · exact a.becomes_observed
      · exact .refl a

theorem grows_step (s : Service κ τ ν ε) (e : Event κ τ ν ε) :
    s.queue.Grows (s.step e).2.queue where
  becomes {r a} ha := by
    refine ⟨_, has_step ha e, ?_⟩
    split
    · exact (a.becomes_after r e).trans (Round.becomes_observed _)
    · exact a.becomes_after r e

theorem grows_run (s : Service κ τ ν ε) (es : List (Event κ τ ν ε)) :
    s.queue.Grows (s.run es).2.queue := by
  induction es generalizing s with
  | nil => exact .refl _
  | cons e es ih => exact (s.grows_step e).trans (ih (s.step e).2)

end Service

end SlotStates
