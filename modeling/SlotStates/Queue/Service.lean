/-
SlotStates/Queue/Service.lean

A queue with the callers that wait for it.

A service takes events one at a time.  Callers make requests and may walk away
from them; computations end, in any order; the executor may be taken away; and
the cache is read and written in between.  An event that can end rounds is
followed by asking on behalf of all callers, in the order of their requests
(`Service.pollAll`); those whose result is there are told and leave.

The report of an event holds its answer, who was told what, and notes for the
log.
-/
import SlotStates.Queue.Basic

namespace SlotStates

/-- What is noted in the log. -/
inductive Note (κ : Type)
  | rebasing (key ancestor : κ)
  | caching (key : κ)
  | failed (key : κ)
  | panicked (key : κ)
  | pruned (n : Nat)
  deriving DecidableEq

/-- A note as a line of the log. -/
def Note.line {κ : Type} [KeyText κ] : Note κ → String
  | .rebasing k a =>
    "DEBUG rebasing task for " ++ KeyText.text k ++ " onto cached value for " ++ KeyText.text a
  | .caching k => "DEBUG caching computed value for " ++ KeyText.text k
  | .failed k => "DEBUG computation for " ++ KeyText.text k ++ " failed"
  | .panicked k => "WARN computation for " ++ KeyText.text k ++ " panicked"
  | .pruned n => "DEBUG pruned " ++ Nat.repr n ++ " cached values"

/-- What a caller holds after a request: the value, or the round it waits
for. -/
inductive Ticket (ν : Type)
  | ready (value : ν)
  | round (r : Nat)
  deriving DecidableEq

/-- A caller and what it waits for. -/
structure Waiter (ν : Type) where
  caller : String
  ticket : Ticket ν
  deriving DecidableEq

/-- A queue and its callers, in the order of their requests. -/
structure Service (κ τ ν ε : Type) where
  queue : Queue κ τ ν ε
  waiters : List (Waiter ν)

/-- What can happen to a service. -/
inductive Event (κ τ ν ε : Type)
  /-- A caller requests the value of a task's key. -/
  | perform (caller : String) (task : τ)
  /-- The computation of a round ends. -/
  | finish (round : Nat) (ending : Ending ε ν)
  /-- A caller walks away from all its requests. -/
  | drop (caller : String)
  /-- The executor is taken away and replaced. -/
  | shutdown
  | get (key : κ)
  | store (key : κ) (value : ν)
  | remove (key : κ)
  | prune (p : κ → Bool)
  | clear

/-- What an event answers by itself. -/
inductive Answer (κ ν : Type)
  | silent
  | admitted (admission : Admission κ ν)
  | value (v : Option ν)
  | dropped (any : Bool)
  deriving DecidableEq

/-- What an event led to. -/
structure Report (κ ν ε : Type) where
  answer : Answer κ ν
  /-- The callers that were told, in the order of their requests. -/
  resolved : List (String × Result ε ν)
  notes : List (Note κ)

namespace Service

variable {κ τ ν ε : Type}

/-- A fresh queue without callers. -/
def fresh (limits : Limits) (metrics : Option TaskMetrics) : Service κ τ ν ε :=
  ⟨.fresh limits metrics, []⟩

variable [DecidableEq κ] [KeyText κ]

/-! ### Asking for results -/

/-- Asks for the result that a ticket stands for. -/
def redeem (q : Queue κ τ ν ε) : Ticket ν → Option (Result ε ν) × Queue κ τ ν ε
  | .ready v => (some (.ok v), q)
  | .round r => q.poll r

/-- What redeeming a ticket notes: a cancellation is noted once. -/
def redeemNotes (q : Queue κ τ ν ε) : Ticket ν → List (Note κ)
  | .ready _ => []
  | .round r => ((q.killed? r).map fun round => Note.failed round.key).toList

/-- What asking on behalf of callers leads to. -/
structure Polled (κ τ ν ε : Type) where
  queue : Queue κ τ ν ε
  resolved : List (String × Result ε ν)
  notes : List (Note κ)
  waiting : List (Waiter ν)

/-- Asks on behalf of callers, one after the other. -/
def pollAll (q : Queue κ τ ν ε) : List (Waiter ν) → Polled κ τ ν ε
  | [] => ⟨q, [], [], []⟩
  | w :: ws =>
    let notes := redeemNotes q w.ticket
    match redeem q w.ticket with
    | (some result, q) =>
      let rest := pollAll q ws
      { rest with resolved := (w.caller, result) :: rest.resolved, notes := notes ++ rest.notes }
    | (none, q) =>
      let rest := pollAll q ws
      { rest with waiting := w :: rest.waiting, notes := notes ++ rest.notes }

/-- The report and the service after asking on behalf of all callers, when
`notes` were noted before. -/
def settled (q : Queue κ τ ν ε) (waiters : List (Waiter ν)) (answer : Answer κ ν)
    (notes : List (Note κ)) : Report κ ν ε × Service κ τ ν ε :=
  let p := pollAll q waiters
  (⟨answer, p.resolved, notes ++ p.notes⟩, ⟨p.queue, p.waiting⟩)

/-! ### Events -/

/-- The ticket of an admitted request. -/
def ticket : Admission κ ν → Ticket ν
  | .hit v => .ready v
  | .joined r => .round r
  | .launched r _ => .round r

/-- What admitting a request notes. -/
def admissionNotes (k : κ) : Admission κ ν → List (Note κ)
  | .launched _ ⟨_, some (a, _)⟩ => [.rebasing k a]
  | _ => []

/-- What the ending of a round notes. -/
def endingNotes (k : κ) : Ending ε ν → List (Note κ)
  | .returned _ => [.caching k]
  | .failed _ => [.failed k]
  | .panicked => [.panicked k, .failed k]

/-- One event: what it leads to and what it leaves. -/
def step [Task τ κ ν] (s : Service κ τ ν ε) :
    Event κ τ ν ε → Report κ ν ε × Service κ τ ν ε
  | .perform caller task =>
    let (admission, q) := s.queue.request task
    settled q (s.waiters ++ [⟨caller, ticket admission⟩]) (.admitted admission)
      (admissionNotes (Task.key task) admission)
  | .finish r e =>
    match s.queue.running? r with
    | some round =>
      settled (s.queue.finish r e) s.waiters .silent (endingNotes round.key e)
    | none => (⟨.silent, [], []⟩, s)
  | .drop caller =>
    let left := s.waiters.filter fun w => w.caller ≠ caller
    (⟨.dropped (s.waiters.any fun w => w.caller == caller), [], []⟩, { s with waiters := left })
  | .shutdown => settled s.queue.shutdown s.waiters .silent []
  | .get k =>
    let (v, q) := s.queue.get k
    (⟨.value v, [], []⟩, { s with queue := q })
  | .store k v => (⟨.silent, [], []⟩, { s with queue := s.queue.store k v })
  | .remove k =>
    let (v, q) := s.queue.remove k
    (⟨.value v, [], []⟩, { s with queue := q })
  | .prune p =>
    let (n, q) := s.queue.prune p
    (⟨.silent, [], [.pruned n]⟩, { s with queue := q })
  | .clear => (⟨.silent, [], []⟩, { s with queue := s.queue.clear })

/-- Events one after another: what they lead to and what they leave. -/
def run [Task τ κ ν] (s : Service κ τ ν ε) :
    List (Event κ τ ν ε) → List (Report κ ν ε) × Service κ τ ν ε
  | [] => ([], s)
  | e :: es =>
    let (report, s) := s.step e
    let (reports, s) := s.run es
    (report :: reports, s)

end Service

end SlotStates
