/-
SlotStates/Queue/Basic.lean

A queue that computes each value once.

A request for a value that is cached is answered from the cache.  If a
computation for its key is in flight, the request joins it.  Otherwise a new
round is launched: the task, rebased onto the nearest cached ancestor if there
is one, is entered among the rounds and its key into the registry of what is
in flight.

Rounds are numbered in the order of their launch and are never forgotten: a
finished round keeps its result for those who joined it.  Registry and rounds
are separate, and the registry is by key: completing a round takes the entry
of its key out of the registry, whichever round that entry names.

How a round ends is not the queue's affair: `finish` is told.  A round whose
executor was taken away ends only when somebody asks for its result (`poll`),
and then as cancelled.
-/
import SlotStates.Metrics.Basic
import SlotStates.Queue.Failure
import SlotStates.Queue.Limits
import SlotStates.Queue.Task

namespace SlotStates

/-- Where a round stands. -/
inductive Status (ε ν : Type)
  /-- Its computation is under way. -/
  | running
  /-- Its computation was stopped, which nobody has noticed yet. -/
  | killed
  /-- It has a result. -/
  | settled (result : Result ε ν)

/-- A launched computation: its key, its task as launched, and where it
stands. -/
structure Round (κ τ ν ε : Type) where
  key : κ
  task : τ
  status : Status ε ν

/-- How a request was admitted. -/
inductive Admission (κ ν : Type)
  /-- Its value was cached. -/
  | hit (value : ν)
  /-- It joined a round in flight. -/
  | joined (round : Nat)
  /-- It launched a round, after a search for a base. -/
  | launched (round : Nat) (walk : Walk κ ν)
  deriving DecidableEq

/-- The state of a queue. -/
structure Queue (κ τ ν ε : Type) where
  limits : Limits
  cache : Cache κ ν
  /-- The keys in flight, with the round that was launched for each. -/
  inFlight : List (κ × Nat)
  /-- All rounds in the order of their launch. -/
  rounds : List (Round κ τ ν ε)
  metrics : Option TaskMetrics

namespace Queue

variable {κ τ ν ε : Type}

/-- A queue to which nothing has happened. -/
def fresh (limits : Limits) (metrics : Option TaskMetrics) : Queue κ τ ν ε :=
  ⟨limits, .empty, [], [], metrics⟩

/-- Counts a request. -/
def record (q : Queue κ τ ν ε) (o : Outcome) : Queue κ τ ν ε :=
  { q with metrics := q.metrics.map (·.recordRequest o) }

/-- Reports the sizes of cache and registry. -/
def updateSizes (q : Queue κ τ ν ε) : Queue κ τ ν ε :=
  { q with metrics := q.metrics.map (·.setSizes q.cache.size q.inFlight.length) }

/-! ### Admitting requests -/

variable [DecidableEq κ]

/-- Launches a round. -/
def launch (q : Queue κ τ ν ε) (k : κ) (t : τ) : Queue κ τ ν ε :=
  updateSizes
    { q with
      inFlight := (k, q.rounds.length) :: q.inFlight
      rounds := q.rounds ++ [⟨k, t, .running⟩] }

/-- Admits a request for the value of a task's key. -/
def request [Task τ κ ν] (q : Queue κ τ ν ε) (t : τ) : Admission κ ν × Queue κ τ ν ε :=
  let k := Task.key t
  match q.cache.find? k with
  | some v => (.hit v, { q.record .cached with cache := q.cache.promote k })
  | none =>
    match q.inFlight.lookup k with
    | some r => (.joined r, q.record .duplicate)
    | none =>
      let w := q.cache.walk (Task.ancestor? t) q.limits.maxSteps
      let q' := match w.base with
        | some (a, v) =>
          { q.record .rebased with cache := q.cache.promote a }.launch k (Task.rebase t v)
        | none => (q.record .fresh).launch k t
      (.launched q.rounds.length w, q')

/-! ### Ending rounds -/

/-- Keeps the result of a computation for a key: a value goes into the cache,
anything else is counted. -/
def keep (q : Queue κ τ ν ε) (k : κ) : Result ε ν → Queue κ τ ν ε
  | .ok v => { q with cache := q.cache.put q.limits.cacheSize.val k v }
  | .error _ => { q with metrics := q.metrics.map (·.recordFailure) }

/-- Keeps the result of a computation for a key, which is in flight no
longer. -/
def complete (q : Queue κ τ ν ε) (k : κ) (result : Result ε ν) : Queue κ τ ν ε :=
  updateSizes { q.keep k result with inFlight := q.inFlight.filter fun e => e.1 ≠ k }

/-- Completes a round and gives it its result. -/
def settle (q : Queue κ τ ν ε) (r : Nat) (round : Round κ τ ν ε) (result : Result ε ν) :
    Queue κ τ ν ε :=
  let q := q.complete round.key result
  { q with rounds := q.rounds.set r { round with status := .settled result } }

/-- The round of a number, if it is still under way. -/
def running? (q : Queue κ τ ν ε) (r : Nat) : Option (Round κ τ ν ε) :=
  match q.rounds[r]? with
  | some round =>
    match round.status with
    | .running => some round
    | _ => none
  | none => none

/-- Ends a round that is under way; any other is left as it is. -/
def finish [KeyText κ] (q : Queue κ τ ν ε) (r : Nat) (e : Ending ε ν) : Queue κ τ ν ε :=
  match q.running? r with
  | some round => q.settle r round (e.result (KeyText.text round.key))
  | none => q

/-- Takes away the executor of all rounds that are under way. -/
def shutdown (q : Queue κ τ ν ε) : Queue κ τ ν ε :=
  { q with rounds := q.rounds.map fun round =>
      match round.status with
      | .running => { round with status := .killed }
      | _ => round }

/-- The round of a number, if it was stopped and nobody has noticed yet. -/
def killed? (q : Queue κ τ ν ε) (r : Nat) : Option (Round κ τ ν ε) :=
  match q.rounds[r]? with
  | some round =>
    match round.status with
    | .killed => some round
    | _ => none
  | none => none

/-- Asks for the result of a round.  A round that was stopped is cancelled by
being asked first. -/
def poll [KeyText κ] (q : Queue κ τ ν ε) (r : Nat) :
    Option (Result ε ν) × Queue κ τ ν ε :=
  match q.killed? r with
  | some round =>
    let result := .error (.queue (.cancelled (KeyText.text round.key)))
    (some result, q.settle r round result)
  | none =>
    match q.rounds[r]? with
    | some ⟨_, _, .settled result⟩ => (some result, q)
    | _ => (none, q)

/-! ### Looking at the cache and changing it -/

/-- The value under a key, which becomes the most recently used one. -/
def get (q : Queue κ τ ν ε) (k : κ) : Option ν × Queue κ τ ν ε :=
  (q.cache.find? k, { q with cache := q.cache.promote k })

/-- Stores a value that was obtained elsewhere. -/
def store (q : Queue κ τ ν ε) (k : κ) (v : ν) : Queue κ τ ν ε :=
  updateSizes { q with cache := q.cache.put q.limits.cacheSize.val k v }

/-- Takes a value out. -/
def remove (q : Queue κ τ ν ε) (k : κ) : Option ν × Queue κ τ ν ε :=
  (q.cache.find? k, updateSizes { q with cache := q.cache.erase k })

/-- Takes out the values of all keys that satisfy a test, and tells how many
there were. -/
def prune (q : Queue κ τ ν ε) (p : κ → Bool) : Nat × Queue κ τ ν ε :=
  let doomed := q.cache.keys.filter p
  (doomed.length, updateSizes { q with cache := q.cache.eraseAll doomed })

/-- Takes out all values. -/
def clear (q : Queue κ τ ν ε) : Queue κ τ ν ε :=
  updateSizes { q with cache := .empty }

end Queue

end SlotStates
