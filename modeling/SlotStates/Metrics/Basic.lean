/-
SlotStates/Metrics/Basic.lean

What a queue counts.

A queue counts its requests by how they were answered, counts the
computations that failed, and keeps the sizes of its cache and of its
registry of computations in flight.  A request count exists from the first
time it is written or read; until then it is absent rather than zero, and the
difference shows when metrics are gathered.

Sizes are kept as signed words, so they stop at `greatestSize`.
-/

namespace SlotStates

/-- How a request was answered. -/
inductive Outcome
  /-- From the cache, without launching anything. -/
  | cached
  /-- By joining a computation in flight. -/
  | duplicate
  /-- By a computation that starts from a cached ancestor. -/
  | rebased
  /-- By a computation that starts from nothing. -/
  | fresh
  deriving DecidableEq, Repr

namespace Outcome

/-- The label of a request count. -/
def label : Outcome → String
  | .cached => "cached"
  | .duplicate => "duplicate"
  | .rebased => "rebased"
  | .fresh => "new"

/-- The name of an outcome in messages. -/
def debug : Outcome → String
  | .cached => "Cached"
  | .duplicate => "Duplicate"
  | .rebased => "Rebased"
  | .fresh => "New"

/-- Every outcome. -/
def all : List Outcome := [.cached, .duplicate, .rebased, .fresh]

theorem mem_all (o : Outcome) : o ∈ all := by cases o <;> decide

end Outcome

/-- A count for each outcome, where there is one. -/
structure RequestCounts where
  cached : Option Nat
  duplicate : Option Nat
  rebased : Option Nat
  fresh : Option Nat
  deriving DecidableEq, Repr

namespace RequestCounts

/-- No counts yet. -/
def empty : RequestCounts := ⟨none, none, none, none⟩

/-- The count of an outcome. -/
def get (r : RequestCounts) : Outcome → Option Nat
  | .cached => r.cached
  | .duplicate => r.duplicate
  | .rebased => r.rebased
  | .fresh => r.fresh

/-- The counts with one of them changed. -/
def set (r : RequestCounts) (o : Outcome) (n : Nat) : RequestCounts :=
  match o with
  | .cached => { r with cached := some n }
  | .duplicate => { r with duplicate := some n }
  | .rebased => { r with rebased := some n }
  | .fresh => { r with fresh := some n }

theorem get_set (r : RequestCounts) (o p : Outcome) (n : Nat) :
    (r.set o n).get p = if p = o then some n else r.get p := by
  cases o <;> cases p <;> rfl

end RequestCounts

/-- The greatest size that is kept. -/
def greatestSize : Nat := 0x7fffffffffffffff

/-- The counts and sizes of one queue, exported under names that start with
`stem`. -/
structure TaskMetrics where
  stem : String
  requests : RequestCounts
  failures : Nat
  cacheSize : Nat
  inFlight : Nat
  deriving DecidableEq, Repr

namespace TaskMetrics

/-- Metrics on which nothing was recorded. -/
def fresh (stem : String) : TaskMetrics := ⟨stem, .empty, 0, 0, 0⟩

/-- How many requests were recorded with an outcome. -/
def requestCount (m : TaskMetrics) (o : Outcome) : Nat := (m.requests.get o).getD 0

/-- Counts a request. -/
def recordRequest (m : TaskMetrics) (o : Outcome) : TaskMetrics :=
  { m with requests := m.requests.set o (m.requestCount o + 1) }

/-- Reads a request count, which from then on exists. -/
def readRequests (m : TaskMetrics) (o : Outcome) : Nat × TaskMetrics :=
  (m.requestCount o, { m with requests := m.requests.set o (m.requestCount o) })

/-- Counts a failure. -/
def recordFailure (m : TaskMetrics) : TaskMetrics := { m with failures := m.failures + 1 }

/-- Keeps the sizes of the cache and of the registry of computations. -/
def setSizes (m : TaskMetrics) (cacheSize inFlight : Nat) : TaskMetrics :=
  { m with cacheSize := min cacheSize greatestSize, inFlight := min inFlight greatestSize }

theorem requestCount_recordRequest (m : TaskMetrics) (o p : Outcome) :
    (m.recordRequest o).requestCount p
      = if p = o then m.requestCount p + 1 else m.requestCount p := by
  simp only [requestCount, recordRequest, RequestCounts.get_set]
  split
  · next h => subst h; rfl
  · rfl

/-- Reading a count changes none. -/
theorem requestCount_readRequests (m : TaskMetrics) (o p : Outcome) :
    (m.readRequests o).2.requestCount p = m.requestCount p := by
  simp only [requestCount, readRequests, RequestCounts.get_set]
  split
  · next h => subst h; rfl
  · rfl

end TaskMetrics

end SlotStates
