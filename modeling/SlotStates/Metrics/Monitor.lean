/-
SlotStates/Metrics/Monitor.lean

Several queues' metrics and several registries, and what is done with them.

A step names the metrics and the registry it is about by their places.  A
step about a place that does not exist has no answer and changes nothing.
-/
import SlotStates.Metrics.Registry

namespace SlotStates

/-- The metrics of some queues and some registries. -/
structure Monitor where
  metrics : List TaskMetrics
  registries : List Registry
  deriving DecidableEq, Repr

namespace Monitor

/-- No metrics, and `n` empty registries. -/
def start (n : Nat) : Monitor := ⟨[], List.replicate n .empty⟩

/-- What can be done. -/
inductive Step
  | create (stem : String)
  | register (owner registry : Nat)
  | recordRequest (owner : Nat) (outcome : Outcome)
  | recordFailure (owner : Nat)
  | setSizes (owner cacheSize inFlight : Nat)
  | requests (owner : Nat) (outcome : Outcome)
  | failures (owner : Nat)
  | gather (registry : Nat)
  deriving DecidableEq, Repr

/-- What a step tells. -/
inductive Answer
  | done
  | refused (fault : NameFault)
  | count (n : Nat)
  | families (fs : List Family)
  deriving DecidableEq, Repr

/-- Changes the metrics at a place. -/
def update (m : Monitor) (owner : Nat) (f : TaskMetrics → Answer × TaskMetrics) :
    Option (Answer × Monitor) :=
  m.metrics[owner]?.map fun t =>
    let (answer, t) := f t
    (answer, { m with metrics := m.metrics.set owner t })

/-- One step: its answer and what it leaves. -/
def step (m : Monitor) : Step → Option (Answer × Monitor)
  | .create stem =>
    match TaskMetrics.named stem with
    | .ok t => some (.done, { m with metrics := m.metrics ++ [t] })
    | .error e => some (.refused e, m)
  | .register owner registry =>
    match m.metrics[owner]?, m.registries[registry]? with
    | some t, some r =>
      let (result, r) := r.register (t.collectors owner)
      let answer := match result with
        | .ok () => .done
        | .error e => .refused e
      some (answer, { m with registries := m.registries.set registry r })
    | _, _ => none
  | .recordRequest owner o => m.update owner fun t => (.done, t.recordRequest o)
  | .recordFailure owner => m.update owner fun t => (.done, t.recordFailure)
  | .setSizes owner c i => m.update owner fun t => (.done, t.setSizes c i)
  | .requests owner o =>
    m.update owner fun t => let (n, t) := t.readRequests o; (.count n, t)
  | .failures owner => m.update owner fun t => (.count t.failures, t)
  | .gather registry =>
    m.registries[registry]?.map fun r => (.families (r.gather m.metrics), m)

/-- Steps one after another: their answers and what they leave. -/
def run (m : Monitor) : List Step → List (Option Answer) × Monitor
  | [] => ([], m)
  | s :: ss =>
    match m.step s with
    | some (answer, m) => let (answers, m) := m.run ss; (some answer :: answers, m)
    | none => let (answers, m) := m.run ss; (none :: answers, m)

end Monitor

end SlotStates
