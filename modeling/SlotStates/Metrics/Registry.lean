/-
SlotStates/Metrics/Registry.lean

Exporting metrics under names.

The metrics of a queue form four series, and each series has a name: the
queue's stem and a suffix.  A registry holds series of any number of queues,
no two under one name.  It tells names by their digests, and takes two names
with one digest for the same.  A queue's series are registered one after the
other; the first name that is taken ends that, and the series before it stay.

Gathering lists what is registered, in the order of the names, with the values
it has then.  Values are exported as doubles.  The series of request counts
has a sample for each count that exists, and is left out if none does.
-/
import SlotStates.Metrics.Basic
import SlotStates.Number.Binary
import SlotStates.Text.Digest

namespace SlotStates

/-! ### Series and their names -/

/-- The series that the metrics of a queue consist of. -/
inductive Series
  | requests
  | failures
  | cacheSize
  | inFlight
  deriving DecidableEq, Repr

/-- Whether values only grow. -/
inductive SeriesKind
  | counter
  | gauge
  deriving DecidableEq, Repr

namespace Series

/-- The series in the order in which they are named and registered. -/
def all : List Series := [.requests, .failures, .cacheSize, .inFlight]

/-- What follows the stem in the name of a series. -/
def suffix : Series → String
  | .requests => "_task_requests_total"
  | .failures => "_task_failures_total"
  | .cacheSize => "_cache_size"
  | .inFlight => "_in_flight_tasks"

/-- What a series is about. -/
def help : Series → String
  | .requests => "Number of task requests by outcome"
  | .failures => "Number of launched tasks that failed or panicked"
  | .cacheSize => "Number of completed values held in the cache"
  | .inFlight => "Number of computations currently in flight"

/-- Requests and failures are counted, sizes are not. -/
def kind : Series → SeriesKind
  | .requests => .counter
  | .failures => .counter
  | .cacheSize => .gauge
  | .inFlight => .gauge

/-- The name of a series under a stem. -/
def name (s : Series) (stem : String) : String := stem ++ s.suffix

end Series

/-- A letter, an underscore or a colon. -/
def isNameStart (c : Char) : Bool := c.isAlpha || c == '_' || c == ':'

/-- Names of series start as above and go on with the same or digits. -/
def isSeriesName (name : String) : Bool :=
  match name.toList with
  | [] => false
  | c :: cs => isNameStart c && cs.all fun d => isNameStart d || d.isDigit

/-- What can go wrong with names. -/
inductive NameFault
  /-- A name is not one of a series. -/
  | invalid (name : String)
  /-- A name is taken. -/
  | taken
  deriving DecidableEq, Repr

/-- The message of a fault with a name. -/
def NameFault.message : NameFault → String
  | .invalid name => "Error: '" ++ name ++ "' is not a valid metric name"
  | .taken => "Duplicate metrics collector registration attempted"

/-- Metrics under a stem; the first of their names that is not one of a series
if there is one. -/
def TaskMetrics.named (stem : String) : Except NameFault TaskMetrics :=
  match (Series.all.map fun s => s.name stem).find? fun n => !isSeriesName n with
  | some bad => .error (.invalid bad)
  | none => .ok (.fresh stem)

/-! ### Registries -/

/-- A series of the queue at some place in a list of queues, under a name. -/
structure Collector where
  name : String
  owner : Nat
  series : Series
  deriving DecidableEq, Repr

/-- The collectors of the metrics at a place of a list. -/
def TaskMetrics.collectors (m : TaskMetrics) (owner : Nat) : List Collector :=
  Series.all.map fun s => ⟨s.name m.stem, owner, s⟩

/-- The collectors that were registered, in the order in which they were. -/
structure Registry where
  collectors : List Collector
  deriving DecidableEq, Repr

namespace Registry

/-- Nothing registered. -/
def empty : Registry := ⟨[]⟩

/-- Whether a name is taken, by itself or by one that has its digest. -/
def has (r : Registry) (name : String) : Bool :=
  r.collectors.any fun c => Text.digest c.name == Text.digest name

/-- Registers one collector. -/
def add (r : Registry) (c : Collector) : Except NameFault Registry :=
  if r.has c.name then .error .taken else .ok ⟨r.collectors ++ [c]⟩

/-- Registers collectors one by one until one of them fails. -/
def register (r : Registry) : List Collector → Except NameFault Unit × Registry
  | [] => (.ok (), r)
  | c :: cs =>
    match r.add c with
    | .error e => (.error e, r)
    | .ok r => r.register cs

end Registry

/-! ### Gathering -/

/-- A value with the labels that tell it from others of its series. -/
structure Sample where
  labels : List (String × String)
  value : Nat
  deriving DecidableEq, Repr

/-- A series as it is exported. -/
structure Family where
  name : String
  help : String
  kind : SeriesKind
  samples : List Sample
  deriving DecidableEq, Repr

/-- A sample without labels. -/
def Sample.plain (n : Nat) : Sample := ⟨[], Binary.nearest n⟩

/-- The samples of the request counts that exist, by label. -/
def RequestCounts.samples (r : RequestCounts) : List Sample :=
  let labels := Outcome.all.mergeSort fun a b => decide (a.label ≤ b.label)
  labels.filterMap fun o =>
    (r.get o).map fun n => ⟨[("outcome", o.label)], Binary.nearest n⟩

/-- The samples of a series. -/
def TaskMetrics.samples (m : TaskMetrics) : Series → List Sample
  | .requests => m.requests.samples
  | .failures => [.plain m.failures]
  | .cacheSize => [.plain m.cacheSize]
  | .inFlight => [.plain m.inFlight]

/-- What a collector exports, given the metrics of all queues. -/
def Collector.family? (metrics : List TaskMetrics) (c : Collector) : Option Family :=
  match metrics[c.owner]? with
  | none => none
  | some m =>
    match m.samples c.series with
    | [] => none
    | samples => some ⟨c.name, c.series.help, c.series.kind, samples⟩

/-- What a registry exports, given the metrics of all queues. -/
def Registry.gather (r : Registry) (metrics : List TaskMetrics) : List Family :=
  (r.collectors.filterMap (Collector.family? metrics)).mergeSort
    fun a b => decide (a.name ≤ b.name)

end SlotStates
