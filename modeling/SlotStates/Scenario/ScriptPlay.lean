/-
SlotStates/Scenario/ScriptPlay.lean

Playing a script on a queue.

A play sends events to a service of scripted tasks and runs the rounds that
are launched, one at a time, each until it ends or comes to its gate.  Rounds
at a gate are parked in the order in which they came there, until one of them
is released or the executor is taken away.
-/
import SlotStates.Queue.Service
import SlotStates.Scenario.Script

namespace SlotStates.Script

/-- A round at its gate. -/
structure Parked where
  round : Nat
  job : Job
  number : Nat

/-- A service of scripted tasks in play. -/
structure Play where
  service : Service UInt64 Job Value Error
  /-- How many computations were started. -/
  computations : Nat
  /-- The rounds at a gate, in the order in which they came there. -/
  parked : List Parked

/-- What can be done in a play. -/
inductive Step
  | perform (caller : String) (job : Job)
  | get (key : UInt64)
  | store (key : UInt64) (tag : Nat)
  | remove (key : UInt64)
  | prune (below divisibleBy : Option UInt64)
  | clear
  | release (n : Nat)
  | drop (caller : String)
  | shutdown
  | hasMetrics

/-- What a step tells. -/
inductive Told
  | nothing
  /-- How many ancestors were looked up, and how often the task was rebased. -/
  | searched (probed rebases : Nat)
  | value (v : Option Value)
  | released (key : Option UInt64)
  | flag (b : Bool)

/-- What a step led to. -/
structure Played where
  told : Told
  resolved : List (String × Result Error Value)
  notes : List (Note UInt64)

namespace Play

/-- A play in which nothing has happened. -/
def start (limits : Limits) (metrics : Option TaskMetrics) : Play :=
  ⟨.fresh limits metrics, 0, []⟩

/-- Sends an event to the service. -/
def send (p : Play) (e : Event UInt64 Job Value Error) : Report UInt64 Value Error × Play :=
  let (report, s) := p.service.step e
  (report, { p with service := s })

/-- Sends an event whose report says everything. -/
def forward (p : Play) (e : Event UInt64 Job Value Error) : Played × Play :=
  let (report, p) := p.send e
  let told := match report.answer with
    | .value v => .value v
    | .dropped any => .flag any
    | _ => .nothing
  (⟨told, report.resolved, report.notes⟩, p)

/-- What the answer to a request tells about the search for a base. -/
def searched : Admission UInt64 Value → Told
  | .launched _ w => .searched w.probed (if w.base.isSome then 1 else 0)
  | _ => .searched 0 0

/-- Starts the computation of a round, which ends at once or is parked. -/
def begin (p : Play) (r : Nat) : Report UInt64 Value Error × Play :=
  match p.service.queue.running? r with
  | none => (⟨.silent, [], []⟩, p)
  | some round =>
    let number := p.computations + 1
    let p := { p with computations := number }
    if round.task.gated then
      (⟨.silent, [], []⟩, { p with parked := p.parked ++ [⟨r, round.task, number⟩] })
    else p.send (.finish r (round.task.ending number))

/-- A request: it is admitted, and the round it launches is started. -/
def perform (p : Play) (caller : String) (job : Job) : Played × Play :=
  let (report, p) := p.send (.perform caller job)
  match report.answer with
  | .admitted (.launched r w) =>
    let (after, p) := p.begin r
    (⟨searched (.launched r w), report.resolved ++ after.resolved, report.notes ++ after.notes⟩, p)
  | _ => (⟨.searched 0 0, report.resolved, report.notes⟩, p)

/-- Opens the gate of the `n`-th parked round. -/
def release (p : Play) (n : Nat) : Played × Play :=
  match p.parked[n]? with
  | none => (⟨.released none, [], []⟩, p)
  | some gate =>
    let p := { p with parked := p.parked.eraseIdx n }
    let (report, p) := p.send (.finish gate.round (gate.job.ending gate.number))
    (⟨.released (some gate.job.key), report.resolved, report.notes⟩, p)

/-- Whether a key is to be pruned. -/
def doomed (below divisibleBy : Option UInt64) (k : UInt64) : Bool :=
  (match below with | some b => decide (k < b) | none => false) ||
  (match divisibleBy with | some d => decide (k % d = 0) | none => false)

/-- One step: what it leads to and what it leaves. -/
def step (p : Play) : Step → Played × Play
  | .perform caller job => p.perform caller job
  | .get k => p.forward (.get k)
  | .store k tag => p.forward (.store k ⟨⟨k, tag⟩, none⟩)
  | .remove k => p.forward (.remove k)
  | .prune below divisibleBy => p.forward (.prune (doomed below divisibleBy))
  | .clear => p.forward .clear
  | .release n => p.release n
  | .drop caller => p.forward (.drop caller)
  | .shutdown => { p with parked := [] }.forward .shutdown
  | .hasMetrics => (⟨.flag p.service.queue.metrics.isSome, [], []⟩, p)

end Play

end SlotStates.Script
