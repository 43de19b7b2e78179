/-
SlotStates/Scenario/MockPlay.lean

Playing a script on a state service.

A play sends events to a service of mock states and replies to its questions
as the settings say at that time.  A question that comes to a closed gate is
parked, in the order of arrival, until it is released; then the settings are
read again for the reply.  Taking the executor away empties the gates.
-/
import SlotStates.State.Service
import SlotStates.Scenario.Mock

namespace SlotStates.Mock

/-- A question at a gate. -/
structure Parked where
  round : Nat
  demand : Demand MockState

/-- A state service in play. -/
structure Play where
  service : StateService MockState
  settings : Settings
  known : Known
  /-- The questions at a gate, in the order in which they came there. -/
  parked : List Parked

/-- What can be done in a play. -/
inductive Step
  | configure (settings : Settings)
  | provide (root : Root) (state : Option MockState)
  | event (e : StateEvent MockState)
  /-- States of a block are inserted at each slot of a range, its end left
  out. -/
  | insertRange (root : Root) (low high : Slot)
  | release (n : Nat)

/-- Where a question waits. -/
inductive Gate
  | provider (root : Root)
  | transition (target : Slot)

/-- What a step tells. -/
inductive Told
  | nothing
  | value (s : Option MockState)
  | flag (b : Bool)
  | released (gate : Option Gate)

/-- What a step led to. -/
structure Played where
  told : Told
  report : StateReport MockState

namespace Play

/-- A play in which nothing has happened. -/
def start (p : Preset) (limits : Limits) (metrics : Option TaskMetrics) (settings : Settings) :
    Play :=
  ⟨.fresh p limits metrics, settings, [], []⟩

/-- Sends an event to the service. -/
def send (p : Play) (e : StateEvent MockState) : StateReport MockState × Play :=
  let (report, s) := p.service.step e
  (report, { p with service := s })

/-- The collaborators as they are now. -/
def backend (p : Play) : Backend MockState := p.settings.backend p.service.preset p.known

/-- The gate that a question comes to. -/
def gate (p : Play) : Demand MockState → Gate
  | .lookup root => .provider root
  | .transition (.replay _ target) => .transition target
  | .transition (.regenerate c _) => .transition (p.service.preset.startOf c.epoch)

/-- Whether a question has to wait. -/
def closed (p : Play) : Demand MockState → Bool
  | .lookup _ => p.settings.providerGated
  | .transition _ => p.settings.transitionGated

/-- Sends the reply to a question. -/
def reply (p : Play) (r : Nat) : Demand MockState → StateReport MockState × Play
  | .lookup root => p.send (.foundBase r (p.backend.lookup root))
  | .transition t => p.send (.advanced r (p.backend.transition t))

/-- Parks the questions that have to wait and replies to the others. -/
def attend (p : Play) : List (Nat × Demand MockState) → StateReport MockState × Play
  | [] => (.nothing, p)
  | (r, d) :: rest =>
    if p.closed d then
      let p : Play := { p with parked := p.parked ++ [⟨r, d⟩] }
      p.attend rest
    else
      let (report, p) := p.reply r d
      let (after, p) := p.attend rest
      (report.followedBy after, p)

/-- Attends to the questions of a report, and to those that come of it.  A
round asks at most twice: for a base and for a later state. -/
def settle (p : Play) (report : StateReport MockState) : StateReport MockState × Play :=
  let (second, p) := p.attend report.asked
  let (third, p) := p.attend second.asked
  ((report.followedBy second).followedBy third, p)

/-- What the answer to an event tells. -/
def told (report : StateReport MockState) : Told :=
  match report.answer with
  | .value s => .value s
  | .dropped any => .flag any
  | _ => .nothing

/-- Sends an event and attends to what comes of it. -/
def forward (p : Play) (e : StateEvent MockState) : Played × Play :=
  let p := match e with
    | .shutdown => { p with parked := [] }
    | _ => p
  let (report, p) := p.send e
  let (report, p) := p.settle report
  (⟨told report, report⟩, p)

/-- Opens the gate of the `n`-th parked question. -/
def release (p : Play) (n : Nat) : Played × Play :=
  match p.parked[n]? with
  | none => (⟨.released none, .nothing⟩, p)
  | some q =>
    let p := { p with parked := p.parked.eraseIdx n }
    let (report, p) := p.reply q.round q.demand
    let (report, p) := p.settle report
    (⟨.released (some (p.gate q.demand)), report⟩, p)

/-- Inserts states at `count` slots from `slot` on. -/
def insertFrom (p : Play) (root : Root) (slot : Slot) : Nat → Play
  | 0 => p
  | count + 1 =>
    let state : MockState := ⟨slot, "r" ++ Word.decimal slot⟩
    (p.send (.insert root state)).2.insertFrom root (slot + 1) count

/-- One step: what it leads to and what it leaves. -/
def step (p : Play) : Step → Played × Play
  | .configure settings => (⟨.nothing, .nothing⟩, { p with settings })
  | .provide root none =>
    (⟨.nothing, .nothing⟩, { p with known := p.known.filter fun e => e.1 ≠ root })
  | .provide root (some s) =>
    (⟨.nothing, .nothing⟩,
      { p with known := (root, s) :: p.known.filter fun e => e.1 ≠ root })
  | .event e => p.forward e
  | .insertRange root low high =>
    (⟨.nothing, .nothing⟩, p.insertFrom root low (high.toNat - low.toNat))
  | .release n => p.release n

end Play

end SlotStates.Mock
