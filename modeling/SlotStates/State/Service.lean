/-
SlotStates/State/Service.lean

States of blocks at slots, computed on request and kept for later requests.

A state service is a queue of state tasks with its callers.  Each round in
flight waits for the reply to one question; replies come in any order, and a
reply takes the round's task one turn further, to its next question or to its
end.  States obtained elsewhere can be inserted, and old ones pruned.

The report of an event holds, besides what the queue reports, the questions
asked, each with the round that asks it.
-/
import SlotStates.Queue.Service
import SlotStates.State.Task

namespace SlotStates

/-- A state service: its preset, its queue with the callers, and for each
round in flight the question it waits for. -/
structure StateService (σ : Type) where
  preset : Preset
  service : Service StateKey (StateTask σ) σ StateError
  questions : List (Nat × Demand σ)

/-- What is noted in the log. -/
inductive StateNote
  | queue (note : Note StateKey)
  /-- A task asks for a later state. -/
  | advancing (root : Root) (stateSlot slot : Slot) (checkpoint : Option Checkpoint)
  | pruning (slot : Slot)
  deriving DecidableEq

/-- A note as a line of the log. -/
def StateNote.line : StateNote → String
  | .queue note => note.line
  | .advancing root stateSlot slot checkpoint =>
    "DEBUG advancing state for block " ++ root.hex ++ " from slot " ++ Word.decimal stateSlot
      ++ " to slot " ++ Word.decimal slot ++ " (checkpoint: "
      ++ (match checkpoint with
          | none => "None"
          | some c => "Some(" ++ c.debug ++ ")")
      ++ ")"
  | .pruning slot => "DEBUG pruning cached states before slot " ++ Word.decimal slot

/-- What can happen to a state service. -/
inductive StateEvent (σ : Type)
  /-- A caller requests the state of a key. -/
  | request (caller : String) (key : StateKey)
  /-- A caller requests the state of a checkpoint. -/
  | requestCheckpoint (caller : String) (checkpoint : Checkpoint)
  /-- The provider replies to a round. -/
  | foundBase (round : Nat) (reply : Reply (Option σ))
  /-- A round gets the reply to its transition. -/
  | advanced (round : Nat) (reply : Reply σ)
  /-- A state is made available under its own slot. -/
  | insert (root : Root) (state : σ)
  /-- A state is stored under any key. -/
  | store (key : StateKey) (state : σ)
  | get (key : StateKey)
  | remove (key : StateKey)
  /-- The states of keys before a slot are taken out. -/
  | pruneBefore (slot : Slot)
  | clear
  | drop (caller : String)
  | shutdown

/-- What an event led to. -/
structure StateReport (σ : Type) where
  answer : Answer StateKey σ
  resolved : List (String × Result StateError σ)
  notes : List StateNote
  asked : List (Nat × Demand σ)

namespace StateReport

variable {σ : Type}

/-- The report of an event of the queue. -/
def ofReport (r : Report StateKey σ StateError) : StateReport σ :=
  ⟨r.answer, r.resolved, r.notes.map .queue, []⟩

/-- Two reports of one event, in order; the answer is that of the first. -/
def followedBy (r s : StateReport σ) : StateReport σ :=
  ⟨r.answer, r.resolved ++ s.resolved, r.notes ++ s.notes, r.asked ++ s.asked⟩

/-- The report of an event without consequences. -/
def nothing : StateReport σ := ⟨.silent, [], [], []⟩

end StateReport

namespace StateService

variable {σ : Type}

/-- A state service to which nothing has happened. -/
def fresh (preset : Preset) (limits : Limits) (metrics : Option TaskMetrics) :
    StateService σ :=
  ⟨preset, .fresh limits metrics, []⟩

/-- Sends an event to the queue. -/
def send (s : StateService σ) (e : Event StateKey (StateTask σ) σ StateError) :
    StateReport σ × StateService σ :=
  let (report, service) := s.service.step e
  (.ofReport report, { s with service })

/-- Whether a round waits for the reply to a question that satisfies a
test. -/
def awaits (s : StateService σ) (r : Nat) (p : Demand σ → Bool) : Bool :=
  s.questions.any fun o => o.1 == r && p o.2

/-- A question of a round, which waits for the reply from now on. -/
def ask (s : StateService σ) (r : Nat) (d : Demand σ) (notes : List StateNote) :
    StateReport σ × StateService σ :=
  (⟨.silent, [], notes, [(r, d)]⟩,
    { s with questions := s.questions.filter (fun o => o.1 ≠ r) ++ [(r, d)] })

/-- The end of a round. -/
def finish (s : StateService σ) (r : Nat) (e : Ending StateError σ) :
    StateReport σ × StateService σ :=
  { s with questions := s.questions.filter fun o => o.1 ≠ r }.send (.finish r e)

variable [HasSlot σ]

/-- What a transition notes. -/
def transitionNotes (k : StateKey) : Transition σ → List StateNote
  | .replay base target => [.advancing k.root (HasSlot.slot base) target none]
  | .regenerate c base => [.advancing k.root (HasSlot.slot base) k.slot (some c)]

/-- The course of a round from a base on. -/
def follow (s : StateService σ) (r : Nat) (t : StateTask σ) :
    Course σ → StateReport σ × StateService σ
  | .done e => s.finish r e
  | .ask tr => s.ask r (.transition tr) (transitionNotes t.key tr)

/-- The first turn of a round. -/
def begin (s : StateService σ) (r : Nat) : StateReport σ × StateService σ :=
  match s.service.queue.running? r with
  | none => (.nothing, s)
  | some round =>
    match round.task.start s.preset with
    | .lookup root => s.ask r (.lookup root) []
    | .go course => s.follow r round.task course

/-- A request: it is admitted, and the round it launches takes its first
turn. -/
def request (s : StateService σ) (caller : String) (k : StateKey) :
    StateReport σ × StateService σ :=
  let (report, s) := s.send (.perform caller (.ofKey k))
  match report.answer with
  | .admitted (.launched r _) =>
    let (after, s) := s.begin r
    (report.followedBy after, s)
  | _ => (report, s)

/-- The turn of a round that looked for a base. -/
def foundBase (s : StateService σ) (r : Nat) (reply : Reply (Option σ)) :
    StateReport σ × StateService σ :=
  match s.service.queue.running? r with
  | some round =>
    if s.awaits r (fun d => d matches .lookup _) then
      s.follow r round.task (round.task.afterLookup s.preset reply)
    else (.nothing, s)
  | none => (.nothing, s)

/-- The last turn of a round that asked for a later state. -/
def advanced (s : StateService σ) (r : Nat) (reply : Reply σ) :
    StateReport σ × StateService σ :=
  match s.service.queue.running? r with
  | some round =>
    if s.awaits r (fun d => d matches .transition _) then
      s.finish r (round.task.afterTransition reply)
    else (.nothing, s)
  | none => (.nothing, s)

/-- One event: what it leads to and what it leaves. -/
def step (s : StateService σ) : StateEvent σ → StateReport σ × StateService σ
  | .request caller k => s.request caller k
  | .requestCheckpoint caller c => s.request caller (c.key s.preset)
  | .foundBase r reply => s.foundBase r reply
  | .advanced r reply => s.advanced r reply
  | .insert root state => s.send (.store ⟨HasSlot.slot state, root⟩ state)
  | .store k state => s.send (.store k state)
  | .get k => s.send (.get k)
  | .remove k => s.send (.remove k)
  | .pruneBefore slot =>
    let (report, s) := s.send (.prune fun k => decide (k.slot < slot))
    ({ report with notes := .pruning slot :: report.notes }, s)
  | .clear => s.send .clear
  | .drop caller => s.send (.drop caller)
  | .shutdown => { s with questions := [] }.send .shutdown

/-- Events one after another: what they lead to and what they leave. -/
def run (s : StateService σ) : List (StateEvent σ) → List (StateReport σ) × StateService σ
  | [] => ([], s)
  | e :: es =>
    let (report, s) := s.step e
    let (reports, s) := s.run es
    (report :: reports, s)

end StateService

end SlotStates
