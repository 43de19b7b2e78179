import SlotStates.Chain.Ancestors
import SlotStates.Chain.Checkpoint
import SlotStates.Chain.Epoch
import SlotStates.Chain.Root
import SlotStates.Chain.RootText
import SlotStates.Chain.Sorted
import SlotStates.Chain.StateKey
import SlotStates.Json.Checkpoint
import SlotStates.Json.Fault
import SlotStates.Json.Limits
import SlotStates.Json.Number
import SlotStates.Json.Record
import SlotStates.Json.Text
import SlotStates.Json.Token
import SlotStates.Metrics.Basic
import SlotStates.Metrics.Monitor
import SlotStates.Metrics.Registry
import SlotStates.Number.Binary
import SlotStates.Number.Word
import SlotStates.Queue.Basic
import SlotStates.Queue.Cache
import SlotStates.Queue.Failure
import SlotStates.Queue.Limits
import SlotStates.Queue.Service
import SlotStates.Queue.Task
import SlotStates.Scenario.Cursors
import SlotStates.Scenario.Mock
import SlotStates.Scenario.MockPlay
import SlotStates.Scenario.Script
import SlotStates.Scenario.ScriptPlay
import SlotStates.State.Error
import SlotStates.State.Service
import SlotStates.State.Task
import SlotStates.Text.Bytes
import SlotStates.Text.Digest
import SlotStates.Text.Hex
import SlotStates.Text.Hidden
import SlotStates.Text.Quoted
import SlotStates.Proofs.Chain.Epochs
import SlotStates.Proofs.Chain.KeyTexts
import SlotStates.Proofs.Json.Reading
import SlotStates.Proofs.Json.Spelling
import SlotStates.Proofs.Json.Literals
import SlotStates.Proofs.Json.Value
import SlotStates.Proofs.Json.Offence
import SlotStates.Proofs.Json.CheckpointObject
import SlotStates.Proofs.Json.LimitsText
import SlotStates.Proofs.Queue.Contents
import SlotStates.Proofs.Queue.Events
import SlotStates.Proofs.Queue.History
import SlotStates.Proofs.Queue.Flight
import SlotStates.Proofs.Queue.Attendance
import SlotStates.Proofs.Queue.Calls
import SlotStates.Proofs.Queue.Accounts
import SlotStates.Proofs.Queue.Values
import SlotStates.Proofs.Queue.Touches
import SlotStates.Proofs.Queue.Freshness
import SlotStates.Proofs.Queue.Recency
import SlotStates.Proofs.Queue.Orphans
import SlotStates.Proofs.Queue.Shutdown
import SlotStates.Proofs.State.Sent
import SlotStates.Proofs.State.Checkpoints
import SlotStates.Proofs.State.Transparency
import SlotStates.Proofs.Queue.Launches
import SlotStates.Proofs.Queue.Abandonment
import SlotStates.Proofs.Queue.Capacity
import SlotStates.Proofs.Queue.Nearest
import SlotStates.Proofs.Queue.Completion
import SlotStates.Proofs.Queue.Failures
import SlotStates.Proofs.State.Questions
import SlotStates.Proofs.State.Slots
import SlotStates.Proofs.State.Replay
import SlotStates.Proofs.State.Pruning
import SlotStates.Proofs.State.Naming
import SlotStates.Proofs.Chain.Cursors
import SlotStates.Proofs.Metrics.Registration
import SlotStates.Proofs.Metrics.Reports
