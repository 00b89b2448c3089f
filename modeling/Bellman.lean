import Bellman.Lib.Prog
import Bellman.Lib.System
import Bellman.Time
import Bellman.Occurrence
import Bellman.Models
import Bellman.Store
import Bellman.Reply
import Bellman.Fire
import Bellman.Frame
import Bellman.Ledger
import Bellman.Overlap
import Bellman.Commit
import Bellman.Outcome
import Bellman.Admission
import Bellman.Verdict
import Bellman.Current
import Bellman.Lifecycle
import Bellman.Story
import Bellman.RunNow
import Bellman.Executor
import Bellman.Dispatcher
import Bellman.Lanes
import Bellman.Order
import Bellman.Stranded
import Bellman.Rowless
import Bellman.Provisional
import Bellman.Logged
import Bellman.Barrier
import Bellman.Lib.Thread
import Bellman.Lib.Alone
import Bellman.Publication
import Bellman.Statements
import Bellman.Shipment
import Bellman.Lib.Numbering
import Bellman.PublicationOrder
import Bellman.FixedTarget
import Bellman.Settled
import Bellman.Pickup
import Bellman.EventLog
import Bellman.Lib.Outline
import Bellman.Lib.Protocol
import Bellman.Publisher
import Bellman.Rotation
import Bellman.Upkeep
import Bellman.Lib.Lines
import Bellman.EventsKept
import Bellman.Conserved
import Bellman.Lib.Tally
import Bellman.History
import Bellman.Lib.Collate
import Bellman.Chronicle
import Bellman.Retention
import Bellman.Payload
import Bellman.Lib.Rows
import Bellman.Slots
import Bellman.Refused
import Bellman.SlotLedger
import Bellman.Feed
import Bellman.Deletes
import Bellman.Processing
import Bellman.Once
import Bellman.Intake
import Bellman.Numbers
import Bellman.Edits
import Bellman.Folders
import Bellman.Gates
import Bellman.Delivery
import Bellman.Crontab
import Bellman.Rewrite
import Bellman.Fence
import Bellman.Migration
import Bellman.Coherence
import Bellman.Clocks
import Bellman.Outage
import Bellman.Rollback
import Bellman.Interval
import Bellman.Search
import Bellman.Preview
import Bellman.Zones
import Bellman.Gaps
import Bellman.Lib.Numeral
import Bellman.Civil
import Bellman.Datetime
import Bellman.DueQuery
import Bellman.Replenish
import Bellman.Wake
import Bellman.Armed
import Bellman.Register
import Bellman.Misfire
import Bellman.Backlog
import Bellman.Handled
import Bellman.Coalesce
import Bellman.Answers
import Bellman.Scan
import Bellman.Sweep
import Bellman.Pruner
import Bellman.Quarantine
import Bellman.Dialog
import Bellman.Lib.Faults
import Bellman.Windows
import Bellman.Lib.Tidy
import Bellman.Neighbours
import Bellman.Period
import Bellman.Snapshot
import Bellman.Truth
import Bellman.Settings
import Bellman.Lib.Words
import Bellman.Written
import Bellman.Lib.Alike
import Bellman.Lib.Chunks
import Bellman.Watcher
import Bellman.Transports
import Bellman.Reports
import Bellman.Replay
import Bellman.CatchUp
import Bellman.Progress
import Bellman.Lib.Agenda
import Bellman.Lib.Erasure
import Bellman.Lib.Simulation
import Bellman.Scheduler
import Bellman.Steps
import Bellman.Confined
import Bellman.Committed
import Bellman.Pushed
import Bellman.Drain
import Bellman.Horizon
import Bellman.Loop
