import InventoryGauges.Api
import InventoryGauges.Calendar
import InventoryGauges.Main
import InventoryGauges.Proofs.Execution.Interleaving
import InventoryGauges.Proofs.Execution.Work
import InventoryGauges.Proofs.Store.Encoding
import InventoryGauges.Simulation.Loop
import InventoryGauges.Proofs.Sampling.Trace
import InventoryGauges.Proofs.Catalog.Trace
import InventoryGauges.Proofs.Cycle.Trace
import InventoryGauges.Proofs.Execution.Cycle
import InventoryGauges.Proofs.Sampling.Footprint
import InventoryGauges.Proofs.Gauges.Record
import InventoryGauges.Proofs.Cycle.SideBySide
import InventoryGauges.Proofs.Cycle.Stage
import InventoryGauges.Proofs.Gauges.Retention
import InventoryGauges.Proofs.Catalog.Unique
import InventoryGauges.Proofs.Gauges.Reconciled
import InventoryGauges.Proofs.Gauges.Orphans
import InventoryGauges.Proofs.Gauges.GivingUp
import InventoryGauges.Proofs.Gauges.Repair
import InventoryGauges.Proofs.Simulation.Following
import InventoryGauges.Proofs.Execution.Request
import InventoryGauges.Proofs.Simulation.Work
import InventoryGauges.Proofs.Simulation.Cycle
import InventoryGauges.Proofs.Filter.Grammar
import InventoryGauges.Proofs.Filter.Language
import InventoryGauges.Proofs.Cycle.Timeline
import InventoryGauges.Proofs.Gauges.Removed
import InventoryGauges.Proofs.Cycle.Course
import InventoryGauges.Proofs.Schedule.Due
import InventoryGauges.Proofs.Cycle.Pace
import InventoryGauges.Proofs.Sampling.Outcome
import InventoryGauges.Proofs.Cycle.OneByOne
import InventoryGauges.Proofs.Filter.Texts
import InventoryGauges.Proofs.Url.Bytes
import InventoryGauges.Proofs.Filter.Cursor
import InventoryGauges.Proofs.Filter.Walk
import InventoryGauges.Proofs.Filter.Refusal
import InventoryGauges.Proofs.Store.Ledger
import InventoryGauges.Proofs.Store.Sharing
import InventoryGauges.Proofs.Store.Lineage
import InventoryGauges.Proofs.Catalog.Request
import InventoryGauges.Proofs.Catalog.Lineage
import InventoryGauges.Proofs.Catalog.Acknowledged
import InventoryGauges.Proofs.Settings.Layers
import InventoryGauges.Proofs.Settings.Leaf
import InventoryGauges.Proofs.Settings.Precedence
import InventoryGauges.Proofs.Settings.Insertion
import InventoryGauges.Proofs.Settings.Verbatim
import InventoryGauges.Proofs.Settings.Credential
import InventoryGauges.Proofs.Execution.Interruption
import InventoryGauges.Proofs.Sampling.Counted
import InventoryGauges.Proofs.Cycle.Accounting
import InventoryGauges.Proofs.Execution.Tallying
import InventoryGauges.Proofs.Cycle.Tallied
import InventoryGauges.Proofs.Simulation.Keeping
import InventoryGauges.Proofs.Sampling.Failed
import InventoryGauges.Proofs.Simulation.Accounting
import InventoryGauges.Proofs.Simulation.Tallied
import InventoryGauges.Proofs.Sampling.Extracted
import InventoryGauges.Proofs.Sampling.Succeeded
import InventoryGauges.Proofs.Gauges.Reaped
import InventoryGauges.Proofs.Cycle.Knowledge
import InventoryGauges.Proofs.Cycle.Marked
import InventoryGauges.Proofs.Gauges.Purged
import InventoryGauges.Proofs.Schedule.Backoff
import InventoryGauges.Proofs.Sampling.Steady
import InventoryGauges.Proofs.Json.Canonical
import InventoryGauges.Proofs.Metric.Document
import InventoryGauges.Proofs.Catalog.Path
import InventoryGauges.Proofs.Catalog.Atomic
import InventoryGauges.Proofs.Inventory.Rows
import InventoryGauges.Proofs.Inventory.Protocol
import InventoryGauges.Proofs.Simulation.Settling
import InventoryGauges.Proofs.Exposition.ReadBack
import InventoryGauges.Proofs.Simulation.Looping
import InventoryGauges.Proofs.Schedule.Selection
import InventoryGauges.Proofs.Gauges.Identity
import InventoryGauges.Proofs.Inventory.Query
import InventoryGauges.Proofs.Store.Scan
