import Rollup.Aggregation.Flush
import Rollup.Aggregation.FlushLoops
import Rollup.Aggregation.Pending
import Rollup.Batch.Decoder
import Rollup.Batch.Encoder
import Rollup.Batch.Fault
import Rollup.Bus
import Rollup.Bytes
import Rollup.Checksum
import Rollup.Clock
import Rollup.CommandLine
import Rollup.Config.Basic
import Rollup.Config.Environment
import Rollup.Datasets
import Rollup.Decimal.Binary64
import Rollup.Decimal.Literal
import Rollup.Deployment
import Rollup.Duration
import Rollup.Entity.Basic
import Rollup.Entity.Numbering
import Rollup.Error
import Rollup.Fact.Bridge
import Rollup.Fact.Place
import Rollup.Fact.RowKey
import Rollup.Fact.Table
import Rollup.Ingestion.Processor
import Rollup.KeyOrder
import Rollup.KeyRange
import Rollup.Main
import Rollup.Metric
import Rollup.MetricStore
import Rollup.Program
import Rollup.Progress.Cell
import Rollup.Progress.Table
import Rollup.Proofs.Aggregation.Balance
import Rollup.Proofs.Aggregation.Clients
import Rollup.Proofs.Aggregation.Gauges
import Rollup.Proofs.Aggregation.Loops
import Rollup.Proofs.Aggregation.Tally
import Rollup.Proofs.Batch.Acceptance
import Rollup.Proofs.Batch.Damage
import Rollup.Proofs.Batch.Grammar
import Rollup.Proofs.Batch.Reading
import Rollup.Proofs.Batch.Writing
import Rollup.Proofs.Bytes
import Rollup.Proofs.Checksum
import Rollup.Proofs.Entity.Account
import Rollup.Proofs.Entity.Cache
import Rollup.Proofs.Entity.Concurrent
import Rollup.Proofs.Entity.Fresh
import Rollup.Proofs.Entity.Inverse
import Rollup.Proofs.Entity.Numbered
import Rollup.Proofs.Entity.Resolve
import Rollup.Proofs.Entity.Room
import Rollup.Proofs.Entity.Upkeep
import Rollup.Proofs.Fact.Agreement
import Rollup.Proofs.Fact.Attempts
import Rollup.Proofs.Fact.Bridging
import Rollup.Proofs.Fact.Contents
import Rollup.Proofs.Fact.Deletion
import Rollup.Proofs.Fact.Exact
import Rollup.Proofs.Fact.Expiry
import Rollup.Proofs.Fact.Fading
import Rollup.Proofs.Fact.History
import Rollup.Proofs.Fact.Interleaving
import Rollup.Proofs.Fact.Ledger
import Rollup.Proofs.Fact.Linearization
import Rollup.Proofs.Fact.Migration
import Rollup.Proofs.Fact.Overflow
import Rollup.Proofs.Fact.Place
import Rollup.Proofs.Fact.Query
import Rollup.Proofs.Fact.Reach
import Rollup.Proofs.Fact.Reading
import Rollup.Proofs.Fact.RowKey
import Rollup.Proofs.Fact.RowRange
import Rollup.Proofs.Fact.Shared
import Rollup.Proofs.Fact.Siblings
import Rollup.Proofs.Fact.Sparing
import Rollup.Proofs.Fact.Steps
import Rollup.Proofs.Fact.Totals
import Rollup.Proofs.Fact.Upkeep
import Rollup.Proofs.Fact.Writers
import Rollup.Proofs.Fact.Writing
import Rollup.Proofs.Ingestion.Application
import Rollup.Proofs.Ingestion.Calls
import Rollup.Proofs.Ingestion.Consumption
import Rollup.Proofs.Ingestion.Delivery
import Rollup.Proofs.Ingestion.Journal
import Rollup.Proofs.Ingestion.Offsets
import Rollup.Proofs.Ingestion.Relay
import Rollup.Proofs.Ingestion.Retries
import Rollup.Proofs.Ingestion.Success
import Rollup.Proofs.Opening
import Rollup.Proofs.Program.Discipline
import Rollup.Proofs.Program.Ensures
import Rollup.Proofs.Program.Pool
import Rollup.Proofs.Program.Requests
import Rollup.Proofs.Program.Schedule
import Rollup.Proofs.Program.Solo
import Rollup.Proofs.Progress.Cell
import Rollup.Proofs.Progress.Saves
import Rollup.Proofs.Progress.Table
import Rollup.Proofs.Retention.Convergence
import Rollup.Proofs.Retention.Outages
import Rollup.Proofs.Retention.Pass
import Rollup.Proofs.Retention.Schedule
import Rollup.Proofs.Retention.Window
import Rollup.Proofs.Salting
import Rollup.Proofs.Service.Failures
import Rollup.Proofs.Service.Life
import Rollup.Proofs.Service.Sweeps
import Rollup.Proofs.Service.Tasks
import Rollup.Proofs.Storage.Column
import Rollup.Proofs.Storage.Commute
import Rollup.Proofs.Storage.Loss
import Rollup.Proofs.Storage.Outage
import Rollup.Proofs.Storage.Run
import Rollup.Proofs.Store.Batches
import Rollup.Proofs.Store.Batching
import Rollup.Proofs.Store.Creation
import Rollup.Proofs.Store.Ledgers
import Rollup.Proofs.Store.Publishing
import Rollup.Proofs.Store.Reopening
import Rollup.Proofs.Store.Windows
import Rollup.Proofs.Store.Writes
import Rollup.Proofs.Table.Cells
import Rollup.Proofs.Table.Refinement
import Rollup.Proofs.Timeline
import Rollup.Reporting
import Rollup.Resolution
import Rollup.Retention.Run
import Rollup.Retention.Scheduler
import Rollup.Salting
import Rollup.Service.Host
import Rollup.Service.Lifecycle
import Rollup.Service.Site
import Rollup.SortedMap
import Rollup.SortedMap.Entries
import Rollup.SortedMap.Tree
import Rollup.Storage
import Rollup.Storage.Fault
import Rollup.Table.Basic
import Rollup.Table.Catalog
import Rollup.Text.Blank
import Rollup.Text.Integer
import Rollup.Text.Utf8
import Rollup.Timeline
