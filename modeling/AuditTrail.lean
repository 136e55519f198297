import AuditTrail.Basic
import AuditTrail.Event.Request
import AuditTrail.Export
import AuditTrail.Filter.Parameters
import AuditTrail.Index.Basic
import AuditTrail.Index.Row
import AuditTrail.Message
import AuditTrail.Pipeline.Ingestion
import AuditTrail.Pipeline.Queries
import AuditTrail.RateLimit
import AuditTrail.Metrics
import AuditTrail.Health
import AuditTrail.Settings.Environment
import AuditTrail.Store
import AuditTrail.Queue.Basic
import AuditTrail.Worker.Cycle
import AuditTrail.Worker.Pool
import AuditTrail.Text.Basic
import AuditTrail.Gateway.Reading
import AuditTrail.Gateway.Serve
import AuditTrail.Columnar.Index
import AuditTrail.Columnar.Command
import AuditTrail.Relational.Store
import AuditTrail.Log.Memory
import AuditTrail.Proofs.Number.Digits
import AuditTrail.Proofs.Number.Integers
import AuditTrail.Proofs.Time.Calendar
import AuditTrail.Proofs.Time.Written
import AuditTrail.Proofs.Json.Printed
import AuditTrail.Proofs.Json.Shapes
import AuditTrail.Proofs.Json.Structures
import AuditTrail.Proofs.Message.RoundTrip
import AuditTrail.Proofs.Message.Gate
import AuditTrail.Proofs.Pipeline.Running
import AuditTrail.Proofs.Pipeline.Writes
import AuditTrail.Proofs.Event.Submission
import AuditTrail.Proofs.Pipeline.Publication
import AuditTrail.Proofs.Queue.Leases
import AuditTrail.Proofs.Queue.Relabel
import AuditTrail.Proofs.Queue.Course
import AuditTrail.Proofs.Queue.Steps
import AuditTrail.Proofs.Queue.Entries
import AuditTrail.Proofs.Queue.Conservation
import AuditTrail.Proofs.Queue.Exclusive
import AuditTrail.Proofs.Log.Ledger
import AuditTrail.Proofs.Log.Deliveries
import AuditTrail.Proofs.Log.Readers
import AuditTrail.Proofs.Log.Receive
import AuditTrail.Proofs.Log.Coverage
import AuditTrail.Proofs.Log.Receipts
import AuditTrail.Proofs.Deployment.Basic
import AuditTrail.Proofs.Worker.Applied
import AuditTrail.Proofs.Worker.Projected
import AuditTrail.Proofs.Deployment.Delivery
import AuditTrail.Proofs.Filter.Select
import AuditTrail.Proofs.Deployment.Indexed
import AuditTrail.Proofs.Deployment.Convergence
import AuditTrail.Proofs.Event.Tenants
import AuditTrail.Proofs.Index.Partitions
import AuditTrail.Proofs.Index.Rows
import AuditTrail.Proofs.Isolation.Views
import AuditTrail.Proofs.Isolation.Backends
import AuditTrail.Proofs.Isolation.Calls
import AuditTrail.Proofs.Isolation.Runs
import AuditTrail.Proofs.Pipeline.Endings
import AuditTrail.Proofs.Store.Registry
import AuditTrail.Proofs.Pipeline.Changes
import AuditTrail.Proofs.Gateway.Callers
import AuditTrail.Proofs.Gateway.Effects
import AuditTrail.Proofs.Gateway.Authorization
import AuditTrail.Proofs.Http.Percent
import AuditTrail.Proofs.Gateway.ReadBack
import AuditTrail.Proofs.Deployment.Removal
import AuditTrail.Proofs.Gateway.Remembering
import AuditTrail.Proofs.Pipeline.Batches
import AuditTrail.Proofs.Worker.Redelivery
import AuditTrail.Proofs.Queue.Depth
import AuditTrail.Proofs.Pipeline.Accounts
import AuditTrail.Proofs.Worker.Accounts
import AuditTrail.Proofs.Gateway.Accounts
import AuditTrail.Proofs.Index.Names
import AuditTrail.Proofs.Time.Dates
import AuditTrail.Proofs.Filter.Days
import AuditTrail.Proofs.Filter.Pages
import AuditTrail.Proofs.Pipeline.Listings
import AuditTrail.Proofs.Stats.Tally
import AuditTrail.Proofs.Pipeline.Statistics
import AuditTrail.Proofs.Columnar.Pattern
import AuditTrail.Proofs.Columnar.Store
import AuditTrail.Proofs.Columnar.Groups
import AuditTrail.Proofs.Columnar.Tables
import AuditTrail.Proofs.Statements.Words
import AuditTrail.Proofs.Columnar.Reader
import AuditTrail.Proofs.Columnar.Selection
import AuditTrail.Proofs.Columnar.Recovery
import AuditTrail.Proofs.Relational.Insertion
import AuditTrail.Proofs.Relational.Transactions
import AuditTrail.Proofs.Export.Records
import AuditTrail.Proofs.Relational.Patterns
import AuditTrail.Proofs.Store.Calls
import AuditTrail.Proofs.Tenant.Names
import AuditTrail.Proofs.RateLimit.Buckets
import AuditTrail.Proofs.RateLimit.Rate
import AuditTrail.Proofs.RateLimit.Idle
import AuditTrail.Proofs.RateLimit.Retry
import AuditTrail.Proofs.Retention.Cutoff
import AuditTrail.Proofs.Retention.Purge
import AuditTrail.Proofs.Retention.Job
import AuditTrail.Proofs.Retention.Period
import AuditTrail.Proofs.Http.Query
import AuditTrail.Proofs.Filter.Exact
import AuditTrail.Proofs.Gateway.Listings
import AuditTrail.Proofs.Gateway.Finding
