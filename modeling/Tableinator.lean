import Tableinator.Relational.Table
import Tableinator.Relational.Transaction
import Tableinator.Effect.Program
import Tableinator.Text
import Tableinator.Catalog
import Tableinator.Durable.DumpVersion
import Tableinator.Durable.Tables
import Tableinator.Durable.Signals
import Tableinator.Durable.Worker
import Tableinator.Durable.Writes
import Tableinator.Durable.Frame
import Tableinator.Durable.Protocol
import Tableinator.Durable.Fencing
import Tableinator.Durable.Ordering
import Tableinator.Durable.Obligation
import Tableinator.Durable.Delivery
import Tableinator.Durable.Loader
import Tableinator.Durable.Confluence
import Tableinator.Json
import Tableinator.Relational.RowSet
import Tableinator.Runtime
import Tableinator.Graph.Relations
import Tableinator.Graph.Derivation
import Tableinator.Relational.ReadCommitted
import Tableinator.Store.Tables
import Tableinator.Store.Statements
import Tableinator.Store.Writer
import Tableinator.Store.Coherence
import Tableinator.Store.WritePaths
import Tableinator.Store.Purge
import Tableinator.Store.Serial
import Tableinator.Store.ConcurrentRecords
import Tableinator.Store.Sweep
import Tableinator.Store.Endpoints
import Tableinator.Store.MediaColumn
import Tableinator.Relational.Waiting
import Tableinator.Store.LockOrder
import Tableinator.Durable.Health
import Tableinator.Durable.Inline
import Tableinator.Durable.Deployment
import Tableinator.Durable.ModeSwitch
import Tableinator.Durable.Veto
import Tableinator.Durable.Rejections
import Tableinator.Effect.Cooperative
import Tableinator.Consumers.Lifecycle
import Tableinator.Consumers.Pause
import Tableinator.Consumers.Subscriptions
import Tableinator.Consumers.Singleness
import Tableinator.Store.Equivalence
import Tableinator.Store.Repetition
import Tableinator.Store.StaleRows
import Tableinator.Batch.Observer
import Tableinator.Batch.Accounting
import Tableinator.Batch.Stall
import Tableinator.Durable.Terminal
import Tableinator.Durable.EffectOrder
import Tableinator.Durable.Redelivery
import Tableinator.Batch.Isolation
import Tableinator.Durable.InlinePass
import Tableinator.Durable.Newest
import Tableinator.Digits
import Tableinator.Durable.Calendar
import Tableinator.Store.NativeIdentity
import Tableinator.Durable.LegacyRows
import Tableinator.Graph.Counters
import Tableinator.Graph.WellFormed
import Tableinator.Graph.Wrapper
import Tableinator.Consumers.Gauge
import Tableinator.Store.ConcurrentSweep
import Tableinator.Store.Reload
import Tableinator.Durable.Message
import Tableinator.Durable.Progress
import Tableinator.Graph.Projection
import Tableinator.Store.Refresh
import Tableinator.Store.Statistics
import Tableinator.Durable.VetoHistory
import Tableinator.Effect.Undisturbed
import Tableinator.Consumers.Recovery
import Tableinator.Consumers.Watch
import Tableinator.Consumers.Resumption
import Tableinator.Store.Editions
import Tableinator.Batch.Acknowledgement
import Tableinator.Store.Identifiers
