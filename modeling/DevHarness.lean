import DevHarness.Lib.Machine
import DevHarness.Lib.SharedStream
import DevHarness.Lib.Dict
import DevHarness.Lib.Count
import DevHarness.Lib.Python
import DevHarness.Lib.Saturating
import DevHarness.Lib.Text
import DevHarness.Lib.JsonText
import DevHarness.Lib.PathText
import DevHarness.Lib.Script
import DevHarness.Lib.Ddl
import DevHarness.Lib.Pattern
import DevHarness.Lib.Rounding
import DevHarness.Lib.RealPath
import DevHarness.Lib.Disk
import DevHarness.Lib.Placing
import DevHarness.Lib.Layered
import DevHarness.Lib.LinearExtension
import DevHarness.Lib.Tree
import DevHarness.Lib.Worklist
import DevHarness.Lib.Git
import DevHarness.Lib.Stash
import DevHarness.Lib.Patch
import DevHarness.Contracts
import DevHarness.Core.Signals
import DevHarness.Broker.Capacity
import DevHarness.Broker.Bucket
import DevHarness.Broker.Reservation
import DevHarness.Broker.Cost
import DevHarness.Broker.Policies
import DevHarness.Broker.Daemon
import DevHarness.Broker.Handlers
import DevHarness.Broker.History
import DevHarness.Broker.Client
import DevHarness.Broker.Slots
import DevHarness.Broker.Refunds
import DevHarness.Broker.Expiry
import DevHarness.Broker.Handling
import DevHarness.Broker.Meter
import DevHarness.Broker.Budget
import DevHarness.Broker.Metrics
import DevHarness.Broker.Interrupt
import DevHarness.Ipc.Queue
import DevHarness.Ipc.Framing
import DevHarness.Ipc.Discovery
import DevHarness.Ipc.FrameFormat
import DevHarness.Ipc.Envelopes
import DevHarness.Ipc.Sending
import DevHarness.Ipc.PushLoop
import DevHarness.Ipc.ControlServer
import DevHarness.Engine.Gatekeeper
import DevHarness.Engine.Bootstrap
import DevHarness.Engine.SocketPaths
import DevHarness.Engine.Commands
import DevHarness.Broker.Protocol
import DevHarness.Ipc.Wire
import DevHarness.Tui.LiveFeed
import DevHarness.Observability.Redact
import DevHarness.Observability.Artifacts
import DevHarness.Observability.Secrets
import DevHarness.Tui.ExecutionCanvas
import DevHarness.Tui.Throttle
import DevHarness.Tui.Scrollback
import DevHarness.Storage.WorkspaceLock
import DevHarness.Storage.Saver
import DevHarness.Storage.FreshIds
import DevHarness.Storage.WriteOrder
import DevHarness.Storage.Retention
import DevHarness.Storage.Integrity
import DevHarness.Storage.Quarantine
import DevHarness.Storage.Migrations
import DevHarness.Storage.MigrateUp
import DevHarness.Recovery.Reclaim
import DevHarness.Recovery.Session
import DevHarness.Recovery.Resume
import DevHarness.Engine.Integrator
import DevHarness.Engine.ConflictReport
import DevHarness.Engine.Dag
import DevHarness.Engine.DagOrder
import DevHarness.Engine.Requirement
import DevHarness.Engine.Classifier
import DevHarness.Engine.Context
import DevHarness.Engine.WorkerPool
import DevHarness.Engine.PoolRun
import DevHarness.Engine.PoolOutcome
import DevHarness.Engine.WorkerWorkspace
import DevHarness.Engine.WorktreeState
import DevHarness.Engine.Differential
import DevHarness.Engine.Pipeline
import DevHarness.Engine.Visit
import DevHarness.Engine.Completion
import DevHarness.Engine.SdlcGraph
import DevHarness.Engine.SdlcRuns
import DevHarness.Engine.Dispatch
import DevHarness.Engine.Isolation
import DevHarness.Engine.DeveloperWrites
import DevHarness.Vcs.WorktreeManager
import DevHarness.Vcs.Restore
import DevHarness.Engine.Fanout
import DevHarness.Engine.StateBroadcast
import DevHarness.Engine.ImportSemantics
import DevHarness.Providers.OllamaLoader
import DevHarness.Broker.Limiter
import DevHarness.Core.Metrics
import DevHarness.Engine.WorkspaceWatcher
import DevHarness.Engine.ReadyOrder
import DevHarness.Broker.RoutedCalls
import DevHarness.Ipc.ServedClient
import DevHarness.Tui.Bridge
import DevHarness.Tui.LiveView
import DevHarness.Recovery.CrashRecovery
import DevHarness.Broker.ProviderIsolation
import DevHarness.Engine.GraphCalls
import DevHarness.Storage.ScopeIsolation
import DevHarness.Broker.SocketCalls
import DevHarness.Broker.SocketRefinement
import DevHarness.Engine.ControlClients
import DevHarness.Engine.Delivery
