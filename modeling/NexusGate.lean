import NexusGate.Async.Eval
import NexusGate.Async.Isolation
import NexusGate.Async.Ledger
import NexusGate.Async.Lives
import NexusGate.Async.Pool
import NexusGate.Async.Prog
import NexusGate.Async.RefreshWindow
import NexusGate.Async.Solo
import NexusGate.Async.Tally
import NexusGate.Async.Turns
import NexusGate.Redis.Recency
import NexusGate.Redis.SortedSets
import NexusGate.Redis.Store
import NexusGate.Text.Json
import NexusGate.Text.Lines
import NexusGate.Text.Separator
import NexusGate.Text.WordStarts
import NexusGate.Text.Words
import NexusGate.Core.Calendar
import NexusGate.Core.Concurrency
import NexusGate.Core.Metering
import NexusGate.Core.RateLimit
import NexusGate.Rag.Chunking
import NexusGate.Rag.Documents
import NexusGate.Rag.Ingestion
import NexusGate.Rag.IngestionService
import NexusGate.Rag.Lexical
import NexusGate.Rag.Retrieval
import NexusGate.Rag.VectorStore
import NexusGate.Workers.Drivers
import NexusGate.Workers.Faults
import NexusGate.Workers.Jobs
import NexusGate.Workers.Keys
import NexusGate.Workers.Service
import NexusGate.Cache.History
import NexusGate.Cache.SemanticCache
import NexusGate.Gateway.BreakerCluster
import NexusGate.Gateway.CircuitBreaker
import NexusGate.Gateway.Fleet
import NexusGate.Gateway.Occasion
import NexusGate.Gateway.Pool
import NexusGate.Gateway.Rollout
import NexusGate.Gateway.RolloutMachine
import NexusGate.Gateway.Router
import NexusGate.Gateway.RouterOps
import NexusGate.Gateway.RoutingConfig
import NexusGate.Gateway.Scene
import NexusGate.Gateway.Schemas
import NexusGate.Gateway.Service
import NexusGate.Gateway.Session
import NexusGate.Gateway.Turn
import NexusGate.Gateway.Walk
import NexusGate.Api.Account
import NexusGate.Api.Admin
import NexusGate.Agents.Graph
import NexusGate.Agents.Nodes
import NexusGate.Agents.Prompts
import NexusGate.Agents.Service
import NexusGate.Agents.State
import NexusGate.Qdrant.Collection
import NexusGate.Theorems.Core.Amounts
import NexusGate.Theorems.Core.Concurrency
import NexusGate.Theorems.Core.Metering
import NexusGate.Theorems.Core.Queue
import NexusGate.Theorems.Core.RateLimit
import NexusGate.Theorems.Core.RetryAfter
import NexusGate.Theorems.Core.Semaphore
import NexusGate.Theorems.Core.Slots
import NexusGate.Theorems.Core.WorkerThreads
import NexusGate.Theorems.Rag.DocumentStores
import NexusGate.Theorems.Rag.Headings
import NexusGate.Theorems.Rag.IngestSteps
import NexusGate.Theorems.Rag.LeftOut
import NexusGate.Theorems.Rag.Orphans
import NexusGate.Theorems.Rag.Packing
import NexusGate.Theorems.Rag.Redelivery
import NexusGate.Theorems.Rag.Registry
import NexusGate.Theorems.Rag.Tenants
import NexusGate.Theorems.Rag.Terms
import NexusGate.Theorems.Rag.Titles
import NexusGate.Theorems.Rag.Units
import NexusGate.Theorems.Rag.Weights
import NexusGate.Theorems.Rag.Windows
import NexusGate.Theorems.Workers.Abandonment
import NexusGate.Theorems.Workers.Absorbing
import NexusGate.Theorems.Workers.AttemptWatch
import NexusGate.Theorems.Workers.Attempts
import NexusGate.Theorems.Workers.Calls
import NexusGate.Theorems.Workers.KeyRuns
import NexusGate.Theorems.Workers.KeySpaces
import NexusGate.Theorems.Workers.KeyWatch
import NexusGate.Theorems.Workers.Lifecycle
import NexusGate.Theorems.Workers.Retries
import NexusGate.Theorems.Workers.RetryCopies
import NexusGate.Theorems.Workers.RetryInv
import NexusGate.Theorems.Workers.RetrySteps
import NexusGate.Theorems.Workers.RetryWatch
import NexusGate.Theorems.Workers.Submission
import NexusGate.Theorems.Workers.Watch
import NexusGate.Theorems.Cache.Isolation
import NexusGate.Theorems.Cache.Namespace
import NexusGate.Theorems.Cache.Newest
import NexusGate.Theorems.Cache.Steps
import NexusGate.Theorems.Cache.Watch
import NexusGate.Theorems.Gateway.Accounting
import NexusGate.Theorems.Gateway.AdminActions
import NexusGate.Theorems.Gateway.BadRequest
import NexusGate.Theorems.Gateway.BreakerLaw
import NexusGate.Theorems.Gateway.BreakerNames
import NexusGate.Theorems.Gateway.FailureRuns
import NexusGate.Theorems.Gateway.FirstText
import NexusGate.Theorems.Gateway.Freshness
import NexusGate.Theorems.Gateway.GaugeDuties
import NexusGate.Theorems.Gateway.GaugeTruth
import NexusGate.Theorems.Gateway.LearnedOpen
import NexusGate.Theorems.Gateway.Models
import NexusGate.Theorems.Gateway.PooledFailures
import NexusGate.Theorems.Gateway.ProbeClaim
import NexusGate.Theorems.Gateway.ProbeKept
import NexusGate.Theorems.Gateway.ProbeSlot
import NexusGate.Theorems.Gateway.Rollout
import NexusGate.Theorems.Gateway.RolloutMachine
import NexusGate.Theorems.Gateway.RunningEstimate
import NexusGate.Theorems.Gateway.Servable
import NexusGate.Theorems.Gateway.StreamEnd
import NexusGate.Theorems.Gateway.Streams
import NexusGate.Theorems.Gateway.Unmade
import NexusGate.Theorems.Gateway.Unreachable
import NexusGate.Theorems.Gateway.Walk
import NexusGate.Theorems.Gateway.Withdrawal
import NexusGate.Theorems.Agents.Graph
import NexusGate.Theorems.Agents.Passages
import NexusGate.Theorems.Agents.Planning
import NexusGate.Theorems.Agents.Research
import NexusGate.Theorems.Agents.Review
