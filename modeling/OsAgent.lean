import OsAgent.Library.OrderedMap
import OsAgent.Library.Program
import OsAgent.Library.Transition
import OsAgent.AgentScheduler.Types
import OsAgent.AgentScheduler.Scheduler
import OsAgent.AgentScheduler.Frame
import OsAgent.AgentScheduler.Rest
import OsAgent.AgentScheduler.Invariant
import OsAgent.AgentScheduler.Operations
import OsAgent.AgentScheduler.Registration
import OsAgent.AgentScheduler.Runs
import OsAgent.AgentScheduler.Effects
import OsAgent.AgentScheduler.Delivery
import OsAgent.AgentScheduler.Progress
import OsAgent.AgentScheduler.Conservation
import OsAgent.AgentScheduler.History
import OsAgent.AgentScheduler.ExactlyOnce
import OsAgent.AgentScheduler.Restart
import OsAgent.AgentContext.Types
import OsAgent.Library.Check
import OsAgent.AgentContext.Frames
import OsAgent.AgentContext.Checkpoint
import OsAgent.AgentContext.Summaries
import OsAgent.AgentContext.Decisions
import OsAgent.AgentContext.Manager
import OsAgent.AgentContext.Validity
import OsAgent.AgentContext.Active
import OsAgent.AgentContext.Changes
import OsAgent.AgentContext.Sessions
import OsAgent.AgentContext.Durability
import OsAgent.AgentContext.Records
import OsAgent.AgentContext.Cursors
import OsAgent.AgentContext.Waking
import OsAgent.AgentContext.Draining
import OsAgent.AgentContext.Moves
import OsAgent.AgentContext.Acceptance
import OsAgent.AgentContext.Chronicle
import OsAgent.AgentContext.Absorption
import OsAgent.AgentContext.References
import OsAgent.AgentContext.Sharing
import OsAgent.AgentContext.Serial
import OsAgent.AgentRuntime.Executor
import OsAgent.AgentRuntime.System
import OsAgent.AgentRuntime.Moves
import OsAgent.AgentRuntime.Places
import OsAgent.AgentRuntime.Soundness
import OsAgent.AgentRuntime.Spent
import OsAgent.AgentRuntime.Sections
import OsAgent.AgentRuntime.Execution
import OsAgent.AgentRuntime.Exclusion
import OsAgent.Capability.Idempotence
import OsAgent.Capability.Manager
import OsAgent.Capability.Requests
import OsAgent.Capability.Delegation
import OsAgent.Scheduler.AgentPool
import OsAgent.Scheduler.PoolAccounts
import OsAgent.Scheduler.PoolRuns
import OsAgent.Library.SlidingWindow
import OsAgent.Scheduler.AdmissionController
import OsAgent.Scheduler.AdmissionWindows
import OsAgent.Scheduler.AdmissionRuns
import OsAgent.AgentRuntime.RequestAdmission
import OsAgent.Library.Rotation
import OsAgent.Scheduler.ReadyQueue
import OsAgent.Scheduler.QueueTurns
import OsAgent.Scheduler.QueueFairness
import OsAgent.Kernel.AsyncWork
import OsAgent.Kernel.WorkGraph
import OsAgent.Library.Search
import OsAgent.Kernel.TaskControlBlock
import OsAgent.Kernel.WorkTable
import OsAgent.Kernel.Deliveries
import OsAgent.Kernel.WorkRuns
import OsAgent.Kernel.GraphOrder
import OsAgent.Kernel.GraphRuns
import OsAgent.Conversations.Mailboxes
import OsAgent.Conversations.Outcomes
import OsAgent.Conversations.Validity
import OsAgent.Conversations.Runs
import OsAgent.Conversations.Transactions
import OsAgent.Conversations.Budgets
import OsAgent.Conversations.Delivery
import OsAgent.Kernel.Proposals
import OsAgent.Library.Paths
import OsAgent.Tools.Workspace
import OsAgent.Library.Occurrences
import OsAgent.Library.Utf16
import OsAgent.Tools.ApplyPatch
import OsAgent.Capability.Plans
import OsAgent.Conversations.Messaging
import OsAgent.Conversations.MessagingRuns
import OsAgent.Conversations.Handling
import OsAgent.Library.JsonParse
import OsAgent.Library.JsonTree
import OsAgent.AgentRuntime.RequestView
import OsAgent.AgentRuntime.RequestDeltas
import OsAgent.AgentRuntime.RequestReading
import OsAgent.AgentRuntime.NativeHistory
import OsAgent.AgentRuntime.HistoryRuns
import OsAgent.Capability.SingleUse
import OsAgent.Conversations.Compactor
import OsAgent.Conversations.SummaryChain
import OsAgent.Conversations.SummaryRuns
import OsAgent.Capability.ScopeSets
import OsAgent.Context.ContextWindowManager
import OsAgent.Context.Selection
import OsAgent.AgentRound.SummaryRequests
import OsAgent.AgentRound.SummaryAliases
import OsAgent.ModelRequester.DeepSeekCodec
import OsAgent.ModelRequester.ToolNames
import OsAgent.AgentRuntime.Actions
import OsAgent.AgentRuntime.LegacyCompletion
import OsAgent.AgentContext.Capacity
import OsAgent.Library.Numerals
import OsAgent.Persistence.SqliteTaskStore
import OsAgent.Persistence.StoreRuns
import OsAgent.AgentContext.Compaction
import OsAgent.Conversations.History
import OsAgent.Conversations.Paging
import OsAgent.Conversations.MemoryView
import OsAgent.Conversations.ViewContents
import OsAgent.AgentScheduler.Wakeups
import OsAgent.AgentContext.Intake
import OsAgent.AgentRound.Drain
import OsAgent.AgentRound.Growth
import OsAgent.AgentRound.Runner
import OsAgent.Authority.Runs
import OsAgent.Capability.Sources
import OsAgent.Tools.ToolRegistry
import OsAgent.Capability.Records
import OsAgent.AgentRuntime.Agents
import OsAgent.AgentRuntime.Vetting
import OsAgent.AgentRuntime.Host
import OsAgent.AgentRuntime.Authorization
import OsAgent.AgentRuntime.RestoredAgents
import OsAgent.AgentRuntime.Dismissal
import OsAgent.AgentScheduler.Batches
import OsAgent.AgentRound.Rounds
import OsAgent.AgentRuntime.TrackedRequester
import OsAgent.AgentRuntime.Spending
import OsAgent.Library.Format
import OsAgent.Model.StructuredResponse
import OsAgent.Model.AnswerTexts
import OsAgent.Kernel.Restoring
import OsAgent.Authority.Snapshots
