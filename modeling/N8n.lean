import N8n.Activation.AllOrNothing
import N8n.Activation.DeactivationWins
import N8n.AugmentedData.PrivateCopy
import N8n.BinaryData.IndependentFiles
import N8n.Caching.AtomicHashes
import N8n.CodeNode.ChunkedRuns
import N8n.Concurrency.Shutdown
import N8n.Credentials.Reversible
import N8n.Deduplication.RecordedItems
import N8n.EditorHistory.UndoRedo
import N8n.EventBus.LoggedMessages
import N8n.EventBus.UnsentMessages
import N8n.Execution.CompleteInputs
import N8n.Execution.ErrorOutput
import N8n.Execution.ExecutionIndexes
import N8n.Execution.HighestNodes
import N8n.Execution.IgnoredErrors
import N8n.Execution.OffsetPagination
import N8n.Execution.Recovery
import N8n.Execution.ReleaseOrder
import N8n.Execution.Retries
import N8n.Expression.RoundTrip
import N8n.Folders.AcyclicForest
import N8n.Insights.ConservedTotals
import N8n.Insights.SharedFlushes
import N8n.Nodes.ArrayChunk
import N8n.Nodes.FuzzyComparison
import N8n.Nodes.LoopOverItems
import N8n.Nodes.Summarize
import N8n.OptimisticUpdates.NoLostUpdate
import N8n.PairedItems.Accessors
import N8n.PartialExecution.CleanRunData
import N8n.PartialExecution.FilteredReachability
import N8n.PartialExecution.HandleCycles
import N8n.PartialExecution.InputPartition
import N8n.PartialExecution.NodeDirtiness
import N8n.PartialExecution.SourceAlignment
import N8n.PartialExecution.WorkflowRoundTrip
import N8n.Push.Reconnects
import N8n.Sandboxing.BlockedAccess
import N8n.Scaling.DanglingExecutions
import N8n.Scaling.DebouncedCommands
import N8n.Scaling.LeaderKey
import N8n.Scaling.RunningJobs
import N8n.Scaling.TimersEnd
import N8n.Schedule.RegularRules
import N8n.Sharing.CredentialUsage
import N8n.SourceControl.PushedFiles
import N8n.SourceControl.StatusExact
import N8n.StaticData.NeverMissed
import N8n.TaskRunners.Agreement
import N8n.TaskRunners.RunnerSlots
import N8n.TaskRunners.ServedOnce
import N8n.TaskRunners.SlidingWindowSignal
import N8n.TaskRunners.TerminalMessages
import N8n.TaskRunners.WakeUps
import N8n.Waiting.ResumedOnce
import N8n.Webhooks.IndependentTestWebhooks
import N8n.Webhooks.ListeningCalls
import N8n.Webhooks.ResumedByOne
import N8n.Workflow.BreadthFirst
import N8n.Workflow.FilterNegations
import N8n.Workflow.FromAICalls
import N8n.Workflow.RenameNode
import N8n.Workflow.ResolveOrder
import N8n.Workflow.ReversedConnections
import N8n.Workflow.SubgraphSelection
