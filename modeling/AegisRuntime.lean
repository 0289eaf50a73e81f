import AegisRuntime.ActionRecords
import AegisRuntime.AgentDialogues
import AegisRuntime.AgentEffects
import AegisRuntime.AgentHalts
import AegisRuntime.AgentLoop
import AegisRuntime.AgentOutcomes
import AegisRuntime.AgentRecords
import AegisRuntime.AgentRetries
import AegisRuntime.ApprovalRecords
import AegisRuntime.CallPrograms
import AegisRuntime.CauseChains
import AegisRuntime.ChatHandlers
import AegisRuntime.ContextWindows
import AegisRuntime.EffectCertainties
import AegisRuntime.EventStreams
import AegisRuntime.FailureRecords
import AegisRuntime.FileSystemCalls
import AegisRuntime.GatedDispatch
import AegisRuntime.GatewayRoutes
import AegisRuntime.GatewayTraffic
import AegisRuntime.HeartbeatPulses
import AegisRuntime.HeartbeatReceipts
import AegisRuntime.HeartbeatTasks
import AegisRuntime.JsonLines
import AegisRuntime.JsonPrints
import AegisRuntime.JsonTexts
import AegisRuntime.JsonTokens
import AegisRuntime.JsonValues
import AegisRuntime.KeyedLogs
import AegisRuntime.KeyedTables
import AegisRuntime.LabelledRuns
import AegisRuntime.LexicalPaths
import AegisRuntime.LinkFreeTrees
import AegisRuntime.LinkedStores
import AegisRuntime.LocalCommands
import AegisRuntime.MessageLog
import AegisRuntime.OperatorGate
import AegisRuntime.PayloadRedaction
import AegisRuntime.PrecedenceGraphs
import AegisRuntime.ReplacementOrders
import AegisRuntime.RootCauses
import AegisRuntime.RowPages
import AegisRuntime.RowStores
import AegisRuntime.RunRecords
import AegisRuntime.RunStore
import AegisRuntime.SessionClients
import AegisRuntime.SessionPages
import AegisRuntime.SessionStore
import AegisRuntime.SignedColumns
import AegisRuntime.SkillPermissions
import AegisRuntime.SkillPrograms
import AegisRuntime.StoredValues
import AegisRuntime.SuffixTrimming
import AegisRuntime.SymlinkTrees
import AegisRuntime.SystemCalls
import AegisRuntime.TableReferences
import AegisRuntime.TextReplacement
import AegisRuntime.TextScanning
import AegisRuntime.TextSearching
import AegisRuntime.ToolCallTexts
import AegisRuntime.TranscriptReplays
import AegisRuntime.UndisturbedSkills
import AegisRuntime.VaultResolvers
import AegisRuntime.VersionedCells
import AegisRuntime.WorkerPools
import AegisRuntime.WorkflowAcceptance
import AegisRuntime.WorkflowCancellation
import AegisRuntime.WorkflowCoordinator
import AegisRuntime.WorkflowFixpoints
import AegisRuntime.WorkflowGraph
import AegisRuntime.WorkflowHistory
import AegisRuntime.WorkflowLedger
import AegisRuntime.WorkflowLifecycles
import AegisRuntime.WorkflowLookups
import AegisRuntime.WorkflowMeaning
import AegisRuntime.WorkflowMoves
import AegisRuntime.WorkflowPasses
import AegisRuntime.WorkflowPermits
import AegisRuntime.WorkflowReports
import AegisRuntime.WorkflowRuns
import AegisRuntime.WorkflowSchedules
import AegisRuntime.WorkflowSteps
import AegisRuntime.WorkflowTermination
import AegisRuntime.WorkflowTraces
import AegisRuntime.WorkspacePaths
