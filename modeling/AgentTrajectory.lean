import AgentTrajectory.FrozenRecords
import AgentTrajectory.SseRoundtrip
import AgentTrajectory.CodexDelivery
import AgentTrajectory.RedactCredentials
import AgentTrajectory.PiiRedaction
import AgentTrajectory.ToolPairing
import AgentTrajectory.Reingestion
import AgentTrajectory.OverlapConservation
import AgentTrajectory.ReplyEdges
import AgentTrajectory.TaskResegment
import AgentTrajectory.ThreadWiring
import AgentTrajectory.ThreadResolution
import AgentTrajectory.SplitAudit
import AgentTrajectory.GapChunks
import AgentTrajectory.ChunkMerge
import AgentTrajectory.TaskSections
import AgentTrajectory.RollbackPurity
import AgentTrajectory.TitleAnchors
import AgentTrajectory.RouteCache
import AgentTrajectory.AnchorOrder
import AgentTrajectory.ContextCut
import AgentTrajectory.ReplyRoots
import AgentTrajectory.ReplayScene
import AgentTrajectory.ReplyChainGold
import AgentTrajectory.SheetRoundTrip
import AgentTrajectory.AntigravityContext
import AgentTrajectory.SubtaskAssembly
import AgentTrajectory.PollutionStats
import AgentTrajectory.RefreshEvents
import AgentTrajectory.SystemToolsCapture
import AgentTrajectory.RecheckResume
import AgentTrajectory.TaskExport
import AgentTrajectory.TrajectoryAggregate
import AgentTrajectory.HistoryClusters
import AgentTrajectory.CorrectionOutput
import AgentTrajectory.RewriteThread
