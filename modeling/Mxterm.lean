import Mxterm.CrashRecovery
import Mxterm.DeletedSecrets
import Mxterm.ImportFailure
import Mxterm.ExportHistories
import Mxterm.ImportRollback
import Mxterm.TerminalOutputRuns
import Mxterm.TerminalSplitTiling
import Mxterm.FileUndo
import Mxterm.TerminalRecentOutput
import Mxterm.ScheduledTaskRaces
import Mxterm.TurnReassembly
import Mxterm.RequestBodies
import Mxterm.ChatStreamEndings
import Mxterm.InsertionCommits
import Mxterm.TransferRegistry
import Mxterm.TransferQueueRuns
import Mxterm.TunnelRuns
import Mxterm.SftpResume
import Mxterm.RemovalOutcomes
import Mxterm.DownloadConfinement
import Mxterm.StdioServer
import Mxterm.KnownHostHistories
import Mxterm.RemoteCommandRuns
import Mxterm.CommandFailures
import Mxterm.RemoteFileSessions
import Mxterm.RemoteMonitorSessions
import Mxterm.RemoteExecPool
import Mxterm.NativeRdpHost
import Mxterm.VncBridge
import Mxterm.McpCommandHistories
import Mxterm.RemoteSaves
import Mxterm.HttpConnect
import Mxterm.WorkspacePatches
import Mxterm.VaultFailures
import Mxterm.X11GateRuns
import Mxterm.McpHttpOutcomes
import Mxterm.TunnelCounterRuns
import Mxterm.TelnetNegotiation
import Mxterm.TelnetInput
import Mxterm.AgentPages
import Mxterm.MessageFlowRuns
import Mxterm.ToolSummaries
import Mxterm.ScheduledTaskRuns
import Mxterm.DockerConfig
import Mxterm.DockerCommands
import Mxterm.DockerStreams
import Mxterm.TerminalBatcherRuns
import Mxterm.JsonStore
import Mxterm.ProjectContext
import Mxterm.HtmlDocuments
import Mxterm.SearchPages
import Mxterm.RemoteListing
import Mxterm.MonitorArithmetic
import Mxterm.ConnectionOverlay
import Mxterm.DockerWindow
import Mxterm.OscDirectories
