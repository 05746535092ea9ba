import Guigu.Core.Session.CrashCut
import Guigu.Core.Session.Durability
import Guigu.Core.Session.LockedOrder
import Guigu.Core.Session.InitialHeads
import Guigu.Core.Session.SnapshotRuns
import Guigu.Server.SessionFiles
import Guigu.Server.LaneFiles
import Guigu.Server.PersistenceBridge
import Guigu.Server.Restarts
import Guigu.Core.Runtime.Persistence
import Guigu.Core.Runtime.Execution
import Guigu.Core.Runtime.Cancellation
import Guigu.Core.IdleCounter
import Guigu.Core.CommandOrder
import Guigu.Core.Delivery
import Guigu.Core.Projection
import Guigu.Acp.Teardown
import Guigu.Core.Runtime.Unwinding
import Guigu.Adapters.Accumulation
import Guigu.Adapters.AnthropicRequest
import Guigu.Acp.SseClients
import Guigu.Acp.PromptRuns
import Guigu.Server.Subscriptions
import Guigu.Server.LaneCalls
import Guigu.Server.Shutdown
import Guigu.Server.SessionRollback
import Guigu.Remote.Codec
import Guigu.Remote.Client
import Guigu.Tools.Edit
import Guigu.Plugin.Agent
import Guigu.Tui.FailedRuns
import Guigu.Core.Estimates
import Guigu.Core.Session.Cursor
import Guigu.Adapters.SseChunks
import Guigu.Core.Runtime.ToolOverlap
import Guigu.Core.Compactor
import Guigu.Core.Runtime.Preview
import Guigu.Core.Runtime.Snapshots
import Guigu.Adapters.AnthropicDiscipline
import Guigu.Adapters.AnthropicRoom
import Guigu.Adapters.Discipline
import Guigu.Adapters.OpenAiRoom
import Guigu.Adapters.StreamPanics
import Guigu.Adapters.Representation
import Guigu.Adapters.Indexing
import Guigu.Acp.Updates
import Guigu.Tui.Conversation
import Guigu.Tui.Loop
import Guigu.Tui.Render
import Guigu.Remote.Session
import Guigu.Acp.FsAccess
import Guigu.Plugin.Tools
import Guigu.Tools.Read
import Guigu.Adapters.OpenAiRequest
import Guigu.Server.Protocol
import Guigu.Tools.Bash
