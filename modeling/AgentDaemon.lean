import AgentDaemon.Lib.Transition
import AgentDaemon.Storage.Queue
import AgentDaemon.Storage.Receipts
import AgentDaemon.Storage.Delivery
import AgentDaemon.Storage.Repeats
import AgentDaemon.Storage.Waiting
import AgentDaemon.Storage.Mirrors
import AgentDaemon.Storage.Replay
import AgentDaemon.Storage.Requeue
import AgentDaemon.Storage.Artifacts
import AgentDaemon.Daemon.Spawn
import AgentDaemon.Daemon.Subscribe
import AgentDaemon.Daemon.Handover
import AgentDaemon.Daemon.Queueing
import AgentDaemon.Daemon.Clients
import AgentDaemon.Daemon.Answers
import AgentDaemon.Engine.Turn
import AgentDaemon.Engine.Limits
import AgentDaemon.Engine.Circuit
import AgentDaemon.Session.Log
import AgentDaemon.Daemon.DelegationTool
import AgentDaemon.Daemon.ClientTransport
import AgentDaemon.Daemon.Startup
import AgentDaemon.Daemon.Models
import AgentDaemon.Daemon.Routes
import AgentDaemon.Daemon.RunRoutes
import AgentDaemon.Daemon.Conversation
import AgentDaemon.Mcp.Client
import AgentDaemon.Mcp.Framing
import AgentDaemon.Mcp.Reload
import AgentDaemon.Storage.Revisions
import AgentDaemon.Storage.Attempts
import AgentDaemon.Provider.Chunking
import AgentDaemon.Provider.LineEnds
import AgentDaemon.Session.Names
import AgentDaemon.Memory.Store
import AgentDaemon.Engine.Thinking
import AgentDaemon.Entry.WebSocket
import AgentDaemon.Entry.Acp
import AgentDaemon.Entry.Completions
import AgentDaemon.Entry.Tui
import AgentDaemon.Entry.Transcript
import AgentDaemon.Entry.InputEditor
import AgentDaemon.Skills.KeyedUpdate
import AgentDaemon.Engine.Attempts
import AgentDaemon.Engine.Compression
import AgentDaemon.Engine.Waves
import AgentDaemon.Provider.WireIds
import AgentDaemon.Engine.WireCalls
import AgentDaemon.Daemon.Leftovers
import AgentDaemon.Safety.FileAccess
import AgentDaemon.Daemon.Cascade
import AgentDaemon.Tools.Edit
import AgentDaemon.Tools.Validate
import AgentDaemon.Tools.Registry
import AgentDaemon.Tools.Sandbox
import AgentDaemon.Plan.Store
import AgentDaemon.Cron.Store
import AgentDaemon.Cron.Manager
import AgentDaemon.Safety.Commands
import AgentDaemon.Safety.External
import AgentDaemon.Daemon.Pages
import AgentDaemon.Daemon.Connection
import AgentDaemon.Daemon.Delivery
import AgentDaemon.Daemon.Sessions
import AgentDaemon.Engine.Ledger
import AgentDaemon.Daemon.Shutdown
