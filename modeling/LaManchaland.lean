import LaManchaland.Llmserver.Owner
import LaManchaland.Api.Deadlock
import LaManchaland.Api.Launch
import LaManchaland.Api.Workers
import LaManchaland.Api.Agreement
import LaManchaland.Api.LastRequest
import LaManchaland.Api.Model
import LaManchaland.Lib.Keyed
import LaManchaland.Registry
import LaManchaland.Config
import LaManchaland.Worker
import LaManchaland.Api.Clients
import LaManchaland.Api.Dialable
import LaManchaland.Api.FullLoad
import LaManchaland.Ui.Reconnect
import LaManchaland.Ui.Stream
import LaManchaland.Api.Engine
import LaManchaland.Api.Frame
import LaManchaland.Llmserver.Failure
import LaManchaland.Refresh
import LaManchaland.Scanner
import LaManchaland.Ui.Chat
import LaManchaland.Ui.Conversation
import LaManchaland.Ui.Status
import LaManchaland.Lib.Dom
import LaManchaland.Ui.AssistantMsg
import LaManchaland.Lib.Exclusion
import LaManchaland.Llmserver.Port
import LaManchaland.Api.Broadcast
import LaManchaland.Llmserver.Argv
import LaManchaland.Llmserver.Models
import LaManchaland.Api.AddWorker
import LaManchaland.Api.Proxy
import LaManchaland.Api.ChatCompletions
import LaManchaland.Ui.Topology
import LaManchaland.Ui.WorkerCards
import LaManchaland.Ui.ModelSettings
import LaManchaland.Monitor
import LaManchaland.Monitor.Memory
import LaManchaland.Monitor.FormatBytes
import LaManchaland.Pointers
import LaManchaland.Ui.Animation
import LaManchaland.Wire.Load
import LaManchaland.Wire.Push
import LaManchaland.Wire.AddWorker
import LaManchaland.Wire.Metrics
import LaManchaland.Wire.Fetch
import LaManchaland.Api.Frozen
