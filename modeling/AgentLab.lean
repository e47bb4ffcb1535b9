import AgentLab.Lib.AsyncLock
import AgentLab.Lib.Runs
import AgentLab.Lib.Keyed
import AgentLab.Lib.Search
import AgentLab.Lib.Checks
import AgentLab.Lib.Log
import AgentLab.Lib.Effects
import AgentLab.Lib.History
import AgentLab.Lib.Interference
import AgentLab.Python.Value
import AgentLab.Python.Render
import AgentLab.Python.Text
import AgentLab.Python.Float
import AgentLab.Python.Path
import AgentLab.Python.Rounding
import AgentLab.Python.Toml
import AgentLab.Python.TomlReader
import AgentLab.Config.Profile
import AgentLab.Config.Accepted
import AgentLab.Config.Valid
import AgentLab.Config.Registry
import AgentLab.Config.Load
import AgentLab.Config.Entries
import AgentLab.Config.ModelPaths
import AgentLab.Config.Reported
import AgentLab.Config.Escapes
import AgentLab.Backend.Settings
import AgentLab.Backend.Process
import AgentLab.Serve.Serve
import AgentLab.Gateway.Keys
import AgentLab.Gateway.KeyFile
import AgentLab.Gateway.KeyCache
import AgentLab.Gateway.KeyCheck
import AgentLab.Gateway.KeyLog
import AgentLab.Gateway.KeyLife
import AgentLab.Gateway.KeyLifeInvariant
import AgentLab.Gateway.Queue
import AgentLab.Gateway.QueueInvariant
import AgentLab.Gateway.QueueOrder
import AgentLab.Gateway.Translate
import AgentLab.Gateway.Prepared
import AgentLab.Gateway.Refusals
import AgentLab.Gateway.Forwarded
import AgentLab.Gateway.ErrorResponse
import AgentLab.Gateway.Deliverable
import AgentLab.Gateway.Tokens
import AgentLab.Gateway.Heartbeats
import AgentLab.Gateway.HeartbeatsInvariant
import AgentLab.Gateway.Chat
import AgentLab.Gateway.Budget
import AgentLab.Gateway.Served
import AgentLab.Gateway.Chunk
import AgentLab.Gateway.BackendChunks
import AgentLab.Gateway.Answer
import AgentLab.Gateway.Summary
import AgentLab.Gateway.Guard
import AgentLab.Gateway.Stream
import AgentLab.Gateway.Pace
import AgentLab.Gateway.Events
import AgentLab.Gateway.Rendered
import AgentLab.Gateway.Agreement
import AgentLab.Gateway.Failures
import AgentLab.Gateway.Truncation
import AgentLab.Gateway.Request
import AgentLab.Gateway.RequestMoves
import AgentLab.Gateway.RequestInvariant
import AgentLab.Gateway.Capacity
import AgentLab.Gateway.ArrivalOrder
import AgentLab.Backend.Control
import AgentLab.Backend.LogFilter
import AgentLab.Backend.StateFile
import AgentLab.Backend.Watchdog
import AgentLab.Gpu.Limit
import AgentLab.Gpu.Safe
import AgentLab.Pull.Records
import AgentLab.Pull.Entries
import AgentLab.Pull.Pull
import AgentLab.Pull.Operations
import AgentLab.Pull.Verified
import AgentLab.Pull.Placed
import AgentLab.Pull.Exactly
import AgentLab.Pull.Resumed
import AgentLab.Pull.Room
import AgentLab.Pull.Recorded
import AgentLab.Pull.Heals
import AgentLab.Python.Json
import AgentLab.Config.DiskSpace
import AgentLab.Config.TomlText
import AgentLab.Config.Write
import AgentLab.Config.Rewritten
import AgentLab.Config.RegistryFile
import AgentLab.Config.Lock
import AgentLab.Python.JsonRoundTrip
import AgentLab.Backend.WriteJson
import AgentLab.Backend.Ready
import AgentLab.Backend.Terminate
import AgentLab.Python.Replace
import AgentLab.Backend.LogTail
import AgentLab.Lib.Split
import AgentLab.Backend.LogStream
import AgentLab.Toolchain.Stamp
import AgentLab.Toolchain.Install
import AgentLab.Toolchain.Pins
