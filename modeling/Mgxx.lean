import Mgxx.Library.Runs
import Mgxx.Library.NestedMap
import Mgxx.Library.ChunkedCoding
import Mgxx.Library.Spans
import Mgxx.Library.HashTable
import Mgxx.Library.Fields
import Mgxx.Library.FirstMatch
import Mgxx.Library.Glob
import Mgxx.Library.Blocks
import Mgxx.Library.HexPairs
import Mgxx.Library.Numerals
import Mgxx.Http.Common
import Mgxx.Http.Headers
import Mgxx.Http.AsyncStream
import Mgxx.Http.AsyncResponse
import Mgxx.Http.Connection
import Mgxx.Http.Response
import Mgxx.Http.Endpoint
import Mgxx.Http.Handlers
import Mgxx.Http.Requests
import Mgxx.Http.RequestRouting
import Mgxx.Http.Tls
import Mgxx.Http.EventLoop
import Mgxx.Http.CertInfo
import Mgxx.Server.Logger
import Mgxx.Concurrency.Worker
import Mgxx.Concurrency.Threads
import Mgxx.Concurrency.Ownership
import Mgxx.Concurrency.WorkerOwnership
import Mgxx.Concurrency.RequestView
import Mgxx.Concurrency.Protocol
import Mgxx.Concurrency.Lifecycle
import Mgxx.Concurrency.Use
import Mgxx.Concurrency.Atomic
import Mgxx.Concurrency.Restriction
import Mgxx.Concurrency.Keys
import Mgxx.Concurrency.Waiting
import Mgxx.Concurrency.AtomicWaits
import Mgxx.Concurrency.Attendance
import Mgxx.Concurrency.Stranding
import Mgxx.Concurrency.Driving
import Mgxx.Concurrency.Lifting
import Mgxx.Server.Address
import Mgxx.Server.Connections
import Mgxx.Server.Wiring
import Mgxx.Server.Slices
import Mgxx.Server.Refinement
import Mgxx.Properties.Wakeups
import Mgxx.Properties.Answers
import Mgxx.Properties.Payloads
import Mgxx.Properties.Chunks
import Mgxx.Properties.Framing
import Mgxx.Properties.HandOver
import Mgxx.Properties.Isolation
import Mgxx.Properties.Terminal
import Mgxx.Properties.Closing
import Mgxx.Properties.Moves
import Mgxx.Properties.Dispatching
import Mgxx.Properties.Reports
import Mgxx.Properties.AssetHistory
import Mgxx.Properties.Bodies
import Mgxx.Properties.Tables
import Mgxx.Properties.Agreement
import Mgxx.Properties.BackPressure
import Mgxx.Properties.Producers
import Mgxx.Properties.Turns
import Mgxx.Properties.Failures
import Mgxx.Properties.Snapshot
import Mgxx.Properties.RouteParams
import Mgxx.Properties.DirectoryAssets
import Mgxx.Properties.HeaderMap
import Mgxx.Properties.HeadFrames
import Mgxx.Properties.HeaderBlocks
import Mgxx.Properties.FramingHeaders
import Mgxx.Properties.TlsBuffers
import Mgxx.Properties.LogLines
import Mgxx.Properties.Certificates
import Mgxx.Properties.Endpoints
import Mgxx.Properties.Shutdown
import Mgxx.Properties.Alarms
import Mgxx.Properties.Sleepers
import Mgxx.Properties.Completion
import Mgxx.Properties.Appending
import Mgxx.Properties.Flushing
import Mgxx.Properties.Backlog
import Mgxx.Properties.Flooding
