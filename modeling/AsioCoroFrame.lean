import AsioCoroFrame.Core.Lists
import AsioCoroFrame.Core.Ordered
import AsioCoroFrame.Core.Tally
import AsioCoroFrame.Core.Grouping
import AsioCoroFrame.Core.Text
import AsioCoroFrame.Core.Rewriting
import AsioCoroFrame.Core.Stretches
import AsioCoroFrame.Core.Overlaps
import AsioCoroFrame.Core.Termination
import AsioCoroFrame.Core.Numeral
import AsioCoroFrame.Core.Run
import AsioCoroFrame.Core.Prog
import AsioCoroFrame.Core.Monitor
import AsioCoroFrame.Core.Shell
import AsioCoroFrame.Models.Cluster.Reply
import AsioCoroFrame.Models.Cluster.SlotHash
import AsioCoroFrame.Models.Cluster.Process
import AsioCoroFrame.Models.Cluster.Async
import AsioCoroFrame.Models.ThreadedPool.ConPool
import AsioCoroFrame.Models.ThreadedPool.State
import AsioCoroFrame.Models.ThreadedPool.Effect
import AsioCoroFrame.Models.ThreadedPool.Conservation
import AsioCoroFrame.Models.ThreadedPool.Exclusivity
import AsioCoroFrame.Models.ThreadedPool.Disconnect
import AsioCoroFrame.Models.ThreadedPool.Shutdown
import AsioCoroFrame.Models.ThreadedPool.Grant
import AsioCoroFrame.Models.ThreadedPool.Health
import AsioCoroFrame.Models.ThreadedPool.Redirect
import AsioCoroFrame.Models.ThreadedPool.Topology
import AsioCoroFrame.Models.FlowNumber.Handler
import AsioCoroFrame.Models.FlowNumber.Counter
import AsioCoroFrame.Models.FlowNumber.Allocation
import AsioCoroFrame.Models.FlowNumber.Service
import AsioCoroFrame.Models.FlowNumber.Leak
import AsioCoroFrame.Models.Http.Parser
import AsioCoroFrame.Models.Http.Message
import AsioCoroFrame.Models.Http.Client
import AsioCoroFrame.Models.Http.Connection
import AsioCoroFrame.Models.Http.Body
import AsioCoroFrame.Models.Http.Exceptions
import AsioCoroFrame.Models.Http.KeepAlive
import AsioCoroFrame.Models.Http.Response
import AsioCoroFrame.Models.Http.ClientResponse
import AsioCoroFrame.Models.Http.StaticFile
import AsioCoroFrame.Models.Http.Framing
import AsioCoroFrame.Models.Http.Routing
import AsioCoroFrame.Models.Http.FileResponse
import AsioCoroFrame.Models.Http.Chunked
import AsioCoroFrame.Models.Http.Exchange
import AsioCoroFrame.Models.Http.Conversation
import AsioCoroFrame.Models.FlowNumber.Commands
import AsioCoroFrame.Models.FlowNumber.Replies
import AsioCoroFrame.Models.Attendance.Reader
import AsioCoroFrame.Models.Attendance.Writer
import AsioCoroFrame.Models.Attendance.Dates
import AsioCoroFrame.Models.Pdf.Convert
import AsioCoroFrame.Models.Pdf.Content
import AsioCoroFrame.Models.Report.Session
import AsioCoroFrame.Models.Report.Passes
import AsioCoroFrame.Models.Report.Guard
import AsioCoroFrame.Models.Report.Lookup
import AsioCoroFrame.Models.Report.Independence
import AsioCoroFrame.Models.Report.Provenance
import AsioCoroFrame.Models.Report.Stale
import AsioCoroFrame.Models.Redispp.Resp
import AsioCoroFrame.Models.Redispp.Socket
import AsioCoroFrame.Models.Redispp.Command
import AsioCoroFrame.Models.Redispp.Pipeline
import AsioCoroFrame.Models.Redispp.Session
import AsioCoroFrame.Models.Redispp.Reading
import AsioCoroFrame.Models.Redispp.Enumerator
import AsioCoroFrame.Models.Redispp.Clearing
import AsioCoroFrame.Models.Redispp.Operations
import AsioCoroFrame.Models.Redispp.Lifetime
import AsioCoroFrame.Models.Redispp.Isolation
import AsioCoroFrame.Models.Redispp.Wire
import AsioCoroFrame.Models.Redispp.Orphans
import AsioCoroFrame.Models.Redispp.Transaction
import AsioCoroFrame.Models.Libgo.BlockObject
import AsioCoroFrame.Models.Libgo.Channel
import AsioCoroFrame.Models.Libgo.RWMutex
import AsioCoroFrame.Models.Libgo.TSQueue
import AsioCoroFrame.Models.Libgo.QueueLists
import AsioCoroFrame.Models.Libgo.SkipQueue
import AsioCoroFrame.Models.Libgo.Timer
import AsioCoroFrame.Models.Strings.Replace
