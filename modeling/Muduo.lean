import Muduo.Lib.Transition
import Muduo.Lib.Slice
import Muduo.Base.Types
import Muduo.Lib.BigEndian
import Muduo.Lib.Search
import Muduo.Net.Buffer
import Muduo.Proofs.Buffer
import Muduo.Proofs.BufferDeque
import Muduo.Net.Channel
import Muduo.Net.TcpConnection
import Muduo.Lib.Outcome
import Muduo.Proofs.Channel
import Muduo.Proofs.TcpConnection
import Muduo.Proofs.FlowControl
import Muduo.Net.SendShutdown
import Muduo.Proofs.SendShutdown
import Muduo.Net.ConnectionLoop
import Muduo.Proofs.ConnectionLife
import Muduo.Proofs.ConnectionLoop
import Muduo.Proofs.ConnectionTeardown
import Muduo.Lib.SortedSet
import Muduo.Net.TimerQueue
import Muduo.Lib.Ledger
import Muduo.Net.TimerLoop
import Muduo.Proofs.TimerQueue
import Muduo.Proofs.TimerLoop
import Muduo.Proofs.TimerCancel
import Muduo.Net.EventLoop
import Muduo.Proofs.EventLoop
import Muduo.Net.TcpServer
import Muduo.Proofs.TcpServer
import Muduo.Lib.OrderedMap
import Muduo.Net.PollPoller
import Muduo.Proofs.PollPoller
import Muduo.Base.LogStream
import Muduo.Base.AsyncLogging
import Muduo.Proofs.AsyncLogging
import Muduo.Proofs.AsyncLoggingStop
import Muduo.Net.RpcChannel
import Muduo.Proofs.RpcChannel
import Muduo.Proofs.RpcMatching
import Muduo.Lib.Decoder
import Muduo.Net.ProtobufCodecLite
import Muduo.Proofs.ProtobufFrame
import Muduo.Proofs.ProtobufCodecLite
import Muduo.Proofs.ProtobufRoundTrip
import Muduo.Net.HttpContext
import Muduo.Proofs.HttpContext
import Muduo.Net.HttpServer
import Muduo.Proofs.HttpServer
import Muduo.Proofs.HttpWire
import Muduo.Lib.OnePerRound
import Muduo.Proofs.HttpPipelining
import Muduo.Lib.Window
import Muduo.Net.HttpRequestLine
import Muduo.Proofs.HttpRequestLine
import Muduo.Proofs.HttpHeaders
import Muduo.Net.EPollPoller
import Muduo.Proofs.EPollPoller
import Muduo.Net.Pollers
import Muduo.Proofs.Pollers
import Muduo.Lib.Threads
import Muduo.Base.BoundedBlockingQueue
import Muduo.Proofs.BoundedBlockingQueue
import Muduo.Base.ThreadPool
import Muduo.Proofs.ThreadPool
import Muduo.Proofs.ThreadPoolOrder
import Muduo.Proofs.TimerAlarm
import Muduo.Proofs.TimerBatch
import Muduo.Net.EventLoopThread
import Muduo.Proofs.EventLoopThread
import Muduo.Net.Connector
import Muduo.Proofs.Connector
import Muduo.Net.TcpClient
import Muduo.Proofs.TcpClient
import Muduo.Lib.Checked
import Muduo.Lib.Gregorian
import Muduo.Base.Date
import Muduo.Proofs.Date
import Muduo.Lib.LowerBound
import Muduo.Base.TimeZone
import Muduo.Proofs.UtcTime
import Muduo.Proofs.LocalTime
import Muduo.Proofs.TimeZoneFile
import Muduo.Proofs.BufferReach
import Muduo.Proofs.BufferIntegers
import Muduo.Lib.Adler32
import Muduo.Proofs.ProtobufChecksum
import Muduo.Proofs.HttpTermination
import Muduo.Lib.Numeral
import Muduo.Proofs.Convert
import Muduo.Proofs.LogStream
import Muduo.Base.Logging
import Muduo.Proofs.LogTime
import Muduo.Proofs.LogRecord
import Muduo.Net.ZlibStream
import Muduo.Proofs.ZlibStream
import Muduo.Lib.Segments
import Muduo.Net.Inspector
import Muduo.Proofs.Inspector
import Muduo.Net.RpcSession
import Muduo.Proofs.ProtobufLink
import Muduo.Proofs.RpcTraffic
import Muduo.Proofs.RpcSession
import Muduo.Base.LogFile
import Muduo.Proofs.LogFile
import Muduo.Net.LoopDispatch
import Muduo.Proofs.LoopDispatch
import Muduo.Proofs.RoundRobin
import Muduo.Proofs.HttpReplies
