import Aircmn.Lib.Bytes
import Aircmn.Lib.Circular
import Aircmn.Lib.CString
import Aircmn.Lib.Machine
import Aircmn.Lib.Monitor
import Aircmn.Lib.Descriptors
import Aircmn.Lib.Printer
import Aircmn.Lib.Numerals
import Aircmn.Lib.Format
import Aircmn.Lib.Streams
import Aircmn.Lib.Links
import Aircmn.Lib.Mixing
import Aircmn.Lib.Holdings
import Aircmn.Lib.Resources
import Aircmn.Lib.Mapping
import Aircmn.Core.Base
import Aircmn.Core.Text
import Aircmn.Core.Array
import Aircmn.Core.Rbuf
import Aircmn.Core.RbufThreads
import Aircmn.Core.Ring
import Aircmn.Core.RingThreads
import Aircmn.Core.RingProcs
import Aircmn.Core.Sms
import Aircmn.Core.Conf
import Aircmn.Core.Shm
import Aircmn.Core.Line
import Aircmn.Core.Log
import Aircmn.Core.Hexdump
import Aircmn.Core.Pidfile
import Aircmn.Core.Sock
import Aircmn.Core.Metric
import Aircmn.Core.Journal
import Aircmn.Core.Daemon
import Aircmn.Core.Proc
import Aircmn.Core.Queue
import Aircmn.Core.Hash
import Aircmn.Core.Event
import Aircmn.Theory.Blocks
import Aircmn.Theory.Array.Slots
import Aircmn.Theory.Array.Seq
import Aircmn.Theory.Array.Sort
import Aircmn.Theory.Array.Free
import Aircmn.Theory.Array.Block
import Aircmn.Theory.Array.Store
import Aircmn.Theory.Rbuf.Plan
import Aircmn.Theory.Rbuf.Fifo
import Aircmn.Theory.Rbuf.Spsc
import Aircmn.Theory.Rbuf.Read
import Aircmn.Theory.Rbuf.Write
import Aircmn.Theory.Rbuf.Requests
import Aircmn.Theory.Ring.Slots
import Aircmn.Theory.Ring.Fifo
import Aircmn.Theory.Ring.Spsc
import Aircmn.Theory.Ring.Stable
import Aircmn.Theory.Ring.Block
import Aircmn.Theory.Sms.Sizes
import Aircmn.Theory.Sms.Layout
import Aircmn.Theory.Sms.Counts
import Aircmn.Theory.Sms.Buckets
import Aircmn.Theory.Sms.Report
import Aircmn.Theory.Shm.Attach
import Aircmn.Theory.Shm.Share
import Aircmn.Theory.Sms.Align
import Aircmn.Theory.Sms.Reuse
import Aircmn.Theory.Sms.Users
import Aircmn.Theory.Sms.Describe
import Aircmn.Theory.Ring.Mapped
import Aircmn.Theory.Conf.Lines
import Aircmn.Theory.Conf.Lookup
import Aircmn.Theory.Conf.Buffers
import Aircmn.Theory.Conf.Data
import Aircmn.Theory.Conf.Sections
import Aircmn.Theory.Conf.Outside
import Aircmn.Theory.Conf.Token
import Aircmn.Theory.Text.Atol
import Aircmn.Theory.Log.Line
import Aircmn.Theory.Log.Journal
import Aircmn.Theory.Log.Daemon
import Aircmn.Theory.Metric.Print
import Aircmn.Theory.Metric.Clock
import Aircmn.Theory.Metric.Read
import Aircmn.Theory.Metric.Count
import Aircmn.Theory.Log.Owner
import Aircmn.Theory.Log.Hexdump
import Aircmn.Theory.Log.Undump
import Aircmn.Theory.Pidfile.Create
import Aircmn.Theory.Pidfile.Race
import Aircmn.Theory.Sock.Bytes
import Aircmn.Theory.Sock.Owner
import Aircmn.Theory.Sock.Pool
import Aircmn.Theory.Queue.Spec
import Aircmn.Theory.Queue.Store
import Aircmn.Theory.Queue.Change
import Aircmn.Theory.Queue.Search
import Aircmn.Theory.Queue.Slist
import Aircmn.Theory.Queue.Stailq
import Aircmn.Theory.Queue.List
import Aircmn.Theory.Queue.Tailq
import Aircmn.Theory.Queue.Run
import Aircmn.Theory.Queue.Families
import Aircmn.Theory.Queue.Loops
import Aircmn.Theory.Hash.Murmur
import Aircmn.Theory.Hash.Jhash
import Aircmn.Theory.Event.Watch
import Aircmn.Theory.Event.Deliver
import Aircmn.Theory.Event.Owner
