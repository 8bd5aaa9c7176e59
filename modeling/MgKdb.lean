import MgKdb.RoundTrip
import MgKdb.Journal.Codec
import MgKdb.Journal.Primitives
import MgKdb.Journal.Append
import MgKdb.Tpmux.Multiplex
import MgKdb.Tpmux.Replay
import MgKdb.Tpmux.Connect
import MgKdb.Tpmux.ReplayFailure
import MgKdb.Tpmux.Response
import MgKdb.Tpmux.ReadPeer
import MgKdb.Journal.Progress
import MgKdb.Journal.Cut
import MgKdb.Journal.InBounds
import MgKdb.LogFilter.Check
import MgKdb.LogFilter.Agreement
import MgKdb.LogFilter.Replay
import MgKdb.Reader.CompressedRun
import MgKdb.Reader.HeaderFailure
import MgKdb.Reader.MsgType
import MgKdb.Reader.Reached
import MgKdb.Reader.Root
import MgKdb.Reader.Holding
import MgKdb.Reader.SymbolVector
import MgKdb.Reader.Leftover
import MgKdb.WriteBack
import MgKdb.Core.ReadFully
import MgKdb.Core.Partition
import MgKdb.Core.FileView
import MgKdb.Mgq.Order
import MgKdb.Mgq.Redirect
import MgKdb.Inflate.Delivery
import MgKdb.Inflate.Stream
import MgKdb.Core.CircularBuffer
import MgKdb.Core.FreeList
import MgKdb.Inflate.Safety
import MgKdb.Inflate.Unchecked
import MgKdb.Ipcjs.Agreement
import MgKdb.Ipcjs.RoundTrip
import MgKdb.Ipcjs.Sizes
import MgKdb.Ipcjs.Numbers
import MgKdb.Ipcjs.Strings
import MgKdb.Ipcjs.Construct
import MgKdb.Ipcjs.Months
import MgKdb.Ipcjs.Tracker
import MgKdb.Ipcjs.Resend
import MgKdb.Reader.Accounting
import MgKdb.Temporal.Timestamp
import MgKdb.Tpmux.Reactor
import MgKdb.Krb5.Tokens
import MgKdb.Tpmux.Lives
import MgKdb.Tpmux.Tracing
import MgKdb.Mgq.Sessions
import MgKdb.Mgq.Peers
