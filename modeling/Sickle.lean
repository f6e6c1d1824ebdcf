import Sickle.Lib.Run
import Sickle.Lib.Simulation
import Sickle.Lib.Edge
import Sickle.Lib.Dll
import Sickle.Event
import Sickle.Net.Connection
import Sickle.Net.EventLoop
import Sickle.Net.JobNode
import Sickle.Net.Jobs
import Sickle.Lib.Fifo
import Sickle.Net.Acceptor
import Sickle.Net.Receive
import Sickle.Net.Turns
import Sickle.Net.Connect
import Sickle.Net.Stream
import Sickle.Sys.Selector
import Sickle.Sys.Routing
import Sickle.Timers.Wheel
import Sickle.Timers.Board
import Sickle.Timers.Rep
import Sickle.Timers.Calls
import Sickle.Timers.Handles
import Sickle.Timers.Client
import Sickle.Timers.Erase
import Sickle.Timers.Order
import Sickle.Timers.Early
import Sickle.Timers.Spin
import Sickle.Timers.Wakeup
import Sickle.Timers.Rearm
import Sickle.Lib.Chain
import Sickle.Poll.Queue
import Sickle.Poll.QueueInv
import Sickle.Lib.Word
import Sickle.Poll.Shutdown
import Sickle.Poll.Sleep
import Sickle.Poll.Awaken
import Sickle.Poll.State
import Sickle.Poll.Fields
import Sickle.Poll.Node
import Sickle.Poll.NodeInv
import Sickle.Poll.Token
import Sickle.Poll.Handover
import Sickle.Poll.Publish
import Sickle.Poll.Lock
import Sickle.Poll.Pending
import Sickle.Poll.Compose
import Sickle.Poll.Alone
import Sickle.Poll.Walk
import Sickle.Poll.Commute
import Sickle.Poll.Ledger
import Sickle.Poll.Closed
import Sickle.Poll.Drain
import Sickle.Poll.Fair
import Sickle.Poll.Pollers
import Sickle.Poll.Deadline
import Sickle.Poll.Refs
import Sickle.Poll.Oneshot
import Sickle.Net.Close
import Sickle.Net.SelectorId
import Sickle.Net.RunFlag
import Sickle.Sys.Refused
import Sickle.Sys.Vectors
import Sickle.Timers.Arith
import Sickle.Timers.Loop
import Sickle.Timers.Priority
import Sickle.Timers.OnTime
import Sickle.Poll.Returns
import Sickle.Poll.Delivery
import Sickle.Net.TimersEvent
import Sickle.Lib.Locks
import Sickle.Net.Callbacks
import Sickle.Net.Tunnel
import Sickle.Net.TunnelStops
