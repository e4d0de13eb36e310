import Unstrung.Lib.Handler
import Unstrung.Lib.OrderedMap
import Unstrung.Lib.Buffer
import Unstrung.Lib.RankDescent
import Unstrung.Lib.Framing
import Unstrung.Lib.Circle
import Unstrung.Lib.Chain
import Unstrung.Lib.Heap
import Unstrung.Wire
import Unstrung.RplMsg
import Unstrung.OptionScan
import Unstrung.OptionCursors
import Unstrung.Prefix
import Unstrung.Decode
import Unstrung.Event
import Unstrung.Dag
import Unstrung.Build
import Unstrung.Handlers
import Unstrung.Frames
import Unstrung.Bookkeeping
import Unstrung.PrefixMaps
import Unstrung.Reception
import Unstrung.Members
import Unstrung.LoopFree
import Unstrung.Root
import Unstrung.Faults
import Unstrung.Identity
import Unstrung.Process
import Unstrung.Dao
import Unstrung.Targets
import Unstrung.Datagram
import Unstrung.Echo
import Unstrung.Commit
import Unstrung.DioReadBack
import Unstrung.LowestRank
import Unstrung.Sequence
import Unstrung.Ranks
import Unstrung.Routes
import Unstrung.FullDao
import Unstrung.Neighbour
import Unstrung.Join
import Unstrung.Grasp
import Unstrung.MainLoop
import Unstrung.Interfaces
import Unstrung.Netlink
import Unstrung.Registry
import Unstrung.Watched
import Unstrung.EventQueue
import Unstrung.Schedule
import Unstrung.Timers
import Unstrung.Announce
import Unstrung.Advertise
import Unstrung.Stale
import Unstrung.Lib.Loop
import Unstrung.SolicitWalk
import Unstrung.NeighbourMessages
import Unstrung.Draining
import Unstrung.Notified
import Unstrung.Cells
import Unstrung.SelfAddress
import Unstrung.Reannounce
import Unstrung.Handing
import Unstrung.Receipt
import Unstrung.Canonical
import Unstrung.OptionWalk
import Unstrung.Solicited
import Unstrung.Acknowledged
import Unstrung.ChildRoutes
import Unstrung.Lib.OnesComplement
import Unstrung.Lib.Hex
import Unstrung.Lib.Scanf
import Unstrung.Lib.Until
import Unstrung.Lib.Narrowing
import Unstrung.ReceiveWalk
import Unstrung.Alarms
import Unstrung.PollTimeout
import Unstrung.Checksum
import Unstrung.Eui
import Unstrung.DagidText
import Unstrung.AcpName
import Unstrung.Wildcards
import Unstrung.LogBuffer
import Unstrung.Lib.Hearsay
import Unstrung.Downward
import Unstrung.Lib.Numeral
import Unstrung.Numbers
import Unstrung.Lib.Prefixes
import Unstrung.Addresses
import Unstrung.Subnets
import Unstrung.Lib.Joined
import Unstrung.AddressText
import Unstrung.AddressRead
import Unstrung.SubnetText
import Unstrung.Commands
import Unstrung.Lib.Octets
import Unstrung.Lib.Records
import Unstrung.Attributes
import Unstrung.Listening
import Unstrung.KernelMessages
import Unstrung.Talking
