import DartNet.Foundation.Transition
import DartNet.Foundation.Layout
import DartNet.Foundation.Interleave
import DartNet.Foundation.Memory
import DartNet.Foundation.Chunks
import DartNet.Foundation.Fifo
import DartNet.Foundation.Slots
import DartNet.Foundation.ShortestPath
import DartNet.Foundation.DistanceVector
import DartNet.Foundation.Flip
import DartNet.Foundation.OnesComplement
import DartNet.Foundation.Marks
import DartNet.Foundation.Clock
import DartNet.Foundation.Arrivals
import DartNet.Foundation.Sockets
import DartNet.Foundation.Cells
import DartNet.Common.Seg
import DartNet.Common.Checksum
import DartNet.Common.Time
import DartNet.Common.Pkt
import DartNet.Framing.Receiver
import DartNet.Framing.RoundTrip
import DartNet.Framing.Grammar
import DartNet.Framing.Resync
import DartNet.Framing.Concurrent
import DartNet.Framing.Front
import DartNet.Srt.RecvBuf
import DartNet.Srt.Server
import DartNet.Srt.Connections
import DartNet.Srt.ByteQueue
import DartNet.Srt.FullBuffer
import DartNet.Srt.Client
import DartNet.Srt.SendBuffer
import DartNet.Srt.Window
import DartNet.Srt.Calls
import DartNet.Srt.Resting
import DartNet.Srt.Tables
import DartNet.Srt.AnySegment
import DartNet.Srt.Isolation
import DartNet.Srt.Transmitted
import DartNet.Srt.Counter
import DartNet.Srt.System
import DartNet.Srt.Stream
import DartNet.Srt.Segmentation
import DartNet.Srt.AckLoop
import DartNet.Srt.Pointers
import DartNet.Srt.Timers
import DartNet.Srt.FailedSend
import DartNet.Srt.Clocked
import DartNet.Srt.CloseWait
import DartNet.Srt.Timeouts
import DartNet.Srt.Retries
import DartNet.Srt.SynPacing
import DartNet.Srt.Handshake
import DartNet.Srt.DeadEnd
import DartNet.Srt.Peers
import DartNet.Srt.Progress
import DartNet.Srt.FileTransfer
import DartNet.Network.Topology
import DartNet.Network.NodeList
import DartNet.Network.Routingtable
import DartNet.Network.RoutingMap
import DartNet.Network.RoutingHeap
import DartNet.Network.Dvtable
import DartNet.Network.Neighbours
import DartNet.Network.Pkthandler
import DartNet.Network.Update
import DartNet.Network.RouteCosts
import DartNet.Network.AnyPacket
import DartNet.Network.System
import DartNet.Network.Convergence
import DartNet.Network.Forwarding
import DartNet.Network.Bellman
import DartNet.Network.WaitTransport
import DartNet.Network.Routes
import DartNet.Network.Rounds
import DartNet.Network.Broadcasts
import DartNet.Network.Relay
import DartNet.Network.RouteUpdates
import DartNet.Network.ByteSystem
import DartNet.Overlay.WaitNbrs
import DartNet.Overlay.NeighborTable
import DartNet.Overlay.Startup
import DartNet.Overlay.Links
import DartNet.Overlay.StartupEnds
import DartNet.Overlay.Traffic
import DartNet.Network.EndToEnd
import DartNet.Network.Transit
import DartNet.Srt.OverNetwork
