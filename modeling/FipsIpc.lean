import FipsIpc.FipsBuf.Assignment
import FipsIpc.FipsBuf.Balance
import FipsIpc.FipsBuf.Buffer
import FipsIpc.FipsBuf.Caches
import FipsIpc.FipsBuf.Commit
import FipsIpc.FipsBuf.FailedRefresh
import FipsIpc.FipsBuf.Joining
import FipsIpc.FipsBuf.Layout
import FipsIpc.FipsBuf.Lines
import FipsIpc.FipsBuf.Overwrite
import FipsIpc.FipsBuf.Ownership
import FipsIpc.FipsBuf.Partition
import FipsIpc.FipsBuf.Pending
import FipsIpc.FipsBuf.Processes
import FipsIpc.FipsBuf.Removal
import FipsIpc.FipsBuf.Returns
import FipsIpc.FipsBuf.RingOrder
import FipsIpc.FipsBuf.Rotation
import FipsIpc.FipsBuf.Space
import FipsIpc.FipsBuf.SqeList
import FipsIpc.FipsBuf.Trailing
import FipsIpc.FipsBuf.Unread
import FipsIpc.FipsBuf.Upkeep
import FipsIpc.FipsBuf.ZeroCopy
import FipsIpc.IpHashtable.Accounting
import FipsIpc.IpHashtable.Errors
import FipsIpc.IpHashtable.Families
import FipsIpc.IpHashtable.Refinement
import FipsIpc.IpHashtable.Shape
import FipsIpc.IpHashtable.Table
import FipsIpc.IpHashtable.Unused
import FipsIpc.IpHashtable.V3
import FipsIpc.IpToStr.ParseBack
import FipsIpc.IpsAction.Bans
import FipsIpc.IpsAction.Cluster
import FipsIpc.Lib.AckWindow
import FipsIpc.Lib.Census
import FipsIpc.Lib.Chain
import FipsIpc.Lib.Circle
import FipsIpc.Lib.Holders
import FipsIpc.Lib.LapLog
import FipsIpc.Lib.Leases
import FipsIpc.Lib.LittleEndian
import FipsIpc.Lib.Pass
import FipsIpc.Lib.Pool
import FipsIpc.Lib.Regex
import FipsIpc.Lib.ResetWindow
import FipsIpc.Lib.RingLog
import FipsIpc.Lib.Run
import FipsIpc.Lib.Tally
import FipsIpc.Lib.Tiling
import FipsIpc.Sf2b.Agreement
import FipsIpc.Sf2b.Ban
import FipsIpc.Sf2b.BanWindow
import FipsIpc.Sf2b.Batches
import FipsIpc.Sf2b.Binary
import FipsIpc.Sf2b.BinaryBans
import FipsIpc.Sf2b.BinaryRecord
import FipsIpc.Sf2b.Blocking
import FipsIpc.Sf2b.Consistency
import FipsIpc.Sf2b.Deployed
import FipsIpc.Sf2b.FailedBan
import FipsIpc.Sf2b.Handling
import FipsIpc.Sf2b.Interleaving
import FipsIpc.Sf2b.Leftovers
import FipsIpc.Sf2b.Limit
import FipsIpc.Sf2b.NodeMemory
import FipsIpc.Sf2b.Parse
import FipsIpc.Sf2b.Pipeline
import FipsIpc.Sf2b.ScanLine
import FipsIpc.Sf2b.Stamps
import FipsIpc.Sf2b.UnbanCut
import FipsIpc.ShmReader.Buffers
import FipsIpc.ShmReader.Delivery
import FipsIpc.ShmReader.Threads
import FipsIpc.ShmRingbuf.Collect
import FipsIpc.ShmRingbuf.Fifo
import FipsIpc.ShmRingbuf.Layout
import FipsIpc.ShmRingbuf.Overwrite
import FipsIpc.ShmRingbuf.Ranges
import FipsIpc.ShmRingbuf.Reattach
import FipsIpc.ShmRingbuf.Registration
import FipsIpc.ShmRingbuf.Rejected
import FipsIpc.ShmRingbuf.Segment
import FipsIpc.ShmRingbuf.Vector
import FipsIpc.Syslog.Slots
import FipsIpc.UdpServer.Batch
import FipsIpc.UdpServer.Logstr
import FipsIpc.UdpServer.Producer
import FipsIpc.UdpServer.RingUser
import FipsIpc.UdpServer.Spanning
import FipsIpc.UringGetline.ExactlyOnce
import FipsIpc.UringGetline.FailedRead
import FipsIpc.UringGetline.Follows
import FipsIpc.UringGetline.Getline
import FipsIpc.UringGetline.Getlines
import FipsIpc.UringGetline.Lines
import FipsIpc.Xdp.Counters
import FipsIpc.Xdp.Extensions
import FipsIpc.Xdp.Filter
import FipsIpc.Xdp.Ports
import FipsIpc.Xdp.Program
import FipsIpc.Xdp.SubnetFailure
import FipsIpc.Xdp.Subnets
