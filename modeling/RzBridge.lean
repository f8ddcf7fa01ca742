import RzBridge.Bridge
import RzBridge.Config
import RzBridge.Lib.Assoc
import RzBridge.Lib.CircularWait
import RzBridge.Lib.Exclusion
import RzBridge.Lib.Incremental
import RzBridge.Lib.Ledger
import RzBridge.Lib.LittleEndian
import RzBridge.Lib.Machine
import RzBridge.Lib.Numbering
import RzBridge.Lib.Ranking
import RzBridge.Lib.RequestReply
import RzBridge.Lib.RoundRobin
import RzBridge.Lib.Tally
import RzBridge.Metrics
import RzBridge.Mux
import RzBridge.Pool
import RzBridge.Proofs.Accounting
import RzBridge.Proofs.Attempts
import RzBridge.Proofs.BackendCodec
import RzBridge.Proofs.Buffers
import RzBridge.Proofs.Chunking
import RzBridge.Proofs.CloseDecision
import RzBridge.Proofs.Closing
import RzBridge.Proofs.ConnTurns
import RzBridge.Proofs.Convergence
import RzBridge.Proofs.Delivery
import RzBridge.Proofs.DiscoveryOrder
import RzBridge.Proofs.DrainFrame
import RzBridge.Proofs.DrainLoop
import RzBridge.Proofs.EndToEnd
import RzBridge.Proofs.Expiry
import RzBridge.Proofs.FollowerIndex
import RzBridge.Proofs.FollowerLock
import RzBridge.Proofs.FollowerPool
import RzBridge.Proofs.FollowerScan
import RzBridge.Proofs.FollowerSelect
import RzBridge.Proofs.FollowerTurns
import RzBridge.Proofs.FrameInv
import RzBridge.Proofs.FrameTimeout
import RzBridge.Proofs.InFlight
import RzBridge.Proofs.IndexClash
import RzBridge.Proofs.LeaderFill
import RzBridge.Proofs.LeaderPool
import RzBridge.Proofs.LeaderScan
import RzBridge.Proofs.LeaderSelect
import RzBridge.Proofs.LeaderTurns
import RzBridge.Proofs.Leftovers
import RzBridge.Proofs.Lifetime
import RzBridge.Proofs.LockOrder
import RzBridge.Proofs.Metering
import RzBridge.Proofs.MuxInv
import RzBridge.Proofs.MuxInvStep
import RzBridge.Proofs.MuxStep
import RzBridge.Proofs.Orphans
import RzBridge.Proofs.Ownership
import RzBridge.Proofs.Pending
import RzBridge.Proofs.PoolStep
import RzBridge.Proofs.ReadLoopSafe
import RzBridge.Proofs.Refinement
import RzBridge.Proofs.Replies
import RzBridge.Proofs.Responsive
import RzBridge.Proofs.Resync
import RzBridge.Proofs.RouterCodec
import RzBridge.Proofs.RouterFrame
import RzBridge.Proofs.Routing
import RzBridge.Proofs.SeedMemory
import RzBridge.Proofs.ServerStep
import RzBridge.Proofs.Serving
import RzBridge.Proofs.ShardFrame
import RzBridge.Proofs.Solo
import RzBridge.Proofs.StreamIntegrity
import RzBridge.Proofs.SysStep
import RzBridge.Proofs.TopologySpec
import RzBridge.Protocol
import RzBridge.ReadLoop
import RzBridge.Sys
import RzBridge.TcpServer
import RzBridge.Topology
