import Craftec.Types.Digest
import Craftec.Types.Piece
import Craftec.Library.ByteField
import Craftec.Library.Chunks
import Craftec.Library.Elimination
import Craftec.Crypto.HomMac
import Craftec.Rlnc.Gf256
import Craftec.Rlnc.Encoder
import Craftec.Rlnc.Decoder
import Craftec.Rlnc.EndToEnd
import Craftec.Library.Records
import Craftec.Library.Run
import Craftec.Vfs.Index
import Craftec.Vfs.Commit
import Craftec.Vfs.Interleaving
import Craftec.Vfs.Isolation
import Craftec.Sql.Database
import Craftec.Sql.Histories
import Craftec.Sql.RpcWrite
import Craftec.Sql.Writers
import Craftec.Sql.WriteOrder
import Craftec.Node.Requests
import Craftec.Library.InodeFs
import Craftec.Library.RecentCache
import Craftec.Obj.Shard
import Craftec.Obj.IdenticalPuts
import Craftec.Library.AtomicCell
import Craftec.Types.Hlc
import Craftec.Types.HlcDrift
import Craftec.Net.Swim
import Craftec.Library.Register
import Craftec.Net.Gossip
import Craftec.Net.SwimRuns
import Craftec.Net.SwimSafety
import Craftec.Net.Endpoint
import Craftec.Node.Dispatch
import Craftec.Sql.Replay
import Craftec.Obj.Integrity
import Craftec.Obj.Sequential
import Craftec.Obj.Refinement
import Craftec.Obj.DeleteFinal
import Craftec.Vfs.Convergence
import Craftec.Vfs.RootContents
import Craftec.Net.HlcGate
import Craftec.Node.Deliveries
import Craftec.Health.Tracker
import Craftec.Library.SortBy
import Craftec.Health.Coordinator
import Craftec.Rlnc.Engine
import Craftec.Health.Repair
import Craftec.Health.Election
import Craftec.Health.Scanner
import Craftec.Node.EncodeTask
import Craftec.Node.Repairs
import Craftec.Types.Frames
import Craftec.Health.RepairYield
import Craftec.Com.Scheduler
import Craftec.Com.Lifecycle
import Craftec.Node.EncodeEvents
import Craftec.Node.Fetchable
import Craftec.Net.Reuse
import Craftec.Library.RowSpan
import Craftec.Rlnc.Solving
import Craftec.Rlnc.Recoding
import Craftec.Net.SwimEvents
import Craftec.Net.SwimHandlers
import Craftec.Net.SwimAuthority
import Craftec.Net.SwimProbes
import Craftec.Types.HlcReceive
import Craftec.Vfs.IndexFormat
import Craftec.Health.Holders
import Craftec.Health.ScanCycle
import Craftec.Obj.Established
import Craftec.Obj.Session
import Craftec.Obj.Accounting
import Craftec.Crypto.Merkle
import Craftec.Rlnc.MacBuffer
import Craftec.Net.PoolLru
import Craftec.Com.Host
import Craftec.Library.Tally
import Craftec.Rlnc.EngineRuns
import Craftec.Vfs.Versions
import Craftec.Library.ShardedTable
import Craftec.Net.Providers
import Craftec.Net.Waiters
import Craftec.Types.HlcCausality
import Craftec.Node.Identity
import Craftec.Node.Operator
import Craftec.Health.Pipeline
import Craftec.Library.Broadcast
import Craftec.Net.Detection
import Craftec.Node.Departures
import Craftec.Node.Purges
import Craftec.Com.Invocation
import Craftec.Com.Delivery
import Craftec.Node.DispatchLoop
