import RaftStore.Lib.Transition
import RaftStore.Lib.Streams
import RaftStore.Lib.TextArchive
import RaftStore.Lib.Quorum
import RaftStore.Lib.Levels
import RaftStore.Lib.Varint
import RaftStore.Lib.Cursor
import RaftStore.Lib.Sessions
import RaftStore.Lib.OrderedSet
import RaftStore.Lib.Narrowing
import RaftStore.Lib.Ensures
import RaftStore.Lib.Attempts
import RaftStore.Lib.Consensus
import RaftStore.Lib.ConsensusSteps
import RaftStore.Model.Persister
import RaftStore.Model.Raft
import RaftStore.Model.Cluster
import RaftStore.Model.Archive
import RaftStore.Model.SkipList
import RaftStore.Model.SkipListHeap
import RaftStore.Model.KvServer
import RaftStore.Model.Handover
import RaftStore.Model.Clerk
import RaftStore.Model.Store
import RaftStore.Model.ServerProcess
import RaftStore.Node.Positions
import RaftStore.Node.Registers
import RaftStore.Node.Merge
import RaftStore.Node.Fields
import RaftStore.Node.Receiving
import RaftStore.Node.Sending
import RaftStore.Node.Service
import RaftStore.Node.Moves
import RaftStore.Node.Progress
import RaftStore.Node.CommitRule
import RaftStore.Node.Compaction
import RaftStore.Node.Backtracking
import RaftStore.Node.StateSize
import RaftStore.Node.Durability
import RaftStore.Node.Crash
import RaftStore.Node.Calls
import RaftStore.Node.ApplyStream
import RaftStore.Node.FullLog
import RaftStore.Node.Mirror
import RaftStore.Node.MergeReference
import RaftStore.Cluster.Change
import RaftStore.Cluster.Elections
import RaftStore.Cluster.Entries
import RaftStore.Cluster.Rounds
import RaftStore.Cluster.Replication
import RaftStore.Cluster.Safety
import RaftStore.Cluster.Progress
import RaftStore.Cluster.Delivery
import RaftStore.Cluster.CommitRule
import RaftStore.Lib.Traces
import RaftStore.Lib.Wire
import RaftStore.Cluster.Completeness
import RaftStore.Cluster.Electability
import RaftStore.Model.Tickers
import RaftStore.Node.Timeouts
import RaftStore.Cluster.Leadership
import RaftStore.Model.TimedCluster
import RaftStore.Cluster.Heartbeats
import RaftStore.Rpc.Framing
import RaftStore.Rpc.Prefixes
import RaftStore.Rpc.Replies
import RaftStore.Rpc.Correlation
import RaftStore.Kv.Contents
import RaftStore.Kv.Heap
import RaftStore.Kv.HeapRefinement
import RaftStore.Kv.SkipListMap
import RaftStore.Model.Rpc
import RaftStore.Model.RpcChannel
import RaftStore.Model.Messages
import RaftStore.Rpc.Messages
import RaftStore.Model.RemoteCall
import RaftStore.Rpc.RemoteCalls
import RaftStore.Kv.Change
import RaftStore.Kv.AtMostOnce
import RaftStore.Kv.Determinism
import RaftStore.Kv.Semantics
import RaftStore.Kv.Snapshots
import RaftStore.Kv.Order
import RaftStore.Kv.Handlers
import RaftStore.Kv.WaitChannels
import RaftStore.Store.Change
import RaftStore.Store.Servers
import RaftStore.Store.Answers
import RaftStore.Store.Acknowledged
import RaftStore.Store.Serial
import RaftStore.Store.Fresh
import RaftStore.Model.Timer
import RaftStore.Fiber.Timers
import RaftStore.Fiber.Expiry
import RaftStore.Fiber.TimerRuns
import RaftStore.Fiber.Rollover
import RaftStore.Model.IOManager
import RaftStore.Fiber.Events
import RaftStore.Fiber.Accounting
import RaftStore.Fiber.Contexts
import RaftStore.Fiber.Registry
import RaftStore.Fiber.Interest
import RaftStore.Lib.Xorshift
import RaftStore.Kv.RandomLevel
import RaftStore.Model.IdleWait
import RaftStore.Fiber.WaitBounds
import RaftStore.Model.FdManager
import RaftStore.Fiber.Nonblocking
import RaftStore.Lib.Cutting
import RaftStore.Model.Config
import RaftStore.Rpc.Config
import RaftStore.Lib.Decimal
import RaftStore.Model.Discovery
import RaftStore.Rpc.Discovery
import RaftStore.Kv.Lifetimes
import RaftStore.Model.LockQueue
import RaftStore.Kv.Queues
import RaftStore.Model.HookedCalls
import RaftStore.Fiber.HookedCalls
import RaftStore.Lib.Tallies
import RaftStore.Model.Scheduler
import RaftStore.Fiber.Wakeups
import RaftStore.Fiber.Conservation
import RaftStore.Model.Shutdown
import RaftStore.Fiber.Shutdown
