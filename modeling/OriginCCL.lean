import OriginCCL.Net.Prog
import OriginCCL.Net.Answers
import OriginCCL.Net.System
import OriginCCL.Base.Reduction
import OriginCCL.Base.Words
import OriginCCL.Base.MachineInts
import OriginCCL.Base.Runs
import OriginCCL.Base.Circular
import OriginCCL.Base.Sorting
import OriginCCL.Base.Tables
import OriginCCL.Base.Links
import OriginCCL.Communicator
import OriginCCL.Net.Progress
import OriginCCL.Net.Schedule
import OriginCCL.Net.Sequence
import OriginCCL.Net.InOrder
import OriginCCL.Net.Images
import OriginCCL.Net.Shared
import OriginCCL.Base.Sums
import OriginCCL.Net.Completion
import OriginCCL.Topology.Channel
import OriginCCL.Topology.RingAllreduce
import OriginCCL.Topology.RingAllreduceRun
import OriginCCL.Base.Fifo
import OriginCCL.Base.Forest
import OriginCCL.Base.ForestGraph
import OriginCCL.Topology.RingChain
import OriginCCL.Topology.RingExchange
import OriginCCL.Topology.RingReduce
import OriginCCL.Topology.RingBroadcast
import OriginCCL.Topology.RingReduceScatter
import OriginCCL.Topology.RingAllGather
import OriginCCL.Topology.TreeRounds
import OriginCCL.Topology.TreeValues
import OriginCCL.Executor.EpollSet
import OriginCCL.Executor.Polling
import OriginCCL.Executor.Batches
import OriginCCL.Executor.Dynamic
import OriginCCL.Executor.Reactor
import OriginCCL.Executor.ReactorBooks
import OriginCCL.Executor.ReactorRuns
import OriginCCL.Grouping
import OriginCCL.Topology.TreeShape
import OriginCCL.Topology.TreeRun
import OriginCCL.Topology.TaskLists
import OriginCCL.Topology.TaskListRuns
import OriginCCL.Topology.TaskListResults
import OriginCCL.Topology.Traffic
import OriginCCL.Topology.Trees
import OriginCCL.Topology.TreeDiameter
import OriginCCL.Setup.Edges
import OriginCCL.Setup.Handshakes
import OriginCCL.Setup.InitChannels
import OriginCCL.Setup.P2pConnections
import OriginCCL.Transport.ShmStream
import OriginCCL.Transport.ShmWakeup
import OriginCCL.Transport.RdmaStream
import OriginCCL.Transport.RdmaDrain
import OriginCCL.Base.Pipe
import OriginCCL.Transport.Pipes
import OriginCCL.Transport.RdmaLabels
import OriginCCL.Plan.Slices
import OriginCCL.Plan.Flush
import OriginCCL.Plan.Modes
import OriginCCL.Plan.Roles
import OriginCCL.Base.Slices
import OriginCCL.Base.Selections
import OriginCCL.Base.Queues
import OriginCCL.Topology.RingIdle
import OriginCCL.Topology.TreeIdle
import OriginCCL.Topology.Calls
import OriginCCL.Topology.Ranges
import OriginCCL.Topology.RingRanges
import OriginCCL.Topology.RingInts
import OriginCCL.Topology.TreeRanges
import OriginCCL.Topology.TreeInts
import OriginCCL.Topology.IntRuns
import OriginCCL.Topology.IntCalls
import OriginCCL.Topology.TreeIntRun
import OriginCCL.Plan.Accesses
import OriginCCL.Plan.HugeSlice
import OriginCCL.Plan.Lookups
import OriginCCL.Plan.Paths
import OriginCCL.Plan.Agreement
import OriginCCL.Plan.CollectiveRuns
import OriginCCL.Plan.P2pQueues
import OriginCCL.Topology.P2pTasks
import OriginCCL.Topology.P2pShared
import OriginCCL.Plan.P2pRuns
import OriginCCL.Plan.P2pTraffic
import OriginCCL.Base.Codec
import OriginCCL.Base.Transfers
import OriginCCL.Bootstrap.Wire
import OriginCCL.Bootstrap.Streams
import OriginCCL.Bootstrap.Exchange
import OriginCCL.Bootstrap.Malformed
import OriginCCL.Transport.Tcp
import OriginCCL.Transport.ShmBound
import OriginCCL.Transport.ShmWords
import OriginCCL.Transport.ShmReconnect
