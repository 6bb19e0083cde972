import Cineyma.Foundations.KeyedFold
import Cineyma.Foundations.Run
import Cineyma.Foundations.ChainExchange
import Cineyma.Foundations.Protobuf
import Cineyma.Foundations.Notify
import Cineyma.Foundations.Incremental
import Cineyma.Foundations.Causality
import Cineyma.Foundations.Rounds
import Cineyma.Foundations.SlidingWindow
import Cineyma.Foundations.Linearizability
import Cineyma.Foundations.Locking
import Cineyma.Foundations.TwoPhase
import Cineyma.Cluster.Node
import Cineyma.Cluster.Gossip
import Cineyma.Cluster.FailureDetection
import Cineyma.Cluster.Network
import Cineyma.Cluster.Convergence
import Cineyma.Cluster.Passes
import Cineyma.Cluster.Provenance
import Cineyma.Cluster.Knowledge
import Cineyma.Cluster.Locks
import Cineyma.Cluster.Suspicion
import Cineyma.Cluster.Discovery
import Cineyma.Remote.Envelope
import Cineyma.Remote.Client
import Cineyma.Remote.Pending
import Cineyma.Remote.Leftovers
import Cineyma.Remote.Addr
import Cineyma.Remote.Matching
import Cineyma.Remote.Wire
import Cineyma.Remote.Codec
import Cineyma.Remote.Line
import Cineyma.Remote.Link
import Cineyma.Remote.ClusterClient
import Cineyma.Remote.Pool
import Cineyma.Runtime.Supervisor
import Cineyma.Runtime.Task
import Cineyma.Runtime.Mailbox
import Cineyma.Runtime.Timers
import Cineyma.Runtime.Calls
import Cineyma.Runtime.Lifecycle
import Cineyma.Runtime.Notices
import Cineyma.Runtime.Streams
import Cineyma.Runtime.Failures
import Cineyma.Runtime.Equivalence
import Cineyma.Runtime.Stopping
import Cineyma.Runtime.System
import Cineyma.Runtime.Family
import Cineyma.Runtime.Shutdown
import Cineyma.Runtime.Watching
import Cineyma.Runtime.Reaction
import Cineyma.Runtime.Escalation
import Cineyma.Runtime.Registry
import Cineyma.Runtime.Objects
import Cineyma.Runtime.KvStore
import Cineyma.Runtime.Awaiting
import Cineyma.Remote.Server
import Cineyma.Remote.Waiting
import Cineyma.Remote.Routing
import Cineyma.Remote.GossipWire
