import GoQuorum.VClock.Prune
import GoQuorum.Storage.Coverage
import GoQuorum.Storage.Pruning
import GoQuorum.Storage.Bounds
import GoQuorum.Storage.Dedup
import GoQuorum.Storage.Truncation
import GoQuorum.Storage.Collection
import GoQuorum.Storage.SiblingLimit
import GoQuorum.StorageConfig
import GoQuorum.Backup.RoundTrip
import GoQuorum.Server.Convergence
import GoQuorum.Server.RemoteWrites
import GoQuorum.Client.Retry
import GoQuorum.Node.Coverage
import GoQuorum.Node.Readability
import GoQuorum.Cluster.Heartbeats
import GoQuorum.Cluster.FailureDetector
import GoQuorum.Cluster.MemberQuorum
import GoQuorum.Cluster.GossipExchange
import GoQuorum.Cluster.HandoffLedger
import GoQuorum.Cluster.RingWalk
import GoQuorum.Cluster.FaultTolerance
import GoQuorum.Cluster.ReplicaErrors
import GoQuorum.Cluster.Visibility
import GoQuorum.Cluster.Deletes
import GoQuorum.Cluster.Expiry
import GoQuorum.Cluster.TTLSweeper
import GoQuorum.Cluster.ReadRepair
import GoQuorum.Cluster.LeafContent
import GoQuorum.Cluster.MerkleRefinement
import GoQuorum.Cluster.Rebalance
import GoQuorum.Cluster.MerkleSync
import GoQuorum.Cluster.ParallelCalls
import GoQuorum.Cluster.RepairedReads
import GoQuorum.Storage.CallerSet
