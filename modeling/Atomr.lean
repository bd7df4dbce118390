import Atomr.ClusterTools.KillSwitchLatch
import Atomr.Persistence.ErrorAtomicity
import Atomr.Remote.Reassembly
import Atomr.Remote.CookieEnforcement
import Atomr.Remote.ReliableDelivery
import Atomr.Remote.AdmissionGate
import Atomr.DistributedData.ObservedRemove
import Atomr.ClusterTools.Quiescence
import Atomr.Patterns.ProjectionTracking
import Atomr.Patterns.OutboxDelivery
import Atomr.Fix.SessionAgreement
import Atomr.Patterns.CommandDedupe
import Atomr.Patterns.SagaStore
import Atomr.Persistence.TagQuery
import Atomr.DistributedData.ObservedRemoveMap
import Atomr.Patterns.SagaDispatch
import Atomr.Persistence.SqlAsOf
import Atomr.Persistence.Worm
import Atomr.Persistence.RedisJournal
import Atomr.Core.DeathWatch
import Atomr.Cluster.SplitResolution
import Atomr.ClusterSharding.DDataCoordinator
import Atomr.Core.CircuitBreaker
import Atomr.Persistence.SeededRng
import Atomr.Remote.HandshakeReply
import Atomr.ClusterTools.SingletonBuffer
import Atomr.ClusterTools.PubSub
import Atomr.ClusterSharding.RememberEntities
import Atomr.ClusterSharding.ShardRegion
import Atomr.ClusterSharding.Rebalancing
import Atomr.Cluster.GossipMerge
import Atomr.Cluster.GossipQuiet
import Atomr.Cluster.SbrHistory
import Atomr.Cluster.MemberAge
import Atomr.DistributedData.DeltaAccounting
import Atomr.DistributedData.Pruning
import Atomr.Remote.ReceiveWindow
import Atomr.Remote.ReassemblyHistory
import Atomr.Remote.LruCache
import Atomr.Fix.ChecksumSoundness
import Atomr.Config.Includes
import Atomr.Config.Grouping
import Atomr.Config.StringFidelity
import Atomr.Core.ConsistentHash
import Atomr.Core.HashedWheel
import Atomr.Persistence.AtLeastOnce
import Atomr.Persistence.BatchWrites
import Atomr.Persistence.SnapshotRetention
import Atomr.Streams.Overflow
import Atomr.Streams.Framing
import Atomr.Streams.Junction
import Atomr.Streams.Timed
import Atomr.ClusterSharding.Handoff
import Atomr.Streams.ClockGated
import Atomr.Streams.Restart
import Atomr.Streams.Substream
import Atomr.Core.RetryBudget
import Atomr.Fix.Calendar
import Atomr.Persistence.SortKeys
import Atomr.Patterns.OffsetCodec
import Atomr.Cluster.FrameStream
import Atomr.Core.AddressRoundTrip
import Atomr.Money.MinorUnits
import Atomr.Core.Children
import Atomr.Core.Selection
import Atomr.DistributedData.FileDurableStore
