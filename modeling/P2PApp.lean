import P2PApp.Library.OrderedMap
import P2PApp.Library.TokenBucket
import P2PApp.Library.TransitionSystem
import P2PApp.Metrics.Collector
import P2PApp.Protocol.GossipEngine
import P2PApp.Protocol.Message
import P2PApp.Protocol.Pow
import P2PApp.Protocol.RateLimiter
import P2PApp.Protocol.Throttling
import P2PApp.Library.SlidingWindow
import P2PApp.Protocol.Bans
import P2PApp.Protocol.TopicRouter
import P2PApp.Protocol.RouteHistory
import P2PApp.Security.SecurityManager
import P2PApp.Transport.ConnectionPool
import P2PApp.Storage.SyncReceiver
import P2PApp.Library.MaxRegister
import P2PApp.Protocol.Advertisement
import P2PApp.Network.World
import P2PApp.Network.Causality
import P2PApp.Network.Dissemination
import P2PApp.Library.LexicographicRange
import P2PApp.Library.SortedMap
import P2PApp.Storage.MessageStore
import P2PApp.Storage.SyncManager
import P2PApp.Storage.Watermark
import P2PApp.Storage.DeltaSync
import P2PApp.Library.JavaScript
import P2PApp.Node.GossipEngine
import P2PApp.Node.P2PNode
import P2PApp.Node.Effects
import P2PApp.Node.Identity
import P2PApp.Node.Routes
import P2PApp.Node.Exceptions
import P2PApp.Node.Rejection
import P2PApp.Library.JsonString
import P2PApp.Security.SigningString
import P2PApp.Transport.Fanout
import P2PApp.Node.Presence
import P2PApp.Protocol.ShortestPath
import P2PApp.Protocol.Insertion
import P2PApp.Node.Transit
import P2PApp.Protocol.Relay
import P2PApp.Network.Adverts
import P2PApp.Library.Potential
import P2PApp.Network.PathVector
import P2PApp.Network.LoopFreedom
import P2PApp.Library.Wire
import P2PApp.Node.Forwarding
import P2PApp.Network.Storm
import P2PApp.Protocol.SoftState
import P2PApp.Node.Confirmation
import P2PApp.Storage.AckWaits
import P2PApp.Network.Delivery
import P2PApp.Transport.Handshake
import P2PApp.Transport.NativeFraming
import P2PApp.Transport.Segmentation
import P2PApp.Transport.Descriptors
import P2PApp.Storage.ReadYourWrites
import P2PApp.Storage.WriteBehind
import P2PApp.Protocol.Fanout
import P2PApp.Protocol.Sampling
import P2PApp.Network.HonestNetwork
import P2PApp.Network.Flooding
import P2PApp.Network.Coverage
import P2PApp.Library.Tree
import P2PApp.Network.TopicTree
import P2PApp.Library.Utf8
import P2PApp.Library.Json
import P2PApp.Library.JsonMarks
import P2PApp.Library.JsonReader
import P2PApp.Protocol.AckManager
import P2PApp.Protocol.AckRecipients
import P2PApp.Protocol.AckLifecycle
import P2PApp.Protocol.DirectRoutes
import P2PApp.Node.Registration
import P2PApp.Library.Fnv
import P2PApp.Protocol.PowAddon
import P2PApp.Node.PeerManager
import P2PApp.Node.FailureDetection
import P2PApp.Node.ActivePeers
import P2PApp.Storage.FailedWrites
import P2PApp.Library.StableSort
import P2PApp.Storage.BatchStream
import P2PApp.Transport.DrainRead
import P2PApp.Node.Accounting
import P2PApp.Storage.EncodedStore
import P2PApp.Storage.KeySpace
import P2PApp.Storage.KeyOrder
import P2PApp.Storage.Prune
import P2PApp.Transport.OutboundQueue
import P2PApp.Library.Reservoir
import P2PApp.Metrics.Histogram
import P2PApp.Protocol.PowSolver
import P2PApp.Library.KeyedLock
import P2PApp.Node.Summarization
import P2PApp.Library.LiveMap
import P2PApp.Library.BurstEviction
import P2PApp.Node.SeenCache
import P2PApp.Library.BreadthFirst
import P2PApp.Visualizer.GossipWaves
import P2PApp.Visualizer.CorrectSpread
import P2PApp.Protocol.RouterMaintenance
import P2PApp.Library.LeaseMirror
import P2PApp.Protocol.RefreshBursts
import P2PApp.Network.Subscriptions
import P2PApp.Transport.EndpointLifecycle
import P2PApp.Network.AntiEntropy
import P2PApp.Library.Base64
import P2PApp.Security.KeyManager
import P2PApp.Security.Encryptor
import P2PApp.Node.OwnMessages
import P2PApp.Transport.ServerShutdown
import P2PApp.Network.PeerExchange
import P2PApp.Visualizer.Healing
import P2PApp.Transport.Reconnection
import P2PApp.Network.Replicas
import P2PApp.Library.OrderStatistic
import P2PApp.Metrics.Snapshot
import P2PApp.Storage.RecentMessages
import P2PApp.Library.MergedBuckets
import P2PApp.Protocol.RelayedLoad
import P2PApp.Protocol.RelayedCopies
import P2PApp.Library.NumberedLease
import P2PApp.Protocol.Recovery
import P2PApp.Library.Pipeline
import P2PApp.Network.RelayChain
