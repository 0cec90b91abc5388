import P2PFileSharing.Lib.Runs
import P2PFileSharing.Lib.UnorderedMap
import P2PFileSharing.Lib.Counting
import P2PFileSharing.Model.Defines
import P2PFileSharing.Model.PeerClient
import P2PFileSharing.Model.Network
import P2PFileSharing.Model.Scenario
import P2PFileSharing.Spec.Message
import P2PFileSharing.Spec.Observe
import P2PFileSharing.Proofs.Codec
import P2PFileSharing.Spec.Flood
import P2PFileSharing.Proofs.Handlers
import P2PFileSharing.Proofs.Leads
import P2PFileSharing.Proofs.Valid
import P2PFileSharing.Proofs.Refine
import P2PFileSharing.Proofs.Steps
import P2PFileSharing.Proofs.Tokens
import P2PFileSharing.Proofs.Ids
import P2PFileSharing.Proofs.Sequential
import P2PFileSharing.Proofs.ReversePath
import P2PFileSharing.Proofs.Links
import P2PFileSharing.Proofs.Hits
import P2PFileSharing.Proofs.Reach
import P2PFileSharing.Proofs.Bridge
import P2PFileSharing.Guarantees.ReversePath
import P2PFileSharing.Guarantees.Flooding
import P2PFileSharing.Guarantees.Hits
import P2PFileSharing.Guarantees.Reach
import P2PFileSharing.Proofs.Waiting
import P2PFileSharing.Proofs.Race
import P2PFileSharing.Proofs.Requests
import P2PFileSharing.Guarantees.Transfers
import P2PFileSharing.Proofs.Replication
import P2PFileSharing.Guarantees.Replication
import P2PFileSharing.Proofs.Accepted
import P2PFileSharing.Proofs.Filling
import P2PFileSharing.Guarantees.Eviction
import P2PFileSharing.Guarantees.StartUp
import P2PFileSharing.Guarantees.Encoding
import P2PFileSharing.Guarantees.Relaying
import P2PFileSharing.Model.RegisterServer
import P2PFileSharing.Proofs.Registration
import P2PFileSharing.Guarantees.Registration
import P2PFileSharing.Guarantees.RegisterRuns
import P2PFileSharing.Lib.Framing
import P2PFileSharing.Model.Wire
import P2PFileSharing.Proofs.Wire
import P2PFileSharing.Guarantees.Wire
import P2PFileSharing.Guarantees.Descriptors
import P2PFileSharing.Lib.FileTree
import P2PFileSharing.Model.FileTransfer
import P2PFileSharing.Proofs.FileTransfer
import P2PFileSharing.Guarantees.Segments
import P2PFileSharing.Guarantees.Downloads
import P2PFileSharing.Model.SharedFiles
import P2PFileSharing.Proofs.SharedFiles
import P2PFileSharing.Guarantees.Replicas
import P2PFileSharing.Model.Packets
import P2PFileSharing.Proofs.Packets
import P2PFileSharing.Guarantees.Packets
import P2PFileSharing.Model.Pushes
import P2PFileSharing.Guarantees.Pushes
import P2PFileSharing.Guarantees.TcpServer
import P2PFileSharing.Model.RequestArrays
import P2PFileSharing.Guarantees.RequestArrays
import P2PFileSharing.Model.RegisterClient
import P2PFileSharing.Guarantees.RegisterClient
import P2PFileSharing.Guarantees.HitTtl
import P2PFileSharing.Model.MessageRound
import P2PFileSharing.Spec.Format
import P2PFileSharing.Proofs.MessageRound
import P2PFileSharing.Guarantees.MessageRound
import P2PFileSharing.Proofs.Locality
import P2PFileSharing.Guarantees.Independence
import P2PFileSharing.Lib.WorkQueue
import P2PFileSharing.Guarantees.WorkQueues
import P2PFileSharing.Guarantees.SocketCounts
import P2PFileSharing.Model.FileClient
import P2PFileSharing.Guarantees.FileClient
import P2PFileSharing.Guarantees.SplitJoin
import P2PFileSharing.Guarantees.CommandChunks
import P2PFileSharing.Guarantees.Topology
import P2PFileSharing.Model.CommandLoop
import P2PFileSharing.Guarantees.CommandLoop
import P2PFileSharing.Proofs.Issuing
import P2PFileSharing.Guarantees.MessageIds
import P2PFileSharing.Guarantees.OutputPaths
import P2PFileSharing.Lib.Progress
import P2PFileSharing.Proofs.Threads
import P2PFileSharing.Proofs.Rest
import P2PFileSharing.Guarantees.Rest
import P2PFileSharing.Model.ByteNetwork
import P2PFileSharing.Proofs.Fits
import P2PFileSharing.Proofs.ByteNetwork
import P2PFileSharing.Guarantees.ByteNetwork
import P2PFileSharing.Guarantees.Obtain
import P2PFileSharing.Model.Session
import P2PFileSharing.Guarantees.Session
import P2PFileSharing.Model.Launch
import P2PFileSharing.Guarantees.Launch
import P2PFileSharing.Guarantees.Settings
import P2PFileSharing.Model.Processes
import P2PFileSharing.Guarantees.Processes
