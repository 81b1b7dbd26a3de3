import MultiMaster.LockTable.Core
import MultiMaster.LockTable.History
import MultiMaster.LockTable.Holders
import MultiMaster.LockTable.Exclusion
import MultiMaster.LockTable.Isolation
import MultiMaster.NetIO.EventMessage
import MultiMaster.NetIO.Codec
import MultiMaster.NetIO.MessageHandle
import MultiMaster.Foundation.Framing
import MultiMaster.NetIO.Libevent
import MultiMaster.NetIO.Mailbox
import MultiMaster.NetIO.Delivery
import MultiMaster.NetIO.CutIndependence
import MultiMaster.NetIO.Transport
import MultiMaster.NetIO.Reassembly
import MultiMaster.Packet.FixedBuffer
import MultiMaster.Packet.JsonRpcPacket
import MultiMaster.Packet.Building
import MultiMaster.Packet.Parsing
import MultiMaster.Packet.RoundTrip
import MultiMaster.Foundation.Exchange
import MultiMaster.LockProtocol.Messages
import MultiMaster.LockProtocol.Parties
import MultiMaster.LockProtocol.System
import MultiMaster.LockProtocol.OwnReply
import MultiMaster.LockTable.Release
import MultiMaster.Foundation.FlatArray
import MultiMaster.LockTable.Versions
import MultiMaster.LockTable.Waiting
import MultiMaster.Packet.DynamicBuffer
import MultiMaster.Packet.BlockStorage
import MultiMaster.Packet.DynamicRuns
import MultiMaster.NetIO.Connections
import MultiMaster.NetIO.Routing
import MultiMaster.NetIO.Endpoints
import MultiMaster.Foundation.Interleaving
import MultiMaster.NetIO.ConcurrentAdd
import MultiMaster.NetIO.ConcurrentSend
import MultiMaster.NetIO.ForeignFrames
import MultiMaster.NetIO.SafeReception
import MultiMaster.NetIO.StreamSafety
import MultiMaster.Packet.PacketTexts
import MultiMaster.Packet.PacketUses
import MultiMaster.Packet.WriteBounds
import MultiMaster.Packet.Reuse
import MultiMaster.Packet.UnknownKeys
import MultiMaster.Packet.Sizes
import MultiMaster.Packet.JsonWriter
import MultiMaster.Packet.TextLength
import MultiMaster.Packet.AnyJson
import MultiMaster.NetIO.SendReport
import MultiMaster.NetIO.WaitingReceive
import MultiMaster.NetIO.ReceiveOrder
import MultiMaster.NetIO.LockBalance
import MultiMaster.Foundation.Turns
import MultiMaster.NetIO.InterruptedDelivery
import MultiMaster.NetIO.UnknownMessages
import MultiMaster.NetIO.ListenList
import MultiMaster.NetIO.FreeHandle
import MultiMaster.NetIO.CounterLock
import MultiMaster.LockProtocol.RawRequests
import MultiMaster.Packet.BlockBounds
import MultiMaster.Packet.Clearing
import MultiMaster.NetIO.MessageSizes
import MultiMaster.NetIO.MessageCopies
import MultiMaster.Foundation.KeyedRecords
import MultiMaster.LockTable.RecordKeys
import MultiMaster.Foundation.LinkedList
import MultiMaster.LockTable.UtHash
import MultiMaster.LockTable.HashBuckets
import MultiMaster.LockTable.HashIntegrity
import MultiMaster.LockTable.HashDeletion
import MultiMaster.LockTable.HashRuns
import MultiMaster.LockTable.HashedServer
import MultiMaster.Foundation.Leases
import MultiMaster.LockTable.Compatibility
import MultiMaster.LockProtocol.ClientExclusion
import MultiMaster.Foundation.Channels
import MultiMaster.Foundation.Conservation
import MultiMaster.Foundation.Refinement
import MultiMaster.NetIO.ReplyingReceive
import MultiMaster.NetIO.Wiring
import MultiMaster.NetIO.WiredTables
import MultiMaster.LockProtocol.Wire
import MultiMaster.LockProtocol.WireRelation
import MultiMaster.LockProtocol.WireMessages
import MultiMaster.LockProtocol.WireRefinement
import MultiMaster.LockProtocol.WireRuns
import MultiMaster.LockProtocol.WireExclusion
import MultiMaster.Foundation.Assignments
import MultiMaster.IdIncrement.Server
import MultiMaster.LockProtocol.Deployment
import MultiMaster.Foundation.Scanners
import MultiMaster.Packet.JsonReader
import MultiMaster.Packet.ReaderEnds
import MultiMaster.Packet.WrittenText
import MultiMaster.Packet.ReadingScalars
import MultiMaster.Packet.ReadingDocuments
import MultiMaster.Packet.TextRoundTrip
import MultiMaster.Packet.UnclosedText
import MultiMaster.Packet.AcceptedTexts
