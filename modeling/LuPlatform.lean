import LuPlatform.Library.Loop
import LuPlatform.Library.Feed
import LuPlatform.Library.Bytes
import LuPlatform.Library.Pieces
import LuPlatform.Library.BaseFraming
import LuPlatform.Library.TransitionSystem
import LuPlatform.Library.ActionRuns
import LuPlatform.Library.LockOrder
import LuPlatform.Library.Census
import LuPlatform.Library.PowerOfTwo
import LuPlatform.Library.Counters
import LuPlatform.Library.Base64
import LuPlatform.Library.FirstWins
import LuPlatform.Crypto.DataWrap
import LuPlatform.Crypto.DataWrapMoves
import LuPlatform.Common.FixedString
import LuPlatform.Common.FixedStringAssignment
import LuPlatform.Common.FixedStringForm
import LuPlatform.Common.TicketSpinlock
import LuPlatform.Common.Barrier
import LuPlatform.Utils.StringConversion
import LuPlatform.Utils.SplitString
import LuPlatform.Utils.DelimiterTextParser
import LuPlatform.Crypto.Base64EncodeDecode
import LuPlatform.Utils.LineFields
import LuPlatform.Utils.NumericAccessors
import LuPlatform.Utils.FieldAccessors
import LuPlatform.Utils.WaitForCount
import LuPlatform.Common.Config
import LuPlatform.Common.ConfigFailures
import LuPlatform.Common.ConfigEntries
import LuPlatform.Websocket.Frame
import LuPlatform.Websocket.FrameMessages
import LuPlatform.Websocket.FrameReaders
import LuPlatform.Websocket.FrameStream
import LuPlatform.Websocket.MessageLoop
import LuPlatform.Websocket.FrameConsumption
import LuPlatform.Websocket.FrameChunking
import LuPlatform.Websocket.FrameConversation
import LuPlatform.Websocket.FrameSend
import LuPlatform.Websocket.FrameWire
import LuPlatform.Websocket.FrameRoundTrip
import LuPlatform.Websocket.FrameHeaders
import LuPlatform.Websocket.FrameDecoding
import LuPlatform.Websocket.FrameFragments
import LuPlatform.Websocket.FrameGrammar
import LuPlatform.Websocket.FrameSafety
import LuPlatform.Websocket.FrameClosing
import LuPlatform.Websocket.Handshake
import LuPlatform.Websocket.HandshakeSeverResponse
import LuPlatform.Websocket.HeaderLines
import LuPlatform.Websocket.HeaderFields
import LuPlatform.Websocket.HeadLines
import LuPlatform.Websocket.ProtocolList
import LuPlatform.Websocket.RequestLine
import LuPlatform.Websocket.RequestFields
import LuPlatform.Socket.ReceiveLoop
import LuPlatform.Socket.DataSocket
import LuPlatform.Socket.MessageFraming
import LuPlatform.Socket.StringV
import LuPlatform.Socket.DataSocketV
import LuPlatform.Socket.MessageSizes
import LuPlatform.Socket.MessageCopies
import LuPlatform.Storage.DBWriter
import LuPlatform.Platform.FDEventLoop
import LuPlatform.Thread.EventChannel
import LuPlatform.Thread.WorkerThread
import LuPlatform.Thread.ConnectionThread
import LuPlatform.Thread.JobManager
import LuPlatform.Thread.JobRuns
import LuPlatform.Thread.JobStranding
import LuPlatform.Thread.JobOwnership
import LuPlatform.Thread.JobExecution
import LuPlatform.Thread.JobCallbacks
import LuPlatform.Thread.JobCancellation
import LuPlatform.Thread.JobQueue
import LuPlatform.Thread.JobDeadlock
import LuPlatform.Thread.WorkerLimits
import LuPlatform.Thread.JobProgress
import LuPlatform.Thread.JobQueueRuns
import LuPlatform.Thread.JobQueueStalls
import LuPlatform.Thread.JobsAtOnce
import LuPlatform.Socket.Session
import LuPlatform.Socket.WebSockets
import LuPlatform.Socket.RequestAnswers
import LuPlatform.Socket.BaseSocket
import LuPlatform.Socket.SendAccount
import LuPlatform.Socket.SendFile
import LuPlatform.Socket.SendStream
import LuPlatform.Socket.ReceiveWindow
import LuPlatform.Socket.Compaction
import LuPlatform.Socket.HeaderScan
import LuPlatform.Socket.HandshakeRounds
import LuPlatform.Socket.HandshakeChunking
import LuPlatform.Socket.ClientMode
import LuPlatform.Socket.HandshakeAgreement
import LuPlatform.Socket.ConnectionStops
import LuPlatform.Socket.ServerMode
import LuPlatform.Socket.Conversation
import LuPlatform.Socket.BothEnds
import LuPlatform.Socket.RawConversation
import LuPlatform.Library.SlotTable
import LuPlatform.Library.TicketLock
import LuPlatform.Library.SlotOrder
import LuPlatform.Library.SlotDrain
import LuPlatform.Library.SlotFifo
import LuPlatform.Library.SlotTurns
import LuPlatform.Queue.AtomicQueue
import LuPlatform.Queue.Tickets
import LuPlatform.Queue.QueueThreads
import LuPlatform.Queue.SpscQueue
import LuPlatform.Queue.QueueBase
import LuPlatform.Queue.TryResults
import LuPlatform.Queue.RetryDecorator
import LuPlatform.Queue.MPSCQueue
import LuPlatform.Queue.MPSCRuns
import LuPlatform.Queue.ExactTransfer
import LuPlatform.Queue.LostWakeup
import LuPlatform.Queue.Overtaking
import LuPlatform.Queue.PushHistory
import LuPlatform.Queue.SenderOrder
import LuPlatform.Queue.DerivedQueue
import LuPlatform.Queue.AtomicElements
import LuPlatform.Queue.AtomicStates
import LuPlatform.Library.Base128
import LuPlatform.Reflection.Archive
import LuPlatform.Reflection.Varint
import LuPlatform.Reflection.Item
import LuPlatform.Reflection.BitSerializer
import LuPlatform.Reflection.Representation
import LuPlatform.Reflection.RoundTrip
import LuPlatform.Reflection.ArchiveCalls
import LuPlatform.Thread.ServerThread
