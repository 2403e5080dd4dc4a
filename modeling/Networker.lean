import Networker.AcceptErrors
import Networker.AcceptorModel
import Networker.AsyncLoggingModel
import Networker.BackOff
import Networker.BufferArrivals
import Networker.BufferModel
import Networker.BufferRecycling
import Networker.BufferRefinement
import Networker.BufferRotation
import Networker.BufferRuns
import Networker.BufferShrink
import Networker.BufferSpecs
import Networker.ByteOrder
import Networker.ByteVectors
import Networker.CalendarDays
import Networker.ChannelCalls
import Networker.ChannelModel
import Networker.CharArrays
import Networker.CheckedIntegers
import Networker.CheckedRuns
import Networker.CivilCalendar
import Networker.CivilStamps
import Networker.ClientConnections
import Networker.ClientNames
import Networker.ClientStop
import Networker.ConnectAttempts
import Networker.ConnectionLifecycle
import Networker.ConnectionLifetime
import Networker.ConnectionModel
import Networker.ConnectionOwners
import Networker.ConnectionSteps
import Networker.ConnectionTeardown
import Networker.ConnectorModel
import Networker.ConnectorSockets
import Networker.CountDownLatch
import Networker.CoveredQueues
import Networker.DateModel
import Networker.Descriptors
import Networker.DigitStrings
import Networker.EchoServer
import Networker.EndToEnd
import Networker.EventListGrowth
import Networker.EventLoopModel
import Networker.EventLoopThread
import Networker.ExpiryStep
import Networker.FileSystems
import Networker.HalfClose
import Networker.IntegerCodec
import Networker.IntegerFormat
import Networker.JulianDays
import Networker.LineSearch
import Networker.LocalTime
import Networker.LogFileModel
import Networker.LogFileNames
import Networker.LogOrder
import Networker.LogPipeline
import Networker.LogReassembly
import Networker.LogRecords
import Networker.LogRotation
import Networker.LogStamps
import Networker.LogStop
import Networker.LogStreamInsertions
import Networker.LogTimes
import Networker.MutexHolder
import Networker.OrderedSets
import Networker.OutputNotifications
import Networker.OutputStream
import Networker.PatternSearch
import Networker.PendingFunctors
import Networker.PeriodicRuns
import Networker.PollArray
import Networker.PollDelivery
import Networker.PollIndices
import Networker.PollerAgreement
import Networker.PollerKernel
import Networker.PollerModel
import Networker.PollerSpecs
import Networker.RetryDelays
import Networker.RoundRobin
import Networker.SendPaths
import Networker.ServerLoops
import Networker.ServerRuns
import Networker.ServerTable
import Networker.ServerTeardown
import Networker.SharedLoop
import Networker.ShortWrites
import Networker.ShutdownOrder
import Networker.SmallFiles
import Networker.SocketPair
import Networker.SortedTexts
import Networker.StringPieceModel
import Networker.TcpClientModel
import Networker.TcpServerModel
import Networker.ThreadStart
import Networker.TimerArming
import Networker.TimerCancellation
import Networker.TimerFunctors
import Networker.TimerOwnership
import Networker.TimerPace
import Networker.TimerQueueModel
import Networker.TimerQueueSpecs
import Networker.UtcTime
import Networker.VectorSearch
import Networker.ZoneDecoding
import Networker.ZoneFile
import Networker.ZoneModel
import Networker.ZoneTimes
import Networker.ZoneValidation
