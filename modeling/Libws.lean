import Libws.Lib.Block
import Libws.Lib.Word
import Libws.Lib.Integer
import Libws.Lib.Indeterminate
import Libws.Lib.Tape
import Libws.Lib.Machine
import Libws.Lib.Loop
import Libws.Lib.Trace
import Libws.Lib.Fifo
import Libws.Lib.Lives
import Libws.Lib.Custody
import Libws.Lib.Handles
import Libws.Lib.Outcome
import Libws.Lib.Wheel
import Libws.Lib.Heap
import Libws.Lib.Search
import Libws.Lib.OrderedSet
import Libws.Lib.Snapshot
import Libws.Lib.Calendar
import Libws.Lib.Zone
import Libws.Lib.Hex
import Libws.Lib.Percent
import Libws.Lib.Decimal
import Libws.Lib.Tokens
import Libws.Lib.Escape
import Libws.Lib.Cyclic
import Libws.Core.ByteArray
import Libws.Core.ByteArrayTape
import Libws.Core.ByteArrayMachine
import Libws.Core.ByteArrayStream
import Libws.Core.ByteArrayHex
import Libws.Core.ByteArrays
import Libws.Core.ByteArrayPositions
import Libws.Core.ByteArrayReadOnly
import Libws.Core.ByteArrayGrowth
import Libws.Core.ByteArrayReads
import Libws.Core.ByteArraySeek
import Libws.Core.RingBuffer
import Libws.Core.RingBufferQueue
import Libws.Core.RingBufferString
import Libws.Core.StringFrames
import Libws.Core.RingBufferReads
import Libws.Core.Strings
import Libws.Core.StringsUrl
import Libws.Core.StringsCopy
import Libws.Core.StringsTrim
import Libws.Core.Event
import Libws.Core.EventOrder
import Libws.Core.Signal
import Libws.Core.EventRuns
import Libws.Core.EventPermanent
import Libws.Core.Sonyflake
import Libws.Core.Utils
import Libws.Core.ObjectPool
import Libws.Core.TimeTool
import Libws.Core.Timer
import Libws.Core.TimerWheel
import Libws.Core.TimerRuns
import Libws.Core.TimerRemove
import Libws.Core.TimerPlaced
import Libws.Core.TimerOrder
import Libws.Core.TimerClock
import Libws.Core.TimerIds
import Libws.Core.AStar
import Libws.Core.AStarGrid
import Libws.Core.AStarSearch
import Libws.Core.AStarPath
import Libws.Core.AStarComplete
import Libws.Core.AStarOptimal
import Libws.Core.AStarDefault
import Libws.Core.AStarReuse
import Libws.Core.AStarRun
import Libws.Core.AStarLimits
import Libws.Core.AStarRecorded
import Libws.Core.AStarOutside
import Libws.Core.AStarExplored
import Libws.Core.AStarQueue
import Libws.Network.ServerSocket
import Libws.Network.ServerReceive
import Libws.Network.ServerAccept
import Libws.Network.ServerIds
import Libws.Network.ServerClients
import Libws.Network.ServerLives
import Libws.Network.ServerSocketMac
import Libws.Network.ServerSocketWindows
import Libws.Network.ServerWindows
import Libws.Network.ServerBuffers
import Libws.Network.ServerHands
import Libws.Network.ServerCompletions
import Libws.Network.ClientSocket
import Libws.Network.ClientSend
import Libws.Network.ClientDelivery
import Libws.Network.ClientSessions
import Libws.Network.Connection
import Libws.Network.ConnectionStreams
import Libws.Network.HttpClient
import Libws.Network.Query
import Libws.Database.DBQueue
import Libws.Database.ExactlyOnce
import Libws.Database.Destroy
import Libws.Network.HttpQueue
import Libws.Network.HttpRequests
import Libws.Database.Query
import Libws.Database.Statement
import Libws.Database.StmtCache
import Libws.Database.StmtEviction
import Libws.Database.Binding
import Libws.Database.Reuse
import Libws.Database.IntegerColumns
import Libws.Database.Recordset
import Libws.Database.Session
