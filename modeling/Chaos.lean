import Chaos.GuardedRuns
import Chaos.Buffer
import Chaos.BufferOrder
import Chaos.BufferTail
import Chaos.BufferSendFifo
import Chaos.BufferReceiveFifo
import Chaos.BufferSizes
import Chaos.BufferCursors
import Chaos.TimerIds
import Chaos.EventFlags
import Chaos.Connecter
import Chaos.ConnecterSend
import Chaos.ConnecterCallbacks
import Chaos.ExpiringHeap
import Chaos.MinHeap
import Chaos.Events
import Chaos.MinHeapOrder
import Chaos.StdMap
import Chaos.DBResult
import Chaos.MineSweeper
import Chaos.MineClicks
import Chaos.MineMaps
import Chaos.Timer
import Chaos.TimerLaunch
import Chaos.CentreSteps
import Chaos.EventCounters
import Chaos.LoopWakeUp
import Chaos.CentreFrames
import Chaos.CentreRegistry
import Chaos.CancelOnce
import Chaos.ActiveEvents
import Chaos.FrameStreams
import Chaos.Package
import Chaos.PackageStream
import Chaos.Poller
import Chaos.Select
import Chaos.Epoll
import Chaos.TimerRegistry
import Chaos.AOIManager
import Chaos.AOIPlacement
import Chaos.AOIViews
import Chaos.CentrePool
import Chaos.PoolSteps
import Chaos.PoolStart
import Chaos.PoolStop
import Chaos.PoolCentres
import Chaos.Threads
import Chaos.ThreadPool
import Chaos.ThreadPoolSteps
import Chaos.PoolTasks
import Chaos.PoolDestroy
import Chaos.DBPool
import Chaos.DBPoolSteps
import Chaos.PoolJoins
import Chaos.DBPoolServed
import Chaos.CentreLocks
import Chaos.BufferLimits
import Chaos.BufferReadPaths
import Chaos.BufferTwoPhase
import Chaos.MinHeapQueue
import Chaos.MinHeapErase
import Chaos.TimerRearm
import Chaos.TimerLaunchEnds
import Chaos.TimerLifetimes
import Chaos.TimerSleep
import Chaos.EventRestarts
import Chaos.DeleteRegistry
import Chaos.RegisterAtomic
import Chaos.ConnecterInterest
import Chaos.ConnecterBytes
import Chaos.EdgeHandlers
import Chaos.PackageSizes
import Chaos.AOIRange
import Chaos.AOIAround
import Chaos.AOICrossing
import Chaos.AOIMove
import Chaos.MineFlood
import Chaos.MinePlacement
import Chaos.CivilDates
import Chaos.DBPoolQueue
import Chaos.DBRedis
import Chaos.DBResultRows
import Chaos.Logger
import Chaos.LoggerDates
import Chaos.LoggerFiles
import Chaos.RedisReplies
import Chaos.AcceptSlotRuns
import Chaos.PoolWorkers
import Chaos.IocpConnecter
import Chaos.IocpDriven
import Chaos.PoolProgress
import Chaos.MineOrder
import Chaos.WindowsPool
import Chaos.WindowsRefines
import Chaos.WindowsStop
import Chaos.ConnecterBuffers
import Chaos.EchoServer
import Chaos.SelectLaunch
