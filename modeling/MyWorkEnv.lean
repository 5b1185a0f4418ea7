import MyWorkEnv.Lib.ByteOrder
import MyWorkEnv.Lib.Transfer
import MyWorkEnv.Lib.Transition
import MyWorkEnv.Lib.Rest
import MyWorkEnv.Lib.Relay
import MyWorkEnv.Lib.Admission
import MyWorkEnv.Lib.SharedStream
import MyWorkEnv.Lib.LinkedRing
import MyWorkEnv.Lib.BatchQueue
import MyWorkEnv.Lib.CString
import MyWorkEnv.Lib.Lines
import MyWorkEnv.Lib.Snprintf
import MyWorkEnv.Lib.Numerals
import MyWorkEnv.Lib.Ledger
import MyWorkEnv.Lib.Custody
import MyWorkEnv.Lib.FileLock
import MyWorkEnv.Lib.Retention
import MyWorkEnv.Lib.ByteMemory
import MyWorkEnv.MyUtils.CommonUtil
import MyWorkEnv.MyUtils.List
import MyWorkEnv.MyUtils.ForEach
import MyWorkEnv.MyUtils.Log.LogIO
import MyWorkEnv.MyUtils.Log.Archives
import MyWorkEnv.MyUtils.Mem.Mem
import MyWorkEnv.MyUtils.Mem.Blocks
import MyWorkEnv.MyUtils.Mem.Ledger
import MyWorkEnv.MyUtils.Mem.Exclusive
import MyWorkEnv.MyUtils.Mem.Owns
import MyWorkEnv.MyUtils.Mem.Release
import MyWorkEnv.MyUtils.EventWorker
import MyWorkEnv.MyUtils.Timer.Timer
import MyWorkEnv.MyUtils.Timer.TimerAdd
import MyWorkEnv.MyUtils.Health.Health
import MyWorkEnv.MyUtils.Timer.Startup
import MyWorkEnv.MyUtils.Modules.Program
import MyWorkEnv.MyUtils.Msg.Layout
import MyWorkEnv.MyUtils.Msg.FillCont
import MyWorkEnv.MyUtils.Msg.Builder
import MyWorkEnv.MyUtils.Msg.SendRecv
import MyWorkEnv.MyUtils.Msg.Framing
import MyWorkEnv.MyUtils.Msg.Acceptance
import MyWorkEnv.MyUtils.Msg.HostOrder
import MyWorkEnv.MyUtils.Msg.Portable
import MyWorkEnv.MyUtils.Msg.SharedSocket
import MyWorkEnv.MyUtils.Msg.Stats
import MyWorkEnv.MyUtils.TPool.Task
import MyWorkEnv.MyUtils.TPool.Submit
import MyWorkEnv.MyUtils.TPool.ThreadPool
import MyWorkEnv.MyUtils.TPool.Batches
import MyWorkEnv.MyUtils.TPool.Handshake
import MyWorkEnv.MyUtils.TPool.Ownership
import MyWorkEnv.MyUtils.TPool.Sync
import MyWorkEnv.MyUtils.TPool.Wakeup
import MyWorkEnv.MyUtils.TPool.Rest
import MyWorkEnv.MyUtils.TPool.Conservation
import MyWorkEnv.MyUtils.TPool.Order
import MyWorkEnv.MyUtils.TPool.Shutdown
import MyWorkEnv.MyUtils.TPool.Counters
import MyWorkEnv.MyUtils.TPool.Overshoot
import MyWorkEnv.MyUtils.TPool.Producer
import MyWorkEnv.MyUtils.CmdLine.Dispatch
import MyWorkEnv.MyUtils.CmdLine.Registry
import MyWorkEnv.MyUtils.CmdLine.SafeInput
import MyWorkEnv.MyUtils.CmdLine.ModuleReport
import MyWorkEnv.MyUtils.CmdLine.Operator
import MyWorkEnv.MyUtils.CmdLine.CmdServer
import MyWorkEnv.MyUtils.CmdLine.ClosedOnce
import MyWorkEnv.MyUtils.CmdLine.SingleInstance
import MyWorkEnv.Server.ServerClientMap
import MyWorkEnv.Server.ClientMapRefines
import MyWorkEnv.Server.ServerProc
import MyWorkEnv.Server.ClientMapMirror
import MyWorkEnv.Server.ReplyRouting
import MyWorkEnv.Server.EdgeTriggered
import MyWorkEnv.Server.RequestOrder
import MyWorkEnv.Server.ServerMsgHandler
import MyWorkEnv.Server.Answers
import MyWorkEnv.Server.CommandOutput
import MyWorkEnv.Server.RequestBlocks
import MyWorkEnv.Client.ClientMsgHandler
import MyWorkEnv.Client.RemoteExec
import MyWorkEnv.Client.PooledExec
import MyWorkEnv.Conf.ConfFile
import MyWorkEnv.Conf.Comments
import MyWorkEnv.Conf.Settings
import MyWorkEnv.Conf.RoundTrip
import MyWorkEnv.Conf.Accepted
import MyWorkEnv.MyUtils.Modules.Sound
import MyWorkEnv.MyUtils.Modules.LeakReport
import MyWorkEnv.MyUtils.Modules.CollectStat
import MyWorkEnv.MyUtils.Modules.ListReport
import MyWorkEnv.MyUtils.Modules.FailedInit
import MyWorkEnv.MyUtils.Modules.InTurn
import MyWorkEnv.MyUtils.Modules.Cycle
import MyWorkEnv.MyUtils.Modules.Common
