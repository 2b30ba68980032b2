import VirtualAgent.ClockAccounting
import VirtualAgent.MonotoneClock
import VirtualAgent.LockFreeRead
import VirtualAgent.Agreement
import VirtualAgent.PositiveTdf
import VirtualAgent.LinkShaping
import VirtualAgent.OperatorSuspend
import VirtualAgent.UpdateResume
import VirtualAgent.FrameRoundTrip
import VirtualAgent.MalformedFrame
import VirtualAgent.ReceiveBounds
import VirtualAgent.MalformedCommand
import VirtualAgent.Hysteresis
import VirtualAgent.TickCompensation
import VirtualAgent.TickResume
import VirtualAgent.Shutdown
import VirtualAgent.PendingDelete
import VirtualAgent.BroadcastTdf
import VirtualAgent.DelayController
import VirtualAgent.LoadController
import VirtualAgent.CpuIdle
import VirtualAgent.BroadcastMessage
import VirtualAgent.CommandLine
import VirtualAgent.Reshaping
import VirtualAgent.UpdatePass
import VirtualAgent.TimeOfDay
import VirtualAgent.Pacing
import VirtualAgent.Delivery
import VirtualAgent.Server
import VirtualAgent.ConnectionManager
import VirtualAgent.ClockBounds
import VirtualAgent.Progress
import VirtualAgent.Overload
import VirtualAgent.Leftovers
import VirtualAgent.Restart
import VirtualAgent.ClusterThreads
import VirtualAgent.CommandOrigin
