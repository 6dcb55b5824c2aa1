import Smros.Credentials.Escalation
import Smros.Files.LowestFd
import Smros.Files.Pairs
import Smros.Fork.Release
import Smros.Futex.Isolation
import Smros.Mqueue.Delivery
import Smros.Mqueue.Departures
import Smros.Mqueue.Wakeups
import Smros.Objects.ChannelRuns
import Smros.Objects.HandleRanges
import Smros.Objects.HandleTable
import Smros.Objects.VmarRequests
import Smros.PageTable.FiniteMap
import Smros.PageTable.FrameRange
import Smros.Process.Parents
import Smros.Process.Waits
import Smros.ProcessMemory.Transform
import Smros.RecordLock.Runtime
import Smros.Scheduler.Retirements
import Smros.Signal.Rollback
import Smros.Task.Expiry
import Smros.Task.Tids
import Smros.Timer.Overruns
