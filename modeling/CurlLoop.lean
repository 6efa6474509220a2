import CurlLoop.EventLoop
import CurlLoop.ResourceUsers
import CurlLoop.Lib.Placement
import CurlLoop.RunLoop
import CurlLoop.Evolution
import CurlLoop.Inbox
import CurlLoop.Layout
import CurlLoop.WellFormed
import CurlLoop.Calls
import CurlLoop.Passes
import CurlLoop.Completion
import CurlLoop.Destruction
import CurlLoop.Counters
import CurlLoop.Scheduler
import CurlLoop.IdleExit
import CurlLoop.Cancel
import CurlLoop.Recancel
import CurlLoop.Resubmit
import CurlLoop.MemorySink
import CurlLoop.PendingRace
import CurlLoop.Lib.TokenBucket
import CurlLoop.RateManager
import CurlLoop.RateCapacity
import CurlLoop.RateAnswers
import CurlLoop.WorkerPool
import CurlLoop.Traffic
import CurlLoop.Paths
import CurlLoop.Rows
import CurlLoop.Handles
import CurlLoop.CallSites
import CurlLoop.FailedResources
import CurlLoop.Stranded
import CurlLoop.Uncancelled
import CurlLoop.Wakeups
import CurlLoop.Lib.Turns
import CurlLoop.ServiceOrder
import CurlLoop.AutoRelease
import CurlLoop.NodeLifetime
import CurlLoop.RateSlots
import CurlLoop.TimerExpiry
import CurlLoop.ConcurrencyCap
import CurlLoop.Teardown
import CurlLoop.RetryBudget
import CurlLoop.SinkReports
import CurlLoop.Accounting
import CurlLoop.Starvation
import CurlLoop.FailedDependency
import CurlLoop.Lib.XorShift
import CurlLoop.Lib.Overwrite
import CurlLoop.Lib.CText
import CurlLoop.Backoff
import CurlLoop.Headers
import CurlLoop.DownloadCap
import CurlLoop.RateWaits
import CurlLoop.Priorities
import CurlLoop.Bystanders
import CurlLoop.ContentLength
import CurlLoop.SinkInit
import CurlLoop.TurnTaking
import CurlLoop.Throttling
import CurlLoop.Refresh
import CurlLoop.RateBackoff
import CurlLoop.Readiness
import CurlLoop.InboxIndependence
import CurlLoop.Lib.TreiberStack
import CurlLoop.InboxDrain
import CurlLoop.LifeRuns
import CurlLoop.Assembly
import CurlLoop.WireRate
import CurlLoop.Custody
import CurlLoop.LatestValue
import CurlLoop.PoolDrain
import CurlLoop.Answers
import CurlLoop.Reception
