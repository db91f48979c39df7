import LaneBroker.Broker.Settlement
import LaneBroker.Broker.Submissions
import LaneBroker.Runner.BlobLeases
import LaneBroker.Stream.Rules
import LaneBroker.Stream.Verify
import LaneBroker.Store.Watermark
import LaneBroker.Store.ClosureRuns
import LaneBroker.Store.Uploads
import LaneBroker.Store.Lock
import LaneBroker.Store.Addresses
import LaneBroker.Lock.Exclusion
import LaneBroker.Scheduler.Clock
import LaneBroker.Scheduler.Passing
import LaneBroker.Scheduler.Pushes
import LaneBroker.Scheduler.Submission
import LaneBroker.Scheduler.StatusView
import LaneBroker.Scheduler.Supersession
import LaneBroker.Scheduler.Skips
import LaneBroker.Scheduler.HighCap
import LaneBroker.Scheduler.Cutover
import LaneBroker.Scheduler.Windows
import LaneBroker.Scheduler.FairnessFile
import LaneBroker.LaneDb.Shares
import LaneBroker.Caches.ContentInputs
import LaneBroker.Caches.Restored
import LaneBroker.LaneDb.Usage
import LaneBroker.LaneDb.Urgency
import LaneBroker.Caches.LockEligibility
import LaneBroker.Stream.Gunzip
import LaneBroker.Client.Schedule
import LaneBroker.Client.RunnerLost
import LaneBroker.Client.Installed
import LaneBroker.Client.ArtifactsArrive
import LaneBroker.Store.Ids
import LaneBroker.Scheduler.Fingerprint
import LaneBroker.Leases.NoProgress
import LaneBroker.Caches.CurrentDeps
import LaneBroker.Scheduler.HostCpu
import LaneBroker.Scheduler.SpeedFactors
import LaneBroker.Scheduler.HeadDelay
import LaneBroker.Scheduler.LaneConflicts
import LaneBroker.Runner.Moves
import LaneBroker.Runner.TicketSweep
