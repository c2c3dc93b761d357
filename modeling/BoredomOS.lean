import BoredomOS.Recovery.Cumulative
import BoredomOS.Recovery.Leave
import BoredomOS.Recovery.Oscillation
import BoredomOS.Recovery.Reported
import BoredomOS.Recovery.Classified
import BoredomOS.Clock.Preempted
import BoredomOS.Clock.Continuous
import BoredomOS.Clock.SetUnixTime
import BoredomOS.Clock.Samples
import BoredomOS.Storage.Crash
import BoredomOS.Storage.Damage
import BoredomOS.Storage.Footprint
import BoredomOS.Log.Queue
import BoredomOS.Log.Logged
import BoredomOS.Log.Unmixed
import BoredomOS.Log.Chunks
import BoredomOS.Log.Slots
import BoredomOS.Log.Stop
import BoredomOS.Log.Ordered
import BoredomOS.Log.ShortChunk
import BoredomOS.Log.Reader
import BoredomOS.Log.HeadTime
import BoredomOS.Log.Totals
import BoredomOS.Link.Sequence
import BoredomOS.Link.Queries
import BoredomOS.Link.Provenance
import BoredomOS.Link.SetInterval
import BoredomOS.Link.Cadence
import BoredomOS.Link.Depth
import BoredomOS.Link.ClockLog
import BoredomOS.Log.Device
import BoredomOS.Log.Progress
import BoredomOS.Link.TaskLinkRead
import BoredomOS.Link.Written
import BoredomOS.Log.Kept
import BoredomOS.Link.Board
import BoredomOS.Link.Reduced
import BoredomOS.Link.Waits
import BoredomOS.Link.LogRequests
import BoredomOS.Log.Answers
import BoredomOS.Link.Firmware
import BoredomOS.Recovery.Watchdog
import BoredomOS.Power.Battery
