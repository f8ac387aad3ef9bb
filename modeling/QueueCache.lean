import QueueCache.ToMathlib.Run
import QueueCache.ToMathlib.Tally
import QueueCache.ToMathlib.Overlay
import QueueCache.ToMathlib.Stored
import QueueCache.ToMathlib.PartialReads
import QueueCache.Model.DeviceSteps
import QueueCache.Proofs.Calls
import QueueCache.Proofs.Queue
import QueueCache.Proofs.Accounting
import QueueCache.Proofs.Limits
import QueueCache.Proofs.Ownership
import QueueCache.Proofs.RemoveLock
import QueueCache.Proofs.Fifo
import QueueCache.Proofs.Disk
import QueueCache.Proofs.Durability
import QueueCache.Proofs.Closing
import QueueCache.Proofs.Lifetime
import QueueCache.Proofs.ScanBounds
import QueueCache.Proofs.ScanOverlay
import QueueCache.Proofs.Reads
import QueueCache.Model.Accesses
import QueueCache.Proofs.Accesses
import QueueCache.Proofs.ErrorExits
import QueueCache.Proofs.Scatter
import QueueCache.Proofs.Merging
import QueueCache.Proofs.ReadCount
import QueueCache.Proofs.ReadMerge
import QueueCache.Proofs.Versions
import QueueCache.Proofs.Linearizability
import QueueCache.Proofs.PagingPath
import QueueCache.Proofs.AttachDevices
import QueueCache.Proofs.AttachNames
import QueueCache.Proofs.LegacyAttach
import QueueCache.Proofs.Sequential
import QueueCache.Proofs.CrashPrefix
import QueueCache.Proofs.Gaps
import QueueCache.Proofs.PartialIrp
import QueueCache.Proofs.PartialOutcome
import QueueCache.Proofs.LogReader
import QueueCache.Proofs.LogRoundTrip
import QueueCache.Proofs.LogRecord
import QueueCache.Proofs.ScsiChk
import QueueCache.Proofs.QueueDepth
import QueueCache.Proofs.ScsiPaging
import QueueCache.Proofs.Work
import QueueCache.Proofs.AtRest
import QueueCache.Proofs.FilterCalls
import QueueCache.Proofs.FilterRemoval
import QueueCache.Proofs.FilterAtRest
import QueueCache.Proofs.Statistics
import QueueCache.Proofs.WriteThrough
