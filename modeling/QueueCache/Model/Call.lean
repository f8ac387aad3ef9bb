import QueueCache.Model.Scan

/-! # Dispatch calls

A `Call` is one request on its way through the dispatch routines, with the scatter object made for it
and its requests in the lower driver. `Pc` is the point its dispatch call has reached; a step runs to
the next access to data that another party can reach, and a lock section is one step. Everything the
kernel decides enters as an `Outcome`. A step that would use a scatter object that is gone is stuck.
-/

namespace QueueCache

/-- Program points of the dispatch routines. Items under construction and the loop variables of the
read are locals of the call. -/
inductive Pc where
  /-- The dispatch routine of the major function is about to run. -/
  | entry
  /-- About to skip the stack location and call the lower driver. -/
  | forward
  /-- About to complete the request with `status` and return it. -/
  | complete (status : NtStatus)
  | returned (status : NtStatus)
  /-- `QCacheQueueIrp`: the admission tests, each reading shared state once. -/
  | queueIrp
  | testMemory
  | testSize
  | testItems
  /-- `QCacheQueueIrp` past admission: the request stays with the item. -/
  | newItem
  | acquireLock (item : WriteQueueItem)
  | insertTail (item : WriteQueueItem)
  | setEvent
  /-- `QCacheQueueLazyWriteIrp`. -/
  | lazyNewItem
  | lazyAcquireLock (item : WriteQueueItem)
  | lazyMapMdl (item : WriteQueueItem)
  | lazyNewPayload (item : WriteQueueItem)
  | lazyInsertTail (item : WriteQueueItem)
  | lazySetEvent
  | lazyComplete
  /-- `QCacheRead` past its checks. -/
  | scanQueue
  | createScatter (bitmap : Bitmap) (clearIndex clearBits : ℕ)
  | split (bitmap : Bitmap) (clearIndex clearBits splits : ℕ)
  | finishScatter (splits : ℕ)

/-- Which code completed a request: a dispatch routine, `QCacheQueueLazyWriteIrp` after queueing a
copy, the worker, or the scatter destructor. -/
inductive CompletionSite where
  | dispatch
  | lazyWrite
  | worker
  | scatter
deriving DecidableEq, Repr

/-- One `IoCompleteRequest` of this driver. -/
structure Completion where
  site : CompletionSite
  status : NtStatus
  information : ℕ
deriving DecidableEq, Repr

/-- A live `SCATTERED_IRP` over a device with direct I/O: no bounce buffer is in use. Its original
request is the call that holds it. -/
structure ScatteredIrp where
  scatterCount : ℤ
  lastFailedStatus : NtStatus
  bytesCompleted : ℕ
deriving DecidableEq, Repr

/-- A request of this call in the lower driver: a part of a scattered read, or the skipped request
itself. `moved` are the sectors the device has transferred so far. -/
structure LowerIrp where
  scattered : Bool
  majorFunction : MajorFunction
  bufferOffset : ℤ
  length : ℕ
  diskOffset : ℤ
  moved : List ℤ := []
deriving DecidableEq, Repr

structure Call where
  irp : Irp
  pc : Pc
  information : ℕ
  buffer : Bytes
  deviceData : Option DeviceStatistics := none
  pendingReturned : Bool := false
  completions : List Completion := []
  forwards : ℕ := 0
  lowerStatus : Option IoStatusBlock := none
  scatter : Option ScatteredIrp := none
  lowerIrps : List LowerIrp := []

/-- What the kernel decides during one step: whether an `IoAcquireRemoveLock` is granted, whether the
memory asked for (pool or mapping) is there, whether both high-memory conditions are signalled, and
what the lower driver returns for a skipped request. -/
structure Outcome where
  lock : Bool := true
  memory : Bool := true
  highMemory : Bool := true
  lowerReturn : NtStatus := STATUS_PENDING
deriving DecidableEq, Repr

namespace Call

/-- The I/O manager hands a request to the driver. -/
def receive (irp : Irp) : Call where
  irp := irp
  pc := .entry
  information := irp.information
  buffer := irp.data

@[simp] def goto (c : Call) (pc : Pc) : Call := { c with pc }

/-- `IoCompleteRequest` with the request's current `IoStatus.Information`. -/
@[simp] def completeRequest (c : Call) (site : CompletionSite) (status : NtStatus) : Call :=
  { c with completions := c.completions ++ [⟨site, status, c.information⟩] }

/-- The last step of an exit that completes the request itself. -/
@[simp] def finish (c : Call) (site : CompletionSite) (status : NtStatus) : Call :=
  (c.completeRequest site status).goto (.returned status)

end Call

/-- `QCacheRead` up to the queue lock. -/
def qcacheRead (sh : Shared) (c : Call) (out : Outcome) : Shared × Call :=
  let io := c.irp.stack
  let statistics := sh.statistics
  if statistics.size = 0 then (sh, c.goto .forward)
  else
    let c := { c with information := 0 }
    let statistics := { statistics with
      readRequests := statistics.readRequests + 1
      readBytes := statistics.readBytes + io.length }
    if io.length = 0 then (sh.withStatistics statistics, c.goto (.complete STATUS_SUCCESS))
    else
      let statistics := { statistics with
        largestReadSize :=
          if io.length > statistics.largestReadSize then io.length else statistics.largestReadSize }
      let sh := sh.withStatistics statistics
      if io.byteOffset % 512 ≠ 0 ∨ io.length % 512 ≠ 0 then
        (sh, c.goto (.complete STATUS_INVALID_PARAMETER))
      else if endOfMedia statistics.size io then (sh, c.goto (.complete STATUS_END_OF_MEDIA))
      else if out.memory then (sh, c.goto .scanQueue)
      else (sh, c.goto (.complete STATUS_INSUFFICIENT_RESOURCES))

/-- `QCacheWrite` up to its call of `QCacheQueueIrp`. -/
def qcacheWrite (sh : Shared) (c : Call) : Shared × Call :=
  let io := c.irp.stack
  let statistics := sh.statistics
  if statistics.size = 0 then (sh, c.goto .forward)
  else
    let statistics := { statistics with
      writeRequests := statistics.writeRequests + 1
      writtenBytes := statistics.writtenBytes + io.length }
    if io.length = 0 then
      (sh.withStatistics statistics, { c with information := 0 }.goto (.complete STATUS_SUCCESS))
    else if endOfMedia statistics.size io then
      (sh.withStatistics statistics, c.goto (.complete STATUS_END_OF_MEDIA))
    else
      let statistics := { statistics with
        largestWriteSize :=
          if io.length > statistics.largestWriteSize then io.length else statistics.largestWriteSize }
      (sh.withStatistics statistics, c.goto .queueIrp)

def qcacheFlushBuffers (sh : Shared) (c : Call) : Shared × Call := (sh, c.goto .queueIrp)

def qcacheShutdown (sh : Shared) (c : Call) : Shared × Call :=
  (sh.withStatistics { sh.statistics with isCached := false }, c.goto .queueIrp)

/-- `QCacheDeviceControl` up to its call of `QCacheQueueIrp`. -/
def qcacheDeviceControl (sh : Shared) (c : Call) : Shared × Call :=
  let io := c.irp.stack
  let statistics := sh.statistics
  if statistics.size = 0 ∨
      (io.majorFunction = .internalDeviceControl ∧ io.minorFunction = IRP_MN_SCSI_CLASS) then
    (sh, c.goto .forward)
  else
    let c := { c with information := 0 }
    if io.ioControlCode = IOCTL_QCACHE_GET_DEVICE_DATA then
      if io.outputBufferLength < sizeofDeviceStatistics then
        (sh, c.goto (.complete STATUS_BUFFER_TOO_SMALL))
      else
        (sh, { c with deviceData := some statistics, information := sizeofDeviceStatistics }.goto
          (.complete STATUS_SUCCESS))
    else if io.ioControlCode = IOCTL_QCACHE_ON then
      (sh.withStatistics { statistics with isCached := true }, c.goto (.complete STATUS_SUCCESS))
    else if io.ioControlCode = IOCTL_QCACHE_OFF then
      (sh.withStatistics { statistics with isCached := false }, c.goto .queueIrp)
    else if io.ioControlCode = IOCTL_QCACHE_FLUSH then (sh, c.goto .queueIrp)
    else if accessFromCtlCode io.ioControlCode ≠ 0 then (sh, c.goto .queueIrp)
    else (sh, c.goto .forward)

/-- The dispatch table `DriverEntry` fills in; the other functions go to `QCacheSendToNextDriver`. -/
def dispatch (sh : Shared) (c : Call) (out : Outcome) : Shared × Call :=
  match c.irp.stack.majorFunction with
  | .read => qcacheRead sh c out
  | .write => qcacheWrite sh c
  | .flushBuffers => qcacheFlushBuffers sh c
  | .shutdown => qcacheShutdown sh c
  | .deviceControl => qcacheDeviceControl sh c
  | .internalDeviceControl => qcacheDeviceControl sh c
  | .fileSystemControl => (sh, c.goto .forward)
  | .other => (sh, c.goto .forward)

/-- The request itself in the lower driver. Only reads and writes move data. -/
def LowerIrp.skipped (io : IoStackLocation) : LowerIrp where
  scattered := false
  majorFunction := io.majorFunction
  bufferOffset := 0
  length := if io.majorFunction = .read ∨ io.majorFunction = .write then io.length else 0
  diskOffset := io.byteOffset

/-- `IoSkipCurrentIrpStackLocation` and `IoCallDriver`: the request now belongs to the lower driver
and the dispatch call returns what that driver returned. -/
def sendToNextDriver (c : Call) (lowerReturn : NtStatus) : Call :=
  { c with
    pc := .returned lowerReturn
    forwards := c.forwards + 1
    lowerIrps := c.lowerIrps ++ [LowerIrp.skipped c.irp.stack] }

/-- `QCacheQueueIrp` found a reason not to queue the request lazily. -/
def refuseLazy (sh : Shared) (c : Call) : Shared × Call :=
  ({ sh.withStatistics { sh.statistics with lowMemQueued := sh.statistics.lowMemQueued + 1 } with
      lowMemCondition := true },
    { c with information := 0 }.goto .newItem)

/-- `SCATTERED_IRP::Complete` and, at the last reference, the destructor: it completes the request, releases the lock
and is followed by the release of its memory. One step here; `FineState` has the states in between. -/
def scatterComplete (sh : Shared) (i : ℕ) (c : Call) (scatter : ScatteredIrp) : Shared × Call :=
  let scatterCount := scatter.scatterCount - 1
  if scatterCount = 0 then
    let information := if ntSuccess scatter.lastFailedStatus then scatter.bytesCompleted else 0
    (sh.ioReleaseRemoveLock.free (.scatter i),
      { c with scatter := none, information }.completeRequest .scatter scatter.lastFailedStatus)
  else (sh, { c with scatter := some { scatter with scatterCount } })

section scatterComplete

variable (sh : Shared) (i : ℕ) (c : Call) (scatter : ScatteredIrp)

@[simp] theorem scatterComplete_irp : (scatterComplete sh i c scatter).2.irp = c.irp := by
  unfold scatterComplete; dsimp only; split <;> rfl

@[simp] theorem scatterComplete_pc : (scatterComplete sh i c scatter).2.pc = c.pc := by
  unfold scatterComplete; dsimp only; split <;> rfl

@[simp] theorem scatterComplete_buffer : (scatterComplete sh i c scatter).2.buffer = c.buffer := by
  unfold scatterComplete; dsimp only; split <;> rfl

@[simp] theorem scatterComplete_pendingReturned :
    (scatterComplete sh i c scatter).2.pendingReturned = c.pendingReturned := by
  unfold scatterComplete; dsimp only; split <;> rfl

/-- The scatter object completes the original request at its last reference, and at no other. -/
theorem scatterComplete_completions : (scatterComplete sh i c scatter).2.completions = c.completions ∨
    ∃ completion, (scatterComplete sh i c scatter).2.completions = c.completions ++ [completion] ∧
      completion.site = .scatter := by
  unfold scatterComplete
  dsimp only
  split
  · exact .inr ⟨_, rfl, rfl⟩
  · exact .inl rfl

@[simp] theorem scatterComplete_forwards : (scatterComplete sh i c scatter).2.forwards = c.forwards := by
  unfold scatterComplete; dsimp only; split <;> rfl

@[simp] theorem scatterComplete_lowerIrps :
    (scatterComplete sh i c scatter).2.lowerIrps = c.lowerIrps := by
  unfold scatterComplete; dsimp only; split <;> rfl

@[simp] theorem scatterComplete_queue :
    (scatterComplete sh i c scatter).1.queue = sh.queue := by
  unfold scatterComplete; dsimp only; split <;> rfl

@[simp] theorem scatterComplete_statistics :
    (scatterComplete sh i c scatter).1.statistics = sh.statistics := by
  unfold scatterComplete; dsimp only; split <;> rfl

@[simp] theorem scatterComplete_shutdownThread :
    (scatterComplete sh i c scatter).1.extension.shutdownThread = sh.extension.shutdownThread := by
  unfold scatterComplete; dsimp only; split <;> rfl

@[simp] theorem scatterComplete_removed :
    (scatterComplete sh i c scatter).1.extension.removeLock.removed = sh.extension.removeLock.removed := by
  unfold scatterComplete; dsimp only; split <;> rfl

@[simp] theorem scatterComplete_event :
    (scatterComplete sh i c scatter).1.extension.writeQueueEvent = sh.extension.writeQueueEvent := by
  unfold scatterComplete; dsimp only; split <;> rfl

@[simp] theorem scatterComplete_disk : (scatterComplete sh i c scatter).1.disk = sh.disk := by
  unfold scatterComplete; dsimp only; split <;> rfl

@[simp] theorem scatterComplete_history : (scatterComplete sh i c scatter).1.history = sh.history := by
  unfold scatterComplete; dsimp only; split <;> rfl

end scatterComplete

/-- `QCacheRead` under the queue lock and up to its first use of the scan's result. -/
def qcacheReadScan (sh : Shared) (c : Call) : Shared × Call :=
  let io := c.irp.stack
  let scan := scanWriteQueue io c.buffer sh.statistics sh.queue
  let c := { c with buffer := scan.buffer }
  if scan.anyFromWriteQueue then
    let (clearIndex, clearBits) := rtlFindFirstRunClear scan.bitmap (io.length / 512)
    if clearBits = 0 then
      (sh.withStatistics scan.statistics,
        { c with information := io.length }.goto (.complete STATUS_SUCCESS))
    else (sh.withStatistics scan.statistics, c.goto (.createScatter scan.bitmap clearIndex clearBits))
  else
    (sh.withStatistics { scan.statistics with
        readRequestsReroutedToOriginal := scan.statistics.readRequestsReroutedToOriginal + 1
        readBytesReroutedToOriginal := scan.statistics.readBytesReroutedToOriginal + io.length },
      c.goto .forward)

/-- The request `BuildIrp` makes for a gap: a partial MDL over the caller's buffer. -/
def LowerIrp.gap (io : IoStackLocation) (clearIndex clearBits : ℕ) : LowerIrp where
  scattered := true
  majorFunction := .read
  bufferOffset := shl9 clearIndex
  length := shl9 clearBits
  diskOffset := add64 io.byteOffset (clearIndex * 512)

/-- One round of the splitting loop: `BuildIrp` and `IoCallDriver` for the current gap, then the
search for the next one. -/
def qcacheReadSplit (sh : Shared) (c : Call) (scatter : ScatteredIrp) (bitmap : Bitmap)
    (clearIndex clearBits splits : ℕ) (memory : Bool) : Shared × Call :=
  let io := c.irp.stack
  if memory then
    let c := { c with
      scatter := some { scatter with scatterCount := scatter.scatterCount + 1 }
      lowerIrps := c.lowerIrps ++ [LowerIrp.gap io clearIndex clearBits] }
    let sh := sh.withStatistics { sh.statistics with
      readBytesFromOriginal := sh.statistics.readBytesFromOriginal + clearBits * 512 }
    let (nextIndex, nextBits) :=
      rtlFindNextForwardRunClear bitmap (io.length / 512) (clearIndex + clearBits)
    if nextBits = 0 then (sh, c.goto (.finishScatter (splits + 1)))
    else (sh, c.goto (.split bitmap nextIndex nextBits (splits + 1)))
  else
    (sh, { c with scatter := some { scatter with lastFailedStatus := STATUS_INSUFFICIENT_RESOURCES } }.goto
      (.finishScatter splits))

/-- One step of the dispatch call `i`. -/
def callStep (sh : Shared) (i : ℕ) (c : Call) (out : Outcome) : Option (Shared × Call) :=
  let io := c.irp.stack
  match c.pc with
  | .entry => some (dispatch sh c out)
  | .forward => some (sh, sendToNextDriver c out.lowerReturn)
  | .complete status => some (sh, c.finish .dispatch status)
  | .returned _ => none
  | .queueIrp =>
    if sh.statistics.isCached ∧ (io.majorFunction = .write ∨ io.majorFunction = .flushBuffers) then
      some (sh, c.goto .testMemory)
    else some (sh, { c with information := 0 }.goto .newItem)
  | .testMemory => if out.highMemory then some (sh, c.goto .testSize) else some (refuseLazy sh c)
  | .testSize =>
    if sh.statistics.writeQueueSize < sh.statistics.maxQueueSize then some (sh, c.goto .testItems)
    else some (refuseLazy sh c)
  | .testItems =>
    if sh.statistics.writeQueueItems < sh.statistics.maxQueueItems then
      some ({ sh with lowMemCondition := false }, { c with information := 0 }.goto .lazyNewItem)
    else some (refuseLazy sh c)
  | .newItem =>
    if out.memory then some (sh.allocate (.item i), c.goto (.acquireLock (.new i)))
    else some (sh, c.finish .dispatch STATUS_INSUFFICIENT_RESOURCES)
  | .acquireLock item =>
    if sh.canAcquire out.lock then
      some (sh.ioAcquireRemoveLock, { c with pendingReturned := true }.goto
        (.insertTail { item with majorFunction := io.majorFunction, irp := some i }))
    else some (sh.deleteItem i, c.finish .dispatch STATUS_DELETE_PENDING)
  | .insertTail item => some (sh.insertTailList item sizeofWriteQueueItem, c.goto .setEvent)
  | .setEvent => some (sh.signal true, c.goto (.returned STATUS_PENDING))
  | .lazyNewItem =>
    if out.memory then some (sh.allocate (.item i), c.goto (.lazyAcquireLock (.new i)))
    else some (sh, c.finish .dispatch STATUS_INSUFFICIENT_RESOURCES)
  | .lazyAcquireLock item =>
    if sh.canAcquire out.lock then
      let item := { item with majorFunction := io.majorFunction, isLazy := true }
      if io.majorFunction = .write then
        some (sh.ioAcquireRemoveLock,
          c.goto (.lazyMapMdl { item with offset := io.byteOffset, length := io.length }))
      else some (sh.ioAcquireRemoveLock, c.goto (.lazyInsertTail item))
    else some (sh.deleteItem i, c.finish .dispatch STATUS_DELETE_PENDING)
  | .lazyMapMdl item =>
    -- The failing exit neither releases the remove lock nor deletes the item.
    if out.memory then some (sh, c.goto (.lazyNewPayload item))
    else some (sh, c.finish .dispatch STATUS_INSUFFICIENT_RESOURCES)
  | .lazyNewPayload item =>
    -- The failing exit deletes the item but does not release the remove lock.
    if out.memory then
      some (sh.allocate (.payload i), c.goto
        (.lazyInsertTail { item with buffer := rtlCopyMemory item.buffer 0 c.buffer 0 io.length }))
    else some (sh.deleteItem i, c.finish .dispatch STATUS_INSUFFICIENT_RESOURCES)
  | .lazyInsertTail item =>
    some (sh.insertTailList item (sizeofWriteQueueItem + item.length), c.goto .lazySetEvent)
  | .lazySetEvent => some (sh.signal true, c.goto .lazyComplete)
  | .lazyComplete =>
    let information := if io.majorFunction = .write then io.length else c.information
    some (sh, { c with information }.finish .lazyWrite STATUS_SUCCESS)
  | .scanQueue => some (qcacheReadScan sh c)
  | .createScatter bitmap clearIndex clearBits =>
    -- `SCATTERED_IRP::Create`: the acquire, `new` and the release where `new` fails are one step here.
    if sh.canAcquire out.lock then
      if out.memory then
        some (sh.ioAcquireRemoveLock.allocate (.scatter i),
          { c with scatter := some ⟨1, STATUS_SUCCESS, 0⟩, pendingReturned := true }.goto
            (.split bitmap clearIndex clearBits 0))
      else some (sh.ioAcquireRemoveLock.ioReleaseRemoveLock, c.goto (.complete STATUS_INSUFFICIENT_RESOURCES))
    else some (sh, c.goto (.complete STATUS_DELETE_PENDING))
  | .split bitmap clearIndex clearBits splits =>
    c.scatter.map fun scatter =>
      qcacheReadSplit sh c scatter bitmap clearIndex clearBits splits out.memory
  | .finishScatter splits =>
    c.scatter.map fun scatter =>
      let sh := sh.withStatistics { sh.statistics with
        splitReads := if splits > 1 then sh.statistics.splitReads + splits else sh.statistics.splitReads }
      scatterComplete sh i (c.goto (.returned STATUS_PENDING)) scatter

/-- The sectors of a transfer that lie in the given range of the disk. -/
def sectorsOf (offset : ℤ) (length : ℕ) : List ℤ :=
  if length = 0 then []
  else (List.range (sector (offset + length - 1) - sector offset + 1).toNat).map
    fun k : ℕ => sector offset + k

/-- The part of a write's data that lies in one sector reaches the disk. -/
def writeSector (disk : Bytes) (diskOffset : ℤ) (data : Bytes) (dataOffset : ℤ) (length : ℕ) (s : ℤ) :
    Bytes := fun x =>
  if diskOffset ≤ x ∧ x < diskOffset + length ∧ sector x = s then data (x - diskOffset + dataOffset)
  else disk x

/-- The part of a read that lies in one sector of the disk reaches the buffer. -/
def readSector (buffer : Bytes) (bufferOffset : ℤ) (disk : Bytes) (diskOffset : ℤ) (length : ℕ) (s : ℤ) :
    Bytes := fun x =>
  if bufferOffset ≤ x ∧ x < bufferOffset + length ∧ sector (x - bufferOffset + diskOffset) = s then
    disk (x - bufferOffset + diskOffset)
  else buffer x

/-- Every sector has been transferred. -/
def LowerIrp.done (lower : LowerIrp) : Bool :=
  (sectorsOf lower.diskOffset lower.length).all fun s => s ∈ lower.moved

/-- The lower device transfers one sector of the `n`-th request of this call, atomically. -/
def transfer (sh : Shared) (c : Call) (n : ℕ) (s : ℤ) : Option (Shared × Call) :=
  c.lowerIrps[n]?.bind fun lower =>
    if s ∈ sectorsOf lower.diskOffset lower.length ∧ s ∉ lower.moved then
      let lowerIrps := c.lowerIrps.set n { lower with moved := s :: lower.moved }
      if lower.majorFunction = .write then
        let disk := writeSector sh.disk lower.diskOffset c.buffer lower.bufferOffset lower.length s
        some ({ sh with disk }, { c with lowerIrps })
      else
        let buffer := readSector c.buffer lower.bufferOffset sh.disk lower.diskOffset lower.length s
        some (sh, { c with buffer, lowerIrps })
    else none

/-- A request that succeeds in full has been transferred in full. -/
def admissible (ioStatus : IoStatusBlock) (length : ℕ) (done : Bool) : Bool :=
  !(ntSuccess ioStatus.status && ioStatus.information = length) || done

/-- The lower driver completes the `n`-th request of this call. A part of a scattered read enters
`SCATTERED_IRP::IrpCompletionRoutine`; a skipped request completes past this driver. -/
def lowerComplete (sh : Shared) (i : ℕ) (c : Call) (n : ℕ) (ioStatus : IoStatusBlock) :
    Option (Shared × Call) :=
  c.lowerIrps[n]?.bind fun lower =>
    if admissible ioStatus lower.length lower.done then
      let c := { c with lowerIrps := c.lowerIrps.eraseIdx n }
      if lower.scattered then
        c.scatter.map fun scatter =>
          scatterComplete sh i c
            (if ntSuccess ioStatus.status then
              { scatter with bytesCompleted := scatter.bytesCompleted + ioStatus.information }
            else { scatter with lastFailedStatus := ioStatus.status })
      else some (sh, { c with lowerStatus := some ioStatus })
    else none

end QueueCache
