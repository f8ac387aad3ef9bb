import QueueCache.Model.Device

/-! # What one step of a dispatch call can do

`CallStep` lists every way a dispatch call can move, one constructor for each exit of a step, with the
guard the code tested and the effect on the shared data. It is the inversion of `callStep`: an
invariant of the calls is proved by one case for each constructor and never unfolds the routines.
-/

namespace QueueCache

/-- Nothing changed but the flag `IsCached`, the low-memory event and statistics that no party tests. -/
structure Frame (sh sh' : Shared) : Prop where
  queue : sh'.queue = sh.queue
  removeLock : sh'.extension.removeLock = sh.extension.removeLock
  shutdownThread : sh'.extension.shutdownThread = sh.extension.shutdownThread
  event : sh'.extension.writeQueueEvent = sh.extension.writeQueueEvent
  pool : sh'.pool = sh.pool
  disk : sh'.disk = sh.disk
  history : sh'.history = sh.history
  size : sh'.statistics.size = sh.statistics.size
  maxQueueItems : sh'.statistics.maxQueueItems = sh.statistics.maxQueueItems
  maxQueueSize : sh'.statistics.maxQueueSize = sh.statistics.maxQueueSize
  items : sh'.statistics.writeQueueItems = sh.statistics.writeQueueItems
  itemsTop : sh'.statistics.writeQueueItemsTop = sh.statistics.writeQueueItemsTop
  queueSize : sh'.statistics.writeQueueSize = sh.statistics.writeQueueSize
  queueSizeTop : sh'.statistics.writeQueueSizeTop = sh.statistics.writeQueueSizeTop

theorem Frame.refl (sh : Shared) : Frame sh sh := by constructor <;> rfl

/-- The queue, the log of what was linked and unlinked, and the queue's counters and limits. -/
structure QueueFrame (sh sh' : Shared) : Prop where
  queue : sh'.queue = sh.queue
  inserted : sh'.history.inserted = sh.history.inserted
  unlinked : sh'.history.unlinked = sh.history.unlinked
  maxQueueItems : sh'.statistics.maxQueueItems = sh.statistics.maxQueueItems
  maxQueueSize : sh'.statistics.maxQueueSize = sh.statistics.maxQueueSize
  items : sh'.statistics.writeQueueItems = sh.statistics.writeQueueItems
  itemsTop : sh'.statistics.writeQueueItemsTop = sh.statistics.writeQueueItemsTop
  queueSize : sh'.statistics.writeQueueSize = sh.statistics.writeQueueSize
  queueSizeTop : sh'.statistics.writeQueueSizeTop = sh.statistics.writeQueueSizeTop

theorem QueueFrame.refl (sh : Shared) : QueueFrame sh sh := by constructor <;> rfl

theorem QueueFrame.trans {sh sh' sh'' : Shared} (first : QueueFrame sh sh') (second : QueueFrame sh' sh'') :
    QueueFrame sh sh'' where
  queue := second.queue.trans first.queue
  inserted := second.inserted.trans first.inserted
  unlinked := second.unlinked.trans first.unlinked
  maxQueueItems := second.maxQueueItems.trans first.maxQueueItems
  maxQueueSize := second.maxQueueSize.trans first.maxQueueSize
  items := second.items.trans first.items
  itemsTop := second.itemsTop.trans first.itemsTop
  queueSize := second.queueSize.trans first.queueSize
  queueSizeTop := second.queueSizeTop.trans first.queueSizeTop

theorem Frame.toQueue {sh sh' : Shared} (frame : Frame sh sh') : QueueFrame sh sh' :=
  { frame with
    inserted := congrArg History.inserted frame.history
    unlinked := congrArg History.unlinked frame.history }

theorem QueueFrame.scatterComplete (sh : Shared) (i : ℕ) (c : Call) (scatter : ScatteredIrp) :
    QueueFrame sh (scatterComplete sh i c scatter).1 := by
  constructor <;> simp only [scatterComplete_queue, scatterComplete_history, scatterComplete_statistics]

/-- What no dispatch call changes: the disk, the known size, the worker's log, its shutdown flag and
whether the remove lock is closed. -/
structure OuterFrame (sh sh' : Shared) : Prop where
  disk : sh'.disk = sh.disk
  size : sh'.statistics.size = sh.statistics.size
  issued : sh'.history.issued = sh.history.issued
  served : sh'.history.served = sh.history.served
  shutdownThread : sh'.extension.shutdownThread = sh.extension.shutdownThread
  removed : sh'.extension.removeLock.removed = sh.extension.removeLock.removed

theorem Frame.toOuter {sh sh' : Shared} (frame : Frame sh sh') : OuterFrame sh sh' :=
  { frame with
    issued := congrArg History.issued frame.history
    served := congrArg History.served frame.history
    removed := congrArg RemoveLock.removed frame.removeLock }

theorem OuterFrame.trans {sh sh' sh'' : Shared} (first : OuterFrame sh sh') (second : OuterFrame sh' sh'') :
    OuterFrame sh sh'' where
  disk := second.disk.trans first.disk
  size := second.size.trans first.size
  issued := second.issued.trans first.issued
  served := second.served.trans first.served
  shutdownThread := second.shutdownThread.trans first.shutdownThread
  removed := second.removed.trans first.removed

theorem OuterFrame.scatterComplete (sh : Shared) (i : ℕ) (c : Call) (scatter : ScatteredIrp) :
    OuterFrame sh (scatterComplete sh i c scatter).1 := by
  constructor <;> simp only [scatterComplete_disk, scatterComplete_history, scatterComplete_statistics,
    scatterComplete_shutdownThread, scatterComplete_removed]

namespace IoStackLocation

/-- `IRP_MJ_SHUTDOWN` and `IOCTL_QCACHE_OFF`: the requests that clear `IsCached`. -/
def closes (io : IoStackLocation) : Bool :=
  io.majorFunction = .shutdown ||
    (io.majorFunction = .deviceControl ||
      (io.majorFunction = .internalDeviceControl && io.minorFunction ≠ IRP_MN_SCSI_CLASS)) &&
    io.ioControlCode = IOCTL_QCACHE_OFF

/-- `IOCTL_QCACHE_ON`: the request that sets `IsCached`. -/
def opens (io : IoStackLocation) : Bool :=
  (io.majorFunction = .deviceControl ||
    (io.majorFunction = .internalDeviceControl && io.minorFunction ≠ IRP_MN_SCSI_CLASS)) &&
  io.ioControlCode = IOCTL_QCACHE_ON

/-- Reads and writes, the requests that move data. -/
def isTransfer (io : IoStackLocation) : Bool := io.majorFunction = .read || io.majorFunction = .write

/-- The requests `QCacheQueueIrp` may queue lazily. -/
def lazyKind (io : IoStackLocation) : Bool :=
  io.majorFunction = .write || io.majorFunction = .flushBuffers

end IoStackLocation

/-- Where a dispatch routine leaves its request, and what it did to `IsCached`. -/
inductive Entered (sh : Shared) (c : Call) (sh' : Shared) : Pc → Prop
  | forward (cached : sh'.statistics.isCached = sh.statistics.isCached)
      (sized : c.irp.stack.isTransfer → sh.statistics.size = 0)
      (notFlush : c.irp.stack.majorFunction ≠ .flushBuffers)
      (closing : c.irp.stack.closes → sh.statistics.size = 0 ∧ c.irp.stack.majorFunction ≠ .shutdown) :
      Entered sh c sh' .forward
  | opened (opening : c.irp.stack.opens) (cached : sh'.statistics.isCached = true) :
      Entered sh c sh' (.complete STATUS_SUCCESS)
  | completed (status : NtStatus) (final : status ≠ STATUS_PENDING)
      (cached : sh'.statistics.isCached = sh.statistics.isCached)
      (notOpening : c.irp.stack.opens = false) (notClosing : c.irp.stack.closes = false)
      (empty : ntSuccess status → c.irp.stack.isTransfer → c.irp.stack.length = 0)
      (notFlush : c.irp.stack.majorFunction ≠ .flushBuffers) :
      Entered sh c sh' (.complete status)
  | scan (cached : sh'.statistics.isCached = sh.statistics.isCached)
      (reads : c.irp.stack.majorFunction = .read) (sized : sh.statistics.size ≠ 0)
      (nonempty : c.irp.stack.length ≠ 0)
      (aligned : c.irp.stack.byteOffset % 512 = 0 ∧ c.irp.stack.length % 512 = 0)
      (onMedia : endOfMedia sh.statistics.size c.irp.stack = false) : Entered sh c sh' .scanQueue
  | closed (closing : c.irp.stack.closes) (cached : sh'.statistics.isCached = false)
      (notTransfer : c.irp.stack.isTransfer = false) : Entered sh c sh' .queueIrp
  | queued (cached : sh'.statistics.isCached = sh.statistics.isCached)
      (notClosing : c.irp.stack.closes = false) (notOpening : c.irp.stack.opens = false)
      (notRead : c.irp.stack.majorFunction ≠ .read)
      (admitted : c.irp.stack.majorFunction = .write → sh.statistics.size ≠ 0 ∧
        c.irp.stack.length ≠ 0 ∧ endOfMedia sh.statistics.size c.irp.stack = false) :
      Entered sh c sh' .queueIrp

/-- The effect of a dispatch routine on its call: where it stops, what it stores in the request. -/
def Call.afterEntry (c : Call) (pc : Pc) (information : ℕ) (deviceData : Option DeviceStatistics) : Call :=
  { c with pc, information, deviceData }

/-- Every step of the dispatch call `i`. -/
inductive CallStep (sh : Shared) (i : ℕ) (c : Call) (out : Outcome) : Shared → Call → Prop
  | entry {sh' : Shared} {pc : Pc} {information : ℕ} {deviceData : Option DeviceStatistics}
      (at_ : c.pc = .entry) (frame : Frame sh sh') (entered : Entered sh c sh' pc) :
      CallStep sh i c out sh' (c.afterEntry pc information deviceData)
  | forward (at_ : c.pc = .forward) : CallStep sh i c out sh (sendToNextDriver c out.lowerReturn)
  | complete {status : NtStatus} (at_ : c.pc = .complete status) :
      CallStep sh i c out sh (c.finish .dispatch status)
  | queueLazily (at_ : c.pc = .queueIrp) (cached : sh.statistics.isCached = true)
      (kind : c.irp.stack.lazyKind) : CallStep sh i c out sh (c.goto .testMemory)
  | bypass (at_ : c.pc = .queueIrp) :
      CallStep sh i c out sh ({ c with information := 0 }.goto .newItem)
  | refuse {sh' : Shared} (at_ : c.pc = .testMemory ∨ c.pc = .testSize ∨ c.pc = .testItems)
      (frame : Frame sh sh') (cached : sh'.statistics.isCached = sh.statistics.isCached) :
      CallStep sh i c out sh' ({ c with information := 0 }.goto .newItem)
  | memoryHigh (at_ : c.pc = .testMemory) : CallStep sh i c out sh (c.goto .testSize)
  | sizeBelow (at_ : c.pc = .testSize)
      (below : sh.statistics.writeQueueSize < sh.statistics.maxQueueSize) :
      CallStep sh i c out sh (c.goto .testItems)
  | itemsBelow (at_ : c.pc = .testItems)
      (below : sh.statistics.writeQueueItems < sh.statistics.maxQueueItems) :
      CallStep sh i c out { sh with lowMemCondition := false }
        ({ c with information := 0 }.goto .lazyNewItem)
  | noItem (at_ : c.pc = .newItem ∨ c.pc = .lazyNewItem) (noMemory : out.memory = false) :
      CallStep sh i c out sh (c.finish .dispatch STATUS_INSUFFICIENT_RESOURCES)
  | newItem (at_ : c.pc = .newItem) :
      CallStep sh i c out (sh.allocate (.item i)) (c.goto (.acquireLock (.new i)))
  | noLock {item : WriteQueueItem} (at_ : c.pc = .acquireLock item ∨ c.pc = .lazyAcquireLock item)
      (refused : sh.canAcquire out.lock = false) :
      CallStep sh i c out (sh.deleteItem i) (c.finish .dispatch STATUS_DELETE_PENDING)
  | acquireLock {item : WriteQueueItem} (at_ : c.pc = .acquireLock item)
      (granted : sh.canAcquire out.lock = true) :
      CallStep sh i c out sh.ioAcquireRemoveLock ({ c with pendingReturned := true }.goto
        (.insertTail { item with majorFunction := c.irp.stack.majorFunction, irp := some i }))
  | insertTail {item : WriteQueueItem} (at_ : c.pc = .insertTail item) :
      CallStep sh i c out (sh.insertTailList item sizeofWriteQueueItem) (c.goto .setEvent)
  | setEvent (at_ : c.pc = .setEvent) :
      CallStep sh i c out (sh.signal true) (c.goto (.returned STATUS_PENDING))
  | lazyNewItem (at_ : c.pc = .lazyNewItem) :
      CallStep sh i c out (sh.allocate (.item i)) (c.goto (.lazyAcquireLock (.new i)))
  | lazyAcquireWrite {item : WriteQueueItem} (at_ : c.pc = .lazyAcquireLock item)
      (granted : sh.canAcquire out.lock = true) (writes : c.irp.stack.majorFunction = .write) :
      CallStep sh i c out sh.ioAcquireRemoveLock (c.goto (.lazyMapMdl { item with
        majorFunction := c.irp.stack.majorFunction
        isLazy := true
        offset := c.irp.stack.byteOffset
        length := c.irp.stack.length }))
  | lazyAcquireFlush {item : WriteQueueItem} (at_ : c.pc = .lazyAcquireLock item)
      (granted : sh.canAcquire out.lock = true) (other : c.irp.stack.majorFunction ≠ .write) :
      CallStep sh i c out sh.ioAcquireRemoveLock (c.goto (.lazyInsertTail { item with
        majorFunction := c.irp.stack.majorFunction
        isLazy := true }))
  | lazyMapMdl {item : WriteQueueItem} (at_ : c.pc = .lazyMapMdl item) (mapped : out.memory = true) :
      CallStep sh i c out sh (c.goto (.lazyNewPayload item))
  | noMapping {item : WriteQueueItem} (at_ : c.pc = .lazyMapMdl item) (noMemory : out.memory = false) :
      CallStep sh i c out sh (c.finish .dispatch STATUS_INSUFFICIENT_RESOURCES)
  | lazyNewPayload {item : WriteQueueItem} (at_ : c.pc = .lazyNewPayload item) (allocated : out.memory = true) :
      CallStep sh i c out (sh.allocate (.payload i)) (c.goto (.lazyInsertTail { item with
        buffer := rtlCopyMemory item.buffer 0 c.buffer 0 c.irp.stack.length }))
  | noPayload {item : WriteQueueItem} (at_ : c.pc = .lazyNewPayload item)
      (noMemory : out.memory = false) :
      CallStep sh i c out (sh.deleteItem i) (c.finish .dispatch STATUS_INSUFFICIENT_RESOURCES)
  | lazyInsertTail {item : WriteQueueItem} (at_ : c.pc = .lazyInsertTail item) :
      CallStep sh i c out (sh.insertTailList item (sizeofWriteQueueItem + item.length))
        (c.goto .lazySetEvent)
  | lazySetEvent (at_ : c.pc = .lazySetEvent) :
      CallStep sh i c out (sh.signal true) (c.goto .lazyComplete)
  | lazyComplete {information : ℕ} (at_ : c.pc = .lazyComplete) :
      CallStep sh i c out sh ({ c with information }.finish .lazyWrite STATUS_SUCCESS)
  | scanForward {sh' : Shared} (at_ : c.pc = .scanQueue) (frame : Frame sh sh')
      (cached : sh'.statistics.isCached = sh.statistics.isCached)
      (noneFound : (scanWriteQueue c.irp.stack c.buffer sh.statistics sh.queue).anyFromWriteQueue = false) :
      CallStep sh i c out sh' ({ c with
        buffer := (scanWriteQueue c.irp.stack c.buffer sh.statistics sh.queue).buffer }.goto .forward)
  | scanFull {sh' : Shared} {clearIndex : ℕ} (at_ : c.pc = .scanQueue) (frame : Frame sh sh')
      (cached : sh'.statistics.isCached = sh.statistics.isCached)
      (noGap : rtlFindFirstRunClear (scanWriteQueue c.irp.stack c.buffer sh.statistics sh.queue).bitmap
        (c.irp.stack.length / 512) = (clearIndex, 0)) :
      CallStep sh i c out sh' ({ c with
        buffer := (scanWriteQueue c.irp.stack c.buffer sh.statistics sh.queue).buffer
        information := c.irp.stack.length }.goto (.complete STATUS_SUCCESS))
  | scanGap {sh' : Shared} {clearIndex clearBits : ℕ} (at_ : c.pc = .scanQueue) (frame : Frame sh sh')
      (cached : sh'.statistics.isCached = sh.statistics.isCached)
      (gap : rtlFindFirstRunClear (scanWriteQueue c.irp.stack c.buffer sh.statistics sh.queue).bitmap
        (c.irp.stack.length / 512) = (clearIndex, clearBits)) (nonempty : clearBits ≠ 0) :
      CallStep sh i c out sh' ({ c with
        buffer := (scanWriteQueue c.irp.stack c.buffer sh.statistics sh.queue).buffer }.goto
          (.createScatter (scanWriteQueue c.irp.stack c.buffer sh.statistics sh.queue).bitmap clearIndex
            clearBits))
  | createScatter {bitmap : Bitmap} {clearIndex clearBits : ℕ}
      (at_ : c.pc = .createScatter bitmap clearIndex clearBits)
      (granted : sh.canAcquire out.lock = true) :
      CallStep sh i c out (sh.ioAcquireRemoveLock.allocate (.scatter i))
        ({ c with scatter := some ⟨1, STATUS_SUCCESS, 0⟩, pendingReturned := true }.goto
          (.split bitmap clearIndex clearBits 0))
  | noScatter {bitmap : Bitmap} {clearIndex clearBits : ℕ} {status : NtStatus}
      (at_ : c.pc = .createScatter bitmap clearIndex clearBits)
      (failed : (status = STATUS_INSUFFICIENT_RESOURCES ∧ out.memory = false) ∨
        (status = STATUS_DELETE_PENDING ∧ sh.canAcquire out.lock = false)) :
      CallStep sh i c out sh (c.goto (.complete status))
  | splitOn {sh' : Shared} {bitmap : Bitmap} {clearIndex clearBits splits nextIndex nextBits : ℕ}
      {scatter : ScatteredIrp} {pc : Pc} (at_ : c.pc = .split bitmap clearIndex clearBits splits)
      (live : c.scatter = some scatter) (frame : Frame sh sh')
      (cached : sh'.statistics.isCached = sh.statistics.isCached)
      (next : rtlFindNextForwardRunClear bitmap (c.irp.stack.length / 512) (clearIndex + clearBits) =
        (nextIndex, nextBits))
      (goes : (nextBits = 0 ∧ pc = .finishScatter (splits + 1)) ∨
        (nextBits ≠ 0 ∧ pc = .split bitmap nextIndex nextBits (splits + 1)))
      (memory : out.memory = true) :
      CallStep sh i c out sh' ({ c with
        scatter := some { scatter with scatterCount := scatter.scatterCount + 1 }
        lowerIrps := c.lowerIrps ++ [LowerIrp.gap c.irp.stack clearIndex clearBits] }.goto pc)
  | splitFail {bitmap : Bitmap} {clearIndex clearBits splits : ℕ} {scatter : ScatteredIrp}
      (at_ : c.pc = .split bitmap clearIndex clearBits splits) (live : c.scatter = some scatter)
      (noMemory : out.memory = false) :
      CallStep sh i c out sh
        ({ c with scatter := some { scatter with lastFailedStatus := STATUS_INSUFFICIENT_RESOURCES } }.goto
          (.finishScatter splits))
  | finishScatter {sh' : Shared} {splits : ℕ} {scatter : ScatteredIrp} (at_ : c.pc = .finishScatter splits)
      (live : c.scatter = some scatter) (frame : Frame sh sh')
      (cached : sh'.statistics.isCached = sh.statistics.isCached) :
      CallStep sh i c out (scatterComplete sh' i (c.goto (.returned STATUS_PENDING)) scatter).1
        (scatterComplete sh' i (c.goto (.returned STATUS_PENDING)) scatter).2

/-- What a dispatch routine does to the shared data and to its call. -/
def EntryStep (sh : Shared) (c : Call) (result : Shared × Call) : Prop :=
  ∃ pc information deviceData, result.2 = c.afterEntry pc information deviceData ∧
    Frame sh result.1 ∧ Entered sh c result.1 pc

private theorem qcacheRead_entry {sh : Shared} {c : Call} (out : Outcome)
    (major : c.irp.stack.majorFunction = .read) : EntryStep sh c (qcacheRead sh c out) := by
  have noOpen : c.irp.stack.opens = false := by simp [IoStackLocation.opens, major]
  have noClose : c.irp.stack.closes = false := by simp [IoStackLocation.closes, major]
  have noFlush : c.irp.stack.majorFunction ≠ .flushBuffers := by simp [major]
  unfold qcacheRead
  dsimp only
  split
  · next unsized =>
    exact ⟨_, _, _, rfl, .refl sh, .forward rfl (fun _ => unsized) noFlush fun _ => ⟨unsized, by simp [major]⟩⟩
  · next sized =>
    split
    · next empty =>
      exact ⟨_, _, _, rfl, by constructor <;> rfl,
        .completed _ (by decide) rfl noOpen noClose (fun _ _ => empty) noFlush⟩
    · next nonempty =>
      split
      · exact ⟨_, _, _, rfl, by constructor <;> rfl,
          .completed _ (by decide) rfl noOpen noClose (fun success => absurd success (by decide)) noFlush⟩
      · next aligned =>
        split
        · exact ⟨_, _, _, rfl, by constructor <;> rfl,
            .completed _ (by decide) rfl noOpen noClose (fun success => absurd success (by decide)) noFlush⟩
        · next inside =>
          split
          · exact ⟨_, _, _, rfl, by constructor <;> rfl,
              .scan rfl major sized nonempty (by omega) (by simpa using inside)⟩
          · exact ⟨_, _, _, rfl, by constructor <;> rfl,
              .completed _ (by decide) rfl noOpen noClose (fun success => absurd success (by decide)) noFlush⟩

private theorem qcacheWrite_entry {sh : Shared} {c : Call}
    (major : c.irp.stack.majorFunction = .write) : EntryStep sh c (qcacheWrite sh c) := by
  have noOpen : c.irp.stack.opens = false := by simp [IoStackLocation.opens, major]
  have noClose : c.irp.stack.closes = false := by simp [IoStackLocation.closes, major]
  have noFlush : c.irp.stack.majorFunction ≠ .flushBuffers := by simp [major]
  unfold qcacheWrite
  dsimp only
  split
  · next unsized =>
    exact ⟨_, _, _, rfl, .refl sh, .forward rfl (fun _ => unsized) noFlush fun _ => ⟨unsized, by simp [major]⟩⟩
  · next sized =>
    split
    · next empty =>
      exact ⟨_, _, _, rfl, by constructor <;> rfl,
        .completed _ (by decide) rfl noOpen noClose (fun _ _ => empty) noFlush⟩
    · next nonempty =>
      split
      · exact ⟨_, _, _, rfl, by constructor <;> rfl,
          .completed _ (by decide) rfl noOpen noClose (fun success => absurd success (by decide)) noFlush⟩
      · next inside =>
        exact ⟨_, _, _, rfl, by constructor <;> rfl, .queued rfl noClose noOpen (by simp [major])
          fun _ => ⟨sized, nonempty, by simpa using inside⟩⟩

private theorem qcacheDeviceControl_entry {sh : Shared} {c : Call}
    (major : c.irp.stack.majorFunction = .deviceControl ∨
      c.irp.stack.majorFunction = .internalDeviceControl) :
    EntryStep sh c (qcacheDeviceControl sh c) := by
  have noTransfer : c.irp.stack.isTransfer = false := by
    rcases major with major | major <;> simp [IoStackLocation.isTransfer, major]
  have noFlush : c.irp.stack.majorFunction ≠ .flushBuffers := by
    rcases major with major | major <;> simp [major]
  have noRead : c.irp.stack.majorFunction ≠ .read := by
    rcases major with major | major <;> simp [major]
  have noWrite : c.irp.stack.majorFunction ≠ .write := by
    rcases major with major | major <;> simp [major]
  have noShutdown : c.irp.stack.majorFunction ≠ .shutdown := by
    rcases major with major | major <;> simp [major]
  unfold qcacheDeviceControl
  dsimp only
  by_cases skipped : sh.statistics.size = 0 ∨
      (c.irp.stack.majorFunction = .internalDeviceControl ∧ c.irp.stack.minorFunction = IRP_MN_SCSI_CLASS)
  · rw [if_pos skipped]
    refine ⟨_, _, _, rfl, .refl sh, .forward rfl (by simp [noTransfer]) noFlush ?_⟩
    rintro closing
    rcases skipped with unsized | ⟨internal, scsi⟩
    · exact ⟨unsized, noShutdown⟩
    · simp [IoStackLocation.closes, internal, scsi] at closing
  · rw [if_neg skipped]
    have kind : (c.irp.stack.majorFunction = .deviceControl ||
        (c.irp.stack.majorFunction = .internalDeviceControl &&
          c.irp.stack.minorFunction ≠ IRP_MN_SCSI_CLASS)) = true := by
      rcases major with major | major
      · simp [major]
      · have notScsi : c.irp.stack.minorFunction ≠ IRP_MN_SCSI_CLASS := fun scsi =>
          skipped (.inr ⟨major, scsi⟩)
        simp [major, notScsi]
    have opens : c.irp.stack.opens = decide (c.irp.stack.ioControlCode = IOCTL_QCACHE_ON) := by
      rw [IoStackLocation.opens, kind, Bool.true_and]
    have closes : c.irp.stack.closes = decide (c.irp.stack.ioControlCode = IOCTL_QCACHE_OFF) := by
      rw [IoStackLocation.closes, kind, Bool.true_and]
      simp [noShutdown]
    split_ifs with data small on off flush access
    · exact ⟨_, _, _, rfl, .refl sh, .completed _ (by decide) rfl (by rw [opens, data]; decide)
        (by rw [closes, data]; decide) (fun success => absurd success (by decide)) noFlush⟩
    · exact ⟨_, _, _, rfl, .refl sh, .completed _ (by decide) rfl (by rw [opens, data]; decide)
        (by rw [closes, data]; decide) (by simp [noTransfer]) noFlush⟩
    · exact ⟨_, _, _, rfl, by constructor <;> rfl, .opened (by simp [opens, on]) rfl⟩
    · exact ⟨_, _, _, rfl, by constructor <;> rfl, .closed (by simp [closes, off]) rfl noTransfer⟩
    · exact ⟨_, _, _, rfl, .refl sh, .queued rfl (by simp [closes, off]) (by simp [opens, on]) noRead
        (fun writes => absurd writes noWrite)⟩
    · exact ⟨_, _, _, rfl, .refl sh, .queued rfl (by simp [closes, off]) (by simp [opens, on]) noRead
        (fun writes => absurd writes noWrite)⟩
    · exact ⟨_, _, _, rfl, .refl sh, .forward rfl (by simp [noTransfer]) noFlush
        (by simp [closes, off])⟩

private theorem dispatch_entry (sh : Shared) (c : Call) (out : Outcome) :
    EntryStep sh c (dispatch sh c out) := by
  unfold dispatch
  split
  · next major => exact qcacheRead_entry out major
  · next major => exact qcacheWrite_entry major
  · next major =>
    refine ⟨_, _, _, rfl, .refl sh, .queued rfl ?_ ?_ (by simp [major]) (by simp [major])⟩
    · simp [IoStackLocation.closes, major]
    · simp [IoStackLocation.opens, major]
  · next major =>
    refine ⟨_, _, _, rfl, by constructor <;> rfl, .closed ?_ rfl ?_⟩
    · simp [IoStackLocation.closes, major]
    · simp [IoStackLocation.isTransfer, major]
  · next major => exact qcacheDeviceControl_entry (.inl major)
  · next major => exact qcacheDeviceControl_entry (.inr major)
  · next major =>
    refine ⟨_, _, _, rfl, .refl sh, .forward rfl ?_ (by simp [major]) ?_⟩
    · simp [IoStackLocation.isTransfer, major]
    · simp [IoStackLocation.closes, major]
  · next major =>
    refine ⟨_, _, _, rfl, .refl sh, .forward rfl ?_ (by simp [major]) ?_⟩
    · simp [IoStackLocation.isTransfer, major]
    · simp [IoStackLocation.closes, major]

private theorem scan_cases {sh : Shared} {i : ℕ} {c : Call} {out : Outcome} (at_ : c.pc = .scanQueue) :
    CallStep sh i c out (qcacheReadScan sh c).1 (qcacheReadScan sh c).2 := by
  obtain ⟨requests, bytes, statistics⟩ :=
    scanWriteQueue_statistics c.irp.stack c.buffer sh.statistics sh.queue
  unfold qcacheReadScan
  dsimp only
  rw [statistics]
  split
  · next found =>
    split
    · next noGap => exact .scanFull at_ (by constructor <;> rfl) rfl (Prod.ext rfl noGap)
    · next gap => exact .scanGap at_ (by constructor <;> rfl) rfl rfl gap
  · next noneFound => exact .scanForward at_ (by constructor <;> rfl) rfl (by simpa using noneFound)

private theorem split_cases {sh : Shared} {i : ℕ} {c : Call} {out : Outcome} {bitmap : Bitmap}
    {clearIndex clearBits splits : ℕ} {scatter : ScatteredIrp}
    (at_ : c.pc = .split bitmap clearIndex clearBits splits) (live : c.scatter = some scatter) :
    CallStep sh i c out
      (qcacheReadSplit sh c scatter bitmap clearIndex clearBits splits out.memory).1
      (qcacheReadSplit sh c scatter bitmap clearIndex clearBits splits out.memory).2 := by
  unfold qcacheReadSplit
  dsimp only
  split
  · next memory =>
    split
    · next last =>
      exact .splitOn at_ live (by constructor <;> rfl) rfl (Prod.ext rfl rfl) (.inl ⟨last, rfl⟩) memory
    · next more =>
      exact .splitOn at_ live (by constructor <;> rfl) rfl (Prod.ext rfl rfl) (.inr ⟨more, rfl⟩) memory
  · next noMemory => exact .splitFail at_ live (by simpa using noMemory)

/-- `CallStep` is complete: every step of a dispatch call is one of its cases. -/
theorem callStep_cases {sh : Shared} {i : ℕ} {c : Call} {out : Outcome} {result : Shared × Call}
    (moved : callStep sh i c out = some result) : CallStep sh i c out result.1 result.2 := by
  unfold callStep at moved
  cases at_ : c.pc with
  | entry =>
    simp only [at_, Option.some.injEq] at moved
    subst moved
    obtain ⟨pc, information, deviceData, same, frame, entered⟩ := dispatch_entry sh c out
    rw [same]
    exact .entry at_ frame entered
  | forward =>
    simp only [at_, Option.some.injEq] at moved
    subst moved
    exact .forward at_
  | complete status =>
    simp only [at_, Option.some.injEq] at moved
    subst moved
    exact .complete at_
  | returned status => simp [at_] at moved
  | queueIrp =>
    simp only [at_] at moved
    split at moved
    · next admitted =>
      obtain rfl := Option.some.inj moved
      exact .queueLazily at_ admitted.1 (by simpa [IoStackLocation.lazyKind] using admitted.2)
    · obtain rfl := Option.some.inj moved
      exact .bypass at_
  | testMemory =>
    simp only [at_] at moved
    split at moved <;> obtain rfl := Option.some.inj moved
    · exact .memoryHigh at_
    · exact .refuse (.inl at_) (by constructor <;> rfl) rfl
  | testSize =>
    simp only [at_] at moved
    split at moved <;> obtain rfl := Option.some.inj moved
    · next below => exact .sizeBelow at_ below
    · exact .refuse (.inr (.inl at_)) (by constructor <;> rfl) rfl
  | testItems =>
    simp only [at_] at moved
    split at moved <;> obtain rfl := Option.some.inj moved
    · next below => exact .itemsBelow at_ below
    · exact .refuse (.inr (.inr at_)) (by constructor <;> rfl) rfl
  | newItem =>
    simp only [at_] at moved
    split at moved <;> obtain rfl := Option.some.inj moved
    · exact .newItem at_
    · next noMemory => exact .noItem (.inl at_) (by simpa using noMemory)
  | acquireLock item =>
    simp only [at_] at moved
    split at moved <;> obtain rfl := Option.some.inj moved
    · next granted => exact .acquireLock at_ granted
    · next refused => exact .noLock (.inl at_) (by simpa using refused)
  | insertTail item =>
    simp only [at_, Option.some.injEq] at moved
    subst moved
    exact .insertTail at_
  | setEvent =>
    simp only [at_, Option.some.injEq] at moved
    subst moved
    exact .setEvent at_
  | lazyNewItem =>
    simp only [at_] at moved
    split at moved <;> obtain rfl := Option.some.inj moved
    · exact .lazyNewItem at_
    · next noMemory => exact .noItem (.inr at_) (by simpa using noMemory)
  | lazyAcquireLock item =>
    simp only [at_] at moved
    split at moved
    · next granted =>
      split at moved <;> obtain rfl := Option.some.inj moved
      · next writes => exact .lazyAcquireWrite at_ granted writes
      · next other => exact .lazyAcquireFlush at_ granted other
    · next refused =>
      obtain rfl := Option.some.inj moved
      exact .noLock (.inr at_) (by simpa using refused)
  | lazyMapMdl item =>
    simp only [at_] at moved
    split at moved <;> obtain rfl := Option.some.inj moved
    · next mapped => exact .lazyMapMdl at_ mapped
    · next noMemory => exact .noMapping at_ (by simpa using noMemory)
  | lazyNewPayload item =>
    simp only [at_] at moved
    split at moved <;> obtain rfl := Option.some.inj moved
    · next allocated => exact .lazyNewPayload at_ allocated
    · next noMemory => exact .noPayload at_ (by simpa using noMemory)
  | lazyInsertTail item =>
    simp only [at_, Option.some.injEq] at moved
    subst moved
    exact .lazyInsertTail at_
  | lazySetEvent =>
    simp only [at_, Option.some.injEq] at moved
    subst moved
    exact .lazySetEvent at_
  | lazyComplete =>
    simp only [at_, Option.some.injEq] at moved
    subst moved
    exact .lazyComplete at_
  | scanQueue =>
    simp only [at_, Option.some.injEq] at moved
    subst moved
    exact scan_cases at_
  | createScatter bitmap clearIndex clearBits =>
    simp only [at_] at moved
    split at moved
    · next granted =>
      split at moved <;> obtain rfl := Option.some.inj moved
      · exact .createScatter at_ granted
      · next noMemory =>
        have same : sh.ioAcquireRemoveLock.ioReleaseRemoveLock = sh := by simp
        rw [same]
        exact .noScatter at_ (.inl ⟨rfl, by simpa using noMemory⟩)
    · next refused =>
      obtain rfl := Option.some.inj moved
      exact .noScatter at_ (.inr ⟨rfl, by simpa using refused⟩)
  | split bitmap clearIndex clearBits splits =>
    simp only [at_, Option.map_eq_some_iff] at moved
    obtain ⟨scatter, live, rfl⟩ := moved
    exact split_cases at_ live
  | finishScatter splits =>
    simp only [at_, Option.map_eq_some_iff] at moved
    obtain ⟨scatter, live, rfl⟩ := moved
    exact .finishScatter at_ live (by constructor <;> rfl) rfl

namespace CallStep

variable {sh sh' : Shared} {i : ℕ} {c c' : Call} {out : Outcome}

/-- A dispatch call that has returned takes no further step. -/
theorem not_returned (moved : CallStep sh i c out sh' c') (status : NtStatus) : c.pc ≠ .returned status := by
  intro at_
  cases moved with
  | refuse here => simp [at_] at here
  | noItem here => simp [at_] at here
  | noLock here => simp [at_] at here
  | _ here => rw [at_] at here; contradiction

/-- Dispatch calls leave the disk, the known size, the worker's log and its shutdown flag alone. -/
theorem outer (moved : CallStep sh i c out sh' c') : OuterFrame sh sh' := by
  cases moved with
  | entry _ frame => exact frame.toOuter
  | refuse _ frame => exact frame.toOuter
  | scanForward _ frame => exact frame.toOuter
  | scanFull _ frame => exact frame.toOuter
  | scanGap _ frame => exact frame.toOuter
  | splitOn _ _ frame => exact frame.toOuter
  | finishScatter _ _ frame => exact frame.toOuter.trans (.scatterComplete _ _ _ _)
  | _ => constructor <;> rfl

theorem of_setEvent (moved : CallStep sh i c out sh' c') (at_ : c.pc = .setEvent) :
    sh' = sh.signal true ∧ c' = c.goto (.returned STATUS_PENDING) := by
  cases moved with
  | setEvent => exact ⟨rfl, rfl⟩
  | refuse here => simp [at_] at here
  | noItem here => simp [at_] at here
  | noLock here => simp [at_] at here
  | _ here => rw [at_] at here; contradiction

theorem of_lazySetEvent (moved : CallStep sh i c out sh' c') (at_ : c.pc = .lazySetEvent) :
    sh' = sh.signal true ∧ c' = c.goto .lazyComplete := by
  cases moved with
  | lazySetEvent => exact ⟨rfl, rfl⟩
  | refuse here => simp [at_] at here
  | noItem here => simp [at_] at here
  | noLock here => simp [at_] at here
  | _ here => rw [at_] at here; contradiction

theorem of_lazyComplete (moved : CallStep sh i c out sh' c') (at_ : c.pc = .lazyComplete) :
    sh' = sh ∧ ∃ information, c' = { c with information }.finish .lazyWrite STATUS_SUCCESS := by
  cases moved with
  | lazyComplete => exact ⟨rfl, _, rfl⟩
  | refuse here => simp [at_] at here
  | noItem here => simp [at_] at here
  | noLock here => simp [at_] at here
  | _ here => rw [at_] at here; contradiction

theorem of_insertTail {item : WriteQueueItem} (moved : CallStep sh i c out sh' c')
    (at_ : c.pc = .insertTail item) :
    sh' = sh.insertTailList item sizeofWriteQueueItem ∧ c' = c.goto .setEvent := by
  cases moved with
  | insertTail here =>
    obtain rfl := Pc.insertTail.inj (at_.symm.trans here)
    exact ⟨rfl, rfl⟩
  | refuse here => simp [at_] at here
  | noItem here => simp [at_] at here
  | noLock here => simp [at_] at here
  | _ here => rw [at_] at here; contradiction

theorem of_lazyInsertTail {item : WriteQueueItem} (moved : CallStep sh i c out sh' c')
    (at_ : c.pc = .lazyInsertTail item) :
    sh' = sh.insertTailList item (sizeofWriteQueueItem + item.length) ∧ c' = c.goto .lazySetEvent := by
  cases moved with
  | lazyInsertTail here =>
    obtain rfl := Pc.lazyInsertTail.inj (at_.symm.trans here)
    exact ⟨rfl, rfl⟩
  | refuse here => simp [at_] at here
  | noItem here => simp [at_] at here
  | noLock here => simp [at_] at here
  | _ here => rw [at_] at here; contradiction

/-- The two places that mark a request pending. -/
theorem pendingReturned (moved : CallStep sh i c out sh' c') : c'.pendingReturned = c.pendingReturned ∨
    (∃ item, c'.pc = .insertTail item) ∨ ∃ bitmap index bits, c.pc = .createScatter bitmap index bits := by
  cases moved with
  | acquireLock => exact .inr (.inl ⟨_, rfl⟩)
  | createScatter at_ => exact .inr (.inr ⟨_, _, _, at_⟩)
  | finishScatter => left; simp
  | _ => left; rfl

/-- A step completes the request at most once, and as a lazy write only past its insertion. -/
theorem completions (moved : CallStep sh i c out sh' c') : c'.completions = c.completions ∨
    ∃ completion, c'.completions = c.completions ++ [completion] ∧ (completion.site = .dispatch ∨
      completion.site = .scatter ∨ c.pc = .lazyComplete ∧ completion.site = .lazyWrite) := by
  cases moved with
  | complete => exact .inr ⟨_, rfl, .inl rfl⟩
  | noItem => exact .inr ⟨_, rfl, .inl rfl⟩
  | noLock => exact .inr ⟨_, rfl, .inl rfl⟩
  | noMapping => exact .inr ⟨_, rfl, .inl rfl⟩
  | noPayload => exact .inr ⟨_, rfl, .inl rfl⟩
  | lazyComplete at_ => exact .inr ⟨_, rfl, .inr (.inr ⟨at_, rfl⟩)⟩
  | @finishScatter sh' splits scatter =>
    rcases scatterComplete_completions sh' i (c.goto (.returned STATUS_PENDING)) scatter with
      same | ⟨completion, added, site⟩
    · exact .inl same
    · exact .inr ⟨completion, added, .inr (.inl site)⟩
  | _ => exact .inl rfl

/-- The points past a lazy insertion are entered through it. -/
theorem to_lazy (moved : CallStep sh i c out sh' c') (arrives : c'.pc = .lazySetEvent ∨ c'.pc = .lazyComplete) :
    (∃ item, c.pc = .lazyInsertTail item) ∨ c.pc = .lazySetEvent := by
  cases moved with
  | lazyInsertTail at_ => exact .inl ⟨_, at_⟩
  | lazySetEvent at_ => exact .inr at_
  | entry _ _ entered => cases entered <;> simp [Call.afterEntry] at arrives
  | splitOn _ _ _ _ _ goes => rcases goes with ⟨_, rfl⟩ | ⟨_, rfl⟩ <;> simp at arrives
  | finishScatter => simp at arrives
  | forward => simp [sendToNextDriver] at arrives
  | _ => simp at arrives

/-- A dispatch call touches the queue and its log in the two insertions only. -/
theorem queue_cases (moved : CallStep sh i c out sh' c') :
    (QueueFrame sh sh' ∧ sh'.history = sh.history) ∨
      ∃ item charge, sh' = sh.insertTailList item charge ∧
        ((c.pc = .insertTail item ∧ charge = sizeofWriteQueueItem ∧ c' = c.goto .setEvent) ∨
          (c.pc = .lazyInsertTail item ∧ charge = sizeofWriteQueueItem + item.length ∧
            c' = c.goto .lazySetEvent)) := by
  cases moved with
  | insertTail at_ => exact .inr ⟨_, _, rfl, .inl ⟨at_, rfl, rfl⟩⟩
  | lazyInsertTail at_ => exact .inr ⟨_, _, rfl, .inr ⟨at_, rfl, rfl⟩⟩
  | entry _ frame => exact .inl ⟨frame.toQueue, frame.history⟩
  | refuse _ frame => exact .inl ⟨frame.toQueue, frame.history⟩
  | scanForward _ frame => exact .inl ⟨frame.toQueue, frame.history⟩
  | scanFull _ frame => exact .inl ⟨frame.toQueue, frame.history⟩
  | scanGap _ frame => exact .inl ⟨frame.toQueue, frame.history⟩
  | splitOn _ _ frame => exact .inl ⟨frame.toQueue, frame.history⟩
  | @finishScatter sh₁ _ scatter _ _ frame =>
    have after := QueueFrame.scatterComplete sh₁ i (c.goto (.returned STATUS_PENDING)) scatter
    refine .inl ⟨frame.toQueue.trans after, ?_⟩
    rw [scatterComplete_history, frame.history]
  | _ => exact .inl ⟨by constructor <;> rfl, rfl⟩

theorem irp (moved : CallStep sh i c out sh' c') : c'.irp = c.irp := by
  cases moved <;> try rfl
  case finishScatter => simp

end CallStep

end QueueCache
