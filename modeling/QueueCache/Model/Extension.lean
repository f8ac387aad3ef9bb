import Mathlib.Data.Finset.Basic
import QueueCache.Model.Irp

/-! # The device extension and what the parties share

The filter's state of one device: its statistics, the remove lock, the write queue with its event,
and the shutdown flag. Around it lie the pool blocks that are live, the disk below and a history of
what was linked, unlinked and sent down; the history is written by the model and read by no modelled
function. Pool blocks and queue items are named by the dispatch call they were allocated for, which
stands for their address. Counters are exact integers. What `WriteQueueItems` and `WriteQueueSize` count is
backed by live pool blocks and cannot reach the 64-bit bound; the other counters only grow, and the field
of the source holds what `wrap64` leaves of them.
-/

namespace QueueCache

/-- The fields of `DEVICE_STATISTICS` in their order. -/
structure DeviceStatistics where
  version : ℕ := 184
  isCached : Bool := false
  lastErrorCode : NtStatus := STATUS_SUCCESS
  size : ℤ := 0
  readRequests : ℤ := 0
  readBytes : ℤ := 0
  largestReadSize : ℕ := 0
  readRequestsReroutedToOriginal : ℤ := 0
  readBytesReroutedToOriginal : ℤ := 0
  readBytesFromOriginal : ℤ := 0
  readRequestsFromCache : ℤ := 0
  readBytesFromCache : ℤ := 0
  splitReads : ℤ := 0
  writeRequests : ℤ := 0
  writtenBytes : ℤ := 0
  largestWriteSize : ℕ := 0
  writeQueueItems : ℤ := 0
  writeQueueItemsTop : ℤ := 0
  writeQueueSize : ℤ := 0
  writeQueueSizeTop : ℤ := 0
  pagingPathCount : ℤ := 0
  lowMemQueued : ℤ := 0
  maxQueueItems : ℤ := 0
  maxQueueSize : ℤ := 0
deriving DecidableEq, Repr

def sizeofDeviceStatistics : ℕ := 184

/-- `sizeof(WRITE_QUEUE_ITEM)` with 64-bit pointers. -/
def sizeofWriteQueueItem : ℕ := 64

/-- A `WRITE_QUEUE_ITEM`. `irp` names the dispatch call whose request it points to; `isLazy` records
which of the two insertion paths made it and is read by no modelled function. -/
structure WriteQueueItem where
  addr : ℕ
  majorFunction : MajorFunction
  offset : ℤ
  length : ℕ
  buffer : Bytes
  irp : Option ℕ
  isLazy : Bool

/-- `new WRITE_QUEUE_ITEM`: the operator fills the block with zero bytes and no constructor runs. -/
def WriteQueueItem.new (addr : ℕ) : WriteQueueItem where
  addr := addr
  majorFunction := .other
  offset := 0
  length := 0
  buffer := fun _ => 0
  irp := none
  isLazy := false

structure RemoveLock where
  ioCount : ℤ := 0
  removed : Bool := false
deriving DecidableEq, Repr

structure DeviceExtension where
  statistics : DeviceStatistics := {}
  shutdownThread : Bool := false
  removeLock : RemoveLock := {}
  writeQueue : List WriteQueueItem := []
  writeQueueEvent : Bool := false

/-- Live pool allocations: items, payload copies and scatter objects. -/
inductive PoolBlock where
  | item (addr : ℕ)
  | payload (addr : ℕ)
  | scatter (addr : ℕ)
deriving DecidableEq, Repr

/-- A request the worker hands to the lower driver for the item at `item`. -/
structure LowerRequest where
  item : ℕ
  majorFunction : MajorFunction
  offset : ℤ
  length : ℕ
  data : Bytes
  writeThrough : Bool

/-- What was linked and, by address, unlinked, and what the worker sent down and got back, oldest
first. -/
structure History where
  inserted : List WriteQueueItem := []
  unlinked : List ℕ := []
  issued : List LowerRequest := []
  served : List (LowerRequest × IoStatusBlock) := []

structure Shared where
  extension : DeviceExtension := {}
  lowMemCondition : Bool := false
  pool : Finset PoolBlock := ∅
  disk : Bytes := fun _ => 0
  history : History := {}

namespace Shared

abbrev statistics (sh : Shared) : DeviceStatistics := sh.extension.statistics

abbrev queue (sh : Shared) : List WriteQueueItem := sh.extension.writeQueue

@[simp] theorem statistics_mk (extension : DeviceExtension) (lowMemCondition : Bool)
    (pool : Finset PoolBlock) (disk : Bytes) (history : History) :
    statistics ⟨extension, lowMemCondition, pool, disk, history⟩ = extension.statistics := rfl

@[simp] theorem queue_mk (extension : DeviceExtension) (lowMemCondition : Bool)
    (pool : Finset PoolBlock) (disk : Bytes) (history : History) :
    queue ⟨extension, lowMemCondition, pool, disk, history⟩ = extension.writeQueue := rfl

@[simp] def withStatistics (sh : Shared) (statistics : DeviceStatistics) : Shared :=
  { sh with extension := { sh.extension with statistics } }

@[simp] def withQueue (sh : Shared) (writeQueue : List WriteQueueItem) : Shared :=
  { sh with extension := { sh.extension with writeQueue } }

/-- `KeSetEvent` and the reset of an auto-reset wait, on `WriteQueueEvent`. -/
@[simp] def signal (sh : Shared) (signalled : Bool) : Shared :=
  { sh with extension := { sh.extension with writeQueueEvent := signalled } }

@[simp] def allocate (sh : Shared) (block : PoolBlock) : Shared :=
  { sh with pool := insert block sh.pool }

@[simp] def free (sh : Shared) (block : PoolBlock) : Shared :=
  { sh with pool := sh.pool.erase block }

/-- `IoAcquireRemoveLock` succeeds unless removal has begun; `granted` lets it fail at any time. -/
def canAcquire (sh : Shared) (granted : Bool) : Bool := granted && !sh.extension.removeLock.removed

@[simp] def ioAcquireRemoveLock (sh : Shared) : Shared :=
  { sh with extension.removeLock.ioCount := sh.extension.removeLock.ioCount + 1 }

@[simp] def ioReleaseRemoveLock (sh : Shared) : Shared :=
  { sh with extension.removeLock.ioCount := sh.extension.removeLock.ioCount - 1 }

/-- The lock section of both insertion paths, which differ in what they charge for the item. -/
def insertTailList (sh : Shared) (item : WriteQueueItem) (charge : ℤ) : Shared :=
  let statistics := sh.statistics
  let writeQueueSize := statistics.writeQueueSize + charge
  let writeQueueItems := statistics.writeQueueItems + 1
  { sh with
    extension := { sh.extension with
      writeQueue := sh.queue ++ [item]
      statistics := { statistics with
        writeQueueSize
        writeQueueItems
        writeQueueSizeTop :=
          if writeQueueSize > statistics.writeQueueSizeTop then writeQueueSize
          else statistics.writeQueueSizeTop
        writeQueueItemsTop :=
          if writeQueueItems > statistics.writeQueueItemsTop then writeQueueItems
          else statistics.writeQueueItemsTop } }
    history.inserted := sh.history.inserted ++ [item] }

/-- The lock section at the end of `QCacheDispatchQueuedItem`. -/
def removeEntryList (sh : Shared) (item : WriteQueueItem) : Shared :=
  let statistics := sh.statistics
  { sh with
    extension := { sh.extension with
      writeQueue := sh.queue.eraseP fun other => other.addr == item.addr
      statistics := { statistics with
        writeQueueSize := statistics.writeQueueSize - (sizeofWriteQueueItem + item.length)
        writeQueueItems := statistics.writeQueueItems - 1 } }
    history.unlinked := sh.history.unlinked ++ [item.addr] }

section insertTailList

variable (sh : Shared) (item : WriteQueueItem) (charge : ℤ)

@[simp] theorem insertTailList_queue : (sh.insertTailList item charge).queue = sh.queue ++ [item] := rfl

@[simp] theorem insertTailList_removeLock :
    (sh.insertTailList item charge).extension.removeLock = sh.extension.removeLock := rfl

@[simp] theorem insertTailList_pool : (sh.insertTailList item charge).pool = sh.pool := rfl

@[simp] theorem insertTailList_inserted :
    (sh.insertTailList item charge).history.inserted = sh.history.inserted ++ [item] := rfl

@[simp] theorem insertTailList_items :
    (sh.insertTailList item charge).statistics.writeQueueItems = sh.statistics.writeQueueItems + 1 := rfl

@[simp] theorem insertTailList_size :
    (sh.insertTailList item charge).statistics.writeQueueSize = sh.statistics.writeQueueSize + charge := rfl

/-- The two high-water marks follow the counters. -/
@[simp] theorem insertTailList_itemsTop :
    (sh.insertTailList item charge).statistics.writeQueueItemsTop =
      max sh.statistics.writeQueueItemsTop (sh.statistics.writeQueueItems + 1) := by
  unfold insertTailList
  dsimp only
  split <;> omega

@[simp] theorem insertTailList_sizeTop :
    (sh.insertTailList item charge).statistics.writeQueueSizeTop =
      max sh.statistics.writeQueueSizeTop (sh.statistics.writeQueueSize + charge) := by
  unfold insertTailList
  dsimp only
  split <;> omega

end insertTailList

section removeEntryList

variable (sh : Shared) (item : WriteQueueItem)

@[simp] theorem removeEntryList_items :
    (sh.removeEntryList item).statistics.writeQueueItems = sh.statistics.writeQueueItems - 1 := rfl

@[simp] theorem removeEntryList_size : (sh.removeEntryList item).statistics.writeQueueSize =
    sh.statistics.writeQueueSize - (sizeofWriteQueueItem + item.length) := rfl

/-- Unlinking the first entry leaves the others. -/
theorem removeEntryList_queue {rest : List WriteQueueItem} (head : sh.queue = item :: rest) :
    (sh.removeEntryList item).queue = rest := by
  change sh.queue.eraseP _ = rest
  rw [head, List.eraseP_cons_of_pos (by simp)]

end removeEntryList

/-- `delete item`, whose destructor deletes the payload. -/
@[simp] def deleteItem (sh : Shared) (addr : ℕ) : Shared := (sh.free (.payload addr)).free (.item addr)

end Shared

end QueueCache
