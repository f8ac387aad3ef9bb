import Mathlib.Data.List.Induction
import QueueCache.Model.Extension

/-! # The queue scan of a read

`QCacheRead` walks the write queue from its head under the queue lock. Every write item that overlaps
the read copies the overlap into the caller's buffer, over what an earlier item put there, and sets
one bit for each 512 bytes of it. All 64-bit sums and differences are computed as the code does,
with wraparound.
-/

namespace QueueCache

/-- The end-of-media check that reads and writes make with the same expression. -/
def endOfMedia (size : ℤ) (io : IoStackLocation) : Bool :=
  let highestByte := add64 io.byteOffset io.length
  decide (io.byteOffset ≥ size) || decide (highestByte ≤ 0) || decide (highestByte > size)

/-- The bytes `QCacheRead` allocates for the bitmap: `(Length >> 9) + sizeof (ULONG) - 1`. -/
def bitmapAllocation (io : IoStackLocation) : ℕ := io.length / 512 + 4 - 1

/-- The bytes of the 32-bit words that hold a bitmap of `size` bits. -/
def bitmapExtent (size : ℕ) : ℕ := (size + 31) / 32 * 4

/-- What the scan changes as it passes the items. -/
structure ScanState where
  buffer : Bytes
  bitmap : Bitmap
  anyFromWriteQueue : Bool
  statistics : DeviceStatistics

/-- The test and the loop body for one entry of the queue. -/
def scanEntry (io : IoStackLocation) (scan : ScanState) (item : WriteQueueItem) : ScanState :=
  if item.majorFunction = .write ∧ item.offset < add64 io.byteOffset io.length ∧
      add64 item.offset item.length > io.byteOffset then
    let startPos := max item.offset io.byteOffset
    let endPos := min (add64 item.offset item.length) (add64 io.byteOffset io.length)
    { buffer := rtlCopyMemory scan.buffer (sub64 startPos io.byteOffset) item.buffer
        (sub64 startPos item.offset) (sub64 endPos startPos)
      bitmap := rtlSetBits scan.bitmap (toUlong (sector (sub64 startPos io.byteOffset)))
        (toUlong (sector (sub64 endPos startPos)))
      anyFromWriteQueue := true
      statistics := { scan.statistics with
        readRequestsFromCache := scan.statistics.readRequestsFromCache + 1
        readBytesFromCache := scan.statistics.readBytesFromCache + sub64 endPos startPos } }
  else scan

/-- The scan starts from the caller's buffer and a cleared bitmap. -/
def scanWriteQueue (io : IoStackLocation) (buffer : Bytes) (statistics : DeviceStatistics)
    (queue : List WriteQueueItem) : ScanState :=
  queue.foldl (scanEntry io) ⟨buffer, fun _ => false, false, statistics⟩

/-- The scan counts what it served from the queue and leaves every other statistic alone. -/
theorem scanWriteQueue_statistics (io : IoStackLocation) (buffer : Bytes) (statistics : DeviceStatistics)
    (queue : List WriteQueueItem) :
    ∃ requests bytes, (scanWriteQueue io buffer statistics queue).statistics =
      { statistics with readRequestsFromCache := requests, readBytesFromCache := bytes } := by
  unfold scanWriteQueue
  induction queue using List.reverseRecOn with
  | nil => exact ⟨_, _, rfl⟩
  | append_singleton queue item ih =>
    obtain ⟨requests, bytes, statistics⟩ := ih
    rw [List.foldl_append, List.foldl_cons, List.foldl_nil, scanEntry]
    split
    · exact ⟨_, _, by rw [statistics]⟩
    · exact ⟨_, _, statistics⟩

end QueueCache
