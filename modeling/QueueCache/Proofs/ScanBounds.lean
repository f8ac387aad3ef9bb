import QueueCache.ToMathlib.Tally
import QueueCache.Model.Call

/-! # Ranges of reads, writes and the queue scan

Reads and writes share one check of their range, three comparisons over a sum that may wrap. It lets
through exactly the ranges that end inside the device and begin before its end, and so also a range that
begins before its start. For everything that has passed the check the sums and differences of the queue
scan are exact, and each copy and each run of bits stays where it belongs.
-/

namespace QueueCache

/-- The check, over the integers. -/
theorem endOfMedia_eq_false {size : ℤ} {io : IoStackLocation} (fits : size < 2 ^ 63) :
    endOfMedia size io = false ↔
      io.byteOffset < size ∧ 0 < io.byteOffset + io.length ∧ io.byteOffset + io.length ≤ size := by
  obtain ⟨low, high⟩ := io.byteOffset_range
  have short := io.length_lt
  have wrapped : add64 io.byteOffset io.length = io.byteOffset + io.length ∨
      (add64 io.byteOffset io.length < 0 ∧ size < io.byteOffset + io.length) := by
    by_cases inside : io.byteOffset + io.length < 2 ^ 63
    · left
      exact wrap64_of_range (by omega) inside
    · right
      rw [add64, wrap64, Int.bmod_eq_emod]
      split <;> omega
  simp only [endOfMedia, Bool.or_eq_false_iff, decide_eq_false_iff_not]
  omega

/-- The range lies on the device. -/
def IoStackLocation.onDevice (io : IoStackLocation) (size : ℤ) : Prop :=
  0 ≤ io.byteOffset ∧ io.byteOffset + io.length ≤ size

/-- The range begins before the start of the device and ends inside it. -/
def IoStackLocation.straddles (io : IoStackLocation) (size : ℤ) : Prop :=
  io.byteOffset < 0 ∧ 0 < io.byteOffset + io.length ∧ io.byteOffset + io.length ≤ size

instance (io : IoStackLocation) (size : ℤ) : Decidable (io.onDevice size) :=
  inferInstanceAs (Decidable (0 ≤ io.byteOffset ∧ io.byteOffset + io.length ≤ size))

instance (io : IoStackLocation) (size : ℤ) : Decidable (io.straddles size) :=
  inferInstanceAs (Decidable (io.byteOffset < 0 ∧ 0 < io.byteOffset + io.length ∧ io.byteOffset + io.length ≤ size))

/-- What passes the check lies on the device or straddles its start. -/
theorem endOfMedia_iff {size : ℤ} {io : IoStackLocation} (fits : size < 2 ^ 63) (nonempty : io.length ≠ 0) :
    endOfMedia size io = false ↔ io.onDevice size ∨ io.straddles size := by
  rw [endOfMedia_eq_false fits, IoStackLocation.onDevice, IoStackLocation.straddles]
  omega

theorem qcacheWrite_queueIrp {sh : Shared} {c : Call} (sized : sh.statistics.size ≠ 0)
    (nonempty : c.irp.stack.length ≠ 0) :
    (qcacheWrite sh c).2.pc = .queueIrp ↔ endOfMedia sh.statistics.size c.irp.stack = false := by
  unfold qcacheWrite
  dsimp only
  rw [if_neg sized, if_neg nonempty]
  cases endOfMedia sh.statistics.size c.irp.stack <;> simp

theorem qcacheRead_endOfMedia {sh : Shared} {c : Call} (out : Outcome) (sized : sh.statistics.size ≠ 0)
    (nonempty : c.irp.stack.length ≠ 0)
    (aligned : c.irp.stack.byteOffset % 512 = 0 ∧ c.irp.stack.length % 512 = 0) :
    (qcacheRead sh c out).2.pc ≠ .complete STATUS_END_OF_MEDIA ↔
      endOfMedia sh.statistics.size c.irp.stack = false := by
  have other : STATUS_INSUFFICIENT_RESOURCES ≠ STATUS_END_OF_MEDIA := by decide
  unfold qcacheRead
  dsimp only
  rw [if_neg sized, if_neg nonempty, if_neg (by omega)]
  cases endOfMedia sh.statistics.size c.irp.stack with
  | true => simp
  | false => cases out.memory <;> simp [other]

/-- Both range checks admit exactly the ranges on the device, but for those that straddle its start. -/
theorem range_admission (sh : Shared) (c : Call) (out : Outcome) (positive : 0 < sh.statistics.size)
    (fits : sh.statistics.size < 2 ^ 63) (nonempty : c.irp.stack.length ≠ 0) :
    (((qcacheWrite sh c).2.pc = .queueIrp ↔ c.irp.stack.onDevice sh.statistics.size) ↔
      ¬ c.irp.stack.straddles sh.statistics.size) ∧
    (c.irp.stack.byteOffset % 512 = 0 → c.irp.stack.length % 512 = 0 →
      (((qcacheRead sh c out).2.pc ≠ .complete STATUS_END_OF_MEDIA ↔ c.irp.stack.onDevice sh.statistics.size) ↔
        ¬ c.irp.stack.straddles sh.statistics.size)) := by
  have sized : sh.statistics.size ≠ 0 := by omega
  have exclusive : ¬ (c.irp.stack.onDevice sh.statistics.size ∧ c.irp.stack.straddles sh.statistics.size) := by
    rw [IoStackLocation.onDevice, IoStackLocation.straddles]
    omega
  have admits := endOfMedia_iff fits nonempty
  constructor
  · rw [qcacheWrite_queueIrp sized nonempty]
    tauto
  · intro offset length
    rw [qcacheRead_endOfMedia out sized nonempty ⟨offset, length⟩]
    tauto

/-- A device of 64 KiB. -/
def sizedShared : Shared where
  extension.statistics := { size := 65536 }

/-- A write of the last two sectors of that device, and one of its sectors that begins before its start. -/
def lastSectors : Irp where
  stack := { majorFunction := .write, byteOffset := 64512, length := 1024 }

def beforeStart : Irp where
  stack := { majorFunction := .write, byteOffset := -512, length := 1024 }

theorem range_admission_lastSectors :
    ((qcacheWrite sizedShared (.receive lastSectors)).2.pc = .queueIrp ↔ lastSectors.stack.onDevice 65536) ∧
    ((qcacheRead sizedShared (.receive lastSectors) {}).2.pc ≠ .complete STATUS_END_OF_MEDIA ↔
      lastSectors.stack.onDevice 65536) := by
  obtain ⟨write, read⟩ := range_admission sizedShared (.receive lastSectors) {} (by decide) (by decide) (by decide)
  exact ⟨write.mpr (by decide), (read (by decide) (by decide)).mpr (by decide)⟩

/-- A write that begins before the start of the device is passed on. -/
theorem range_admission_beforeStart : ¬ ∀ (sh : Shared) (c : Call), 0 < sh.statistics.size →
    sh.statistics.size < 2 ^ 63 → c.irp.stack.length ≠ 0 →
    ((qcacheWrite sh c).2.pc = .queueIrp ↔ c.irp.stack.onDevice sh.statistics.size) := by
  intro claimed
  have admitted : (qcacheWrite sizedShared (.receive beforeStart)).2.pc = .queueIrp := by
    rw [qcacheWrite_queueIrp (by decide) (by decide)]
    decide
  have outside := (claimed sizedShared (.receive beforeStart) (by decide) (by decide) (by decide)).mp admitted
  revert outside
  decide

/-- The item copies a write that passed the checks of `QCacheWrite`. -/
def WriteQueueItem.Accepted (size : ℤ) (item : WriteQueueItem) : Prop :=
  ∃ io : IoStackLocation, io.length ≠ 0 ∧ endOfMedia size io = false ∧ item.offset = io.byteOffset ∧
    item.length = io.length

/-- The item of a held request or of a flush: no range and no buffer. -/
def WriteQueueItem.Empty (item : WriteQueueItem) : Prop := item.offset = 0 ∧ item.length = 0

/-- A read that passed the checks of `QCacheRead`. -/
structure IoStackLocation.ReadAccepted (io : IoStackLocation) (size : ℤ) : Prop where
  reads : io.majorFunction = .read
  nonempty : io.length ≠ 0
  offset : io.byteOffset % 512 = 0
  length : io.length % 512 = 0
  onMedia : endOfMedia size io = false

/-- The scan takes its copy for the item. -/
def WriteQueueItem.overlaps (item : WriteQueueItem) (io : IoStackLocation) : Prop :=
  item.majorFunction = .write ∧ item.offset < add64 io.byteOffset io.length ∧
    add64 item.offset item.length > io.byteOffset

instance (item : WriteQueueItem) (io : IoStackLocation) : Decidable (item.overlaps io) :=
  inferInstanceAs (Decidable (item.majorFunction = .write ∧ item.offset < add64 io.byteOffset io.length ∧
    add64 item.offset item.length > io.byteOffset))

/-- `start_pos` and `end_pos` of the scan. -/
def WriteQueueItem.startPos (item : WriteQueueItem) (io : IoStackLocation) : ℤ := max item.offset io.byteOffset

def WriteQueueItem.endPos (item : WriteQueueItem) (io : IoStackLocation) : ℤ :=
  min (add64 item.offset item.length) (add64 io.byteOffset io.length)

theorem scanEntry_overlaps (io : IoStackLocation) (scan : ScanState) (item : WriteQueueItem) :
    scanEntry io scan item = if item.overlaps io then
      { buffer := rtlCopyMemory scan.buffer (sub64 (item.startPos io) io.byteOffset) item.buffer
          (sub64 (item.startPos io) item.offset) (sub64 (item.endPos io) (item.startPos io))
        bitmap := rtlSetBits scan.bitmap (toUlong (sector (sub64 (item.startPos io) io.byteOffset)))
          (toUlong (sector (sub64 (item.endPos io) (item.startPos io))))
        anyFromWriteQueue := true
        statistics := { scan.statistics with
          readRequestsFromCache := scan.statistics.readRequestsFromCache + 1
          readBytesFromCache := scan.statistics.readBytesFromCache + sub64 (item.endPos io) (item.startPos io) } }
    else scan := rfl

/-- The sums of the test for one item do not overflow. -/
structure SumsExact (io : IoStackLocation) (item : WriteQueueItem) : Prop where
  readEnd : add64 io.byteOffset io.length = io.byteOffset + io.length
  itemEnd : add64 item.offset item.length = item.offset + item.length

/-- The loop body for one item: no difference overflows, the copy has a length that is not negative, a
destination inside the caller's buffer and a source inside the payload, and the bits lie in the bitmap. -/
structure CopyInBounds (io : IoStackLocation) (item : WriteQueueItem) : Prop where
  destination : sub64 (item.startPos io) io.byteOffset = item.startPos io - io.byteOffset
  source : sub64 (item.startPos io) item.offset = item.startPos io - item.offset
  extent : sub64 (item.endPos io) (item.startPos io) = item.endPos io - item.startPos io
  nonneg : 0 ≤ item.endPos io - item.startPos io
  inBuffer : 0 ≤ item.startPos io - io.byteOffset ∧
    item.startPos io - io.byteOffset + (item.endPos io - item.startPos io) ≤ io.length
  inPayload : 0 ≤ item.startPos io - item.offset ∧
    item.startPos io - item.offset + (item.endPos io - item.startPos io) ≤ item.length
  index : (toUlong (sector (item.startPos io - io.byteOffset)) : ℤ) = sector (item.startPos io - io.byteOffset)
  count : (toUlong (sector (item.endPos io - item.startPos io)) : ℤ) = sector (item.endPos io - item.startPos io)
  inBitmap : toUlong (sector (item.startPos io - io.byteOffset)) +
    toUlong (sector (item.endPos io - item.startPos io)) ≤ io.length / 512

theorem sub64_of_range {a b : ℤ} (low : -2 ^ 63 ≤ a - b) (high : a - b < 2 ^ 63) : sub64 a b = a - b :=
  wrap64_of_range low high

section InBounds

variable {size : ℤ} {io : IoStackLocation} {item : WriteQueueItem}

/-- The end of a range that passed the check is computed exactly. -/
theorem add64_of_onMedia (fits : size < 2 ^ 63) (onMedia : endOfMedia size io = false) :
    add64 io.byteOffset io.length = io.byteOffset + io.length := by
  obtain ⟨-, -, below⟩ := (endOfMedia_eq_false fits).mp onMedia
  obtain ⟨low, -⟩ := io.byteOffset_range
  exact wrap64_of_range (by omega) (by omega)

theorem sumsExact (fits : size < 2 ^ 63) (onMedia : endOfMedia size io = false)
    (queued : item.Accepted size ∨ item.Empty) : SumsExact io item where
  readEnd := add64_of_onMedia fits onMedia
  itemEnd := by
    obtain ⟨write, -, inside, offset, length⟩ | ⟨offset, length⟩ := queued
    · rw [offset, length]
      exact add64_of_onMedia fits inside
    · rw [offset, length]
      rfl

/-- The range of a queued item, over the integers. -/
theorem item_range (fits : size < 2 ^ 63) (queued : item.Accepted size ∨ item.Empty) :
    -2 ^ 63 ≤ item.offset ∧ item.offset + item.length < 2 ^ 63 ∧ (item.length : ℤ) < 2 ^ 32 ∧
      0 ≤ item.offset + item.length := by
  obtain ⟨write, -, inside, offset, length⟩ | ⟨offset, length⟩ := queued
  · obtain ⟨-, above, below⟩ := (endOfMedia_eq_false fits).mp inside
    obtain ⟨low, -⟩ := write.byteOffset_range
    have short := write.length_lt
    rw [offset, length]
    omega
  · rw [offset, length]
    decide

theorem copyInBounds (fits : size < 2 ^ 63) (accepted : io.ReadAccepted size)
    (queued : item.Accepted size ∨ item.Empty) (overlap : item.overlaps io) : CopyInBounds io item := by
  have sums := sumsExact fits accepted.onMedia queued
  obtain ⟨low, high, short, -⟩ := item_range fits queued
  obtain ⟨-, before, after⟩ := overlap
  obtain ⟨-, above, below⟩ := (endOfMedia_eq_false fits).mp accepted.onMedia
  obtain ⟨readLow, -⟩ := io.byteOffset_range
  have readShort := io.length_lt
  rw [sums.readEnd] at before
  rw [sums.itemEnd] at after
  have inBuffer : 0 ≤ item.startPos io - io.byteOffset ∧
      item.startPos io - io.byteOffset + (item.endPos io - item.startPos io) ≤ io.length := by
    rw [WriteQueueItem.startPos, WriteQueueItem.endPos, sums.readEnd, sums.itemEnd]
    omega
  have inPayload : 0 ≤ item.startPos io - item.offset ∧
      item.startPos io - item.offset + (item.endPos io - item.startPos io) ≤ item.length := by
    rw [WriteQueueItem.startPos, WriteQueueItem.endPos, sums.readEnd, sums.itemEnd]
    omega
  have nonneg : 0 ≤ item.endPos io - item.startPos io := by
    rw [WriteQueueItem.startPos, WriteQueueItem.endPos, sums.readEnd, sums.itemEnd]
    omega
  have index : (toUlong (sector (item.startPos io - io.byteOffset)) : ℤ) =
      sector (item.startPos io - io.byteOffset) := by
    rw [toUlong_of_range] <;> simp only [sector] <;> omega
  have count : (toUlong (sector (item.endPos io - item.startPos io)) : ℤ) =
      sector (item.endPos io - item.startPos io) := by
    rw [toUlong_of_range] <;> simp only [sector] <;> omega
  refine ⟨sub64_of_range ?_ ?_, sub64_of_range ?_ ?_, sub64_of_range ?_ ?_, nonneg, inBuffer, inPayload, index,
    count, ?_⟩
  all_goals try omega
  simp only [sector] at index count ⊢
  omega

end InBounds

/-- The bytes the scan copies from the item. -/
def WriteQueueItem.copied (item : WriteQueueItem) (io : IoStackLocation) : ℤ :=
  if item.overlaps io then item.endPos io - item.startPos io else 0

/-- The scan counts each item it copies from, and the bytes it copies. -/
theorem scan_counters {size : ℤ} {io : IoStackLocation} {queue : List WriteQueueItem} (fits : size < 2 ^ 63)
    (accepted : io.ReadAccepted size) (queued : ∀ item ∈ queue, item.Accepted size ∨ item.Empty) (buffer : Bytes)
    (statistics : DeviceStatistics) :
    (scanWriteQueue io buffer statistics queue).statistics.readBytesFromCache =
        statistics.readBytesFromCache + queue.tally (fun item => item.copied io) ∧
      (scanWriteQueue io buffer statistics queue).statistics.readRequestsFromCache =
        statistics.readRequestsFromCache + queue.countP (fun item => item.overlaps io) := by
  rw [scanWriteQueue]
  induction queue using List.reverseRecOn with
  | nil => simp
  | append_singleton queue item ih =>
    obtain ⟨bytes, requests⟩ := ih fun other member => queued other (List.mem_append_left _ member)
    have last := queued item (List.mem_append_right _ (List.mem_singleton_self _))
    rw [List.foldl_append, List.foldl_cons, List.foldl_nil, scanEntry_overlaps, List.tally_append, List.countP_append,
      List.tally_cons, List.tally_nil]
    by_cases overlap : item.overlaps io
    · have extent := (copyInBounds fits accepted last overlap).extent
      have copied : item.copied io = item.endPos io - item.startPos io := if_pos overlap
      simp only [bytes, requests, extent, copied, List.countP_cons, List.countP_nil, overlap,
        decide_true, reduceIte]
      constructor <;> push_cast <;> omega
    · have copied : item.copied io = 0 := if_neg overlap
      simp only [bytes, requests, copied, List.countP_cons, List.countP_nil, overlap,
        decide_false, Bool.false_eq_true, reduceIte]
      constructor <;> push_cast <;> omega

theorem copied_bounds {size : ℤ} {io : IoStackLocation} {item : WriteQueueItem} (fits : size < 2 ^ 63)
    (accepted : io.ReadAccepted size) (queued : item.Accepted size ∨ item.Empty) :
    0 ≤ item.copied io ∧ item.copied io ≤ io.length := by
  rw [WriteQueueItem.copied]
  split
  · next overlap =>
    obtain ⟨-, -, -, nonneg, ⟨low, high⟩, -⟩ := copyInBounds fits accepted queued overlap
    omega
  · omega

/-- For every read and every queue whose items passed the checks against the same size, the scan computes
exactly and stays inside the caller's buffer, the payloads and the bitmap, and the bitmap's words lie inside
its allocation. The two statistics it adds to grow by at most one and the read's length for each item. -/
theorem scan_in_bounds (size : ℤ) (io : IoStackLocation) (queue : List WriteQueueItem) (fits : size < 2 ^ 63)
    (accepted : io.ReadAccepted size) (queued : ∀ item ∈ queue, item.Accepted size ∨ item.Empty) :
    (∀ item ∈ queue, SumsExact io item ∧ (item.overlaps io → CopyInBounds io item)) ∧
      bitmapExtent (io.length / 512) ≤ bitmapAllocation io ∧
      ∀ buffer statistics,
        (scanWriteQueue io buffer statistics queue).statistics.readBytesFromCache ≤
          statistics.readBytesFromCache + queue.length * io.length ∧
        (scanWriteQueue io buffer statistics queue).statistics.readRequestsFromCache ≤
          statistics.readRequestsFromCache + queue.length := by
  refine ⟨fun item member => ?_, ?_, fun buffer statistics => ?_⟩
  · exact ⟨sumsExact fits accepted.onMedia (queued item member), copyInBounds fits accepted (queued item member)⟩
  · rw [bitmapExtent, bitmapAllocation]
    omega
  · obtain ⟨bytes, requests⟩ := scan_counters fits accepted queued buffer statistics
    have total : queue.tally (fun item => item.copied io) ≤ queue.tally (fun _ => (io.length : ℤ)) :=
      List.tally_le_tally fun item member => (copied_bounds fits accepted (queued item member)).2
    have counted := List.countP_le_length (p := fun item : WriteQueueItem => decide (item.overlaps io)) (l := queue)
    have all : queue.tally (fun _ => (io.length : ℤ)) = queue.length * io.length := by
      simp [List.tally]
    rw [bytes, requests]
    constructor <;> omega

/-- A read of two sectors that begins before the start of the device. -/
def readBeforeStart : IoStackLocation where
  majorFunction := .read
  byteOffset := -512
  length := 1024

/-- A lazy write of 300 bytes that begins before the start of the device, and a held write. -/
def oddItem : WriteQueueItem := { WriteQueueItem.new 0 with majorFunction := .write, offset := -100, length := 300 }

def heldWrite : WriteQueueItem := { WriteQueueItem.new 1 with majorFunction := .write, irp := some 1 }

theorem scan_in_bounds_beforeStart : oddItem.overlaps readBeforeStart ∧ CopyInBounds readBeforeStart oddItem ∧
    heldWrite.overlaps readBeforeStart ∧ CopyInBounds readBeforeStart heldWrite := by
  have accepted : readBeforeStart.ReadAccepted 65536 := by constructor <;> decide
  have queued : ∀ item ∈ [oddItem, heldWrite], item.Accepted 65536 ∨ item.Empty := by
    intro item member
    obtain rfl | rfl := List.mem_pair.mp member
    · exact .inl ⟨{ majorFunction := .write, byteOffset := -100, length := 300 }, by decide, by decide, rfl, rfl⟩
    · exact .inr ⟨rfl, rfl⟩
  obtain ⟨each, -⟩ := scan_in_bounds 65536 readBeforeStart [oddItem, heldWrite] (by decide) accepted queued
  have odd : oddItem.overlaps readBeforeStart := by decide
  have held : heldWrite.overlaps readBeforeStart := by decide
  exact ⟨odd, (each oddItem (by simp)).2 odd, held, (each heldWrite (by simp)).2 held⟩

end QueueCache
