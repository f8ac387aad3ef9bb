import QueueCache.ToMathlib.Overlay
import QueueCache.Proofs.ScanBounds

/-! # What the queue scan computes

The scan leaves in the caller's buffer the overlay of all queued writes, newest last, at the granularity
of bytes. In the bitmap it leaves the union of one run of sectors for each item, and both ends of that
run are rounded down on their own. For items whose ranges are whole sectors the two agree.
-/

namespace QueueCache

/-- The write covers the byte at an address of the device. -/
def WriteQueueItem.covers (item : WriteQueueItem) (address : ℤ) : Prop :=
  item.majorFunction = .write ∧ item.offset ≤ address ∧ address < item.offset + item.length

instance (item : WriteQueueItem) (address : ℤ) : Decidable (item.covers address) :=
  inferInstanceAs (Decidable (item.majorFunction = .write ∧ item.offset ≤ address ∧
    address < item.offset + item.length))

/-- The bytes of the read's buffer that the item provides. -/
def WriteQueueItem.overlay (item : WriteQueueItem) (io : IoStackLocation) (x : ℤ) : Option UInt8 :=
  if 0 ≤ x ∧ x < io.length ∧ item.covers (io.byteOffset + x) then some (item.buffer (io.byteOffset + x - item.offset))
  else none

/-- The sectors of the read that the item marks. -/
def WriteQueueItem.marks (item : WriteQueueItem) (io : IoStackLocation) (k : ℕ) : Prop :=
  item.overlaps io ∧ sector (item.startPos io - io.byteOffset) ≤ k ∧
    k < sector (item.startPos io - io.byteOffset) + sector (item.endPos io - item.startPos io)

instance (item : WriteQueueItem) (io : IoStackLocation) (k : ℕ) : Decidable (item.marks io k) :=
  inferInstanceAs (Decidable (item.overlaps io ∧ sector (item.startPos io - io.byteOffset) ≤ k ∧
    k < sector (item.startPos io - io.byteOffset) + sector (item.endPos io - item.startPos io)))

section Scan

variable {size : ℤ} {io : IoStackLocation} {item : WriteQueueItem} {queue : List WriteQueueItem}

/-- The item overlaps the read when it covers a byte of it. -/
theorem overlaps_iff (fits : size < 2 ^ 63) (accepted : io.ReadAccepted size)
    (queued : item.Accepted size ∨ item.Empty) :
    item.overlaps io ↔ item.majorFunction = .write ∧ item.offset < io.byteOffset + io.length ∧
      io.byteOffset < item.offset + item.length := by
  obtain ⟨readEnd, itemEnd⟩ := sumsExact fits accepted.onMedia queued
  rw [WriteQueueItem.overlaps, readEnd, itemEnd, gt_iff_lt]

/-- The copy of an item lays its bytes over the buffer. -/
theorem scanEntry_spec (fits : size < 2 ^ 63) (accepted : io.ReadAccepted size)
    (queued : item.Accepted size ∨ item.Empty) (scan : ScanState) :
    (scanEntry io scan item).buffer = Overlay.patch scan.buffer (item.overlay io) ∧
      (∀ k, (scanEntry io scan item).bitmap k = (scan.bitmap k || decide (item.marks io k))) ∧
      (scanEntry io scan item).anyFromWriteQueue = (scan.anyFromWriteQueue || decide (item.overlaps io)) := by
  have overlapping := overlaps_iff fits accepted queued
  rw [scanEntry_overlaps]
  by_cases overlap : item.overlaps io
  · have bounds := copyInBounds fits accepted queued overlap
    obtain ⟨readEnd, itemEnd⟩ := sumsExact fits accepted.onMedia queued
    obtain ⟨write, -, -⟩ := overlapping.mp overlap
    rw [if_pos overlap, bounds.destination, bounds.source, bounds.extent]
    refine ⟨?_, fun k => ?_, ?_⟩
    · funext x
      have same : (item.startPos io - io.byteOffset ≤ x ∧
          x < item.startPos io - io.byteOffset + (item.endPos io - item.startPos io)) ↔
          (0 ≤ x ∧ x < io.length ∧ item.covers (io.byteOffset + x)) := by
        simp only [WriteQueueItem.covers, write, true_and, WriteQueueItem.startPos, WriteQueueItem.endPos, readEnd,
          itemEnd]
        omega
      simp only [Overlay.patch, WriteQueueItem.overlay, rtlCopyMemory]
      by_cases inside : 0 ≤ x ∧ x < io.length ∧ item.covers (io.byteOffset + x)
      · rw [if_pos (same.mpr inside), if_pos inside, Option.getD_some]
        congr 1
        omega
      · rw [if_neg (mt same.mp inside), if_neg inside, Option.getD_none]
    · have index := bounds.index
      have count := bounds.count
      have same : item.marks io k ↔ toUlong (sector (item.startPos io - io.byteOffset)) ≤ k ∧
          k < toUlong (sector (item.startPos io - io.byteOffset)) +
            toUlong (sector (item.endPos io - item.startPos io)) := by
        simp only [WriteQueueItem.marks, overlap, true_and]
        omega
      simp only [rtlSetBits, same, Bool.decide_and]
    · simp [overlap]
  · rw [if_neg overlap]
    refine ⟨?_, fun k => ?_, ?_⟩
    · funext x
      rw [Overlay.patch, WriteQueueItem.overlay, if_neg, Option.getD_none]
      rintro ⟨low, high, write, above, below⟩
      exact overlap (overlapping.mpr ⟨write, by omega, by omega⟩)
    · simp [WriteQueueItem.marks, overlap]
    · simp [overlap]

/-- The scan lays the items over the buffer in queue order and marks the sectors of each. -/
theorem scan_spec (fits : size < 2 ^ 63) (accepted : io.ReadAccepted size)
    (queued : ∀ item ∈ queue, item.Accepted size ∨ item.Empty) (buffer : Bytes) (statistics : DeviceStatistics) :
    (scanWriteQueue io buffer statistics queue).buffer =
        Overlay.replay buffer (queue.map fun item => item.overlay io) ∧
      (∀ k, (scanWriteQueue io buffer statistics queue).bitmap k = true ↔ ∃ item ∈ queue, item.marks io k) ∧
      ((scanWriteQueue io buffer statistics queue).anyFromWriteQueue = true ↔ ∃ item ∈ queue, item.overlaps io) := by
  rw [scanWriteQueue]
  induction queue using List.reverseRecOn with
  | nil => simp
  | append_singleton queue item ih =>
    obtain ⟨copied, marked, found⟩ := ih fun other member => queued other (List.mem_append_left _ member)
    have last := queued item (List.mem_append_right _ (List.mem_singleton_self _))
    rw [List.foldl_append, List.foldl_cons, List.foldl_nil]
    obtain ⟨copy, marks, finds⟩ := scanEntry_spec fits accepted last
      (queue.foldl (scanEntry io) ⟨buffer, fun _ => false, false, statistics⟩)
    refine ⟨?_, fun k => ?_, ?_⟩
    · rw [copy, copied, List.map_append, Overlay.replay_append]
      rfl
    · rw [marks, Bool.or_eq_true, marked, decide_eq_true_eq]
      simp only [List.mem_append, List.mem_singleton, or_and_right, exists_or, exists_eq_left]
    · rw [finds, Bool.or_eq_true, found, decide_eq_true_eq]
      simp only [List.mem_append, List.mem_singleton, or_and_right, exists_or, exists_eq_left]

/-- The range of a write is whole sectors. -/
def WriteQueueItem.Aligned (item : WriteQueueItem) : Prop :=
  item.majorFunction = .write → item.offset % 512 = 0 ∧ item.length % 512 = 0

instance (item : WriteQueueItem) : Decidable item.Aligned :=
  inferInstanceAs (Decidable (item.majorFunction = .write → item.offset % 512 = 0 ∧ item.length % 512 = 0))

/-- For an aligned item the marked sectors are those it covers. -/
theorem marks_iff_covers (fits : size < 2 ^ 63) (accepted : io.ReadAccepted size)
    (queued : item.Accepted size ∨ item.Empty) (aligned : item.Aligned) (k : ℕ) :
    item.marks io k ↔ k < io.length / 512 ∧ item.covers (io.byteOffset + 512 * k) := by
  have overlapping := overlaps_iff fits accepted queued
  obtain ⟨readEnd, itemEnd⟩ := sumsExact fits accepted.onMedia queued
  obtain ⟨-, -, offset, length, -⟩ := accepted
  rw [WriteQueueItem.marks, WriteQueueItem.covers, overlapping, WriteQueueItem.startPos, WriteQueueItem.endPos, readEnd,
    itemEnd, sector, sector]
  by_cases write : item.majorFunction = .write
  · obtain ⟨start, extent⟩ := aligned write
    simp only [write, true_and]
    omega
  · simp only [write, false_and, and_false]

/-- A sector that an aligned item covers in part it covers whole. -/
theorem covers_sector (aligned : item.Aligned) {address other : ℤ} (same : sector other = sector address)
    (covered : item.covers address) : item.covers other := by
  obtain ⟨write, above, below⟩ := covered
  obtain ⟨start, extent⟩ := aligned write
  rw [sector, sector] at same
  exact ⟨write, by omega, by omega⟩

end Scan

end QueueCache
