import QueueCache.Proofs.Durability
import QueueCache.Proofs.ReadMerge

/-! # Versions of a sector

The log of insertions numbers what a sector has been and will be: version zero is what the disk held at
first, version `n + 1` the write that was inserted `n`-th. The disk holds the last version among those the
worker has written, and the queue scan the last one that is queued lazily. What can be seen by either is
published; what has been published stays so, and a scan sees nothing older than what was published before.
-/

namespace QueueCache

open Transition Overlay

/-- The number of sectors beyond the unlinked items that the worker has written of its item: the item itself
counts for a sector as soon as the sector has reached the disk. -/
def WorkerPc.reached (σ : ℤ) : WorkerPc → ℕ
  | .lower _ moved => if σ ∈ moved then 1 else 0
  | .complete _ _ | .unlink _ => 1
  | _ => 0

/-- The last version that the sector can have on the disk. -/
def State.settled (s : State) (σ : ℤ) : ℕ := s.shared.history.unlinked.length + s.worker.reached σ

theorem WorkerPc.reached_le (worker : WorkerPc) (σ : ℤ) : worker.reached σ ≤ 1 := by
  unfold WorkerPc.reached
  split
  · split <;> omega
  all_goals omega

section Log

variable {s s' : State} {item : WriteQueueItem}

/-- What has been inserted keeps its number and its bytes. -/
theorem Grows.written (grows : Grows s s') (wf : Wf s) : s.written <+: s'.written := by
  obtain ⟨items, inserted⟩ := grows.inserted
  obtain ⟨irps, received⟩ := grows.irps
  refine ⟨items.map (WriteQueueItem.written s'.irps), ?_⟩
  rw [State.written, State.written, ← inserted, List.map_append, List.append_cancel_right_eq]
  apply List.map_congr_left
  intro item member
  obtain ⟨c, present, -⟩ := wf.linked item member
  have inside : item.addr < s.irps.length := by
    simpa [State.irps] using (List.getElem?_eq_some_iff.mp present).1
  rw [WriteQueueItem.written, WriteQueueItem.written, ← received, List.getElem?_append_left inside]

theorem Grows.versions (grows : Grows s s') (wf : Wf s) (disk : Bytes) :
    versions disk s.written <+: versions disk s'.written := by
  obtain ⟨more, longer⟩ := grows.written wf
  exact ⟨more, by rw [← longer]; rfl⟩

/-- The worker never takes a sector back from the disk. -/
theorem step_settled {a : Action} (moved : s.step a = some s') (σ : ℤ) : s.settled σ ≤ s'.settled σ := by
  rw [State.settled, State.settled]
  obtain ⟨taken, -⟩ | frame := step_service moved
  · cases taken with
    | @transfer request sectors sec at_ =>
      rw [at_]
      simp only [WorkerPc.reached, List.mem_cons]
      split <;> split <;> first | omega | tauto
    | served at_ =>
      exact Nat.add_le_add_left (s.worker.reached_le σ) _
    | unlink at_ =>
      rw [at_]
      change s.shared.history.unlinked.length + 1 ≤ (s.shared.history.unlinked ++ [_]).length + 0
      rw [List.length_append]
      exact le_rfl
    | _ at_ =>
      rw [at_]
      simp [WorkerPc.reached, State.issue]
  · rw [frame.unlinked, frame.worker]

end Log

/-- Every write the device has received is of whole sectors. -/
def State.WholeSectors (s : State) : Prop :=
  ∀ irp ∈ s.irps, irp.stack.majorFunction = .write → irp.stack.byteOffset % 512 = 0 ∧ irp.stack.length % 512 = 0

/-- The version of the sector can be seen: it has reached the disk, or its item is queued lazily. -/
structure State.Published (disk : Bytes) (s : State) (σ : ℤ) (n : ℕ) : Prop where
  reaches : ∃ store, (versions disk s.written)[n]? = some store ∧ Reaches sector σ store
  visible : n ≤ s.settled σ ∨
    ∃ m item, n = m + 1 ∧ s.shared.history.inserted[m]? = some item ∧ item.isLazy = true

section Published

variable {disk : Bytes} {s s' : State} {item : WriteQueueItem} {σ : ℤ} {n : ℕ}

/-- What has been published stays published. -/
theorem State.Published.step {a : Action} (published : s.Published disk σ n) (wf : Wf s) (moved : s.step a = some s') :
    s'.Published disk σ n := by
  have grows := step_grows moved
  obtain ⟨⟨store, present, reaches⟩, visible⟩ := published
  refine ⟨⟨store, ?_, reaches⟩, ?_⟩
  · obtain ⟨more, longer⟩ := grows.versions wf disk
    rw [← longer, List.getElem?_append_left (List.getElem?_eq_some_iff.mp present).1, present]
  · obtain onDisk | ⟨m, item, rfl, there, lazily⟩ := visible
    · exact .inl (onDisk.trans (step_settled moved σ))
    · obtain ⟨items, longer⟩ := grows.inserted
      refine .inr ⟨m, item, rfl, ?_, lazily⟩
      rw [← longer, List.getElem?_append_left (List.getElem?_eq_some_iff.mp there).1, there]

/-- A write of whole sectors changes whole sectors. -/
theorem Irp.written_blockwise {irp : Irp}
    (aligned : irp.stack.majorFunction = .write → irp.stack.byteOffset % 512 = 0 ∧ irp.stack.length % 512 = 0) :
    Blockwise sector irp.written := by
  intro x y same defined
  rw [Irp.written] at defined ⊢
  split at defined
  · next inside =>
    obtain ⟨writes, low, high⟩ := inside
    obtain ⟨start, extent⟩ := aligned writes
    simp only [sector] at same
    rw [if_pos ⟨writes, by omega, by omega⟩]
    rfl
  · contradiction

theorem State.WholeSectors.blockwise (whole : s.WholeSectors) : ∀ store ∈ s.written, Blockwise sector store := by
  intro store member
  obtain ⟨item, -, rfl⟩ := List.mem_map.mp member
  cases sent : s.irps[item.addr]? with
  | none =>
    rw [WriteQueueItem.written, sent]
    intro x y _ defined
    contradiction
  | some irp =>
    rw [WriteQueueItem.written, sent]
    exact Irp.written_blockwise (whole irp (List.mem_of_getElem? sent))

/-- The next version is the one of the worker's item. -/
theorem State.written_succ {rest : List WriteQueueItem} (shape : s.pending = item :: rest) :
    s.written.take (s.shared.history.unlinked.length + 1) =
      s.written.take s.shared.history.unlinked.length ++ [item.written s.irps] := by
  rw [State.written, ← List.map_take, ← List.map_take, State.take_succ shape, List.map_append, List.map_singleton]

/-- Every sector of the disk is the replay of what has reached it. -/
theorem disk_settled (wf : Wf s) (fifo : Fifo s) (diskOk : DiskOk disk s) (served : s.WritesServed) (x : ℤ) :
    s.shared.disk x = replay disk (s.written.take (s.settled (sector x))) x := by
  have answers : s.shared.history.served.map (fun answer => answer.1.store) =
      (s.requests (s.shared.history.unlinked.length + s.worker.answered)).map LowerRequest.store := by
    rw [← fifo.served, List.map_map]
    rfl
  rw [diskOk.disk served, State.stores, answers, State.settled]
  cases at_ : s.worker with
  | lower request moved =>
    obtain ⟨item, rest, shape, sends⟩ := fifo.current request moved at_
    have member := s.pending_subset (shape ▸ List.mem_cons_self ..)
    have same : request.store = item.written s.irps := by
      rw [← wf.request_written member, sends]
      rfl
    simp only [WorkerPc.stores, WorkerPc.answered, WorkerPc.reached, Nat.add_zero]
    rw [replay_snoc, wf.replay_requests, LowerRequest.stored, same]
    split
    · rw [State.written_succ shape, replay_snoc]
    · rfl
  | _ =>
    simp only [WorkerPc.stores, WorkerPc.answered, WorkerPc.reached, List.append_nil]
    rw [wf.replay_requests]

/-- The disk holds the last published version that has reached it. -/
theorem disk_version (wf : Wf s) (fifo : Fifo s) (diskOk : DiskOk disk s) (served : s.WritesServed)
    (whole : s.WholeSectors) (σ : ℤ) : ∃ n, s.Published disk σ n ∧
      Holds sector (versions disk s.written) σ n s.shared.disk ∧
      ∀ m, s.Published disk σ m → m ≤ s.settled σ → m ≤ n := by
  have atSector : sector (512 * σ) = σ := by
    simp only [sector]
    omega
  obtain ⟨n, below, holds, last⟩ := exists_version whole.blockwise disk (s.settled σ) (512 * σ)
  rw [atSector] at holds last
  refine ⟨n, ⟨holds.reaches, .inl below⟩, holds.congr fun x inside => ?_, fun m published onDisk => ?_⟩
  · rw [disk_settled wf fifo diskOk served, inside]
  · obtain ⟨store, present, reaches⟩ := published.reaches
    exact last m store onDisk present reaches

theorem WorkerPc.answered_le_reached (worker : WorkerPc) (σ : ℤ) : worker.answered ≤ worker.reached σ := by
  cases worker <;> simp [WorkerPc.answered, WorkerPc.reached]

/-- A write that has been completed to its caller has been published in every sector of it. -/
theorem Answered.published {m : ℕ} {c : Call} (answered : Answered s) (wf : Wf s)
    (inserted : s.shared.history.inserted[m]? = some item) (present : s.calls[item.addr]? = some c)
    (completed : c.completions ≠ [])
    (reaches : ∃ store, (versions disk s.written)[m + 1]? = some store ∧ Reaches sector σ store) :
    s.Published disk σ (m + 1) := by
  refine ⟨reaches, ?_⟩
  obtain ⟨d, there, linked⟩ := wf.linked item (List.mem_of_getElem? inserted)
  obtain rfl := Option.some.inj (present.symm.trans there)
  cases linked with
  | held same held =>
    obtain ⟨completion, member⟩ := List.exists_mem_of_ne_nil _ completed
    obtain ⟨past, -⟩ := (answered.calls _ _ present).worker completion member (held.sites completion member)
    rw [← same] at past
    obtain ⟨m', early⟩ := List.getElem?_of_mem past
    rw [State.past, List.getElem?_take] at early
    split at early
    · next below =>
      have inside := (List.getElem?_eq_some_iff.mp inserted).1
      obtain rfl := (List.getElem?_inj inside (wf.nodup.of_map _)).mp (inserted.trans early.symm)
      have reached := s.worker.answered_le_reached σ
      left
      rw [State.settled]
      omega
    · contradiction
  | lazily same => exact .inr ⟨m, item, rfl, inserted, by rw [same, lazyItem_isLazy]⟩

end Published

section Scan

variable {disk : Bytes} {s : State} {item : WriteQueueItem} {io : IoStackLocation} {k : ℕ}

/-- The queue looks like the pending items to whoever ignores the request pointers. -/
theorem Wf.queue_map {β : Type*} {look : WriteQueueItem → β} (wf : Wf s)
    (ignores : ∀ item, look { item with irp := none } = look item) : s.shared.queue.map look = s.pending.map look := by
  rw [wf.queue]
  cases s.worker with
  | unlink addr =>
    rw [WorkerPc.cleared, State.clearIrp, List.map_map]
    apply List.map_congr_left
    intro item _
    rw [Function.comp_apply]
    split
    · exact ignores item
    · rfl
  | _ => rfl

/-- Only a lazy write covers anything. -/
theorem Wf.lazy_of_covers (wf : Wf s) (member : item ∈ s.shared.history.inserted) {address : ℤ}
    (covered : item.covers address) : item.isLazy = true := by
  obtain ⟨c, present, linked⟩ := wf.linked item member
  cases linked with
  | held same held =>
    obtain ⟨-, low, high⟩ := covered
    rw [same] at low high
    simp only [heldItem_length] at high
    omega
  | lazily same => rw [same, lazyItem_isLazy]

/-- It covers what its caller wrote, with the bytes that the caller supplied. -/
theorem Wf.written_lazy (wf : Wf s) (member : item ∈ s.shared.history.inserted) (lazily : item.isLazy = true)
    (address : ℤ) : item.written s.irps address =
      if item.covers address then some (item.buffer (address - item.offset)) else none := by
  obtain ⟨c, present, linked⟩ := wf.linked item member
  rw [WriteQueueItem.written_of_call present]
  cases linked with
  | held same held =>
    rw [same, heldItem_isLazy] at lazily
    contradiction
  | lazily same kind =>
    rw [← LowerRequest.store_ofItem item.addr, ← same, LowerRequest.store]
    by_cases writes : item.majorFunction = .write
    · have extent : (LowerRequest.ofItem item).extent = item.length := if_pos writes
      simp only [WriteQueueItem.covers, writes, true_and, extent]
      rfl
    · have extent : (LowerRequest.ofItem item).extent = 0 := if_neg writes
      rw [extent, if_neg (by rw [Nat.cast_zero]; omega), if_neg fun covered => writes covered.1]

/-- Queued writes are of whole sectors when the requests are. -/
theorem Wf.aligned (wf : Wf s) (whole : s.WholeSectors) (member : item ∈ s.shared.history.inserted) : item.Aligned := by
  obtain ⟨c, present, linked⟩ := wf.linked item member
  intro writes
  cases linked with
  | held same held =>
    rw [same]
    exact ⟨rfl, rfl⟩
  | lazily same kind =>
    rw [same, lazyItem_majorFunction] at writes
    rw [same, lazyItem, if_pos writes]
    exact whole c.irp (List.mem_map_of_mem (List.mem_of_getElem? present)) writes

/-- The overlay of an aligned item covers whole sectors of the read. -/
theorem WriteQueueItem.overlay_blockwise (aligned : item.Aligned) (offset : io.byteOffset % 512 = 0)
    (length : io.length % 512 = 0) : Blockwise sector (item.overlay io) := by
  intro x y same defined
  rw [WriteQueueItem.overlay] at defined ⊢
  split at defined
  · next inside =>
    obtain ⟨low, high, covered⟩ := inside
    simp only [sector] at same
    have atSame : sector (io.byteOffset + y) = sector (io.byteOffset + x) := by
      simp only [sector]
      omega
    rw [if_pos ⟨by omega, by omega, covers_sector aligned atSame covered⟩]
    rfl
  · contradiction

/-- A pending item is in the log, at its place behind the unlinked ones. -/
theorem State.pending_getElem? (s : State) (m : ℕ) :
    s.pending[m]? = s.shared.history.inserted[s.shared.history.unlinked.length + m]? := List.getElem?_drop

/-- A lazy write that has been published and not been unlinked is pending. -/
theorem State.Published.pending {n : ℕ} {σ : ℤ} (published : s.Published disk σ n)
    (later : s.settled σ < n ∨ s.shared.history.unlinked.length + 1 < n) :
    ∃ m item, n = s.shared.history.unlinked.length + m + 1 ∧ s.pending[m]? = some item ∧ item.isLazy = true ∧
      Reaches sector σ (item.written s.irps) := by
  obtain ⟨⟨store, present, reaches⟩, visible⟩ := published
  have bound := s.worker.reached_le σ
  rw [State.settled] at later visible
  obtain onDisk | ⟨m, item, rfl, there, lazily⟩ := visible
  · omega
  · have same : store = item.written s.irps := by
      rw [versions, List.getElem?_cons_succ, State.written, List.getElem?_map, there] at present
      exact (Option.some.inj present).symm
    refine ⟨m - s.shared.history.unlinked.length, item, by omega, ?_, lazily, same ▸ reaches⟩
    rw [State.pending_getElem?, Nat.add_sub_cancel' (by omega), there]

theorem Wf.exists_queue {p : WriteQueueItem → Prop} (wf : Wf s)
    (ignores : ∀ item, p { item with irp := none } = p item) :
    (∃ item ∈ s.shared.queue, p item) ↔ ∃ item ∈ s.pending, p item := by
  have same : (∃ holds ∈ s.shared.queue.map p, holds) ↔ ∃ holds ∈ s.pending.map p, holds := by
    rw [wf.queue_map ignores]
  simpa only [List.mem_map, exists_exists_and_eq_and] using same

/-- The scan marks a sector when a pending item covers it. -/
theorem scan_marked (wf : Wf s) (admission : Admission s) (whole : s.WholeSectors)
    (accepted : io.ReadAccepted s.shared.statistics.size) (buffer : Bytes) (below : k < io.length / 512) :
    (scanWriteQueue io buffer s.shared.statistics s.shared.queue).bitmap k = true ↔
      ∃ item ∈ s.pending, item.covers (io.byteOffset + 512 * k) := by
  have fits := admission.range.2
  obtain ⟨-, marked, -⟩ :=
    scan_spec fits accepted (fun _ member => admission.queue wf member) buffer s.shared.statistics
  rw [marked, wf.exists_queue fun _ => rfl]
  refine exists_congr fun item => and_congr_right fun member => ?_
  have logged := s.pending_subset member
  have queued : item.Accepted s.shared.statistics.size ∨ item.Empty := by
    obtain empty | ⟨-, accepted⟩ := admission.items item logged
    · exact .inr empty
    · exact .inl accepted
  rw [marks_iff_covers fits accepted queued (wf.aligned whole logged), and_iff_right below]

/-- Addresses of the sector on the device and in the buffer. -/
theorem sector_sub (offset : io.byteOffset % 512 = 0) {x : ℤ} :
    sector x = sector io.byteOffset + k ↔ sector (x - io.byteOffset) = k := by
  simp only [sector]
  omega

/-- In a sector of the read the overlay of a lazy item is its write. -/
theorem Wf.overlay_written (wf : Wf s) (member : item ∈ s.shared.history.inserted) (lazily : item.isLazy = true)
    (accepted : io.ReadAccepted s.shared.statistics.size) (below : k < io.length / 512) {x : ℤ}
    (inside : sector x = sector io.byteOffset + k) : item.overlay io (x - io.byteOffset) = item.written s.irps x := by
  have within : 0 ≤ x - io.byteOffset ∧ x - io.byteOffset < io.length := by
    have offset := accepted.offset
    have length := accepted.length
    simp only [sector] at inside
    omega
  rw [wf.written_lazy member lazily, WriteQueueItem.overlay, add_sub_cancel]
  by_cases covered : item.covers x
  · rw [if_pos ⟨within.1, within.2, covered⟩, if_pos covered]
  · rw [if_neg fun inside => covered inside.2.2, if_neg covered]

theorem Wf.reaches_overlay (wf : Wf s) (member : item ∈ s.shared.history.inserted) (lazily : item.isLazy = true)
    (accepted : io.ReadAccepted s.shared.statistics.size) (below : k < io.length / 512) :
    Reaches sector (k : ℤ) (item.overlay io) ↔ Reaches sector (sector io.byteOffset + k) (item.written s.irps) := by
  constructor
  · intro reaches x inside
    rw [← wf.overlay_written member lazily accepted below inside]
    exact reaches _ ((sector_sub accepted.offset).mp inside)
  · intro reaches x inside
    have atDevice : sector (io.byteOffset + x) = sector io.byteOffset + k := by
      rw [sector_sub accepted.offset, add_sub_cancel_left, inside]
    have same := wf.overlay_written member lazily accepted below atDevice
    rw [add_sub_cancel_left] at same
    rw [same]
    exact reaches _ atDevice

/-- A sector that the scan marks is the newest version that has been published. -/
theorem scan_version (wf : Wf s) (admission : Admission s) (whole : s.WholeSectors)
    (accepted : io.ReadAccepted s.shared.statistics.size) (buffer : Bytes) (below : k < io.length / 512)
    (marked : (scanWriteQueue io buffer s.shared.statistics s.shared.queue).bitmap k = true) :
    ∃ n, s.Published disk (sector io.byteOffset + k) n ∧
      Holds sector (versions disk s.written) (sector io.byteOffset + k) n
        (fun x => (scanWriteQueue io buffer s.shared.statistics s.shared.queue).buffer (x - io.byteOffset)) ∧
      ∀ m, s.Published disk (sector io.byteOffset + k) m → m ≤ n := by
  obtain ⟨copied, -, -⟩ := scan_spec admission.range.2 accepted (fun _ member => admission.queue wf member) buffer
    s.shared.statistics
  have overlaid : s.shared.queue.map (fun item => item.overlay io) = s.pending.map fun item => item.overlay io :=
    wf.queue_map fun _ => rfl
  have blocks : ∀ store ∈ s.pending.map (fun item => item.overlay io), Blockwise sector store := by
    intro store member
    obtain ⟨item, pending, rfl⟩ := List.mem_map.mp member
    exact WriteQueueItem.overlay_blockwise (wf.aligned whole (s.pending_subset pending)) accepted.offset accepted.length
  have atSector : sector (512 * (k : ℤ)) = k := by
    simp only [sector]
    omega
  obtain ⟨covering, waits, covered⟩ := (scan_marked wf admission whole accepted buffer below).mp marked
  have found : Reaches sector (k : ℤ) (covering.overlay io) := by
    have length := accepted.length
    have here : (covering.overlay io (512 * (k : ℤ))).isSome := by
      rw [WriteQueueItem.overlay, if_pos ⟨by omega, by omega, covered⟩]
      rfl
    have reached := (blocks _ (List.mem_map_of_mem waits)).reaches here
    rwa [atSector] at reached
  rw [copied, overlaid]
  obtain ⟨m, store, present, reaches, last, same⟩ | ⟨never, -⟩ := replay_block blocks buffer (512 * (k : ℤ))
  · rw [atSector] at reaches last same
    rw [List.getElem?_map] at present
    obtain ⟨item, there, rfl⟩ := Option.map_eq_some_iff.mp present
    have logged := s.pending_subset (List.mem_of_getElem? there)
    have lazily : item.isLazy = true := by
      have defined := reaches _ atSector
      rw [WriteQueueItem.overlay] at defined
      split at defined
      · next inside => exact wf.lazy_of_covers logged inside.2.2
      · contradiction
    have inserted : s.shared.history.inserted[s.shared.history.unlinked.length + m]? = some item := by
      rw [← s.pending_getElem?, there]
    have version : (versions disk s.written)[s.shared.history.unlinked.length + m + 1]? =
        some (item.written s.irps) := by
      rw [versions, List.getElem?_cons_succ, State.written, List.getElem?_map, inserted]
      rfl
    have whole := (wf.reaches_overlay logged lazily accepted below).mp reaches
    refine ⟨_, ⟨⟨_, version, whole⟩, .inr ⟨_, item, rfl, inserted, lazily⟩⟩, ⟨_, version, fun x inside => ?_⟩, ?_⟩
    · rw [← wf.overlay_written logged lazily accepted below inside]
      exact (same _ ((sector_sub accepted.offset).mp inside)).symm
    · intro j published
      by_contra later
      obtain ⟨m', other, rfl, there', lazily', reaches'⟩ := published.pending (.inr (by omega))
      have logged' := s.pending_subset (List.mem_of_getElem? there')
      refine last m' _ (by omega) (by rw [List.getElem?_map, there']; rfl) ?_
      exact (wf.reaches_overlay logged' lazily' accepted below).mpr reaches'
  · rw [atSector] at never
    exact absurd found (never _ (List.mem_map_of_mem waits))

/-- A sector that it does not mark has been published by the disk only. -/
theorem scan_settled (wf : Wf s) (admission : Admission s) (whole : s.WholeSectors)
    (accepted : io.ReadAccepted s.shared.statistics.size) (buffer : Bytes) (below : k < io.length / 512)
    (clear : (scanWriteQueue io buffer s.shared.statistics s.shared.queue).bitmap k = false) {n : ℕ}
    (published : s.Published disk (sector io.byteOffset + k) n) : n ≤ s.settled (sector io.byteOffset + k) := by
  by_contra later
  obtain ⟨m, item, -, there, lazily, reaches⟩ := published.pending (.inl (by omega))
  have member := List.mem_of_getElem? there
  have covered : item.covers (io.byteOffset + 512 * k) := by
    have offset := accepted.offset
    have defined := reaches (io.byteOffset + 512 * k) (by simp only [sector]; omega)
    rw [wf.written_lazy (s.pending_subset member) lazily] at defined
    split at defined
    · assumption
    · contradiction
  rw [(scan_marked wf admission whole accepted buffer below).mpr ⟨item, member, covered⟩] at clear
  contradiction

end Scan

end QueueCache
