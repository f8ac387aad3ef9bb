import QueueCache.Proofs.Queue

/-! # Queue accounting and the cache limits

The two counters of the queue are always the length of the list and the bytes its entries account
for, whichever path charged them, because an entry that was linked with its request has length zero.
The limits are tested without the lock and some steps before the item is linked, so what they bound
is the queue together with the requests that have passed the test and are not linked yet.
-/

namespace QueueCache

open Transition

/-- `sizeof(WRITE_QUEUE_ITEM)` plus the entry's `Length`. -/
def WriteQueueItem.charge (item : WriteQueueItem) : ℤ := sizeofWriteQueueItem + item.length

/-- The counters agree with the list. -/
structure Accounted (s : State) : Prop where
  items : s.shared.statistics.writeQueueItems = s.shared.queue.length
  size : s.shared.statistics.writeQueueSize = s.shared.queue.tally WriteQueueItem.charge

theorem tally_clearIrp {measure : WriteQueueItem → ℤ}
    (blind : ∀ item, measure { item with irp := none } = measure item) (queue : List WriteQueueItem)
    (addr : ℕ) : (State.clearIrp queue addr).tally measure = queue.tally measure := by
  induction queue with
  | nil => rfl
  | cons item rest ih =>
    simp only [State.clearIrp, List.map_cons, List.tally_cons] at ih ⊢
    rw [ih]
    split
    · rw [blind]
    · rfl

theorem Accounted.step {s s' : State} (accounted : Accounted s) (moved : QueueMove s s') : Accounted s' := by
  obtain ⟨items, size⟩ := accounted
  cases moved with
  | same frame => exact ⟨by rw [frame.items, items, frame.queue], by rw [frame.queueSize, size, frame.queue]⟩
  | insert present shared made =>
    constructor <;> rw [shared]
    · simp [items]
    · simp [size, WriteQueueItem.charge]
  | clear addr frame =>
    constructor
    · rw [frame.items, frame.queue]
      exact items.trans (by simp [State.clearIrp, Shared.queue])
    · rw [frame.queueSize, frame.queue]
      exact size.trans (tally_clearIrp (fun _ => rfl) _ _).symm
  | @remove item rest queue shared =>
    have left := s.shared.removeEntryList_queue item queue
    rw [queue] at items size
    constructor <;> rw [shared]
    · change (s.shared.removeEntryList item).statistics.writeQueueItems =
        ((s.shared.removeEntryList item).queue.length : ℤ)
      rw [left, Shared.removeEntryList_items, items]
      simp
    · change (s.shared.removeEntryList item).statistics.writeQueueSize =
        (s.shared.removeEntryList item).queue.tally _
      rw [left, Shared.removeEntryList_size, size]
      simp [WriteQueueItem.charge]

theorem accounted_of_run {cfg : Config} {ok : State → Action → Prop} {as : List Action} {s : State}
    (run : Run State.step ok (.initial cfg) as s) : Accounted s := by
  refine (run.preserves (fun s => Wf s ∧ Accounted s) ⟨wf_initial cfg, rfl, rfl⟩ ?_).2
  rintro t a u ⟨wf, accounted⟩ _ moved
  exact ⟨wf.step moved, accounted.step (wf.queueMove moved)⟩

/-- An entry that did not come with a copy of a write's data has length zero. -/
theorem Wf.length_eq_zero {s : State} (wf : Wf s) {item : WriteQueueItem} (member : item ∈ s.shared.queue)
    (noCopy : item.isLazy = false ∨ item.majorFunction = .flushBuffers) : item.length = 0 := by
  obtain ⟨source, pending, form⟩ := wf.mem_queue member
  obtain ⟨c, -, linked⟩ := wf.linked source (s.pending_subset pending)
  have alike : item.length = source.length ∧ item.isLazy = source.isLazy ∧
      item.majorFunction = source.majorFunction := by
    rcases form with rfl | rfl <;> exact ⟨rfl, rfl, rfl⟩
  rw [alike.2.1, alike.2.2] at noCopy
  rw [alike.1]
  cases linked with
  | held same => rw [same, heldItem_length]
  | lazily same =>
    rw [same, lazyItem_isLazy, lazyItem_majorFunction] at noCopy
    rw [same, lazyItem_length, if_neg]
    rcases noCopy with noCopy | flush
    · contradiction
    · simp [flush]

theorem Accounted.nonneg {s : State} (accounted : Accounted s) :
    0 ≤ s.shared.statistics.writeQueueItems ∧ 0 ≤ s.shared.statistics.writeQueueSize := by
  refine ⟨by rw [accounted.items]; omega, ?_⟩
  rw [accounted.size]
  apply List.tally_nonneg
  intro item _
  rw [WriteQueueItem.charge]
  omega

/-- The counters of the write queue agree with its entries in every reachable state, and the two
high-water marks are the greatest values the counters have had. -/
theorem queue_accounting (cfg : Config) (as : List Action) (s : State)
    (run : Run State.step anyStep (.initial cfg) as s) :
    s.shared.statistics.writeQueueItems = s.shared.queue.length ∧
      s.shared.statistics.writeQueueSize = s.shared.queue.tally WriteQueueItem.charge ∧
      (∀ item ∈ s.shared.queue, item.isLazy = false ∨ item.majorFunction = .flushBuffers →
        item.length = 0) ∧
      0 ≤ s.shared.statistics.writeQueueItems ∧ 0 ≤ s.shared.statistics.writeQueueSize ∧
      IsGreatest ((fun t => t.shared.statistics.writeQueueItems) ''
        Visited State.step anyStep (.initial cfg) as) s.shared.statistics.writeQueueItemsTop ∧
      IsGreatest ((fun t => t.shared.statistics.writeQueueSize) ''
        Visited State.step anyStep (.initial cfg) as) s.shared.statistics.writeQueueSizeTop := by
  have accounted := accounted_of_run run
  have kept : ∀ t a u, Wf t → anyStep t a → t.step a = some u → Wf u := fun _ _ _ wf _ moved => wf.step moved
  refine ⟨accounted.items, accounted.size, fun item member noCopy => (wf_of_run run).length_eq_zero member noCopy,
    accounted.nonneg.1, accounted.nonneg.2, ?_, ?_⟩
  · refine run.highWater Wf _ (fun t => t.shared.statistics.writeQueueItemsTop) (wf_initial cfg) rfl kept ?_
    intro t a u wf _ moved
    cases wf.queueMove moved with
    | same frame => exact .inr ⟨frame.itemsTop, frame.items.le⟩
    | insert _ shared => exact .inl (by simp only [shared, Shared.insertTailList_itemsTop, Shared.insertTailList_items])
    | clear _ frame => exact .inr ⟨frame.itemsTop, frame.items.le⟩
    | remove _ shared =>
      refine .inr ⟨by rw [shared]; rfl, ?_⟩
      simp [shared, Shared.removeEntryList]
  · refine run.highWater Wf _ (fun t => t.shared.statistics.writeQueueSizeTop) (wf_initial cfg) rfl kept ?_
    intro t a u wf _ moved
    cases wf.queueMove moved with
    | same frame => exact .inr ⟨frame.queueSizeTop, frame.queueSize.le⟩
    | insert _ shared => exact .inl (by simp only [shared, Shared.insertTailList_sizeTop, Shared.insertTailList_size])
    | clear _ frame => exact .inr ⟨frame.queueSizeTop, frame.queueSize.le⟩
    | remove _ shared =>
      refine .inr ⟨by rw [shared]; rfl, ?_⟩
      simp [shared, Shared.removeEntryList]
      omega

/-- A lazy write and a flush that holds its request are linked, and the write is served. -/
def twoItems : List Action :=
  [.receive (writeSector0 7)] ++ callSteps 0 12 ++ [.receive flushRequest] ++ callSteps 1 2 ++
    [.call 1 { highMemory := false }] ++ callSteps 1 4 ++ workerSteps 2 ++
    [.workerTransfer 0, .workerLowerComplete ⟨STATUS_SUCCESS, 512⟩] ++ workerSteps 2

theorem queue_accounting_twoItems : ∃ s, Run State.step anyStep (.initial smallDevice) twoItems s ∧
    s.shared.statistics.writeQueueItems = 1 ∧ s.shared.statistics.writeQueueSizeTop = 640 ∧
    IsGreatest ((fun t => t.shared.statistics.writeQueueSize) ''
      Visited State.step anyStep (.initial smallDevice) twoItems) s.shared.statistics.writeQueueSizeTop := by
  have run := run_of_replay smallDevice twoItems (by decide +kernel)
  have accounting := queue_accounting smallDevice twoItems _ run
  exact ⟨_, run, by decide +kernel, by decide +kernel, accounting.2.2.2.2.2.2⟩

end QueueCache
