import QueueCache.Proofs.Fifo

/-! # What is on the disk

A served write request lays its bytes over the disk, and the request in progress the sectors moved so
far. On a device whose size is known nothing else writes to the disk, so as long as the lower writes
succeed in full the disk is the replay of the served requests. When the queue is empty these are the
requests of everything that was ever inserted.
-/

namespace QueueCache

open Transition Overlay

/-- The bytes a request lays over the disk. -/
def LowerRequest.store (request : LowerRequest) : ℤ → Option UInt8 := fun x =>
  if request.offset ≤ x ∧ x < request.offset + request.extent then some (request.data (x - request.offset))
  else none

/-- The bytes of those of its sectors that have been moved. -/
def LowerRequest.stored (request : LowerRequest) (moved : List ℤ) : ℤ → Option UInt8 := fun x =>
  if sector x ∈ moved then request.store x else none

/-- The lower driver has done all that it was asked for. -/
def IoStatusBlock.inFull (ioStatus : IoStatusBlock) (length : ℕ) : Bool :=
  ntSuccess ioStatus.status && ioStatus.information = length

/-- Every write the worker sent down has succeeded in full. -/
def State.WritesServed (s : State) : Prop :=
  ∀ answer ∈ s.shared.history.served, answer.1.majorFunction = .write → answer.2.inFull answer.1.length = true

instance (s : State) : Decidable s.WritesServed :=
  inferInstanceAs (Decidable (∀ answer ∈ s.shared.history.served, answer.1.majorFunction = .write →
    answer.2.inFull answer.1.length = true))

/-- What the request in progress has laid over the disk so far. -/
def WorkerPc.stores : WorkerPc → List (ℤ → Option UInt8)
  | .lower request moved => [request.stored moved]
  | _ => []

/-- What the worker has laid over the disk so far. -/
def State.stores (s : State) : List (ℤ → Option UInt8) :=
  s.shared.history.served.map (fun answer => answer.1.store) ++ s.worker.stores

/-- The sectors of a transfer are those of its bytes. -/
theorem mem_sectorsOf {offset x : ℤ} {length : ℕ} (low : offset ≤ x) (high : x < offset + length) :
    sector x ∈ sectorsOf offset length := by
  have nonempty : length ≠ 0 := by omega
  rw [sectorsOf, if_neg nonempty, List.mem_map]
  refine ⟨(sector x - sector offset).toNat, List.mem_range.mpr ?_, ?_⟩ <;> simp only [sector] <;> omega

/-- A transfer of one sector is one more sector of the request's store. -/
theorem writeSector_stored (disk : Bytes) (stores : List (ℤ → Option UInt8)) (request : LowerRequest)
    (moved : List ℤ) (sec : ℤ) :
    writeSector (replay disk (stores ++ [request.stored moved])) request.offset request.data 0 request.extent sec =
      replay disk (stores ++ [request.stored (sec :: moved)]) := by
  funext x
  rw [writeSector, replay_snoc, replay_snoc]
  by_cases here : sector x = sec
  · by_cases inside : request.offset ≤ x ∧ x < request.offset + request.extent
    · simp [LowerRequest.stored, LowerRequest.store, here, inside]
    · have outside : request.store x = none := if_neg inside
      have notWritten : ¬ (request.offset ≤ x ∧ x < request.offset + request.extent ∧ sector x = sec) :=
        fun written => inside ⟨written.1, written.2.1⟩
      simp [LowerRequest.stored, outside, notWritten]
  · simp [LowerRequest.stored, here]

/-- Once every sector has been moved, the whole request has. -/
theorem LowerRequest.stored_of_done {request : LowerRequest} {moved : List ℤ} (done : request.done moved = true) :
    request.stored moved = request.store := by
  funext x
  rw [LowerRequest.stored]
  split
  · rfl
  · next absent =>
    rw [LowerRequest.store, if_neg]
    rintro ⟨low, high⟩
    simp only [LowerRequest.done, List.all_eq_true, decide_eq_true_eq] at done
    exact absent (done _ (mem_sectorsOf low high))

/-- A request other than a write lays nothing over the disk. -/
theorem LowerRequest.store_of_not_write {request : LowerRequest} (other : request.majorFunction ≠ .write) :
    request.store = fun _ => none := by
  funext x
  rw [LowerRequest.store, if_neg]
  simp [LowerRequest.extent, other]

/-- An answer in full comes after the whole transfer. -/
theorem stored_of_answer {request : LowerRequest} {moved : List ℤ} {ioStatus : IoStatusBlock}
    (allowed : admissible ioStatus request.length (request.done moved) = true)
    (served : request.majorFunction = .write → ioStatus.inFull request.length = true) :
    request.stored moved = request.store := by
  by_cases writes : request.majorFunction = .write
  · have full := served writes
    rw [IoStatusBlock.inFull] at full
    rw [admissible, full] at allowed
    exact LowerRequest.stored_of_done (by simpa using allowed)
  · funext x
    rw [LowerRequest.stored, LowerRequest.store_of_not_write writes, ite_self]

/-- A write is never forwarded. -/
def Call.Routed (c : Call) : Prop := c.irp.stack.majorFunction = .write → c.pc ≠ .forward ∧ c.lowerIrps = []

theorem Call.Routed.step {sh sh' : Shared} {i : ℕ} {c c' : Call} {out : Outcome} (routed : c.Routed)
    (ok : CallOk i c) (sized : sh.statistics.size ≠ 0) (moved : CallStep sh i c out sh' c') : c'.Routed := by
  have here := ok.atPc
  intro writes
  rw [moved.irp] at writes
  obtain ⟨notForward, none⟩ := routed writes
  have transfers : c.irp.stack.isTransfer = true := by simp [IoStackLocation.isTransfer, writes]
  cases moved with
  | entry at_ _ entered =>
    refine ⟨?_, none⟩
    cases entered with
    | forward _ unsized => exact absurd (unsized transfers) sized
    | _ => simp [Call.afterEntry]
  | forward at_ => exact absurd at_ notForward
  | scanForward at_ =>
    rw [Call.AtPc, at_] at here
    simp [writes] at here
  | splitOn at_ =>
    rw [Call.AtPc, at_] at here
    have reads := here.reads
    simp [writes] at reads
  | finishScatter at_ =>
    rw [Call.AtPc, at_] at here
    have reads := here.reads
    simp [writes] at reads
  | _ => exact ⟨by simp, none⟩

/-- On a device whose size is known only the worker writes to the disk. -/
structure DiskOk (disk : Bytes) (s : State) : Prop where
  sized : s.shared.statistics.size ≠ 0
  routed : ∀ (i : ℕ) (c : Call), s.calls[i]? = some c → c.Routed
  disk : s.WritesServed → s.shared.disk = replay disk s.stores

theorem diskOk_initial {cfg : Config} (sized : cfg.size ≠ 0) : DiskOk cfg.disk (.initial cfg) where
  sized := sized
  routed i c present := by simp [State.initial] at present
  disk _ := rfl

namespace DiskOk

variable {disk : Bytes} {s s' : State}

/-- Neither the disk nor what the worker has laid over it changes. -/
private theorem keep (diskOk : DiskOk disk s) (sized : s'.shared.statistics.size = s.shared.statistics.size)
    (routed : ∀ (i : ℕ) (c : Call), s'.calls[i]? = some c → c.Routed) (same : s'.shared.disk = s.shared.disk)
    (served : s'.shared.history.served = s.shared.history.served)
    (current : ∀ memory, replay memory s'.worker.stores = replay memory s.worker.stores) : DiskOk disk s' where
  sized := by rw [sized]; exact diskOk.sized
  routed := routed
  disk all := by
    rw [State.WritesServed, served] at all
    rw [same, diskOk.disk all, State.stores, State.stores, served, replay_append, replay_append, current]

private theorem worker_step {a : Action} (diskOk : DiskOk disk s) (moved : WorkerStep s a s') : DiskOk disk s' := by
  have untouched : ∀ (memory : Bytes) (request : LowerRequest), replay memory [request.stored []] = memory := by
    intro memory request
    funext x
    simp [LowerRequest.stored, patch]
  cases moved with
  | sendIrp at_ =>
    refine diskOk.keep rfl diskOk.routed rfl rfl fun memory => ?_
    rw [at_]
    exact untouched memory _
  | sendCopy at_ =>
    refine diskOk.keep rfl diskOk.routed rfl rfl fun memory => ?_
    rw [at_]
    exact untouched memory _
  | @transfer request moved sec at_ =>
    refine ⟨diskOk.sized, diskOk.routed, fun all => ?_⟩
    have before := diskOk.disk all
    rw [State.stores, at_] at before
    change writeSector s.shared.disk _ _ _ _ _ = _
    rw [before]
    exact writeSector_stored _ _ _ _ _
  | @served request moved ioStatus at_ allowed =>
    refine ⟨diskOk.sized, diskOk.routed, fun all => ?_⟩
    have earlier : s.WritesServed := fun answer member => all answer (List.mem_append_left _ member)
    have last := all (request, ioStatus) (List.mem_append_right _ (List.mem_singleton_self _))
    have before := diskOk.disk earlier
    rw [State.stores, at_, WorkerPc.stores, stored_of_answer allowed last] at before
    simp only [State.stores, WorkerPc.stores, List.map_append, List.map_cons, List.map_nil, List.append_nil]
    exact before
  | completeIrp at_ _ _ present =>
    refine diskOk.keep rfl ?_ rfl rfl fun memory => by rw [at_]; rfl
    have routed := diskOk.routed _ _ present
    exact List.forall_getElem?_set (fun writes => routed writes) diskOk.routed
  | _ at_ => exact diskOk.keep rfl diskOk.routed rfl rfl fun memory => by rw [at_]; rfl

theorem step {a : Action} (diskOk : DiskOk disk s) (wf : Wf s) (moved : s.step a = some s') : DiskOk disk s' := by
  cases step_cases moved with
  | receive =>
    refine diskOk.keep rfl ?_ rfl rfl fun memory => rfl
    exact List.forall_getElem?_snoc (fun _ => ⟨by simp [Call.receive], rfl⟩) diskOk.routed
  | call present taken =>
    have outer := taken.outer
    refine diskOk.keep outer.size ?_ outer.disk outer.served fun memory => rfl
    exact List.forall_getElem?_set ((diskOk.routed _ _ present).step (wf.calls _ _ present) diskOk.sized taken)
      diskOk.routed
  | @lower _ i c sh' c' present taken =>
    have routed := diskOk.routed _ _ present
    have size : sh'.statistics.size = s.shared.statistics.size := by
      cases taken with
      | scattered => rw [scatterComplete_statistics]
      | _ => rfl
    have notWrite : c.irp.stack.majorFunction ≠ .write := fun writes => taken.present (routed writes).2
    refine diskOk.keep size ?_ ?_ (congrArg History.served taken.queue.2) fun memory => rfl
    · refine List.forall_getElem?_set (fun writes => ?_) diskOk.routed
      rw [taken.irp] at writes
      exact absurd writes notWrite
    · cases taken with
      | write at_ _ _ writes =>
        obtain ⟨-, reads, -⟩ | skipped := (wf.calls _ _ present).lowers _ (List.mem_of_getElem? at_)
        · simp [writes] at reads
        · rw [skipped] at writes
          exact absurd writes notWrite
      | scattered => exact scatterComplete_disk _ _ _ _
      | _ => rfl
  | worker taken => exact diskOk.worker_step taken
  | remover taken =>
    obtain ⟨-, history, same, worker, calls⟩ := taken.frame
    refine diskOk.keep ?_ ?_ same (congrArg History.served history) fun memory => by rw [worker]
    · cases taken <;> rfl
    · rw [calls]
      exact diskOk.routed
  | initializeDevice unknown => exact absurd unknown diskOk.sized

end DiskOk

theorem diskOk_of_run {cfg : Config} {ok : State → Action → Prop} {as : List Action} {s : State}
    (sized : cfg.size ≠ 0) (run : Run State.step ok (.initial cfg) as s) : DiskOk cfg.disk s := by
  apply And.right
  apply run.preserves (fun s => Wf s ∧ DiskOk cfg.disk s) ⟨wf_initial cfg, diskOk_initial sized⟩
  rintro t a u ⟨wf, diskOk⟩ _ moved
  exact ⟨wf.step moved, diskOk.step wf moved⟩

/-- An empty queue means that everything inserted has been served. -/
theorem Wf.queue_empty {s : State} (wf : Wf s) (empty : s.shared.queue = []) :
    s.shared.history.unlinked.length = s.shared.history.inserted.length ∧ s.worker.item? = none := by
  have none : s.pending = [] := by
    have queue := wf.queue
    rw [empty] at queue
    cases at_ : s.worker with
    | unlink addr =>
      rw [at_, WorkerPc.cleared, State.clearIrp] at queue
      exact List.map_eq_nil_iff.mp queue.symm
    | _ => rw [at_] at queue; exact queue.symm
  refine ⟨?_, ?_⟩
  · have bound := wf.unlinked_le
    have length := List.drop_eq_nil_iff.mp none
    omega
  · cases points : s.worker.item? with
    | none => rfl
    | some addr =>
      obtain ⟨item, rest, shape, -⟩ := wf.worker addr points
      rw [none] at shape
      contradiction

/-- The bytes a write is to put on the device. -/
def Irp.written (irp : Irp) : ℤ → Option UInt8 := fun x =>
  if irp.stack.majorFunction = .write ∧ irp.stack.byteOffset ≤ x ∧ x < irp.stack.byteOffset + irp.stack.length then
    some (irp.data (x - irp.stack.byteOffset))
  else none

/-- The bytes that the request behind an item is to put there. -/
def WriteQueueItem.written (irps : List Irp) (item : WriteQueueItem) : ℤ → Option UInt8 :=
  (irps[item.addr]?).elim (fun _ => none) Irp.written

/-- The bytes of everything that was inserted, oldest first. -/
def State.written (s : State) : List (ℤ → Option UInt8) :=
  s.shared.history.inserted.map (WriteQueueItem.written s.irps)

/-- The payload of a request is what its caller supplied. -/
theorem LowerRequest.store_ofIrp (addr : ℕ) (irp : Irp) : (LowerRequest.ofIrp addr irp).store = irp.written := by
  by_cases writes : irp.stack.majorFunction = .write
  · funext x
    have extent : (LowerRequest.ofIrp addr irp).extent = irp.stack.length := if_pos writes
    rw [LowerRequest.store, Irp.written, extent]
    change (if irp.stack.byteOffset ≤ x ∧ x < irp.stack.byteOffset + irp.stack.length then _ else _) = _
    by_cases inside : irp.stack.byteOffset ≤ x ∧ x < irp.stack.byteOffset + irp.stack.length
    · rw [if_pos inside, if_pos ⟨writes, inside⟩]
      rw [← irp.payload_inside (x := x - irp.stack.byteOffset) (by omega) (by omega)]
      rfl
    · rw [if_neg inside, if_neg fun within => inside within.2]
  · rw [LowerRequest.store_of_not_write writes]
    funext x
    rw [Irp.written, if_neg fun inside => writes inside.1]

/-- The copy that a lazy insertion makes is as good as the request. -/
theorem LowerRequest.store_ofItem (i : ℕ) (irp : Irp) :
    (LowerRequest.ofItem (lazyItem i irp)).store = irp.written := by
  by_cases writes : irp.stack.majorFunction = .write
  · rw [← LowerRequest.store_ofIrp i, lazyItem, if_pos writes]
    rfl
  · rw [LowerRequest.store_of_not_write]
    · funext x
      rw [Irp.written, if_neg fun inside => writes inside.1]
    · change (lazyItem i irp).majorFunction ≠ _
      rwa [lazyItem_majorFunction]

theorem WriteQueueItem.written_of_call {s : State} {item : WriteQueueItem} {c : Call}
    (present : s.calls[item.addr]? = some c) :
    item.written s.irps = c.irp.written := by
  simp [WriteQueueItem.written, State.irps, present]

/-- What the worker sends down for an item is what its caller asked for. -/
theorem Wf.request_written {s : State} (wf : Wf s) {item : WriteQueueItem} (member : item ∈ s.shared.history.inserted) :
    (item.request? s.irps).elim (fun _ => none) LowerRequest.store = item.written s.irps := by
  obtain ⟨c, present, linked⟩ := wf.linked item member
  rw [WriteQueueItem.written_of_call present]
  cases linked with
  | held same held =>
    rw [WriteQueueItem.request?_held (by rw [same]; rfl) present]
    split
    · next marker =>
      funext x
      rw [Irp.written, if_neg]
      · rfl
      · rintro ⟨writes, -⟩
        simp [IoStackLocation.isMarker, writes] at marker
    · exact LowerRequest.store_ofIrp _ _
  | lazily same kind =>
    rw [WriteQueueItem.request?_copy (by rw [same, lazyItem_irp]), same]
    exact LowerRequest.store_ofItem _ _

/-- The requests of the first items put their writes on the disk. -/
theorem Wf.replay_requests {s : State} (wf : Wf s) (disk : Bytes) (count : ℕ) :
    replay disk ((s.requests count).map LowerRequest.store) = replay disk (s.written.take count) := by
  rw [State.requests, replay_filterMap, State.written, ← List.map_take]
  congr 1
  apply List.map_congr_left
  intro item member
  exact wf.request_written (List.mem_of_mem_take member)

/-- With everything served in full the disk is the in-order application of all inserted writes. -/
theorem disk_of_queue_empty {disk : Bytes} {s : State} (wf : Wf s) (fifo : Fifo s) (diskOk : DiskOk disk s)
    (served : s.WritesServed) (empty : s.shared.queue = []) : s.shared.disk = replay disk s.written := by
  obtain ⟨all, idle⟩ := wf.queue_empty empty
  have quiet : s.worker.stores = [] ∧ s.worker.answered = 0 := by
    cases at_ : s.worker <;> simp [at_, WorkerPc.item?, WorkerPc.stores, WorkerPc.answered] at idle ⊢
  have answers := fifo.served
  rw [quiet.2, Nat.add_zero, all] at answers
  have applied := wf.replay_requests disk s.shared.history.inserted.length
  rw [← answers, List.map_map, List.take_of_length_le (by rw [State.written, List.length_map])] at applied
  rw [diskOk.disk served, State.stores, quiet.1, List.append_nil, ← applied]
  rfl

/-- A request that cannot be built leaves the queue, its counters and its log as they are, with the
same item at the head. -/
theorem failed_build {s s' : State} {addr : ℕ} {item : WriteQueueItem} (wf : Wf s)
    (at_ : s.worker = .dispatch addr) (found : s.item? addr = some item) (copy : item.irp = none)
    (moved : s.step (.worker false) = some s') :
    s'.worker = .look ∧ s'.shared.history = s.shared.history ∧
      (∃ rest, s.shared.queue = item :: rest ∧ s'.shared.queue = item :: rest) ∧
      s'.shared.statistics.writeQueueItems = s.shared.statistics.writeQueueItems ∧
      s'.shared.statistics.writeQueueSize = s.shared.statistics.writeQueueSize := by
  obtain ⟨rest, -, -, queue⟩ := wf.found (by rw [at_]; rfl) found (by simp [at_])
  simp only [State.step, State.stepWorker, at_, found, Option.bind_some, State.dispatchItem, copy,
    Bool.false_eq_true, if_false, Option.some.injEq] at moved
  subst moved
  exact ⟨rfl, rfl, ⟨rest, queue, queue⟩, rfl, rfl⟩

/-- In every reachable state the requests sent to the lower driver are those of a prefix of the inserted items, in
order, each once and one at a time, each for the function, the range and the bytes its caller asked for; a request
that cannot be built changes nothing; the worker completes an item's request after everything before it; and with
every write served the disk behind an empty queue is the in-order application of all writes that were inserted. -/
theorem serial_fifo (cfg : Config) (as : List Action) (s : State)
    (run : Run State.step anyStep (.initial cfg) as s) :
    (∃ count ≤ s.shared.history.inserted.length,
      s.Sent (s.shared.history.inserted.take count) s.shared.history.issued) ∧
    (s.shared.history.issued.map LowerRequest.item).Nodup ∧
    s.shared.history.issued = s.shared.history.served.map Prod.fst ++ s.worker.inFlight ∧
    (∀ addr item s', s.worker = .dispatch addr → s.item? addr = some item → item.irp = none →
      s.step (.worker false) = some s' → s'.worker = .look ∧ s'.shared.history = s.shared.history ∧
        (∃ rest, s.shared.queue = item :: rest ∧ s'.shared.queue = item :: rest) ∧
        s'.shared.statistics.writeQueueItems = s.shared.statistics.writeQueueItems ∧
        s'.shared.statistics.writeQueueSize = s.shared.statistics.writeQueueSize) ∧
    (∀ a s' i c c' completion, s.step a = some s' → s.calls[i]? = some c → s'.calls[i]? = some c' →
      c'.completions = c.completions ++ [completion] → completion.site = .worker →
      ∃ before item after, s.shared.history.inserted = before ++ item :: after ∧ item.irp = some i ∧
        s.shared.history.unlinked = before.map WriteQueueItem.addr ∧
        s.Sent (before ++ [item]) (s.shared.history.served.map Prod.fst)) ∧
    (cfg.size ≠ 0 → s.WritesServed → s.shared.queue = [] → s.shared.disk = replay cfg.disk s.written) := by
  have wf := wf_of_run run
  have fifo := fifo_of_run run
  refine ⟨⟨_, wf.sent_le, ?_⟩, fifo.issued_nodup wf, fifo.issued_served, ?_, ?_, ?_⟩
  · rw [fifo.issued]
    exact wf.sent fun item member => List.mem_of_mem_take member
  · intro addr item s' at_ found copy moved
    exact failed_build wf at_ found copy moved
  · intro a s' i c c' completion moved present there added site
    obtain ⟨addr, ioStatus, item, rest, at_, shape, holds, -⟩ :=
      wf.worker_completes moved present there added site
    obtain ⟨before, inserted, unlinked, served⟩ := fifo.completes_in_order wf at_ shape
    refine ⟨before, item, rest, inserted, holds, unlinked, ?_⟩
    rw [served]
    apply wf.sent
    intro other member
    rw [inserted]
    simp only [List.mem_append, List.mem_cons] at member ⊢
    tauto
  · intro sized served empty
    exact disk_of_queue_empty wf fifo (diskOk_of_run sized run) served empty

/-- One lazy write, from its request to the disk. -/
def lazyWriteServed : List Action :=
  [.receive (writeSector0 7)] ++ callSteps 0 12 ++ workerSteps 2 ++
    [.workerTransfer 0, .workerLowerComplete ⟨STATUS_SUCCESS, 512⟩] ++ workerSteps 2

theorem serial_fifo_lazyWrite : ∃ s, Run State.step anyStep (.initial smallDevice) lazyWriteServed s ∧
    s.shared.history.inserted.length = 1 ∧ s.shared.disk 511 = 7 ∧
    s.shared.disk = replay smallDevice.disk s.written := by
  have run := run_of_replay smallDevice lazyWriteServed (by decide +kernel)
  obtain ⟨-, -, -, -, -, disk⟩ := serial_fifo smallDevice _ _ run
  exact ⟨_, run, by decide +kernel, by decide +kernel, disk (by decide) (by decide +kernel)
    (List.isEmpty_iff.mp (by decide +kernel))⟩

end QueueCache
