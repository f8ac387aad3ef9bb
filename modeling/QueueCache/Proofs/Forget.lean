import QueueCache.Model.DeviceSteps

/-! # What no step of the device depends on

The last error and the paging path count are written, and copied for whoever asks for the statistics, but
never read. The number of holds on the remove lock is read by nobody but a removal that waits for it to be
zero. `forget` clears the first two and takes a number of holds away; it commutes with every step.
-/

namespace QueueCache

def DeviceStatistics.forget (statistics : DeviceStatistics) : DeviceStatistics :=
  { statistics with lastErrorCode := STATUS_SUCCESS, pagingPathCount := 0 }

def Shared.forget (holds : ℤ) (sh : Shared) : Shared :=
  { sh with
    extension.statistics := sh.statistics.forget
    extension.removeLock.ioCount := sh.extension.removeLock.ioCount - holds }

def Call.forget (c : Call) : Call := { c with deviceData := c.deviceData.map DeviceStatistics.forget }

def State.forget (holds : ℤ) (s : State) : State :=
  { s with shared := s.shared.forget holds, calls := s.calls.map Call.forget }

section Shared

variable (holds : ℤ) (sh : Shared)

@[simp] theorem Shared.forget_statistics : (sh.forget holds).statistics = sh.statistics.forget := rfl

@[simp] theorem Shared.forget_queue : (sh.forget holds).queue = sh.queue := rfl

@[simp] theorem Shared.forget_canAcquire (granted : Bool) :
    (sh.forget holds).canAcquire granted = sh.canAcquire granted := rfl

theorem Shared.forget_ioAcquireRemoveLock :
    sh.ioAcquireRemoveLock.forget holds = (sh.forget holds).ioAcquireRemoveLock := by
  simp only [forget, ioAcquireRemoveLock, statistics_mk]
  congr 3
  omega

theorem Shared.forget_ioReleaseRemoveLock :
    sh.ioReleaseRemoveLock.forget holds = (sh.forget holds).ioReleaseRemoveLock := by
  simp only [forget, ioReleaseRemoveLock, statistics_mk]
  congr 3
  omega

end Shared

section Call

variable (holds : ℤ) (sh : Shared) (c : Call) (out : Outcome) (i : ℕ)

theorem qcacheRead_forget : qcacheRead (sh.forget holds) c.forget out =
    Prod.map (Shared.forget holds) Call.forget (qcacheRead sh c out) := by
  unfold qcacheRead
  simp only [apply_ite (Prod.map _ _)]
  rfl

theorem qcacheWrite_forget : qcacheWrite (sh.forget holds) c.forget =
    Prod.map (Shared.forget holds) Call.forget (qcacheWrite sh c) := by
  unfold qcacheWrite
  simp only [apply_ite (Prod.map _ _)]
  rfl

theorem qcacheDeviceControl_forget : qcacheDeviceControl (sh.forget holds) c.forget =
    Prod.map (Shared.forget holds) Call.forget (qcacheDeviceControl sh c) := by
  unfold qcacheDeviceControl
  simp only [apply_ite (Prod.map _ _)]
  rfl

theorem dispatch_forget : dispatch (sh.forget holds) c.forget out =
    Prod.map (Shared.forget holds) Call.forget (dispatch sh c out) := by
  unfold dispatch
  have major : c.forget.irp.stack.majorFunction = c.irp.stack.majorFunction := rfl
  rw [major]
  cases c.irp.stack.majorFunction with
  | read => exact qcacheRead_forget holds sh c out
  | write => exact qcacheWrite_forget holds sh c
  | deviceControl => exact qcacheDeviceControl_forget holds sh c
  | internalDeviceControl => exact qcacheDeviceControl_forget holds sh c
  | _ => rfl

def ScanState.forget (scan : ScanState) : ScanState := { scan with statistics := scan.statistics.forget }

theorem scanEntry_forget (io : IoStackLocation) (scan : ScanState) (item : WriteQueueItem) :
    scanEntry io scan.forget item = (scanEntry io scan item).forget := by
  unfold scanEntry
  rw [apply_ite ScanState.forget]
  rfl

theorem scanWriteQueue_forget (io : IoStackLocation) (buffer : Bytes) (statistics : DeviceStatistics)
    (queue : List WriteQueueItem) :
    scanWriteQueue io buffer statistics.forget queue = (scanWriteQueue io buffer statistics queue).forget := by
  unfold scanWriteQueue
  change queue.foldl (scanEntry io) (ScanState.forget ⟨buffer, fun _ => false, false, statistics⟩) = _
  exact List.foldl_hom ScanState.forget (scanEntry_forget io)

theorem qcacheReadScan_forget : qcacheReadScan (sh.forget holds) c.forget =
    Prod.map (Shared.forget holds) Call.forget (qcacheReadScan sh c) := by
  unfold qcacheReadScan
  dsimp only
  have irp : c.forget.irp = c.irp := rfl
  have buffer : c.forget.buffer = c.buffer := rfl
  rw [irp, buffer, Shared.forget_statistics, Shared.forget_queue, scanWriteQueue_forget]
  simp only [apply_ite (Prod.map _ _)]
  rfl

theorem scatterComplete_forget (scatter : ScatteredIrp) : scatterComplete (sh.forget holds) i c.forget scatter =
    Prod.map (Shared.forget holds) Call.forget (scatterComplete sh i c scatter) := by
  unfold scatterComplete
  dsimp only
  split
  · rw [← Shared.forget_ioReleaseRemoveLock]
    rfl
  · rfl

theorem qcacheReadSplit_forget (scatter : ScatteredIrp) (bitmap : Bitmap) (clearIndex clearBits splits : ℕ)
    (memory : Bool) :
    qcacheReadSplit (sh.forget holds) c.forget scatter bitmap clearIndex clearBits splits memory =
      Prod.map (Shared.forget holds) Call.forget
        (qcacheReadSplit sh c scatter bitmap clearIndex clearBits splits memory) := by
  unfold qcacheReadSplit
  dsimp only
  have stack : c.forget.irp.stack = c.irp.stack := rfl
  rw [stack]
  split
  · split <;> rfl
  · rfl

theorem callStep_forget : callStep (sh.forget holds) i c.forget out =
    (callStep sh i c out).map (Prod.map (Shared.forget holds) Call.forget) := by
  unfold callStep
  have pc : c.forget.pc = c.pc := rfl
  rw [pc]
  cases c.pc with
  | entry => simp only [dispatch_forget, Option.map_some]
  | queueIrp =>
    simp only [apply_ite (Option.map _)]
    rfl
  | testMemory =>
    simp only [apply_ite (Option.map _)]
    rfl
  | testSize =>
    simp only [apply_ite (Option.map _)]
    rfl
  | testItems =>
    simp only [apply_ite (Option.map _)]
    rfl
  | newItem =>
    simp only [apply_ite (Option.map _)]
    rfl
  | lazyNewItem =>
    simp only [apply_ite (Option.map _)]
    rfl
  | lazyMapMdl =>
    simp only [apply_ite (Option.map _)]
    rfl
  | lazyNewPayload =>
    simp only [apply_ite (Option.map _)]
    rfl
  | acquireLock =>
    rw [← Shared.forget_ioAcquireRemoveLock]
    simp only [apply_ite (Option.map _)]
    rfl
  | lazyAcquireLock =>
    rw [← Shared.forget_ioAcquireRemoveLock]
    simp only [apply_ite (Option.map _)]
    rfl
  | scanQueue => simp only [qcacheReadScan_forget, Option.map_some]
  | createScatter =>
    rw [← Shared.forget_ioAcquireRemoveLock, ← Shared.forget_ioReleaseRemoveLock]
    simp only [apply_ite (Option.map _)]
    rfl
  | split bitmap clearIndex clearBits splits =>
    have scatter : c.forget.scatter = c.scatter := rfl
    simp only [scatter, qcacheReadSplit_forget, Option.map_map]
    rfl
  | finishScatter splits =>
    have scatter : c.forget.scatter = c.scatter := rfl
    simp only [scatter, Option.map_map]
    refine Option.map_congr fun live _ => ?_
    rw [Function.comp_apply, ← scatterComplete_forget]
    rfl
  | _ => rfl

theorem transfer_forget (n : ℕ) (sec : ℤ) : QueueCache.transfer (sh.forget holds) c.forget n sec =
    (QueueCache.transfer sh c n sec).map (Prod.map (Shared.forget holds) Call.forget) := by
  unfold QueueCache.transfer
  have lowerIrps : c.forget.lowerIrps = c.lowerIrps := rfl
  rw [lowerIrps, Option.map_bind]
  congr 1
  funext lower
  simp only [Function.comp_apply, apply_ite (Option.map _)]
  rfl

theorem lowerComplete_forget (n : ℕ) (ioStatus : IoStatusBlock) :
    QueueCache.lowerComplete (sh.forget holds) i c.forget n ioStatus =
      (QueueCache.lowerComplete sh i c n ioStatus).map (Prod.map (Shared.forget holds) Call.forget) := by
  unfold QueueCache.lowerComplete
  have lowerIrps : c.forget.lowerIrps = c.lowerIrps := rfl
  rw [lowerIrps, Option.map_bind]
  congr 1
  funext lower
  simp only [Function.comp_apply, apply_ite (Option.map _), Option.map_map, Option.map_some, Option.map_none]
  congr 2
  refine Option.map_congr fun live _ => ?_
  exact scatterComplete_forget holds sh { c with lowerIrps := c.lowerIrps.eraseIdx n } i _

end Call

section State

variable (holds : ℤ) (s : State)

@[simp] theorem Shared.forget_forget (sh : Shared) : (sh.forget holds).forget 0 = sh.forget holds := by
  simp only [forget, statistics_mk, sub_zero]
  rfl

@[simp] theorem State.forget_forget : (s.forget holds).forget 0 = s.forget holds := by
  have calls : (s.forget holds).calls.map Call.forget = (s.forget holds).calls := by
    change (s.calls.map Call.forget).map Call.forget = s.calls.map Call.forget
    rw [List.map_map]
    refine List.map_congr_left fun c _ => ?_
    change ({ c with deviceData := (c.deviceData.map DeviceStatistics.forget).map DeviceStatistics.forget } : Call) = _
    rw [Option.map_map]
    rfl
  rw [forget, calls]
  change ({ s.forget holds with shared := (s.shared.forget holds).forget 0 } : State) = _
  rw [Shared.forget_forget]
  rfl

theorem State.forget_calls (i : ℕ) : (s.forget holds).calls[i]? = s.calls[i]?.map Call.forget := List.getElem?_map ..

theorem State.forget_update (i : ℕ) (result : Shared × Call) :
    (s.update i result).forget holds = (s.forget holds).update i (result.map (Shared.forget holds) Call.forget) := by
  simp only [State.forget, State.update, List.map_set]
  rfl

/-- The worker's step from what is left, at its own program point and with its own shared data. -/
theorem State.forget_at (sh : Shared) (worker : WorkerPc) :
    State.forget 0 { s.forget holds with worker, shared := sh.forget holds } =
      State.forget holds { s with worker, shared := sh } :=
  State.forget_forget holds { s with worker, shared := sh }

theorem State.issue_forget (request : LowerRequest) :
    ((s.forget holds).issue request).forget 0 = (s.issue request).forget holds :=
  State.forget_at holds s { s.shared with history.issued := s.shared.history.issued ++ [request] } (.lower request [])

theorem State.dispatchItem_forget (item : WriteQueueItem) (memory : Bool) :
    ((s.forget holds).dispatchItem item memory).map (State.forget 0) =
      (s.dispatchItem item memory).map (State.forget holds) := by
  unfold State.dispatchItem
  cases item.irp with
  | some i =>
    simp only [State.forget_calls, Option.map_map]
    refine Option.map_congr fun c _ => ?_
    simp only [Function.comp_apply, apply_ite (State.forget _)]
    congr 1
    · exact State.forget_at holds s s.shared _
    · exact State.issue_forget holds s (.ofIrp item.addr c.irp)
  | none =>
    simp only [apply_ite (Option.map _), Option.map_some]
    congr 2
    · exact State.issue_forget holds s (.ofItem item)
    · exact State.forget_at holds s (s.shared.withStatistics
        { s.shared.statistics with lastErrorCode := STATUS_INSUFFICIENT_RESOURCES }) _

theorem State.completeItem_forget (item : WriteQueueItem) (ioStatus : IoStatusBlock) :
    (s.forget holds).completeItem item ioStatus = (s.completeItem item ioStatus).map (State.forget holds) := by
  unfold State.completeItem
  cases item.irp with
  | some i =>
    simp only [State.forget_calls, Option.map_map]
    refine Option.map_congr fun c _ => ?_
    simp only [Function.comp_apply, State.forget, List.map_set]
    rfl
  | none => rfl

theorem State.unlinkItem_forget (item : WriteQueueItem) :
    (s.forget holds).unlinkItem item = (s.unlinkItem item).forget holds := by
  have shared : ((s.shared.removeEntryList item).forget holds).ioReleaseRemoveLock.deleteItem item.addr =
      ((s.shared.removeEntryList item).ioReleaseRemoveLock.deleteItem item.addr).forget holds := by
    rw [← Shared.forget_ioReleaseRemoveLock]
    rfl
  unfold State.unlinkItem
  rw [State.forget, State.forget, ← shared]
  rfl

theorem State.stepWorker_forget (memory : Bool) :
    ((s.forget holds).stepWorker memory).map (State.forget 0) = (s.stepWorker memory).map (State.forget holds) := by
  unfold State.stepWorker
  have worker : (s.forget holds).worker = s.worker := rfl
  have queue : (s.forget holds).shared.queue = s.shared.queue := rfl
  have item? (addr : ℕ) : (s.forget holds).item? addr = s.item? addr := rfl
  rw [worker]
  cases s.worker with
  | look =>
    dsimp only
    rw [queue]
    cases s.shared.queue with
    | nil => exact congrArg some (State.forget_at holds s s.shared .testShutdown)
    | cons item rest => exact congrArg some (State.forget_at holds s s.shared (.dispatch item.addr))
  | testShutdown => exact congrArg some (State.forget_at holds s s.shared _)
  | wait =>
    simp only [apply_ite (Option.map _)]
    congr 1
    exact congrArg some (State.forget_at holds s (s.shared.signal false) .look)
  | dispatch addr =>
    simp only [item?, Option.map_bind]
    congr 1
    funext item
    exact State.dispatchItem_forget holds s item memory
  | complete addr ioStatus =>
    simp only [item?, Option.map_bind, State.completeItem_forget]
    congr 1
    funext item
    simp only [Function.comp_apply, Option.map_map]
    refine Option.map_congr fun _ _ => State.forget_forget ..
  | unlink addr =>
    simp only [item?, Option.map_map]
    refine Option.map_congr fun item _ => ?_
    simp only [Function.comp_apply, State.unlinkItem_forget, State.forget_forget]
  | _ => rfl

/-- The remover's steps, but for the wait for the last hold. -/
theorem State.stepRemover_forget (waitsNot : s.remover = .waitHolds → holds = 0) :
    ((s.forget holds).stepRemover).map (State.forget 0) = s.stepRemover.map (State.forget holds) := by
  have moves (sh : Shared) (worker : WorkerPc) (remover : RemoverPc) :
      State.forget 0 { s.forget holds with worker, remover, shared := sh.forget holds } =
        State.forget holds { s with worker, remover, shared := sh } :=
    State.forget_forget holds { s with worker, remover, shared := sh }
  unfold State.stepRemover
  have remover : (s.forget holds).remover = s.remover := rfl
  have worker : (s.forget holds).worker = s.worker := rfl
  have shared : (s.forget holds).shared = s.shared.forget holds := rfl
  rw [remover]
  cases at_ : s.remover with
  | idle =>
    simp only [apply_ite (Option.map _), Option.map_some, Option.map_none, shared, Shared.forget_canAcquire,
      ← Shared.forget_ioAcquireRemoveLock]
    congr 2
    exact moves s.shared.ioAcquireRemoveLock s.worker .clearCached
  | clearCached =>
    exact congrArg some (moves (s.shared.withStatistics { s.shared.statistics with isCached := false }) s.worker _)
  | storeShutdown => exact congrArg some (moves { s.shared with extension.shutdownThread := true } s.worker .setEvent)
  | setEvent => exact congrArg some (moves (s.shared.signal true) s.worker .waitWorker)
  | waitWorker =>
    dsimp only
    rw [worker]
    cases s.worker with
    | exited => exact congrArg some (moves s.shared .exited .flush)
    | _ => rfl
  | flush => exact congrArg some (moves s.shared s.worker .sendDown)
  | sendDown => exact congrArg some (moves s.shared s.worker .releaseLock)
  | releaseLock =>
    simp only [Option.map_some, shared, ← Shared.forget_ioReleaseRemoveLock]
    exact congrArg some
      (moves { s.shared.ioReleaseRemoveLock with extension.removeLock.removed := true } s.worker .waitHolds)
  | waitHolds =>
    obtain rfl := waitsNot at_
    have same : (s.forget 0).shared.extension.removeLock.ioCount = s.shared.extension.removeLock.ioCount := sub_zero _
    simp only [same, apply_ite (Option.map _)]
    congr 1
    exact congrArg some (moves s.shared s.worker .detach)
  | detach => exact congrArg some (moves s.shared s.worker .deleted)
  | deleted => rfl

theorem State.update_forget (i : ℕ) (result : Option (Shared × Call)) :
    ((result.map (Prod.map (Shared.forget holds) Call.forget)).map ((s.forget holds).update i)).map (State.forget 0) =
      (result.map (s.update i)).map (State.forget holds) := by
  simp only [Option.map_map]
  refine Option.map_congr fun result _ => ?_
  change ((s.forget holds).update i (result.map (Shared.forget holds) Call.forget)).forget 0 = _
  rw [← State.forget_update, State.forget_forget]
  rfl

/-- Every step can be taken with or without what `forget` takes away, and leads to the same. -/
theorem State.step_forget {a : Action} (waitsNot : a = .remover → s.remover = .waitHolds → holds = 0) :
    ((s.forget holds).step a).map (State.forget 0) = (s.step a).map (State.forget holds) := by
  have shared : (s.forget holds).shared = s.shared.forget holds := rfl
  have worker : (s.forget holds).worker = s.worker := rfl
  cases a with
  | receive irp =>
    have received : State.forget holds { s with calls := s.calls ++ [.receive irp] } =
        { s.forget holds with calls := (s.forget holds).calls ++ [.receive irp] } := by
      simp only [State.forget, List.map_append]
      rfl
    have forgotten := State.forget_forget holds { s with calls := s.calls ++ [.receive irp] }
    rw [received] at forgotten
    simp only [State.step, apply_ite (Option.map _), Option.map_some, Option.map_none, received, forgotten]
    rfl
  | call i out =>
    simp only [State.step, State.forget_calls, shared, Option.map_bind, Option.bind_map]
    congr 1
    funext c
    simp only [Function.comp_apply, callStep_forget]
    exact State.update_forget holds s i _
  | transfer i n sec =>
    simp only [State.step, State.forget_calls, shared, Option.map_bind, Option.bind_map]
    congr 1
    funext c
    simp only [Function.comp_apply, transfer_forget]
    exact State.update_forget holds s i _
  | lowerComplete i n ioStatus =>
    simp only [State.step, State.forget_calls, shared, Option.map_bind, Option.bind_map]
    congr 1
    funext c
    simp only [Function.comp_apply, lowerComplete_forget]
    exact State.update_forget holds s i _
  | worker memory => exact State.stepWorker_forget holds s memory
  | workerTransfer sec =>
    simp only [State.step, worker]
    cases s.worker with
    | lower request moved =>
      simp only [apply_ite (Option.map _)]
      congr 1
      exact congrArg some (State.forget_at holds s { s.shared with
        disk := writeSector s.shared.disk request.offset request.data 0 request.extent sec } _)
    | _ => rfl
  | workerLowerComplete ioStatus =>
    simp only [State.step, worker]
    cases s.worker with
    | lower request moved =>
      simp only [apply_ite (Option.map _)]
      congr 1
      exact congrArg some (State.forget_at holds s { s.shared with
        history.served := s.shared.history.served ++ [(request, ioStatus)] } _)
    | _ => rfl
  | remover => exact State.stepRemover_forget holds s (waitsNot rfl)
  | initializeDevice size =>
    simp only [State.step, apply_ite (Option.map _)]
    congr 1
    exact congrArg some (State.forget_at holds s (s.shared.withStatistics
      { s.shared.statistics with size := size, lastErrorCode := STATUS_SUCCESS }) s.worker)

end State

end QueueCache
