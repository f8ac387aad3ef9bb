import QueueCache.Model.Call

/-! # The device: clients, the worker, the remover and the lower driver

A `State` of one filtered device holds every dispatch call it ever received, the worker's and the
remover's program points and what they share. An `Action` is one step of one party, with everything
the environment decides in it; any interleaving of the parties is a list of actions. A party that
waits, or that would follow a dangling pointer, cannot step.
-/

namespace QueueCache

/-- Program points of `QCacheDeviceWorkerThread` and of `QCacheDispatchQueuedItem` on the item at an
address. -/
inductive WorkerPc where
  /-- About to read `WriteQueue.Flink` under the lock. -/
  | look
  /-- Found the queue empty; about to test `ShutdownThread`. -/
  | testShutdown
  | wait
  | dispatch (item : ℕ)
  /-- Waiting for the lower driver, which has transferred the sectors `moved`. -/
  | lower (request : LowerRequest) (moved : List ℤ)
  /-- Past the lower driver; the item's request, if any, carries this status block. -/
  | complete (item : ℕ) (ioStatus : IoStatusBlock)
  | unlink (item : ℕ)
  | exited

/-- Program points of `QCacheRemoveDevice`, called by `QCachePnp` with the remove lock held. -/
inductive RemoverPc where
  | idle
  | clearCached
  | storeShutdown
  | setEvent
  | waitWorker
  | flush
  | sendDown
  | releaseLock
  | waitHolds
  | detach
  | deleted
deriving DecidableEq, Repr

structure State where
  shared : Shared
  calls : List Call := []
  worker : WorkerPc := .look
  remover : RemoverPc := .idle

/-- The attached device: the limits from the registry, the size known so far and the disk below. -/
structure Config where
  maxQueueItems : ℤ
  maxQueueSize : ℤ
  size : ℤ
  disk : Bytes := fun _ => 0
  size_range : -2 ^ 63 ≤ size ∧ size < 2 ^ 63 := by decide

/-- What `QCacheAttachDevice` leaves behind, with the worker about to run. -/
def State.initial (cfg : Config) : State where
  shared := {
    extension.statistics := {
      isCached := true
      size := cfg.size
      maxQueueItems := cfg.maxQueueItems
      maxQueueSize := cfg.maxQueueSize }
    disk := cfg.disk }

inductive Action where
  /-- A client issues a request. -/
  | receive (irp : Irp)
  /-- The dispatch call `i` takes its next step. -/
  | call (i : ℕ) (out : Outcome)
  /-- The lower device transfers one sector of a request of call `i`. -/
  | transfer (i n : ℕ) (s : ℤ)
  /-- The lower driver completes a request of call `i`. -/
  | lowerComplete (i n : ℕ) (ioStatus : IoStatusBlock)
  /-- The worker takes its next step; `memory` is whether a lower request can be built. -/
  | worker (memory : Bool)
  /-- The lower device transfers one sector of the worker's request. -/
  | workerTransfer (s : ℤ)
  /-- The lower driver completes the worker's request. -/
  | workerLowerComplete (ioStatus : IoStatusBlock)
  | remover
  /-- `QCacheInitializeDevice` learns the size of the device. -/
  | initializeDevice (size : ℤ)

/-- `IoBuildSynchronousFsdRequest` on the item's own copy; a write gets `SL_WRITE_THROUGH`. -/
def LowerRequest.ofItem (item : WriteQueueItem) : LowerRequest where
  item := item.addr
  majorFunction := item.majorFunction
  offset := item.offset
  length := item.length
  data := item.buffer
  writeThrough := item.majorFunction = .write

/-- The item's original request with its stack location copied to the lower driver's. -/
def LowerRequest.ofIrp (item : ℕ) (irp : Irp) : LowerRequest where
  item := item
  majorFunction := irp.stack.majorFunction
  offset := irp.stack.byteOffset
  length := irp.stack.length
  data := irp.payload
  writeThrough := irp.stack.writeThrough

/-- The bytes the lower device transfers for the request. -/
def LowerRequest.extent (request : LowerRequest) : ℕ :=
  if request.majorFunction = .write then request.length else 0

def LowerRequest.done (request : LowerRequest) (moved : List ℤ) : Bool :=
  (sectorsOf request.offset request.extent).all fun s => s ∈ moved

namespace State

/-- Follow the worker's pointer to its item. -/
def item? (s : State) (addr : ℕ) : Option WriteQueueItem :=
  s.shared.queue.find? fun item => item.addr == addr

/-- The worker's `IoCallDriver`. -/
def issue (s : State) (request : LowerRequest) : State :=
  { s with
    worker := .lower request []
    shared.history.issued := s.shared.history.issued ++ [request] }

/-- The first part of `QCacheDispatchQueuedItem`, up to the lower driver. -/
def dispatchItem (s : State) (item : WriteQueueItem) (memory : Bool) : Option State :=
  match item.irp with
  | some i => s.calls[i]?.map fun c =>
      if c.irp.stack.isMarker then { s with worker := .complete item.addr ⟨STATUS_SUCCESS, 0⟩ }
      else s.issue (.ofIrp item.addr c.irp)
  | none =>
    if memory then some (s.issue (.ofItem item))
    else some { s with
      worker := .look
      shared := s.shared.withStatistics
        { s.shared.statistics with lastErrorCode := STATUS_INSUFFICIENT_RESOURCES } }

/-- `Item->Irp = NULL`. -/
def clearIrp (queue : List WriteQueueItem) (addr : ℕ) : List WriteQueueItem :=
  queue.map fun item => if item.addr = addr then { item with irp := none } else item

/-- `IoCompleteRequest (Item->Irp)`, if there is one, with the status block it carries. -/
def completeItem (s : State) (item : WriteQueueItem) (ioStatus : IoStatusBlock) : Option State :=
  match item.irp with
  | some i => s.calls[i]?.map fun c =>
      { s with
        worker := .unlink item.addr
        calls := s.calls.set i
          ({ c with information := ioStatus.information }.completeRequest .worker ioStatus.status)
        shared := s.shared.withQueue (clearIrp s.shared.queue item.addr) }
  | none => some { s with worker := .unlink item.addr }

/-- The end of `QCacheDispatchQueuedItem`: unlink under the lock, release the remove lock, delete the item. One step
here; `FineState` has the states in between. -/
def unlinkItem (s : State) (item : WriteQueueItem) : State :=
  { s with
    worker := .look
    shared := (s.shared.removeEntryList item).ioReleaseRemoveLock.deleteItem item.addr }

/-- One step of the worker thread. -/
def stepWorker (s : State) (memory : Bool) : Option State :=
  match s.worker with
  | .look =>
    match s.shared.queue with
    | [] => some { s with worker := .testShutdown }
    | item :: _ => some { s with worker := .dispatch item.addr }
  | .testShutdown =>
    some { s with worker := if s.shared.extension.shutdownThread then .exited else .wait }
  | .wait =>
    if s.shared.extension.writeQueueEvent then
      some { s with worker := .look, shared := s.shared.signal false }
    else none
  | .dispatch addr => (s.item? addr).bind fun item => s.dispatchItem item memory
  | .lower _ _ => none
  | .complete addr ioStatus => (s.item? addr).bind fun item => s.completeItem item ioStatus
  | .unlink addr => (s.item? addr).map s.unlinkItem
  | .exited => none

/-- One step of `QCacheRemoveDevice`. -/
def stepRemover (s : State) : Option State :=
  match s.remover with
  | .idle =>
    if s.shared.canAcquire true then
      some { s with remover := .clearCached, shared := s.shared.ioAcquireRemoveLock }
    else none
  | .clearCached => some { s with
      remover := .storeShutdown
      shared := s.shared.withStatistics { s.shared.statistics with isCached := false } }
  | .storeShutdown => some { s with remover := .setEvent, shared.extension.shutdownThread := true }
  | .setEvent => some { s with remover := .waitWorker, shared := s.shared.signal true }
  | .waitWorker =>
    match s.worker with
    | .exited => some { s with remover := .flush }
    | _ => none
  | .flush => some { s with remover := .sendDown }
  | .sendDown => some { s with remover := .releaseLock }
  | .releaseLock =>
    -- `IoReleaseRemoveLockAndWait`: no further hold is granted from here on.
    some { s with
      remover := .waitHolds
      shared := { s.shared.ioReleaseRemoveLock with extension.removeLock.removed := true } }
  | .waitHolds =>
    if s.shared.extension.removeLock.ioCount = 0 then some { s with remover := .detach } else none
  | .detach => some { s with remover := .deleted }
  | .deleted => none

/-- Install what a step of call `i` did to the shared data and to the call. -/
def update (s : State) (i : ℕ) (result : Shared × Call) : State :=
  { s with shared := result.1, calls := s.calls.set i result.2 }

section update

variable (s : State) (i : ℕ) (sh : Shared) (c : Call)

@[simp] theorem update_shared : (s.update i (sh, c)).shared = sh := rfl

@[simp] theorem update_calls : (s.update i (sh, c)).calls = s.calls.set i c := rfl

@[simp] theorem update_worker : (s.update i (sh, c)).worker = s.worker := rfl

@[simp] theorem update_remover : (s.update i (sh, c)).remover = s.remover := rfl

end update

/-- The step function of the device. -/
def step (s : State) : Action → Option State
  | .receive irp =>
    if s.remover = .deleted then none else some { s with calls := s.calls ++ [.receive irp] }
  | .call i out => s.calls[i]?.bind fun c => (callStep s.shared i c out).map (s.update i)
  | .transfer i n sec => s.calls[i]?.bind fun c => (QueueCache.transfer s.shared c n sec).map (s.update i)
  | .lowerComplete i n ioStatus =>
    s.calls[i]?.bind fun c => (QueueCache.lowerComplete s.shared i c n ioStatus).map (s.update i)
  | .worker memory => s.stepWorker memory
  | .workerTransfer sec =>
    match s.worker with
    | .lower request moved =>
      if sec ∈ sectorsOf request.offset request.extent ∧ sec ∉ moved then
        some { s with
          worker := .lower request (sec :: moved)
          shared.disk := writeSector s.shared.disk request.offset request.data 0 request.extent sec }
      else none
    | _ => none
  | .workerLowerComplete ioStatus =>
    match s.worker with
    | .lower request moved =>
      if admissible ioStatus request.length (request.done moved) then
        some { s with
          worker := .complete request.item ioStatus
          shared.history.served := s.shared.history.served ++ [(request, ioStatus)] }
      else none
    | _ => none
  | .remover => s.stepRemover
  | .initializeDevice size =>
    if s.shared.statistics.size = 0 ∧ -2 ^ 63 ≤ size ∧ size < 2 ^ 63 then
      some { s with
        shared := s.shared.withStatistics
          { s.shared.statistics with size := size, lastErrorCode := STATUS_SUCCESS } }
    else none

end State

end QueueCache
