import QueueCache.Model.Device
import QueueCache.Model.PagingPath

/-! # The filter device: plug and play beside the queue

A `Filter` adds to the device what `QCachePnp` does beside it: starting the device with its query for the
size, usage notifications, the removal and the requests it passes on, each under the remove lock. The
remover of the device is the `IRP_MN_REMOVE_DEVICE` request here. `QCacheInitializeDevice` lets one party
at a time query the size, with a mutex and an auto-reset event of its own.
-/

namespace QueueCache

/-- The minor functions `QCachePnp` distinguishes. -/
inductive PnpMinorFunction where
  | startDevice
  | removeDevice
  | deviceUsageNotification (notification : UsageNotification)
  | other
deriving DecidableEq, Repr

/-- What enters the filter beside the requests of the device: a PnP request, or the rest of
`QCacheAttachLegacyDevice` behind the attachment. -/
inductive Occasion where
  | pnp (minorFunction : PnpMinorFunction)
  | attachLegacyDevice
deriving DecidableEq, Repr

/-- `GET_LENGTH_INFORMATION`, a signed 64-bit value. -/
abbrev LengthInformation := {length : ℤ // -2 ^ 63 ≤ length ∧ length < 2 ^ 63}

theorem LengthInformation.zero_range : -2 ^ 63 ≤ (0 : ℤ) ∧ (0 : ℤ) < 2 ^ 63 := by decide

/-- What the kernel and the lower driver decide during one step: whether the memory for a request is there,
the status the lower driver returns or completes with, and the length it reports. -/
structure Decision where
  memory : Bool := true
  status : NtStatus := STATUS_SUCCESS
  information : LengthInformation := ⟨0, LengthInformation.zero_range⟩
deriving DecidableEq, Repr

/-- Program points of `QCacheInitializeDevice`, with `QCacheInitializeDeviceUnsafe` and its call of
`QCacheSynchronousDeviceControl`. -/
inductive InitializePc where
  | acquireMutex
  | waitEvent
  | releaseMutex
  /-- About to test the size again. -/
  | testSize
  | allocateIrp
  | callDriver
  | waitLower
  | storeError (status : NtStatus)
  | storeSize (length : ℤ)
  | storeSuccess
  | setEvent (status : NtStatus)
  | returned (status : NtStatus)
deriving DecidableEq, Repr

/-- Program points of `QCachePnp` and the routines it calls, and of `QCacheAttachLegacyDevice`. -/
inductive FilterPc where
  | acquireRemoveLock
  /-- `IoAcquireRemoveLock` failed; about to complete the request. -/
  | refuse
  /-- `QCacheStartDevice`: about to call the lower driver in `QCacheForwardIrpSynchronous`. -/
  | startForward
  | startWait
  | startTestCached (status : NtStatus)
  | startTestSize (status : NtStatus)
  | startInitialize (status : NtStatus) (pc : InitializePc)
  | startComplete (status : NtStatus)
  /-- `QCacheRemoveDevice`, at the program point of the device's remover. -/
  | removeDevice
  | deviceUsageNotification (call : UsageCall)
  | sendToNextDriver
  | releaseRemoveLock (status : NtStatus)
  | attachInitialize (pc : InitializePc)
  | returned (status : NtStatus)
deriving DecidableEq, Repr

/-- One call with its local status. `completions` are the statuses this driver completed the request with,
`forwards` counts the times it gave the request away, `lowerStatus` is what the lower driver answered when
it got the request back. -/
structure FilterCall where
  occasion : Occasion
  pc : FilterPc
  status : NtStatus := STATUS_SUCCESS
  completions : List NtStatus := []
  forwards : ℕ := 0
  lowerStatus : Option NtStatus := none
deriving DecidableEq, Repr

namespace FilterCall

@[simp] def goto (c : FilterCall) (pc : FilterPc) : FilterCall := { c with pc }

/-- `IoCompleteRequest` with the status. -/
@[simp] def completeRequest (c : FilterCall) (status : NtStatus) : FilterCall :=
  { c with completions := c.completions ++ [status] }

/-- `QCacheSendToNextDriver`. -/
@[simp] def forward (c : FilterCall) : FilterCall := { c with forwards := c.forwards + 1 }

/-- The lower driver has given the request back. -/
@[simp] def answer (c : FilterCall) (status : NtStatus) : FilterCall := { c with lowerStatus := some status }

end FilterCall

/-- The device, what the PnP routines share and every call of theirs. `lengths` records what the successful
queries reported and is read by no modelled function. -/
structure Filter where
  device : State
  path : PagingPath
  initializationEvent : Bool := true
  initializationMutex : Bool := false
  lengths : List ℤ := []
  calls : List FilterCall := []

namespace Filter

abbrev statistics (f : Filter) : DeviceStatistics := f.device.shared.statistics

@[simp] def withStatistics (f : Filter) (statistics : DeviceStatistics) : Filter :=
  { f with device := { f.device with shared := f.device.shared.withStatistics statistics } }

@[simp] def ioAcquireRemoveLock (f : Filter) : Filter :=
  { f with device := { f.device with shared := f.device.shared.ioAcquireRemoveLock } }

@[simp] def ioReleaseRemoveLock (f : Filter) : Filter :=
  { f with device := { f.device with shared := f.device.shared.ioReleaseRemoveLock } }

/-- `PagingPathCount` is one of the statistics. -/
@[simp] def withPath (f : Filter) (path : PagingPath) : Filter :=
  { f.withStatistics { f.statistics with pagingPathCount := path.pagingPathCount } with path }

/-- What `QCacheAttachDevice` leaves behind, with or without `DO_POWER_INRUSH`; a device that was named in
the registry is initialized next. -/
def initial (cfg : Config) (inrush legacy : Bool) : Filter where
  device := .initial cfg
  path := { powerInrush := inrush }
  calls := if legacy then [⟨.attachLegacyDevice, .attachInitialize .acquireMutex, STATUS_SUCCESS, [], 0, none⟩] else []

/-- The lower driver answers the query. -/
def answered (f : Filter) (d : Decision) : Filter × InitializePc :=
  if ntSuccess d.status then
    ({ f with lengths := f.lengths ++ [d.information.val] }, .storeSize d.information.val)
  else (f, .storeError d.status)

end Filter

/-- One step of `QCacheInitializeDevice`. -/
def initializeStep (f : Filter) (pc : InitializePc) (d : Decision) : Option (Filter × InitializePc) :=
  match pc with
  | .acquireMutex =>
    if f.initializationMutex then none else some ({ f with initializationMutex := true }, .waitEvent)
  | .waitEvent =>
    if f.initializationEvent then some ({ f with initializationEvent := false }, .releaseMutex) else none
  | .releaseMutex => some ({ f with initializationMutex := false }, .testSize)
  | .testSize => some (f, if f.statistics.size = 0 then .allocateIrp else .storeSuccess)
  | .allocateIrp => some (f, if d.memory then .callDriver else .storeError STATUS_INSUFFICIENT_RESOURCES)
  | .callDriver => some (if d.status = STATUS_PENDING then (f, .waitLower) else f.answered d)
  | .waitLower => some (f.answered d)
  | .storeError status => some (f.withStatistics { f.statistics with lastErrorCode := status }, .setEvent status)
  | .storeSize length => some (f.withStatistics { f.statistics with size := length }, .storeSuccess)
  | .storeSuccess =>
    some (f.withStatistics { f.statistics with lastErrorCode := STATUS_SUCCESS }, .setEvent STATUS_SUCCESS)
  | .setEvent status => some ({ f with initializationEvent := true }, .returned status)
  | .returned _ => none

/-- Where `QCachePnp` goes with the remove lock. -/
def PnpMinorFunction.routine : PnpMinorFunction → FilterPc
  | .startDevice => .startForward
  | .removeDevice => .removeDevice
  | .deviceUsageNotification notification => .deviceUsageNotification { notification }
  | .other => .sendToNextDriver

def Occasion.isRemoval : Occasion → Bool
  | .pnp .removeDevice => true
  | _ => false

/-- The entry of `QCachePnp`. For the removal the device's remover takes the lock. -/
def qcachePnp (f : Filter) (c : FilterCall) : Option (Filter × FilterCall) :=
  match c.occasion with
  | .pnp minorFunction =>
    if f.device.shared.extension.removeLock.removed then some (f, c.goto .refuse)
    else if minorFunction = .removeDevice then
      f.device.stepRemover.map fun device => ({ f with device }, c.goto .removeDevice)
    else some (f.ioAcquireRemoveLock, c.goto minorFunction.routine)
  | .attachLegacyDevice => none

/-- One step of `QCacheRemoveDevice`: the device's remover steps, and the request leaves with
`QCacheSendToNextDriver`. -/
def qcacheRemoveDevice (f : Filter) (c : FilterCall) (d : Decision) : Option (Filter × FilterCall) :=
  match f.device.remover with
  | .deleted => some (f, c.goto (.returned c.status))
  | .sendDown => f.device.stepRemover.map fun device => ({ f with device }, { c.forward with status := d.status })
  | _ => f.device.stepRemover.map fun device => ({ f with device }, c)

/-- The request in the hands of `QCacheDeviceUsageNotification` is completed or given away in the steps
that say so. -/
def FilterCall.usage (c : FilterCall) (before after : UsageCall) : FilterCall :=
  let c := { c with pc := .deviceUsageNotification after }
  match before.pc with
  | .sendToNextDriver => c.forward
  | .callDriver | .waitLower => if after.pc = .waitLower then c else c.answer after.status
  | .completeRequest => c.completeRequest before.status
  | _ => c

/-- One step of a call. -/
def filterStep (f : Filter) (c : FilterCall) (d : Decision) : Option (Filter × FilterCall) :=
  match c.pc with
  | .acquireRemoveLock => qcachePnp f c
  | .refuse => some (f, (c.completeRequest STATUS_DELETE_PENDING).goto (.returned STATUS_DELETE_PENDING))
  | .startForward =>
    if d.status = STATUS_PENDING then some (f, c.goto .startWait)
    else some (f, (c.answer d.status).goto (.startTestCached d.status))
  | .startWait => some (f, (c.answer d.status).goto (.startTestCached d.status))
  | .startTestCached status =>
    some (f, c.goto (if f.statistics.isCached then .startTestSize status else .startComplete status))
  | .startTestSize status =>
    some (f, c.goto (if f.statistics.size = 0 then .startInitialize status .acquireMutex else .startComplete status))
  | .startInitialize status (.returned _) => some (f, c.goto (.startComplete status))
  | .startInitialize status pc => (initializeStep f pc d).map fun next =>
    (next.1, c.goto (.startInitialize status next.2))
  | .startComplete status => some (f, (c.completeRequest status).goto (.releaseRemoveLock status))
  | .removeDevice => qcacheRemoveDevice f c d
  | .deviceUsageNotification call =>
    if call.pc = .returned then some (f, c.goto (.releaseRemoveLock call.status))
    else (usageStep f.path call d.status).map fun next => (f.withPath next.1, c.usage call next.2)
  | .sendToNextDriver => some (f, c.forward.goto (.releaseRemoveLock d.status))
  | .releaseRemoveLock status => some (f.ioReleaseRemoveLock, c.goto (.returned status))
  | .attachInitialize (.returned _) => some (f, c.goto (.returned STATUS_SUCCESS))
  | .attachInitialize pc => (initializeStep f pc d).map fun next => (next.1, c.goto (.attachInitialize next.2))
  | .returned _ => none

/-- The device receives a PnP request. -/
def FilterCall.receive (minorFunction : PnpMinorFunction) : FilterCall where
  occasion := .pnp minorFunction
  pc := .acquireRemoveLock

inductive FilterAction where
  /-- A step of the device: its clients, its worker and their lower driver. -/
  | device (a : Action)
  | receive (minorFunction : PnpMinorFunction)
  /-- The call `i` takes its next step. -/
  | call (i : ℕ) (d : Decision)

/-- The steps of the device that the calls of the filter take for it. -/
def Action.taken : Action → Bool
  | .remover | .initializeDevice _ => true
  | _ => false

/-- The step function of the filter. The PnP manager removes a device once. -/
def Filter.step (f : Filter) : FilterAction → Option Filter
  | .device a => if a.taken then none else (f.device.step a).map fun device => { f with device }
  | .receive minorFunction =>
    if f.device.remover = .deleted ∨
        (minorFunction = .removeDevice ∧ ∃ c ∈ f.calls, c.occasion.isRemoval = true) then none
    else some { f with calls := f.calls ++ [.receive minorFunction] }
  | .call i d => f.calls[i]?.bind fun c =>
      (filterStep f c d).map fun next => { next.1 with calls := f.calls.set i next.2 }

end QueueCache
