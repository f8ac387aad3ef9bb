import QueueCache.Model.Irp

/-! # Usage notifications of the paging path

`QCacheDeviceUsageNotification` counts the paging, hibernation and dump files on the device and keeps
`DO_POWER_PAGABLE` on the filter device while there are none. A guarded mutex and an auto-reset event
let one notification through at a time; it may wait for the lower driver meanwhile. A `PagingState`
holds every notification the device ever received, and each of their steps touches what they share at
most once.
-/

namespace QueueCache

/-- The usages the driver counts, and every other one. -/
inductive DeviceUsageType where
  | paging
  | hibernation
  | dumpFile
  | other
deriving DecidableEq, Repr

/-- `Parameters.UsageNotification` of the stack location. -/
structure UsageNotification where
  type : DeviceUsageType
  inPath : Bool
deriving DecidableEq, Repr

/-- The driver counts the notification. -/
def UsageNotification.counted (notification : UsageNotification) : Bool := notification.type ≠ .other

/-- Program points of `QCacheDeviceUsageNotification`. -/
inductive UsagePc where
  | entry
  | sendToNextDriver
  | acquireMutex
  | waitEvent
  | releaseMutex
  /-- About to test for the last paging path. -/
  | testLast
  | testInrush
  | setPagable
  /-- About to call the lower driver in `QCacheForwardIrpSynchronous`. -/
  | callDriver
  | waitLower
  /-- The lower driver succeeded; about to adjust the count. -/
  | adjustCount
  | testFirst
  | clearPagable
  /-- The lower driver failed. -/
  | cleanup
  | setEvent
  | completeRequest
  | returned
deriving DecidableEq, Repr

/-- One call of `QCacheDeviceUsageNotification` with its local variables. -/
structure UsageCall where
  notification : UsageNotification
  pc : UsagePc := .entry
  setPagable : Bool := false
  status : NtStatus := STATUS_SUCCESS
deriving DecidableEq, Repr

def UsageCall.goto (c : UsageCall) (pc : UsagePc) : UsageCall := { c with pc := pc }

/-- What the notifications share: the count, the event and the mutex of the extension and two flags of
the filter device. The count is a `LONG` that moves by one for each paging, hibernation or dump file of the
system, of which there are a few, so it is kept without wrap-around. `additions` and `removals` record what
the lower driver completed with success. -/
structure PagingPath where
  pagingPathCount : ℤ := 0
  pagingPathCountEvent : Bool := true
  pagingPathCountMutex : Bool := false
  powerPagable : Bool := true
  powerInrush : Bool := false
  additions : ℕ := 0
  removals : ℕ := 0
deriving DecidableEq, Repr

/-- `IoAdjustPagingPathCount`. -/
def ioAdjustPagingPathCount (count : ℤ) (inPath : Bool) : ℤ := if inPath then count + 1 else count - 1

/-- The lower driver completed the notification with the status. -/
def PagingPath.record (path : PagingPath) (notification : UsageNotification) (status : NtStatus) : PagingPath :=
  if ntSuccess status then
    if notification.inPath then { path with additions := path.additions + 1 }
    else { path with removals := path.removals + 1 }
  else path

/-- `QCacheForwardIrpSynchronous` returns the status. -/
def UsageCall.forwarded (path : PagingPath) (c : UsageCall) (status : NtStatus) : PagingPath × UsageCall :=
  (path.record c.notification status,
    { c with status := status, pc := if ntSuccess status then .adjustCount else .cleanup })

/-- One step of a notification. `lower` is what the lower driver returns or completes with, wherever
the step reaches it. -/
def usageStep (path : PagingPath) (c : UsageCall) (lower : NtStatus) : Option (PagingPath × UsageCall) :=
  match c.pc with
  | .entry => some (path, c.goto (if c.notification.counted then .acquireMutex else .sendToNextDriver))
  | .sendToNextDriver => some (path, { c with status := lower, pc := .returned })
  | .acquireMutex =>
    if path.pagingPathCountMutex then none
    else some ({ path with pagingPathCountMutex := true }, c.goto .waitEvent)
  | .waitEvent =>
    if path.pagingPathCountEvent then some ({ path with pagingPathCountEvent := false }, c.goto .releaseMutex)
    else none
  | .releaseMutex =>
    some ({ path with pagingPathCountMutex := false }, { c with setPagable := false, pc := .testLast })
  | .testLast =>
    some (path, c.goto
      (if !c.notification.inPath && path.pagingPathCount = 1 then .testInrush else .callDriver))
  | .testInrush => some (path, c.goto (if path.powerInrush then .callDriver else .setPagable))
  | .setPagable => some ({ path with powerPagable := true }, { c with setPagable := true, pc := .callDriver })
  | .callDriver => if lower = STATUS_PENDING then some (path, c.goto .waitLower) else some (c.forwarded path lower)
  | .waitLower => some (c.forwarded path lower)
  | .adjustCount =>
    some ({ path with pagingPathCount := ioAdjustPagingPathCount path.pagingPathCount c.notification.inPath },
      c.goto (if c.notification.inPath then .testFirst else .setEvent))
  | .testFirst => some (path, c.goto (if path.pagingPathCount = 1 then .clearPagable else .setEvent))
  | .clearPagable => some ({ path with powerPagable := false }, c.goto .setEvent)
  | .cleanup =>
    if c.setPagable then some ({ path with powerPagable := false }, { c with setPagable := false, pc := .setEvent })
    else some (path, c.goto .setEvent)
  | .setEvent => some ({ path with pagingPathCountEvent := true }, c.goto .completeRequest)
  | .completeRequest => some (path, c.goto .returned)
  | .returned => none

structure PagingState where
  path : PagingPath
  calls : List UsageCall := []
deriving DecidableEq, Repr

/-- What `QCacheAttachDevice` leaves behind, with or without `DO_POWER_INRUSH`. -/
def PagingState.initial (inrush : Bool) : PagingState where
  path := { powerInrush := inrush }

inductive PagingAction where
  /-- The device receives a notification. -/
  | receive (notification : UsageNotification)
  /-- The notification `i` takes its next step. -/
  | call (i : ℕ) (lower : NtStatus)
deriving DecidableEq, Repr

/-- The step function of the notifications. -/
def PagingState.step (s : PagingState) : PagingAction → Option PagingState
  | .receive notification => some { s with calls := s.calls ++ [{ notification := notification }] }
  | .call i lower => s.calls[i]?.bind fun c =>
      (usageStep s.path c lower).map fun result => { path := result.1, calls := s.calls.set i result.2 }

end QueueCache
