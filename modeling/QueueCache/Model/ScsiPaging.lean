import QueueCache.Model.PagingPath

/-! # Usage notifications in the SCSI filter

`ScsiChkDispatchPnp` counts paging files only, and without a mutex. From the test for the last path on it does what
`QCacheDeviceUsageNotification` does, but `PagingPathCountEvent` is a notification event here: it is set from the
beginning, and a wait does not reset it.
-/

namespace QueueCache.ScsiChk.Usage

/-- One step of a notification, with what the lower driver returns or completes with. -/
def usageStep (path : PagingPath) (c : UsageCall) (lower : NtStatus) : Option (PagingPath × UsageCall) :=
  match c.pc with
  | .entry => some (path, c.goto (if c.notification.type = .paging then .waitEvent else .sendToNextDriver))
  | .waitEvent =>
    if path.pagingPathCountEvent then some (path, { c with setPagable := false, pc := .testLast }) else none
  | .acquireMutex | .releaseMutex => none
  | _ => QueueCache.usageStep path c lower

/-- The device receives a notification, or one of them takes its next step. -/
def step (s : PagingState) : PagingAction → Option PagingState
  | .receive notification => some { s with calls := s.calls ++ [{ notification }] }
  | .call i lower => s.calls[i]?.bind fun c =>
      (usageStep s.path c lower).map fun result => { path := result.1, calls := s.calls.set i result.2 }

end QueueCache.ScsiChk.Usage
