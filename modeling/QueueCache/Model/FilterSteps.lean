import QueueCache.Model.DeviceSteps
import QueueCache.Model.Filter

/-! # What one step of the filter can do

`InitializeMove` lists the moves of `QCacheInitializeDevice`, `FilterMove` those of a call with one
constructor for each exit; they are the inversions of `initializeStep` and `filterStep`.
-/

namespace QueueCache

inductive InitializeMove (f : Filter) (d : Decision) : InitializePc → Filter → InitializePc → Prop
  | acquireMutex (free : f.initializationMutex = false) :
      InitializeMove f d .acquireMutex { f with initializationMutex := true } .waitEvent
  | waitEvent (signalled : f.initializationEvent = true) :
      InitializeMove f d .waitEvent { f with initializationEvent := false } .releaseMutex
  | releaseMutex : InitializeMove f d .releaseMutex { f with initializationMutex := false } .testSize
  | unsized (zero : f.statistics.size = 0) : InitializeMove f d .testSize f .allocateIrp
  | sized (known : f.statistics.size ≠ 0) : InitializeMove f d .testSize f .storeSuccess
  | allocateIrp : InitializeMove f d .allocateIrp f .callDriver
  | noIrp : InitializeMove f d .allocateIrp f (.storeError STATUS_INSUFFICIENT_RESOURCES)
  | pending : InitializeMove f d .callDriver f .waitLower
  | succeeded {pc : InitializePc} (at_ : pc = .callDriver ∨ pc = .waitLower) :
      InitializeMove f d pc { f with lengths := f.lengths ++ [d.information.val] } (.storeSize d.information.val)
  | failed {pc : InitializePc} (at_ : pc = .callDriver ∨ pc = .waitLower) :
      InitializeMove f d pc f (.storeError d.status)
  | storeError {status : NtStatus} : InitializeMove f d (.storeError status)
      (f.withStatistics { f.statistics with lastErrorCode := status }) (.setEvent status)
  | storeSize {length : ℤ} : InitializeMove f d (.storeSize length)
      (f.withStatistics { f.statistics with size := length }) .storeSuccess
  | storeSuccess : InitializeMove f d .storeSuccess
      (f.withStatistics { f.statistics with lastErrorCode := STATUS_SUCCESS }) (.setEvent STATUS_SUCCESS)
  | setEvent {status : NtStatus} :
      InitializeMove f d (.setEvent status) { f with initializationEvent := true } (.returned status)

/-- `QCacheInitializeDevice` touches the statistics of the device and nothing else of it. -/
theorem InitializeMove.frame {f f' : Filter} {d : Decision} {pc pc' : InitializePc}
    (moved : InitializeMove f d pc f' pc') :
    f'.device.remover = f.device.remover ∧
      f'.device.shared.extension.removeLock = f.device.shared.extension.removeLock := by
  cases moved <;> exact ⟨rfl, rfl⟩

theorem answered_cases (f : Filter) {pc : InitializePc} (d : Decision) (at_ : pc = .callDriver ∨ pc = .waitLower) :
    InitializeMove f d pc (f.answered d).1 (f.answered d).2 := by
  unfold Filter.answered
  split
  · exact .succeeded at_
  · exact .failed at_

theorem initializeStep_cases {f : Filter} {pc : InitializePc} {d : Decision} {next : Filter × InitializePc}
    (moved : initializeStep f pc d = some next) : InitializeMove f d pc next.1 next.2 := by
  unfold initializeStep at moved
  cases pc with
  | acquireMutex =>
    dsimp only at moved
    split at moved
    · contradiction
    · next free =>
      obtain rfl := Option.some.inj moved
      exact .acquireMutex (by simpa using free)
  | waitEvent =>
    dsimp only at moved
    split at moved
    · next signalled =>
      obtain rfl := Option.some.inj moved
      exact .waitEvent signalled
    · contradiction
  | testSize =>
    obtain rfl := Option.some.inj moved
    dsimp only
    split
    · next zero => exact .unsized zero
    · next known => exact .sized known
  | allocateIrp =>
    obtain rfl := Option.some.inj moved
    dsimp only
    split
    · exact .allocateIrp
    · exact .noIrp
  | callDriver =>
    obtain rfl := Option.some.inj moved
    split
    · exact .pending
    · exact answered_cases f d (.inl rfl)
  | waitLower =>
    obtain rfl := Option.some.inj moved
    exact answered_cases f d (.inr rfl)
  | returned => contradiction
  | releaseMutex => obtain rfl := Option.some.inj moved; exact .releaseMutex
  | storeError => obtain rfl := Option.some.inj moved; exact .storeError
  | storeSize => obtain rfl := Option.some.inj moved; exact .storeSize
  | storeSuccess => obtain rfl := Option.some.inj moved; exact .storeSuccess
  | setEvent => obtain rfl := Option.some.inj moved; exact .setEvent

/-- Every move of a call. -/
inductive FilterMove (f : Filter) (c : FilterCall) (d : Decision) : Filter → FilterCall → Prop
  | refused {minorFunction : PnpMinorFunction} (at_ : c.pc = .acquireRemoveLock)
      (pnp : c.occasion = .pnp minorFunction) (removed : f.device.shared.extension.removeLock.removed = true) :
      FilterMove f c d f (c.goto .refuse)
  | acquireRemoval {device : State} (at_ : c.pc = .acquireRemoveLock) (pnp : c.occasion = .pnp .removeDevice)
      (kept : f.device.shared.extension.removeLock.removed = false) (taken : f.device.stepRemover = some device) :
      FilterMove f c d { f with device } (c.goto .removeDevice)
  | acquire {minorFunction : PnpMinorFunction} (at_ : c.pc = .acquireRemoveLock)
      (pnp : c.occasion = .pnp minorFunction) (other : minorFunction ≠ .removeDevice)
      (kept : f.device.shared.extension.removeLock.removed = false) :
      FilterMove f c d f.ioAcquireRemoveLock (c.goto minorFunction.routine)
  | refuse (at_ : c.pc = .refuse) :
      FilterMove f c d f ((c.completeRequest STATUS_DELETE_PENDING).goto (.returned STATUS_DELETE_PENDING))
  | startPending (at_ : c.pc = .startForward) : FilterMove f c d f (c.goto .startWait)
  | startAnswered (at_ : c.pc = .startForward ∨ c.pc = .startWait) :
      FilterMove f c d f ((c.answer d.status).goto (.startTestCached d.status))
  | startTest {status : NtStatus} {pc : FilterPc} (at_ : c.pc = .startTestCached status)
      (goes : pc = .startTestSize status ∨ pc = .startComplete status) : FilterMove f c d f (c.goto pc)
  | startSized {status : NtStatus} {pc : FilterPc} (at_ : c.pc = .startTestSize status)
      (goes : pc = .startInitialize status .acquireMutex ∨ pc = .startComplete status) :
      FilterMove f c d f (c.goto pc)
  | startInitialize {status : NtStatus} {pc pc' : InitializePc} {f' : Filter}
      (at_ : c.pc = .startInitialize status pc) (taken : InitializeMove f d pc f' pc') :
      FilterMove f c d f' (c.goto (.startInitialize status pc'))
  | startInitialized {status result : NtStatus} (at_ : c.pc = .startInitialize status (.returned result)) :
      FilterMove f c d f (c.goto (.startComplete status))
  | startComplete {status : NtStatus} (at_ : c.pc = .startComplete status) :
      FilterMove f c d f ((c.completeRequest status).goto (.releaseRemoveLock status))
  | deleted (at_ : c.pc = .removeDevice) (gone : f.device.remover = .deleted) :
      FilterMove f c d f (c.goto (.returned c.status))
  | sendDown {device : State} (at_ : c.pc = .removeDevice) (sends : f.device.remover = .sendDown)
      (taken : f.device.stepRemover = some device) :
      FilterMove f c d { f with device } { c.forward with status := d.status }
  | remove {device : State} (at_ : c.pc = .removeDevice) (other : f.device.remover ≠ .sendDown)
      (taken : f.device.stepRemover = some device) : FilterMove f c d { f with device } c
  | usage {call call' : UsageCall} {path : PagingPath} (at_ : c.pc = .deviceUsageNotification call)
      (taken : usageStep f.path call d.status = some (path, call')) :
      FilterMove f c d (f.withPath path) (c.usage call call')
  | usageReturned {call : UsageCall} (at_ : c.pc = .deviceUsageNotification call) (done : call.pc = .returned) :
      FilterMove f c d f (c.goto (.releaseRemoveLock call.status))
  | sendToNextDriver (at_ : c.pc = .sendToNextDriver) :
      FilterMove f c d f (c.forward.goto (.releaseRemoveLock d.status))
  | releaseRemoveLock {status : NtStatus} (at_ : c.pc = .releaseRemoveLock status) :
      FilterMove f c d f.ioReleaseRemoveLock (c.goto (.returned status))
  | attachInitialize {pc pc' : InitializePc} {f' : Filter} (at_ : c.pc = .attachInitialize pc)
      (taken : InitializeMove f d pc f' pc') : FilterMove f c d f' (c.goto (.attachInitialize pc'))
  | attachInitialized {result : NtStatus} (at_ : c.pc = .attachInitialize (.returned result)) :
      FilterMove f c d f (c.goto (.returned STATUS_SUCCESS))

@[simp] theorem FilterCall.usage_pc (c : FilterCall) (call call' : UsageCall) :
    (c.usage call call').pc = .deviceUsageNotification call' := by
  unfold FilterCall.usage
  dsimp only
  split
  · rfl
  · split <;> rfl
  · split <;> rfl
  · rfl
  · rfl

@[simp] theorem FilterCall.usage_occasion (c : FilterCall) (call call' : UsageCall) :
    (c.usage call call').occasion = c.occasion := by
  unfold FilterCall.usage
  dsimp only
  split
  · rfl
  · split <;> rfl
  · split <;> rfl
  · rfl
  · rfl

section FilterMove

variable {f : Filter} {c : FilterCall} {d : Decision} {next : Filter × FilterCall}

theorem qcachePnp_cases (at_ : c.pc = .acquireRemoveLock) (moved : qcachePnp f c = some next) :
    FilterMove f c d next.1 next.2 := by
  unfold qcachePnp at moved
  split at moved
  · next minorFunction pnp =>
    split at moved
    · next removed =>
      obtain rfl := Option.some.inj moved
      exact .refused at_ pnp removed
    · next kept =>
      have kept : f.device.shared.extension.removeLock.removed = false := by simpa using kept
      split at moved
      · next removal =>
        obtain ⟨device, taken, rfl⟩ := Option.map_eq_some_iff.mp moved
        exact .acquireRemoval at_ (removal ▸ pnp) kept taken
      · next other =>
        obtain rfl := Option.some.inj moved
        exact .acquire at_ pnp other kept
  · contradiction

theorem qcacheRemoveDevice_cases (at_ : c.pc = .removeDevice) (moved : qcacheRemoveDevice f c d = some next) :
    FilterMove f c d next.1 next.2 := by
  unfold qcacheRemoveDevice at moved
  split at moved
  · next gone =>
    obtain rfl := Option.some.inj moved
    exact .deleted at_ gone
  · next sends =>
    obtain ⟨device, taken, rfl⟩ := Option.map_eq_some_iff.mp moved
    exact .sendDown at_ sends taken
  · next other =>
    obtain ⟨device, taken, rfl⟩ := Option.map_eq_some_iff.mp moved
    exact .remove at_ other taken

theorem filterStep_cases (moved : filterStep f c d = some next) : FilterMove f c d next.1 next.2 := by
  unfold filterStep at moved
  split at moved
  · next at_ => exact qcachePnp_cases at_ moved
  · next at_ => obtain rfl := Option.some.inj moved; exact .refuse at_
  · next at_ =>
    split at moved <;> obtain rfl := Option.some.inj moved
    · exact .startPending at_
    · exact .startAnswered (.inl at_)
  · next at_ => obtain rfl := Option.some.inj moved; exact .startAnswered (.inr at_)
  · next status at_ =>
    obtain rfl := Option.some.inj moved
    exact .startTest at_ (by split <;> simp)
  · next status at_ =>
    obtain rfl := Option.some.inj moved
    exact .startSized at_ (by split <;> simp)
  · next at_ => obtain rfl := Option.some.inj moved; exact .startInitialized at_
  · next at_ =>
    obtain ⟨inner, taken, rfl⟩ := Option.map_eq_some_iff.mp moved
    exact .startInitialize at_ (initializeStep_cases taken)
  · next at_ => obtain rfl := Option.some.inj moved; exact .startComplete at_
  · next at_ => exact qcacheRemoveDevice_cases at_ moved
  · next call at_ =>
    split at moved
    · next done =>
      obtain rfl := Option.some.inj moved
      exact .usageReturned at_ done
    · obtain ⟨inner, taken, rfl⟩ := Option.map_eq_some_iff.mp moved
      exact .usage at_ taken
  · next at_ => obtain rfl := Option.some.inj moved; exact .sendToNextDriver at_
  · next at_ => obtain rfl := Option.some.inj moved; exact .releaseRemoveLock at_
  · next at_ => obtain rfl := Option.some.inj moved; exact .attachInitialized at_
  · next at_ =>
    obtain ⟨inner, taken, rfl⟩ := Option.map_eq_some_iff.mp moved
    exact .attachInitialize at_ (initializeStep_cases taken)
  · contradiction

end FilterMove

/-- Every move of the filter. -/
inductive FilterStep (f : Filter) : FilterAction → Filter → Prop
  | device {a : Action} {device : State} (own : a.taken = false) (taken : f.device.step a = some device) :
      FilterStep f (.device a) { f with device }
  | receive {minorFunction : PnpMinorFunction} (alive : f.device.remover ≠ .deleted)
      (once : minorFunction = .removeDevice → ∀ c ∈ f.calls, c.occasion.isRemoval = false) :
      FilterStep f (.receive minorFunction) { f with calls := f.calls ++ [.receive minorFunction] }
  | call {i : ℕ} {c c' : FilterCall} {d : Decision} {f' : Filter} (present : f.calls[i]? = some c)
      (taken : FilterMove f c d f' c') : FilterStep f (.call i d) { f' with calls := f.calls.set i c' }

theorem filter_cases {f f' : Filter} {a : FilterAction} (moved : f.step a = some f') : FilterStep f a f' := by
  cases a with
  | device a =>
    simp only [Filter.step] at moved
    split at moved
    · contradiction
    · next own =>
      obtain ⟨device, taken, rfl⟩ := Option.map_eq_some_iff.mp moved
      exact .device (by simpa using own) taken
  | receive minorFunction =>
    simp only [Filter.step] at moved
    split at moved
    · contradiction
    · next fine =>
      obtain rfl := Option.some.inj moved
      rw [not_or] at fine
      exact .receive fine.1 fun removal c member => by
        simpa using fun again => fine.2 ⟨removal, c, member, again⟩
  | call i d =>
    obtain ⟨c, present, moved⟩ := Option.bind_eq_some_iff.mp moved
    obtain ⟨next, taken, rfl⟩ := Option.map_eq_some_iff.mp moved
    exact .call present (filterStep_cases taken)

end QueueCache
