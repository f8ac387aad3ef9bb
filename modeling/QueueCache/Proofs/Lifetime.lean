import QueueCache.Proofs.Closing
import QueueCache.Proofs.RemoveLock

/-! # The worker's wakeups and the end of the device

A worker that waits has been told of everything that was linked and of the shutdown, or will be: who
linked an item or set `ShutdownThread` has its `KeSetEvent` still to come. The same call comes too late
for the remover: the worker releases the hold of an item when it unlinks it, so the wait for the remove
lock may end, and the device be deleted, before the call that linked the item has signalled the event.
-/

namespace QueueCache

open Transition

/-- Between linking an item and `KeSetEvent` on `WriteQueueEvent`. -/
def Pc.signals : Pc → Bool
  | .setEvent | .lazySetEvent => true
  | _ => false

/-- The worker has found the queue empty and has not returned from its wait. -/
def WorkerPc.idle : WorkerPc → Bool
  | .testShutdown | .wait => true
  | _ => false

/-- Nothing happens behind an idle worker without a signal, given or still to come. -/
structure Alert (s : State) : Prop where
  queue : s.worker.idle = true → s.shared.extension.writeQueueEvent = false →
    s.shared.queue = [] ∨ ∃ c ∈ s.calls, c.pc.signals = true
  shutdown : s.worker = .wait → s.shared.extension.writeQueueEvent = false →
    s.shared.extension.shutdownThread = false ∨ s.remover = .setEvent

/-- A dispatch call touches the event in its `KeSetEvent` only. -/
theorem CallStep.event {sh sh' : Shared} {i : ℕ} {c c' : Call} {out : Outcome} (moved : CallStep sh i c out sh' c') :
    sh'.extension.writeQueueEvent = true ∨
      (sh'.extension.writeQueueEvent = sh.extension.writeQueueEvent ∧ c.pc.signals = false) := by
  cases moved with
  | setEvent => exact .inl rfl
  | lazySetEvent => exact .inl rfl
  | entry at_ frame => exact .inr ⟨frame.event, by rw [at_]; rfl⟩
  | refuse at_ frame => exact .inr ⟨frame.event, by obtain at_ | at_ | at_ := at_ <;> rw [at_] <;> rfl⟩
  | noItem at_ => exact .inr ⟨rfl, by obtain at_ | at_ := at_ <;> rw [at_] <;> rfl⟩
  | noLock at_ => exact .inr ⟨rfl, by obtain at_ | at_ := at_ <;> rw [at_] <;> rfl⟩
  | scanForward at_ frame => exact .inr ⟨frame.event, by rw [at_]; rfl⟩
  | scanFull at_ frame => exact .inr ⟨frame.event, by rw [at_]; rfl⟩
  | scanGap at_ frame => exact .inr ⟨frame.event, by rw [at_]; rfl⟩
  | splitOn at_ _ frame => exact .inr ⟨frame.event, by rw [at_]; rfl⟩
  | finishScatter at_ _ frame => exact .inr ⟨(scatterComplete_event _ _ _ _).trans frame.event, by rw [at_]; rfl⟩
  | _ at_ => exact .inr ⟨rfl, by rw [at_]; rfl⟩

namespace Alert

variable {s s' : State}

/-- Neither the worker nor the remover moved. -/
private theorem keep (alert : Alert s) (worker : s'.worker = s.worker) (remover : s'.remover = s.remover)
    (event : s'.shared.extension.writeQueueEvent = s.shared.extension.writeQueueEvent)
    (shutdown : s'.shared.extension.shutdownThread = s.shared.extension.shutdownThread)
    (queue : (s.shared.queue = [] ∨ ∃ c ∈ s.calls, c.pc.signals = true) →
      s'.shared.queue = [] ∨ ∃ c ∈ s'.calls, c.pc.signals = true) : Alert s' where
  queue idle silent := by
    rw [worker] at idle
    rw [event] at silent
    exact queue (alert.queue idle silent)
  shutdown waits silent := by
    rw [worker] at waits
    rw [event] at silent
    rw [shutdown, remover]
    exact alert.shutdown waits silent

/-- The event is signalled. -/
private theorem signalled (event : s'.shared.extension.writeQueueEvent = true) : Alert s' where
  queue _ silent := by rw [event] at silent; contradiction
  shutdown _ silent := by rw [event] at silent; contradiction

/-- The worker is neither about to test the flag nor waiting. -/
private theorem busy (notIdle : s'.worker.idle = false) : Alert s' where
  queue idle := by rw [notIdle] at idle; contradiction
  shutdown waits := by rw [waits] at notIdle; contradiction

/-- The call that moved is not the one whose signal is still to come. -/
private theorem other_signals {calls : List Call} {i : ℕ} {c c' : Call} (present : calls[i]? = some c)
    (silent : c.pc.signals = false) (signals : ∃ d ∈ calls, d.pc.signals = true) :
    ∃ d ∈ calls.set i c', d.pc.signals = true := by
  obtain ⟨d, member, signals⟩ := signals
  obtain ⟨j, there⟩ := List.getElem?_of_mem member
  have other : i ≠ j := by
    rintro rfl
    obtain rfl : c = d := Option.some.inj (present.symm.trans there)
    rw [silent] at signals
    contradiction
  exact ⟨d, List.mem_of_getElem? ((List.getElem?_set_ne other).trans there), signals⟩

theorem step {a : Action} (alert : Alert s) (moved : s.step a = some s') : Alert s' := by
  cases step_cases moved with
  | receive =>
    refine alert.keep rfl rfl rfl rfl fun before => before.imp_right ?_
    rintro ⟨c, member, signals⟩
    exact ⟨c, List.mem_append_left _ member, signals⟩
  | @call i out c sh' c' present taken =>
    obtain event | ⟨event, silent⟩ := taken.event
    · exact signalled event
    · refine alert.keep rfl rfl event taken.outer.shutdownThread fun before => ?_
      obtain ⟨frame, -⟩ | ⟨item, charge, rfl, linked⟩ := taken.queue_cases
      · exact before.imp frame.queue.trans (other_signals present silent)
      · right
        have inside := (List.getElem?_eq_some_iff.mp present).1
        refine ⟨c', List.mem_of_getElem? (List.getElem?_set_self inside), ?_⟩
        obtain ⟨-, -, rfl⟩ | ⟨-, -, rfl⟩ := linked <;> rfl
  | @lower _ i c sh' c' present taken =>
    have inside := (List.getElem?_eq_some_iff.mp present).1
    have event : sh'.extension.writeQueueEvent = s.shared.extension.writeQueueEvent ∧
        sh'.extension.shutdownThread = s.shared.extension.shutdownThread := by
      cases taken with
      | scattered => exact ⟨scatterComplete_event _ _ _ _, scatterComplete_shutdownThread _ _ _ _⟩
      | _ => exact ⟨rfl, rfl⟩
    refine alert.keep rfl rfl event.1 event.2 fun before => ?_
    refine before.imp taken.queue.1.queue.trans fun signals => ?_
    by_cases own : c.pc.signals = true
    · exact ⟨c', List.mem_of_getElem? (List.getElem?_set_self inside), by rw [taken.pc]; exact own⟩
    · exact other_signals present (by simpa using own) signals
  | worker taken =>
    cases taken with
    | lookEmpty _ empty => exact ⟨fun _ _ => .inl empty, by simp⟩
    | sleep at_ running =>
      refine ⟨fun _ silent => alert.queue ?_ silent, fun _ _ => .inl running⟩
      rw [at_]
      rfl
    | _ => exact busy rfl
  | remover taken =>
    cases taken with
    | setEvent => exact signalled rfl
    | storeShutdown at_ => exact ⟨alert.queue, fun _ _ => .inr rfl⟩
    | advance at_ =>
      refine ⟨alert.queue, fun waits silent => ?_⟩
      obtain running | before := alert.shutdown waits silent
      · exact .inl running
      · simp [before] at at_
    | _ at_ =>
      refine ⟨alert.queue, fun waits silent => ?_⟩
      obtain running | before := alert.shutdown waits silent
      · exact .inl running
      · rw [before] at at_; contradiction
  | initializeDevice => exact alert.keep rfl rfl rfl rfl id

end Alert

/-- In every reachable state in which the worker has found the queue empty and `ShutdownThread` false, has
not returned from its wait and is not signalled, whoever linked an item or set the flag since has its
`KeSetEvent` still to come. -/
theorem no_lost_wakeup (cfg : Config) (as : List Action) (s : State)
    (run : Run State.step anyStep (.initial cfg) as s)
    (waiting : s.worker = .wait ∨ (s.worker = .testShutdown ∧ s.shared.extension.shutdownThread = false))
    (silent : s.shared.extension.writeQueueEvent = false) :
    (s.shared.queue = [] ∨ ∃ c ∈ s.calls, c.pc.signals = true) ∧
      (s.shared.extension.shutdownThread = false ∨ s.remover = .setEvent) := by
  have start : Alert (.initial cfg) := ⟨fun _ _ => .inl rfl, fun _ _ => .inl rfl⟩
  have alert := run.preserves Alert start fun _ _ _ alert _ moved => alert.step moved
  obtain waits | ⟨tests, running⟩ := waiting
  · exact ⟨alert.queue (by rw [waits]; rfl) silent, alert.shutdown waits silent⟩
  · exact ⟨alert.queue (by rw [tests]; rfl) silent, .inl running⟩

theorem WorkerPc.wait_of_idle {worker : WorkerPc} (idle : worker.idle = true)
    (notLeaving : worker.leaving true = false) : worker = .wait := by
  cases worker with
  | wait => rfl
  | testShutdown => contradiction
  | _ => contradiction

/-- A producer has linked its item behind a worker that waits, and has not signalled yet. -/
def linkedBehindWait : List Action := workerSteps 2 ++ [.receive flushRequest] ++ callSteps 0 8

theorem no_lost_wakeup_linkedBehindWait : ∃ s, Run State.step anyStep (.initial smallDevice) linkedBehindWait s ∧
    s.shared.queue.length = 1 ∧ (s.shared.queue = [] ∨ ∃ c ∈ s.calls, c.pc.signals = true) := by
  have run := run_of_replay smallDevice linkedBehindWait (by decide +kernel)
  have waits : (State.after smallDevice linkedBehindWait).worker = .wait :=
    WorkerPc.wait_of_idle (by decide +kernel) (by decide +kernel)
  exact ⟨_, run, by decide +kernel,
    (no_lost_wakeup smallDevice linkedBehindWait _ run (.inl waits) (by decide +kernel)).1⟩

/-- `QCacheCleanupDevice` has returned. -/
def RemoverPc.cleanedUp : RemoverPc → Bool
  | .flush | .sendDown | .releaseLock | .waitHolds | .detach | .deleted => true
  | _ => false

/-- `IoReleaseRemoveLockAndWait` has closed the remove lock. -/
def RemoverPc.closedLock : RemoverPc → Bool
  | .waitHolds | .detach | .deleted => true
  | _ => false

/-- `IoReleaseRemoveLockAndWait` has returned. -/
def RemoverPc.waited : RemoverPc → Bool
  | .detach | .deleted => true
  | _ => false

/-- What the remover relies on at each of its steps. -/
structure Removal (s : State) : Prop where
  gone : s.remover.cleanedUp = true → s.worker = .exited
  closed : s.remover.closedLock = true → s.shared.extension.removeLock.removed = true
  released : s.remover.waited = true → s.shared.queue = [] ∧ ∀ c ∈ s.calls, c.holds = 0

theorem Call.holds_eq_zero {c : Call} : c.holds = 0 ↔ c.pc.holdsLock = false ∧ c.scatter = none := by
  cases held : c.pc.holdsLock <;> cases live : c.scatter <;> simp [Call.holds, held, live]

/-- A call that holds nothing stays so once the remove lock is closed, and links nothing. -/
theorem CallStep.stays_released {sh sh' : Shared} {i : ℕ} {c c' : Call} {out : Outcome}
    (moved : CallStep sh i c out sh' c') (released : c.holds = 0) (closed : sh.extension.removeLock.removed = true) :
    c'.holds = 0 ∧ sh'.queue = sh.queue := by
  have refused : ∀ granted, sh.canAcquire granted = false := by simp [Shared.canAcquire, closed]
  obtain ⟨free, dead⟩ := Call.holds_eq_zero.mp released
  have dropped : ∀ c' : Call, c'.pc.holdsLock = false → c'.scatter = c.scatter → c'.holds = 0 := by
    intro c' free' dead'
    simp [Call.holds, free', dead', dead]
  cases moved with
  | entry _ frame entered => exact ⟨dropped _ (by cases entered <;> rfl) rfl, frame.queue⟩
  | refuse _ frame => exact ⟨dropped _ rfl rfl, frame.queue⟩
  | scanForward _ frame => exact ⟨dropped _ rfl rfl, frame.queue⟩
  | scanFull _ frame => exact ⟨dropped _ rfl rfl, frame.queue⟩
  | scanGap _ frame => exact ⟨dropped _ rfl rfl, frame.queue⟩
  | acquireLock _ granted => rw [refused] at granted; contradiction
  | lazyAcquireWrite _ granted => rw [refused] at granted; contradiction
  | lazyAcquireFlush _ granted => rw [refused] at granted; contradiction
  | createScatter _ granted => rw [refused] at granted; contradiction
  | insertTail at_ => rw [at_] at free; contradiction
  | lazyInsertTail at_ => rw [at_] at free; contradiction
  | lazyMapMdl at_ => rw [at_] at free; contradiction
  | lazyNewPayload at_ => rw [at_] at free; contradiction
  | splitOn _ live => rw [dead] at live; contradiction
  | splitFail _ live => rw [dead] at live; contradiction
  | finishScatter _ live => rw [dead] at live; contradiction
  | _ => exact ⟨dropped _ rfl rfl, rfl⟩

/-- With no hold left, nothing is queued and no call answers for a hold. -/
theorem released_of_zero {s : State} (nonneg : 0 ≤ s.surplus) (zero : s.shared.extension.removeLock.ioCount = 0) :
    s.shared.queue = [] ∧ ∀ c ∈ s.calls, c.holds = 0 := by
  have each : ∀ c ∈ s.calls, 0 ≤ c.holds := fun c _ => c.holds_nonneg
  have total : 0 ≤ s.calls.tally Call.holds := List.tally_nonneg each
  rw [State.surplus] at nonneg
  refine ⟨List.length_eq_zero_iff.mp (by omega), fun c member => ?_⟩
  have atMost := List.le_tally each member
  have below := each c member
  omega

namespace Removal

variable {s s' : State}

/-- The remover did not move. -/
private theorem keep (removal : Removal s) (remover : s'.remover = s.remover)
    (worker : s.worker = .exited → s'.worker = .exited)
    (removed : s'.shared.extension.removeLock.removed = s.shared.extension.removeLock.removed)
    (released : s.remover.waited = true → s.shared.queue = [] ∧ (∀ c ∈ s.calls, c.holds = 0) →
      s'.shared.queue = [] ∧ ∀ c ∈ s'.calls, c.holds = 0) : Removal s' where
  gone := by rw [remover]; exact fun cleaned => worker (removal.gone cleaned)
  closed := by rw [remover, removed]; exact removal.closed
  released := by rw [remover]; exact fun waited => released waited (removal.released waited)

theorem step {a : Action} (removal : Removal s) (nonneg : 0 ≤ s.surplus) (moved : s.step a = some s') :
    Removal s' := by
  have away : s.worker = .exited → s'.worker = .exited := fun exited => exited_step exited moved
  cases step_cases moved with
  | receive =>
    refine removal.keep rfl away rfl fun _ ⟨empty, released⟩ => ⟨empty, fun c member => ?_⟩
    obtain old | new := List.mem_append.mp member
    · exact released c old
    · rw [List.mem_singleton.mp new]
      rfl
  | call present taken =>
    refine removal.keep rfl away taken.outer.removed fun waited ⟨empty, released⟩ => ?_
    have closed : s.shared.extension.removeLock.removed = true := by
      apply removal.closed
      cases at_ : s.remover <;> simp [at_, RemoverPc.waited] at waited <;> rfl
    obtain ⟨nothing, queue⟩ := taken.stays_released (released _ (List.mem_of_getElem? present)) closed
    refine ⟨queue.trans empty, fun c member => ?_⟩
    obtain old | rfl := List.mem_or_eq_of_mem_set member
    · exact released c old
    · exact nothing
  | @lower _ i c sh' c' present taken =>
    have removed : sh'.extension.removeLock.removed = s.shared.extension.removeLock.removed := by
      cases taken with
      | scattered => exact scatterComplete_removed _ _ _ _
      | _ => rfl
    refine removal.keep rfl away removed fun _ ⟨empty, released⟩ => ⟨taken.queue.1.queue.trans empty, ?_⟩
    have nothing := released c (List.mem_of_getElem? present)
    intro d member
    obtain old | rfl := List.mem_or_eq_of_mem_set member
    · exact released d old
    · cases taken with
      | scattered _ _ live =>
        rw [(Call.holds_eq_zero.mp nothing).2] at live
        contradiction
      | _ => exact nothing
  | worker taken =>
    cases taken with
    | unlink at_ found =>
      refine removal.keep rfl away rfl fun _ ⟨empty, released⟩ => ?_
      rw [State.item?, empty] at found
      contradiction
    | completeIrp at_ found =>
      refine removal.keep rfl away rfl fun _ ⟨empty, released⟩ => ?_
      rw [State.item?, empty] at found
      contradiction
    | _ => exact removal.keep rfl away rfl fun _ released => released
  | remover taken =>
    cases taken with
    | acquire => exact ⟨by simp [RemoverPc.cleanedUp], by simp [RemoverPc.closedLock], by simp [RemoverPc.waited]⟩
    | clearCached => exact ⟨by simp [RemoverPc.cleanedUp], by simp [RemoverPc.closedLock], by simp [RemoverPc.waited]⟩
    | storeShutdown => exact ⟨by simp [RemoverPc.cleanedUp], by simp [RemoverPc.closedLock], by simp [RemoverPc.waited]⟩
    | setEvent => exact ⟨by simp [RemoverPc.cleanedUp], by simp [RemoverPc.closedLock], by simp [RemoverPc.waited]⟩
    | workerGone _ exited => exact ⟨fun _ => exited, by simp [RemoverPc.closedLock], by simp [RemoverPc.waited]⟩
    | releaseLock at_ =>
      refine ⟨fun _ => removal.gone ?_, fun _ => rfl, by simp [RemoverPc.waited]⟩
      rw [at_]
      rfl
    | holdsGone at_ zero =>
      refine ⟨fun _ => removal.gone ?_, fun _ => removal.closed ?_, fun _ => ?_⟩
      · rw [at_]
        rfl
      · rw [at_]
        rfl
      · exact released_of_zero (s := s) nonneg zero
    | advance at_ =>
      obtain ⟨at_, rfl⟩ | ⟨at_, rfl⟩ | ⟨at_, rfl⟩ := at_
      · exact ⟨fun _ => removal.gone (by rw [at_]; rfl), by simp [RemoverPc.closedLock], by simp [RemoverPc.waited]⟩
      · exact ⟨fun _ => removal.gone (by rw [at_]; rfl), by simp [RemoverPc.closedLock], by simp [RemoverPc.waited]⟩
      · exact ⟨fun _ => removal.gone (by rw [at_]; rfl), fun _ => removal.closed (by rw [at_]; rfl),
          fun _ => removal.released (by rw [at_]; rfl)⟩
  | initializeDevice => exact removal.keep rfl away rfl fun _ released => released

end Removal

theorem removal_initial (cfg : Config) : Removal (.initial cfg) where
  gone := by simp [State.initial, RemoverPc.cleanedUp]
  closed := by simp [State.initial, RemoverPc.closedLock]
  released := by simp [State.initial, RemoverPc.waited]

theorem removal_of_run {cfg : Config} {ok : State → Action → Prop} {as : List Action} {s : State}
    (run : Run State.step ok (.initial cfg) as s) : Removal s := by
  induction run with
  | nil => exact removal_initial cfg
  | snoc before _ moved ih => exact ih.step (surplus_nonneg_of_run before) moved

/-- When the wait for the remove lock ends, no call is between linking its item and `KeSetEvent`. -/
def signalledInTime (s : State) : Action → Bool
  | .remover => !(s.remover = .waitHolds && s.calls.any fun c => c.pc.signals)
  | _ => true

/-- Once the wait for the remove lock has ended, nobody will use the event. -/
def Quiet (s : State) : Prop := s.remover.waited = true → ∀ c ∈ s.calls, c.pc.signals = false

theorem quiet_initial (cfg : Config) : Quiet (.initial cfg) := by
  simp [Quiet, State.initial, RemoverPc.waited]

theorem CallStep.stays_quiet {sh sh' : Shared} {i : ℕ} {c c' : Call} {out : Outcome}
    (moved : CallStep sh i c out sh' c') (released : c.holds = 0) : c'.pc.signals = false := by
  have free := (Call.holds_eq_zero.mp released).1
  cases moved with
  | insertTail at_ => rw [at_] at free; contradiction
  | lazyInsertTail at_ => rw [at_] at free; contradiction
  | entry _ _ entered => cases entered <;> rfl
  | splitOn _ _ _ _ _ goes => obtain ⟨-, rfl⟩ | ⟨-, rfl⟩ := goes <;> rfl
  | finishScatter => simp [Pc.signals]
  | _ => rfl

theorem Quiet.step {s s' : State} {a : Action} (quiet : Quiet s) (removal : Removal s)
    (inTime : signalledInTime s a = true) (moved : s.step a = some s') : Quiet s' := by
  rw [Quiet] at quiet ⊢
  intro waited
  cases step_cases moved with
  | receive =>
    intro c member
    obtain old | new := List.mem_append.mp member
    · exact quiet waited c old
    · rw [List.mem_singleton.mp new]
      rfl
  | call present taken =>
    intro c member
    obtain old | rfl := List.mem_or_eq_of_mem_set member
    · exact quiet waited c old
    · exact taken.stays_quiet ((removal.released waited).2 _ (List.mem_of_getElem? present))
  | lower present taken =>
    intro c member
    obtain old | rfl := List.mem_or_eq_of_mem_set member
    · exact quiet waited c old
    · rw [taken.pc]
      exact quiet waited _ (List.mem_of_getElem? present)
  | worker taken =>
    cases taken with
    | @completeIrp _ _ _ _ _ d _ _ _ present =>
      intro c member
      obtain old | rfl := List.mem_or_eq_of_mem_set member
      · exact quiet waited c old
      · exact quiet waited d (List.mem_of_getElem? present)
    | _ => exact quiet waited
  | remover taken =>
    cases taken with
    | holdsGone at_ =>
      intro c member
      have none : ∀ c ∈ s.calls, c.pc.signals = false := by simpa [signalledInTime, at_] using inTime
      exact none c member
    | advance at_ =>
      obtain ⟨-, rfl⟩ | ⟨-, rfl⟩ | ⟨at_, rfl⟩ := at_
      · contradiction
      · contradiction
      · exact quiet (by rw [at_]; rfl)
    | _ => contradiction
  | initializeDevice => exact quiet waited

theorem quiet_of_run {cfg : Config} {as : List Action} {s : State}
    (run : Run State.step (fun t a => signalledInTime t a = true) (.initial cfg) as s) : Quiet s := by
  induction run with
  | nil => exact quiet_initial cfg
  | snoc before inTime moved ih => exact ih.step (removal_of_run before) inTime moved

/-- A signal that comes after the wait breaks it. -/
theorem Quiet.late {s s' : State} {a : Action} (late : signalledInTime s a = false) (moved : s.step a = some s') :
    ¬ Quiet s' := by
  intro quiet
  cases step_cases moved with
  | remover taken =>
    simp only [signalledInTime, Bool.not_eq_false', Bool.and_eq_true, decide_eq_true_eq, List.any_eq_true] at late
    obtain ⟨at_, c, member, signals⟩ := late
    cases taken with
    | holdsGone =>
      have silent := quiet rfl c member
      rw [signals] at silent
      contradiction
    | advance here => simp [at_] at here
    | _ here => rw [at_] at here; contradiction
  | lower _ taken => cases taken <;> contradiction
  | worker taken => cases taken <;> contradiction
  | _ => contradiction

/-- The condition is exact: in a run in which nobody uses the event after the wait for the remove lock,
each wait ends in time. -/
theorem quiet_iff_signalled {cfg : Config} {as : List Action} {s : State}
    (run : Run State.step anyStep (.initial cfg) as s) :
    (∀ t ∈ Visited State.step anyStep (.initial cfg) as, Quiet t) ↔
      Run State.step (fun t a => signalledInTime t a = true) (.initial cfg) as s := by
  apply run.admitted_iff (fun t => Removal t ∧ Wf t ∧ 0 ≤ t.surplus) Quiet
  · exact ⟨removal_initial cfg, wf_initial cfg, le_rfl⟩
  · rintro t a u ⟨removal, wf, nonneg⟩ moved
    exact ⟨removal.step nonneg moved, wf.step moved, nonneg.trans (wf.surplus_step moved)⟩
  · exact quiet_initial cfg
  · rintro t a u ⟨removal, -⟩ quiet inTime moved
    exact quiet.step removal inTime moved
  · intro t a u _ _ late moved
    exact Quiet.late (by simpa using late) moved

/-- When every wait for the remove lock ends in time, a deleted device has no worker in its loop, no queue
entry, no live scatter object and no call that has a hold or its `KeSetEvent` still to come. A scatter object
lives until its destructor runs. The destructor completes the request and gives the hold back before it frees the
object, so only the block of memory may outlast the device. -/
theorem device_lifetime (cfg : Config) (as : List Action) (s : State)
    (run : Run State.step (fun t a => signalledInTime t a = true) (.initial cfg) as s)
    (deleted : s.remover = .deleted) :
    s.worker = .exited ∧ s.shared.queue = [] ∧
      ∀ c ∈ s.calls, c.scatter = none ∧ c.pc.holdsLock = false ∧ c.pc.signals = false := by
  have waited : s.remover.waited = true := by
    rw [deleted]
    rfl
  have removal := removal_of_run run
  obtain ⟨empty, released⟩ := removal.released waited
  refine ⟨removal.gone (by rw [deleted]; rfl), empty, fun c member => ?_⟩
  obtain ⟨free, dead⟩ := Call.holds_eq_zero.mp (released c member)
  exact ⟨dead, free, quiet_of_run run waited c member⟩

/-- A lazy write is served and the device is deleted. -/
def deleted : List Action := removed ++ List.replicate 6 .remover

theorem device_lifetime_deleted : ∃ s, Run State.step anyStep (.initial smallDevice) deleted s ∧
    s.remover = .deleted ∧ s.worker = .exited ∧ s.calls.length = 1 ∧
    ∀ c ∈ s.calls, c.scatter = none ∧ c.pc.holdsLock = false ∧ c.pc.signals = false := by
  have run : Run State.step (fun t a => signalledInTime t a = true) (.initial smallDevice) deleted
    (.after smallDevice deleted) := run_after (by decide +kernel)
  have gone : (State.after smallDevice deleted).remover = .deleted := by decide +kernel
  obtain ⟨exited, -, quiet⟩ := device_lifetime smallDevice deleted _ run gone
  exact ⟨_, run.toAny, gone, exited, by decide +kernel, quiet⟩

/-- The worker serves a request whose call has not signalled the event yet, and the device is deleted. -/
def deletedEarly : List Action :=
  [.receive shutdownRequest] ++ callSteps 0 5 ++ workerSteps 2 ++ [.workerLowerComplete ⟨STATUS_SUCCESS, 0⟩] ++
    workerSteps 2 ++ List.replicate 4 .remover ++ workerSteps 2 ++ List.replicate 6 .remover

/-- The device is gone and a call that had its hold is still before its `KeSetEvent`. -/
theorem device_deleted_early : ¬ ∀ (cfg : Config) (as : List Action) (s : State),
    Run State.step anyStep (.initial cfg) as s → s.remover = .deleted →
      s.worker = .exited ∧ s.shared.queue = [] ∧
        ∀ c ∈ s.calls, c.scatter = none ∧ c.pc.holdsLock = false ∧ c.pc.signals = false := by
  intro claimed
  have run := run_of_replay smallDevice deletedEarly (by decide +kernel)
  obtain ⟨-, -, quiet⟩ := claimed smallDevice _ _ run (by decide +kernel)
  have pending : (State.after smallDevice deletedEarly).calls.any (fun c => c.pc.signals) = true := by decide +kernel
  obtain ⟨c, member, signals⟩ := List.any_eq_true.mp pending
  rw [(quiet c member).2.2] at signals
  contradiction

end QueueCache
