import QueueCache.Model.CallSteps

/-! # What one action can do

`Step` lists every move of every party, one constructor for each exit, and is the inversion of
`State.step`. The moves of a dispatch call are `CallStep`; the lower driver's moves on a call's own
requests are `LowerMove`; the worker's and the remover's follow.
-/

namespace QueueCache

/-- The lower driver works on the `n`-th request of the call. -/
inductive LowerMove (sh : Shared) (i : ℕ) (c : Call) : Action → Shared → Call → Prop
  | write {n : ℕ} {lower : LowerIrp} {sec : ℤ} (present : c.lowerIrps[n]? = some lower)
      (covered : sec ∈ sectorsOf lower.diskOffset lower.length) (fresh : sec ∉ lower.moved)
      (writes : lower.majorFunction = .write) :
      LowerMove sh i c (.transfer i n sec)
        { sh with disk := writeSector sh.disk lower.diskOffset c.buffer lower.bufferOffset lower.length sec }
        { c with lowerIrps := c.lowerIrps.set n { lower with moved := sec :: lower.moved } }
  | read {n : ℕ} {lower : LowerIrp} {sec : ℤ} (present : c.lowerIrps[n]? = some lower)
      (covered : sec ∈ sectorsOf lower.diskOffset lower.length) (fresh : sec ∉ lower.moved)
      (reads : lower.majorFunction ≠ .write) :
      LowerMove sh i c (.transfer i n sec) sh { c with
        buffer := readSector c.buffer lower.bufferOffset sh.disk lower.diskOffset lower.length sec
        lowerIrps := c.lowerIrps.set n { lower with moved := sec :: lower.moved } }
  | scattered {n : ℕ} {lower : LowerIrp} {scatter : ScatteredIrp} {ioStatus : IoStatusBlock}
      (present : c.lowerIrps[n]? = some lower) (part : lower.scattered = true)
      (live : c.scatter = some scatter) (allowed : admissible ioStatus lower.length lower.done) :
      LowerMove sh i c (.lowerComplete i n ioStatus)
        (scatterComplete sh i { c with lowerIrps := c.lowerIrps.eraseIdx n }
          (if ntSuccess ioStatus.status then
            { scatter with bytesCompleted := scatter.bytesCompleted + ioStatus.information }
          else { scatter with lastFailedStatus := ioStatus.status })).1
        (scatterComplete sh i { c with lowerIrps := c.lowerIrps.eraseIdx n }
          (if ntSuccess ioStatus.status then
            { scatter with bytesCompleted := scatter.bytesCompleted + ioStatus.information }
          else { scatter with lastFailedStatus := ioStatus.status })).2
  | skipped {n : ℕ} {lower : LowerIrp} {ioStatus : IoStatusBlock}
      (present : c.lowerIrps[n]? = some lower) (whole : lower.scattered = false)
      (allowed : admissible ioStatus lower.length lower.done) :
      LowerMove sh i c (.lowerComplete i n ioStatus) sh
        { c with lowerIrps := c.lowerIrps.eraseIdx n, lowerStatus := some ioStatus }

namespace LowerMove

variable {sh sh' : Shared} {i : ℕ} {c c' : Call} {a : Action}

theorem irp (moved : LowerMove sh i c a sh' c') : c'.irp = c.irp := by
  cases moved with
  | scattered => simp
  | _ => rfl

theorem pc (moved : LowerMove sh i c a sh' c') : c'.pc = c.pc := by
  cases moved with
  | scattered => simp
  | _ => rfl

theorem pendingReturned (moved : LowerMove sh i c a sh' c') : c'.pendingReturned = c.pendingReturned := by
  cases moved with
  | scattered => simp
  | _ => rfl

theorem forwards (moved : LowerMove sh i c a sh' c') : c'.forwards = c.forwards := by
  cases moved with
  | scattered => simp
  | _ => rfl

theorem completions (moved : LowerMove sh i c a sh' c') : c'.completions = c.completions ∨
    ∃ completion, c'.completions = c.completions ++ [completion] ∧ completion.site = .scatter := by
  cases moved with
  | scattered =>
    rcases scatterComplete_completions sh i _ _ with same | ⟨completion, added, site⟩
    · exact .inl same
    · exact .inr ⟨completion, added, site⟩
  | _ => exact .inl rfl

theorem present (moved : LowerMove sh i c a sh' c') : c.lowerIrps ≠ [] := by
  intro none
  cases moved with
  | _ present => simp [none] at present

theorem queue (moved : LowerMove sh i c a sh' c') : QueueFrame sh sh' ∧ sh'.history = sh.history := by
  cases moved with
  | scattered => exact ⟨.scatterComplete sh i _ _, by simp only [scatterComplete_history]⟩
  | _ => exact ⟨by constructor <;> rfl, rfl⟩

end LowerMove

theorem transfer_cases {sh : Shared} (i : ℕ) {c : Call} {n : ℕ} {sec : ℤ} {result : Shared × Call}
    (moved : transfer sh c n sec = some result) : LowerMove sh i c (.transfer i n sec) result.1 result.2 := by
  obtain ⟨lower, present, taken⟩ := Option.bind_eq_some_iff.mp moved
  split at taken
  · next covered =>
    dsimp only at taken
    split at taken <;> obtain rfl := Option.some.inj taken
    · next writes => exact .write present covered.1 covered.2 writes
    · next reads => exact .read present covered.1 covered.2 reads
  · contradiction

theorem lowerComplete_cases {sh : Shared} {i : ℕ} {c : Call} {n : ℕ} {ioStatus : IoStatusBlock}
    {result : Shared × Call} (moved : lowerComplete sh i c n ioStatus = some result) :
    LowerMove sh i c (.lowerComplete i n ioStatus) result.1 result.2 := by
  obtain ⟨lower, present, moved⟩ := Option.bind_eq_some_iff.mp moved
  split at moved
  · next allowed =>
    dsimp only at moved
    split at moved
    · next part =>
      obtain ⟨scatter, live, rfl⟩ := Option.map_eq_some_iff.mp moved
      exact .scattered present part live allowed
    · next whole =>
      obtain rfl := Option.some.inj moved
      exact .skipped present (by simpa using whole) allowed
  · contradiction

/-- Every move of the worker and of the lower driver on the worker's request. -/
inductive WorkerStep (s : State) : Action → State → Prop
  | lookEmpty {memory : Bool} (at_ : s.worker = .look) (empty : s.shared.queue = []) :
      WorkerStep s (.worker memory) { s with worker := .testShutdown }
  | lookHead {memory : Bool} {item : WriteQueueItem} {rest : List WriteQueueItem} (at_ : s.worker = .look)
      (head : s.shared.queue = item :: rest) : WorkerStep s (.worker memory) { s with worker := .dispatch item.addr }
  | exit {memory : Bool} (at_ : s.worker = .testShutdown) (shutdown : s.shared.extension.shutdownThread = true) :
      WorkerStep s (.worker memory) { s with worker := .exited }
  | sleep {memory : Bool} (at_ : s.worker = .testShutdown) (running : s.shared.extension.shutdownThread = false) :
      WorkerStep s (.worker memory) { s with worker := .wait }
  | wake {memory : Bool} (at_ : s.worker = .wait) (signalled : s.shared.extension.writeQueueEvent = true) :
      WorkerStep s (.worker memory) { s with worker := .look, shared := s.shared.signal false }
  | answer {memory : Bool} {addr i : ℕ} {item : WriteQueueItem} {c : Call} (at_ : s.worker = .dispatch addr)
      (found : s.item? addr = some item) (holds : item.irp = some i) (present : s.calls[i]? = some c)
      (marker : c.irp.stack.isMarker = true) :
      WorkerStep s (.worker memory) { s with worker := .complete item.addr ⟨STATUS_SUCCESS, 0⟩ }
  | sendIrp {memory : Bool} {addr i : ℕ} {item : WriteQueueItem} {c : Call} (at_ : s.worker = .dispatch addr)
      (found : s.item? addr = some item) (holds : item.irp = some i) (present : s.calls[i]? = some c)
      (notMarker : c.irp.stack.isMarker = false) : WorkerStep s (.worker memory) (s.issue (.ofIrp item.addr c.irp))
  | sendCopy {addr : ℕ} {item : WriteQueueItem} (at_ : s.worker = .dispatch addr)
      (found : s.item? addr = some item) (copy : item.irp = none) :
      WorkerStep s (.worker true) (s.issue (.ofItem item))
  | noRequest {addr : ℕ} {item : WriteQueueItem} (at_ : s.worker = .dispatch addr)
      (found : s.item? addr = some item) (copy : item.irp = none) :
      WorkerStep s (.worker false) { s with
        worker := .look
        shared := s.shared.withStatistics
          { s.shared.statistics with lastErrorCode := STATUS_INSUFFICIENT_RESOURCES } }
  | transfer {request : LowerRequest} {moved : List ℤ} {sec : ℤ} (at_ : s.worker = .lower request moved)
      (covered : sec ∈ sectorsOf request.offset request.extent) (fresh : sec ∉ moved) :
      WorkerStep s (.workerTransfer sec) { s with
        worker := .lower request (sec :: moved)
        shared.disk := writeSector s.shared.disk request.offset request.data 0 request.extent sec }
  | served {request : LowerRequest} {moved : List ℤ} {ioStatus : IoStatusBlock}
      (at_ : s.worker = .lower request moved)
      (allowed : admissible ioStatus request.length (request.done moved)) :
      WorkerStep s (.workerLowerComplete ioStatus) { s with
        worker := .complete request.item ioStatus
        shared.history.served := s.shared.history.served ++ [(request, ioStatus)] }
  | completeIrp {memory : Bool} {addr i : ℕ} {ioStatus : IoStatusBlock} {item : WriteQueueItem} {c : Call}
      (at_ : s.worker = .complete addr ioStatus) (found : s.item? addr = some item)
      (holds : item.irp = some i) (present : s.calls[i]? = some c) :
      WorkerStep s (.worker memory) { s with
        worker := .unlink item.addr
        calls := s.calls.set i
          ({ c with information := ioStatus.information }.completeRequest .worker ioStatus.status)
        shared := s.shared.withQueue (State.clearIrp s.shared.queue item.addr) }
  | completeCopy {memory : Bool} {addr : ℕ} {ioStatus : IoStatusBlock} {item : WriteQueueItem}
      (at_ : s.worker = .complete addr ioStatus) (found : s.item? addr = some item)
      (copy : item.irp = none) : WorkerStep s (.worker memory) { s with worker := .unlink item.addr }
  | unlink {memory : Bool} {addr : ℕ} {item : WriteQueueItem} (at_ : s.worker = .unlink addr)
      (found : s.item? addr = some item) : WorkerStep s (.worker memory) (s.unlinkItem item)

theorem stepWorker_cases {s s' : State} {memory : Bool} (moved : s.stepWorker memory = some s') :
    WorkerStep s (.worker memory) s' := by
  unfold State.stepWorker at moved
  cases at_ : s.worker with
  | look =>
    simp only [at_] at moved
    split at moved <;> obtain rfl := Option.some.inj moved
    · next empty => exact .lookEmpty at_ empty
    · next head => exact .lookHead at_ head
  | testShutdown =>
    simp only [at_, Option.some.injEq] at moved
    subst moved
    split
    · next shutdown => exact .exit at_ shutdown
    · next running => exact .sleep at_ (by simpa using running)
  | wait =>
    simp only [at_] at moved
    split at moved
    · next signalled =>
      obtain rfl := Option.some.inj moved
      exact .wake at_ signalled
    · contradiction
  | dispatch addr =>
    simp only [at_] at moved
    obtain ⟨item, found, moved⟩ := Option.bind_eq_some_iff.mp moved
    unfold State.dispatchItem at moved
    split at moved
    · next i holds =>
      obtain ⟨c, present, rfl⟩ := Option.map_eq_some_iff.mp moved
      split
      · next marker => exact .answer at_ found holds present marker
      · next notMarker => exact .sendIrp at_ found holds present (by simpa using notMarker)
    · next copy =>
      cases memory with
      | true =>
        obtain rfl := Option.some.inj moved
        exact .sendCopy at_ found copy
      | false =>
        obtain rfl := Option.some.inj moved
        exact .noRequest at_ found copy
  | lower request sectors => simp [at_] at moved
  | complete addr ioStatus =>
    simp only [at_] at moved
    obtain ⟨item, found, moved⟩ := Option.bind_eq_some_iff.mp moved
    unfold State.completeItem at moved
    split at moved
    · next i holds =>
      obtain ⟨c, present, rfl⟩ := Option.map_eq_some_iff.mp moved
      exact .completeIrp at_ found holds present
    · next copy =>
      obtain rfl := Option.some.inj moved
      exact .completeCopy at_ found copy
  | unlink addr =>
    simp only [at_] at moved
    obtain ⟨item, found, rfl⟩ := Option.map_eq_some_iff.mp moved
    exact .unlink at_ found
  | exited => simp [at_] at moved

/-- Every move of the remover: what it does to the shared data, beside its own program point. -/
inductive RemoverStep (s : State) : State → Prop
  | acquire (at_ : s.remover = .idle) (granted : s.shared.canAcquire true = true) :
      RemoverStep s { s with remover := .clearCached, shared := s.shared.ioAcquireRemoveLock }
  | clearCached (at_ : s.remover = .clearCached) :
      RemoverStep s { s with
        remover := .storeShutdown
        shared := s.shared.withStatistics { s.shared.statistics with isCached := false } }
  | storeShutdown (at_ : s.remover = .storeShutdown) :
      RemoverStep s { s with remover := .setEvent, shared.extension.shutdownThread := true }
  | setEvent (at_ : s.remover = .setEvent) :
      RemoverStep s { s with remover := .waitWorker, shared := s.shared.signal true }
  | workerGone (at_ : s.remover = .waitWorker) (gone : s.worker = .exited) :
      RemoverStep s { s with remover := .flush }
  | releaseLock (at_ : s.remover = .releaseLock) :
      RemoverStep s { s with
        remover := .waitHolds
        shared := { s.shared.ioReleaseRemoveLock with extension.removeLock.removed := true } }
  | holdsGone (at_ : s.remover = .waitHolds) (zero : s.shared.extension.removeLock.ioCount = 0) :
      RemoverStep s { s with remover := .detach }
  | advance {next : RemoverPc}
      (at_ : (s.remover = .flush ∧ next = .sendDown) ∨ (s.remover = .sendDown ∧ next = .releaseLock) ∨
        (s.remover = .detach ∧ next = .deleted)) : RemoverStep s { s with remover := next }

/-- The remover leaves the queue, its log, the disk, the worker and the calls alone. -/
theorem RemoverStep.frame {s s' : State} (moved : RemoverStep s s') :
    QueueFrame s.shared s'.shared ∧ s'.shared.history = s.shared.history ∧
      s'.shared.disk = s.shared.disk ∧ s'.worker = s.worker ∧ s'.calls = s.calls := by
  cases moved <;> exact ⟨by constructor <;> rfl, rfl, rfl, rfl, rfl⟩

theorem stepRemover_cases {s s' : State} (moved : s.stepRemover = some s') : RemoverStep s s' := by
  unfold State.stepRemover at moved
  cases at_ : s.remover with
  | idle =>
    simp only [at_] at moved
    split at moved
    · next granted =>
      obtain rfl := Option.some.inj moved
      exact .acquire at_ granted
    · contradiction
  | clearCached =>
    simp only [at_, Option.some.injEq] at moved
    exact moved ▸ .clearCached at_
  | storeShutdown =>
    simp only [at_, Option.some.injEq] at moved
    exact moved ▸ .storeShutdown at_
  | setEvent =>
    simp only [at_, Option.some.injEq] at moved
    exact moved ▸ .setEvent at_
  | waitWorker =>
    simp only [at_] at moved
    split at moved
    · next gone =>
      obtain rfl := Option.some.inj moved
      exact .workerGone at_ gone
    · contradiction
  | flush =>
    simp only [at_, Option.some.injEq] at moved
    exact moved ▸ .advance (.inl ⟨at_, rfl⟩)
  | sendDown =>
    simp only [at_, Option.some.injEq] at moved
    exact moved ▸ .advance (.inr (.inl ⟨at_, rfl⟩))
  | releaseLock =>
    simp only [at_, Option.some.injEq] at moved
    exact moved ▸ .releaseLock at_
  | waitHolds =>
    simp only [at_] at moved
    split at moved
    · next zero =>
      obtain rfl := Option.some.inj moved
      exact .holdsGone at_ zero
    · contradiction
  | detach =>
    simp only [at_, Option.some.injEq] at moved
    exact moved ▸ .advance (.inr (.inr ⟨at_, rfl⟩))
  | deleted => simp [at_] at moved

/-- Every action. -/
inductive Step (s : State) : Action → State → Prop
  | receive {irp : Irp} : Step s (.receive irp) { s with calls := s.calls ++ [.receive irp] }
  | call {i : ℕ} {out : Outcome} {c : Call} {sh' : Shared} {c' : Call} (present : s.calls[i]? = some c)
      (moved : CallStep s.shared i c out sh' c') : Step s (.call i out) (s.update i (sh', c'))
  | lower {a : Action} {i : ℕ} {c : Call} {sh' : Shared} {c' : Call} (present : s.calls[i]? = some c)
      (moved : LowerMove s.shared i c a sh' c') : Step s a (s.update i (sh', c'))
  | worker {a : Action} {s' : State} (moved : WorkerStep s a s') : Step s a s'
  | remover {s' : State} (moved : RemoverStep s s') : Step s .remover s'
  | initializeDevice {size : ℤ} (unknown : s.shared.statistics.size = 0) (range : -2 ^ 63 ≤ size ∧ size < 2 ^ 63) :
      Step s (.initializeDevice size) { s with
        shared := s.shared.withStatistics
          { s.shared.statistics with size := size, lastErrorCode := STATUS_SUCCESS } }

/-- `Step` is complete: every action that is possible moves the device by one of its cases. -/
theorem step_cases {s s' : State} {a : Action} (moved : s.step a = some s') : Step s a s' := by
  cases a with
  | receive irp =>
    simp only [State.step] at moved
    split at moved
    · contradiction
    · obtain rfl := Option.some.inj moved
      exact .receive
  | call i out =>
    obtain ⟨c, present, moved⟩ := Option.bind_eq_some_iff.mp moved
    obtain ⟨result, taken, rfl⟩ := Option.map_eq_some_iff.mp moved
    exact .call present (callStep_cases taken)
  | transfer i n sec =>
    obtain ⟨c, present, moved⟩ := Option.bind_eq_some_iff.mp moved
    obtain ⟨result, taken, rfl⟩ := Option.map_eq_some_iff.mp moved
    exact .lower present (transfer_cases i taken)
  | lowerComplete i n ioStatus =>
    obtain ⟨c, present, moved⟩ := Option.bind_eq_some_iff.mp moved
    obtain ⟨result, taken, rfl⟩ := Option.map_eq_some_iff.mp moved
    exact .lower present (lowerComplete_cases taken)
  | worker memory => exact .worker (stepWorker_cases moved)
  | workerTransfer sec =>
    simp only [State.step] at moved
    split at moved
    · next at_ =>
      split at moved
      · next covered =>
        obtain rfl := Option.some.inj moved
        exact .worker (.transfer at_ covered.1 covered.2)
      · contradiction
    · contradiction
  | workerLowerComplete ioStatus =>
    simp only [State.step] at moved
    split at moved
    · next at_ =>
      split at moved
      · next allowed =>
        obtain rfl := Option.some.inj moved
        exact .worker (.served at_ allowed)
      · contradiction
    · contradiction
  | remover => exact .remover (stepRemover_cases moved)
  | initializeDevice size =>
    simp only [State.step] at moved
    split at moved
    · next unknown =>
      obtain rfl := Option.some.inj moved
      exact .initializeDevice unknown.1 unknown.2
    · contradiction

/-- The requests received so far, in order: the driver never changes their parameters. -/
def State.irps (s : State) : List Irp := s.calls.map Call.irp

private theorem irps_set {calls : List Call} {i : ℕ} {c c' : Call} (present : calls[i]? = some c)
    (same : c'.irp = c.irp) : (calls.set i c').map Call.irp = calls.map Call.irp := by
  obtain ⟨inside, rfl⟩ := List.getElem?_eq_some_iff.mp present
  have self : (calls.map Call.irp).set i calls[i].irp = calls.map Call.irp := by
    rw [← List.map_set, List.set_getElem_self inside]
  rw [List.map_set, same, self]

theorem step_irps {s s' : State} {a : Action} (moved : s.step a = some s') :
    s'.irps = s.irps ∨ ∃ irp, a = .receive irp ∧ s'.irps = s.irps ++ [irp] := by
  cases step_cases moved with
  | receive => exact .inr ⟨_, rfl, List.map_append⟩
  | call present taken => exact .inl (irps_set present taken.irp)
  | lower present taken => exact .inl (irps_set present taken.irp)
  | worker taken =>
    cases taken with
    | completeIrp _ _ _ present => exact .inl (irps_set present rfl)
    | _ => exact .inl rfl
  | remover taken => exact .inl (congrArg (List.map Call.irp) taken.frame.2.2.2.2)
  | initializeDevice => exact .inl rfl

/-- What no party but the worker changes: how far the queue has been served. Items and requests are
only added. -/
structure ServiceFrame (s s' : State) : Prop where
  worker : s'.worker = s.worker
  unlinked : s'.shared.history.unlinked = s.shared.history.unlinked
  issued : s'.shared.history.issued = s.shared.history.issued
  served : s'.shared.history.served = s.shared.history.served
  inserted : ∃ items, s'.shared.history.inserted = s.shared.history.inserted ++ items
  irps : ∃ more, s'.irps = s.irps ++ more

/-- A step is the worker's, with the requests received unchanged, or it leaves the service alone. -/
theorem step_service {s s' : State} {a : Action} (moved : s.step a = some s') :
    (WorkerStep s a s' ∧ s'.irps = s.irps) ∨ ServiceFrame s s' := by
  have irps : ∃ more, s'.irps = s.irps ++ more := by
    obtain same | ⟨irp, -, more⟩ := step_irps moved
    · exact ⟨[], by rw [same, List.append_nil]⟩
    · exact ⟨_, more⟩
  have ofHistory : s'.worker = s.worker → s'.shared.history = s.shared.history → ServiceFrame s s' := by
    intro worker history
    exact ⟨worker, by rw [history], by rw [history], by rw [history], ⟨[], by rw [history, List.append_nil]⟩, irps⟩
  cases step_cases moved with
  | receive => exact .inr (ofHistory rfl rfl)
  | call present taken =>
    right
    obtain ⟨-, history⟩ | ⟨item, charge, rfl, -⟩ := taken.queue_cases
    · exact ofHistory rfl history
    · exact ⟨rfl, rfl, rfl, rfl, ⟨[item], rfl⟩, irps⟩
  | lower present taken => exact .inr (ofHistory rfl taken.queue.2)
  | worker taken =>
    left
    refine ⟨taken, ?_⟩
    cases taken with
    | completeIrp _ _ _ present => exact irps_set present rfl
    | _ => rfl
  | remover taken => exact .inr (ofHistory taken.frame.2.2.2.1 taken.frame.2.1)
  | initializeDevice => exact .inr (ofHistory rfl rfl)

/-- What only grows: the log of insertions, the requests received and the answers to the worker. -/
structure Grows (s s' : State) : Prop where
  inserted : s.shared.history.inserted <+: s'.shared.history.inserted
  irps : s.irps <+: s'.irps
  served : s.shared.history.served <+: s'.shared.history.served

theorem Grows.refl (s : State) : Grows s s := ⟨List.prefix_rfl, List.prefix_rfl, List.prefix_rfl⟩

theorem Grows.trans {s s' s'' : State} (first : Grows s s') (second : Grows s' s'') : Grows s s'' :=
  ⟨first.inserted.trans second.inserted, first.irps.trans second.irps, first.served.trans second.served⟩

theorem step_grows {s s' : State} {a : Action} (moved : s.step a = some s') : Grows s s' := by
  obtain ⟨taken, irps⟩ | frame := step_service moved
  · have same : s.irps <+: s'.irps := by rw [irps]
    cases taken with
    | served => exact ⟨List.prefix_rfl, same, List.prefix_append _ _⟩
    | _ => exact ⟨List.prefix_rfl, same, List.prefix_rfl⟩
  · obtain ⟨items, inserted⟩ := frame.inserted
    obtain ⟨more, irps⟩ := frame.irps
    exact ⟨⟨items, inserted.symm⟩, ⟨more, irps.symm⟩, by rw [frame.served]⟩

theorem calls_length_le {s s' : State} {a : Action} (moved : s.step a = some s') :
    s.calls.length ≤ s'.calls.length := by
  have lengths : s.irps.length ≤ s'.irps.length := (step_grows moved).irps.length_le
  simpa only [State.irps, List.length_map] using lengths

/-- A call that was received stays. -/
theorem call_stays {s s' : State} {a : Action} {i : ℕ} {c : Call} (present : s.calls[i]? = some c)
    (moved : s.step a = some s') : ∃ c', s'.calls[i]? = some c' := by
  have inside := (List.getElem?_eq_some_iff.mp present).1
  have shorter := calls_length_le moved
  exact ⟨_, List.getElem?_eq_getElem (by omega)⟩

end QueueCache
