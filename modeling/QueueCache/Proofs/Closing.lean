import QueueCache.Proofs.Durability

/-! # Closing the cache and removing the device

A request that clears `IsCached` waits in the queue behind everything linked before it, so after it no
lazy write is pending, unless one that had passed the test of `IsCached` is linked late. Removal lets
the worker drain the queue and leave, and nothing is stranded, unless an item is linked after the
worker's last look. Both theorems name the late link as the only way to go wrong.
-/

namespace QueueCache

open Transition

/-- About to link an item. -/
def Pc.links : Pc → Bool
  | .insertTail _ | .lazyInsertTail _ => true
  | _ => false

/-- The worker has left its loop, or has found the queue empty and will leave if it reads `shutdown`. -/
def WorkerPc.leaving (shutdown : Bool) : WorkerPc → Bool
  | .exited => true
  | .testShutdown => shutdown
  | _ => false

/-- No item is linked behind the back of a worker that leaves, and `ShutdownThread` is not set between
the worker's look at an empty queue and its test when an item has been linked there. -/
def seenByWorker (s : State) : Action → Bool
  | .call i _ => (s.calls[i]?).all fun c =>
      !(c.pc.links && s.worker.leaving s.shared.extension.shutdownThread)
  | .remover => !(s.remover = .storeShutdown && s.worker.leaving true && !s.shared.queue.isEmpty)
  | _ => true

/-- A worker that leaves has an empty queue behind it. -/
def Drained (s : State) : Prop :=
  s.worker.leaving s.shared.extension.shutdownThread = true → s.shared.queue = []

theorem CallStep.links {sh sh' : Shared} {i : ℕ} {c c' : Call} {out : Outcome} (moved : CallStep sh i c out sh' c')
    (grows : sh'.queue ≠ sh.queue) : c.pc.links = true := by
  obtain ⟨frame, -⟩ | ⟨item, charge, rfl, ⟨at_, -⟩ | ⟨at_, -⟩⟩ := moved.queue_cases
  · exact absurd frame.queue grows
  · rw [at_]
    rfl
  · rw [at_]
    rfl

theorem Drained.step {s s' : State} {a : Action} (drained : Drained s) (seen : seenByWorker s a = true)
    (moved : s.step a = some s') : Drained s' := by
  rw [Drained] at drained ⊢
  intro leaving
  cases step_cases moved with
  | receive => exact drained leaving
  | @call i out c sh' c' present taken =>
    rw [State.update_shared, State.update_worker, taken.outer.shutdownThread] at leaving
    have same : sh'.queue = s.shared.queue := by
      by_contra grows
      simp [seenByWorker, present, taken.links grows, leaving] at seen
    exact same.trans (drained leaving)
  | @lower _ i c sh' c' present taken =>
    have shutdown : sh'.extension.shutdownThread = s.shared.extension.shutdownThread := by
      cases taken with
      | scattered => exact scatterComplete_shutdownThread _ _ _ _
      | _ => rfl
    rw [State.update_shared, State.update_worker, shutdown] at leaving
    exact taken.queue.1.queue.trans (drained leaving)
  | worker taken =>
    cases taken with
    | lookEmpty _ empty => exact empty
    | exit at_ shutdown =>
      apply drained
      rw [at_]
      exact shutdown
    | _ => simp [WorkerPc.leaving, State.issue, State.unlinkItem] at leaving
  | remover taken =>
    cases taken with
    | storeShutdown at_ =>
      by_contra linked
      have kept : s.shared.queue.isEmpty = false := by simpa using linked
      have late : s.worker.leaving true = true := leaving
      simp [seenByWorker, at_, late, kept] at seen
    | _ => exact drained leaving
  | initializeDevice => exact drained leaving

/-- The late link, or the late store of `ShutdownThread`, leaves an item behind. -/
theorem Drained.late {s s' : State} {a : Action} (late : seenByWorker s a = false) (moved : s.step a = some s') :
    ¬ Drained s' := by
  intro drained
  rw [Drained] at drained
  cases step_cases moved with
  | @call i out c sh' c' present taken =>
    simp only [seenByWorker, present, Option.all_some, Bool.not_eq_false', Bool.and_eq_true] at late
    obtain ⟨links, leaving⟩ := late
    rw [State.update_shared, State.update_worker, taken.outer.shutdownThread] at drained
    have empty := drained leaving
    cases at_ : c.pc with
    | insertTail item =>
      obtain ⟨rfl, -⟩ := taken.of_insertTail at_
      simp at empty
    | lazyInsertTail item =>
      obtain ⟨rfl, -⟩ := taken.of_lazyInsertTail at_
      simp at empty
    | _ => simp [at_, Pc.links] at links
  | lower _ taken => cases taken <;> contradiction
  | worker taken => cases taken <;> contradiction
  | remover taken =>
    simp only [seenByWorker, Bool.not_eq_false', Bool.and_eq_true, decide_eq_true_eq] at late
    obtain ⟨⟨at_, leaving⟩, linked⟩ := late
    cases taken with
    | storeShutdown => rw [drained leaving] at linked; contradiction
    | advance here => simp [at_] at here
    | _ here => rw [at_] at here; contradiction
  | _ => contradiction

/-- The condition is exact: a run in which every worker that leaves has an empty queue behind it has no
late link. -/
theorem drained_iff_seen {cfg : Config} {as : List Action} {s : State}
    (run : Run State.step anyStep (.initial cfg) as s) :
    (∀ t ∈ Visited State.step anyStep (.initial cfg) as, Drained t) ↔
      Run State.step (fun t a => seenByWorker t a = true) (.initial cfg) as s := by
  apply run.admitted_iff (fun _ => True) Drained trivial (fun _ _ _ _ _ => trivial) (fun _ => rfl)
  · intro t a u _ drained seen moved
    exact drained.step seen moved
  · intro t a u _ _ late moved
    exact Drained.late (by simpa using late) moved

/-- A worker that has left its loop stays away. -/
theorem exited_step {s s' : State} {a : Action} (exited : s.worker = .exited) (moved : s.step a = some s') :
    s'.worker = .exited := by
  obtain ⟨taken, -⟩ | frame := step_service moved
  · cases taken with
    | _ at_ => simp [exited] at at_
  · rw [frame.worker, exited]

/-- When no item is linked after the worker's last look, the queue of a worker that has left its loop is
empty and stays so. -/
theorem removal_strands_nothing (cfg : Config) (as : List Action) (s : State)
    (run : Run State.step (fun t a => seenByWorker t a = true) (.initial cfg) as s)
    (exited : s.worker = .exited) :
    s.shared.queue = [] ∧ ∀ bs s', Run State.step (fun t a => seenByWorker t a = true) s bs s' →
      s'.worker = .exited ∧ s'.shared.queue = [] := by
  have empty : ∀ {t : State}, Drained t → t.worker = .exited → t.shared.queue = [] := by
    intro t drained gone
    apply drained
    rw [gone]
    rfl
  have kept : ∀ t a u, Drained t → seenByWorker t a = true → t.step a = some u → Drained u :=
    fun _ _ _ drained seen moved => drained.step seen moved
  have drained := run.preserves Drained (fun _ => rfl) kept
  refine ⟨empty drained exited, fun bs s' later => ?_⟩
  have gone := later.preserves (fun t => t.worker = .exited) exited fun _ _ _ exited _ moved => exited_step exited moved
  exact ⟨gone, empty (later.preserves Drained drained kept) gone⟩

theorem WorkerPc.exited_of_leaving {worker : WorkerPc} (leaving : worker.leaving false = true) :
    worker = .exited := by
  cases worker with
  | exited => rfl
  | _ => contradiction

/-- A lazy write is served, and the device is removed. -/
def removed : List Action := lazyWriteServed ++ List.replicate 4 .remover ++ workerSteps 2

theorem removal_strands_nothing_removed : ∃ s,
    Run State.step (fun t a => seenByWorker t a = true) (.initial smallDevice) removed s ∧ s.worker = .exited ∧
      s.shared.queue = [] := by
  have run : Run State.step (fun t a => seenByWorker t a = true) (.initial smallDevice) removed
    (.after smallDevice removed) := run_after (by decide +kernel)
  have exited : (State.after smallDevice removed).worker = .exited :=
    WorkerPc.exited_of_leaving (by decide +kernel)
  exact ⟨_, run, exited, (removal_strands_nothing smallDevice removed _ run exited).1⟩

/-- A request that has its item and its hold is linked after the worker has left. -/
theorem removal_strands_request : ¬ ∀ (cfg : Config) (as : List Action) (s : State),
    Run State.step anyStep (.initial cfg) as s → s.worker = .exited → s.shared.queue = [] := by
  intro claimed
  have run := run_of_replay smallDevice ([.receive shutdownRequest] ++ callSteps 0 4 ++
    List.replicate 4 .remover ++ workerSteps 2 ++ callSteps 0 1) (by decide +kernel)
  have empty := claimed smallDevice _ _ run (WorkerPc.exited_of_leaving (by decide +kernel))
  have linked := List.isEmpty_iff.mpr empty
  revert linked
  decide +kernel

/-- Past the test of `IsCached`, on the way to a lazy insertion. -/
def Pc.admitted : Pc → Bool
  | .testMemory | .testSize | .testItems | .lazyNewItem | .lazyAcquireLock _ | .lazyMapMdl _
  | .lazyNewPayload _ | .lazyInsertTail _ => true
  | _ => false

/-- A write that may still be linked lazily. -/
def Call.admitsWrite (c : Call) : Bool := c.irp.stack.majorFunction = .write && c.pc.admitted

def Pc.isEntry : Pc → Bool
  | .entry => true
  | _ => false

/-- The request's own item has been linked. -/
def Pc.queued : Pc → Bool
  | .setEvent | .returned _ => true
  | _ => false

/-- A request that is queued gets its item and its hold on the remove lock. -/
def Pc.granted (pc : Pc) (sh : Shared) (out : Outcome) : Bool :=
  match pc with
  | .newItem => out.memory
  | .acquireLock _ => sh.canAcquire out.lock
  | _ => true

/-- No `IOCTL_QCACHE_ON` enters. -/
def staysOff (s : State) : Action → Bool
  | .call j _ => (s.calls[j]?).all fun c => !(c.pc.isEntry && c.irp.stack.opens)
  | _ => true

/-- The cache is not switched on, the closing call `i` gets its item and its hold, and no write that was
on its way to a lazy insertion in `early`, when `IsCached` was cleared, is linked behind that item. -/
def staysClosed (early : State) (i : ℕ) (s : State) (a : Action) : Bool :=
  staysOff s a &&
    match a with
    | .call j out => (s.calls[j]?).all fun c => (j ≠ i || c.pc.granted s.shared out) &&
        !((early.calls[j]?).any Call.admitsWrite && c.admitsWrite && c.pc.links &&
          (s.calls[i]?).all fun closer => closer.pc.queued)
    | _ => true

/-- Before and after the closing call `i` links its item. -/
inductive Closer (i : ℕ) (s : State) (c : Call) : Prop
  | waiting (untouched : c.Untouched) (at_ : c.pc = .queueIrp ∨ c.pc = .newItem ∨ (∃ item, c.pc = .acquireLock item) ∨
      ∃ item, c.pc = .insertTail item)
  | linked (held : c.Held) (at_ : c.pc = .setEvent ∨ c.pc = .returned STATUS_PENDING)
      (order : ∃ before after, s.shared.history.inserted = before ++ heldItem i c.irp :: after ∧
        ∀ item ∈ after, item.isLazy = true → item.majorFunction ≠ .write)

/-- The cache is off, no new write has passed the test of `IsCached`, and the closing call is on its way. -/
structure Closed (early : State) (i : ℕ) (s : State) : Prop where
  off : s.shared.statistics.isCached = false
  admitted : ∀ (j : ℕ) (d : Call), s.calls[j]? = some d → d.admitsWrite = true →
    (early.calls[j]?).any Call.admitsWrite = true
  closer : ∃ c, s.calls[i]? = some c ∧ Closer i s c

/-- Only `IOCTL_QCACHE_ON` sets `IsCached`. -/
theorem CallStep.cached {sh sh' : Shared} {i : ℕ} {c c' : Call} {out : Outcome} (moved : CallStep sh i c out sh' c')
    (off : sh.statistics.isCached = false) (notOn : (c.pc.isEntry && c.irp.stack.opens) = false) :
    sh'.statistics.isCached = false := by
  cases moved with
  | entry at_ _ entered =>
    cases entered with
    | opened opening => simp [at_, Pc.isEntry, opening] at notOn
    | closed _ cached => exact cached
    | forward cached => exact cached.trans off
    | completed _ _ cached => exact cached.trans off
    | scan cached => exact cached.trans off
    | queued cached => exact cached.trans off
  | refuse _ _ cached => exact cached.trans off
  | scanForward _ _ cached => exact cached.trans off
  | scanFull _ _ cached => exact cached.trans off
  | scanGap _ _ cached => exact cached.trans off
  | splitOn _ _ _ cached => exact cached.trans off
  | finishScatter _ _ _ cached => rw [scatterComplete_statistics]; exact cached.trans off
  | _ => exact off

/-- With the cache off nobody starts on the way to a lazy insertion. -/
theorem CallStep.admitsWrite {sh sh' : Shared} {i : ℕ} {c c' : Call} {out : Outcome}
    (moved : CallStep sh i c out sh' c') (off : sh.statistics.isCached = false) (admits : c'.admitsWrite = true) :
    c.admitsWrite = true := by
  simp only [Call.admitsWrite, Bool.and_eq_true, decide_eq_true_eq] at admits ⊢
  rw [moved.irp] at admits
  refine ⟨admits.1, ?_⟩
  have inside := admits.2
  cases moved with
  | queueLazily _ cached => rw [off] at cached; contradiction
  | entry _ _ entered => cases entered <;> contradiction
  | splitOn _ _ _ _ _ goes => obtain ⟨-, rfl⟩ | ⟨-, rfl⟩ := goes <;> contradiction
  | finishScatter => simp [Pc.admitted] at inside
  | memoryHigh at_ => rw [at_]; rfl
  | sizeBelow at_ => rw [at_]; rfl
  | itemsBelow at_ => rw [at_]; rfl
  | lazyNewItem at_ => rw [at_]; rfl
  | lazyAcquireWrite at_ => rw [at_]; rfl
  | lazyAcquireFlush at_ => rw [at_]; rfl
  | lazyMapMdl at_ => rw [at_]; rfl
  | lazyNewPayload at_ => rw [at_]; rfl
  | _ => contradiction

/-- A closing request of a device whose size is known clears `IsCached` and goes to the queue. -/
theorem CallStep.closes {sh sh' : Shared} {i : ℕ} {c c' : Call} {out : Outcome} (moved : CallStep sh i c out sh' c')
    (at_ : c.pc = .entry) (closing : c.irp.stack.closes = true)
    (known : sh.statistics.size ≠ 0 ∨ c.irp.stack.majorFunction = .shutdown) :
    sh'.statistics.isCached = false ∧ c'.pc = .queueIrp := by
  cases moved with
  | entry _ _ entered =>
    cases entered with
    | forward _ _ _ unknown =>
      obtain ⟨unsized, notShutdown⟩ := unknown closing
      exact absurd known (not_or.mpr ⟨fun sized => sized unsized, notShutdown⟩)
    | opened opening =>
      cases major : c.irp.stack.majorFunction <;>
        simp [IoStackLocation.closes, IoStackLocation.opens, major, IOCTL_QCACHE_ON, IOCTL_QCACHE_OFF, ctlCode]
          at opening closing <;> omega
    | completed _ _ _ _ notClosing => rw [closing] at notClosing; contradiction
    | scan _ reads => simp [IoStackLocation.closes, reads] at closing
    | closed _ cached => exact ⟨cached, rfl⟩
    | queued _ notClosing => rw [closing] at notClosing; contradiction
  | refuse here => simp [at_] at here
  | noItem here => simp [at_] at here
  | noLock here => simp [at_] at here
  | _ here => rw [at_] at here; contradiction

namespace Closed

variable {early : State} {i : ℕ} {s s' : State} {a : Action}

private theorem off_step (closed : Closed early i s) (stays : staysClosed early i s a = true)
    (moved : s.step a = some s') : s'.shared.statistics.isCached = false := by
  have off := closed.off
  cases step_cases moved with
  | receive => exact off
  | @call j out c sh' c' present taken =>
    simp only [staysClosed, staysOff, present, Option.all_some, Bool.and_eq_true, Bool.not_eq_true'] at stays
    exact taken.cached off stays.1
  | lower _ taken =>
    cases taken with
    | scattered => rw [State.update_shared, scatterComplete_statistics]; exact off
    | _ => exact off
  | worker taken => cases taken <;> exact off
  | remover taken =>
    cases taken with
    | clearCached => rfl
    | _ => exact off
  | initializeDevice => exact off

private theorem admitted_step (closed : Closed early i s) (moved : s.step a = some s') :
    ∀ (j : ℕ) (d : Call), s'.calls[j]? = some d → d.admitsWrite = true →
      (early.calls[j]?).any Call.admitsWrite = true := by
  have before := closed.admitted
  cases step_cases moved with
  | receive =>
    refine List.forall_getElem?_snoc (fun admits => ?_) before
    simp [Call.receive, Call.admitsWrite, Pc.admitted] at admits
  | call present taken =>
    refine List.forall_getElem?_set (fun admits => ?_) before
    exact before _ _ present (taken.admitsWrite closed.off admits)
  | lower present taken =>
    refine List.forall_getElem?_set (fun admits => ?_) before
    rw [Call.admitsWrite, taken.irp, taken.pc] at admits
    exact before _ _ present admits
  | worker taken =>
    cases taken with
    | completeIrp _ _ _ present => exact List.forall_getElem?_set (fun admits => before _ _ present admits) before
    | _ => exact before
  | remover taken =>
    rw [taken.frame.2.2.2.2]
    exact before
  | initializeDevice => exact before

/-- Another party moved: it links no lazy write once the closing call has linked its item. -/
private theorem keep {c : Call} (closer : Closer i s c)
    (inserted : c.pc.queued = true → ∃ items, s'.shared.history.inserted = s.shared.history.inserted ++ items ∧
      ∀ item ∈ items, item.isLazy = true → item.majorFunction ≠ .write) : Closer i s' c := by
  cases closer with
  | waiting untouched at_ => exact .waiting untouched at_
  | linked holds at_ order =>
    obtain ⟨before, after, same, behind⟩ := order
    obtain ⟨items, longer, harmless⟩ := inserted (by obtain at_ | at_ := at_ <;> rw [at_] <;> rfl)
    refine .linked holds at_ ⟨before, after ++ items, ?_, ?_⟩
    · rw [longer, same, List.append_assoc, List.cons_append]
    · intro item member
      obtain old | new := List.mem_append.mp member
      · exact behind item old
      · exact harmless item new

private theorem keep_log {c : Call} (closer : Closer i s c)
    (inserted : s'.shared.history.inserted = s.shared.history.inserted) : Closer i s' c :=
  keep closer fun _ => ⟨[], inserted.trans (List.append_nil _).symm, by simp⟩

/-- What another call links: no lazy write, or one that was not on its way. -/
private theorem inserted_call (wf : Wf s) {j : ℕ} {d d' : Call} {sh' : Shared} {out : Outcome}
    (present : s.calls[j]? = some d) (taken : CallStep s.shared j d out sh' d')
    (late : ¬ (d.admitsWrite = true ∧ d.pc.links = true)) : ∃ items,
      sh'.history.inserted = s.shared.history.inserted ++ items ∧
        ∀ item ∈ items, item.isLazy = true → item.majorFunction ≠ .write := by
  have here := (wf.calls j d present).atPc
  obtain ⟨frame, -⟩ | ⟨item, charge, rfl, ⟨at_, -⟩ | ⟨at_, -⟩⟩ := taken.queue_cases
  · exact ⟨[], frame.inserted.trans (List.append_nil _).symm, by simp⟩
  · rw [Call.AtPc, at_] at here
    exact ⟨[item], rfl, by simp [here.2.2.2]⟩
  · rw [Call.AtPc, at_] at here
    refine ⟨[item], rfl, ?_⟩
    rintro other member - writes
    rw [List.mem_singleton.mp member, here.2.2.2, lazyItem_majorFunction] at writes
    simp [Call.admitsWrite, writes, at_, Pc.admitted, Pc.links] at late

/-- The closing call takes a step of its own. -/
private theorem own_step {c c' : Call} {sh' : Shared} {out : Outcome} (closer : Closer i s c) (wf : Wf s)
    (present : s.calls[i]? = some c) (off : s.shared.statistics.isCached = false)
    (granted : c.pc.granted s.shared out = true) (taken : CallStep s.shared i c out sh' c') :
    Closer i (s.update i (sh', c')) c' := by
  have here := (wf.calls i c present).atPc
  cases closer with
  | waiting untouched at_ =>
    obtain at_ | at_ | ⟨item, at_⟩ | ⟨item, at_⟩ := at_
    · cases taken with
      | queueLazily _ cached => rw [off] at cached; contradiction
      | bypass => exact .waiting { untouched with } (.inr (.inl rfl))
      | refuse here => simp [at_] at here
      | noItem here => simp [at_] at here
      | noLock here => simp [at_] at here
      | _ here => rw [at_] at here; contradiction
    · cases taken with
      | newItem => exact .waiting { untouched with } (.inr (.inr (.inl ⟨_, rfl⟩)))
      | noItem _ noMemory => rw [at_, Pc.granted, noMemory] at granted; contradiction
      | refuse here => simp [at_] at here
      | noLock here => simp [at_] at here
      | _ here => rw [at_] at here; contradiction
    · cases taken with
      | acquireLock => exact .waiting { untouched with } (.inr (.inr (.inr ⟨_, rfl⟩)))
      | noLock _ refused => rw [at_, Pc.granted, refused] at granted; contradiction
      | refuse here => simp [at_] at here
      | noItem here => simp [at_] at here
      | _ here => rw [at_] at here; contradiction
    · obtain ⟨rfl, rfl⟩ := taken.of_insertTail at_
      have held := ((wf.calls i c present).step taken).atPc
      rw [Call.AtPc, at_] at here
      refine .linked held (.inl rfl) ⟨s.shared.history.inserted, [], ?_, by simp⟩
      change s.shared.history.inserted ++ [item] = _
      rw [here.2.2.2]
      rfl
  | linked held at_ order =>
    obtain at_ | at_ := at_
    · obtain ⟨rfl, rfl⟩ := taken.of_setEvent at_
      exact .linked { held with } (.inr rfl) order
    · exact absurd at_ (taken.not_returned _)

private theorem closer_step (closed : Closed early i s) (wf : Wf s) (stays : staysClosed early i s a = true)
    (moved : s.step a = some s') : ∃ c, s'.calls[i]? = some c ∧ Closer i s' c := by
  obtain ⟨c, present, closer⟩ := closed.closer
  have inside := (List.getElem?_eq_some_iff.mp present).1
  cases step_cases moved with
  | receive => exact ⟨c, (List.getElem?_append_left inside).trans present, keep_log closer rfl⟩
  | @call j out d sh' d' there taken =>
    simp only [staysClosed, there, present, Option.all_some, Bool.and_eq_true, Bool.or_eq_true,
      decide_eq_true_eq] at stays
    obtain ⟨-, granted, late⟩ := stays
    by_cases own : j = i
    · subst own
      obtain rfl : d = c := Option.some.inj (there.symm.trans present)
      refine ⟨d', List.getElem?_set_self inside, own_step closer wf present closed.off ?_ taken⟩
      exact granted.resolve_left (fun other => other rfl)
    · refine ⟨c, (List.getElem?_set_ne own).trans present, keep closer fun queued => ?_⟩
      refine inserted_call wf there taken ?_
      rintro ⟨admits, links⟩
      simp [closed.admitted j d there admits, admits, links, queued] at late
  | @lower _ j d sh' d' there taken =>
    have other : j ≠ i := by
      rintro rfl
      obtain rfl : d = c := Option.some.inj (there.symm.trans present)
      apply taken.present
      cases closer with
      | waiting untouched => exact untouched.lowerIrps
      | linked held => exact held.lowerIrps
    exact ⟨c, (List.getElem?_set_ne other).trans present, keep_log closer taken.queue.1.inserted⟩
  | worker taken =>
    cases taken with
    | @completeIrp _ _ j ioStatus item d at_ found holds there =>
      obtain ⟨rest, shape, -, -⟩ := wf.found (by rw [at_]; rfl) found (by simp [at_])
      obtain ⟨-, -, position⟩ := wf.holder (s.pending_subset (shape ▸ List.mem_cons_self ..)) holds there
      by_cases own : j = i
      · subst own
        obtain rfl : d = c := Option.some.inj (there.symm.trans present)
        refine ⟨_, List.getElem?_set_self inside, ?_⟩
        cases closer with
        | waiting _ before => obtain position | position := position <;> simp [position] at before
        | linked held before order => exact .linked (held.complete ioStatus) before order
      · exact ⟨c, (List.getElem?_set_ne own).trans present, keep_log closer rfl⟩
    | _ => exact ⟨c, present, keep_log closer rfl⟩
  | remover taken =>
    obtain ⟨frame, -, -, -, calls⟩ := taken.frame
    exact ⟨c, by rw [calls, present], keep_log closer frame.inserted⟩
  | initializeDevice => exact ⟨c, present, keep_log closer rfl⟩

theorem step (closed : Closed early i s) (wf : Wf s) (stays : staysClosed early i s a = true)
    (moved : s.step a = some s') : Closed early i s' :=
  ⟨closed.off_step stays moved, closed.admitted_step moved, closed.closer_step wf stays moved⟩

/-- The closing call has entered. -/
theorem start {c : Call} {out : Outcome} (wf : Wf s) (present : s.calls[i]? = some c) (at_ : c.pc = .entry)
    (closing : c.irp.stack.closes = true)
    (known : s.shared.statistics.size ≠ 0 ∨ c.irp.stack.majorFunction = .shutdown)
    (entered : s.step (.call i out) = some s') : Closed s i s' := by
  cases step_cases entered with
  | @call _ _ d sh' d' there taken =>
    obtain rfl : d = c := Option.some.inj (there.symm.trans present)
    obtain ⟨off, queued⟩ := taken.closes at_ closing known
    have here := ((wf.calls i d present).step taken).atPc
    rw [Call.AtPc, queued] at here
    refine ⟨off, ?_, d', List.getElem?_set_self (List.getElem?_eq_some_iff.mp present).1, ?_⟩
    · refine List.forall_getElem?_set (fun admits => ?_) fun j e other admits => by rw [other]; exact admits
      simp [Call.admitsWrite, queued, Pc.admitted] at admits
    · exact .waiting here.1 (.inl queued)
  | lower _ taken => cases taken
  | worker taken => cases taken

/-- Once the closing request has been completed, the items still in the queue come after its own. -/
theorem nothing_lazy (closed : Closed early i s) (wf : Wf s) (answered : Answered s) {c : Call}
    (present : s.calls[i]? = some c) (completed : c.completions ≠ [] ∨ c.lowerStatus ≠ none) :
    ∀ item ∈ s.shared.queue, ∀ d, s.calls[item.addr]? = some d → ¬ d.LazilyAcknowledged := by
  obtain ⟨closer, there, state⟩ := closed.closer
  obtain rfl : closer = c := Option.some.inj (there.symm.trans present)
  cases state with
  | waiting untouched =>
    exact absurd completed (not_or.mpr ⟨fun some => some untouched.completions, fun some => some untouched.lowerStatus⟩)
  | linked held at_ order =>
    obtain ⟨before, after, log, behind⟩ := order
    obtain ⟨completion, rest, some⟩ :=
      List.exists_cons_of_ne_nil (completed.resolve_right fun some => some held.lowerStatus)
    have member : completion ∈ closer.completions := by rw [some]; exact List.mem_cons_self
    obtain ⟨past, -⟩ := (answered.calls i closer present).worker completion member (held.sites completion member)
    have nodup := wf.nodup
    rw [log, List.map_append, List.nodup_append] at nodup
    have passed : before.length ≤ s.shared.history.unlinked.length := by
      by_contra short
      rw [State.past, log, List.take_append_of_le_length] at past
      · exact nodup.2.2 i (List.mem_map_of_mem (List.mem_of_mem_take past)) i (by simp) rfl
      · have atMost : s.worker.answered ≤ 1 := by cases s.worker <;> simp [WorkerPc.answered]
        omega
    intro item queued d caller acknowledged
    obtain ⟨writes, acknowledgement, ack, site⟩ := acknowledged
    have linked := (wf.recorded _ d caller).completed acknowledgement ack site
    obtain ⟨source, pending, form⟩ := wf.mem_queue queued
    have addr : source.addr = item.addr := by obtain same | same := form <;> rw [same]
    obtain rfl : source = lazyItem item.addr d.irp := by
      apply List.inj_on_of_nodup_map wf.nodup (s.pending_subset pending) linked
      rw [addr, lazyItem_addr]
    rw [State.pending, log, List.drop_append, List.drop_of_length_le passed, List.nil_append] at pending
    obtain own | late := List.mem_cons.mp (List.mem_of_mem_drop pending)
    · have lazy := lazyItem_isLazy item.addr d.irp
      rw [own, heldItem_isLazy] at lazy
      contradiction
    · exact behind _ late (lazyItem_isLazy _ _) (by rw [lazyItem_majorFunction, writes])

end Closed

/-- When the closing request gets its item, and no write that had passed the test of `IsCached` before the
flag was cleared is linked behind that item, no lazily acknowledged write is pending once the closing
request has been completed, and until the cache is switched on again. -/
theorem cache_off_closes (cfg : Config) (bs cs : List Action) (s₁ s₂ s : State) (i : ℕ) (out : Outcome) (c c' : Call)
    (before : Run State.step anyStep (.initial cfg) bs s₁) (present : s₁.calls[i]? = some c) (at_ : c.pc = .entry)
    (closing : c.irp.stack.closes = true)
    (known : s₁.shared.statistics.size ≠ 0 ∨ c.irp.stack.majorFunction = .shutdown)
    (entered : s₁.step (.call i out) = some s₂)
    (run : Run State.step (fun t a => staysClosed s₁ i t a = true) s₂ cs s) (there : s.calls[i]? = some c')
    (completed : c'.completions ≠ [] ∨ c'.lowerStatus ≠ none) :
    ∀ item ∈ s.shared.queue, ∀ d, s.calls[item.addr]? = some d → ¬ d.LazilyAcknowledged := by
  have wf := wf_of_run before
  have start := Closed.start wf present at_ closing known entered
  have whole := (before.append (.single trivial entered)).append run.toAny
  have closed : Wf s ∧ Closed s₁ i s := by
    apply run.preserves (fun t => Wf t ∧ Closed s₁ i t) ⟨wf.step entered, start⟩
    rintro t a u ⟨wf, closed⟩ stays moved
    exact ⟨wf.step moved, closed.step wf stays moved⟩
  exact closed.2.nothing_lazy closed.1 (answered_of_run whole) there completed

theorem Pc.entry_of_isEntry {pc : Pc} (entry : pc.isEntry = true) : pc = .entry := by
  cases pc with
  | entry => rfl
  | _ => contradiction

/-- A write is acknowledged lazily, and the cache is about to be switched off. -/
def closing : List Action := lazyWrite ++ [.receive cacheOff]

/-- The worker serves the write and answers the closing request; a later write is held in the queue. -/
def closed : List Action :=
  closing ++ callSteps 1 1 ++ (callSteps 1 5 ++ workerSteps 2 ++
    [.workerTransfer 0, .workerLowerComplete ⟨STATUS_SUCCESS, 512⟩] ++ workerSteps 6 ++
    [.receive (writeSector0 8)] ++ callSteps 2 6)

theorem cache_off_closes_heldWrite : ∃ s, Run State.step anyStep (.initial smallDevice) closed s ∧
    s.shared.queue.length = 1 ∧ ∀ item ∈ s.shared.queue, ∀ d, s.calls[item.addr]? = some d →
      ¬ d.LazilyAcknowledged := by
  have before := run_of_replay smallDevice closing (by decide +kernel)
  have present := State.call_after (show ((State.after smallDevice closing).calls[1]?).isSome by decide +kernel)
  have entry : (((State.after smallDevice closing).calls[1]?).get (by decide +kernel)).pc = .entry :=
    Pc.entry_of_isEntry (by decide +kernel)
  have entered : (State.after smallDevice closing).step (.call 1 {}) = _ := step_after (by decide +kernel)
  have run : Run State.step (fun t a => staysClosed (.after smallDevice closing) 1 t a = true) _ _
    (State.after smallDevice closed) := run_between (by decide +kernel) (by decide +kernel)
  have there := State.call_after (show ((State.after smallDevice closed).calls[1]?).isSome by decide +kernel)
  refine ⟨_, run_of_replay smallDevice closed (by decide +kernel), by decide +kernel, ?_⟩
  exact cache_off_closes smallDevice _ _ _ _ _ 1 _ _ _ before present entry (by decide +kernel)
    (.inl (by decide +kernel)) entered run there (.inl (by decide +kernel))

/-- A write is about to be linked lazily when the cache is about to be switched off. -/
def overtaken : List Action := [.receive (writeSector0 7)] ++ callSteps 0 9 ++ [.receive cacheOff]

/-- The worker answers the closing request, and then the write is linked and acknowledged. -/
def linkedLate : List Action := overtaken ++ callSteps 1 1 ++ (callSteps 1 5 ++ workerSteps 4 ++ callSteps 0 3)

/-- A write linked after the marker has been answered is pending when it is acknowledged. -/
theorem cache_off_overtaken : ¬ ∀ (cfg : Config) (bs cs : List Action) (s₁ s₂ s : State) (i : ℕ) (out : Outcome)
    (c c' : Call), Run State.step anyStep (.initial cfg) bs s₁ → s₁.calls[i]? = some c → c.pc = .entry →
      c.irp.stack.closes = true → s₁.shared.statistics.size ≠ 0 ∨ c.irp.stack.majorFunction = .shutdown →
      s₁.step (.call i out) = some s₂ → Run State.step (fun t a => staysOff t a = true) s₂ cs s →
      s.calls[i]? = some c' → c'.completions ≠ [] ∨ c'.lowerStatus ≠ none →
      ∀ item ∈ s.shared.queue, ∀ d, s.calls[item.addr]? = some d → ¬ d.LazilyAcknowledged := by
  intro claimed
  have before := run_of_replay smallDevice overtaken (by decide +kernel)
  have present := State.call_after (show ((State.after smallDevice overtaken).calls[1]?).isSome by decide +kernel)
  have entry : (((State.after smallDevice overtaken).calls[1]?).get (by decide +kernel)).pc = .entry :=
    Pc.entry_of_isEntry (by decide +kernel)
  have entered : (State.after smallDevice overtaken).step (.call 1 {}) = _ := step_after (by decide +kernel)
  have run : Run State.step (fun t a => staysOff t a = true) _ _ (State.after smallDevice linkedLate) :=
    run_between (by decide +kernel) (by decide +kernel)
  have there := State.call_after (show ((State.after smallDevice linkedLate).calls[1]?).isSome by decide +kernel)
  have nothing := claimed smallDevice _ _ _ _ _ 1 _ _ _ before present entry (by decide +kernel)
    (.inl (by decide +kernel)) entered run there (.inl (by decide +kernel))
  have queued : ((State.after smallDevice linkedLate).shared.queue.map WriteQueueItem.addr) = [0] := by decide +kernel
  obtain ⟨item, member, addr⟩ := List.mem_map.mp (queued ▸ List.mem_singleton_self 0)
  have writer := State.call_after (show ((State.after smallDevice linkedLate).calls[0]?).isSome by decide +kernel)
  exact nothing item member _ (by rw [addr]; exact writer) (by decide +kernel)

end QueueCache
