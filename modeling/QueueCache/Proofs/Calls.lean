import QueueCache.Model.DeviceSteps

/-! # The local invariant of a dispatch call

`CallOk i c` says what the program point of call `i` implies about the call itself: which kinds of
requests reach it, what its item under construction looks like, and what has been done with its
request. It mentions no shared data, so a step of another party cannot disturb it except where that
party acts on this call, and each of those actions is treated here.
-/

namespace QueueCache

/-- The item `QCacheQueueIrp` links for the request of call `i`. -/
def heldItem (i : ℕ) (irp : Irp) : WriteQueueItem :=
  { WriteQueueItem.new i with majorFunction := irp.stack.majorFunction, irp := some i }

/-- The item of a lazy write before its payload is there. -/
def mappedItem (i : ℕ) (irp : Irp) : WriteQueueItem :=
  { WriteQueueItem.new i with
    majorFunction := irp.stack.majorFunction
    isLazy := true
    offset := irp.stack.byteOffset
    length := irp.stack.length }

/-- The item `QCacheQueueLazyWriteIrp` links: a copy of the write, or an empty flush. -/
def lazyItem (i : ℕ) (irp : Irp) : WriteQueueItem :=
  if irp.stack.majorFunction = .write then { mappedItem i irp with buffer := irp.payload }
  else { WriteQueueItem.new i with majorFunction := irp.stack.majorFunction, isLazy := true }

@[simp] theorem heldItem_addr (i : ℕ) (irp : Irp) : (heldItem i irp).addr = i := rfl

@[simp] theorem heldItem_irp (i : ℕ) (irp : Irp) : (heldItem i irp).irp = some i := rfl

@[simp] theorem heldItem_isLazy (i : ℕ) (irp : Irp) : (heldItem i irp).isLazy = false := rfl

@[simp] theorem heldItem_length (i : ℕ) (irp : Irp) : (heldItem i irp).length = 0 := rfl

@[simp] theorem lazyItem_addr (i : ℕ) (irp : Irp) : (lazyItem i irp).addr = i := by
  unfold lazyItem; split <;> rfl

@[simp] theorem lazyItem_irp (i : ℕ) (irp : Irp) : (lazyItem i irp).irp = none := by
  unfold lazyItem; split <;> rfl

@[simp] theorem lazyItem_isLazy (i : ℕ) (irp : Irp) : (lazyItem i irp).isLazy = true := by
  unfold lazyItem; split <;> rfl

@[simp] theorem lazyItem_majorFunction (i : ℕ) (irp : Irp) :
    (lazyItem i irp).majorFunction = irp.stack.majorFunction := by
  unfold lazyItem; split <;> rfl

theorem lazyItem_length (i : ℕ) (irp : Irp) : (lazyItem i irp).length =
    if irp.stack.majorFunction = .write then irp.stack.length else 0 := by
  unfold lazyItem; split <;> rfl

/-- What has been done with a request that its dispatch routine still owns. -/
structure Call.Untouched (c : Call) : Prop where
  completions : c.completions = []
  forwards : c.forwards = 0
  scatter : c.scatter = none
  lowerIrps : c.lowerIrps = []
  lowerStatus : c.lowerStatus = none

/-- A call whose request waits with a queued item, or has been completed by the worker. -/
structure Call.Held (c : Call) : Prop where
  pending : c.pendingReturned = true
  forwards : c.forwards = 0
  scatter : c.scatter = none
  lowerIrps : c.lowerIrps = []
  lowerStatus : c.lowerStatus = none
  kind : c.irp.stack.majorFunction ≠ .read
  sites : ∀ completion ∈ c.completions, completion.site = .worker

/-- A call whose request is being read in parts; `own` is the reference the dispatch routine holds. -/
structure Call.Scattered (c : Call) (own : ℤ) : Prop where
  pending : c.pendingReturned = true
  forwards : c.forwards = 0
  reads : c.irp.stack.majorFunction = .read
  lowerStatus : c.lowerStatus = none
  parts : ∀ lower ∈ c.lowerIrps, lower.scattered = true
  alive : ∀ scatter, c.scatter = some scatter →
    scatter.scatterCount = c.lowerIrps.length + own ∧ scatter.scatterCount ≠ 0 ∧ c.completions = []
  gone : c.scatter = none → c.lowerIrps = [] ∧ own = 0 ∧ ∃ completion, c.completions = [completion] ∧
    completion.site = .scatter

/-- A call that has returned `status`: each way to leave a dispatch routine. -/
inductive Call.Left (c : Call) (status : NtStatus) : Prop
  | completed (completion : Completion) (once : c.completions = [completion])
      (same : completion.status = status) (final : status ≠ STATUS_PENDING)
      (site : completion.site = .dispatch ∨
        completion.site = .lazyWrite ∧ c.irp.stack.lazyKind ∧ status = STATUS_SUCCESS)
      (pending : c.pendingReturned = false) (forwards : c.forwards = 0) (scatter : c.scatter = none)
      (lowerIrps : c.lowerIrps = []) (lowerStatus : c.lowerStatus = none)
  | forwarded (forwards : c.forwards = 1) (pending : c.pendingReturned = false)
      (completions : c.completions = []) (scatter : c.scatter = none)
      (below : (∃ lower, c.lowerIrps = [lower] ∧ lower.scattered = false ∧ c.lowerStatus = none) ∨
        (c.lowerIrps = [] ∧ c.lowerStatus ≠ none))
  | held (same : status = STATUS_PENDING) (held : c.Held)
  | scattered (same : status = STATUS_PENDING) (scattered : c.Scattered 0)

/-- What the program point of call `i` implies. -/
def Call.AtPc (i : ℕ) (c : Call) : Prop :=
  match c.pc with
  | .entry => c.Untouched ∧ c.pendingReturned = false
  | .forward => c.Untouched ∧ c.pendingReturned = false
  | .complete status => c.Untouched ∧ c.pendingReturned = false ∧ status ≠ STATUS_PENDING
  | .returned status => c.Left status
  | .queueIrp => c.Untouched ∧ c.pendingReturned = false ∧ c.irp.stack.majorFunction ≠ .read
  | .testMemory => c.Untouched ∧ c.pendingReturned = false ∧ c.irp.stack.lazyKind
  | .testSize => c.Untouched ∧ c.pendingReturned = false ∧ c.irp.stack.lazyKind
  | .testItems => c.Untouched ∧ c.pendingReturned = false ∧ c.irp.stack.lazyKind
  | .newItem => c.Untouched ∧ c.pendingReturned = false ∧ c.irp.stack.majorFunction ≠ .read
  | .acquireLock item =>
    c.Untouched ∧ c.pendingReturned = false ∧ c.irp.stack.majorFunction ≠ .read ∧ item = .new i
  | .insertTail item =>
    c.Untouched ∧ c.pendingReturned = true ∧ c.irp.stack.majorFunction ≠ .read ∧ item = heldItem i c.irp
  | .setEvent => c.Held
  | .lazyNewItem => c.Untouched ∧ c.pendingReturned = false ∧ c.irp.stack.lazyKind
  | .lazyAcquireLock item =>
    c.Untouched ∧ c.pendingReturned = false ∧ c.irp.stack.lazyKind ∧ item = .new i
  | .lazyMapMdl item => c.Untouched ∧ c.pendingReturned = false ∧
    c.irp.stack.majorFunction = .write ∧ item = mappedItem i c.irp
  | .lazyNewPayload item => c.Untouched ∧ c.pendingReturned = false ∧
    c.irp.stack.majorFunction = .write ∧ item = mappedItem i c.irp
  | .lazyInsertTail item =>
    c.Untouched ∧ c.pendingReturned = false ∧ c.irp.stack.lazyKind ∧ item = lazyItem i c.irp
  | .lazySetEvent => c.Untouched ∧ c.pendingReturned = false ∧ c.irp.stack.lazyKind
  | .lazyComplete => c.Untouched ∧ c.pendingReturned = false ∧ c.irp.stack.lazyKind
  | .scanQueue => c.Untouched ∧ c.pendingReturned = false ∧ c.irp.stack.majorFunction = .read
  | .createScatter _ _ _ => c.Untouched ∧ c.pendingReturned = false ∧ c.irp.stack.majorFunction = .read
  | .split _ _ _ _ => c.Scattered 1
  | .finishScatter _ => c.Scattered 1

/-- A request in the lower driver is a part of a scattered read, or it is the skipped request. -/
def LowerIrp.Belongs (lower : LowerIrp) (io : IoStackLocation) : Prop :=
  (lower.scattered = true ∧ lower.majorFunction = .read ∧ io.majorFunction = .read) ∨
    lower = { LowerIrp.skipped io with moved := lower.moved }

theorem LowerIrp.Belongs.progress {lower : LowerIrp} {io : IoStackLocation} (belongs : lower.Belongs io)
    (moved : List ℤ) : LowerIrp.Belongs { lower with moved } io := by
  rcases belongs with part | whole
  · exact .inl part
  · right
    rw [whole]

/-- The local invariant of the dispatch call `i`. -/
structure CallOk (i : ℕ) (c : Call) : Prop where
  atPc : c.AtPc i
  /-- The bytes behind the MDL change only where a read puts its result. -/
  buffer : c.irp.stack.majorFunction ≠ .read → c.buffer = c.irp.data
  lowers : ∀ lower ∈ c.lowerIrps, lower.Belongs c.irp.stack

theorem CallOk.receive (i : ℕ) (irp : Irp) : CallOk i (.receive irp) where
  atPc := ⟨⟨rfl, rfl, rfl, rfl, rfl⟩, rfl⟩
  buffer _ := rfl
  lowers lower member := by simp [Call.receive] at member

theorem lazyKind_not_read {io : IoStackLocation} (kind : io.lazyKind) : io.majorFunction ≠ .read := by
  rintro reads
  simp [IoStackLocation.lazyKind, reads] at kind

/-- A step that only moves the program point needs the new point's facts. -/
private theorem CallOk.keep {i : ℕ} {c c' : Call} (ok : CallOk i c) (atPc : c'.AtPc i)
    (irp : c'.irp = c.irp) (buffer : c'.buffer = c.buffer) (lowerIrps : c'.lowerIrps = c.lowerIrps) :
    CallOk i c' where
  atPc := atPc
  buffer := by rw [irp, buffer]; exact ok.buffer
  lowers := by rw [irp, lowerIrps]; exact ok.lowers

/-- An exit that completes a request it still owns. -/
private theorem Call.Untouched.finish {c : Call} {site : CompletionSite} {status : NtStatus}
    (untouched : c.Untouched) (pending : c.pendingReturned = false)
    (reason : site = .dispatch ∨ site = .lazyWrite ∧ c.irp.stack.lazyKind ∧ status = STATUS_SUCCESS)
    (final : status ≠ STATUS_PENDING) : (c.finish site status).Left status :=
  .completed _ (by simp [untouched.completions]; rfl) rfl final reason pending untouched.forwards
    untouched.scatter untouched.lowerIrps untouched.lowerStatus

/-- The last reference to a scatter object completes the request; every other one keeps it alive. -/
private theorem Call.Scattered.complete {sh : Shared} {i : ℕ} {c : Call} {scatter scatter' : ScatteredIrp}
    {own own' : ℤ} (scattered : c.Scattered own) (live : c.scatter = some scatter)
    (same : scatter'.scatterCount = scatter.scatterCount) {c' : Call} (irp : c'.irp = c.irp)
    (pending : c'.pendingReturned = true) (forwards : c'.forwards = 0) (lowerStatus : c'.lowerStatus = none)
    (completions : c'.completions = [])
    (parts : ∀ lower ∈ c'.lowerIrps, lower.scattered = true) (nonneg : 0 ≤ own')
    (released : (c'.lowerIrps.length : ℤ) + own' = c.lowerIrps.length + own - 1) :
    (scatterComplete sh i c' scatter').2.Scattered own' := by
  obtain ⟨count, positive, _⟩ := scattered.alive scatter live
  unfold scatterComplete
  dsimp only
  split
  · next last =>
    have noParts : c'.lowerIrps.length = 0 := by omega
    have noOwn : own' = 0 := by omega
    refine ⟨pending, forwards, by rw [← scattered.reads, ← irp]; rfl, lowerStatus, parts, by simp, ?_⟩
    intro _
    exact ⟨List.length_eq_zero_iff.mp noParts, noOwn, _, by simp [completions]; rfl, rfl⟩
  · next more =>
    refine ⟨pending, forwards, by rw [← scattered.reads, ← irp], lowerStatus, parts, ?_, by simp⟩
    rintro _ ⟨⟩
    exact ⟨by simp only; omega, by simpa using more, completions⟩

/-- Sending one more part takes one more reference. -/
private theorem Call.Scattered.issue {c : Call} {scatter : ScatteredIrp}
    (scattered : c.Scattered 1) (live : c.scatter = some scatter) (lower : LowerIrp) (part : lower.scattered = true) :
    Call.Scattered { c with
      scatter := some { scatter with scatterCount := scatter.scatterCount + 1 }
      lowerIrps := c.lowerIrps ++ [lower] } 1 := by
  obtain ⟨count, positive, completions⟩ := scattered.alive _ live
  refine { scattered with parts := ?_, alive := ?_, gone := by simp }
  · intro other member
    rcases List.mem_append.mp member with old | new
    · exact scattered.parts other old
    · rwa [List.mem_singleton.mp new]
  · rintro _ ⟨⟩
    refine ⟨?_, ?_, completions⟩ <;> simp <;> omega

/-- One step of the dispatch call keeps its local invariant. -/
theorem CallOk.step {sh sh' : Shared} {i : ℕ} {c c' : Call} {out : Outcome} (ok : CallOk i c)
    (moved : CallStep sh i c out sh' c') : CallOk i c' := by
  have here := ok.atPc
  cases moved with
  | entry at_ frame entered =>
    rw [Call.AtPc, at_] at here
    obtain ⟨untouched, pending⟩ := here
    refine ok.keep ?_ rfl rfl rfl
    cases entered with
    | forward => exact ⟨{ untouched with }, pending⟩
    | opened => exact ⟨{ untouched with }, pending, by decide⟩
    | completed _ final => exact ⟨{ untouched with }, pending, final⟩
    | scan _ reads => exact ⟨{ untouched with }, pending, reads⟩
    | closed _ _ notTransfer =>
      refine ⟨{ untouched with }, pending, fun reads => ?_⟩
      have reads : c.irp.stack.majorFunction = .read := reads
      simp [IoStackLocation.isTransfer, reads] at notTransfer
    | queued _ _ _ notRead => exact ⟨{ untouched with }, pending, notRead⟩
  | forward at_ =>
    rw [Call.AtPc, at_] at here
    obtain ⟨untouched, pending⟩ := here
    have added : (sendToNextDriver c out.lowerReturn).lowerIrps = [LowerIrp.skipped c.irp.stack] := by
      simp [sendToNextDriver, untouched.lowerIrps]
    refine ⟨.forwarded ?_ pending untouched.completions untouched.scatter ?_, ok.buffer, ?_⟩
    · simp [sendToNextDriver, untouched.forwards]
    · exact .inl ⟨_, added, rfl, untouched.lowerStatus⟩
    · intro lower member
      rw [added, List.mem_singleton] at member
      exact .inr (by rw [member]; rfl)
  | complete at_ =>
    rw [Call.AtPc, at_] at here
    obtain ⟨untouched, pending, final⟩ := here
    exact ok.keep (.completed _ (by simp [untouched.completions]; rfl) rfl final (.inl rfl) pending
      untouched.forwards untouched.scatter untouched.lowerIrps untouched.lowerStatus) rfl rfl rfl
  | queueLazily at_ cached kind =>
    rw [Call.AtPc, at_] at here
    exact ok.keep ⟨{ here.1 with }, here.2.1, kind⟩ rfl rfl rfl
  | bypass at_ =>
    rw [Call.AtPc, at_] at here
    exact ok.keep ⟨{ here.1 with }, here.2.1, here.2.2⟩ rfl rfl rfl
  | refuse at_ frame =>
    have here : c.Untouched ∧ c.pendingReturned = false ∧ c.irp.stack.lazyKind := by
      rcases at_ with at_ | at_ | at_ <;> rwa [Call.AtPc, at_] at here
    exact ok.keep ⟨{ here.1 with }, here.2.1, lazyKind_not_read here.2.2⟩ rfl rfl rfl
  | memoryHigh at_ =>
    rw [Call.AtPc, at_] at here
    exact ok.keep ⟨{ here.1 with }, here.2⟩ rfl rfl rfl
  | sizeBelow at_ =>
    rw [Call.AtPc, at_] at here
    exact ok.keep ⟨{ here.1 with }, here.2⟩ rfl rfl rfl
  | itemsBelow at_ =>
    rw [Call.AtPc, at_] at here
    exact ok.keep ⟨{ here.1 with }, here.2⟩ rfl rfl rfl
  | noItem at_ =>
    have here : c.Untouched ∧ c.pendingReturned = false := by
      rcases at_ with at_ | at_ <;> rw [Call.AtPc, at_] at here <;> exact ⟨here.1, here.2.1⟩
    exact ok.keep (here.1.finish here.2 (.inl rfl) (by decide)) rfl rfl rfl
  | newItem at_ =>
    rw [Call.AtPc, at_] at here
    exact ok.keep ⟨{ here.1 with }, here.2.1, here.2.2, rfl⟩ rfl rfl rfl
  | noLock at_ =>
    have here : c.Untouched ∧ c.pendingReturned = false := by
      rcases at_ with at_ | at_ <;> rw [Call.AtPc, at_] at here <;> exact ⟨here.1, here.2.1⟩
    exact ok.keep (here.1.finish here.2 (.inl rfl) (by decide)) rfl rfl rfl
  | acquireLock at_ =>
    rw [Call.AtPc, at_] at here
    obtain ⟨untouched, pending, kind, rfl⟩ := here
    exact ok.keep ⟨{ untouched with }, rfl, kind, rfl⟩ rfl rfl rfl
  | insertTail at_ =>
    rw [Call.AtPc, at_] at here
    obtain ⟨untouched, pending, kind, rfl⟩ := here
    refine ok.keep { untouched with pending, kind, sites := ?_ } rfl rfl rfl
    intro completion member
    simp [untouched.completions] at member
  | setEvent at_ =>
    rw [Call.AtPc, at_] at here
    exact ok.keep (.held rfl { here with }) rfl rfl rfl
  | lazyNewItem at_ =>
    rw [Call.AtPc, at_] at here
    exact ok.keep ⟨{ here.1 with }, here.2.1, here.2.2, rfl⟩ rfl rfl rfl
  | lazyAcquireWrite at_ granted writes =>
    rw [Call.AtPc, at_] at here
    obtain ⟨untouched, pending, kind, rfl⟩ := here
    exact ok.keep ⟨{ untouched with }, pending, writes, rfl⟩ rfl rfl rfl
  | lazyAcquireFlush at_ granted other =>
    rw [Call.AtPc, at_] at here
    obtain ⟨untouched, pending, kind, rfl⟩ := here
    exact ok.keep ⟨{ untouched with }, pending, kind, by simp [lazyItem, other]⟩ rfl rfl rfl
  | lazyMapMdl at_ =>
    rw [Call.AtPc, at_] at here
    exact ok.keep ⟨{ here.1 with }, here.2⟩ rfl rfl rfl
  | noMapping at_ =>
    rw [Call.AtPc, at_] at here
    exact ok.keep (here.1.finish here.2.1 (.inl rfl) (by decide)) rfl rfl rfl
  | lazyNewPayload at_ =>
    rw [Call.AtPc, at_] at here
    obtain ⟨untouched, pending, writes, rfl⟩ := here
    have copied : c.buffer = c.irp.data := ok.buffer (by simp [writes])
    refine ok.keep ⟨{ untouched with }, pending, by simp [IoStackLocation.lazyKind, writes], ?_⟩ rfl rfl rfl
    change _ = lazyItem i c.irp
    rw [lazyItem, if_pos writes, copied]
    rfl
  | noPayload at_ =>
    rw [Call.AtPc, at_] at here
    exact ok.keep (here.1.finish here.2.1 (.inl rfl) (by decide)) rfl rfl rfl
  | lazyInsertTail at_ =>
    rw [Call.AtPc, at_] at here
    exact ok.keep ⟨{ here.1 with }, here.2.1, here.2.2.1⟩ rfl rfl rfl
  | lazySetEvent at_ =>
    rw [Call.AtPc, at_] at here
    exact ok.keep ⟨{ here.1 with }, here.2⟩ rfl rfl rfl
  | lazyComplete at_ =>
    rw [Call.AtPc, at_] at here
    refine ok.keep (Call.Untouched.finish ?_ here.2.1 (.inr ⟨rfl, here.2.2, rfl⟩) (by decide)) rfl rfl rfl
    exact { here.1 with }
  | scanForward at_ =>
    rw [Call.AtPc, at_] at here
    obtain ⟨untouched, pending, reads⟩ := here
    exact ⟨⟨{ untouched with }, pending⟩, fun notRead => absurd reads notRead, ok.lowers⟩
  | scanFull at_ =>
    rw [Call.AtPc, at_] at here
    obtain ⟨untouched, pending, reads⟩ := here
    exact ⟨⟨{ untouched with }, pending, by decide⟩, fun notRead => absurd reads notRead, ok.lowers⟩
  | scanGap at_ =>
    rw [Call.AtPc, at_] at here
    obtain ⟨untouched, pending, reads⟩ := here
    exact ⟨⟨{ untouched with }, pending, reads⟩, fun notRead => absurd reads notRead, ok.lowers⟩
  | createScatter at_ =>
    rw [Call.AtPc, at_] at here
    obtain ⟨untouched, pending, reads⟩ := here
    refine ok.keep ?_ rfl rfl rfl
    refine { untouched with pending := rfl, reads, parts := ?_, alive := ?_, gone := by simp }
    · intro lower member
      simp [untouched.lowerIrps] at member
    · rintro _ ⟨⟩
      exact ⟨by simp [untouched.lowerIrps], by decide, untouched.completions⟩
  | noScatter at_ failed =>
    rw [Call.AtPc, at_] at here
    obtain ⟨untouched, pending, reads⟩ := here
    exact ok.keep ⟨{ untouched with }, pending, by rcases failed with ⟨rfl, -⟩ | ⟨rfl, -⟩ <;> decide⟩ rfl rfl rfl
  | splitOn at_ live frame cached next goes =>
    rw [Call.AtPc, at_] at here
    have scattered := fun clearIndex clearBits =>
      here.issue live (LowerIrp.gap c.irp.stack clearIndex clearBits) rfl
    refine ⟨?_, ok.buffer, ?_⟩
    · rcases goes with ⟨_, rfl⟩ | ⟨_, rfl⟩ <;> exact { scattered _ _ with }
    · intro lower member
      rcases List.mem_append.mp member with old | new
      · exact ok.lowers lower old
      · rw [List.mem_singleton.mp new]
        exact .inl ⟨rfl, rfl, here.reads⟩
  | splitFail at_ live =>
    rw [Call.AtPc, at_] at here
    obtain ⟨count, positive, completions⟩ := here.alive _ live
    refine ok.keep { here with alive := ?_, gone := by simp } rfl rfl rfl
    rintro _ ⟨⟩
    exact ⟨count, positive, completions⟩
  | finishScatter at_ live =>
    rw [Call.AtPc, at_] at here
    obtain ⟨count, positive, completions⟩ := here.alive _ live
    refine ok.keep ?_ (by simp) (by simp) (by simp)
    rw [Call.AtPc, scatterComplete_pc]
    exact .scattered rfl (here.complete live rfl rfl here.pending here.forwards here.lowerStatus
      completions here.parts le_rfl (by simp))

/-- Where the requests of a call in the lower driver come from: it was forwarded, or it is scattered. -/
private inductive Call.Below (i : ℕ) (c : Call) : Prop
  | forwarded {lower : LowerIrp} (one : c.lowerIrps = [lower]) (whole : lower.scattered = false)
      (lift : ∀ c' : Call, c'.pc = c.pc → c'.pendingReturned = c.pendingReturned →
        c'.completions = c.completions → c'.forwards = c.forwards → c'.scatter = c.scatter →
        ((∃ lower, c'.lowerIrps = [lower] ∧ lower.scattered = false ∧ c'.lowerStatus = c.lowerStatus) ∨
          (c'.lowerIrps = [] ∧ c'.lowerStatus ≠ none)) → c'.AtPc i)
  | scattered {own : ℤ} (nonneg : 0 ≤ own) (scattered : c.Scattered own)
      (lift : ∀ c' : Call, c'.pc = c.pc → c'.Scattered own → c'.AtPc i)

private theorem CallOk.below {i n : ℕ} {c : Call} {lower : LowerIrp} (ok : CallOk i c)
    (present : c.lowerIrps[n]? = some lower) : c.Below i := by
  have here := ok.atPc
  have nonempty : c.lowerIrps ≠ [] := by rintro none; simp [none] at present
  cases at_ : c.pc with
  | returned status =>
    rw [Call.AtPc, at_] at here
    cases here with
    | completed _ _ _ _ _ _ _ _ lowerIrps => exact absurd lowerIrps nonempty
    | held _ held => exact absurd held.lowerIrps nonempty
    | scattered same scattered =>
      refine .scattered le_rfl scattered fun c' pc scattered' => ?_
      rw [Call.AtPc, pc, at_]
      exact .scattered same scattered'
    | forwarded forwards pending completions scatter below =>
      rcases below with ⟨lower, one, whole, lowerStatus⟩ | ⟨none, _⟩
      · refine .forwarded one whole fun c' pc pending' completions' forwards' scatter' below' => ?_
        rw [Call.AtPc, pc, at_]
        refine .forwarded (forwards'.trans forwards) (pending'.trans pending)
          (completions'.trans completions) (scatter'.trans scatter) ?_
        rwa [lowerStatus] at below'
      · exact absurd none nonempty
  | split =>
    rw [Call.AtPc, at_] at here
    exact .scattered (by decide) here fun c' pc scattered' => by rw [Call.AtPc, pc, at_]; exact scattered'
  | finishScatter =>
    rw [Call.AtPc, at_] at here
    exact .scattered (by decide) here fun c' pc scattered' => by rw [Call.AtPc, pc, at_]; exact scattered'
  | setEvent => rw [Call.AtPc, at_] at here; exact absurd here.lowerIrps nonempty
  | _ => rw [Call.AtPc, at_] at here; exact absurd here.1.lowerIrps nonempty

/-- A request of the call in the lower driver gets one more sector. -/
private theorem CallOk.progress {i n : ℕ} {c : Call} {lower : LowerIrp} (ok : CallOk i c)
    (present : c.lowerIrps[n]? = some lower) (moved : List ℤ) (buffer : Bytes) :
    Call.AtPc i { c with buffer, lowerIrps := c.lowerIrps.set n { lower with moved } } := by
  cases ok.below present with
  | @forwarded only one whole lift =>
    rw [one, List.getElem?_singleton] at present
    split at present
    · next first =>
      obtain rfl : only = lower := Option.some.inj present
      exact lift _ rfl rfl rfl rfl rfl (.inl ⟨{ only with moved }, by simp [one, first], whole, rfl⟩)
    · contradiction
  | scattered nonneg scattered lift =>
    refine lift _ rfl { scattered with parts := ?_, alive := ?_, gone := ?_ }
    · intro other member
      rcases List.mem_or_eq_of_mem_set member with old | rfl
      · exact scattered.parts other old
      · exact scattered.parts lower (List.mem_of_getElem? present)
    · simpa only [List.length_set] using scattered.alive
    · intro none
      rw [(scattered.gone none).1] at present
      simp at present

private theorem CallOk.lowers_set {i n : ℕ} {c : Call} {lower : LowerIrp} (ok : CallOk i c)
    (present : c.lowerIrps[n]? = some lower) (moved : List ℤ) :
    ∀ other ∈ c.lowerIrps.set n { lower with moved }, other.Belongs c.irp.stack := by
  intro other member
  rcases List.mem_or_eq_of_mem_set member with old | rfl
  · exact ok.lowers other old
  · exact (ok.lowers lower (List.mem_of_getElem? present)).progress moved

/-- A move of the lower driver on a request of the call keeps its local invariant. -/
theorem CallOk.lower {sh sh' : Shared} {i : ℕ} {c c' : Call} {a : Action} (ok : CallOk i c)
    (moved : LowerMove sh i c a sh' c') : CallOk i c' := by
  cases moved with
  | write present covered fresh writes =>
    exact ⟨ok.progress present _ c.buffer, ok.buffer, ok.lowers_set present _⟩
  | read present covered fresh reads =>
    refine ⟨ok.progress present _ _, ?_, ok.lowers_set present _⟩
    intro notRead
    rcases ok.lowers _ (List.mem_of_getElem? present) with ⟨_, _, isRead⟩ | whole
    · exact absurd isRead notRead
    · rw [whole] at covered reads
      have noData : ¬ (c.irp.stack.majorFunction = .read ∨ c.irp.stack.majorFunction = .write) := by
        rintro (isRead | isWrite)
        · exact notRead isRead
        · exact reads isWrite
      simp [LowerIrp.skipped, noData, sectorsOf] at covered
  | scattered present part live allowed =>
    cases ok.below present with
    | forwarded one whole lift =>
      have same := List.mem_of_getElem? present
      rw [one, List.mem_singleton] at same
      rw [same, whole] at part
      contradiction
    | scattered nonneg scattered lift =>
      obtain ⟨count, positive, completions⟩ := scattered.alive _ live
      have inside := (List.getElem?_eq_some_iff.mp present).1
      refine ⟨lift _ (by simp) (scattered.complete live ?_ rfl scattered.pending scattered.forwards
        scattered.lowerStatus completions ?_ nonneg ?_), by simpa using ok.buffer, ?_⟩
      · split <;> rfl
      · exact fun other member => scattered.parts other (List.mem_of_mem_eraseIdx member)
      · simp only [List.length_eraseIdx_of_lt inside]
        omega
      · intro other member
        simp only [scatterComplete_lowerIrps] at member
        simpa using ok.lowers other (List.mem_of_mem_eraseIdx member)
  | skipped present whole allowed =>
    refine ⟨?_, ok.buffer, fun other member => ok.lowers other (List.mem_of_mem_eraseIdx member)⟩
    cases ok.below present with
    | forwarded one whole lift =>
      refine lift _ rfl rfl rfl rfl rfl (.inr ⟨?_, by simp⟩)
      rw [one, List.getElem?_singleton] at present
      split at present
      · next first => simp [one, first]
      · contradiction
    | scattered nonneg scattered lift =>
      rw [scattered.parts _ (List.mem_of_getElem? present)] at whole
      contradiction

/-- A request the worker completes has been held. -/
theorem Call.Held.complete {c : Call} (held : c.Held) (ioStatus : IoStatusBlock) :
    Call.Held ({ c with information := ioStatus.information }.completeRequest .worker ioStatus.status) := by
  refine { held with sites := ?_ }
  intro completion member
  rcases List.mem_append.mp member with old | new
  · exact held.sites completion old
  · rw [List.mem_singleton.mp new]

/-- The worker completes a request that is held. -/
theorem CallOk.completeHeld {i : ℕ} {c : Call} (ok : CallOk i c) (held : c.Held)
    (at_ : c.pc = .setEvent ∨ c.pc = .returned STATUS_PENDING) (ioStatus : IoStatusBlock) :
    CallOk i ({ c with information := ioStatus.information }.completeRequest .worker ioStatus.status) := by
  refine ok.keep ?_ rfl rfl rfl
  have held' := held.complete ioStatus
  rcases at_ with at_ | at_
  · simpa only [Call.AtPc, Call.completeRequest, at_] using held'
  · simpa only [Call.AtPc, Call.completeRequest, at_] using Call.Left.held rfl held'

end QueueCache
