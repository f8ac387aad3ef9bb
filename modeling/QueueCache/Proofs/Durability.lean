import QueueCache.Proofs.Disk

/-! # What an acknowledgement is worth

A lazily acknowledged write stays in the queue with its payload until the lower device has answered a
write of exactly that range and data. When every such answer is a success in full, nothing that was
acknowledged is dropped, and a flush that waits in the queue is a barrier for all that was acknowledged
before it arrived. A flush that is acknowledged lazily is none.
-/

namespace QueueCache

open Transition

/-- The lower device serves the copy of a lazy write in full. -/
def lazyWriteInFull (s : State) : Action → Bool
  | .workerLowerComplete ioStatus =>
    match s.worker with
    | .lower request _ => (s.item? request.item).all fun item =>
        item.irp.isSome || item.majorFunction ≠ .write || ioStatus.inFull item.length
    | _ => true
  | _ => true

/-- The lower device has completed a request for the item of call `i`, for what the caller of that item asked for. -/
def State.Serves (s : State) (i : ℕ) (irp : Irp) (ioStatus : IoStatusBlock) : Prop :=
  ∃ request, (request, ioStatus) ∈ s.shared.history.served ∧ request.item = i ∧ request.AsksFor irp

/-- Every lazy write that has been answered has been served in full. -/
def State.LazyWritesServed (s : State) : Prop :=
  ∀ item ∈ s.past, item.irp = none → item.majorFunction = .write →
    ∃ answer ∈ s.shared.history.served, answer.1.item = item.addr ∧ answer.2.inFull item.length = true

theorem lazyWritesServed_of_run {cfg : Config} {as : List Action} {s : State}
    (run : Run State.step (fun t a => lazyWriteInFull t a = true) (.initial cfg) as s) : s.LazyWritesServed := by
  have start : Wf (.initial cfg) ∧ Fifo (.initial cfg) ∧ (State.initial cfg).LazyWritesServed := by
    refine ⟨wf_initial cfg, fifo_initial cfg, fun item member => ?_⟩
    simp [State.past, State.initial] at member
  apply And.right
  apply And.right
  apply run.preserves (fun s => Wf s ∧ Fifo s ∧ s.LazyWritesServed) start
  rintro t a u ⟨wf, fifo, served⟩ inFull moved
  refine ⟨wf.step moved, fifo.step wf moved, ?_⟩
  have progress := fifo.progress wf moved
  have earlier : ∀ item ∈ t.past, item.irp = none → item.majorFunction = .write →
      ∃ answer ∈ u.shared.history.served, answer.1.item = item.addr ∧ answer.2.inFull item.length = true := by
    intro item member copy writes
    obtain ⟨answer, there, same⟩ := served item member copy writes
    exact ⟨answer, progress.served_subset there, same⟩
  cases progress with
  | same past =>
    intro item member
    exact earlier item (past ▸ member)
  | marker shape holds past =>
    intro item member copy
    rw [past] at member
    obtain old | new := List.mem_append.mp member
    · exact earlier item old copy
    · rw [List.mem_singleton.mp new, holds] at copy
      contradiction
  | @answered request sectors ioStatus head rest label at_ shape sends past answers =>
    intro item member copy writes
    rw [past] at member
    obtain old | new := List.mem_append.mp member
    · exact earlier item old copy writes
    · obtain rfl := List.mem_singleton.mp new
      rw [WriteQueueItem.request?_copy copy, Option.some.injEq] at sends
      refine ⟨(request, ioStatus), by simp [answers], by rw [← sends]; rfl, ?_⟩
      have queue := wf.queue
      rw [at_, shape] at queue
      have found : t.item? request.item = some item := by
        rw [State.item?, queue, ← sends]
        exact List.find?_cons_of_pos (by simp)
      subst label
      simpa [lazyWriteInFull, at_, found, copy, writes] using inFull

/-- The write of call `i` has been completed to its caller by the lazy path. -/
def Call.LazilyAcknowledged (c : Call) : Prop :=
  c.irp.stack.majorFunction = .write ∧ ∃ completion ∈ c.completions, completion.site = .lazyWrite

instance (c : Call) : Decidable c.LazilyAcknowledged :=
  inferInstanceAs (Decidable (c.irp.stack.majorFunction = .write ∧
    ∃ completion ∈ c.completions, completion.site = .lazyWrite))

/-- The item is the intact copy of the caller's write. -/
structure WriteQueueItem.Copies (item : WriteQueueItem) (i : ℕ) (irp : Irp) : Prop where
  addr : item.addr = i
  majorFunction : item.majorFunction = .write
  offset : item.offset = irp.stack.byteOffset
  length : item.length = irp.stack.length
  buffer : ∀ x : ℤ, 0 ≤ x → x < irp.stack.length → item.buffer x = irp.data x

theorem WriteQueueItem.Copies.lazyItem {irp : Irp} (writes : irp.stack.majorFunction = .write) (i : ℕ) :
    (lazyItem i irp).Copies i irp where
  addr := lazyItem_addr i irp
  majorFunction := by rw [lazyItem_majorFunction, writes]
  offset := by rw [QueueCache.lazyItem, if_pos writes]; rfl
  length := by rw [lazyItem_length, if_pos writes]
  buffer x low high := by
    rw [QueueCache.lazyItem, if_pos writes]
    exact irp.payload_inside low high

/-- The lower device has completed a write of exactly the caller's range and data with success, for its full length. -/
def State.ServesInFull (s : State) (i : ℕ) (irp : Irp) : Prop :=
  ∃ ioStatus, s.Serves i irp ioStatus ∧ ntSuccess ioStatus.status = true ∧ ioStatus.information = irp.stack.length

/-- The intact copy of the write is in the queue, or the lower device has served the write in full. -/
def State.Keeps (s : State) (i : ℕ) (c : Call) : Prop :=
  (∃ item ∈ s.shared.queue, item.Copies i c.irp) ∨ s.ServesInFull i c.irp

/-- An item that holds no request is in the queue as it was inserted until it is unlinked. -/
theorem Wf.pending_queue {s : State} (wf : Wf s) {item : WriteQueueItem} (pending : item ∈ s.pending)
    (copy : item.irp = none) : item ∈ s.shared.queue := by
  rw [wf.queue]
  cases s.worker with
  | unlink addr =>
    refine List.mem_map.mpr ⟨item, pending, ?_⟩
    split
    · rw [← copy]
    · rfl
  | _ => exact pending

/-- What has been inserted is waiting, or has been answered. -/
theorem State.pending_or_past {s : State} {item : WriteQueueItem} (member : item ∈ s.shared.history.inserted) :
    item ∈ s.pending ∨ item ∈ s.past := by
  rw [← List.take_append_drop s.shared.history.unlinked.length s.shared.history.inserted] at member
  obtain past | pending := List.mem_append.mp member
  · right
    exact (List.take_prefix_take_left (Nat.le_add_right _ _)).subset past
  · exact .inl pending

/-- An answer for an inserted item is the answer to what its caller asked for. -/
theorem Fifo.serves {s : State} (fifo : Fifo s) (wf : Wf s) {answer : LowerRequest × IoStatusBlock} {i : ℕ} {irp : Irp}
    (member : answer ∈ s.shared.history.served) (item : answer.1.item = i) (received : s.irps[i]? = some irp) :
    s.Serves i irp answer.2 := by
  refine ⟨answer.1, member, item, ?_⟩
  have sent := List.mem_map_of_mem (f := Prod.fst) member
  rw [fifo.served, State.requests] at sent
  obtain ⟨source, earlier, sends⟩ := List.mem_filterMap.mp sent
  obtain ⟨-, none⟩ | ⟨request, asked, -, some, addr, there, asksFor⟩ :=
    wf.request?_asksFor (List.mem_of_mem_take earlier)
  · rw [none] at sends
    contradiction
  · obtain rfl := Option.some.inj (some.symm.trans sends)
    rw [← addr, item, received] at there
    rw [Option.some.inj there]
    exact asksFor

theorem Wf.keeps {s : State} (wf : Wf s) (fifo : Fifo s) (served : s.LazyWritesServed) {i : ℕ} {c : Call}
    (present : s.calls[i]? = some c) (acknowledged : c.LazilyAcknowledged) : s.Keeps i c := by
  obtain ⟨writes, completion, member, site⟩ := acknowledged
  have inserted := (wf.recorded i c present).completed completion member site
  obtain pending | past := s.pending_or_past inserted
  · exact .inl ⟨_, wf.pending_queue pending (lazyItem_irp i c.irp), .lazyItem writes i⟩
  · obtain ⟨answer, there, item, full⟩ := served _ past (lazyItem_irp i c.irp) (by rw [lazyItem_majorFunction, writes])
    rw [lazyItem_addr] at item
    rw [lazyItem_length, if_pos writes, IoStatusBlock.inFull, Bool.and_eq_true, decide_eq_true_eq] at full
    exact .inr ⟨answer.2, fifo.serves wf there item (by simp [State.irps, present]), full⟩

/-- Without any assumption on the lower device: an acknowledged write is lost exactly when its item has
been unlinked after an answer that is not a success in full. -/
theorem Wf.keeps_iff {s : State} (wf : Wf s) {i : ℕ} {c : Call} (present : s.calls[i]? = some c)
    (acknowledged : c.LazilyAcknowledged) :
    s.Keeps i c ↔ (i ∈ s.shared.history.unlinked → s.ServesInFull i c.irp) := by
  obtain ⟨writes, completion, member, site⟩ := acknowledged
  have inserted := (wf.recorded i c present).completed completion member site
  constructor
  · rintro (⟨item, queued, copies⟩ | served) unlinked
    · obtain ⟨source, pending, form⟩ := wf.mem_queue queued
      have addr : source.addr = i := by
        rw [← copies.addr]
        obtain same | same := form <;> rw [same]
      rw [wf.unlinked] at unlinked
      have nodup := wf.nodup
      rw [← List.take_append_drop s.shared.history.unlinked.length s.shared.history.inserted, List.map_append,
        List.nodup_append] at nodup
      exact absurd rfl (nodup.2.2 i unlinked i (addr ▸ List.mem_map_of_mem pending))
    · exact served
  · intro condition
    rw [← List.take_append_drop s.shared.history.unlinked.length s.shared.history.inserted] at inserted
    obtain old | pending := List.mem_append.mp inserted
    · right
      apply condition
      rw [wf.unlinked, ← lazyItem_addr i c.irp]
      exact List.mem_map_of_mem old
    · exact .inl ⟨_, wf.pending_queue pending (lazyItem_irp i c.irp), .lazyItem writes i⟩

/-- In every state of a run whose lower device serves lazy writes in full, each lazily acknowledged write is still
queued with its payload intact, or the lower device has written exactly its range and data in full. -/
theorem acknowledged_kept (cfg : Config) (as : List Action) (s : State)
    (run : Run State.step (fun t a => lazyWriteInFull t a = true) (.initial cfg) as s) :
    ∀ i c, s.calls[i]? = some c → c.LazilyAcknowledged → s.Keeps i c := by
  intro i c present acknowledged
  exact (wf_of_run run).keeps (fifo_of_run run) (lazyWritesServed_of_run run) present acknowledged

/-- The lazy write that `lazyWriteServed` sends to the disk. -/
theorem acknowledged_kept_lazyWrite : ∃ s c, Run State.step (fun t a => lazyWriteInFull t a = true)
      (.initial smallDevice) lazyWriteServed s ∧ s.calls[0]? = some c ∧ c.LazilyAcknowledged ∧ s.Keeps 0 c := by
  have run : Run State.step (fun t a => lazyWriteInFull t a = true) (.initial smallDevice) lazyWriteServed
    (.after smallDevice lazyWriteServed) := run_after (by decide +kernel)
  have present := State.call_after (show ((State.after smallDevice lazyWriteServed).calls[0]?).isSome by
    decide +kernel)
  exact ⟨_, _, run, present, by decide +kernel,
    acknowledged_kept smallDevice _ _ run 0 _ present (by decide +kernel)⟩

/-- One lazy write that the lower device fails. -/
def lazyWriteFailed : List Action :=
  [.receive (writeSector0 7)] ++ callSteps 0 12 ++ workerSteps 2 ++
    [.workerLowerComplete ⟨STATUS_INSUFFICIENT_RESOURCES, 0⟩] ++ workerSteps 2

/-- A lower write that fails takes the only copy of the acknowledged data with it. -/
theorem acknowledged_dropped : ¬ ∀ (cfg : Config) (as : List Action) (s : State),
    Run State.step anyStep (.initial cfg) as s →
      ∀ i c, s.calls[i]? = some c → c.LazilyAcknowledged → s.Keeps i c := by
  intro claimed
  have run := run_of_replay smallDevice lazyWriteFailed (by decide +kernel)
  have present := State.call_after (show ((State.after smallDevice lazyWriteFailed).calls[0]?).isSome by
    decide +kernel)
  obtain ⟨item, queued, -⟩ | ⟨ioStatus, ⟨request, member, -⟩, success, -⟩ :=
    claimed smallDevice _ _ run 0 _ present (by decide +kernel)
  · have empty : (State.after smallDevice lazyWriteFailed).shared.queue = [] :=
      List.isEmpty_iff.mp (by decide +kernel)
    rw [empty] at queued
    contradiction
  · have failed : ∀ answer ∈ (State.after smallDevice lazyWriteFailed).shared.history.served,
        ntSuccess answer.2.status = false := by decide +kernel
    simp [failed _ member] at success

/-- Requests whose success promises something about the lower device: flushes, and writes of anything. -/
def IoStackLocation.needsDevice (io : IoStackLocation) : Bool :=
  io.majorFunction = .flushBuffers || (io.majorFunction = .write && io.length ≠ 0)

/-- What stands behind each completion of a request, by the code that completed it. -/
structure Call.Justified (i : ℕ) (past : List WriteQueueItem) (served : List (LowerRequest × IoStatusBlock))
    (c : Call) : Prop where
  entry : ∀ status, c.pc = .complete status → ntSuccess status = true → c.irp.stack.needsDevice = false
  dispatch : ∀ completion ∈ c.completions, completion.site = .dispatch → ntSuccess completion.status = true →
    c.irp.stack.needsDevice = false
  worker : ∀ completion ∈ c.completions, completion.site = .worker → heldItem i c.irp ∈ past ∧
    (c.irp.stack.isMarker = false →
      (.ofIrp i c.irp, ⟨completion.status, completion.information⟩) ∈ served)
  scatter : ∀ completion ∈ c.completions, completion.site = .scatter → c.irp.stack.majorFunction = .read

theorem needsDevice_read {io : IoStackLocation} (reads : io.majorFunction = .read) : io.needsDevice = false := by
  simp [IoStackLocation.needsDevice, reads]

namespace Call.Justified

variable {i : ℕ} {past past' : List WriteQueueItem} {served served' : List (LowerRequest × IoStatusBlock)}
  {c c' : Call}

theorem mono (justified : c.Justified i past served) (longer : past ⊆ past') (more : served ⊆ served') :
    c.Justified i past' served' where
  entry := justified.entry
  dispatch := justified.dispatch
  worker completion member site := by
    obtain ⟨held, answered⟩ := justified.worker completion member site
    exact ⟨longer held, fun notMarker => more (answered notMarker)⟩
  scatter := justified.scatter

/-- The request is completed once more, or not at all. -/
private theorem complete (justified : c.Justified i past served) (irp : c'.irp = c.irp)
    (pc : ∀ status, c'.pc = .complete status → ntSuccess status = true → c.irp.stack.needsDevice = false)
    (completions : c'.completions = c.completions ∨ ∃ completion,
      c'.completions = c.completions ++ [completion] ∧
        (completion.site = .dispatch → ntSuccess completion.status = true → c.irp.stack.needsDevice = false) ∧
        (completion.site = .worker → heldItem i c.irp ∈ past ∧ (c.irp.stack.isMarker = false →
          (.ofIrp i c.irp, ⟨completion.status, completion.information⟩) ∈ served)) ∧
        (completion.site = .scatter → c.irp.stack.majorFunction = .read)) : c'.Justified i past served := by
  have each : ∀ completion ∈ c'.completions,
      (completion.site = .dispatch → ntSuccess completion.status = true → c.irp.stack.needsDevice = false) ∧
      (completion.site = .worker → heldItem i c.irp ∈ past ∧ (c.irp.stack.isMarker = false →
        (.ofIrp i c.irp, ⟨completion.status, completion.information⟩) ∈ served)) ∧
      (completion.site = .scatter → c.irp.stack.majorFunction = .read) := by
    intro completion member
    have old : completion ∈ c.completions → _ := fun before =>
      And.intro (justified.dispatch completion before)
        (And.intro (justified.worker completion before) (justified.scatter completion before))
    obtain same | ⟨added, same, reasons⟩ := completions
    · exact old (same ▸ member)
    · rw [same] at member
      obtain before | new := List.mem_append.mp member
      · exact old before
      · rw [List.mem_singleton.mp new]
        exact reasons
  rw [← irp] at pc each
  exact ⟨pc, fun completion member => (each completion member).1, fun completion member => (each completion member).2.1,
    fun completion member => (each completion member).2.2⟩

private theorem failed (justified : c.Justified i past served) {status : NtStatus}
    (failure : ntSuccess status = false) : (c.finish .dispatch status).Justified i past served := by
  refine justified.complete rfl (by simp) (.inr ⟨_, rfl, fun _ success => ?_, by simp, by simp⟩)
  rw [failure] at success
  contradiction

theorem step {sh sh' : Shared} {out : Outcome} (justified : c.Justified i past served) (ok : CallOk i c)
    (moved : CallStep sh i c out sh' c') : c'.Justified i past served := by
  have here := ok.atPc
  have irp := moved.irp
  cases moved with
  | entry _ _ entered =>
    refine justified.complete irp ?_ (.inl rfl)
    intro status at_ success
    cases entered with
    | opened opening =>
      cases major : c.irp.stack.majorFunction <;>
        simp [IoStackLocation.opens, IoStackLocation.needsDevice, major] at opening ⊢
    | completed _ _ _ _ _ empty notFlush =>
      obtain rfl := Pc.complete.inj at_
      have empty := empty success
      cases major : c.irp.stack.majorFunction <;>
        simp [IoStackLocation.isTransfer, IoStackLocation.needsDevice, major] at empty notFlush ⊢
      exact empty
    | _ => simp [Call.afterEntry] at at_
  | complete at_ =>
    refine justified.complete irp (by simp) (.inr ⟨_, rfl, ?_, by simp, by simp⟩)
    exact fun _ => justified.entry _ at_
  | noItem => exact justified.failed rfl
  | noLock => exact justified.failed rfl
  | noMapping => exact justified.failed rfl
  | noPayload => exact justified.failed rfl
  | lazyComplete => exact justified.complete irp (by simp) (.inr ⟨_, rfl, by simp, by simp, by simp⟩)
  | scanFull at_ =>
    rw [Call.AtPc, at_] at here
    exact justified.complete irp (fun _ _ _ => needsDevice_read here.2.2) (.inl rfl)
  | noScatter at_ =>
    rw [Call.AtPc, at_] at here
    exact justified.complete irp (fun _ _ _ => needsDevice_read here.2.2) (.inl rfl)
  | @finishScatter sh₁ _ scatter at_ =>
    rw [Call.AtPc, at_] at here
    refine justified.complete irp (by simp) ?_
    obtain same | ⟨completion, added, site⟩ := scatterComplete_completions sh₁ i (c.goto (.returned STATUS_PENDING))
      scatter
    · exact .inl same
    · exact .inr ⟨completion, added, by simp [site], by simp [site], fun _ => here.reads⟩
  | splitOn _ _ _ _ _ goes =>
    refine justified.complete irp ?_ (.inl rfl)
    intro status at_
    obtain ⟨-, rfl⟩ | ⟨-, rfl⟩ := goes <;> cases at_
  | forward => exact justified.complete irp (by simp [sendToNextDriver]) (.inl rfl)
  | _ => exact justified.complete irp (by simp) (.inl rfl)

theorem lower {sh sh' : Shared} {a : Action} (justified : c.Justified i past served) (ok : CallOk i c)
    (moved : LowerMove sh i c a sh' c') : c'.Justified i past served := by
  refine justified.complete moved.irp ?_ ?_
  · rw [moved.pc]
    exact justified.entry
  · have reads : ∀ {lower : LowerIrp}, lower ∈ c.lowerIrps → lower.scattered = true →
        c.irp.stack.majorFunction = .read := by
      intro lower member part
      obtain ⟨-, -, reads⟩ | whole := ok.lowers lower member
      · exact reads
      · rw [whole] at part
        contradiction
    cases moved with
    | scattered present part =>
      obtain same | ⟨completion, added, site⟩ := scatterComplete_completions sh i _ _
      · exact .inl same
      · exact .inr ⟨completion, added, by simp [site], by simp [site], fun _ =>
          reads (List.mem_of_getElem? present) part⟩
    | _ => exact .inl rfl

end Call.Justified

/-- The worker's answers and every completion so far have what stands behind them. -/
structure Answered (s : State) : Prop where
  current : ∀ addr ioStatus item rest, s.worker = .complete addr ioStatus → s.pending = item :: rest →
    ∀ request, item.request? s.irps = some request → (request, ioStatus) ∈ s.shared.history.served
  calls : ∀ (i : ℕ) (c : Call), s.calls[i]? = some c → c.Justified i s.past s.shared.history.served

theorem answered_initial (cfg : Config) : Answered (.initial cfg) where
  current addr ioStatus item rest at_ := by simp [State.initial] at at_
  calls i c present := by simp [State.initial] at present

namespace Answered

variable {s s' : State} {a : Action}

private theorem current_step (answered : Answered s) (wf : Wf s) (fifo : Fifo s) (moved : s.step a = some s') :
    ∀ addr ioStatus item rest, s'.worker = .complete addr ioStatus → s'.pending = item :: rest →
      ∀ request, item.request? s'.irps = some request → (request, ioStatus) ∈ s'.shared.history.served := by
  intro addr ioStatus item rest at_ shape request sends
  obtain ⟨taken, irps⟩ | frame := step_service moved
  · rw [irps] at sends
    cases taken with
    | answer before found holds present marker =>
      obtain ⟨rest', shape', -, -⟩ := wf.found (by rw [before]; rfl) found (by simp [before])
      obtain ⟨rfl, -⟩ := List.cons.inj (shape'.symm.trans shape)
      rw [WriteQueueItem.request?_held holds present, if_pos marker] at sends
      contradiction
    | @served sent sectors ioStatus before =>
      obtain ⟨head, rest', shape', sends'⟩ := fifo.current sent sectors before
      obtain ⟨rfl, -⟩ := List.cons.inj (shape'.symm.trans shape)
      obtain rfl := Option.some.inj (sends.symm.trans sends')
      cases at_
      exact List.mem_append_right _ (List.mem_singleton_self _)
    | _ => cases at_
  · rw [frame.worker] at at_
    obtain ⟨head, rest', shape', -⟩ := wf.worker addr (by rw [at_]; rfl)
    obtain ⟨items, pending⟩ := wf.pending_frame frame
    rw [pending, shape'] at shape
    obtain ⟨rfl, -⟩ := List.cons.inj shape
    obtain ⟨more, irps⟩ := frame.irps
    rw [irps, wf.request?_append (s.pending_subset (shape' ▸ List.mem_cons_self ..))] at sends
    rw [frame.served]
    exact answered.current addr ioStatus head rest' at_ shape' request sends

theorem step (answered : Answered s) (wf : Wf s) (fifo : Fifo s) (moved : s.step a = some s') : Answered s' := by
  refine ⟨answered.current_step wf fifo moved, ?_⟩
  have progress := fifo.progress wf moved
  have older : ∀ (i : ℕ) (c : Call), s.calls[i]? = some c → c.Justified i s'.past s'.shared.history.served :=
    fun i c present => (answered.calls i c present).mono progress.past_subset progress.served_subset
  cases step_cases moved with
  | receive =>
    refine List.forall_getElem?_snoc ?_ older
    exact ⟨by simp [Call.receive], by simp [Call.receive], by simp [Call.receive], by simp [Call.receive]⟩
  | call present taken =>
    exact List.forall_getElem?_set ((older _ _ present).step (wf.calls _ _ present) taken) older
  | lower present taken =>
    exact List.forall_getElem?_set ((older _ _ present).lower (wf.calls _ _ present) taken) older
  | worker taken =>
    cases taken with
    | @completeIrp _ _ i ioStatus item c at_ found holds present =>
      obtain ⟨rest, shape, -, -⟩ := wf.found (by rw [at_]; rfl) found (by simp [at_])
      obtain ⟨same, held, -⟩ := wf.holder (s.pending_subset (shape ▸ List.mem_cons_self ..)) holds present
      have past : heldItem i c.irp ∈ s.past := by
        rw [State.past, at_, ← same]
        change item ∈ List.take (s.shared.history.unlinked.length + 1) _
        rw [State.take_succ shape]
        exact List.mem_append_right _ (List.mem_singleton_self _)
      have backed : c.irp.stack.isMarker = false → (.ofIrp i c.irp, ioStatus) ∈ s.shared.history.served := by
        intro notMarker
        apply answered.current _ _ item rest at_ shape
        rw [WriteQueueItem.request?_held holds present, if_neg (by simp [notMarker]), same]
        rfl
      have completed : Call.Justified i s.past s.shared.history.served
          ({ c with information := ioStatus.information }.completeRequest .worker ioStatus.status) := by
        have before := answered.calls i c present
        refine before.complete ?_ ?_ (.inr ⟨_, rfl, ?_, fun _ => ⟨past, backed⟩, ?_⟩)
        · rfl
        · exact before.entry
        · simp
        · simp
      have same : ∀ calls remover, State.past ⟨s.shared.withQueue (State.clearIrp s.shared.queue item.addr), calls,
          .unlink item.addr, remover⟩ = s.past := by
        intro calls remover
        rw [State.past, State.past, at_]
        rfl
      rw [same] at older ⊢
      exact List.forall_getElem?_set completed older
    | _ => exact older
  | remover taken =>
    rw [taken.frame.2.2.2.2]
    exact older
  | initializeDevice => exact older

end Answered

theorem answered_of_run {cfg : Config} {ok : State → Action → Prop} {as : List Action} {s : State}
    (run : Run State.step ok (.initial cfg) as s) : Answered s := by
  apply And.right
  apply And.right
  apply run.preserves (fun s => Wf s ∧ Fifo s ∧ Answered s)
    ⟨wf_initial cfg, fifo_initial cfg, answered_initial cfg⟩
  rintro t a u ⟨wf, fifo, answered⟩ _ moved
  exact ⟨wf.step moved, fifo.step wf moved, answered.step wf fifo moved⟩

theorem grows_of_run {ok : State → Action → Prop} {as : List Action} {s s' : State}
    (run : Run State.step ok s as s') : Grows s s' := by
  apply run.relates Grows Grows.refl (fun first second => first.trans second)
  intro t a u _ moved
  exact step_grows moved

/-- Whatever was inserted before a request arrived is answered before that request's item. -/
theorem Grows.past_of_held {s₁ s : State} (grows : Grows s₁ s) (wf : Wf s₁) {irp : Irp}
    (past : heldItem s₁.calls.length irp ∈ s.past) : s₁.shared.history.inserted ⊆ s.past := by
  obtain ⟨items, inserted⟩ := grows.inserted
  rw [State.past, ← inserted] at past ⊢
  obtain above | below := Nat.le_total s₁.shared.history.inserted.length
    (s.shared.history.unlinked.length + s.worker.answered)
  · rw [List.take_append, List.take_of_length_le above]
    exact List.subset_append_left _ _
  · rw [List.take_append_of_le_length below] at past
    obtain ⟨c, present, -⟩ := wf.linked _ (List.mem_of_mem_take past)
    simp at present

/-- The caller has been told that the request succeeded. -/
def Call.Acknowledged (c : Call) : Prop :=
  (∃ completion ∈ c.completions, ntSuccess completion.status = true) ∨
    ∃ ioStatus, c.lowerStatus = some ioStatus ∧ ntSuccess ioStatus.status = true

instance (c : Call) : Decidable c.Acknowledged :=
  inferInstanceAs (Decidable ((∃ completion ∈ c.completions, ntSuccess completion.status = true) ∨
    ∃ ioStatus, c.lowerStatus = some ioStatus ∧ ntSuccess ioStatus.status = true))

/-- The lower device has completed the write of call `i` with success, in the request itself or in one for the same
range and bytes; or there is nothing to write. -/
def State.OnLowerDevice (s : State) (i : ℕ) (c : Call) : Prop :=
  c.irp.stack.length = 0 ∨ (∃ ioStatus, c.lowerStatus = some ioStatus ∧ ntSuccess ioStatus.status = true) ∨
    ∃ ioStatus, s.Serves i c.irp ioStatus ∧ ntSuccess ioStatus.status = true

/-- A request that needs the lower device and succeeds otherwise than lazily was answered with that
very status block. -/
theorem Answered.backed {s : State} (answered : Answered s) {i : ℕ} {c : Call} {completion : Completion}
    (present : s.calls[i]? = some c) (needs : c.irp.stack.needsDevice = true) (member : completion ∈ c.completions)
    (success : ntSuccess completion.status = true) (notLazy : completion.site ≠ .lazyWrite) :
    heldItem i c.irp ∈ s.past ∧
      (.ofIrp i c.irp, ⟨completion.status, completion.information⟩) ∈ s.shared.history.served := by
  have justified := answered.calls i c present
  have notMarker : c.irp.stack.isMarker = false := by
    cases major : c.irp.stack.majorFunction <;>
      simp [IoStackLocation.needsDevice, IoStackLocation.isMarker, major] at needs ⊢
  cases site : completion.site with
  | dispatch =>
    rw [justified.dispatch completion member site success] at needs
    contradiction
  | lazyWrite => exact absurd site notLazy
  | worker =>
    obtain ⟨past, served⟩ := justified.worker completion member site
    exact ⟨past, served notMarker⟩
  | scatter =>
    rw [needsDevice_read (justified.scatter completion member site)] at needs
    contradiction

/-- Whatever had been acknowledged when a request arrived is on the lower device once that request's
item has been answered. -/
theorem acknowledged_on_device {s₁ s : State} {irp : Irp} {i : ℕ} {d : Call} (wf : Wf s₁) (answered : Answered s₁)
    (wf' : Wf s) (fifo : Fifo s) (grows : Grows s₁ s) (past : heldItem s₁.calls.length irp ∈ s.past)
    (served : s.LazyWritesServed) (present : s₁.calls[i]? = some d) (writes : d.irp.stack.majorFunction = .write)
    (acknowledged : d.Acknowledged) : s.OnLowerDevice i d := by
  by_cases empty : d.irp.stack.length = 0
  · exact .inl empty
  · right
    obtain ⟨completion, member, success⟩ | below := acknowledged
    · right
      by_cases lazily : completion.site = .lazyWrite
      · have inserted := (wf.recorded i d present).completed completion member lazily
        obtain ⟨answer, there, item, full⟩ := served _ (grows.past_of_held wf past inserted)
          (lazyItem_irp i d.irp) (by rw [lazyItem_majorFunction, writes])
        have received : s.irps[i]? = some d.irp := by
          obtain ⟨more, grown⟩ := grows.irps
          have here : s₁.irps[i]? = some d.irp := by simp [State.irps, present]
          rw [← grown, List.getElem?_append_left (List.getElem?_eq_some_iff.mp here).1, here]
        rw [lazyItem_addr] at item
        rw [IoStatusBlock.inFull, Bool.and_eq_true] at full
        exact ⟨answer.2, fifo.serves wf' there item received, full.1⟩
      · have needs : d.irp.stack.needsDevice = true := by simp [IoStackLocation.needsDevice, writes, empty]
        obtain ⟨-, there⟩ := answered.backed present needs member success lazily
        exact ⟨_, ⟨_, grows.served.subset there, rfl, .ofIrp i d.irp⟩, success⟩
    · exact .inl below

/-- The call of a request that arrives in `s₁` is the one after those there were. -/
theorem irp_of_received {ok : State → Action → Prop} {s₁ s : State} {irp : Irp} {cs : List Action} {c : Call}
    (run : Run State.step ok s₁ (.receive irp :: cs) s) (present : s.calls[s₁.calls.length]? = some c) :
    c.irp = irp := by
  obtain ⟨mid, -, moved, rest⟩ := run.uncons
  have there : mid.irps[s₁.calls.length]? = some irp := by
    cases step_cases moved with
    | receive => simp [State.irps, Call.receive]
    | lower _ taken => cases taken
    | worker taken => cases taken
  have kept : s.irps[s₁.calls.length]? = some irp := by
    obtain ⟨more, grown⟩ := (grows_of_run rest).irps
    rw [← grown, List.getElem?_append_left (List.getElem?_eq_some_iff.mp there).1, there]
  simp only [State.irps, List.getElem?_map, present, Option.map_some, Option.some.injEq] at kept
  exact kept

/-- A flush that succeeds otherwise than lazily has been answered by the lower device with the same status block, and
every write acknowledged before it arrived has been answered with success if the lazy ones are served in full; and a
write that succeeds otherwise than lazily has been answered with the same status block, for its range and bytes. -/
theorem held_barrier (cfg : Config) (as : List Action) (s : State)
    (run : Run State.step anyStep (.initial cfg) as s) :
    (∀ bs cs irp s₁ c completion, as = bs ++ .receive irp :: cs → irp.stack.majorFunction = .flushBuffers →
      Run State.step anyStep (.initial cfg) bs s₁ → s.calls[s₁.calls.length]? = some c →
      completion ∈ c.completions → ntSuccess completion.status = true → completion.site ≠ .lazyWrite →
      s.Serves s₁.calls.length irp ⟨completion.status, completion.information⟩ ∧
        (s.LazyWritesServed → ∀ i d, s₁.calls[i]? = some d → d.irp.stack.majorFunction = .write →
          d.Acknowledged → s.OnLowerDevice i d)) ∧
    ∀ i c completion, s.calls[i]? = some c → c.irp.stack.majorFunction = .write → c.irp.stack.length ≠ 0 →
      completion ∈ c.completions → ntSuccess completion.status = true → completion.site ≠ .lazyWrite →
      s.Serves i c.irp ⟨completion.status, completion.information⟩ := by
  have answered := answered_of_run run
  constructor
  · rintro bs cs irp s₁ c completion rfl flush earlier present member success notLazy
    obtain ⟨s₂, first, rest⟩ := run.split
    obtain rfl := first.unique earlier
    have grows := grows_of_run rest
    have same := irp_of_received rest present
    have needs : c.irp.stack.needsDevice = true := by simp [IoStackLocation.needsDevice, same, flush]
    obtain ⟨past, served⟩ := answered.backed present needs member success notLazy
    rw [same] at past served
    refine ⟨⟨_, served, rfl, .ofIrp _ _⟩, fun lazily i d there writes acknowledged => ?_⟩
    exact acknowledged_on_device (wf_of_run earlier) (answered_of_run earlier) (wf_of_run run) (fifo_of_run run) grows
      past lazily there writes acknowledged
  · intro i c completion present writes nonempty member success notLazy
    have needs : c.irp.stack.needsDevice = true := by simp [IoStackLocation.needsDevice, writes, nonempty]
    exact ⟨_, (answered.backed present needs member success notLazy).2, rfl, .ofIrp _ _⟩

/-- A write is acknowledged lazily. -/
def lazyWrite : List Action := [.receive (writeSector0 7)] ++ callSteps 0 12

/-- After it a flush holds its request, as memory is low, and both are served. -/
def heldFlush : List Action :=
  lazyWrite ++ .receive flushRequest :: (callSteps 1 2 ++ [.call 1 { highMemory := false }] ++ callSteps 1 4 ++
    workerSteps 2 ++ [.workerTransfer 0, .workerLowerComplete ⟨STATUS_SUCCESS, 512⟩] ++ workerSteps 4 ++
    [.workerLowerComplete ⟨STATUS_SUCCESS, 0⟩] ++ workerSteps 1)

/-- After it a flush is acknowledged lazily. -/
def lazyFlush : List Action := lazyWrite ++ .receive flushRequest :: callSteps 1 10

private theorem lazyWrite_calls : (State.after smallDevice lazyWrite).calls.length = 1 := by decide +kernel

theorem held_barrier_heldFlush : ∃ s s₁ d, Run State.step anyStep (.initial smallDevice) heldFlush s ∧
    Run State.step anyStep (.initial smallDevice) lazyWrite s₁ ∧ s₁.calls[0]? = some d ∧ d.Acknowledged ∧
    s.OnLowerDevice 0 d := by
  have run := run_of_replay smallDevice heldFlush (by decide +kernel)
  have earlier := run_of_replay smallDevice lazyWrite (by decide +kernel)
  have written := State.call_after (show ((State.after smallDevice lazyWrite).calls[0]?).isSome by decide +kernel)
  have flushed : ∃ c, (State.after smallDevice heldFlush).calls[1]? = some c ∧ ∃ completion ∈ c.completions,
      ntSuccess completion.status = true ∧ completion.site ≠ .lazyWrite :=
    ⟨_, State.call_after (by decide +kernel), by decide +kernel⟩
  obtain ⟨c, flushed, completion, member, success, notLazy⟩ := flushed
  rw [← lazyWrite_calls] at flushed
  have inFull : Run State.step (fun t a => lazyWriteInFull t a = true) (.initial smallDevice) heldFlush
    (.after smallDevice heldFlush) := run_after (by decide +kernel)
  obtain ⟨barrier, -⟩ := held_barrier smallDevice heldFlush _ run
  obtain ⟨-, served⟩ := barrier lazyWrite _ flushRequest _ c completion rfl rfl earlier flushed member success notLazy
  exact ⟨_, _, _, run, earlier, written, by decide +kernel,
    served (lazyWritesServed_of_run inFull) 0 _ written (by decide +kernel) (by decide +kernel)⟩

/-- A flush that is acknowledged lazily overtakes the write acknowledged before it. -/
theorem lazy_flush_overtakes : ¬ ∀ (cfg : Config) (as bs cs : List Action) (irp : Irp) (s s₁ : State) (c : Call)
    (completion : Completion), as = bs ++ .receive irp :: cs → irp.stack.majorFunction = .flushBuffers →
      Run State.step anyStep (.initial cfg) as s → Run State.step anyStep (.initial cfg) bs s₁ →
      s.calls[s₁.calls.length]? = some c → completion ∈ c.completions → ntSuccess completion.status = true →
      ∀ i d, s₁.calls[i]? = some d → d.irp.stack.majorFunction = .write → d.Acknowledged → s.OnLowerDevice i d := by
  intro claimed
  have run := run_of_replay smallDevice lazyFlush (by decide +kernel)
  have earlier := run_of_replay smallDevice lazyWrite (by decide +kernel)
  have written := State.call_after (show ((State.after smallDevice lazyWrite).calls[0]?).isSome by decide +kernel)
  have flushed : ∃ c, (State.after smallDevice lazyFlush).calls[1]? = some c ∧ ∃ completion ∈ c.completions,
      ntSuccess completion.status = true := ⟨_, State.call_after (by decide +kernel), by decide +kernel⟩
  obtain ⟨c, flushed, completion, member, success⟩ := flushed
  rw [← lazyWrite_calls] at flushed
  obtain empty | ⟨ioStatus, below, -⟩ | ⟨ioStatus, ⟨request, there, -⟩, -⟩ :=
    claimed smallDevice lazyFlush lazyWrite _ flushRequest
    _ _ c completion rfl rfl run earlier flushed member success 0 _ written (by decide +kernel) (by decide +kernel)
  · revert empty
    decide +kernel
  · have notBelow : (((State.after smallDevice lazyWrite).calls[0]?).get (by decide +kernel)).lowerStatus = none := by
      decide +kernel
    rw [notBelow] at below
    contradiction
  · have unserved : (State.after smallDevice lazyFlush).shared.history.served = [] :=
      List.isEmpty_iff.mp (by decide +kernel)
    rw [unserved] at there
    contradiction

end QueueCache
