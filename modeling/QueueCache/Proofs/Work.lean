import QueueCache.ToMathlib.Settling
import QueueCache.Proofs.Disk

/-! # Work left in the device

Every step that is not a new request, the late answer to the size query or a failed attempt to build a
lower request takes something off `State.work`: what the dispatch calls have left to do, the requests in
the lower driver with their sectors still to be moved, the queue, the worker's next few steps, a signal
that the worker has not consumed, and the removal. A party that starts something has paid for it before.
-/

namespace QueueCache

open Transition

/-- The sectors of a transfer that are still to be moved. -/
def unmoved (offset : ℤ) (length : ℕ) (moved : List ℤ) : ℕ := (sectorsOf offset length).countP fun s => s ∉ moved

theorem unmoved_cons_lt {offset : ℤ} {length : ℕ} {moved : List ℤ} {s : ℤ} (covered : s ∈ sectorsOf offset length)
    (fresh : s ∉ moved) : unmoved offset length (s :: moved) < unmoved offset length moved := by
  apply List.countP_lt_countP ?_ covered (by simp) (by simpa using fresh)
  intro other _ left
  simp only [List.mem_cons, not_or, decide_eq_true_eq] at left ⊢
  exact left.2

/-- Unaligned ends add at most two sectors. -/
theorem unmoved_le (offset : ℤ) (length : ℕ) (moved : List ℤ) : unmoved offset length moved ≤ length / 512 + 2 := by
  have atMost : unmoved offset length moved ≤ (sectorsOf offset length).length := List.countP_le_length
  apply atMost.trans
  rw [sectorsOf]
  split
  · simp
  · rw [List.length_map, List.length_range]
    simp only [sector]
    omega

/-- The completion and the sectors still to be moved. -/
def LowerIrp.work (lower : LowerIrp) : ℕ := 1 + unmoved lower.diskOffset lower.length lower.moved

/-- What a dispatch call for a transfer of `count` whole sectors has left to do at a program point, what it
hands to the other parties included. -/
def Pc.work (count : ℕ) : Pc → ℕ
  | .entry => 6 * count + 26
  | .forward => count + 4
  | .complete _ => 1
  | .returned _ => 0
  | .queueIrp => count + 25
  | .testMemory => count + 24
  | .testSize => count + 23
  | .testItems => count + 22
  | .newItem => count + 18
  | .acquireLock _ => count + 17
  | .insertTail _ => count + 16
  | .setEvent => 8
  | .lazyNewItem => count + 21
  | .lazyAcquireLock _ => count + 20
  | .lazyMapMdl _ => count + 19
  | .lazyNewPayload _ => count + 18
  | .lazyInsertTail _ => count + 17
  | .lazySetEvent => 9
  | .lazyComplete => 1
  | .scanQueue => 6 * count + 7
  | .createScatter _ clearIndex clearBits => clearBits + 6 + 6 * (count - (clearIndex + clearBits))
  | .split _ clearIndex clearBits _ => clearBits + 5 + 6 * (count - (clearIndex + clearBits))
  | .finishScatter _ => 1

def Call.work (c : Call) : ℤ :=
  c.pc.work (c.irp.stack.length / 512) + c.lowerIrps.tally fun lower => lower.work

/-- The sectors of the request that the worker sends down for an item. -/
def WriteQueueItem.sectors (irps : List Irp) (item : WriteQueueItem) : ℕ :=
  (item.request? irps).elim 0 fun request => unmoved request.offset request.extent []

/-- The five steps of the worker on an item, and the item's sectors. -/
def WriteQueueItem.work (irps : List Irp) (item : WriteQueueItem) : ℤ := 5 + item.sectors irps

/-- The queue, and the round of the worker that a signal will start. -/
def Shared.work (irps : List Irp) (sh : Shared) : ℤ :=
  sh.queue.tally (WriteQueueItem.work irps) + if sh.extension.writeQueueEvent then 7 else 0

/-- The worker's steps to its next look at the queue. `served` are the sectors of the first item, which
the worker has handed on or has done with once it is past the lower driver's call. -/
def WorkerPc.work (served : ℤ) : WorkerPc → ℤ
  | .look => 6
  | .testShutdown => 1
  | .wait => 0
  | .dispatch _ => 5
  | .lower request moved => 4 + unmoved request.offset request.extent moved - served
  | .complete _ _ => 3 - served
  | .unlink _ => 2 - served
  | .exited => 0

def RemoverPc.work : RemoverPc → ℤ
  | .idle => 18
  | .clearCached => 17
  | .storeShutdown => 16
  | .setEvent => 15
  | .waitWorker => 7
  | .flush => 6
  | .sendDown => 5
  | .releaseLock => 4
  | .waitHolds => 3
  | .detach => 2
  | .deleted => 1

/-- The sectors of the first item of the queue. -/
def State.headSectors (s : State) : ℕ := s.shared.queue.head?.elim 0 (WriteQueueItem.sectors s.irps)

def State.work (s : State) : ℤ :=
  s.calls.tally Call.work + s.shared.work s.irps + s.worker.work s.headSectors + s.remover.work

/-- The steps that must come to an end: everything but what the clients start, the start of a removal, the
late answer to the size query and an attempt to build a lower request without the memory for it. -/
def State.internal (s : State) : Action → Bool
  | .receive _ => false
  | .worker memory => memory
  | .remover => s.remover ≠ .idle
  | .initializeDevice _ => false
  | _ => true

theorem Call.work_nonneg (c : Call) : 0 ≤ c.work := by
  have parts : 0 ≤ c.lowerIrps.tally fun lower => (lower.work : ℤ) := List.tally_nonneg fun lower _ => by omega
  rw [Call.work]
  omega

theorem WriteQueueItem.work_nonneg (irps : List Irp) (item : WriteQueueItem) : 0 ≤ item.work irps := by
  rw [WriteQueueItem.work]
  omega

theorem State.work_nonneg (s : State) : 0 ≤ s.work := by
  have calls : 0 ≤ s.calls.tally Call.work := List.tally_nonneg fun c _ => c.work_nonneg
  have first : (s.headSectors : ℤ) ≤ s.shared.queue.tally (WriteQueueItem.work s.irps) := by
    rw [State.headSectors]
    cases s.shared.queue with
    | nil => simp
    | cons item rest =>
      have others : 0 ≤ rest.tally (WriteQueueItem.work s.irps) := List.tally_nonneg fun item _ => item.work_nonneg _
      simp only [List.head?_cons, Option.elim_some, List.tally_cons, WriteQueueItem.work]
      omega
  have signal : 0 ≤ if s.shared.extension.writeQueueEvent then (7 : ℤ) else 0 := by split <;> omega
  have remover : 0 ≤ s.remover.work := by cases s.remover <;> simp [RemoverPc.work]
  have worker : -(s.headSectors : ℤ) ≤ s.worker.work s.headSectors := by
    cases s.worker <;> simp only [WorkerPc.work] <;> omega
  rw [State.work, Shared.work]
  omega

/-- A request is no larger than the length it carries. -/
theorem LowerRequest.extent_le (request : LowerRequest) : request.extent ≤ request.length := by
  rw [extent]
  split <;> omega

theorem sectors_heldItem {irps : List Irp} {i : ℕ} {irp : Irp} (present : irps[i]? = some irp) :
    (heldItem i irp).sectors irps ≤ irp.stack.length / 512 + 2 := by
  rw [WriteQueueItem.sectors, WriteQueueItem.request?, heldItem_irp]
  simp only [present, Option.bind_some]
  split
  · simp
  · have extent := (LowerRequest.ofIrp (heldItem i irp).addr irp).extent_le
    have bound := unmoved_le irp.stack.byteOffset (LowerRequest.ofIrp (heldItem i irp).addr irp).extent []
    have length : (LowerRequest.ofIrp (heldItem i irp).addr irp).length = irp.stack.length := rfl
    simp only [Option.elim_some]
    exact bound.trans (by omega)

theorem sectors_lazyItem {irps : List Irp} {i : ℕ} {irp : Irp} :
    (lazyItem i irp).sectors irps ≤ irp.stack.length / 512 + 2 := by
  rw [WriteQueueItem.sectors, WriteQueueItem.request?, lazyItem_irp]
  have extent := (LowerRequest.ofItem (lazyItem i irp)).extent_le
  have bound := unmoved_le (lazyItem i irp).offset (LowerRequest.ofItem (lazyItem i irp)).extent []
  have length : (LowerRequest.ofItem (lazyItem i irp)).length ≤ irp.stack.length := by
    change (lazyItem i irp).length ≤ _
    rw [lazyItem_length]
    split <;> omega
  simp only [Option.elim_some]
  exact bound.trans (by omega)

/-- The request that leaves a dispatch call for the lower driver. -/
theorem LowerIrp.work_skipped (io : IoStackLocation) : (LowerIrp.skipped io).work ≤ io.length / 512 + 3 := by
  have bound := unmoved_le (LowerIrp.skipped io).diskOffset (LowerIrp.skipped io).length []
  have length : (LowerIrp.skipped io).length ≤ io.length := by
    simp only [LowerIrp.skipped]
    split <;> omega
  rw [LowerIrp.work]
  change 1 + unmoved _ _ [] ≤ _
  omega

theorem LowerIrp.work_gap (io : IoStackLocation) (clearIndex clearBits : ℕ) :
    (LowerIrp.gap io clearIndex clearBits).work ≤ clearBits + 3 := by
  have bound := unmoved_le (LowerIrp.gap io clearIndex clearBits).diskOffset (shl9 clearBits) []
  have shift : shl9 clearBits ≤ clearBits * 512 := Nat.mod_le _ _
  rw [LowerIrp.work]
  change 1 + unmoved _ (shl9 clearBits) [] ≤ _
  omega

/-- The next gap lies behind the last one. -/
theorem next_gap_inside {bitmap : Bitmap} {size start index bits : ℕ}
    (found : rtlFindNextForwardRunClear bitmap size start = (index, bits)) (some : bits ≠ 0) :
    start ≤ index ∧ index + bits ≤ size := by
  by_cases inside : start ≤ size
  · obtain ⟨low, high, -⟩ := rtlFindNextForwardRunClear_spec bitmap inside found
    exact ⟨low, high⟩
  · have none : size - start = 0 := by omega
    simp [rtlFindNextForwardRunClear, none, seek] at found
    omega

section CallStep

variable {irps : List Irp} {sh sh' : Shared} {i : ℕ} {c c' : Call} {out : Outcome}

theorem Frame.work (frame : Frame sh sh') : sh'.work irps = sh.work irps := by
  rw [Shared.work, frame.queue, frame.event, Shared.work]

theorem Shared.work_signal (sh : Shared) (irps : List Irp) : (sh.signal true).work irps ≤ sh.work irps + 7 := by
  rw [Shared.work, Shared.work]
  change sh.queue.tally (WriteQueueItem.work irps) + 7 ≤ _
  split <;> omega

theorem Shared.work_insertTailList (item : WriteQueueItem) (charge : ℤ) :
    (sh.insertTailList item charge).work irps = sh.work irps + item.work irps := by
  rw [Shared.work, Shared.work, Shared.insertTailList_queue, List.tally_append, List.tally_cons, List.tally_nil]
  change _ + (if sh.extension.writeQueueEvent then (7 : ℤ) else 0) = _
  omega

theorem scatterComplete_shared_work (scatter : ScatteredIrp) :
    (scatterComplete sh i c scatter).1.work irps = sh.work irps := by
  rw [Shared.work, scatterComplete_queue, scatterComplete_event, Shared.work]

theorem scatterComplete_work (scatter : ScatteredIrp) : (scatterComplete sh i c scatter).2.work = c.work := by
  rw [Call.work, scatterComplete_pc, scatterComplete_irp, scatterComplete_lowerIrps, Call.work]

/-- A dispatch call moves on and hands something to the others. -/
private theorem work_hand (irp : c'.irp = c.irp) (lowerIrps : c'.lowerIrps = c.lowerIrps)
    (paid : c'.pc.work (c.irp.stack.length / 512) + sh'.work irps <
      c.pc.work (c.irp.stack.length / 512) + sh.work irps) :
    c'.work + sh'.work irps < c.work + sh.work irps := by
  rw [Call.work, Call.work, irp, lowerIrps]
  omega

/-- A dispatch call moves on. -/
private theorem work_move (irp : c'.irp = c.irp) (lowerIrps : c'.lowerIrps = c.lowerIrps)
    (same : sh'.work irps = sh.work irps)
    (less : c'.pc.work (c.irp.stack.length / 512) < c.pc.work (c.irp.stack.length / 512)) :
    c'.work + sh'.work irps < c.work + sh.work irps := by
  apply work_hand irp lowerIrps
  omega

/-- A step of a dispatch call does some of what the call had left, or hands it on. -/
theorem CallStep.work_lt (ok : CallOk i c) (present : irps[i]? = some c.irp) (moved : CallStep sh i c out sh' c') :
    c'.work + sh'.work irps < c.work + sh.work irps := by
  have here := ok.atPc
  cases moved with
  | entry at_ frame entered =>
    refine work_move rfl rfl frame.work ?_
    rw [at_]
    cases entered <;> simp only [Call.afterEntry, Pc.work] <;> omega
  | forward at_ =>
    have skipped := LowerIrp.work_skipped c.irp.stack
    simp only [Call.work, sendToNextDriver, at_, Pc.work, List.tally_append, List.tally_cons, List.tally_nil]
    omega
  | refuse at_ frame =>
    refine work_move rfl rfl frame.work ?_
    obtain at_ | at_ | at_ := at_ <;> rw [at_] <;> simp only [Call.goto, Pc.work] <;> omega
  | noItem at_ =>
    refine work_move rfl rfl rfl ?_
    obtain at_ | at_ := at_ <;> rw [at_] <;> simp [Pc.work]
  | noLock at_ =>
    refine work_move rfl rfl rfl ?_
    obtain at_ | at_ := at_ <;> rw [at_] <;> simp [Pc.work]
  | @insertTail item at_ =>
    rw [Call.AtPc, at_] at here
    have sectors := sectors_heldItem present
    rw [← here.2.2.2] at sectors
    refine work_hand rfl rfl ?_
    rw [Shared.work_insertTailList, at_, WriteQueueItem.work]
    simp only [Call.goto, Pc.work]
    omega
  | @lazyInsertTail item at_ =>
    rw [Call.AtPc, at_] at here
    have sectors : item.sectors irps ≤ c.irp.stack.length / 512 + 2 := by
      rw [here.2.2.2]
      exact sectors_lazyItem
    refine work_hand rfl rfl ?_
    rw [Shared.work_insertTailList, at_, WriteQueueItem.work]
    simp only [Call.goto, Pc.work]
    omega
  | setEvent at_ =>
    have signal := sh.work_signal irps
    refine work_hand rfl rfl ?_
    rw [at_]
    simp only [Call.goto, Pc.work]
    omega
  | lazySetEvent at_ =>
    have signal := sh.work_signal irps
    refine work_hand rfl rfl ?_
    rw [at_]
    simp only [Call.goto, Pc.work]
    omega
  | scanForward at_ frame =>
    refine work_move rfl rfl frame.work ?_
    rw [at_]
    simp only [Call.goto, Pc.work]
    omega
  | scanFull at_ frame =>
    refine work_move rfl rfl frame.work ?_
    rw [at_]
    simp only [Call.goto, Pc.work]
    omega
  | scanGap at_ frame _ gap nonempty =>
    obtain ⟨-, inside⟩ := next_gap_inside gap nonempty
    refine work_move rfl rfl frame.work ?_
    rw [at_]
    simp only [Call.goto, Pc.work]
    omega
  | @splitOn sh' bitmap clearIndex clearBits splits nextIndex nextBits scatter pc at_ live frame _ next goes =>
    have gap := LowerIrp.work_gap c.irp.stack clearIndex clearBits
    rw [frame.work]
    obtain ⟨-, rfl⟩ | ⟨more, rfl⟩ := goes
    · simp only [Call.work, Call.goto, at_, Pc.work, List.tally_append, List.tally_cons, List.tally_nil]
      omega
    · obtain ⟨behind, inside⟩ := next_gap_inside next more
      simp only [Call.work, Call.goto, at_, Pc.work, List.tally_append, List.tally_cons, List.tally_nil]
      omega
  | @finishScatter sh₁ splits scatter at_ live frame =>
    rw [scatterComplete_shared_work, scatterComplete_work]
    refine work_move rfl rfl frame.work ?_
    rw [at_]
    simp [Pc.work]
  | noScatter at_ =>
    refine work_move rfl rfl rfl ?_
    rw [at_]
    simp only [Call.goto, Pc.work]
    omega
  | splitFail at_ =>
    refine work_move rfl rfl rfl ?_
    rw [at_]
    simp only [Call.goto, Pc.work]
    omega
  | _ at_ =>
    refine work_move rfl rfl rfl ?_
    rw [at_]
    simp [Pc.work]

/-- The lower driver moves a sector or completes a request of a call. -/
theorem LowerMove.work_lt (irps : List Irp) {a : Action} (moved : LowerMove sh i c a sh' c') :
    c'.work < c.work ∧ sh'.work irps = sh.work irps := by
  have transferred : ∀ {n lower sec}, c.lowerIrps[n]? = some lower → sec ∈ sectorsOf lower.diskOffset lower.length →
      sec ∉ lower.moved → (c.lowerIrps.set n { lower with moved := sec :: lower.moved }).tally
        (fun lower => (lower.work : ℤ)) < c.lowerIrps.tally fun lower => (lower.work : ℤ) := by
    intro n lower sec present covered fresh
    have less := unmoved_cons_lt covered fresh
    rw [List.tally_set present]
    simp only [LowerIrp.work]
    omega
  have completed : ∀ {n lower}, c.lowerIrps[n]? = some lower → (c.lowerIrps.eraseIdx n).tally
      (fun lower => (lower.work : ℤ)) < c.lowerIrps.tally fun lower => (lower.work : ℤ) := by
    intro n lower present
    rw [List.tally_eraseIdx present]
    simp only [LowerIrp.work]
    omega
  cases moved with
  | write present covered fresh => exact ⟨Int.add_lt_add_left (transferred present covered fresh) _, rfl⟩
  | read present covered fresh => exact ⟨Int.add_lt_add_left (transferred present covered fresh) _, rfl⟩
  | scattered present =>
    rw [scatterComplete_work, scatterComplete_shared_work]
    exact ⟨Int.add_lt_add_left (completed present) _, rfl⟩
  | skipped present => exact ⟨Int.add_lt_add_left (completed present) _, rfl⟩

end CallStep

section Service

variable {s s' : State} {a : Action}

/-- The worker and what it works on. -/
def State.serviceWork (s : State) : ℤ := s.shared.work s.irps + s.worker.work s.headSectors

/-- Other parties may add to the queue: its first item stays, or nobody serves it. -/
theorem Wf.serviceWork_of_queue (wf : Wf s) (worker : s'.worker = s.worker) (irps : s'.irps = s.irps)
    (queue : s'.shared.queue = s.shared.queue ∨ ∃ item, s'.shared.queue = s.shared.queue ++ [item]) :
    s'.worker.work s'.headSectors = s.worker.work s.headSectors := by
  rw [worker]
  obtain same | ⟨item, more⟩ := queue
  · rw [State.headSectors, irps, same, State.headSectors]
  · cases found : s.shared.queue with
    | cons head rest =>
      have same : s'.shared.queue.head? = s.shared.queue.head? := by rw [more, found]; rfl
      rw [State.headSectors, irps, same, State.headSectors]
    | nil =>
      have idle := (wf.queue_empty found).2
      cases at_ : s.worker <;> simp [at_, WorkerPc.item?, WorkerPc.work] at idle ⊢

/-- Handing a request to the lower driver takes the sectors off the queue. -/
private theorem issue_lt {addr : ℕ} {item : WriteQueueItem} {request : LowerRequest} (wf : Wf s)
    (at_ : s.worker = .dispatch addr) (found : s.item? addr = some item) (sends : item.request? s.irps = some request) :
    (s.issue request).serviceWork < s.serviceWork := by
  obtain ⟨rest, -, -, queue⟩ := wf.found (by rw [at_]; rfl) found (by simp [at_])
  have sectors : (s.headSectors : ℤ) = unmoved request.offset request.extent [] := by
    rw [State.headSectors, queue]
    simp [WriteQueueItem.sectors, sends]
  change s.shared.work s.irps + (4 + unmoved request.offset request.extent [] - s.headSectors) < _
  rw [State.serviceWork, at_, WorkerPc.work]
  omega

/-- What the first item of the queue adds. -/
private theorem serviceWork_cons {s : State} {item : WriteQueueItem} {rest : List WriteQueueItem}
    (queue : s.shared.queue = item :: rest) : s.serviceWork =
      item.work s.irps + rest.tally (WriteQueueItem.work s.irps) +
        (if s.shared.extension.writeQueueEvent then 7 else 0) + s.worker.work (item.sectors s.irps) := by
  rw [State.serviceWork, Shared.work, State.headSectors, queue]
  rfl

/-- The worker changes its program point only. -/
private theorem service_move {s : State} {worker : WorkerPc}
    (less : worker.work s.headSectors < s.worker.work s.headSectors) :
    State.serviceWork { s with worker } < s.serviceWork := Int.add_lt_add_left less _

theorem WorkerStep.serviceWork_lt (wf : Wf s) (moved : WorkerStep s a s') (internal : s.internal a = true)
    (irps : s'.irps = s.irps) : s'.serviceWork < s.serviceWork := by
  cases moved with
  | lookEmpty at_ => exact service_move (by rw [at_]; simp [WorkerPc.work])
  | lookHead at_ => exact service_move (by rw [at_]; simp [WorkerPc.work])
  | exit at_ => exact service_move (by rw [at_]; simp [WorkerPc.work])
  | sleep at_ => exact service_move (by rw [at_]; simp [WorkerPc.work])
  | wake at_ signalled =>
    rw [State.serviceWork, State.serviceWork, Shared.work, Shared.work, at_, signalled]
    change s.shared.queue.tally (WriteQueueItem.work s.irps) + 0 + 6 < s.shared.queue.tally _ + 7 + 0
    omega
  | answer at_ => exact service_move (by rw [at_]; simp only [WorkerPc.work]; omega)
  | @sendIrp _ addr i item c at_ found holds present notMarker =>
    refine issue_lt wf at_ found ?_
    rw [WriteQueueItem.request?_held holds present, if_neg (by simp [notMarker])]
  | sendCopy at_ found copy => exact issue_lt wf at_ found (WriteQueueItem.request?_copy copy)
  | noRequest => contradiction
  | @transfer request moved sec at_ covered fresh =>
    have less := unmoved_cons_lt covered fresh
    change s.shared.work s.irps + (4 + unmoved request.offset request.extent (sec :: moved) - s.headSectors) < _
    rw [State.serviceWork, at_, WorkerPc.work]
    omega
  | @served request moved ioStatus at_ =>
    change s.shared.work s.irps + (3 - (s.headSectors : ℤ)) < _
    rw [State.serviceWork, at_, WorkerPc.work]
    omega
  | @completeIrp _ addr i ioStatus item c at_ found holds present =>
    obtain ⟨rest, shape, rfl, queue⟩ := wf.found (by rw [at_]; rfl) found (by simp [at_])
    have nodup := wf.pending_nodup
    rw [shape] at nodup
    have cleared : State.clearIrp s.shared.queue item.addr = { item with irp := none } :: rest := by
      rw [queue, clearIrp_head nodup]
    -- The sectors are off the queue already, those of the request as those of the item without it.
    rw [serviceWork_cons queue, serviceWork_cons cleared, irps, at_]
    change _ + (if s.shared.extension.writeQueueEvent then (7 : ℤ) else 0) +
      (WorkerPc.unlink item.addr).work _ < _
    simp only [WriteQueueItem.work, WorkerPc.work]
    omega
  | completeCopy at_ => exact service_move (by rw [at_]; simp [WorkerPc.work])
  | @unlink _ addr item at_ found =>
    obtain ⟨head, rest, -, rfl, -, queue⟩ := wf.found_unlink at_ found
    have left := s.shared.removeEntryList_queue item queue
    rw [serviceWork_cons queue, State.serviceWork, Shared.work, irps, at_]
    change (s.shared.removeEntryList item).queue.tally _ +
      (if s.shared.extension.writeQueueEvent then (7 : ℤ) else 0) + 6 < _
    rw [left]
    simp only [WriteQueueItem.work, WorkerPc.work]
    omega

end Service

theorem RemoverStep.work_lt {s s' : State} (moved : RemoverStep s s') (internal : s.internal .remover = true) :
    s'.remover.work + s'.shared.work s.irps < s.remover.work + s.shared.work s.irps := by
  cases moved with
  | acquire at_ => simp [State.internal, at_] at internal
  | setEvent at_ =>
    have signal := s.shared.work_signal s.irps
    rw [at_]
    simp only [RemoverPc.work]
    omega
  | advance at_ =>
    obtain ⟨at_, rfl⟩ | ⟨at_, rfl⟩ | ⟨at_, rfl⟩ := at_ <;> rw [at_] <;> simp [RemoverPc.work]
  | _ at_ =>
    rw [at_]
    exact Int.add_lt_add_right (by simp [RemoverPc.work]) _

/-- Every step that must come to an end does some of the work. -/
theorem Wf.work_lt {s s' : State} {a : Action} (wf : Wf s) (internal : s.internal a = true)
    (moved : s.step a = some s') : s'.work < s.work := by
  have irps : s'.irps = s.irps := by
    obtain same | ⟨irp, rfl, -⟩ := step_irps moved
    · exact same
    · contradiction
  have split : ∀ t : State, t.work = t.calls.tally Call.work + t.serviceWork + t.remover.work := by
    intro t
    rw [State.work, State.serviceWork]
    omega
  cases step_cases moved with
  | receive => contradiction
  | @call i out c sh' c' present taken =>
    have there : s.irps[i]? = some c.irp := by simp [State.irps, present]
    have less := taken.work_lt (wf.calls i c present) there
    have same : (s.update i (sh', c')).worker.work (s.update i (sh', c')).headSectors =
        s.worker.work s.headSectors := by
      refine wf.serviceWork_of_queue rfl irps ?_
      obtain ⟨frame, -⟩ | ⟨item, charge, rfl, -⟩ := taken.queue_cases
      · exact .inl frame.queue
      · exact .inr ⟨item, rfl⟩
    rw [State.work, same, irps, State.update_calls, List.tally_set present]
    change _ + sh'.work s.irps + _ + s.remover.work < _
    rw [State.work]
    omega
  | @lower _ i c sh' c' present taken =>
    obtain ⟨less, shared⟩ := taken.work_lt s.irps
    have same : (s.update i (sh', c')).worker.work (s.update i (sh', c')).headSectors = s.worker.work s.headSectors :=
      wf.serviceWork_of_queue rfl irps (.inl taken.queue.1.queue)
    rw [State.work, same, irps, State.update_calls, List.tally_set present]
    change _ + sh'.work s.irps + _ + s.remover.work < _
    rw [State.work, shared]
    omega
  | worker taken =>
    have less := taken.serviceWork_lt wf internal irps
    have calls : s'.calls.tally Call.work = s.calls.tally Call.work := by
      cases taken with
      | @completeIrp _ _ i _ _ c _ _ _ present =>
        rw [List.tally_set present]
        change _ - c.work + c.work = _
        omega
      | _ => rfl
    have remover : s'.remover = s.remover := by cases taken <;> rfl
    rw [split, split, calls, remover]
    omega
  | remover taken =>
    have less := taken.work_lt internal
    obtain ⟨frame, -, -, worker, calls⟩ := taken.frame
    have same := wf.serviceWork_of_queue worker irps (.inl frame.queue)
    rw [State.work, State.work, same, irps, calls]
    omega
  | initializeDevice => contradiction

theorem decreases_work : Decreases State.step (fun s a => s.internal a = true) Wf State.work where
  kept _ _ _ wf _ moved := wf.step moved
  nonneg s _ := s.work_nonneg
  across _ _ _ wf internal moved := wf.work_lt internal moved

end QueueCache
