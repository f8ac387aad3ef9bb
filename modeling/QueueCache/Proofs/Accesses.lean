import QueueCache.Model.Accesses
import QueueCache.Proofs.RemoveLock
import QueueCache.Proofs.Reads
import QueueCache.ToMathlib.Simulation

/-! # The accesses that are due make no difference

`settle` makes all accesses that are due at once. No step of the device reads what they change, but for the removal
that waits for the last hold, so a step can be taken before them or after them with the same outcome. A run of a
`FineState`, settled, is therefore a run of the device along the same steps, and whatever holds in every run of the
device holds of the settled state.
-/

namespace QueueCache

open Transition

/-- The pool once the accesses that are due have been made, the last one first. -/
def poolAfter (due : List Due) (pool : Finset PoolBlock) : Finset PoolBlock :=
  due.foldr (fun due pool =>
    match due.access with
    | .releaseLock => pool
    | .allocate block => insert block pool
    | .free block => pool.erase block) pool

/-- The holds whose release is due. -/
def releasesDue (due : List Due) : ℕ := due.countP fun due => due.access = .releaseLock

/-- The accesses that are due have been made. -/
def Shared.settle (due : List Due) (sh : Shared) : Shared :=
  { sh with
    extension.removeLock.ioCount := sh.extension.removeLock.ioCount - releasesDue due
    pool := poolAfter due sh.pool }

def State.settle (due : List Due) (s : State) : State := { s with shared := s.shared.settle due }

/-- What is due leaves the block where it is. -/
def NotFreed (due : List Due) (block : PoolBlock) : Prop := ∀ entry ∈ due, entry.access ≠ .free block

def NotAllocated (due : List Due) (block : PoolBlock) : Prop := ∀ entry ∈ due, entry.access ≠ .allocate block

theorem poolAfter_insert {due : List Due} {block : PoolBlock} (kept : NotFreed due block) (pool : Finset PoolBlock) :
    poolAfter due (insert block pool) = insert block (poolAfter due pool) := by
  induction due with
  | nil => rfl
  | cons entry rest ih =>
    have others := ih fun other member => kept other (List.mem_cons_of_mem _ member)
    have apart := kept entry (List.mem_cons_self ..)
    simp only [poolAfter, List.foldr_cons] at others ⊢
    rw [others]
    cases access : entry.access with
    | releaseLock => rfl
    | allocate other => exact Finset.insert_comm ..
    | free other =>
      have other : block ≠ other := by
        rintro rfl
        exact apart access
      exact Finset.erase_insert_of_ne other

theorem poolAfter_erase {due : List Due} {block : PoolBlock} (kept : NotAllocated due block) (pool : Finset PoolBlock) :
    poolAfter due (pool.erase block) = (poolAfter due pool).erase block := by
  induction due with
  | nil => rfl
  | cons entry rest ih =>
    have others := ih fun other member => kept other (List.mem_cons_of_mem _ member)
    have apart := kept entry (List.mem_cons_self ..)
    simp only [poolAfter, List.foldr_cons] at others ⊢
    rw [others]
    cases access : entry.access with
    | releaseLock => rfl
    | allocate other =>
      have other : block ≠ other := by
        rintro rfl
        exact apart access
      exact (Finset.erase_insert_of_ne other.symm).symm
    | free other => exact Finset.erase_right_comm

section Shared

variable (due : List Due) (sh : Shared)

@[simp] theorem Shared.settle_nil : sh.settle [] = sh := by
  simp only [settle, releasesDue, List.countP_nil, Nat.cast_zero, sub_zero]
  rfl

theorem Shared.settle_ioAcquireRemoveLock :
    sh.ioAcquireRemoveLock.settle due = (sh.settle due).ioAcquireRemoveLock := by
  simp only [settle, ioAcquireRemoveLock]
  congr 3
  omega

theorem Shared.settle_ioReleaseRemoveLock :
    sh.ioReleaseRemoveLock.settle due = (sh.settle due).ioReleaseRemoveLock := by
  simp only [settle, ioReleaseRemoveLock]
  congr 3
  omega

variable {due}

theorem Shared.settle_allocate {block : PoolBlock} (kept : NotFreed due block) :
    (sh.allocate block).settle due = (sh.settle due).allocate block := by
  simp only [settle, allocate, poolAfter_insert kept]

theorem Shared.settle_free {block : PoolBlock} (kept : NotAllocated due block) :
    (sh.free block).settle due = (sh.settle due).free block := by
  simp only [settle, free, poolAfter_erase kept]

theorem Shared.settle_deleteItem {addr : ℕ} (item : NotAllocated due (.item addr))
    (payload : NotAllocated due (.payload addr)) :
    (sh.deleteItem addr).settle due = (sh.settle due).deleteItem addr := by
  rw [deleteItem, deleteItem, settle_free _ item, settle_free _ payload]

theorem Shared.settle_cons (entry : Due) (due : List Due) :
    sh.settle (entry :: due) = entry.access.make (sh.settle due) := by
  obtain ⟨thread, access⟩ := entry
  cases access with
  | releaseLock =>
    have count : (releasesDue (⟨thread, .releaseLock⟩ :: due) : ℤ) = releasesDue due + 1 := by simp [releasesDue]
    simp only [settle, count, Access.make, ioReleaseRemoveLock, ← sub_sub]
    rfl
  | allocate block =>
    simp only [settle, releasesDue, List.countP_cons, Access.make, allocate]
    rfl
  | free block =>
    simp only [settle, releasesDue, List.countP_cons, Access.make, free]
    rfl

theorem Shared.settle_append (due more : List Due) : sh.settle (due ++ more) = (sh.settle more).settle due := by
  induction due with
  | nil => rw [List.nil_append, settle_nil]
  | cons entry rest ih => rw [List.cons_append, settle_cons, settle_cons, ih]

end Shared

/-- The block that a step at this point allocates. -/
def Pc.allocated (i : ℕ) : Pc → Option PoolBlock
  | .newItem | .lazyNewItem => some (.item i)
  | .lazyNewPayload _ => some (.payload i)
  | .createScatter .. => some (.scatter i)
  | _ => none

/-- The step at this point drops the dispatch call's own reference to the scatter object. -/
def Pc.finishes : Pc → Bool
  | .finishScatter _ => true
  | _ => false

/-- What is due has no block of the queue to allocate, and leaves the blocks alone that the step of the call is
about. -/
structure Spares (due : List Due) (i : ℕ) (c : Call) : Prop where
  items : ∀ addr, NotAllocated due (.item addr) ∧ NotAllocated due (.payload addr)
  allocated : ∀ block, c.pc.allocated i = some block → NotFreed due block
  scatter : c.pc.finishes = true → NotAllocated due (.scatter i)

section Call

variable (due : List Due) (sh : Shared) (c : Call) (out : Outcome) (i : ℕ)

theorem qcacheRead_settle :
    qcacheRead (sh.settle due) c out = Prod.map (Shared.settle due) id (qcacheRead sh c out) := by
  unfold qcacheRead
  simp only [apply_ite (Prod.map _ _)]
  rfl

theorem qcacheWrite_settle : qcacheWrite (sh.settle due) c = Prod.map (Shared.settle due) id (qcacheWrite sh c) := by
  unfold qcacheWrite
  simp only [apply_ite (Prod.map _ _)]
  rfl

theorem qcacheDeviceControl_settle :
    qcacheDeviceControl (sh.settle due) c = Prod.map (Shared.settle due) id (qcacheDeviceControl sh c) := by
  unfold qcacheDeviceControl
  simp only [apply_ite (Prod.map _ _)]
  rfl

theorem dispatch_settle : dispatch (sh.settle due) c out = Prod.map (Shared.settle due) id (dispatch sh c out) := by
  unfold dispatch
  cases c.irp.stack.majorFunction with
  | read => exact qcacheRead_settle due sh c out
  | write => exact qcacheWrite_settle due sh c
  | deviceControl => exact qcacheDeviceControl_settle due sh c
  | internalDeviceControl => exact qcacheDeviceControl_settle due sh c
  | _ => rfl

theorem qcacheReadScan_settle :
    qcacheReadScan (sh.settle due) c = Prod.map (Shared.settle due) id (qcacheReadScan sh c) := by
  unfold qcacheReadScan
  dsimp only
  simp only [apply_ite (Prod.map _ _)]
  rfl

theorem qcacheReadSplit_settle (scatter : ScatteredIrp) (bitmap : Bitmap) (clearIndex clearBits splits : ℕ)
    (memory : Bool) : qcacheReadSplit (sh.settle due) c scatter bitmap clearIndex clearBits splits memory =
      Prod.map (Shared.settle due) id (qcacheReadSplit sh c scatter bitmap clearIndex clearBits splits memory) := by
  unfold qcacheReadSplit
  dsimp only
  split
  · split <;> rfl
  · rfl

variable {due i}

theorem scatterComplete_settle (kept : NotAllocated due (.scatter i)) (scatter : ScatteredIrp) :
    scatterComplete (sh.settle due) i c scatter = Prod.map (Shared.settle due) id (scatterComplete sh i c scatter) := by
  unfold scatterComplete
  dsimp only
  split
  · rw [← Shared.settle_ioReleaseRemoveLock, ← Shared.settle_free _ kept]
    rfl
  · rfl

theorem callStep_settle (spares : Spares due i c) :
    callStep (sh.settle due) i c out = (callStep sh i c out).map (Prod.map (Shared.settle due) id) := by
  obtain ⟨items, allocated, scattered⟩ := spares
  have deletes := sh.settle_deleteItem (items i).1 (items i).2
  unfold callStep
  cases at_ : c.pc with
  | entry => simp only [dispatch_settle, Option.map_some]
  | queueIrp =>
    simp only [apply_ite (Option.map _)]
    rfl
  | testMemory =>
    simp only [apply_ite (Option.map _)]
    rfl
  | testSize =>
    simp only [apply_ite (Option.map _)]
    rfl
  | testItems =>
    simp only [apply_ite (Option.map _)]
    rfl
  | newItem =>
    have makes := sh.settle_allocate (allocated (.item i) (by rw [at_]; rfl))
    simp only [← makes, apply_ite (Option.map _)]
    rfl
  | lazyNewItem =>
    have makes := sh.settle_allocate (allocated (.item i) (by rw [at_]; rfl))
    simp only [← makes, apply_ite (Option.map _)]
    rfl
  | lazyMapMdl =>
    simp only [apply_ite (Option.map _)]
    rfl
  | lazyNewPayload =>
    have makes := sh.settle_allocate (allocated (.payload i) (by rw [at_]; rfl))
    simp only [← makes, ← deletes, apply_ite (Option.map _)]
    rfl
  | acquireLock =>
    simp only [← Shared.settle_ioAcquireRemoveLock, ← deletes, apply_ite (Option.map _)]
    rfl
  | lazyAcquireLock =>
    simp only [← Shared.settle_ioAcquireRemoveLock, ← deletes, apply_ite (Option.map _)]
    rfl
  | scanQueue => simp only [qcacheReadScan_settle, Option.map_some]
  | createScatter =>
    have makes := sh.ioAcquireRemoveLock.settle_allocate (allocated (.scatter i) (by rw [at_]; rfl))
    simp only [← Shared.settle_ioAcquireRemoveLock, ← Shared.settle_ioReleaseRemoveLock, ← makes,
      apply_ite (Option.map _)]
    rfl
  | split bitmap clearIndex clearBits splits =>
    simp only [qcacheReadSplit_settle, Option.map_map]
    rfl
  | finishScatter splits =>
    simp only [Option.map_map]
    refine Option.map_congr fun scatter _ => ?_
    rw [Function.comp_apply, ← scatterComplete_settle _ _ (scattered (by rw [at_]; rfl))]
    rfl
  | _ => rfl

theorem transfer_settle (n : ℕ) (sec : ℤ) : QueueCache.transfer (sh.settle due) c n sec =
    (QueueCache.transfer sh c n sec).map (Prod.map (Shared.settle due) id) := by
  unfold QueueCache.transfer
  rw [Option.map_bind]
  congr 1
  funext lower
  simp only [Function.comp_apply, apply_ite (Option.map _)]
  rfl

theorem lowerComplete_settle (n : ℕ) (ioStatus : IoStatusBlock)
    (kept : c.lowerIrps ≠ [] → NotAllocated due (.scatter i)) :
    QueueCache.lowerComplete (sh.settle due) i c n ioStatus =
      (QueueCache.lowerComplete sh i c n ioStatus).map (Prod.map (Shared.settle due) id) := by
  unfold QueueCache.lowerComplete
  rw [Option.map_bind]
  refine Option.bind_congr fun lower present => ?_
  have some : c.lowerIrps ≠ [] := List.ne_nil_of_mem (List.mem_of_getElem? present)
  simp only [Function.comp_apply, apply_ite (Option.map _), Option.map_map, Option.map_some, Option.map_none]
  congr 2
  refine Option.map_congr fun live _ => ?_
  exact scatterComplete_settle sh { c with lowerIrps := c.lowerIrps.eraseIdx n } (kept some) _

end Call

/-- What is due does not stand in the way of the step. -/
def State.Clear (due : List Due) (s : State) : Action → Prop
  | .call i _ => ∀ c, s.calls[i]? = some c → Spares due i c
  | .lowerComplete i _ _ => ∀ c, s.calls[i]? = some c → c.lowerIrps ≠ [] → NotAllocated due (.scatter i)
  | .worker _ => ∀ addr, NotAllocated due (.item addr) ∧ NotAllocated due (.payload addr)
  | .remover => s.remover = .waitHolds → releasesDue due = 0
  | _ => True

section State

variable (due : List Due) (s : State)

theorem State.update_settle (i : ℕ) (result : Option (Shared × Call)) :
    (result.map (Prod.map (Shared.settle due) id)).map ((s.settle due).update i) =
      (result.map (s.update i)).map (State.settle due) := by
  simp only [Option.map_map]
  rfl

theorem State.dispatchItem_settle (item : WriteQueueItem) (memory : Bool) :
    (s.settle due).dispatchItem item memory = (s.dispatchItem item memory).map (State.settle due) := by
  unfold State.dispatchItem
  cases item.irp with
  | some i =>
    simp only [Option.map_map]
    refine Option.map_congr fun c _ => ?_
    rw [Function.comp_apply, apply_ite (State.settle due)]
    rfl
  | none =>
    rw [apply_ite (Option.map _)]
    rfl

theorem State.completeItem_settle (item : WriteQueueItem) (ioStatus : IoStatusBlock) :
    (s.settle due).completeItem item ioStatus = (s.completeItem item ioStatus).map (State.settle due) := by
  unfold State.completeItem
  cases item.irp with
  | some i =>
    simp only [Option.map_map]
    rfl
  | none => rfl

variable {due}

theorem State.unlinkItem_settle (item : WriteQueueItem)
    (kept : ∀ addr, NotAllocated due (.item addr) ∧ NotAllocated due (.payload addr)) :
    (s.settle due).unlinkItem item = (s.unlinkItem item).settle due := by
  have deletes :=
    (s.shared.removeEntryList item).ioReleaseRemoveLock.settle_deleteItem (kept item.addr).1 (kept item.addr).2
  rw [Shared.settle_ioReleaseRemoveLock] at deletes
  unfold State.unlinkItem
  rw [State.settle, State.settle, deletes]
  rfl

theorem State.stepWorker_settle (memory : Bool)
    (kept : ∀ addr, NotAllocated due (.item addr) ∧ NotAllocated due (.payload addr)) :
    (s.settle due).stepWorker memory = (s.stepWorker memory).map (State.settle due) := by
  unfold State.stepWorker
  have worker : (s.settle due).worker = s.worker := rfl
  have queue : (s.settle due).shared.queue = s.shared.queue := rfl
  have item? (addr : ℕ) : (s.settle due).item? addr = s.item? addr := rfl
  rw [worker]
  cases s.worker with
  | look =>
    dsimp only
    rw [queue]
    cases s.shared.queue with
    | nil => rfl
    | cons item rest => rfl
  | wait =>
    simp only [apply_ite (Option.map _)]
    rfl
  | dispatch addr =>
    simp only [item?, Option.map_bind]
    congr 1
    funext item
    exact State.dispatchItem_settle due s item memory
  | complete addr ioStatus =>
    simp only [item?, Option.map_bind]
    congr 1
    funext item
    exact State.completeItem_settle due s item ioStatus
  | unlink addr =>
    simp only [item?, Option.map_map]
    exact Option.map_congr fun item _ => State.unlinkItem_settle s item kept
  | _ => rfl

/-- The remover's steps, but for the end of its wait while releases are due. -/
theorem State.stepRemover_settle (clear : s.remover = .waitHolds → releasesDue due = 0) :
    (s.settle due).stepRemover = s.stepRemover.map (State.settle due) := by
  unfold State.stepRemover
  have remover : (s.settle due).remover = s.remover := rfl
  have worker : (s.settle due).worker = s.worker := rfl
  have shared : (s.settle due).shared = s.shared.settle due := rfl
  rw [remover]
  cases at_ : s.remover with
  | idle =>
    simp only [apply_ite (Option.map _), shared, ← Shared.settle_ioAcquireRemoveLock]
    rfl
  | waitWorker =>
    dsimp only
    rw [worker]
    cases s.worker <;> rfl
  | releaseLock =>
    simp only [shared, ← Shared.settle_ioReleaseRemoveLock]
    rfl
  | waitHolds =>
    have same : (s.settle due).shared.extension.removeLock.ioCount = s.shared.extension.removeLock.ioCount := by
      simp only [State.settle, Shared.settle, clear at_, Nat.cast_zero, sub_zero]
    simp only [same, apply_ite (Option.map _)]
    rfl
  | _ => rfl

/-- A step can be taken before or after what is due, with the same outcome. -/
theorem State.step_settle {a : Action} (clear : s.Clear due a) :
    (s.settle due).step a = (s.step a).map (State.settle due) := by
  have shared : (s.settle due).shared = s.shared.settle due := rfl
  have calls : (s.settle due).calls = s.calls := rfl
  have worker : (s.settle due).worker = s.worker := rfl
  cases a with
  | receive irp =>
    simp only [State.step, apply_ite (Option.map _)]
    rfl
  | call i out =>
    simp only [State.step, calls, shared, Option.map_bind]
    refine Option.bind_congr fun c present => ?_
    rw [Function.comp_apply, callStep_settle _ _ _ (clear c present)]
    exact State.update_settle due s i _
  | transfer i n sec =>
    simp only [State.step, calls, shared, Option.map_bind]
    congr 1
    funext c
    rw [Function.comp_apply, transfer_settle]
    exact State.update_settle due s i _
  | lowerComplete i n ioStatus =>
    simp only [State.step, calls, shared, Option.map_bind]
    refine Option.bind_congr fun c present => ?_
    rw [Function.comp_apply, lowerComplete_settle _ _ _ _ (clear c present)]
    exact State.update_settle due s i _
  | worker memory => exact State.stepWorker_settle s memory clear
  | workerTransfer sec =>
    simp only [State.step, worker]
    cases s.worker with
    | lower request moved =>
      simp only [apply_ite (Option.map _)]
      rfl
    | _ => rfl
  | workerLowerComplete ioStatus =>
    simp only [State.step, worker]
    cases s.worker with
    | lower request moved =>
      simp only [apply_ite (Option.map _)]
      rfl
    | _ => rfl
  | remover => exact State.stepRemover_settle s clear
  | initializeDevice size =>
    simp only [State.step, apply_ite (Option.map _)]
    rfl

end State

section Start

variable (sh : Shared) (i : ℕ) (c : Call)

theorem Shared.settle_destructorDue : sh.settle (destructorDue i) = sh.ioReleaseRemoveLock.free (.scatter i) := by
  rw [destructorDue, settle_cons, settle_cons, settle_nil]
  rfl

theorem Shared.settle_unlinkDue (addr : ℕ) : sh.settle (unlinkDue addr) = sh.ioReleaseRemoveLock.deleteItem addr := by
  rw [unlinkDue, settle_cons, settle_cons, settle_cons, settle_nil]
  simp only [Access.make, free, ioReleaseRemoveLock, deleteItem]
  rw [Finset.erase_right_comm]

theorem scatterComplete_eq_start (scatter : ScatteredIrp) :
    scatterComplete sh i c scatter =
      ((scatterCompleteStart sh i c scatter).1.settle (scatterCompleteStart sh i c scatter).2.2,
        (scatterCompleteStart sh i c scatter).2.1) := by
  unfold scatterCompleteStart scatterComplete
  dsimp only
  split
  · simp only [Call.completeRequest, Option.isNone_none, if_true, Shared.settle_destructorDue]
  · simp only [Option.isNone_some, Bool.false_eq_true, if_false, Shared.settle_nil]

/-- A step of a call, and then what is due after it, is a step of the call. -/
theorem callStep_eq_start (out : Outcome) : callStep sh i c out =
    (callStart sh i c out).map fun result => (result.1.settle result.2.2, result.2.1) := by
  have still (moved : Option (Shared × Call)) :
      moved = (moved.map fun result => (result.1, result.2, ([] : List Due))).map
        fun result => (result.1.settle result.2.2, result.2.1) := by
    cases moved with
    | none => rfl
    | some result => simp only [Option.map_some, Shared.settle_nil]
  cases at_ : c.pc with
  | createScatter bitmap clearIndex clearBits =>
    simp only [callStep, callStart, at_, apply_ite (Option.map _), Option.map_some, Shared.settle_cons,
      Shared.settle_nil, Access.make]
  | finishScatter splits =>
    simp only [callStep, callStart, at_, Option.map_map]
    exact Option.map_congr fun scatter _ => scatterComplete_eq_start _ i (c.goto (.returned STATUS_PENDING)) scatter
  | _ =>
    simp only [callStart, at_]
    exact still _

/-- Past the completion routine only the destructor has accesses to make. -/
theorem LowerMove.settles {sh' : Shared} {i : ℕ} {c c' : Call} {n : ℕ} {ioStatus : IoStatusBlock}
    (moved : LowerMove sh i c (.lowerComplete i n ioStatus) sh' c') :
    sh.settle (if c.scatter.isSome && c'.scatter.isNone then destructorDue i else []) = sh' := by
  cases moved with
  | scattered _ _ live =>
    rw [live]
    exact (congrArg Prod.fst (scatterComplete_eq_start sh i _ _)).symm
  | skipped => cases c.scatter <;> exact sh.settle_nil

theorem lowerComplete_eq_start (n : ℕ) (ioStatus : IoStatusBlock) : lowerComplete sh i c n ioStatus =
    (lowerCompleteStart sh i c n ioStatus).map fun result => (result.1.settle result.2.2, result.2.1) := by
  rw [lowerCompleteStart, Option.map_map]
  cases moved : lowerComplete sh i c n ioStatus with
  | none => rfl
  | some result =>
    rw [Option.map_some, Function.comp_apply, (lowerComplete_cases moved).settles]

end Start

/-- A step, and then what is due after it, is a step of the device. -/
theorem State.step_eq_start (s : State) (a : Action) :
    s.step a = (s.start a).map fun result => result.1.settle result.2 := by
  have still (moved : Option State) :
      moved = (moved.map fun t => (t, [])).map fun result => result.1.settle result.2 := by
    cases moved with
    | none => rfl
    | some t => simp only [Option.map_some, State.settle, Shared.settle_nil]
  cases a with
  | call i out =>
    simp only [State.step, State.start, Option.map_bind, callStep_eq_start]
    congr 1
    funext c
    simp only [Function.comp_apply, Option.map_map]
    rfl
  | lowerComplete i n ioStatus =>
    simp only [State.step, State.start, Option.map_bind, lowerComplete_eq_start]
    congr 1
    funext c
    simp only [Function.comp_apply, Option.map_map]
    rfl
  | worker memory =>
    simp only [State.step, State.start]
    cases at_ : s.worker with
    | unlink addr =>
      simp only [State.stepWorker, at_, Option.map_map]
      refine Option.map_congr fun item _ => ?_
      rw [Function.comp_apply, State.settle, Shared.settle_unlinkDue]
      rfl
    | _ => exact still _
  | _ => exact still _

/-- A step of the dispatch call `i` up to its first access, by where it stops. -/
inductive CallStart (sh : Shared) (i : ℕ) (c : Call) (out : Outcome) : Shared → Call → List Due → Prop
  | whole {sh' : Shared} {c' : Call}
      (elsewhere : ∀ bitmap clearIndex clearBits, c.pc ≠ .createScatter bitmap clearIndex clearBits)
      (taken : CallStep sh i c out sh' c') : CallStart sh i c out sh' c' []
  | create {bitmap : Bitmap} {clearIndex clearBits : ℕ} (at_ : c.pc = .createScatter bitmap clearIndex clearBits) :
      CallStart sh i c out sh.ioAcquireRemoveLock
        ({ c with scatter := some ⟨1, STATUS_SUCCESS, 0⟩, pendingReturned := true }.goto
          (.split bitmap clearIndex clearBits 0))
        [⟨.dispatch i, .allocate (.scatter i)⟩]
  | noMemory {bitmap : Bitmap} {clearIndex clearBits : ℕ} (at_ : c.pc = .createScatter bitmap clearIndex clearBits) :
      CallStart sh i c out sh.ioAcquireRemoveLock (c.goto (.complete STATUS_INSUFFICIENT_RESOURCES))
        [⟨.dispatch i, .releaseLock⟩]
  | noLock {bitmap : Bitmap} {clearIndex clearBits : ℕ} (at_ : c.pc = .createScatter bitmap clearIndex clearBits) :
      CallStart sh i c out sh (c.goto (.complete STATUS_DELETE_PENDING)) []
  | finish {sh' : Shared} {splits : ℕ} {scatter : ScatteredIrp} (at_ : c.pc = .finishScatter splits) :
      CallStart sh i c out sh' (scatterCompleteStart sh' i (c.goto (.returned STATUS_PENDING)) scatter).2.1
        (scatterCompleteStart sh' i (c.goto (.returned STATUS_PENDING)) scatter).2.2

theorem callStart_cases {sh sh' : Shared} {i : ℕ} {c c' : Call} {out : Outcome} {more : List Due}
    (began : callStart sh i c out = some (sh', c', more)) : CallStart sh i c out sh' c' more := by
  cases at_ : c.pc with
  | createScatter bitmap clearIndex clearBits =>
    simp only [callStart, at_] at began
    split at began
    · split at began <;> cases began
      · exact .create at_
      · exact .noMemory at_
    · cases began
      exact .noLock at_
  | finishScatter splits =>
    simp only [callStart, at_] at began
    obtain ⟨scatter, -, same⟩ := Option.map_eq_some_iff.mp began
    cases same
    exact .finish at_
  | _ =>
    simp only [callStart, at_] at began
    obtain ⟨result, taken, same⟩ := Option.map_eq_some_iff.mp began
    cases same
    exact .whole (by simp [at_]) (callStep_cases taken)

/-- A thread with an access to make has stopped where the state of the device shows it. -/
inductive Due.Owed (s : State) : Due → Prop
  | release : Due.Owed s ⟨.worker, .releaseLock⟩
  | delete {addr : ℕ} {block : PoolBlock} (unlinked : addr ∈ s.shared.history.unlinked)
      (named : block = .item addr ∨ block = .payload addr) : Due.Owed s ⟨.worker, .free block⟩
  | make {i : ℕ} {c : Call} {bitmap : Bitmap} {clearIndex clearBits splits : ℕ} (present : s.calls[i]? = some c)
      (at_ : c.pc = .split bitmap clearIndex clearBits splits) (parts : c.lowerIrps = []) :
      Due.Owed s ⟨.dispatch i, .allocate (.scatter i)⟩
  | giveUp {i : ℕ} {c : Call} {status : NtStatus} (present : s.calls[i]? = some c) (at_ : c.pc = .complete status) :
      Due.Owed s ⟨.dispatch i, .releaseLock⟩
  | destroy {i : ℕ} {c : Call} {access : Access} (present : s.calls[i]? = some c)
      (completed : ∃ completion ∈ c.completions, completion.site = .scatter)
      (one : access = .releaseLock ∨ access = .free (.scatter i)) : Due.Owed s ⟨.destructor i, access⟩

/-- Items are unlinked for good. -/
theorem step_unlinked {s s' : State} {a : Action} (moved : s.step a = some s') :
    s.shared.history.unlinked ⊆ s'.shared.history.unlinked := by
  obtain ⟨taken, -⟩ | frame := step_service moved
  · cases taken with
    | unlink => exact List.subset_append_left _ _
    | _ => exact List.Subset.refl _
  · rw [frame.unlinked]
    exact List.Subset.refl _

/-- A call stays where it is unless its own thread moves, and has no part more in the lower driver. -/
theorem CallMove.waits {s s' : State} {a : Action} {i : ℕ} {c c' : Call} (move : CallMove s a s' i c')
    (present : s.calls[i]? = some c) (idle : ∀ out, a ≠ .call i out) :
    c'.pc = c.pc ∧ (c.lowerIrps = [] → c'.lowerIrps = []) := by
  cases move with
  | received _ fresh =>
    rw [fresh] at present
    contradiction
  | call action => exact absurd action (idle _)
  | lower _ there taken =>
    obtain rfl := Option.some.inj (present.symm.trans there)
    exact ⟨taken.pc, fun none => absurd none taken.present⟩
  | worker _ there _ new =>
    obtain rfl := Option.some.inj (present.symm.trans there)
    rw [new]
    exact ⟨rfl, id⟩
  | still _ there =>
    obtain rfl := Option.some.inj (present.symm.trans there)
    exact ⟨rfl, id⟩

/-- The steps of all other threads leave it there. -/
theorem Due.Owed.step {s s' : State} {a : Action} {entry : Due} (owed : entry.Owed s) (wf : Wf s)
    (idle : ∀ i out, entry.thread = .dispatch i → a ≠ .call i out) (moved : s.step a = some s') : entry.Owed s' := by
  cases owed with
  | release => exact .release
  | delete unlinked named => exact .delete (step_unlinked moved unlinked) named
  | @make i c _ _ _ _ present at_ parts =>
    obtain ⟨c', present'⟩ := call_stays present moved
    obtain ⟨pc, lowers⟩ := (wf.callMove moved present').waits present fun out => idle i out rfl
    exact .make present' (pc.trans at_) (lowers parts)
  | @giveUp i c _ present at_ =>
    obtain ⟨c', present'⟩ := call_stays present moved
    obtain ⟨pc, -⟩ := (wf.callMove moved present').waits present fun out => idle i out rfl
    exact .giveUp present' (pc.trans at_)
  | destroy present completed one =>
    obtain ⟨c', present'⟩ := call_stays present moved
    obtain ⟨completion, member, site⟩ := completed
    have kept := (wf.callMove moved present').completions present
    exact .destroy present' ⟨completion, kept.subset member, site⟩ one

/-- The pool and the holds do not show in it. -/
theorem owed_settle {s : State} {due : List Due} {entry : Due} : entry.Owed (s.settle due) ↔ entry.Owed s := by
  constructor <;> intro owed <;> cases owed with
  | release => exact .release
  | delete unlinked named => exact .delete unlinked named
  | make present at_ parts => exact .make present at_ parts
  | giveUp present at_ => exact .giveUp present at_
  | destroy present completed one => exact .destroy present completed one

theorem wf_settle {s : State} {due : List Due} : Wf (s.settle due) ↔ Wf s := by
  constructor <;> rintro ⟨calls, linked, recorded, nodup, unlinked, queue, worker⟩ <;>
    exact ⟨calls, linked, recorded, nodup, unlinked, queue, worker⟩

/-- An unlinked item was linked by the call it is named after. -/
theorem Wf.linked_of_unlinked {s : State} {addr : ℕ} (wf : Wf s) (unlinked : addr ∈ s.shared.history.unlinked) :
    ∃ c item, s.calls[addr]? = some c ∧ Linked item c := by
  rw [wf.unlinked] at unlinked
  obtain ⟨item, taken, rfl⟩ := List.mem_map.mp unlinked
  obtain ⟨c, present, linked⟩ := wf.linked item (List.mem_of_mem_take taken)
  exact ⟨c, item, present, linked⟩

section Owed

variable {s : State} {due : List Due} {entry other : Due} {block : PoolBlock} {i : ℕ} {c : Call}

/-- Only the memory of scatter objects can be due to be allocated. -/
theorem Due.Owed.allocates (owed : entry.Owed s) (access : entry.access = .allocate block) :
    ∃ i c bitmap clearIndex clearBits splits, block = .scatter i ∧ s.calls[i]? = some c ∧
      c.pc = .split bitmap clearIndex clearBits splits ∧ c.lowerIrps = [] := by
  cases owed with
  | @make i c bitmap clearIndex clearBits splits present at_ parts =>
    cases access
    exact ⟨i, c, bitmap, clearIndex, clearBits, splits, rfl, present, at_, parts⟩
  | destroy _ _ one => obtain rfl | rfl := one <;> contradiction
  | _ => contradiction

/-- A block that is due to be freed belongs to an item that is unlinked or to a request that is completed. -/
theorem Due.Owed.frees (wf : Wf s) (owed : entry.Owed s) (access : entry.access = .free block)
    (present : s.calls[block.addr]? = some c) :
    (∃ item, Linked item c) ∨
      block = .scatter block.addr ∧ ∃ completion ∈ c.completions, completion.site = .scatter := by
  cases owed with
  | @delete addr _ unlinked named =>
    left
    obtain ⟨d, item, there, linked⟩ := wf.linked_of_unlinked unlinked
    cases access
    obtain rfl | rfl := named
    all_goals
      obtain rfl : d = c := Option.some.inj (there.symm.trans present)
      exact ⟨item, linked⟩
  | destroy there completed one =>
    right
    obtain rfl | rfl := one <;> cases access
    obtain rfl := Option.some.inj (there.symm.trans present)
    exact ⟨rfl, completed⟩
  | _ => contradiction

/-- Nothing that a call before its insertion has completed nothing can be due to be freed. -/
theorem Due.Owed.not_free (wf : Wf s) (owed : entry.Owed s) (present : s.calls[block.addr]? = some c)
    (unlinked : ∀ item, ¬ Linked item c) (untouched : c.completions = []) : entry.access ≠ .free block := by
  intro access
  obtain ⟨item, linked⟩ | ⟨-, completion, member, -⟩ := owed.frees wf access present
  · exact unlinked item linked
  · simp [untouched] at member

/-- No block is due to be allocated and to be freed. -/
theorem Due.Owed.apart (wf : Wf s) (owed : entry.Owed s) (owed' : other.Owed s)
    (access : entry.access = .allocate block) : other.access ≠ .free block := by
  obtain ⟨i, c, bitmap, clearIndex, clearBits, splits, rfl, present, at_, -⟩ := owed.allocates access
  have scattered := (wf.calls i c present).atPc
  rw [Call.AtPc, at_] at scattered
  have untouched : c.completions = [] := by
    cases live : c.scatter with
    | none =>
      obtain ⟨-, own, -⟩ := scattered.gone live
      contradiction
    | some scatter => exact (scattered.alive scatter live).2.2
  exact owed'.not_free wf present (not_linked (by simp [at_])) untouched

theorem notAllocated_item (owed : ∀ entry ∈ due, entry.Owed s) (addr : ℕ) :
    NotAllocated due (.item addr) ∧ NotAllocated due (.payload addr) := by
  constructor <;> intro entry member access <;>
    obtain ⟨i, c, _, _, _, _, named, -⟩ := (owed entry member).allocates access <;> contradiction

theorem spares_of_owed (wf : Wf s) (owed : ∀ entry ∈ due, entry.Owed s) (present : s.calls[i]? = some c) :
    Spares due i c where
  items := notAllocated_item owed
  allocated block fresh entry member := by
    have here := (wf.calls i c present).atPc
    have own : block.addr = i ∧ (∀ item, ¬ Linked item c) ∧ c.completions = [] := by
      cases at_ : c.pc <;> rw [at_] at fresh <;> cases fresh <;> rw [Call.AtPc, at_] at here <;>
        exact ⟨rfl, not_linked (by simp [at_]), here.1.completions⟩
    obtain ⟨rfl, unlinked, untouched⟩ := own
    exact (owed entry member).not_free wf present unlinked untouched
  scatter finishes entry member access := by
    obtain ⟨j, d, _, _, _, _, named, there, at_, -⟩ := (owed entry member).allocates access
    cases named
    obtain rfl := Option.some.inj (there.symm.trans present)
    rw [at_] at finishes
    contradiction

/-- While no hold is hidden, no release is due when the last hold is gone. -/
theorem releasesDue_of_surplus (nonneg : 0 ≤ (s.settle due).surplus)
    (none : s.shared.extension.removeLock.ioCount = 0) : releasesDue due = 0 := by
  have held : (s.settle due).surplus ≤ s.shared.extension.removeLock.ioCount - releasesDue due :=
    (s.settle due).surplus_le
  omega

/-- What is due never stands in the way of a step that can be taken. -/
theorem clear_of_owed {s' : State} {a : Action} (wf : Wf s) (owed : ∀ entry ∈ due, entry.Owed s)
    (nonneg : 0 ≤ (s.settle due).surplus) (moved : s.step a = some s') : s.Clear due a := by
  cases a with
  | call i out => exact fun c present => spares_of_owed wf owed present
  | lowerComplete i n ioStatus =>
    intro c present parts entry member access
    obtain ⟨j, d, _, _, _, _, named, there, -, none⟩ := (owed entry member).allocates access
    cases named
    obtain rfl := Option.some.inj (there.symm.trans present)
    exact parts none
  | worker memory => exact notAllocated_item owed
  | remover =>
    intro at_
    cases stepRemover_cases moved with
    | holdsGone _ zero => exact releasesDue_of_surplus nonneg zero
    | advance there => simp [at_] at there
    | _ there => simp [at_] at there
  | _ => trivial

end Owed

section Start

variable {s s' : State} {i : ℕ} {c : Call} {more : List Due}

theorem owed_destructorDue (present : s.calls[i]? = some c)
    (completed : ∃ completion ∈ c.completions, completion.site = .scatter) :
    ∀ entry ∈ destructorDue i, entry.Owed s := by
  intro entry member
  simp only [destructorDue, List.mem_cons, List.not_mem_nil, or_false] at member
  obtain rfl | rfl := member
  · exact .destroy present completed (.inl rfl)
  · exact .destroy present completed (.inr rfl)

/-- The last reference is dropped past the completion of the request. -/
theorem scatterComplete_gone {sh : Shared} {scatter : ScatteredIrp}
    (gone : (scatterComplete sh i c scatter).2.scatter = none) :
    ∃ completion ∈ (scatterComplete sh i c scatter).2.completions, completion.site = .scatter := by
  unfold scatterComplete at gone ⊢
  dsimp only at gone ⊢
  split
  · exact ⟨_, List.mem_append_right _ (List.mem_singleton_self _), rfl⟩
  · next more =>
    rw [if_neg more] at gone
    contradiction

theorem owed_of_scatterCompleteStart {sh : Shared} {scatter : ScatteredIrp}
    (there : s.calls[i]? = some (scatterCompleteStart sh i c scatter).2.1) :
    ∀ entry ∈ (scatterCompleteStart sh i c scatter).2.2, entry.Owed s := by
  simp only [scatterCompleteStart] at there ⊢
  split
  · next gone => exact owed_destructorDue there (scatterComplete_gone (Option.isNone_iff_eq_none.mp gone))
  · simp

theorem owed_of_callStart {out : Outcome} (wf : Wf s) (present : s.calls[i]? = some c) {sh' : Shared} {c' : Call}
    (began : callStart s.shared i c out = some (sh', c', more)) (after : s' = s.update i (sh', c')) :
    ∀ entry ∈ more, entry.Owed s' := by
  have there : s'.calls[i]? = some c' := by
    rw [after, State.update_calls, List.getElem?_set_self (List.getElem?_eq_some_iff.mp present).1]
  cases callStart_cases began with
  | whole => simp
  | create at_ =>
    have here := (wf.calls i c present).atPc
    rw [Call.AtPc, at_] at here
    intro entry member
    obtain rfl := List.mem_singleton.mp member
    exact .make there rfl here.1.lowerIrps
  | noMemory =>
    intro entry member
    obtain rfl := List.mem_singleton.mp member
    exact .giveUp there rfl
  | noLock => simp
  | finish => exact owed_of_scatterCompleteStart there

theorem owed_of_lowerCompleteStart {n : ℕ} {ioStatus : IoStatusBlock} (present : s.calls[i]? = some c) {sh' : Shared}
    {c' : Call} (began : lowerCompleteStart s.shared i c n ioStatus = some (sh', c', more))
    (after : s' = s.update i (sh', c')) : ∀ entry ∈ more, entry.Owed s' := by
  have there : s'.calls[i]? = some c' := by
    rw [after, State.update_calls, List.getElem?_set_self (List.getElem?_eq_some_iff.mp present).1]
  obtain ⟨⟨sh, d⟩, taken, same⟩ := Option.map_eq_some_iff.mp began
  cases same
  split
  · next gone =>
    rw [Bool.and_eq_true, Option.isSome_iff_exists, Option.isNone_iff_eq_none] at gone
    obtain ⟨⟨scatter, live⟩, gone⟩ := gone
    cases lowerComplete_cases taken with
    | scattered => exact owed_destructorDue there (scatterComplete_gone gone)
    | skipped =>
      rw [live] at gone
      contradiction
  · simp

/-- What a step leaves due is owed. -/
theorem owed_of_start {a : Action} (wf : Wf s) (began : s.start a = some (s', more)) :
    ∀ entry ∈ more, entry.Owed s' := by
  have plain (moved : Option State) (began : moved.map (fun t => (t, ([] : List Due))) = some (s', more)) :
      ∀ entry ∈ more, entry.Owed s' := by
    obtain ⟨_, -, same⟩ := Option.map_eq_some_iff.mp began
    cases same
    simp
  cases a with
  | call i out =>
    obtain ⟨c, present, began⟩ := Option.bind_eq_some_iff.mp began
    obtain ⟨⟨sh', c', more⟩, taken, same⟩ := Option.map_eq_some_iff.mp began
    cases same
    exact owed_of_callStart wf present taken rfl
  | lowerComplete i n ioStatus =>
    obtain ⟨c, present, began⟩ := Option.bind_eq_some_iff.mp began
    obtain ⟨⟨sh', c', more⟩, taken, same⟩ := Option.map_eq_some_iff.mp began
    cases same
    exact owed_of_lowerCompleteStart present taken rfl
  | worker memory =>
    cases at_ : s.worker with
    | unlink addr =>
      simp only [State.start, at_] at began
      obtain ⟨item, -, same⟩ := Option.map_eq_some_iff.mp began
      cases same
      have unlinked : item.addr ∈ (s.shared.removeEntryList item).history.unlinked :=
        List.mem_append_right _ (List.mem_singleton_self _)
      simp only [unlinkDue, List.mem_cons, List.not_mem_nil, or_false]
      rintro entry (rfl | rfl | rfl)
      · exact .release
      · exact .delete unlinked (.inr rfl)
      · exact .delete unlinked (.inl rfl)
    | _ =>
      simp only [State.start, at_] at began
      exact plain _ began
  | _ => exact plain _ began

end Start

/-- An access that does not depend on those behind it can be made before them. -/
theorem Shared.settle_access (sh : Shared) (before after : List Due) {entry : Due}
    (allocates : ∀ block, entry.access = .allocate block → NotFreed after block)
    (frees : ∀ block, entry.access = .free block → NotAllocated after block) :
    (entry.access.make sh).settle (before ++ after) = sh.settle (before ++ entry :: after) := by
  rw [settle_append, settle_append, settle_cons]
  congr 1
  cases access : entry.access with
  | releaseLock => exact settle_ioReleaseRemoveLock after sh
  | allocate block => exact settle_allocate sh (allocates block access)
  | free block => exact settle_free sh (frees block access)

namespace FineState

/-- The device once everything that is due has been done. -/
def settled (f : FineState) : State := f.device.settle f.due

/-- What every reachable state with accesses due knows of them. -/
structure Ok (f : FineState) : Prop where
  wf : Wf f.device
  nonneg : 0 ≤ f.settled.surplus
  owed : ∀ entry ∈ f.due, entry.Owed f.device

theorem ok_initial (cfg : Config) : (initial cfg).Ok where
  wf := wf_initial cfg
  nonneg := le_rfl
  owed entry member := by simp [initial] at member

/-- The steps of the device that a step shows. -/
def shows (_ : FineState) : FineAction → List Action
  | .start a => [a]
  | .access _ => []

/-- The guard of a device, for its steps one access at a time. -/
def admits (ok : State → Action → Prop) (f : FineState) : FineAction → Prop
  | .start a => ok f.device a
  | .access _ => True

/-- Settled, a step is the step of the device that it begins, or none. -/
theorem Ok.step {f f' : FineState} {b : FineAction} (ok : f.Ok) (moved : f.step b = some f') :
    f'.Ok ∧ match b with
      | .start a => f.settled.step a = some f'.settled
      | .access _ => f'.settled = f.settled := by
  obtain ⟨wf, nonneg, owed⟩ := ok
  cases b with
  | start a =>
    simp only [FineState.step] at moved
    split at moved
    · contradiction
    · next idle =>
      obtain ⟨⟨s', more⟩, began, rfl⟩ := Option.map_eq_some_iff.mp moved
      have taken : f.device.step a = some (s'.settle more) := by rw [State.step_eq_start, began, Option.map_some]
      have settles : f.settled.step a = some (s'.settle (f.due ++ more)) := by
        rw [settled, State.step_settle f.device (clear_of_owed wf owed nonneg taken), taken, Option.map_some]
        simp only [State.settle, Shared.settle_append]
      refine ⟨⟨wf_settle.mp (wf.step taken), nonneg.trans ((wf_settle.mpr wf).surplus_step settles), ?_⟩, settles⟩
      intro entry member
      obtain old | new := List.mem_append.mp member
      · apply owed_settle.mp
        apply (owed entry old).step wf _ taken
        rintro i out own rfl
        exact idle (List.any_eq_true.mpr ⟨entry, old, by simpa using own⟩)
      · exact owed_of_start wf began entry new
  | access n =>
    obtain ⟨entry, there, moved⟩ := Option.bind_eq_some_iff.mp moved
    dsimp only at moved
    split at moved
    · contradiction
    · obtain rfl := Option.some.inj moved
      obtain ⟨inside, rfl⟩ := List.getElem?_eq_some_iff.mp there
      have here := owed _ (List.getElem_mem inside)
      have behind : ∀ other ∈ f.due.drop (n + 1), other.Owed f.device := fun other member =>
        owed other (List.mem_of_mem_drop member)
      have commutes :
          (f.due[n].access.make f.device.shared).settle (f.due.eraseIdx n) = f.device.shared.settle f.due := by
        rw [List.eraseIdx_eq_take_drop_succ, Shared.settle_access, List.cons_getElem_drop_succ, List.take_append_drop]
        · exact fun block access other member => here.apart wf (behind other member) access
        · exact fun block access other member allocates => (behind other member).apart wf here allocates access
      have same : (State.settle (f.due.eraseIdx n)
          { f.device with shared := f.due[n].access.make f.device.shared }) = f.device.settle f.due := by
        rw [State.settle, commutes]
        rfl
      refine ⟨⟨?_, nonneg.trans_eq (congrArg State.surplus same.symm), fun entry member => ?_⟩, same⟩
      · rw [← wf_settle, same]
        exact wf_settle.mpr wf
      · rw [← owed_settle, same, owed_settle]
        exact owed entry (List.mem_of_mem_eraseIdx member)

theorem ok_of_run {cfg : Config} {ok : FineState → FineAction → Prop} {bs : List FineAction} {f : FineState}
    (run : Run FineState.step ok (.initial cfg) bs f) : f.Ok :=
  run.preserves Ok (ok_initial cfg) fun _ _ _ holds _ moved => (holds.step moved).1

/-- Along the steps it shows, a run is a run of the device that settles every step at once. -/
theorem settled_run {cfg : Config} {ok : State → Action → Prop} {bs : List FineAction} {f : FineState}
    (keeps : ∀ due s a, ok s a → ok (s.settle due) a) (run : Run FineState.step (admits ok) (.initial cfg) bs f) :
    Run State.step ok (.initial cfg) (observed FineState.step shows (.initial cfg) bs) f.settled := by
  have simulates : Simulates FineState.step (admits ok) State.step ok shows fun f s => f.Ok ∧ s = f.settled := by
    rintro f b f' s ⟨holds, rfl⟩ admitted moved
    obtain ⟨holds', steps⟩ := holds.step moved
    refine ⟨f'.settled, ?_, holds', rfl⟩
    cases b with
    | start a => exact .single (keeps _ _ _ admitted) steps
    | access n =>
      dsimp only at steps
      rw [steps]
      exact .nil _
  have start : State.initial cfg = (initial cfg).settled := by
    simp only [settled, initial, State.settle, Shared.settle_nil]
  obtain ⟨s, above, -, rfl⟩ := run.simulated simulates ⟨ok_initial cfg, start⟩
  exact above

end FineState

end QueueCache