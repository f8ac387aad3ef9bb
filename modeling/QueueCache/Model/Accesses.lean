import QueueCache.Model.Device

/-! # The device, one access at a time

A step of `State` ends where the next access can be seen by another party, with three exceptions: an item is unlinked,
its hold released and its memory freed at once, a scatter object ends its request, its hold and itself at once, and
`SCATTERED_IRP::Create` asks for its hold and for its memory at once. Nobody but a removal that waits reads the number
of holds, and nobody reads the pool; whoever counts them needs the states in between. A `FineState` has these: a step
stops after its first access, and the accesses its thread has yet to make are due, in their order, between the steps
of all other threads. An exit that deletes its item still completes its request in the same step, and changes no hold.
-/

namespace QueueCache

/-- An access to the remove lock or to the pool. -/
inductive Access where
  | releaseLock
  | allocate (block : PoolBlock)
  | free (block : PoolBlock)
deriving DecidableEq, Repr

/-- The threads that can stop between two accesses: the worker, a dispatch call, and whichever thread runs the
destructor of the scatter object of a call. -/
inductive Thread where
  | worker
  | dispatch (i : ℕ)
  | destructor (i : ℕ)
deriving DecidableEq, Repr

/-- An access that a thread has yet to make before its next step. -/
structure Due where
  thread : Thread
  access : Access
deriving DecidableEq, Repr

def Access.make (sh : Shared) : Access → Shared
  | .releaseLock => sh.ioReleaseRemoveLock
  | .allocate block => sh.allocate block
  | .free block => sh.free block

/-- `~SCATTERED_IRP` past `IoCompleteRequest`: the lock is released before the object's memory is freed. -/
def destructorDue (i : ℕ) : List Due :=
  [⟨.destructor i, .releaseLock⟩, ⟨.destructor i, .free (.scatter i)⟩]

/-- The end of `QCacheDispatchQueuedItem` past the lock section: the item's destructor deletes its payload first. -/
def unlinkDue (addr : ℕ) : List Due :=
  [⟨.worker, .releaseLock⟩, ⟨.worker, .free (.payload addr)⟩, ⟨.worker, .free (.item addr)⟩]

/-- `SCATTERED_IRP::Complete` up to the end of `IoCompleteRequest`. -/
def scatterCompleteStart (sh : Shared) (i : ℕ) (c : Call) (scatter : ScatteredIrp) : Shared × Call × List Due :=
  let c := (scatterComplete sh i c scatter).2
  (sh, c, if c.scatter.isNone then destructorDue i else [])

/-- A step of the dispatch call `i` up to its first access. -/
def callStart (sh : Shared) (i : ℕ) (c : Call) (out : Outcome) : Option (Shared × Call × List Due) :=
  match c.pc with
  | .createScatter bitmap clearIndex clearBits =>
    -- `SCATTERED_IRP::Create` allocates, or fails to and releases, with the lock held.
    if sh.canAcquire out.lock then
      if out.memory then
        some (sh.ioAcquireRemoveLock,
          { c with scatter := some ⟨1, STATUS_SUCCESS, 0⟩, pendingReturned := true }.goto
            (.split bitmap clearIndex clearBits 0),
          [⟨.dispatch i, .allocate (.scatter i)⟩])
      else some (sh.ioAcquireRemoveLock, c.goto (.complete STATUS_INSUFFICIENT_RESOURCES),
        [⟨.dispatch i, .releaseLock⟩])
    else some (sh, c.goto (.complete STATUS_DELETE_PENDING), [])
  | .finishScatter splits =>
    c.scatter.map fun scatter =>
      let sh := sh.withStatistics { sh.statistics with
        splitReads := if splits > 1 then sh.statistics.splitReads + splits else sh.statistics.splitReads }
      scatterCompleteStart sh i (c.goto (.returned STATUS_PENDING)) scatter
  | _ => (callStep sh i c out).map fun result => (result.1, result.2, [])

/-- The lower driver completes the `n`-th request of this call. Before the destructor runs, the completion routine
touches nothing but the scatter object. -/
def lowerCompleteStart (sh : Shared) (i : ℕ) (c : Call) (n : ℕ) (ioStatus : IoStatusBlock) :
    Option (Shared × Call × List Due) :=
  (lowerComplete sh i c n ioStatus).map fun result =>
    (sh, result.2, if c.scatter.isSome && result.2.scatter.isNone then destructorDue i else [])

/-- A step of the device up to its first access, and what is due after it. -/
def State.start (s : State) : Action → Option (State × List Due)
  | .call i out => s.calls[i]?.bind fun c =>
      (callStart s.shared i c out).map fun result => (s.update i (result.1, result.2.1), result.2.2)
  | .lowerComplete i n ioStatus => s.calls[i]?.bind fun c =>
      (lowerCompleteStart s.shared i c n ioStatus).map fun result =>
        (s.update i (result.1, result.2.1), result.2.2)
  | .worker memory =>
    match s.worker with
    | .unlink addr => (s.item? addr).map fun item =>
        ({ s with worker := .look, shared := s.shared.removeEntryList item }, unlinkDue item.addr)
    | _ => (s.stepWorker memory).map fun s => (s, [])
  | a => (s.step a).map fun s => (s, [])

/-- The device and the accesses that are due. -/
structure FineState where
  device : State
  due : List Due := []

inductive FineAction where
  /-- A party begins its next step. -/
  | start (a : Action)
  /-- The `n`-th access that is due is made. -/
  | access (n : ℕ)

namespace FineState

def initial (cfg : Config) : FineState where
  device := .initial cfg

/-- The thread that would take the step has accesses to make first. -/
def stops (f : FineState) : Action → Bool
  | .call i _ => f.due.any fun due => due.thread = .dispatch i
  | .worker _ => f.due.any fun due => due.thread = .worker
  | _ => false

/-- The step function of the device, one access at a time. -/
def step (f : FineState) : FineAction → Option FineState
  | .start a =>
    if f.stops a then none
    else (f.device.start a).map fun result => ⟨result.1, f.due ++ result.2⟩
  | .access n => f.due[n]?.bind fun due =>
    -- A thread makes its accesses in order.
    if (f.due.take n).any fun earlier => earlier.thread = due.thread then none
    else some ⟨{ f.device with shared := due.access.make f.device.shared }, f.due.eraseIdx n⟩

end FineState

end QueueCache
