import QueueCache.Model.Irp

/-! # Removal of the SCSI filter

A completion of the SCSI filter links its record into `LogData` under `LogLock` and counts the request in the
`DiskCounters` of its processor. `ScsiChkRemoveDevice` takes the records off the list without that lock, frees the
counters, and only then waits for the requests that hold the remove lock. Every access to what the two share is a
step of its own here. A record is named by the request that it logs. A pointer to a record is the list of the
records from there on: `Next` is written once, before the record is linked.
-/

namespace QueueCache.ScsiChk

/-- The major functions with which a request gets `ScsiChkIoCompletion` as its completion routine. -/
inductive MajorFunction
  | read
  | write
  | scsi
deriving DecidableEq, Repr

/-- The next step of `ScsiChkIoCompletion`: it has not begun, the counters of its processor have been found, the
record is to be linked, `SplitCount` is to be updated, the remove lock is to be released, it has returned. -/
inductive Completion
  | lower
  | update
  | link
  | split
  | release
  | returned
deriving DecidableEq, Repr

/-- A request that holds the remove lock until its completion returns; `associated` is `IRP_ASSOCIATED_IRP`. -/
structure Request where
  majorFunction : MajorFunction
  associated : Bool
  completion : Completion := .lower
deriving DecidableEq, Repr

abbrev PLogData := List ℕ

/-- The next step of `ScsiChkRemoveDevice`, with its local variables. Inside the loop `logdata` and `next` are the
record and its `Next`. -/
inductive Removal
  | idle
  | create
  | read (status : NtStatus)
  | write (status : NtStatus) (logdata : ℕ) (next : PLogData)
  | store (status : NtStatus) (logdata : ℕ) (next : PLogData)
  | free (status : NtStatus) (logdata : ℕ) (next : PLogData)
  | close
  | freeCounters
  | release
  | wait
  | detach
  | deleted
deriving DecidableEq, Repr

/-- The device extension, the requests and the removal. `linked`, `written` and `freed` list the records to which
that has happened, `usesAfterFree` the requests that have updated counters that were no longer there. -/
structure State where
  processors : ℕ
  diskCounters : Bool
  countersFreed : Bool := false
  removed : Bool := false
  logData : PLogData := []
  requests : List Request := []
  removal : Removal := .idle
  linked : List ℕ := []
  written : List ℕ := []
  freed : List ℕ := []
  usesAfterFree : List ℕ := []
deriving DecidableEq, Repr

/-- `ScsiChkAddDevice`, whether or not it could allocate the counters. -/
def State.initial (processors : ℕ) (diskCounters : Bool) : State where
  processors := processors
  diskCounters := diskCounters

/-- An update of `partitionCounters`. -/
def State.count (s : State) (i : ℕ) : State :=
  if s.countersFreed then { s with usesAfterFree := s.usesAfterFree ++ [i] } else s

def State.goto (s : State) (i : ℕ) (r : Request) (completion : Completion) : State :=
  { s with requests := s.requests.set i { r with completion } }

/-- A step of `ScsiChkIoCompletion` for request `i`, on some processor. -/
def State.complete (s : State) (i : ℕ) (r : Request) (processor : ℕ) : Option State :=
  match r.completion with
  | .lower => some (s.goto i r (if s.diskCounters && processor < s.processors then .update else .release))
  | .update =>
    match r.majorFunction with
    | .scsi => some (s.goto i r .link)
    | .read | .write => some ((s.count i).goto i r .split)
  | .link => some ({ s with logData := i :: s.logData, linked := s.linked ++ [i] }.goto i r .split)
  | .split => some ((if r.associated then s.count i else s).goto i r .release)
  | .release => some (s.goto i r .returned)
  | .returned => none

/-- A step of `ScsiChkRemoveDevice`; `status` is what the call of the step returns. -/
def State.remove (s : State) (status : NtStatus) : Option State :=
  match s.removal with
  | .idle => some { s with removal := .create }
  | .create => some { s with removal := .read status }
  | .read status =>
    match s.logData with
    | [] => some { s with removal := .close }
    | logdata :: next => some { s with removal := .write status logdata next }
  | .write created logdata next =>
    if ntSuccess created then
      some { s with
        written := if ntSuccess status then s.written ++ [logdata] else s.written
        removal := .store status logdata next }
    else some { s with removal := .store created logdata next }
  | .store status logdata next => some { s with logData := next, removal := .free status logdata next }
  | .free status logdata _ => some { s with freed := s.freed ++ [logdata], removal := .read status }
  | .close => some { s with removal := .freeCounters }
  -- The pointer stays as it is.
  | .freeCounters => some { s with countersFreed := s.diskCounters, removal := .release }
  | .release => some { s with removed := true, removal := .wait }
  | .wait => if s.requests.all (·.completion = .returned) then some { s with removal := .detach } else none
  | .detach => some { s with removal := .deleted }
  | .deleted => none

/-- A request is sent down with the remove lock held, a completion takes its next step, or the removal does. -/
inductive Action
  | dispatch (majorFunction : MajorFunction) (associated : Bool)
  | complete (i processor : ℕ)
  | remove (status : NtStatus)
deriving DecidableEq, Repr

def State.step (s : State) : Action → Option State
  | .dispatch majorFunction associated =>
    if s.removed then none else some { s with requests := s.requests ++ [{ majorFunction, associated }] }
  | .complete i processor => (s.requests[i]?).bind fun r => s.complete i r processor
  | .remove status => s.remove status

end QueueCache.ScsiChk
