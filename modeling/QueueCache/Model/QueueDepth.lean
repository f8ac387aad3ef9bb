import QueueCache.Model.Irp

/-! # The queue depth of the SCSI filter

`ScsiChkReadWrite` and `ScsiChkScsi` count a request before they send it down, and `ScsiChkIoCompletion` takes it
off again, both with interlocked operations on `QueueDepth`. Whoever switches the counters on or off stores a zero,
whatever is below at that time. A completion that has made the depth negative adds one back. Each of these is a step
of its own here; `QueueDepth` is an integer, since there are never as many requests as a `LONG` can count.
-/

namespace QueueCache.ScsiChk.Depth

/-- The next step of a request: the test of `ScsiChkReadWrite` whether to count it, the increment, the completion's
decrement, the increment with which that is taken back. -/
inductive RequestPc
  | test
  | increment
  | lower
  | restore
  | returned
deriving DecidableEq, Repr

/-- A query for the performance data, or `DiskperfWmiFunctionControl` switching the collection on or off. -/
inductive ControlCode
  | diskPerformance
  | wmiEnable
  | wmiDisable
deriving DecidableEq, Repr

/-- The next step of a control: its interlocked operation on `EnabledAlways` or `CountersEnabled`, the increment of
`CountersEnabled` in the query, its store after the last disable, the store of zero in `QueueDepth`, the query's read
of `QueueDepth`. -/
inductive ControlPc
  | entry
  | incrementEnabled
  | clearEnabled
  | clearDepth
  | readDepth
  | returned
deriving DecidableEq, Repr

/-- A control with the `QueueDepth` of the `DISK_PERFORMANCE` that it fills. -/
structure Control where
  code : ControlCode
  pc : ControlPc := .entry
  queueDepth : Option (BitVec 32) := none
deriving DecidableEq, Repr

/-- The fields of the device extension, every request and every control. `CountersEnabled` is kept without
wrap-around as well: a query adds to it once, behind `EnabledAlways`, and WMI enables a collection for its first
consumer and disables it behind the last. -/
structure State where
  queueDepth : ℤ := 0
  countersEnabled : ℤ := 0
  enabledAlways : Bool := false
  requests : List RequestPc := []
  controls : List Control := []
deriving DecidableEq, Repr

/-- One step of a request; `counts` says that the device has a name and the processor has counters. -/
def requestStep (s : State) (counts : Bool) : RequestPc → Option (State × RequestPc)
  | .test => some (s, if s.countersEnabled ≤ 0 || !counts then .returned else .increment)
  | .increment => some ({ s with queueDepth := s.queueDepth + 1 }, .lower)
  | .lower => some ({ s with queueDepth := s.queueDepth - 1 }, if s.queueDepth - 1 < 0 then .restore else .returned)
  | .restore => some ({ s with queueDepth := s.queueDepth + 1 }, .returned)
  | .returned => none

/-- The interlocked operation that decides about the rest of the control. -/
def enterControl (s : State) : ControlCode → State × ControlPc
  | .diskPerformance => ({ s with enabledAlways := true }, if s.enabledAlways then .readDepth else .incrementEnabled)
  | .wmiEnable =>
    ({ s with countersEnabled := s.countersEnabled + 1 }, if s.countersEnabled + 1 = 1 then .clearDepth else .returned)
  | .wmiDisable =>
    ({ s with countersEnabled := s.countersEnabled - 1 },
      if s.countersEnabled - 1 ≤ 0 then .clearEnabled else .returned)

/-- One step of a control. -/
def controlStep (s : State) (c : Control) : Option (State × Control) :=
  match c.pc with
  | .entry => some ((enterControl s c.code).1, { c with pc := (enterControl s c.code).2 })
  | .incrementEnabled => some ({ s with countersEnabled := s.countersEnabled + 1 }, { c with pc := .clearDepth })
  | .clearEnabled => some ({ s with countersEnabled := 0 }, { c with pc := .clearDepth })
  | .clearDepth =>
    some ({ s with queueDepth := 0 }, { c with pc := if c.code = .diskPerformance then .readDepth else .returned })
  | .readDepth => some (s, { c with pc := .returned, queueDepth := some (BitVec.ofInt 32 s.queueDepth) })
  | .returned => none

inductive Action
  /-- A request arrives; `ScsiChkScsi` counts without a test. -/
  | request (scsi : Bool)
  | control (code : ControlCode)
  | requestStep (i : ℕ) (counts : Bool)
  | controlStep (i : ℕ)
deriving DecidableEq, Repr

def State.step (s : State) : Action → Option State
  | .request scsi => some { s with requests := s.requests ++ [if scsi then .increment else .test] }
  | .control code => some { s with controls := s.controls ++ [{ code }] }
  | .requestStep i counts =>
    (s.requests[i]?).bind fun pc =>
      (Depth.requestStep s counts pc).map fun next => { next.1 with requests := s.requests.set i next.2 }
  | .controlStep i =>
    (s.controls[i]?).bind fun c =>
      (Depth.controlStep s c).map fun next => { next.1 with controls := s.controls.set i next.2 }

end QueueCache.ScsiChk.Depth
