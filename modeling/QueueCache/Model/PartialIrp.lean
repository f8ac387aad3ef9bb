import QueueCache.Model.Call

/-! # Partial requests with and without direct I/O

`SCATTERED_IRP::BuildIrp` has three ways to give a lower request its part of the caller's buffer: a system
address, when the filter device does buffered I/O; a partial MDL, when the lower device does direct I/O; and,
when neither holds, a buffer of its own that is copied back when the last request is done. The object is
modelled here with all three, for one read and its gaps; the device's own reads use the second way only, and
their object in `Call` has no place for the buffer.
-/

namespace QueueCache.PartialIrp

/-- `DO_BUFFERED_IO` and `DO_DIRECT_IO` of a device object. -/
structure DeviceFlags where
  bufferedIo : Bool
  directIo : Bool
deriving DecidableEq, Repr

/-- `OriginalIrpOffset`, `BytesThisIrp` and `LowerDeviceOffset` of one call of `BuildIrp`. -/
structure Gap where
  originalIrpOffset : ℕ
  bytesThisIrp : ℕ
  lowerDeviceOffset : ℤ
deriving DecidableEq, Repr

/-- A request in the lower driver. It moves its bytes between the device and the same offset of the allocated
buffer or of the caller's; which field of the request carries the address does not matter. -/
structure LowerRequest where
  majorFunction : MajorFunction
  gap : Gap
  allocated : Bool
deriving DecidableEq, Repr

/-- A live `SCATTERED_IRP`: whether `SystemBuffer` is set, and what `AllocatedBuffer` holds. `operator new`
fills memory with zeros. -/
structure ScatteredIrp where
  scatterCount : ℤ := 1
  lastFailedStatus : NtStatus := STATUS_SUCCESS
  bytesCompleted : ℕ := 0
  systemBuffer : Bool
  allocatedBuffer : Option Bytes := none
  copyBack : Bool := false

/-- Which of the allocations of `BuildIrp` succeed: the request, its MDL, the mapping of the caller's buffer,
and the allocated buffer. -/
structure BuildOutcome where
  irp : Bool := true
  mdl : Bool := true
  mapping : Bool := true
  buffer : Bool := true
deriving DecidableEq, Repr

def ScatteredIrp.failed (scatter : ScatteredIrp) : ScatteredIrp :=
  { scatter with lastFailedStatus := STATUS_INSUFFICIENT_RESOURCES }

/-- `SCATTERED_IRP::BuildIrp` for a caller's buffer of `length` bytes: the object it leaves and the request. -/
def buildIrp (lower original : DeviceFlags) (majorFunction : MajorFunction) (caller : Bytes) (length : ℕ)
    (scatter : ScatteredIrp) (gap : Gap) (out : BuildOutcome) : ScatteredIrp × Option LowerRequest :=
  let built (scatter : ScatteredIrp) (allocated : Bool) : ScatteredIrp × Option LowerRequest :=
    ({ scatter with scatterCount := scatter.scatterCount + 1 }, some { majorFunction, gap, allocated })
  if lower.directIo && original.bufferedIo then
    if out.irp then built scatter false else (scatter.failed, none)
  else if !out.irp then (scatter.failed, none)
  else if lower.directIo then
    if out.mdl then built scatter false else (scatter.failed, none)
  else if scatter.systemBuffer then built scatter scatter.allocatedBuffer.isSome
  else if !out.mapping then (scatter.failed, none)
  else
    let scatter := { scatter with systemBuffer := true }
    if !out.buffer then (scatter.failed, none)
    else
      let allocatedBuffer := if majorFunction = .write then rtlCopyMemory (fun _ => 0) 0 caller 0 length else fun _ => 0
      built { scatter with
        allocatedBuffer := some allocatedBuffer
        copyBack := scatter.copyBack || majorFunction = .read } true

/-- A read on its way: the gaps that the splitting loop has still to build, whether the loop still holds its
reference, the caller's buffer, the object, the requests below, and how the read was completed. -/
structure State where
  length : ℕ
  gaps : List Gap
  looping : Bool := true
  buffer : Bytes
  scatter : Option ScatteredIrp
  lowerIrps : List LowerRequest := []
  completed : Option IoStatusBlock := none

/-- `SCATTERED_IRP::Create`, with the `SystemBuffer` it is given. -/
def State.initial (original : DeviceFlags) (length : ℕ) (gaps : List Gap) (buffer : Bytes) : State where
  length := length
  gaps := gaps
  buffer := buffer
  scatter := some { systemBuffer := original.bufferedIo }

/-- `SCATTERED_IRP::Complete` and, at the last reference, the destructor. -/
def complete (s : State) (scatter : ScatteredIrp) : State :=
  let scatterCount := scatter.scatterCount - 1
  if scatterCount = 0 then
    if ntSuccess scatter.lastFailedStatus then
      { s with
        buffer := if scatter.copyBack then
            rtlCopyMemory s.buffer 0 (scatter.allocatedBuffer.getD fun _ => 0) 0 scatter.bytesCompleted
          else s.buffer
        scatter := none
        completed := some ⟨scatter.lastFailedStatus, scatter.bytesCompleted⟩ }
    else { s with scatter := none, completed := some ⟨scatter.lastFailedStatus, 0⟩ }
  else { s with scatter := some { scatter with scatterCount } }

/-- What the lower device has moved for a read that it completes with `information` bytes. -/
def transfer (disk : Bytes) (gap : Gap) (information : ℕ) (target : Bytes) : Bytes :=
  rtlCopyMemory target gap.originalIrpOffset disk gap.lowerDeviceOffset information

/-- A step of the splitting loop, its final `Complete`, or the completion of a lower request. -/
inductive Action where
  | buildIrp (out : BuildOutcome)
  | finish
  | lowerComplete (n : ℕ) (ioStatus : IoStatusBlock)
deriving DecidableEq, Repr

def State.step (lower original : DeviceFlags) (disk : Bytes) (s : State) : Action → Option State
  | .buildIrp out =>
    match s.gaps with
    | [] => none
    | gap :: rest =>
      s.scatter.map fun scatter =>
        match buildIrp lower original .read s.buffer s.length scatter gap out with
        | (scatter, some request) =>
          { s with scatter := some scatter, gaps := rest, lowerIrps := s.lowerIrps ++ [request] }
        -- The loop breaks off.
        | (scatter, none) => { s with scatter := some scatter, gaps := [] }
  | .finish =>
    if s.looping && s.gaps.isEmpty then s.scatter.map fun scatter => complete { s with looping := false } scatter
    else none
  | .lowerComplete n ioStatus =>
    (s.lowerIrps[n]?).bind fun request =>
      s.scatter.map fun scatter =>
        let s := { s with lowerIrps := s.lowerIrps.eraseIdx n }
        if ntSuccess ioStatus.status then
          let scatter := { scatter with bytesCompleted := scatter.bytesCompleted + ioStatus.information }
          if request.allocated then
            complete s { scatter with
              allocatedBuffer := scatter.allocatedBuffer.map (transfer disk request.gap ioStatus.information) }
          else complete { s with buffer := transfer disk request.gap ioStatus.information s.buffer } scatter
        else complete s { scatter with lastFailedStatus := ioStatus.status }

end QueueCache.PartialIrp
