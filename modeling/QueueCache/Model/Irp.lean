import Mathlib.Data.BitVec
import QueueCache.Model.Memory

/-! # Requests and status codes

An `Irp` is a request as the driver receives it: its current stack location and the bytes behind its
MDL, neither of which the driver changes. Reads and writes share the layout of their parameters, as
they do in the kernel's union. What happens to a request while it is processed is kept by the
dispatch call that handles it.
-/

namespace QueueCache

abbrev NtStatus := BitVec 32

def STATUS_SUCCESS : NtStatus := 0x00000000#32
def STATUS_PENDING : NtStatus := 0x00000103#32
def STATUS_END_OF_MEDIA : NtStatus := 0x8000001E#32
def STATUS_INVALID_PARAMETER : NtStatus := 0xC000000D#32
def STATUS_BUFFER_TOO_SMALL : NtStatus := 0xC0000023#32
def STATUS_DELETE_PENDING : NtStatus := 0xC0000056#32
def STATUS_INSUFFICIENT_RESOURCES : NtStatus := 0xC000009A#32

/-- `NT_SUCCESS`: the code is non-negative as a signed value. -/
def ntSuccess (status : NtStatus) : Bool := !status.msb

structure IoStatusBlock where
  status : NtStatus
  information : ℕ
deriving DecidableEq, Repr

/-- The major functions the driver distinguishes; every other code is `other`. -/
inductive MajorFunction where
  | read
  | write
  | flushBuffers
  | shutdown
  | deviceControl
  | internalDeviceControl
  | fileSystemControl
  | other
deriving DecidableEq, Repr

def ctlCode (deviceType function method access : ℕ) : ℕ :=
  deviceType * 2 ^ 16 + access * 2 ^ 14 + function * 2 ^ 2 + method

/-- `ACCESS_FROM_CTL_CODE`: the two access bits of a control code. -/
def accessFromCtlCode (code : ℕ) : ℕ := code / 2 ^ 14 % 4

def IOCTL_QCACHE_GET_DEVICE_DATA : ℕ := ctlCode 0x8844 0xD01 0 0
def IOCTL_QCACHE_OFF : ℕ := ctlCode 0x8844 0xD02 0 3
def IOCTL_QCACHE_ON : ℕ := ctlCode 0x8844 0xD03 0 3
def IOCTL_QCACHE_FLUSH : ℕ := ctlCode 0x8844 0xD04 0 3

/-- `IRP_MN_SCSI_CLASS`. -/
def IRP_MN_SCSI_CLASS : ℕ := 1

/-- The current stack location. `byteOffset` is a signed 64-bit value and `length` an unsigned
32-bit one; `writeThrough` is the `SL_WRITE_THROUGH` flag. -/
structure IoStackLocation where
  majorFunction : MajorFunction
  minorFunction : ℕ := 0
  writeThrough : Bool := false
  byteOffset : ℤ := 0
  length : ℕ := 0
  ioControlCode : ℕ := 0
  outputBufferLength : ℕ := 0
  byteOffset_range : -2 ^ 63 ≤ byteOffset ∧ byteOffset < 2 ^ 63 := by decide
  length_lt : length < 2 ^ 32 := by decide
deriving DecidableEq, Repr

/-- A request: its parameters, the bytes its MDL describes and the `IoStatus.Information` it
arrives with. -/
structure Irp where
  stack : IoStackLocation
  data : Bytes := fun _ => 0
  information : ℕ := 0

/-- The `Length` bytes behind the MDL, nothing else. -/
def Irp.payload (irp : Irp) : Bytes := rtlCopyMemory (fun _ => 0) 0 irp.data 0 irp.stack.length

/-- `IOCTL_QCACHE_OFF` and `IOCTL_QCACHE_FLUSH` requests: markers the worker answers itself. -/
def IoStackLocation.isMarker (io : IoStackLocation) : Bool :=
  (io.majorFunction = .deviceControl || io.majorFunction = .internalDeviceControl ||
    io.majorFunction = .fileSystemControl) &&
  (io.ioControlCode = IOCTL_QCACHE_OFF || io.ioControlCode = IOCTL_QCACHE_FLUSH)

theorem Irp.payload_inside (irp : Irp) {x : ℤ} (low : 0 ≤ x) (high : x < irp.stack.length) :
    irp.payload x = irp.data x := by
  rw [payload, rtlCopyMemory, if_pos ⟨low, by omega⟩]
  congr 1
  omega

end QueueCache
