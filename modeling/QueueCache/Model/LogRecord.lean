import QueueCache.Model.LogFile
import QueueCache.Model.ScsiChk

/-! # The record of a SCSI request

`ScsiChkIoCompletion` allocates a record with room for the data of the request, fills it with zeros and stores in
it what it finds in the request and in its SRB. What the removal has written of these records is the log file.
-/

namespace QueueCache.ScsiLog

/-- A number in `width` bytes, the lowest one first. -/
def littleEndian : ℕ → ℕ → List UInt8
  | 0, _ => []
  | width + 1, value => value.toUInt8 :: littleEndian width (value / 256)

/-- The size of a member, for pointers of `pointer` bytes. -/
def Member.size (pointer : ℕ) : Member → ℕ
  | .next => pointer
  | .timeStamp => 8
  | .irql | .scsiStatus | .srbStatus | .senseBufferLength => 1
  | .ioStatus => pointer + pointer
  | .srbFunction | .systemStatus | .dataLength => 4
  | .cdb => 16
  | .senseData => 18

/-- A layout whose members are as wide as their types. -/
structure Layout.Sized (layout : Layout) (pointer : ℕ) : Prop where
  width (m : Member) : layout.width m = m.size pointer
  enough : 4 ≤ pointer

theorem layout32_sized : layout32.Sized 4 := ⟨by decide, by decide⟩

def SRB_FUNCTION_EXECUTE_SCSI : BitVec 32 := 0x00#32

/-- A SCSI request when its completion logs it. Addresses are numbers, with zero for `NULL`. The field of
`IoStatus` that holds the status has the size of a pointer; `mdlAddress` is the address of the request's MDL, if it
has one, in system space. -/
structure ScsiRequest where
  irql : BitVec 8
  timeStampComplete : BitVec 64
  ioStatusPointer : ℕ
  ioStatusInformation : ℕ
  srbFunction : BitVec 32
  cdb : Fin 16 → UInt8
  scsiStatus : BitVec 8
  systemStatus : BitVec 32
  srbStatus : BitVec 8
  senseInfoBufferLength : BitVec 8
  senseInfoBuffer : ℕ → UInt8
  dataTransferLength : BitVec 32
  dataBuffer : ℕ
  systemBuffer : ℕ
  mdlAddress : Option ℕ
  memory : ℕ → UInt8
  mmIsAddressValid : ℕ → Bool

namespace ScsiRequest

/-- The local `data_buffer`, after the three attempts to find one. -/
def source (request : ScsiRequest) : ℕ :=
  let dataBuffer := request.dataBuffer
  let dataBuffer := if dataBuffer = 0 && request.systemBuffer ≠ 0 then request.systemBuffer else dataBuffer
  if dataBuffer = 0 then request.mdlAddress.getD 0 else dataBuffer

/-- `Data` of the record. -/
def data (request : ScsiRequest) : List UInt8 :=
  (List.range request.dataTransferLength.toNat).map fun i =>
    if request.source ≠ 0 && request.mmIsAddressValid request.source then request.memory (request.source + i) else 0

/-- The members of the record; `next` is the address of the record that was the first one before. -/
def member (pointer next : ℕ) (request : ScsiRequest) : Member → List UInt8
  | .next => littleEndian pointer next
  | .timeStamp => littleEndian 8 request.timeStampComplete.toNat
  | .irql => littleEndian 1 request.irql.toNat
  | .ioStatus => littleEndian pointer request.ioStatusPointer ++ littleEndian pointer request.ioStatusInformation
  | .srbFunction => littleEndian 4 request.srbFunction.toNat
  | .cdb => if request.srbFunction = SRB_FUNCTION_EXECUTE_SCSI then List.ofFn request.cdb else List.replicate 16 0
  | .scsiStatus => littleEndian 1 request.scsiStatus.toNat
  | .systemStatus => littleEndian 4 request.systemStatus.toNat
  | .srbStatus => littleEndian 1 request.srbStatus.toNat
  | .senseBufferLength => littleEndian 1 request.senseInfoBufferLength.toNat
  | .senseData =>
    (List.range 18).map fun i =>
      if i < min request.senseInfoBufferLength.toNat 18 then request.senseInfoBuffer i else 0
  | .dataLength => littleEndian 4 request.dataTransferLength.toNat

end ScsiRequest

theorem length_littleEndian (width value : ℕ) : (littleEndian width value).length = width := by
  induction width generalizing value with
  | zero => rfl
  | succ width ih => rw [littleEndian, List.length_cons, ih]

/-- The number comes back, as far as it fits. -/
theorem ulong_littleEndian (width value : ℕ) : ulong (littleEndian width value) = value % 256 ^ width := by
  induction width generalizing value with
  | zero => rw [pow_zero, Nat.mod_one]; rfl
  | succ width ih =>
    have split : value % 256 ^ (width + 1) = value % 256 + 256 * (value / 256 % 256 ^ width) := by
      rw [pow_succ', Nat.mod_mul]
    have low : value.toUInt8.toNat = value % 256 := by simp
    change value.toUInt8.toNat + 256 * ulong (littleEndian width (value / 256)) = _
    rw [ih, low, split]

theorem ScsiRequest.length_member (pointer next : ℕ) (request : ScsiRequest) (m : Member) :
    (request.member pointer next m).length = m.size pointer := by
  cases m
  case ioStatus => exact (List.length_append ..).trans (congrArg₂ _ (length_littleEndian _ _) (length_littleEndian _ _))
  case cdb =>
    rw [ScsiRequest.member]
    split
    · exact List.length_ofFn
    · exact List.length_replicate
  case senseData => exact (List.length_map _).trans List.length_range
  all_goals exact length_littleEndian _ _

/-- The record that `ScsiChkIoCompletion` links for the request. -/
def ScsiRequest.logData {layout : Layout} {pointer : ℕ} (sized : layout.Sized pointer) (next : ℕ)
    (request : ScsiRequest) : LogData layout where
  member := request.member pointer next
  data := request.data
  length_member m := (request.length_member pointer next m).trans (sized.width m).symm
  dataLength := by
    rw [ScsiRequest.data, List.length_map, List.length_range]
    exact (ulong_littleEndian 4 _).trans (Nat.mod_eq_of_lt request.dataTransferLength.isLt)

end QueueCache.ScsiLog

namespace QueueCache.ScsiChk

end QueueCache.ScsiChk
