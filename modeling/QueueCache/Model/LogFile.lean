import Mathlib.Data.Fintype.Defs
import QueueCache.ToMathlib.PartialReads
import QueueCache.Model.Irp

/-! # The log of the SCSI filter

`ScsiChkRemoveDevice` writes each record as the bytes of its `LOGDATA`, from the first member to the end of the
data. `ShowFileInfo` maps such a file and walks it with a pointer. The two programs are compiled separately, and
where the members lie is up to the compiler, so the layout of the structure is a parameter. The reader checks
its pointer against `sizeof (LOGDATA)`, which is more than the offset of `Data`, and takes `DataLength` as it is.
-/

namespace QueueCache.ScsiLog

open PartialReads

/-- The members of `LOGDATA` before `Data`. -/
inductive Member
  | next
  | timeStamp
  | irql
  | ioStatus
  | srbFunction
  | cdb
  | scsiStatus
  | systemStatus
  | srbStatus
  | senseBufferLength
  | senseData
  | dataLength
deriving DecidableEq, Repr

def Member.all : List Member :=
  [.next, .timeStamp, .irql, .ioStatus, .srbFunction, .cdb, .scsiStatus, .systemStatus, .srbStatus, .senseBufferLength,
    .senseData, .dataLength]

theorem Member.mem_all (m : Member) : m ∈ Member.all := by cases m <;> decide

instance : Fintype Member := ⟨⟨Member.all, by decide⟩, Member.mem_all⟩

/-- Where a compiler puts the members, `FIELD_OFFSET (LOGDATA, Data)` and `sizeof (LOGDATA)`. -/
structure Layout where
  offset : Member → ℕ
  width : Member → ℕ
  dataOffset : ℕ
  size : ℕ
  inside (m : Member) : offset m + width m ≤ dataOffset
  apart (m n : Member) : m ≠ n → offset m + width m ≤ offset n ∨ offset n + width n ≤ offset m
  dataOffset_lt : dataOffset < size
  size_le : size ≤ 2 * dataOffset

def layout64 : Layout where
  offset
    | .next => 0
    | .timeStamp => 8
    | .irql => 16
    | .ioStatus => 24
    | .srbFunction => 40
    | .cdb => 44
    | .scsiStatus => 60
    | .systemStatus => 64
    | .srbStatus => 68
    | .senseBufferLength => 69
    | .senseData => 70
    | .dataLength => 88
  width
    | .next | .timeStamp => 8
    | .ioStatus | .cdb => 16
    | .irql | .scsiStatus | .srbStatus | .senseBufferLength => 1
    | .srbFunction | .systemStatus | .dataLength => 4
    | .senseData => 18
  dataOffset := 92
  size := 96
  inside := by decide
  apart := by decide
  dataOffset_lt := by decide
  size_le := by decide

def layout32 : Layout where
  offset
    | .next => 0
    | .timeStamp => 8
    | .irql => 16
    | .ioStatus => 20
    | .srbFunction => 28
    | .cdb => 32
    | .scsiStatus => 48
    | .systemStatus => 52
    | .srbStatus => 56
    | .senseBufferLength => 57
    | .senseData => 58
    | .dataLength => 76
  width
    | .timeStamp | .ioStatus => 8
    | .cdb => 16
    | .irql | .scsiStatus | .srbStatus | .senseBufferLength => 1
    | .next | .srbFunction | .systemStatus | .dataLength => 4
    | .senseData => 18
  dataOffset := 80
  size := 88
  inside := by decide
  apart := by decide
  dataOffset_lt := by decide
  size_le := by decide

/-- The value of a `ULONG` from its bytes. -/
def ulong (bytes : List UInt8) : ℕ := bytes.foldr (fun byte value => byte.toNat + 256 * value) 0

/-- A record in memory: the bytes of each member, and as much data as `DataLength` says. -/
structure LogData (layout : Layout) where
  member : Member → List UInt8
  data : List UInt8
  length_member (m : Member) : (member m).length = layout.width m
  dataLength : ulong (member .dataLength) = data.length

variable {layout : Layout}

/-- A byte of the block before `Data`. `ScsiChkIoCompletion` zeroes the block, so the padding is zero. -/
def LogData.headerByte (logdata : LogData layout) (i : ℕ) : UInt8 :=
  ((Member.all.find? fun m => layout.offset m ≤ i ∧ i < layout.offset m + layout.width m).map fun m =>
    (logdata.member m).getD (i - layout.offset m) 0).getD 0

/-- The allocated block. -/
def LogData.block (logdata : LogData layout) : List UInt8 :=
  (List.range layout.dataOffset).map logdata.headerByte ++ logdata.data

/-- The file after the loop of `ScsiChkRemoveDevice`, for a list of records with what `ZwWriteFile` returns for
each; `status` is that of the file's creation and then of the last write. -/
def writeLog (status : NtStatus) : List (LogData layout × NtStatus) → List UInt8
  | [] => []
  | (logdata, zwWriteFile) :: rest =>
    if ntSuccess status then
      let length := (layout.dataOffset + ulong (logdata.member .dataLength)) % 2 ^ 32
      (if ntSuccess zwWriteFile then logdata.block.take length else []) ++ writeLog zwWriteFile rest
    else writeLog status rest

/-- What ends the walk early: an access outside the view, or an exception because the trimmed data is longer
than an array or its `BitConverter::ToString` can be. -/
inductive Stop
  | outside
  | tooLong
deriving DecidableEq, Repr

/-- A log file mapped at `ptr`, in a process with pointers of `pointerBits` bits; `longest` is how much data the
runtime can convert. The view lies in user space: there is room below it and above it. -/
structure View (layout : Layout) where
  pointerBits : ℕ
  ptr : ℕ
  bytes : List UInt8
  longest : ℕ
  below : layout.size ≤ ptr
  above : ptr + bytes.length + longest < 2 ^ pointerBits

/-- Pointer arithmetic. -/
def View.add (v : View layout) (pointer offset : ℕ) : ℕ := (pointer + offset) % 2 ^ v.pointerBits

def View.load (v : View layout) (address : ℕ) : Except Stop UInt8 :=
  if v.ptr ≤ address then (v.bytes[address - v.ptr]?).elim (.error .outside) .ok else .error .outside

/-- The memory behind a pointer. -/
def View.from (v : View layout) (pointer : ℕ) : ℕ → Except Stop UInt8 := fun i => v.load (v.add pointer i)

/-- One round of the reader's loop: the record's address and header, and the bytes it has printed. -/
structure Visit (layout : Layout) where
  logdata : ℕ
  header : List UInt8
  rawCdb : Option (List UInt8) := none
  data : Option (List UInt8) := none
deriving DecidableEq, Repr

def Visit.member (visit : Visit layout) (m : Member) : List UInt8 :=
  (visit.header.drop (layout.offset m)).take (layout.width m)

def Visit.dataLength (visit : Visit layout) : ℕ := ulong (visit.member .dataLength)

/-- "Raw CDB bytes": without the trailing zeros and, as the code has it, without the first byte. -/
def View.readCdb (v : View layout) (visit : Visit layout) : Except Stop (Option (List UInt8)) :=
  if ulong (visit.member .srbFunction) = 0 then do
    let cdb := v.add visit.logdata (layout.offset .cdb)
    let length ← trimEnd (· = 0) (v.from cdb) (layout.width .cdb)
    if 1 ≤ length then
      let data ← copy (v.from (v.add cdb 1)) (length - 1)
      .ok (some data)
    else .ok none
  else .ok none

/-- The data, without its trailing zeros. -/
def View.readData (v : View layout) (visit : Visit layout) : Except Stop (Option (List UInt8)) :=
  if 0 < visit.dataLength then do
    let data := v.add visit.logdata layout.dataOffset
    let length ← trimEnd (· = 0) (v.from data) visit.dataLength
    if v.longest < length then .error .tooLong
    else
      let data ← copy (v.from data) length
      .ok (some data)
  else .ok none

/-- The body of the loop. -/
def View.visit (v : View layout) (logdata : ℕ) : Except Stop (Visit layout) := do
  let header ← copy (v.from logdata) layout.dataOffset
  let visit : Visit layout := { logdata, header }
  let rawCdb ← v.readCdb visit
  let data ← v.readData visit
  .ok { visit with rawCdb, data }

/-- The loop's step: `FIELD_OFFSET (LOGDATA, Data) + logdata->DataLength`. -/
def View.next (v : View layout) (visit : Visit layout) : ℕ :=
  v.add (v.add visit.logdata layout.dataOffset) visit.dataLength

inductive Ending
  | finished
  | stopped (stop : Stop)
  | running
deriving DecidableEq, Repr

/-- At most `rounds` rounds of the loop of `ShowFileInfo`. -/
def View.walk (v : View layout) : ℕ → ℕ → List (Visit layout) × Ending
  | 0, _ => ([], .running)
  | rounds + 1, logdata =>
    if logdata ≤ v.ptr + v.bytes.length - layout.size then
      match v.visit logdata with
      | .error stop => ([], .stopped stop)
      | .ok visit =>
        let (visits, ending) := v.walk rounds (v.next visit)
        (visit :: visits, ending)
    else ([], .finished)

/-- `ShowFileInfo`, with more rounds than the file has bytes. -/
def View.showFileInfo (v : View layout) : List (Visit layout) × Ending := v.walk (v.bytes.length + 1) v.ptr

end QueueCache.ScsiLog
