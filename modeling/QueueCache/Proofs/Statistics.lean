import QueueCache.Proofs.Closing
import QueueCache.Proofs.ReadCount

/-! # What the request counters say

The counters of reads and writes are updated with interlocked operations while the requests are at different
points, so a copy of them is no snapshot of finished requests. The totals are added to before anything is sent to the
device below, though, so what was sent below for reads never exceeds what was asked for, as long as the totals fit in
64 bits. A read adds to `ReadRequests` and to `ReadBytes` in one step here; in between the two the inequalities hold as
well, as each compares a total with what the same request adds later.
-/

namespace QueueCache

open Transition

/-- The counters of requests in `DEVICE_STATISTICS` that are updated by interlocked operations. -/
structure RequestCounts where
  readRequests : ℤ
  readBytes : ℤ
  readRequestsReroutedToOriginal : ℤ
  readBytesReroutedToOriginal : ℤ
  readBytesFromOriginal : ℤ
  splitReads : ℤ
  writeRequests : ℤ
  writtenBytes : ℤ

namespace RequestCounts

/-- A request gets past the test of the size. -/
def enter (counts : RequestCounts) (io : IoStackLocation) : RequestCounts :=
  match io.majorFunction with
  | .read => { counts with readRequests := counts.readRequests + 1, readBytes := counts.readBytes + io.length }
  | .write => { counts with writeRequests := counts.writeRequests + 1, writtenBytes := counts.writtenBytes + io.length }
  | _ => counts

/-- Only the counters of requests and bytes can change, and they do not fall. -/
theorem enter_reads (counts : RequestCounts) (io : IoStackLocation) :
    counts.readRequests ≤ (counts.enter io).readRequests ∧ counts.readBytes ≤ (counts.enter io).readBytes ∧
      (counts.enter io).readRequestsReroutedToOriginal = counts.readRequestsReroutedToOriginal ∧
      (counts.enter io).readBytesReroutedToOriginal = counts.readBytesReroutedToOriginal ∧
      (counts.enter io).readBytesFromOriginal = counts.readBytesFromOriginal ∧
      (counts.enter io).splitReads = counts.splitReads := by
  unfold enter
  split <;> simp

/-- A read with nothing of it in the queue is passed on. -/
def reroute (counts : RequestCounts) (io : IoStackLocation) : RequestCounts :=
  { counts with
    readRequestsReroutedToOriginal := counts.readRequestsReroutedToOriginal + 1
    readBytesReroutedToOriginal := counts.readBytesReroutedToOriginal + io.length }

/-- A gap of a read is asked for. -/
def issue (counts : RequestCounts) (clearBits : ℕ) : RequestCounts :=
  { counts with readBytesFromOriginal := counts.readBytesFromOriginal + clearBits * 512 }

/-- A split read has issued its requests. -/
def finish (counts : RequestCounts) (splits : ℕ) : RequestCounts :=
  { counts with splitReads := if splits > 1 then counts.splitReads + splits else counts.splitReads }

end RequestCounts

def DeviceStatistics.counts (statistics : DeviceStatistics) : RequestCounts where
  readRequests := statistics.readRequests
  readBytes := statistics.readBytes
  readRequestsReroutedToOriginal := statistics.readRequestsReroutedToOriginal
  readBytesReroutedToOriginal := statistics.readBytesReroutedToOriginal
  readBytesFromOriginal := statistics.readBytesFromOriginal
  splitReads := statistics.splitReads
  writeRequests := statistics.writeRequests
  writtenBytes := statistics.writtenBytes

abbrev Shared.counts (sh : Shared) : RequestCounts := sh.statistics.counts

namespace Pc

/-- The gap the call is at lies in a read of `n` sectors. -/
def GapInside (n : ℕ) : Pc → Prop
  | .createScatter _ clearIndex clearBits | .split _ clearIndex clearBits _ =>
    0 < clearBits ∧ clearIndex + clearBits ≤ n
  | _ => True

/-- The call is about to look at the queue. -/
def scans : Pc → ℤ
  | .scanQueue => 1
  | _ => 0

/-- What a read of `length` bytes may still ask of the device below. -/
def unread (length : ℕ) : Pc → ℤ
  | .scanQueue | .createScatter .. => length
  | .split _ clearIndex _ _ => length - clearIndex * 512
  | _ => 0

/-- The requests of a split read that are not counted yet. -/
def splits : Pc → ℤ
  | .split _ _ _ splits | .finishScatter splits => splits
  | _ => 0

end Pc

/-- A step of a dispatch call, as the counters see it. -/
inductive CountStep (sh : Shared) (c : Call) (sh' : Shared) (c' : Call) : Prop
  | quiet (counts : sh'.counts = sh.counts) (entered : c.pc.isEntry = false ∨ sh.statistics.size = 0)
      (scans : c'.pc.scans = 0) (unread : c'.pc.unread c.irp.stack.length ≤ c.pc.unread c.irp.stack.length)
      (splits : c'.pc.splits ≤ c.pc.splits)
  | enter (at_ : c.pc = .entry) (sized : sh.statistics.size ≠ 0) (counts : sh'.counts = sh.counts.enter c.irp.stack)
      (goes : (c.irp.stack.majorFunction = .read ∧ c'.pc = .scanQueue) ∨
        (c'.pc.scans = 0 ∧ c'.pc.unread c.irp.stack.length = 0 ∧ c'.pc.splits = 0))
  | reroute (at_ : c.pc = .scanQueue) (counts : sh'.counts = sh.counts.reroute c.irp.stack) (goes : c'.pc = .forward)
  | issue {bitmap : Bitmap} {clearIndex clearBits splits : ℕ} (at_ : c.pc = .split bitmap clearIndex clearBits splits)
      (some : 0 < clearBits) (counts : sh'.counts = sh.counts.issue clearBits) (scans : c'.pc.scans = 0)
      (unread : c'.pc.unread c.irp.stack.length + clearBits * 512 ≤ c.pc.unread c.irp.stack.length)
      (more : c'.pc.splits = splits + 1)
  | finish {splits : ℕ} (at_ : c.pc = .finishScatter splits) (counts : sh'.counts = sh.counts.finish splits)
      (goes : c'.pc = .returned STATUS_PENDING)

section CallStep

variable {sh sh' : Shared} {i : ℕ} {c c' : Call} {out : Outcome}

/-- With no size known every dispatch routine leaves the counters alone. -/
theorem dispatch_unsized (unsized : sh.statistics.size = 0) (at_ : c.pc = .entry) :
    CountStep sh c (dispatch sh c out).1 (dispatch sh c out).2 := by
  have passes {sh' : Shared} {c' : Call} (counts : sh'.counts = sh.counts)
    (goes : c'.pc = .forward ∨ c'.pc = .queueIrp) :
      CountStep sh c sh' c' := by
    refine .quiet counts (.inr unsized) ?_ ?_ ?_ <;> obtain goes | goes := goes <;> rw [goes] <;>
      simp [Pc.scans, Pc.unread, Pc.splits, at_]
  unfold dispatch
  cases c.irp.stack.majorFunction with
  | read => exact passes (by simp [qcacheRead, unsized]) (.inl (by simp [qcacheRead, unsized]))
  | write => exact passes (by simp [qcacheWrite, unsized]) (.inl (by simp [qcacheWrite, unsized]))
  | flushBuffers => exact passes rfl (.inr rfl)
  | shutdown => exact passes rfl (.inr rfl)
  | deviceControl =>
    exact passes (by simp [qcacheDeviceControl, unsized]) (.inl (by simp [qcacheDeviceControl, unsized]))
  | internalDeviceControl =>
    exact passes (by simp [qcacheDeviceControl, unsized]) (.inl (by simp [qcacheDeviceControl, unsized]))
  | fileSystemControl => exact passes rfl (.inl rfl)
  | other => exact passes rfl (.inl rfl)

theorem qcacheRead_counts (c : Call) (out : Outcome) (sized : sh.statistics.size ≠ 0) :
    (qcacheRead sh c out).1.counts = { sh.counts with
        readRequests := sh.counts.readRequests + 1, readBytes := sh.counts.readBytes + c.irp.stack.length } ∧
      ((qcacheRead sh c out).2.pc = .scanQueue ∨ ∃ status, (qcacheRead sh c out).2.pc = .complete status) := by
  unfold qcacheRead
  dsimp only
  rw [if_neg sized]
  split
  · exact ⟨rfl, .inr ⟨_, rfl⟩⟩
  · split
    · exact ⟨rfl, .inr ⟨_, rfl⟩⟩
    · split
      · exact ⟨rfl, .inr ⟨_, rfl⟩⟩
      · split
        · exact ⟨rfl, .inl rfl⟩
        · exact ⟨rfl, .inr ⟨_, rfl⟩⟩

theorem qcacheWrite_counts (c : Call) (sized : sh.statistics.size ≠ 0) :
    (qcacheWrite sh c).1.counts = { sh.counts with
        writeRequests := sh.counts.writeRequests + 1, writtenBytes := sh.counts.writtenBytes + c.irp.stack.length } ∧
      ((qcacheWrite sh c).2.pc = .queueIrp ∨ ∃ status, (qcacheWrite sh c).2.pc = .complete status) := by
  unfold qcacheWrite
  dsimp only
  rw [if_neg sized]
  split
  · exact ⟨rfl, .inr ⟨_, rfl⟩⟩
  · split
    · exact ⟨rfl, .inr ⟨_, rfl⟩⟩
    · exact ⟨rfl, .inl rfl⟩

theorem qcacheDeviceControl_counts (sh : Shared) (c : Call) : (qcacheDeviceControl sh c).1.counts = sh.counts ∧
    ((qcacheDeviceControl sh c).2.pc = .queueIrp ∨ (qcacheDeviceControl sh c).2.pc = .forward ∨
      ∃ status, (qcacheDeviceControl sh c).2.pc = .complete status) := by
  unfold qcacheDeviceControl
  dsimp only
  split
  · exact ⟨rfl, .inr (.inl rfl)⟩
  · split
    · split <;> exact ⟨rfl, .inr (.inr ⟨_, rfl⟩)⟩
    · split
      · exact ⟨rfl, .inr (.inr ⟨_, rfl⟩)⟩
      · split
        · exact ⟨rfl, .inl rfl⟩
        · split
          · exact ⟨rfl, .inl rfl⟩
          · split
            · exact ⟨rfl, .inl rfl⟩
            · exact ⟨rfl, .inr (.inl rfl)⟩

theorem dispatch_counts (sh : Shared) (out : Outcome) (at_ : c.pc = .entry) :
    CountStep sh c (dispatch sh c out).1 (dispatch sh c out).2 := by
  by_cases unsized : sh.statistics.size = 0
  · exact dispatch_unsized unsized at_
  have leaves {sh' : Shared} {c' : Call} (counts : sh'.counts = sh.counts.enter c.irp.stack)
      (goes : c'.pc = .queueIrp ∨ c'.pc = .forward ∨ ∃ status, c'.pc = .complete status) : CountStep sh c sh' c' := by
    refine .enter at_ unsized counts (.inr ?_)
    obtain goes | goes | ⟨status, goes⟩ := goes <;> rw [goes] <;> exact ⟨rfl, rfl, rfl⟩
  unfold dispatch
  cases major : c.irp.stack.majorFunction with
  | read =>
    obtain ⟨counts, scan | done⟩ := qcacheRead_counts c out unsized
    · exact .enter at_ unsized (by rw [counts, RequestCounts.enter, major]) (.inl ⟨major, scan⟩)
    · exact leaves (by rw [counts, RequestCounts.enter, major]) (.inr (.inr done))
  | write =>
    obtain ⟨counts, goes | done⟩ := qcacheWrite_counts c unsized
    · exact leaves (by rw [counts, RequestCounts.enter, major]) (.inl goes)
    · exact leaves (by rw [counts, RequestCounts.enter, major]) (.inr (.inr done))
  | flushBuffers => exact leaves (by rw [RequestCounts.enter, major]; rfl) (.inl rfl)
  | shutdown => exact leaves (by rw [RequestCounts.enter, major]; rfl) (.inl rfl)
  | deviceControl =>
    obtain ⟨counts, goes⟩ := qcacheDeviceControl_counts sh c
    exact leaves (by rw [counts, RequestCounts.enter, major]) goes
  | internalDeviceControl =>
    obtain ⟨counts, goes⟩ := qcacheDeviceControl_counts sh c
    exact leaves (by rw [counts, RequestCounts.enter, major]) goes
  | fileSystemControl => exact leaves (by rw [RequestCounts.enter, major]) (.inr (.inl rfl))
  | other => exact leaves (by rw [RequestCounts.enter, major]) (.inr (.inl rfl))

theorem scan_counts (sh : Shared) (at_ : c.pc = .scanQueue) :
    CountStep sh c (qcacheReadScan sh c).1 (qcacheReadScan sh c).2 ∧
      (qcacheReadScan sh c).2.pc.GapInside (c.irp.stack.length / 512) := by
  obtain ⟨requests, bytes, statistics⟩ := scanWriteQueue_statistics c.irp.stack c.buffer sh.statistics sh.queue
  have entered : c.pc.isEntry = false := by rw [at_]; rfl
  unfold qcacheReadScan
  dsimp only
  rw [statistics]
  split
  · cases found : rtlFindFirstRunClear (scanWriteQueue c.irp.stack c.buffer sh.statistics sh.queue).bitmap
      (c.irp.stack.length / 512) with
    | mk clearIndex clearBits =>
      dsimp only
      split
      · refine ⟨.quiet rfl (.inl entered) rfl ?_ ?_, trivial⟩ <;> rw [at_] <;> simp [Pc.unread, Pc.splits]
      · next some =>
        obtain ⟨-, inside, -⟩ := rtlFindNextForwardRunClear_spec _ (Nat.zero_le _) found
        refine ⟨.quiet rfl (.inl entered) rfl ?_ ?_, Nat.pos_of_ne_zero some, inside⟩ <;> rw [at_] <;>
          simp [Pc.unread, Pc.splits]
  · exact ⟨.reroute at_ rfl rfl, trivial⟩

theorem split_counts (sh : Shared) (scatter : ScatteredIrp) {bitmap : Bitmap} {clearIndex clearBits splits : ℕ}
    (memory : Bool) (at_ : c.pc = .split bitmap clearIndex clearBits splits)
    (inside : c.pc.GapInside (c.irp.stack.length / 512)) :
    CountStep sh c (qcacheReadSplit sh c scatter bitmap clearIndex clearBits splits memory).1
        (qcacheReadSplit sh c scatter bitmap clearIndex clearBits splits memory).2 ∧
      (qcacheReadSplit sh c scatter bitmap clearIndex clearBits splits memory).2.pc.GapInside
        (c.irp.stack.length / 512) := by
  have entered : c.pc.isEntry = false := by rw [at_]; rfl
  simp only [at_, Pc.GapInside] at inside
  have fits : (clearIndex + clearBits) * 512 ≤ c.irp.stack.length := by omega
  unfold qcacheReadSplit
  cases memory with
  | false =>
    refine ⟨.quiet rfl (.inl entered) rfl ?_ ?_, trivial⟩ <;> rw [at_] <;> simp [Pc.unread, Pc.splits]
    omega
  | true =>
    cases found : rtlFindNextForwardRunClear bitmap (c.irp.stack.length / 512) (clearIndex + clearBits) with
    | mk nextIndex nextBits =>
      obtain ⟨later, within, -⟩ := rtlFindNextForwardRunClear_spec bitmap inside.2 found
      simp only [if_true, found]
      split
      · refine ⟨.issue at_ inside.1 rfl rfl ?_ (by simp [Pc.splits]), trivial⟩
        rw [at_]
        simp only [Call.goto, Pc.unread]
        omega
      · next some =>
        refine ⟨.issue at_ inside.1 rfl rfl ?_ (by simp [Pc.splits]), Nat.pos_of_ne_zero some, within⟩
        rw [at_]
        simp only [Call.goto, Pc.unread]
        omega

/-- Any other step leaves the counters alone and neither begins nor continues a split read. -/
theorem CountStep.other (counts : sh'.counts = sh.counts) (entered : c.pc.isEntry = false) (scans : c'.pc.scans = 0)
    (unread : c'.pc.unread c.irp.stack.length = 0) (splits : c'.pc.splits = 0)
    (positive : 0 ≤ c.pc.unread c.irp.stack.length ∧ 0 ≤ c.pc.splits) : CountStep sh c sh' c' :=
  .quiet counts (.inl entered) scans (unread ▸ positive.1) (splits ▸ positive.2)

theorem CallStep.entered (moved : CallStep sh i c out sh' c') (at_ : c.pc = .entry) : Entered sh c sh' c'.pc := by
  cases moved with
  | entry _ _ entered => exact entered
  | refuse here => simp [at_] at here
  | noItem here => simp [at_] at here
  | noLock here => simp [at_] at here
  | _ here => rw [at_] at here; contradiction

theorem callStep_counts (moved : callStep sh i c out = some (sh', c'))
    (inside : c.pc.GapInside (c.irp.stack.length / 512)) :
    CountStep sh c sh' c' ∧ c'.pc.GapInside (c.irp.stack.length / 512) := by
  have stepped := callStep_cases moved
  unfold callStep at moved
  cases at_ : c.pc with
  | entry =>
    simp only [at_, Option.some.injEq] at moved
    have taken := dispatch_counts sh out at_
    rw [moved] at taken
    refine ⟨taken, ?_⟩
    have goes := stepped.entered at_
    generalize c'.pc = pc at goes
    cases goes <;> trivial
  | scanQueue =>
    simp only [at_, Option.some.injEq] at moved
    have taken := scan_counts sh at_
    rwa [moved] at taken
  | createScatter bitmap clearIndex clearBits =>
    have entered : c.pc.isEntry = false := by rw [at_]; rfl
    have positive : 0 ≤ c.pc.unread c.irp.stack.length ∧ 0 ≤ c.pc.splits := by
      simp [at_, Pc.unread, Pc.splits]
    rw [at_] at inside
    simp only [at_] at moved
    split at moved
    · split at moved <;> cases moved
      · refine ⟨.quiet rfl (.inl entered) rfl ?_ ?_, inside⟩ <;> simp [at_, Pc.unread, Pc.splits]
      · exact ⟨.other rfl entered rfl rfl rfl positive, trivial⟩
    · cases moved
      exact ⟨.other rfl entered rfl rfl rfl positive, trivial⟩
  | split bitmap clearIndex clearBits splits =>
    simp only [at_, Option.map_eq_some_iff] at moved
    obtain ⟨scatter, -, moved⟩ := moved
    have taken := split_counts sh scatter out.memory at_ inside
    rwa [moved] at taken
  | finishScatter splits =>
    simp only [at_, Option.map_eq_some_iff] at moved
    obtain ⟨scatter, -, moved⟩ := moved
    obtain ⟨rfl, rfl⟩ := Prod.ext_iff.mp moved
    refine ⟨.finish at_ ?_ (by simp), by simp [Pc.GapInside]⟩
    simp only [Shared.counts, scatterComplete_statistics]
    rfl
  | returned status => simp [at_] at moved
  | _ =>
    have entered : c.pc.isEntry = false := by rw [at_]; rfl
    have positive : 0 ≤ c.pc.unread c.irp.stack.length ∧ 0 ≤ c.pc.splits := by
      rw [at_]
      exact ⟨le_rfl, le_rfl⟩
    simp only [at_] at moved
    (repeat' split at moved) <;> cases moved <;> exact ⟨.other rfl entered rfl rfl rfl positive, trivial⟩

end CallStep

/-- The request with which a dispatch call gets past its test of the size in this step. -/
def State.accepts (s : State) : Action → List IoStackLocation
  | .call i _ => (s.calls[i]?).elim [] fun c =>
      if c.pc.isEntry && s.shared.statistics.size ≠ 0 then [c.irp.stack] else []
  | _ => []

/-- How a step of the device reaches the counters: through one dispatch call or not at all. -/
inductive DeviceCount (s : State) (a : Action) (s' : State) : Prop
  | call {i : ℕ} {c c' : Call} {sh' : Shared} (present : s.calls[i]? = some c) (irp : c'.irp = c.irp)
      (calls : s'.calls = s.calls.set i c') (shared : s'.shared = sh')
      (accepts : s.accepts a = if c.pc.isEntry && s.shared.statistics.size ≠ 0 then [c.irp.stack] else [])
      (counted : c.pc.GapInside (c.irp.stack.length / 512) →
        CountStep s.shared c sh' c' ∧ c'.pc.GapInside (c.irp.stack.length / 512))
  | keep {i : ℕ} {c c' : Call} (present : s.calls[i]? = some c) (irp : c'.irp = c.irp) (pc : c'.pc = c.pc)
      (calls : s'.calls = s.calls.set i c') (counts : s'.shared.counts = s.shared.counts) (accepts : s.accepts a = [])
  | receive {irp : Irp} (calls : s'.calls = s.calls ++ [.receive irp]) (counts : s'.shared.counts = s.shared.counts)
      (accepts : s.accepts a = [])
  | quiet (calls : s'.calls = s.calls) (counts : s'.shared.counts = s.shared.counts) (accepts : s.accepts a = [])

theorem LowerMove.counts {sh sh' : Shared} {i : ℕ} {c c' : Call} {a : Action} (moved : LowerMove sh i c a sh' c') :
    sh'.counts = sh.counts := by
  cases moved with
  | scattered => simp only [Shared.counts, scatterComplete_statistics]
  | _ => rfl

/-- Nobody but the dispatch calls touches the counters. -/
theorem deviceCount_elsewhere {s s' : State} {a : Action} (moved : s.step a = some s')
    (elsewhere : ∀ i out, a ≠ .call i out) : DeviceCount s a s' := by
  have accepts : s.accepts a = [] := by
    cases a with
    | call i out => exact absurd rfl (elsewhere i out)
    | _ => rfl
  cases step_cases moved with
  | receive => exact .receive rfl rfl accepts
  | call => exact absurd rfl (elsewhere _ _)
  | lower present taken => exact .keep present taken.irp taken.pc rfl taken.counts accepts
  | worker taken =>
    cases taken with
    | completeIrp _ _ _ present => refine .keep present ?_ ?_ rfl rfl accepts <;> rfl
    | _ => exact .quiet rfl rfl accepts
  | remover taken => cases taken <;> exact .quiet rfl rfl accepts
  | initializeDevice => exact .quiet rfl rfl accepts

theorem deviceCount {s s' : State} {a : Action} (moved : s.step a = some s') : DeviceCount s a s' := by
  cases a with
  | call i out =>
    obtain ⟨c, present, moved⟩ := Option.bind_eq_some_iff.mp moved
    obtain ⟨⟨sh', c'⟩, taken, rfl⟩ := Option.map_eq_some_iff.mp moved
    exact .call present (callStep_cases taken).irp rfl rfl (by simp [State.accepts, present])
      fun inside => callStep_counts taken inside
  | _ => exact deviceCount_elsewhere moved fun _ _ => Action.noConfusion

/-- The totals are those of the requests that got past the test of the size. -/
structure RequestsCounted (counts : RequestCounts) (accepted : List IoStackLocation) : Prop where
  readRequests : counts.readRequests = accepted.countP (·.majorFunction = .read)
  readBytes : counts.readBytes = (accepted.filter (·.majorFunction = .read)).tally fun io => io.length
  writeRequests : counts.writeRequests = accepted.countP (·.majorFunction = .write)
  writtenBytes : counts.writtenBytes = (accepted.filter (·.majorFunction = .write)).tally fun io => io.length

theorem RequestsCounted.enter {counts : RequestCounts} {accepted : List IoStackLocation}
    (before : RequestsCounted counts accepted) (io : IoStackLocation) :
    RequestsCounted (counts.enter io) (accepted ++ [io]) := by
  obtain ⟨readRequests, readBytes, writeRequests, writtenBytes⟩ := before
  cases major : io.majorFunction <;> constructor <;> simp [RequestCounts.enter, *]

/-- What has been asked of the device below for reads, with what the reads on their way may still ask. -/
structure ReadsAccounted (counts : RequestCounts) (calls : List Call) : Prop where
  requests : counts.readRequestsReroutedToOriginal + calls.tally (·.pc.scans) ≤ counts.readRequests
  bytes : counts.readBytesReroutedToOriginal + counts.readBytesFromOriginal +
    calls.tally (fun c => c.pc.unread c.irp.stack.length) ≤ counts.readBytes
  pieces : 512 * (counts.splitReads + calls.tally (·.pc.splits)) ≤ counts.readBytesFromOriginal
  nonneg : 0 ≤ counts.readRequestsReroutedToOriginal ∧ 0 ≤ counts.readBytesReroutedToOriginal ∧ 0 ≤ counts.splitReads

theorem Pc.scans_nonneg (pc : Pc) : 0 ≤ pc.scans := by cases pc <;> simp [Pc.scans]

theorem Pc.splits_nonneg (pc : Pc) : 0 ≤ pc.splits := by cases pc <;> simp [Pc.splits]

theorem Pc.unread_nonneg {pc : Pc} {length : ℕ} (inside : pc.GapInside (length / 512)) : 0 ≤ pc.unread length := by
  cases pc with
  | split bitmap clearIndex clearBits splits =>
    simp only [Pc.GapInside] at inside
    simp only [Pc.unread]
    omega
  | _ => simp [Pc.unread]

section ReadsAccounted

variable {counts : RequestCounts} {calls : List Call} {sh sh' : Shared} {i : ℕ} {c c' : Call}

/-- A call is replaced by one that is at the same point with the same request. -/
theorem ReadsAccounted.keep (before : ReadsAccounted counts calls) (present : calls[i]? = some c)
    (irp : c'.irp = c.irp) (pc : c'.pc = c.pc) : ReadsAccounted counts (calls.set i c') := by
  obtain ⟨requests, bytes, pieces, nonneg⟩ := before
  refine ⟨?_, ?_, ?_, nonneg⟩ <;> rw [List.tally_set present, pc]
  · omega
  · rw [irp]
    omega
  · omega

theorem ReadsAccounted.receive (before : ReadsAccounted counts calls) (irp : Irp) :
    ReadsAccounted counts (calls ++ [.receive irp]) := by
  obtain ⟨requests, bytes, pieces, nonneg⟩ := before
  refine ⟨?_, ?_, ?_, nonneg⟩ <;> rw [List.tally_append] <;> simpa [Call.receive, Pc.scans, Pc.unread, Pc.splits]

theorem ReadsAccounted.call (before : ReadsAccounted sh.counts calls) (present : calls[i]? = some c)
    (irp : c'.irp = c.irp) (inside : c.pc.GapInside (c.irp.stack.length / 512)) (counted : CountStep sh c sh' c') :
    ReadsAccounted sh'.counts (calls.set i c') := by
  obtain ⟨requests, bytes, pieces, nonneg⟩ := before
  have scans : (calls.set i c').tally (·.pc.scans) = _ := List.tally_set present c'
  have unread : (calls.set i c').tally (fun c => c.pc.unread c.irp.stack.length) = _ := List.tally_set present c'
  have splits : (calls.set i c').tally (·.pc.splits) = _ := List.tally_set present c'
  rw [irp] at unread
  have someScan := c.pc.scans_nonneg
  have someUnread := Pc.unread_nonneg inside
  have someSplits := c.pc.splits_nonneg
  cases counted with
  | quiet counts _ scan read split =>
    rw [counts]
    constructor <;> omega
  | enter at_ _ counts goes =>
    obtain ⟨reads, goes⟩ | ⟨scan, read, split⟩ := goes
    · rw [goes, at_] at scans unread splits
      change _ = _ - (0 : ℤ) + 1 at scans
      change _ = _ - (0 : ℤ) + c.irp.stack.length at unread
      change _ = _ - (0 : ℤ) + 0 at splits
      simp only [counts, RequestCounts.enter, reads]
      constructor <;> dsimp only <;> omega
    · obtain ⟨moreRequests, moreBytes, rerouted, reroutedBytes, original, whole⟩ := sh.counts.enter_reads c.irp.stack
      rw [← counts] at moreRequests moreBytes rerouted reroutedBytes original whole
      constructor <;> omega
  | reroute at_ counts goes =>
    rw [goes, at_] at scans unread splits
    change _ = _ - (1 : ℤ) + 0 at scans
    change _ = _ - (c.irp.stack.length : ℤ) + 0 at unread
    change _ = _ - (0 : ℤ) + 0 at splits
    simp only [counts, RequestCounts.reroute]
    constructor <;> dsimp only <;> omega
  | @issue _ _ _ count at_ some counts scan read more =>
    have here : c.pc.splits = count := by rw [at_]; rfl
    simp only [counts, RequestCounts.issue]
    constructor <;> dsimp only <;> omega
  | @finish count at_ counts goes =>
    rw [goes, at_] at scans unread splits
    change _ = _ - (0 : ℤ) + 0 at scans
    change _ = _ - (0 : ℤ) + 0 at unread
    change _ = _ - (count : ℤ) + 0 at splits
    simp only [counts, RequestCounts.finish]
    constructor <;> dsimp only
    · omega
    · omega
    · split <;> omega
    · split <;> omega

end ReadsAccounted

/-- Every gap a call is at lies in its read, and the books of both kinds are kept. -/
structure Counted (s : State) (accepted : List IoStackLocation) : Prop where
  inside : ∀ (i : ℕ) (c : Call), s.calls[i]? = some c → c.pc.GapInside (c.irp.stack.length / 512)
  requests : RequestsCounted s.shared.counts accepted
  reads : ReadsAccounted s.shared.counts s.calls

theorem CountStep.requests {sh sh' : Shared} {c c' : Call} {accepted : List IoStackLocation}
    (counted : CountStep sh c sh' c') (before : RequestsCounted sh.counts accepted) :
    RequestsCounted sh'.counts (accepted ++
      if c.pc.isEntry && sh.statistics.size ≠ 0 then [c.irp.stack] else []) := by
  have elsewhere (counts : RequestsCounted sh'.counts accepted) (other : c.pc.isEntry = false) :
      RequestsCounted sh'.counts
        (accepted ++ if c.pc.isEntry && sh.statistics.size ≠ 0 then [c.irp.stack] else []) := by
    simpa [other] using counts
  obtain ⟨readRequests, readBytes, writeRequests, writtenBytes⟩ := before
  cases counted with
  | quiet counts entered =>
    rw [counts]
    obtain other | unsized := entered
    · simpa [other] using ⟨readRequests, readBytes, writeRequests, writtenBytes⟩
    · simpa [unsized] using ⟨readRequests, readBytes, writeRequests, writtenBytes⟩
  | enter at_ sized counts =>
    rw [counts, at_, if_pos (by simpa [Pc.isEntry] using sized)]
    exact RequestsCounted.enter ⟨readRequests, readBytes, writeRequests, writtenBytes⟩ _
  | reroute at_ counts =>
    exact elsewhere (counts ▸ ⟨readRequests, readBytes, writeRequests, writtenBytes⟩) (by rw [at_]; rfl)
  | issue at_ _ counts =>
    exact elsewhere (counts ▸ ⟨readRequests, readBytes, writeRequests, writtenBytes⟩) (by rw [at_]; rfl)
  | finish at_ counts =>
    exact elsewhere (counts ▸ ⟨readRequests, readBytes, writeRequests, writtenBytes⟩) (by rw [at_]; rfl)

theorem Counted.step {s s' : State} {a : Action} {accepted : List IoStackLocation} (before : Counted s accepted)
    (moved : s.step a = some s') : Counted s' (accepted ++ s.accepts a) := by
  obtain ⟨inside, requests, reads⟩ := before
  cases deviceCount moved with
  | @call i c c' sh' present irp calls shared accepts counted =>
    obtain ⟨counted, within⟩ := counted (inside i c present)
    refine ⟨?_, ?_, ?_⟩
    · rw [calls]
      exact List.forall_getElem?_set (irp ▸ within) inside
    · rw [shared, accepts]
      exact counted.requests requests
    · rw [shared, calls]
      exact reads.call present irp (inside i c present) counted
  | @keep i c c' present irp pc calls counts accepts =>
    refine ⟨?_, by rwa [counts, accepts, List.append_nil], ?_⟩
    · rw [calls]
      refine List.forall_getElem?_set ?_ inside
      rw [pc, irp]
      exact inside i c present
    · rw [counts, calls]
      exact reads.keep present irp pc
  | receive calls counts accepts =>
    refine ⟨?_, by rwa [counts, accepts, List.append_nil], ?_⟩
    · rw [calls]
      exact List.forall_getElem?_snoc trivial inside
    · rw [counts, calls]
      exact reads.receive _
  | quiet calls counts accepts =>
    exact ⟨calls ▸ inside, by rwa [counts, accepts, List.append_nil], by rwa [counts, calls]⟩

theorem counted_of_run {cfg : Config} {as : List Action} {s : State}
    (run : Run State.step anyStep (.initial cfg) as s) :
    Counted s (observed State.step State.accepts (.initial cfg) as) := by
  apply run.observes Counted
  · refine ⟨fun i c present => ?_, ⟨rfl, rfl, rfl, rfl⟩, ⟨le_rfl, le_rfl, le_rfl, le_rfl, le_rfl, le_rfl⟩⟩
    simp [State.initial] at present
  · intro t a u seen before _ moved
    exact before.step moved

/-- The reads that have got past the test of the size are fewer than 2^63, and so are the bytes they ask for. -/
structure ReadsFit (accepted : List IoStackLocation) : Prop where
  requests : accepted.countP (·.majorFunction = .read) < 2 ^ 63
  bytes : ((accepted.filter (·.majorFunction = .read)).tally fun io => io.length) < 2 ^ 63

/-- While the totals fit in the fields, no more reads have been passed on than were received, no more bytes have been
asked of the device below than the reads asked for, and each request of a split read stands for a sector at least. -/
theorem reads_accounted (cfg : Config) (as : List Action) (s : State) (run : Run State.step anyStep (.initial cfg) as s)
    (fits : ReadsFit (observed State.step State.accepts (.initial cfg) as)) :
    wrap64 s.shared.statistics.readRequestsReroutedToOriginal ≤ wrap64 s.shared.statistics.readRequests ∧
      wrap64 s.shared.statistics.readBytesReroutedToOriginal + wrap64 s.shared.statistics.readBytesFromOriginal ≤
        wrap64 s.shared.statistics.readBytes ∧
      512 * wrap64 s.shared.statistics.splitReads ≤ wrap64 s.shared.statistics.readBytesFromOriginal := by
  obtain ⟨inside, ⟨readRequests, readBytes, -, -⟩, requests, bytes, pieces, nonneg⟩ := counted_of_run run
  obtain ⟨fewRequests, fewBytes⟩ := fits
  have scans : 0 ≤ s.calls.tally (·.pc.scans) := List.tally_nonneg fun c _ => c.pc.scans_nonneg
  have splits : 0 ≤ s.calls.tally (·.pc.splits) := List.tally_nonneg fun c _ => c.pc.splits_nonneg
  have unread : 0 ≤ s.calls.tally (fun c => c.pc.unread c.irp.stack.length) := by
    apply List.tally_nonneg
    intro c member
    obtain ⟨i, present⟩ := List.getElem?_of_mem member
    exact Pc.unread_nonneg (inside i c present)
  rw [← readBytes] at fewBytes
  simp only [DeviceStatistics.counts] at readRequests fewBytes requests bytes pieces nonneg
  rw [wrap64_of_range (by omega) (by omega), wrap64_of_range (by omega) (by omega),
    wrap64_of_range (by omega) (by omega), wrap64_of_range (by omega) (by omega),
    wrap64_of_range (by omega) (by omega), wrap64_of_range (by omega) (by omega)]
  refine ⟨?_, ?_, ?_⟩ <;> omega

theorem reads_accounted_mixedRead :
    ∃ s, Run State.step anyStep (.initial smallDevice) (mixedRead ++ mixedReadServed) s ∧
    s.shared.statistics.readBytesFromOriginal = 512 ∧
    wrap64 s.shared.statistics.readBytesReroutedToOriginal + wrap64 s.shared.statistics.readBytesFromOriginal ≤
      wrap64 s.shared.statistics.readBytes := by
  have run := run_of_replay smallDevice (mixedRead ++ mixedReadServed) (by decide +kernel)
  have fits : ReadsFit (observed State.step State.accepts (.initial smallDevice) (mixedRead ++ mixedReadServed)) :=
    ⟨by decide +kernel, by decide +kernel⟩
  exact ⟨_, run, by decide +kernel, (reads_accounted smallDevice _ _ run fits).2.1⟩

end QueueCache
