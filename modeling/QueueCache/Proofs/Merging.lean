import Mathlib.Data.Nat.Count
import QueueCache.Proofs.Scatter
import QueueCache.Proofs.ScanOverlay

/-! # A read past its scan

The scan leaves a bitmap behind, and everything the read does afterwards depends on it: a read with no
bit set may be passed on whole, one with all bits set is complete, and the splitting loop issues the
maximal clear runs of any other in order. In all three cases the requests in the lower driver are runs
of clear bits, each with the part of the buffer and of the disk that belongs to it; a sector whose bit is
set is never touched again, and one whose bit is clear is waited for until its bytes have arrived.
-/

namespace QueueCache

open Transition

/-- The number of clear bits below a position. -/
def clearBelow (bitmap : Bitmap) (k : ℕ) : ℕ := Nat.count (fun j => bitmap j = false) k

/-- A run of clear bits counts in full. -/
theorem clearBelow_of_clear {bitmap : Bitmap} {first count : ℕ}
    (clear : ∀ k, first ≤ k → k < first + count → bitmap k = false) :
    clearBelow bitmap (first + count) = clearBelow bitmap first + count := by
  rw [clearBelow, clearBelow, Nat.count_add, Nat.add_left_cancel_iff, Nat.count_iff_forall]
  intro k below
  exact clear (first + k) (Nat.le_add_right _ _) (Nat.add_lt_add_left below _)

/-- A run of set bits does not count. -/
theorem clearBelow_of_set {bitmap : Bitmap} {first last : ℕ} (le : first ≤ last)
    (set : ∀ k, first ≤ k → k < last → bitmap k = true) : clearBelow bitmap last = clearBelow bitmap first := by
  obtain ⟨count, rfl⟩ := Nat.exists_eq_add_of_le le
  rw [clearBelow, clearBelow, Nat.count_add, Nat.add_eq_left, Nat.count_iff_forall_not]
  intro k below
  rw [set (first + k) (Nat.le_add_right _ _) (Nat.add_lt_add_left below _)]
  decide

/-- All bits below a position are clear when they all count. -/
theorem clearBelow_eq_self {bitmap : Bitmap} {n : ℕ} :
    clearBelow bitmap n = n ↔ ∀ k < n, bitmap k = false := Nat.count_iff_forall

theorem clearBelow_eq_zero {bitmap : Bitmap} {n : ℕ} : clearBelow bitmap n = 0 ↔ ∀ k < n, bitmap k = true := by
  rw [clearBelow, Nat.count_iff_forall_not]
  simp only [Bool.not_eq_false]

/-- A run of clear bits among the first `n`. -/
structure ClearRun (bitmap : Bitmap) (n first count : ℕ) : Prop where
  nonempty : 0 < count
  inside : first + count ≤ n
  clear : ∀ k, first ≤ k → k < first + count → bitmap k = false

theorem ClearRun.counts {bitmap : Bitmap} {n first count : ℕ} (run : ClearRun bitmap n first count) :
    clearBelow bitmap n ≠ 0 := by
  have nonempty := run.nonempty
  have inside := run.inside
  intro none
  have set := clearBelow_eq_zero.mp none first (by omega)
  rw [run.clear first le_rfl (by omega)] at set
  contradiction

/-- A request in the lower driver reads a run of clear bits. -/
structure LowerIrp.IsGap (io : IoStackLocation) (bitmap : Bitmap) (lower : LowerIrp) (first count : ℕ) : Prop where
  run : ClearRun bitmap (io.length / 512) first count
  bufferOffset : lower.bufferOffset = 512 * first
  length : lower.length = 512 * count
  diskOffset : lower.diskOffset = io.byteOffset + 512 * first
  reads : lower.majorFunction = .read
  whole : lower.scattered = false → first = 0 ∧ count = io.length / 512

/-- The position of the splitting loop in a read of `n` sectors: everything below it has been issued. -/
def Pc.frontier (n : ℕ) : Pc → ℕ
  | .createScatter _ clearIndex _ => clearIndex
  | .split _ clearIndex _ _ => clearIndex
  | _ => n

def Call.frontier (c : Call) : ℕ := c.pc.frontier (c.irp.stack.length / 512)

/-- The sectors of the gap that the splitting loop is about to issue. -/
def Pc.gap : Pc → ℕ
  | .split _ _ clearBits _ => clearBits
  | _ => 0

/-- The sector of the read is still to come from the disk. -/
def Call.Awaits (c : Call) (k : ℕ) : Prop :=
  c.pc = .forward ∨ ∃ lower ∈ c.lowerIrps,
    sector c.irp.stack.byteOffset + k ∈ sectorsOf lower.diskOffset lower.length ∧
      sector c.irp.stack.byteOffset + k ∉ lower.moved

/-- The status block the request was completed with, by this driver or, when it was passed on, below. -/
def Call.answer (c : Call) : Option IoStatusBlock :=
  match c.completions with
  | [] => c.lowerStatus
  | completion :: _ => some ⟨completion.status, completion.information⟩

/-- The number of sectors a read with this bitmap reports. -/
def reported (bitmap : Bitmap) (n : ℕ) : ℕ := if clearBelow bitmap n = 0 then n else clearBelow bitmap n

/-- What the point of a read past its scan says of the first `n` bits of its bitmap. -/
def Pc.Merges (bitmap : Bitmap) (n : ℕ) : Pc → Prop
  | .forward => ∀ k < n, bitmap k = false
  | .complete status => status = STATUS_SUCCESS ∧ ∀ k < n, bitmap k = true
  | .createScatter bitmap' clearIndex clearBits =>
    bitmap' = bitmap ∧ ClearRun bitmap n clearIndex clearBits ∧ ∀ k < clearIndex, bitmap k = true
  | .split bitmap' clearIndex clearBits _ => bitmap' = bitmap ∧ ClearRun bitmap n clearIndex clearBits
  | .finishScatter _ => True
  | .returned _ => True
  | _ => False

/-- A read whose scan left this bitmap, and for which nothing has failed. -/
structure Call.Merges (bitmap : Bitmap) (c : Call) : Prop where
  point : c.pc.Merges bitmap (c.irp.stack.length / 512)
  full : ∀ status, c.pc = .complete status → c.information = c.irp.stack.length
  parts : ∀ lower ∈ c.lowerIrps, ∃ first count, lower.IsGap c.irp.stack bitmap first count ∧
    first + count ≤ c.frontier
  bytes : ∀ scatter, c.scatter = some scatter → scatter.lastFailedStatus = STATUS_SUCCESS ∧
    clearBelow bitmap (c.irp.stack.length / 512) ≠ 0 ∧
    scatter.bytesCompleted + c.lowerIrps.tally (fun lower => lower.length) = 512 * clearBelow bitmap c.frontier
  reports : ∀ ioStatus, c.answer = some ioStatus →
    ioStatus = ⟨STATUS_SUCCESS, 512 * reported bitmap (c.irp.stack.length / 512)⟩

/-- Every request below a merging read reads. -/
theorem Call.Merges.reads {bitmap : Bitmap} {c : Call} {n : ℕ} {lower : LowerIrp} (merges : c.Merges bitmap)
    (present : c.lowerIrps[n]? = some lower) : lower.majorFunction = .read := by
  obtain ⟨first, count, gap, -⟩ := merges.parts lower (List.mem_of_getElem? present)
  exact gap.reads

theorem Call.Merges.frontier_le {bitmap : Bitmap} {c : Call} (merges : c.Merges bitmap) :
    c.frontier ≤ c.irp.stack.length / 512 := by
  have point := merges.point
  rw [Call.frontier]
  cases at_ : c.pc <;> rw [at_] at point <;> first | exact le_rfl | skip
  case createScatter =>
    obtain ⟨-, run, -⟩ := point
    exact (Nat.le_add_right _ _).trans run.inside
  case split =>
    obtain ⟨-, run⟩ := point
    exact (Nat.le_add_right _ _).trans run.inside

/-- What one step does to the sectors of the buffer. -/
structure Call.Advances (disk : Bytes) (bitmap : Bitmap) (c c' : Call) : Prop where
  kept : ∀ k : ℕ, bitmap k = true → ∀ x, sector x = k → c'.buffer x = c.buffer x
  filled : ∀ k < c'.frontier, bitmap k = false → c'.Awaits k ∨
    (∀ x, sector x = k → c'.buffer x = disk (c.irp.stack.byteOffset + x)) ∨
    (k < c.frontier ∧ ¬ c.Awaits k ∧ ∀ x, sector x = k → c'.buffer x = c.buffer x)

section Gap

variable {size : ℤ} {io : IoStackLocation} {bitmap : Bitmap} {lower : LowerIrp} {first count : ℕ}

/-- The offsets and the length that `BuildIrp` gets for a gap are exact. -/
theorem gap_isGap (fits : size < 2 ^ 63) (accepted : io.ReadAccepted size)
    (run : ClearRun bitmap (io.length / 512) first count) :
    (LowerIrp.gap io first count).IsGap io bitmap first count := by
  obtain ⟨-, above, below⟩ := (endOfMedia_eq_false fits).mp accepted.onMedia
  obtain ⟨low, -⟩ := io.byteOffset_range
  have short := io.length_lt
  have inside := run.inside
  refine ⟨run, ?_, ?_, ?_, rfl, fun whole => ?_⟩
  · rw [LowerIrp.gap, shl9_of_lt (by omega)]
    push_cast
    ring
  · change shl9 count = 512 * count
    rw [shl9_of_lt (by omega), mul_comm]
  · rw [LowerIrp.gap, add64, wrap64_of_range (by omega) (by omega), mul_comm]
  · contradiction

/-- The skipped request reads everything. -/
theorem skipped_isGap (accepted : io.ReadAccepted size) (clear : ∀ k < io.length / 512, bitmap k = false) :
    (LowerIrp.skipped io).IsGap io bitmap 0 (io.length / 512) := by
  have nonempty := accepted.nonempty
  have whole := accepted.length
  refine ⟨⟨by omega, by omega, fun k _ below => clear k (by omega)⟩, rfl, ?_, by simp [LowerIrp.skipped],
    accepted.reads, fun _ => ⟨rfl, rfl⟩⟩
  change (if io.majorFunction = .read ∨ io.majorFunction = .write then io.length else 0) = _
  rw [if_pos (.inl accepted.reads)]
  omega

/-- The sectors of the disk that a request for a gap transfers. -/
theorem LowerIrp.IsGap.mem_sectorsOf (gap : lower.IsGap io bitmap first count) (aligned : io.byteOffset % 512 = 0)
    {s : ℤ} : s ∈ sectorsOf lower.diskOffset lower.length ↔
      ∃ k : ℕ, first ≤ k ∧ k < first + count ∧ s = sector io.byteOffset + k := by
  have nonempty := gap.run.nonempty
  rw [sectorsOf, if_neg (by rw [gap.length]; omega), gap.diskOffset, gap.length]
  simp only [List.mem_map, List.mem_range, sector]
  constructor
  · rintro ⟨k, below, rfl⟩
    exact ⟨first + k, by omega, by omega, by omega⟩
  · rintro ⟨k, above, below, rfl⟩
    exact ⟨k - first, by omega, by omega⟩

/-- A transfer for a gap fills one sector of the buffer with the disk's. -/
theorem LowerIrp.IsGap.readSector (gap : lower.IsGap io bitmap first count) (aligned : io.byteOffset % 512 = 0)
    {k : ℕ} (above : first ≤ k) (below : k < first + count) (buffer disk : Bytes) (x : ℤ) :
    readSector buffer lower.bufferOffset disk lower.diskOffset lower.length (sector io.byteOffset + k) x =
      if sector x = k then disk (io.byteOffset + x) else buffer x := by
  rw [QueueCache.readSector, gap.bufferOffset, gap.diskOffset, gap.length]
  have same : (512 * first ≤ x ∧ x < 512 * first + (512 * count : ℕ) ∧
      sector (x - 512 * first + (io.byteOffset + 512 * first)) = sector io.byteOffset + k) ↔ sector x = k := by
    simp only [sector]
    omega
  by_cases inside : sector x = k
  · rw [if_pos (same.mpr inside), if_pos inside]
    congr 1
    ring
  · rw [if_neg (mt same.mp inside), if_neg inside]

end Gap

section Step

variable {size : ℤ} {sh sh' : Shared} {i : ℕ} {c c' : Call} {a : Action} {out : Outcome} {bitmap : Bitmap}

/-- A request that neither this driver nor the one below has completed has no answer. -/
theorem not_answered {ioStatus : IoStatusBlock} (answered : c.answer = some ioStatus) (completions : c.completions = [])
    (lowerStatus : c.lowerStatus = none) : False := by
  simp [Call.answer, completions, lowerStatus] at answered

theorem answer_completeRequest (completions : c.completions = []) (site : CompletionSite) (status : NtStatus) :
    (c.completeRequest site status).answer = some ⟨status, c.information⟩ := by
  simp only [Call.answer, Call.completeRequest, completions, List.nil_append]

theorem scatterComplete_answer (completions : c.completions = []) (scatter : ScatteredIrp) :
    (scatterComplete sh i c scatter).2.answer = if scatter.scatterCount = 1 then
      some ⟨scatter.lastFailedStatus, if ntSuccess scatter.lastFailedStatus then scatter.bytesCompleted else 0⟩
    else c.answer := by
  by_cases one : scatter.scatterCount = 1
  · have zero : scatter.scatterCount - 1 = 0 := by omega
    rw [if_pos one, scatterComplete]
    simp only [zero, reduceIte]
    apply answer_completeRequest
    exact completions
  · have more : ¬ scatter.scatterCount - 1 = 0 := by omega
    rw [if_neg one, scatterComplete]
    simp only [more, reduceIte]
    rfl

/-- What is in flight and what has come back add up to what was issued, until the last reference reports it. -/
theorem Call.Merges.complete {scatter : ScatteredIrp} (point : c.pc.Merges bitmap (c.irp.stack.length / 512))
    (notFull : ∀ status, c.pc ≠ .complete status)
    (parts : ∀ lower ∈ c.lowerIrps, ∃ first count, lower.IsGap c.irp.stack bitmap first count ∧
      first + count ≤ c.frontier)
    (completions : c.completions = []) (lowerStatus : c.lowerStatus = none)
    (status : scatter.lastFailedStatus = STATUS_SUCCESS)
    (some : clearBelow bitmap (c.irp.stack.length / 512) ≠ 0)
    (bytes : scatter.bytesCompleted + c.lowerIrps.tally (fun lower => lower.length) =
      512 * clearBelow bitmap c.frontier)
    (last : scatter.scatterCount = 1 → c.lowerIrps = [] ∧ c.frontier = c.irp.stack.length / 512) :
    (scatterComplete sh i c scatter).2.Merges bitmap := by
  refine ⟨?_, ?_, ?_, ?_, ?_⟩
  · rwa [scatterComplete_pc, scatterComplete_irp]
  · rw [scatterComplete_pc]
    exact fun other at_ => absurd at_ (notFull other)
  · rw [scatterComplete_lowerIrps, scatterComplete_irp, Call.frontier, scatterComplete_pc, scatterComplete_irp]
    exact parts
  · intro other live
    rw [scatterComplete_lowerIrps, scatterComplete_irp, Call.frontier, scatterComplete_pc, scatterComplete_irp]
    unfold scatterComplete at live
    dsimp only at live
    split at live
    · contradiction
    · obtain rfl := Option.some.inj live
      exact ⟨status, some, bytes⟩
  · intro ioStatus answered
    have success : ntSuccess STATUS_SUCCESS = true := by decide
    rw [scatterComplete_answer completions] at answered
    rw [scatterComplete_irp]
    split at answered
    · next one =>
      obtain ⟨noParts, atEnd⟩ := last one
      rw [noParts, atEnd, List.tally_nil] at bytes
      obtain rfl := Option.some.inj answered
      simp only [status, success, reduceIte, reported, if_neg some, IoStatusBlock.mk.injEq, true_and]
      omega
    · exact (not_answered answered completions lowerStatus).elim

/-- The dispatch call gets the memory and the remove lock it asks the kernel for. -/
def Call.granted (sh : Shared) (c : Call) (out : Outcome) : Bool :=
  match c.pc with
  | .entry => out.memory
  | .createScatter _ _ _ => sh.canAcquire out.lock && out.memory
  | .split _ _ _ _ => out.memory
  | _ => true

/-- Every step of a read past its scan that gets what it asks for. -/
inductive MergeStep (bitmap : Bitmap) (i : ℕ) (c : Call) : Call → Prop
  | forward {status : NtStatus} (at_ : c.pc = .forward) (clear : ∀ k < c.irp.stack.length / 512, bitmap k = false) :
      MergeStep bitmap i c (sendToNextDriver c status)
  | complete (at_ : c.pc = .complete STATUS_SUCCESS) (set : ∀ k < c.irp.stack.length / 512, bitmap k = true) :
      MergeStep bitmap i c (c.finish .dispatch STATUS_SUCCESS)
  | createScatter {clearIndex clearBits : ℕ} (at_ : c.pc = .createScatter bitmap clearIndex clearBits)
      (run : ClearRun bitmap (c.irp.stack.length / 512) clearIndex clearBits)
      (before : ∀ k < clearIndex, bitmap k = true) :
      MergeStep bitmap i c ({ c with scatter := some ⟨1, STATUS_SUCCESS, 0⟩, pendingReturned := true }.goto
        (.split bitmap clearIndex clearBits 0))
  | split {clearIndex clearBits splits next : ℕ} {scatter : ScatteredIrp} {pc : Pc}
      (at_ : c.pc = .split bitmap clearIndex clearBits splits) (live : c.scatter = some scatter)
      (run : ClearRun bitmap (c.irp.stack.length / 512) clearIndex clearBits) (past : clearIndex + clearBits ≤ next)
      (set : ∀ k, clearIndex + clearBits ≤ k → k < next → bitmap k = true)
      (goes : (next = c.irp.stack.length / 512 ∧ pc = .finishScatter (splits + 1)) ∨ ∃ nextBits,
        ClearRun bitmap (c.irp.stack.length / 512) next nextBits ∧ pc = .split bitmap next nextBits (splits + 1)) :
      MergeStep bitmap i c ({ c with
        scatter := some { scatter with scatterCount := scatter.scatterCount + 1 }
        lowerIrps := c.lowerIrps ++ [LowerIrp.gap c.irp.stack clearIndex clearBits] }.goto pc)
  | finishScatter {sh : Shared} {splits : ℕ} {scatter : ScatteredIrp} (at_ : c.pc = .finishScatter splits)
      (live : c.scatter = some scatter) :
      MergeStep bitmap i c (scatterComplete sh i (c.goto (.returned STATUS_PENDING)) scatter).2

theorem CallStep.merging (point : c.pc.Merges bitmap (c.irp.stack.length / 512)) (granted : c.granted sh out = true)
    (moved : CallStep sh i c out sh' c') : MergeStep bitmap i c c' := by
  cases moved with
  | forward at_ =>
    rw [at_] at point
    exact .forward at_ point
  | complete at_ =>
    rw [at_] at point
    obtain ⟨rfl, set⟩ := point
    exact .complete at_ set
  | createScatter at_ =>
    rw [at_] at point
    obtain ⟨rfl, run, before⟩ := point
    exact .createScatter at_ run before
  | splitOn at_ live frame cached next goes =>
    rw [at_] at point
    obtain ⟨rfl, run⟩ := point
    obtain ⟨low, high, set, clear, -, atEnd⟩ := rtlFindNextForwardRunClear_spec _ run.inside next
    refine .split at_ live run low set ?_
    obtain ⟨last, rfl⟩ | ⟨more, rfl⟩ := goes
    · exact .inl ⟨atEnd last, rfl⟩
    · exact .inr ⟨_, ⟨by omega, high, clear⟩, rfl⟩
  | finishScatter at_ live => exact .finishScatter at_ live
  | noScatter at_ failed =>
    simp only [Call.granted, at_, Bool.and_eq_true] at granted
    simp [granted] at failed
  | splitFail at_ live noMemory =>
    simp only [Call.granted, at_, noMemory] at granted
    contradiction
  | refuse at_ => rcases at_ with at_ | at_ | at_ <;> rw [at_] at point <;> contradiction
  | noItem at_ => rcases at_ with at_ | at_ <;> rw [at_] at point <;> contradiction
  | noLock at_ => rcases at_ with at_ | at_ <;> rw [at_] at point <;> contradiction
  | _ at_ => rw [at_] at point; contradiction

theorem MergeStep.irp (moved : MergeStep bitmap i c c') : c'.irp = c.irp := by
  cases moved with
  | finishScatter => simp
  | _ => rfl

theorem MergeStep.point (moved : MergeStep bitmap i c c') : c'.pc.Merges bitmap (c.irp.stack.length / 512) := by
  cases moved with
  | forward => trivial
  | complete => trivial
  | createScatter _ run => exact ⟨rfl, run⟩
  | split _ _ _ _ _ goes =>
    obtain ⟨-, rfl⟩ | ⟨_, run, rfl⟩ := goes
    · trivial
    · exact ⟨rfl, run⟩
  | finishScatter =>
    rw [scatterComplete_pc]
    trivial

/-- The position moves past the gap that was issued and the set bits behind it. -/
theorem MergeStep.issued (moved : MergeStep bitmap i c c') :
    clearBelow bitmap c'.frontier = clearBelow bitmap c.frontier + c.pc.gap := by
  cases moved with
  | forward at_ =>
    rw [Call.frontier, Call.frontier, at_]
    rfl
  | complete at_ =>
    rw [Call.frontier, Call.frontier, at_]
    rfl
  | createScatter at_ =>
    rw [Call.frontier, Call.frontier, at_]
    rfl
  | @split clearIndex clearBits splits next scatter pc at_ live run past set goes =>
    have issued : clearBelow bitmap next = clearBelow bitmap clearIndex + clearBits := by
      rw [clearBelow_of_set past set, clearBelow_of_clear run.clear]
    rw [Call.frontier, Call.frontier, at_]
    obtain ⟨rfl, rfl⟩ | ⟨_, _, rfl⟩ := goes <;> exact issued
  | finishScatter at_ =>
    rw [Call.frontier, Call.frontier, scatterComplete_pc, scatterComplete_irp, at_]
    rfl

/-- The steps a read of `n` sectors still takes at most. -/
def Pc.stepsLeft (n : ℕ) : Pc → ℕ
  | .forward | .complete _ | .finishScatter _ => 1
  | .createScatter _ clearIndex _ => n - clearIndex + 2
  | .split _ clearIndex _ _ => n - clearIndex + 1
  | _ => 0

/-- The splitting loop terminates: every round moves it forward. -/
theorem MergeStep.stepsLeft (moved : MergeStep bitmap i c c') :
    c'.pc.stepsLeft (c.irp.stack.length / 512) < c.pc.stepsLeft (c.irp.stack.length / 512) := by
  cases moved with
  | forward at_ =>
    rw [at_]
    exact Nat.one_pos
  | complete at_ =>
    rw [at_]
    exact Nat.one_pos
  | createScatter at_ =>
    rw [at_]
    exact Nat.lt_succ_self _
  | split at_ _ run past _ goes =>
    have nonempty := run.nonempty
    have inside := run.inside
    rw [at_]
    obtain ⟨rfl, rfl⟩ | ⟨_, further, rfl⟩ := goes
    · simp only [Call.goto, Pc.stepsLeft]
      omega
    · simp only [Call.goto, Pc.stepsLeft]
      omega
  | finishScatter at_ =>
    rw [scatterComplete_pc, at_]
    exact Nat.one_pos

/-- A dispatch call that gets what it asks for goes on merging. -/
theorem MergeStep.merges (merges : c.Merges bitmap) (ok : CallOk i c) (fits : size < 2 ^ 63)
    (accepted : c.irp.stack.ReadAccepted size) (moved : MergeStep bitmap i c c') : c'.Merges bitmap := by
  have here := ok.atPc
  have point := moved.point
  have issued := moved.issued
  cases moved with
  | forward at_ clear =>
    rw [Call.AtPc, at_] at here
    obtain ⟨untouched, -⟩ := here
    refine ⟨point, fun _ full => by contradiction, ?_, fun scatter live => ?_, fun ioStatus answered => ?_⟩
    · intro lower member
      simp only [sendToNextDriver, untouched.lowerIrps, List.nil_append, List.mem_singleton] at member
      rw [member]
      exact ⟨0, _, skipped_isGap accepted clear, by simp [Call.frontier, Pc.frontier, sendToNextDriver]⟩
    · have live : c.scatter = some scatter := live
      rw [untouched.scatter] at live
      contradiction
    · exact (not_answered answered untouched.completions untouched.lowerStatus).elim
  | complete at_ set =>
    rw [Call.AtPc, at_] at here
    obtain ⟨untouched, -⟩ := here
    refine ⟨point, fun _ full => by contradiction, fun lower member => ?_, fun scatter live => ?_,
      fun ioStatus answered => ?_⟩
    · have member : lower ∈ c.lowerIrps := member
      rw [untouched.lowerIrps] at member
      contradiction
    · have live : c.scatter = some scatter := live
      rw [untouched.scatter] at live
      contradiction
    · have answered : (c.completeRequest .dispatch STATUS_SUCCESS).answer = some ioStatus := answered
      rw [answer_completeRequest untouched.completions] at answered
      obtain rfl := Option.some.inj answered
      have whole := accepted.length
      have nothing : clearBelow bitmap (c.irp.stack.length / 512) = 0 := clearBelow_eq_zero.mpr set
      have stack : (c.finish .dispatch STATUS_SUCCESS).irp.stack = c.irp.stack := rfl
      simp only [stack, reported, nothing, merges.full _ at_, reduceIte, IoStatusBlock.mk.injEq, true_and]
      omega
  | createScatter at_ run before =>
    rw [Call.AtPc, at_] at here
    obtain ⟨untouched, -⟩ := here
    refine ⟨point, fun _ full => by contradiction, fun lower member => ?_, ?_, fun ioStatus answered => ?_⟩
    · have member : lower ∈ c.lowerIrps := member
      rw [untouched.lowerIrps] at member
      contradiction
    · rintro _ ⟨⟩
      refine ⟨rfl, run.counts, ?_⟩
      simp [untouched.lowerIrps, Call.frontier, Pc.frontier, clearBelow_eq_zero.mpr before]
    · exact (not_answered answered untouched.completions untouched.lowerStatus).elim
  | @split clearIndex clearBits splits next scatter pc at_ live run past set goes =>
    obtain ⟨status, some, bytes⟩ := merges.bytes _ live
    have gap := gap_isGap fits accepted run
    have atNext : pc.frontier (c.irp.stack.length / 512) = next ∧ ∀ status, pc ≠ .complete status := by
      obtain ⟨rfl, rfl⟩ | ⟨_, _, rfl⟩ := goes <;> exact ⟨rfl, by rintro _ ⟨⟩⟩
    have size : c.pc.gap = clearBits := by rw [at_]; rfl
    rw [size] at issued
    refine ⟨point, fun _ full => absurd full (atNext.2 _), fun lower member => ?_, ?_, merges.reports⟩
    · have atIndex : c.frontier = clearIndex := by rw [Call.frontier, at_]; rfl
      change ∃ first count, lower.IsGap c.irp.stack bitmap first count ∧
        first + count ≤ pc.frontier (c.irp.stack.length / 512)
      rw [atNext.1]
      obtain old | new := List.mem_append.mp member
      · obtain ⟨first, count, isGap, below⟩ := merges.parts lower old
        exact ⟨first, count, isGap, by omega⟩
      · rw [List.mem_singleton.mp new]
        exact ⟨clearIndex, clearBits, gap, past⟩
    · rintro _ ⟨⟩
      refine ⟨status, some, ?_⟩
      rw [issued]
      simp only [Call.goto, List.tally_append, List.tally_cons, List.tally_nil, gap.length]
      push_cast
      omega
  | @finishScatter sh splits scatter at_ live =>
    rw [Call.AtPc, at_] at here
    obtain ⟨status, some, bytes⟩ := merges.bytes _ live
    obtain ⟨count, positive, completions⟩ := here.alive _ live
    have atEnd : c.frontier = c.irp.stack.length / 512 := by rw [Call.frontier, at_]; rfl
    rw [atEnd] at bytes
    refine .complete trivial (fun _ full => by contradiction) ?_ completions here.lowerStatus status some bytes ?_
    · have parts := merges.parts
      rwa [atEnd] at parts
    · intro last
      have noParts : c.lowerIrps.length = 0 := by omega
      exact ⟨List.length_eq_zero_iff.mp noParts, rfl⟩

/-- The lower driver returns the request in full. -/
def LowerFull (c : Call) (a : Action) : Prop :=
  ∀ i n ioStatus lower, a = .lowerComplete i n ioStatus → c.lowerIrps[n]? = some lower →
    ioStatus = ⟨STATUS_SUCCESS, lower.length⟩

/-- Requests in the lower driver that come back in full leave nothing out. -/
theorem LowerMove.merges (merges : c.Merges bitmap) (ok : CallOk i c) (reads : c.irp.stack.majorFunction = .read)
    (full : LowerFull c a) (moved : LowerMove sh i c a sh' c') : c'.Merges bitmap := by
  have progress : ∀ {n lower} sec, c.lowerIrps[n]? = some lower →
      ∀ other ∈ c.lowerIrps.set n { lower with moved := sec :: lower.moved },
        ∃ first count, other.IsGap c.irp.stack bitmap first count ∧ first + count ≤ c.frontier := by
    intro n lower sec present other member
    obtain old | rfl := List.mem_or_eq_of_mem_set member
    · exact merges.parts other old
    · obtain ⟨first, count, gap, below⟩ := merges.parts lower (List.mem_of_getElem? present)
      exact ⟨first, count, { gap with }, below⟩
  cases moved with
  | write present covered fresh writes =>
    rw [merges.reads present] at writes
    contradiction
  | read present covered fresh =>
    refine ⟨merges.point, merges.full, progress _ present, fun scatter live => ?_, merges.reports⟩
    obtain ⟨status, some, bytes⟩ := merges.bytes scatter live
    refine ⟨status, some, ?_⟩
    change _ + List.tally (fun lower : LowerIrp => (lower.length : ℤ)) (c.lowerIrps.set _ _) = _
    rw [List.tally_set present, sub_add_cancel]
    exact bytes
  | @scattered n lower scatter ioStatus present part live allowed =>
    obtain ⟨status, some, bytes⟩ := merges.bytes scatter live
    obtain rfl := full _ _ _ _ rfl present
    have success : ntSuccess STATUS_SUCCESS = true := by decide
    have inside := (List.getElem?_eq_some_iff.mp present).1
    rw [if_pos success]
    obtain ⟨own, scattered, notFull, returned⟩ : ∃ own, c.Scattered own ∧ (∀ status, c.pc ≠ .complete status) ∧
        (own = 1 ∨ own = 0 ∧ c.pc = .returned STATUS_PENDING) := by
      obtain ⟨inLoop, scattered⟩ | ⟨-, at_, scattered⟩ := ok.scattered reads (ok.pending_of_part reads live)
      · refine ⟨1, scattered, fun status at_ => ?_, .inl rfl⟩
        rw [at_] at inLoop
        contradiction
      · exact ⟨0, scattered, by simp [at_], .inr ⟨rfl, at_⟩⟩
    obtain ⟨count, positive, completions⟩ := scattered.alive _ live
    refine .complete merges.point notFull ?_ completions scattered.lowerStatus status some ?_ ?_
    · exact fun other member => merges.parts other (List.mem_of_mem_eraseIdx member)
    · change ((scatter.bytesCompleted + lower.length : ℕ) : ℤ) + List.tally _ (c.lowerIrps.eraseIdx n) = _
      rw [List.tally_eraseIdx present, Nat.cast_add]
      have atFrontier : Call.frontier { c with lowerIrps := c.lowerIrps.eraseIdx n } = c.frontier := rfl
      rw [atFrontier, ← bytes]
      ring
    · intro last
      have last : scatter.scatterCount = 1 := last
      have fewer := List.length_eraseIdx_of_lt inside
      obtain rfl | ⟨rfl, at_⟩ := returned
      · omega
      · refine ⟨List.length_eq_zero_iff.mp ?_, ?_⟩
        · change (c.lowerIrps.eraseIdx n).length = 0
          omega
        · change c.pc.frontier (c.irp.stack.length / 512) = c.irp.stack.length / 512
          rw [at_]
          rfl
  | @skipped n lower ioStatus present whole =>
    obtain ⟨first, count, gap, -⟩ := merges.parts _ (List.mem_of_getElem? present)
    obtain rfl := full _ _ _ _ rfl present
    obtain ⟨rfl, rfl⟩ := gap.whole whole
    have clear : clearBelow bitmap (c.irp.stack.length / 512) = c.irp.stack.length / 512 :=
      clearBelow_eq_self.mpr fun k below => gap.run.clear k (Nat.zero_le _) (by omega)
    have noScatter : c.scatter = none := by
      by_contra live
      obtain ⟨scatter, live⟩ := Option.ne_none_iff_exists'.mp live
      have part : lower.scattered = true := by
        obtain ⟨-, scattered⟩ | ⟨-, -, scattered⟩ := ok.scattered reads (ok.pending_of_part reads live)
        all_goals exact scattered.parts lower (List.mem_of_getElem? present)
      rw [whole] at part
      contradiction
    refine ⟨merges.point, merges.full, ?_, fun scatter live => ?_, fun ioStatus answered => ?_⟩
    · exact fun other member => merges.parts other (List.mem_of_mem_eraseIdx member)
    · have live : c.scatter = some scatter := live
      rw [noScatter] at live
      contradiction
    · unfold Call.answer at answered
      cases completions : c.completions with
      | nil =>
        simp only [completions, Option.some.injEq] at answered
        rw [← answered, gap.length, reported, clear, ite_self]
      | cons completion rest =>
        simp only [completions] at answered
        exact merges.reports ioStatus (by rw [Call.answer, completions]; exact answered)

/-- A step that moves no data loses no sector that is waited for. -/
theorem Call.Advances.still {disk : Bytes} (buffer : c'.buffer = c.buffer)
    (awaits : ∀ k, c.Awaits k → c'.Awaits k)
    (next : ∀ k < c'.frontier, bitmap k = false → k < c.frontier ∨ c'.Awaits k) : c.Advances disk bitmap c' := by
  refine ⟨fun k _ x _ => by rw [buffer], fun k below clear => ?_⟩
  obtain old | new := next k below clear
  · by_cases waits : c.Awaits k
    · exact .inl (awaits k waits)
    · exact .inr (.inr ⟨old, waits, fun x _ => by rw [buffer]⟩)
  · exact .inl new

theorem MergeStep.advances {disk : Bytes} (fits : size < 2 ^ 63) (accepted : c.irp.stack.ReadAccepted size)
    (moved : MergeStep bitmap i c c') : c.Advances disk bitmap c' := by
  cases moved with
  | forward at_ clear =>
    have gap := skipped_isGap accepted clear
    refine ⟨fun _ _ _ _ => rfl, fun k below _ => .inl (.inr ?_)⟩
    refine ⟨_, List.mem_append_right _ (List.mem_singleton_self _), ?_, by simp [LowerIrp.skipped]⟩
    have below : k < c.irp.stack.length / 512 := below
    exact (gap.mem_sectorsOf accepted.offset).mpr ⟨k, Nat.zero_le _, by omega, rfl⟩
  | complete at_ set =>
    refine ⟨fun _ _ _ _ => rfl, fun k below clear => ?_⟩
    rw [set k below] at clear
    contradiction
  | createScatter at_ run before =>
    refine ⟨fun _ _ _ _ => rfl, fun k below clear => ?_⟩
    rw [before k below] at clear
    contradiction
  | @split clearIndex clearBits splits next scatter pc at_ live run past set goes =>
    have gap := gap_isGap fits accepted run
    have atIndex : c.frontier = clearIndex := by rw [Call.frontier, at_]; rfl
    refine .still rfl ?_ fun k below clear => ?_
    · rintro k (forward | ⟨lower, member, waits⟩)
      · rw [at_] at forward
        contradiction
      · exact .inr ⟨lower, List.mem_append_left _ member, waits⟩
    · have below : k < next := by
        obtain ⟨rfl, rfl⟩ | ⟨_, _, rfl⟩ := goes <;> exact below
      by_cases old : k < clearIndex
      · exact .inl (by omega)
      · by_cases inGap : k < clearIndex + clearBits
        · refine .inr (.inr ⟨_, List.mem_append_right _ (List.mem_singleton_self _), ?_, by simp [LowerIrp.gap]⟩)
          exact (gap.mem_sectorsOf accepted.offset).mpr ⟨k, by omega, inGap, rfl⟩
        · rw [set k (by omega) below] at clear
          contradiction
  | finishScatter at_ =>
    have atEnd : c.frontier = c.irp.stack.length / 512 := by rw [Call.frontier, at_]; rfl
    refine .still (by rw [scatterComplete_buffer]; rfl) ?_ fun k below _ => .inl ?_
    · rintro k (forward | waits)
      · rw [at_] at forward
        contradiction
      · refine .inr ?_
        rw [scatterComplete_lowerIrps, scatterComplete_irp]
        exact waits
    · rw [Call.frontier, scatterComplete_pc, scatterComplete_irp] at below
      rw [atEnd]
      exact below

/-- A request that has transferred everything waits for nothing. -/
theorem LowerIrp.not_awaits {lower : LowerIrp} (done : lower.done = true) {s : ℤ}
    (covered : s ∈ sectorsOf lower.diskOffset lower.length) : s ∈ lower.moved := by
  rw [LowerIrp.done, List.all_eq_true] at done
  exact of_decide_eq_true (done s covered)

theorem LowerMove.advances (merges : c.Merges bitmap) (aligned : c.irp.stack.byteOffset % 512 = 0)
    (full : LowerFull c a) (moved : LowerMove sh i c a sh' c') : c.Advances sh.disk bitmap c' := by
  have returned : ∀ {n lower ioStatus}, c.lowerIrps[n]? = some lower → ioStatus = ⟨STATUS_SUCCESS, lower.length⟩ →
      admissible ioStatus lower.length lower.done = true → ∀ k, c.Awaits k → c.pc = .forward ∨
        ∃ other ∈ c.lowerIrps.eraseIdx n, sector c.irp.stack.byteOffset + k ∈ sectorsOf other.diskOffset other.length ∧
          sector c.irp.stack.byteOffset + k ∉ other.moved := by
    rintro n lower _ present rfl allowed k (forward | ⟨other, member, covered, missing⟩)
    · exact .inl forward
    · refine .inr ⟨other, ?_, covered, missing⟩
      have done : lower.done = true := by
        have success : ntSuccess STATUS_SUCCESS = true := by decide
        simpa [admissible, success] using allowed
      obtain ⟨m, at_⟩ := List.getElem?_of_mem member
      refine List.mem_eraseIdx_iff_getElem?.mpr ⟨m, ?_, at_⟩
      rintro rfl
      obtain rfl := Option.some.inj (present.symm.trans at_)
      exact missing (LowerIrp.not_awaits done covered)
  cases moved with
  | write present covered fresh writes =>
    rw [merges.reads present] at writes
    contradiction
  | @read n lower sec present covered fresh =>
    obtain ⟨first, count, gap, -⟩ := merges.parts _ (List.mem_of_getElem? present)
    obtain ⟨k, above, below, rfl⟩ := (gap.mem_sectorsOf aligned).mp covered
    have filled := gap.readSector aligned above below c.buffer sh.disk
    refine ⟨fun j set x inside => ?_, fun j issued clear => ?_⟩
    · dsimp only
      rw [filled, if_neg]
      rintro here
      obtain rfl : j = k := by omega
      rw [gap.run.clear j above below] at set
      contradiction
    · by_cases here : j = k
      · subst here
        refine .inr (.inl fun x inside => ?_)
        dsimp only
        rw [filled, if_pos inside]
      · by_cases waits : c.Awaits j
        · left
          obtain forward | ⟨other, member, within, missing⟩ := waits
          · exact .inl forward
          · obtain ⟨m, at_⟩ := List.getElem?_of_mem member
            by_cases same : m = n
            · subst same
              obtain rfl := Option.some.inj (present.symm.trans at_)
              refine .inr ⟨_, List.mem_iff_getElem?.mpr
                ⟨m, List.getElem?_set_self (List.getElem?_eq_some_iff.mp present).1⟩, within, ?_⟩
              simp only [List.mem_cons, not_or]
              exact ⟨by omega, missing⟩
            · exact .inr ⟨other, List.mem_iff_getElem?.mpr ⟨m, by rw [List.getElem?_set_ne (Ne.symm same), at_]⟩,
                within, missing⟩
        · refine .inr (.inr ⟨issued, waits, fun x inside => ?_⟩)
          dsimp only
          rw [filled, if_neg (by omega)]
  | @scattered n lower scatter ioStatus present part live allowed =>
    refine .still (by rw [scatterComplete_buffer]) (fun k waits => ?_) fun k below _ => .inl ?_
    · have waits := returned present (full _ _ _ _ rfl present) allowed k waits
      rw [Call.Awaits, scatterComplete_pc, scatterComplete_lowerIrps, scatterComplete_irp]
      exact waits
    · rw [Call.frontier, scatterComplete_pc, scatterComplete_irp] at below
      exact below
  | skipped present whole allowed =>
    exact .still rfl (returned present (full _ _ _ _ rfl present) allowed) fun k below _ => .inl below

/-- The scan leaves a read that merges with its bitmap. -/
theorem CallStep.scanned (fits : size < 2 ^ 63) (accepted : c.irp.stack.ReadAccepted size)
    (queued : ∀ item ∈ sh.queue, item.Accepted size ∨ item.Empty) (ok : CallOk i c) (at_ : c.pc = .scanQueue)
    (moved : CallStep sh i c out sh' c') :
    c'.Merges (scanWriteQueue c.irp.stack c.buffer sh.statistics sh.queue).bitmap ∧
      c'.buffer = (scanWriteQueue c.irp.stack c.buffer sh.statistics sh.queue).buffer ∧
      ∀ k < c'.frontier, (scanWriteQueue c.irp.stack c.buffer sh.statistics sh.queue).bitmap k = false →
        c'.Awaits k := by
  obtain ⟨-, marked, found⟩ := scan_spec fits accepted queued c.buffer sh.statistics
  have here := ok.atPc
  rw [Call.AtPc, at_] at here
  obtain ⟨untouched, -⟩ := here
  have fresh : ∀ {d : Call}, d.irp = c.irp → d.lowerIrps = c.lowerIrps → d.scatter = c.scatter →
      d.completions = c.completions → d.lowerStatus = c.lowerStatus →
      d.pc.Merges (scanWriteQueue c.irp.stack c.buffer sh.statistics sh.queue).bitmap (c.irp.stack.length / 512) →
      (∀ status, d.pc = .complete status → d.information = c.irp.stack.length) →
      d.Merges (scanWriteQueue c.irp.stack c.buffer sh.statistics sh.queue).bitmap := by
    intro d irp lowerIrps scatter completions lowerStatus point full
    refine ⟨by rwa [irp], by rwa [irp], fun lower member => ?_, fun object live => ?_, fun ioStatus answered => ?_⟩
    · rw [lowerIrps, untouched.lowerIrps] at member
      contradiction
    · rw [scatter, untouched.scatter] at live
      contradiction
    · exact (not_answered answered (completions.trans untouched.completions)
        (lowerStatus.trans untouched.lowerStatus)).elim
  cases moved with
  | scanForward _ frame cached noneFound =>
    refine ⟨fresh rfl rfl rfl rfl rfl (fun k _ => ?_) (fun _ full => by contradiction), rfl, fun _ _ _ => .inl rfl⟩
    by_contra set
    obtain ⟨item, member, overlap, -⟩ := (marked k).mp (by simpa using set)
    rw [found.mpr ⟨item, member, overlap⟩] at noneFound
    contradiction
  | scanFull _ frame cached noGap =>
    obtain ⟨-, -, set, -, -, atEnd⟩ := rtlFindNextForwardRunClear_spec _ (Nat.zero_le _) noGap
    have all : ∀ k < c.irp.stack.length / 512,
        (scanWriteQueue c.irp.stack c.buffer sh.statistics sh.queue).bitmap k = true := by
      intro k below
      exact set k (Nat.zero_le _) (by rw [atEnd rfl]; exact below)
    refine ⟨fresh rfl rfl rfl rfl rfl ⟨rfl, all⟩ (fun _ _ => rfl), rfl, fun k below clear => ?_⟩
    rw [all k below] at clear
    contradiction
  | scanGap _ frame cached gap nonempty =>
    obtain ⟨-, inside, set, clear, -⟩ := rtlFindNextForwardRunClear_spec _ (Nat.zero_le _) gap
    have before := fun k below => set k (Nat.zero_le _) below
    refine ⟨fresh rfl rfl rfl rfl rfl ⟨rfl, ⟨by omega, inside, clear⟩, before⟩ (fun _ full => by contradiction), rfl,
      fun k below clear => ?_⟩
    rw [before k below] at clear
    contradiction
  | refuse here => simp [at_] at here
  | noItem here => simp [at_] at here
  | noLock here => simp [at_] at here
  | _ here => rw [at_] at here; contradiction

end Step

/-- Call `i` gets what it asks for, and the lower driver returns its requests in full. -/
def readInFull (i : ℕ) (s : State) : Action → Bool
  | .call j out => j ≠ i || (s.calls[i]?).all fun c => c.granted s.shared out
  | .lowerComplete j n ioStatus =>
    j ≠ i || ((s.calls[i]?).bind fun c => c.lowerIrps[n]?).all fun lower => ioStatus = ⟨STATUS_SUCCESS, lower.length⟩
  | _ => true

section Run

variable {size : ℤ} {s s' : State} {i : ℕ} {c c' : Call} {a : Action} {bitmap : Bitmap}

/-- A step of call `i` or of the lower driver on it needs nothing else of the state. -/
theorem callMove_of_caller (caller : a.caller = some i) (moved : s.step a = some s')
    (present : s'.calls[i]? = some c') :
    CallMove s a s' i c' := by
  cases step_cases moved with
  | @call j out c sh' d there taken =>
    obtain rfl : j = i := Option.some.inj caller
    rw [State.update_calls, List.getElem?_set_self (List.getElem?_eq_some_iff.mp there).1] at present
    obtain rfl := Option.some.inj present
    exact .call rfl there taken
  | @lower _ j c sh' d there taken =>
    obtain rfl : j = i := Option.some.inj (taken.caller.symm.trans caller)
    rw [State.update_calls, List.getElem?_set_self (List.getElem?_eq_some_iff.mp there).1] at present
    obtain rfl := Option.some.inj present
    exact .lower caller there taken
  | receive => contradiction
  | worker taken => cases taken <;> contradiction
  | remover => contradiction
  | initializeDevice => contradiction

/-- Whoever moves, a read past its scan goes on merging. -/
theorem CallMove.merges (move : CallMove s a s' i c') (present : s.calls[i]? = some c) (ok : CallOk i c)
    (fits : size < 2 ^ 63) (accepted : c.irp.stack.ReadAccepted size) (full : readInFull i s a = true)
    (merges : c.Merges bitmap) :
    c'.irp = c.irp ∧ c'.Merges bitmap ∧ c.Advances s.shared.disk bitmap c' := by
  cases move with
  | received _ fresh =>
    rw [fresh] at present
    contradiction
  | @call out d action there taken =>
    obtain rfl := Option.some.inj (present.symm.trans there)
    subst action
    have granted : c.granted s.shared out = true := by simpa [readInFull, present] using full
    have step := taken.merging merges.point granted
    exact ⟨taken.irp, step.merges merges ok fits accepted, step.advances fits accepted⟩
  | @lower d caller there taken =>
    obtain rfl := Option.some.inj (present.symm.trans there)
    have returns : LowerFull c a := by
      rintro j n ioStatus lower rfl part
      obtain rfl : j = i := Option.some.inj caller
      simpa [readInFull, present, part] using full
    exact ⟨taken.irp, taken.merges merges ok accepted.reads returns, taken.advances merges accepted.offset returns⟩
  | worker _ there held =>
    obtain rfl := Option.some.inj (present.symm.trans there)
    exact absurd accepted.reads held.kind
  | still _ there =>
    obtain rfl := Option.some.inj (present.symm.trans there)
    exact ⟨rfl, merges, .still rfl (fun _ waits => waits) fun _ below _ => .inl below⟩

def Pc.hasReturned : Pc → Bool
  | .returned _ => true
  | _ => false

theorem Pc.hasReturned_iff {pc : Pc} : pc.hasReturned = true ↔ ∃ status, pc = .returned status := by
  cases pc <;> simp [Pc.hasReturned]

/-- The dispatch routine has returned and the lower driver has returned every request it was sent. -/
def Call.finished (c : Call) : Prop := c.pc.hasReturned = true ∧ c.lowerIrps = []

instance (c : Call) : Decidable c.finished := inferInstanceAs (Decidable (c.pc.hasReturned = true ∧ c.lowerIrps = []))

/-- A read that has run its course has been completed. -/
theorem CallOk.answered (ok : CallOk i c) (reads : c.irp.stack.majorFunction = .read) (finished : c.finished) :
    ∃ ioStatus, c.answer = some ioStatus := by
  obtain ⟨returned, noParts⟩ := finished
  obtain ⟨status, at_⟩ := Pc.hasReturned_iff.mp returned
  have here := ok.atPc
  rw [Call.AtPc, at_] at here
  cases here with
  | completed completion once => exact ⟨_, by rw [Call.answer, once]⟩
  | forwarded _ _ completions _ below =>
    obtain ⟨lower, one, -⟩ | ⟨-, answered⟩ := below
    · rw [noParts] at one
      contradiction
    · rw [Call.answer, completions]
      exact Option.ne_none_iff_exists'.mp answered
  | held _ held => exact absurd reads held.kind
  | scattered _ scattered =>
    cases live : c.scatter with
    | none =>
      obtain ⟨-, -, completion, once, -⟩ := scattered.gone live
      exact ⟨_, by rw [Call.answer, once]⟩
    | some scatter =>
      obtain ⟨count, positive, -⟩ := scattered.alive scatter live
      rw [noParts] at count
      exact absurd count positive

/-- A read is completed only when it has run its course. -/
theorem CallOk.finished {ioStatus : IoStatusBlock} (ok : CallOk i c) (reads : c.irp.stack.majorFunction = .read)
    (answered : c.answer = some ioStatus) : c.finished := by
  have here := ok.atPc
  cases at_ : c.pc <;> rw [Call.AtPc, at_] at here
  case returned status =>
    refine ⟨Pc.hasReturned_iff.mpr ⟨_, at_⟩, ?_⟩
    cases here with
    | completed _ _ _ _ _ _ _ _ lowerIrps => exact lowerIrps
    | forwarded _ _ completions _ below =>
      obtain ⟨lower, -, -, lowerStatus⟩ | ⟨lowerIrps, -⟩ := below
      · exact (not_answered answered completions lowerStatus).elim
      · exact lowerIrps
    | held _ held => exact absurd reads held.kind
    | scattered _ scattered =>
      cases live : c.scatter with
      | none => exact (scattered.gone live).1
      | some scatter =>
        obtain ⟨-, -, completions⟩ := scattered.alive scatter live
        exact (not_answered answered completions scattered.lowerStatus).elim
  case setEvent => exact absurd reads here.kind
  case split | finishScatter =>
    cases live : c.scatter with
    | none =>
      obtain ⟨-, own, -⟩ := here.gone live
      contradiction
    | some scatter =>
      obtain ⟨-, -, completions⟩ := here.alive scatter live
      exact (not_answered answered completions here.lowerStatus).elim
  all_goals exact (not_answered answered here.1.completions here.1.lowerStatus).elim

/-- A read past its scan that has not returned can take its next step. -/
theorem CallOk.moves {sh : Shared} (ok : CallOk i c) (merges : c.Merges bitmap) (running : c.pc.hasReturned = false)
    (out : Outcome) : (callStep sh i c out).isSome := by
  have here := ok.atPc
  have point := merges.point
  have held : c.Scattered 1 → c.scatter.isSome := by
    intro scattered
    by_contra gone
    obtain ⟨-, own, -⟩ := scattered.gone (by simpa using gone)
    contradiction
  unfold callStep
  cases at_ : c.pc <;> rw [Call.AtPc, at_] at here <;> rw [at_] at point <;> first | contradiction | skip
  case forward => rfl
  case complete => rfl
  case createScatter =>
    dsimp only
    split_ifs <;> rfl
  case split => simpa using held here
  case finishScatter => simpa using held here
  case returned =>
    rw [at_] at running
    contradiction

end Run

end QueueCache
