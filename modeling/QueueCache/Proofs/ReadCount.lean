import Mathlib.Algebra.BigOperators.Group.Finset.Piecewise
import Mathlib.Algebra.Order.BigOperators.Group.Finset
import Mathlib.Order.Interval.Finset.Nat
import QueueCache.Proofs.Durability
import QueueCache.Proofs.Merging

/-! # What a read reports and what it is counted as

A read can be answered on three paths, and each of them sets the byte count of the request in a place of
its own: the lower driver for a read passed on whole, the dispatch routine for one found whole in the
queue, and the scatter object for one that is merged. The last adds up what came from the disk only. The
statistics are kept apart from this, once for every queued item, once for every gap and once for every
read that is passed on.
-/

namespace QueueCache

open Transition

/-- The sector of the read lies in a queued write. -/
def State.queues (s : State) (io : IoStackLocation) (k : ℕ) : Prop :=
  ∃ item ∈ s.shared.queue, item.covers (io.byteOffset + 512 * k)

instance (s : State) (io : IoStackLocation) (k : ℕ) : Decidable (s.queues io k) :=
  inferInstanceAs (Decidable (∃ item ∈ s.shared.queue, item.covers (io.byteOffset + 512 * k)))

/-- A step of the dispatch routine for call `i`. -/
def Action.dispatches (i : ℕ) : Action → Bool
  | .call j _ => j = i
  | _ => false

theorem not_dispatch_of_elsewhere {i : ℕ} {a : Action} (elsewhere : a.caller ≠ some i) : a.dispatches i = false := by
  cases a with
  | call j out =>
    have other : j ≠ i := by
      rintro rfl
      exact elsewhere rfl
    simpa [Action.dispatches] using other
  | _ => rfl

theorem LowerMove.not_dispatch {sh sh' : Shared} {j : ℕ} {c c' : Call} {a : Action} (moved : LowerMove sh j c a sh' c')
    (i : ℕ) : a.dispatches i = false := by
  cases moved <;> rfl

/-- What holds along a run from the scan of a read on: at most `bound` steps of its dispatch routine are left. -/
structure Reading (io : IoStackLocation) (bitmap : Bitmap) (bound : ℕ) (i : ℕ) (s : State) : Prop where
  wf : Wf s
  call : ∃ c, s.calls[i]? = some c ∧ c.irp.stack = io ∧ c.Merges bitmap ∧ c.pc.stepsLeft (io.length / 512) ≤ bound

section Reading

variable {size : ℤ} {io : IoStackLocation} {bitmap : Bitmap} {bound : ℕ} {i : ℕ} {s s' : State} {a : Action}

/-- Whatever other parties do, a step keeps the read merging and its own steps use up the bound. -/
theorem Reading.step (reading : Reading io bitmap bound i s) (fits : size < 2 ^ 63) (accepted : io.ReadAccepted size)
    (full : readInFull i s a = true) (moved : s.step a = some s') :
    ∃ left, left + (if a.dispatches i then 1 else 0) ≤ bound ∧ Reading io bitmap left i s' := by
  obtain ⟨wf, c, present, rfl, merges, left⟩ := reading
  obtain ⟨c', present'⟩ := call_stays present moved
  have move := wf.callMove moved present'
  obtain ⟨irp, merges', -⟩ := move.merges present (wf.calls i c present) fits accepted full merges
  refine ⟨c'.pc.stepsLeft (c.irp.stack.length / 512), ?_, wf.step moved, c', present', by rw [irp], merges', le_rfl⟩
  have idle : a.dispatches i = false → c'.pc = c.pc →
      c'.pc.stepsLeft (c.irp.stack.length / 512) + (if a.dispatches i then 1 else 0) ≤ bound := by
    intro idle same
    rw [idle, same]
    exact left
  cases move with
  | received _ fresh =>
    rw [fresh] at present
    contradiction
  | @call out d action there taken =>
    obtain rfl := Option.some.inj (present.symm.trans there)
    subst action
    have granted : c.granted s.shared out = true := by simpa [readInFull, present] using full
    have fewer := (taken.merging merges.point granted).stepsLeft
    simp only [Action.dispatches, decide_true, reduceIte]
    omega
  | @lower d caller there taken =>
    obtain rfl := Option.some.inj (present.symm.trans there)
    exact idle (taken.not_dispatch i) taken.pc
  | worker _ there held =>
    obtain rfl := Option.some.inj (present.symm.trans there)
    exact absurd accepted.reads held.kind
  | still elsewhere there =>
    obtain rfl := Option.some.inj (present.symm.trans there)
    exact idle (not_dispatch_of_elsewhere elsewhere) rfl

/-- Along a run, the dispatch routine takes no more steps than were left to it. -/
theorem Reading.run {as : List Action} (run : Run State.step (fun t a => readInFull i t a = true) s as s')
    (fits : size < 2 ^ 63) (accepted : io.ReadAccepted size) (reading : Reading io bitmap bound i s) :
    ∃ left, left + as.countP (Action.dispatches i) ≤ bound ∧ Reading io bitmap left i s' := by
  induction run with
  | nil => exact ⟨bound, by simp, reading⟩
  | snoc before full moved ih =>
    obtain ⟨left, used, there⟩ := ih
    obtain ⟨fewer, spent, next⟩ := there.step fits accepted full moved
    refine ⟨fewer, ?_, next⟩
    rw [List.countP_append, List.countP_singleton]
    omega

/-- The scan of a read in a reachable state. -/
theorem reading_of_scan {cfg : Config} {before : List Action} {c : Call} {out : Outcome}
    (reached : Run State.step anyStep (.initial cfg) before s) (present : s.calls[i]? = some c)
    (at_ : c.pc = .scanQueue) (moved : s.step (.call i out) = some s') :
    c.irp.stack.ReadAccepted s.shared.statistics.size ∧ s.shared.statistics.size < 2 ^ 63 ∧
      (∀ item ∈ s.shared.queue, item.Accepted s.shared.statistics.size ∨ item.Empty) ∧
      Reading c.irp.stack (scanWriteQueue c.irp.stack c.buffer s.shared.statistics s.shared.queue).bitmap
        (c.irp.stack.length / 512 + 2) i s' := by
  have wf := wf_of_run reached
  have admission := admission_of_run reached
  have admitted := admission.calls i c present
  rw [Call.Admitted, at_] at admitted
  obtain ⟨-, accepted⟩ := admitted
  have fits := admission.range.2
  have queued := queue_accepted_of_run reached
  refine ⟨accepted, fits, queued, wf.step moved, ?_⟩
  obtain ⟨c', present'⟩ := call_stays present moved
  have move := callMove_of_caller (show (Action.call i out).caller = some i from rfl) moved present'
  cases move with
  | received action => contradiction
  | @call out' d action there taken =>
    obtain rfl := Option.some.inj (present.symm.trans there)
    obtain ⟨merges, -⟩ := taken.scanned fits accepted queued (wf.calls i c present) at_
    refine ⟨c', present', by rw [taken.irp], merges, ?_⟩
    have point := merges.point
    cases here : c'.pc <;> rw [here] at point <;> simp only [Pc.stepsLeft] <;> omega
  | lower _ _ taken =>
    have idle := taken.not_dispatch i
    simp [Action.dispatches] at idle
  | worker action => contradiction
  | still elsewhere => exact absurd rfl elsewhere

end Reading

/-- The sectors a read reports are all of them when the queue holds all of them or none. -/
theorem reported_eq_iff {bitmap : Bitmap} {n : ℕ} :
    reported bitmap n = n ↔ (∀ k < n, bitmap k = false) ∨ ∀ k < n, bitmap k = true := by
  rw [← clearBelow_eq_self, ← clearBelow_eq_zero, reported]
  split
  · next none => simp [none]
  · next some => simp [some]

/-- The byte count of a read. From the scan on, the dispatch routine never waits and takes at most two steps
more than the read has sectors. With every request to the lower driver returned in full, the completed read
reports its length if and only if the queue held none of its sectors or all of them. -/
theorem read_information (cfg : Config) (before as : List Action) (s₀ s : State) (i : ℕ) (out : Outcome) (c₀ c : Call)
    (reached : Run State.step anyStep (.initial cfg) before s₀) (scans : s₀.calls[i]? = some c₀)
    (at_ : c₀.pc = .scanQueue) (aligned : ∀ item ∈ s₀.shared.queue, item.Aligned)
    (run : Run State.step (fun t a => readInFull i t a = true) s₀ (.call i out :: as) s)
    (present : s.calls[i]? = some c) :
    as.countP (Action.dispatches i) ≤ c₀.irp.stack.length / 512 + 2 ∧
      (c.pc.hasReturned = false → ∀ out, (callStep s.shared i c out).isSome) ∧
      (c.finished → (c.answer = some ⟨STATUS_SUCCESS, c₀.irp.stack.length⟩ ↔
        (∀ k < c₀.irp.stack.length / 512, ¬ s₀.queues c₀.irp.stack k) ∨
          ∀ k < c₀.irp.stack.length / 512, s₀.queues c₀.irp.stack k)) := by
  obtain ⟨s₁, -, moved, rest⟩ := run.uncons
  obtain ⟨accepted, fits, queued, start⟩ := reading_of_scan reached scans at_ moved
  obtain ⟨left, used, wf, d, there, stack, merges, -⟩ := start.run rest fits accepted
  obtain rfl := Option.some.inj (present.symm.trans there)
  have ok := wf.calls i c present
  refine ⟨by omega, ok.moves merges, fun finished => ?_⟩
  obtain ⟨-, marked, -⟩ := scan_spec fits accepted queued c₀.buffer s₀.shared.statistics
  have covered : ∀ k < c₀.irp.stack.length / 512,
      ((scanWriteQueue c₀.irp.stack c₀.buffer s₀.shared.statistics s₀.shared.queue).bitmap k = true ↔
        s₀.queues c₀.irp.stack k) := by
    intro k below
    rw [marked, State.queues]
    refine exists_congr fun item => and_congr_right fun member => ?_
    rw [marks_iff_covers fits accepted (queued item member) (aligned item member)]
    exact and_iff_right below
  obtain ⟨ioStatus, answered⟩ := ok.answered (by rw [stack]; exact accepted.reads) finished
  have whole := accepted.length
  rw [answered, merges.reports ioStatus answered, stack, Option.some.injEq, IoStatusBlock.mk.injEq]
  have total : 512 * reported (scanWriteQueue c₀.irp.stack c₀.buffer s₀.shared.statistics s₀.shared.queue).bitmap
      (c₀.irp.stack.length / 512) = c₀.irp.stack.length ↔
      reported (scanWriteQueue c₀.irp.stack c₀.buffer s₀.shared.statistics s₀.shared.queue).bitmap
        (c₀.irp.stack.length / 512) = c₀.irp.stack.length / 512 := by
    omega
  rw [eq_self, true_and, total, reported_eq_iff]
  refine or_congr (forall₂_congr fun k below => ?_) (forall₂_congr covered)
  rw [← covered k below, Bool.not_eq_true]

def Pc.isScan : Pc → Bool
  | .scanQueue => true
  | _ => false

theorem Pc.scan_of_isScan {pc : Pc} (scan : pc.isScan = true) : pc = .scanQueue := by
  cases pc with
  | scanQueue => rfl
  | _ => contradiction

/-- A write of the first sector is queued and a read of it is about to scan the queue. -/
def queuedRead : List Action := lazyWrite ++ [.receive readSector0] ++ callSteps 1 1

theorem read_information_queuedRead : ∃ c, (State.after smallDevice (queuedRead ++ callSteps 1 2)).calls[1]? = some c ∧
    c.answer = some ⟨STATUS_SUCCESS, 512⟩ := by
  have reached := run_of_replay smallDevice queuedRead (by decide +kernel)
  have scans := State.call_after (show ((State.after smallDevice queuedRead).calls[1]?).isSome by decide +kernel)
  have at_ : (((State.after smallDevice queuedRead).calls[1]?).get (by decide +kernel)).pc = .scanQueue :=
    Pc.scan_of_isScan (by decide +kernel)
  have run : Run State.step (fun t a => readInFull 1 t a = true) _ (callSteps 1 2)
    (State.after smallDevice (queuedRead ++ callSteps 1 2)) := run_between (by decide +kernel) (by decide +kernel)
  have there := State.call_after
    (show ((State.after smallDevice (queuedRead ++ callSteps 1 2)).calls[1]?).isSome by decide +kernel)
  obtain ⟨-, -, information⟩ :=
    read_information smallDevice _ _ _ _ 1 _ _ _ reached scans at_ (by decide +kernel) run there
  exact ⟨_, there, (information (by decide +kernel)).mpr (.inr (by decide +kernel))⟩

/-- A read of the first two sectors. -/
def readTwo : Irp where
  stack := { readSector0.stack with length := 2 * 512, length_lt := by decide }

/-- The same with a read of two sectors. -/
def mixedRead : List Action := lazyWrite ++ [.receive readTwo] ++ callSteps 1 1

/-- The read fetches the second sector from the disk. -/
def mixedReadServed : List Action :=
  callSteps 1 4 ++ [.transfer 1 0 1, .lowerComplete 1 0 ⟨STATUS_SUCCESS, 512⟩]

/-- A read that is merged reports the sectors from the disk only. -/
theorem read_information_mixedRead : ¬ ∀ (cfg : Config) (before as : List Action) (s₀ s : State) (i : ℕ) (out : Outcome)
    (c₀ c : Call), Run State.step anyStep (.initial cfg) before s₀ → s₀.calls[i]? = some c₀ → c₀.pc = .scanQueue →
    (∀ item ∈ s₀.shared.queue, item.Aligned) →
    Run State.step (fun t a => readInFull i t a = true) s₀ (.call i out :: as) s → s.calls[i]? = some c → c.finished →
    c.answer = some ⟨STATUS_SUCCESS, c₀.irp.stack.length⟩ := by
  intro claimed
  have reached := run_of_replay smallDevice mixedRead (by decide +kernel)
  have scans := State.call_after (show ((State.after smallDevice mixedRead).calls[1]?).isSome by decide +kernel)
  have at_ : (((State.after smallDevice mixedRead).calls[1]?).get (by decide +kernel)).pc = .scanQueue :=
    Pc.scan_of_isScan (by decide +kernel)
  have run : Run State.step (fun t a => readInFull 1 t a = true) _ mixedReadServed
    (State.after smallDevice (mixedRead ++ mixedReadServed)) := run_between (by decide +kernel) (by decide +kernel)
  have there := State.call_after
    (show ((State.after smallDevice (mixedRead ++ mixedReadServed)).calls[1]?).isSome by decide +kernel)
  have full := claimed smallDevice _ _ _ _ 1 _ _ _ reached scans at_ (by decide +kernel) run there (by decide +kernel)
  revert full
  decide +kernel

/-- The bytes of reads that the three statistics have counted: those copied from the queue, those of the gaps and
those of the reads that were passed on. -/
def Shared.readBytesCounted (sh : Shared) : ℤ :=
  sh.statistics.readBytesFromCache + sh.statistics.readBytesFromOriginal + sh.statistics.readBytesReroutedToOriginal

/-- What a step of the dispatch routine for call `i` adds to them. -/
def State.readBytesAdded (i : ℕ) (s : State) (a : Action) : List ℤ :=
  if a.dispatches i then
    ((s.step a).map fun t => t.shared.readBytesCounted - s.shared.readBytesCounted).toList
  else []

/-- Call `i` gets what it asks for, so that every part of the read is built. -/
def readGranted (i : ℕ) (s : State) : Action → Bool
  | .call j out => j ≠ i || (s.calls[i]?).all fun c => c.granted s.shared out
  | _ => true

section Counters

variable {size : ℤ} {sh sh' : Shared} {i : ℕ} {c c' : Call} {out : Outcome} {bitmap : Bitmap}

/-- Past the scan a read is counted gap by gap. -/
theorem callStep_counted (point : c.pc.Merges bitmap (c.irp.stack.length / 512)) (granted : c.granted sh out = true)
    (moved : callStep sh i c out = some (sh', c')) : sh'.readBytesCounted = sh.readBytesCounted + 512 * c.pc.gap := by
  unfold callStep at moved
  cases at_ : c.pc <;> rw [at_] at point <;> simp only [at_] at moved <;> first | contradiction | skip
  case forward =>
    obtain ⟨rfl, -⟩ := Prod.mk.inj (Option.some.inj moved)
    simp [Pc.gap]
  case complete =>
    obtain ⟨rfl, -⟩ := Prod.mk.inj (Option.some.inj moved)
    simp [Pc.gap]
  case createScatter =>
    simp only [Call.granted, at_, Bool.and_eq_true] at granted
    rw [if_pos granted.1, if_pos granted.2] at moved
    obtain ⟨rfl, -⟩ := Prod.mk.inj (Option.some.inj moved)
    simp [Shared.readBytesCounted, Pc.gap]
  case split =>
    simp only [Call.granted, at_] at granted
    obtain ⟨scatter, live, moved⟩ := Option.map_eq_some_iff.mp moved
    rw [qcacheReadSplit, if_pos granted] at moved
    dsimp only at moved
    split at moved <;> obtain ⟨rfl, -⟩ := Prod.mk.inj moved <;>
      simp only [Shared.readBytesCounted, Shared.withStatistics, Shared.statistics_mk, Pc.gap] <;> ring
  case finishScatter =>
    obtain ⟨scatter, live, moved⟩ := Option.map_eq_some_iff.mp moved
    have same := congrArg (fun result => Shared.readBytesCounted result.1) moved
    simp only [Shared.readBytesCounted, scatterComplete_statistics] at same
    rw [Shared.readBytesCounted, Shared.readBytesCounted, ← same]
    simp [Pc.gap]

/-- The scan counts every copy it makes, and a read that it passes on. -/
theorem scan_counted (fits : size < 2 ^ 63) (accepted : c.irp.stack.ReadAccepted size)
    (queued : ∀ item ∈ sh.queue, item.Accepted size ∨ item.Empty)
    (point : (qcacheReadScan sh c).2.pc.Merges bitmap (c.irp.stack.length / 512)) :
    (qcacheReadScan sh c).1.readBytesCounted =
      sh.readBytesCounted + sh.queue.tally (fun item => item.copied c.irp.stack) +
      512 * clearBelow bitmap (qcacheReadScan sh c).2.frontier := by
  obtain ⟨bytes, -⟩ := scan_counters fits accepted queued c.buffer sh.statistics
  obtain ⟨requests, copied, statistics⟩ := scanWriteQueue_statistics c.irp.stack c.buffer sh.statistics sh.queue
  have whole := accepted.length
  rw [statistics] at bytes
  have bytes : copied = sh.statistics.readBytesFromCache + sh.queue.tally (fun item => item.copied c.irp.stack) := bytes
  unfold qcacheReadScan at point ⊢
  dsimp only at point ⊢
  rw [statistics] at point ⊢
  split at point
  · next found =>
    rw [if_pos found]
    split at point
    · next noGap =>
      have nothing : clearBelow bitmap (c.irp.stack.length / 512) = 0 := clearBelow_eq_zero.mpr point.2
      rw [if_pos noGap]
      simp only [Shared.readBytesCounted, Shared.withStatistics, Shared.statistics_mk, Call.goto,
        Call.frontier, Pc.frontier, nothing]
      omega
    · next gap =>
      have nothing := clearBelow_eq_zero.mpr point.2.2
      rw [if_neg gap]
      simp only [Shared.readBytesCounted, Shared.withStatistics, Shared.statistics_mk, Call.goto,
        Call.frontier, Pc.frontier, nothing]
      omega
  · next noneFound =>
    have all : clearBelow bitmap (c.irp.stack.length / 512) = c.irp.stack.length / 512 := clearBelow_eq_self.mpr point
    rw [if_neg noneFound]
    simp only [Shared.readBytesCounted, Shared.withStatistics, Shared.statistics_mk, Call.goto, Call.frontier,
      Pc.frontier, all]
    omega

end Counters

section Covered

variable {size : ℤ} {io : IoStackLocation} {item : WriteQueueItem} {queue : List WriteQueueItem}

/-- The bytes copied from an aligned item are the sectors that it covers. -/
theorem copied_eq (fits : size < 2 ^ 63) (accepted : io.ReadAccepted size) (queued : item.Accepted size ∨ item.Empty)
    (aligned : item.Aligned) : item.copied io =
      512 * ((Finset.range (io.length / 512)).filter fun k : ℕ => item.covers (io.byteOffset + 512 * k)).card := by
  have overlapping := overlaps_iff fits accepted queued
  by_cases overlap : item.overlaps io
  · obtain ⟨-, -, -, nonneg, inBuffer, -⟩ := copyInBounds fits accepted queued overlap
    obtain ⟨readEnd, itemEnd⟩ := sumsExact fits accepted.onMedia queued
    obtain ⟨write, -, -⟩ := overlapping.mp overlap
    obtain ⟨start, extent⟩ := aligned write
    have startPos : item.startPos io = max item.offset io.byteOffset := rfl
    have endPos : item.endPos io = min (item.offset + item.length) (io.byteOffset + io.length) := by
      rw [WriteQueueItem.endPos, readEnd, itemEnd]
    have offset := accepted.offset
    have length := accepted.length
    have run : (Finset.range (io.length / 512)).filter (fun k : ℕ => item.covers (io.byteOffset + 512 * k)) =
        Finset.Ico ((item.startPos io - io.byteOffset) / 512).toNat ((item.endPos io - io.byteOffset) / 512).toNat := by
      ext k
      simp only [Finset.mem_filter, Finset.mem_range, Finset.mem_Ico, WriteQueueItem.covers, write, true_and]
      rw [startPos, endPos] at inBuffer ⊢
      omega
    rw [WriteQueueItem.copied, if_pos overlap, run, Nat.card_Ico]
    rw [startPos, endPos] at nonneg inBuffer ⊢
    omega
  · have none : (Finset.range (io.length / 512)).filter (fun k : ℕ => item.covers (io.byteOffset + 512 * k)) = ∅ := by
      refine Finset.filter_eq_empty_iff.mpr fun k below covered => overlap (overlapping.mpr ?_)
      obtain ⟨write, above, under⟩ := covered
      have inside := Finset.mem_range.mp below
      exact ⟨write, by omega, by omega⟩
    rw [WriteQueueItem.copied, if_neg overlap, none, Finset.card_empty]
    rfl

/-- Item by item and sector by sector the same bytes are counted. -/
theorem tally_copied (fits : size < 2 ^ 63) (accepted : io.ReadAccepted size)
    (queued : ∀ item ∈ queue, item.Accepted size ∨ item.Empty) (aligned : ∀ item ∈ queue, item.Aligned) :
    queue.tally (fun item => item.copied io) = 512 * ((∑ k ∈ Finset.range (io.length / 512),
      queue.countP fun item => item.covers (io.byteOffset + 512 * k) : ℕ) : ℤ) := by
  induction queue with
  | nil => simp
  | cons item rest ih =>
    have here := copied_eq fits accepted (queued item (List.mem_cons_self ..)) (aligned item (List.mem_cons_self ..))
    have there := ih (fun other member => queued other (List.mem_cons_of_mem _ member))
      fun other member => aligned other (List.mem_cons_of_mem _ member)
    rw [List.tally_cons, here, there, Finset.card_filter]
    simp only [List.countP_cons, Finset.sum_add_distrib, decide_eq_true_eq]
    push_cast
    ring

end Covered

/-- The number of queued writes that cover a sector of the read. -/
def State.copies (s : State) (io : IoStackLocation) (k : ℕ) : ℕ :=
  s.shared.queue.countP fun item => item.covers (io.byteOffset + 512 * k)

/-- The total that is counted for a read is its length when no sector is covered twice. -/
theorem sum_max_one (n : ℕ) (copies : ℕ → ℕ) :
    n ≤ ∑ k ∈ Finset.range n, max 1 (copies k) ∧
      ((∑ k ∈ Finset.range n, max 1 (copies k)) = n ↔ ∀ k < n, copies k ≤ 1) := by
  have shifted : ∑ k ∈ Finset.range n, max 1 (copies k) = n + ∑ k ∈ Finset.range n, (copies k - 1) := by
    have each : ∀ k ∈ Finset.range n, max 1 (copies k) = 1 + (copies k - 1) := fun k _ => by omega
    rw [Finset.sum_congr rfl each, Finset.sum_add_distrib]
    simp
  rw [shifted]
  refine ⟨Nat.le_add_right _ _, ?_⟩
  rw [Nat.add_eq_left, Finset.sum_eq_zero_iff]
  simp only [Finset.mem_range, Nat.sub_eq_zero_iff_le]

/-- The read's record along a run: what has been counted since the scan is what has been issued. -/
structure Counting (io : IoStackLocation) (bitmap : Bitmap) (i : ℕ) (s : State) (added : List ℤ) : Prop where
  wf : Wf s
  call : ∃ c, s.calls[i]? = some c ∧ c.irp.stack = io ∧ c.pc.Merges bitmap (io.length / 512) ∧
    added.sum = 512 * clearBelow bitmap c.frontier

section Counting

variable {io : IoStackLocation} {bitmap : Bitmap} {i : ℕ} {s s' : State} {a : Action} {added : List ℤ}

theorem readBytesAdded_of_not_dispatch (idle : a.dispatches i = false) : s.readBytesAdded i a = [] := by
  rw [State.readBytesAdded, idle]
  rfl

theorem Counting.step (counting : Counting io bitmap i s added) (reads : io.majorFunction = .read)
    (granted : readGranted i s a = true) (moved : s.step a = some s') :
    Counting io bitmap i s' (added ++ s.readBytesAdded i a) := by
  obtain ⟨wf, c, present, rfl, point, total⟩ := counting
  obtain ⟨c', present'⟩ := call_stays present moved
  refine ⟨wf.step moved, c', present', ?_⟩
  cases wf.callMove moved present' with
  | received _ fresh =>
    rw [fresh] at present
    contradiction
  | @call out d action there taken =>
    obtain rfl := Option.some.inj (present.symm.trans there)
    subst action
    have granted : c.granted s.shared out = true := by simpa [readGranted, present] using granted
    have step := taken.merging point granted
    obtain ⟨d, there', moved'⟩ := Option.bind_eq_some_iff.mp moved
    obtain rfl := Option.some.inj (there.symm.trans there')
    obtain ⟨⟨sh, d⟩, taken', rfl⟩ := Option.map_eq_some_iff.mp moved'
    have counted := callStep_counted point granted taken'
    refine ⟨by rw [taken.irp], step.point, ?_⟩
    rw [State.readBytesAdded, if_pos (by simp [Action.dispatches]), moved, List.sum_append, total, step.issued]
    simp only [Option.map_some, Option.toList_some, List.sum_singleton, State.update_shared, counted]
    push_cast
    ring
  | @lower d caller there taken =>
    obtain rfl := Option.some.inj (present.symm.trans there)
    rw [readBytesAdded_of_not_dispatch (taken.not_dispatch i), List.append_nil, taken.pc, taken.irp, total,
      Call.frontier, Call.frontier, taken.pc, taken.irp]
    exact ⟨rfl, point, rfl⟩
  | worker _ there held =>
    obtain rfl := Option.some.inj (present.symm.trans there)
    exact absurd reads held.kind
  | still elsewhere there =>
    obtain rfl := Option.some.inj (present.symm.trans there)
    rw [readBytesAdded_of_not_dispatch (not_dispatch_of_elsewhere elsewhere), List.append_nil]
    exact ⟨rfl, point, total⟩

/-- The scan starts the record with what it counted beyond its copies. -/
theorem counting_of_scan {cfg : Config} {before : List Action} {c : Call} {out : Outcome}
    (reached : Run State.step anyStep (.initial cfg) before s) (scans : s.calls[i]? = some c) (at_ : c.pc = .scanQueue)
    (moved : s.step (.call i out) = some s') :
    ∃ beyond, (s.readBytesAdded i (.call i out)).sum =
        s.shared.queue.tally (fun item => item.copied c.irp.stack) + beyond ∧
      Counting c.irp.stack (scanWriteQueue c.irp.stack c.buffer s.shared.statistics s.shared.queue).bitmap i s'
        [beyond] := by
  obtain ⟨accepted, fits, queued, wf, c', there, stack, merges, -⟩ := reading_of_scan reached scans at_ moved
  obtain ⟨d, present, moved'⟩ := Option.bind_eq_some_iff.mp moved
  obtain rfl := Option.some.inj (scans.symm.trans present)
  obtain ⟨result, scanned, rfl⟩ := Option.map_eq_some_iff.mp moved'
  obtain rfl : qcacheReadScan s.shared c = result := by
    simpa only [callStep, at_, Option.some.injEq] using scanned
  have here : (s.update i (qcacheReadScan s.shared c)).calls[i]? = some (qcacheReadScan s.shared c).2 :=
    List.getElem?_set_self (List.getElem?_eq_some_iff.mp scans).1
  obtain rfl := Option.some.inj (here.symm.trans there)
  have point := merges.point
  rw [stack] at point
  have counted := scan_counted fits accepted queued point
  refine ⟨512 * clearBelow _ (qcacheReadScan s.shared c).2.frontier, ?_, wf, _, here, stack, point, List.sum_singleton⟩
  rw [State.readBytesAdded, if_pos (by simp [Action.dispatches]), moved]
  simp only [Option.map_some, Option.toList_some, List.sum_singleton]
  change (qcacheReadScan s.shared c).1.readBytesCounted - s.shared.readBytesCounted = _
  rw [counted]
  ring

end Counting

/-- The sectors that are read from the disk and the copies of the others, sector by sector. -/
theorem sum_copies_add_clearBelow {bitmap : Bitmap} {n : ℕ} {copies : ℕ → ℕ}
    (clear : ∀ k < n, bitmap k = false ↔ copies k = 0) :
    (∑ k ∈ Finset.range n, copies k) + clearBelow bitmap n = ∑ k ∈ Finset.range n, max 1 (copies k) := by
  rw [clearBelow, Nat.count_eq_card_filter_range, Finset.card_filter, ← Finset.sum_add_distrib]
  apply Finset.sum_congr rfl
  intro k member
  have unmarked := clear k (Finset.mem_range.mp member)
  by_cases none : copies k = 0
  · rw [if_pos (unmarked.mpr none), none]
    rfl
  · rw [if_neg (mt unmarked.mp none)]
    omega

/-- The accounting of a read. From the scan to the end of the dispatch routine, the three statistics grow by 512
bytes for every sector of the read and every queued write that covers it, and by 512 bytes for every sector
that none covers. So the total is at least the length of the read, and it is the length if and only if no
sector is covered twice. -/
theorem read_counted (cfg : Config) (before as : List Action) (s₀ s : State) (i : ℕ) (out : Outcome) (c₀ c : Call)
    (reached : Run State.step anyStep (.initial cfg) before s₀) (scans : s₀.calls[i]? = some c₀)
    (at_ : c₀.pc = .scanQueue) (aligned : ∀ item ∈ s₀.shared.queue, item.Aligned)
    (run : Run State.step (fun t a => readGranted i t a = true) s₀ (.call i out :: as) s)
    (present : s.calls[i]? = some c) (returned : c.pc.hasReturned = true) :
    let io := c₀.irp.stack
    let total := (observed State.step (State.readBytesAdded i) s₀ (.call i out :: as)).sum
    total = 512 * ((∑ k ∈ Finset.range (io.length / 512), max 1 (s₀.copies io k) : ℕ) : ℤ) ∧
      io.length ≤ total ∧ (total = io.length ↔ ∀ k < io.length / 512, s₀.copies io k ≤ 1) := by
  intro io total
  obtain ⟨s₁, -, moved, rest⟩ := run.uncons
  obtain ⟨accepted, fits, queued, -⟩ := reading_of_scan reached scans at_ moved
  obtain ⟨beyond, first, start⟩ := counting_of_scan reached scans at_ moved
  obtain ⟨-, c', there, stack, -, sum⟩ :
      Counting io _ i s (beyond :: observed State.step (State.readBytesAdded i) s₁ as) :=
    rest.observes (fun t seen => Counting io _ i t (beyond :: seen)) start
      fun _ _ _ _ counting granted moved => counting.step accepted.reads granted moved
  obtain rfl := Option.some.inj (present.symm.trans there)
  obtain ⟨status, ended⟩ := Pc.hasReturned_iff.mp returned
  have atEnd : c.frontier = io.length / 512 := by
    rw [Call.frontier, ended, stack]
    rfl
  obtain ⟨-, marked, -⟩ := scan_spec fits accepted queued c₀.buffer s₀.shared.statistics
  have clear :
      ∀ k < io.length / 512, (scanWriteQueue io c₀.buffer s₀.shared.statistics s₀.shared.queue).bitmap k = false ↔
        s₀.copies io k = 0 := by
    intro k below
    rw [← Bool.not_eq_true, marked, State.copies, List.countP_eq_zero, not_exists]
    refine forall_congr' fun item => ?_
    rw [not_and]
    refine forall_congr' fun member => ?_
    rw [marks_iff_covers fits accepted (queued item member) (aligned item member), decide_eq_true_eq]
    exact not_congr (and_iff_right below)
  have whole : io.length % 512 = 0 := accepted.length
  have split : total = s₀.shared.queue.tally (fun item => item.copied io) +
      (beyond :: observed State.step (State.readBytesAdded i) s₁ as).sum := by
    change (observed State.step (State.readBytesAdded i) s₀ (.call i out :: as)).sum = _
    rw [observed, moved, List.sum_append, first, List.sum_cons]
    exact add_assoc _ _ _
  have copied : s₀.shared.queue.tally (fun item => item.copied io) =
      512 * ((∑ k ∈ Finset.range (io.length / 512), s₀.copies io k : ℕ) : ℤ) :=
    tally_copied fits accepted queued aligned
  have exact_ : total = 512 * ((∑ k ∈ Finset.range (io.length / 512), max 1 (s₀.copies io k) : ℕ) : ℤ) := by
    rw [split, sum, atEnd, copied, ← sum_copies_add_clearBelow clear, Nat.cast_add, mul_add]
  obtain ⟨least, same⟩ := sum_max_one (io.length / 512) (s₀.copies io)
  refine ⟨exact_, by omega, ?_⟩
  rw [← same, exact_]
  omega

theorem read_counted_mixedRead : ∃ c, (State.after smallDevice (mixedRead ++ callSteps 1 4)).calls[1]? = some c ∧
    (observed State.step (State.readBytesAdded 1) (.after smallDevice mixedRead) (callSteps 1 4)).sum = 1024 := by
  have reached := run_of_replay smallDevice mixedRead (by decide +kernel)
  have scans := State.call_after (show ((State.after smallDevice mixedRead).calls[1]?).isSome by decide +kernel)
  have at_ : (((State.after smallDevice mixedRead).calls[1]?).get (by decide +kernel)).pc = .scanQueue :=
    Pc.scan_of_isScan (by decide +kernel)
  have run : Run State.step (fun t a => readGranted 1 t a = true) _ (callSteps 1 4)
    (State.after smallDevice (mixedRead ++ callSteps 1 4)) := run_between (by decide +kernel) (by decide +kernel)
  have there := State.call_after
    (show ((State.after smallDevice (mixedRead ++ callSteps 1 4)).calls[1]?).isSome by decide +kernel)
  obtain ⟨-, -, once⟩ := read_counted smallDevice _ _ _ _ 1 _ _ _ reached scans at_ (by decide +kernel) run there
    (by decide +kernel)
  exact ⟨_, there, (once.mpr (by decide +kernel)).trans (by decide +kernel)⟩

/-- The first sector is written twice, and a read of it is about to scan the queue. -/
def overlaidRead : List Action :=
  lazyWrite ++ [.receive (writeSector0 8)] ++ callSteps 1 12 ++ [.receive readSector0] ++ callSteps 2 1

/-- A sector that two queued writes cover is counted twice. -/
theorem read_counted_overlaidRead : ¬ ∀ (cfg : Config) (before as : List Action) (s₀ s : State) (i : ℕ) (out : Outcome)
    (c₀ c : Call), Run State.step anyStep (.initial cfg) before s₀ → s₀.calls[i]? = some c₀ → c₀.pc = .scanQueue →
    (∀ item ∈ s₀.shared.queue, item.Aligned) →
    Run State.step (fun t a => readGranted i t a = true) s₀ (.call i out :: as) s → s.calls[i]? = some c →
    c.pc.hasReturned = true →
    (observed State.step (State.readBytesAdded i) s₀ (.call i out :: as)).sum = c₀.irp.stack.length := by
  intro claimed
  have reached := run_of_replay smallDevice overlaidRead (by decide +kernel)
  have scans := State.call_after (show ((State.after smallDevice overlaidRead).calls[2]?).isSome by decide +kernel)
  have at_ : (((State.after smallDevice overlaidRead).calls[2]?).get (by decide +kernel)).pc = .scanQueue :=
    Pc.scan_of_isScan (by decide +kernel)
  have run : Run State.step (fun t a => readGranted 2 t a = true) _ (callSteps 2 2)
    (State.after smallDevice (overlaidRead ++ callSteps 2 2)) := run_between (by decide +kernel) (by decide +kernel)
  have there := State.call_after
    (show ((State.after smallDevice (overlaidRead ++ callSteps 2 2)).calls[2]?).isSome by decide +kernel)
  have total := claimed smallDevice _ _ _ _ 2 _ _ _ reached scans at_ (by decide +kernel) run there (by decide +kernel)
  revert total
  decide +kernel

end QueueCache
