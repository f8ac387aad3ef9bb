import QueueCache.Proofs.ReadCount

/-! # The bytes a read returns

A read of a quiet device should return the newest queued write at every address and the disk where there is
none. The scan copies bytes but remembers sectors, and it rounds the start and the length of a copy down
separately. So a sector can be marked that is not covered throughout, and keeps what the caller's buffer held
before; and a sector can be left unmarked that is covered, and is overwritten from the disk.
-/

namespace QueueCache

open Transition

/-- What a read of the address is to return: the byte of the last queued write that covers it, or the disk's. -/
def Shared.newest (sh : Shared) (address : ℤ) : UInt8 :=
  match (sh.queue.filter fun item => item.covers address).getLast? with
  | some item => item.buffer (address - item.offset)
  | none => sh.disk address

/-- Only call `i` and the lower driver on its requests move, and nothing fails. -/
def undisturbed (i : ℕ) (s : State) (a : Action) : Bool := a.caller = some i && readInFull i s a

/-- The overlay of the queue is the byte of the last item that covers it. -/
theorem replay_overlay (memory : Bytes) (io : IoStackLocation) (queue : List WriteQueueItem) {x : ℤ} (low : 0 ≤ x)
    (high : x < io.length) : Overlay.replay memory (queue.map fun item => item.overlay io) x =
      match (queue.filter fun item => item.covers (io.byteOffset + x)).getLast? with
      | some item => item.buffer (io.byteOffset + x - item.offset)
      | none => memory x := by
  induction queue using List.reverseRecOn with
  | nil => rfl
  | append_singleton queue item ih =>
    rw [List.map_append, List.map_singleton, Overlay.replay_snoc, List.filter_append, ih, WriteQueueItem.overlay]
    by_cases covered : item.covers (io.byteOffset + x)
    · rw [if_pos ⟨low, high, covered⟩]
      simp [covered]
    · rw [if_neg fun inside => covered inside.2.2]
      simp [covered]

/-- The bytes that the marks of the scan get right: a byte of a marked sector is covered, or the caller's buffer
held the disk's byte before; a byte of any other sector is the disk's. -/
def ReadExact (sh : Shared) (irp : Irp) : Prop :=
  ∀ x : ℤ, 0 ≤ x → x < irp.stack.length →
    if ∃ item ∈ sh.queue, item.marks irp.stack (sector x).toNat then
      (∃ item ∈ sh.queue, item.covers (irp.stack.byteOffset + x)) ∨ irp.data x = sh.disk (irp.stack.byteOffset + x)
    else sh.newest (irp.stack.byteOffset + x) = sh.disk (irp.stack.byteOffset + x)

theorem filter_eq_nil {queue : List WriteQueueItem} {address : ℤ} (unwritten : ¬ ∃ item ∈ queue, item.covers address) :
    queue.filter (fun item => item.covers address) = [] := by
  rw [List.filter_eq_nil_iff]
  intro item member covered
  exact unwritten ⟨item, member, by simpa using covered⟩

/-- No write of the queue covers the address: the disk's byte is the newest. -/
theorem newest_of_not_covered {sh : Shared} {address : ℤ} (unwritten : ¬ ∃ item ∈ sh.queue, item.covers address) :
    sh.newest address = sh.disk address := by
  rw [Shared.newest, filter_eq_nil unwritten]
  rfl

/-- A write of the queue covers the address: its byte does not depend on what lay below. -/
theorem newest_of_covered {sh : Shared} {address : ℤ} (written : ∃ item ∈ sh.queue, item.covers address)
    (below : UInt8) :
    (match (sh.queue.filter fun item => item.covers address).getLast? with
      | some item => item.buffer (address - item.offset)
      | none => below) = sh.newest address := by
  obtain ⟨item, member, covered⟩ := written
  have present : sh.queue.filter (fun item => item.covers address) ≠ [] := by
    intro empty
    rw [List.filter_eq_nil_iff] at empty
    exact empty item member (by simpa using covered)
  rw [Shared.newest, List.getLast?_eq_getLast_of_ne_nil present]

/-- What every state of an undisturbed read knows once the queue has been scanned. -/
structure Merged (disk : Bytes) (irp : Irp) (scan : ScanState) (i : ℕ) (s : State) : Prop where
  still : s.shared.disk = disk
  call : ∃ c, s.calls[i]? = some c ∧ CallOk i c ∧ c.irp = irp ∧ c.Merges scan.bitmap ∧
    (∀ k : ℕ, scan.bitmap k = true → ∀ x, sector x = k → c.buffer x = scan.buffer x) ∧
    ∀ k < c.frontier, scan.bitmap k = false → c.Awaits k ∨
      ∀ x, sector x = k → c.buffer x = disk (irp.stack.byteOffset + x)

section Merged

variable {size : ℤ} {disk : Bytes} {irp : Irp} {scan : ScanState} {i : ℕ} {s s' : State} {a : Action}

/-- A read in the lower driver leaves the disk alone. -/
theorem LowerMove.disk_of_merges {sh sh' : Shared} {c c' : Call} {bitmap : Bitmap} (moved : LowerMove sh i c a sh' c')
    (merges : c.Merges bitmap) : sh'.disk = sh.disk := by
  cases moved with
  | write present covered fresh writes =>
    rw [merges.reads present] at writes
    contradiction
  | scattered => rw [scatterComplete_disk]
  | _ => rfl

theorem Merged.step (merged : Merged disk irp scan i s) (fits : size < 2 ^ 63) (accepted : irp.stack.ReadAccepted size)
    (alone : undisturbed i s a = true) (moved : s.step a = some s') : Merged disk irp scan i s' := by
  obtain ⟨same, c, present, ok, rfl, merges, kept, filled⟩ := merged
  simp only [undisturbed, Bool.and_eq_true, decide_eq_true_eq] at alone
  obtain ⟨caller, full⟩ := alone
  obtain ⟨c', present'⟩ := call_stays present moved
  have move := callMove_of_caller caller moved present'
  obtain ⟨irp, merges', advances⟩ := move.merges present ok fits accepted full merges
  obtain ⟨ok', same'⟩ : CallOk i c' ∧ s'.shared.disk = disk := by
    cases move with
    | received action => rw [action] at caller; contradiction
    | call _ there taken =>
      obtain rfl := Option.some.inj (present.symm.trans there)
      exact ⟨ok.step taken, taken.outer.disk.trans same⟩
    | lower _ there taken =>
      obtain rfl := Option.some.inj (present.symm.trans there)
      exact ⟨ok.lower taken, (taken.disk_of_merges merges).trans same⟩
    | worker none => rw [none] at caller; contradiction
    | still elsewhere => exact absurd caller elsewhere
  refine ⟨same', c', present', ok', irp, merges', fun k set x inside => ?_, fun k below clear => ?_⟩
  · rw [advances.kept k set x inside, kept k set x inside]
  · obtain waits | fresh | ⟨before, idle, unchanged⟩ := advances.filled k below clear
    · exact .inl waits
    · rw [same] at fresh
      exact .inr fresh
    · refine .inr fun x inside => ?_
      obtain waits | old := filled k before clear
      · exact absurd waits idle
      · rw [unchanged x inside, old x inside]

end Merged

/-- A read that `QCacheRead` accepts goes on to the scan. -/
theorem callStep_accepted {sh sh' : Shared} {i : ℕ} {c c' : Call} {out : Outcome} (fits : sh.statistics.size < 2 ^ 63)
    (accepted : c.irp.stack.ReadAccepted sh.statistics.size) (at_ : c.pc = .entry) (memory : out.memory = true)
    (moved : callStep sh i c out = some (sh', c')) :
    c' = { c with information := 0 }.goto .scanQueue ∧ Frame sh sh' := by
  obtain ⟨reads, nonempty, offset, length, onMedia⟩ := accepted
  obtain ⟨below, above, within⟩ := (endOfMedia_eq_false fits).mp onMedia
  have known : sh.statistics.size ≠ 0 := by omega
  have aligned : ¬ (c.irp.stack.byteOffset % 512 ≠ 0 ∨ c.irp.stack.length % 512 ≠ 0) := by omega
  have inside : ¬ endOfMedia sh.statistics.size c.irp.stack = true := by
    rw [onMedia]
    decide
  simp only [callStep, at_, dispatch, reads, Option.some.injEq] at moved
  unfold qcacheRead at moved
  dsimp only at moved
  rw [if_neg known, if_neg nonempty, if_neg aligned, if_neg inside, if_pos memory] at moved
  obtain ⟨rfl, rfl⟩ := Prod.mk.inj moved
  exact ⟨rfl, by constructor <;> rfl⟩

section Quiet

variable {irp : Irp} {i : ℕ} {s s' : State} {a : Action}

/-- The first step of an undisturbed read ends before the scan. -/
theorem undisturbed_entry (fits : s.shared.statistics.size < 2 ^ 63) (received : s.calls[i]? = some (.receive irp))
    (accepted : irp.stack.ReadAccepted s.shared.statistics.size) (alone : undisturbed i s a = true)
    (moved : s.step a = some s') : Frame s.shared s'.shared ∧
      ∃ c, s'.calls[i]? = some c ∧ CallOk i c ∧ c.pc = .scanQueue ∧ c.irp = irp ∧ c.buffer = irp.data := by
  simp only [undisturbed, Bool.and_eq_true, decide_eq_true_eq] at alone
  obtain ⟨caller, full⟩ := alone
  cases a with
  | call j out =>
    obtain rfl : j = i := Option.some.inj caller
    have memory : out.memory = true := by simpa [readInFull, received, Call.granted, Call.receive] using full
    obtain ⟨c, present, moved⟩ := Option.bind_eq_some_iff.mp moved
    obtain rfl := Option.some.inj (received.symm.trans present)
    obtain ⟨⟨sh, c'⟩, taken, rfl⟩ := Option.map_eq_some_iff.mp moved
    have ok := (CallOk.receive j irp).step (callStep_cases taken)
    obtain ⟨rfl, frame⟩ := callStep_accepted fits accepted rfl memory taken
    exact ⟨frame, _, List.getElem?_set_self (List.getElem?_eq_some_iff.mp received).1, ok, rfl, rfl, rfl⟩
  | transfer j n sec =>
    obtain rfl : j = i := Option.some.inj caller
    simp [State.step, received, transfer, Call.receive] at moved
  | lowerComplete j n ioStatus =>
    obtain rfl : j = i := Option.some.inj caller
    simp [State.step, received, lowerComplete, Call.receive] at moved
  | _ => contradiction

/-- The second step scans the queue. -/
theorem undisturbed_scan {c : Call} (fits : s.shared.statistics.size < 2 ^ 63)
    (accepted : c.irp.stack.ReadAccepted s.shared.statistics.size)
    (pending : ∀ item ∈ s.shared.queue, item.Accepted s.shared.statistics.size ∨ item.Empty)
    (present : s.calls[i]? = some c) (ok : CallOk i c) (at_ : c.pc = .scanQueue) (alone : undisturbed i s a = true)
    (moved : s.step a = some s') :
    Merged s.shared.disk c.irp (scanWriteQueue c.irp.stack c.buffer s.shared.statistics s.shared.queue) i s' := by
  simp only [undisturbed, Bool.and_eq_true, decide_eq_true_eq] at alone
  obtain ⟨caller, -⟩ := alone
  obtain ⟨c', present'⟩ := call_stays present moved
  have here := ok.atPc
  rw [Call.AtPc, at_] at here
  cases callMove_of_caller caller moved present' with
  | received action => rw [action] at caller; contradiction
  | call _ there taken =>
    obtain rfl := Option.some.inj (present.symm.trans there)
    obtain ⟨merges, buffer, awaits⟩ := taken.scanned fits accepted pending ok at_
    refine ⟨taken.outer.disk, c', present', ok.step taken, taken.irp, merges, fun _ _ x _ => by rw [buffer], ?_⟩
    exact fun k below clear => .inl (awaits k below clear)
  | lower _ there taken =>
    obtain rfl := Option.some.inj (present.symm.trans there)
    exact absurd here.1.lowerIrps taken.present
  | worker none => rw [none] at caller; contradiction
  | still elsewhere => exact absurd caller elsewhere

/-- What a finished read has in its buffer. -/
theorem Merged.finished {disk : Bytes} {scan : ScanState} {c : Call} (merged : Merged disk irp scan i s)
    (present : s.calls[i]? = some c) (finished : c.finished) (whole : irp.stack.length % 512 = 0) {x : ℤ} (low : 0 ≤ x)
    (high : x < irp.stack.length) :
    c.buffer x = if scan.bitmap (sector x).toNat then scan.buffer x else disk (irp.stack.byteOffset + x) := by
  obtain ⟨-, d, there, ok, rfl, merges, kept, filled⟩ := merged
  obtain rfl := Option.some.inj (present.symm.trans there)
  obtain ⟨returned, noParts⟩ := finished
  obtain ⟨status, at_⟩ := Pc.hasReturned_iff.mp returned
  have inside : sector x = (sector x).toNat := by
    simp only [sector]
    omega
  have atEnd : c.frontier = c.irp.stack.length / 512 := by
    rw [Call.frontier, at_]
    rfl
  by_cases set : scan.bitmap (sector x).toNat = true
  · rw [if_pos set]
    exact kept _ set x inside
  · rw [if_neg set]
    have below : (sector x).toNat < c.frontier := by
      rw [atEnd]
      simp only [sector] at inside ⊢
      omega
    obtain (forward | ⟨lower, member, -⟩) | old := filled _ below (by simpa using set)
    · rw [at_] at forward
      contradiction
    · rw [noParts] at member
      contradiction
    · exact old x inside

/-- An undisturbed run that finishes the read has scanned the queue it started with. -/
theorem merged_of_run {as : List Action} {c : Call} (fits : s.shared.statistics.size < 2 ^ 63)
    (pending : ∀ item ∈ s.shared.queue, item.Accepted s.shared.statistics.size ∨ item.Empty)
    (received : s.calls[i]? = some (.receive irp)) (accepted : irp.stack.ReadAccepted s.shared.statistics.size)
    (run : Run State.step (fun t a => undisturbed i t a = true) s as s') (present : s'.calls[i]? = some c)
    (finished : c.finished) : ∃ scan : ScanState, Merged s.shared.disk irp scan i s' ∧
      scan.buffer = Overlay.replay irp.data (s.shared.queue.map fun item => item.overlay irp.stack) ∧
      ∀ k, scan.bitmap k = true ↔ ∃ item ∈ s.shared.queue, item.marks irp.stack k := by
  cases as with
  | nil =>
    rw [(Run.nil s).unique run] at received
    obtain rfl := Option.some.inj (received.symm.trans present)
    obtain ⟨returned, -⟩ := finished
    contradiction
  | cons entry as =>
    obtain ⟨s₁, alone₁, moved₁, run⟩ := run.uncons
    obtain ⟨frame, d, waits, ok, at_, rfl, data⟩ := undisturbed_entry fits received accepted alone₁ moved₁
    cases as with
    | nil =>
      rw [(Run.nil s₁).unique run] at waits
      obtain rfl := Option.some.inj (waits.symm.trans present)
      obtain ⟨returned, -⟩ := finished
      rw [at_] at returned
      contradiction
    | cons scanning as =>
      obtain ⟨s₂, alone₂, moved₂, run⟩ := run.uncons
      have queue : s₁.shared.queue = s.shared.queue := frame.queue
      rw [← frame.size] at fits accepted pending
      rw [← queue] at pending
      have start := undisturbed_scan fits accepted pending waits ok at_ alone₂ moved₂
      have merged := run.preserves _ start fun _ _ _ merged alone moved => merged.step fits accepted alone moved
      obtain ⟨copied, marked, -⟩ := scan_spec fits accepted pending d.buffer s₁.shared.statistics
      refine ⟨_, frame.disk ▸ merged, ?_, ?_⟩
      · rw [copied, data, queue]
      · rw [← queue]
        exact marked

end Quiet

/-- The bytes of a read of a quiet device. Whatever is queued by the checks of `QCacheWrite`, the bytes that a
completed read returns are the newest ones if and only if the marks of the scan get them right. -/
theorem read_merge (s₀ s : State) (as : List Action) (i : ℕ) (irp : Irp) (c : Call)
    (fits : s₀.shared.statistics.size < 2 ^ 63)
    (pending : ∀ item ∈ s₀.shared.queue, item.Accepted s₀.shared.statistics.size ∨ item.Empty)
    (received : s₀.calls[i]? = some (.receive irp)) (accepted : irp.stack.ReadAccepted s₀.shared.statistics.size)
    (run : Run State.step (fun t a => undisturbed i t a = true) s₀ as s) (present : s.calls[i]? = some c)
    (finished : c.finished) :
    (∀ x : ℤ, 0 ≤ x → x < irp.stack.length → c.buffer x = s₀.shared.newest (irp.stack.byteOffset + x)) ↔
      ReadExact s₀.shared irp := by
  obtain ⟨scan, merged, copied, marked⟩ := merged_of_run fits pending received accepted run present finished
  refine forall_congr' fun x => forall_congr' fun low => forall_congr' fun high => ?_
  rw [merged.finished present finished accepted.length low high, copied, replay_overlay _ _ _ low high]
  simp only [marked]
  by_cases mark : ∃ item ∈ s₀.shared.queue, item.marks irp.stack (sector x).toNat
  · rw [if_pos mark, if_pos mark]
    by_cases covered : ∃ item ∈ s₀.shared.queue, item.covers (irp.stack.byteOffset + x)
    · exact iff_of_true (newest_of_covered covered _) (.inl covered)
    · rw [newest_of_not_covered covered, filter_eq_nil covered, or_iff_right covered]
      rfl
  · rw [if_neg mark, if_neg mark]
    exact eq_comm

/-- The marks are right for every read when the queued writes are whole sectors. -/
theorem readExact_of_aligned {sh : Shared} {irp : Irp} {size : ℤ} (fits : size < 2 ^ 63)
    (accepted : irp.stack.ReadAccepted size) (pending : ∀ item ∈ sh.queue, item.Accepted size ∨ item.Empty)
    (aligned : ∀ item ∈ sh.queue, item.Aligned) :
    ReadExact sh irp := by
  intro x low high
  have inside : sector (irp.stack.byteOffset + 512 * (sector x).toNat) = sector (irp.stack.byteOffset + x) := by
    have offset := accepted.offset
    simp only [sector]
    omega
  have below : (sector x).toNat < irp.stack.length / 512 := by
    have whole := accepted.length
    simp only [sector]
    omega
  have same : ∀ item ∈ sh.queue, (item.marks irp.stack (sector x).toNat ↔ item.covers (irp.stack.byteOffset + x)) := by
    intro item member
    rw [marks_iff_covers fits accepted (pending item member) (aligned item member), and_iff_right below]
    exact ⟨covers_sector (aligned item member) inside.symm, covers_sector (aligned item member) inside⟩
  split
  · next marked =>
    obtain ⟨item, member, marks⟩ := marked
    exact .inl ⟨item, member, (same item member).mp marks⟩
  · next unmarked =>
    apply newest_of_not_covered
    rintro ⟨item, member, covered⟩
    exact unmarked ⟨item, member, (same item member).mpr covered⟩

/-- A write of the first sector is queued and a read of it has arrived. -/
def readArrives : List Action := lazyWrite ++ [.receive readSector0]

theorem read_merge_readArrives : ∃ c, (State.after smallDevice (readArrives ++ callSteps 1 3)).calls[1]? = some c ∧
    ∀ x : ℤ, 0 ≤ x → x < 512 → c.buffer x = (State.after smallDevice readArrives).shared.newest x := by
  have before := run_of_replay smallDevice readArrives (by decide +kernel)
  have fits := (admission_of_run before).range.2
  have size : (State.after smallDevice readArrives).shared.statistics.size = 65536 := by decide +kernel
  have pending := queue_accepted_of_run before
  have arrived : (State.after smallDevice readArrives).calls[1]? = some (.receive readSector0) :=
    received_after (by decide +kernel) (by decide +kernel)
  have accepted : readSector0.stack.ReadAccepted (State.after smallDevice readArrives).shared.statistics.size := by
    rw [size]
    constructor <;> decide
  have run : Run State.step (fun t a => undisturbed 1 t a = true) _ (callSteps 1 3)
    (State.after smallDevice (readArrives ++ callSteps 1 3)) := run_between (by decide +kernel) (by decide +kernel)
  have there := State.call_after
    (show ((State.after smallDevice (readArrives ++ callSteps 1 3)).calls[1]?).isSome by decide +kernel)
  have bytes := (read_merge _ _ _ 1 _ _ fits pending arrived accepted run there (by decide +kernel)).mpr
    (readExact_of_aligned fits accepted pending (by decide +kernel))
  refine ⟨_, there, fun x low high => ?_⟩
  have same := bytes x low high
  rwa [show readSector0.stack.byteOffset + x = x from zero_add x] at same

/-- A write of half a sector. -/
def halfSector : Irp where
  stack := { (writeSector0 7).stack with length := 256, length_lt := by decide }
  data := fun _ => 7

/-- It is queued, and a read of its sector has arrived. -/
def halfWritten : List Action := [.receive halfSector] ++ callSteps 0 12 ++ [.receive readSector0]

/-- The read leaves the sector unmarked and fetches all of it from the disk. -/
def halfWrittenServed : List Action :=
  callSteps 1 5 ++ [.transfer 1 0 0, .lowerComplete 1 0 ⟨STATUS_SUCCESS, 512⟩]

theorem read_merge_halfWritten : ¬ ∀ (s₀ s : State) (as : List Action) (i : ℕ) (irp : Irp) (c : Call),
    s₀.shared.statistics.size < 2 ^ 63 →
    (∀ item ∈ s₀.shared.queue, item.Accepted s₀.shared.statistics.size ∨ item.Empty) →
    s₀.calls[i]? = some (.receive irp) → irp.stack.ReadAccepted s₀.shared.statistics.size →
    Run State.step (fun t a => undisturbed i t a = true) s₀ as s → s.calls[i]? = some c → c.finished →
    ∀ x : ℤ, 0 ≤ x → x < irp.stack.length → c.buffer x = s₀.shared.newest (irp.stack.byteOffset + x) := by
  intro claimed
  have before := run_of_replay smallDevice halfWritten (by decide +kernel)
  have size : (State.after smallDevice halfWritten).shared.statistics.size = 65536 := by decide +kernel
  have pending := queue_accepted_of_run before
  have arrived : (State.after smallDevice halfWritten).calls[1]? = some (.receive readSector0) :=
    received_after (by decide +kernel) (by decide +kernel)
  have accepted : readSector0.stack.ReadAccepted (State.after smallDevice halfWritten).shared.statistics.size := by
    rw [size]
    constructor <;> decide
  have run : Run State.step (fun t a => undisturbed 1 t a = true) _ halfWrittenServed
    (State.after smallDevice (halfWritten ++ halfWrittenServed)) := run_between (by decide +kernel) (by decide +kernel)
  have there := State.call_after
    (show ((State.after smallDevice (halfWritten ++ halfWrittenServed)).calls[1]?).isSome by decide +kernel)
  have newest := claimed _ _ _ 1 _ _ (admission_of_run before).range.2 pending arrived accepted run there
    (by decide +kernel) 0 (by decide) (by decide)
  revert newest
  decide +kernel

end QueueCache
