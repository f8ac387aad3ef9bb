import Mathlib.Data.List.Forall2
import QueueCache.ToMathlib.Run
import QueueCache.Model.ScsiChk
import QueueCache.Proofs.LogReader

/-! # Reading back what was written

The writer puts one block behind the other, and the reader steps by the same length from one to the next. It
visits a record where at least `sizeof (LOGDATA)` bytes are left, the writer gives a record as many bytes as its
data needs, so only the last record can be missed. The writer is the loop of the removal, taken by itself.
-/

namespace QueueCache.ScsiLog

open PartialReads

variable {layout : Layout} {v : View layout} {p : ℕ} {rest : List UInt8}

section Record

variable (r : LogData layout)

def LogData.header : List UInt8 := (List.range layout.dataOffset).map r.headerByte

theorem LogData.length_header : r.header.length = layout.dataOffset := by
  rw [LogData.header, List.length_map, List.length_range]

theorem LogData.length_block : r.block.length = layout.dataOffset + r.data.length := by
  rw [LogData.block, List.length_append, ← LogData.header, r.length_header]

/-- The members do not overlap, so each byte of one stands at its place. -/
theorem LogData.headerByte_member (m : Member) {i : ℕ} (inside : i < layout.width m) :
    r.headerByte (layout.offset m + i) = (r.member m).getD i 0 := by
  have found : (Member.all.find? fun n => layout.offset n ≤ layout.offset m + i ∧
      layout.offset m + i < layout.offset n + layout.width n) = some m := by
    cases result : Member.all.find? fun n => layout.offset n ≤ layout.offset m + i ∧
        layout.offset m + i < layout.offset n + layout.width n with
    | none =>
      have absent := List.find?_eq_none.mp result m m.mem_all
      exact absurd (decide_eq_true ⟨Nat.le_add_right _ _, Nat.add_lt_add_left inside _⟩) absent
    | some n =>
      have covers := List.find?_some result
      rw [decide_eq_true_eq] at covers
      by_contra other
      obtain left | right := layout.apart m n fun same => other (by rw [same])
      · omega
      · omega
  rw [LogData.headerByte, found]
  dsimp only [Option.map_some, Option.getD_some]
  rw [Nat.add_sub_cancel_left]

/-- The reader finds every member of a header that was written. -/
theorem LogData.member_header (visit : Visit layout) (same : visit.header = r.header) (m : Member) :
    visit.member m = r.member m := by
  have inside := layout.inside m
  rw [Visit.member, same]
  apply List.ext_getElem?
  intro i
  by_cases covered : i < layout.width m
  · rw [List.getElem?_take_of_lt covered, List.getElem?_drop, LogData.header, List.getElem?_map,
      List.getElem?_range (by omega), Option.map_some, r.headerByte_member m covered, List.getD_eq_getElem?_getD,
      List.getElem?_eq_getElem (by rw [r.length_member]; exact covered), Option.getD_some]
  · rw [List.getElem?_eq_none (by rw [List.length_take]; omega), List.getElem?_eq_none (by rw [r.length_member]; omega)]

end Record

section Position

variable {r : LogData layout}

theorem View.headerAt_eq (at_ : v.bytes.drop p = r.block ++ rest) : v.headerAt p = r.header := by
  rw [View.headerAt, at_, LogData.block, ← LogData.header, List.append_assoc,
    List.take_append_of_le_length (by rw [r.length_header]),
    List.take_of_length_le (by rw [r.length_header])]

theorem View.dataLengthAt_eq (at_ : v.bytes.drop p = r.block ++ rest) : v.dataLengthAt p = r.data.length := by
  have same := r.member_header { logdata := p, header := r.header } rfl .dataLength
  rw [← View.headerAt_eq at_, View.member_headerAt (v := v) (p := p) _ rfl] at same
  rw [View.dataLengthAt, same, r.dataLength]

theorem View.data_start (at_ : v.bytes.drop p = r.block ++ rest) : r.data <+: v.bytes.drop (p + layout.dataOffset) := by
  have behind : (r.header ++ (r.data ++ rest)).drop layout.dataOffset = r.data ++ rest :=
    List.drop_left' r.length_header
  rw [← List.drop_drop, at_, LogData.block, ← LogData.header, List.append_assoc, behind]
  exact List.prefix_append _ _

theorem View.drop_next (at_ : v.bytes.drop p = r.block ++ rest) :
    v.bytes.drop (p + layout.dataOffset + r.data.length) = rest := by
  rw [Nat.add_assoc, ← List.drop_drop, at_, List.drop_left' r.length_block]

theorem View.length_eq (start : p ≤ v.bytes.length) (at_ : v.bytes.drop p = r.block ++ rest) :
    v.bytes.length = p + layout.dataOffset + r.data.length + rest.length := by
  have same := congrArg List.length at_
  rw [List.length_drop, List.length_append, r.length_block] at same
  omega

end Position

/-- A round of the loop that has found a record: every member and all of the data, which the printed bytes make up
together with the zeros that were trimmed. -/
structure Visit.Shows (visit : Visit layout) (r : LogData layout) : Prop where
  member (m : Member) : visit.member m = r.member m
  dataLength : visit.dataLength = r.data.length
  data : visit.data.getD [] ++ List.replicate (visit.dataLength - (visit.data.getD []).length) 0 = r.data

theorem rdropWhile_append_replicate (xs : List UInt8) :
    xs.rdropWhile (· = 0) ++ List.replicate (xs.length - (xs.rdropWhile (· = 0)).length) 0 = xs := by
  have split := List.rdropWhile_append_rtakeWhile (p := (· = (0 : UInt8))) (l := xs)
  have zeros : xs.rtakeWhile (· = 0) = List.replicate (xs.length - (xs.rdropWhile (· = 0)).length) 0 := by
    rw [List.eq_replicate_iff]
    refine ⟨?_, fun x member => by simpa using List.mem_rtakeWhile_imp member⟩
    have total := congrArg List.length split
    rw [List.length_append] at total
    omega
  rw [← zeros, split]

theorem printed_shows (logdata : ℕ) (r : LogData layout) :
    Visit.Shows (printed logdata r.header r.data : Visit layout) r := by
  have member := r.member_header (printed logdata r.header r.data) rfl
  have length : (printed logdata r.header r.data : Visit layout).dataLength = r.data.length := by
    rw [Visit.dataLength, member, r.dataLength]
  have shown : (printed logdata r.header r.data : Visit layout).data.getD [] = r.data.rdropWhile (· = 0) := by
    change (if 0 < r.data.length then some (r.data.rdropWhile (· = 0)) else none).getD [] = _
    split
    · rfl
    · next none =>
      obtain none : r.data = [] := List.length_eq_zero_iff.mp (by omega)
      rw [none]
      rfl
  refine ⟨member, length, ?_⟩
  rw [shown, length, rdropWhile_append_replicate]

/-- What the walk makes of a list of records. -/
def reading (v : View layout) : List (LogData layout) → ℕ → List (Visit layout) × Ending
  | [], _ => ([], .finished)
  | r :: rest, p =>
    if rest = [] ∧ layout.dataOffset + r.data.length < layout.size then ([], .finished)
    else if v.longest < (r.data.rdropWhile (· = 0)).length then ([], .stopped .tooLong)
    else
      let (visits, ending) := reading v rest (p + layout.dataOffset + r.data.length)
      (printed (v.ptr + p) r.header r.data :: visits, ending)

/-- A record that is not the last one is followed by another header, so a whole `LOGDATA` fits. -/
theorem View.fits_iff {r : LogData layout} {records : List (LogData layout)} (start : p ≤ v.bytes.length)
    (at_ : v.bytes.drop p = r.block ++ records.flatMap LogData.block) :
    p + layout.size ≤ v.bytes.length ↔ ¬ (records = [] ∧ layout.dataOffset + r.data.length < layout.size) := by
  have length := View.length_eq start at_
  cases records with
  | nil =>
    rw [List.flatMap_nil, List.length_nil] at length
    simp only [true_and]
    omega
  | cons next records =>
    have := layout.size_le
    rw [List.flatMap_cons, List.length_append, next.length_block] at length
    simp only [reduceCtorEq, false_and, not_false_eq_true, iff_true]
    omega

/-- The walk over a file of records, from the start of one of them. -/
theorem View.walk_records (records : List (LogData layout)) (rounds : ℕ) (start : p ≤ v.bytes.length)
    (at_ : v.bytes.drop p = records.flatMap LogData.block) (enough : v.bytes.length - p < rounds) :
    v.walk rounds (v.ptr + p) = reading v records p := by
  induction records generalizing p rounds with
  | nil =>
    obtain ⟨rounds, rfl⟩ := Nat.exists_eq_succ_of_ne_zero (Nat.ne_of_gt (Nat.zero_lt_of_lt enough))
    have done : v.bytes.length ≤ p := List.drop_eq_nil_iff.mp at_
    have := layout.dataOffset_lt
    rw [View.walk, if_neg fun condition => absurd (View.condition_iff.mp condition) (by omega)]
    rfl
  | cons r records ih =>
    obtain ⟨rounds, rfl⟩ := Nat.exists_eq_succ_of_ne_zero (Nat.ne_of_gt (Nat.zero_lt_of_lt enough))
    rw [List.flatMap_cons] at at_
    have length := View.length_eq start at_
    have pos := layout.dataOffset_pos
    rw [View.walk, reading]
    by_cases fits : p + layout.size ≤ v.bytes.length
    · rw [if_pos (View.condition_iff.mpr fits), if_neg ((View.fits_iff start at_).mp fits),
        View.visit_inside fits (View.dataLengthAt_eq at_) (View.data_start at_), View.headerAt_eq at_]
      by_cases long : v.longest < (r.data.rdropWhile (· = 0)).length
      · rw [if_pos long, if_pos long]
      · have moved :
            v.next (printed (v.ptr + p) r.header r.data) = v.ptr + (p + layout.dataOffset + r.data.length) := by
          rw [View.next, (printed_shows _ r).dataLength]
          change v.add (v.add (v.ptr + p) layout.dataOffset) _ = _
          rw [View.add_eq (by omega), View.add_eq (by omega)]
        rw [if_neg long, if_neg long]
        dsimp only
        rw [moved, ih rounds (by omega) (View.drop_next at_) (by omega)]
    · have last := not_not.mp (mt (View.fits_iff start at_).mpr fits)
      rw [if_neg fun condition => fits (View.condition_iff.mp condition), if_pos last]

/-- The walk finds every record unless the last one is too short or the data of one is too long. -/
theorem reading_iff (records : List (LogData layout)) (p : ℕ) :
    (∃ visits, reading v records p = (visits, .finished) ∧ List.Forall₂ Visit.Shows visits records) ↔
      (∀ last ∈ records.getLast?, layout.size ≤ layout.dataOffset + last.data.length) ∧
        ∀ r ∈ records, (r.data.rdropWhile (· = 0)).length ≤ v.longest := by
  induction records generalizing p with
  | nil => simp [reading]
  | cons r records ih =>
    rw [reading]
    split
    · next missed =>
      obtain ⟨rfl, short⟩ := missed
      refine iff_of_false ?_ fun all => absurd (all.1 r rfl) (Nat.not_le.mpr short)
      rintro ⟨visits, same, shown⟩
      obtain rfl := (Prod.mk.inj same).1
      cases shown
    · next there =>
      split
      · next long =>
        refine iff_of_false ?_ fun all => absurd (all.2 r List.mem_cons_self) (Nat.not_le.mpr long)
        rintro ⟨visits, same, -⟩
        exact absurd (Prod.mk.inj same).2 (by simp)
      · next short =>
        have later := ih (p + layout.dataOffset + r.data.length)
        have lasts : (∀ last ∈ (r :: records).getLast?, layout.size ≤ layout.dataOffset + last.data.length) ↔
            ∀ last ∈ records.getLast?, layout.size ≤ layout.dataOffset + last.data.length := by
          cases records with
          | nil => simpa using there
          | cons next records => rw [List.getLast?_cons_cons]
        rw [lasts, List.forall_mem_cons, ← and_assoc, and_right_comm, ← later]
        constructor
        · rintro ⟨visits, same, shown⟩
          obtain ⟨rfl, ending⟩ := Prod.mk.inj same
          cases shown with
          | cons first shown => exact ⟨⟨_, Prod.ext rfl ending, shown⟩, Nat.not_lt.mp short⟩
        · rintro ⟨⟨visits, same, shown⟩, -⟩
          rw [same]
          exact ⟨_, rfl, .cons (printed_shows _ r) shown⟩

section Writer

variable {records : List (LogData layout × NtStatus)} {status : NtStatus}

/-- With every write succeeding the file is one block behind the other. -/
theorem writeLog_eq (created : ntSuccess status = true) (written : ∀ r ∈ records, ntSuccess r.2 = true)
    (fits : ∀ r ∈ records, layout.dataOffset + r.1.data.length < 2 ^ 32) :
    writeLog status records = (records.map Prod.fst).flatMap LogData.block := by
  induction records generalizing status with
  | nil => rfl
  | cons r records ih =>
    obtain ⟨logdata, zwWriteFile⟩ := r
    have success : ntSuccess zwWriteFile = true := written (logdata, zwWriteFile) List.mem_cons_self
    have small : layout.dataOffset + logdata.data.length < 2 ^ 32 := fits (logdata, zwWriteFile) List.mem_cons_self
    have later := ih success (fun r member => written r (List.mem_cons_of_mem _ member))
      fun r member => fits r (List.mem_cons_of_mem _ member)
    rw [writeLog, if_pos created, later]
    dsimp only
    rw [if_pos success, logdata.dataLength, Nat.mod_eq_of_lt small,
      ← logdata.length_block, List.take_length, List.map_cons, List.flatMap_cons]

end Writer

section Removal

open Transition

/-- The steps of the removal's loop, with what `ZwWriteFile` returns for each record. -/
def loopSteps : List (ℕ × NtStatus) → List ScsiChk.Action
  | [] => [.remove STATUS_SUCCESS]
  | (_, zwWriteFile) :: rest => [.remove STATUS_SUCCESS, .remove zwWriteFile, .remove STATUS_SUCCESS,
      .remove STATUS_SUCCESS] ++ loopSteps rest

/-- One round of the loop takes the first record off the list. -/
theorem loop_round {s : ScsiChk.State} {status : NtStatus} {i : ℕ} {next : ScsiChk.PLogData}
    (here : s.removal = .read status) (list : s.logData = i :: next) (zwWriteFile : NtStatus) :
    Run ScsiChk.State.step anyStep s
      [.remove STATUS_SUCCESS, .remove zwWriteFile, .remove STATUS_SUCCESS, .remove STATUS_SUCCESS]
      { s with
        logData := next
        written := if ntSuccess status && ntSuccess zwWriteFile then s.written ++ [i] else s.written
        freed := s.freed ++ [i]
        removal := .read (if ntSuccess status then zwWriteFile else status) } := by
  apply run_of_runs?
  cases going : ntSuccess status <;> simp [runs?, anyStep, ScsiChk.State.step, ScsiChk.State.remove, here, list, going]

/-- Left alone, the loop of the removal writes the bytes of `writeLog`, and frees every record. -/
theorem loop_writes (log : ℕ → LogData layout) (fits : ∀ i, layout.dataOffset + (log i).data.length < 2 ^ 32)
    (records : List (ℕ × NtStatus)) (s : ScsiChk.State) (status : NtStatus) (here : s.removal = .read status)
    (list : s.logData = records.map Prod.fst) :
    ∃ t added, Run ScsiChk.State.step anyStep s (loopSteps records) t ∧ t.removal = .close ∧ t.logData = [] ∧
      t.freed = s.freed ++ records.map Prod.fst ∧ t.written = s.written ++ added ∧
      added.flatMap (fun i => (log i).block) = writeLog status (records.map fun r => (log r.1, r.2)) := by
  induction records generalizing s status with
  | nil =>
    refine ⟨{ s with removal := .close }, [], ?_, rfl, list, by simp, by simp, rfl⟩
    have list : s.logData = [] := list
    exact Run.single trivial (by simp [ScsiChk.State.step, ScsiChk.State.remove, here, list])
  | cons r records ih =>
    obtain ⟨i, zwWriteFile⟩ := r
    have list : s.logData = i :: records.map Prod.fst := list
    have first := loop_round here list zwWriteFile
    obtain ⟨t, added, rest, closed, empty, freed, written, bytes⟩ := ih
      { s with
        logData := records.map Prod.fst
        written := if ntSuccess status && ntSuccess zwWriteFile then s.written ++ [i] else s.written
        freed := s.freed ++ [i]
        removal := .read (if ntSuccess status then zwWriteFile else status) } _ rfl rfl
    have whole :
        (log i).block.take ((layout.dataOffset + ulong ((log i).member .dataLength)) % 2 ^ 32) = (log i).block := by
      rw [(log i).dataLength, Nat.mod_eq_of_lt (fits i), ← (log i).length_block, List.take_length]
    refine ⟨t, (if ntSuccess status && ntSuccess zwWriteFile then [i] else []) ++ added, first.append rest,
      closed, empty, ?_, ?_, ?_⟩
    · rw [freed, List.map_cons, List.append_assoc]
      rfl
    · rw [written]
      cases ntSuccess status && ntSuccess zwWriteFile <;> simp
    · rw [List.flatMap_append, bytes, List.map_cons, writeLog]
      cases going : ntSuccess status with
      | true =>
        dsimp only
        rw [whole]
        cases ntSuccess zwWriteFile <;> simp
      | false => simp

end Removal

/-- A log is written and mapped. The reader visits its records, each with what was written, and nothing else, exactly
where the last one is as long as a `LOGDATA` and the runtime can convert the data of all of them. -/
theorem log_round_trip (records : List (LogData layout × NtStatus)) (status : NtStatus) (v : View layout)
    (created : ntSuccess status = true) (written : ∀ r ∈ records, ntSuccess r.2 = true)
    (fits : ∀ r ∈ records, layout.dataOffset + r.1.data.length < 2 ^ 32) (mapped : v.bytes = writeLog status records) :
    (∃ visits, v.showFileInfo = (visits, .finished) ∧ List.Forall₂ Visit.Shows visits (records.map Prod.fst)) ↔
      (∀ last ∈ (records.map Prod.fst).getLast?, layout.size ≤ layout.dataOffset + last.data.length) ∧
        ∀ r ∈ records.map Prod.fst, (r.data.rdropWhile (· = 0)).length ≤ v.longest := by
  have at_ : v.bytes.drop 0 = (records.map Prod.fst).flatMap LogData.block := by
    rw [List.drop_zero, mapped, writeLog_eq created written fits]
  rw [View.showFileInfo, ← reading_iff (v := v) _ 0]
  have walk : v.walk (v.bytes.length + 1) v.ptr = reading v (records.map Prod.fst) 0 :=
    View.walk_records _ _ (Nat.zero_le _) at_ (by omega)
  rw [walk]

/-- A record of zeros but for its data. -/
def zeroRecord (n : ℕ) (small : n < 256) : LogData layout64 where
  member m := if m = .dataLength then [n.toUInt8, 0, 0, 0] else List.replicate (layout64.width m) 0
  data := List.replicate n 7
  length_member m := by
    cases m <;> rfl
  dataLength := by
    rw [if_pos rfl, List.length_replicate]
    simp [ulong, small]

theorem room_above {bytes : List UInt8} (small : bytes.length < 65536) : 65536 + bytes.length + 715827882 < 2 ^ 64 := by
  omega

/-- A small file in a process of 64 bits. -/
def mapFile (bytes : List UInt8) (small : bytes.length < 65536) : View layout64 where
  pointerBits := 64
  ptr := 65536
  bytes := bytes
  longest := 715827882
  below := room_below
  above := room_above small

theorem log_round_trip_fourBytes : ∃ visits,
    (mapFile
      (writeLog STATUS_SUCCESS [(zeroRecord 6 (by decide), STATUS_SUCCESS), (zeroRecord 4 (by decide), STATUS_SUCCESS)])
      (by decide +kernel)).showFileInfo = (visits, .finished) ∧
      List.Forall₂ Visit.Shows visits [zeroRecord 6 (by decide), zeroRecord 4 (by decide)] :=
  (log_round_trip [(zeroRecord 6 (by decide), STATUS_SUCCESS), (zeroRecord 4 (by decide), STATUS_SUCCESS)]
    STATUS_SUCCESS
    (mapFile _ (by decide +kernel)) (by decide) (by simp; decide) (by simp; decide) rfl).mpr
    ⟨by simp; decide, by simp; decide⟩

/-- A single record without data is written and never seen again. -/
theorem log_round_trip_noData : ¬ ∀ (layout : Layout) (records : List (LogData layout × NtStatus)) (status : NtStatus)
    (v : View layout), ntSuccess status = true → (∀ r ∈ records, ntSuccess r.2 = true) →
    (∀ r ∈ records, layout.dataOffset + r.1.data.length < 2 ^ 32) → v.bytes = writeLog status records →
    ∃ visits, v.showFileInfo = (visits, .finished) ∧ List.Forall₂ Visit.Shows visits (records.map Prod.fst) := by
  intro claimed
  obtain ⟨visits, same, shown⟩ := claimed layout64 [(zeroRecord 0 (by decide), STATUS_SUCCESS)] STATUS_SUCCESS
    (mapFile (writeLog STATUS_SUCCESS [(zeroRecord 0 (by decide), STATUS_SUCCESS)]) (by decide +kernel)) (by decide)
    (by simp; decide) (by simp; decide) rfl
  have missed :
      (mapFile (writeLog STATUS_SUCCESS [(zeroRecord 0 (by decide), STATUS_SUCCESS)])
        (by decide +kernel)).showFileInfo = ([], .finished) := by decide +kernel
  obtain rfl := (Prod.mk.inj (missed.symm.trans same)).1
  cases shown

end QueueCache.ScsiLog
