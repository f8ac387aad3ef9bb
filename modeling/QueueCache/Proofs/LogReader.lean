import QueueCache.Model.LogFile

/-! # The reader of the SCSI log

The walk always ends, and its pointer moves forward with every record that it finishes. A record that ends
inside the view is read as it stands there. One that does not is never finished: the scan for its trailing
zeros starts behind the view, and even where the addresses wrap around it cannot come down to a length that
the runtime converts without leaving the view on its way.
-/

namespace QueueCache.ScsiLog

open PartialReads

variable {layout : Layout} {v : View layout} {p n : ℕ} {xs : List UInt8}

theorem Layout.dataOffset_pos (layout : Layout) : 0 < layout.dataOffset := by
  have := layout.dataOffset_lt
  have := layout.size_le
  omega

section View

/-- Addresses do not wrap around as long as the data behind the view can be converted. -/
theorem View.add_eq (inside : p + n ≤ v.bytes.length + v.longest) : v.add (v.ptr + p) n = v.ptr + (p + n) := by
  have := v.above
  rw [View.add, Nat.mod_eq_of_lt (by omega), Nat.add_assoc]

theorem View.load_eq_ok {address : ℕ} {x : UInt8} :
    v.load address = .ok x ↔ v.ptr ≤ address ∧ v.bytes[address - v.ptr]? = some x := by
  rw [View.load]
  split
  · next above =>
    cases v.bytes[address - v.ptr]? with
    | none => simp
    | some y => simp [above]
  · next below => simp [below]

theorem View.load_error {address : ℕ} {stop : Stop} (failed : v.load address = .error stop) : stop = .outside := by
  rw [View.load] at failed
  split at failed
  · cases found : v.bytes[address - v.ptr]? with
    | none =>
      rw [found] at failed
      exact (Except.error.inj failed).symm
    | some x =>
      rw [found] at failed
      contradiction
  · exact (Except.error.inj failed).symm

/-- The view serves what lies in the file. -/
theorem View.serves (there : xs <+: v.bytes.drop p) : Serves (v.from (v.ptr + p)) xs := by
  intro i x present
  obtain ⟨rest, same⟩ := there
  have found : v.bytes[p + i]? = some x := by
    rw [← List.getElem?_drop, ← same, List.getElem?_append_left (List.getElem?_eq_some_iff.mp present).1, present]
  have inside := (List.getElem?_eq_some_iff.mp found).1
  rw [View.from, View.add_eq (by omega), View.load_eq_ok]
  exact ⟨Nat.le_add_right _ _, by rw [Nat.add_sub_cancel_left, found]⟩

/-- What the view serves behind a pointer lies in the file. -/
theorem View.inside_of_served {x : UInt8} (small : p + n ≤ v.bytes.length + v.longest)
    (served : v.from (v.ptr + p) n = .ok x) : p + n < v.bytes.length := by
  rw [View.from, View.add_eq small, View.load_eq_ok, Nat.add_sub_cancel_left] at served
  exact (List.getElem?_eq_some_iff.mp served.2).1

/-- Data that is served from a convertible length on ends inside the view. -/
theorem View.inside_of_tail {k : ℕ} (start : p ≤ v.bytes.length) (small : k ≤ v.longest) (below : k < n)
    (served : ∀ i, k ≤ i → i < n → ∃ x, v.from (v.ptr + p) i = .ok x) : p + n ≤ v.bytes.length := by
  induction n, below using Nat.le_induction with
  | base =>
    obtain ⟨x, there⟩ := served k le_rfl (Nat.lt_succ_self k)
    exact View.inside_of_served (by omega) there
  | succ n above ih =>
    have before := ih fun i low high => served i low (Nat.lt_succ_of_lt high)
    obtain ⟨x, there⟩ := served n (by omega) (Nat.lt_succ_self n)
    exact View.inside_of_served (by omega) there

end View

/-- The header at a position of the file. -/
def View.headerAt (v : View layout) (p : ℕ) : List UInt8 := (v.bytes.drop p).take layout.dataOffset

/-- `DataLength` of the record at a position of the file. -/
def View.dataLengthAt (v : View layout) (p : ℕ) : ℕ :=
  ulong ((v.bytes.drop (p + layout.offset .dataLength)).take (layout.width .dataLength))

/-- What the loop prints for a header and its data. -/
def printed (logdata : ℕ) (header data : List UInt8) : Visit layout :=
  let visit : Visit layout := { logdata, header }
  let cdb := (visit.member .cdb).rdropWhile (· = 0)
  { visit with
    rawCdb := if ulong (visit.member .srbFunction) = 0 ∧ 1 ≤ cdb.length then some (cdb.drop 1) else none
    data := if 0 < data.length then some (data.rdropWhile (· = 0)) else none }

/-- There is a byte in the data, no zero, that is too far behind for the runtime to convert what is left after
trimming, and the view serves the data from there on. -/
def View.TooLong (v : View layout) (data dataLength : ℕ) : Prop :=
  ∃ k, v.longest ≤ k ∧ k < dataLength ∧ (∃ x, v.from data k = .ok x ∧ x ≠ 0) ∧
    ∀ i, k < i → i < dataLength → ∃ x, v.from data i = .ok x

section Round

variable {visit : Visit layout}

theorem View.member_headerAt (m : Member) (at_ : visit.header = v.headerAt p) :
    visit.member m = (v.bytes.drop (p + layout.offset m)).take (layout.width m) := by
  have inside := layout.inside m
  rw [Visit.member, at_, View.headerAt, List.drop_take, List.drop_drop, List.take_take, min_eq_left (by omega)]

theorem View.dataLength_headerAt (at_ : visit.header = v.headerAt p) : visit.dataLength = v.dataLengthAt p := by
  rw [Visit.dataLength, View.member_headerAt _ at_]
  rfl

theorem View.copy_header (fits : p + layout.size ≤ v.bytes.length) :
    copy (v.from (v.ptr + p)) layout.dataOffset = .ok (v.headerAt p) := by
  have long := layout.dataOffset_lt
  have copied := (View.serves (v := v) (List.take_prefix layout.dataOffset (v.bytes.drop p))).copy
  rwa [List.length_take, List.length_drop, min_eq_left (by omega)] at copied

/-- The CDB lies in the header. -/
theorem View.readCdb_eq (data : List UInt8) (fits : p + layout.size ≤ v.bytes.length)
    (there : visit.logdata = v.ptr + p) (at_ : visit.header = v.headerAt p) :
    v.readCdb visit = .ok (printed visit.logdata visit.header data : Visit layout).rawCdb := by
  have inside := layout.inside .cdb
  have long := layout.dataOffset_lt
  have same := View.member_headerAt .cdb at_
  have full : (visit.member .cdb).length = layout.width .cdb := by
    rw [same, List.length_take, List.length_drop, min_eq_left (by omega)]
  have pre : visit.member .cdb <+: v.bytes.drop (p + layout.offset .cdb) := by
    rw [same]
    exact List.take_prefix _ _
  have trimmed : trimEnd (· = 0) (v.from (v.ptr + (p + layout.offset .cdb))) (visit.member .cdb).length =
    .ok ((visit.member .cdb).rdropWhile (· = 0)).length := (View.serves pre).trimEnd
  have short : ((visit.member .cdb).rdropWhile (· = 0)).drop 1 <+: v.bytes.drop (p + layout.offset .cdb + 1) := by
    rw [← List.drop_drop]
    exact ((List.rdropWhile_prefix _ _).trans pre).drop 1
  have copied := (View.serves short).copy
  rw [full] at trimmed
  rw [List.length_drop] at copied
  have shown : (printed visit.logdata visit.header data : Visit layout).rawCdb =
    if ulong (visit.member .srbFunction) = 0 ∧ 1 ≤ ((visit.member .cdb).rdropWhile (· = 0)).length then
      some (((visit.member .cdb).rdropWhile (· = 0)).drop 1) else none := rfl
  rw [shown, View.readCdb]
  by_cases execute : ulong (visit.member .srbFunction) = 0
  · rw [if_pos execute]
    dsimp only
    rw [there, View.add_eq (by omega), trimmed]
    dsimp only [bind, Except.bind]
    by_cases some_ : 1 ≤ ((visit.member .cdb).rdropWhile (· = 0)).length
    · rw [if_pos some_, if_pos ⟨execute, some_⟩, View.add_eq (by omega), copied]
    · rw [if_neg some_, if_neg fun both => some_ both.2]
  · rw [if_neg execute, if_neg fun both => execute both.1]

/-- Data that lies in the file is printed, unless it is too long. -/
theorem View.readData_eq (data : List UInt8) (fits : p + layout.size ≤ v.bytes.length)
    (there : visit.logdata = v.ptr + p) (length : visit.dataLength = data.length)
    (pre : data <+: v.bytes.drop (p + layout.dataOffset)) :
    v.readData visit = if v.longest < (data.rdropWhile (· = 0)).length then .error .tooLong
      else .ok (printed visit.logdata visit.header data : Visit layout).data := by
  have long := layout.dataOffset_lt
  have serves := View.serves pre
  have shown : (printed visit.logdata visit.header data : Visit layout).data =
    if 0 < data.length then some (data.rdropWhile (· = 0)) else none := rfl
  rw [shown, View.readData, length]
  by_cases some_ : 0 < data.length
  · rw [if_pos some_, if_pos some_]
    dsimp only
    rw [there, View.add_eq (by omega), serves.trimEnd]
    dsimp only [bind, Except.bind]
    split
    · rfl
    · rw [serves.copy_trimmed]
  · obtain rfl : data = [] := List.length_eq_zero_iff.mp (by omega)
    simp

/-- The exception is raised exactly where the trimmed data is too long. -/
theorem View.readData_tooLong (visit : Visit layout) : v.readData visit = .error .tooLong ↔
    v.TooLong (v.add visit.logdata layout.dataOffset) visit.dataLength := by
  rw [View.readData]
  constructor
  · intro failed
    split at failed
    · dsimp only at failed
      cases trimmed : trimEnd (· = 0) (v.from (v.add visit.logdata layout.dataOffset)) visit.dataLength with
      | error stop =>
        rw [trimmed] at failed
        obtain rfl : stop = .tooLong := Except.error.inj failed
        obtain ⟨i, -, unserved⟩ := trimEnd_eq_error trimmed
        exact absurd (View.load_error unserved) (by decide)
      | ok k =>
        obtain ⟨below, behind, stays⟩ := trimEnd_eq_ok trimmed
        rw [trimmed] at failed
        dsimp only [bind, Except.bind] at failed
        split at failed
        · next long =>
          obtain ⟨x, served, nonzero⟩ := stays (by omega)
          exact ⟨k - 1, by omega, by omega, ⟨x, served, by simpa using nonzero⟩,
            fun i above inside => behind i (by omega) inside⟩
        · cases copied : copy (v.from (v.add visit.logdata layout.dataOffset)) k with
          | error stop =>
            rw [copied] at failed
            obtain rfl : stop = .tooLong := Except.error.inj failed
            obtain ⟨i, -, unserved⟩ := copy_eq_error copied
            exact absurd (View.load_error unserved) (by decide)
          | ok data =>
            rw [copied] at failed
            contradiction
    · contradiction
  · rintro ⟨k, long, inside, ⟨x, served, nonzero⟩, behind⟩
    obtain ⟨m, above, trimmed⟩ : ∃ m, k < m ∧
        trimEnd (· = 0) (v.from (v.add visit.logdata layout.dataOffset)) visit.dataLength = .ok m :=
      trimEnd_of_stays inside served (by simpa using nonzero) behind
    rw [if_pos (by omega)]
    dsimp only
    rw [trimmed]
    exact if_pos (by omega)

/-- A record that does not end inside the view is not finished. -/
theorem View.readData_torn (visit : Visit layout) (fits : p + layout.size ≤ v.bytes.length)
    (there : visit.logdata = v.ptr + p)
    (torn : v.bytes.length < p + layout.dataOffset + visit.dataLength) : ∃ stop, v.readData visit = .error stop := by
  have long := layout.dataOffset_lt
  rw [View.readData, if_pos (by omega)]
  dsimp only
  rw [there, View.add_eq (by omega)]
  cases trimmed : trimEnd (· = 0) (v.from (v.ptr + (p + layout.dataOffset))) visit.dataLength with
  | error stop => exact ⟨stop, rfl⟩
  | ok k =>
    obtain ⟨below, behind, stays⟩ := trimEnd_eq_ok trimmed
    dsimp only [bind, Except.bind]
    split
    · exact ⟨.tooLong, rfl⟩
    · next short =>
      -- The data is served from a short length on, so it ends inside.
      exfalso
      obtain less | rfl := Nat.lt_or_eq_of_le below
      · have inside := View.inside_of_tail (by omega) (Nat.not_lt.mp short) less behind
        omega
      · obtain ⟨x, served, -⟩ := stays (by omega)
        have inside := View.inside_of_served (by omega) served
        omega

/-- Where a header fits, the data decides how the round ends. -/
theorem View.visit_eq (data : List UInt8) (fits : p + layout.size ≤ v.bytes.length) :
    v.visit (v.ptr + p) = (v.readData { logdata := v.ptr + p, header := v.headerAt p }).map fun read =>
      { (printed (v.ptr + p) (v.headerAt p) data : Visit layout) with data := read } := by
  rw [View.visit, View.copy_header fits]
  dsimp only [bind, Except.bind]
  rw [View.readCdb_eq data fits rfl rfl]
  dsimp only
  cases v.readData { logdata := v.ptr + p, header := v.headerAt p } <;> rfl

/-- A record that ends inside the view. -/
theorem View.visit_inside {data : List UInt8} (fits : p + layout.size ≤ v.bytes.length)
    (length : v.dataLengthAt p = data.length) (pre : data <+: v.bytes.drop (p + layout.dataOffset)) :
    v.visit (v.ptr + p) = if v.longest < (data.rdropWhile (· = 0)).length then .error .tooLong
      else .ok (printed (v.ptr + p) (v.headerAt p) data) := by
  rw [View.visit_eq data fits, View.readData_eq data fits rfl ((View.dataLength_headerAt rfl).trans length) pre]
  by_cases long : v.longest < (data.rdropWhile (· = 0)).length
  · rw [if_pos long, if_pos long]
    rfl
  · rw [if_neg long, if_neg long]
    rfl

/-- The record at a position has too much data. -/
def View.TooLongAt (v : View layout) (p : ℕ) : Prop := v.TooLong (v.ptr + (p + layout.dataOffset)) (v.dataLengthAt p)

/-- What a round does where a header fits: the exception, an access outside, or the record. -/
theorem View.round (fits : p + layout.size ≤ v.bytes.length) :
    (v.TooLongAt p ∧ v.visit (v.ptr + p) = .error .tooLong) ∨
    (¬ v.TooLongAt p ∧ v.bytes.length < p + layout.dataOffset + v.dataLengthAt p ∧
      v.visit (v.ptr + p) = .error .outside) ∨
    (¬ v.TooLongAt p ∧ p + layout.dataOffset + v.dataLengthAt p ≤ v.bytes.length ∧ ∃ visit,
      v.visit (v.ptr + p) = .ok visit ∧ visit.logdata = v.ptr + p ∧
      v.next visit = v.ptr + (p + layout.dataOffset + v.dataLengthAt p)) := by
  have long := layout.dataOffset_lt
  have length : Visit.dataLength { logdata := v.ptr + p, header := v.headerAt p } = v.dataLengthAt p :=
    View.dataLength_headerAt rfl
  have tooLong := View.readData_tooLong (v := v) { logdata := v.ptr + p, header := v.headerAt p }
  rw [length, View.add_eq (by omega)] at tooLong
  have visit := View.visit_eq (v := v) [] fits
  cases read : v.readData { logdata := v.ptr + p, header := v.headerAt p } with
  | error stop =>
    rw [read] at visit tooLong
    cases stop with
    | tooLong => exact .inl ⟨tooLong.mp rfl, visit⟩
    | outside =>
      refine .inr (.inl ⟨fun bad => ?_, ?_, visit⟩)
      · have other := tooLong.mpr bad
        contradiction
      · by_contra inside
        have ends := View.readData_eq (v := v) ((v.bytes.drop (p + layout.dataOffset)).take (v.dataLengthAt p))
          fits rfl (length.trans ?_) (List.take_prefix _ _)
        · rw [read] at ends
          split at ends <;> contradiction
        · rw [List.length_take, List.length_drop, min_eq_left (by omega)]
  | ok data =>
    rw [read] at visit tooLong
    have inside : p + layout.dataOffset + v.dataLengthAt p ≤ v.bytes.length := by
      by_contra torn
      obtain ⟨stop, failed⟩ := View.readData_torn (v := v) { logdata := v.ptr + p, header := v.headerAt p }
        fits rfl (by rw [length]; omega)
      rw [read] at failed
      contradiction
    refine .inr (.inr ⟨fun bad => ?_, inside, _, visit, rfl, ?_⟩)
    · have other := tooLong.mpr bad
      contradiction
    · rw [View.next]
      have same : Visit.dataLength { (printed (v.ptr + p) (v.headerAt p) [] : Visit layout) with data } =
        v.dataLengthAt p := length
      rw [same]
      change v.add (v.add (v.ptr + p) layout.dataOffset) (v.dataLengthAt p) = _
      rw [View.add_eq (by omega), View.add_eq (by omega)]

end Round

/-- From a position on, the file consists of records that end inside it and of less than a `LOGDATA` behind them,
or there are such records up to one with too much data. -/
inductive View.Whole (v : View layout) : ℕ → Prop
  | rest {p : ℕ} (short : v.bytes.length < p + layout.size) : v.Whole p
  | tooLong {p : ℕ} (long : v.TooLongAt p) : v.Whole p
  | record {p : ℕ} (inside : p + layout.dataOffset + v.dataLengthAt p ≤ v.bytes.length)
      (later : v.Whole (p + layout.dataOffset + v.dataLengthAt p)) : v.Whole p

/-- The condition of the loop, at a position in the file. -/
theorem View.condition_iff : v.ptr + p ≤ v.ptr + v.bytes.length - layout.size ↔ p + layout.size ≤ v.bytes.length := by
  have := v.below
  omega

/-- From a position on, enough rounds end the walk, every round moves the pointer on, and the walk accesses a byte
outside the view unless the file is whole. -/
theorem View.walk_total (rounds : ℕ) (enough : v.bytes.length - p < rounds) :
    (v.walk rounds (v.ptr + p)).2 ≠ .running ∧
    (∀ visit ∈ (v.walk rounds (v.ptr + p)).1, v.ptr + p ≤ visit.logdata ∧ visit.logdata < v.next visit) ∧
    ((v.walk rounds (v.ptr + p)).1.map Visit.logdata).Pairwise (· < ·) ∧
    ((v.walk rounds (v.ptr + p)).2 ≠ .stopped .outside ↔ v.Whole p) := by
  induction rounds generalizing p with
  | zero => exact absurd enough (Nat.not_lt_zero _)
  | succ rounds ih =>
    rw [View.walk]
    by_cases fits : p + layout.size ≤ v.bytes.length
    · rw [if_pos (View.condition_iff.mpr fits)]
      obtain ⟨long, stopped⟩ | ⟨short, torn, stopped⟩ | ⟨short, inside, visit, read, here, next⟩ := View.round fits
      · rw [stopped]
        exact ⟨by simp, by simp, by simp, iff_of_true (by simp) (.tooLong long)⟩
      · rw [stopped]
        refine ⟨by simp, by simp, by simp, iff_of_false (by simp) fun whole => ?_⟩
        cases whole with
        | rest small => omega
        | tooLong long => exact short long
        | record inside => omega
      · have pos := layout.dataOffset_pos
        obtain ⟨ends, forward, sorted, whole⟩ := ih (p := p + layout.dataOffset + v.dataLengthAt p) (by omega)
        rw [read]
        dsimp only
        rw [next]
        refine ⟨ends, fun other member => ?_, ?_, whole.trans ⟨.record inside, fun all => ?_⟩⟩
        · obtain rfl | later := List.mem_cons.mp member
          · rw [here, next]
            omega
          · have := forward other later
            omega
        · rw [List.map_cons, List.pairwise_cons]
          refine ⟨fun address member => ?_, sorted⟩
          obtain ⟨other, later, rfl⟩ := List.mem_map.mp member
          have := forward other later
          omega
        · cases all with
          | rest small => omega
          | tooLong long => exact absurd long short
          | record _ later => exact later
    · rw [if_neg fun condition => fits (View.condition_iff.mp condition)]
      exact ⟨by simp, by simp, by simp, iff_of_true (by simp) (.rest (by omega))⟩

/-- The walk through any file ends, its pointer moves forward in every round, and it stays inside the view exactly
where the file is whole. -/
theorem log_reader_total (v : View layout) :
    v.showFileInfo.2 ≠ .running ∧
    (∀ visit ∈ v.showFileInfo.1, visit.logdata < v.next visit) ∧
    (v.showFileInfo.1.map Visit.logdata).Pairwise (· < ·) ∧
    (v.showFileInfo.2 ≠ .stopped .outside ↔ v.Whole 0) := by
  obtain ⟨ends, forward, sorted, whole⟩ := View.walk_total (v := v) (p := 0) (v.bytes.length + 1) (by omega)
  exact ⟨ends, fun visit member => (forward visit member).2, sorted, whole⟩

theorem room_below : layout64.size ≤ 65536 := by decide

/-- A file of one header that announces five bytes of data and ends after four. -/
def tornRecord : View layout64 where
  pointerBits := 64
  ptr := 65536
  bytes := List.replicate 88 0 ++ [5, 0, 0, 0] ++ List.replicate 4 0
  longest := 715827882
  below := room_below
  above := by decide

theorem log_reader_total_tornRecord : ¬ ∀ (layout : Layout) (v : View layout),
    v.showFileInfo.2 ≠ .running ∧ (∀ visit ∈ v.showFileInfo.1, visit.logdata < v.next visit) ∧
      v.showFileInfo.2 ≠ .stopped .outside :=
  fun claimed => (claimed layout64 tornRecord).2.2 (by decide +kernel)

end QueueCache.ScsiLog
