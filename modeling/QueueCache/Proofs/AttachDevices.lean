import QueueCache.ToMathlib.Run
import QueueCache.Model.AttachDevices

/-! # Walking the `AttachDevices` value

While each name ends inside the value, what the walk has passed and what it has left add up to the
value. A name that runs to the end of the value without a terminator makes the sixteen-bit remainder
wrap, and the walk goes on behind the value. That happens exactly when the last three characters of the
value hold no terminator, because the walk stops by itself when fewer than three are left.
-/

namespace QueueCache

open Transition

section Wcsnlen

variable (data : RegistryData) (offset count : ℕ)

theorem wcsnlen_le : (wcsnlen data offset count).1 ≤ count := by
  induction count generalizing offset with
  | zero => exact le_rfl
  | succ count ih =>
    have rest := ih (offset + 2)
    rw [wcsnlen]
    split
    · exact Nat.zero_le _
    · exact Nat.succ_le_succ rest

/-- No character before the returned length is a terminator. -/
theorem wcsnlen_nonzero {i : ℕ} (before : i < (wcsnlen data offset count).1) : wchar data (offset + 2 * i) ≠ 0 := by
  induction count generalizing offset i with
  | zero => exact absurd before (Nat.not_lt_zero i)
  | succ count ih =>
    rw [wcsnlen] at before
    split at before
    · exact absurd before (Nat.not_lt_zero i)
    · next here =>
      cases i with
      | zero => exact here
      | succ i =>
        have there := ih (offset + 2) (Nat.lt_of_succ_lt_succ before)
        rw [show offset + 2 * (i + 1) = offset + 2 + 2 * i by omega]
        exact there

/-- A length short of the limit is the place of a terminator. -/
theorem wcsnlen_zero (short : (wcsnlen data offset count).1 < count) :
    wchar data (offset + 2 * (wcsnlen data offset count).1) = 0 := by
  induction count generalizing offset with
  | zero => exact absurd short (Nat.not_lt_zero _)
  | succ count ih =>
    rw [wcsnlen] at short ⊢
    split at short
    · next here =>
      rw [if_pos here]
      exact here
    · next here =>
      have there := ih (offset + 2) (Nat.lt_of_succ_lt_succ short)
      rw [if_neg here]
      dsimp only
      rw [show offset + 2 * ((wcsnlen data (offset + 2) count).1 + 1) =
        offset + 2 + 2 * (wcsnlen data (offset + 2) count).1 by omega]
      exact there

/-- The characters read are those up to the returned length and inside the limit. -/
theorem mem_wcsnlen_reads {read : ℕ} : read ∈ (wcsnlen data offset count).2 ↔
    ∃ i ≤ (wcsnlen data offset count).1, i < count ∧ read = offset + 2 * i := by
  induction count generalizing offset with
  | zero =>
    simp [wcsnlen]
  | succ count ih =>
    rw [wcsnlen]
    split
    · simp only [List.mem_singleton, Nat.le_zero]
      constructor
      · rintro rfl
        exact ⟨0, rfl, Nat.succ_pos _, rfl⟩
      · rintro ⟨i, rfl, -, rfl⟩
        rfl
    · simp only [List.mem_cons, ih (offset + 2)]
      constructor
      · rintro (rfl | ⟨i, before, inside, rfl⟩)
        · exact ⟨0, Nat.zero_le _, Nat.succ_pos _, rfl⟩
        · exact ⟨i + 1, Nat.succ_le_succ before, Nat.succ_lt_succ inside, by omega⟩
      · rintro ⟨i, before, inside, rfl⟩
        cases i with
        | zero => exact .inl rfl
        | succ i =>
          exact .inr ⟨i, Nat.le_of_succ_le_succ before, Nat.lt_of_succ_lt_succ inside, by omega⟩

/-- A terminator inside the limit bounds the returned length. -/
theorem wcsnlen_le_of_zero {i : ℕ} (zero : wchar data (offset + 2 * i) = 0) : (wcsnlen data offset count).1 ≤ i := by
  by_contra beyond
  exact wcsnlen_nonzero data offset count (not_le.mp beyond) zero

end Wcsnlen

/-- `QCacheAttachLegacyDevice` succeeds. -/
def attaches (_ : AttachLoop) (status : NtStatus) : Prop := ntSuccess status = true

/-- What `wcsnlen` has read and the names that were passed on lie inside the value. -/
def AttachLoop.WithinData (dataLength : ℕ) (loop : AttachLoop) : Prop :=
  (∀ read ∈ loop.reads, read + 1 < dataLength) ∧
    ∀ name ∈ loop.attached, ∀ byte, name.buffer ≤ byte → byte < name.buffer + name.length → byte < dataLength

/-- With every attach succeeding, the loop ends and stays inside the value. -/
def ParsesSafely (data : RegistryData) (dataLength : ℕ) : Prop :=
  (∃ bound, ∀ statuses loop, Run (attachStep data) attaches (.initial dataLength) statuses loop →
    statuses.length ≤ bound) ∧
  ∀ statuses loop, Run (attachStep data) attaches (.initial dataLength) statuses loop → loop.WithinData dataLength

/-- The whole characters of the value, clipped as the loop clips it. -/
def valueChars (dataLength : ℕ) : ℕ := min 65535 dataLength / 2

/-- There are fewer than three characters, or one of the last three is a terminator. -/
def TerminatedAtEnd (data : RegistryData) (dataLength : ℕ) : Prop :=
  valueChars dataLength < 3 ∨
    ∃ i, valueChars dataLength ≤ i + 3 ∧ i < valueChars dataLength ∧ wchar data (2 * i) = 0

theorem AttachLoop.continues_iff {loop : AttachLoop} :
    loop.continues = true ↔ loop.returned = none ∧ 6 ≤ loop.deviceName.maximumLength := by
  simp only [AttachLoop.continues, Bool.and_eq_true, decide_eq_true_eq]

/-- The loop after an iteration whose attach succeeds. -/
def AttachLoop.advance (data : RegistryData) (loop : AttachLoop) : AttachLoop :=
  let (len, reads) := wcsnlen data loop.deviceName.buffer (loop.deviceName.maximumLength / 2)
  let name := { loop.deviceName with length := toUshort (len * 2 : ℕ) }
  { loop with
    deviceName := { name with
      buffer := name.buffer + 2 * (len + 1)
      maximumLength := toUshort (name.maximumLength - (name.length + 2)) }
    reads := loop.reads ++ reads
    attached := loop.attached ++ [name] }

theorem attachStep_attaches {data : RegistryData} {loop loop' : AttachLoop} {status : NtStatus}
    (attached : attaches loop status) :
    attachStep data loop status = some loop' ↔ loop.continues = true ∧ loop' = loop.advance data := by
  rw [attaches] at attached
  rw [attachStep]
  cases continues : loop.continues with
  | false => simp
  | true =>
    simp only [reduceIte, attached, Option.some.injEq, true_and]
    exact eq_comm

section Advance

variable {data : RegistryData} {loop : AttachLoop} {dataLength : ℕ}

@[simp] theorem AttachLoop.advance_buffer : (loop.advance data).deviceName.buffer = loop.deviceName.buffer +
    2 * ((wcsnlen data loop.deviceName.buffer (loop.deviceName.maximumLength / 2)).1 + 1) := rfl

@[simp] theorem AttachLoop.advance_maximumLength : (loop.advance data).deviceName.maximumLength =
    toUshort (loop.deviceName.maximumLength - ((toUshort
      ((wcsnlen data loop.deviceName.buffer (loop.deviceName.maximumLength / 2)).1 * 2 : ℕ) : ℕ) + 2)) := rfl

theorem toUshort_of_range {x : ℤ} (low : 0 ≤ x) (high : x < 2 ^ 16) : (toUshort x : ℤ) = x := by
  rw [toUshort, Int.emod_eq_of_lt low high]
  exact Int.toNat_of_nonneg low

theorem toUshort_lt (x : ℤ) : toUshort x < 2 ^ 16 := by
  rw [toUshort]
  omega

/-- The walk is inside the value: what it has passed and what is left add up. -/
structure AttachLoop.Walks (dataLength : ℕ) (loop : AttachLoop) : Prop where
  even : loop.deviceName.buffer % 2 = 0
  left : loop.deviceName.buffer + loop.deviceName.maximumLength = min 65535 dataLength
  within : loop.WithinData dataLength

/-- An iteration that finds a terminator. -/
theorem AttachLoop.Walks.advance (walks : loop.Walks dataLength)
    (found : (wcsnlen data loop.deviceName.buffer (loop.deviceName.maximumLength / 2)).1 <
      loop.deviceName.maximumLength / 2) :
    (loop.advance data).Walks dataLength ∧
      (loop.advance data).deviceName.maximumLength + 2 ≤ loop.deviceName.maximumLength := by
  obtain ⟨even, left, reads, names⟩ := walks
  unfold AttachLoop.advance
  generalize scanned : wcsnlen data loop.deviceName.buffer (loop.deviceName.maximumLength / 2) = result at found
  obtain ⟨len, new⟩ := result
  dsimp only at found ⊢
  have length : (toUshort (len * 2 : ℕ) : ℤ) = (len * 2 : ℕ) := toUshort_of_range (by omega) (by omega)
  have rest : (toUshort (loop.deviceName.maximumLength - ((toUshort (len * 2 : ℕ) : ℕ) + 2)) : ℤ) =
      loop.deviceName.maximumLength - (len * 2 + 2) := by
    rw [length, toUshort_of_range] <;> push_cast <;> omega
  refine ⟨⟨by dsimp only; omega, by dsimp only; omega, ?_, ?_⟩, by omega⟩
  · intro read member
    obtain old | fresh := List.mem_append.mp member
    · exact reads read old
    · have here : read ∈ (wcsnlen data loop.deviceName.buffer (loop.deviceName.maximumLength / 2)).2 := by
        rw [scanned]
        exact fresh
      obtain ⟨i, -, inside, rfl⟩ := (mem_wcsnlen_reads ..).mp here
      omega
  · intro name member
    obtain old | fresh := List.mem_append.mp member
    · exact names name old
    · obtain rfl := List.mem_singleton.mp fresh
      intro byte low high
      dsimp only at low high
      omega

/-- A walk inside a value that ends in a terminator finds one before the end. -/
theorem AttachLoop.Walks.found (walks : loop.Walks dataLength) (continues : loop.continues = true)
    (terminated : TerminatedAtEnd data dataLength) :
    (wcsnlen data loop.deviceName.buffer (loop.deviceName.maximumLength / 2)).1 <
      loop.deviceName.maximumLength / 2 := by
  obtain ⟨even, left, -⟩ := walks
  obtain ⟨-, long⟩ := AttachLoop.continues_iff.mp continues
  obtain few | ⟨i, last, inside, zero⟩ := terminated
  · rw [valueChars] at few
    omega
  · rw [valueChars] at last inside
    have here : wchar data (loop.deviceName.buffer + 2 * (i - loop.deviceName.buffer / 2)) = 0 := by
      rw [show loop.deviceName.buffer + 2 * (i - loop.deviceName.buffer / 2) = 2 * i by omega]
      exact zero
    have length := wcsnlen_le_of_zero data loop.deviceName.buffer (loop.deviceName.maximumLength / 2) here
    omega

/-- What `wcsnlen` reads at the current name. -/
theorem AttachLoop.mem_advance_reads {i : ℕ}
    (before : i ≤ (wcsnlen data loop.deviceName.buffer (loop.deviceName.maximumLength / 2)).1)
    (inside : i < loop.deviceName.maximumLength / 2) :
    loop.deviceName.buffer + 2 * i ∈ (loop.advance data).reads :=
  List.mem_append_right _ ((mem_wcsnlen_reads ..).mpr ⟨i, before, inside, rfl⟩)

theorem AttachLoop.not_within_of_read {read : ℕ} (member : read ∈ loop.reads) (behind : dataLength ≤ read + 1) :
    ¬ loop.WithinData dataLength := by
  rintro ⟨reads, -⟩
  exact absurd (reads read member) (by omega)

/-- The loop takes one more iteration. -/
theorem AttachLoop.run_advance (continues : loop.continues = true) :
    Run (attachStep data) attaches loop [STATUS_SUCCESS] (loop.advance data) := by
  have success : attaches loop STATUS_SUCCESS := rfl
  exact .single success ((attachStep_attaches success).mpr ⟨continues, rfl⟩)

theorem AttachLoop.continues_advance (continues : loop.continues = true)
    (long : 6 ≤ (loop.advance data).deviceName.maximumLength) : (loop.advance data).continues = true :=
  continues_iff.mpr ⟨(continues_iff.mp continues).1, long⟩

/-- Behind the value the loop reads on. -/
theorem AttachLoop.runs_behind (continues : loop.continues = true) (wrapped : 65534 ≤ loop.deviceName.maximumLength)
    (narrow : loop.deviceName.maximumLength < 2 ^ 16) (behind : dataLength ≤ loop.deviceName.buffer + 2) :
    ∃ statuses loop', Run (attachStep data) attaches loop statuses loop' ∧ ¬ loop'.WithinData dataLength := by
  by_cases first : wchar data loop.deviceName.buffer = 0
  · -- An empty name: the next one begins behind the value.
    have empty : (wcsnlen data loop.deviceName.buffer (loop.deviceName.maximumLength / 2)).1 = 0 :=
      Nat.le_zero.mp (wcsnlen_le_of_zero data _ _ first)
    have length : (toUshort (0 * 2 : ℕ) : ℤ) = 0 := rfl
    have next : (loop.advance data).deviceName.maximumLength = toUshort (loop.deviceName.maximumLength - 2) := by
      rw [advance_maximumLength, empty, length]
      rfl
    have left : (toUshort (loop.deviceName.maximumLength - 2) : ℤ) = loop.deviceName.maximumLength - 2 :=
      toUshort_of_range (by omega) (by omega)
    have more : (loop.advance data).continues = true := continues_advance continues (by omega)
    refine ⟨_, _, (run_advance continues).append (run_advance more),
      not_within_of_read (mem_advance_reads (i := 0) (Nat.zero_le _) (by omega)) ?_⟩
    rw [advance_buffer, empty]
    omega
  · -- The name goes on behind the value.
    refine ⟨_, _, run_advance continues, not_within_of_read (mem_advance_reads (i := 1) ?_ (by omega)) (by omega)⟩
    by_contra short
    have none : (wcsnlen data loop.deviceName.buffer (loop.deviceName.maximumLength / 2)).1 = 0 := by omega
    have zero := wcsnlen_zero data loop.deviceName.buffer (loop.deviceName.maximumLength / 2) (by omega)
    rw [none] at zero
    exact first zero

end Advance

/-- A walk that comes to the last name without a terminator leaves the value. -/
theorem AttachLoop.Walks.overruns {data : RegistryData} {loop : AttachLoop} {dataLength : ℕ}
    (fits : dataLength ≤ regValueCapacity) (walks : loop.Walks dataLength) (continues : loop.continues = true)
    (unterminated : ¬ TerminatedAtEnd data dataLength) :
    ∃ statuses loop', Run (attachStep data) attaches loop statuses loop' ∧ ¬ loop'.WithinData dataLength := by
  induction left : loop.deviceName.maximumLength using Nat.strong_induction_on generalizing loop with
  | _ left ih =>
    by_cases found : (wcsnlen data loop.deviceName.buffer (loop.deviceName.maximumLength / 2)).1 <
        loop.deviceName.maximumLength / 2
    · -- The walk goes on; what is left keeps the last three characters.
      obtain ⟨next, shorter⟩ := walks.advance found
      have more : (loop.advance data).continues = true := by
        apply continues_advance continues
        have here := walks.left
        have even := walks.even
        have left := next.left
        rw [advance_buffer] at left
        rw [TerminatedAtEnd, not_or, valueChars, not_lt] at unterminated
        obtain ⟨long, none⟩ := unterminated
        by_contra short
        refine none ⟨loop.deviceName.buffer / 2 +
          (wcsnlen data loop.deviceName.buffer (loop.deviceName.maximumLength / 2)).1, ?_, ?_, ?_⟩
        · omega
        · omega
        · have zero := wcsnlen_zero data _ _ found
          rw [show 2 * (loop.deviceName.buffer / 2 +
            (wcsnlen data loop.deviceName.buffer (loop.deviceName.maximumLength / 2)).1) = loop.deviceName.buffer +
              2 * (wcsnlen data loop.deviceName.buffer (loop.deviceName.maximumLength / 2)).1 by omega]
          exact zero
      obtain ⟨statuses, loop', run, outside⟩ := ih _ (by omega) next more rfl
      exact ⟨_, loop', (run_advance continues).append run, outside⟩
    · -- The name runs to the end of the value and the remainder wraps.
      have all : (wcsnlen data loop.deviceName.buffer (loop.deviceName.maximumLength / 2)).1 =
          loop.deviceName.maximumLength / 2 := by
        have bounded := wcsnlen_le data loop.deviceName.buffer (loop.deviceName.maximumLength / 2)
        omega
      obtain ⟨even, inside, -⟩ := walks
      have wrapped : 65534 ≤ (loop.advance data).deviceName.maximumLength := by
        rw [advance_maximumLength, all]
        have length : (toUshort (loop.deviceName.maximumLength / 2 * 2 : ℕ) : ℤ) =
          (loop.deviceName.maximumLength / 2 * 2 : ℕ) := toUshort_of_range (by omega) (by omega)
        rw [length, toUshort]
        omega
      have behind : dataLength ≤ (loop.advance data).deviceName.buffer + 2 := by
        rw [advance_buffer, all]
        rw [regValueCapacity, keyValueSize, UNICODE_STRING_MAX_BYTES, keyValueDataOffset] at fits
        omega
      have more : (loop.advance data).continues = true := continues_advance continues (by omega)
      obtain ⟨statuses, loop', run, outside⟩ := runs_behind more wrapped (toUshort_lt _) behind
      exact ⟨_, loop', (run_advance continues).append run, outside⟩

theorem AttachLoop.walks_initial (dataLength : ℕ) : (AttachLoop.initial dataLength).Walks dataLength := by
  have clipped : (toUshort (min 65535 dataLength : ℕ) : ℤ) = (min 65535 dataLength : ℕ) :=
    toUshort_of_range (by omega) (by omega)
  refine ⟨rfl, ?_, ?_, ?_⟩
  · change 0 + toUshort (min 65535 dataLength : ℕ) = min 65535 dataLength
    omega
  · intro read member
    contradiction
  · intro name member
    contradiction

/-- Every run of a terminated walk stays inside the value and is bounded. -/
theorem AttachLoop.walks_of_run {data : RegistryData} {dataLength : ℕ} {statuses : List NtStatus} {loop : AttachLoop}
    (terminated : TerminatedAtEnd data dataLength)
    (run : Run (attachStep data) attaches (.initial dataLength) statuses loop) :
    loop.Walks dataLength ∧ statuses.length + loop.deviceName.maximumLength ≤ 65535 := by
  induction run with
  | nil =>
    have walks := walks_initial dataLength
    refine ⟨walks, ?_⟩
    have left := walks.left
    dsimp only [List.length_nil]
    omega
  | snoc _ attached moved ih =>
    obtain ⟨continues, rfl⟩ := (attachStep_attaches attached).mp moved
    obtain ⟨walks, bounded⟩ := ih
    obtain ⟨next, shorter⟩ := walks.advance (walks.found continues terminated)
    refine ⟨next, ?_⟩
    rw [List.length_append, List.length_singleton]
    omega

/-- The walk stays inside the value exactly when it is too short for a name or one of its last three
characters is a terminator. -/
theorem attach_devices_safe (data : RegistryData) (dataLength : ℕ) (fits : dataLength ≤ regValueCapacity) :
    ParsesSafely data dataLength ↔ TerminatedAtEnd data dataLength := by
  constructor
  · rintro ⟨-, within⟩
    by_contra unterminated
    have walks := AttachLoop.walks_initial dataLength
    have continues : (AttachLoop.initial dataLength).continues = true := by
      rw [TerminatedAtEnd, not_or, valueChars] at unterminated
      have left := walks.left
      rw [AttachLoop.continues_iff]
      refine ⟨rfl, ?_⟩
      have zero : (AttachLoop.initial dataLength).deviceName.buffer = 0 := rfl
      omega
    obtain ⟨statuses, loop, run, outside⟩ := walks.overruns fits continues unterminated
    exact outside (within statuses loop run)
  · intro terminated
    refine ⟨⟨65535, fun statuses loop run => ?_⟩, fun statuses loop run => ?_⟩
    · obtain ⟨-, bounded⟩ := AttachLoop.walks_of_run terminated run
      omega
    · exact (AttachLoop.walks_of_run terminated run).1.within

/-- A value of two names, `"AA"` and `"AAA"`, that ends without the terminator of the list. -/
def twoNames : RegistryData := fun offset => if offset ∈ [0, 2, 6, 8, 10] then 65 else 0

theorem attach_devices_safe_twoNames : ParsesSafely twoNames 14 :=
  (attach_devices_safe twoNames 14 (by decide)).mpr (.inr ⟨6, by decide, by decide, by decide⟩)

/-- A value of three characters without a terminator. -/
def noTerminator : RegistryData := fun offset => if offset < 6 then 65 else 0

/-- The second iteration begins two bytes behind the value. -/
theorem attach_devices_overrun :
    ¬ ∀ data dataLength, dataLength ≤ regValueCapacity → ParsesSafely data dataLength := by
  intro claimed
  obtain ⟨-, within⟩ := claimed noTerminator 6 (by decide)
  have first : (AttachLoop.initial 6).continues = true := by decide
  have second : ((AttachLoop.initial 6).advance noTerminator).continues = true := by decide +kernel
  obtain ⟨reads, -⟩ := within _ _ ((AttachLoop.run_advance first).append (AttachLoop.run_advance second))
  have behind : 8 ∈ (((AttachLoop.initial 6).advance noTerminator).advance noTerminator).reads := by decide +kernel
  exact absurd (reads 8 behind) (by decide)

end QueueCache
