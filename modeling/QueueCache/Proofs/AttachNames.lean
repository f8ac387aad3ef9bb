import QueueCache.ToMathlib.Stored
import QueueCache.Proofs.AttachDevices

/-! # Lists of device names

A well-formed `AttachDevices` value is a `REG_MULTI_SZ`: every name with its terminator, then one more
terminator. The walk stops on a remainder of fewer than three characters and never looks for the empty
string, but a name takes at least two characters with its terminator, so with the last terminator of the
list every name is long enough for the walk to take it and the last terminator alone is not.
-/

namespace QueueCache

open Transition Stored

/-- A device name: not empty and without terminators inside. -/
structure DeviceName where
  chars : List UInt16
  nonempty : chars ≠ []
  noNul : ∀ c ∈ chars, c ≠ 0

/-- A 16-bit character as the registry stores it. -/
def wcharBytes (c : UInt16) : List UInt8 := [c.toUInt8, (c >>> 8).toUInt8]

/-- The characters of a `REG_MULTI_SZ`. -/
def regMultiSz (names : List DeviceName) : List UInt16 := names.flatMap (fun name => name.chars ++ [0]) ++ [0]

/-- The bytes of a `REG_MULTI_SZ`. -/
def regMultiSzBytes (names : List DeviceName) : List UInt8 := (regMultiSz names).flatMap wcharBytes

/-- The characters of a name that is passed on. -/
def UnicodeString.chars (data : RegistryData) (name : UnicodeString) : List ℕ :=
  (List.range (name.length / 2)).map fun i => wchar data (name.buffer + 2 * i)

@[simp] theorem length_wcharBytes (cs : List UInt16) : (cs.flatMap wcharBytes).length = 2 * cs.length := by
  induction cs with
  | nil => rfl
  | cons c cs ih =>
    rw [List.flatMap_cons, List.length_append, ih, List.length_cons]
    change 2 + 2 * cs.length = _
    omega

@[simp] theorem length_regMultiSz_cons (name : DeviceName) (names : List DeviceName) :
    (regMultiSz (name :: names)).length = name.chars.length + 1 + (regMultiSz names).length := by
  simp only [regMultiSz, List.flatMap_cons, List.length_append, List.length_singleton]
  omega

theorem DeviceName.length_pos (name : DeviceName) : 0 < name.chars.length :=
  List.length_pos_iff.mpr name.nonempty

/-- A terminator follows every list. -/
theorem regMultiSz_length_pos (names : List DeviceName) : 0 < (regMultiSz names).length := by
  rw [regMultiSz, List.length_append, List.length_singleton]
  omega

section Read

variable {data : RegistryData} {offset : ℕ}

theorem wchar_of_stored {c : UInt16} (stored : StoredAt data offset (wcharBytes c)) : wchar data offset = c.toNat := by
  rw [wcharBytes, storedAt_cons, storedAt_singleton] at stored
  obtain ⟨low, high⟩ := stored
  rw [wchar, low, high, UInt16.toNat_toUInt8, UInt16.toNat_toUInt8, UInt16.toNat_shiftRight]
  have bound := c.toNat_lt
  change c.toNat % 256 + 256 * (c.toNat >>> 8 % 256) = c.toNat
  rw [Nat.shiftRight_eq_div_pow]
  omega

/-- The characters of a stored string, one by one. -/
theorem wchar_of_storedAt {cs : List UInt16} (stored : StoredAt data offset (cs.flatMap wcharBytes))
    {i : ℕ} {c : UInt16} (present : cs[i]? = some c) : wchar data (offset + 2 * i) = c.toNat := by
  induction cs generalizing offset i with
  | nil => simp at present
  | cons first rest ih =>
    rw [List.flatMap_cons, storedAt_append] at stored
    obtain ⟨here, later⟩ := stored
    cases i with
    | zero =>
      obtain rfl := Option.some.inj present
      exact wchar_of_stored here
    | succ i =>
      have there := ih later (by simpa using present)
      rwa [show offset + (wcharBytes first).length + 2 * i = offset + 2 * (i + 1) by
        change offset + 2 + 2 * i = _
        omega] at there

/-- `wcsnlen` finds the terminator of a stored name. -/
theorem wcsnlen_of_storedAt {name : DeviceName} {count : ℕ}
    (stored : StoredAt data offset (name.chars.flatMap wcharBytes))
    (terminated : wchar data (offset + 2 * name.chars.length) = 0) (inside : name.chars.length < count) :
    (wcsnlen data offset count).1 = name.chars.length := by
  have bound := wcsnlen_le_of_zero data offset count terminated
  by_contra other
  have short : (wcsnlen data offset count).1 < name.chars.length := by omega
  have zero := wcsnlen_zero data offset count (by omega)
  rw [wchar_of_storedAt stored (List.getElem?_eq_getElem short)] at zero
  refine name.noNul _ (List.getElem_mem short) ?_
  exact UInt16.toNat_inj.mp zero

theorem chars_of_storedAt {name : DeviceName} {maximumLength : ℕ}
    (stored : StoredAt data offset (name.chars.flatMap wcharBytes)) :
    UnicodeString.chars data ⟨offset, 2 * name.chars.length, maximumLength⟩ = name.chars.map UInt16.toNat := by
  rw [UnicodeString.chars]
  dsimp only
  rw [show 2 * name.chars.length / 2 = name.chars.length by omega]
  apply List.ext_getElem?
  intro i
  rw [List.getElem?_map, List.getElem?_map]
  by_cases inside : i < name.chars.length
  · rw [List.getElem?_range inside, List.getElem?_eq_getElem inside]
    exact congrArg some (wchar_of_storedAt stored (List.getElem?_eq_getElem inside))
  · rw [List.getElem?_eq_none (by rw [List.length_range]; omega), List.getElem?_eq_none (by omega)]
    rfl

end Read

/-- What is passed to `QCacheAttachLegacyDevice` for a name: its length in bytes and its characters. -/
def UnicodeString.passed (data : RegistryData) (name : UnicodeString) : ℕ × List ℕ := (name.length, name.chars data)

def DeviceName.passed (name : DeviceName) : ℕ × List ℕ := (2 * name.chars.length, name.chars.map UInt16.toNat)

/-- The walk has passed the names of `done` and is at the first of `rest`, which is all that is left. -/
structure AttachLoop.At (data : RegistryData) (done rest : List DeviceName) (loop : AttachLoop) : Prop where
  going : loop.returned = none
  stored : StoredAt data loop.deviceName.buffer (regMultiSzBytes rest)
  left : loop.deviceName.maximumLength = (regMultiSzBytes rest).length
  attached : loop.attached.map (UnicodeString.passed data) = done.map DeviceName.passed

section At

variable {data : RegistryData} {done rest : List DeviceName} {loop : AttachLoop}

/-- The cutoff of the loop is exact: at least one name is left as long as it goes on. -/
theorem AttachLoop.At.continues_iff (place : loop.At data done rest) : loop.continues = true ↔ rest ≠ [] := by
  rw [AttachLoop.continues_iff, place.left, regMultiSzBytes, length_wcharBytes]
  constructor
  · rintro ⟨-, long⟩ rfl
    exact absurd long (by decide)
  · intro more
    refine ⟨place.going, ?_⟩
    cases rest with
    | nil => contradiction
    | cons name rest =>
      have long := name.length_pos
      have last := regMultiSz_length_pos rest
      rw [length_regMultiSz_cons]
      omega

/-- An iteration takes the first name that is left. -/
theorem AttachLoop.At.advance {name : DeviceName} (place : loop.At data done (name :: rest))
    (fits : (regMultiSzBytes (name :: rest)).length < 2 ^ 16) : (loop.advance data).At data (done ++ [name]) rest := by
  obtain ⟨going, stored, left, attached⟩ := place
  rw [regMultiSzBytes, length_wcharBytes, length_regMultiSz_cons] at left fits
  have chars : regMultiSz (name :: rest) = name.chars ++ ([0] ++ regMultiSz rest) := by
    simp only [regMultiSz, List.flatMap_cons, List.append_assoc]
  rw [regMultiSzBytes, chars, List.flatMap_append, List.flatMap_append, storedAt_append, storedAt_append,
    length_wcharBytes, length_wcharBytes] at stored
  obtain ⟨here, terminator, later⟩ := stored
  have last := regMultiSz_length_pos rest
  have zero : wchar data (loop.deviceName.buffer + 2 * name.chars.length) = 0 :=
    wchar_of_storedAt terminator (i := 0) rfl
  have found : (wcsnlen data loop.deviceName.buffer (loop.deviceName.maximumLength / 2)).1 = name.chars.length :=
    wcsnlen_of_storedAt here zero (by omega)
  unfold AttachLoop.advance
  generalize scanned : wcsnlen data loop.deviceName.buffer (loop.deviceName.maximumLength / 2) = result at found
  obtain ⟨len, reads⟩ := result
  obtain rfl : len = name.chars.length := found
  have length : (toUshort (name.chars.length * 2 : ℕ) : ℤ) = (name.chars.length * 2 : ℕ) :=
    toUshort_of_range (by omega) (by omega)
  have remains : (toUshort (loop.deviceName.maximumLength - ((toUshort (name.chars.length * 2 : ℕ) : ℕ) + 2)) : ℤ) =
      loop.deviceName.maximumLength - (name.chars.length * 2 + 2) := by
    rw [length, toUshort_of_range] <;> push_cast <;> omega
  refine ⟨going, ?_, ?_, ?_⟩
  · dsimp only
    rw [show loop.deviceName.buffer + 2 * (name.chars.length + 1) =
      loop.deviceName.buffer + 2 * name.chars.length + 2 * [(0 : UInt16)].length by rw [List.length_singleton]; omega]
    exact later
  · dsimp only
    rw [regMultiSzBytes, length_wcharBytes]
    omega
  · rw [List.map_append, List.map_append, attached, List.map_singleton, List.map_singleton]
    have same : toUshort (name.chars.length * 2 : ℕ) = 2 * name.chars.length := by omega
    rw [UnicodeString.passed, same, chars_of_storedAt here]
    rfl

end At

end QueueCache
