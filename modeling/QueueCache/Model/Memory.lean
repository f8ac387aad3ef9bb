import Mathlib.Algebra.Order.Ring.Int

/-! # Bytes, 64-bit offsets and the read bitmap

A buffer, a payload or a device is a byte at every offset from its base; lengths travel beside it.
Offsets are signed 64-bit values computed with wraparound, sector numbers are offsets shifted right
by nine. The bitmap routines are the kernel's, on one bit for each sector of a read.
-/

namespace QueueCache

/-- What lies behind a base pointer, or on a device: a byte at every offset. -/
abbrev Bytes := ℤ → UInt8

/-- The value a signed 64-bit register holds after an exact computation. -/
def wrap64 (exact : ℤ) : ℤ := exact.bmod (2 ^ 64)

def add64 (a b : ℤ) : ℤ := wrap64 (a + b)

def sub64 (a b : ℤ) : ℤ := wrap64 (a - b)

/-- The cast to an unsigned 32-bit value. -/
def toUlong (value : ℤ) : ℕ := (value % 2 ^ 32).toNat

/-- `offset >> 9`, the number of the 512-byte sector an offset lies in. -/
def sector (offset : ℤ) : ℤ := offset / 512

/-- `value << 9` on an unsigned 32-bit value. -/
def shl9 (value : ℕ) : ℕ := value * 512 % 2 ^ 32

theorem wrap64_of_range {exact : ℤ} (low : -2 ^ 63 ≤ exact) (high : exact < 2 ^ 63) :
    wrap64 exact = exact := by
  apply Int.bmod_eq_of_le <;> omega

theorem toUlong_of_range {value : ℤ} (low : 0 ≤ value) (high : value < 2 ^ 32) :
    toUlong value = value.toNat := by
  rw [toUlong, Int.emod_eq_of_lt low high]

theorem shl9_of_lt {value : ℕ} (bound : value * 512 < 2 ^ 32) : shl9 value = value * 512 :=
  Nat.mod_eq_of_lt bound

/-- `RtlCopyMemory (destination + start, source + origin, length)`. -/
def rtlCopyMemory (destination : Bytes) (start : ℤ) (source : Bytes) (origin length : ℤ) : Bytes :=
  fun x => if start ≤ x ∧ x < start + length then source (x - start + origin) else destination x

/-- One bit for each sector of a read. -/
abbrev Bitmap := ℕ → Bool

def rtlSetBits (bitmap : Bitmap) (start count : ℕ) : Bitmap :=
  fun k => bitmap k || (decide (start ≤ k) && decide (k < start + count))

/-- The first position from `k` on, `count` steps at most, at which `p` holds. -/
def seek (p : ℕ → Bool) : ℕ → ℕ → ℕ
  | 0, k => k
  | count + 1, k => if p k then k else seek p count (k + 1)

/-- The first maximal clear run at or after `start`: its index and its length, 0 when there is none. -/
def rtlFindNextForwardRunClear (bitmap : Bitmap) (size start : ℕ) : ℕ × ℕ :=
  let first := seek (fun k => !bitmap k) (size - start) start
  (first, seek bitmap (size - first) first - first)

def rtlFindFirstRunClear (bitmap : Bitmap) (size : ℕ) : ℕ × ℕ :=
  rtlFindNextForwardRunClear bitmap size 0

theorem seek_spec (p : ℕ → Bool) (count k : ℕ) :
    k ≤ seek p count k ∧ seek p count k ≤ k + count ∧
      (∀ j, k ≤ j → j < seek p count k → p j = false) ∧
      (seek p count k < k + count → p (seek p count k) = true) := by
  induction count generalizing k with
  | zero => exact ⟨le_rfl, le_rfl, fun j low high => by simp only [seek] at high; omega, by simp [seek]⟩
  | succ count ih =>
    rw [seek]
    split
    · next found => exact ⟨le_rfl, by omega, fun j low high => by omega, fun _ => found⟩
    · next clear =>
      obtain ⟨low, high, before, stop⟩ := ih (k + 1)
      refine ⟨by omega, by omega, ?_, fun below => stop (by omega)⟩
      intro j above below
      by_cases here : j = k
      · subst here; simpa using clear
      · exact before j (by omega) below

/-- What the kernel's routine promises of the run it returns. -/
theorem rtlFindNextForwardRunClear_spec (bitmap : Bitmap) {size start index bits : ℕ}
    (inside : start ≤ size) (found : rtlFindNextForwardRunClear bitmap size start = (index, bits)) :
    start ≤ index ∧ index + bits ≤ size ∧
      (∀ k, start ≤ k → k < index → bitmap k = true) ∧
      (∀ k, index ≤ k → k < index + bits → bitmap k = false) ∧
      (index + bits < size → bitmap (index + bits) = true) ∧
      (bits = 0 → index = size) := by
  obtain ⟨low, high, before, stop⟩ := seek_spec (fun k => !bitmap k) (size - start) start
  simp only [rtlFindNextForwardRunClear, Prod.mk.injEq] at found
  obtain ⟨atIndex, atBits⟩ := found
  rw [atIndex] at low high before stop atBits
  obtain ⟨low', high', clear, stop'⟩ := seek_spec bitmap (size - index) index
  refine ⟨low, by omega, ?_, ?_, ?_, ?_⟩
  · intro k above below
    simpa using before k above below
  · intro k above below
    exact clear k above (by omega)
  · intro below
    have last : seek bitmap (size - index) index = index + bits := by omega
    rw [last] at stop'
    exact stop' (by omega)
  · intro none
    by_contra inner
    have isClear : bitmap index = false := by simpa using stop (by omega)
    have last : seek bitmap (size - index) index = index := by omega
    rw [last] at stop'
    rw [stop' (by omega)] at isClear
    contradiction

end QueueCache
