import Mathlib.Data.List.Basic

/-! # Lists stored in an indexed memory

A memory gives a value at every index, a file or a buffer is a list. `StoredAt memory offset xs` says that the
memory holds the list from `offset` on. A list that is stored is stored piece by piece, each piece where the
one before it ends.
-/

namespace Stored

variable {β : Type*}

/-- The memory holds the entries of the list from `offset` on. -/
def StoredAt (memory : ℕ → β) (offset : ℕ) (xs : List β) : Prop :=
  ∀ i x, xs[i]? = some x → memory (offset + i) = x

variable {memory : ℕ → β} {offset : ℕ} {xs ys : List β}

theorem storedAt_append :
    StoredAt memory offset (xs ++ ys) ↔ StoredAt memory offset xs ∧ StoredAt memory (offset + xs.length) ys := by
  constructor
  · intro stored
    refine ⟨fun i x present => stored i x ?_, fun i y present => ?_⟩
    · rw [List.getElem?_append_left (List.getElem?_eq_some_iff.mp present).1, present]
    · rw [Nat.add_assoc]
      apply stored
      rw [List.getElem?_append_right (Nat.le_add_right _ _), Nat.add_sub_cancel_left, present]
  · rintro ⟨left, right⟩ i x present
    by_cases inside : i < xs.length
    · rw [List.getElem?_append_left inside] at present
      exact left i x present
    · rw [List.getElem?_append_right (by omega)] at present
      have there := right _ _ present
      rwa [show offset + xs.length + (i - xs.length) = offset + i by omega] at there

theorem storedAt_singleton {x : β} : StoredAt memory offset [x] ↔ memory offset = x := by
  constructor
  · intro stored
    exact stored 0 x rfl
  · rintro rfl i x present
    cases i with
    | zero => exact Option.some.inj present
    | succ i => simp at present

theorem storedAt_cons {x : β} :
    StoredAt memory offset (x :: xs) ↔ memory offset = x ∧ StoredAt memory (offset + 1) xs := by
  rw [← List.singleton_append, storedAt_append, storedAt_singleton, List.length_singleton]

end Stored
