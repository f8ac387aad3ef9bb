import Mathlib.Data.List.DropRight

/-! # Reading through a memory that can refuse

A reader sees a memory as `load : ℕ → Except ε β`. It copies a number of entries, or it looks for the last
entry worth copying, from the end backwards. Where the memory serves a list, both read the list; where it
refuses an entry, the reader stops with the memory's error, so a result says which entries were served.
-/

namespace PartialReads

variable {ε β : Type*}

/-- The first `n` entries. -/
def copy (load : ℕ → Except ε β) : ℕ → Except ε (List β)
  | 0 => .ok []
  | n + 1 => do
    let xs ← copy load n
    let x ← load n
    .ok (xs ++ [x])

/-- How many of the first `n` entries are left when those to be skipped are taken off the end. -/
def trimEnd (skip : β → Bool) (load : ℕ → Except ε β) : ℕ → Except ε ℕ
  | 0 => .ok 0
  | n + 1 =>
    match load n with
    | .error e => .error e
    | .ok x => if skip x then trimEnd skip load n else .ok (n + 1)

/-- The memory holds the list from its first entry on. -/
def Serves (load : ℕ → Except ε β) (xs : List β) : Prop := ∀ i x, xs[i]? = some x → load i = .ok x

variable {skip : β → Bool} {load : ℕ → Except ε β} {xs ys : List β} {n k : ℕ}

theorem Serves.append_left (serves : Serves load (xs ++ ys)) : Serves load xs := by
  intro i x present
  apply serves
  rw [List.getElem?_append_left (List.getElem?_eq_some_iff.mp present).1, present]

theorem Serves.last {x : β} (serves : Serves load (xs ++ [x])) : load xs.length = .ok x :=
  serves _ _ List.getElem?_concat_length

theorem Serves.part (serves : Serves load xs) (pre : ys <+: xs) : Serves load ys := by
  obtain ⟨rest, rfl⟩ := pre
  exact serves.append_left

theorem Serves.copy (serves : Serves load xs) : copy load xs.length = .ok xs := by
  induction xs using List.reverseRecOn with
  | nil => rfl
  | append_singleton xs x ih =>
    rw [List.length_append, List.length_singleton, PartialReads.copy, ih serves.append_left, serves.last]
    rfl

theorem Serves.trimEnd (serves : Serves load xs) :
    trimEnd skip load xs.length = .ok (xs.rdropWhile skip).length := by
  induction xs using List.reverseRecOn with
  | nil =>
    rw [List.rdropWhile_nil]
    rfl
  | append_singleton xs x ih =>
    rw [List.length_append, List.length_singleton, PartialReads.trimEnd, serves.last]
    cases skipped : skip x with
    | true =>
      rw [List.rdropWhile_concat_pos _ _ _ skipped, ← ih serves.append_left]
      exact if_pos skipped
    | false =>
      have stays : ¬ skip x = true := by rw [skipped]; decide
      rw [List.rdropWhile_concat_neg _ _ _ stays, List.length_append, List.length_singleton]
      exact if_neg stays

/-- Copying what is left of a list after trimming gives the trimmed list. -/
theorem Serves.copy_trimmed (serves : Serves load xs) :
    PartialReads.copy load (xs.rdropWhile skip).length = .ok (xs.rdropWhile skip) :=
  (serves.part (List.rdropWhile_prefix skip xs)).copy

/-- Copying fails with an error of the memory. -/
theorem copy_eq_error {e : ε} (failed : copy load n = .error e) : ∃ i < n, load i = .error e := by
  induction n with
  | zero => contradiction
  | succ n ih =>
    rw [copy] at failed
    cases before : copy load n with
    | error e' =>
      rw [before] at failed
      obtain rfl : e' = e := Except.error.inj failed
      obtain ⟨i, below, there⟩ := ih before
      exact ⟨i, Nat.lt_succ_of_lt below, there⟩
    | ok xs =>
      cases served : load n with
      | error e' =>
        rw [before, served] at failed
        obtain rfl : e' = e := Except.error.inj failed
        exact ⟨n, Nat.lt_succ_self n, served⟩
      | ok x =>
        rw [before, served] at failed
        contradiction

/-- Trimming fails with an error of the memory. -/
theorem trimEnd_eq_error {e : ε} (failed : trimEnd skip load n = .error e) : ∃ i < n, load i = .error e := by
  induction n with
  | zero => contradiction
  | succ n ih =>
    rw [trimEnd] at failed
    cases served : load n with
    | error e' =>
      rw [served] at failed
      obtain rfl : e' = e := Except.error.inj failed
      exact ⟨n, Nat.lt_succ_self n, served⟩
    | ok x =>
      rw [served] at failed
      dsimp only at failed
      split at failed
      · obtain ⟨i, below, there⟩ := ih failed
        exact ⟨i, Nat.lt_succ_of_lt below, there⟩
      · contradiction

/-- What was trimmed was served and to be skipped, and what stopped the trimming was served and not. -/
theorem trimEnd_eq_ok (trimmed : trimEnd skip load n = .ok k) :
    k ≤ n ∧ (∀ i, k ≤ i → i < n → ∃ x, load i = .ok x) ∧ (0 < k → ∃ x, load (k - 1) = .ok x ∧ skip x = false) := by
  induction n with
  | zero =>
    obtain rfl : 0 = k := Except.ok.inj trimmed
    exact ⟨le_rfl, fun i _ below => absurd below (Nat.not_lt_zero i), fun pos => absurd pos (Nat.lt_irrefl 0)⟩
  | succ n ih =>
    rw [trimEnd] at trimmed
    cases served : load n with
    | error e =>
      rw [served] at trimmed
      contradiction
    | ok x =>
      rw [served] at trimmed
      dsimp only at trimmed
      split at trimmed
      · obtain ⟨below, gone, stop⟩ := ih trimmed
        refine ⟨by omega, fun i above inside => ?_, stop⟩
        obtain less | rfl := Nat.lt_succ_iff_lt_or_eq.mp inside
        · exact gone i above less
        · exact ⟨x, served⟩
      · next stays =>
        obtain rfl : n + 1 = k := Except.ok.inj trimmed
        exact ⟨le_rfl, fun i above below => absurd below (Nat.not_lt.mpr above),
          fun _ => ⟨x, served, by simpa using stays⟩⟩

/-- Trimming does not pass an entry that is to stay, and gets to it where everything behind it is served. -/
theorem trimEnd_of_stays {x : β} (inside : k < n) (served : load k = .ok x) (stays : skip x = false)
    (behind : ∀ i, k < i → i < n → ∃ y, load i = .ok y) : ∃ m, k < m ∧ trimEnd skip load n = .ok m := by
  induction n with
  | zero => exact absurd inside (Nat.not_lt_zero k)
  | succ n ih =>
    obtain less | rfl := Nat.lt_succ_iff_lt_or_eq.mp inside
    · obtain ⟨y, there⟩ := behind n less (Nat.lt_succ_self n)
      obtain ⟨m, above, trimmed⟩ := ih less fun i above below => behind i above (Nat.lt_succ_of_lt below)
      cases skipped : skip y with
      | true =>
        refine ⟨m, above, ?_⟩
        rw [trimEnd, there, ← trimmed]
        exact if_pos skipped
      | false =>
        refine ⟨n + 1, by omega, ?_⟩
        rw [trimEnd, there]
        exact if_neg (by rw [skipped]; decide)
    · refine ⟨k + 1, Nat.lt_succ_self k, ?_⟩
      rw [trimEnd, served]
      exact if_neg (by rw [stays]; decide)

end PartialReads
