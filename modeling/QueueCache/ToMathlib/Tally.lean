import Mathlib.Algebra.BigOperators.Group.List.Basic
import Mathlib.Algebra.Order.BigOperators.Group.List
import Mathlib.Tactic.Ring

/-! # Tallies over a list of parties

A system of many similar parties is a list, and a party's step replaces its own entry. The sum of
an integer measure over the list then changes by the difference of that one entry's measure. The
same holds for the number of entries with a property, which is the tally of its indicator.
-/

namespace List

variable {α : Type*}

/-- The sum of an integer measure over the entries. -/
def tally (measure : α → ℤ) (entries : List α) : ℤ := (entries.map measure).sum

@[simp] theorem tally_nil (measure : α → ℤ) : tally measure [] = 0 := rfl

@[simp] theorem tally_cons (measure : α → ℤ) (entry : α) (rest : List α) :
    tally measure (entry :: rest) = measure entry + tally measure rest := by
  simp only [tally, map_cons, sum_cons]

@[simp] theorem tally_append (measure : α → ℤ) (left right : List α) :
    tally measure (left ++ right) = tally measure left + tally measure right := by
  simp only [tally, map_append, sum_append]

/-- Replacing one entry changes the tally by the difference of its measures. -/
theorem tally_set {measure : α → ℤ} {entries : List α} {i : ℕ} {old : α}
    (present : entries[i]? = some old) (new : α) :
    tally measure (entries.set i new) = tally measure entries - measure old + measure new := by
  induction entries generalizing i with
  | nil => simp at present
  | cons head rest ih =>
    cases i with
    | zero =>
      obtain rfl := Option.some.inj present
      simp only [set_cons_zero, tally_cons]
      omega
    | succ i =>
      simp only [set_cons_succ, tally_cons, ih (by simpa using present)]
      omega

/-- Removing one entry takes its measure away. -/
theorem tally_eraseIdx {measure : α → ℤ} {entries : List α} {i : ℕ} {old : α} (present : entries[i]? = some old) :
    tally measure (entries.eraseIdx i) = tally measure entries - measure old := by
  induction entries generalizing i with
  | nil => simp at present
  | cons head rest ih =>
    cases i with
    | zero =>
      obtain rfl := Option.some.inj present
      simp only [eraseIdx_zero, tail_cons, tally_cons]
      omega
    | succ i =>
      simp only [eraseIdx_cons_succ, tally_cons, ih (by simpa using present)]
      omega

theorem tally_nonneg {measure : α → ℤ} {entries : List α}
    (nonneg : ∀ entry ∈ entries, 0 ≤ measure entry) : 0 ≤ tally measure entries := by
  apply sum_nonneg
  intro value member
  obtain ⟨entry, present, rfl⟩ := mem_map.mp member
  exact nonneg entry present

/-- With nothing negative, no entry exceeds the total. -/
theorem le_tally {measure : α → ℤ} {entries : List α} {entry : α}
    (nonneg : ∀ other ∈ entries, 0 ≤ measure other) (member : entry ∈ entries) :
    measure entry ≤ tally measure entries := by
  obtain ⟨before, after, rfl⟩ := List.append_of_mem member
  have left : 0 ≤ tally measure before := tally_nonneg fun other old => nonneg other (List.mem_append_left _ old)
  have right : 0 ≤ tally measure after :=
    tally_nonneg fun other new => nonneg other (List.mem_append_right _ (List.mem_cons_of_mem _ new))
  rw [tally_append, tally_cons]
  omega

theorem tally_le_tally {first second : α → ℤ} {entries : List α}
    (le : ∀ entry ∈ entries, first entry ≤ second entry) :
    tally first entries ≤ tally second entries := by
  induction entries with
  | nil => exact le_rfl
  | cons head rest ih =>
    have here := le head (mem_cons_self ..)
    have there := ih fun entry member => le entry (mem_cons_of_mem _ member)
    simp only [tally_cons]
    omega

theorem tally_congr {first second : α → ℤ} {entries : List α}
    (eq : ∀ entry ∈ entries, first entry = second entry) :
    tally first entries = tally second entries :=
  le_antisymm (tally_le_tally fun entry member => (eq entry member).le)
    (tally_le_tally fun entry member => (eq entry member).ge)

theorem tally_add (first second : α → ℤ) (entries : List α) :
    tally (fun entry => first entry + second entry) entries = tally first entries + tally second entries := by
  induction entries with
  | nil => rfl
  | cons head rest ih =>
    simp only [tally_cons, ih]
    omega

theorem tally_filter (p : α → Bool) (measure : α → ℤ) (entries : List α) :
    tally measure (entries.filter p) = tally (fun entry => if p entry then measure entry else 0) entries := by
  induction entries with
  | nil => rfl
  | cons head rest ih =>
    rw [filter_cons, tally_cons, ← ih]
    split
    · rw [tally_cons]
    · rw [zero_add]

/-- A tally that gives one weight to the entries with a property counts them. -/
theorem tally_ite (p : α → Bool) (weight : ℤ) (entries : List α) :
    tally (fun entry => if p entry then weight else 0) entries = (entries.countP p : ℤ) * weight := by
  induction entries with
  | nil => simp
  | cons head rest ih =>
    simp only [tally_cons, countP_cons, ih]
    split
    · push_cast
      ring
    · simp

/-- The number of entries with a property is the tally of its indicator. -/
theorem tally_indicator (p : α → Bool) (entries : List α) :
    tally (fun entry => if p entry then 1 else 0) entries = (entries.countP p : ℤ) := by
  rw [tally_ite, mul_one]

theorem tally_toNat (p : α → Bool) (entries : List α) :
    tally (fun entry => (p entry).toNat) entries = (entries.countP p : ℤ) := by
  rw [← tally_indicator]
  apply tally_congr
  intro entry _
  cases p entry <;> rfl

/-- Replacing one entry changes the count by the two indicators. -/
theorem countP_set_add {p : α → Bool} {entries : List α} {i : ℕ} {old : α}
    (present : entries[i]? = some old) (new : α) :
    (entries.set i new).countP p + (if p old then 1 else 0) =
      entries.countP p + (if p new then 1 else 0) := by
  have counted : tally (fun entry => if p entry then 1 else 0) (entries.set i new) = _ := tally_set present new
  simp only [tally_indicator] at counted
  split_ifs at counted ⊢ <;> omega

/-- What every entry satisfies after one entry was replaced. -/
theorem forall_getElem?_set_of_ne {entries : List α} {i : ℕ} {new : α} {p : ℕ → α → Prop} (here : p i new)
    (others : ∀ (j : ℕ) (entry : α), j ≠ i → entries[j]? = some entry → p j entry) (j : ℕ) (entry : α)
    (present : (entries.set i new)[j]? = some entry) : p j entry := by
  rw [getElem?_set] at present
  split at present
  · next same =>
    subst same
    split at present
    · obtain rfl := Option.some.inj present
      exact here
    · contradiction
  · next other => exact others j entry (Ne.symm other) present

theorem forall_getElem?_set {entries : List α} {i : ℕ} {new : α} {p : ℕ → α → Prop} (here : p i new)
    (others : ∀ (j : ℕ) (entry : α), entries[j]? = some entry → p j entry) :
    ∀ (j : ℕ) (entry : α), (entries.set i new)[j]? = some entry → p j entry :=
  forall_getElem?_set_of_ne here fun j entry _ => others j entry

/-- An entry is still there after one entry was replaced, unless it is the replaced one. -/
theorem exists_getElem?_set {entries : List α} {i j : ℕ} {old new : α} {p q : α → Prop}
    (replaced : entries[i]? = some old) (here : j = i → p old → q new) (there : ∀ entry, p entry → q entry)
    (present : ∃ entry, entries[j]? = some entry ∧ p entry) :
    ∃ entry, (entries.set i new)[j]? = some entry ∧ q entry := by
  obtain ⟨entry, at_, holds⟩ := present
  by_cases same : j = i
  · subst same
    obtain rfl : old = entry := Option.some.inj (replaced.symm.trans at_)
    exact ⟨new, getElem?_set_self (getElem?_eq_some_iff.mp replaced).1, here rfl holds⟩
  · exact ⟨entry, by rw [getElem?_set_ne (Ne.symm same), at_], there entry holds⟩

/-- What every entry satisfies after one entry was added at the end. -/
theorem forall_getElem?_snoc {entries : List α} {new : α} {p : ℕ → α → Prop} (here : p entries.length new)
    (others : ∀ (j : ℕ) (entry : α), entries[j]? = some entry → p j entry) (j : ℕ) (entry : α)
    (present : (entries ++ [new])[j]? = some entry) : p j entry := by
  rcases lt_trichotomy j entries.length with inside | rfl | outside
  · rw [getElem?_append_left inside] at present
    exact others j entry present
  · obtain rfl : new = entry := by simpa using present
    exact here
  · rw [getElem?_eq_none (by simp only [length_append, length_singleton]; omega)] at present
    contradiction

theorem exists_getElem?_snoc {entries : List α} {j : ℕ} {p : α → Prop} (new : α)
    (present : ∃ entry, entries[j]? = some entry ∧ p entry) :
    ∃ entry, (entries ++ [new])[j]? = some entry ∧ p entry := by
  obtain ⟨entry, at_, holds⟩ := present
  exact ⟨entry, by rw [getElem?_append_left (getElem?_eq_some_iff.mp at_).1, at_], holds⟩

end List
