import QueueCache.ToMathlib.Tally

/-! # A resource that one party at a time may change

The parties are the entries of a list, and `inside` says which of them have taken the resource. While
nobody has it, it satisfies its invariant; a party that has it owes it back in good order, which
`serves` states of the resource and the party together. Taking needs the token `free`, as a binary
semaphore or an auto-reset event gives it. Every step of a party is one of the moves below.
-/

namespace List

variable {α ρ : Type*}

/-- Two entries of a property that only one entry has are the same entry. -/
theorem eq_of_countP_le_one {p : α → Bool} {entries : List α} {i j : ℕ} {c d : α} (single : entries.countP p ≤ 1)
    (first : entries[i]? = some c) (second : entries[j]? = some d) (holds : p c = true) (also : p d = true) :
    i = j := by
  induction entries generalizing i j with
  | nil => simp at first
  | cons head rest ih =>
    rw [countP_cons] at single
    -- Whoever is at the head leaves no other.
    have here (k : ℕ) (e : α) (present : rest[k]? = some e) (within : p e = true) : p head = false := by
      have counted : 0 < rest.countP p := countP_pos_iff.mpr ⟨e, mem_of_getElem? present, within⟩
      by_contra taken
      rw [Bool.not_eq_false] at taken
      rw [if_pos taken] at single
      omega
    cases i with
    | zero =>
      obtain rfl := Option.some.inj first
      cases j with
      | zero => rfl
      | succ j =>
        rw [here j d second also] at holds
        contradiction
    | succ i =>
      cases j with
      | zero =>
        obtain rfl := Option.some.inj second
        rw [here i c first holds] at also
        contradiction
      | succ j => rw [ih (by omega) first second]

/-- At most one party is inside, and the resource is in order or being served. -/
structure Exclusion (inside : α → Bool) (invariant : ρ → Prop) (serves : ρ → α → Prop) (free : Bool)
    (resource : ρ) (parties : List α) : Prop where
  alone : parties.countP inside ≤ 1
  shut : free = true → parties.countP inside = 0
  owned : parties.countP inside = 0 → invariant resource
  served : ∀ (j : ℕ) (d : α), parties[j]? = some d → inside d = true → serves resource d

namespace Exclusion

variable {inside : α → Bool} {invariant : ρ → Prop} {serves : ρ → α → Prop} {free : Bool}
  {resource resource' : ρ} {parties : List α} {i : ℕ} {c c' : α}

/-- Nobody is inside at the start. -/
theorem start (good : invariant resource) : Exclusion inside invariant serves free resource [] where
  alone := by simp
  shut _ := rfl
  owned _ := good
  served _ _ present := by simp at present

/-- Another party comes along. -/
theorem join (exclusion : Exclusion inside invariant serves free resource parties) (outside : inside c = false) :
    Exclusion inside invariant serves free resource (parties ++ [c]) := by
  have same : (parties ++ [c]).countP inside = parties.countP inside := by
    simp [countP_append, outside]
  refine ⟨same ▸ exclusion.alone, same ▸ exclusion.shut, same ▸ exclusion.owned, ?_⟩
  apply forall_getElem?_snoc
  · rw [outside]
    rintro ⟨⟩
  · exact exclusion.served

/-- A party outside moves on and leaves the resource as it is for everyone. -/
theorem pass (exclusion : Exclusion inside invariant serves free resource parties) (present : parties[i]? = some c)
    (outside : inside c = false) (stays : inside c' = false) (good : invariant resource → invariant resource')
    (frame : ∀ d, serves resource d → serves resource' d) :
    Exclusion inside invariant serves free resource' (parties.set i c') := by
  have counted := countP_set_add (p := inside) present c'
  rw [outside, stays] at counted
  have same : (parties.set i c').countP inside = parties.countP inside := counted
  refine ⟨same ▸ exclusion.alone, same ▸ exclusion.shut, same ▸ good ∘ exclusion.owned, ?_⟩
  apply forall_getElem?_set
  · rw [stays]
    rintro ⟨⟩
  · exact fun j d there within => frame d (exclusion.served j d there within)

/-- A party takes the resource with the token. -/
theorem take (exclusion : Exclusion inside invariant serves true resource parties) (present : parties[i]? = some c)
    (outside : inside c = false) (handed : invariant resource → serves resource' c') (enters : inside c' = true) :
    Exclusion inside invariant serves false resource' (parties.set i c') := by
  have counted := countP_set_add (p := inside) present c'
  rw [outside, enters, exclusion.shut rfl] at counted
  have one : (parties.set i c').countP inside = 1 := counted
  refine ⟨one.le, by rintro ⟨⟩, by omega, ?_⟩
  apply forall_getElem?_set
  · exact fun _ => handed (exclusion.owned (exclusion.shut rfl))
  · intro j d there within
    have positive : 0 < parties.countP inside := countP_pos_iff.mpr ⟨d, mem_of_getElem? there, within⟩
    rw [exclusion.shut rfl] at positive
    contradiction

/-- The party inside works on the resource. -/
theorem work (exclusion : Exclusion inside invariant serves free resource parties) (present : parties[i]? = some c)
    (within : inside c = true) (stays : inside c' = true) (kept : serves resource c → serves resource' c') :
    Exclusion inside invariant serves free resource' (parties.set i c') := by
  have counted := countP_set_add (p := inside) present c'
  rw [within, stays] at counted
  have same : (parties.set i c').countP inside = parties.countP inside := by omega
  have positive : 0 < parties.countP inside := countP_pos_iff.mpr ⟨c, mem_of_getElem? present, within⟩
  refine ⟨same ▸ exclusion.alone, same ▸ exclusion.shut, fun none => by omega, ?_⟩
  apply forall_getElem?_set_of_ne
  · exact fun _ => kept (exclusion.served i c present within)
  · intro j d other there also
    exact absurd (eq_of_countP_le_one exclusion.alone there present also within) other

/-- The party inside gives the resource back. -/
theorem give (exclusion : Exclusion inside invariant serves free resource parties) (present : parties[i]? = some c)
    (within : inside c = true) (leaves : inside c' = false) (good : serves resource c → invariant resource') :
    Exclusion inside invariant serves true resource' (parties.set i c') := by
  have counted := countP_set_add (p := inside) present c'
  rw [within, leaves] at counted
  have single := exclusion.alone
  have none : (parties.set i c').countP inside = 0 := by
    simp only [Bool.false_eq_true, reduceIte] at counted
    omega
  refine ⟨by omega, fun _ => none, fun _ => good (exclusion.served i c present within), ?_⟩
  intro j d there also
  have positive : 0 < (parties.set i c').countP inside := countP_pos_iff.mpr ⟨d, mem_of_getElem? there, also⟩
  omega

end Exclusion

end List
