import QueueCache.ToMathlib.Run
import QueueCache.ToMathlib.Tally

/-! # Runs that must end

An integer measure that no admitted step can take below zero, and that every admitted step decreases,
bounds the length of every guarded run. A run that cannot be continued ends `AtRest`, and from every
state some run does.
-/

namespace Transition

variable {σ α : Type*} {step : σ → α → Option σ} {ok : σ → α → Prop} {inv : σ → Prop} {measure : σ → ℤ}
  {s t : σ} {as : List α}

/-- No admitted step is possible. -/
def AtRest (step : σ → α → Option σ) (ok : σ → α → Prop) (s : σ) : Prop := ∀ a, ok s a → step s a = none

/-- What a measure must satisfy to bound the runs from states with the invariant. -/
structure Decreases (step : σ → α → Option σ) (ok : σ → α → Prop) (inv : σ → Prop) (measure : σ → ℤ) : Prop where
  kept : ∀ t a u, inv t → ok t a → step t a = some u → inv u
  nonneg : ∀ t, inv t → 0 ≤ measure t
  across : ∀ t a u, inv t → ok t a → step t a = some u → measure u < measure t

/-- Each step of the run has been paid for. -/
theorem Run.length_add_le (decreases : Decreases step ok inv measure) (run : Run step ok s as t) (start : inv s) :
    as.length + measure t ≤ measure s := by
  induction run with
  | nil => simp
  | @snoc t u as a before admitted moved ih =>
    have good := before.preserves inv start decreases.kept
    have paid := decreases.across t a u good admitted moved
    rw [List.length_append, List.length_singleton]
    push_cast
    omega

theorem Run.length_le (decreases : Decreases step ok inv measure) (run : Run step ok s as t) (start : inv s) :
    as.length ≤ measure s := by
  have total := run.length_add_le decreases start
  have left := decreases.nonneg t (run.preserves inv start decreases.kept)
  omega

/-- Some run cannot be continued. -/
theorem exists_atRest (decreases : Decreases step ok inv measure) (start : inv s) :
    ∃ as t, Run step ok s as t ∧ AtRest step ok t := by
  by_contra endless
  -- Otherwise every length is reached, the one beyond the bound too.
  have longer : ∀ n : ℕ, ∃ as t, Run step ok s as t ∧ as.length = n := by
    intro n
    induction n with
    | zero => exact ⟨[], s, .nil s, rfl⟩
    | succ n ih =>
      obtain ⟨as, t, run, length⟩ := ih
      have moves : ¬ AtRest step ok t := fun rest => endless ⟨as, t, run, rest⟩
      simp only [AtRest, not_forall] at moves
      obtain ⟨a, admitted, possible⟩ := moves
      obtain ⟨u, moved⟩ := Option.ne_none_iff_exists'.mp possible
      exact ⟨as ++ [a], u, .snoc run admitted moved, by rw [List.length_append, length, List.length_singleton]⟩
  obtain ⟨as, t, run, length⟩ := longer ((measure s).toNat + 1)
  have bound := run.length_le decreases start
  omega

end Transition

namespace List

variable {α : Type*}

/-- An entry that loses a property, with no other entry gaining it, lowers the count. -/
theorem countP_lt_countP {p q : α → Bool} {entries : List α} {entry : α} (le : ∀ other ∈ entries, p other → q other)
    (member : entry ∈ entries) (lost : p entry = false) (had : q entry = true) :
    entries.countP p < entries.countP q := by
  obtain ⟨before, after, rfl⟩ := append_of_mem member
  have left : before.countP p ≤ before.countP q :=
    countP_mono_left fun other old => le other (mem_append_left _ old)
  have right : after.countP p ≤ after.countP q :=
    countP_mono_left fun other new => le other (mem_append_right _ (mem_cons_of_mem _ new))
  rw [countP_append, countP_append, countP_cons_of_neg (by simp [lost]), countP_cons_of_pos had]
  omega

end List
