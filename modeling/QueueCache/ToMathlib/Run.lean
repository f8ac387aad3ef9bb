import Mathlib.Data.List.Induction
import Mathlib.Order.Bounds.Basic

/-! # Guarded runs of a labelled step function

A `Run step ok s as t` follows the partial step function `step` from `s` to `t` along exactly the
labels `as`, and every step it takes satisfies the guard `ok` in the state it starts from. Guards
carry restrictions on a schedule or on an environment; `anyStep` imposes none. Runs grow at their
last step, which is the form an invariant of all reachable states needs, and they can be cut at
any position. The executable `runs?` replays a list of labels and checks the guard on the way.
-/

namespace Transition

variable {σ α : Type*}

/-- The guard that admits every step. -/
def anyStep (_ : σ) (_ : α) : Prop := True

/-- A finite run along exactly its labels, each step admitted by the guard. -/
inductive Run (step : σ → α → Option σ) (ok : σ → α → Prop) : σ → List α → σ → Prop
  | nil (s : σ) : Run step ok s [] s
  | snoc {s t u : σ} {as : List α} {a : α} (before : Run step ok s as t) (admitted : ok t a)
      (moved : step t a = some u) : Run step ok s (as ++ [a]) u

namespace Run

variable {step : σ → α → Option σ} {ok weak : σ → α → Prop} {s t u : σ} {as bs : List α}

theorem single {a : α} (admitted : ok s a) (moved : step s a = some t) : Run step ok s [a] t :=
  .snoc (.nil s) admitted moved

theorem append (left : Run step ok s as t) (right : Run step ok t bs u) :
    Run step ok s (as ++ bs) u := by
  induction right with
  | nil => simpa only [List.append_nil] using left
  | snoc _ admitted moved ih =>
    rw [← List.append_assoc]
    exact .snoc ih admitted moved

/-- A run can be cut at any position of its tape. -/
theorem split (run : Run step ok s (as ++ bs) u) : ∃ t, Run step ok s as t ∧ Run step ok t bs u := by
  induction bs using List.reverseRecOn generalizing u with
  | nil => exact ⟨u, by simpa only [List.append_nil] using run, .nil u⟩
  | append_singleton bs b ih =>
    rw [← List.append_assoc] at run
    generalize tape : as ++ bs ++ [b] = all at run
    cases run with
    | nil => simp at tape
    | snoc before admitted moved =>
      obtain ⟨rfl, last⟩ := List.append_inj' tape rfl
      obtain rfl := List.singleton_inj.mp last
      obtain ⟨t, left, right⟩ := ih before
      exact ⟨t, left, .snoc right admitted moved⟩

/-- A run takes the first label of its tape first. -/
theorem uncons {a : α} (run : Run step ok s (a :: as) u) :
    ∃ t, ok s a ∧ step s a = some t ∧ Run step ok t as u := by
  have run : Run step ok s ([a] ++ as) u := run
  obtain ⟨t, first, rest⟩ := run.split
  refine ⟨t, ?_⟩
  generalize tape : [a] = all at first
  cases first with
  | nil => contradiction
  | @snoc mid _ bs b before admitted moved =>
    obtain ⟨rfl, last⟩ := List.append_inj' (show [] ++ [a] = bs ++ [b] from tape) rfl
    obtain rfl := List.singleton_inj.mp last
    generalize none : ([] : List α) = empty at before
    cases before with
    | nil => exact ⟨admitted, moved, rest⟩
    | snoc => simp at none

/-- Whatever the strong guard admits, the weak one admits too. -/
theorem weaken (imp : ∀ t a, ok t a → weak t a) (run : Run step ok s as t) :
    Run step weak s as t := by
  induction run with
  | nil => exact .nil _
  | snoc _ admitted moved ih => exact .snoc ih (imp _ _ admitted) moved

theorem toAny (run : Run step ok s as t) : Run step anyStep s as t :=
  run.weaken fun _ _ _ => trivial

/-- An invariant that every admitted step preserves holds wherever the run arrives. -/
theorem preserves (inv : σ → Prop) (run : Run step ok s as t) (start : inv s)
    (kept : ∀ t a u, inv t → ok t a → step t a = some u → inv u) : inv t := by
  induction run with
  | nil => exact start
  | snoc _ admitted moved ih => exact kept _ _ _ ih admitted moved

/-- A run is admitted by a guard, or it ends broken, where a step that the guard refuses breaks the state and a
broken state stays broken. -/
theorem admitted_or (base broken : σ → Prop) (run : Run step weak s as t) (grounded : base s)
    (stays : ∀ t a u, base t → weak t a → step t a = some u → base u)
    (breaks : ∀ t a u, base t → weak t a → ¬ ok t a → step t a = some u → broken u)
    (remains : ∀ t a u, base t → broken t → weak t a → step t a = some u → broken u) :
    Run step ok s as t ∨ broken t := by
  induction run with
  | nil => exact .inl (.nil _)
  | @snoc t u as a before admitted moved ih =>
    have based := before.preserves base grounded stays
    rcases ih with guarded | bad
    · by_cases fine : ok t a
      · exact .inl (.snoc guarded fine moved)
      · exact .inr (breaks _ _ _ based admitted fine moved)
    · exact .inr (remains _ _ _ based bad admitted moved)

/-- A reflexive and transitive relation that holds across every admitted step holds across the run. -/
theorem relates (rel : σ → σ → Prop) (run : Run step ok s as t) (refl : ∀ t, rel t t)
    (trans : ∀ {t u v}, rel t u → rel u v → rel t v)
    (across : ∀ t a u, ok t a → step t a = some u → rel t u) : rel s t := by
  induction run with
  | nil => exact refl _
  | snoc _ admitted moved ih => exact trans ih (across _ _ _ admitted moved)

/-- The labels determine where a run arrives. -/
theorem unique (first : Run step ok s as t) (second : Run step ok s as u) : t = u := by
  induction first generalizing u with
  | nil =>
    generalize tape : ([] : List α) = none at second
    cases second with
    | nil => rfl
    | snoc => simp at tape
  | @snoc t₁ t₂ as₁ a before _ moved ih =>
    generalize tape : as₁ ++ [a] = all at second
    cases second with
    | nil => simp at tape
    | snoc before' _ moved' =>
      obtain ⟨rfl, last⟩ := List.append_inj' tape rfl
      obtain rfl := List.singleton_inj.mp last
      obtain rfl := ih before'
      exact Option.some.inj (moved.symm.trans moved')

end Run

/-- The states a tape passes through from `s`. -/
def Visited (step : σ → α → Option σ) (ok : σ → α → Prop) (s : σ) (as : List α) : Set σ :=
  {t | ∃ before after, as = before ++ after ∧ Run step ok s before t}

section Visited

variable {step : σ → α → Option σ} {ok : σ → α → Prop} {s t u : σ} {as : List α}

theorem Run.visited (run : Run step ok s as t) : t ∈ Visited step ok s as :=
  ⟨as, [], (List.append_nil as).symm, run⟩

/-- One more label visits one more state. -/
theorem visited_snoc {a : α} (run : Run step ok s (as ++ [a]) u) :
    Visited step ok s (as ++ [a]) = insert u (Visited step ok s as) := by
  ext t
  constructor
  · rintro ⟨before, after, tape, reached⟩
    rcases List.eq_nil_or_concat after with rfl | ⟨rest, b, rfl⟩
    · rw [List.append_nil] at tape
      subst tape
      exact .inl (reached.unique run)
    · rw [List.concat_eq_append, ← List.append_assoc] at tape
      exact .inr ⟨before, rest, (List.append_inj' tape rfl).1, reached⟩
  · rintro (rfl | ⟨before, after, rfl, reached⟩)
    · exact run.visited
    · exact ⟨before, after ++ [a], List.append_assoc _ _ _, reached⟩

/-- A mark that every step raises to the current level, or leaves where the level does not rise, is
the greatest level the run has visited. -/
theorem Run.highWater {β : Type*} [LinearOrder β] (inv : σ → Prop) (level mark : σ → β)
    (run : Run step ok s as t) (start : inv s) (base : mark s = level s)
    (kept : ∀ t a u, inv t → ok t a → step t a = some u → inv u)
    (across : ∀ t a u, inv t → ok t a → step t a = some u →
      mark u = max (mark t) (level u) ∨ (mark u = mark t ∧ level u ≤ level t)) :
    IsGreatest (level '' Visited step ok s as) (mark t) := by
  induction run with
  | nil =>
    refine ⟨⟨s, ⟨[], [], rfl, .nil s⟩, base.symm⟩, ?_⟩
    rintro _ ⟨t, ⟨before, after, tape, reached⟩, rfl⟩
    obtain ⟨rfl, rfl⟩ := List.append_eq_nil_iff.mp tape.symm
    rw [reached.unique (.nil s), base]
  | @snoc t u as a before admitted moved ih =>
    obtain ⟨member, upper⟩ := ih
    rw [visited_snoc (.snoc before admitted moved), Set.image_insert_eq]
    rcases across t a u (before.preserves inv start kept) admitted moved with raised | ⟨same, below⟩
    · rw [raised]
      exact ⟨by
        rcases le_total (mark t) (level u) with le | le
        · rw [max_eq_right le]; exact .inl rfl
        · rw [max_eq_left le]; exact .inr member,
        by rw [upperBounds_insert]; exact ⟨le_max_right _ _, fun _ there => (upper there).trans (le_max_left _ _)⟩⟩
    · rw [same]
      refine ⟨.inr member, ?_⟩
      rw [upperBounds_insert]
      exact ⟨below.trans (upper ⟨t, before.visited, rfl⟩), upper⟩

/-- Where a guard is exactly what keeps an invariant, the runs whose states all have the invariant are
the guarded ones. -/
theorem Run.admitted_iff (base inv : σ → Prop) (run : Run step anyStep s as t) (grounded : base s)
    (stays : ∀ t a u, base t → step t a = some u → base u) (start : inv s)
    (kept : ∀ t a u, base t → inv t → ok t a → step t a = some u → inv u)
    (broken : ∀ t a u, base t → inv t → ¬ ok t a → step t a = some u → ¬ inv u) :
    (∀ u ∈ Visited step anyStep s as, inv u) ↔ Run step ok s as t := by
  constructor
  · intro holds
    induction run with
    | nil => exact .nil _
    | @snoc t u as a before admitted moved ih =>
      rw [visited_snoc (.snoc before admitted moved)] at holds
      refine .snoc (ih fun v visited => holds v (.inr visited)) ?_ moved
      by_contra refused
      have based := before.preserves base grounded fun v b w based _ moved => stays v b w based moved
      exact broken t a u based (holds t (.inr before.visited)) refused moved (holds u (.inl rfl))
  · rintro guarded u ⟨before, after, rfl, reached⟩
    obtain ⟨mid, first, -⟩ := guarded.split
    rw [reached.unique first.toAny]
    apply And.right
    apply first.preserves (fun t => base t ∧ inv t) ⟨grounded, start⟩
    rintro v a w ⟨based, holds⟩ admitted moved
    exact ⟨stays v a w based moved, kept v a w based holds admitted moved⟩

end Visited

/-- What an observer of single steps sees along a tape. -/
def observed {β : Type*} (step : σ → α → Option σ) (observe : σ → α → List β) : σ → List α → List β
  | _, [] => []
  | s, a :: as => observe s a ++ (step s a).elim [] fun t => observed step observe t as

section Observed

variable {β : Type*} {step : σ → α → Option σ} {ok : σ → α → Prop} {observe : σ → α → List β} {s t : σ} {as : List α}

theorem Run.observed_append (run : Run step ok s as t) (bs : List α) :
    observed step observe s (as ++ bs) = observed step observe s as ++ observed step observe t bs := by
  induction as generalizing s with
  | nil =>
    rw [run.unique (.nil s)]
    rfl
  | cons a as ih =>
    obtain ⟨mid, -, moved, rest⟩ := run.uncons
    simp only [List.cons_append, observed, moved, Option.elim_some, ih rest, List.append_assoc]

/-- One more step adds what is seen of it. -/
theorem Run.observed_snoc {a : α} {u : σ} (run : Run step ok s as t) (moved : step t a = some u) :
    observed step observe s (as ++ [a]) = observed step observe s as ++ observe t a := by
  rw [run.observed_append]
  simp only [observed, moved, Option.elim_some, List.append_nil]

/-- An invariant of the state and what has been seen so far. -/
theorem Run.observes (inv : σ → List β → Prop) (run : Run step ok s as t) (start : inv s [])
    (kept : ∀ t a u seen, inv t seen → ok t a → step t a = some u → inv u (seen ++ observe t a)) :
    inv t (observed step observe s as) := by
  induction run with
  | nil => exact start
  | snoc before admitted moved ih =>
    rw [before.observed_snoc moved]
    exact kept _ _ _ _ ih admitted moved

end Observed

/-- Replay a tape, refusing it at the first label the guard rejects or the step cannot take. -/
def runs? (step : σ → α → Option σ) (ok : σ → α → Prop) [∀ s a, Decidable (ok s a)] :
    σ → List α → Option σ
  | s, [] => some s
  | s, a :: as => if ok s a then (step s a).bind fun t => runs? step ok t as else none

section Replay

variable {step : σ → α → Option σ} {ok : σ → α → Prop} [∀ s a, Decidable (ok s a)]

/-- A replay that succeeds is a run. -/
theorem run_of_runs? {s t : σ} {as : List α} (replayed : runs? step ok s as = some t) :
    Run step ok s as t := by
  induction as generalizing s with
  | nil =>
    obtain rfl := Option.some.inj replayed
    exact .nil _
  | cons a as ih =>
    rw [runs?] at replayed
    split at replayed
    · next admitted =>
      obtain ⟨mid, moved, rest⟩ := Option.bind_eq_some_iff.mp replayed
      exact (Run.single admitted moved).append (ih rest)
    · contradiction

theorem runs?_append (s : σ) (as bs : List α) :
    runs? step ok s (as ++ bs) = (runs? step ok s as).bind fun t => runs? step ok t bs := by
  induction as generalizing s with
  | nil => rfl
  | cons a as ih =>
    rw [List.cons_append, runs?, runs?]
    split
    · cases step s a with
      | none => rfl
      | some t => exact ih t
    · rfl

/-- Every run can be replayed. -/
theorem runs?_of_run {s t : σ} {as : List α} (run : Run step ok s as t) : runs? step ok s as = some t := by
  induction run with
  | nil => rfl
  | snoc _ admitted moved ih =>
    rw [runs?_append, ih, Option.bind_some, runs?, if_pos admitted, moved]
    rfl

/-- What every prefix of a tape satisfies by replay holds of every visited state. -/
theorem forall_visited {s : σ} {as : List α} (p : σ → Bool)
    (checked : ∀ n ∈ List.range (as.length + 1), (runs? step ok s (as.take n)).all p = true) :
    ∀ t ∈ Visited step ok s as, p t = true := by
  rintro t ⟨before, after, rfl, run⟩
  have here := checked before.length (by simp only [List.mem_range, List.length_append]; omega)
  rw [List.take_left, runs?_of_run run] at here
  exact here

/-- The state a successful replay arrives in, with the run that leads there. -/
theorem run_get {s : σ} {as : List α} (succeeds : (runs? step ok s as).isSome) :
    Run step ok s as ((runs? step ok s as).get succeeds) :=
  run_of_runs? (Option.some_get succeeds).symm

/-- The state a replay arrives in, in a form that evaluates. -/
theorem run_getD {s : σ} {as : List α} (succeeds : (runs? step ok s as).isSome) :
    Run step ok s as ((runs? step ok s as).getD s) := by
  obtain ⟨t, replayed⟩ := Option.isSome_iff_exists.mp succeeds
  rw [replayed]
  exact run_of_runs? replayed

end Replay

instance (s : σ) (a : α) : Decidable (anyStep s a) := inferInstanceAs (Decidable True)

end Transition
