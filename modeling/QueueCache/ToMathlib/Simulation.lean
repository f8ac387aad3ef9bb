import QueueCache.ToMathlib.Run

/-! # Simulation of runs

Every step of the lower level is matched by a run of the upper level, empty or not, along the labels that
an observer of the step sees. A run of the lower level is then matched along all it shows, and what holds
of every related state above holds below.
-/

namespace Transition

variable {σ α τ β : Type*} {step : σ → α → Option σ} {ok : σ → α → Prop} {upper : τ → β → Option τ}
  {admits : τ → β → Prop} {observe : σ → α → List β} {s t : σ} {u : τ} {as : List α}

/-- The relation is kept by every step below and some run above. -/
def Simulates (step : σ → α → Option σ) (ok : σ → α → Prop) (upper : τ → β → Option τ) (admits : τ → β → Prop)
    (observe : σ → α → List β) (rel : σ → τ → Prop) : Prop :=
  ∀ t a t' u, rel t u → ok t a → step t a = some t' → ∃ u', Run upper admits u (observe t a) u' ∧ rel t' u'

theorem Run.simulated {rel : σ → τ → Prop} (run : Run step ok s as t)
    (simulates : Simulates step ok upper admits observe rel) (start : rel s u) :
    ∃ u', Run upper admits u (observed step observe s as) u' ∧ rel t u' := by
  induction run with
  | nil => exact ⟨u, .nil u, start⟩
  | @snoc t t' as a before admitted moved ih =>
    obtain ⟨mid, above, related⟩ := ih
    obtain ⟨u', more, holds⟩ := simulates t a t' mid related admitted moved
    exact ⟨u', before.observed_snoc moved ▸ above.append more, holds⟩

end Transition
