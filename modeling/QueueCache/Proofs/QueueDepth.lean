import QueueCache.ToMathlib.Run
import QueueCache.ToMathlib.Tally
import QueueCache.Model.QueueDepth

/-! # What the queue depth says

Every change of `QueueDepth` that does not go with a request is one of two: a completion that found nothing left to
take off, or a control that stored a zero. The depth is off by these alone, for good: what a store of zero has
discarded is taken off once more later, at best down to zero. So the depth is right all along exactly where every
control stored its zero while nothing was below.
-/

namespace QueueCache.ScsiChk.Depth

open Transition List

/-- The request has been counted and not yet taken off again. -/
def RequestPc.below (pc : RequestPc) : ℤ := if pc = .lower then 1 else 0

/-- The completion is going to add one back. -/
def RequestPc.owing (pc : RequestPc) : ℤ := if pc = .restore then 1 else 0

/-- The requests that have been counted and not yet taken off. -/
def State.below (s : State) : ℤ := tally RequestPc.below s.requests

/-- What the completions are going to add back. -/
def State.owing (s : State) : ℤ := tally RequestPc.owing s.requests

/-- A completion that takes off a request that the depth does not count. -/
def overDecrements (s : State) : Action → List ℤ
  | .requestStep i _ => if s.requests[i]? = some .lower ∧ s.queueDepth ≤ 0 then [1] else []
  | _ => []

/-- What a store of zero discards. -/
def discards (s : State) : Action → List ℤ
  | .controlStep i => if (s.controls[i]?).map Control.pc = some .clearDepth then [s.queueDepth] else []
  | _ => []

/-- What a step of the requests and controls does to the depth. -/
inductive Moves (s : State) (a : Action) (s' : State) : Prop
  | same (depth : s'.queueDepth = s.queueDepth) (below : s'.below = s.below) (owing : s'.owing = s.owing)
      (calm : overDecrements s a = []) (keeps : discards s a = [])
  | count (depth : s'.queueDepth = s.queueDepth + 1) (below : s'.below = s.below + 1) (owing : s'.owing = s.owing)
      (calm : overDecrements s a = []) (keeps : discards s a = [])
  | takeOff (counted : 0 < s.queueDepth) (depth : s'.queueDepth = s.queueDepth - 1) (below : s'.below = s.below - 1)
      (owing : s'.owing = s.owing) (calm : overDecrements s a = []) (keeps : discards s a = [])
  | overDecrement (uncounted : s.queueDepth ≤ 0) (depth : s'.queueDepth = s.queueDepth - 1)
      (below : s'.below = s.below - 1)
      (owing : s'.owing = s.owing + 1) (unmatched : overDecrements s a = [1]) (keeps : discards s a = [])
  | restore (depth : s'.queueDepth = s.queueDepth + 1) (below : s'.below = s.below) (owing : s'.owing = s.owing - 1)
      (calm : overDecrements s a = []) (keeps : discards s a = [])
  | clear (depth : s'.queueDepth = 0) (below : s'.below = s.below) (owing : s'.owing = s.owing)
      (calm : overDecrements s a = []) (drops : discards s a = [s.queueDepth])

section Step

variable {s s' : State} {a : Action}

theorem step_moves (moved : s.step a = some s') : Moves s a s' := by
  cases a with
  | request scsi =>
    obtain rfl := Option.some.inj moved
    refine .same rfl ?_ ?_ rfl rfl
    · cases scsi <;> simp [State.below, RequestPc.below]
    · cases scsi <;> simp [State.owing, RequestPc.owing]
  | control code =>
    obtain rfl := Option.some.inj moved
    exact .same rfl rfl rfl rfl rfl
  | requestStep i counts =>
    obtain ⟨pc, present, moved⟩ := Option.bind_eq_some_iff.mp moved
    obtain ⟨next, taken, rfl⟩ := Option.map_eq_some_iff.mp moved
    have below (pc' : RequestPc) : tally RequestPc.below (s.requests.set i pc') = s.below - pc.below + pc'.below :=
      tally_set present pc'
    have owing (pc' : RequestPc) : tally RequestPc.owing (s.requests.set i pc') = s.owing - pc.owing + pc'.owing :=
      tally_set present pc'
    cases pc with
    | test =>
      obtain rfl := Option.some.inj taken
      refine .same rfl ?_ ?_ (by simp [overDecrements, present]) rfl
      · rw [State.below, below]
        split <;> simp [RequestPc.below]
      · rw [State.owing, owing]
        split <;> simp [RequestPc.owing]
    | increment =>
      obtain rfl := Option.some.inj taken
      exact .count rfl (by rw [State.below, below]; simp [RequestPc.below])
        (by rw [State.owing, owing]; simp [RequestPc.owing])
        (by simp [overDecrements, present]) rfl
    | lower =>
      obtain rfl := Option.some.inj taken
      by_cases counted : 0 < s.queueDepth
      · have enough : ¬ s.queueDepth - 1 < 0 := by omega
        refine .takeOff counted rfl ?_ ?_ (by simp [overDecrements, counted]) rfl
        · rw [State.below, below, if_neg enough]
          simp [RequestPc.below]
        · rw [State.owing, owing, if_neg enough]
          simp [RequestPc.owing]
      · have short : s.queueDepth - 1 < 0 := by omega
        refine .overDecrement (by omega) rfl ?_ ?_ (by simp [overDecrements, present]; omega) rfl
        · rw [State.below, below, if_pos short]
          simp [RequestPc.below]
        · rw [State.owing, owing, if_pos short]
          simp [RequestPc.owing]
    | restore =>
      obtain rfl := Option.some.inj taken
      exact .restore rfl (by rw [State.below, below]; simp [RequestPc.below])
        (by rw [State.owing, owing]; simp [RequestPc.owing]) (by simp [overDecrements, present]) rfl
    | returned => contradiction
  | controlStep i =>
    obtain ⟨c, present, moved⟩ := Option.bind_eq_some_iff.mp moved
    obtain ⟨next, taken, rfl⟩ := Option.map_eq_some_iff.mp moved
    have elsewhere {next : State × Control} (depth : next.1.queueDepth = s.queueDepth)
        (requests : next.1.requests = s.requests)
        (other : c.pc ≠ .clearDepth) :
        Moves s (.controlStep i) { next.1 with controls := s.controls.set i next.2 } :=
      .same depth (congrArg (tally RequestPc.below) requests) (congrArg (tally RequestPc.owing) requests) rfl
        (by simp [discards, present, other])
    unfold controlStep at taken
    cases at_ : c.pc <;> rw [at_] at taken
    case entry =>
      obtain rfl := Option.some.inj taken
      refine elsewhere ?_ ?_ (by simp [at_])
      · cases c.code <;> rfl
      · cases c.code <;> rfl
    case clearDepth =>
      obtain rfl := Option.some.inj taken
      exact .clear rfl rfl rfl rfl (by simp [discards, present, at_])
    case returned => contradiction
    all_goals
      obtain rfl := Option.some.inj taken
      exact elsewhere rfl rfl (by simp [at_])

theorem State.below_nonneg (s : State) : 0 ≤ s.below := by
  apply tally_nonneg
  intro pc _
  unfold RequestPc.below
  split <;> decide

theorem State.owing_nonneg (s : State) : 0 ≤ s.owing := by
  apply tally_nonneg
  intro pc _
  unfold RequestPc.owing
  split <;> decide

/-- The depth is the number of requests below, and no completion has anything to put right. -/
def State.Exact (s : State) : Prop := s.queueDepth = s.below ∧ s.owing = 0

/-- A control stores its zero while nothing is below. -/
def clearsNothing (s : State) (a : Action) : Bool := (discards s a).isEmpty || s.below = 0

theorem State.Exact.step (before : s.Exact) (quiet : clearsNothing s a = true) (moved : s.step a = some s') :
    s'.Exact := by
  obtain ⟨depth, none⟩ := before
  have below := s'.below_nonneg
  have owing := s'.owing_nonneg
  cases step_moves moved with
  | same depth' below' owing' => exact ⟨by omega, by omega⟩
  | count depth' below' owing' => exact ⟨by omega, by omega⟩
  | takeOff _ depth' below' owing' => exact ⟨by omega, by omega⟩
  -- The request that is taken off is one of those that the depth counts.
  | overDecrement uncounted _ below' => omega
  | restore _ _ owing' => omega
  | clear depth' below' owing' _ drops =>
    rw [clearsNothing, drops, List.isEmpty_cons, Bool.false_or, decide_eq_true_eq] at quiet
    exact ⟨by omega, by omega⟩

/-- A zero stored while requests are below is wrong. -/
theorem not_exact_of_cleared (loud : ¬ clearsNothing s a = true) (moved : s.step a = some s') : ¬ s'.Exact := by
  rw [clearsNothing, Bool.or_eq_true, not_or, decide_eq_true_eq] at loud
  obtain ⟨drops, below⟩ := loud
  rintro ⟨depth, -⟩
  cases step_moves moved with
  | clear depth' below' => omega
  | same _ _ _ _ keeps | count _ _ _ _ keeps | restore _ _ _ _ keeps => exact drops (by rw [keeps]; rfl)
  | takeOff _ _ _ _ _ keeps | overDecrement _ _ _ _ _ keeps => exact drops (by rw [keeps]; rfl)

/-- What the depth is off by changes with the two observations alone. -/
theorem Moves.books (moves : Moves s a s') : s'.queueDepth + s'.owing + s.below =
    s.queueDepth + s.owing + s'.below + (overDecrements s a).sum - (discards s a).sum := by
  cases moves with
  | clear depth below owing calm drops =>
    rw [calm, drops, List.sum_nil, List.sum_singleton]
    omega
  | overDecrement _ depth below owing unmatched keeps =>
    rw [unmatched, keeps, List.sum_nil, List.sum_singleton]
    omega
  | takeOff _ depth below owing calm keeps =>
    rw [calm, keeps, List.sum_nil]
    omega
  | same depth below owing calm keeps | count depth below owing calm keeps | restore depth below owing calm keeps =>
    rw [calm, keeps, List.sum_nil]
    omega

/-- A completion that has made the depth negative adds one back. -/
theorem Moves.nonneg (moves : Moves s a s') (nonneg : 0 ≤ s.queueDepth + s.owing) : 0 ≤ s'.queueDepth + s'.owing := by
  have owing := s'.owing_nonneg
  have before := s.owing_nonneg
  cases moves with
  | same depth _ owing' | count depth _ owing' | restore depth _ owing' => omega
  | takeOff counted depth _ owing' => omega
  | overDecrement _ depth _ owing' => omega
  | clear depth => omega

end Step

/-- In every run the depth, with what completions are going to add back, is the number of requests below, off by one
more for every completion that took off too much and by what the stores of zero have discarded; it is never negative
otherwise. It is exact in every state of the run if and only if no zero was stored while requests were below. -/
theorem queue_depth_books (as : List Action) (s : State) (run : Run State.step anyStep {} as s) :
    s.queueDepth + s.owing =
        s.below + (observed State.step overDecrements {} as).sum - (observed State.step discards {} as).sum ∧
      0 ≤ s.queueDepth + s.owing ∧
      ((∀ t ∈ Visited State.step anyStep {} as, t.Exact) ↔
        Run State.step (fun t a => clearsNothing t a = true) {} as s) := by
  have counted : s.queueDepth + s.owing =
        s.below + (observed State.step overDecrements {} as).sum - (observed State.step discards {} as).sum ∧
      0 ≤ s.queueDepth + s.owing := by
    induction run with
    | nil => exact ⟨rfl, by decide⟩
    | snoc before _ moved ih =>
      obtain ⟨books, nonneg⟩ := ih
      have moves := step_moves moved
      have changed := moves.books
      rw [before.observed_snoc moved, before.observed_snoc moved, List.sum_append, List.sum_append]
      exact ⟨by omega, moves.nonneg nonneg⟩
  refine ⟨counted.1, counted.2, ?_⟩
  exact run.admitted_iff (fun _ => True) State.Exact trivial (fun _ _ _ _ _ => trivial) ⟨rfl, rfl⟩
    (fun _ _ _ _ before quiet moved => before.step quiet moved)
    fun _ _ _ _ _ loud moved => not_exact_of_cleared loud moved

/-- A request is below when the counters are switched on, and they are switched off again before its completion has
put right what it took off. -/
def switchedOnAndOff : List Action :=
  [.request true, .requestStep 0 true, .control .wmiEnable, .controlStep 0, .controlStep 0, .requestStep 0 true,
    .control .wmiDisable, .controlStep 1, .controlStep 1, .controlStep 1, .requestStep 0 true]

def switched : State := (runs? State.step anyStep {} switchedOnAndOff).getD {}

/-- The depth is left at one with nothing below. -/
theorem queue_depth_books_drifted : switched.queueDepth = 1 ∧ switched.below = 0 ∧
    ¬ Run State.step (fun t a => clearsNothing t a = true) {} switchedOnAndOff switched := by
  have run : Run State.step anyStep {} switchedOnAndOff switched := run_getD (by decide)
  obtain ⟨books, -, exactly⟩ := queue_depth_books switchedOnAndOff switched run
  have unmatched : (observed State.step overDecrements {} switchedOnAndOff).sum = 1 := by decide
  have dropped : (observed State.step discards {} switchedOnAndOff).sum = 0 := by decide
  have below : switched.below = 0 := by decide
  have owing : switched.owing = 0 := by decide
  have depth : switched.queueDepth = 1 := by omega
  refine ⟨depth, below, fun quiet => ?_⟩
  have right := (exactly.mpr quiet switched run.visited).1
  omega

end QueueCache.ScsiChk.Depth
