import QueueCache.Model.Registry
import QueueCache.Proofs.Durability
import QueueCache.Proofs.Limits

/-! # Limits that leave no room

The admission tests compare counters that are never negative with the limits, so a limit that is not positive
closes the lazy path for good. Every write and flush then holds its request in the queue, and what the caller
is told is what the lower device answered to that very request.
-/

namespace QueueCache

open Transition

/-- One of the limits leaves no room. -/
def Config.LeavesNoRoom (cfg : Config) : Prop := cfg.maxQueueItems ≤ 0 ∨ cfg.maxQueueSize ≤ 0

/-- Where no call comes when a limit leaves no room. -/
def Pc.pastLimits (cfg : Config) : Pc → Bool
  | .testItems => cfg.maxQueueSize ≤ 0
  | .lazyNewItem | .lazyAcquireLock _ | .lazyMapMdl _ | .lazyNewPayload _ | .lazyInsertTail _ | .lazySetEvent
  | .lazyComplete => true
  | _ => false

section Step

variable {cfg : Config} {sh sh' : Shared} {i : ℕ} {c c' : Call} {out : Outcome}

theorem CallStep.not_pastLimits (moved : CallStep sh i c out sh' c') (closed : cfg.LeavesNoRoom)
    (outside : c.pc.pastLimits cfg = false) (items : sh.statistics.maxQueueItems = cfg.maxQueueItems)
    (size : sh.statistics.maxQueueSize = cfg.maxQueueSize)
    (nonneg : 0 ≤ sh.statistics.writeQueueItems ∧ 0 ≤ sh.statistics.writeQueueSize) : c'.pc.pastLimits cfg = false := by
  cases moved with
  | entry _ _ entered => cases entered <;> rfl
  | sizeBelow _ below =>
    simp only [Call.goto, Pc.pastLimits, decide_eq_false_iff_not]
    omega
  | itemsBelow at_ below =>
    rw [at_] at outside
    simp only [Pc.pastLimits, decide_eq_false_iff_not] at outside
    obtain few | small := closed
    · omega
    · contradiction
  | noLock at_ => rfl
  | lazyNewItem at_ => rw [at_] at outside; contradiction
  | lazyAcquireWrite at_ => rw [at_] at outside; contradiction
  | lazyAcquireFlush at_ => rw [at_] at outside; contradiction
  | lazyMapMdl at_ => rw [at_] at outside; contradiction
  | lazyNewPayload at_ => rw [at_] at outside; contradiction
  | lazyInsertTail at_ => rw [at_] at outside; contradiction
  | lazySetEvent at_ => rw [at_] at outside; contradiction
  | splitOn _ _ _ _ _ goes => obtain ⟨-, rfl⟩ | ⟨-, rfl⟩ := goes <;> rfl
  | finishScatter => simp [Pc.pastLimits]
  | _ => rfl

end Step

/-- No call is past the admission and nothing has been linked lazily. -/
structure WritesThrough (cfg : Config) (s : State) : Prop where
  calls : ∀ (i : ℕ) (c : Call), s.calls[i]? = some c → c.pc.pastLimits cfg = false
  inserted : ∀ item ∈ s.shared.history.inserted, item.isLazy = false

theorem WritesThrough.step {cfg : Config} {s s' : State} {a : Action} (before : WritesThrough cfg s)
    (closed : cfg.LeavesNoRoom) (wf : Wf s) (accounted : Accounted s) (limits : LimitsOf cfg s)
    (moved : s.step a = some s') : WritesThrough cfg s' := by
  obtain ⟨calls, inserted⟩ := before
  refine ⟨?_, ?_⟩
  · cases step_cases moved with
    | receive => exact List.forall_getElem?_snoc rfl calls
    | call present taken =>
      exact List.forall_getElem?_set
        (taken.not_pastLimits closed (calls _ _ present) limits.items limits.size accounted.nonneg) calls
    | lower present taken => exact List.forall_getElem?_set (by rw [taken.pc]; exact calls _ _ present) calls
    | worker taken =>
      cases taken with
      | completeIrp _ _ _ present =>
        have here := calls _ _ present
        exact List.forall_getElem?_set here calls
      | _ => exact calls
    | remover taken => rw [taken.frame.2.2.2.2]; exact calls
    | initializeDevice => exact calls
  · cases wf.queueMove moved with
    | same frame => rw [frame.inserted]; exact inserted
    | @insert i c item present shared made =>
      rw [shared, Shared.insertTailList_inserted]
      intro entry member
      obtain old | new := List.mem_append.mp member
      · exact inserted entry old
      · obtain rfl := List.mem_singleton.mp new
        obtain ⟨-, same⟩ | ⟨at_, -, -⟩ := made
        · rw [same]
          rfl
        · have outside := calls i c present
          rw [at_] at outside
          contradiction
    | clear _ frame => rw [frame.inserted]; exact inserted
    | remove _ shared => rw [shared]; exact inserted

theorem writesThrough_of_run {cfg : Config} {as : List Action} {s : State} (closed : cfg.LeavesNoRoom)
    (run : Run State.step anyStep (.initial cfg) as s) : WritesThrough cfg s := by
  have start : WritesThrough cfg (.initial cfg) := by
    constructor
    · intro i c present
      simp [State.initial] at present
    · intro item member
      simp [State.initial] at member
  refine (run.preserves (fun s => (Wf s ∧ Accounted s ∧ LimitsOf cfg s) ∧ WritesThrough cfg s)
    ⟨⟨wf_initial cfg, ⟨rfl, rfl⟩, rfl, rfl⟩, start⟩ ?_).2
  rintro t a u ⟨⟨wf, accounted, limits⟩, before⟩ - moved
  have move := wf.queueMove moved
  exact ⟨⟨wf.step moved, accounted.step move, limits.step move⟩, before.step closed wf accounted limits moved⟩

/-- Where `MaxQueueItems` or `MaxQueueSize` reads as zero or less, nothing is ever queued lazily, and every write
with data and every flush that this driver completes with success has been answered by the lower device, for the
range and the bytes of that very request, with that very status block. -/
theorem limit_writes_through (parameters : Parameters) (cfg : Config) (as : List Action) (s : State)
    (closed : parameters.queueItems ≤ 0 ∨ parameters.queueSize ≤ 0)
    (run : Run State.step anyStep (.initial (parameters.device cfg)) as s) :
    (∀ item ∈ s.shared.history.inserted, item.isLazy = false) ∧
      ∀ (i : ℕ) (c : Call) (completion : Completion), s.calls[i]? = some c → c.irp.stack.needsDevice = true →
        completion ∈ c.completions → ntSuccess completion.status = true →
        s.Serves i c.irp ⟨completion.status, completion.information⟩ := by
  have through : WritesThrough (parameters.device cfg) s := writesThrough_of_run closed run
  refine ⟨through.inserted, fun i c completion present needs member success => ?_⟩
  refine ⟨_, ((answered_of_run run).backed present needs member success ?_).2, rfl, .ofIrp _ _⟩
  intro site
  have lazily := through.inserted _ (((wf_of_run run).recorded i c present).completed completion member site)
  rw [lazyItem_isLazy] at lazily
  contradiction

/-- `MaxQueueItems` is a `REG_DWORD` of zero. -/
def noItems : Parameters where
  maxQueueItems := some [0, 0, 0, 0]

/-- A write is held in the queue until the lower device has taken it. -/
def writeHeld : List Action :=
  [.receive (writeSector0 7)] ++ callSteps 0 9 ++ workerSteps 2 ++
    [.workerTransfer 0, .workerLowerComplete ⟨STATUS_SUCCESS, 512⟩] ++ workerSteps 1

theorem limit_writes_through_writeHeld :
    ∃ s c, Run State.step anyStep (.initial (noItems.device smallDevice)) writeHeld s ∧
    s.calls[0]? = some c ∧ c.completions = [⟨.worker, STATUS_SUCCESS, 512⟩] ∧
    s.Serves 0 c.irp ⟨STATUS_SUCCESS, 512⟩ := by
  have run := run_of_replay (noItems.device smallDevice) writeHeld (by decide +kernel)
  have present := State.call_after
    (show ((State.after (noItems.device smallDevice) writeHeld).calls[0]?).isSome by decide +kernel)
  have answer : (((State.after (noItems.device smallDevice) writeHeld).calls[0]?).get (by decide +kernel)).completions =
      [⟨.worker, STATUS_SUCCESS, 512⟩] := by decide +kernel
  have through := (limit_writes_through noItems smallDevice _ _ (.inl (by decide +kernel)) run).2 0 _
    ⟨.worker, STATUS_SUCCESS, 512⟩ present (by decide +kernel)
      (by rw [answer]; exact List.mem_singleton.mpr rfl) (by decide)
  exact ⟨_, _, run, present, answer, through⟩

end QueueCache
