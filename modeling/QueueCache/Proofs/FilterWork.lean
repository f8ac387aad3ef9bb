import QueueCache.Proofs.FilterCalls
import QueueCache.Proofs.Work

/-! # What is left to do in the filter

The work of the filter is that of its device and the steps each of its calls has before it. No step of a
call adds to it: the device's part falls when the removal steps the remover, and the call's own otherwise.
-/

namespace QueueCache

open Transition

/-- The steps a notification has before it. -/
def UsagePc.work : UsagePc → ℕ
  | .entry => 15
  | .acquireMutex => 14
  | .waitEvent => 13
  | .releaseMutex => 12
  | .testLast => 11
  | .testInrush => 10
  | .setPagable => 9
  | .callDriver => 8
  | .waitLower => 7
  | .adjustCount => 6
  | .testFirst => 5
  | .clearPagable => 4
  | .cleanup => 4
  | .setEvent => 3
  | .completeRequest => 2
  | .sendToNextDriver => 1
  | .returned => 0

def InitializePc.work : InitializePc → ℕ
  | .acquireMutex => 10
  | .waitEvent => 9
  | .releaseMutex => 8
  | .testSize => 7
  | .allocateIrp => 6
  | .callDriver => 5
  | .waitLower => 4
  | .storeSize _ => 3
  | .storeError _ => 2
  | .storeSuccess => 2
  | .setEvent _ => 1
  | .returned _ => 0

/-- The steps a call has before it, but for those of the remover. -/
def FilterPc.work : FilterPc → ℕ
  | .acquireRemoveLock => 20
  | .refuse => 1
  | .startForward => 18
  | .startWait => 17
  | .startTestCached _ => 16
  | .startTestSize _ => 15
  | .startInitialize _ pc => 3 + pc.work
  | .startComplete _ => 2
  | .removeDevice => 1
  | .deviceUsageNotification call => 2 + call.pc.work
  | .sendToNextDriver => 2
  | .releaseRemoveLock _ => 1
  | .attachInitialize pc => 1 + pc.work
  | .returned _ => 0

def Filter.work (f : Filter) : ℤ := f.device.work + f.calls.tally fun c => c.pc.work

/-- The steps that must come to an end: those of the device and every step of a call. -/
def Filter.internal (f : Filter) : FilterAction → Bool
  | .device a => f.device.internal a
  | .receive _ => false
  | .call _ _ => true

theorem usageStep_work {path path' : PagingPath} {call call' : UsageCall} {lower : NtStatus}
    (moved : usageStep path call lower = some (path', call')) : call'.pc.work < call.pc.work := by
  have forwarded : (call.forwarded path lower).2.pc.work < 7 := by
    unfold UsageCall.forwarded
    cases ntSuccess lower <;> simp [UsagePc.work]
  unfold usageStep at moved
  cases at_ : call.pc <;> rw [at_] at moved <;> dsimp only at moved
  case callDriver =>
    split at moved
    · cases moved
      simp [UsagePc.work, UsageCall.goto]
    · obtain ⟨-, rfl⟩ := Prod.ext_iff.mp (Option.some.inj moved)
      exact forwarded.trans (by decide)
  case waitLower =>
    obtain ⟨-, rfl⟩ := Prod.ext_iff.mp (Option.some.inj moved)
    exact forwarded
  case returned => contradiction
  all_goals first
    | (split at moved <;> first | contradiction | (cases moved; simp [UsagePc.work, UsageCall.goto]))
    | (cases moved; simp [UsagePc.work, UsageCall.goto])

theorem InitializeMove.work_lt {f f' : Filter} {d : Decision} {pc pc' : InitializePc}
    (moved : InitializeMove f d pc f' pc') : pc'.work < pc.work := by
  cases moved with
  | succeeded at_ => obtain rfl | rfl := at_ <;> simp [InitializePc.work]
  | failed at_ => obtain rfl | rfl := at_ <;> simp [InitializePc.work]
  | _ => simp [InitializePc.work]

/-- What `forget` takes away is no work. -/
theorem State.work_forget (holds : ℤ) (s : State) : (s.forget holds).work = s.work := by
  have irps : (s.forget holds).irps = s.irps := by
    simp only [State.irps, State.forget, List.map_map]
    rfl
  have calls : (s.forget holds).calls.tally Call.work = s.calls.tally Call.work := by
    simp only [State.forget, List.tally, List.map_map]
    rfl
  rw [State.work, State.work, calls, State.headSectors, irps, State.headSectors]
  rfl

theorem InitializeMove.device_work {f f' : Filter} {d : Decision} {pc pc' : InitializePc}
    (moved : InitializeMove f d pc f' pc') : f'.device.work = f.device.work := by
  cases moved <;> rfl

theorem State.internal_forget {device s : State} {holds : ℤ} (shown : device.forget holds = s.forget 0) (a : Action) :
    s.internal a = device.internal a := by
  have remover : device.remover = s.remover := by
    have same := congrArg State.remover shown
    exact same
  cases a <;> simp [State.internal, remover]

section Step

variable {cfg : Config} {f f' : Filter} {s : State} {c c' : FilterCall} {d : Decision} {a : Action} {device : State}

/-- A step of the device does some of its work. -/
theorem Inside.work_lt (inside : Inside cfg f s) (moved : f.device.step a = some device)
    (internal : f.device.internal a = true) : device.work < f.device.work := by
  obtain ⟨as, run⟩ := inside.reached
  obtain ⟨s', taken, same⟩ := exists_step_of_forget inside.shows_ moved fun removes waits => by
    obtain rfl := removes
    exact inside.holds_eq_zero moved waits
  have less := (wf_of_run run).work_lt ((State.internal_forget inside.shows_ a).trans internal) taken
  rw [← State.work_forget 0 s, ← State.work_forget 0 s', ← inside.shows_, ← same, State.work_forget,
    State.work_forget] at less
  exact less

/-- The removal does some of the device's work when it steps the remover. -/
theorem Inside.removes_lt (inside : Inside cfg f s) (moved : f.device.stepRemover = some device) :
    device.work < f.device.work := by
  by_cases idle : f.device.remover = .idle
  · simp only [State.stepRemover, idle] at moved
    split at moved
    · obtain rfl := Option.some.inj moved
      rw [State.work, State.work, idle]
      exact Int.add_lt_add_left (by simp [RemoverPc.work]) _
    · contradiction
  · exact inside.work_lt (a := .remover) moved (by simp [State.internal, idle])

theorem FilterMove.work_lt (inside : Inside cfg f s) (moved : FilterMove f c d f' c') :
    f'.device.work + c'.pc.work < f.device.work + c.pc.work := by
  have moves {pc pc' : FilterPc} (less : pc'.work < pc.work) : f.device.work + pc'.work < f.device.work + pc.work := by
    omega
  cases moved with
  | acquireRemoval at_ _ _ taken =>
    have less := inside.removes_lt taken
    rw [at_]
    simp only [FilterCall.goto, FilterPc.work]
    omega
  | @acquire minorFunction at_ =>
    rw [at_]
    cases minorFunction <;> exact moves (by simp [PnpMinorFunction.routine, FilterPc.work, UsagePc.work])
  | startAnswered at_ => obtain at_ | at_ := at_ <;> rw [at_] <;> exact moves (by simp [FilterPc.work])
  | startTest at_ goes => obtain rfl | rfl := goes <;> rw [at_] <;> exact moves (by simp [FilterPc.work])
  | startSized at_ goes =>
    obtain rfl | rfl := goes <;> rw [at_] <;> exact moves (by simp [FilterPc.work, InitializePc.work])
  | startInitialize at_ taken =>
    have less := taken.work_lt
    rw [taken.device_work, at_]
    exact moves (by simp only [FilterCall.goto, FilterPc.work]; omega)
  | attachInitialize at_ taken =>
    have less := taken.work_lt
    rw [taken.device_work, at_]
    exact moves (by simp only [FilterCall.goto, FilterPc.work]; omega)
  | sendDown at_ _ taken => exact Int.add_lt_add_right (inside.removes_lt taken) _
  | remove at_ _ taken => exact Int.add_lt_add_right (inside.removes_lt taken) _
  | usage at_ taken =>
    have less := usageStep_work taken
    rw [FilterCall.usage_pc, at_]
    exact moves (by simp only [FilterPc.work]; omega)
  | usageReturned at_ =>
    rw [at_]
    exact moves (by simp only [FilterCall.goto, FilterPc.work]; omega)
  | _ at_ => rw [at_]; exact moves (by simp [FilterPc.work, InitializePc.work])

/-- What can be reached of the filter, as `Decreases` needs it. -/
def Filter.Reached (cfg : Config) (f : Filter) : Prop := ∃ s, Inside cfg f s

theorem decreases_filterWork (cfg : Config) :
    Decreases Filter.step (fun f a => f.internal a = true) (Filter.Reached cfg) Filter.work where
  kept f a f' reached _ moved := by
    obtain ⟨s, inside⟩ := reached
    obtain ⟨s', -, next⟩ := simulates_device cfg f a f' s inside trivial moved
    exact ⟨s', next⟩
  nonneg f reached := by
    have calls : 0 ≤ f.calls.tally fun c => (c.pc.work : ℤ) := List.tally_nonneg fun c _ => Int.natCast_nonneg _
    have device := f.device.work_nonneg
    rw [Filter.work]
    omega
  across f a f' reached internal moved := by
    obtain ⟨s, inside⟩ := reached
    cases filter_cases moved with
    | device own taken => exact Int.add_lt_add_right (inside.work_lt taken internal) _
    | receive => contradiction
    | @call i c c' d f₁ present taken =>
      have less := taken.work_lt inside
      change f₁.device.work + (f.calls.set i c').tally (fun c => (c.pc.work : ℤ)) < _
      rw [Filter.work, List.tally_set present]
      omega

end Step

end QueueCache
