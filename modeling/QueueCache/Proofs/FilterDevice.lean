import QueueCache.ToMathlib.Simulation
import QueueCache.Proofs.Forget
import QueueCache.Proofs.Initialize
import QueueCache.Proofs.Lifetime

/-! # The device inside the filter

The calls of the filter reach the device in three ways: they hold its remove lock, the removal steps its
remover, and a query stores its size. So a run of the filter shows a run of the device, with the calls'
holds taken off the lock, and what holds of every run of the device holds inside the filter.
-/

namespace QueueCache

open Transition

/-- The call holds the remove lock; the removal's hold is the remover's. -/
def FilterCall.holdsLock (c : FilterCall) : Bool :=
  match c.pc with
  | .acquireRemoveLock | .refuse | .removeDevice | .attachInitialize _ | .returned _ => false
  | _ => true

def Filter.holds (f : Filter) : ℤ := f.calls.countP FilterCall.holdsLock

/-- The device seen from outside: without the holds of the filter's calls, and but for the last error and the
paging path count, which nobody reads. -/
def Filter.Shows (f : Filter) (s : State) : Prop := f.device.forget f.holds = s.forget 0

namespace Filter.Shows

variable {f : Filter} {s : State}

theorem remover (shown : f.Shows s) : f.device.remover = s.remover := by
  have same := congrArg State.remover shown
  exact same

theorem removed (shown : f.Shows s) :
    f.device.shared.extension.removeLock.removed = s.shared.extension.removeLock.removed := by
  have same := congrArg (fun t : State => t.shared.extension.removeLock.removed) shown
  exact same

theorem ioCount (shown : f.Shows s) :
    f.device.shared.extension.removeLock.ioCount - f.holds = s.shared.extension.removeLock.ioCount := by
  have same := congrArg (fun t : State => t.shared.extension.removeLock.ioCount) shown
  change _ - f.holds = s.shared.extension.removeLock.ioCount - 0 at same
  rwa [sub_zero] at same

theorem queue (shown : f.Shows s) : f.device.shared.queue = s.shared.queue := by
  have same := congrArg (fun t : State => t.shared.queue) shown
  exact same

theorem calls (shown : f.Shows s) : f.device.calls.map Call.forget = s.calls.map Call.forget := by
  have same := congrArg State.calls shown
  exact same

end Filter.Shows

/-- What the next step of the call does to the device. -/
def FilterCall.deviceActions (f : Filter) (c : FilterCall) : List Action :=
  match c.pc with
  | .acquireRemoveLock =>
    if c.occasion.isRemoval && !f.device.shared.extension.removeLock.removed then [.remover] else []
  | .removeDevice => if f.device.remover = .deleted then [] else [.remover]
  | .startInitialize _ (.storeSize length) => [.initializeDevice length]
  | .attachInitialize (.storeSize length) => [.initializeDevice length]
  | _ => []

/-- What a step of the filter does to the device. -/
def Filter.deviceActions (f : Filter) : FilterAction → List Action
  | .device a => [a]
  | .receive _ => []
  | .call i _ => (f.calls[i]?).elim [] (FilterCall.deviceActions f)

/-- What the filter reaches is what the device shows, and the device can be reached. -/
structure Inside (cfg : Config) (f : Filter) (s : State) : Prop where
  initialization : Initialization cfg f
  shows_ : f.Shows s
  reached : ∃ as, Run State.step anyStep (.initial cfg) as s

section Step

variable {cfg : Config} {f f' : Filter} {s s' : State} {c c' : FilterCall} {d : Decision} {i : ℕ}

/-- A step of the device is a step of what it shows. -/
theorem exists_step_of_forget {device device' : State} {holds : ℤ} {a : Action}
    (shown : device.forget holds = s.forget 0) (moved : device.step a = some device')
    (waitsNot : a = .remover → device.remover = .waitHolds → holds = 0) :
    ∃ s', s.step a = some s' ∧ device'.forget holds = s'.forget 0 := by
  have forward := State.step_forget holds device waitsNot
  rw [shown, State.step_forget 0 s fun _ _ => rfl, moved, Option.map_some] at forward
  obtain ⟨s', taken, same⟩ := Option.map_eq_some_iff.mp forward
  exact ⟨s', taken, same.symm⟩

theorem ioCount_nonneg {as : List Action} (run : Run State.step anyStep (.initial cfg) as s) :
    0 ≤ s.shared.extension.removeLock.ioCount := (surplus_nonneg_of_run run).trans s.surplus_le

/-- A removal that gets past its wait has waited for the filter's calls too. -/
theorem Inside.holds_eq_zero (inside : Inside cfg f s) {device : State} (moved : f.device.stepRemover = some device)
    (waits : f.device.remover = .waitHolds) : f.holds = 0 := by
  obtain ⟨as, run⟩ := inside.reached
  have nonneg := ioCount_nonneg run
  have shown := inside.shows_.ioCount
  have zero : f.device.shared.extension.removeLock.ioCount = 0 := by
    simp only [State.stepRemover, waits] at moved
    split at moved
    · assumption
    · contradiction
  have count : 0 ≤ f.holds := Int.natCast_nonneg _
  omega

/-- The device steps inside the filter, whose calls keep their holds. -/
theorem Inside.take (inside : Inside cfg f s) {a : Action} {device : State} (moved : f.device.step a = some device)
    (waitsNot : a = .remover → f.device.remover = .waitHolds → f.holds = 0) :
    ∃ s', Run State.step anyStep s [a] s' ∧ device.forget f.holds = s'.forget 0 ∧
      ∃ as, Run State.step anyStep (.initial cfg) as s' := by
  obtain ⟨s', taken, same⟩ := exists_step_of_forget inside.shows_ moved waitsNot
  obtain ⟨as, run⟩ := inside.reached
  exact ⟨s', .single trivial taken, same, _, .snoc run trivial taken⟩

theorem Filter.holds_set (present : f.calls[i]? = some c) (c' : FilterCall) :
    ((f.calls.set i c').countP FilterCall.holdsLock : ℤ) = f.holds - c.holdsLock.toNat + c'.holdsLock.toNat := by
  rw [Filter.holds, ← List.tally_toNat, ← List.tally_toNat, List.tally_set present]

/-- What a call's step is to the device: nothing but a hold of the call's own, or a step of the device. -/
inductive DeviceMove (f f' : Filter) (c c' : FilterCall) : Prop
  | quiet (nothing : c.deviceActions f = [])
      (same : f'.device.forget (f.holds - c.holdsLock.toNat + c'.holdsLock.toNat) =
        f.device.forget f.holds)
  | step {a : Action} {device : State} (one : c.deviceActions f = [a]) (taken : f.device.step a = some device)
      (same : f'.device.forget f.holds = device.forget f.holds) (keeps : c'.holdsLock = c.holdsLock)

/-- A step that leaves the device and the call's hold as they are. -/
theorem DeviceMove.idle (nothing : c.deviceActions f = [])
    (same : ∀ holds, f'.device.forget holds = f.device.forget holds) (keeps : c'.holdsLock = c.holdsLock) :
    DeviceMove f f' c c' := by
  refine .quiet nothing ?_
  rw [keeps, sub_add_cancel, same]

/-- A query that stores its length stores the first that is known. -/
theorem InitializeMove.deviceMove {pc pc' : InitializePc} (moved : InitializeMove f d pc f' pc')
    (serves : ∀ length, pc = .storeSize length → f.statistics.size = 0 ∧ -2 ^ 63 ≤ length ∧ length < 2 ^ 63)
    (actions : c.deviceActions f = match pc with | .storeSize length => [.initializeDevice length] | _ => [])
    (keeps : c'.holdsLock = c.holdsLock) : DeviceMove f f' c c' := by
  cases moved with
  | @storeSize length =>
    obtain ⟨unknown, low, high⟩ := serves length rfl
    have taken : f.device.step (.initializeDevice length) = some { f.device with
        shared := f.device.shared.withStatistics
          { f.device.shared.statistics with size := length, lastErrorCode := STATUS_SUCCESS } } :=
      if_pos ⟨unknown, low, high⟩
    exact .step actions taken rfl keeps
  | succeeded at_ => obtain rfl | rfl := at_ <;> exact .idle actions (fun _ => rfl) keeps
  | failed at_ => obtain rfl | rfl := at_ <;> exact .idle actions (fun _ => rfl) keeps
  | _ => exact .idle actions (fun _ => rfl) keeps

theorem Initialization.storing (initialization : Initialization cfg f) (present : f.calls[i]? = some c) {length : ℤ}
    (at_ : c.initializePc? = some (.storeSize length)) :
    f.statistics.size = 0 ∧ -2 ^ 63 ≤ length ∧ length < 2 ^ 63 := by
  have within : c.initializing = true := by
    rw [FilterCall.initializing, FilterCall.initializeStage, at_]
    rfl
  exact (initialization.size.served i c present within _ at_).2

theorem PnpMinorFunction.routine_holdsLock {minorFunction : PnpMinorFunction} (other : minorFunction ≠ .removeDevice)
    (c : FilterCall) : (c.goto minorFunction.routine).holdsLock = true := by
  cases minorFunction <;> first | rfl | contradiction

theorem FilterCall.usage_holdsLock (c : FilterCall) (call call' : UsageCall) :
    (c.usage call call').holdsLock = true := by
  rw [FilterCall.holdsLock, FilterCall.usage_pc]

theorem FilterMove.deviceMove (moved : FilterMove f c d f' c') (initialization : Initialization cfg f)
    (present : f.calls[i]? = some c) : DeviceMove f f' c c' := by
  have acquired (sh : Shared) (holds : ℤ) : sh.ioAcquireRemoveLock.forget (holds + 1) = sh.forget holds := by
    simp only [Shared.forget, Shared.ioAcquireRemoveLock, Shared.statistics_mk, add_sub_add_right_eq_sub]
  have released (sh : Shared) (holds : ℤ) : sh.ioReleaseRemoveLock.forget (holds - 1) = sh.forget holds := by
    simp only [Shared.forget, Shared.ioReleaseRemoveLock, Shared.statistics_mk, sub_sub_sub_cancel_right]
  cases moved with
  | refused at_ pnp removed =>
    refine .idle ?_ (fun _ => rfl) (by simp [FilterCall.holdsLock, at_])
    simp [FilterCall.deviceActions, at_, removed]
  | acquireRemoval at_ pnp kept taken =>
    refine .step (a := .remover) ?_ taken rfl (by simp [FilterCall.holdsLock, at_])
    simp [FilterCall.deviceActions, at_, pnp, Occasion.isRemoval, kept]
  | @acquire minorFunction at_ pnp other kept =>
    refine .quiet ?_ ?_
    · have notRemoval : c.occasion.isRemoval = false := by
        rw [pnp]
        cases minorFunction <;> first | rfl | contradiction
      simp [FilterCall.deviceActions, at_, notRemoval]
    · have free : c.holdsLock = false := by simp [FilterCall.holdsLock, at_]
      rw [free, PnpMinorFunction.routine_holdsLock other, Bool.toNat_false, Bool.toNat_true, Nat.cast_zero, sub_zero]
      exact congrArg (fun sh => { f.device.forget f.holds with shared := sh }) (acquired f.device.shared f.holds)
  | releaseRemoveLock at_ =>
    refine .quiet (by simp [FilterCall.deviceActions, at_]) ?_
    have held : c.holdsLock = true := by simp [FilterCall.holdsLock, at_]
    have free {status : NtStatus} : (c.goto (.returned status)).holdsLock = false := rfl
    rw [held, free, Bool.toNat_false, Bool.toNat_true, Nat.cast_zero, add_zero]
    exact congrArg (fun sh => { f.device.forget f.holds with shared := sh }) (released f.device.shared f.holds)
  | startAnswered at_ =>
    obtain at_ | at_ := at_ <;>
      exact .idle (by simp [FilterCall.deviceActions, at_]) (fun _ => rfl) (by simp [FilterCall.holdsLock, at_])
  | startTest at_ goes =>
    refine .idle (by simp [FilterCall.deviceActions, at_]) (fun _ => rfl) ?_
    obtain rfl | rfl := goes <;> simp [FilterCall.holdsLock, at_]
  | startSized at_ goes =>
    refine .idle (by simp [FilterCall.deviceActions, at_]) (fun _ => rfl) ?_
    obtain rfl | rfl := goes <;> simp [FilterCall.holdsLock, at_]
  | @startInitialize status pc pc' f' at_ taken =>
    refine taken.deviceMove (fun length same => ?_) ?_ (by simp [FilterCall.holdsLock, at_])
    · exact initialization.storing present (by rw [FilterCall.initializePc?, at_, same])
    · rw [FilterCall.deviceActions, at_]
      cases pc <;> rfl
  | @attachInitialize pc pc' f' at_ taken =>
    refine taken.deviceMove (fun length same => ?_) ?_ (by simp [FilterCall.holdsLock, at_])
    · exact initialization.storing present (by rw [FilterCall.initializePc?, at_, same])
    · rw [FilterCall.deviceActions, at_]
      cases pc <;> rfl
  | deleted at_ gone =>
    exact .idle (by simp [FilterCall.deviceActions, at_, gone]) (fun _ => rfl) (by simp [FilterCall.holdsLock, at_])
  | sendDown at_ sends taken =>
    refine .step (a := .remover) ?_ taken rfl (by simp [FilterCall.holdsLock, at_])
    simp [FilterCall.deviceActions, at_, sends]
  | remove at_ _ taken =>
    refine .step (a := .remover) ?_ taken rfl rfl
    have alive : f.device.remover ≠ .deleted := by
      intro gone
      simp [State.stepRemover, gone] at taken
    simp [FilterCall.deviceActions, at_, alive]
  | usage at_ taken =>
    refine .idle (by simp [FilterCall.deviceActions, at_]) (fun _ => rfl) ?_
    rw [FilterCall.usage_holdsLock]
    simp [FilterCall.holdsLock, at_]
  | _ at_ => exact .idle (by simp [FilterCall.deviceActions, at_]) (fun _ => rfl) (by simp [FilterCall.holdsLock, at_])

/-- Every step of the filter shows what it does to the device. -/
theorem simulates_device (cfg : Config) :
    Simulates Filter.step anyStep State.step anyStep Filter.deviceActions (Inside cfg) := by
  intro f a f' s inside _ moved
  have next := inside.initialization.step moved
  cases filter_cases moved with
  | @device a device own taken =>
    obtain ⟨s', run, same, reached⟩ := inside.take taken fun removes => by rw [removes] at own; contradiction
    exact ⟨s', run, next, same, reached⟩
  | receive =>
    refine ⟨s, .nil s, next, ?_, inside.reached⟩
    have holds : ∀ m, (f.calls ++ [FilterCall.receive m]).countP FilterCall.holdsLock =
        f.calls.countP FilterCall.holdsLock := by
      intro m
      rw [List.countP_append]
      rfl
    rw [Filter.Shows, Filter.holds, holds]
    exact inside.shows_
  | @call i c c' d f₁ present taken =>
    rw [Filter.deviceActions, present, Option.elim_some]
    have held := Filter.holds_set present c'
    cases taken.deviceMove inside.initialization present with
    | quiet nothing same =>
      rw [nothing]
      refine ⟨s, .nil s, next, ?_, inside.reached⟩
      change State.forget ((f.calls.set i c').countP FilterCall.holdsLock : ℤ) f₁.device = _
      rw [held]
      exact same.trans inside.shows_
    | @step a device one step same keeps =>
      rw [one]
      obtain ⟨s', run, shown, reached⟩ := inside.take step fun removes => by
        obtain rfl := removes
        exact inside.holds_eq_zero step
      refine ⟨s', run, next, ?_, reached⟩
      rw [keeps, sub_add_cancel] at held
      change State.forget ((f.calls.set i c').countP FilterCall.holdsLock : ℤ) f₁.device = _
      rw [held]
      exact same.trans shown

end Step

theorem inside_initial (cfg : Config) (inrush legacy : Bool) :
    Inside cfg (.initial cfg inrush legacy) (.initial cfg) where
  initialization := initialization_initial cfg inrush legacy
  shows_ := by
    have none : (Filter.initial cfg inrush legacy).holds = 0 := by cases legacy <;> rfl
    rw [Filter.Shows, none]
    rfl
  reached := ⟨[], .nil _⟩

/-- Every run of the filter shows a run of the device, along exactly the steps that reach the device: its clients,
its worker and their lower driver as they stepped, the remover for the removal and the size for a query. The
filter's device is the one shown, with the holds of the other calls on its remove lock. -/
theorem filter_shows_device (cfg : Config) (inrush legacy : Bool) (as : List FilterAction) (f : Filter)
    (run : Run Filter.step anyStep (.initial cfg inrush legacy) as f) :
    ∃ s, Run State.step anyStep (.initial cfg)
        (observed Filter.step Filter.deviceActions (.initial cfg inrush legacy) as) s ∧ f.Shows s := by
  obtain ⟨s, above, inside⟩ := run.simulated (simulates_device cfg) (inside_initial cfg inrush legacy)
  exact ⟨s, above, inside.shows_⟩

/-- The device is started, and the lower driver reports its size. -/
def started : List FilterAction :=
  [.receive .startDevice] ++ List.replicate 9 (.call 0 {}) ++ [.call 0 { information := length65536 }] ++
    List.replicate 6 (.call 0 {})

/-- A started device takes a write. -/
def startAndWrite : List FilterAction := started ++ lazyWrite.map .device

theorem filter_shows_device_startAndWrite :
    ∃ f s, Run Filter.step anyStep (.initial freshDevice false false) startAndWrite f ∧
    f.device.shared.queue.length = 1 ∧
    Run State.step anyStep (.initial freshDevice) (.initializeDevice 65536 :: lazyWrite) s ∧ f.Shows s := by
  have run := filter_of_replay freshDevice false startAndWrite (by decide +kernel)
  have seen : observed Filter.step Filter.deviceActions (.initial freshDevice false false) startAndWrite =
      .initializeDevice 65536 :: lazyWrite := rfl
  obtain ⟨s, above, shown⟩ := filter_shows_device freshDevice false false _ _ run
  exact ⟨_, s, run, by decide +kernel, seen ▸ above, shown⟩

end QueueCache
