import QueueCache.ToMathlib.Turnstile
import QueueCache.Proofs.AtRest
import QueueCache.Proofs.FilterRemoval
import QueueCache.Proofs.FilterWork

/-! # A filter at rest

The waits of the filter's calls are those for the two mutexes, the two events, the lower driver and the
remove lock. The first four are handed on by whoever has them, so in a filter at rest nobody waits for them:
every call has returned but for a removal that waits for a hold that was lost.
-/

namespace QueueCache

open Transition List

/-- Where `QCacheDeviceUsageNotification` is with its mutex and its event. -/
def UsageCall.stage (call : UsageCall) : Stage :=
  match call.pc with
  | .entry | .sendToNextDriver | .completeRequest | .returned => .away
  | .acquireMutex => .queueing
  | .waitEvent => .waiting
  | .releaseMutex => .admitted
  | _ => .inside

def FilterCall.usageStage (c : FilterCall) : Stage :=
  match c.pc with
  | .deviceUsageNotification call => call.stage
  | _ => .away

theorem UsageCall.forwarded_stage (path : PagingPath) (call : UsageCall) (status : NtStatus) :
    Stage.Move .inside path.pagingPathCountMutex path.pagingPathCountEvent (call.forwarded path status).2.stage
      (call.forwarded path status).1.pagingPathCountMutex (call.forwarded path status).1.pagingPathCountEvent := by
  unfold UsageCall.forwarded PagingPath.record
  cases ntSuccess status <;> cases call.notification.inPath <;> exact .stay _ _ _

/-- The step of a notification at its turnstile. -/
theorem usageStep_stage {path path' : PagingPath} {call call' : UsageCall} {lower : NtStatus}
    (moved : usageStep path call lower = some (path', call')) :
    Stage.Move call.stage path.pagingPathCountMutex path.pagingPathCountEvent call'.stage path'.pagingPathCountMutex
      path'.pagingPathCountEvent := by
  unfold usageStep at moved
  unfold UsageCall.stage
  cases at_ : call.pc <;> rw [at_] at moved <;> dsimp only at moved ⊢
  case entry =>
    split at moved
    · cases moved
      exact .queue _ _
    · cases moved
      exact .stay _ _ _
  case acquireMutex =>
    split at moved
    · contradiction
    · next free =>
      cases moved
      simp only [Bool.not_eq_true] at free
      exact free ▸ .lock _
  case waitEvent =>
    split at moved
    · next signalled =>
      cases moved
      exact signalled ▸ .enter _
    · contradiction
  case releaseMutex =>
    cases moved
    exact .unlock _ _
  case callDriver =>
    split at moved
    · cases moved
      exact .stay _ _ _
    · obtain ⟨rfl, rfl⟩ := Prod.ext_iff.mp (Option.some.inj moved)
      exact call.forwarded_stage path lower
  case waitLower =>
    obtain ⟨rfl, rfl⟩ := Prod.ext_iff.mp (Option.some.inj moved)
    exact call.forwarded_stage path lower
  case setEvent =>
    cases moved
    exact .signal _ _
  case returned => contradiction
  all_goals first
    | (split at moved <;> (cases moved; exact .stay _ _ _))
    | (cases moved; exact .stay _ _ _)

/-- The books of `PagingPathCountMutex` and `PagingPathCountEvent`. -/
def PathTurnstile (f : Filter) : Prop :=
  Turnstile FilterCall.usageStage f.path.pagingPathCountMutex f.path.pagingPathCountEvent f.calls

section Step

variable {f f' : Filter} {c c' : FilterCall} {d : Decision} {a : FilterAction}

theorem InitializeMove.path {pc pc' : InitializePc} (moved : InitializeMove f d pc f' pc') : f'.path = f.path := by
  cases moved <;> rfl

theorem PnpMinorFunction.routine_usageStage (c : FilterCall) (minorFunction : PnpMinorFunction) :
    (c.goto minorFunction.routine).usageStage = .away := by
  cases minorFunction <;> rfl

/-- A step of a call at the turnstile of the notifications. -/
theorem FilterMove.usageStage (moved : FilterMove f c d f' c') :
    Stage.Move c.usageStage f.path.pagingPathCountMutex f.path.pagingPathCountEvent c'.usageStage
      f'.path.pagingPathCountMutex f'.path.pagingPathCountEvent := by
  have stays {c c' : FilterCall} (here : c.usageStage = .away) (there : c'.usageStage = .away)
      (path : f'.path = f.path) : Stage.Move c.usageStage f.path.pagingPathCountMutex f.path.pagingPathCountEvent
        c'.usageStage f'.path.pagingPathCountMutex f'.path.pagingPathCountEvent := by
    rw [here, there, path]
    exact .stay _ _ _
  cases moved with
  | acquire at_ =>
    exact stays (by simp [FilterCall.usageStage, at_]) (PnpMinorFunction.routine_usageStage ..) rfl
  | startAnswered at_ => obtain at_ | at_ := at_ <;> exact stays (by simp [FilterCall.usageStage, at_]) rfl rfl
  | startTest at_ goes => obtain rfl | rfl := goes <;> exact stays (by simp [FilterCall.usageStage, at_]) rfl rfl
  | startSized at_ goes => obtain rfl | rfl := goes <;> exact stays (by simp [FilterCall.usageStage, at_]) rfl rfl
  | startInitialize at_ taken => exact stays (by simp [FilterCall.usageStage, at_]) rfl taken.path
  | attachInitialize at_ taken => exact stays (by simp [FilterCall.usageStage, at_]) rfl taken.path
  | sendDown at_ =>
    exact stays (by simp [FilterCall.usageStage, at_]) (by simp [FilterCall.usageStage, at_]) rfl
  | remove at_ => exact stays (by simp [FilterCall.usageStage, at_]) (by simp [FilterCall.usageStage, at_]) rfl
  | usage at_ taken =>
    have turned := usageStep_stage taken
    rw [FilterCall.usageStage, at_, FilterCall.usageStage, FilterCall.usage_pc]
    exact turned
  | usageReturned at_ done =>
    exact stays (by simp [FilterCall.usageStage, at_, UsageCall.stage, done]) rfl rfl
  | _ at_ => exact stays (by simp [FilterCall.usageStage, at_]) rfl rfl

theorem PathTurnstile.step (before : PathTurnstile f) (moved : f.step a = some f') : PathTurnstile f' := by
  cases filter_cases moved with
  | device => exact before
  | receive => exact Turnstile.join before rfl rfl
  | call present taken => exact Turnstile.move before present taken.usageStage

end Step

theorem pathTurnstile_of_run {cfg : Config} {inrush legacy : Bool} {as : List FilterAction} {f : Filter}
    (run : Run Filter.step anyStep (.initial cfg inrush legacy) as f) : PathTurnstile f := by
  apply run.preserves PathTurnstile ?_ fun _ _ _ before _ moved => before.step moved
  cases legacy with
  | false => exact Turnstile.start
  | true => exact Turnstile.start.join rfl rfl

/-- No step that must come to an end is possible. -/
def Filter.AtRest (f : Filter) : Prop := Transition.AtRest Filter.step (fun f a => f.internal a = true) f

section AtRest

variable {cfg : Config} {f : Filter} {c : FilterCall} {s : State}

theorem initializeStep_stuck {pc : InitializePc} (stuck : initializeStep f pc {} = none)
    (running : ∀ status, pc ≠ .returned status) :
    pc.stage.Stuck f.initializationMutex f.initializationEvent ∧ pc.stage ≠ .away := by
  cases pc with
  | acquireMutex =>
    exact ⟨by simpa [initializeStep, InitializePc.stage, Stage.Stuck] using stuck, by simp [InitializePc.stage]⟩
  | waitEvent =>
    exact ⟨by simpa [initializeStep, InitializePc.stage, Stage.Stuck] using stuck, by simp [InitializePc.stage]⟩
  | returned status => exact absurd rfl (running status)
  | _ => simp [initializeStep] at stuck

/-- A call inside `QCacheInitializeDevice` has no next step when that has none. -/
theorem filterStep_initializing {pc : InitializePc} (at_ : c.initializePc? = some pc)
    (stuck : filterStep f c {} = none) :
    initializeStep f pc {} = none ∧ ∀ status, pc ≠ .returned status := by
  have running : ∀ status, pc ≠ .returned status := by
    rintro status rfl
    unfold FilterCall.initializePc? at at_
    split at at_ <;> cases at_ <;> next here => simp [filterStep, here] at stuck
  refine ⟨?_, running⟩
  unfold FilterCall.initializePc? at at_
  split at at_ <;> cases at_
  all_goals
    next here => cases pc <;> first | exact absurd rfl (running _) | simpa [filterStep, here] using stuck

theorem usageStep_stuck {path : PagingPath} {call : UsageCall} {lower : NtStatus}
    (stuck : usageStep path call lower = none) (running : call.pc ≠ .returned) :
    call.stage.Stuck path.pagingPathCountMutex path.pagingPathCountEvent ∧ call.stage ≠ .away := by
  unfold usageStep at stuck
  unfold UsageCall.stage
  cases at_ : call.pc <;> rw [at_] at stuck <;> dsimp only at stuck ⊢
  case acquireMutex => exact ⟨by simpa [Stage.Stuck] using stuck, by simp⟩
  case waitEvent => exact ⟨by simpa [Stage.Stuck] using stuck, by simp⟩
  case returned => contradiction
  case callDriver => split at stuck <;> contradiction
  case cleanup => split at stuck <;> contradiction
  all_goals contradiction

/-- A call without a next step has returned, or it waits for a mutex or an event, or for the remover. -/
theorem filterStep_stuck (here : c.AtPc f.device.remover) (stuck : filterStep f c {} = none) :
    c.initializeStage.Stuck f.initializationMutex f.initializationEvent ∧
      c.usageStage.Stuck f.path.pagingPathCountMutex f.path.pagingPathCountEvent ∧
      (c.initializeStage = .away → c.usageStage = .away → (∃ status, c.pc = .returned status) ∨
        (c.pc = .removeDevice ∧ f.device.remover ≠ .deleted ∧ f.device.stepRemover = none)) := by
  have initializing (pc : InitializePc) (at_ : c.initializePc? = some pc) :
      pc.stage.Stuck f.initializationMutex f.initializationEvent ∧ pc.stage ≠ .away := by
    obtain ⟨blocked, running⟩ := filterStep_initializing at_ stuck
    exact initializeStep_stuck blocked running
  unfold FilterCall.AtPc at here
  unfold FilterCall.initializeStage FilterCall.initializePc? FilterCall.usageStage
  unfold filterStep at stuck
  cases at_ : c.pc with
  | acquireRemoveLock =>
    simp only [at_] at stuck here
    obtain ⟨-, notAttach, idle⟩ := here
    cases occasion : c.occasion with
    | attachLegacyDevice => exact absurd occasion notAttach
    | pnp minorFunction =>
      -- The lock is free or refused: a removal finds the remover idle.
      simp only [qcachePnp, occasion] at stuck
      split at stuck
      · contradiction
      · next kept =>
        split at stuck
        · next removal =>
          have idle : f.device.remover = .idle := idle (by rw [occasion, removal]; rfl)
          simp [State.stepRemover, idle, Shared.canAcquire, kept] at stuck
        · contradiction
  | startForward =>
    simp only [at_] at stuck
    split at stuck <;> contradiction
  | startInitialize status pc =>
    obtain ⟨waits, busy⟩ := initializing pc (by rw [FilterCall.initializePc?, at_])
    exact ⟨waits, trivial, fun away => absurd away busy⟩
  | attachInitialize pc =>
    obtain ⟨waits, busy⟩ := initializing pc (by rw [FilterCall.initializePc?, at_])
    exact ⟨waits, trivial, fun away => absurd away busy⟩
  | deviceUsageNotification call =>
    simp only [at_] at stuck
    split at stuck
    · contradiction
    · next running =>
      obtain ⟨waits, busy⟩ := usageStep_stuck (Option.map_eq_none_iff.mp stuck) running
      exact ⟨trivial, waits, fun _ away => absurd away busy⟩
  | removeDevice =>
    simp only [at_, qcacheRemoveDevice] at stuck
    split at stuck
    · contradiction
    · next sends => simp [State.stepRemover, sends] at stuck
    · next alive _ => exact ⟨trivial, trivial, fun _ _ => .inr ⟨rfl, alive, Option.map_eq_none_iff.mp stuck⟩⟩
  | returned status => exact ⟨trivial, trivial, fun _ _ => .inl ⟨status, rfl⟩⟩
  | _ => simp [at_] at stuck

theorem Filter.AtRest.stuck (rest : f.AtRest) (member : c ∈ f.calls) : filterStep f c {} = none := by
  obtain ⟨i, present⟩ := getElem?_of_mem member
  have none := rest (.call i {}) rfl
  simpa [Filter.step, present] using none

/-- A step of the device shown is a step of the filter, where the filter's calls hold no lock. -/
theorem Filter.AtRest.shows_atRest (rest : f.AtRest) (requests : Requests f) (shown : f.Shows s) (none : f.holds = 0) :
    s.AtRest := by
  intro a internal
  by_contra possible
  obtain ⟨s', moved⟩ := Option.ne_none_iff_exists'.mp possible
  rw [Filter.Shows, none] at shown
  obtain ⟨device, taken, -⟩ := exists_step_of_forget shown.symm moved fun _ _ => rfl
  have also : f.device.internal a = true := (State.internal_forget shown a).symm.trans internal
  cases own : a.taken with
  | false =>
    have stuck := rest (.device a) also
    simp [Filter.step, own, taken] at stuck
  | true =>
    cases a with
    | remover =>
      have begun : f.device.remover ≠ .idle := by simpa [State.internal] using also
      have alive : f.device.remover ≠ .deleted := by
        intro gone
        simp [State.step, State.stepRemover, gone] at taken
      obtain ⟨c, member, -, at_⟩ := requests.begun begun
      have stuck := rest.stuck member
      simp only [filterStep, at_ alive, qcacheRemoveDevice] at stuck
      have blocked : f.device.stepRemover = Option.none := by
        split at stuck
        · contradiction
        · exact Option.map_eq_none_iff.mp stuck
        · exact Option.map_eq_none_iff.mp stuck
      rw [State.step, blocked] at taken
      contradiction
    | initializeDevice => simp [State.internal] at internal
    | _ => contradiction

def FilterPc.isReturned : FilterPc → Bool
  | .returned _ => true
  | _ => false

/-- A filter to look at: every call has returned, and the device rests with no removal on its way. -/
theorem Filter.atRest {f : Filter} (calls : ∀ c ∈ f.calls, c.pc.isReturned = true) (device : f.device.AtRest) :
    f.AtRest := by
  intro a internal
  cases a with
  | device a =>
    cases own : a.taken with
    | false => simpa [Filter.step, own] using device a internal
    | true => simp [Filter.step, own]
  | receive => contradiction
  | call i d =>
    cases present : f.calls[i]? with
    | none => simp [Filter.step, present]
    | some c =>
      have returned := calls c (mem_of_getElem? present)
      cases at_ : c.pc with
      | returned status => simp [Filter.step, present, filterStep, at_]
      | _ => simp [at_, FilterPc.isReturned] at returned

end AtRest

/-- Every run of internal steps of the filter is no longer than the work left, and some run ends at rest. -/
theorem filter_activity_ends (cfg : Config) (inrush legacy : Bool) (as : List FilterAction) (f : Filter)
    (run : Run Filter.step anyStep (.initial cfg inrush legacy) as f) :
    (∀ bs g, Run Filter.step (fun f a => f.internal a = true) f bs g → bs.length ≤ f.work) ∧
      ∃ bs g, Run Filter.step (fun f a => f.internal a = true) f bs g ∧ g.AtRest := by
  have reached := inside_of_run run
  exact ⟨fun bs g more => more.length_le (decreases_filterWork cfg) reached,
    exists_atRest (decreases_filterWork cfg) reached⟩

theorem filter_activity_ends_startAndWrite :
    ∃ f, Run Filter.step anyStep (.initial freshDevice false false) startAndWrite f ∧
    f.work = 37 ∧ ∃ bs g, Run Filter.step (fun f a => f.internal a = true) f bs g ∧ g.AtRest := by
  have run := filter_of_replay freshDevice false startAndWrite (by decide +kernel)
  exact ⟨_, run, by decide +kernel, (filter_activity_ends freshDevice false false _ _ run).2⟩

/-- In a filter at rest both mutexes are free and both events signalled; every call has returned, or it is a removal
that waits for holds on the remove lock; and the device it shows is at rest. -/
theorem filter_rests (cfg : Config) (inrush legacy : Bool) (as : List FilterAction) (f : Filter)
    (run : Run Filter.step anyStep (.initial cfg inrush legacy) as f) (rest : f.AtRest) :
    f.initializationMutex = false ∧ f.initializationEvent = true ∧ f.path.pagingPathCountMutex = false ∧
      f.path.pagingPathCountEvent = true ∧
      (∀ c ∈ f.calls, (∃ status, c.pc = .returned status) ∨ (c.occasion = .pnp .removeDevice ∧
        f.device.remover = .waitHolds ∧ f.device.shared.extension.removeLock.ioCount ≠ 0)) ∧
      ∃ as s, Run State.step anyStep (.initial cfg) as s ∧ f.Shows s ∧ s.AtRest := by
  have requests := requests_of_run run
  have here {c : FilterCall} (member : c ∈ f.calls) : c.AtPc f.device.remover := by
    obtain ⟨i, present⟩ := getElem?_of_mem member
    exact requests.calls i c present
  obtain ⟨allAway, mutex, event⟩ := (initialization_of_run run).turnstile.away_of_stuck fun c member =>
    (filterStep_stuck (here member) (rest.stuck member)).1
  obtain ⟨alsoAway, pathMutex, pathEvent⟩ := Turnstile.away_of_stuck (pathTurnstile_of_run run) fun c member =>
    (filterStep_stuck (here member) (rest.stuck member)).2.1
  have ended {c : FilterCall} (member : c ∈ f.calls) :=
    (filterStep_stuck (here member) (rest.stuck member)).2.2 (allAway c member) (alsoAway c member)
  have none : f.holds = 0 := by
    rw [Filter.holds, Nat.cast_eq_zero, countP_eq_zero]
    intro c member
    obtain ⟨status, at_⟩ | ⟨at_, -⟩ := ended member <;> simp [FilterCall.holdsLock, at_]
  obtain ⟨s, inside⟩ := inside_of_run run
  obtain ⟨bs, reached⟩ := inside.reached
  have still := rest.shows_atRest requests inside.shows_ none
  refine ⟨mutex, event, pathMutex, pathEvent, fun c member => ?_, bs, s, reached, inside.shows_, still⟩
  obtain returned | ⟨at_, alive, -⟩ := ended member
  · exact .inl returned
  · right
    have removal := here member
    rw [FilterCall.AtPc, at_] at removal
    have count := inside.shows_.ioCount
    rw [none, sub_zero] at count
    rw [inside.shows_.remover] at alive removal ⊢
    rw [count]
    obtain idle | waits | gone := still.remover_of_run reached
    · exact absurd idle removal.2.1
    · exact ⟨removal.1, waits⟩
    · exact absurd gone alive

/-- The worker serves the write of a started device and comes to rest. -/
def startAndServe : List FilterAction := started ++ lazyWriteAtRest.map .device

theorem filter_rests_startAndServe : ∃ f, Run Filter.step anyStep (.initial freshDevice false false) startAndServe f ∧
    f.AtRest ∧ ∃ as s, Run State.step anyStep (.initial freshDevice) as s ∧ f.Shows s ∧ s.AtRest := by
  have run := filter_of_replay freshDevice false startAndServe (by decide +kernel)
  have rest : (Filter.after freshDevice false startAndServe).AtRest :=
    Filter.atRest (by decide +kernel) (State.atRest (by decide +kernel) (by decide +kernel) (.inl (by decide +kernel)))
  obtain ⟨-, -, -, -, -, shown⟩ := filter_rests freshDevice false false _ _ run rest
  exact ⟨_, run, rest, shown⟩

end QueueCache
