import QueueCache.Proofs.FilterDevice

/-! # What becomes of a PnP request

Each call knows what has been done to its request at each of its program points, whatever the others do:
refused, completed with the status the lower driver gave it back with, or handed to the lower driver, and
nothing before that. The removal is at the device's remover all the while.
-/

namespace QueueCache

open Transition

/-- `QCachePnp` completes the request itself once the lower driver has given it back. -/
def Occasion.completes : Occasion → Bool
  | .pnp .startDevice => true
  | .pnp (.deviceUsageNotification notification) => notification.counted
  | _ => false

namespace FilterCall

/-- Nothing has happened to the request. -/
def Untouched (c : FilterCall) : Prop := c.completions = [] ∧ c.forwards = 0 ∧ c.lowerStatus = none

/-- The lower driver has given the request back, and nothing else has happened to it. -/
def GivenBack (c : FilterCall) (status : NtStatus) : Prop :=
  c.completions = [] ∧ c.forwards = 0 ∧ c.lowerStatus = some status

/-- What has happened to the request when the call returns the status. -/
inductive Answered (c : FilterCall) (status : NtStatus) : Prop
  | refused (denied : status = STATUS_DELETE_PENDING) (completions : c.completions = [STATUS_DELETE_PENDING])
      (forwards : c.forwards = 0) (lowerStatus : c.lowerStatus = none)
  | completed (completes : c.occasion.completes = true) (completions : c.completions = [status])
      (forwards : c.forwards = 0) (lowerStatus : c.lowerStatus = some status)
  | forwarded (gives : c.occasion.completes = false) (completions : c.completions = []) (forwards : c.forwards = 1)
      (lowerStatus : c.lowerStatus = none)
  | attached (attach : c.occasion = .attachLegacyDevice) (untouched : c.Untouched)

/-- Where the call goes does not matter. -/
theorem Answered.of_goto {c : FilterCall} {status : NtStatus} (answered : c.Answered status) {pc : FilterPc} :
    (c.goto pc).Answered status := by
  cases answered with
  | refused denied completions forwards lowerStatus => exact .refused denied completions forwards lowerStatus
  | completed completes completions forwards lowerStatus => exact .completed completes completions forwards lowerStatus
  | forwarded gives completions forwards lowerStatus => exact .forwarded gives completions forwards lowerStatus
  | attached attach untouched => exact .attached attach untouched

/-- What `QCacheDeviceUsageNotification` has done to the request. -/
def UsageAt (c : FilterCall) (call : UsageCall) : Prop :=
  match call.pc with
  | .entry => c.Untouched
  | .sendToNextDriver => c.Untouched ∧ call.notification.counted = false
  | .acquireMutex | .waitEvent | .releaseMutex | .testLast | .testInrush | .setPagable | .callDriver | .waitLower =>
    c.Untouched ∧ call.notification.counted = true
  | .adjustCount | .testFirst | .clearPagable | .cleanup | .setEvent | .completeRequest =>
    c.GivenBack call.status ∧ call.notification.counted = true
  | .returned => c.Answered call.status

end FilterCall

/-- `QCacheSendToNextDriver` has been called for the removal. -/
def RemoverPc.sentDown : RemoverPc → Bool
  | .releaseLock | .waitHolds | .detach | .deleted => true
  | _ => false

/-- What the call knows of its request, given how far the remover is. -/
def FilterCall.AtPc (remover : RemoverPc) (c : FilterCall) : Prop :=
  match c.pc with
  | .acquireRemoveLock =>
    c.Untouched ∧ c.occasion ≠ .attachLegacyDevice ∧ (c.occasion.isRemoval = true → remover = .idle)
  | .refuse => c.Untouched
  | .startForward | .startWait => c.Untouched ∧ c.occasion = .pnp .startDevice
  | .startTestCached status | .startTestSize status | .startInitialize status _ | .startComplete status =>
    c.GivenBack status ∧ c.occasion = .pnp .startDevice
  | .removeDevice => c.occasion = .pnp .removeDevice ∧ remover ≠ .idle ∧ c.completions = [] ∧
      c.forwards = remover.sentDown.toNat ∧ c.lowerStatus = none
  | .deviceUsageNotification call => c.UsageAt call ∧ c.occasion = .pnp (.deviceUsageNotification call.notification)
  | .sendToNextDriver => c.Untouched ∧ c.occasion = .pnp .other
  | .releaseRemoveLock status => c.Answered status ∧ c.occasion.isRemoval = false
  | .attachInitialize _ => c.Untouched ∧ c.occasion = .attachLegacyDevice
  | .returned status => c.Answered status

section Step

variable {f f' : Filter} {c c' : FilterCall} {d : Decision} {path path' : PagingPath} {call call' : UsageCall}
  {lower : NtStatus}

theorem usageStep_notification (moved : usageStep path call lower = some (path', call')) :
    call'.notification = call.notification := by
  unfold usageStep at moved
  cases at_ : call.pc <;> rw [at_] at moved <;> dsimp only at moved
  all_goals first
    | contradiction
    | (cases moved; rfl)
    | (split at moved <;> first | contradiction | (cases moved; rfl))

/-- The lower driver has given the notification back. -/
theorem FilterCall.Untouched.forwarded (untouched : c.Untouched) (counted : call.notification.counted = true) :
    FilterCall.UsageAt
      (let c := { c with pc := .deviceUsageNotification (call.forwarded path lower).2 }
      if (call.forwarded path lower).2.pc = .waitLower then c else c.answer (call.forwarded path lower).2.status)
      (call.forwarded path lower).2 := by
  obtain ⟨completions, forwards, -⟩ := untouched
  unfold UsageCall.forwarded FilterCall.UsageAt
  cases ntSuccess lower <;> exact ⟨⟨completions, forwards, rfl⟩, counted⟩

/-- What a step of `QCacheDeviceUsageNotification` does to the request. -/
theorem FilterCall.UsageAt.step (here : c.UsageAt call)
    (occasion : c.occasion = .pnp (.deviceUsageNotification call.notification))
    (moved : usageStep path call lower = some (path', call')) : (c.usage call call').UsageAt call' := by
  unfold usageStep at moved
  unfold FilterCall.UsageAt at here
  unfold FilterCall.usage FilterCall.UsageAt
  cases at_ : call.pc <;> rw [at_] at moved here <;> dsimp only at moved here ⊢
  case entry =>
    cases moved
    cases counted : call.notification.counted
    · exact ⟨here, counted⟩
    · exact ⟨here, counted⟩
  case sendToNextDriver =>
    obtain ⟨⟨completions, forwards, lowerStatus⟩, uncounted⟩ := here
    cases moved
    exact .forwarded (by rw [← uncounted]; simp [occasion, Occasion.completes]) completions
      (by simp [forwards]) lowerStatus
  case acquireMutex =>
    split at moved <;> cases moved
    exact here
  case waitEvent =>
    split at moved <;> cases moved
    exact here
  case testLast =>
    split at moved <;> cases moved <;> exact here
  case testInrush =>
    split at moved <;> cases moved <;> exact here
  case callDriver =>
    split at moved
    · cases moved
      exact here
    · obtain ⟨-, rfl⟩ := Prod.ext_iff.mp (Option.some.inj moved)
      exact here.1.forwarded here.2
  case waitLower =>
    obtain ⟨-, rfl⟩ := Prod.ext_iff.mp (Option.some.inj moved)
    exact here.1.forwarded here.2
  case adjustCount =>
    split at moved <;> cases moved <;> exact here
  case testFirst =>
    split at moved <;> cases moved <;> exact here
  case cleanup =>
    split at moved <;> cases moved <;> exact here
  case completeRequest =>
    obtain ⟨⟨completions, forwards, lowerStatus⟩, counted⟩ := here
    cases moved
    exact .completed (by simpa [occasion, Occasion.completes] using counted) (by simp [completions, UsageCall.goto])
      forwards lowerStatus
  case returned => contradiction
  all_goals
    cases moved
    exact here

/-- The remover never goes back, and it sends the request down once. -/
theorem stepRemover_sentDown {s s' : State} (moved : s.stepRemover = some s') :
    s'.remover ≠ .idle ∧ s'.remover.sentDown = (s.remover.sentDown || s.remover = .sendDown) := by
  cases stepRemover_cases moved with
  | advance at_ => obtain ⟨at_, rfl⟩ | ⟨at_, rfl⟩ | ⟨at_, rfl⟩ := at_ <;> rw [at_] <;> exact ⟨by simp, rfl⟩
  | _ at_ => rw [at_]; exact ⟨by simp, rfl⟩

/-- A call that is not the removal does not look at the remover. -/
theorem FilterCall.AtPc.of_not_removal {remover : RemoverPc} (here : c.AtPc remover)
    (other : c.occasion.isRemoval = false) (remover' : RemoverPc) : c.AtPc remover' := by
  unfold FilterCall.AtPc at here ⊢
  cases at_ : c.pc <;> rw [at_] at here <;> dsimp only at here ⊢
  case acquireRemoveLock => exact ⟨here.1, here.2.1, by simp [other]⟩
  case removeDevice =>
    rw [here.1] at other
    contradiction
  all_goals exact here

theorem FilterMove.occasion (moved : FilterMove f c d f' c') : c'.occasion = c.occasion := by
  cases moved with
  | usage => exact FilterCall.usage_occasion ..
  | _ => rfl

/-- Only the removal steps the remover, and it ends with it. -/
theorem FilterMove.remover (moved : FilterMove f c d f' c') :
    (f'.device.remover = f.device.remover ∧ (c.pc = .removeDevice → f.device.remover = .deleted)) ∨
      (c.occasion.isRemoval = true ∨ c.pc = .removeDevice) ∧ c'.pc = .removeDevice ∧ f'.device.remover ≠ .idle := by
  cases moved with
  | acquireRemoval _ pnp _ taken => exact .inr ⟨.inl (by rw [pnp]; rfl), rfl, (stepRemover_sentDown taken).1⟩
  | sendDown at_ _ taken => exact .inr ⟨.inr at_, at_, (stepRemover_sentDown taken).1⟩
  | remove at_ _ taken => exact .inr ⟨.inr at_, at_, (stepRemover_sentDown taken).1⟩
  | deleted _ gone => exact .inl ⟨rfl, fun _ => gone⟩
  | startInitialize at_ taken => exact .inl ⟨taken.frame.1, by simp [at_]⟩
  | attachInitialize at_ taken => exact .inl ⟨taken.frame.1, by simp [at_]⟩
  | startAnswered at_ => obtain at_ | at_ := at_ <;> exact .inl ⟨rfl, by simp [at_]⟩
  | _ at_ => exact .inl ⟨rfl, by simp [at_]⟩

theorem FilterCall.AtPc.step (here : c.AtPc f.device.remover) (moved : FilterMove f c d f' c') :
    c'.AtPc f'.device.remover := by
  unfold FilterCall.AtPc at here ⊢
  cases moved with
  | refused at_ =>
    rw [at_] at here
    exact here.1
  | acquireRemoval at_ pnp kept taken =>
    rw [at_] at here
    obtain ⟨⟨completions, forwards, lowerStatus⟩, -, idle⟩ := here
    have idle : f.device.remover = .idle := idle (by rw [pnp]; rfl)
    obtain ⟨left, sent⟩ := stepRemover_sentDown taken
    refine ⟨pnp, left, completions, ?_, lowerStatus⟩
    rw [sent, idle]
    exact forwards
  | @acquire minorFunction at_ pnp other =>
    rw [at_] at here
    cases minorFunction with
    | startDevice => exact ⟨here.1, pnp⟩
    | removeDevice => contradiction
    | deviceUsageNotification => exact ⟨here.1, pnp⟩
    | other => exact ⟨here.1, pnp⟩
  | refuse at_ =>
    rw [at_] at here
    obtain ⟨completions, forwards, lowerStatus⟩ := here
    exact .refused rfl (by simp [completions]) forwards lowerStatus
  | startPending at_ =>
    rw [at_] at here
    exact here
  | startAnswered at_ =>
    obtain at_ | at_ := at_ <;> rw [at_] at here <;> exact ⟨⟨here.1.1, here.1.2.1, rfl⟩, here.2⟩
  | startTest at_ goes =>
    rw [at_] at here
    obtain rfl | rfl := goes <;> exact here
  | startSized at_ goes =>
    rw [at_] at here
    obtain rfl | rfl := goes <;> exact here
  | startInitialize at_ taken =>
    rw [at_] at here
    exact here
  | startInitialized at_ =>
    rw [at_] at here
    exact here
  | startComplete at_ =>
    rw [at_] at here
    obtain ⟨⟨completions, forwards, lowerStatus⟩, pnp⟩ := here
    exact ⟨.completed (by simp [pnp, Occasion.completes]) (by simp [completions]) forwards lowerStatus,
      by simp [pnp, Occasion.isRemoval]⟩
  | deleted at_ gone =>
    rw [at_, gone] at here
    obtain ⟨pnp, -, completions, forwards, lowerStatus⟩ := here
    exact .forwarded (by simp [pnp, Occasion.completes]) completions forwards lowerStatus
  | sendDown at_ sends taken =>
    rw [at_, sends] at here
    obtain ⟨pnp, -, completions, forwards, lowerStatus⟩ := here
    obtain ⟨left, sent⟩ := stepRemover_sentDown taken
    simp only [FilterCall.forward, at_]
    exact ⟨pnp, left, completions, by rw [sent, sends, forwards]; rfl, lowerStatus⟩
  | remove at_ other taken =>
    rw [at_] at here
    obtain ⟨pnp, -, completions, forwards, lowerStatus⟩ := here
    obtain ⟨left, sent⟩ := stepRemover_sentDown taken
    rw [at_]
    exact ⟨pnp, left, completions, by rw [sent, forwards]; simp [other], lowerStatus⟩
  | @usage call call' path at_ taken =>
    rw [at_] at here
    obtain ⟨done, pnp⟩ := here
    rw [FilterCall.usage_pc]
    exact ⟨done.step pnp taken, by rw [FilterCall.usage_occasion, pnp, usageStep_notification taken]⟩
  | usageReturned at_ done =>
    rw [at_] at here
    obtain ⟨answered, pnp⟩ := here
    rw [FilterCall.UsageAt, done] at answered
    exact ⟨answered.of_goto, by simp [pnp, Occasion.isRemoval]⟩
  | sendToNextDriver at_ =>
    rw [at_] at here
    obtain ⟨⟨completions, forwards, lowerStatus⟩, pnp⟩ := here
    exact ⟨.forwarded (by simp [pnp, Occasion.completes]) completions (by simp [forwards]) lowerStatus,
      by simp [pnp, Occasion.isRemoval]⟩
  | releaseRemoveLock at_ =>
    rw [at_] at here
    exact here.1.of_goto
  | attachInitialize at_ taken =>
    rw [at_] at here
    exact here
  | attachInitialized at_ =>
    rw [at_] at here
    exact .attached here.2 here.1

end Step

/-- What the calls of a filter keep: each knows its request, there is at most one removal, and a removal that has
begun is at the remover until the device is deleted. -/
structure Requests (f : Filter) : Prop where
  calls : ∀ (i : ℕ) (c : FilterCall), f.calls[i]? = some c → c.AtPc f.device.remover
  single : f.calls.countP (fun c => c.occasion.isRemoval) ≤ 1
  begun : f.device.remover ≠ .idle → ∃ c, c ∈ f.calls ∧ c.occasion.isRemoval = true ∧
    (f.device.remover ≠ .deleted → c.pc = .removeDevice)

theorem requests_initial (cfg : Config) (inrush legacy : Bool) : Requests (.initial cfg inrush legacy) := by
  cases legacy with
  | false =>
    refine ⟨fun i c present => ?_, by simp [Filter.initial], fun begun => absurd rfl begun⟩
    simp [Filter.initial] at present
  | true =>
    refine ⟨fun i c present => ?_, by simp [Filter.initial, Occasion.isRemoval], fun begun => absurd rfl begun⟩
    obtain ⟨-, rfl⟩ : i = 0 ∧ _ := by
      cases i with
      | zero => exact ⟨rfl, (Option.some.inj present).symm⟩
      | succ i => simp [Filter.initial] at present
    exact ⟨⟨rfl, rfl, rfl⟩, rfl⟩

theorem remover_of_not_remover {s s' : State} {a : Action} (moved : s.step a = some s') (other : a ≠ .remover) :
    s'.remover = s.remover := by
  cases step_cases moved with
  | worker taken => cases taken <;> rfl
  | remover => exact absurd rfl other
  | _ => rfl

namespace Requests

variable {f f' : Filter} {a : FilterAction}

/-- The removal, if the call is at the remover or about to begin. -/
theorem isRemoval {remover : RemoverPc} {c : FilterCall} (here : c.AtPc remover)
    (removing : c.occasion.isRemoval = true ∨ c.pc = .removeDevice) : c.occasion.isRemoval = true := by
  obtain removal | at_ := removing
  · exact removal
  · unfold FilterCall.AtPc at here
    rw [at_] at here
    rw [here.1]
    rfl

theorem call_step (requests : Requests f) {i : ℕ} {c c' : FilterCall} {d : Decision} (present : f.calls[i]? = some c)
    (taken : FilterMove f c d f' c') : Requests { f' with calls := f.calls.set i c' } := by
  have here := requests.calls i c present
  have stepped : c'.AtPc f'.device.remover := here.step taken
  have member : c' ∈ f.calls.set i c' := List.mem_set (List.getElem?_eq_some_iff.mp present).1 c'
  have same : (f.calls.set i c').countP (fun c => c.occasion.isRemoval) =
      f.calls.countP (fun c => c.occasion.isRemoval) := by
    have counted := List.countP_set_add (p := fun c : FilterCall => c.occasion.isRemoval) present c'
    rw [taken.occasion] at counted
    omega
  have single := same ▸ requests.single
  obtain ⟨stays, leaves⟩ | ⟨removing, goes, begun⟩ := taken.remover
  · refine ⟨?_, single, ?_⟩
    · refine List.forall_getElem?_set stepped fun j other there => ?_
      exact stays ▸ requests.calls j other there
    · change f'.device.remover ≠ .idle → _
      rw [stays]
      intro begun
      obtain ⟨removal, old, isRemoval, at_⟩ := requests.begun begun
      obtain ⟨j, there⟩ := List.getElem?_of_mem old
      by_cases own : j = i
      · subst own
        obtain rfl : c = removal := Option.some.inj (present.symm.trans there)
        exact ⟨c', member, by rw [taken.occasion, isRemoval], fun alive => absurd (leaves (at_ alive)) alive⟩
      · exact ⟨removal, List.mem_of_getElem? ((List.getElem?_set_ne (Ne.symm own)).trans there), isRemoval, at_⟩
  · have removal := isRemoval here removing
    refine ⟨?_, single, fun _ => ⟨c', member, by rw [taken.occasion, removal], fun _ => goes⟩⟩
    refine List.forall_getElem?_set_of_ne stepped fun j other apart there => ?_
    refine (requests.calls j other there).of_not_removal ?_ _
    by_contra also
    exact apart (List.eq_of_countP_le_one requests.single there present (by simpa using also) removal)

theorem step (requests : Requests f) (moved : f.step a = some f') : Requests f' := by
  cases filter_cases moved with
  | device own taken =>
    have stays := remover_of_not_remover taken fun removes => by rw [removes] at own; contradiction
    refine ⟨?_, requests.single, ?_⟩
    · exact stays ▸ requests.calls
    · exact stays ▸ requests.begun
  | @receive minorFunction alive once =>
    have idle : minorFunction = .removeDevice → f.device.remover = .idle := by
      intro removal
      by_contra begun
      obtain ⟨c, member, isRemoval, -⟩ := requests.begun begun
      rw [once removal c member] at isRemoval
      contradiction
    refine ⟨?_, ?_, ?_⟩
    · refine List.forall_getElem?_snoc
        ⟨⟨rfl, rfl, rfl⟩, by simp [FilterCall.receive], fun removal => idle ?_⟩ requests.calls
      cases minorFunction <;> first | rfl | contradiction
    · rw [List.countP_append]
      by_cases removal : minorFunction = .removeDevice
      · have none : f.calls.countP (fun c => c.occasion.isRemoval) = 0 := by
          rw [List.countP_eq_zero]
          intro c member
          simp [once removal c member]
        rw [none, removal]
        rfl
      · have other : (FilterCall.receive minorFunction).occasion.isRemoval = false := by
          cases minorFunction <;> first | rfl | contradiction
        rw [List.countP_cons_of_neg (by simp [other]), List.countP_nil]
        exact requests.single
    · intro begun
      obtain ⟨c, member, rest⟩ := requests.begun begun
      exact ⟨c, List.mem_append_left _ member, rest⟩
  | call present taken => exact requests.call_step present taken

end Requests

theorem requests_of_run {cfg : Config} {inrush legacy : Bool} {as : List FilterAction} {f : Filter}
    (run : Run Filter.step anyStep (.initial cfg inrush legacy) as f) : Requests f :=
  run.preserves Requests (requests_initial cfg inrush legacy) fun _ _ _ requests _ moved => requests.step moved

theorem FilterCall.Answered.count_le {c : FilterCall} {status : NtStatus} (answered : c.Answered status) :
    c.completions.length + c.forwards ≤ 1 := by
  cases answered with
  | refused _ completions forwards => rw [completions, forwards]; rfl
  | completed _ completions forwards => rw [completions, forwards]; rfl
  | forwarded _ completions forwards => rw [completions, forwards]; rfl
  | attached _ untouched => rw [untouched.1, untouched.2.1]; exact Nat.zero_le 1

theorem FilterCall.Untouched.count_le {c : FilterCall} (untouched : c.Untouched) :
    c.completions.length + c.forwards ≤ 1 := by
  rw [untouched.1, untouched.2.1]
  exact Nat.zero_le 1

theorem FilterCall.GivenBack.count_le {c : FilterCall} {status : NtStatus} (given : c.GivenBack status) :
    c.completions.length + c.forwards ≤ 1 := by
  rw [given.1, given.2.1]
  exact Nat.zero_le 1

theorem FilterCall.AtPc.count_le {remover : RemoverPc} {c : FilterCall} (here : c.AtPc remover) :
    c.completions.length + c.forwards ≤ 1 := by
  unfold FilterCall.AtPc at here
  cases at_ : c.pc <;> rw [at_] at here <;> dsimp only at here
  case refuse => exact here.count_le
  case removeDevice =>
    rw [here.2.2.1, here.2.2.2.1]
    simpa using Bool.toNat_le _
  case deviceUsageNotification call =>
    obtain ⟨done, -⟩ := here
    unfold FilterCall.UsageAt at done
    cases at_ : call.pc <;> rw [at_] at done <;> dsimp only at done
    case entry => exact done.count_le
    case returned => exact done.count_le
    all_goals exact done.1.count_le
  case returned => exact here.count_le
  all_goals exact here.1.count_le

/-- No request is completed or handed to the lower driver twice, or both; and a call that has returned has refused
the request, completed it with the status the lower driver gave it back with, or handed it to the lower driver,
each where the minor function says so, with the status it returns. -/
theorem pnp_answered_once (cfg : Config) (inrush legacy : Bool) (as : List FilterAction) (f : Filter)
    (run : Run Filter.step anyStep (.initial cfg inrush legacy) as f) (i : ℕ) (c : FilterCall)
    (present : f.calls[i]? = some c) :
    c.completions.length + c.forwards ≤ 1 ∧ ∀ status, c.pc = .returned status → c.Answered status := by
  have here := (requests_of_run run).calls i c present
  refine ⟨here.count_le, fun status at_ => ?_⟩
  rw [FilterCall.AtPc, at_] at here
  exact here

/-- A paging file is taken into use. -/
def pagingAdded : PnpMinorFunction := .deviceUsageNotification { type := .paging, inPath := true }

/-- The lower driver fails a notification that it has kept for a while. -/
def notificationFails : List FilterAction :=
  [.receive pagingAdded] ++ List.replicate 6 (.call 0 {}) ++ [.call 0 { status := STATUS_PENDING },
    .call 0 { status := STATUS_INSUFFICIENT_RESOURCES }] ++ List.replicate 5 (.call 0 {})

theorem pnp_answered_once_fails :
    ∃ f c, Run Filter.step anyStep (.initial smallDevice false false) notificationFails f ∧
    f.calls[0]? = some c ∧ c.pc = .returned STATUS_INSUFFICIENT_RESOURCES ∧
    c.Answered STATUS_INSUFFICIENT_RESOURCES := by
  have run := filter_of_replay smallDevice false notificationFails (by decide +kernel)
  have present : (Filter.after smallDevice false notificationFails).calls[0]? = some
      ⟨.pnp pagingAdded, .returned STATUS_INSUFFICIENT_RESOURCES, STATUS_SUCCESS, [STATUS_INSUFFICIENT_RESOURCES], 0,
        some STATUS_INSUFFICIENT_RESOURCES⟩ := by decide +kernel
  exact ⟨_, _, run, present, rfl, (pnp_answered_once smallDevice false false _ _ run 0 _ present).2 _ rfl⟩

end QueueCache
