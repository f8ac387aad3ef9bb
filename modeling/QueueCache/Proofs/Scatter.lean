import QueueCache.Proofs.Reads

/-! # The completion protocol of a scattered read

The scatter object of a read counts one reference for the splitting loop and one for each part in the
lower driver. What happens to the object is recorded as it can be seen from outside, in the order of the
run: which parts were built, how each of them ended, and when the loop gave its own reference up. The
object is gone exactly when all of these have been matched, and the status it completes the request with
is decided by the failures on record.
-/

namespace QueueCache

open Transition

/-- What a run shows of one scatter object. -/
inductive ScatterEvent where
  /-- `BuildIrp` made a part and it was sent to the lower driver. -/
  | built
  /-- `BuildIrp` failed. -/
  | noIrp
  /-- A part came back from the lower driver. -/
  | completed (status : NtStatus)
  /-- The splitting loop made its final call of `Complete`. -/
  | released
deriving DecidableEq, Repr

namespace ScatterEvent

/-- The event is the completion of a part. -/
def finishes : ScatterEvent → Bool
  | .completed _ => true
  | _ => false

/-- The failure status that the event brings. -/
def failure : ScatterEvent → Option NtStatus
  | .noIrp => some STATUS_INSUFFICIENT_RESOURCES
  | .completed status => if ntSuccess status then none else some status
  | _ => none

end ScatterEvent

/-- The failure statuses that occurred. -/
def failures (events : List ScatterEvent) : List NtStatus := events.filterMap ScatterEvent.failure

/-- What an action about the call shows of its scatter object. -/
def Call.scatterEvents (c : Call) : Action → List ScatterEvent
  | .call _ out =>
    match c.pc with
    | .split _ _ _ _ => [if out.memory then .built else .noIrp]
    | .finishScatter _ => [.released]
    | _ => []
  | .lowerComplete _ n ioStatus =>
    match c.lowerIrps[n]? with
    | some lower => if lower.scattered then [.completed ioStatus.status] else []
    | none => []
  | _ => []

/-- What an action shows of the scatter object of call `i`. -/
def State.scatterEvents (i : ℕ) (s : State) (a : Action) : List ScatterEvent :=
  if a.caller = some i then (s.calls[i]?).elim [] fun c => c.scatterEvents a else []

/-- The dispatch call is in the splitting loop or about to make its final call of `Complete`. -/
def Pc.splitting : Pc → Bool
  | .split _ _ _ _ | .finishScatter _ => true
  | _ => false

/-- A status that tells whether something failed, and names one of the failures if so. -/
structure Reported (events : List ScatterEvent) (status : NtStatus) : Prop where
  success : ntSuccess status = true ↔ failures events = []
  failure : failures events ≠ [] → status ∈ failures events

/-- The record of a read's scatter object agrees with the call. -/
structure ScatterLog (events : List ScatterEvent) (c : Call) : Prop where
  untouched : c.pendingReturned = false → events = []
  parts : c.pendingReturned = true → events.count .built = events.countP ScatterEvent.finishes + c.lowerIrps.length
  loop : c.pendingReturned = true → events.count .released = if c.pc.splitting then 0 else 1
  alive : ∀ scatter, c.scatter = some scatter → Reported events scatter.lastFailedStatus
  gone : c.pendingReturned = true → c.scatter = none → ∃ completion, c.completions = [completion] ∧
    completion.site = .scatter ∧ Reported events completion.status ∧
      (failures events ≠ [] → completion.information = 0)

theorem reported_nil : Reported [] STATUS_SUCCESS := ⟨by decide, fun some => absurd rfl some⟩

/-- A failure is reported over whatever was reported before it. -/
theorem reported_of_failure {events : List ScatterEvent} {event : ScatterEvent} {status : NtStatus}
    (failed : ntSuccess status = false) (brings : event.failure = some status) :
    Reported (events ++ [event]) status := by
  have added : failures (events ++ [event]) = failures events ++ [status] := by
    simp [failures, brings]
  refine ⟨?_, fun _ => ?_⟩
  · simp [added, failed]
  · rw [added]
    exact List.mem_append_right _ (List.mem_singleton_self _)

/-- What brings no failure changes no report. -/
theorem Reported.keep {events : List ScatterEvent} {event : ScatterEvent} {status : NtStatus}
    (reported : Reported events status) (none : event.failure = none) : Reported (events ++ [event]) status := by
  have same : failures (events ++ [event]) = failures events := by
    simp [failures, none]
  exact ⟨same ▸ reported.success, same ▸ reported.failure⟩

/-- A read that is marked pending is scattered, and its loop has a reference until it returns. -/
theorem CallOk.scattered {i : ℕ} {c : Call} (ok : CallOk i c) (reads : c.irp.stack.majorFunction = .read)
    (pending : c.pendingReturned = true) :
    (c.pc.splitting = true ∧ c.Scattered 1) ∨
      (c.pc.splitting = false ∧ c.pc = .returned STATUS_PENDING ∧ c.Scattered 0) := by
  have here := ok.atPc
  cases at_ : c.pc <;> rw [Call.AtPc, at_] at here
  case returned =>
    cases here with
    | scattered same scattered => exact .inr ⟨rfl, by rw [same], scattered⟩
    | held _ held => exact absurd reads held.kind
    | completed _ _ _ _ _ notPending => rw [pending] at notPending; contradiction
    | forwarded _ notPending => rw [pending] at notPending; contradiction
  case split => exact .inl ⟨rfl, here⟩
  case finishScatter => exact .inl ⟨rfl, here⟩
  case setEvent => exact absurd reads here.kind
  case insertTail => exact absurd reads here.2.2.1
  case entry => rw [here.2] at pending; contradiction
  case forward => rw [here.2] at pending; contradiction
  all_goals
    rw [here.2.1] at pending
    contradiction

/-- A read that is not marked pending has no scatter object and is not in the loop. -/
theorem CallOk.unscattered {i : ℕ} {c : Call} (ok : CallOk i c) (reads : c.irp.stack.majorFunction = .read)
    (notPending : c.pendingReturned = false) : c.scatter = none ∧ c.pc.splitting = false := by
  have here := ok.atPc
  cases at_ : c.pc <;> rw [Call.AtPc, at_] at here
  case returned =>
    cases here with
    | scattered _ scattered => rw [scattered.pending] at notPending; contradiction
    | held _ held => exact absurd reads held.kind
    | completed _ _ _ _ _ _ _ scatter => exact ⟨scatter, rfl⟩
    | forwarded _ _ _ scatter => exact ⟨scatter, rfl⟩
  case split => rw [here.pending] at notPending; contradiction
  case finishScatter => rw [here.pending] at notPending; contradiction
  case setEvent => exact absurd reads here.kind
  all_goals exact ⟨here.1.scatter, rfl⟩

/-- Outside the loop a step leaves the scatter object alone, but for the one that creates it. -/
theorem CallStep.scatter {sh sh' : Shared} {i : ℕ} {c c' : Call} {out : Outcome} (moved : CallStep sh i c out sh' c')
    (outside : c.pc.splitting = false) :
    c'.scatter = c.scatter ∨ ∃ bitmap index bits, c.pc = .createScatter bitmap index bits := by
  cases moved with
  | createScatter at_ => exact .inr ⟨_, _, _, at_⟩
  | splitOn at_ => rw [at_] at outside; contradiction
  | splitFail at_ => rw [at_] at outside; contradiction
  | finishScatter at_ => rw [at_] at outside; contradiction
  | _ => exact .inl rfl

/-- A live object with its report. -/
theorem ScatterLog.of_live {events : List ScatterEvent} {c : Call} {scatter : ScatteredIrp}
    (pending : c.pendingReturned = true) (live : c.scatter = some scatter)
    (parts : events.count .built = events.countP ScatterEvent.finishes + c.lowerIrps.length)
    (loop : events.count .released = if c.pc.splitting then 0 else 1)
    (reported : Reported events scatter.lastFailedStatus) : ScatterLog events c := by
  refine ⟨fun notPending => ?_, fun _ => parts, fun _ => loop, fun other present => ?_, fun _ gone => ?_⟩
  · rw [pending] at notPending
    contradiction
  · obtain rfl := Option.some.inj (live.symm.trans present)
    exact reported
  · rw [live] at gone
    contradiction

/-- `Complete` either keeps the object or completes the request with what has been reported. -/
theorem ScatterLog.complete {sh : Shared} {i : ℕ} {events : List ScatterEvent} {c : Call} {scatter : ScatteredIrp}
    (pending : c.pendingReturned = true) (none : c.completions = [])
    (parts : events.count .built = events.countP ScatterEvent.finishes + c.lowerIrps.length)
    (loop : events.count .released = if c.pc.splitting then 0 else 1)
    (reported : Reported events scatter.lastFailedStatus) :
    ScatterLog events (scatterComplete sh i c scatter).2 := by
  unfold scatterComplete
  dsimp only
  split
  · refine ⟨fun notPending => ?_, fun _ => parts, fun _ => loop, fun _ live => ?_, fun _ _ => ?_⟩
    · have notPending : c.pendingReturned = false := notPending
      rw [pending] at notPending
      contradiction
    · contradiction
    · refine ⟨_, by simp [none]; rfl, rfl, reported, fun some => ?_⟩
      have failed : ¬ ntSuccess scatter.lastFailedStatus = true := some ∘ reported.success.mp
      exact if_neg failed
  · exact .of_live pending rfl parts loop reported

/-- Where no request is scattered there is nothing to record. -/
theorem scatterLog_nil {c : Call} (notPending : c.pendingReturned = false) (scatter : c.scatter = none) :
    ScatterLog [] c := by
  refine ⟨fun _ => rfl, fun pending => ?_, fun pending => ?_, fun _ live => ?_, fun pending => ?_⟩
  · rw [notPending] at pending
    contradiction
  · rw [notPending] at pending
    contradiction
  · rw [scatter] at live
    contradiction
  · rw [notPending] at pending
    contradiction

/-- A step of the dispatch call keeps the record. -/
theorem ScatterLog.call {sh sh' : Shared} {i : ℕ} {c c' : Call} {out : Outcome} {events : List ScatterEvent}
    (log : ScatterLog events c) (ok : CallOk i c) (reads : c.irp.stack.majorFunction = .read)
    (moved : CallStep sh i c out sh' c') : ScatterLog (events ++ c.scatterEvents (.call i out)) c' := by
  cases inLoop : c.pc.splitting with
  | true =>
    have pending : c.pendingReturned = true := by
      by_contra notPending
      rw [(ok.unscattered reads (by simpa using notPending)).2] at inLoop
      contradiction
    obtain ⟨-, scattered⟩ | ⟨outside, -⟩ := ok.scattered reads pending
    swap
    · rw [inLoop] at outside
      contradiction
    have parts := log.parts pending
    have loop := log.loop pending
    rw [inLoop, if_pos rfl] at loop
    cases moved with
    | splitOn at_ live frame cached next goes memory =>
      have event : c.scatterEvents (.call i out) = [.built] := by
        simp only [Call.scatterEvents, at_, memory, reduceIte]
      rw [event]
      refine .of_live pending rfl ?_ ?_ ((log.alive _ live).keep rfl)
      · simp [parts, ScatterEvent.finishes]
        omega
      · rcases goes with ⟨_, rfl⟩ | ⟨_, rfl⟩ <;> simp [loop, Pc.splitting]
    | splitFail at_ live noMemory =>
      have event : c.scatterEvents (.call i out) = [.noIrp] := by
        simp only [Call.scatterEvents, at_, noMemory, Bool.false_eq_true, reduceIte]
      rw [event]
      refine .of_live pending rfl ?_ ?_
        (reported_of_failure (show ntSuccess STATUS_INSUFFICIENT_RESOURCES = false by decide) rfl)
      · simp [parts, ScatterEvent.finishes]
      · simp [loop, Pc.splitting]
    | finishScatter at_ live =>
      have event : c.scatterEvents (.call i out) = [.released] := by
        simp only [Call.scatterEvents, at_]
      rw [event]
      refine .complete pending (scattered.alive _ live).2.2 ?_ ?_ ((log.alive _ live).keep rfl)
      · simp [parts, ScatterEvent.finishes]
      · simp [loop, Pc.splitting]
    | refuse at_ => rcases at_ with at_ | at_ | at_ <;> rw [at_] at inLoop <;> contradiction
    | noItem at_ => rcases at_ with at_ | at_ <;> rw [at_] at inLoop <;> contradiction
    | noLock at_ => rcases at_ with at_ | at_ <;> rw [at_] at inLoop <;> contradiction
    | _ at_ => rw [at_] at inLoop; contradiction
  | false =>
    have event : c.scatterEvents (.call i out) = [] := by
      unfold Call.scatterEvents
      cases at_ : c.pc <;> rw [at_] at inLoop <;> first | rfl | contradiction
    rw [event, List.append_nil]
    have notPending : c.pendingReturned = false := by
      by_contra marked
      obtain ⟨inside, -⟩ | ⟨-, at_, -⟩ := ok.scattered reads (by simpa using marked)
      · rw [inLoop] at inside
        contradiction
      · exact moved.not_returned _ at_
    obtain ⟨scatter, -⟩ := ok.unscattered reads notPending
    obtain rfl := log.untouched notPending
    have here := ok.atPc
    cases moved with
    | createScatter at_ =>
      rw [Call.AtPc, at_] at here
      refine .of_live rfl rfl ?_ rfl reported_nil
      simp [here.1.lowerIrps]
    | acquireLock at_ =>
      rw [Call.AtPc, at_] at here
      exact absurd reads here.2.2.1
    | splitOn at_ => rw [at_] at inLoop; contradiction
    | splitFail at_ => rw [at_] at inLoop; contradiction
    | finishScatter at_ => rw [at_] at inLoop; contradiction
    | _ => exact scatterLog_nil notPending scatter

/-- A part in the lower driver belongs to a read that is marked pending. -/
theorem CallOk.pending_of_part {i : ℕ} {c : Call} (ok : CallOk i c) (reads : c.irp.stack.majorFunction = .read)
    {scatter : ScatteredIrp} (live : c.scatter = some scatter) : c.pendingReturned = true := by
  by_contra notPending
  rw [(ok.unscattered reads (by simpa using notPending)).1] at live
  contradiction

/-- A move of the lower driver keeps the record. -/
theorem ScatterLog.lower {sh sh' : Shared} {i : ℕ} {c c' : Call} {a : Action} {events : List ScatterEvent}
    (log : ScatterLog events c) (ok : CallOk i c) (reads : c.irp.stack.majorFunction = .read)
    (moved : LowerMove sh i c a sh' c') : ScatterLog (events ++ c.scatterEvents a) c' := by
  cases moved with
  | @write n _ sec =>
    have event : c.scatterEvents (.transfer i n sec) = [] := rfl
    rw [event, List.append_nil]
    exact ⟨log.untouched, by simpa using log.parts, log.loop, log.alive, log.gone⟩
  | @read n _ sec =>
    have event : c.scatterEvents (.transfer i n sec) = [] := rfl
    rw [event, List.append_nil]
    exact ⟨log.untouched, by simpa using log.parts, log.loop, log.alive, log.gone⟩
  | @scattered n lower scatter ioStatus present part live =>
    have event : c.scatterEvents (.lowerComplete i n ioStatus) = [.completed ioStatus.status] := by
      simp only [Call.scatterEvents, present, part, reduceIte]
    have pending := ok.pending_of_part reads live
    have parts := log.parts pending
    have loop := log.loop pending
    have inside := (List.getElem?_eq_some_iff.mp present).1
    have completions : c.completions = [] := by
      obtain ⟨-, scattered⟩ | ⟨-, -, scattered⟩ := ok.scattered reads pending
      · exact (scattered.alive _ live).2.2
      · exact (scattered.alive _ live).2.2
    rw [event]
    refine .complete pending completions ?_ (by simp [loop]) ?_
    · simp only [List.count_append, List.countP_append, List.length_eraseIdx_of_lt inside, parts]
      simp [ScatterEvent.finishes]
      omega
    · cases success : ntSuccess ioStatus.status with
      | true => exact (log.alive _ live).keep (if_pos success)
      | false => exact reported_of_failure success (if_neg (by simp [success]))
  | @skipped n lower ioStatus present whole =>
    have event : c.scatterEvents (.lowerComplete i n ioStatus) = [] := by
      simp only [Call.scatterEvents, present, whole, Bool.false_eq_true, reduceIte]
    have notPending : c.pendingReturned = false := by
      by_contra marked
      have part : lower.scattered = true := by
        obtain ⟨-, scattered⟩ | ⟨-, -, scattered⟩ := ok.scattered reads (by simpa using marked)
        · exact scattered.parts lower (List.mem_of_getElem? present)
        · exact scattered.parts lower (List.mem_of_getElem? present)
      rw [part] at whole
      contradiction
    obtain rfl := log.untouched notPending
    rw [event]
    exact scatterLog_nil notPending (ok.unscattered reads notPending).1

/-- What every reachable state knows of a read's scatter object. -/
structure Recording (i : ℕ) (s : State) (events : List ScatterEvent) : Prop where
  wf : Wf s
  fresh : s.calls[i]? = none → events = []
  log : ∀ c, s.calls[i]? = some c → c.irp.stack.majorFunction = .read → ScatterLog events c

theorem Recording.step {s s' : State} {a : Action} {i : ℕ} {events : List ScatterEvent}
    (recording : Recording i s events) (moved : s.step a = some s') :
    Recording i s' (events ++ s.scatterEvents i a) := by
  obtain ⟨wf, fresh, log⟩ := recording
  refine ⟨wf.step moved, fun missing => ?_, fun c' present' reads' => ?_⟩
  · have absent : s.calls[i]? = none := by
      rw [List.getElem?_eq_none_iff] at missing ⊢
      exact (calls_length_le moved).trans missing
    rw [fresh absent, State.scatterEvents, absent]
    split <;> rfl
  · unfold State.scatterEvents
    cases wf.callMove moved present' with
    | received action missing new =>
      rw [action, if_neg (by rintro ⟨⟩), List.append_nil, fresh missing, new]
      exact scatterLog_nil rfl rfl
    | @call out c action present taken =>
      have reads : c.irp.stack.majorFunction = .read := by rw [← taken.irp]; exact reads'
      rw [action, if_pos (show (Action.call i out).caller = some i from rfl), present]
      exact (log c present reads).call (wf.calls i c present) reads taken
    | @lower c action present taken =>
      have reads : c.irp.stack.majorFunction = .read := by rw [← taken.irp]; exact reads'
      rw [if_pos action, present]
      exact (log c present reads).lower (wf.calls i c present) reads taken
    | worker _ _ held new =>
      rw [new] at reads'
      exact absurd reads' held.kind
    | still elsewhere present =>
      rw [if_neg elsewhere, List.append_nil]
      exact log c' present reads'

/-- The completion protocol of `SCATTERED_IRP`. In every state of every run, for a read that is marked
pending: its object is gone exactly when every part that was built has completed and the splitting loop
has made its final call of `Complete`; while the loop or a part can still reach the object, it is there.
The request has been completed exactly once by then and not at all before, with success if nothing
failed, and else with one of the failures that occurred and no bytes. -/
theorem scatter_protocol (cfg : Config) (as : List Action) (s : State)
    (run : Run State.step anyStep (.initial cfg) as s) (i : ℕ) (c : Call) (present : s.calls[i]? = some c)
    (reads : c.irp.stack.majorFunction = .read) (pending : c.pendingReturned = true) :
    let events := observed State.step (State.scatterEvents i) (.initial cfg) as
    (c.scatter = none ↔
        events.count .built = events.countP ScatterEvent.finishes ∧ events.count .released = 1) ∧
      (c.pc.splitting = true ∨ c.lowerIrps ≠ [] → c.scatter ≠ none) ∧
      (c.scatter ≠ none → c.completions = []) ∧
      (c.scatter = none → ∃ completion, c.completions = [completion] ∧ completion.site = .scatter ∧
        (ntSuccess completion.status = true ↔ failures events = []) ∧
        (ntSuccess completion.status = false →
          completion.status ∈ failures events ∧ completion.information = 0)) := by
  intro events
  have recording : Recording i s events := by
    refine run.observes (Recording i) ?_ fun _ _ _ _ recording _ moved => recording.step moved
    exact ⟨wf_initial cfg, fun _ => rfl, fun c present => by simp [State.initial] at present⟩
  have log := recording.log c present reads
  have ok := recording.wf.calls i c present
  have parts := log.parts pending
  have loop := log.loop pending
  obtain ⟨own, scattered, holder⟩ : ∃ own, c.Scattered own ∧ own = if c.pc.splitting then 1 else 0 := by
    obtain ⟨inside, scattered⟩ | ⟨outside, -, scattered⟩ := ok.scattered reads pending
    · exact ⟨1, scattered, by rw [inside]; rfl⟩
    · exact ⟨0, scattered, by rw [outside]; rfl⟩
  refine ⟨⟨fun gone => ?_, ?_⟩, ?_, ?_, fun gone => ?_⟩
  · obtain ⟨noParts, noOwn, -⟩ := scattered.gone gone
    rw [noParts] at parts
    refine ⟨parts, ?_⟩
    cases inLoop : c.pc.splitting <;> rw [inLoop] at loop holder
    · exact loop
    · rw [noOwn] at holder
      contradiction
  · rintro ⟨matched, released⟩
    by_contra there
    obtain ⟨scatter, live⟩ := Option.ne_none_iff_exists'.mp there
    obtain ⟨count, positive, -⟩ := scattered.alive scatter live
    have noParts : c.lowerIrps.length = 0 := by omega
    cases inLoop : c.pc.splitting <;> rw [inLoop] at loop holder
    · rw [noParts, holder] at count
      exact positive count
    · rw [released] at loop
      contradiction
  · rintro uses gone
    obtain ⟨noParts, noOwn, -⟩ := scattered.gone gone
    obtain inLoop | parts := uses
    · rw [inLoop, noOwn] at holder
      contradiction
    · exact parts noParts
  · intro live
    obtain ⟨scatter, there⟩ := Option.ne_none_iff_exists'.mp live
    exact (scattered.alive scatter there).2.2
  · obtain ⟨completion, once, site, reported, noBytes⟩ := log.gone pending gone
    refine ⟨completion, once, site, reported.success, fun failed => ?_⟩
    have some : failures events ≠ [] := by
      intro none
      rw [reported.success.mpr none] at failed
      contradiction
    exact ⟨reported.failure some, noBytes some⟩

/-- A write of the second sector. -/
def writeSector1 : Irp where
  stack := { (writeSector0 7).stack with byteOffset := 512, byteOffset_range := by decide }
  data := fun _ => 7

/-- A read of the first three sectors. -/
def readThree : Irp where
  stack := { readSector0.stack with length := 3 * 512, length_lt := by decide }

/-- The read finds the write in the queue. Its first part fails before the second is built. -/
def splitRead : List Action :=
  [.receive writeSector1] ++ callSteps 0 12 ++ [.receive readThree] ++ callSteps 1 4 ++
    [.lowerComplete 1 0 ⟨STATUS_INSUFFICIENT_RESOURCES, 0⟩] ++ callSteps 1 2 ++
    [.transfer 1 0 2, .lowerComplete 1 0 ⟨STATUS_SUCCESS, 512⟩]

theorem scatter_protocol_splitRead : ∃ c completion, (State.after smallDevice splitRead).calls[1]? = some c ∧
    c.completions = [completion] ∧ completion.site = .scatter ∧
    completion.status ∈ failures (observed State.step (State.scatterEvents 1) (.initial smallDevice) splitRead) ∧
    completion.information = 0 := by
  have run := run_of_replay smallDevice splitRead (by decide +kernel)
  have split : ∃ c, (State.after smallDevice splitRead).calls[1]? = some c ∧ c.irp.stack.majorFunction = .read ∧
      c.pendingReturned = true ∧ c.scatter = none := ⟨_, State.call_after (by decide +kernel), by decide +kernel⟩
  obtain ⟨c, present, reads, pending, gone⟩ := split
  obtain ⟨-, -, -, completed⟩ := scatter_protocol smallDevice splitRead _ run 1 c present reads pending
  obtain ⟨completion, once, site, success, failed⟩ := completed gone
  have failure : failures (observed State.step (State.scatterEvents 1) (.initial smallDevice) splitRead) ≠ [] := by
    decide +kernel
  obtain ⟨occurred, noBytes⟩ := failed (by simpa using mt success.mp failure)
  exact ⟨c, completion, present, once, site, occurred, noBytes⟩

end QueueCache
