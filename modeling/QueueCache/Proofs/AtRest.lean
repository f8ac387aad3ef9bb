import QueueCache.Proofs.Lifetime
import QueueCache.Proofs.Ownership
import QueueCache.Proofs.Work

/-! # A device at rest

Nothing inside the device waits for anything inside the device for ever. A party that is not where it
ends has a next step, so a device at rest has answered every request, has an empty queue and a waiting
worker, or it is being removed. A removal that rests short of its end waits for holds on the remove lock
that nobody will release: those of items linked behind the worker's back and those that the failing exits of
`QCacheQueueLazyWriteIrp` kept.
-/

namespace QueueCache

open Transition Overlay

/-- No step that must come to an end is possible. -/
def State.AtRest (s : State) : Prop := Transition.AtRest State.step (fun s a => s.internal a = true) s

/-- The request has one answer, from this driver or from the lower one, and nothing of it is left. -/
structure Call.Finished (c : Call) : Prop where
  returned : ∃ status, c.pc = .returned status
  lowerIrps : c.lowerIrps = []
  scatter : c.scatter = none
  answered : ((∃ completion, c.completions = [completion]) ∧ c.forwards = 0) ∨
    (c.completions = [] ∧ c.forwards = 1 ∧ c.lowerStatus ≠ none)

/-- A dispatch call that has not returned has a next step. -/
theorem CallOk.callStep_isSome {i : ℕ} {c : Call} (ok : CallOk i c) (running : ∀ status, c.pc ≠ .returned status)
    (sh : Shared) (out : Outcome) : (callStep sh i c out).isSome := by
  have here := ok.atPc
  have live : c.Scattered 1 → c.scatter.isSome := by
    intro scattered
    cases gone : c.scatter with
    | some scatter => rfl
    | none =>
      have released := (scattered.gone gone).2.1
      contradiction
  unfold callStep
  cases at_ : c.pc with
  | returned status => exact absurd at_ (running status)
  | split =>
    rw [Call.AtPc, at_] at here
    simpa using live here
  | finishScatter =>
    rw [Call.AtPc, at_] at here
    simpa using live here
  | createScatter =>
    dsimp only
    split
    · split <;> rfl
    · rfl
  | lazyAcquireLock =>
    dsimp only
    split
    · split <;> rfl
    · rfl
  | _ => first | rfl | (dsimp only; split <;> rfl)

/-- A transfer that is not complete has a sector to be moved. -/
theorem exists_unmoved {sectors moved : List ℤ} (open_ : (sectors.all fun s => s ∈ moved) = false) :
    ∃ s ∈ sectors, s ∉ moved := by
  simpa using open_

/-- A request that has been transferred in full can be completed in full. -/
theorem admissible_done (ioStatus : IoStatusBlock) (length : ℕ) : admissible ioStatus length true = true := by
  simp [admissible]

section AtRest

variable {s : State}

theorem State.AtRest.returned (rest : s.AtRest) (wf : Wf s) {i : ℕ} {c : Call} (present : s.calls[i]? = some c) :
    ∃ status, c.pc = .returned status := by
  by_contra running
  have next := (wf.calls i c present).callStep_isSome (fun status at_ => running ⟨status, at_⟩) s.shared {}
  obtain ⟨result, moved⟩ := Option.isSome_iff_exists.mp next
  have stuck := rest (.call i {}) rfl
  simp [State.step, present, moved] at stuck

/-- The lower driver can go on with every request it has. -/
theorem State.AtRest.no_lower (rest : s.AtRest) {i : ℕ} {c : Call} (present : s.calls[i]? = some c) {lower : LowerIrp}
    {more : List LowerIrp} (first : c.lowerIrps = lower :: more) (live : lower.scattered = true → c.scatter ≠ none) :
    False := by
  have at_ : c.lowerIrps[0]? = some lower := by rw [first]; rfl
  cases complete : lower.done with
  | false =>
    obtain ⟨sec, covered, fresh⟩ := exists_unmoved complete
    have stuck := rest (.transfer i 0 sec) rfl
    simp only [State.step, present, Option.bind_some, QueueCache.transfer, at_, Option.map_eq_none_iff] at stuck
    rw [if_pos ⟨covered, fresh⟩] at stuck
    split at stuck <;> contradiction
  | true =>
    have stuck := rest (.lowerComplete i 0 ⟨STATUS_SUCCESS, lower.length⟩) rfl
    simp only [State.step, present, Option.bind_some, QueueCache.lowerComplete, at_, complete, admissible_done,
      if_true, Option.map_eq_none_iff] at stuck
    split at stuck
    · next part =>
      rw [Option.map_eq_none_iff] at stuck
      exact live part stuck
    · contradiction

/-- What is left of a request in a device at rest: nothing but a place in the queue. -/
theorem State.AtRest.finished (rest : s.AtRest) (wf : Wf s) (one : OneOwner s) {i : ℕ} {c : Call}
    (present : s.calls[i]? = some c) (unqueued : s.holders i = 0) : c.Finished := by
  obtain ⟨status, at_⟩ := rest.returned wf present
  have here := (wf.calls i c present).atPc
  have placed := one i c present
  rw [State.owners, Call.places, unqueued, at_] at placed
  simp only [Pc.owns, Bool.toNat_false, Nat.zero_add, Nat.add_zero] at placed
  rw [Call.AtPc, at_] at here
  cases here with
  | completed completion once _ _ _ _ forwards scatter lowerIrps =>
    exact ⟨⟨status, at_⟩, lowerIrps, scatter, .inl ⟨⟨completion, once⟩, forwards⟩⟩
  | forwarded forwards _ completions scatter below =>
    obtain ⟨lower, only, whole, -⟩ | ⟨lowerIrps, answered⟩ := below
    · exact (rest.no_lower present only (by simp [whole])).elim
    · exact ⟨⟨status, at_⟩, lowerIrps, scatter, .inr ⟨completions, forwards, answered⟩⟩
  | held _ held =>
    have single : c.completions.length = 1 := by
      have forwards := held.forwards
      have scatter : c.scatter.isSome.toNat = 0 := by rw [held.scatter]; rfl
      omega
    exact ⟨⟨status, at_⟩, held.lowerIrps, held.scatter, .inl ⟨List.length_eq_one_iff.mp single, held.forwards⟩⟩
  | scattered _ scattered =>
    cases live : c.scatter with
    | none =>
      obtain ⟨lowerIrps, -, completion, once, -⟩ := scattered.gone live
      exact ⟨⟨status, at_⟩, lowerIrps, live, .inl ⟨⟨completion, once⟩, scattered.forwards⟩⟩
    | some scatter =>
      obtain ⟨counted, positive, -⟩ := scattered.alive scatter live
      cases parts : c.lowerIrps with
      | nil => rw [parts] at counted; exact absurd counted positive
      | cons lower more => exact (rest.no_lower present parts (by simp [live])).elim

/-- The worker's pointer is never dangling. -/
theorem Wf.item?_isSome (wf : Wf s) {addr : ℕ} (points : s.worker.item? = some addr) :
    ∃ item, s.item? addr = some item := by
  obtain ⟨head, rest, shape, rfl⟩ := wf.worker addr points
  apply Option.isSome_iff_exists.mp
  rw [State.item?, List.find?_isSome, wf.queue, shape]
  cases at_ : s.worker with
  | unlink other =>
    refine ⟨if head.addr = other then { head with irp := none } else head, List.mem_cons_self .., ?_⟩
    split <;> simp
  | _ => exact ⟨head, List.mem_cons_self .., by simp⟩

theorem Wf.holder_present (wf : Wf s) {addr i : ℕ} {item : WriteQueueItem} (found : s.item? addr = some item)
    (holds : item.irp = some i) : ∃ c, s.calls[i]? = some c := by
  obtain ⟨c, present, -⟩ := wf.holder_queue (List.mem_of_find?_eq_some found) holds
  exact ⟨c, present⟩

/-- The worker of a device at rest waits for a signal, or it has left. -/
theorem State.AtRest.worker (rest : s.AtRest) (wf : Wf s) :
    (s.worker = .wait ∧ s.shared.extension.writeQueueEvent = false) ∨ s.worker = .exited := by
  have stuck := rest (.worker true) rfl
  simp only [State.step, State.stepWorker] at stuck
  cases at_ : s.worker with
  | look =>
    rw [at_] at stuck
    dsimp only at stuck
    split at stuck <;> contradiction
  | testShutdown => simp [at_] at stuck
  | wait => exact .inl ⟨rfl, by simpa [at_] using stuck⟩
  | exited => exact .inr rfl
  | dispatch addr =>
    have points : s.worker.item? = some addr := by rw [at_]; rfl
    obtain ⟨item, found⟩ := wf.item?_isSome points
    simp only [at_, found, Option.bind_some, State.dispatchItem] at stuck
    split at stuck
    · next i holds =>
      obtain ⟨c, present⟩ := wf.holder_present found holds
      simp [present] at stuck
    · simp at stuck
  | lower request moved =>
    cases complete : request.done moved with
    | false =>
      obtain ⟨sec, covered, fresh⟩ := exists_unmoved complete
      have stuck := rest (.workerTransfer sec) rfl
      simp [State.step, at_, covered, fresh] at stuck
    | true =>
      have stuck := rest (.workerLowerComplete ⟨STATUS_SUCCESS, request.length⟩) rfl
      simp [State.step, at_, complete, admissible_done] at stuck
  | complete addr ioStatus =>
    have points : s.worker.item? = some addr := by rw [at_]; rfl
    obtain ⟨item, found⟩ := wf.item?_isSome points
    simp only [at_, found, Option.bind_some, State.completeItem] at stuck
    split at stuck
    · next i holds =>
      obtain ⟨c, present⟩ := wf.holder_present found holds
      simp [present] at stuck
    · simp at stuck
  | unlink addr =>
    have points : s.worker.item? = some addr := by rw [at_]; rfl
    obtain ⟨item, found⟩ := wf.item?_isSome points
    simp [at_, found] at stuck

end AtRest

/-- `QCacheCleanupDevice` has stored `ShutdownThread`. -/
def RemoverPc.shutDown : RemoverPc → Bool
  | .idle | .clearCached | .storeShutdown => false
  | _ => true

/-- What the flag `ShutdownThread` tells of the removal and of the worker, and the remove lock's books behind
the wait for it. -/
structure Shutdown (s : State) : Prop where
  stored : s.shared.extension.shutdownThread = s.remover.shutDown
  exited : s.worker = .exited → s.remover.shutDown = true
  settled : s.remover.waited = true → s.surplus = 0

theorem shutdown_initial (cfg : Config) : Shutdown (.initial cfg) where
  stored := rfl
  exited at_ := by simp [State.initial] at at_
  settled waited := by simp [State.initial, RemoverPc.waited] at waited

/-- Behind the wait for the remove lock nobody is left to refuse a payload. -/
theorem Removal.payloadGranted {s : State} (removal : Removal s) (waited : s.remover.waited = true) (a : Action) :
    payloadGranted s a = true := by
  cases a with
  | call i out =>
    simp only [QueueCache.payloadGranted]
    cases present : s.calls[i]? with
    | none => rfl
    | some c =>
      have free := (Call.holds_eq_zero.mp ((removal.released waited).2 c (List.mem_of_getElem? present))).1
      have none : c.pc.copiesPayload = false := by
        cases at_ : c.pc <;> simp [at_, Pc.holdsLock, Pc.copiesPayload] at free ⊢
      simp [none]
  | _ => rfl

namespace Shutdown

variable {s s' : State} {a : Action}

theorem stored_step (shutdown : Shutdown s) (moved : s.step a = some s') :
    s'.shared.extension.shutdownThread = s'.remover.shutDown ∧
      (s.remover.shutDown = true → s'.remover.shutDown = true) := by
  have stored := shutdown.stored
  cases step_cases moved with
  | receive => exact ⟨stored, id⟩
  | call present taken => exact ⟨taken.outer.shutdownThread.trans stored, id⟩
  | lower present taken =>
    refine ⟨Eq.trans ?_ stored, id⟩
    cases taken with
    | scattered => exact scatterComplete_shutdownThread _ _ _ _
    | _ => rfl
  | worker taken => cases taken <;> exact ⟨stored, id⟩
  | remover taken =>
    cases taken with
    | advance at_ =>
      obtain ⟨at_, rfl⟩ | ⟨at_, rfl⟩ | ⟨at_, rfl⟩ := at_ <;> rw [at_] at stored <;> exact ⟨stored, fun _ => rfl⟩
    | storeShutdown => exact ⟨rfl, fun _ => rfl⟩
    | acquire at_ => rw [at_] at stored ⊢; exact ⟨stored, id⟩
    | clearCached at_ => rw [at_] at stored ⊢; exact ⟨stored, id⟩
    | _ at_ => rw [at_] at stored; exact ⟨stored, fun _ => rfl⟩
  | initializeDevice => exact ⟨stored, id⟩

theorem step (shutdown : Shutdown s) (wf : Wf s) (removal : Removal s) (nonneg : 0 ≤ s.surplus)
    (moved : s.step a = some s') : Shutdown s' := by
  obtain ⟨stored, stays⟩ := shutdown.stored_step moved
  refine ⟨stored, ?_, ?_⟩
  · intro exited
    obtain ⟨taken, -⟩ | frame := step_service moved
    · cases taken with
      | exit _ shut => exact stays (shutdown.stored ▸ shut)
      | _ => contradiction
    · exact stays (shutdown.exited (frame.worker ▸ exited))
  · intro waited
    by_cases before : s.remover.waited = true
    · exact (wf.surplus_granted (removal.payloadGranted before a) moved).trans (shutdown.settled before)
    · have same : s'.surplus = s.surplus ∧ s.shared.extension.removeLock.ioCount = 0 ∧ s.remover.holdsLock = false := by
        cases step_cases moved with
        | remover taken =>
          cases taken with
          | holdsGone at_ zero =>
            refine ⟨?_, zero, by rw [at_]; rfl⟩
            rw [State.surplus, State.surplus, at_]
            rfl
          | advance at_ =>
            obtain ⟨-, rfl⟩ | ⟨-, rfl⟩ | ⟨at_, rfl⟩ := at_
            · contradiction
            · contradiction
            · exact absurd (by rw [at_]; rfl) before
          | _ => contradiction
        | worker taken => cases taken <;> exact absurd waited before
        | _ => exact absurd waited before
      obtain ⟨kept, zero, free⟩ := same
      obtain ⟨empty, released⟩ := released_of_zero nonneg zero
      have none : s.calls.tally Call.holds = 0 := by
        have same : s.calls.tally Call.holds = s.calls.tally fun _ => 0 := List.tally_congr released
        rw [same]
        simp [List.tally]
      rw [kept, State.surplus, zero, empty, none, free]
      rfl

end Shutdown

theorem shutdown_of_run {cfg : Config} {ok : State → Action → Prop} {as : List Action} {s : State}
    (run : Run State.step ok (.initial cfg) as s) : Shutdown s := by
  induction run with
  | nil => exact shutdown_initial cfg
  | snoc before _ moved ih =>
    exact ih.step (wf_of_run before) (removal_of_run before) (surplus_nonneg_of_run before) moved

def Pc.isReturned : Pc → Bool
  | .returned _ => true
  | _ => false

/-- The worker waits without a signal, or it has left. -/
def WorkerPc.rests (signalled : Bool) : WorkerPc → Bool
  | .wait => !signalled
  | .exited => true
  | _ => false

/-- A state to look at: every dispatch call has returned, the lower driver has nothing to do, the worker rests
and no removal is on its way. -/
theorem State.atRest {s : State} (calls : ∀ c ∈ s.calls, c.pc.isReturned = true ∧ c.lowerIrps = [])
    (worker : s.worker.rests s.shared.extension.writeQueueEvent = true)
    (remover : s.remover = .idle ∨ s.remover = .deleted) : s.AtRest := by
  intro a internal
  have sleeps : (s.worker = .wait ∧ s.shared.extension.writeQueueEvent = false) ∨ s.worker = .exited := by
    cases at_ : s.worker <;> simp [at_, WorkerPc.rests] at worker ⊢
    exact worker
  by_contra possible
  obtain ⟨t, moved⟩ := Option.ne_none_iff_exists'.mp possible
  cases step_cases moved with
  | receive => contradiction
  | @call _ _ c _ _ present taken =>
    have returned := (calls c (List.mem_of_getElem? present)).1
    cases at_ : c.pc with
    | returned status => exact taken.not_returned status at_
    | _ => simp [at_, Pc.isReturned] at returned
  | lower present taken => exact taken.present (calls _ (List.mem_of_getElem? present)).2
  | worker taken =>
    obtain ⟨waits, silent⟩ | gone := sleeps
    · cases taken with
      | wake _ signalled => simp [silent] at signalled
      | _ at_ => rw [waits] at at_; contradiction
    · cases taken with
      | _ at_ => rw [gone] at at_; contradiction
  | remover taken =>
    obtain at_ | at_ := remover
    · simp [State.internal, at_] at internal
    · cases taken with
      | advance here => simp [at_] at here
      | _ here => rw [at_] at here; contradiction
  | initializeDevice => contradiction

/-- Every run of internal steps is no longer than the work left, and some run ends with the device at rest. -/
theorem activity_ends (cfg : Config) (as : List Action) (s : State) (run : Run State.step anyStep (.initial cfg) as s) :
    (∀ bs t, Run State.step (fun s a => s.internal a = true) s bs t → bs.length ≤ s.work) ∧
      ∃ bs t, Run State.step (fun s a => s.internal a = true) s bs t ∧ t.AtRest := by
  have wf := wf_of_run run
  exact ⟨fun bs t more => more.length_le decreases_work wf, exists_atRest decreases_work wf⟩

/-- A lazy write that the worker has not looked at leaves work for 37 steps at most. -/
theorem activity_ends_lazyWrite : ∃ s, Run State.step anyStep (.initial smallDevice) lazyWrite s ∧ s.work = 37 ∧
    ∃ bs t, Run State.step (fun s a => s.internal a = true) s bs t ∧ t.AtRest := by
  have run := run_of_replay smallDevice lazyWrite (by decide +kernel)
  exact ⟨_, run, by decide +kernel, (activity_ends smallDevice _ _ run).2⟩

/-- The removal of a device at rest has not begun, waits for the remove lock, or is over. -/
theorem State.AtRest.remover {s : State} (rest : s.AtRest) (shutdown : Shutdown s)
    (worker : (s.worker = .wait ∧ s.shared.extension.shutdownThread = false) ∨ s.worker = .exited) :
    s.remover = .idle ∨ (s.remover = .waitHolds ∧ s.shared.extension.removeLock.ioCount ≠ 0) ∨
      s.remover = .deleted := by
  cases at_ : s.remover with
  | idle => exact .inl rfl
  | deleted => exact .inr (.inr rfl)
  | waitHolds =>
    have stuck := rest .remover (by simp [State.internal, at_])
    exact .inr (.inl ⟨rfl, by simpa [State.step, State.stepRemover, at_] using stuck⟩)
  | waitWorker =>
    have stuck := rest .remover (by simp [State.internal, at_])
    have stored := shutdown.stored
    rw [at_] at stored
    obtain ⟨-, running⟩ | gone := worker
    · rw [running] at stored
      contradiction
    · simp [State.step, State.stepRemover, at_, gone] at stuck
  | _ =>
    have stuck := rest .remover (by simp [State.internal, at_])
    simp [State.step, State.stepRemover, at_] at stuck

theorem alert_of_run {cfg : Config} {ok : State → Action → Prop} {as : List Action} {s : State}
    (run : Run State.step ok (.initial cfg) as s) : Alert s :=
  run.preserves Alert ⟨fun _ _ => .inl rfl, fun _ _ => .inl rfl⟩ fun _ _ _ alert _ moved => alert.step moved

/-- A waiting worker at rest has seen everything: nobody will signal, so nothing is queued or announced. -/
theorem State.AtRest.waiting {s : State} (rest : s.AtRest) (wf : Wf s) (alert : Alert s)
    (waits : s.worker = .wait) (silent : s.shared.extension.writeQueueEvent = false) :
    s.shared.queue = [] ∧ s.shared.extension.shutdownThread = false := by
  constructor
  · obtain empty | ⟨c, member, signals⟩ := alert.queue (by rw [waits]; rfl) silent
    · exact empty
    · obtain ⟨i, present⟩ := List.getElem?_of_mem member
      obtain ⟨status, at_⟩ := rest.returned wf present
      rw [at_] at signals
      contradiction
  · obtain running | at_ := alert.shutdown waits silent
    · exact running
    · have stuck := rest .remover (by simp [State.internal, at_])
      simp [State.step, State.stepRemover, at_] at stuck

theorem State.AtRest.remover_of_run {cfg : Config} {ok : State → Action → Prop} {as : List Action} {s : State}
    (rest : s.AtRest) (run : Run State.step ok (.initial cfg) as s) :
    s.remover = .idle ∨ (s.remover = .waitHolds ∧ s.shared.extension.removeLock.ioCount ≠ 0) ∨
      s.remover = .deleted := by
  have wf := wf_of_run run
  apply rest.remover (shutdown_of_run run)
  obtain ⟨waits, silent⟩ | gone := rest.worker wf
  · exact .inl ⟨waits, (rest.waiting wf (alert_of_run run) waits silent).2⟩
  · exact .inr gone

theorem holders_of_empty {s : State} (empty : s.shared.queue = []) (i : ℕ) : s.holders i = 0 := by
  rw [State.holders, empty]
  rfl

/-- A device at rest that is not being removed has answered every request it received, its worker waits
behind an empty queue, and with every write served the disk has all that was inserted, in order. -/
theorem requests_answered (cfg : Config) (as : List Action) (s : State)
    (run : Run State.step anyStep (.initial cfg) as s) (rest : s.AtRest) (kept : s.remover = .idle) :
    s.worker = .wait ∧ s.shared.queue = [] ∧ (∀ (i : ℕ) (c : Call), s.calls[i]? = some c → c.Finished) ∧
      (cfg.size ≠ 0 → s.WritesServed → s.shared.disk = replay cfg.disk s.written) := by
  have wf := wf_of_run run
  have shutdown := shutdown_of_run run
  obtain ⟨waits, silent⟩ | gone := rest.worker wf
  · obtain ⟨empty, -⟩ := rest.waiting wf (alert_of_run run) waits silent
    have one := oneOwner_of_run run
    refine ⟨waits, empty, fun i c present => rest.finished wf one present (holders_of_empty empty i), ?_⟩
    exact fun sized served => disk_of_queue_empty wf (fifo_of_run run) (diskOk_of_run sized run) served empty
  · have begun := shutdown.exited gone
    rw [kept] at begun
    contradiction

/-- A lazy write is served and the worker waits again. -/
def lazyWriteAtRest : List Action := lazyWriteServed ++ workerSteps 5

theorem requests_answered_lazyWrite : ∃ s, Run State.step anyStep (.initial smallDevice) lazyWriteAtRest s ∧
    s.AtRest ∧ s.calls.length = 1 ∧ ∀ (i : ℕ) (c : Call), s.calls[i]? = some c → c.Finished := by
  have run := run_of_replay smallDevice lazyWriteAtRest (by decide +kernel)
  have rest : (State.after smallDevice lazyWriteAtRest).AtRest :=
    State.atRest (by decide +kernel) (by decide +kernel) (.inl (by decide +kernel))
  exact ⟨_, run, rest, by decide +kernel, (requests_answered smallDevice _ _ run rest (by decide +kernel)).2.2.1⟩

/-- A removal comes to its end, or rests waiting for the remove lock, and it does the latter exactly when an
item is left in the queue or a hold is left that nobody answers for. Where no item was linked behind the
worker's back and no payload was refused it ends. A deleted device has answered every request. -/
theorem removal_ends (cfg : Config) (as : List Action) (s : State)
    (run : Run State.step anyStep (.initial cfg) as s) (rest : s.AtRest) (begun : s.remover ≠ .idle) :
    (s.remover = .waitHolds ∨ s.remover = .deleted) ∧
      (s.remover = .deleted ↔ s.shared.queue = [] ∧ s.surplus = 0) ∧
      (Run State.step (fun t a => seenByWorker t a = true ∧ payloadGranted t a = true) (.initial cfg) as s →
        s.remover = .deleted) ∧
      (s.remover = .deleted → ∀ (i : ℕ) (c : Call), s.calls[i]? = some c → c.Finished) := by
  have wf := wf_of_run run
  have shutdown := shutdown_of_run run
  have removal := removal_of_run run
  have position := (rest.remover_of_run run).resolve_left begun
  have closed : s.remover = .waitHolds → s.shared.queue = [] → s.surplus = 0 →
      s.shared.extension.removeLock.ioCount = 0 := by
    intro waits empty even
    have none : s.calls.tally Call.holds = 0 := by
      have same : s.calls.tally Call.holds = s.calls.tally fun _ => 0 := by
        apply List.tally_congr
        intro c member
        obtain ⟨i, present⟩ := List.getElem?_of_mem member
        have finished := rest.finished wf (oneOwner_of_run run) present (holders_of_empty empty i)
        obtain ⟨status, at_⟩ := finished.returned
        rw [Call.holds_eq_zero]
        exact ⟨by rw [at_]; rfl, finished.scatter⟩
      rw [same]
      simp [List.tally]
    rw [State.surplus, empty, none, waits] at even
    simpa [RemoverPc.holdsLock] using even
  have ends : s.remover = .deleted ↔ s.shared.queue = [] ∧ s.surplus = 0 := by
    constructor
    · intro gone
      have waited : s.remover.waited = true := by rw [gone]; rfl
      exact ⟨(removal.released waited).1, shutdown.settled waited⟩
    · rintro ⟨empty, even⟩
      obtain ⟨waits, held⟩ | gone := position
      · exact absurd (closed waits empty even) held
      · exact gone
  refine ⟨position.imp_left And.left, ends, ?_, ?_⟩
  · intro careful
    have drained := (careful.weaken fun _ _ => And.left).preserves Drained (fun _ => rfl)
      fun _ _ _ drained seen moved => drained.step seen moved
    have balanced := (balanced_of_run (careful.weaken fun _ _ => And.right)).1
    have gone : s.worker = .exited := by
      apply removal.gone
      obtain ⟨waits, -⟩ | gone := position
      · rw [waits]; rfl
      · rw [gone]; rfl
    exact ends.mpr ⟨drained (by rw [gone]; rfl), (balanced_iff_surplus s).mp balanced⟩
  · intro gone i c present
    have empty := (ends.mp gone).1
    exact rest.finished wf (oneOwner_of_run run) present (holders_of_empty empty i)

theorem removal_ends_deleted : ∃ s, Run State.step anyStep (.initial smallDevice) deleted s ∧ s.AtRest ∧
    s.remover = .deleted ∧ s.shared.queue = [] ∧ s.surplus = 0 := by
  have run := run_of_replay smallDevice deleted (by decide +kernel)
  have rest : (State.after smallDevice deleted).AtRest :=
    State.atRest (by decide +kernel) (by decide +kernel) (.inr (by decide +kernel))
  have gone : (State.after smallDevice deleted).remover = .deleted := by decide +kernel
  obtain ⟨-, ends, -⟩ := removal_ends smallDevice _ _ run rest (by rw [gone]; decide)
  exact ⟨_, run, rest, gone, ends.mp gone⟩

end QueueCache
