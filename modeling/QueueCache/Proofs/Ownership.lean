import QueueCache.Proofs.Queue

/-! # Every request has one owner

A request is with its dispatch call, completed, forwarded, held by a queue entry or held by a scatter
object. Each step of any party moves the request from one of these to another, so their number stays
one; a request is completed at most once because a completion takes the last place there is.
-/

namespace QueueCache

open Transition

/-- The dispatch call still has to dispose of the request itself. -/
def Pc.owns : Pc → Bool
  | .returned _ | .setEvent | .split _ _ _ _ | .finishScatter _ => false
  | _ => true

/-- About to link an item that holds the request. -/
def Pc.givesAway : Pc → Bool
  | .insertTail _ => true
  | _ => false

namespace Call

/-- In how many places the request is, queue entries apart. -/
def places (c : Call) : ℕ :=
  c.pc.owns.toNat + c.completions.length + c.forwards + c.scatter.isSome.toNat

end Call

/-- The queue entries that hold the request of call `i`. -/
def State.holders (s : State) (i : ℕ) : ℕ := s.shared.queue.countP fun item => item.irp = some i

/-- In how many places the request of call `i` is. -/
def State.owners (s : State) (i : ℕ) (c : Call) : ℕ := c.places + s.holders i

private theorem scatterComplete_places (sh : Shared) (i : ℕ) (c : Call) (scatter scatter' : ScatteredIrp)
    (live : c.scatter = some scatter) : (scatterComplete sh i c scatter').2.places = c.places := by
  unfold scatterComplete
  dsimp only
  split
  · simp [Call.places, live]
    omega
  · simp [Call.places, live]

/-- A dispatch call moves its request between places; linking a held item gives it away. -/
theorem CallStep.places {sh sh' : Shared} {i : ℕ} {c c' : Call} {out : Outcome} (ok : CallOk i c)
    (moved : CallStep sh i c out sh' c') : c'.places + c.pc.givesAway.toNat = c.places := by
  have here := ok.atPc
  cases moved with
  | entry at_ _ entered =>
    cases entered <;> simp [Call.places, Call.afterEntry, at_, Pc.owns, Pc.givesAway]
  | refuse at_ => rcases at_ with at_ | at_ | at_ <;> simp [Call.places, at_, Pc.owns, Pc.givesAway]
  | noItem at_ =>
    rcases at_ with at_ | at_ <;> simp [Call.places, at_, Pc.owns, Pc.givesAway] <;> omega
  | noLock at_ =>
    rcases at_ with at_ | at_ <;> simp [Call.places, at_, Pc.owns, Pc.givesAway] <;> omega
  | createScatter at_ =>
    rw [Call.AtPc, at_] at here
    simp [Call.places, at_, Pc.owns, Pc.givesAway, here.1.scatter]
    omega
  | splitOn at_ live _ _ _ goes =>
    rcases goes with ⟨_, rfl⟩ | ⟨_, rfl⟩ <;> simp [Call.places, at_, Pc.owns, Pc.givesAway, live]
  | splitFail at_ live => simp [Call.places, at_, Pc.owns, Pc.givesAway, live]
  | @finishScatter sh₁ _ scatter at_ live =>
    rw [scatterComplete_places sh₁ i (c.goto (.returned STATUS_PENDING)) scatter scatter live]
    simp [Call.places, at_, Pc.owns, Pc.givesAway]
  | forward at_ => simp [Call.places, sendToNextDriver, at_, Pc.owns, Pc.givesAway]; omega
  | insertTail at_ => simp [Call.places, at_, Pc.owns, Pc.givesAway]; omega
  | complete at_ => simp [Call.places, at_, Pc.owns, Pc.givesAway]; omega
  | noMapping at_ => simp [Call.places, at_, Pc.owns, Pc.givesAway]; omega
  | noPayload at_ => simp [Call.places, at_, Pc.owns, Pc.givesAway]; omega
  | lazyComplete at_ => simp [Call.places, at_, Pc.owns, Pc.givesAway]; omega
  | _ at_ => simp [Call.places, at_, Pc.owns, Pc.givesAway]

theorem LowerMove.places {sh sh' : Shared} {i : ℕ} {c c' : Call} {a : Action}
    (moved : LowerMove sh i c a sh' c') :
    c'.places = c.places := by
  cases moved with
  | @scattered n _ scatter _ _ _ live =>
    exact scatterComplete_places sh i { c with lowerIrps := c.lowerIrps.eraseIdx n } scatter _ live
  | _ => rfl

/-- Every received request is in exactly one place. -/
def OneOwner (s : State) : Prop := ∀ (i : ℕ) (c : Call), s.calls[i]? = some c → s.owners i c = 1

private theorem holders_of_queue {s : State} (s' : State) (queue : s'.shared.queue = s.shared.queue) (i : ℕ) :
    s'.holders i = s.holders i := by
  rw [State.holders, queue, State.holders]

/-- Nothing holds the request of a call that has not linked it. -/
theorem Wf.holders_eq_zero {s : State} (wf : Wf s) {i : ℕ}
    (unlinked : ∀ c, s.calls[i]? = some c → c.pc ≠ .setEvent ∧ c.pc ≠ .returned STATUS_PENDING) :
    s.holders i = 0 := by
  rw [State.holders, List.countP_eq_zero]
  intro item member holds
  obtain ⟨c, present, -, position⟩ := wf.holder_queue member (of_decide_eq_true holds)
  obtain ⟨notSet, notReturned⟩ := unlinked c present
  exact position.elim notSet notReturned

private theorem OneOwner.call {s : State} (one : OneOwner s) (wf : Wf s) {i : ℕ} {c c' : Call} {sh' : Shared}
    {out : Outcome} (present : s.calls[i]? = some c) (moved : CallStep s.shared i c out sh' c') :
    OneOwner (s.update i (sh', c')) := by
  have ok := wf.calls _ _ present
  have here := ok.atPc
  have places := moved.places ok
  have before := one i c present
  rw [State.owners] at before
  rcases moved.queue_cases with ⟨frame, -⟩ | ⟨item, charge, rfl, ⟨at_, -, rfl⟩ | ⟨at_, -, rfl⟩⟩
  · have same := holders_of_queue (s.update i (sh', c')) frame.queue
    have kept : c.pc.givesAway = false := by
      cases at_ : c.pc with
      | insertTail item =>
        obtain ⟨rfl, -⟩ := moved.of_insertTail at_
        have items := frame.items
        simp at items
      | _ => rfl
    rw [kept, Bool.toNat_false, add_zero] at places
    refine List.forall_getElem?_set ?_ fun j d at_ => ?_
    · change c'.places + _ = 1
      rw [same, places, before]
    · rw [State.owners, same]
      exact one j d at_
  · rw [at_] at places
    rw [Call.AtPc, at_] at here
    refine List.forall_getElem?_set_of_ne ?_ fun j d other present => ?_
    · have more : (s.update i (s.shared.insertTailList item charge, c.goto .setEvent)).holders i =
          s.holders i + 1 := by
        simp [State.holders, State.update, here.2.2.2]
      change (c.goto .setEvent).places + _ = 1
      simp only [Pc.givesAway, Bool.toNat_true] at places
      omega
    · have same : (s.update i (s.shared.insertTailList item charge, c.goto .setEvent)).holders j =
          s.holders j := by
        simp [State.holders, State.update, here.2.2.2, Ne.symm other]
      rw [State.owners, same]
      exact one j d present
  · rw [at_] at places
    rw [Call.AtPc, at_] at here
    have same : ∀ j, (s.update i (s.shared.insertTailList item charge, c.goto .lazySetEvent)).holders j =
        s.holders j := by
      intro j
      simp [State.holders, State.update, here.2.2.2]
    refine List.forall_getElem?_set ?_ fun j d present => ?_
    · change (c.goto .lazySetEvent).places + _ = 1
      simp only [Pc.givesAway, Bool.toNat_false, add_zero] at places
      rw [same, places, before]
    · rw [State.owners, same]
      exact one j d present

theorem OneOwner.step {s s' : State} {a : Action} (one : OneOwner s) (wf : Wf s)
    (moved : s.step a = some s') : OneOwner s' := by
  cases step_cases moved with
  | receive =>
    refine List.forall_getElem?_snoc ?_ one
    have none : s.holders s.calls.length = 0 := wf.holders_eq_zero fun c present => by simp at present
    change 1 + s.holders s.calls.length = 1
    rw [none]
  | call present taken => exact one.call wf present taken
  | @lower _ i c sh' c' present taken =>
    have same := holders_of_queue (s.update i (sh', c')) taken.queue.1.queue
    refine List.forall_getElem?_set ?_ fun j d at_ => ?_
    · change c'.places + _ = 1
      rw [same, taken.places]
      exact one i c present
    · rw [State.owners, same]
      exact one j d at_
  | worker taken =>
    cases taken with
    | @completeIrp _ _ i ioStatus item c at_ found holds present =>
      obtain ⟨rest, shape, rfl, queue⟩ := wf.found (by rw [at_]; rfl) found (by simp [at_])
      have nodup := wf.pending_nodup
      rw [shape] at nodup
      have cleared : State.clearIrp s.shared.queue item.addr = { item with irp := none } :: rest := by
        rw [queue, clearIrp_head nodup]
      have holders : ∀ s' : State, s'.shared.queue = State.clearIrp s.shared.queue item.addr →
          ∀ j, s'.holders j + (if i = j then 1 else 0) = s.holders j := by
        intro s' queue' j
        rw [State.holders, State.holders, queue', cleared, queue]
        simp [List.countP_cons, holds]
      refine List.forall_getElem?_set_of_ne ?_ fun j d other there => ?_
      · have before := one i c present
        have released := holders { s with shared := s.shared.withQueue (State.clearIrp s.shared.queue item.addr) }
          rfl i
        rw [if_pos rfl] at released
        simp only [State.owners, Call.places, Call.completeRequest, List.length_append, List.length_singleton]
          at before ⊢
        change _ + State.holders { s with
          shared := s.shared.withQueue (State.clearIrp s.shared.queue item.addr) } i = 1
        omega
      · have before := one j d there
        have released := holders { s with shared := s.shared.withQueue (State.clearIrp s.shared.queue item.addr) }
          rfl j
        rw [if_neg (Ne.symm other), add_zero] at released
        rw [State.owners, ← released] at before
        exact before
    | unlink at_ found =>
      obtain ⟨head, rest, -, -, rfl, queue⟩ := wf.found_unlink at_ found
      intro j d there
      have before := one j d there
      have left := s.shared.removeEntryList_queue _ queue
      rw [State.owners, State.holders] at before ⊢
      change _ + List.countP _ (s.shared.removeEntryList _).queue = 1
      rw [left]
      rw [queue] at before
      simpa using before
    | _ => exact one
  | remover taken =>
    obtain ⟨frame, -, -, -, calls⟩ := taken.frame
    intro i c present
    rw [calls] at present
    rw [State.owners, holders_of_queue _ frame.queue]
    exact one i c present
  | initializeDevice => exact one

theorem oneOwner_of_run {cfg : Config} {ok : State → Action → Prop} {as : List Action} {s : State}
    (run : Run State.step ok (.initial cfg) as s) : OneOwner s := by
  refine (run.preserves (fun s => Wf s ∧ OneOwner s) ⟨wf_initial cfg, ?_⟩ ?_).2
  · intro i c present
    simp [State.initial] at present
  · rintro t a u ⟨wf, one⟩ _ moved
    exact ⟨wf.step moved, one.step wf moved⟩

/-- What a dispatch call has returned: the lower driver's status for a request it forwarded, pending
exactly when it marked the request so, and else the status it completed the request with. -/
def Call.ReturnsFaithfully (c : Call) : Prop :=
  ∀ status, c.pc = .returned status →
    (c.forwards = 1 ∧ c.pendingReturned = false) ∨
      (c.forwards = 0 ∧ c.pendingReturned = true ∧ status = STATUS_PENDING) ∨
      (c.forwards = 0 ∧ c.pendingReturned = false ∧ status ≠ STATUS_PENDING ∧
        ∃ completion, c.completions = [completion] ∧ completion.status = status)

theorem CallOk.returnsFaithfully {i : ℕ} {c : Call} (ok : CallOk i c) : c.ReturnsFaithfully := by
  intro status at_
  have here := ok.atPc
  rw [Call.AtPc, at_] at here
  cases here with
  | completed completion once same final _ pending forwards =>
    exact .inr (.inr ⟨forwards, pending, final, completion, once, same⟩)
  | forwarded forwards pending => exact .inl ⟨forwards, pending⟩
  | held same held => exact .inr (.inl ⟨held.forwards, held.pending, same⟩)
  | scattered same scattered => exact .inr (.inl ⟨scattered.forwards, scattered.pending, same⟩)

/-- The dispatch call of a forwarded request has returned, and nothing else has its request. -/
theorem CallOk.forwarded {i : ℕ} {c : Call} (ok : CallOk i c) (forwards : c.forwards ≠ 0) :
    (∃ status, c.pc = .returned status) ∧ c.scatter = none ∧ c.completions = [] := by
  have here := ok.atPc
  cases at_ : c.pc with
  | returned status =>
    rw [Call.AtPc, at_] at here
    cases here with
    | forwarded _ _ completions scatter => exact ⟨⟨status, rfl⟩, scatter, completions⟩
    | completed _ _ _ _ _ _ none => exact absurd none forwards
    | held _ held => exact absurd held.forwards forwards
    | scattered _ scattered => exact absurd scattered.forwards forwards
  | setEvent =>
    rw [Call.AtPc, at_] at here
    exact absurd here.forwards forwards
  | split =>
    rw [Call.AtPc, at_] at here
    exact absurd here.forwards forwards
  | finishScatter =>
    rw [Call.AtPc, at_] at here
    exact absurd here.forwards forwards
  | _ =>
    rw [Call.AtPc, at_] at here
    exact absurd here.1.forwards forwards

/-- Only the lower driver acts on a request that was forwarded to it. -/
theorem Wf.forwarded_untouched {s s' : State} {a : Action} (wf : Wf s) {i : ℕ} {c : Call}
    (present : s.calls[i]? = some c) (forwards : c.forwards ≠ 0) (moved : s.step a = some s') :
    s'.calls[i]? = some c ∨ (∃ n sec, a = .transfer i n sec) ∨ ∃ n ioStatus, a = .lowerComplete i n ioStatus := by
  obtain ⟨⟨status, returned⟩, -, -⟩ := (wf.calls i c present).forwarded forwards
  cases step_cases moved with
  | receive => exact .inl (by rw [List.getElem?_append_left (List.getElem?_eq_some_iff.mp present).1, present])
  | @call j out d sh' d' there taken =>
    left
    have other : j ≠ i := by
      rintro rfl
      obtain rfl : d = c := Option.some.inj (there.symm.trans present)
      exact taken.not_returned status returned
    exact (List.getElem?_set_ne other).trans present
  | @lower _ j d sh' d' there taken =>
    by_cases mine : j = i
    · subst mine
      right
      cases taken with
      | write => exact .inl ⟨_, _, rfl⟩
      | read => exact .inl ⟨_, _, rfl⟩
      | scattered => exact .inr ⟨_, _, rfl⟩
      | skipped => exact .inr ⟨_, _, rfl⟩
    · exact .inl ((List.getElem?_set_ne mine).trans present)
  | worker taken =>
    left
    cases taken with
    | @completeIrp _ _ j ioStatus item d at_ found holds there =>
      obtain ⟨rest, shape, rfl, queue⟩ := wf.found (by rw [at_]; rfl) found (by simp [at_])
      obtain ⟨-, held, -⟩ := wf.holder (s.pending_subset (shape ▸ List.mem_cons_self ..)) holds there
      have other : j ≠ i := by
        rintro rfl
        obtain rfl : d = c := Option.some.inj (there.symm.trans present)
        exact forwards held.forwards
      exact (List.getElem?_set_ne other).trans present
    | _ => exact present
  | remover taken => exact .inl (by rw [taken.frame.2.2.2.2, present])
  | initializeDevice => exact .inl present

/-- What this driver stores about a request: where its dispatch call is and what was done with it. -/
structure Call.SameRecord (c c' : Call) : Prop where
  pc : c'.pc = c.pc
  information : c'.information = c.information
  deviceData : c'.deviceData = c.deviceData
  pendingReturned : c'.pendingReturned = c.pendingReturned
  completions : c'.completions = c.completions
  forwards : c'.forwards = c.forwards
  scatter : c'.scatter = c.scatter

theorem Call.SameRecord.refl (c : Call) : c.SameRecord c := ⟨rfl, rfl, rfl, rfl, rfl, rfl, rfl⟩

theorem Call.SameRecord.trans {c d e : Call} (first : c.SameRecord d) (second : d.SameRecord e) :
    c.SameRecord e :=
  ⟨second.pc.trans first.pc, second.information.trans first.information,
    second.deviceData.trans first.deviceData, second.pendingReturned.trans first.pendingReturned,
    second.completions.trans first.completions, second.forwards.trans first.forwards,
    second.scatter.trans first.scatter⟩

/-- The lower driver's work on a forwarded request leaves this driver's record of it alone. -/
theorem Wf.forwarded_step {s s' : State} {a : Action} (wf : Wf s) {i : ℕ} {c : Call}
    (present : s.calls[i]? = some c) (forwards : c.forwards ≠ 0) (moved : s.step a = some s') :
    ∃ c', s'.calls[i]? = some c' ∧ c.SameRecord c' := by
  rcases wf.forwarded_untouched present forwards moved with same | label
  · exact ⟨c, same, .refl c⟩
  · have scatter := ((wf.calls i c present).forwarded forwards).2.1
    cases step_cases moved with
    | @lower _ j d sh' d' there taken =>
      obtain rfl : j = i := by
        rcases label with ⟨n, sec, rfl⟩ | ⟨n, ioStatus, rfl⟩ <;> cases taken <;> rfl
      obtain rfl : d = c := Option.some.inj (there.symm.trans present)
      refine ⟨d', List.getElem?_set_self (List.getElem?_eq_some_iff.mp present).1, ?_⟩
      cases taken with
      | scattered _ _ live => rw [scatter] at live; contradiction
      | _ => exact ⟨rfl, rfl, rfl, rfl, rfl, rfl, rfl⟩
    | receive => rcases label with ⟨_, _, same⟩ | ⟨_, _, same⟩ <;> cases same
    | call => rcases label with ⟨_, _, same⟩ | ⟨_, _, same⟩ <;> cases same
    | worker taken => rcases label with ⟨_, _, rfl⟩ | ⟨_, _, rfl⟩ <;> cases taken
    | remover => rcases label with ⟨_, _, same⟩ | ⟨_, _, same⟩ <;> cases same
    | initializeDevice => rcases label with ⟨_, _, same⟩ | ⟨_, _, same⟩ <;> cases same

theorem Wf.forwarded_run {s s' : State} {as : List Action} (wf : Wf s) {i : ℕ} {c : Call}
    (present : s.calls[i]? = some c) (forwards : c.forwards ≠ 0) (run : Run State.step anyStep s as s') :
    ∃ c', s'.calls[i]? = some c' ∧ c.SameRecord c' := by
  refine (run.preserves (fun t => Wf t ∧ ∃ c', t.calls[i]? = some c' ∧ c.SameRecord c')
    ⟨wf, c, present, .refl c⟩ ?_).2
  rintro t a u ⟨wf, d, there, same⟩ _ moved
  obtain ⟨e, after, same'⟩ := wf.forwarded_step there (by rw [same.forwards]; exact forwards) moved
  exact ⟨wf.step moved, e, after, same.trans same'⟩

/-- In every reachable state each request has exactly one owner, each dispatch call that has returned
returned what became of its request, and a forwarded request is the lower driver's for good. -/
theorem request_ownership (cfg : Config) (as : List Action) (s : State)
    (run : Run State.step anyStep (.initial cfg) as s) (i : ℕ) (c : Call) (present : s.calls[i]? = some c) :
    c.pc.owns.toNat + c.completions.length + c.forwards + s.holders i + c.scatter.isSome.toNat = 1 ∧
      c.ReturnsFaithfully ∧
      (∀ out s', c.pc = .forward → s.step (.call i out) = some s' →
        ∃ c', s'.calls[i]? = some c' ∧ c'.forwards = 1 ∧ c'.pc = .returned out.lowerReturn) ∧
      (c.forwards ≠ 0 → ∀ a s', s.step a = some s' → s'.calls[i]? = some c ∨
        (∃ n sec, a = .transfer i n sec) ∨ ∃ n ioStatus, a = .lowerComplete i n ioStatus) ∧
      (c.forwards ≠ 0 → ∀ bs s', Run State.step anyStep s bs s' →
        ∃ c', s'.calls[i]? = some c' ∧ c.SameRecord c' ∧ s'.holders i = 0) := by
  have wf := wf_of_run run
  have ok := wf.calls i c present
  have one := oneOwner_of_run run i c present
  rw [State.owners, Call.places] at one
  refine ⟨by omega, ok.returnsFaithfully, ?_, fun forwards a s' => wf.forwarded_untouched present forwards, ?_⟩
  · intro out s' at_ moved
    have here := ok.atPc
    rw [Call.AtPc, at_] at here
    simp only [State.step, present, callStep, at_, Option.bind_some, Option.map_some, Option.some.injEq] at moved
    subst moved
    exact ⟨sendToNextDriver c out.lowerReturn,
      List.getElem?_set_self (List.getElem?_eq_some_iff.mp present).1,
      by simp [sendToNextDriver, here.1.forwards], rfl⟩
  · intro forwards bs s' later
    obtain ⟨c', there, same⟩ := wf.forwarded_run present forwards later
    refine ⟨c', there, same, ?_⟩
    have one' := oneOwner_of_run (run.append later) i c' there
    rw [State.owners, Call.places, same.forwards] at one'
    omega

/-- A shutdown request waits in the queue after its dispatch call has returned. -/
theorem request_ownership_shutdown : ∃ s c, Run State.step anyStep (.initial smallDevice)
      ([.receive shutdownRequest] ++ callSteps 0 6) s ∧ s.calls[0]? = some c ∧
    c.pc.owns.toNat + c.completions.length + c.forwards + s.holders 0 + c.scatter.isSome.toNat = 1 ∧
    s.holders 0 = 1 := by
  have run := run_of_replay smallDevice ([.receive shutdownRequest] ++ callSteps 0 6) (by decide +kernel)
  have present := State.call_after (show ((State.after smallDevice
    ([.receive shutdownRequest] ++ callSteps 0 6)).calls[0]?).isSome by decide +kernel)
  have owned := request_ownership smallDevice _ _ run 0 _ present
  exact ⟨_, _, run, present, owned.1, by decide +kernel⟩

end QueueCache
