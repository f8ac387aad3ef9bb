import QueueCache.Proofs.Queue
import QueueCache.Proofs.ScanBounds

/-! # What the checks at entry leave for later

The range of a request is checked once, when its dispatch routine runs, and relied on by the queue scan
much later. Between the two the size of the device cannot change, because it is learnt only once. So in
every reachable state a read that waits for its scan has passed the checks against the current size, and
every item of the queue copies a write that has, or is empty.
-/

namespace QueueCache

open Transition

/-- The dispatch call an action is a step of, or a move of the lower driver on. -/
def Action.caller : Action → Option ℕ
  | .call i _ => some i
  | .transfer i _ _ => some i
  | .lowerComplete i _ _ => some i
  | _ => none

theorem LowerMove.caller {sh sh' : Shared} {i : ℕ} {c c' : Call} {a : Action} (moved : LowerMove sh i c a sh' c') :
    a.caller = some i := by
  cases moved <;> rfl

/-- Where a call of the state after a step comes from. -/
inductive CallMove (s : State) (a : Action) (s' : State) (i : ℕ) (c' : Call) : Prop
  | received {irp : Irp} (action : a = .receive irp) (fresh : s.calls[i]? = none) (new : c' = .receive irp)
      (shared : s'.shared = s.shared)
  | call {out : Outcome} {c : Call} (action : a = .call i out) (present : s.calls[i]? = some c)
      (taken : CallStep s.shared i c out s'.shared c')
  | lower {c : Call} (action : a.caller = some i) (present : s.calls[i]? = some c)
      (taken : LowerMove s.shared i c a s'.shared c')
  | worker {c : Call} {ioStatus : IoStatusBlock} (action : a.caller = none) (present : s.calls[i]? = some c)
      (held : c.Held)
      (new : c' = { c with information := ioStatus.information }.completeRequest .worker ioStatus.status)
  | still (elsewhere : a.caller ≠ some i) (present : s.calls[i]? = some c')

/-- A step moves one call, or none. -/
theorem Wf.callMove {s s' : State} {a : Action} {i : ℕ} {c' : Call} (wf : Wf s) (moved : s.step a = some s')
    (present' : s'.calls[i]? = some c') : CallMove s a s' i c' := by
  cases step_cases moved with
  | receive =>
    rcases lt_trichotomy i s.calls.length with inside | rfl | outside
    · rw [List.getElem?_append_left inside] at present'
      exact .still (by rintro ⟨⟩) present'
    · refine .received rfl (List.getElem?_eq_none le_rfl) ?_ rfl
      simpa using present'.symm
    · rw [List.getElem?_eq_none (by simp only [List.length_append, List.length_singleton]; omega)] at present'
      contradiction
  | @call j out c sh' d present taken =>
    by_cases same : j = i
    · subst same
      rw [State.update_calls, List.getElem?_set_self (List.getElem?_eq_some_iff.mp present).1] at present'
      obtain rfl := Option.some.inj present'
      exact .call rfl present taken
    · rw [State.update_calls, List.getElem?_set_ne same] at present'
      exact .still (by rintro ⟨⟩; exact same rfl) present'
  | @lower _ j c sh' d present taken =>
    have caller := taken.caller
    by_cases same : j = i
    · subst same
      rw [State.update_calls, List.getElem?_set_self (List.getElem?_eq_some_iff.mp present).1] at present'
      obtain rfl := Option.some.inj present'
      exact .lower caller present taken
    · rw [State.update_calls, List.getElem?_set_ne same] at present'
      exact .still (by rw [caller]; rintro ⟨⟩; exact same rfl) present'
  | worker taken =>
    cases taken with
    | @completeIrp memory addr j ioStatus item c at_ found holds present =>
      by_cases same : j = i
      · subst same
        obtain ⟨rest, shape, rfl, -⟩ := wf.found (by rw [at_]; rfl) found (by simp [at_])
        have member := s.pending_subset (shape ▸ List.mem_cons_self ..)
        obtain ⟨-, held, -⟩ := wf.holder member holds present
        rw [List.getElem?_set_self (List.getElem?_eq_some_iff.mp present).1] at present'
        exact .worker rfl present held (Option.some.inj present').symm
      · rw [List.getElem?_set_ne same] at present'
        exact .still (by rintro ⟨⟩) present'
    | _ => exact .still (by rintro ⟨⟩) present'
  | remover taken =>
    rw [taken.frame.2.2.2.2] at present'
    exact .still (by rintro ⟨⟩) present'
  | initializeDevice => exact .still (by rintro ⟨⟩) present'

/-- A call keeps its completions. -/
theorem CallMove.completions {s s' : State} {a : Action} {i : ℕ} {c c' : Call} (move : CallMove s a s' i c')
    (present : s.calls[i]? = some c) : c.completions <+: c'.completions := by
  cases move with
  | received _ fresh =>
    rw [fresh] at present
    contradiction
  | call _ there taken =>
    obtain rfl := Option.some.inj (present.symm.trans there)
    obtain same | ⟨completion, added, -⟩ := taken.completions
    · rw [same]
    · exact ⟨_, added.symm⟩
  | lower _ there taken =>
    obtain rfl := Option.some.inj (present.symm.trans there)
    obtain same | ⟨completion, added, -⟩ := taken.completions
    · rw [same]
    · exact ⟨_, added.symm⟩
  | worker _ there _ new =>
    obtain rfl := Option.some.inj (present.symm.trans there)
    rw [new]
    exact List.prefix_append _ _
  | still _ there =>
    obtain rfl := Option.some.inj (present.symm.trans there)
    exact List.prefix_rfl

/-- The size of the device is learnt at most once, and stays in range. -/
theorem step_size {s s' : State} {a : Action} (moved : s.step a = some s') :
    s'.shared.statistics.size = s.shared.statistics.size ∨
      (s.shared.statistics.size = 0 ∧ -2 ^ 63 ≤ s'.shared.statistics.size ∧ s'.shared.statistics.size < 2 ^ 63 ∧
        s'.calls = s.calls ∧ s'.shared.history = s.shared.history) := by
  cases step_cases moved with
  | receive => exact .inl rfl
  | call present taken => exact .inl taken.outer.size
  | lower present taken =>
    left
    cases taken with
    | scattered => simp only [State.update_shared, scatterComplete_statistics]
    | _ => rfl
  | worker taken =>
    left
    cases taken <;> rfl
  | remover taken =>
    left
    cases taken <;> rfl
  | initializeDevice unknown range => exact .inr ⟨unknown, range.1, range.2, rfl, rfl⟩

/-- The write on its way into the queue has passed the checks of `QCacheWrite`. -/
def IoStackLocation.WriteAccepted (io : IoStackLocation) (size : ℤ) : Prop :=
  io.majorFunction = .write → size ≠ 0 ∧ io.length ≠ 0 ∧ endOfMedia size io = false

/-- What the checks at entry have established for the points that rely on them. -/
def Call.Admitted (size : ℤ) (c : Call) : Prop :=
  match c.pc with
  | .scanQueue => size ≠ 0 ∧ c.irp.stack.ReadAccepted size
  | .queueIrp | .testMemory | .testSize | .testItems | .lazyNewItem | .lazyAcquireLock _ | .lazyMapMdl _
  | .lazyNewPayload _ | .lazyInsertTail _ => c.irp.stack.WriteAccepted size
  | _ => True

theorem Call.Admitted.step {sh sh' : Shared} {i : ℕ} {c c' : Call} {out : Outcome}
    (admitted : c.Admitted sh.statistics.size) (moved : CallStep sh i c out sh' c') :
    c'.Admitted sh'.statistics.size := by
  rw [moved.outer.size]
  cases moved with
  | entry at_ frame entered =>
    cases entered with
    | scan cached reads sized nonempty aligned onMedia => exact ⟨sized, reads, nonempty, aligned.1, aligned.2, onMedia⟩
    | closed closing cached notTransfer =>
      intro writes
      have writes : c.irp.stack.majorFunction = .write := writes
      simp [IoStackLocation.isTransfer, writes] at notTransfer
    | queued _ _ _ _ accepted => exact accepted
    | _ => trivial
  | splitOn at_ live frame cached next goes =>
    rcases goes with ⟨_, rfl⟩ | ⟨_, rfl⟩ <;> trivial
  | finishScatter =>
    rw [Call.Admitted, scatterComplete_pc]
    trivial
  | queueLazily at_ => rwa [Call.Admitted, at_] at admitted
  | memoryHigh at_ => rwa [Call.Admitted, at_] at admitted
  | sizeBelow at_ => rwa [Call.Admitted, at_] at admitted
  | itemsBelow at_ => rwa [Call.Admitted, at_] at admitted
  | lazyNewItem at_ => rwa [Call.Admitted, at_] at admitted
  | lazyAcquireWrite at_ => rwa [Call.Admitted, at_] at admitted
  | lazyAcquireFlush at_ => rwa [Call.Admitted, at_] at admitted
  | lazyMapMdl at_ => rwa [Call.Admitted, at_] at admitted
  | lazyNewPayload at_ => rwa [Call.Admitted, at_] at admitted
  | _ => trivial

theorem Call.Admitted.lower {sh sh' : Shared} {i : ℕ} {c c' : Call} {a : Action} {size : ℤ} (admitted : c.Admitted size)
    (moved : LowerMove sh i c a sh' c') : c'.Admitted size := by
  rw [Call.Admitted, moved.pc, moved.irp]
  exact admitted

/-- A call the checks let through when the size was not known yet is none that relies on them. -/
theorem Call.Admitted.resize {c : Call} (admitted : c.Admitted 0) (size : ℤ) : c.Admitted size := by
  unfold Call.Admitted at admitted ⊢
  split at admitted
  · exact absurd rfl admitted.1
  all_goals first
    | trivial
    | exact fun writes => absurd rfl (admitted writes).1

/-- The device's size is in range, and calls and items have passed the checks against it. -/
structure Admission (s : State) : Prop where
  range : -2 ^ 63 ≤ s.shared.statistics.size ∧ s.shared.statistics.size < 2 ^ 63
  calls : ∀ (i : ℕ) (c : Call), s.calls[i]? = some c → c.Admitted s.shared.statistics.size
  items : ∀ item ∈ s.shared.history.inserted,
    item.Empty ∨ (s.shared.statistics.size ≠ 0 ∧ item.Accepted s.shared.statistics.size)

theorem admission_initial (cfg : Config) : Admission (.initial cfg) where
  range := cfg.size_range
  calls i c present := by simp [State.initial] at present
  items item member := by simp [State.initial] at member

/-- The item a call links is empty or copies its accepted write. -/
theorem lazyItem_accepted {i : ℕ} {irp : Irp} {size : ℤ} (accepted : irp.stack.WriteAccepted size) :
    (lazyItem i irp).Empty ∨ (size ≠ 0 ∧ (lazyItem i irp).Accepted size) := by
  by_cases writes : irp.stack.majorFunction = .write
  · obtain ⟨sized, nonempty, onMedia⟩ := accepted writes
    refine .inr ⟨sized, irp.stack, nonempty, onMedia, ?_, ?_⟩ <;> rw [lazyItem, if_pos writes] <;> rfl
  · left
    rw [lazyItem, if_neg writes]
    exact ⟨rfl, rfl⟩

/-- An item that is linked while the size is known. -/
theorem Admission.insert {s : State} {i : ℕ} {c : Call} {item : WriteQueueItem} (admission : Admission s)
    (present : s.calls[i]? = some c)
    (made : (c.pc = .insertTail item ∧ item = heldItem i c.irp) ∨
      (c.pc = .lazyInsertTail item ∧ item = lazyItem i c.irp ∧ c.irp.stack.lazyKind)) :
    item.Empty ∨ (s.shared.statistics.size ≠ 0 ∧ item.Accepted s.shared.statistics.size) := by
  obtain ⟨-, rfl⟩ | ⟨at_, rfl, -⟩ := made
  · exact .inl ⟨rfl, rfl⟩
  · have accepted := admission.calls i c present
    rw [Call.Admitted, at_] at accepted
    exact lazyItem_accepted accepted

theorem Admission.step {s s' : State} {a : Action} (admission : Admission s) (wf : Wf s)
    (moved : s.step a = some s') : Admission s' := by
  obtain same | ⟨unknown, low, high, calls, history⟩ := step_size moved
  · refine ⟨same ▸ admission.range, fun i c' present' => ?_, ?_⟩
    · cases wf.callMove moved present' with
      | received _ _ new =>
        rw [new]
        trivial
      | call _ present taken => exact (admission.calls i _ present).step taken
      | lower _ present taken =>
        rw [same]
        exact (admission.calls i _ present).lower taken
      | @worker c _ _ present held new =>
        have admitted : c.Admitted s.shared.statistics.size := admission.calls i c present
        rw [same, new]
        exact admitted
      | still _ present =>
        rw [same]
        exact admission.calls i _ present
    · rw [same]
      cases wf.queueMove moved with
      | same frame =>
        rw [frame.inserted]
        exact admission.items
      | insert present shared made =>
        rw [shared]
        intro item member
        obtain old | new := List.mem_append.mp member
        · exact admission.items item old
        · rw [List.mem_singleton.mp new]
          exact admission.insert present made
      | clear _ frame =>
        rw [frame.inserted]
        exact admission.items
      | remove _ shared =>
        rw [shared]
        exact admission.items
  · refine ⟨⟨low, high⟩, fun i c present => ?_, fun item member => ?_⟩
    · rw [calls] at present
      have admitted := admission.calls i c present
      rw [unknown] at admitted
      exact admitted.resize _
    · rw [history] at member
      obtain empty | ⟨sized, -⟩ := admission.items item member
      · exact .inl empty
      · exact absurd unknown sized

theorem admission_of_run {cfg : Config} {ok : State → Action → Prop} {as : List Action} {s : State}
    (run : Run State.step ok (.initial cfg) as s) : Admission s := by
  have both : Wf s ∧ Admission s := by
    apply run.preserves (fun t => Wf t ∧ Admission t) ⟨wf_initial cfg, admission_initial cfg⟩
    rintro t a u ⟨wf, admission⟩ - moved
    exact ⟨wf.step moved, admission.step wf moved⟩
  exact both.2

/-- Every entry of the queue is empty or has passed the checks against the current size. -/
theorem Admission.queue {s : State} (admission : Admission s) (wf : Wf s) {item : WriteQueueItem}
    (member : item ∈ s.shared.queue) : item.Accepted s.shared.statistics.size ∨ item.Empty := by
  obtain ⟨source, pending, form⟩ := wf.mem_queue member
  obtain empty | ⟨-, accepted⟩ := admission.items source (s.pending_subset pending)
  · obtain rfl | rfl := form <;> exact .inr empty
  · obtain rfl | rfl := form <;> exact .inl accepted

theorem queue_accepted_of_run {cfg : Config} {ok : State → Action → Prop} {as : List Action} {s : State}
    (run : Run State.step ok (.initial cfg) as s) :
    ∀ item ∈ s.shared.queue, item.Accepted s.shared.statistics.size ∨ item.Empty :=
  fun _ member => (admission_of_run run).queue (wf_of_run run) member

end QueueCache
