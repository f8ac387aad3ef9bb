import QueueCache.ToMathlib.Run
import QueueCache.ToMathlib.Tally
import QueueCache.Proofs.Calls

/-! # The write queue and its worker

`Wf` ties the list the parties share to the order of insertion: the queue is what was inserted and
not yet unlinked, every inserted item is the canonical item of its call, no call inserts twice, and
the worker's item is the head of the queue. It holds of every reachable state, with no assumption on
allocations, locks, limits or the lower driver.
-/

namespace QueueCache

open Transition

/-- The call whose item is linked has passed the insertion. -/
inductive Linked (item : WriteQueueItem) (c : Call) : Prop
  | held (same : item = heldItem item.addr c.irp) (held : c.Held)
      (at_ : c.pc = .setEvent ∨ c.pc = .returned STATUS_PENDING)
  | lazily (same : item = lazyItem item.addr c.irp) (kind : c.irp.stack.lazyKind)
      (at_ : c.pc = .lazySetEvent ∨ c.pc = .lazyComplete ∨
        c.pc = .returned STATUS_SUCCESS ∧ ∃ completion, c.completions = [completion] ∧
          completion.site = .lazyWrite)

/-- The item of a call that has passed the insertion is linked. -/
structure Call.Recorded (i : ℕ) (inserted : List WriteQueueItem) (c : Call) : Prop where
  held : c.pendingReturned = true → c.irp.stack.majorFunction ≠ .read →
    (∀ item, c.pc ≠ .insertTail item) → heldItem i c.irp ∈ inserted
  queued : c.pc = .lazySetEvent ∨ c.pc = .lazyComplete → lazyItem i c.irp ∈ inserted
  completed : ∀ completion ∈ c.completions, completion.site = .lazyWrite → lazyItem i c.irp ∈ inserted

/-- Inserted and not yet unlinked. -/
def State.pending (s : State) : List WriteQueueItem :=
  s.shared.history.inserted.drop s.shared.history.unlinked.length

/-- The worker clears the request pointer of its item before it unlinks the item. -/
def WorkerPc.cleared (worker : WorkerPc) (pending : List WriteQueueItem) : List WriteQueueItem :=
  match worker with
  | .unlink addr => State.clearIrp pending addr
  | _ => pending

/-- The item the worker points to. -/
def WorkerPc.item? : WorkerPc → Option ℕ
  | .dispatch addr => some addr
  | .lower request _ => some request.item
  | .complete addr _ => some addr
  | .unlink addr => some addr
  | _ => none

/-- What holds of the queue, the log of insertions and the worker in every reachable state. -/
structure Wf (s : State) : Prop where
  calls : ∀ (i : ℕ) (c : Call), s.calls[i]? = some c → CallOk i c
  linked : ∀ item ∈ s.shared.history.inserted, ∃ c, s.calls[item.addr]? = some c ∧ Linked item c
  recorded : ∀ (i : ℕ) (c : Call), s.calls[i]? = some c → c.Recorded i s.shared.history.inserted
  nodup : (s.shared.history.inserted.map WriteQueueItem.addr).Nodup
  unlinked : s.shared.history.unlinked =
    (s.shared.history.inserted.take s.shared.history.unlinked.length).map WriteQueueItem.addr
  queue : s.shared.queue = s.worker.cleared s.pending
  worker : ∀ addr, s.worker.item? = some addr → ∃ item rest, s.pending = item :: rest ∧ item.addr = addr

theorem wf_initial (cfg : Config) : Wf (.initial cfg) where
  calls i c present := by simp [State.initial] at present
  linked item member := by simp [State.initial] at member
  recorded i c present := by simp [State.initial] at present
  nodup := List.nodup_nil
  unlinked := rfl
  queue := rfl
  worker addr present := by simp [State.initial, WorkerPc.item?] at present

/-- What a linked call can still do keeps it linked. -/
theorem Linked.step {sh sh' : Shared} {i : ℕ} {c c' : Call} {out : Outcome} {item : WriteQueueItem}
    (linked : Linked item c) (ok : CallOk i c) (moved : CallStep sh i c out sh' c') : Linked item c' := by
  cases linked with
  | held same held at_ =>
    rcases at_ with at_ | at_
    · obtain ⟨-, rfl⟩ := moved.of_setEvent at_
      exact .held same { held with } (.inr rfl)
    · exact absurd at_ (moved.not_returned _)
  | lazily same kind at_ =>
    rcases at_ with at_ | at_ | ⟨at_, _⟩
    · obtain ⟨-, rfl⟩ := moved.of_lazySetEvent at_
      exact .lazily same kind (.inr (.inl rfl))
    · obtain ⟨-, information, rfl⟩ := moved.of_lazyComplete at_
      have untouched := ok.atPc
      rw [Call.AtPc, at_] at untouched
      exact .lazily same kind (.inr (.inr ⟨rfl, _, by simp [untouched.1.completions]; rfl, rfl⟩))
    · exact absurd at_ (moved.not_returned _)

/-- Nothing of a linked call is in the lower driver. -/
theorem Linked.lowerIrps {i : ℕ} {c : Call} {item : WriteQueueItem} (linked : Linked item c)
    (ok : CallOk i c) : c.lowerIrps = [] := by
  have here := ok.atPc
  cases linked with
  | held same held at_ => exact held.lowerIrps
  | lazily same kind at_ =>
    rcases at_ with at_ | at_ | ⟨at_, completion, once, site⟩
    · rw [Call.AtPc, at_] at here
      exact here.1.lowerIrps
    · rw [Call.AtPc, at_] at here
      exact here.1.lowerIrps
    · rw [Call.AtPc, at_] at here
      cases here with
      | completed _ _ _ _ _ _ _ _ lowerIrps => exact lowerIrps
      | forwarded _ _ none => simp [none] at once
      | held same => exact absurd same (by decide)
      | scattered same => exact absurd same (by decide)

/-- The worker's completion keeps the request's item linked. -/
theorem Linked.completeHeld {c : Call} {item : WriteQueueItem} (linked : Linked item c)
    (position : c.pc = .setEvent ∨ c.pc = .returned STATUS_PENDING) (ioStatus : IoStatusBlock) :
    Linked item ({ c with information := ioStatus.information }.completeRequest .worker ioStatus.status) := by
  cases linked with
  | held same held at_ =>
    exact .held same (held.complete ioStatus) at_
  | lazily same kind at_ =>
    have apart : STATUS_PENDING ≠ STATUS_SUCCESS := by decide
    rcases position with here | here <;> rcases at_ with at_ | at_ | ⟨at_, _⟩ <;>
      simp [here, apart] at at_

/-- A request of a linked call is held exactly when its item points to it. -/
theorem Linked.held_of_irp {c : Call} {item : WriteQueueItem} (linked : Linked item c)
    (holds : item.irp ≠ none) : item = heldItem item.addr c.irp ∧ c.Held ∧
      (c.pc = .setEvent ∨ c.pc = .returned STATUS_PENDING) := by
  cases linked with
  | held same held at_ => exact ⟨same, held, at_⟩
  | lazily same => exact absurd (by rw [same, lazyItem_irp]) holds

theorem Call.Recorded.mono {i : ℕ} {inserted inserted' : List WriteQueueItem} {c : Call}
    (recorded : c.Recorded i inserted) (grows : inserted ⊆ inserted') : c.Recorded i inserted' :=
  ⟨fun pending notRead past => grows (recorded.held pending notRead past),
    fun at_ => grows (recorded.queued at_),
    fun completion member site => grows (recorded.completed completion member site)⟩

/-- Completing a request elsewhere than in the lazy path records nothing new. -/
theorem Call.Recorded.keep {i : ℕ} {inserted : List WriteQueueItem} {c c' : Call}
    (recorded : c.Recorded i inserted) (irp : c'.irp = c.irp) (pc : c'.pc = c.pc)
    (pendingReturned : c'.pendingReturned = c.pendingReturned)
    (completions : c'.completions = c.completions ∨ ∃ completion,
      c'.completions = c.completions ++ [completion] ∧ completion.site ≠ .lazyWrite) :
    c'.Recorded i inserted := by
  refine ⟨?_, ?_, fun completion member site => ?_⟩
  · rw [irp, pc, pendingReturned]
    exact recorded.held
  · rw [irp, pc]
    exact recorded.queued
  · rw [irp]
    rcases completions with same | ⟨added, same, other⟩
    · exact recorded.completed completion (same ▸ member) site
    · rw [same] at member
      rcases List.mem_append.mp member with old | new
      · exact recorded.completed completion old site
      · rw [List.mem_singleton.mp new] at site
        exact absurd site other

/-- The log of insertions only grows. -/
theorem CallStep.inserted {sh sh' : Shared} {i : ℕ} {c c' : Call} {out : Outcome}
    (moved : CallStep sh i c out sh' c') : sh.history.inserted ⊆ sh'.history.inserted := by
  rcases moved.queue_cases with ⟨frame, _⟩ | ⟨item, charge, rfl, _⟩
  · rw [frame.inserted]
    exact List.Subset.refl _
  · exact List.subset_append_left _ _

theorem Call.Recorded.step {sh sh' : Shared} {i : ℕ} {c c' : Call} {out : Outcome}
    (recorded : c.Recorded i sh.history.inserted) (ok : CallOk i c) (moved : CallStep sh i c out sh' c') :
    c'.Recorded i sh'.history.inserted := by
  have here := ok.atPc
  refine ⟨fun pending notRead past => ?_, fun arrives => ?_, fun completion member site => ?_⟩
  all_goals rw [moved.irp]
  · rw [moved.irp] at notRead
    rcases moved.pendingReturned with same | ⟨item, at_⟩ | ⟨bitmap, index, bits, at_⟩
    · by_cases linking : ∃ item, c.pc = .insertTail item
      · obtain ⟨item, at_⟩ := linking
        obtain ⟨rfl, rfl⟩ := moved.of_insertTail at_
        rw [Call.AtPc, at_] at here
        rw [here.2.2.2]
        exact List.mem_append_right _ (List.mem_singleton_self _)
      · exact moved.inserted (recorded.held (same.symm.trans pending) notRead (not_exists.mp linking))
    · exact absurd at_ (past item)
    · rw [Call.AtPc, at_] at here
      exact absurd here.2.2 notRead
  · rcases moved.to_lazy arrives with ⟨item, at_⟩ | at_
    · obtain ⟨rfl, rfl⟩ := moved.of_lazyInsertTail at_
      rw [Call.AtPc, at_] at here
      rw [here.2.2.2]
      exact List.mem_append_right _ (List.mem_singleton_self _)
    · exact moved.inserted (recorded.queued (.inl at_))
  · rcases moved.completions with same | ⟨added, same, reason⟩
    · exact moved.inserted (recorded.completed completion (same ▸ member) site)
    · rw [same] at member
      rcases List.mem_append.mp member with old | new
      · exact moved.inserted (recorded.completed completion old site)
      · rw [List.mem_singleton.mp new] at site
        rcases reason with other | other | ⟨at_, _⟩
        · rw [other] at site; contradiction
        · rw [other] at site; contradiction
        · exact moved.inserted (recorded.queued (.inr at_))

section Frames

variable {s s' : State}

/-- A step that leaves the queue, its log and the worker alone needs the calls' facts only. -/
private theorem Wf.frame (wf : Wf s) (frame : QueueFrame s.shared s'.shared) (worker : s'.worker = s.worker)
    (calls : ∀ (i : ℕ) (c : Call), s'.calls[i]? = some c →
      CallOk i c ∧ c.Recorded i s.shared.history.inserted)
    (linked : ∀ item ∈ s.shared.history.inserted, ∃ c, s'.calls[item.addr]? = some c ∧ Linked item c) :
    Wf s' where
  calls i c present := (calls i c present).1
  linked := by rw [frame.inserted]; exact linked
  recorded i c present := by rw [frame.inserted]; exact (calls i c present).2
  nodup := by rw [frame.inserted]; exact wf.nodup
  unlinked := by rw [frame.inserted, frame.unlinked]; exact wf.unlinked
  queue := by
    rw [frame.queue, wf.queue, worker, State.pending, State.pending, frame.inserted, frame.unlinked]
  worker := by rw [worker, State.pending, frame.inserted, frame.unlinked]; exact wf.worker

/-- One call moved and the queue did not. -/
private theorem Wf.frame_call (wf : Wf s) {i : ℕ} {c c' : Call} {sh' : Shared}
    (present : s.calls[i]? = some c) (frame : QueueFrame s.shared sh') (ok : CallOk i c')
    (recorded : c'.Recorded i s.shared.history.inserted)
    (kept : ∀ item, Linked item c → Linked item c') : Wf (s.update i (sh', c')) := by
  refine wf.frame frame rfl ?_ fun item member => ?_
  · exact List.forall_getElem?_set ⟨ok, recorded⟩ fun j d at_ => ⟨wf.calls j d at_, wf.recorded j d at_⟩
  · exact List.exists_getElem?_set present (fun _ => kept item) (fun _ holds => holds) (wf.linked item member)

/-- The worker moved without touching the queue or the calls. -/
private theorem Wf.frame_worker (wf : Wf s) (calls : s'.calls = s.calls)
    (frame : QueueFrame s.shared s'.shared)
    (cleared : s'.worker.cleared s.pending = s.worker.cleared s.pending)
    (worker : ∀ addr, s'.worker.item? = some addr → s.worker.item? = some addr ∨
      ∃ item rest, s.pending = item :: rest ∧ item.addr = addr) : Wf s' := by
  have pending : s'.pending = s.pending := by
    rw [State.pending, frame.inserted, frame.unlinked, State.pending]
  refine ⟨?_, ?_, ?_, ?_, ?_, ?_, ?_⟩
  · rw [calls]; exact wf.calls
  · rw [frame.inserted, calls]; exact wf.linked
  · rw [frame.inserted, calls]; exact wf.recorded
  · rw [frame.inserted]; exact wf.nodup
  · rw [frame.inserted, frame.unlinked]; exact wf.unlinked
  · rw [frame.queue, wf.queue, pending, cleared]
  · intro addr points
    rw [pending]
    rcases worker addr points with same | head
    · exact wf.worker addr same
    · exact head

end Frames

theorem clearIrp_of_notMem {queue : List WriteQueueItem} {addr : ℕ}
    (absent : addr ∉ queue.map WriteQueueItem.addr) : State.clearIrp queue addr = queue := by
  unfold State.clearIrp
  conv_rhs => rw [← List.map_id queue]
  apply List.map_congr_left
  intro item member
  rw [if_neg]
  · rfl
  · rintro rfl
    exact absent (List.mem_map_of_mem member)

/-- Clearing the head's request pointer changes the head only. -/
theorem clearIrp_head {item : WriteQueueItem} {rest : List WriteQueueItem}
    (nodup : ((item :: rest).map WriteQueueItem.addr).Nodup) :
    State.clearIrp (item :: rest) item.addr = { item with irp := none } :: rest := by
  rw [List.map_cons, List.nodup_cons] at nodup
  have same := clearIrp_of_notMem nodup.1
  rw [State.clearIrp, List.map_cons, if_pos rfl]
  exact congrArg _ same

/-- Addresses of pending items are distinct. -/
theorem Wf.pending_nodup {s : State} (wf : Wf s) : (s.pending.map WriteQueueItem.addr).Nodup :=
  wf.nodup.sublist ((List.drop_sublist _ _).map _)

/-- Away from the unlink, following the worker's pointer finds the first pending item. -/
theorem Wf.found {s : State} (wf : Wf s) {addr : ℕ} {item : WriteQueueItem}
    (points : s.worker.item? = some addr) (found : s.item? addr = some item)
    (linked : ∀ other, s.worker ≠ .unlink other) :
    ∃ rest, s.pending = item :: rest ∧ item.addr = addr ∧ s.shared.queue = item :: rest := by
  obtain ⟨head, rest, shape, rfl⟩ := wf.worker addr points
  have queue := wf.queue
  have kept : s.worker.cleared s.pending = s.pending := by
    cases worker : s.worker with
    | unlink addr => exact absurd worker (linked addr)
    | _ => rfl
  rw [kept, shape] at queue
  rw [State.item?, queue, List.find?_cons_of_pos (by simp)] at found
  obtain rfl := Option.some.inj found
  exact ⟨rest, shape, rfl, queue⟩

/-- At the unlink it finds the first pending item without its request pointer. -/
theorem Wf.found_unlink {s : State} (wf : Wf s) {addr : ℕ} {item : WriteQueueItem}
    (at_ : s.worker = .unlink addr) (found : s.item? addr = some item) :
    ∃ head rest, s.pending = head :: rest ∧ head.addr = addr ∧ item = { head with irp := none } ∧
      s.shared.queue = item :: rest := by
  obtain ⟨head, rest, shape, rfl⟩ := wf.worker addr (by rw [at_]; rfl)
  have nodup := wf.pending_nodup
  have queue := wf.queue
  rw [shape] at queue nodup
  rw [at_, WorkerPc.cleared, clearIrp_head nodup] at queue
  rw [State.item?, queue, List.find?_cons_of_pos (by simp)] at found
  obtain rfl := Option.some.inj found
  exact ⟨head, rest, shape, rfl, rfl, queue⟩

theorem State.pending_subset (s : State) : s.pending ⊆ s.shared.history.inserted :=
  List.drop_subset _ _

/-- Entries of the queue are pending items, up to the request pointer the worker clears. -/
theorem Wf.mem_queue {s : State} (wf : Wf s) {item : WriteQueueItem} (member : item ∈ s.shared.queue) :
    ∃ source ∈ s.pending, item = source ∨ item = { source with irp := none } := by
  rw [wf.queue] at member
  cases worker : s.worker with
  | unlink addr =>
    rw [worker, WorkerPc.cleared, State.clearIrp] at member
    obtain ⟨source, there, rfl⟩ := List.mem_map.mp member
    refine ⟨source, there, ?_⟩
    split
    · exact .inr rfl
    · exact .inl rfl
  | _ =>
    rw [worker] at member
    exact ⟨item, member, .inl rfl⟩

/-- The call an inserted item's request pointer names is the call that inserted it. -/
theorem Wf.holder {s : State} (wf : Wf s) {item : WriteQueueItem} {i : ℕ} {c : Call}
    (member : item ∈ s.shared.history.inserted) (holds : item.irp = some i) (present : s.calls[i]? = some c) :
    item = heldItem i c.irp ∧ c.Held ∧ (c.pc = .setEvent ∨ c.pc = .returned STATUS_PENDING) := by
  obtain ⟨d, at_, linked⟩ := wf.linked item member
  obtain ⟨same, held, position⟩ := linked.held_of_irp (by simp [holds])
  obtain rfl : item.addr = i := by
    rw [same] at holds
    exact Option.some.inj holds
  obtain rfl : d = c := Option.some.inj (at_.symm.trans present)
  exact ⟨same, held, position⟩

/-- A queue entry that holds a request holds the request of the call that linked it. -/
theorem Wf.holder_queue {s : State} (wf : Wf s) {item : WriteQueueItem} {i : ℕ} (member : item ∈ s.shared.queue)
    (holds : item.irp = some i) : ∃ c, s.calls[i]? = some c ∧ c.Held ∧
      (c.pc = .setEvent ∨ c.pc = .returned STATUS_PENDING) := by
  obtain ⟨source, pending, form⟩ := wf.mem_queue member
  obtain ⟨c, present, linked⟩ := wf.linked source (s.pending_subset pending)
  have holds : source.irp = some i := by
    rcases form with rfl | rfl
    · exact holds
    · contradiction
  obtain ⟨same, held, position⟩ := linked.held_of_irp (by simp [holds])
  rw [same, heldItem_irp] at holds
  obtain rfl := Option.some.inj holds
  exact ⟨c, present, held, position⟩

private theorem Wf.worker_step {s s' : State} {a : Action} (wf : Wf s) (moved : WorkerStep s a s') : Wf s' := by
  cases moved with
  | lookEmpty at_ => exact wf.frame_worker rfl (by constructor <;> rfl) (by rw [at_]; rfl) (by simp [WorkerPc.item?])
  | lookHead at_ head =>
    have queue := wf.queue
    rw [at_, head] at queue
    refine wf.frame_worker rfl (by constructor <;> rfl) (by rw [at_]; rfl) fun addr points => .inr ?_
    exact ⟨_, _, queue.symm, Option.some.inj points⟩
  | exit at_ => exact wf.frame_worker rfl (by constructor <;> rfl) (by rw [at_]; rfl) (by simp [WorkerPc.item?])
  | sleep at_ => exact wf.frame_worker rfl (by constructor <;> rfl) (by rw [at_]; rfl) (by simp [WorkerPc.item?])
  | wake at_ => exact wf.frame_worker rfl (by constructor <;> rfl) (by rw [at_]; rfl) (by simp [WorkerPc.item?])
  | answer at_ found =>
    obtain ⟨rest, _, rfl, _⟩ := wf.found (by rw [at_]; rfl) found (by simp [at_])
    exact wf.frame_worker rfl (by constructor <;> rfl) (by rw [at_]; rfl) fun addr points =>
      .inl (by rw [at_]; exact points)
  | sendIrp at_ found =>
    obtain ⟨rest, _, rfl, _⟩ := wf.found (by rw [at_]; rfl) found (by simp [at_])
    exact wf.frame_worker rfl (by constructor <;> rfl) (by rw [at_]; rfl) fun addr points =>
      .inl (by rw [at_]; exact points)
  | sendCopy at_ found =>
    obtain ⟨rest, _, rfl, _⟩ := wf.found (by rw [at_]; rfl) found (by simp [at_])
    exact wf.frame_worker rfl (by constructor <;> rfl) (by rw [at_]; rfl) fun addr points =>
      .inl (by rw [at_]; exact points)
  | noRequest at_ => exact wf.frame_worker rfl (by constructor <;> rfl) (by rw [at_]; rfl) (by simp [WorkerPc.item?])
  | transfer at_ =>
    exact wf.frame_worker rfl (by constructor <;> rfl) (by rw [at_]; rfl) fun addr points =>
      .inl (by rw [at_]; exact points)
  | served at_ =>
    exact wf.frame_worker rfl (by constructor <;> rfl) (by rw [at_]; rfl) fun addr points =>
      .inl (by rw [at_]; exact points)
  | completeIrp at_ found holds present =>
    obtain ⟨rest, shape, rfl, queue⟩ := wf.found (by rw [at_]; rfl) found (by simp [at_])
    have member := s.pending_subset (shape ▸ List.mem_cons_self ..)
    obtain ⟨-, held, position⟩ := wf.holder member holds present
    refine ⟨?_, fun item member => ?_, ?_, wf.nodup, wf.unlinked, ?_, ?_⟩
    · exact List.forall_getElem?_set ((wf.calls _ _ present).completeHeld held position _) wf.calls
    · refine List.exists_getElem?_set present (fun same linked => ?_) (fun _ linked => linked)
        (wf.linked item member)
      exact linked.completeHeld position _
    · exact List.forall_getElem?_set ((wf.recorded _ _ present).keep rfl rfl rfl (.inr ⟨_, rfl, by simp⟩))
        wf.recorded
    · exact congrArg (State.clearIrp · _) (queue.trans shape.symm)
    · rintro addr ⟨⟩
      exact ⟨_, rest, shape, rfl⟩
  | completeCopy at_ found copy =>
    obtain ⟨rest, shape, rfl, queue⟩ := wf.found (by rw [at_]; rfl) found (by simp [at_])
    have nodup := wf.pending_nodup
    refine ⟨wf.calls, wf.linked, wf.recorded, wf.nodup, wf.unlinked, ?_, ?_⟩
    · change s.shared.queue = State.clearIrp s.pending _
      rw [shape] at nodup
      rw [queue, shape, clearIrp_head nodup, ← copy]
    · rintro addr ⟨⟩
      exact ⟨_, rest, shape, rfl⟩
  | unlink at_ found =>
    obtain ⟨head, rest, shape, rfl, rfl, queue⟩ := wf.found_unlink at_ found
    have below : s.shared.history.unlinked.length < s.shared.history.inserted.length := by
      by_contra above
      rw [State.pending, List.drop_eq_nil_of_le (by omega)] at shape
      contradiction
    have split := List.drop_eq_getElem_cons below
    rw [← State.pending, shape, List.cons.injEq] at split
    obtain ⟨first, others⟩ := split
    refine ⟨wf.calls, wf.linked, wf.recorded, wf.nodup, ?_, ?_, by simp [WorkerPc.item?, State.unlinkItem]⟩
    · change _ ++ [_] = List.map _ (List.take (List.length (_ ++ [_])) s.shared.history.inserted)
      rw [List.length_append, List.length_singleton, List.take_succ_eq_append_getElem below, List.map_append,
        ← wf.unlinked, ← first]
      rfl
    · change List.eraseP _ s.shared.queue = List.drop (List.length (_ ++ [_])) s.shared.history.inserted
      rw [queue, List.eraseP_cons_of_pos (by simp), List.length_append, List.length_singleton, ← others]

/-- A call links its item. -/
private theorem Wf.insert {s : State} (wf : Wf s) {i : ℕ} {c c' : Call} {item : WriteQueueItem} {charge : ℤ}
    (present : s.calls[i]? = some c) (ok' : CallOk i c')
    (recorded : c'.Recorded i (s.shared.insertTailList item charge).history.inserted)
    (insertion : (c.pc = .insertTail item ∧ charge = sizeofWriteQueueItem ∧ c' = c.goto .setEvent) ∨
      (c.pc = .lazyInsertTail item ∧ charge = sizeofWriteQueueItem + item.length ∧
        c' = c.goto .lazySetEvent)) : Wf (s.update i (s.shared.insertTailList item charge, c')) := by
  have ok := wf.calls _ _ present
  have here := ok.atPc
  have addr : item.addr = i := by
    rcases insertion with ⟨at_, -⟩ | ⟨at_, -⟩ <;> rw [Call.AtPc, at_] at here
    · rw [here.2.2.2, heldItem_addr]
    · rw [here.2.2.2, lazyItem_addr]
  have unlinked : ∀ other, ¬ Linked other c := by
    intro other linked
    cases linked with
    | held _ _ at_ =>
      rcases insertion with ⟨here, -⟩ | ⟨here, -⟩ <;> simp [here] at at_
    | lazily _ _ at_ =>
      rcases insertion with ⟨here, -⟩ | ⟨here, -⟩ <;> simp [here] at at_
  have fresh : i ∉ s.shared.history.inserted.map WriteQueueItem.addr := by
    intro member
    obtain ⟨other, there, rfl⟩ := List.mem_map.mp member
    obtain ⟨d, at_, linked⟩ := wf.linked other there
    obtain rfl : d = c := Option.some.inj (at_.symm.trans present)
    exact unlinked other linked
  have linked : Linked item c' := by
    have here' := ok'.atPc
    rcases insertion with ⟨at_, -, rfl⟩ | ⟨at_, -, rfl⟩ <;> rw [Call.AtPc, at_] at here
    · exact .held (by rw [here.2.2.2]; rfl) here' (.inl rfl)
    · exact .lazily (by rw [here.2.2.2, lazyItem_addr]; rfl) here.2.2.1 (.inl rfl)
  have bound : s.shared.history.unlinked.length ≤ s.shared.history.inserted.length := by
    have length := congrArg List.length wf.unlinked
    simp only [List.length_map, List.length_take] at length
    omega
  have pending : (s.update i (s.shared.insertTailList item charge, c')).pending = s.pending ++ [item] :=
    List.drop_append_of_le_length bound
  refine ⟨?_, ?_, ?_, ?_, ?_, ?_, ?_⟩
  · exact List.forall_getElem?_set ok' wf.calls
  · intro other member
    rcases List.mem_append.mp member with old | new
    · exact List.exists_getElem?_set present (fun _ was => absurd was (unlinked other)) (fun _ holds => holds)
        (wf.linked other old)
    · rw [List.mem_singleton.mp new, addr]
      exact ⟨c', List.getElem?_set_self (List.getElem?_eq_some_iff.mp present).1, linked⟩
  · exact List.forall_getElem?_set recorded fun j d at_ =>
      (wf.recorded j d at_).mono (List.subset_append_left _ _)
  · change ((s.shared.history.inserted ++ [item]).map _).Nodup
    rw [List.map_append, List.map_singleton, addr, ← List.concat_eq_append]
    exact wf.nodup.concat fresh
  · change s.shared.history.unlinked =
      List.map _ (List.take s.shared.history.unlinked.length (s.shared.history.inserted ++ [item]))
    rw [List.take_append_of_le_length bound]
    exact wf.unlinked
  · rw [pending]
    change s.shared.queue ++ [item] = s.worker.cleared (s.pending ++ [item])
    rw [wf.queue]
    cases worker : s.worker with
    | unlink addr =>
      obtain ⟨head, rest, shape, same⟩ := wf.worker addr (by rw [worker]; rfl)
      have other : addr ∉ [item].map WriteQueueItem.addr := by
        rw [List.map_singleton, List.mem_singleton]
        rintro rfl
        rw [addr] at same
        exact fresh (same ▸ List.mem_map_of_mem (s.pending_subset (shape ▸ List.mem_cons_self ..)))
      simp only [WorkerPc.cleared, State.clearIrp, List.map_append]
      exact congrArg _ (clearIrp_of_notMem other).symm
    | _ => rfl
  · intro addr points
    obtain ⟨head, rest, shape, same⟩ := wf.worker addr points
    exact ⟨head, rest ++ [item], by rw [pending, shape]; rfl, same⟩

theorem Wf.step {s s' : State} {a : Action} (wf : Wf s) (moved : s.step a = some s') : Wf s' := by
  cases step_cases moved with
  | receive =>
    refine wf.frame (.refl _) rfl ?_ fun item member => List.exists_getElem?_snoc _ (wf.linked item member)
    refine List.forall_getElem?_snoc ⟨.receive _ _, ?_⟩ fun j d at_ => ⟨wf.calls j d at_, wf.recorded j d at_⟩
    exact ⟨by simp [Call.receive], by simp [Call.receive], by simp [Call.receive]⟩
  | call present taken =>
    have ok := wf.calls _ _ present
    have recorded := (wf.recorded _ _ present).step ok taken
    rcases taken.queue_cases with ⟨frame, -⟩ | ⟨item, charge, rfl, insertion⟩
    · rw [frame.inserted] at recorded
      exact wf.frame_call present frame (ok.step taken) recorded fun item linked => linked.step ok taken
    · exact wf.insert present (ok.step taken) recorded insertion
  | lower present taken =>
    have ok := wf.calls _ _ present
    refine wf.frame_call present taken.queue.1 (ok.lower taken) ?_ fun item linked => ?_
    · refine (wf.recorded _ _ present).keep taken.irp taken.pc taken.pendingReturned ?_
      rcases taken.completions with same | ⟨completion, added, site⟩
      · exact .inl same
      · exact .inr ⟨completion, added, by simp [site]⟩
    · exact absurd (linked.lowerIrps ok) taken.present
  | worker taken => exact wf.worker_step taken
  | remover taken =>
    obtain ⟨frame, -, -, worker, calls⟩ := taken.frame
    refine wf.frame frame worker ?_ ?_
    · rw [calls]
      exact fun j d at_ => ⟨wf.calls j d at_, wf.recorded j d at_⟩
    · rw [calls]
      exact wf.linked
  | initializeDevice =>
    exact wf.frame (by constructor <;> rfl) rfl (fun j d at_ => ⟨wf.calls j d at_, wf.recorded j d at_⟩) wf.linked

/-- `Wf` holds wherever a run of the device arrives. -/
theorem wf_of_run {cfg : Config} {ok : State → Action → Prop} {as : List Action} {s : State}
    (run : Run State.step ok (.initial cfg) as s) : Wf s :=
  run.preserves Wf (wf_initial cfg) fun _ _ _ wf _ moved => wf.step moved

/-- What one action does to the write queue. -/
inductive QueueMove (s s' : State) : Prop
  | same (frame : QueueFrame s.shared s'.shared)
  | insert {i : ℕ} {c : Call} {item : WriteQueueItem} (present : s.calls[i]? = some c)
      (shared : s'.shared = s.shared.insertTailList item (sizeofWriteQueueItem + item.length))
      (made : (c.pc = .insertTail item ∧ item = heldItem i c.irp) ∨
        (c.pc = .lazyInsertTail item ∧ item = lazyItem i c.irp ∧ c.irp.stack.lazyKind))
  | clear (addr : ℕ)
      (frame : QueueFrame (s.shared.withQueue (State.clearIrp s.shared.queue addr)) s'.shared)
  | remove {item : WriteQueueItem} {rest : List WriteQueueItem} (queue : s.shared.queue = item :: rest)
      (shared : s'.shared = (s.shared.removeEntryList item).ioReleaseRemoveLock.deleteItem item.addr)

theorem Wf.queueMove {s s' : State} {a : Action} (wf : Wf s) (moved : s.step a = some s') :
    QueueMove s s' := by
  cases step_cases moved with
  | receive => exact .same (.refl _)
  | call present taken =>
    have here := (wf.calls _ _ present).atPc
    rcases taken.queue_cases with ⟨frame, -⟩ | ⟨item, charge, rfl, ⟨at_, rfl, rfl⟩ | ⟨at_, rfl, rfl⟩⟩
    · exact .same frame
    · rw [Call.AtPc, at_] at here
      refine .insert present ?_ (.inl ⟨at_, here.2.2.2⟩)
      rw [here.2.2.2, heldItem_length]
      rfl
    · rw [Call.AtPc, at_] at here
      exact .insert present rfl (.inr ⟨at_, here.2.2.2, here.2.2.1⟩)
  | lower _ taken => exact .same taken.queue.1
  | worker taken =>
    cases taken with
    | completeIrp => exact .clear _ (.refl _)
    | unlink at_ found =>
      obtain ⟨head, rest, -, -, rfl, queue⟩ := wf.found_unlink at_ found
      exact .remove queue rfl
    | _ => exact .same (by constructor <;> rfl)
  | remover taken => exact .same taken.frame.1
  | initializeDevice => exact .same (by constructor <;> rfl)

/-- The state a list of actions leads to from the attached device. -/
def State.after (cfg : Config) (as : List Action) : State :=
  (runs? State.step anyStep (.initial cfg) as).getD (.initial cfg)

/-- A successful replay from the attached device is a run. -/
theorem run_after {ok : State → Action → Prop} [∀ s a, Decidable (ok s a)] {cfg : Config} {as : List Action}
    (succeeds : (runs? State.step ok (.initial cfg) as).isSome) :
    Run State.step ok (.initial cfg) as (.after cfg as) := by
  have run := run_get succeeds
  rw [State.after, runs?_of_run run.toAny]
  exact run

theorem run_of_replay (cfg : Config) (as : List Action)
    (succeeds : (runs? State.step anyStep (.initial cfg) as).isSome) :
    Run State.step anyStep (.initial cfg) as (.after cfg as) := run_after succeeds

/-- The last action of a replay is a step. -/
theorem step_after {cfg : Config} {as : List Action} {a : Action}
    (succeeds : (runs? State.step anyStep (.initial cfg) (as ++ [a])).isSome) :
    (State.after cfg as).step a = some (.after cfg (as ++ [a])) := by
  obtain ⟨t, before, last⟩ := (run_of_replay cfg _ succeeds).split
  obtain ⟨u, -, moved, done⟩ := last.uncons
  rw [done.unique (.nil u), State.after, runs?_of_run before]
  exact moved

/-- The request that a replay ends with is the last one the device has received. -/
theorem received_after {cfg : Config} {as : List Action} {irp : Irp} {i : ℕ}
    (succeeds : (runs? State.step anyStep (.initial cfg) (as ++ [.receive irp])).isSome)
    (count : (State.after cfg as).calls.length = i) :
    (State.after cfg (as ++ [.receive irp])).calls[i]? = some (.receive irp) := by
  have moved := step_after succeeds
  simp only [State.step] at moved
  split at moved
  · contradiction
  · rw [← Option.some.inj moved, ← count]
    exact List.getElem?_concat_length

/-- A replay can be cut, with a guard on its second part. -/
theorem run_between {ok : State → Action → Prop} [∀ s a, Decidable (ok s a)] {cfg : Config} {as bs : List Action}
    (first : (runs? State.step anyStep (.initial cfg) as).isSome)
    (rest : (runs? State.step ok (.after cfg as) bs).isSome) :
    Run State.step ok (.after cfg as) bs (.after cfg (as ++ bs)) := by
  have run := run_get rest
  have whole := (run_of_replay cfg as first).append run.toAny
  rw [State.after, State.after, runs?_of_run whole]
  exact run

/-- A call that a list of actions leaves behind. -/
theorem State.call_after {cfg : Config} {as : List Action} {i : ℕ} (issued : ((State.after cfg as).calls[i]?).isSome) :
    (State.after cfg as).calls[i]? = some (((State.after cfg as).calls[i]?).get issued) :=
  (Option.some_get issued).symm

theorem forall_visited_of_replay (cfg : Config) (as : List Action) (p : State → Bool)
    (checked : ∀ n ∈ List.range (as.length + 1),
      (runs? State.step anyStep (.initial cfg) (as.take n)).all p = true) :
    ∀ t ∈ Visited State.step anyStep (.initial cfg) as, p t = true :=
  forall_visited p checked

/-! The witnesses of this development run on a device of 128 sectors with room for two items. -/

def smallDevice : Config where
  maxQueueItems := 2
  maxQueueSize := 4096
  size := 65536

/-- A write of one sector at the start of the device. -/
def writeSector0 (value : UInt8) : Irp where
  stack := { majorFunction := .write, length := 512 }
  data := fun _ => value

/-- A read of the first sector. -/
def readSector0 : Irp where
  stack := { majorFunction := .read, length := 512 }

def flushRequest : Irp where
  stack := { majorFunction := .flushBuffers }

def shutdownRequest : Irp where
  stack := { majorFunction := .shutdown }

def cacheOff : Irp where
  stack := { majorFunction := .deviceControl, ioControlCode := IOCTL_QCACHE_OFF }

/-- The dispatch call `i` takes its next `count` steps with every request to the kernel granted. -/
def callSteps (i count : ℕ) : List Action := List.replicate count (.call i {})

/-- The worker takes its next `count` steps. -/
def workerSteps (count : ℕ) : List Action := List.replicate count (.worker true)

end QueueCache
