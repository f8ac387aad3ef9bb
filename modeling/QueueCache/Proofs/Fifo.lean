import QueueCache.ToMathlib.Overlay
import QueueCache.Proofs.Queue

/-! # Serial execution in insertion order

The worker sends down the requests of a prefix of what was inserted, in that order, each once and one
at a time. `Fifo` counts how far the two logs have come: up to the unlinked items, and one further
while the worker is past the lower driver's call or its answer. The disk is then the initial disk
with the served writes laid over it, and the sectors moved so far of the one in progress.
-/

namespace QueueCache

open Transition Overlay

/-- The request the worker sends down for an item; a marker it answers itself. -/
def WriteQueueItem.request? (irps : List Irp) (item : WriteQueueItem) : Option LowerRequest :=
  match item.irp with
  | some i => irps[i]?.bind fun irp =>
      if irp.stack.isMarker then none else some (.ofIrp item.addr irp)
  | none => some (.ofItem item)

/-- The requests of the first `count` items that were inserted. -/
def State.requests (s : State) (count : ℕ) : List LowerRequest :=
  (s.shared.history.inserted.take count).filterMap (WriteQueueItem.request? s.irps)

/-- Whether the worker is past the point where it sends its item's request down. -/
def WorkerPc.sent : WorkerPc → ℕ
  | .lower _ _ | .complete _ _ | .unlink _ => 1
  | _ => 0

/-- Whether the worker is past the lower driver's answer. -/
def WorkerPc.answered : WorkerPc → ℕ
  | .complete _ _ | .unlink _ => 1
  | _ => 0

/-- The requests sent down and the requests answered are those of the items up to the worker's. -/
structure Fifo (s : State) : Prop where
  issued : s.shared.history.issued = s.requests (s.shared.history.unlinked.length + s.worker.sent)
  served : s.shared.history.served.map Prod.fst =
    s.requests (s.shared.history.unlinked.length + s.worker.answered)
  current : ∀ request moved, s.worker = .lower request moved →
    ∃ item rest, s.pending = item :: rest ∧ item.request? s.irps = some request

theorem fifo_initial (cfg : Config) : Fifo (.initial cfg) where
  issued := rfl
  served := rfl
  current request moved at_ := by simp [State.initial] at at_

@[simp] theorem LowerRequest.ofItem_item (item : WriteQueueItem) : (LowerRequest.ofItem item).item = item.addr := rfl

/-- An item's request carries the item's address. -/
theorem WriteQueueItem.request?_item {irps : List Irp} {item : WriteQueueItem} {request : LowerRequest}
    (sends : item.request? irps = some request) : request.item = item.addr := by
  unfold WriteQueueItem.request? at sends
  split at sends
  · obtain ⟨irp, -, taken⟩ := Option.bind_eq_some_iff.mp sends
    split at taken
    · contradiction
    · obtain rfl := Option.some.inj taken
      rfl
  · obtain rfl := Option.some.inj sends
    rfl

theorem WriteQueueItem.request?_held {s : State} {item : WriteQueueItem} {i : ℕ} {c : Call} (holds : item.irp = some i)
    (present : s.calls[i]? = some c) : item.request? s.irps =
      if c.irp.stack.isMarker then none else some (.ofIrp item.addr c.irp) := by
  simp [WriteQueueItem.request?, holds, State.irps, present]

theorem WriteQueueItem.request?_copy {irps : List Irp} {item : WriteQueueItem} (copy : item.irp = none) :
    item.request? irps = some (.ofItem item) := by
  simp [WriteQueueItem.request?, copy]

/-- The lower device is asked for what the caller asked for: for the same function and, of a write, for the same
range of the disk and the same bytes. -/
structure LowerRequest.AsksFor (request : LowerRequest) (irp : Irp) : Prop where
  majorFunction : request.majorFunction = irp.stack.majorFunction
  offset : irp.stack.majorFunction = .write → request.offset = irp.stack.byteOffset
  length : irp.stack.majorFunction = .write → request.length = irp.stack.length
  data : irp.stack.majorFunction = .write → ∀ x : ℤ, 0 ≤ x → x < irp.stack.length → request.data x = irp.data x

theorem LowerRequest.AsksFor.ofIrp (addr : ℕ) (irp : Irp) : (LowerRequest.ofIrp addr irp).AsksFor irp where
  majorFunction := rfl
  offset _ := rfl
  length _ := rfl
  data _ _ low high := irp.payload_inside low high

theorem LowerRequest.AsksFor.ofItem (i : ℕ) (irp : Irp) : (LowerRequest.ofItem (lazyItem i irp)).AsksFor irp where
  majorFunction := lazyItem_majorFunction i irp
  offset writes := by rw [lazyItem, if_pos writes]; rfl
  length writes := by rw [lazyItem, if_pos writes]; rfl
  data writes x low high := by
    rw [lazyItem, if_pos writes]
    exact irp.payload_inside low high

/-- `IOCTL_QCACHE_OFF` or `IOCTL_QCACHE_FLUSH`, in any of the functions that carry control codes. -/
def IoStackLocation.IsOffOrFlush (io : IoStackLocation) : Prop :=
  (io.majorFunction = .deviceControl ∨ io.majorFunction = .internalDeviceControl ∨
    io.majorFunction = .fileSystemControl) ∧
  (io.ioControlCode = IOCTL_QCACHE_OFF ∨ io.ioControlCode = IOCTL_QCACHE_FLUSH)

instance (io : IoStackLocation) : Decidable io.IsOffOrFlush := inferInstanceAs (Decidable (_ ∧ _))

theorem IoStackLocation.isMarker_iff (io : IoStackLocation) : io.isMarker = true ↔ io.IsOffOrFlush := by
  simp [isMarker, IsOffOrFlush, or_assoc]

/-- The item is no marker: its request is one for the lower device. -/
def State.asks (s : State) (item : WriteQueueItem) : Bool :=
  (s.irps[item.addr]?).all fun irp => ¬ irp.stack.IsOffOrFlush

/-- The requests are those of the items in order, without the markers: each for its own item and for what the caller
of that item asked for. -/
def State.Sent (s : State) (items : List WriteQueueItem) (requests : List LowerRequest) : Prop :=
  List.Forall₂ (fun item request => request.item = item.addr ∧
    ∃ irp, s.irps[item.addr]? = some irp ∧ request.AsksFor irp) (items.filter s.asks) requests

/-- An item that was inserted is a marker, or its request asks for what its caller asked for. -/
theorem Wf.request?_asksFor {s : State} (wf : Wf s) {item : WriteQueueItem}
    (member : item ∈ s.shared.history.inserted) :
    (s.asks item = false ∧ item.request? s.irps = none) ∨ ∃ request irp, s.asks item = true ∧
      item.request? s.irps = some request ∧ request.item = item.addr ∧ s.irps[item.addr]? = some irp ∧
      request.AsksFor irp := by
  obtain ⟨c, present, linked⟩ := wf.linked item member
  have received : s.irps[item.addr]? = some c.irp := by simp [State.irps, present]
  have asks : s.asks item = !decide c.irp.stack.IsOffOrFlush := by simp [State.asks, received]
  cases linked with
  | held same =>
    have sends := WriteQueueItem.request?_held (s := s) (show item.irp = some item.addr by rw [same]; rfl) present
    by_cases marker : c.irp.stack.IsOffOrFlush
    · left
      rw [asks, sends, if_pos ((c.irp.stack.isMarker_iff).mpr marker)]
      simp [marker]
    · right
      rw [if_neg fun marks => marker ((c.irp.stack.isMarker_iff).mp marks)] at sends
      exact ⟨_, c.irp, by simp [asks, marker], sends, rfl, received, .ofIrp _ _⟩
  | lazily same kind =>
    right
    have notMarker : ¬ c.irp.stack.IsOffOrFlush := by
      rintro ⟨control | control | control, -⟩ <;> simp [IoStackLocation.lazyKind, control] at kind
    have sends : item.request? s.irps = some (.ofItem item) :=
      WriteQueueItem.request?_copy (by rw [same, lazyItem_irp])
    refine ⟨_, c.irp, by simp [asks, notMarker], sends, rfl, received, ?_⟩
    rw [same]
    exact .ofItem _ _

/-- What the worker sends down for inserted items is what their callers asked for. -/
theorem Wf.sent {s : State} (wf : Wf s) {items : List WriteQueueItem}
    (inserted : ∀ item ∈ items, item ∈ s.shared.history.inserted) :
    s.Sent items (items.filterMap (WriteQueueItem.request? s.irps)) := by
  induction items with
  | nil => exact .nil
  | cons item rest ih =>
    have others := ih fun other member => inserted other (List.mem_cons_of_mem _ member)
    obtain ⟨marker, none⟩ | ⟨request, irp, asks, sends, own⟩ :=
      wf.request?_asksFor (inserted item (List.mem_cons_self ..))
    · rw [State.Sent, List.filter_cons_of_neg (by simp [marker]), List.filterMap_cons_none none]
      exact others
    · rw [State.Sent, List.filter_cons_of_pos asks, List.filterMap_cons_some sends]
      exact .cons ⟨own.1, irp, own.2⟩ others

/-- Requests received later do not change what an inserted item sends down. -/
theorem Wf.request?_append {s : State} (wf : Wf s) {item : WriteQueueItem}
    (member : item ∈ s.shared.history.inserted) (more : List Irp) :
    item.request? (s.irps ++ more) = item.request? s.irps := by
  cases holds : item.irp with
  | none => rw [WriteQueueItem.request?_copy holds, WriteQueueItem.request?_copy holds]
  | some i =>
    obtain ⟨c, present, linked⟩ := wf.linked item member
    obtain ⟨same, -, -⟩ := linked.held_of_irp (by simp [holds])
    have points : item.irp = some item.addr := by rw [same]; rfl
    obtain rfl := Option.some.inj (holds.symm.trans points)
    have inside : item.addr < s.irps.length := by
      simpa [State.irps] using (List.getElem?_eq_some_iff.mp present).1
    simp [WriteQueueItem.request?, holds, List.getElem?_append_left inside]

/-- The requests of a prefix stay what they were when items are inserted and requests are received. -/
theorem Wf.requests_frame {s s' : State} (wf : Wf s) (frame : ServiceFrame s s') {count : ℕ}
    (bound : count ≤ s.shared.history.inserted.length) : s'.requests count = s.requests count := by
  obtain ⟨items, inserted⟩ := frame.inserted
  obtain ⟨more, irps⟩ := frame.irps
  rw [State.requests, State.requests, inserted, irps, List.take_append_of_le_length bound]
  apply List.filterMap_congr
  intro item member
  exact wf.request?_append (List.mem_of_mem_take member) more

/-- The first pending item is the next one in the order of insertion. -/
theorem State.take_succ {s : State} {item : WriteQueueItem} {rest : List WriteQueueItem}
    (shape : s.pending = item :: rest) :
    s.shared.history.inserted.take (s.shared.history.unlinked.length + 1) =
      s.shared.history.inserted.take s.shared.history.unlinked.length ++ [item] := by
  have below : s.shared.history.unlinked.length < s.shared.history.inserted.length := by
    by_contra above
    rw [State.pending, List.drop_eq_nil_of_le (by omega)] at shape
    contradiction
  have first := List.drop_eq_getElem_cons below
  rw [← State.pending, shape, List.cons.injEq] at first
  rw [List.take_succ_eq_append_getElem below, ← first.1]

/-- The next request is the one of the first pending item. -/
theorem State.requests_succ {s : State} {item : WriteQueueItem} {rest : List WriteQueueItem}
    (shape : s.pending = item :: rest) : s.requests (s.shared.history.unlinked.length + 1) =
      s.requests s.shared.history.unlinked.length ++ (item.request? s.irps).toList := by
  rw [State.requests, State.take_succ shape, List.filterMap_append, State.requests, List.filterMap_cons,
    List.filterMap_nil]
  cases item.request? s.irps <;> rfl

theorem Wf.unlinked_le {s : State} (wf : Wf s) :
    s.shared.history.unlinked.length ≤ s.shared.history.inserted.length := by
  have length := congrArg List.length wf.unlinked
  simp only [List.length_map, List.length_take] at length
  omega

/-- The worker has an item from the moment it sends the request down until it unlinks the item. -/
theorem Wf.sent_le {s : State} (wf : Wf s) :
    s.shared.history.unlinked.length + s.worker.sent ≤ s.shared.history.inserted.length := by
  have bound := wf.unlinked_le
  cases points : s.worker.item? with
  | none =>
    have idle : s.worker.sent = 0 := by
      cases at_ : s.worker <;> simp [WorkerPc.sent, at_, WorkerPc.item?] at points ⊢
    omega
  | some addr =>
    obtain ⟨item, rest, shape, -⟩ := wf.worker addr points
    have length := congrArg List.length shape
    simp only [State.pending, List.length_drop, List.length_cons] at length
    have one : s.worker.sent ≤ 1 := by cases s.worker <;> simp [WorkerPc.sent]
    omega

theorem WorkerPc.answered_le_sent (worker : WorkerPc) : worker.answered ≤ worker.sent := by
  cases worker <;> simp [WorkerPc.answered, WorkerPc.sent]

theorem Wf.answered_le {s : State} (wf : Wf s) :
    s.shared.history.unlinked.length + s.worker.answered ≤ s.shared.history.inserted.length := by
  have bound := wf.sent_le
  have below := s.worker.answered_le_sent
  omega

/-- Only the worker shortens what is pending. -/
theorem Wf.pending_frame {s s' : State} (wf : Wf s) (frame : ServiceFrame s s') :
    ∃ items, s'.pending = s.pending ++ items := by
  obtain ⟨items, inserted⟩ := frame.inserted
  refine ⟨items, ?_⟩
  rw [State.pending, inserted, frame.unlinked, List.drop_append_of_le_length wf.unlinked_le]
  rfl

namespace Fifo

variable {s s' : State}

/-- A step that is not the worker's. -/
private theorem frame (fifo : Fifo s) (wf : Wf s) (frame : ServiceFrame s s') : Fifo s' where
  issued := by
    rw [frame.issued, frame.unlinked, frame.worker, wf.requests_frame frame wf.sent_le]
    exact fifo.issued
  served := by
    rw [frame.served, frame.unlinked, frame.worker, wf.requests_frame frame wf.answered_le]
    exact fifo.served
  current request moved at_ := by
    rw [frame.worker] at at_
    obtain ⟨item, rest, shape, sends⟩ := fifo.current request moved at_
    obtain ⟨items, pending⟩ := wf.pending_frame frame
    obtain ⟨more, irps⟩ := frame.irps
    refine ⟨item, rest ++ items, by rw [pending, shape]; rfl, ?_⟩
    rw [irps, wf.request?_append (s.pending_subset (shape ▸ List.mem_cons_self ..)), sends]

/-- A step of the worker that sends nothing and gets no answer. -/
private theorem idle (fifo : Fifo s) (inserted : s'.shared.history.inserted = s.shared.history.inserted)
    (irps : s'.irps = s.irps) (issued : s'.shared.history.issued = s.shared.history.issued)
    (served : s'.shared.history.served = s.shared.history.served)
    (sent : s'.shared.history.unlinked.length + s'.worker.sent =
      s.shared.history.unlinked.length + s.worker.sent)
    (answered : s'.shared.history.unlinked.length + s'.worker.answered =
      s.shared.history.unlinked.length + s.worker.answered)
    (current : ∀ request moved, s'.worker ≠ .lower request moved) : Fifo s' where
  issued := by
    rw [issued, sent, State.requests, inserted, irps]
    exact fifo.issued
  served := by
    rw [served, answered, State.requests, inserted, irps]
    exact fifo.served
  current request moved at_ := absurd at_ (current request moved)

/-- The worker sends the request of the first pending item. -/
private theorem issue (fifo : Fifo s) {addr : ℕ} {item : WriteQueueItem} {rest : List WriteQueueItem}
    {request : LowerRequest} (at_ : s.worker = .dispatch addr) (shape : s.pending = item :: rest)
    (sends : item.request? s.irps = some request) : Fifo (s.issue request) where
  issued := by
    have before := fifo.issued
    rw [at_] at before
    change s.shared.history.issued ++ [request] = s.requests (s.shared.history.unlinked.length + 1)
    rw [State.requests_succ shape, sends, before]
    rfl
  served := by
    have before := fifo.served
    rw [at_] at before
    exact before
  current := by
    rintro _ _ ⟨⟩
    exact ⟨item, rest, shape, sends⟩

private theorem worker_step {a : Action} (fifo : Fifo s) (wf : Wf s) (irps : s'.irps = s.irps)
    (moved : WorkerStep s a s') : Fifo s' := by
  cases moved with
  | sendIrp at_ found holds present notMarker =>
    obtain ⟨rest, shape, -, -⟩ := wf.found (by rw [at_]; rfl) found (by simp [at_])
    refine fifo.issue at_ shape ?_
    rw [WriteQueueItem.request?_held holds present, if_neg (by simp [notMarker])]
  | sendCopy at_ found copy =>
    obtain ⟨rest, shape, -, -⟩ := wf.found (by rw [at_]; rfl) found (by simp [at_])
    exact fifo.issue at_ shape (WriteQueueItem.request?_copy copy)
  | answer at_ found holds present marker =>
    obtain ⟨rest, shape, -, -⟩ := wf.found (by rw [at_]; rfl) found (by simp [at_])
    have silent : s.requests (s.shared.history.unlinked.length + 1) =
        s.requests s.shared.history.unlinked.length := by
      rw [State.requests_succ shape, WriteQueueItem.request?_held holds present, if_pos marker]
      exact List.append_nil _
    have issued := fifo.issued
    have served := fifo.served
    rw [at_] at issued served
    exact ⟨issued.trans silent.symm, served.trans silent.symm, by simp⟩
  | @served request sectors ioStatus at_ =>
    obtain ⟨item, rest, shape, sends⟩ := fifo.current request sectors at_
    have issued := fifo.issued
    have served := fifo.served
    rw [at_] at issued served
    refine ⟨issued, ?_, by simp⟩
    change (s.shared.history.served ++ [(request, ioStatus)]).map Prod.fst =
      s.requests (s.shared.history.unlinked.length + 1)
    rw [State.requests_succ shape, sends, List.map_append, served]
    rfl
  | transfer at_ =>
    have issued := fifo.issued
    have served := fifo.served
    rw [at_] at issued served
    refine ⟨issued, served, ?_⟩
    rintro _ _ ⟨⟩
    exact fifo.current _ _ at_
  | unlink at_ =>
    refine fifo.idle rfl irps rfl rfl ?_ ?_ (by simp [State.unlinkItem]) <;> rw [at_] <;> exact List.length_append
  | _ at_ => exact fifo.idle rfl irps rfl rfl (by rw [at_]; rfl) (by rw [at_]; rfl) (by simp)

theorem step {a : Action} (fifo : Fifo s) (wf : Wf s) (moved : s.step a = some s') : Fifo s' := by
  obtain ⟨taken, irps⟩ | frame := step_service moved
  · exact fifo.worker_step wf irps taken
  · exact fifo.frame wf frame

end Fifo

theorem fifo_of_run {cfg : Config} {ok : State → Action → Prop} {as : List Action} {s : State}
    (run : Run State.step ok (.initial cfg) as s) : Fifo s := by
  apply And.right
  apply run.preserves (fun s => Wf s ∧ Fifo s) ⟨wf_initial cfg, fifo_initial cfg⟩
  rintro t a u ⟨wf, fifo⟩ _ moved
  exact ⟨wf.step moved, fifo.step wf moved⟩

/-- The items the worker has got an answer for, or answered itself. -/
def State.past (s : State) : List WriteQueueItem :=
  s.shared.history.inserted.take (s.shared.history.unlinked.length + s.worker.answered)

/-- What one action does to the answered items: nothing, or the worker passes the first pending one. -/
inductive Progress (s : State) (a : Action) (s' : State) : Prop
  | same (past : s'.past = s.past) (served : s'.shared.history.served = s.shared.history.served)
  | marker {item : WriteQueueItem} {rest : List WriteQueueItem} {i : ℕ} (shape : s.pending = item :: rest)
      (holds : item.irp = some i) (past : s'.past = s.past ++ [item])
      (served : s'.shared.history.served = s.shared.history.served)
  | answered {request : LowerRequest} {moved : List ℤ} {ioStatus : IoStatusBlock} {item : WriteQueueItem}
      {rest : List WriteQueueItem} (label : a = .workerLowerComplete ioStatus)
      (at_ : s.worker = .lower request moved) (shape : s.pending = item :: rest)
      (sends : item.request? s.irps = some request) (past : s'.past = s.past ++ [item])
      (served : s'.shared.history.served = s.shared.history.served ++ [(request, ioStatus)])

private theorem past_succ {s : State} {item : WriteQueueItem} {rest : List WriteQueueItem}
    (shape : s.pending = item :: rest) (unanswered : s.worker.answered = 0) :
    s.shared.history.inserted.take (s.shared.history.unlinked.length + 1) = s.past ++ [item] := by
  rw [State.take_succ shape, State.past, unanswered, Nat.add_zero]

theorem Fifo.progress {s s' : State} {a : Action} (fifo : Fifo s) (wf : Wf s) (moved : s.step a = some s') :
    Progress s a s' := by
  obtain ⟨taken, -⟩ | frame := step_service moved
  · have idle : s'.shared.history.inserted = s.shared.history.inserted →
        s'.shared.history.unlinked.length + s'.worker.answered =
          s.shared.history.unlinked.length + s.worker.answered → s'.past = s.past := by
      intro inserted answered
      rw [State.past, State.past, inserted, answered]
    cases taken with
    | answer at_ found holds =>
      obtain ⟨rest, shape, -, -⟩ := wf.found (by rw [at_]; rfl) found (by simp [at_])
      exact .marker shape holds (past_succ shape (by rw [at_]; rfl)) rfl
    | @served request sectors ioStatus at_ =>
      obtain ⟨item, rest, shape, sends⟩ := fifo.current request sectors at_
      exact .answered rfl at_ shape sends (past_succ shape (by rw [at_]; rfl)) rfl
    | unlink at_ =>
      refine .same (idle rfl ?_) rfl
      rw [at_]
      exact List.length_append
    | _ at_ => exact .same (idle rfl (by rw [at_]; rfl)) rfl
  · obtain ⟨items, inserted⟩ := frame.inserted
    refine .same ?_ frame.served
    rw [State.past, State.past, inserted, frame.unlinked, frame.worker, List.take_append_of_le_length wf.answered_le]

theorem Progress.past_subset {s s' : State} {a : Action} (progress : Progress s a s') : s.past ⊆ s'.past := by
  cases progress with
  | same past => rw [past]; exact List.Subset.refl _
  | marker _ _ past => rw [past]; exact List.subset_append_left _ _
  | answered _ _ _ _ past => rw [past]; exact List.subset_append_left _ _

theorem Progress.served_subset {s s' : State} {a : Action} (progress : Progress s a s') :
    s.shared.history.served ⊆ s'.shared.history.served := by
  cases progress with
  | same _ served => rw [served]; exact List.Subset.refl _
  | marker _ _ _ served => rw [served]; exact List.Subset.refl _
  | answered _ _ _ _ _ served => rw [served]; exact List.subset_append_left _ _

/-- The request in the lower driver. -/
def WorkerPc.inFlight : WorkerPc → List LowerRequest
  | .lower request _ => [request]
  | _ => []

/-- What has been sent down has been answered, but for the request in the lower driver. -/
theorem Fifo.issued_served {s : State} (fifo : Fifo s) :
    s.shared.history.issued = s.shared.history.served.map Prod.fst ++ s.worker.inFlight := by
  rw [fifo.issued, fifo.served]
  cases at_ : s.worker with
  | lower request moved =>
    obtain ⟨item, rest, shape, sends⟩ := fifo.current request moved at_
    exact (State.requests_succ shape).trans (by rw [sends]; rfl)
  | _ => exact (List.append_nil _).symm

/-- The addresses of the requests sent down are those of their items, in order. -/
private theorem filterMap_request_sublist (irps : List Irp) (items : List WriteQueueItem) :
    ((items.filterMap (WriteQueueItem.request? irps)).map LowerRequest.item).Sublist
      (items.map WriteQueueItem.addr) := by
  induction items with
  | nil => exact .slnil
  | cons item rest ih =>
    cases sends : item.request? irps with
    | none =>
      rw [List.filterMap_cons_none sends]
      exact ih.cons _
    | some request =>
      rw [List.filterMap_cons_some sends, List.map_cons, List.map_cons, WriteQueueItem.request?_item sends]
      exact ih.cons_cons _

theorem Fifo.issued_nodup {s : State} (fifo : Fifo s) (wf : Wf s) :
    (s.shared.history.issued.map LowerRequest.item).Nodup := by
  rw [fifo.issued]
  have early := (List.take_sublist (s.shared.history.unlinked.length + s.worker.sent) s.shared.history.inserted).map
    WriteQueueItem.addr
  exact wf.nodup.sublist ((filterMap_request_sublist _ _).trans early)

/-- An entry that differs after an update is the updated one. -/
private theorem set_changed {α : Type*} {xs : List α} {i j : ℕ} {x x' y : α} (present : xs[i]? = some x)
    (there : (xs.set j y)[i]? = some x') (changed : x' ≠ x) : j = i ∧ y = x' := by
  obtain rfl : j = i := by
    by_contra other
    rw [List.getElem?_set_ne other, present] at there
    exact changed (Option.some.inj there).symm
  rw [List.getElem?_set_self (List.getElem?_eq_some_iff.mp present).1] at there
  exact ⟨rfl, Option.some.inj there⟩

/-- The worker completes the request of the item it points to, and nobody else completes for it. -/
theorem Wf.worker_completes {s s' : State} {a : Action} {i : ℕ} {c c' : Call} {completion : Completion} (wf : Wf s)
    (moved : s.step a = some s') (present : s.calls[i]? = some c) (there : s'.calls[i]? = some c')
    (added : c'.completions = c.completions ++ [completion]) (site : completion.site = .worker) :
    ∃ addr ioStatus item rest, s.worker = .complete addr ioStatus ∧ s.pending = item :: rest ∧
      item.irp = some i ∧ completion = ⟨.worker, ioStatus.status, ioStatus.information⟩ := by
  have grown : c' ≠ c := by
    rintro rfl
    simp at added
  have untouched : s'.calls[i]? ≠ s.calls[i]? := by
    rw [present, there]
    exact fun same => grown (Option.some.inj same)
  cases step_cases moved with
  | receive =>
    exact absurd (List.getElem?_append_left (List.getElem?_eq_some_iff.mp present).1) untouched
  | @call j out d sh' d' here taken =>
    obtain ⟨rfl, rfl⟩ := set_changed present there grown
    obtain rfl : d = c := Option.some.inj (here.symm.trans present)
    obtain same | ⟨other, same, reason⟩ := taken.completions
    · simp [same] at added
    · obtain rfl : other = completion := by simpa [same] using added
      simp [site] at reason
  | @lower _ j d sh' d' here taken =>
    obtain ⟨rfl, rfl⟩ := set_changed present there grown
    obtain rfl : d = c := Option.some.inj (here.symm.trans present)
    obtain same | ⟨other, same, reason⟩ := taken.completions
    · simp [same] at added
    · obtain rfl : other = completion := by simpa [same] using added
      simp [site] at reason
  | worker taken =>
    cases taken with
    | @completeIrp _ _ j ioStatus item d at_ found holds here =>
      obtain ⟨rfl, rfl⟩ := set_changed present there grown
      obtain rfl : d = c := Option.some.inj (here.symm.trans present)
      obtain ⟨rest, shape, -, -⟩ := wf.found (by rw [at_]; rfl) found (by simp [at_])
      have last : completion = ⟨.worker, ioStatus.status, ioStatus.information⟩ := by simpa using added.symm
      exact ⟨_, ioStatus, item, rest, at_, shape, holds, last⟩
    | _ => exact absurd rfl untouched
  | remover taken => exact absurd (by rw [taken.frame.2.2.2.2]) untouched
  | initializeDevice => exact absurd rfl untouched

/-- When the worker completes an item's request, everything inserted before the item has been unlinked
and answered, and the item's own request answered. -/
theorem Fifo.completes_in_order {s : State} {addr : ℕ} {ioStatus : IoStatusBlock} {item : WriteQueueItem}
    {rest : List WriteQueueItem} (fifo : Fifo s) (wf : Wf s) (at_ : s.worker = .complete addr ioStatus)
    (shape : s.pending = item :: rest) :
    ∃ before, s.shared.history.inserted = before ++ item :: rest ∧
      s.shared.history.unlinked = before.map WriteQueueItem.addr ∧
      s.shared.history.served.map Prod.fst = (before ++ [item]).filterMap (WriteQueueItem.request? s.irps) := by
  refine ⟨s.shared.history.inserted.take s.shared.history.unlinked.length, ?_, wf.unlinked, ?_⟩
  · rw [← shape, State.pending, List.take_append_drop]
  · have served := fifo.served
    rw [at_] at served
    rw [served]
    change s.requests (s.shared.history.unlinked.length + 1) = _
    rw [State.requests_succ shape, List.filterMap_append, State.requests, List.filterMap_cons, List.filterMap_nil]
    cases item.request? s.irps <;> rfl

end QueueCache
