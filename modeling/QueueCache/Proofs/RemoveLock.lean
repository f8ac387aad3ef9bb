import QueueCache.Proofs.Queue

/-! # What the error exits restore

Every hold on the remove lock and every live pool block belongs to a queue entry, to a scatter object
or to an enqueue call that is not finished. Two exits of `QCacheQueueLazyWriteIrp` break this: when the
caller's MDL cannot be mapped or the payload copy cannot be allocated, the hold (and in the first case
the item) stays behind. In every run that avoids these two the books balance in each state, and an
exit that fails leaves no trace.
-/

namespace QueueCache

open Transition

/-- `QCacheQueueLazyWriteIrp` is about to map the caller's MDL or to allocate the payload. -/
def Pc.copiesPayload : Pc → Bool
  | .lazyMapMdl _ | .lazyNewPayload _ => true
  | _ => false

/-- The memory for the copy of a lazy write is there. -/
def payloadGranted (s : State) : Action → Bool
  | .call i out => (s.calls[i]?).all fun c => !c.pc.copiesPayload || out.memory
  | _ => true

/-- The enqueue call is between acquiring the lock and linking its item. -/
def Pc.holdsLock : Pc → Bool
  | .insertTail _ | .lazyMapMdl _ | .lazyNewPayload _ | .lazyInsertTail _ => true
  | _ => false

/-- The enqueue call has an item that is not linked. -/
def Pc.hasItem : Pc → Bool
  | .acquireLock _ | .lazyAcquireLock _ => true
  | pc => pc.holdsLock

/-- The enqueue call has a payload copy that is not linked. -/
def Pc.hasPayload : Pc → Bool
  | .lazyInsertTail item => item.majorFunction = .write
  | _ => false

/-- The remover's own hold. -/
def RemoverPc.holdsLock : RemoverPc → Bool
  | .clearCached | .storeShutdown | .setEvent | .waitWorker | .flush | .sendDown | .releaseLock => true
  | _ => false

/-- The holds a call answers for: its scatter object's and that of an item it has not linked. -/
def Call.holds (c : Call) : ℤ := c.pc.holdsLock.toNat + c.scatter.isSome.toNat

theorem Call.holds_nonneg (c : Call) : 0 ≤ c.holds := by
  simp only [Call.holds]
  omega

/-- The remove-lock holds of the queue and read paths: all but the remover's own. -/
def State.pathHolds (s : State) : ℤ :=
  s.shared.extension.removeLock.ioCount - s.remover.holdsLock.toNat

/-- The number of live scatter objects. -/
def State.liveScatters (s : State) : ℕ := s.calls.countP fun c => c.scatter.isSome

/-- The number of enqueue calls between acquiring the lock and linking their item. -/
def State.enqueuing (s : State) : ℕ := s.calls.countP fun c => c.pc.holdsLock

/-- The holds are accounted for. -/
def Balanced (s : State) : Prop :=
  s.shared.extension.removeLock.ioCount =
    s.shared.queue.length + s.calls.tally Call.holds + s.remover.holdsLock.toNat

/-- The holds that nobody answers for. -/
def State.surplus (s : State) : ℤ :=
  s.shared.extension.removeLock.ioCount -
    (s.shared.queue.length + s.calls.tally Call.holds + s.remover.holdsLock.toNat)

/-- There are at least as many holds as nobody answers for. -/
theorem State.surplus_le (s : State) : s.surplus ≤ s.shared.extension.removeLock.ioCount := by
  have answered : 0 ≤ s.calls.tally Call.holds := List.tally_nonneg fun c _ => c.holds_nonneg
  rw [State.surplus]
  omega

theorem balanced_iff_surplus (s : State) : Balanced s ↔ s.surplus = 0 := by
  rw [Balanced, State.surplus]
  omega

private theorem scatterComplete_holds (sh : Shared) (i : ℕ) (c : Call) {scatter : ScatteredIrp}
    (scatter' : ScatteredIrp) (live : c.scatter = some scatter) :
    (scatterComplete sh i c scatter').1.extension.removeLock.ioCount -
        (scatterComplete sh i c scatter').2.holds = sh.extension.removeLock.ioCount - c.holds := by
  unfold scatterComplete
  dsimp only
  split
  · simp [Call.holds, live]
    omega
  · simp [Call.holds, live]

/-- A step of a dispatch call changes the number of holds by what it links and comes to answer for. -/
theorem CallStep.holds {sh sh' : Shared} {i : ℕ} {c c' : Call} {out : Outcome} (ok : CallOk i c)
    (moved : CallStep sh i c out sh' c') (granted : c.pc.copiesPayload = true → out.memory = true) :
    sh'.extension.removeLock.ioCount - sh'.queue.length - c'.holds =
      sh.extension.removeLock.ioCount - sh.queue.length - c.holds := by
  have here := ok.atPc
  cases moved with
  | entry at_ frame entered =>
    rw [frame.removeLock, frame.queue]
    cases entered <;> simp [Call.holds, Call.afterEntry, at_, Pc.holdsLock]
  | refuse at_ frame =>
    rw [frame.removeLock, frame.queue]
    rcases at_ with at_ | at_ | at_ <;> simp [Call.holds, at_, Pc.holdsLock]
  | noItem at_ => rcases at_ with at_ | at_ <;> simp [Call.holds, at_, Pc.holdsLock]
  | noLock at_ => rcases at_ with at_ | at_ <;> simp [Call.holds, at_, Pc.holdsLock]
  | forward at_ => simp [Call.holds, sendToNextDriver, at_, Pc.holdsLock]
  | noMapping at_ noMemory =>
    rw [granted (by rw [at_]; rfl)] at noMemory
    contradiction
  | noPayload at_ noMemory =>
    rw [granted (by rw [at_]; rfl)] at noMemory
    contradiction
  | scanForward at_ frame =>
    rw [frame.removeLock, frame.queue]
    simp [Call.holds, at_, Pc.holdsLock]
  | scanFull at_ frame =>
    rw [frame.removeLock, frame.queue]
    simp [Call.holds, at_, Pc.holdsLock]
  | scanGap at_ frame =>
    rw [frame.removeLock, frame.queue]
    simp [Call.holds, at_, Pc.holdsLock]
  | createScatter at_ =>
    rw [Call.AtPc, at_] at here
    simp [Call.holds, at_, Pc.holdsLock, here.1.scatter, Shared.queue]
    omega
  | splitOn at_ live frame _ _ goes =>
    rw [frame.removeLock, frame.queue]
    rcases goes with ⟨_, rfl⟩ | ⟨_, rfl⟩ <;> simp [Call.holds, at_, Pc.holdsLock, live]
  | splitFail at_ live => simp [Call.holds, at_, Pc.holdsLock, live]
  | @finishScatter sh₁ _ scatter at_ live frame =>
    have released := scatterComplete_holds sh₁ i (c.goto (.returned STATUS_PENDING)) scatter live
    have same : (c.goto (.returned STATUS_PENDING)).holds = c.holds := by
      simp [Call.holds, at_, Pc.holdsLock]
    rw [frame.removeLock, same] at released
    rw [scatterComplete_queue, frame.queue]
    omega
  | insertTail at_ => simp [Call.holds, at_, Pc.holdsLock]; omega
  | lazyInsertTail at_ => simp [Call.holds, at_, Pc.holdsLock]; omega
  | acquireLock at_ => simp [Call.holds, at_, Pc.holdsLock, Shared.queue]; omega
  | lazyAcquireWrite at_ => simp [Call.holds, at_, Pc.holdsLock, Shared.queue]; omega
  | lazyAcquireFlush at_ => simp [Call.holds, at_, Pc.holdsLock, Shared.queue]; omega
  | _ at_ => simp [Call.holds, at_, Pc.holdsLock, Shared.queue]

theorem LowerMove.holds {sh sh' : Shared} {i : ℕ} {c c' : Call} {a : Action}
    (moved : LowerMove sh i c a sh' c') :
    sh'.extension.removeLock.ioCount - c'.holds = sh.extension.removeLock.ioCount - c.holds := by
  cases moved with
  | @scattered n _ _ _ _ _ live =>
    exact scatterComplete_holds sh i { c with lowerIrps := c.lowerIrps.eraseIdx n } _ live
  | _ => rfl

/-- Every step but a refused payload keeps the books. -/
theorem Wf.surplus_granted {s s' : State} {a : Action} (wf : Wf s) (granted : payloadGranted s a = true)
    (moved : s.step a = some s') : s'.surplus = s.surplus := by
  rw [State.surplus, State.surplus]
  cases step_cases moved with
  | receive => simp [Call.receive, Call.holds, Pc.holdsLock]
  | @call i out c sh' c' present taken =>
    have granted : c.pc.copiesPayload = true → out.memory = true := by
      simp only [payloadGranted, present, Option.all_some, Bool.or_eq_true, Bool.not_eq_true'] at granted
      rintro copies
      simpa [copies] using granted
    have held := taken.holds (wf.calls i c present) granted
    rw [State.update_shared, State.update_calls, State.update_remover, List.tally_set present]
    omega
  | @lower _ i c sh' c' present taken =>
    have held := taken.holds
    rw [State.update_shared, State.update_calls, State.update_remover, List.tally_set present,
      taken.queue.1.queue]
    omega
  | worker taken =>
    cases taken with
    | @completeIrp _ _ i ioStatus item c at_ found holds present =>
      have same : (State.clearIrp s.shared.queue item.addr).length = s.shared.queue.length :=
        List.length_map _
      simp only [List.tally_set present, Shared.withQueue, Shared.queue_mk, same]
      simp only [Call.holds, Call.completeRequest]
      omega
    | unlink at_ found =>
      obtain ⟨head, rest, -, -, rfl, queue⟩ := wf.found_unlink at_ found
      have left := s.shared.removeEntryList_queue _ queue
      rw [queue, List.length_cons]
      simp only [State.unlinkItem, Shared.deleteItem, Shared.free, Shared.ioReleaseRemoveLock,
        Shared.queue_mk]
      rw [← Shared.queue, left]
      change s.shared.extension.removeLock.ioCount - 1 - _ = _
      omega
    | _ => rfl
  | remover taken =>
    cases taken with
    | advance at_ =>
      rcases at_ with ⟨at_, rfl⟩ | ⟨at_, rfl⟩ | ⟨at_, rfl⟩ <;> rw [at_] <;> rfl
    | acquire at_ =>
      simp only [at_, RemoverPc.holdsLock, Bool.toNat_false, Bool.toNat_true, Shared.ioAcquireRemoveLock,
        Shared.queue]
      omega
    | releaseLock at_ =>
      simp only [at_, RemoverPc.holdsLock, Bool.toNat_false, Bool.toNat_true, Shared.ioReleaseRemoveLock,
        Shared.queue]
      omega
    | _ at_ => rw [at_]; rfl
  | initializeDevice => rfl

theorem Balanced.step {s s' : State} {a : Action} (balanced : Balanced s) (wf : Wf s)
    (granted : payloadGranted s a = true) (moved : s.step a = some s') : Balanced s' := by
  rw [balanced_iff_surplus] at balanced ⊢
  exact (wf.surplus_granted granted moved).trans balanced

/-- The call a block was allocated for. -/
def PoolBlock.addr : PoolBlock → ℕ
  | .item addr | .payload addr | .scatter addr => addr

/-- A queue entry's own block and, for a lazy write, its payload's. -/
def WriteQueueItem.has (item : WriteQueueItem) : PoolBlock → Bool
  | .item addr => item.addr = addr
  | .payload addr => item.addr = addr && item.isLazy && item.majorFunction = .write
  | .scatter _ => false

/-- The blocks a call still answers for. -/
def Call.has (c : Call) : PoolBlock → Bool
  | .item _ => c.pc.hasItem
  | .payload _ => c.pc.hasPayload
  | .scatter _ => c.scatter.isSome

/-- Every live block belongs to a queue entry or to the call it was allocated for. -/
def PoolExact (s : State) : Prop :=
  ∀ block, block ∈ s.shared.pool ↔ (∃ item ∈ s.shared.queue, item.has block = true) ∨
    ∃ c, s.calls[block.addr]? = some c ∧ c.has block = true

private theorem forall_block {i : ℕ} {p : PoolBlock → Prop} (item : p (.item i)) (payload : p (.payload i))
    (scatter : p (.scatter i)) (block : PoolBlock) (own : block.addr = i) : p block := by
  cases block <;> obtain rfl := own
  · exact item
  · exact payload
  · exact scatter

/-- The blocks of a call that is not linked, before and after one of its steps. -/
structure PoolStep (pool pool' : Finset PoolBlock) (i : ℕ) (c c' : Call) : Prop where
  unlinked : ∀ item, ¬ Linked item c
  others : ∀ block, block.addr ≠ i → (block ∈ pool' ↔ block ∈ pool)
  own : (∀ block, block.addr = i → (block ∈ pool ↔ c.has block = true)) →
    ∀ block, block.addr = i → (block ∈ pool' ↔ c'.has block = true)

/-- A call before its insertion has linked nothing. -/
theorem not_linked {c : Call} (early : c.pc ≠ .setEvent ∧ c.pc ≠ .lazySetEvent ∧ c.pc ≠ .lazyComplete ∧
    ∀ status, c.pc ≠ .returned status) (item : WriteQueueItem) : ¬ Linked item c := by
  obtain ⟨notSet, notLazySet, notComplete, notReturned⟩ := early
  intro linked
  cases linked with
  | held _ _ at_ => exact at_.elim notSet (notReturned _)
  | lazily _ _ at_ => exact at_.elim notLazySet fun at_ => at_.elim notComplete fun at_ => notReturned _ at_.1

/-- A call that allocates a block answers for it. -/
private theorem poolStep_insert {pool : Finset PoolBlock} {i : ℕ} {c c' : Call} {fresh : PoolBlock}
    (unlinked : ∀ item, ¬ Linked item c) (named : fresh.addr = i)
    (has : ∀ block, block.addr = i → (c'.has block = true ↔ c.has block = true ∨ block = fresh)) :
    PoolStep pool (insert fresh pool) i c c' where
  unlinked := unlinked
  others block other := by
    have apart : block ≠ fresh := by
      rintro rfl
      exact other named
    simp [apart]
  own mine block own := by
    rw [Finset.mem_insert, mine block own, has block own, or_comm]

/-- A call that gives up its item answers for nothing. -/
private theorem poolStep_delete {pool : Finset PoolBlock} {i : ℕ} {c c' : Call} (unlinked : ∀ item, ¬ Linked item c)
    (scatter : c.has (.scatter i) = false) (has : ∀ block, c'.has block = false) :
    PoolStep pool ((pool.erase (.payload i)).erase (.item i)) i c c' where
  unlinked := unlinked
  others block other := by
    have notItem : block ≠ .item i := by rintro rfl; exact other rfl
    have notPayload : block ≠ .payload i := by rintro rfl; exact other rfl
    simp [notItem, notPayload]
  own mine := by
    apply forall_block
    · simp [has]
    · simp [has]
    · have none := mine (.scatter i) rfl
      rw [scatter] at none
      simpa [has] using none

/-- A call with a live scatter object has linked nothing. -/
theorem CallOk.scatter_unlinked {i : ℕ} {c : Call} {scatter : ScatteredIrp} (ok : CallOk i c)
    (live : c.scatter = some scatter) (item : WriteQueueItem) : ¬ Linked item c := by
  have here := ok.atPc
  intro linked
  cases linked with
  | held _ held => simp [held.scatter] at live
  | lazily _ _ at_ =>
    obtain at_ | at_ | ⟨at_, -⟩ := at_ <;> rw [Call.AtPc, at_] at here
    · simp [here.1.scatter] at live
    · simp [here.1.scatter] at live
    · cases here with
      | completed _ _ _ _ _ _ _ none => simp [none] at live
      | forwarded _ _ _ none => simp [none] at live
      | held same => exact absurd same (by decide)
      | scattered same => exact absurd same (by decide)

/-- The scatter object's block goes with the object. -/
private theorem poolStep_scatter {sh : Shared} {i : ℕ} {c c₀ : Call} (scatter' : ScatteredIrp)
    (unlinked : ∀ item, ¬ Linked item c) (has : ∀ block, c₀.has block = c.has block)
    (live : c.scatter.isSome = true) :
    PoolStep sh.pool (scatterComplete sh i c₀ scatter').1.pool i c (scatterComplete sh i c₀ scatter').2 := by
  have item : c₀.pc.hasItem = c.pc.hasItem := has (.item i)
  have payload : c₀.pc.hasPayload = c.pc.hasPayload := has (.payload i)
  unfold scatterComplete
  dsimp only
  split
  · refine ⟨unlinked, fun block other => ?_, fun mine => forall_block ?_ ?_ ?_⟩
    · have apart : block ≠ .scatter i := by rintro rfl; exact other rfl
      simp [apart]
    · simpa [Call.has, item] using mine (.item i) rfl
    · simpa [Call.has, payload] using mine (.payload i) rfl
    · simp [Call.has]
  · refine ⟨unlinked, fun block _ => Iff.rfl, fun mine => forall_block ?_ ?_ ?_⟩
    · simpa [Call.has, item] using mine (.item i) rfl
    · simpa [Call.has, payload] using mine (.payload i) rfl
    · simpa [Call.has, live] using mine (.scatter i) rfl

/-- What a step of a dispatch call that links nothing does to the pool. -/
theorem CallStep.pool {sh sh' : Shared} {i : ℕ} {c c' : Call} {out : Outcome} (ok : CallOk i c)
    (moved : CallStep sh i c out sh' c') (granted : c.pc.copiesPayload = true → out.memory = true)
    (linksNot : ∀ item, c.pc ≠ .insertTail item ∧ c.pc ≠ .lazyInsertTail item) :
    (sh'.pool = sh.pool ∧ ∀ block, c'.has block = c.has block) ∨ PoolStep sh.pool sh'.pool i c c' := by
  have here := ok.atPc
  cases moved with
  | entry at_ frame entered =>
    left
    refine ⟨frame.pool, fun block => ?_⟩
    cases entered <;> cases block <;>
      simp [Call.has, Call.afterEntry, at_, Pc.hasItem, Pc.holdsLock, Pc.hasPayload]
  | refuse at_ frame =>
    left
    refine ⟨frame.pool, fun block => ?_⟩
    rcases at_ with at_ | at_ | at_ <;> cases block <;>
      simp [Call.has, at_, Pc.hasItem, Pc.holdsLock, Pc.hasPayload]
  | noItem at_ =>
    left
    refine ⟨rfl, fun block => ?_⟩
    rcases at_ with at_ | at_ <;> cases block <;>
      simp [Call.has, at_, Pc.hasItem, Pc.holdsLock, Pc.hasPayload]
  | newItem at_ =>
    right
    refine poolStep_insert (not_linked (by simp [at_])) rfl (forall_block ?_ ?_ ?_) <;>
      simp [Call.has, at_, Pc.hasItem, Pc.holdsLock, Pc.hasPayload]
  | noLock at_ =>
    right
    have scatter : c.scatter = none := by
      rcases at_ with at_ | at_ <;> rw [Call.AtPc, at_] at here <;> exact here.1.scatter
    refine poolStep_delete (not_linked ?_) (by simp [Call.has, scatter]) fun block => ?_
    · rcases at_ with at_ | at_ <;> simp [at_]
    · cases block <;> simp [Call.has, Pc.hasItem, Pc.holdsLock, Pc.hasPayload, scatter]
  | forward at_ =>
    left
    refine ⟨rfl, fun block => ?_⟩
    cases block <;> simp [Call.has, sendToNextDriver, at_, Pc.hasItem, Pc.holdsLock, Pc.hasPayload]
  | insertTail at_ => exact absurd at_ (linksNot _).1
  | lazyInsertTail at_ => exact absurd at_ (linksNot _).2
  | noMapping at_ noMemory =>
    rw [granted (by rw [at_]; rfl)] at noMemory
    contradiction
  | noPayload at_ noMemory =>
    rw [granted (by rw [at_]; rfl)] at noMemory
    contradiction
  | lazyNewItem at_ =>
    right
    refine poolStep_insert (not_linked (by simp [at_])) rfl (forall_block ?_ ?_ ?_) <;>
      simp [Call.has, at_, Pc.hasItem, Pc.holdsLock, Pc.hasPayload]
  | lazyNewPayload at_ =>
    right
    rw [Call.AtPc, at_] at here
    obtain ⟨-, -, writes, rfl⟩ := here
    refine poolStep_insert (not_linked (by simp [at_])) rfl (forall_block ?_ ?_ ?_) <;>
      simp [Call.has, at_, Pc.hasItem, Pc.holdsLock, Pc.hasPayload, mappedItem, writes]
  | createScatter at_ =>
    right
    refine poolStep_insert (not_linked (by simp [at_])) rfl (forall_block ?_ ?_ ?_) <;>
      simp [Call.has, at_, Pc.hasItem, Pc.holdsLock, Pc.hasPayload]
  | splitOn at_ live frame _ _ goes =>
    left
    refine ⟨frame.pool, fun block => ?_⟩
    rcases goes with ⟨_, rfl⟩ | ⟨_, rfl⟩ <;> cases block <;>
      simp [Call.has, at_, Pc.hasItem, Pc.holdsLock, Pc.hasPayload, live]
  | splitFail at_ live =>
    left
    refine ⟨rfl, fun block => ?_⟩
    cases block <;> simp [Call.has, at_, Pc.hasItem, Pc.holdsLock, Pc.hasPayload, live]
  | @finishScatter sh₁ _ scatter at_ live frame =>
    right
    rw [← frame.pool]
    refine poolStep_scatter scatter (ok.scatter_unlinked live) (fun block => ?_) (by simp [live])
    cases block <;> simp [Call.has, at_, Pc.hasItem, Pc.holdsLock, Pc.hasPayload]
  | scanForward at_ frame =>
    left
    refine ⟨frame.pool, fun block => ?_⟩
    cases block <;> simp [Call.has, at_, Pc.hasItem, Pc.holdsLock, Pc.hasPayload]
  | scanFull at_ frame =>
    left
    refine ⟨frame.pool, fun block => ?_⟩
    cases block <;> simp [Call.has, at_, Pc.hasItem, Pc.holdsLock, Pc.hasPayload]
  | scanGap at_ frame =>
    left
    refine ⟨frame.pool, fun block => ?_⟩
    cases block <;> simp [Call.has, at_, Pc.hasItem, Pc.holdsLock, Pc.hasPayload]
  | lazyAcquireFlush at_ granted other =>
    left
    rw [Call.AtPc, at_] at here
    refine ⟨rfl, fun block => ?_⟩
    cases block <;> simp [Call.has, at_, Pc.hasItem, Pc.holdsLock, Pc.hasPayload, other]
  | _ at_ =>
    left
    refine ⟨rfl, fun block => ?_⟩
    cases block <;> simp [Call.has, at_, Pc.hasItem, Pc.holdsLock, Pc.hasPayload]

theorem LowerMove.pool {sh sh' : Shared} {i : ℕ} {c c' : Call} {a : Action} (ok : CallOk i c)
    (moved : LowerMove sh i c a sh' c') :
    (sh'.pool = sh.pool ∧ ∀ block, c'.has block = c.has block) ∨ PoolStep sh.pool sh'.pool i c c' := by
  cases moved with
  | scattered _ _ live =>
    right
    refine poolStep_scatter _ (ok.scatter_unlinked live) (fun block => ?_) (by simp [live])
    cases block <;> rfl
  | _ => exact .inl ⟨rfl, fun block => by cases block <;> rfl⟩

theorem WriteQueueItem.has_addr {item : WriteQueueItem} {block : PoolBlock} (has : item.has block = true) :
    item.addr = block.addr := by
  cases block with
  | item addr => simpa [WriteQueueItem.has, PoolBlock.addr] using has
  | payload addr =>
    simp only [WriteQueueItem.has, Bool.and_eq_true, decide_eq_true_eq] at has
    exact has.1.1
  | scatter addr => simp [WriteQueueItem.has] at has

/-- The call that linked a queue entry. -/
theorem Wf.linked_queue {s : State} (wf : Wf s) {item : WriteQueueItem} (member : item ∈ s.shared.queue) :
    ∃ c source, s.calls[item.addr]? = some c ∧ Linked source c := by
  obtain ⟨source, pending, form⟩ := wf.mem_queue member
  obtain ⟨c, present, linked⟩ := wf.linked source (s.pending_subset pending)
  refine ⟨c, source, ?_, linked⟩
  obtain rfl | rfl := form <;> exact present

/-- A call that has linked its item answers for no block. -/
private theorem Linked.has {i : ℕ} {c : Call} {item : WriteQueueItem} (linked : Linked item c) (ok : CallOk i c)
    (block : PoolBlock) : c.has block = false := by
  have scatter : c.scatter = none := by
    cases live : c.scatter with
    | none => rfl
    | some scatter => exact absurd linked (ok.scatter_unlinked live item)
  cases linked with
  | held _ _ at_ =>
    obtain at_ | at_ := at_ <;> cases block <;>
      simp [Call.has, at_, Pc.hasItem, Pc.holdsLock, Pc.hasPayload, scatter]
  | lazily _ _ at_ =>
    obtain at_ | at_ | ⟨at_, -⟩ := at_ <;> cases block <;>
      simp [Call.has, at_, Pc.hasItem, Pc.holdsLock, Pc.hasPayload, scatter]

namespace PoolExact

variable {s s' : State}

/-- One call moved and linked nothing. -/
private theorem frame_call (exact : PoolExact s) (wf : Wf s) {i : ℕ} {c c' : Call} {sh' : Shared}
    (present : s.calls[i]? = some c) (queue : sh'.queue = s.shared.queue)
    (pool : (sh'.pool = s.shared.pool ∧ ∀ block, c'.has block = c.has block) ∨
      PoolStep s.shared.pool sh'.pool i c c') : PoolExact (s.update i (sh', c')) := by
  intro block
  have before := exact block
  rw [State.update_shared, State.update_calls, queue]
  by_cases own : block.addr = i
  · rw [own, List.getElem?_set_self (List.getElem?_eq_some_iff.mp present).1]
    rw [own, present] at before
    simp only [Option.some.injEq, exists_eq_left'] at before ⊢
    obtain ⟨samePool, sameHas⟩ | step := pool
    · rw [samePool, sameHas, before]
    · have absent : ∀ block, block.addr = i → ¬ ∃ item ∈ s.shared.queue, item.has block = true := by
        rintro block own ⟨item, member, has⟩
        obtain ⟨d, source, there, linked⟩ := wf.linked_queue member
        rw [WriteQueueItem.has_addr has, own] at there
        obtain rfl : d = c := Option.some.inj (there.symm.trans present)
        exact step.unlinked source linked
      have mine : ∀ block, block.addr = i → (block ∈ s.shared.pool ↔ c.has block = true) := by
        intro block own
        have before := exact block
        rw [or_iff_right (absent block own), own, present] at before
        simpa only [Option.some.injEq, exists_eq_left'] using before
      rw [step.own mine block own, or_iff_right (absent block own)]
  · rw [List.getElem?_set_ne (Ne.symm own)]
    obtain ⟨samePool, -⟩ | step := pool
    · rw [samePool, before]
    · rw [step.others block own, before]

private theorem insert_call (exact : PoolExact s) {i : ℕ} {c c' : Call} {item : WriteQueueItem} {charge : ℤ}
    (present : s.calls[i]? = some c) (addr : item.addr = i)
    (gives : ∀ block, block.addr = i → (c.has block = true ↔ item.has block = true))
    (left : ∀ block, c'.has block = false) :
    PoolExact (s.update i (s.shared.insertTailList item charge, c')) := by
  intro block
  have before := exact block
  rw [State.update_shared, State.update_calls, Shared.insertTailList_pool, Shared.insertTailList_queue]
  by_cases own : block.addr = i
  · rw [own, List.getElem?_set_self (List.getElem?_eq_some_iff.mp present).1]
    rw [own, present] at before
    simp only [Option.some.injEq, exists_eq_left', gives block own] at before
    simp [left, before, or_and_right, exists_or]
  · have apart : item.has block = false := by
      by_contra has
      exact own ((WriteQueueItem.has_addr (by simpa using has)).symm.trans addr)
    rw [List.getElem?_set_ne (Ne.symm own), before]
    simp [apart, or_and_right, exists_or]

private theorem clear (addr : ℕ) (block : PoolBlock) (queue : List WriteQueueItem) :
    (∃ item ∈ State.clearIrp queue addr, item.has block = true) ↔ ∃ item ∈ queue, item.has block = true := by
  have blind : ∀ item : WriteQueueItem,
      WriteQueueItem.has (if item.addr = addr then { item with irp := none } else item) block = item.has block := by
    intro item
    split
    · cases block <;> rfl
    · rfl
  simp only [State.clearIrp, List.mem_map, exists_exists_and_eq_and, blind]

private theorem unlink (exact : PoolExact s) (wf : Wf s) {addr : ℕ} {item : WriteQueueItem}
    (at_ : s.worker = .unlink addr) (found : s.item? addr = some item) : PoolExact (s.unlinkItem item) := by
  obtain ⟨head, rest, shape, rfl, rfl, queue⟩ := wf.found_unlink at_ found
  have left := s.shared.removeEntryList_queue _ queue
  have nodup := wf.pending_nodup
  rw [shape, List.map_cons, List.nodup_cons] at nodup
  obtain ⟨c, present, linked⟩ := wf.linked head (s.pending_subset (shape ▸ List.mem_cons_self ..))
  have none := linked.has (wf.calls _ c present)
  intro block
  have before := exact block
  rw [queue] at before
  change block ∈ (s.shared.pool.erase (.payload head.addr)).erase (.item head.addr) ↔
    (∃ item ∈ (s.shared.removeEntryList _).queue, item.has block = true) ∨ _
  rw [left, Finset.mem_erase, Finset.mem_erase, before]
  by_cases own : block.addr = head.addr
  · -- The head is the only entry with this address, and its call answers for nothing.
    have notRest : ¬ ∃ item ∈ rest, item.has block = true := by
      rintro ⟨item, member, has⟩
      exact nodup.1 (own ▸ WriteQueueItem.has_addr has ▸ List.mem_map_of_mem member)
    have notCall : ¬ ∃ d, s.calls[block.addr]? = some d ∧ d.has block = true := by
      rintro ⟨d, there, has⟩
      rw [own] at there
      obtain rfl : c = d := Option.some.inj (present.symm.trans there)
      rw [none] at has
      contradiction
    change _ ↔ (∃ item ∈ rest, item.has block = true) ∨ ∃ d, s.calls[block.addr]? = some d ∧ d.has block = true
    refine iff_of_false ?_ (not_or_intro notRest notCall)
    rintro ⟨notItem, notPayload, ⟨item, member, has⟩ | some⟩
    · obtain rfl | member := List.mem_cons.mp member
      · cases block with
        | item addr => exact notItem (by rw [← own]; rfl)
        | payload addr => exact notPayload (by rw [← own]; rfl)
        | scatter addr => simp [WriteQueueItem.has] at has
      · exact notRest ⟨item, member, has⟩
    · exact notCall some
  · have notItem : block ≠ .item head.addr := by rintro rfl; exact own rfl
    have notPayload : block ≠ .payload head.addr := by rintro rfl; exact own rfl
    have notHead : WriteQueueItem.has { head with irp := Option.none } block = false := by
      by_contra has
      exact own (WriteQueueItem.has_addr (Bool.not_eq_false _ ▸ has)).symm
    simp only [List.mem_cons, exists_eq_or_imp, notHead, Bool.false_eq_true, false_or, ne_eq, notItem,
      notPayload, not_false_eq_true, true_and]
    rfl

theorem step {a : Action} (exact : PoolExact s) (wf : Wf s) (granted : payloadGranted s a = true)
    (moved : s.step a = some s') : PoolExact s' := by
  cases step_cases moved with
  | receive =>
    intro block
    refine (exact block).trans (or_congr_right ?_)
    constructor
    · rintro ⟨c, present, has⟩
      exact ⟨c, by rw [List.getElem?_append_left (List.getElem?_eq_some_iff.mp present).1, present], has⟩
    · rintro ⟨c, present, has⟩
      obtain inside | outside := lt_or_ge block.addr s.calls.length
      · exact ⟨c, by rwa [List.getElem?_append_left inside] at present, has⟩
      · rw [List.getElem?_append_right outside] at present
        obtain rfl := List.mem_singleton.mp (List.mem_of_getElem? present)
        cases block <;> simp [Call.has, Call.receive, Pc.hasItem, Pc.holdsLock, Pc.hasPayload] at has
  | @call i out c sh' c' present taken =>
    have ok := wf.calls i c present
    have here := ok.atPc
    have granted : c.pc.copiesPayload = true → out.memory = true := by
      simp only [payloadGranted, present, Option.all_some, Bool.or_eq_true, Bool.not_eq_true'] at granted
      rintro copies
      simpa [copies] using granted
    obtain ⟨frame, -⟩ | ⟨item, charge, rfl, ⟨at_, -, rfl⟩ | ⟨at_, -, rfl⟩⟩ := taken.queue_cases
    · refine exact.frame_call wf present frame.queue (taken.pool ok granted fun item => ⟨?_, ?_⟩)
      · rintro at_
        obtain ⟨rfl, -⟩ := taken.of_insertTail at_
        have items := frame.items
        simp at items
      · rintro at_
        obtain ⟨rfl, -⟩ := taken.of_lazyInsertTail at_
        have items := frame.items
        simp at items
    · rw [Call.AtPc, at_] at here
      refine exact.insert_call present (by rw [here.2.2.2, heldItem_addr]) (forall_block ?_ ?_ ?_) fun block => ?_
      · simp [Call.has, WriteQueueItem.has, at_, Pc.hasItem, Pc.holdsLock, here.2.2.2]
      · simp [Call.has, WriteQueueItem.has, at_, Pc.hasPayload, here.2.2.2]
      · simp [Call.has, WriteQueueItem.has, here.1.scatter]
      · cases block <;> simp [Call.has, Pc.hasItem, Pc.holdsLock, Pc.hasPayload, here.1.scatter]
    · rw [Call.AtPc, at_] at here
      refine exact.insert_call present (by rw [here.2.2.2, lazyItem_addr]) (forall_block ?_ ?_ ?_) fun block => ?_
      · simp [Call.has, WriteQueueItem.has, at_, Pc.hasItem, Pc.holdsLock, here.2.2.2]
      · simp [Call.has, WriteQueueItem.has, at_, Pc.hasPayload, here.2.2.2]
      · simp [Call.has, WriteQueueItem.has, here.1.scatter]
      · cases block <;> simp [Call.has, Pc.hasItem, Pc.holdsLock, Pc.hasPayload, here.1.scatter]
  | @lower _ i c sh' c' present taken =>
    exact exact.frame_call wf present taken.queue.1.queue (taken.pool (wf.calls i c present))
  | worker taken =>
    cases taken with
    | @completeIrp _ _ i ioStatus item c at_ found holds present =>
      intro block
      rw [Shared.withQueue, Shared.queue_mk, clear]
      refine (exact block).trans (or_congr_right ?_)
      by_cases own : block.addr = i
      · rw [own, List.getElem?_set_self (List.getElem?_eq_some_iff.mp present).1, present]
        simp only [Option.some.injEq, exists_eq_left']
        cases block <;> rfl
      · rw [List.getElem?_set_ne (Ne.symm own)]
    | unlink at_ found => exact exact.unlink wf at_ found
    | _ => exact exact
  | remover taken => cases taken <;> exact exact
  | initializeDevice => exact exact

end PoolExact

/-- The books balance, and the pool is exact, wherever a run without a refused payload arrives. -/
theorem balanced_of_run {cfg : Config} {as : List Action} {s : State}
    (run : Run State.step (fun t a => payloadGranted t a = true) (.initial cfg) as s) :
    Balanced s ∧ PoolExact s := by
  have start : Wf (.initial cfg) ∧ Balanced (.initial cfg) ∧ PoolExact (.initial cfg) := by
    refine ⟨wf_initial cfg, rfl, fun block => ?_⟩
    simp [State.initial]
  apply And.right
  apply run.preserves (fun s => Wf s ∧ Balanced s ∧ PoolExact s) start
  rintro t a u ⟨wf, balanced, exact⟩ granted moved
  exact ⟨wf.step moved, balanced.step wf granted moved, exact.step wf granted moved⟩

theorem balanced_iff_pathHolds (s : State) :
    Balanced s ↔ s.pathHolds = s.shared.queue.length + s.liveScatters + s.enqueuing := by
  have split : s.calls.tally Call.holds = s.enqueuing + s.liveScatters := by
    rw [State.enqueuing, State.liveScatters, ← List.tally_toNat, ← List.tally_toNat, ← List.tally_add]
    rfl
  rw [Balanced, State.pathHolds]
  omega

/-- The two exits that give up their call without releasing its hold. -/
theorem CallStep.refused {sh sh' : Shared} {i : ℕ} {c c' : Call} {out : Outcome}
    (moved : CallStep sh i c out sh' c') (copies : c.pc.copiesPayload = true) (noMemory : out.memory = false) :
    sh'.extension.removeLock.ioCount = sh.extension.removeLock.ioCount ∧ sh'.queue = sh.queue ∧
      c'.holds = c.holds - 1 := by
  cases moved with
  | noMapping at_ => exact ⟨rfl, rfl, by simp [Call.holds, at_, Pc.holdsLock]⟩
  | noPayload at_ => exact ⟨rfl, rfl, by simp [Call.holds, at_, Pc.holdsLock]⟩
  | lazyMapMdl _ mapped => simp [mapped] at noMemory
  | lazyNewPayload _ allocated => simp [allocated] at noMemory
  | refuse at_ => obtain at_ | at_ | at_ := at_ <;> rw [at_] at copies <;> contradiction
  | noItem at_ => obtain at_ | at_ := at_ <;> rw [at_] at copies <;> contradiction
  | noLock at_ => obtain at_ | at_ := at_ <;> rw [at_] at copies <;> contradiction
  | _ at_ => rw [at_] at copies; contradiction

/-- A refused payload leaves one hold too many. -/
theorem surplus_refused {s s' : State} {a : Action} (refused : payloadGranted s a = false)
    (moved : s.step a = some s') : s'.surplus = s.surplus + 1 := by
  rw [State.surplus, State.surplus]
  cases step_cases moved with
  | @call i out c sh' c' present taken =>
    simp only [payloadGranted, present, Option.all_some, Bool.or_eq_false_iff, Bool.not_eq_false'] at refused
    obtain ⟨copies, noMemory⟩ := refused
    rw [State.update_shared, State.update_calls, State.update_remover, List.tally_set present]
    obtain ⟨sameCount, sameQueue, lost⟩ := taken.refused copies noMemory
    rw [sameCount, sameQueue]
    omega
  | lower _ taken => cases taken <;> contradiction
  | worker taken => cases taken <;> contradiction
  | _ => contradiction

theorem Balanced.refused {s s' : State} {a : Action} (balanced : Balanced s)
    (refused : payloadGranted s a = false) (moved : s.step a = some s') : ¬ Balanced s' := by
  rw [balanced_iff_surplus] at balanced ⊢
  have more := surplus_refused refused moved
  omega

/-- Without any assumption: a step never hides a hold that somebody answers for. -/
theorem Wf.surplus_step {s s' : State} {a : Action} (wf : Wf s) (moved : s.step a = some s') :
    s.surplus ≤ s'.surplus := by
  cases granted : payloadGranted s a with
  | true => exact (wf.surplus_granted granted moved).ge
  | false =>
    have more := surplus_refused granted moved
    omega

theorem surplus_nonneg_of_run {cfg : Config} {ok : State → Action → Prop} {as : List Action} {s : State}
    (run : Run State.step ok (.initial cfg) as s) : 0 ≤ s.surplus := by
  have start : Wf (.initial cfg) ∧ 0 ≤ (State.initial cfg).surplus := ⟨wf_initial cfg, le_rfl⟩
  apply And.right
  apply run.preserves (fun s => Wf s ∧ 0 ≤ s.surplus) start
  rintro t a u ⟨wf, nonneg⟩ _ moved
  exact ⟨wf.step moved, nonneg.trans (wf.surplus_step moved)⟩

/-- A live block at the address of a call that linked no item is the call's own. -/
theorem PoolExact.own_block {s : State} {i : ℕ} {c : Call} {block : PoolBlock} (exact : PoolExact s) (wf : Wf s)
    (present : s.calls[i]? = some c) (unlinked : ∀ item, ¬ Linked item c) (live : block ∈ s.shared.pool)
    (addr : block.addr = i) : c.has block = true := by
  subst addr
  obtain ⟨item, member, has⟩ | ⟨d, there, has⟩ := (exact block).mp live
  · obtain ⟨d, source, there, linked⟩ := wf.linked_queue member
    rw [WriteQueueItem.has_addr has] at there
    obtain rfl : d = c := Option.some.inj (there.symm.trans present)
    exact absurd linked (unlinked source)
  · obtain rfl : d = c := Option.some.inj (there.symm.trans present)
    exact has

end QueueCache
