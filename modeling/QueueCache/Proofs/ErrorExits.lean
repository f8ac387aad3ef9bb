import QueueCache.Proofs.Accesses

/-! # The error exits, one access at a time

Here every access to the remove lock and to the pool is a step. In a run that refuses no lazy write its payload the
holds of the queue and read paths are those of the queue entries, of the scatter objects and of the enqueue calls under
way, and those whose release is the next thing their thread does; every live block has an owner or is about to be freed.
The exits themselves are compared with their entry in every run: a call that alone moves, and fails, has given back what
it took.
-/

namespace QueueCache

open Transition

/-- What an error exit has to give back: the holds, the live allocations, the queue and its counters. -/
structure SameResources (before after : Shared) : Prop where
  holds : after.extension.removeLock.ioCount = before.extension.removeLock.ioCount
  pool : after.pool = before.pool
  queue : after.queue = before.queue
  size : after.statistics.writeQueueSize = before.statistics.writeQueueSize
  items : after.statistics.writeQueueItems = before.statistics.writeQueueItems

theorem SameResources.refl (sh : Shared) : SameResources sh sh := ⟨rfl, rfl, rfl, rfl, rfl⟩

theorem SameResources.trans {sh sh' sh'' : Shared} (first : SameResources sh sh')
    (second : SameResources sh' sh'') : SameResources sh sh'' :=
  ⟨second.holds.trans first.holds, second.pool.trans first.pool, second.queue.trans first.queue,
    second.size.trans first.size, second.items.trans first.items⟩

theorem Frame.sameResources {sh sh' : Shared} (frame : Frame sh sh') : SameResources sh sh' :=
  ⟨congrArg RemoveLock.ioCount frame.removeLock, frame.pool, frame.queue, frame.queueSize, frame.items⟩

/-- What a call of `QCacheQueueIrp` that began in `before` has acquired so far when only it moves. -/
def SoloAt (i : ℕ) (before sh : Shared) (c : Call) : Prop :=
  match c.pc with
  | .queueIrp | .testMemory | .testSize | .testItems | .newItem | .lazyNewItem => SameResources before sh
  | .acquireLock _ | .lazyAcquireLock _ => SameResources (before.allocate (.item i)) sh
  | .insertTail _ | .lazyMapMdl _ | .lazyNewPayload _ =>
    SameResources (before.allocate (.item i)).ioAcquireRemoveLock sh
  | .lazyInsertTail _ | .setEvent | .lazySetEvent | .lazyComplete => True
  | .returned status => ntSuccess status = false → SameResources before sh
  | _ => False

/-- Deleting an item whose payload was never allocated undoes the allocation of the item. -/
private theorem deleteItem_allocate {pool : Finset PoolBlock} {i : ℕ} (noItem : .item i ∉ pool)
    (noPayload : .payload i ∉ pool) : ((insert (.item i) pool).erase (.payload i)).erase (.item i) = pool := by
  have absent : .payload i ∉ insert (.item i) pool := by simp [noPayload]
  rw [Finset.erase_eq_of_notMem absent, Finset.erase_insert noItem]

theorem SoloAt.step {sh sh' before : Shared} {i : ℕ} {c c' : Call} {out : Outcome}
    (solo : SoloAt i before sh c) (fresh : .item i ∉ before.pool ∧ .payload i ∉ before.pool)
    (moved : CallStep sh i c out sh' c') (granted : c.pc.copiesPayload = true → out.memory = true) :
    SoloAt i before sh' c' := by
  cases moved with
  | queueLazily at_ => rw [SoloAt, at_] at solo; exact solo
  | bypass at_ => rw [SoloAt, at_] at solo; exact solo
  | memoryHigh at_ => rw [SoloAt, at_] at solo; exact solo
  | sizeBelow at_ => rw [SoloAt, at_] at solo; exact solo
  | refuse at_ frame =>
    have solo : SameResources before sh := by
      obtain at_ | at_ | at_ := at_ <;> rw [SoloAt, at_] at solo <;> exact solo
    exact solo.trans frame.sameResources
  | itemsBelow at_ =>
    rw [SoloAt, at_] at solo
    exact solo.trans ⟨rfl, rfl, rfl, rfl, rfl⟩
  | noItem at_ =>
    have solo : SameResources before sh := by
      obtain at_ | at_ := at_ <;> rw [SoloAt, at_] at solo <;> exact solo
    exact fun _ => solo
  | newItem at_ =>
    rw [SoloAt, at_] at solo
    exact { solo with pool := congrArg (insert _) solo.pool }
  | lazyNewItem at_ =>
    rw [SoloAt, at_] at solo
    exact { solo with pool := congrArg (insert _) solo.pool }
  | noLock at_ =>
    have solo : SameResources (before.allocate (.item i)) sh := by
      obtain at_ | at_ := at_ <;> rw [SoloAt, at_] at solo <;> exact solo
    refine fun _ => { solo with pool := ?_ }
    change (sh.pool.erase (.payload i)).erase (.item i) = before.pool
    rw [solo.pool]
    exact deleteItem_allocate fresh.1 fresh.2
  | acquireLock at_ =>
    rw [SoloAt, at_] at solo
    exact { solo with holds := congrArg (· + 1) solo.holds }
  | lazyAcquireWrite at_ =>
    rw [SoloAt, at_] at solo
    exact { solo with holds := congrArg (· + 1) solo.holds }
  | lazyAcquireFlush => trivial
  | lazyMapMdl at_ => rw [SoloAt, at_] at solo; exact solo
  | noMapping at_ noMemory =>
    rw [granted (by rw [at_]; rfl)] at noMemory
    contradiction
  | noPayload at_ noMemory =>
    rw [granted (by rw [at_]; rfl)] at noMemory
    contradiction
  | lazyNewPayload => trivial
  | insertTail => trivial
  | lazyInsertTail => trivial
  | lazySetEvent => trivial
  | setEvent => exact fun failed => absurd failed (by decide)
  | lazyComplete => exact fun failed => absurd failed (by decide)
  | _ at_ => rw [SoloAt, at_] at solo; exact solo.elim

/-- The call has not been given memory, or never asked for any. -/
def Pc.unallocated : Pc → Bool
  | .entry | .forward | .complete _ | .queueIrp | .testMemory | .testSize | .testItems | .newItem | .lazyNewItem
  | .scanQueue | .createScatter .. => true
  | _ => false

/-- A live block is named after a call that was given memory. -/
def State.BlocksNamed (s : State) : Prop :=
  ∀ block ∈ s.shared.pool, ∃ c, s.calls[block.addr]? = some c ∧ c.pc.unallocated = false

theorem scatterComplete_pool {sh : Shared} {i : ℕ} {c : Call} {scatter : ScatteredIrp} :
    (scatterComplete sh i c scatter).1.pool ⊆ sh.pool := by
  unfold scatterComplete
  dsimp only
  split
  · exact Finset.erase_subset _ _
  · exact Finset.Subset.refl _

theorem Shared.deleteItem_pool (sh : Shared) (addr : ℕ) : (sh.deleteItem addr).pool ⊆ sh.pool :=
  (Finset.erase_subset _ _).trans (Finset.erase_subset _ _)

/-- A call is given memory under its own name, and is past its first allocation from then on. -/
theorem CallStep.named {sh sh' : Shared} {i : ℕ} {c c' : Call} {out : Outcome} (moved : CallStep sh i c out sh' c') :
    (∀ block ∈ sh'.pool, block ∈ sh.pool ∨ block.addr = i ∧ c'.pc.unallocated = false) ∧
      (c.pc.unallocated = false → c'.pc.unallocated = false) := by
  have inserted {fresh : PoolBlock} (own : fresh.addr = i) (past : c'.pc.unallocated = false) :
      ∀ block ∈ insert fresh sh.pool, block ∈ sh.pool ∨ block.addr = i ∧ c'.pc.unallocated = false := by
    intro block live
    obtain rfl | old := Finset.mem_insert.mp live
    · exact .inr ⟨own, past⟩
    · exact .inl old
  cases moved with
  | newItem => exact ⟨inserted rfl rfl, fun _ => rfl⟩
  | lazyNewItem => exact ⟨inserted rfl rfl, fun _ => rfl⟩
  | lazyNewPayload => exact ⟨inserted rfl rfl, fun _ => rfl⟩
  | createScatter => exact ⟨inserted rfl rfl, fun _ => rfl⟩
  | noLock => exact ⟨fun block live => .inl (sh.deleteItem_pool i live), fun _ => rfl⟩
  | noPayload => exact ⟨fun block live => .inl (sh.deleteItem_pool i live), fun _ => rfl⟩
  | finishScatter _ _ frame =>
    refine ⟨fun block live => .inl (frame.pool ▸ scatterComplete_pool live), fun _ => ?_⟩
    rw [scatterComplete_pc]
    rfl
  | splitOn _ _ frame _ _ goes =>
    refine ⟨fun block live => .inl (frame.pool ▸ live), fun _ => ?_⟩
    obtain ⟨-, rfl⟩ | ⟨-, rfl⟩ := goes <;> rfl
  | entry at_ frame =>
    exact ⟨fun block live => .inl (frame.pool ▸ live), fun past => by rw [at_] at past; contradiction⟩
  | refuse at_ frame =>
    refine ⟨fun block live => .inl (frame.pool ▸ live), fun past => ?_⟩
    obtain at_ | at_ | at_ := at_ <;> rw [at_] at past <;> contradiction
  | scanForward at_ frame =>
    exact ⟨fun block live => .inl (frame.pool ▸ live), fun past => by rw [at_] at past; contradiction⟩
  | scanFull at_ frame =>
    exact ⟨fun block live => .inl (frame.pool ▸ live), fun past => by rw [at_] at past; contradiction⟩
  | scanGap at_ frame =>
    exact ⟨fun block live => .inl (frame.pool ▸ live), fun past => by rw [at_] at past; contradiction⟩
  | noItem => exact ⟨fun block live => .inl live, fun _ => rfl⟩
  | _ at_ => exact ⟨fun block live => .inl live, fun past => by first | rfl | (rw [at_] at past; contradiction)⟩

theorem LowerMove.pool_subset {sh sh' : Shared} {i : ℕ} {c c' : Call} {a : Action} (moved : LowerMove sh i c a sh' c') :
    sh'.pool ⊆ sh.pool := by
  cases moved with
  | scattered => exact scatterComplete_pool
  | _ => exact Finset.Subset.refl _

theorem State.BlocksNamed.step {s s' : State} {a : Action} (named : s.BlocksNamed) (moved : s.step a = some s') :
    s'.BlocksNamed := by
  have set {i : ℕ} {c c' : Call} (present : s.calls[i]? = some c)
      (past : c.pc.unallocated = false → c'.pc.unallocated = false)
      {block : PoolBlock} (live : block ∈ s.shared.pool) :
      ∃ d, (s.calls.set i c')[block.addr]? = some d ∧ d.pc.unallocated = false :=
    List.exists_getElem?_set present (fun _ => past) (fun _ holds => holds) (named block live)
  cases step_cases moved with
  | receive =>
    intro block live
    obtain ⟨c, present, past⟩ := named block live
    exact ⟨c, by rw [List.getElem?_append_left (List.getElem?_eq_some_iff.mp present).1, present], past⟩
  | @call i out c sh' c' present taken =>
    intro block live
    obtain ⟨allocated, past⟩ := taken.named
    obtain old | ⟨rfl, new⟩ := allocated block live
    · exact set present past old
    · exact ⟨c', List.getElem?_set_self (List.getElem?_eq_some_iff.mp present).1, new⟩
  | lower present taken => exact fun block live => set present (fun past => taken.pc ▸ past) (taken.pool_subset live)
  | worker taken =>
    cases taken with
    | completeIrp _ _ _ present =>
      intro block live
      refine set present ?_ live
      exact id
    | unlink => exact fun block live => named block (Shared.deleteItem_pool _ _ live)
    | _ => exact named
  | remover taken => cases taken <;> exact named
  | initializeDevice => exact named

/-- What a call has before it asks for memory: nothing. -/
theorem State.BlocksNamed.absent {s : State} {i : ℕ} {c : Call} (named : s.BlocksNamed) (present : s.calls[i]? = some c)
    (early : c.pc.unallocated = true) {block : PoolBlock} (own : block.addr = i) : block ∉ s.shared.pool := by
  intro live
  obtain ⟨d, there, past⟩ := named block live
  rw [own] at there
  obtain rfl := Option.some.inj (there.symm.trans present)
  rw [early] at past
  contradiction

/-- A block that is not due to be freed stays in the pool. -/
theorem mem_poolAfter {due : List Due} {block : PoolBlock} (kept : NotFreed due block) {pool : Finset PoolBlock}
    (live : block ∈ pool) : block ∈ poolAfter due pool := by
  rw [← Finset.insert_eq_of_mem live, poolAfter_insert kept]
  exact Finset.mem_insert_self _ _

/-- A block that is not due to be allocated was there before. -/
theorem mem_of_mem_poolAfter {due : List Due} {block : PoolBlock} (kept : NotAllocated due block)
    {pool : Finset PoolBlock} (live : block ∈ poolAfter due pool) : block ∈ pool := by
  by_contra absent
  rw [← Finset.erase_eq_of_notMem absent, poolAfter_erase kept] at live
  exact Finset.notMem_erase _ _ live

/-- A call that has returned with an error of its own has linked nothing and had no scatter object destroyed. -/
structure Call.GaveUp (c : Call) : Prop where
  scatter : c.scatter = none
  unlinked : ∀ item, ¬ Linked item c
  sites : ∀ completion ∈ c.completions, completion.site ≠ .scatter

theorem CallOk.gaveUp {i : ℕ} {c : Call} {status : NtStatus} (ok : CallOk i c) (at_ : c.pc = .returned status)
    (failed : ntSuccess status = false) (own : c.forwards = 0) : c.GaveUp := by
  have here := ok.atPc
  rw [Call.AtPc, at_] at here
  have unlinked : ∀ item, ¬ Linked item c := by
    rintro item linked
    cases linked with
    | held _ _ back =>
      obtain back | back := back <;> rw [back] at at_
      · contradiction
      · cases at_
        exact absurd failed (by decide)
    | lazily _ _ back =>
      obtain back | back | ⟨back, -⟩ := back <;> rw [back] at at_
      · contradiction
      · contradiction
      · cases at_
        exact absurd failed (by decide)
  cases here with
  | completed completion once _ _ site _ _ scatter =>
    refine ⟨scatter, unlinked, fun other member => ?_⟩
    rw [once, List.mem_singleton] at member
    obtain here | ⟨here, -⟩ := site <;> rw [member, here] <;> decide
  | forwarded forwards => simp [own] at forwards
  | held same => exact absurd failed (by rw [same]; decide)
  | scattered same => exact absurd failed (by rw [same]; decide)

/-- Such a call answers for nothing: none of its blocks is live and no item of it was ever linked. -/
theorem Call.GaveUp.clean {s : State} {i : ℕ} {c : Call} {status : NtStatus} (gaveUp : c.GaveUp) (wf : Wf s)
    (exact : PoolExact s) (present : s.calls[i]? = some c) (at_ : c.pc = .returned status) :
    c.holds = 0 ∧ (∀ block ∈ s.shared.pool, block.addr ≠ i) ∧ ∀ item ∈ s.shared.history.inserted, item.addr ≠ i := by
  obtain ⟨scatter, unlinked, -⟩ := gaveUp
  refine ⟨by simp [Call.holds, at_, Pc.holdsLock, scatter], ?_, ?_⟩
  · intro block live addr
    have has := exact.own_block wf present unlinked live addr
    cases block <;> simp [Call.has, at_, Pc.hasItem, Pc.holdsLock, Pc.hasPayload, scatter] at has
  · rintro item member rfl
    obtain ⟨d, there, linked⟩ := wf.linked item member
    obtain rfl : d = c := Option.some.inj (there.symm.trans present)
    exact unlinked item linked

/-- The queue entry or the call that the block belongs to. -/
def State.Owns (s : State) (block : PoolBlock) : Prop :=
  (∃ item ∈ s.shared.queue, item.has block = true) ∨ ∃ c, s.calls[block.addr]? = some c ∧ c.has block = true

namespace FineState

/-- The holds of the queue and read paths are those of the queue entries, of the scatter objects, of the enqueue calls
between acquiring the lock and linking their item, and those whose release is due. -/
def HoldsCounted (f : FineState) : Prop :=
  f.device.pathHolds =
    f.device.shared.queue.length + f.device.liveScatters + f.device.enqueuing + releasesDue f.due

/-- Every live block has an owner or is about to be freed, and every block with an owner is live or about to be
allocated. -/
structure PoolAccounted (f : FineState) : Prop where
  owned : ∀ block ∈ f.device.shared.pool, f.device.Owns block ∨ ∃ entry ∈ f.due, entry.access = .free block
  live : ∀ block, f.device.Owns block → block ∈ f.device.shared.pool ∨ ∃ entry ∈ f.due, entry.access = .allocate block

/-- The call `i` alone moves, and is granted the memory for a copy. -/
def alone (i : ℕ) (f : FineState) : FineAction → Prop
  | .start a => (∃ out, a = .call i out) ∧ payloadGranted f.device a = true
  | .access n => ∃ entry, f.due[n]? = some entry ∧ entry.thread = .dispatch i

/-- What the dispatch call `i` has yet to do before its next step. -/
def own (f : FineState) (i : ℕ) : List Due := f.due.filter fun entry => entry.thread = .dispatch i

theorem holdsCounted_iff_balanced (f : FineState) : f.HoldsCounted ↔ Balanced f.settled := by
  have settled : f.settled.pathHolds = f.device.pathHolds - releasesDue f.due := by
    simp only [State.pathHolds, FineState.settled, State.settle, Shared.settle]
    omega
  have counted : (f.settled.shared.queue.length : ℤ) + f.settled.liveScatters + f.settled.enqueuing =
      f.device.shared.queue.length + f.device.liveScatters + f.device.enqueuing := rfl
  rw [balanced_iff_pathHolds, settled, counted, HoldsCounted]
  omega

theorem poolAccounted_of_exact {f : FineState} (exact : PoolExact f.settled) : f.PoolAccounted where
  owned block live := by
    by_cases freed : ∃ entry ∈ f.due, entry.access = .free block
    · exact .inr freed
    · have kept : NotFreed f.due block := fun entry member access => freed ⟨entry, member, access⟩
      exact .inl ((exact block).mp (mem_poolAfter kept live))
  live block owned := by
    by_cases allocated : ∃ entry ∈ f.due, entry.access = .allocate block
    · exact .inr allocated
    · have kept : NotAllocated f.due block := fun entry member access => allocated ⟨entry, member, access⟩
      exact .inl (mem_of_mem_poolAfter kept ((exact block).mpr owned))

theorem balanced_of_granted {cfg : Config} {bs : List FineAction} {f : FineState}
    (run : Run FineState.step (admits fun s a => payloadGranted s a = true) (.initial cfg) bs f) :
    Balanced f.settled ∧ PoolExact f.settled :=
  balanced_of_run (settled_run (fun _ _ _ granted => granted) run)

/-- A dispatch routine stops between two accesses in `SCATTERED_IRP::Create` only. -/
theorem Ok.idle {f : FineState} {i : ℕ} {c : Call} (ok : f.Ok) (present : f.device.calls[i]? = some c)
    (elsewhere : (∀ status, c.pc ≠ .complete status) ∧
      ∀ bitmap clearIndex clearBits splits, c.pc ≠ .split bitmap clearIndex clearBits splits) :
    ∀ entry ∈ f.due, entry.thread ≠ .dispatch i := by
  intro entry member thread
  obtain ⟨notComplete, notSplit⟩ := elsewhere
  cases ok.owed entry member with
  | make there stopped =>
    cases thread
    obtain rfl := Option.some.inj (there.symm.trans present)
    exact notSplit _ _ _ _ stopped
  | giveUp there stopped =>
    cases thread
    obtain rfl := Option.some.inj (there.symm.trans present)
    exact notComplete _ stopped
  | _ => contradiction

/-- A call that has given up has nothing more to do, and nothing of it is left. -/
theorem Ok.clean {f : FineState} {i : ℕ} {c : Call} {status : NtStatus} (ok : f.Ok) (exact : PoolExact f.settled)
    (present : f.device.calls[i]? = some c) (at_ : c.pc = .returned status) (failed : ntSuccess status = false)
    (own : c.forwards = 0) :
    c.holds = 0 ∧ (∀ entry ∈ f.due, entry.thread ≠ .dispatch i ∧ entry.thread ≠ .destructor i) ∧
      (∀ block ∈ f.device.shared.pool, block.addr ≠ i) ∧ ∀ item ∈ f.device.shared.history.inserted, item.addr ≠ i := by
  have gaveUp := (ok.wf.calls i c present).gaveUp at_ failed own
  obtain ⟨holds, blocks, items⟩ := gaveUp.clean (wf_settle.mpr ok.wf) exact present at_
  refine ⟨holds, fun entry member => ?_, fun block live addr => ?_, items⟩
  · refine ⟨ok.idle present (by simp [at_]) entry member, fun thread => ?_⟩
    cases ok.owed entry member with
    | destroy there completed =>
      cases thread
      obtain rfl := Option.some.inj (there.symm.trans present)
      obtain ⟨completion, completes, site⟩ := completed
      exact gaveUp.sites completion completes site
    | _ => contradiction
  · have kept : NotFreed f.due block := fun entry member access => by
      obtain ⟨item, linked⟩ | ⟨-, completion, member, site⟩ :=
        (ok.owed entry member).frees ok.wf access (addr.symm ▸ present)
      · exact gaveUp.unlinked item linked
      · exact gaveUp.sites completion member site
    exact blocks block (mem_poolAfter kept live) addr

end FineState

theorem CallOk.untouched {i : ℕ} {c : Call} (ok : CallOk i c) (early : c.pc.unallocated = true) :
    c.Untouched ∧ ∀ item, ¬ Linked item c := by
  have here := ok.atPc
  cases at_ : c.pc <;> rw [at_] at early <;> first | contradiction | skip
  all_goals
    rw [Call.AtPc, at_] at here
    exact ⟨here.1, not_linked (by simp [at_])⟩

namespace FineState

theorem named_of_run {cfg : Config} {bs : List FineAction} {f : FineState}
    (run : Run FineState.step anyStep (.initial cfg) bs f) : f.settled.BlocksNamed := by
  have admitted : Run FineState.step (admits anyStep) (.initial cfg) bs f :=
    run.weaken fun _ b _ => by cases b <;> trivial
  apply (settled_run (fun _ _ _ _ => trivial) admitted).preserves State.BlocksNamed
  · intro block live
    simp [State.initial] at live
  · exact fun _ _ _ named _ moved => named.step moved

/-- A call that has not asked for memory yet has no live block. -/
theorem Ok.absent {f : FineState} {i : ℕ} {c : Call} (ok : f.Ok) (named : f.settled.BlocksNamed)
    (present : f.device.calls[i]? = some c) (early : c.pc.unallocated = true) {block : PoolBlock}
    (own : block.addr = i) : block ∉ f.device.shared.pool := by
  intro live
  obtain ⟨untouched, unlinked⟩ := (ok.wf.calls i c present).untouched early
  have kept : NotFreed f.due block := fun entry member =>
    (ok.owed entry member).not_free ok.wf (own.symm ▸ present) unlinked untouched.completions
  exact named.absent present early own (mem_poolAfter kept live)

/-- A thread with nothing due begins its next step. -/
theorem start_call {f f' : FineState} {i : ℕ} {out : Outcome} {c : Call} (present : f.device.calls[i]? = some c)
    (moved : f.step (.start (.call i out)) = some f') :
    f.own i = [] ∧ ∃ sh' c' more, callStart f.device.shared i c out = some (sh', c', more) ∧
      f' = ⟨f.device.update i (sh', c'), f.due ++ more⟩ := by
  simp only [FineState.step] at moved
  split at moved
  · contradiction
  · next idle =>
    have none : f.own i = [] := by
      apply List.filter_eq_nil_iff.mpr
      intro entry member thread
      exact idle (List.any_eq_true.mpr ⟨entry, member, thread⟩)
    obtain ⟨⟨s', more⟩, began, rfl⟩ := Option.map_eq_some_iff.mp moved
    obtain ⟨d, there, began⟩ := Option.bind_eq_some_iff.mp began
    obtain rfl := Option.some.inj (there.symm.trans present)
    obtain ⟨⟨sh', c', more⟩, taken, same⟩ := Option.map_eq_some_iff.mp began
    cases same
    exact ⟨none, sh', c', more, taken, rfl⟩

/-- Of the calls that `SoloAt` is about none stops between two accesses. -/
theorem callStep_of_solo {sh sh' before : Shared} {i : ℕ} {c c' : Call} {out : Outcome} {more : List Due}
    (solo : SoloAt i before sh c) (began : callStart sh i c out = some (sh', c', more)) :
    CallStep sh i c out sh' c' ∧ more = [] := by
  cases callStart_cases began with
  | whole _ taken => exact ⟨taken, rfl⟩
  | create at_ => rw [SoloAt, at_] at solo; exact solo.elim
  | noMemory at_ => rw [SoloAt, at_] at solo; exact solo.elim
  | noLock at_ => rw [SoloAt, at_] at solo; exact solo.elim
  | finish at_ => rw [SoloAt, at_] at solo; exact solo.elim

/-- A call that alone moves, from its entry into `QCacheQueueIrp` or `QCacheQueueLazyWriteIrp` to an
exit that fails, has given back what it acquired. -/
theorem solo_exit_restores {f f' : FineState} {bs : List FineAction} {i : ℕ} {c c' : Call}
    {status : NtStatus} (ok : f.Ok) (named : f.settled.BlocksNamed)
    (present : f.device.calls[i]? = some c) (at_ : c.pc = .queueIrp ∨ c.pc = .lazyNewItem)
    (alone : Run FineState.step (alone i) f bs f') (there : f'.device.calls[i]? = some c')
    (left : c'.pc = .returned status) (failed : ntSuccess status = false) :
    SameResources f.device.shared f'.device.shared := by
  have early : c.pc.unallocated = true := by obtain at_ | at_ := at_ <;> rw [at_] <;> rfl
  have fresh : .item i ∉ f.device.shared.pool ∧ .payload i ∉ f.device.shared.pool :=
    ⟨ok.absent named present early rfl, ok.absent named present early rfl⟩
  have nothing : ∀ entry ∈ f.due, entry.thread ≠ .dispatch i :=
    ok.idle present (by obtain at_ | at_ := at_ <;> simp [at_])
  have start : SoloAt i f.device.shared f.device.shared c := by
    obtain at_ | at_ := at_ <;> rw [SoloAt, at_] <;> exact .refl _
  have kept : (∀ entry ∈ f'.due, entry.thread ≠ .dispatch i) ∧
      ∃ d, f'.device.calls[i]? = some d ∧ SoloAt i f.device.shared f'.device.shared d := by
    apply alone.preserves (fun g => (∀ entry ∈ g.due, entry.thread ≠ .dispatch i) ∧
      ∃ d, g.device.calls[i]? = some d ∧ SoloAt i f.device.shared g.device.shared d) ⟨nothing, c, present, start⟩
    rintro g b g' ⟨nothing, d, here, solo⟩ admitted moved
    cases b with
    | start a =>
      obtain ⟨⟨out, rfl⟩, granted⟩ := admitted
      obtain ⟨-, sh', d', more, began, rfl⟩ := start_call here moved
      obtain ⟨taken, rfl⟩ := callStep_of_solo solo began
      rw [List.append_nil]
      refine ⟨nothing, d', List.getElem?_set_self (List.getElem?_eq_some_iff.mp here).1, solo.step fresh taken ?_⟩
      simp only [payloadGranted, here, Option.all_some, Bool.or_eq_true, Bool.not_eq_true'] at granted
      rintro copies
      simpa [copies] using granted
    | access n =>
      obtain ⟨entry, due, thread⟩ := admitted
      exact absurd thread (nothing entry (List.mem_of_getElem? due))
  obtain ⟨-, d, here, solo⟩ := kept
  obtain rfl : d = c' := Option.some.inj (here.symm.trans there)
  rw [SoloAt, left] at solo
  exact solo failed

/-- What a call has acquired in `SCATTERED_IRP::Create`, beside what it is about to give back. -/
def CreateAt (i : ℕ) (before : Shared) (f : FineState) (c : Call) : Prop :=
  match c.pc with
  | .createScatter .. | .complete _ => SameResources before (f.device.shared.settle (f.own i))
  | .split .. | .finishScatter _ | .returned _ => True
  | _ => False

/-- An access that a thread makes is one less for it to make. -/
theorem own_access {f : FineState} {i n : ℕ} {entry : Due} (there : f.due[n]? = some entry)
    (thread : entry.thread = .dispatch i) : ∃ before after, f.own i = before ++ entry :: after ∧
      (f.due.eraseIdx n).filter (fun entry => entry.thread = .dispatch i) = before ++ after ∧
        ∀ other ∈ after, other ∈ f.due := by
  obtain ⟨inside, value⟩ := List.getElem?_eq_some_iff.mp there
  have parts : f.due = f.due.take n ++ entry :: f.due.drop (n + 1) := by
    rw [← value, List.cons_getElem_drop_succ, List.take_append_drop]
  refine ⟨(f.due.take n).filter fun entry => entry.thread = .dispatch i,
    (f.due.drop (n + 1)).filter fun entry => entry.thread = .dispatch i, ?_, ?_, ?_⟩
  · refine (congrArg (List.filter fun entry => decide (entry.thread = .dispatch i)) parts).trans ?_
    rw [List.filter_append, List.filter_cons_of_pos (by simpa using thread)]
  · rw [List.eraseIdx_eq_take_drop_succ, List.filter_append]
  · exact fun other member => List.mem_of_mem_drop (List.mem_of_mem_filter member)

theorem CreateAt.start {f f' : FineState} {i : ℕ} {before : Shared} {c : Call} {out : Outcome}
    (creating : CreateAt i before f c) (present : f.device.calls[i]? = some c)
    (moved : f.step (.start (.call i out)) = some f') :
    ∃ c', f'.device.calls[i]? = some c' ∧ CreateAt i before f' c' := by
  obtain ⟨none, sh', c', more, began, rfl⟩ := start_call present moved
  refine ⟨c', List.getElem?_set_self (List.getElem?_eq_some_iff.mp present).1, ?_⟩
  have own (more : List Due) : FineState.own ⟨f.device.update i (sh', c'), f.due ++ more⟩ i =
      more.filter fun entry => entry.thread = .dispatch i := by
    rw [FineState.own, List.filter_append, ← FineState.own, none, List.nil_append]
  unfold CreateAt at creating
  cases callStart_cases began with
  | whole elsewhere taken =>
    cases taken with
    | complete => trivial
    | splitOn _ _ _ _ _ goes => obtain ⟨-, rfl⟩ | ⟨-, rfl⟩ := goes <;> trivial
    | splitFail => trivial
    | finishScatter =>
      rw [CreateAt, scatterComplete_pc]
      trivial
    | createScatter at_ => exact absurd at_ (elsewhere _ _ _)
    | noScatter at_ => exact absurd at_ (elsewhere _ _ _)
    | refuse at_ => obtain at_ | at_ | at_ := at_ <;> rw [at_] at creating <;> exact creating.elim
    | noItem at_ => obtain at_ | at_ := at_ <;> rw [at_] at creating <;> exact creating.elim
    | noLock at_ => obtain at_ | at_ := at_ <;> rw [at_] at creating <;> exact creating.elim
    | _ at_ => rw [at_] at creating; exact creating.elim
  | create => trivial
  | noMemory at_ =>
    rw [at_] at creating
    dsimp only at creating
    rw [none, Shared.settle_nil] at creating
    have undone : SameResources f.device.shared f.device.shared.ioAcquireRemoveLock.ioReleaseRemoveLock :=
      ⟨by simp, rfl, rfl, rfl, rfl⟩
    change SameResources before (f.device.shared.ioAcquireRemoveLock.settle (FineState.own ⟨_, _⟩ i))
    rw [own, List.filter_cons_of_pos (by simp), List.filter_nil, Shared.settle_cons, Shared.settle_nil]
    exact creating.trans undone
  | noLock at_ =>
    rw [at_] at creating
    dsimp only at creating
    rw [none, Shared.settle_nil] at creating
    change SameResources before (f.device.shared.settle (FineState.own ⟨_, _⟩ i))
    rw [own, List.filter_nil, Shared.settle_nil]
    exact creating
  | finish =>
    rw [CreateAt, scatterCompleteStart, scatterComplete_pc]
    trivial

/-- An access that the call makes leaves it with what it has, beside what it is about to give back. -/
theorem CreateAt.access {f f' : FineState} {i n : ℕ} {before : Shared} {c : Call} {entry : Due} (ok : f.Ok)
    (creating : CreateAt i before f c) (there : f.due[n]? = some entry) (thread : entry.thread = .dispatch i)
    (moved : f.step (.access n) = some f') : f'.device.calls = f.device.calls ∧ CreateAt i before f' c := by
  obtain ⟨made, due, moved⟩ := Option.bind_eq_some_iff.mp moved
  obtain rfl := Option.some.inj (due.symm.trans there)
  split at moved
  · contradiction
  · obtain rfl := Option.some.inj moved
    obtain ⟨first, rest, own, left, inside⟩ := own_access there thread
    have here := ok.owed made (List.mem_of_getElem? there)
    have settles : (made.access.make f.device.shared).settle (FineState.own
        ⟨{ f.device with shared := made.access.make f.device.shared }, f.due.eraseIdx n⟩ i) =
        f.device.shared.settle (f.own i) := by
      rw [own, FineState.own, left, Shared.settle_access]
      · exact fun block access other member => here.apart ok.wf (ok.owed other (inside other member)) access
      · exact fun block access other member allocates =>
          (ok.owed other (inside other member)).apart ok.wf here allocates access
    refine ⟨rfl, ?_⟩
    unfold CreateAt at creating ⊢
    dsimp only at creating ⊢
    rw [settles]
    exact creating

/-- A call that alone moves, through a `SCATTERED_IRP::Create` that fails, has given back what it acquired there. -/
theorem failed_create_restores {f f' : FineState} {bs : List FineAction} {i : ℕ} {c c' : Call} {bitmap : Bitmap}
    {clearIndex clearBits : ℕ} {status : NtStatus} (ok : f.Ok) (present : f.device.calls[i]? = some c)
    (at_ : c.pc = .createScatter bitmap clearIndex clearBits) (alone : Run FineState.step (alone i) f bs f')
    (there : f'.device.calls[i]? = some c') (left : c'.pc = .complete status) (done : f'.own i = []) :
    SameResources f.device.shared f'.device.shared := by
  have nothing : f.own i = [] := by
    apply List.filter_eq_nil_iff.mpr
    simpa using ok.idle present (by simp [at_])
  have start : CreateAt i f.device.shared f c := by
    rw [CreateAt, at_]
    dsimp only
    rw [nothing, Shared.settle_nil]
    exact .refl _
  have kept : f'.Ok ∧ ∃ d, f'.device.calls[i]? = some d ∧ CreateAt i f.device.shared f' d := by
    apply alone.preserves (fun g => g.Ok ∧ ∃ d, g.device.calls[i]? = some d ∧ CreateAt i f.device.shared g d)
      ⟨ok, c, present, start⟩
    rintro g b g' ⟨holds, d, here, creating⟩ admitted moved
    refine ⟨(holds.step moved).1, ?_⟩
    cases b with
    | start a =>
      obtain ⟨⟨out, rfl⟩, -⟩ := admitted
      exact creating.start here moved
    | access n =>
      obtain ⟨entry, due, thread⟩ := admitted
      obtain ⟨calls, creating'⟩ := creating.access holds due thread moved
      exact ⟨d, by rw [calls, here], creating'⟩
  obtain ⟨-, d, here, creating⟩ := kept
  obtain rfl : d = c' := Option.some.inj (here.symm.trans there)
  rw [CreateAt, left] at creating
  dsimp only at creating
  rwa [done, Shared.settle_nil] at creating

/-- The condition is exact: a run whose states are all counted has refused no payload. -/
theorem holdsCounted_iff_granted {cfg : Config} {bs : List FineAction} {f : FineState}
    (run : Run FineState.step anyStep (.initial cfg) bs f) :
    (∀ g ∈ Visited FineState.step anyStep (.initial cfg) bs, g.HoldsCounted) ↔
      Run FineState.step (admits fun s a => payloadGranted s a = true) (.initial cfg) bs f := by
  apply run.admitted_iff Ok HoldsCounted (ok_initial cfg) (fun _ _ _ ok moved => (ok.step moved).1) rfl
  · intro g b g' ok counted granted moved
    rw [holdsCounted_iff_balanced] at counted ⊢
    have steps := (ok.step moved).2
    cases b with
    | start a => exact counted.step (wf_settle.mpr ok.wf) granted steps
    | access n =>
      dsimp only at steps
      rwa [steps]
  · intro g b g' ok counted refused moved
    rw [holdsCounted_iff_balanced] at counted ⊢
    have steps := (ok.step moved).2
    cases b with
    | start a =>
      have refused : payloadGranted g.device a = false := by simpa [admits] using refused
      exact counted.refused refused steps
    | access n => exact absurd trivial refused

end FineState

/-- In every run that grants a lazy write its mapping and its payload, the holds of the queue and read paths are counted
in every state, no live block is without an owner, and a call that returns with an error of its own leaves nothing
behind. In every run, an exit that fails restores what the call acquired, those two refusals apart. -/
theorem error_exits_restore (cfg : Config) (bs : List FineAction) (f : FineState)
    (run : Run FineState.step anyStep (.initial cfg) bs f) :
    (Run FineState.step (FineState.admits fun s a => payloadGranted s a = true) (.initial cfg) bs f →
      f.HoldsCounted ∧ f.PoolAccounted ∧ ∀ i c status, f.device.calls[i]? = some c → c.pc = .returned status →
        ntSuccess status = false → c.forwards = 0 →
        c.holds = 0 ∧ (∀ entry ∈ f.due, entry.thread ≠ .dispatch i ∧ entry.thread ≠ .destructor i) ∧
          (∀ block ∈ f.device.shared.pool, block.addr ≠ i) ∧ ∀ item ∈ f.device.shared.history.inserted, item.addr ≠ i) ∧
    ∀ i c bs' f' c' status, f.device.calls[i]? = some c → Run FineState.step (FineState.alone i) f bs' f' →
      f'.device.calls[i]? = some c' →
      (c.pc = .queueIrp ∨ c.pc = .lazyNewItem → c'.pc = .returned status → ntSuccess status = false →
        SameResources f.device.shared f'.device.shared) ∧
      (∀ bitmap clearIndex clearBits, c.pc = .createScatter bitmap clearIndex clearBits → c'.pc = .complete status →
        f'.own i = [] → SameResources f.device.shared f'.device.shared) := by
  have ok := FineState.ok_of_run run
  refine ⟨fun granted => ?_, fun i c bs' f' c' status present alone there => ⟨?_, ?_⟩⟩
  · obtain ⟨balanced, exact⟩ := FineState.balanced_of_granted granted
    refine ⟨f.holdsCounted_iff_balanced.mpr balanced, FineState.poolAccounted_of_exact exact, ?_⟩
    intro i c status present at_ failed own
    exact ok.clean exact present at_ failed own
  · intro at_ left failed
    exact FineState.solo_exit_restores ok (FineState.named_of_run run) present at_ alone there left failed
  · intro bitmap clearIndex clearBits at_ left done
    exact FineState.failed_create_restores ok present at_ alone there left done

instance (ok : State → Action → Prop) [∀ s a, Decidable (ok s a)] (f : FineState) (b : FineAction) :
    Decidable (FineState.admits ok f b) :=
  match b with
  | .start a => inferInstanceAs (Decidable (ok f.device a))
  | .access _ => inferInstanceAs (Decidable True)

/-- A lazy write is served, and the worker has unlinked its item. -/
def lazyWriteUnlinked : List FineAction :=
  List.map .start ([Action.receive (writeSector0 7)] ++ callSteps 0 12 ++ workerSteps 2 ++
    [.workerTransfer 0, .workerLowerComplete ⟨STATUS_SUCCESS, 512⟩] ++ workerSteps 2)

/-- Past the lock section the worker still has the item's hold, and no queue entry answers for it. -/
theorem error_exits_restore_lazyWrite : ∃ f, Run FineState.step (FineState.admits fun s a => payloadGranted s a = true)
      (.initial smallDevice) lazyWriteUnlinked f ∧ f.device.pathHolds = 1 ∧ f.device.shared.queue.length = 0 ∧
      releasesDue f.due = 1 ∧ f.HoldsCounted := by
  have run : Run FineState.step (FineState.admits fun s a => payloadGranted s a = true) (.initial smallDevice) _ _ :=
    run_get (show (runs? _ _ _ lazyWriteUnlinked).isSome by decide +kernel)
  exact ⟨_, run, by decide +kernel, by decide +kernel, by decide +kernel,
    ((error_exits_restore smallDevice _ _ run.toAny).1 run).1⟩

/-- A lazy write has its item and its hold when the caller's MDL cannot be mapped. -/
def lazyWriteUnmapped : List FineAction :=
  List.map .start ([Action.receive (writeSector0 7)] ++ callSteps 0 7 ++ [.call 0 { memory := false }])

/-- Holds that no queue entry, no scatter object and no enqueue call answers for: one that the worker is about to
release, as the item is unlinked first, and one that nobody will release, as a lazy write was given up. -/
theorem error_exits_leak :
    (¬ ∀ (cfg : Config) (bs : List FineAction) (f : FineState),
      Run FineState.step (FineState.admits fun s a => payloadGranted s a = true) (.initial cfg) bs f →
        f.device.pathHolds = f.device.shared.queue.length + f.device.liveScatters + f.device.enqueuing) ∧
    ¬ ∀ (cfg : Config) (bs : List FineAction) (f : FineState), Run FineState.step anyStep (.initial cfg) bs f →
        f.HoldsCounted := by
  constructor
  · intro claimed
    have counted := claimed smallDevice _ _
      (run_get (show (runs? _ _ _ lazyWriteUnlinked).isSome by decide +kernel))
    revert counted
    decide +kernel
  · intro claimed
    have counted := claimed smallDevice _ _
      (run_get (show (runs? _ _ _ lazyWriteUnmapped).isSome by decide +kernel))
    revert counted
    unfold FineState.HoldsCounted
    decide +kernel

end QueueCache
