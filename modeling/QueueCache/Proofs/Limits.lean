import QueueCache.Proofs.Accounting

/-! # How far the cache limits are overshot

Each limit is tested without the lock, and a request that passed is charged only when its item is
linked. A window is the stretch of program points between the two. What the limit bounds in every
reachable state is the weight of the lazy items together with the weight of the requests in the
window: one that enters found the whole queue below the limit, and at most `k` are inside at a time.
-/

namespace QueueCache

open Transition

/-- A call of `QCacheQueueIrp` is executing. -/
def Pc.inQueueIrp : Pc → Bool
  | .queueIrp | .testMemory | .testSize | .testItems | .newItem | .acquireLock _ | .insertTail _
  | .setEvent | .lazyNewItem | .lazyAcquireLock _ | .lazyMapMdl _ | .lazyNewPayload _
  | .lazyInsertTail _ | .lazySetEvent | .lazyComplete => true
  | _ => false

/-- Past the test of `WriteQueueItems` and not linked yet. -/
def Pc.itemsWindow : Pc → Bool
  | .lazyNewItem | .lazyAcquireLock _ | .lazyMapMdl _ | .lazyNewPayload _ | .lazyInsertTail _ => true
  | _ => false

/-- Past the test of `WriteQueueSize` and not linked yet. -/
def Pc.sizeWindow : Pc → Bool
  | .testItems => true
  | pc => pc.itemsWindow

/-- The length a lazy item of the request has. -/
def IoStackLocation.lazyLength (io : IoStackLocation) : ℕ :=
  if io.majorFunction = .write then io.length else 0

/-- How many calls of `QCacheQueueIrp` are executing. -/
def State.executing (s : State) : ℕ := s.calls.countP fun c => c.pc.inQueueIrp

/-- The largest length of a write among the requests issued. -/
def largestWrite : List Action → ℕ
  | [] => 0
  | .receive irp :: rest => max irp.stack.lazyLength (largestWrite rest)
  | _ :: rest => largestWrite rest

/-- The limits are the ones the device was attached with. -/
structure LimitsOf (cfg : Config) (s : State) : Prop where
  items : s.shared.statistics.maxQueueItems = cfg.maxQueueItems
  size : s.shared.statistics.maxQueueSize = cfg.maxQueueSize

theorem LimitsOf.step {cfg : Config} {s s' : State} (limits : LimitsOf cfg s) (moved : QueueMove s s') :
    LimitsOf cfg s' := by
  cases moved with
  | same frame => exact ⟨frame.maxQueueItems.trans limits.items, frame.maxQueueSize.trans limits.size⟩
  | insert _ shared => constructor <;> rw [shared] <;> [exact limits.items; exact limits.size]
  | clear _ frame => exact ⟨frame.maxQueueItems.trans limits.items, frame.maxQueueSize.trans limits.size⟩
  | remove _ shared => constructor <;> rw [shared] <;> [exact limits.items; exact limits.size]

theorem limits_of_run {cfg : Config} {as : List Action} {s : State}
    (run : Run State.step anyStep (.initial cfg) as s) : LimitsOf cfg s := by
  refine (run.preserves (fun s => Wf s ∧ LimitsOf cfg s) ⟨wf_initial cfg, rfl, rfl⟩ ?_).2
  rintro t a u ⟨wf, limits⟩ _ moved
  exact ⟨wf.step moved, limits.step (wf.queueMove moved)⟩

theorem lazyLength_le_largestWrite (as : List Action) (irp : Irp) (issued : .receive irp ∈ as) :
    irp.stack.lazyLength ≤ largestWrite as := by
  induction as with
  | nil => contradiction
  | cons a as ih =>
    rcases List.mem_cons.mp issued with rfl | later
    · exact le_max_left _ _
    · have rest := ih later
      cases a with
      | receive => exact rest.trans (le_max_right _ _)
      | _ => exact rest

/-- Every request a call works on was issued. -/
theorem lazyLength_le {cfg : Config} {as : List Action} {s : State} {longest : ℕ}
    (run : Run State.step anyStep (.initial cfg) as s)
    (lengths : ∀ irp, .receive irp ∈ as → irp.stack.lazyLength ≤ longest) (c : Call) (member : c ∈ s.calls) :
    c.irp.stack.lazyLength ≤ longest := by
  have received : ∀ irp ∈ s.irps, .receive irp ∈ as := by
    clear lengths member
    induction run with
    | nil => simp [State.irps, State.initial]
    | snoc before _ moved ih =>
      intro irp there
      rcases step_irps moved with same | ⟨new, rfl, added⟩
      · exact List.mem_append_left _ (ih irp (same ▸ there))
      · rw [added] at there
        rcases List.mem_append.mp there with old | last
        · exact List.mem_append_left _ (ih irp old)
        · rw [List.mem_singleton.mp last]
          exact List.mem_append_right _ (List.mem_singleton_self _)
  exact lengths c.irp (received _ (List.mem_map_of_mem member))

/-- A limit: the points between its test and the insertion, what an item weighs by its length, and
what the test found. -/
structure Gate where
  window : Pc → Bool
  weight : ℕ → ℤ
  passed : Shared → Prop
  limit : Config → ℤ

/-- What makes a gate bound the queue. -/
structure Gate.Sound (gate : Gate) : Prop where
  nonneg : ∀ length, 0 ≤ gate.weight length
  mono : ∀ {shorter longer : ℕ}, shorter ≤ longer → gate.weight shorter ≤ gate.weight longer
  inside : ∀ pc, gate.window pc → pc.inQueueIrp
  linking : ∀ item, gate.window (.lazyInsertTail item)
  outside : gate.window .entry = false ∧ gate.window .setEvent = false ∧ gate.window .lazySetEvent = false
  opens : ∀ {sh sh' : Shared} {i : ℕ} {c c' : Call} {out : Outcome}, CallStep sh i c out sh' c' →
    gate.window c'.pc → gate.window c.pc ∨ (gate.passed sh ∧ QueueFrame sh sh')
  bound : ∀ {cfg : Config} {s : State}, Accounted s → LimitsOf cfg s → gate.passed s.shared →
    s.shared.queue.tally (fun item => gate.weight item.length) ≤ gate.limit cfg - 1

def itemsGate : Gate where
  window := Pc.itemsWindow
  weight _ := 1
  passed sh := sh.statistics.writeQueueItems < sh.statistics.maxQueueItems
  limit cfg := cfg.maxQueueItems

def sizeGate : Gate where
  window := Pc.sizeWindow
  weight length := sizeofWriteQueueItem + length
  passed sh := sh.statistics.writeQueueSize < sh.statistics.maxQueueSize
  limit cfg := cfg.maxQueueSize

theorem itemsGate_sound : itemsGate.Sound where
  nonneg _ := zero_le_one
  mono _ := le_rfl
  inside pc inside := by cases pc <;> first | rfl | contradiction
  linking _ := rfl
  outside := ⟨rfl, rfl, rfl⟩
  opens moved inside := by
    simp only [itemsGate] at inside ⊢
    cases moved with
    | itemsBelow _ below => exact .inr ⟨below, by constructor <;> rfl⟩
    | lazyNewItem at_ => exact .inl (by rw [at_]; rfl)
    | lazyAcquireWrite at_ => exact .inl (by rw [at_]; rfl)
    | lazyAcquireFlush at_ => exact .inl (by rw [at_]; rfl)
    | lazyMapMdl at_ => exact .inl (by rw [at_]; rfl)
    | lazyNewPayload at_ => exact .inl (by rw [at_]; rfl)
    | entry _ _ entered => cases entered <;> simp [Call.afterEntry, Pc.itemsWindow] at inside
    | splitOn _ _ _ _ _ goes => rcases goes with ⟨_, rfl⟩ | ⟨_, rfl⟩ <;> simp [Pc.itemsWindow] at inside
    | finishScatter => simp [Pc.itemsWindow] at inside
    | forward => simp [sendToNextDriver, Pc.itemsWindow] at inside
    | _ => simp [Pc.itemsWindow] at inside
  bound {cfg s} accounted limits passed := by
    simp only [itemsGate] at passed ⊢
    rw [accounted.items, limits.items] at passed
    have counted := List.tally_ite (fun _ => true) 1 s.shared.queue
    simp only [if_true, List.countP_true] at counted
    omega

theorem sizeGate_sound : sizeGate.Sound where
  nonneg length := by simp only [sizeGate]; omega
  mono le := by simp only [sizeGate]; omega
  inside pc inside := by cases pc <;> first | rfl | contradiction
  linking _ := rfl
  outside := ⟨rfl, rfl, rfl⟩
  opens moved inside := by
    simp only [sizeGate] at inside ⊢
    cases moved with
    | sizeBelow _ below => exact .inr ⟨below, .refl _⟩
    | itemsBelow at_ => exact .inl (by rw [at_]; rfl)
    | lazyNewItem at_ => exact .inl (by rw [at_]; rfl)
    | lazyAcquireWrite at_ => exact .inl (by rw [at_]; rfl)
    | lazyAcquireFlush at_ => exact .inl (by rw [at_]; rfl)
    | lazyMapMdl at_ => exact .inl (by rw [at_]; rfl)
    | lazyNewPayload at_ => exact .inl (by rw [at_]; rfl)
    | entry _ _ entered =>
      cases entered <;> simp [Call.afterEntry, Pc.sizeWindow, Pc.itemsWindow] at inside
    | splitOn _ _ _ _ _ goes =>
      rcases goes with ⟨_, rfl⟩ | ⟨_, rfl⟩ <;> simp [Pc.sizeWindow, Pc.itemsWindow] at inside
    | finishScatter => simp [Pc.sizeWindow, Pc.itemsWindow] at inside
    | forward => simp [sendToNextDriver, Pc.sizeWindow, Pc.itemsWindow] at inside
    | _ => simp [Pc.sizeWindow, Pc.itemsWindow] at inside
  bound {cfg s} accounted limits passed := by
    simp only [sizeGate] at passed ⊢
    rw [accounted.size, limits.size] at passed
    exact Int.le_sub_one_of_lt passed

/-- The weight of the lazy items in the queue. -/
def Gate.queued (gate : Gate) (queue : List WriteQueueItem) : ℤ :=
  queue.tally fun item => if item.isLazy then gate.weight item.length else 0

/-- The weight of the requests between the test and the insertion. -/
def Gate.between (gate : Gate) (calls : List Call) : ℤ :=
  calls.tally fun c => if gate.window c.pc then gate.weight c.irp.stack.lazyLength else 0

namespace Gate.Sound

variable {gate : Gate} (sound : gate.Sound)
include sound

/-- Replacing a call by one that is not newly inside the window lets no weight in. -/
private theorem between_set {calls : List Call} {i : ℕ} {c : Call} (present : calls[i]? = some c) (c' : Call)
    (irp : c'.irp = c.irp) (inside : gate.window c'.pc → gate.window c.pc) :
    gate.between (calls.set i c') ≤ gate.between calls := by
  have nonneg := sound.nonneg c.irp.stack.lazyLength
  rw [Gate.between, List.tally_set present, irp, ← Gate.between]
  split_ifs with before after
  · omega
  · omega
  · next after => exact absurd (inside after) before
  · omega

/-- A step lets no more weight in than it had, unless a request passes the test in it. -/
theorem step {s s' : State} {a : Action} (wf : Wf s) (moved : s.step a = some s') :
    gate.queued s'.shared.queue + gate.between s'.calls ≤
        gate.queued s.shared.queue + gate.between s.calls ∨
      (gate.passed s.shared ∧ QueueFrame s.shared s'.shared) := by
  cases step_cases moved with
  | receive =>
    left
    simp [Gate.between, Call.receive, sound.outside.1]
  | @call i out c sh' c' present taken =>
    have here := (wf.calls _ _ present).atPc
    rcases taken.queue_cases with ⟨frame, -⟩ | ⟨item, charge, rfl, ⟨at_, -, rfl⟩ | ⟨at_, -, rfl⟩⟩
    · by_cases newly : gate.window c'.pc = true ∧ gate.window c.pc = false
      · rcases sound.opens taken newly.1 with was | passed
        · rw [newly.2] at was
          contradiction
        · exact .inr passed
      · left
        have between := sound.between_set present _ taken.irp (by
          intro inside
          by_contra out
          exact newly ⟨inside, by simpa using out⟩)
        change gate.queued sh'.queue + gate.between (s.calls.set i c') ≤ _
        rw [frame.queue]
        omega
    · left
      rw [Call.AtPc, at_] at here
      have between := sound.between_set present (c.goto .setEvent) rfl (by
        intro inside
        rw [Call.goto, sound.outside.2.1] at inside
        contradiction)
      change gate.queued (s.shared.queue ++ [item]) + gate.between (s.calls.set i (c.goto .setEvent)) ≤ _
      have light : gate.queued (s.shared.queue ++ [item]) = gate.queued s.shared.queue := by
        simp [Gate.queued, here.2.2.2]
      omega
    · left
      rw [Call.AtPc, at_] at here
      have between : gate.between (s.calls.set i (c.goto .lazySetEvent)) =
          gate.between s.calls - gate.weight c.irp.stack.lazyLength := by
        rw [Gate.between, List.tally_set present, ← Gate.between, at_, if_pos (sound.linking item)]
        simp [sound.outside.2.2]
      have heavier : gate.queued (s.shared.queue ++ [item]) =
          gate.queued s.shared.queue + gate.weight c.irp.stack.lazyLength := by
        simp [Gate.queued, here.2.2.2, lazyItem_length, IoStackLocation.lazyLength]
      change gate.queued (s.shared.queue ++ [item]) + gate.between (s.calls.set i (c.goto .lazySetEvent)) ≤ _
      omega
  | @lower _ i c sh' c' present taken =>
    left
    have between := sound.between_set present _ taken.irp (by rw [taken.pc]; exact id)
    change gate.queued sh'.queue + gate.between (s.calls.set i c') ≤ _
    rw [taken.queue.1.queue]
    omega
  | worker taken =>
    left
    cases taken with
    | @completeIrp _ _ i ioStatus item c at_ found holds present =>
      have between := sound.between_set present
        ({ c with information := ioStatus.information }.completeRequest .worker ioStatus.status) rfl id
      have cleared : gate.queued (State.clearIrp s.shared.queue item.addr) = gate.queued s.shared.queue :=
        tally_clearIrp (fun _ => rfl) _ _
      change gate.queued (State.clearIrp s.shared.queue item.addr) + gate.between (s.calls.set i _) ≤ _
      omega
    | unlink at_ found =>
      obtain ⟨head, rest, -, -, rfl, queue⟩ := wf.found_unlink at_ found
      change gate.queued (s.shared.removeEntryList _).queue + gate.between s.calls ≤ _
      rw [s.shared.removeEntryList_queue _ queue, queue]
      have nonneg := sound.nonneg head.length
      simp only [Gate.queued, List.tally_cons]
      split <;> omega
    | _ => exact le_rfl
  | remover taken =>
    left
    obtain ⟨frame, -, -, -, calls⟩ := taken.frame
    rw [frame.queue, calls]
  | initializeDevice => exact .inl le_rfl

theorem between_nonneg (calls : List Call) : 0 ≤ gate.between calls := by
  apply List.tally_nonneg
  intro c _
  split
  · exact sound.nonneg _
  · exact le_rfl

/-- The requests inside the window weigh at most what as many executing calls can weigh. -/
theorem between_le {calls : List Call} {heaviest : ℕ}
    (lengths : ∀ c ∈ calls, c.irp.stack.lazyLength ≤ heaviest) :
    gate.between calls ≤ (calls.countP fun c => c.pc.inQueueIrp : ℕ) * gate.weight heaviest := by
  rw [← List.tally_ite]
  apply List.tally_le_tally
  intro c member
  have light := sound.mono (lengths c member)
  have nonneg := sound.nonneg heaviest
  split_ifs with inside executing
  · exact light
  · exact absurd (sound.inside _ inside) executing
  · exact nonneg
  · exact le_rfl

/-- The lazy items weigh at most what the whole queue weighs. -/
theorem queued_le (queue : List WriteQueueItem) :
    gate.queued queue ≤ queue.tally fun item => gate.weight item.length := by
  apply List.tally_le_tally
  intro item _
  split
  · exact le_rfl
  · exact sound.nonneg _

/-- The bound of a gate in every state a run visits, when at most `k` calls execute at a time. -/
theorem bounded {cfg : Config} {as : List Action} {s : State} {k heaviest : ℕ}
    (run : Run State.step anyStep (.initial cfg) as s)
    (concurrent : ∀ t ∈ Visited State.step anyStep (.initial cfg) as, t.executing ≤ k)
    (lengths : ∀ irp, .receive irp ∈ as → irp.stack.lazyLength ≤ heaviest) (limit : 1 ≤ gate.limit cfg) :
    gate.queued s.shared.queue + gate.between s.calls ≤ gate.limit cfg - 1 + k * gate.weight heaviest := by
  have heavy : 0 ≤ gate.weight heaviest := sound.nonneg heaviest
  induction run with
  | nil =>
    have free : 0 ≤ (k : ℤ) * gate.weight heaviest := Int.mul_nonneg (by omega) heavy
    change (0 : ℤ) + 0 ≤ _
    omega
  | @snoc t u as a before admitted moved ih =>
    have run := before.snoc admitted moved
    rw [visited_snoc run] at concurrent
    have bound := ih (fun t member => concurrent t (.inr member))
      fun irp member => lengths irp (List.mem_append_left _ member)
    rcases sound.step (wf_of_run before) moved with less | ⟨passed, frame⟩
    · omega
    · have below := sound.bound (accounted_of_run before) (limits_of_run before) passed
      have queued := sound.queued_le t.shared.queue
      have between := sound.between_le fun c member => lazyLength_le run lengths c member
      have executing : (u.executing : ℤ) ≤ k := by exact_mod_cast concurrent u (.inl rfl)
      have scaled := Int.mul_le_mul_of_nonneg_right executing heavy
      rw [frame.queue]
      exact add_le_add (queued.trans below) (between.trans scaled)

end Gate.Sound

/-- In every reachable state the lazy items in the queue overshoot each limit by less than what the
calls of `QCacheQueueIrp` that can execute at a time could have brought. -/
theorem cache_limits_overshoot (cfg : Config) (as : List Action) (s : State) (k : ℕ)
    (someItems : 1 ≤ cfg.maxQueueItems) (someSize : 1 ≤ cfg.maxQueueSize)
    (run : Run State.step anyStep (.initial cfg) as s)
    (concurrent : ∀ t ∈ Visited State.step anyStep (.initial cfg) as, t.executing ≤ k) :
    ((s.shared.queue.filter WriteQueueItem.isLazy).length : ℤ) ≤ cfg.maxQueueItems + k - 1 ∧
      (s.shared.queue.filter WriteQueueItem.isLazy).tally WriteQueueItem.charge ≤
        cfg.maxQueueSize - 1 + k * (sizeofWriteQueueItem + largestWrite as) := by
  have lengths := lazyLength_le_largestWrite as
  have items : itemsGate.queued s.shared.queue + itemsGate.between s.calls ≤
      cfg.maxQueueItems - 1 + k * 1 := itemsGate_sound.bounded run concurrent lengths someItems
  have size : sizeGate.queued s.shared.queue + sizeGate.between s.calls ≤
      cfg.maxQueueSize - 1 + k * (sizeofWriteQueueItem + largestWrite as) :=
    sizeGate_sound.bounded run concurrent lengths someSize
  have nonneg := itemsGate_sound.between_nonneg s.calls
  have nonneg' := sizeGate_sound.between_nonneg s.calls
  constructor
  · have counted : itemsGate.queued s.shared.queue =
        ((s.shared.queue.filter WriteQueueItem.isLazy).length : ℤ) := by
      rw [← List.countP_eq_length_filter, ← List.tally_indicator]
      rfl
    omega
  · have charged : sizeGate.queued s.shared.queue =
        (s.shared.queue.filter WriteQueueItem.isLazy).tally WriteQueueItem.charge :=
      (List.tally_filter _ _ _).symm
    rw [← charged]
    omega

/-- Three flushes pass both tests before any of them is linked. -/
def threeFlushes : List Action :=
  [.receive flushRequest, .receive flushRequest, .receive flushRequest] ++
    callSteps 0 5 ++ callSteps 1 5 ++ callSteps 2 5 ++ callSteps 0 3 ++ callSteps 1 3 ++ callSteps 2 3

theorem cache_limits_overshoot_threeFlushes :
    ∃ s, Run State.step anyStep (.initial smallDevice) threeFlushes s ∧
      (s.shared.queue.filter WriteQueueItem.isLazy).length = 3 ∧
      ((s.shared.queue.filter WriteQueueItem.isLazy).length : ℤ) ≤ 2 + 3 - 1 := by
  have run := run_of_replay smallDevice threeFlushes (by decide +kernel)
  have concurrent := forall_visited_of_replay smallDevice threeFlushes (fun t => t.executing ≤ 3)
    (by decide +kernel)
  have bound := cache_limits_overshoot smallDevice threeFlushes _ 3 (by decide) (by decide) run
    fun t visited => of_decide_eq_true (concurrent t visited)
  exact ⟨_, run, by decide +kernel, bound.1⟩

end QueueCache
