import QueueCache.Proofs.Linearizability

/-! # One request at a time

A client that sends a request only when all earlier ones have been answered can forget the cache. What it
has written is inserted in the order of its requests, a request that is answered with success has been
inserted, and one that is answered with a failure never is; so the newest version of a sector is the one of
the last write that was answered with success, and a read can return no other. The disk catches up with it
when the queue has been drained.
-/

namespace QueueCache

open Transition Overlay

/-- A request arrives only when every earlier one has been answered. -/
def oneByOne (s : State) : Action → Bool
  | .receive _ => s.calls.all (·.answer.isSome)
  | _ => true

/-- What a request has done to the disk, as far as its caller was told. -/
def Call.effect (c : Call) : ℤ → Option UInt8 :=
  if c.answer.any (ntSuccess ·.status) then c.irp.written else fun _ => none

/-- The disk on which every request had its effect at once. -/
def plainDisk (disk : Bytes) (calls : List Call) : Bytes := replay disk (calls.map Call.effect)

section Call

variable {s s' : State} {a : Action} {i : ℕ} {c c' : Call} {item : WriteQueueItem} {ioStatus : IoStatusBlock}

/-- Nothing but the worker's completion happens to a call that has returned and has nothing below. -/
theorem CallMove.finished (move : CallMove s a s' i c') (present : s.calls[i]? = some c) (finished : c.finished) :
    c' = c ∨ c.Held := by
  obtain ⟨returned, noParts⟩ := finished
  cases move with
  | received _ fresh =>
    rw [fresh] at present
    contradiction
  | call _ there taken =>
    obtain rfl := Option.some.inj (present.symm.trans there)
    obtain ⟨status, at_⟩ := Pc.hasReturned_iff.mp returned
    exact absurd at_ (taken.not_returned _)
  | lower _ there taken =>
    obtain rfl := Option.some.inj (present.symm.trans there)
    exact absurd noParts taken.present
  | worker _ there held =>
    obtain rfl := Option.some.inj (present.symm.trans there)
    exact .inr held
  | still _ there =>
    obtain rfl := Option.some.inj (present.symm.trans there)
    exact .inl rfl

theorem CallMove.irp (move : CallMove s a s' i c') (present : s.calls[i]? = some c) : c'.irp = c.irp := by
  cases move with
  | received _ fresh =>
    rw [fresh] at present
    contradiction
  | call _ there taken =>
    obtain rfl := Option.some.inj (present.symm.trans there)
    exact taken.irp
  | lower _ there taken =>
    obtain rfl := Option.some.inj (present.symm.trans there)
    exact taken.irp
  | worker _ there _ new =>
    obtain rfl := Option.some.inj (present.symm.trans there)
    rw [new]
    rfl
  | still _ there => rw [Option.some.inj (present.symm.trans there)]

/-- A request that was answered below has been passed on and has come back. -/
theorem CallOk.finished_below (ok : CallOk i c) (below : c.lowerStatus ≠ none) : c.finished := by
  have here := ok.atPc
  cases at_ : c.pc <;> rw [Call.AtPc, at_] at here
  case returned status =>
    refine ⟨Pc.hasReturned_iff.mpr ⟨_, at_⟩, ?_⟩
    cases here with
    | completed _ _ _ _ _ _ _ _ lowerIrps => exact lowerIrps
    | forwarded _ _ _ _ passed =>
      obtain ⟨lower, -, -, waits⟩ | ⟨lowerIrps, -⟩ := passed
      · exact absurd waits below
      · exact lowerIrps
    | held _ held => exact absurd held.lowerStatus below
    | scattered _ scattered => exact absurd scattered.lowerStatus below
  case setEvent | split | finishScatter => exact absurd here.lowerStatus below
  all_goals exact absurd here.1.lowerStatus below

/-- Only the lower driver answers below. -/
theorem CallStep.lowerStatus {sh sh' : Shared} {out : Outcome} (taken : CallStep sh i c out sh' c') :
    c'.lowerStatus = c.lowerStatus := by
  cases taken with
  | finishScatter =>
    unfold scatterComplete
    dsimp only
    split <;> rfl
  | _ => rfl

/-- A write is never passed on, so it is not answered below. -/
theorem CallMove.lowerStatus (move : CallMove s a s' i c') (before : ∀ c, s.calls[i]? = some c → c.Routed ∧
    (c.irp.stack.majorFunction = .write → c.lowerStatus = none)) (writes : c'.irp.stack.majorFunction = .write) :
    c'.lowerStatus = none := by
  cases move with
  | received _ _ new =>
    rw [new]
    rfl
  | call _ present taken =>
    rw [taken.irp] at writes
    rw [taken.lowerStatus]
    exact (before _ present).2 writes
  | lower _ present taken =>
    rw [taken.irp] at writes
    exact absurd ((before _ present).1 writes).2 taken.present
  | worker _ present held new =>
    rw [new]
    exact held.lowerStatus
  | still _ present => exact (before _ present).2 writes

/-- An answer stays. -/
theorem CallMove.answer (move : CallMove s a s' i c') (present : s.calls[i]? = some c) (ok : CallOk i c)
    (answered : c.answer = some ioStatus) : c'.answer = some ioStatus := by
  obtain ⟨more, longer⟩ := move.completions present
  cases done : c.completions with
  | nil =>
    have below : c.lowerStatus ≠ none := fun none => not_answered answered done none
    obtain rfl | held := move.finished present (ok.finished_below below)
    · exact answered
    · exact absurd held.lowerStatus below
  | cons completion rest =>
    rw [Call.answer, done] at answered
    rw [Call.answer, ← longer, done]
    exact answered

/-- The worker has answered a linked request, or it was answered with success behind its lazy item. -/
theorem Linked.answered (linked : Linked item c) (ok : CallOk i c) (answered : c.answer = some ioStatus) :
    ∃ completion ∈ c.completions, ioStatus = ⟨completion.status, completion.information⟩ ∧
      (completion.site = .worker ∨ completion.status = STATUS_SUCCESS) := by
  have here := ok.atPc
  cases linked with
  | held same held at_ =>
    cases done : c.completions with
    | nil => exact (not_answered answered done held.lowerStatus).elim
    | cons completion rest =>
      rw [Call.answer, done] at answered
      exact ⟨completion, List.mem_cons_self, (Option.some.inj answered).symm,
        .inl (held.sites completion (done ▸ List.mem_cons_self))⟩
  | lazily same kind at_ =>
    obtain at_ | at_ | ⟨at_, completion, once, -⟩ := at_ <;> rw [Call.AtPc, at_] at here
    · exact (not_answered answered here.1.completions here.1.lowerStatus).elim
    · exact (not_answered answered here.1.completions here.1.lowerStatus).elim
    · rw [Call.answer, once] at answered
      refine ⟨completion, once ▸ List.mem_singleton_self _, (Option.some.inj answered).symm, .inr ?_⟩
      cases here with
      | completed other once' status =>
        obtain rfl := List.singleton_inj.mp (once.symm.trans once')
        exact status
      | forwarded _ _ none =>
        rw [none] at once
        contradiction
      | held status => exact absurd status (by decide)
      | scattered status => exact absurd status (by decide)

/-- A request that is not a write of anything has nothing to put on the device. -/
theorem Irp.written_of_empty {irp : Irp} (empty : irp.stack.majorFunction = .write → irp.stack.length = 0) :
    irp.written = fun _ => none := by
  funext x
  rw [Irp.written, if_neg]
  rintro ⟨writes, low, high⟩
  have none := empty writes
  omega

end Call

/-- The places of the requests whose items were inserted. -/
def State.places (s : State) : List ℕ := s.shared.history.inserted.map WriteQueueItem.addr

/-- What holds of the device when its client waits for every answer: the last request alone may be unanswered, so
the order of insertion is that of the requests. -/
structure Sequential (disk : Bytes) (s : State) : Prop where
  orderly : Orderly disk s
  last : ∀ (i : ℕ) (c : Call), s.calls[i]? = some c → c.answer = none → s.calls.length ≤ i + 1
  inOrder : s.places.Pairwise (· < ·)
  direct : ∀ (i : ℕ) (c : Call), s.calls[i]? = some c → c.irp.stack.majorFunction = .write → c.lowerStatus = none

theorem sequential_initial {cfg : Config} (sized : cfg.size ≠ 0) : Sequential cfg.disk (.initial cfg) where
  orderly := orderly_initial sized
  last i c present := by simp [State.initial] at present
  inOrder := List.Pairwise.nil
  direct i c present := by simp [State.initial] at present

section Step

variable {disk : Bytes} {s s' : State} {a : Action} {i : ℕ} {c c' : Call} {ioStatus : IoStatusBlock}

/-- What was inserted was inserted for a request that has arrived. -/
theorem Wf.places_lt (wf : Wf s) : ∀ addr ∈ s.places, addr < s.irps.length := by
  intro addr member
  obtain ⟨item, inserted, rfl⟩ := List.mem_map.mp member
  obtain ⟨c, present, -⟩ := wf.linked item inserted
  simpa [State.irps] using (List.getElem?_eq_some_iff.mp present).1

/-- Without an insertion what was written stays. -/
theorem Grows.written_eq (grows : Grows s s') (wf : Wf s)
    (same : s'.shared.history.inserted = s.shared.history.inserted) : s'.written = s.written := by
  refine ((grows.written wf).eq_of_length ?_).symm
  rw [State.written, State.written, same, List.length_map, List.length_map]

/-- A request that inserts its item has not been answered. -/
theorem QueueMove.inserts (move : QueueMove s s') (wf : Wf s) : s'.shared.history.inserted = s.shared.history.inserted ∨
    ∃ i c item, s.calls[i]? = some c ∧ c.answer = none ∧ c.irp.stack.majorFunction ≠ .read ∧ item.addr = i ∧
      s'.shared.history.inserted = s.shared.history.inserted ++ [item] := by
  cases move with
  | same frame => exact .inl frame.inserted
  | @insert i c item present shared made =>
    right
    have here := (wf.calls i c present).atPc
    refine ⟨i, c, item, present, ?_⟩
    obtain ⟨at_, rfl⟩ | ⟨at_, rfl, kind⟩ := made
    all_goals
      rw [Call.AtPc, at_] at here
      have unanswered : c.answer = none := by rw [Call.answer, here.1.completions, here.1.lowerStatus]
    · exact ⟨unanswered, here.2.2.1, rfl, by rw [shared]; rfl⟩
    · exact ⟨unanswered, lazyKind_not_read kind, lazyItem_addr _ _, by rw [shared]; rfl⟩
  | clear _ frame => exact .inl frame.inserted
  | remove _ shared => exact .inl (by rw [shared]; rfl)

namespace Sequential

theorem step (before : Sequential disk s) (ok : (QueueCache.orderly s a && oneByOne s a) = true)
    (moved : s.step a = some s') : Sequential disk s' := by
  have wf := before.orderly.wf
  obtain ⟨orderly, waited⟩ := Bool.and_eq_true_iff.mp ok
  refine ⟨before.orderly.step orderly moved, fun i c' present' unanswered => ?_, ?_, fun i c' present' writes => ?_⟩
  · have move := wf.callMove moved present'
    cases earlier : s.calls[i]? with
    | none =>
      have outside := List.getElem?_eq_none_iff.mp earlier
      have grown : s'.irps.length ≤ s.irps.length + 1 := by
        obtain same | ⟨irp, -, more⟩ := step_irps moved
        · rw [same]
          omega
        · rw [more, List.length_append, List.length_singleton]
      simp only [State.irps, List.length_map] at grown
      omega
    | some c =>
      have waits : c.answer = none := by
        cases answered : c.answer with
        | none => rfl
        | some ioStatus =>
          rw [move.answer earlier (wf.calls i c earlier) answered] at unanswered
          contradiction
      have bound := before.last i c earlier waits
      have same : s'.irps = s.irps := by
        obtain same | ⟨irp, rfl, -⟩ := step_irps moved
        · exact same
        · have all := List.all_eq_true.mp waited c (List.mem_of_getElem? earlier)
          rw [waits] at all
          contradiction
      have lengths := congrArg List.length same
      simp only [State.irps, List.length_map] at lengths
      omega
  · obtain same | ⟨i, c, item, present, unanswered, -, rfl, inserted⟩ := (wf.queueMove moved).inserts wf
    · rw [State.places, same]
      exact before.inOrder
    · rw [State.places, inserted, List.map_append, List.map_singleton]
      refine List.pairwise_append.mpr ⟨before.inOrder, List.pairwise_singleton _ _, fun addr member last there => ?_⟩
      obtain rfl := List.mem_singleton.mp there
      have bound := before.last _ c present unanswered
      have inside := wf.places_lt addr member
      have nodup := (wf.step moved).nodup
      rw [inserted, List.map_append, List.map_singleton] at nodup
      have other : addr ≠ item.addr :=
        fun same => List.disjoint_of_nodup_append nodup member (List.mem_singleton.mpr same)
      simp only [State.irps, List.length_map] at inside
      omega
  · refine (wf.callMove moved present').lowerStatus (fun c present => ?_) writes
    exact ⟨before.orderly.diskOk.routed i c present, before.direct i c present⟩

end Sequential

end Step

section Answered

variable {disk : Bytes} {s : State} {i : ℕ} {c : Call} {ioStatus : IoStatusBlock}

/-- Whatever has been inserted and answered has succeeded. -/
theorem Orderly.success_of_inserted (now : Orderly disk s) (present : s.calls[i]? = some c)
    (writes : c.irp.stack.majorFunction = .write) (answered : c.answer = some ioStatus)
    (inserted : i ∈ s.places) : ntSuccess ioStatus.status = true := by
  obtain ⟨item, member, rfl⟩ := List.mem_map.mp inserted
  obtain ⟨d, there, linked⟩ := now.wf.linked item member
  obtain rfl := Option.some.inj (present.symm.trans there)
  obtain ⟨completion, done, rfl, worker | success⟩ := linked.answered (now.wf.calls _ c present) answered
  · obtain ⟨-, served⟩ := (now.answered.calls _ c present).worker completion done worker
    have full := now.served _ (served (by simp [IoStackLocation.isMarker, writes])) writes
    rw [IoStatusBlock.inFull, Bool.and_eq_true] at full
    exact full.1
  · change ntSuccess completion.status = true
    rw [success]
    rfl

/-- A write of anything that has succeeded has been inserted. -/
theorem Sequential.inserted_of_success (now : Sequential disk s) (present : s.calls[i]? = some c)
    (writes : c.irp.stack.majorFunction = .write) (nonempty : c.irp.stack.length ≠ 0)
    (answered : c.answer = some ioStatus) (success : ntSuccess ioStatus.status = true) : i ∈ s.places := by
  have justified := now.orderly.answered.calls i c present
  cases done : c.completions with
  | nil => exact (not_answered answered done (now.direct i c present writes)).elim
  | cons completion rest =>
    have member : completion ∈ c.completions := done ▸ List.mem_cons_self
    rw [Call.answer, done] at answered
    obtain rfl := Option.some.inj answered
    cases site : completion.site with
    | dispatch =>
      have idle := justified.dispatch completion member site success
      simp [IoStackLocation.needsDevice, writes, nonempty] at idle
    | lazyWrite =>
      have there := (now.orderly.wf.recorded i c present).completed completion member site
      exact List.mem_map.mpr ⟨_, there, lazyItem_addr i c.irp⟩
    | worker =>
      obtain ⟨past, -⟩ := justified.worker completion member site
      exact List.mem_map.mpr ⟨_, List.mem_of_mem_take past, heldItem_addr i c.irp⟩
    | scatter =>
      rw [justified.scatter completion member site] at writes
      contradiction

/-- An answered request has had its effect exactly if it was inserted. -/
theorem Sequential.effect (now : Sequential disk s) (present : s.calls[i]? = some c)
    (answered : c.answer = some ioStatus) :
    c.effect = if i ∈ s.places then c.irp.written else fun _ => none := by
  have told : c.effect = if ntSuccess ioStatus.status = true then c.irp.written else fun _ => none := by
    rw [Call.effect, answered]
    rfl
  rw [told]
  by_cases empty : c.irp.stack.majorFunction = .write → c.irp.stack.length = 0
  · rw [Irp.written_of_empty empty, ite_self, ite_self]
  · obtain ⟨writes, nonempty⟩ := Classical.not_imp.mp empty
    have both : ntSuccess ioStatus.status = true ↔ i ∈ s.places :=
      ⟨now.inserted_of_success present writes nonempty answered,
        now.orderly.success_of_inserted present writes answered⟩
    simp only [both]

theorem State.written_eq_map (s : State) :
    s.written = s.places.map fun i => ((s.irps.map Irp.written)[i]?).getD fun _ => none := by
  rw [State.written, State.places, List.map_map]
  apply List.map_congr_left
  intro item _
  rw [Function.comp_apply, WriteQueueItem.written, List.getElem?_map]
  cases s.irps[item.addr]? <;> rfl

/-- If the first `m` writes are all of those that were inserted for the first `j` requests, and these requests have been
answered, the writes are what the requests have done. -/
theorem Sequential.replay_take (now : Sequential disk s) {m j : ℕ}
    (told : ∀ (i : ℕ) (c : Call), i < j → s.calls[i]? = some c → c.answer.isSome)
    (below : ∀ i ∈ s.places.take m, i < j) (above : ∀ i ∈ s.places.drop m, j ≤ i) :
    replay disk (s.written.take m) = plainDisk disk (s.calls.take j) := by
  have increasing : (s.places.take m).Pairwise (· < ·) := now.inOrder.sublist (List.take_sublist _ _)
  rw [s.written_eq_map, ← List.map_take, replay_chosen_take disk _ increasing below above,
    List.take_append_drop, plainDisk]
  · congr 1
    apply List.ext_getElem?
    intro i
    rw [chosen, List.getElem?_mapIdx, List.getElem?_take, List.getElem?_map, List.getElem?_map, List.getElem?_take,
      State.irps, List.getElem?_map]
    by_cases early : i < j
    · rw [if_pos early, if_pos early]
      cases present : s.calls[i]? with
      | none => rfl
      | some c =>
        obtain ⟨ioStatus, answered⟩ := Option.isSome_iff_exists.mp (told i c early present)
        simp only [Option.map_some, now.effect present answered]
    · rw [if_neg early, if_neg early]
      rfl
  · intro i member
    rw [List.length_map]
    exact now.orderly.wf.places_lt i (List.mem_of_mem_take member)

/-- When all requests have been answered, all that was written is what they have done, in their own order. -/
theorem Sequential.replay_written (now : Sequential disk s) (idle : ∀ c ∈ s.calls, c.answer.isSome) :
    replay disk s.written = plainDisk disk s.calls := by
  have inside : ∀ i ∈ s.places, i < s.calls.length := by
    intro i member
    simpa [State.irps] using now.orderly.wf.places_lt i member
  have all := now.replay_take (m := s.places.length) (j := s.calls.length)
    (fun i c _ present => idle c (List.mem_of_getElem? present)) (by rwa [List.take_length]) (by simp)
  rwa [s.written_eq_map, ← List.map_take, List.take_length, ← s.written_eq_map, List.take_length] at all

/-- When all requests have been answered, every version can be seen. -/
theorem Orderly.published_of_idle (now : Orderly disk s) (idle : ∀ c ∈ s.calls, c.answer.isSome) {σ : ℤ} {n : ℕ}
    (reaches : ∃ store, (versions disk s.written)[n]? = some store ∧ Reaches sector σ store) :
    s.Published disk σ n := by
  cases n with
  | zero => exact ⟨reaches, .inl (Nat.zero_le _)⟩
  | succ m =>
    obtain ⟨store, version, -⟩ := id reaches
    rw [versions, List.getElem?_cons_succ, State.written, List.getElem?_map] at version
    obtain ⟨item, inserted, -⟩ := Option.map_eq_some_iff.mp version
    obtain ⟨c, present, linked⟩ := now.wf.linked item (List.mem_of_getElem? inserted)
    obtain ⟨ioStatus, answered⟩ := Option.isSome_iff_exists.mp (idle c (List.mem_of_getElem? present))
    obtain ⟨completion, done, -⟩ := linked.answered (now.wf.calls _ c present) answered
    exact now.answered.published now.wf inserted present (List.ne_nil_of_mem done) reaches

end Answered

section Run

variable {disk : Bytes} {s₀ s : State} {as : List Action} {i : ℕ} {c : Call} {ioStatus : IoStatusBlock}

theorem sequential_of_run (before : Sequential disk s₀)
    (run : Run State.step (fun t a => (orderly t a && oneByOne t a) = true) s₀ as s) : Sequential disk s :=
  run.preserves _ before fun _ _ _ now ok moved => now.step ok moved

/-- A read that arrives when all requests have been answered, and that is answered before anything else is inserted,
returns all that was written before it. -/
theorem Orderly.read_written (issued : Orderly disk s₀) (idle : ∀ c ∈ s₀.calls, c.answer.isSome)
    (run : Run State.step (fun t a => orderly t a = true) s₀ as s) (fresh : s₀.calls[i]? = none)
    (same : s.shared.history.inserted = s₀.shared.history.inserted) (present : s.calls[i]? = some c)
    (reads : c.irp.stack.majorFunction = .read) (answered : c.answer = some ioStatus)
    (success : ntSuccess ioStatus.status = true) {x : ℤ} (low : 0 ≤ x) (high : x < c.irp.stack.length) :
    c.buffer x = replay disk s₀.written (c.irp.stack.byteOffset + x) := by
  have finished := orderly_of_run issued run
  have nonempty : c.irp.stack.length ≠ 0 := by omega
  have observes := observes_of_run (fun σ n => s₀.Published disk σ n) issued run (fun _ _ low => low) fresh present
    reads nonempty
  obtain refused | current := observes.completed (finished.wf.calls i c present) reads answered
  · rw [refused] at success
    contradiction
  · have accepted := finished.readAccepted present reads nonempty
    have offset := accepted.offset
    have length := accepted.length
    obtain ⟨n, -, holds, newest⟩ := current (x / 512).toNat (by omega)
    rw [(grows_of_run run).written_eq issued.wf same] at holds
    have atSector : sector (c.irp.stack.byteOffset + x) = sector c.irp.stack.byteOffset + (x / 512).toNat := by
      simp only [sector]
      omega
    have value := holds.newest issued.wholeSectors.blockwise
      (fun m store there reaches => newest m (issued.published_of_idle idle ⟨store, there, reaches⟩)) atSector
    rwa [Call.onDevice, add_sub_cancel_left] at value

/-- While a read that arrived in `s₀` is unanswered nothing is inserted, and its answer is what was written before
it. -/
structure Call.ReadsBack (disk : Bytes) (s₀ s : State) (c : Call) : Prop where
  alone : c.answer = none → s.shared.history.inserted = s₀.shared.history.inserted
  returned : ∀ ioStatus, c.answer = some ioStatus → ntSuccess ioStatus.status = true → ∀ x : ℤ, 0 ≤ x →
    x < c.irp.stack.length → c.buffer x = replay disk s₀.written (c.irp.stack.byteOffset + x)

/-- What the last request is waiting for, nobody else disturbs. -/
theorem Orderly.readsBack_step {s' : State} {a : Action} (issued : Orderly disk s₀)
    (idle : ∀ c ∈ s₀.calls, c.answer.isSome) (fresh : s₀.calls[i]? = none) (now : Sequential disk s)
    (run : Run State.step (fun t a => orderly t a = true) s₀ as s) (ok : orderly s a = true)
    (moved : s.step a = some s') (present : s.calls[i]? = some c) (reads : c.irp.stack.majorFunction = .read)
    (before : c.ReadsBack disk s₀ s) :
    ∃ c', s'.calls[i]? = some c' ∧ c'.irp = c.irp ∧ c'.ReadsBack disk s₀ s' := by
  obtain ⟨c', present'⟩ := call_stays present moved
  have wf := now.orderly.wf
  have move := wf.callMove moved present'
  have irp := move.irp present
  refine ⟨c', present', irp, ?_⟩
  cases told : c.answer with
  | some ioStatus =>
    have ended := (wf.calls i c present).finished reads told
    obtain rfl | held := move.finished present ended
    · refine ⟨fun none => ?_, before.returned⟩
      rw [told] at none
      contradiction
    · exact absurd reads held.kind
  | none =>
    have same : s'.shared.history.inserted = s₀.shared.history.inserted := by
      rw [← before.alone told]
      obtain same | ⟨j, d, item, there, unanswered, notRead, -⟩ := (wf.queueMove moved).inserts wf
      · exact same
      · have here := now.last i c present told
        have last := now.last j d there unanswered
        have inside := (List.getElem?_eq_some_iff.mp present).1
        have within := (List.getElem?_eq_some_iff.mp there).1
        obtain rfl : j = i := by omega
        obtain rfl := Option.some.inj (present.symm.trans there)
        exact absurd reads notRead
    refine ⟨fun _ => same, fun ioStatus answered success x low high => ?_⟩
    rw [← irp] at reads
    exact issued.read_written idle (.snoc run ok moved) fresh same present' reads answered success low high

/-- A client that waits for every answer sees a plain disk: a read that succeeds returns what the writes before it
that were answered with success have left there, byte by byte. -/
theorem reads_plain_disk (cfg : Config) (as bs : List Action) (s₀ s : State) (irp : Irp) (c : Call)
    (ioStatus : IoStatusBlock) (sized : cfg.size ≠ 0)
    (before : Run State.step (fun t a => (orderly t a && oneByOne t a) = true) (.initial cfg) as s₀)
    (run : Run State.step (fun t a => (orderly t a && oneByOne t a) = true) s₀ (.receive irp :: bs) s)
    (reads : irp.stack.majorFunction = .read) (present : s.calls[s₀.calls.length]? = some c)
    (answered : c.answer = some ioStatus) (success : ntSuccess ioStatus.status = true) :
    ∀ x : ℤ, 0 ≤ x → x < irp.stack.length → c.buffer x = plainDisk cfg.disk s₀.calls (irp.stack.byteOffset + x) := by
  have issued := sequential_of_run (sequential_initial sized) before
  obtain ⟨s₁, ok, arrives, rest⟩ := run.uncons
  have idle : ∀ c ∈ s₀.calls, c.answer.isSome := List.all_eq_true.mp (Bool.and_eq_true_iff.mp ok).2
  obtain rfl : s₁ = { s₀ with calls := s₀.calls ++ [.receive irp] } := by
    cases step_cases arrives with
    | receive => rfl
    | lower _ taken => cases taken
    | worker taken => cases taken
  have fresh : s₀.calls[s₀.calls.length]? = none := List.getElem?_eq_none le_rfl
  have all : Sequential cfg.disk s ∧ (∃ cs, Run State.step (fun t a => orderly t a = true) s₀ cs s) ∧
      ∃ c, s.calls[s₀.calls.length]? = some c ∧ c.irp = irp ∧ c.ReadsBack cfg.disk s₀ s := by
    apply rest.preserves (fun t => Sequential cfg.disk t ∧
      (∃ cs, Run State.step (fun t a => orderly t a = true) s₀ cs t) ∧
      ∃ c, t.calls[s₀.calls.length]? = some c ∧ c.irp = irp ∧ c.ReadsBack cfg.disk s₀ t)
    · refine ⟨issued.step ok arrives, ⟨_, .single (Bool.and_eq_true_iff.mp ok).1 arrives⟩, .receive irp,
        List.getElem?_concat_length, rfl, fun _ => rfl, fun ioStatus answered => ?_⟩
      contradiction
    · rintro t a u ⟨now, ⟨cs, past⟩, c, present, rfl, reading⟩ ok moved
      have fine := (Bool.and_eq_true_iff.mp ok).1
      exact ⟨now.step ok moved, ⟨_, past.snoc fine moved⟩,
        issued.orderly.readsBack_step idle fresh now past fine moved present reads reading⟩
  obtain ⟨-, -, d, there, rfl, reading⟩ := all
  obtain rfl := Option.some.inj (present.symm.trans there)
  rw [← issued.replay_written idle]
  exact reading.returned ioStatus answered success

/-- The read that arrives behind the lazy write returns what a plain disk has there. -/
theorem reads_plain_disk_readArrives :
    ∃ c, (State.after smallDevice (lazyWrite ++ .receive readSector0 :: callSteps 1 3)).calls[1]? = some c ∧
      plainDisk smallDevice.disk (State.after smallDevice lazyWrite).calls 0 = 7 ∧
      ∀ x : ℤ, 0 ≤ x → x < 512 → c.buffer x =
        plainDisk smallDevice.disk (State.after smallDevice lazyWrite).calls x := by
  have before : Run State.step (fun t a => (orderly t a && oneByOne t a) = true) (.initial smallDevice) lazyWrite
    (.after smallDevice lazyWrite) := run_after (by decide +kernel)
  have run : Run State.step (fun t a => (orderly t a && oneByOne t a) = true) _ (.receive readSector0 :: callSteps 1 3)
    (State.after smallDevice (lazyWrite ++ .receive readSector0 :: callSteps 1 3)) :=
    run_between (by decide +kernel) (by decide +kernel)
  have reader := State.call_after
    (show ((State.after smallDevice (lazyWrite ++ .receive readSector0 :: callSteps 1 3)).calls[1]?).isSome by
      decide +kernel)
  refine ⟨_, reader, by decide +kernel, fun x low high => ?_⟩
  have plain :=
    reads_plain_disk smallDevice lazyWrite (callSteps 1 3) _ _ readSector0 _ ⟨STATUS_SUCCESS, 512⟩ (by decide)
    before run rfl reader (by decide +kernel) rfl x low high
  rwa [show readSector0.stack.byteOffset + x = x from zero_add x] at plain

/-- When all requests have been answered and the queue has been drained, the disk below is the plain disk. -/
theorem drained_plain_disk (cfg : Config) (as : List Action) (s : State) (sized : cfg.size ≠ 0)
    (run : Run State.step (fun t a => (orderly t a && oneByOne t a) = true) (.initial cfg) as s)
    (idle : ∀ c ∈ s.calls, c.answer.isSome) (drained : s.shared.queue = []) :
    s.shared.disk = plainDisk cfg.disk s.calls := by
  have now := sequential_of_run (sequential_initial sized) run
  have wf := now.orderly.wf
  have same := wf.queue_map (fun _ => rfl : ∀ item : WriteQueueItem, { item with irp := none }.addr = item.addr)
  rw [drained, List.map_nil, eq_comm, List.map_eq_nil_iff, State.pending, List.drop_eq_nil_iff] at same
  funext x
  have all : s.written.take (s.settled (sector x)) = s.written := by
    apply List.take_of_length_le
    rw [State.written, List.length_map, State.settled]
    omega
  rw [disk_settled wf now.orderly.fifo now.orderly.diskOk now.orderly.served, all, now.replay_written idle]

/-- A lazy write is answered, and the worker puts it on the disk. -/
def lazyWriteDrained : List Action :=
  lazyWrite ++ (workerSteps 2 ++ [.workerTransfer 0, .workerLowerComplete ⟨STATUS_SUCCESS, 512⟩] ++ workerSteps 2)

theorem drained_plain_disk_lazyWrite : (State.after smallDevice lazyWriteDrained).shared.disk =
    plainDisk smallDevice.disk (State.after smallDevice lazyWriteDrained).calls :=
  drained_plain_disk smallDevice lazyWriteDrained _ (by decide) (run_after (by decide +kernel)) (by decide +kernel)
    (List.isEmpty_iff.mp (by decide +kernel))

end Run

end QueueCache
