import QueueCache.Proofs.Versions

/-! # Reads and writes of a sector

A write becomes visible when its item is queued lazily or when its sector reaches the disk, and is completed
no earlier. A read takes each sector from the queue under the lock, or from the disk at some later time. So
whatever versions a read could have found in the queue when it was issued, it returns none that is older, and
whatever it returns has been published by the time it is completed. The order of insertion is therefore an
order in which the reads and writes of a sector may be thought to happen one by one.
-/

namespace QueueCache

open Transition Overlay

/-- Clients read and write whole sectors of the device, every allocation succeeds, and the lower device serves
what it is sent in full. -/
def orderly (s : State) : Action → Bool
  | .receive irp => !irp.stack.isTransfer || (irp.stack.byteOffset % 512 = 0 && irp.stack.length % 512 = 0 &&
      irp.stack.onDevice s.shared.statistics.size)
  | .call _ out => out.memory
  | .worker memory => memory
  | .lowerComplete i n ioStatus => ((s.calls[i]?).bind fun c => c.lowerIrps[n]?).all fun lower =>
      ioStatus = ⟨STATUS_SUCCESS, lower.length⟩
  | .workerLowerComplete ioStatus =>
    match s.worker with
    | .lower request _ => request.majorFunction ≠ .write || ioStatus.inFull request.length
    | _ => true
  | _ => true

/-- What holds of the device in every state of such a run. -/
structure Orderly (disk : Bytes) (s : State) : Prop where
  wf : Wf s
  fifo : Fifo s
  diskOk : DiskOk disk s
  answered : Answered s
  admission : Admission s
  served : s.WritesServed
  requests : ∀ irp ∈ s.irps, irp.stack.isTransfer = true → irp.stack.byteOffset % 512 = 0 ∧
    irp.stack.length % 512 = 0 ∧ irp.stack.onDevice s.shared.statistics.size

theorem orderly_initial {cfg : Config} (sized : cfg.size ≠ 0) : Orderly cfg.disk (.initial cfg) where
  wf := wf_initial cfg
  fifo := fifo_initial cfg
  diskOk := diskOk_initial sized
  answered := answered_initial cfg
  admission := admission_initial cfg
  served answer member := by simp [State.initial] at member
  requests irp member := by simp [State.irps, State.initial] at member

namespace Orderly

variable {disk : Bytes} {s s' : State} {a : Action}

theorem size_eq (before : Orderly disk s) (moved : s.step a = some s') :
    s'.shared.statistics.size = s.shared.statistics.size := by
  obtain same | ⟨unknown, -⟩ := step_size moved
  · exact same
  · exact absurd unknown before.diskOk.sized

theorem step (before : Orderly disk s) (ok : orderly s a = true) (moved : s.step a = some s') : Orderly disk s' where
  wf := before.wf.step moved
  fifo := before.fifo.step before.wf moved
  diskOk := before.diskOk.step before.wf moved
  answered := before.answered.step before.wf before.fifo moved
  admission := before.admission.step before.wf moved
  served := by
    intro answer member writes
    cases before.fifo.progress before.wf moved with
    | same _ served => exact before.served answer (served ▸ member) writes
    | marker _ _ _ served => exact before.served answer (served ▸ member) writes
    | @answered request sectors ioStatus item rest label at_ shape sends past served =>
      rw [served] at member
      obtain old | new := List.mem_append.mp member
      · exact before.served answer old writes
      · obtain rfl := List.mem_singleton.mp new
        subst label
        have writes : request.majorFunction = .write := writes
        simpa [orderly, at_, writes] using ok
  requests := by
    rw [before.size_eq moved]
    obtain same | ⟨irp, rfl, more⟩ := step_irps moved
    · rw [same]
      exact before.requests
    · rw [more]
      intro other member transfers
      obtain old | new := List.mem_append.mp member
      · exact before.requests other old transfers
      · obtain rfl := List.mem_singleton.mp new
        simpa [orderly, transfers, and_assoc] using ok

theorem wholeSectors (now : Orderly disk s) : s.WholeSectors := by
  intro irp member writes
  obtain ⟨offset, length, -⟩ := now.requests irp member (by simp [IoStackLocation.isTransfer, writes])
  exact ⟨offset, length⟩

/-- A read of such a run passes the checks of `QCacheRead`, if there is anything to read. -/
theorem readAccepted (now : Orderly disk s) {i : ℕ} {c : Call} (present : s.calls[i]? = some c)
    (reads : c.irp.stack.majorFunction = .read) (nonempty : c.irp.stack.length ≠ 0) :
    c.irp.stack.ReadAccepted s.shared.statistics.size := by
  have member : c.irp ∈ s.irps := List.mem_map_of_mem (List.mem_of_getElem? present)
  obtain ⟨offset, length, inside⟩ := now.requests c.irp member (by simp [IoStackLocation.isTransfer, reads])
  exact ⟨reads, nonempty, offset, length, (endOfMedia_iff now.admission.range.2 nonempty).mpr (.inl inside)⟩

end Orderly

theorem orderly_of_run {disk : Bytes} {as : List Action} {s₀ s : State} (before : Orderly disk s₀)
    (run : Run State.step (fun t a => orderly t a = true) s₀ as s) : Orderly disk s :=
  run.preserves _ before fun _ _ _ now ok moved => now.step ok moved

/-- The buffer of a request at the addresses of the device. -/
def Call.onDevice (c : Call) : Bytes := fun x => c.buffer (x - c.irp.stack.byteOffset)

/-- Sector `k` of the read is a published version of the device's sector, none older than `floor` allows. -/
def Call.Current (disk : Bytes) (floor : ℤ → ℕ → Prop) (s : State) (c : Call) (k : ℕ) : Prop :=
  ∃ n, s.Published disk (sector c.irp.stack.byteOffset + k) n ∧
    Holds sector (versions disk s.written) (sector c.irp.stack.byteOffset + k) n c.onDevice ∧
    ∀ m, floor (sector c.irp.stack.byteOffset + k) m → m ≤ n

/-- What a read has found so far. Before its scan nothing; afterwards the marked sectors and those that have
arrived are current, and what is still to come cannot be too old any more. -/
inductive Call.Observes (disk : Bytes) (floor : ℤ → ℕ → Prop) (s : State) (c : Call) : Prop
  | waiting (at_ : c.pc = .entry ∨ c.pc = .scanQueue)
  | merging {bitmap : Bitmap} (merges : c.Merges bitmap)
      (marked : ∀ k < c.irp.stack.length / 512, bitmap k = true → c.Current disk floor s k)
      (settled : ∀ k < c.irp.stack.length / 512, bitmap k = false → ∀ m,
        floor (sector c.irp.stack.byteOffset + k) m → m ≤ s.settled (sector c.irp.stack.byteOffset + k))
      (filled : ∀ k < c.frontier, bitmap k = false → c.Awaits k ∨ c.Current disk floor s k)
  | refused (at_ : c.pc = .complete STATUS_DELETE_PENDING ∨ c.pc = .returned STATUS_DELETE_PENDING)
      (noParts : c.lowerIrps = [])
      (answers : ∀ ioStatus, c.answer = some ioStatus → ioStatus.status = STATUS_DELETE_PENDING)

section Observes

variable {disk : Bytes} {floor : ℤ → ℕ → Prop} {s s' : State} {a : Action} {i : ℕ} {c c' : Call}

/-- A sector of the buffer that stays as it is stays current. -/
theorem Call.Current.step {k : ℕ} (current : c.Current disk floor s k) (wf : Wf s) (moved : s.step a = some s')
    (irp : c'.irp = c.irp) (offset : c.irp.stack.byteOffset % 512 = 0)
    (buffer : ∀ x, sector x = k → c'.buffer x = c.buffer x) : c'.Current disk floor s' k := by
  obtain ⟨n, published, holds, newest⟩ := current
  rw [Call.Current, irp]
  refine ⟨n, published.step wf moved,
    (holds.mono ((step_grows moved).versions wf disk)).congr fun x inside => ?_, newest⟩
  rw [Call.onDevice, Call.onDevice, irp]
  exact buffer _ ((sector_sub offset).mp inside)

/-- A sector that arrives from the disk is current, when nothing the floor asks for is still to reach the disk. -/
theorem Orderly.current_of_disk (now : Orderly disk s) (moved : s.step a = some s')
    (floors : ∀ σ m, floor σ m → s.Published disk σ m) (irp : c'.irp = c.irp)
    (offset : c.irp.stack.byteOffset % 512 = 0) {k : ℕ}
    (settled : ∀ m, floor (sector c.irp.stack.byteOffset + k) m → m ≤ s.settled (sector c.irp.stack.byteOffset + k))
    (filled : ∀ x, sector x = k → c'.buffer x = s.shared.disk (c.irp.stack.byteOffset + x)) :
    c'.Current disk floor s' k := by
  obtain ⟨n, published, holds, newest⟩ := disk_version now.wf now.fifo now.diskOk now.served now.wholeSectors
    (sector c.irp.stack.byteOffset + k)
  rw [Call.Current, irp]
  refine ⟨n, published.step now.wf moved,
    (holds.mono ((step_grows moved).versions now.wf disk)).congr fun x inside => ?_,
    fun m below => newest m (floors _ m below) (settled m below)⟩
  rw [Call.onDevice, irp, filled _ ((sector_sub offset).mp inside), add_sub_cancel]

/-- The raw step of a dispatch call. -/
theorem step_call {out : Outcome} (present : s.calls[i]? = some c) (moved : s.step (.call i out) = some s') :
    ∃ sh c', callStep s.shared i c out = some (sh, c') ∧ s'.calls[i]? = some c' := by
  obtain ⟨d, there, moved⟩ := Option.bind_eq_some_iff.mp moved
  obtain rfl := Option.some.inj (present.symm.trans there)
  obtain ⟨⟨sh, c'⟩, taken, rfl⟩ := Option.map_eq_some_iff.mp moved
  exact ⟨sh, c', taken, List.getElem?_set_self (List.getElem?_eq_some_iff.mp present).1⟩

/-- In an orderly run a read past its scan gets what it asks for, or is refused the remove lock. -/
theorem readInFull_or_refused {bitmap : Bitmap} (ok : orderly s a = true) (present : s.calls[i]? = some c)
    (merges : c.Merges bitmap) : readInFull i s a = true ∨ ∃ out clearIndex clearBits, a = .call i out ∧
      c.pc = .createScatter bitmap clearIndex clearBits ∧ s.shared.canAcquire out.lock = false := by
  cases a with
  | call j out =>
    by_cases own : j = i
    · subst own
      have memory : out.memory = true := ok
      have point := merges.point
      cases at_ : c.pc <;> rw [at_] at point <;> first | contradiction | skip
      case createScatter bitmap' clearIndex clearBits =>
        obtain ⟨rfl, -⟩ := point
        cases granted : s.shared.canAcquire out.lock with
        | true => left; simp [readInFull, present, Call.granted, at_, granted, memory]
        | false => exact .inr ⟨out, clearIndex, clearBits, rfl, rfl, granted⟩
      all_goals
        left
        simp [readInFull, present, Call.granted, at_, memory]
    · left
      simp [readInFull, own]
  | lowerComplete j n ioStatus =>
    left
    by_cases own : j = i
    · subst own
      rw [orderly] at ok
      rw [readInFull, ok, Bool.or_true]
    · simp [readInFull, own]
  | _ => exact .inl rfl

/-- The scan finds the newest published version of every sector it marks, and leaves to the disk only sectors
whose published versions have all reached it. -/
theorem Orderly.observes_scan (now : Orderly disk s) (floors : ∀ σ m, floor σ m → s.Published disk σ m)
    (moved : s.step a = some s') (present : s.calls[i]? = some c)
    (accepted : c.irp.stack.ReadAccepted s.shared.statistics.size) (at_ : c.pc = .scanQueue) {out : Outcome}
    (taken : CallStep s.shared i c out s'.shared c') : c'.Observes disk floor s' := by
  obtain ⟨merges, buffer, awaits⟩ := taken.scanned now.admission.range.2 accepted
    (fun _ member => now.admission.queue now.wf member) (now.wf.calls i c present) at_
  have irp := taken.irp
  refine .merging merges (fun k below marked => ?_) (fun k below clear m low => ?_) fun k below clear =>
    .inl (awaits k below clear)
  · rw [irp] at below
    obtain ⟨n, published, holds, newest⟩ :=
      scan_version now.wf now.admission now.wholeSectors accepted c.buffer below marked
    rw [Call.Current, irp]
    refine ⟨n, published.step now.wf moved, (holds.mono ((step_grows moved).versions now.wf disk)).congr fun x _ => ?_,
      fun m low => newest m (floors _ m low)⟩
    rw [Call.onDevice, irp, buffer]
  · rw [irp] at below low ⊢
    have onDisk := scan_settled now.wf now.admission now.wholeSectors accepted c.buffer below clear (floors _ m low)
    exact onDisk.trans (step_settled moved _)

/-- One step of a read past its scan, or of anyone else meanwhile. -/
theorem Orderly.observes_merging {bitmap : Bitmap} (now : Orderly disk s)
    (floors : ∀ σ m, floor σ m → s.Published disk σ m) (moved : s.step a = some s') (move : CallMove s a s' i c')
    (present : s.calls[i]? = some c) (accepted : c.irp.stack.ReadAccepted s.shared.statistics.size)
    (full : readInFull i s a = true) (merges : c.Merges bitmap)
    (marked : ∀ k < c.irp.stack.length / 512, bitmap k = true → c.Current disk floor s k)
    (settled : ∀ k < c.irp.stack.length / 512, bitmap k = false → ∀ m,
      floor (sector c.irp.stack.byteOffset + k) m → m ≤ s.settled (sector c.irp.stack.byteOffset + k))
    (filled : ∀ k < c.frontier, bitmap k = false → c.Awaits k ∨ c.Current disk floor s k) :
    c'.Observes disk floor s' := by
  have offset := accepted.offset
  obtain ⟨irp, merges', advances⟩ :=
    move.merges present (now.wf.calls i c present) now.admission.range.2 accepted full merges
  refine .merging merges' (fun k below set => ?_) (fun k below clear m low => ?_) fun k below clear => ?_
  · rw [irp] at below
    exact (marked k below set).step now.wf moved irp offset (advances.kept k set)
  · rw [irp] at below low ⊢
    exact (settled k below clear m low).trans (step_settled moved _)
  · have inside : k < c.irp.stack.length / 512 := by
      rw [← irp]
      exact below.trans_le merges'.frontier_le
    obtain waits | fresh | ⟨earlier, idle, unchanged⟩ := advances.filled k below clear
    · exact .inl waits
    · exact .inr (now.current_of_disk moved floors irp offset (settled k inside clear) fresh)
    · obtain waits | current := filled k earlier clear
      · exact absurd waits idle
      · exact .inr (current.step now.wf moved irp offset unchanged)

/-- A read that is refused the remove lock reports so, and nothing else of it is left to happen. -/
theorem Call.Observes.refuse (ok : CallOk i c) (moved : s.step a = some s') (present : s.calls[i]? = some c)
    (present' : s'.calls[i]? = some c') {out : Outcome} (action : a = .call i out)
    (observes : (∃ bitmap clearIndex clearBits, c.pc = .createScatter bitmap clearIndex clearBits ∧
        s.shared.canAcquire out.lock = false) ∨ c.pc = .complete STATUS_DELETE_PENDING) :
    c'.Observes disk floor s' := by
  subst action
  obtain ⟨sh, d, taken, there⟩ := step_call present moved
  obtain rfl := Option.some.inj (present'.symm.trans there)
  have here := ok.atPc
  obtain ⟨bitmap, clearIndex, clearBits, at_, denied⟩ | at_ := observes
  · rw [Call.AtPc, at_] at here
    simp only [callStep, at_, denied, Bool.false_eq_true, if_false, Option.some.injEq, Prod.mk.injEq] at taken
    obtain ⟨-, rfl⟩ := taken
    exact .refused (.inl rfl) here.1.lowerIrps fun ioStatus answered =>
      (not_answered answered here.1.completions here.1.lowerStatus).elim
  · rw [Call.AtPc, at_] at here
    simp only [callStep, at_, Option.some.injEq, Prod.mk.injEq] at taken
    obtain ⟨-, rfl⟩ := taken
    refine .refused (.inr rfl) here.1.lowerIrps fun ioStatus answered => ?_
    have answered : (c.completeRequest .dispatch STATUS_DELETE_PENDING).answer = some ioStatus := answered
    rw [answer_completeRequest here.1.completions] at answered
    rw [← Option.some.inj answered]

theorem Orderly.observes_step (now : Orderly disk s) (floors : ∀ σ m, floor σ m → s.Published disk σ m)
    (ok : orderly s a = true) (moved : s.step a = some s') (present' : s'.calls[i]? = some c')
    (reads : c'.irp.stack.majorFunction = .read) (nonempty : c'.irp.stack.length ≠ 0)
    (before : ∀ c, s.calls[i]? = some c → c.irp = c'.irp → c.Observes disk floor s) : c'.Observes disk floor s' := by
  have move := now.wf.callMove moved present'
  have merging : ∀ {bitmap : Bitmap} {c : Call}, s.calls[i]? = some c → c.irp = c'.irp → c.Merges bitmap →
      (∀ k < c.irp.stack.length / 512, bitmap k = true → c.Current disk floor s k) →
      (∀ k < c.irp.stack.length / 512, bitmap k = false → ∀ m,
        floor (sector c.irp.stack.byteOffset + k) m → m ≤ s.settled (sector c.irp.stack.byteOffset + k)) →
      (∀ k < c.frontier, bitmap k = false → c.Awaits k ∨ c.Current disk floor s k) → c'.Observes disk floor s' := by
    intro bitmap c present irp merges marked settled filled
    have accepted := now.readAccepted present (irp ▸ reads) (irp ▸ nonempty)
    obtain full | ⟨out, clearIndex, clearBits, action, at_, denied⟩ := readInFull_or_refused ok present merges
    · exact now.observes_merging floors moved move present accepted full merges marked settled filled
    · exact .refuse (now.wf.calls i c present) moved present present' action (.inl ⟨_, _, _, at_, denied⟩)
  cases move with
  | received _ _ new =>
    rw [new]
    exact .waiting (.inl rfl)
  | @call out c action present taken =>
    have irp := taken.irp.symm
    have accepted := now.readAccepted present (irp ▸ reads) (irp ▸ nonempty)
    cases before c present irp with
    | waiting at_ =>
      obtain at_ | at_ := at_
      · subst action
        obtain ⟨sh, d, raw, there⟩ := step_call present moved
        obtain rfl := Option.some.inj (present'.symm.trans there)
        obtain ⟨rfl, -⟩ := callStep_accepted now.admission.range.2 accepted at_ ok raw
        exact .waiting (.inr rfl)
      · exact now.observes_scan floors moved present accepted at_ taken
    | merging merges marked settled filled => exact merging present irp merges marked settled filled
    | refused at_ =>
      obtain at_ | at_ := at_
      · exact .refuse (now.wf.calls i c present) moved present present' action (.inr at_)
      · exact absurd at_ (taken.not_returned _)
  | @lower c _ present taken =>
    have irp := taken.irp.symm
    cases before c present irp with
    | waiting at_ =>
      have here := (now.wf.calls i c present).atPc
      obtain at_ | at_ := at_ <;> rw [Call.AtPc, at_] at here <;> exact absurd here.1.lowerIrps taken.present
    | merging merges marked settled filled => exact merging present irp merges marked settled filled
    | refused _ noParts => exact absurd noParts taken.present
  | worker _ present held new =>
    rw [new] at reads
    exact absurd reads held.kind
  | still _ present =>
    cases before c' present rfl with
    | waiting at_ => exact .waiting at_
    | merging merges marked settled filled => exact merging present rfl merges marked settled filled
    | refused at_ noParts answers => exact .refused at_ noParts answers

end Observes

section Run

variable {disk : Bytes} {floor : ℤ → ℕ → Prop} {s₀ s : State} {as : List Action} {i : ℕ} {c : Call}

/-- A read that had not arrived in `s₀` observes nothing older than what could be seen there. -/
theorem observes_of_run (floor : ℤ → ℕ → Prop) (before : Orderly disk s₀)
    (run : Run State.step (fun t a => orderly t a = true) s₀ as s) (floors : ∀ σ m, floor σ m → s₀.Published disk σ m)
    (fresh : s₀.calls[i]? = none) (present : s.calls[i]? = some c)
    (reads : c.irp.stack.majorFunction = .read) (nonempty : c.irp.stack.length ≠ 0) : c.Observes disk floor s := by
  have all : Orderly disk s ∧ (∀ σ m, floor σ m → s.Published disk σ m) ∧ ∀ c, s.calls[i]? = some c →
      c.irp.stack.majorFunction = .read → c.irp.stack.length ≠ 0 → c.Observes disk floor s := by
    apply run.preserves (fun t => Orderly disk t ∧ (∀ σ m, floor σ m → t.Published disk σ m) ∧
      ∀ c, t.calls[i]? = some c → c.irp.stack.majorFunction = .read → c.irp.stack.length ≠ 0 → c.Observes disk floor t)
    · refine ⟨before, floors, fun c present => ?_⟩
      rw [fresh] at present
      contradiction
    · rintro t a u ⟨now, floors, observes⟩ ok moved
      refine ⟨now.step ok moved, fun σ m low => (floors σ m low).step now.wf moved,
        fun c' present' reads nonempty => ?_⟩
      apply now.observes_step floors ok moved present' reads nonempty
      intro c present irp
      rw [← irp] at reads nonempty
      exact observes c present reads nonempty
  exact all.2.2 c present reads nonempty

/-- A completed read is current in every sector, or has been refused the remove lock. -/
theorem Call.Observes.completed {ioStatus : IoStatusBlock} (observes : c.Observes disk floor s) (ok : CallOk i c)
    (reads : c.irp.stack.majorFunction = .read) (answered : c.answer = some ioStatus) :
    ioStatus.status = STATUS_DELETE_PENDING ∨ ∀ k < c.irp.stack.length / 512, c.Current disk floor s k := by
  obtain ⟨returned, noParts⟩ := ok.finished reads answered
  obtain ⟨status, left⟩ := Pc.hasReturned_iff.mp returned
  cases observes with
  | waiting at_ => obtain at_ | at_ := at_ <;> rw [at_] at left <;> contradiction
  | @merging bitmap merges marked settled filled =>
    right
    intro k below
    by_cases set : bitmap k = true
    · exact marked k below set
    · have atEnd : c.frontier = c.irp.stack.length / 512 := by
        rw [Call.frontier, left]
        rfl
      obtain (forward | ⟨lower, member, -⟩) | current := filled k (by rwa [atEnd]) (by simpa using set)
      · rw [left] at forward
        contradiction
      · rw [noParts] at member
        contradiction
      · exact current
  | refused _ _ answers => exact .inl (answers ioStatus answered)

/-- A request that has been completed is never inserted afterwards. -/
theorem inserted_of_completed {ok : State → Action → Prop} (wf : Wf s₀) (run : Run State.step ok s₀ as s)
    (present : s₀.calls[i]? = some c) (completed : c.completions ≠ []) {item : WriteQueueItem}
    (member : item ∈ s.shared.history.inserted) (addr : item.addr = i) : item ∈ s₀.shared.history.inserted := by
  have all : Wf s ∧ (∃ c, s.calls[i]? = some c ∧ c.completions ≠ []) ∧
      ∀ item ∈ s.shared.history.inserted, item.addr = i → item ∈ s₀.shared.history.inserted := by
    apply run.preserves (fun t => Wf t ∧ (∃ c, t.calls[i]? = some c ∧ c.completions ≠ []) ∧
      ∀ item ∈ t.shared.history.inserted, item.addr = i → item ∈ s₀.shared.history.inserted)
    · exact ⟨wf, ⟨c, present, completed⟩, fun _ there _ => there⟩
    · rintro t a u ⟨wf, ⟨c, present, completed⟩, logged⟩ - moved
      obtain ⟨c', present'⟩ := call_stays present moved
      have kept := (wf.callMove moved present').completions present
      refine ⟨wf.step moved, ⟨c', present', fun none => ?_⟩, ?_⟩
      · rw [none, List.prefix_nil] at kept
        exact completed kept
      cases wf.queueMove moved with
      | same frame =>
        rw [frame.inserted]
        exact logged
      | @insert j d item there shared made =>
        rw [shared]
        intro other member addr
        obtain old | new := List.mem_append.mp member
        · exact logged other old addr
        · obtain rfl := List.mem_singleton.mp new
          have here := (wf.calls j d there).atPc
          obtain ⟨at_, same⟩ | ⟨at_, same, -⟩ := made
          all_goals
            rw [same] at addr
            simp only [heldItem_addr, lazyItem_addr] at addr
            subst addr
            obtain rfl := Option.some.inj (present.symm.trans there)
            rw [Call.AtPc, at_] at here
            exact absurd here.1.completions completed
      | clear _ frame =>
        rw [frame.inserted]
        exact logged
      | remove _ shared =>
        rw [shared]
        exact logged
  exact all.2.2 item member addr

end Run

/-- The write that is version `n` of the log has been completed to its caller. -/
def State.WriteCompleted (s : State) (log : List WriteQueueItem) (n : ℕ) : Prop :=
  ∃ m item c, n = m + 1 ∧ log[m]? = some item ∧ s.calls[item.addr]? = some c ∧ c.completions ≠ []

/-- A read that has been completed with success returned version `n` of the sector. -/
def State.ReadReturned (s : State) (versions : List (ℤ → Option UInt8)) (σ : ℤ) (n : ℕ) : Prop :=
  ∃ (i : ℕ) (c : Call) (ioStatus : IoStatusBlock), s.calls[i]? = some c ∧ c.irp.stack.majorFunction = .read ∧
    c.answer = some ioStatus ∧ ntSuccess ioStatus.status = true ∧
    (∃ k < c.irp.stack.length / 512, sector c.irp.stack.byteOffset + k = σ) ∧ Holds sector versions σ n c.onDevice

/-- What has been completed before a state has been published by then. -/
theorem Orderly.published_of_completed {disk : Bytes} {s₀ s : State} {as : List Action} {σ : ℤ} {n : ℕ}
    (before : Orderly disk s₀) (run : Run State.step (fun t a => orderly t a = true) s₀ as s)
    (reaches : ∃ store, (versions disk s.written)[n]? = some store ∧ Reaches sector σ store)
    (completed : s₀.WriteCompleted s.shared.history.inserted n) : s₀.Published disk σ n := by
  obtain ⟨m, item, c, rfl, there, present, done⟩ := completed
  have grows := grows_of_run run
  have early := inserted_of_completed before.wf run present done (List.mem_of_getElem? there) rfl
  obtain ⟨m', inserted⟩ := List.getElem?_of_mem early
  have same : m' = m := by
    obtain ⟨more, longer⟩ := grows.inserted
    have inside := (List.getElem?_eq_some_iff.mp inserted).1
    have later : s.shared.history.inserted[m']? = some item := by
      rw [← longer, List.getElem?_append_left inside, inserted]
    have within := (List.getElem?_eq_some_iff.mp later).1
    exact (List.getElem?_inj within ((orderly_of_run before run).wf.nodup.of_map _)).mp (later.trans there.symm)
  subst same
  refine before.answered.published before.wf inserted present done ?_
  obtain ⟨store, version, reaches⟩ := reaches
  obtain ⟨more, longer⟩ := grows.versions before.wf disk
  have inside : m' + 1 < (versions disk s₀.written).length := by
    have bound := (List.getElem?_eq_some_iff.mp inserted).1
    simpa [versions, State.written] using bound
  exact ⟨store, by rw [← List.getElem?_append_left inside, longer, version], reaches⟩

/-- The cached volume is linearizable, sector by sector. Every sector of a completed read holds a version that had
been inserted by then (version zero being what the disk held first), and none of the later ones had been
completed to its writer, or returned by another read that was completed, when the read arrived. Only a read
that is refused the remove lock holds nothing. -/
theorem read_linearizable (cfg : Config) (as bs : List Action) (s₀ s : State) (irp : Irp) (c : Call)
    (ioStatus : IoStatusBlock) (sized : cfg.size ≠ 0)
    (before : Run State.step (fun t a => orderly t a = true) (.initial cfg) as s₀)
    (run : Run State.step (fun t a => orderly t a = true) s₀ (.receive irp :: bs) s)
    (reads : irp.stack.majorFunction = .read) (present : s.calls[s₀.calls.length]? = some c)
    (completed : c.answer = some ioStatus) (distinct : Distinct sector (versions cfg.disk s.written)) :
    ioStatus.status = STATUS_DELETE_PENDING ∨ ∀ k < irp.stack.length / 512,
      ∃ n, Holds sector (versions cfg.disk s.written) (sector irp.stack.byteOffset + k) n c.onDevice ∧
        ∀ m > n, (∃ store, (versions cfg.disk s.written)[m]? = some store ∧
            Reaches sector (sector irp.stack.byteOffset + k) store) →
          ¬ s₀.WriteCompleted s.shared.history.inserted m ∧
          ¬ s₀.ReadReturned (versions cfg.disk s.written) (sector irp.stack.byteOffset + k) m := by
  obtain rfl := irp_of_received run present
  by_cases empty : c.irp.stack.length = 0
  · right
    intro k below
    omega
  have start : Orderly cfg.disk (.initial cfg) := orderly_initial sized
  have issued := orderly_of_run start before
  have finished := orderly_of_run issued run
  have observes := observes_of_run (fun σ n => s₀.Published cfg.disk σ n) issued run (fun _ _ low => low)
    (List.getElem?_eq_none le_rfl) present reads empty
  refine (observes.completed (finished.wf.calls _ _ present) reads completed).imp id fun current k below => ?_
  obtain ⟨n, -, holds, newest⟩ := current k below
  refine ⟨n, holds, fun m later reaches => ⟨fun written => ?_, ?_⟩⟩
  · have bound := newest m (issued.published_of_completed run reaches written)
    omega
  · rintro ⟨j, d, answer, there, reads', answered, success, ⟨k', below', atSector⟩, returned⟩
    have nonempty : d.irp.stack.length ≠ 0 := by
      intro none
      rw [none] at below'
      omega
    have observed := observes_of_run (fun _ _ => False) start before (fun _ _ none => none.elim) rfl there
      reads' nonempty
    obtain refused | current' := observed.completed (issued.wf.calls _ _ there) reads' answered
    · rw [refused] at success
      contradiction
    · obtain ⟨n', published, holds', -⟩ := current' k' below'
      rw [atSector] at published holds'
      have same := distinct _ _ _ _ (holds'.mono ((grows_of_run run).versions issued.wf cfg.disk)) returned
      have bound := newest n' published
      omega

/-- The read that arrives behind the lazy write returns the bytes of the write. -/
theorem read_linearizable_readArrives :
    ∃ c n, (State.after smallDevice (readArrives ++ callSteps 1 3)).calls[1]? = some c ∧ 0 < n ∧
      Holds sector (versions smallDevice.disk (State.after smallDevice (readArrives ++ callSteps 1 3)).written) 0 n
        c.onDevice := by
  rw [readArrives, List.append_assoc, List.singleton_append]
  have before : Run State.step (fun t a => orderly t a = true) (.initial smallDevice) lazyWrite
    (.after smallDevice lazyWrite) := run_after (by decide +kernel)
  have run : Run State.step (fun t a => orderly t a = true) _ (.receive readSector0 :: callSteps 1 3)
    (State.after smallDevice (lazyWrite ++ .receive readSector0 :: callSteps 1 3)) :=
    run_between (by decide +kernel) (by decide +kernel)
  have reader := State.call_after
    (show ((State.after smallDevice (lazyWrite ++ .receive readSector0 :: callSteps 1 3)).calls[1]?).isSome by
      decide +kernel)
  have writer := State.call_after
    (show ((State.after smallDevice (lazyWrite ++ .receive readSector0 :: callSteps 1 3)).calls[0]?).isSome by
      decide +kernel)
  have issued := State.call_after (show ((State.after smallDevice lazyWrite).calls[0]?).isSome by decide +kernel)
  have addresses :
      (State.after smallDevice (lazyWrite ++ .receive readSector0 :: callSteps 1 3)).shared.history.inserted.map
        WriteQueueItem.addr = [0] := by decide +kernel
  obtain ⟨item, inserted, addr⟩ := List.map_eq_singleton_iff.mp addresses
  have written : (State.after smallDevice (lazyWrite ++ .receive readSector0 :: callSteps 1 3)).written =
      [(writeSector0 7).written] := by
    rw [State.written, inserted, List.map_singleton, WriteQueueItem.written_of_call (by rw [addr]; exact writer),
      irp_of_received (before.append run).toAny writer]
  have bytes : ∀ x, sector x = 0 → (writeSector0 7).written x = some 7 := by
    intro x inside
    simp only [sector] at inside
    exact if_pos ⟨rfl, by simp only [writeSector0]; omega, by simp only [writeSector0]; omega⟩
  have distinct : Distinct sector (versions smallDevice.disk [(writeSector0 7).written]) := by
    refine distinct_singleton fun k reaches => ?_
    have here := reaches (512 * k) (by simp only [sector]; omega)
    rw [Irp.written] at here
    split at here
    · next inside =>
      simp only [writeSector0] at inside
      refine ⟨0, by simp only [sector]; omega, ?_⟩
      rw [bytes 0 rfl]
      decide
    · contradiction
  obtain refused | returns :=
    read_linearizable smallDevice lazyWrite (callSteps 1 3) _ _ readSector0 _ ⟨STATUS_SUCCESS, 512⟩
    (by decide) before run rfl reader (by decide +kernel) (by rw [written]; exact distinct)
  · exact absurd refused (by decide)
  · obtain ⟨n, holds, newest⟩ := returns 0 (by decide)
    refine ⟨_, n, reader, ?_, holds⟩
    by_contra old
    obtain rfl : n = 0 := by omega
    refine (newest 1 Nat.one_pos ⟨(writeSector0 7).written, by rw [written]; rfl, fun x inside => ?_⟩).1
      ⟨0, item, _, rfl, by rw [inserted]; rfl, by rw [addr]; exact issued, by decide +kernel⟩
    rw [bytes x inside]
    rfl

end QueueCache
